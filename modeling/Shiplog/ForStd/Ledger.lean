import Mathlib

/-!
# Ledgers of revisions

A ledger keeps, for each of many items, the revisions accepted of it, in the order of their
arrival. A revision is accepted if its version is new and it says something else than the
current one, the last to arrive among those of the latest date. Generic: items, versions,
contents and dates are of any types.
-/

/-- A revision of an item: its version, and what it says. -/
structure Revision (V C : Type*) where
  version : V
  content : C

/-- What becomes of a revision handed in: it is the item's first, it is a later one, or it is
    not accepted. -/
inductive Receipt where
  | first
  | later
  | known
deriving DecidableEq

/-- The revisions accepted of each item, oldest first. -/
abbrev Ledger (K V C : Type*) := K → List (Revision V C)

namespace Ledger

variable {K V C D : Type*} [DecidableEq K] [DecidableEq V] [DecidableEq C] [Preorder D]
  [DecidableLT D] (date : C → D)

/-- The current revision of an item. -/
def current (history : List (Revision V C)) : Option (Revision V C) :=
  history.reverse.argmax fun rev => date rev.content

/-- Whether a revision has a new version and other content than the current one. -/
def IsNews (history : List (Revision V C)) (rev : Revision V C) : Prop :=
  (∀ old ∈ history, old.version ≠ rev.version) ∧
    ∀ cur ∈ current date history, cur.content ≠ rev.content

instance (history : List (Revision V C)) (rev : Revision V C) :
    Decidable (IsNews date history rev) := by
  unfold IsNews
  infer_instance

/-- Hand in a revision of an item. -/
def record (entry : K × Revision V C) (ledger : Ledger K V C) :
    Receipt × Ledger K V C :=
  if IsNews date (ledger entry.1) entry.2 then
    (if ledger entry.1 = [] then .first else .later,
      Function.update ledger entry.1 (ledger entry.1 ++ [entry.2]))
  else (.known, ledger)

variable {date} {entry : K × Revision V C} {ledger : Ledger K V C}

theorem record_of_not_isNews (h : ¬ IsNews date (ledger entry.1) entry.2) :
    record date entry ledger = (.known, ledger) := if_neg h

theorem record_of_isNews (h : IsNews date (ledger entry.1) entry.2) :
    record date entry ledger = (if ledger entry.1 = [] then .first else .later,
      Function.update ledger entry.1 (ledger entry.1 ++ [entry.2])) := if_pos h

end Ledger
