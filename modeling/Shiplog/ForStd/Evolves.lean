import Shiplog.ForStd.Upsert

/-!
# Lists that keep their entries

A collection into which documents are inserted and whose documents are changed in place, but
from which none is taken away. `List.Evolves R l l'` says so of two of its states: `l'` has an
entry for every entry of `l` at the same place, changed as `R` admits, and possibly more
behind them.

## Key results

- `List.Evolves.trans`: over a run it is enough to look at one change at a time
- `List.evolves_upsert`, `List.evolves_updateOne`, `List.evolves_put`: the writes of
  `Shiplog.ForStd.Upsert`
- `List.Evolves.find?`: what is found by a test that the changes keep is found again
-/

namespace List

variable {α β κ : Type*} {R : α → α → Prop} {l l' l'' : List α}

/-- `l'` continues `l`: its first entries are those of `l`, each changed as `R` admits. -/
inductive Evolves (R : α → α → Prop) : List α → List α → Prop where
  | nil (more : List α) : Evolves R [] more
  | cons {a b : α} {l l' : List α} (hab : R a b) (h : Evolves R l l') :
      Evolves R (a :: l) (b :: l')

theorem Evolves.refl (hR : ∀ a, R a a) (l : List α) : Evolves R l l := by
  induction l with
  | nil => exact .nil []
  | cons a l ih => exact .cons (hR a) ih

/-- Two changes make one. -/
theorem Evolves.trans (hR : ∀ a b c, R a b → R b c → R a c) (h : Evolves R l l')
    (h' : Evolves R l' l'') : Evolves R l l'' := by
  induction h generalizing l'' with
  | nil more => exact .nil l''
  | cons hab _ ih =>
    cases h' with
    | cons hbc h' => exact .cons (hR _ _ _ hab hbc) (ih h')

theorem evolves_append (hR : ∀ a, R a a) (l more : List α) : Evolves R l (l ++ more) := by
  induction l with
  | nil => exact .nil more
  | cons a l ih => exact .cons (hR a) ih

/-- An entry found or inserted. -/
theorem evolves_upsert {p : α → Bool} {change : α → α} (hR : ∀ a, R a a)
    (hchange : ∀ a, p a = true → R a (change a)) (new : α) (l : List α) :
    Evolves R l (l.upsert p change new) := by
  induction l with
  | nil => exact .nil [new]
  | cons a l ih =>
    simp only [upsert]
    split
    · next hp => exact .cons (hchange a hp) (.refl hR l)
    · exact .cons (hR a) ih

/-- An entry found or none. -/
theorem evolves_updateOne {p : α → Bool} {change : α → α} (hR : ∀ a, R a a)
    (hchange : ∀ a, p a = true → R a (change a)) (l : List α) :
    Evolves R l (l.updateOne p change) := by
  induction l with
  | nil => exact .nil []
  | cons a l ih =>
    simp only [updateOne]
    split
    · next hp => exact .cons (hchange a hp) (.refl hR l)
    · exact .cons (hR a) ih

/-- An entry stored under its key. -/
theorem evolves_put [DecidableEq κ] {key : α → κ} (hR : ∀ a, R a a) {a : α}
    (ha : ∀ b, key b = key a → R b a) (l : List α) : Evolves R l (l.put key a) :=
  evolves_upsert hR (fun b hb => ha b (of_decide_eq_true hb)) a l

/-- Every entry is still there, changed or not. -/
theorem Evolves.exists_mem (h : Evolves R l l') {a : α} (ha : a ∈ l) : ∃ b ∈ l', R a b := by
  induction h with
  | nil more => exact absurd ha not_mem_nil
  | cons hab _ ih =>
    cases mem_cons.mp ha with
    | inl heq => exact ⟨_, mem_cons_self, heq ▸ hab⟩
    | inr ha =>
      obtain ⟨b, hb, hR⟩ := ih ha
      exact ⟨b, mem_cons_of_mem _ hb, hR⟩

/-- Where the changes keep the outcome of a test, its first match keeps its place. -/
theorem Evolves.find? (h : Evolves R l l') {p : α → Bool} (hp : ∀ a b, R a b → p b = p a) {a : α}
    (ha : l.find? p = some a) : ∃ b, l'.find? p = some b ∧ R a b := by
  induction h with
  | nil more => exact nomatch ha
  | @cons c d l l' hcd _ ih =>
    rw [find?_cons] at ha ⊢
    rw [hp c d hcd]
    cases hpc : p c with
    | true =>
      rw [hpc] at ha
      cases ha
      exact ⟨d, rfl, hcd⟩
    | false =>
      rw [hpc] at ha
      exact ih ha

end List
