import Mathlib

/-!
# Texts joined by a separator

When two texts `a ++ sep ++ b` can be told apart again: if the first parts have one length,
or hold the separator equally often. Nothing else is true of free texts, since a separator
inside a part moves the cut.

## Key results

- `List.append_cons_inj_of_count`: the cut of a list at a separator is fixed by the number of
  separators before it
- `String.append_sep_inj_of_length`, `String.append_sep_inj_of_count`: the same for texts
-/

namespace List

variable {α : Type*} [DecidableEq α]

/-- Two cuts of one list at a separator are the same cut if as many separators stand before
    the one as before the other. -/
theorem append_cons_inj_of_count {x : α} {a a' b b' : List α} (hc : a.count x = a'.count x)
    (h : a ++ x :: b = a' ++ x :: b') : a = a' ∧ b = b' := by
  induction a generalizing a' with
  | nil =>
    cases a' with
    | nil =>
      simp only [nil_append, cons.injEq, true_and] at h
      exact ⟨rfl, h⟩
    | cons y a' =>
      -- the other cut is further right, so it has the separator before it
      simp only [nil_append, cons_append, cons.injEq] at h
      rw [← h.1, count_nil, count_cons_self] at hc
      omega
  | cons y a ih =>
    cases a' with
    | nil =>
      simp only [nil_append, cons_append, cons.injEq] at h
      rw [h.1, count_nil, count_cons_self] at hc
      omega
    | cons z a' =>
      simp only [cons_append, cons.injEq] at h
      obtain ⟨rfl, h⟩ := h
      rw [count_cons, count_cons, Nat.add_right_cancel_iff] at hc
      obtain ⟨rfl, rfl⟩ := ih hc h
      exact ⟨rfl, rfl⟩

end List

namespace String

/-- How often a character stands in a text. -/
def occurrences (c : Char) (s : String) : ℕ := s.toList.count c

section Separator

variable {sep : String} {c : Char} {a a' b b' : String} (hsep : sep.toList = [c])
include hsep

theorem toList_append_sep (a b : String) : (a ++ sep ++ b).toList = a.toList ++ c :: b.toList := by
  simp only [toList_append, hsep, List.append_assoc, List.singleton_append]

/-- First parts that hold the separator equally often are told apart. -/
theorem append_sep_inj_of_count (hc : a.occurrences c = a'.occurrences c)
    (h : a ++ sep ++ b = a' ++ sep ++ b') : a = a' ∧ b = b' := by
  have hlist := congrArg toList h
  rw [toList_append_sep hsep, toList_append_sep hsep] at hlist
  obtain ⟨ha, hb⟩ := List.append_cons_inj_of_count hc hlist
  exact ⟨toList_inj.mp ha, toList_inj.mp hb⟩

end Separator

/-- First parts of one length are told apart, whatever stands between. -/
theorem append_sep_inj_of_length {sep a a' b b' : String}
    (hlen : a.toList.length = a'.toList.length) (h : a ++ sep ++ b = a' ++ sep ++ b') :
    a = a' ∧ b = b' := by
  have hlist := congrArg toList h
  simp only [toList_append, List.append_assoc] at hlist
  obtain ⟨ha, hb⟩ := List.append_inj hlist hlen
  exact ⟨toList_inj.mp ha, toList_inj.mp (List.append_cancel_left hb)⟩

end String
