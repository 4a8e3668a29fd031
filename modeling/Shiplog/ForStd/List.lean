import Mathlib

/-!
# List lemmas for the standard library

Facts about `List.set`, `List.filter`, sorted lists and `List.argmax` that the pool semantics
and the proofs about the collections need and that mention nothing of either.
-/

namespace List

variable {α β : Type*}

/-- Replacing one entry of a list moves a sum over it by that entry's difference. -/
theorem sum_map_set (f : α → ℕ) (l : List α) (i : ℕ) (a b : α) (hi : l[i]? = some a) :
    ((l.set i b).map f).sum + f a = (l.map f).sum + f b := by
  induction l generalizing i with
  | nil => simp at hi
  | cons x xs ih =>
    cases i with
    | zero =>
      simp only [getElem?_cons_zero, Option.some.injEq] at hi
      subst hi
      simp only [set_cons_zero, map_cons, sum_cons]
      omega
    | succ i =>
      simp only [getElem?_cons_succ] at hi
      simp only [set_cons_succ, map_cons, sum_cons]
      have := ih i hi
      omega

/-- Replacing one entry moves what is collected over the list by what that entry gives. -/
theorem perm_flatMap_set (f : α → List β) (l : List α) (i : ℕ) (a b : α) (hi : l[i]? = some a) :
    (f a ++ (l.set i b).flatMap f).Perm (f b ++ l.flatMap f) := by
  induction l generalizing i with
  | nil => simp at hi
  | cons x xs ih =>
    cases i with
    | zero =>
      simp only [getElem?_cons_zero, Option.some.injEq] at hi
      subst hi
      exact perm_append_comm_assoc _ _ _
    | succ i =>
      simp only [getElem?_cons_succ] at hi
      simp only [set_cons_succ, flatMap_cons]
      exact (perm_append_comm_assoc _ _ _).trans
        (((ih i hi).append_left _).trans (perm_append_comm_assoc _ _ _))

/-- Summing a test over a list counts the entries that pass it. -/
theorem sum_map_toNat (p : α → Bool) (l : List α) :
    (l.map fun a => (p a).toNat).sum = l.countP p := by
  induction l with
  | nil => rfl
  | cons x xs ih =>
    rw [map_cons, sum_cons, ih, countP_cons]
    cases p x <;> simp +arith

/-- What holds of all members of `l` and of `a` holds of all members of `l ++ [a]`. -/
theorem forall_mem_concat {p : α → Prop} {l : List α} {a : α} (hl : ∀ x ∈ l, p x) (ha : p a) :
    ∀ x ∈ l ++ [a], p x :=
  forall_mem_append.mpr ⟨hl, forall_mem_singleton.mpr ha⟩

/-- An entry of `l.set i b` is the one set, or one of `l` at another place. -/
theorem getElem?_of_getElem?_set {l : List α} {i j : ℕ} {a b : α} (h : (l.set i b)[j]? = some a) :
    j = i ∧ a = b ∨ j ≠ i ∧ l[j]? = some a := by
  rw [getElem?_set] at h
  split at h
  · next hij =>
    split at h
    · exact Or.inl ⟨hij.symm, (Option.some.inj h).symm⟩
    · cases h
  · next hij => exact Or.inr ⟨Ne.symm hij, h⟩

/-- A member of `l.set i b` is `b` or a member of `l`. -/
theorem forall_mem_set {p : α → Prop} {l : List α} (i : ℕ) {b : α} (hl : ∀ a ∈ l, p a) (hb : p b) :
    ∀ a ∈ l.set i b, p a := by
  intro a ha
  cases mem_or_eq_of_mem_set ha with
  | inl h => exact hl a h
  | inr h => exact h ▸ hb

/-- Under unique keys, a member is the only one with its key. -/
theorem filter_eq_singleton_of_nodup_map [DecidableEq β] {f : α → β} {l : List α} {a : α}
    (h : (l.map f).Nodup) (ha : a ∈ l) : l.filter (fun b => decide (f b = f a)) = [a] := by
  induction l with
  | nil => exact absurd ha not_mem_nil
  | cons x xs ih =>
    rw [map_cons, nodup_cons] at h
    cases mem_cons.mp ha with
    | inl heq =>
      -- `a` is the head, and no key behind it is the same
      subst heq
      have hrest : xs.filter (fun b => decide (f b = f a)) = [] := by
        rw [filter_eq_nil_iff]
        intro b hb heq
        exact h.1 (of_decide_eq_true heq ▸ mem_map_of_mem hb)
      rw [filter_cons, hrest, decide_eq_true rfl, if_pos rfl]
    | inr hmem =>
      have hne : f x ≠ f a := fun heq => h.1 (heq ▸ mem_map_of_mem hmem)
      rw [filter_cons, decide_eq_false hne, if_neg Bool.false_ne_true, ih h.2 hmem]

/-- Lists with the same entries under every key are the same up to order. -/
theorem perm_of_filter_eq [DecidableEq α] [DecidableEq β] {f : α → β} {l l' : List α}
    (h : ∀ b, (l.filter fun a => f a = b) = l'.filter fun a => f a = b) : l.Perm l' := by
  rw [perm_iff_count]
  intro a
  -- the entries equal to `a` are all under its key
  have hcount : ∀ l : List α, (l.filter fun x => f x = f a).count a = l.count a :=
    fun l => count_filter (decide_eq_true rfl)
  rw [← hcount l, h, hcount]

/-! ## Lists that agree on a part

Two lists agree on the entries that pass `p`. What only looks at such entries cannot tell
them apart. -/

section Agree

variable {p q : α → Bool} {l l' : List α}

/-- A narrower selection is one from the part. -/
theorem filter_filter_of_imp (h : ∀ a, q a = true → p a = true) (l : List α) :
    (l.filter p).filter q = l.filter q := by
  rw [filter_filter]
  apply filter_congr
  intro a _
  cases hq : q a with
  | false => rfl
  | true => rw [h a hq]; rfl

/-- The first match of a narrower test lies in the part. -/
theorem find?_filter_of_imp (h : ∀ a, q a = true → p a = true) (l : List α) :
    (l.filter p).find? q = l.find? q := by
  rw [← head?_filter, ← head?_filter, filter_filter_of_imp h l]

/-- A narrower selection is the same of both. -/
theorem filter_eq_of_agree (hl : l.filter p = l'.filter p) (h : ∀ a, q a = true → p a = true) :
    l.filter q = l'.filter q := by
  rw [← filter_filter_of_imp h l, ← filter_filter_of_imp h l', hl]

/-- The first match of a narrower test is the same in both. -/
theorem find?_eq_of_agree (hl : l.filter p = l'.filter p) (h : ∀ a, q a = true → p a = true) :
    l.find? q = l'.find? q := by
  rw [← head?_filter, ← head?_filter, filter_eq_of_agree hl h]

/-- A narrower test counts the same in both. -/
theorem countP_eq_of_agree (hl : l.filter p = l'.filter p) (h : ∀ a, q a = true → p a = true) :
    l.countP q = l'.countP q := by
  rw [countP_eq_length_filter, countP_eq_length_filter, filter_eq_of_agree hl h]

/-- Whether a narrower test passes anywhere is the same in both. -/
theorem any_eq_of_agree (hl : l.filter p = l'.filter p) (h : ∀ a, q a = true → p a = true) :
    l.any q = l'.any q := by
  rw [← isSome_find?, ← isSome_find?, find?_eq_of_agree hl h]

end Agree

/-! ## First entries in an order -/

/-- The first `n` entries of a list by `le`, in that order: no other entry goes before them. -/
def FirstBy (le : α → α → Prop) (n : ℕ) (l found : List α) : Prop :=
  found.length = min n l.length ∧
    ∃ rest, (found ++ rest).Perm l ∧ (found ++ rest).Pairwise le

/-- A sorted list cut off after `n` entries. -/
theorem firstBy_take_mergeSort {le : α → α → Bool}
    (htrans : ∀ a b c, le a b = true → le b c = true → le a c = true)
    (htotal : ∀ a b, (le a b || le b a) = true) (n : ℕ) (l : List α) :
    FirstBy (fun a b => le a b = true) n l ((l.mergeSort le).take n) := by
  refine ⟨by rw [length_take, length_mergeSort], (l.mergeSort le).drop n, ?_⟩
  rw [take_append_drop]
  exact ⟨mergeSort_perm l le, pairwise_mergeSort htrans htotal l⟩

/-! ## Latest maximum

`l.reverse.argmax f` is the maximum of `f` that stands last in `l`: what a query sorted
by `f` and then by insertion order, both descending, returns first. -/

section Argmax

/-- The maximum of a mapped list. -/
theorem argmax_map {γ : Type*} [Preorder γ] [DecidableLT γ] (f : β → γ) (g : α → β)
    (l : List α) : (l.map g).argmax f = (l.argmax fun a => f (g a)).map g := by
  induction l using List.reverseRecOn with
  | nil => rfl
  | append_singleton l a ih =>
    rw [map_append, map_singleton, argmax_concat, argmax_concat, ih]
    cases l.argmax fun a => f (g a) with
    | none => rfl
    | some c =>
      simp only [Option.map_some]
      split <;> rfl

variable [LinearOrder β]

/-- Appending an element that is at least the current maximum makes it the latest one. -/
theorem argmax_reverse_append_of_le (f : α → β) (l : List α) (x : α)
    (h : ∀ c ∈ l.reverse.argmax f, f c ≤ f x) : (l ++ [x]).reverse.argmax f = some x := by
  rw [reverse_append, reverse_singleton, singleton_append, argmax_cons]
  cases hc : l.reverse.argmax f with
  | none => rfl
  | some c => simp only [if_neg (not_lt.mpr (h c hc))]

/-- Appending a smaller element keeps the latest maximum. -/
theorem argmax_reverse_append_of_lt (f : α → β) (l : List α) (x c : α)
    (hc : l.reverse.argmax f = some c) (h : f x < f c) :
    (l ++ [x]).reverse.argmax f = some c := by
  rw [reverse_append, reverse_singleton, singleton_append, argmax_cons, hc]
  simp only [if_pos h]

end Argmax

end List
