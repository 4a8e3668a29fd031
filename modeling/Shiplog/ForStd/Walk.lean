import Mathlib

/-!
# Walks along a partial function

A partial function `advance` moves a point on until it has no value. In a finite range the
walk from a point ends exactly if it comes back to no point (`Walk.ends_iff_not_revisits`).
A program that runs from one point of a walk to the next, and halts where the walk ends,
halts exactly if the walk ends (`Walk.exists_halted_iff_ends`). Generic facts missing from
the standard library.
-/

namespace Walk

variable {α : Type*} {advance : α → Option α}

/-- The point the walk from `x` is at after `n` moves, if it gets that far. -/
def walk (advance : α → Option α) (x : α) (n : ℕ) : Option α :=
  (fun o => o.bind advance)^[n] (some x)

/-- The walk from `x` ends. -/
def Ends (advance : α → Option α) (x : α) : Prop := ∃ n, walk advance x n = none

/-- The walk from `x` comes to a point it has been at. -/
def Revisits (advance : α → Option α) (x : α) : Prop :=
  ∃ m n, m < n ∧ ∃ y, walk advance x m = some y ∧ walk advance x n = some y

theorem walk_add (x : α) (m n : ℕ) :
    walk advance x (m + n) = (fun o => o.bind advance)^[m] (walk advance x n) :=
  Function.iterate_add_apply _ m n _

theorem walk_succ (x : α) (n : ℕ) :
    walk advance x (n + 1) = (walk advance x n).bind advance :=
  Function.iterate_succ_apply' _ n _

/-- A walk that has ended does not start again. -/
theorem walk_eq_none_of_le {x : α} {m n : ℕ} (h : walk advance x m = none) (hle : m ≤ n) :
    walk advance x n = none := by
  induction n, hle using Nat.le_induction with
  | base => exact h
  | succ n _ ih =>
    rw [walk_succ, ih]
    rfl

/-- Without a next point the walk ends at once. -/
theorem ends_of_none {x : α} (h : advance x = none) : Ends advance x := ⟨1, h⟩

/-- With one it goes on from there. -/
theorem walk_succ_of_some {x y : α} (h : advance x = some y) (n : ℕ) :
    walk advance x (n + 1) = walk advance y n := by
  show (fun o => o.bind advance)^[n] (advance x) = _
  rw [h]
  rfl

theorem ends_iff_of_some {x y : α} (h : advance x = some y) :
    Ends advance x ↔ Ends advance y := by
  constructor
  · intro ⟨n, hn⟩
    cases n with
    | zero => cases hn
    | succ n => exact ⟨n, (walk_succ_of_some h n).symm.trans hn⟩
  · intro ⟨n, hn⟩
    exact ⟨n + 1, (walk_succ_of_some h n).trans hn⟩

/-! ## Finite ranges -/

/-- A walk that comes back goes round for ever. -/
theorem Revisits.not_ends {x : α} (h : Revisits advance x) : ¬ Ends advance x := by
  obtain ⟨m, n, hlt, y, hm, hn⟩ := h
  intro hends
  classical
  -- the first time the walk is over, it was over one round before
  have hfirst := Nat.find_spec hends
  have hlast : n ≤ Nat.find hends := by
    by_contra hcon
    rw [walk_eq_none_of_le hfirst (by omega)] at hn
    cases hn
  obtain ⟨k, hk⟩ := Nat.exists_eq_add_of_le' hlast
  rw [hk, walk_add, hn, ← hm, ← walk_add] at hfirst
  exact Nat.find_min hends (by omega) hfirst

/-- **In a finite range a walk ends exactly if it comes back to no point.** -/
theorem ends_iff_not_revisits (hfin : (Set.range advance).Finite) (x : α) :
    Ends advance x ↔ ¬ Revisits advance x := by
  refine ⟨fun h hrev => hrev.not_ends h, fun hrev => ?_⟩
  by_contra hends
  -- else it is at infinitely many times at finitely many points
  have hmem : ∀ n, walk advance x n ∈ insert (some x) (Set.range advance) := by
    intro n
    cases n with
    | zero => exact Set.mem_insert _ _
    | succ n =>
      cases hn : walk advance x n with
      | none => exact absurd ⟨n, hn⟩ hends
      | some y =>
        rw [walk_succ, hn]
        exact Set.mem_insert_of_mem _ ⟨y, rfl⟩
  obtain ⟨m, -, n, -, hne, heq⟩ := Set.infinite_univ.exists_ne_map_eq_of_mapsTo
    (fun n _ => hmem n) (hfin.insert (some x))
  cases hm : walk advance x m with
  | none => exact hends ⟨m, hm⟩
  | some y =>
    rcases Nat.lt_or_gt_of_ne hne with hlt | hlt
    · exact hrev ⟨m, n, hlt, y, hm, heq ▸ hm⟩
    · exact hrev ⟨n, m, hlt, y, heq ▸ hm, hm⟩

/-! ## Programs that follow a walk -/

section Program

variable {σ : Type*} {f : σ → σ} {At : α → σ → Prop} {Halted : σ → Prop}

/-- A program that is at `x` gets to the next point, or halts if there is none. -/
structure Follows (advance : α → Option α) (f : σ → σ) (At : α → σ → Prop)
    (Halted : σ → Prop) : Prop where
  stay : ∀ s, Halted s → Halted (f s)
  busy : ∀ x s, At x s → ¬ Halted s
  stop : ∀ x s, At x s → advance x = none → ∃ n, Halted (f^[n] s)
  go : ∀ x s y, At x s → advance x = some y → ∃ n, At y (f^[n + 1] s)

theorem Follows.halted_of_le (h : Follows advance f At Halted) {s : σ} {m n : ℕ}
    (hm : Halted (f^[m] s)) (hle : m ≤ n) : Halted (f^[n] s) := by
  induction n, hle using Nat.le_induction with
  | base => exact hm
  | succ n _ ih =>
    rw [Function.iterate_succ_apply']
    exact h.stay _ ih

/-- **It halts exactly if the walk ends.** -/
theorem exists_halted_iff_ends (h : Follows advance f At Halted) {x : α} {s : σ}
    (hat : At x s) : (∃ n, Halted (f^[n] s)) ↔ Ends advance x := by
  constructor
  · intro ⟨n, hn⟩
    -- every point costs a step
    induction n using Nat.strongRecOn generalizing x s with
    | ind n ih =>
      cases hadv : advance x with
      | none => exact ends_of_none hadv
      | some y =>
        obtain ⟨k, hk⟩ := h.go x s y hat hadv
        have hlt : k + 1 < n := by
          by_contra hcon
          exact h.busy y _ hk (h.halted_of_le hn (by omega))
        obtain ⟨j, rfl⟩ := Nat.exists_eq_add_of_le' hlt.le
        rw [Function.iterate_add_apply] at hn
        exact (ends_iff_of_some hadv).mpr (ih j (by omega) hk hn)
  · intro ⟨n, hn⟩
    induction n generalizing x s with
    | zero => cases hn
    | succ n ih =>
      cases hadv : advance x with
      | none => exact h.stop x s hat hadv
      | some y =>
        obtain ⟨k, hk⟩ := h.go x s y hat hadv
        obtain ⟨j, hj⟩ := ih hk ((walk_succ_of_some hadv n).symm.trans hn)
        exact ⟨j + (k + 1), by rwa [Function.iterate_add_apply]⟩

end Program

end Walk
