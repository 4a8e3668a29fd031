import Mathlib

/-!
# Iterating a function until a goal is reached

A function that keeps an invariant and lowers a measure short of the goal reaches the goal
when it is iterated. `Emits` follows an iteration whose states emit something on the way: a
program that runs step by step, with the operations it performs. Generic facts missing from
the standard library.
-/

namespace Function

variable {α : Type*} {f : α → α} {I P : α → Prop}

/-- A function that lowers a measure short of the goal reaches it. -/
theorem exists_iterate_of_measure (μ : α → ℕ)
    (step : ∀ x, I x → ¬ P x → I (f x) ∧ μ (f x) < μ x) {x : α} (h : I x) :
    ∃ n, I (f^[n] x) ∧ P (f^[n] x) := by
  induction hμ : μ x using Nat.strongRecOn generalizing x with
  | ind m ih =>
    by_cases hP : P x
    · exact ⟨0, h, hP⟩
    · obtain ⟨hI, hlt⟩ := step x h hP
      obtain ⟨n, hn⟩ := ih (μ (f x)) (hμ ▸ hlt) hI rfl
      exact ⟨n + 1, hn⟩

/-- An iteration comes to one fixed point at most. -/
theorem iterate_eq_of_isFixedPt {x y z : α} {m n : ℕ} (hy : f^[m] x = y) (hz : f^[n] x = z)
    (hfy : IsFixedPt f y) (hfz : IsFixedPt f z) : y = z := by
  have hfar : f^[m + n] x = y := by
    rw [Nat.add_comm, iterate_add_apply, hy]
    exact hfy.iterate n
  have hfar' : f^[m + n] x = z := by
    rw [iterate_add_apply, hz]
    exact hfz.iterate m
  exact hfar.symm.trans hfar'

/-! ## What an iteration emits -/

section Emits

variable {ω : Type*} {emit : α → List ω} {x y z : α} {out out' : List ω}

/-- What the first `n` states emit, in order. -/
def trace (f : α → α) (emit : α → List ω) : ℕ → α → List ω
  | 0, _ => []
  | n + 1, x => emit x ++ trace f emit n (f x)

/-- Iterating `f` takes `x` to `y`, and the states before `y` emit `out`. -/
def Emits (f : α → α) (emit : α → List ω) (x : α) (out : List ω) (y : α) : Prop :=
  ∃ n, f^[n] x = y ∧ trace f emit n x = out

theorem Emits.refl (f : α → α) (emit : α → List ω) (x : α) : Emits f emit x [] x := ⟨0, rfl, rfl⟩

/-- One more state in front. -/
theorem Emits.head {out₀ : List ω} (hf : f x = y) (hout : emit x = out₀)
    (h : Emits f emit y out z) : Emits f emit x (out₀ ++ out) z := by
  obtain ⟨n, rfl, rfl⟩ := h
  exact ⟨n + 1, by rw [iterate_succ_apply, hf], by rw [trace, hf, hout]⟩

/-- A state in front that emits nothing. -/
theorem Emits.silent (hf : f x = y) (hout : emit x = []) (h : Emits f emit y out z) :
    Emits f emit x out z :=
  .head hf hout h

theorem Emits.trans (h : Emits f emit x out y) (h' : Emits f emit y out' z) :
    Emits f emit x (out ++ out') z := by
  obtain ⟨n, hn, hout⟩ := h
  induction n generalizing x out with
  | zero =>
    cases hn
    cases hout
    exact h'
  | succ n ih =>
    cases hout
    rw [trace, List.append_assoc]
    exact Emits.head rfl rfl (ih hn rfl)

/-- What the states emit up to some point, and from there on. -/
theorem trace_add (m n : ℕ) (x : α) :
    trace f emit (m + n) x = trace f emit m x ++ trace f emit n (f^[m] x) := by
  induction m generalizing x with
  | zero => simp [trace]
  | succ m ih => rw [Nat.succ_add, trace, trace, ih, List.append_assoc, iterate_succ_apply]

/-- From a silent fixed point on nothing is emitted. -/
theorem trace_of_isFixedPt (hy : IsFixedPt f y) (hsilent : emit y = []) (n : ℕ) :
    trace f emit n y = [] := by
  induction n with
  | zero => rfl
  | succ n ih => rw [trace, hsilent, hy.eq, ih, List.append_nil]

/-- Cut off anywhere, an iteration that comes to a silent fixed point has emitted a beginning
    of what it emits. -/
theorem Emits.trace_initial (h : Emits f emit x out y) (hy : IsFixedPt f y)
    (hsilent : emit y = []) (n : ℕ) : trace f emit n x <+: out := by
  obtain ⟨m, hend, rfl⟩ := h
  rcases Nat.le_total n m with hle | hle
  · obtain ⟨k, rfl⟩ := Nat.exists_eq_add_of_le hle
    rw [trace_add]
    exact List.prefix_append _ _
  · obtain ⟨k, rfl⟩ := Nat.exists_eq_add_of_le hle
    rw [trace_add, hend, trace_of_isFixedPt hy hsilent, List.append_nil]

/-- A view that each state changes by what it emits is changed by the trace. -/
theorem iterate_view {V : Type*} {view : α → V} {act : V → ω → V}
    (h : ∀ x, view (f x) = (emit x).foldl act (view x)) (n : ℕ) (x : α) :
    view (f^[n] x) = (trace f emit n x).foldl act (view x) := by
  induction n generalizing x with
  | zero => rfl
  | succ n ih => rw [iterate_succ_apply, ih, h, trace, List.foldl_append]

end Emits

end Function
