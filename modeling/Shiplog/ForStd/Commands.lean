import Mathlib

/-!
# Runs of commands

Commands run one after another on a state, each with an answer.

An observer sees part of the state, and some of the commands are its own. If its own commands
depend on nothing but its part, and the others leave that part alone, then what it sees of a
run is the run of its own commands by themselves (`Unwinds.purge`), however they were mixed
with the others (`Unwinds.agree`).

A run refines one of more abstract commands if each of its commands either stands for one of
these, with its answer, or for nothing (`Refines.run`). Generic facts missing from the
standard library.
-/

namespace Commands

variable {C S A V : Type*}

/-- Run commands one after another: each with its answer, and the state in the end. -/
def run (step : C → S → A × S) : List C → S → List (C × A) × S
  | [], s => ([], s)
  | c :: cs, s =>
    let rest := run step cs (step c s).2
    ((c, (step c s).1) :: rest.1, rest.2)

/-- Every answer is one that its command gave in some state. -/
theorem answer_of_mem_run {step : C → S → A × S} {cs : List C} {s : S} {x : C × A}
    (h : x ∈ (run step cs s).1) : x.1 ∈ cs ∧ ∃ s', x.2 = (step x.1 s').1 := by
  induction cs generalizing s with
  | nil => exact absurd h List.not_mem_nil
  | cons c cs ih =>
    cases List.mem_cons.mp h with
    | inl h =>
      rw [h]
      exact ⟨List.mem_cons_self, s, rfl⟩
    | inr h =>
      obtain ⟨hmem, hanswer⟩ := ih h
      exact ⟨List.mem_cons_of_mem _ hmem, hanswer⟩

/-- What every command keeps, a run keeps. -/
theorem run_keeps {step : C → S → A × S} {cs : List C} {I : S → Prop}
    (h : ∀ c ∈ cs, ∀ s, I s → I (step c s).2) {s : S} (hs : I s) : I (run step cs s).2 := by
  induction cs generalizing s with
  | nil => exact hs
  | cons c cs ih =>
    exact ih (fun c' hc' => h c' (List.mem_cons_of_mem _ hc')) (h c List.mem_cons_self s hs)

/-- What an observer needs of a list of commands, some of which are its own: on states of the
    invariant, its own commands answer and act on its view by its view, and the others leave
    its view as it is. -/
structure Unwinds (step : C → S → A × S) (cs : List C) (I : S → Prop) (own : C → Bool)
    (view : S → V) : Prop where
  keeps : ∀ c ∈ cs, ∀ s, I s → I (step c s).2
  local_own : ∀ c ∈ cs, own c = true → ∀ s s', I s → I s' → view s = view s' →
    (step c s).1 = (step c s').1 ∧ view (step c s).2 = view (step c s').2
  others : ∀ c ∈ cs, own c = false → ∀ s, I s → view (step c s).2 = view s

namespace Unwinds

variable {step : C → S → A × S} {cs cs' : List C} {I : S → Prop} {own : C → Bool} {view : S → V}

theorem tail {c : C} (h : Unwinds step (c :: cs) I own view) : Unwinds step cs I own view where
  keeps c' hc' := h.keeps c' (List.mem_cons_of_mem _ hc')
  local_own c' hc' := h.local_own c' (List.mem_cons_of_mem _ hc')
  others c' hc' := h.others c' (List.mem_cons_of_mem _ hc')

/-- **Purging.** An observer sees of a run what it sees of the run of its own commands, from
    any state that looks the same to it. -/
theorem purge (h : Unwinds step cs I own view) {s s' : S} (hs : I s) (hs' : I s')
    (hview : view s = view s') :
    (run step cs s).1.filter (fun x => own x.1) = (run step (cs.filter own) s').1 ∧
      view (run step cs s).2 = view (run step (cs.filter own) s').2 := by
  induction cs generalizing s s' with
  | nil => exact ⟨rfl, hview⟩
  | cons c cs ih =>
    have hkept := h.keeps c List.mem_cons_self s hs
    cases hc : own c with
    | true =>
      obtain ⟨hanswer, hafter⟩ := h.local_own c List.mem_cons_self hc s s' hs hs' hview
      obtain ⟨hrest, hend⟩ := ih h.tail hkept (h.keeps c List.mem_cons_self s' hs') hafter
      simp only [run, List.filter_cons, hc, if_true, hanswer, hrest]
      exact ⟨trivial, hend⟩
    | false =>
      -- the other run waits
      have hafter := (h.others c List.mem_cons_self hc s hs).trans hview
      simp only [run, List.filter_cons, hc, Bool.false_eq_true, if_false]
      exact ih h.tail hkept hs' hafter

/-- Two runs with the same own commands look the same. -/
theorem agree (h : Unwinds step cs I own view) (h' : Unwinds step cs' I own view)
    (hcs : cs.filter own = cs'.filter own) {s : S} (hs : I s) :
    (run step cs s).1.filter (fun x => own x.1) = (run step cs' s).1.filter (fun x => own x.1) ∧
      view (run step cs s).2 = view (run step cs' s).2 := by
  obtain ⟨hanswers, hend⟩ := h.purge hs hs rfl
  obtain ⟨hanswers', hend'⟩ := h'.purge hs hs rfl
  rw [hanswers, hanswers', hend, hend', hcs]
  exact ⟨rfl, rfl⟩

end Unwinds

/-! ## Refinement -/

variable {C' S' A' : Type*}

/-- Commands refine more abstract ones along a relation of the states. `reading` tells which
    abstract command and answer a command and its answer stand for, if for any. -/
structure Refines (step : C → S → A × S) (step' : C' → S' → A' × S') (cs : List C)
    (R : S → S' → Prop) (reading : C × A → Option (C' × A')) : Prop where
  silent : ∀ c ∈ cs, ∀ s s', R s s' → reading (c, (step c s).1) = none → R (step c s).2 s'
  matched : ∀ c ∈ cs, ∀ s s', R s s' → ∀ c' a', reading (c, (step c s).1) = some (c', a') →
    (step' c' s').1 = a' ∧ R (step c s).2 (step' c' s').2

/-- **A run refines a run**: the abstract commands that its commands stand for have the answers
    that its answers stand for, and the states in the end are related. -/
theorem Refines.run {step : C → S → A × S} {step' : C' → S' → A' × S'} {cs : List C}
    {R : S → S' → Prop} {reading : C × A → Option (C' × A')}
    (h : Refines step step' cs R reading) {s : S} {s' : S'} (hs : R s s') :
    let read := (run step cs s).1.filterMap reading
    (run step' (read.map Prod.fst) s').1 = read ∧
      R (run step cs s).2 (run step' (read.map Prod.fst) s').2 := by
  induction cs generalizing s s' with
  | nil => exact ⟨rfl, hs⟩
  | cons c cs ih =>
    have hrest : Refines step step' cs R reading :=
      ⟨fun c' hc' => h.silent c' (List.mem_cons_of_mem _ hc'),
        fun c' hc' => h.matched c' (List.mem_cons_of_mem _ hc')⟩
    cases hread : reading (c, (step c s).1) with
    | none =>
      simp only [Commands.run, List.filterMap_cons, hread]
      exact ih hrest (h.silent c List.mem_cons_self s s' hs hread)
    | some x =>
      obtain ⟨c', a'⟩ := x
      obtain ⟨hanswer, hafter⟩ := h.matched c List.mem_cons_self s s' hs c' a' hread
      obtain ⟨hanswers, hend⟩ := ih hrest hafter
      simp only [Commands.run, List.filterMap_cons, hread, List.map_cons, hanswer, hanswers]
      exact ⟨trivial, hend⟩

end Commands
