import Shiplog.ForStd.List

/-!
# Pools of processes over shared state

Interleaving semantics for programs that touch a shared store one atomic operation at a
time. A pool holds the local states of its processes; a step lets one process do its next
operation, or lets the environment act, and either may start further processes.

## Key results

- `Pool.Invariant.reaches`: a property of the store together with one of every process
  holds along every interleaving, once each step keeps both and does not disturb the
  processes that stand still
- `Pool.Invariant.extend`: an invariant on top of one that is known
- `Pool.Invariant.beside`: two kinds of processes that work on one store
- `Pool.Reaches.rely`: what every single step guarantees about the store holds across a run
- `Pool.Reaches.balance`: a quantity the processes account for step by step
- `Pool.Reaches.covered`: whatever the store owes stays some process's business
- `Pool.Invariant.restrict`: a run under an invariant that admits every step
- `Pool.Moves.le_sum`, `Pool.exists_rests`: a pool whose steps all cost something comes to rest
- `Pool.Serializes.exists_order`: processes whose visible effect is one atomic operation,
  the one they finish with, behave as if run one after another in some order
- `Pool.Reaches.serial`: so do the operations of processes that come and go
-/

/-- Processes with local states `α` over a store `σ`. `step p s p' s' new`: in store `s`
    the process `p` does one atomic operation, which makes it `p'`, the store `s'`, and
    starts the processes `new`. `env s s' new` is an operation of the environment. -/
structure Pool (α σ : Type*) where
  step : α → σ → α → σ → List α → Prop
  env : σ → σ → List α → Prop

namespace Pool

variable {α σ : Type*} {P : Pool α σ}

/-- One step of the pool: some process, or the environment. -/
inductive Step (P : Pool α σ) : List α × σ → List α × σ → Prop where
  | process {ps : List α} {s s' : σ} {p p' : α} {new : List α} (i : ℕ)
      (hi : ps[i]? = some p) (h : P.step p s p' s' new) :
      Step P (ps, s) (ps.set i p' ++ new, s')
  | environment {ps : List α} {s s' : σ} {new : List α} (h : P.env s s' new) :
      Step P (ps, s) (ps ++ new, s')

/-- A process that is alone in its pool moves. -/
theorem Step.alone {p p' : α} {s s' : σ} {new : List α} (h : P.step p s p' s' new) :
    Step P ([p], s) (p' :: new, s') :=
  .process 0 rfl h

/-- The last process of its pool moves. -/
theorem Step.last (ps : List α) {p p' : α} {s s' : σ} (h : P.step p s p' s' []) :
    Step P (ps ++ [p], s) (ps ++ [p'], s') := by
  have hp : (ps ++ [p])[ps.length]? = some p := by
    rw [List.getElem?_append_right (Nat.le_refl _), Nat.sub_self]
    rfl
  have hstep := Step.process ps.length hp h
  rw [List.set_append_right ps.length p' (Nat.le_refl _), Nat.sub_self, List.append_nil] at hstep
  exact hstep

/-- Zero or more steps in any order. -/
abbrev Reaches (P : Pool α σ) : List α × σ → List α × σ → Prop :=
  Relation.ReflTransGen (Step P)

/-- The pool whose processes only take the steps that `ok` admits in their state and
    store. -/
def restrict (P : Pool α σ) (ok : α → σ → Prop) : Pool α σ where
  step p s p' s' new := ok p s ∧ P.step p s p' s' new
  env := P.env

/-- Where every step is admitted, the restricted pool runs on as the pool does. -/
theorem Reaches.restrict {ok : α → σ → Prop} (hok : ∀ p s, ok p s) {c c' : List α × σ}
    (h : P.Reaches c c') : (P.restrict ok).Reaches c c' := by
  refine h.lift id fun a b hstep => ?_
  cases hstep with
  | process i hi hp => exact .process i hi ⟨hok _ _, hp⟩
  | environment he => exact .environment he

/-- A run of the restricted pool is one of the pool. -/
theorem Reaches.of_restrict {ok : α → σ → Prop} {c c' : List α × σ}
    (h : (P.restrict ok).Reaches c c') : P.Reaches c c' := by
  refine h.lift id fun a b hstep => ?_
  cases hstep with
  | process i hi hp => exact .process i hi hp.2
  | environment he => exact .environment he

/-! ## Invariants -/

/-- An inductive invariant: `I` about the store, `L` about each process in it. The moving
    process may rely on both; it must keep `I`, re-establish `L` for itself and the
    processes it starts, and leave `L` of every other process true. -/
structure Invariant (P : Pool α σ) (I : σ → Prop) (L : σ → α → Prop) : Prop where
  step : ∀ {p s p' s' new}, I s → L s p → P.step p s p' s' new →
    I s' ∧ L s' p' ∧ (∀ q ∈ new, L s' q) ∧ ∀ q, L s q → L s' q
  env : ∀ {s s' new}, I s → P.env s s' new →
    I s' ∧ (∀ q ∈ new, L s' q) ∧ ∀ q, L s q → L s' q

/-- An inductive invariant that holds at the start holds in every state reached. -/
theorem Invariant.reaches {I : σ → Prop} {L : σ → α → Prop} (hinv : P.Invariant I L)
    {c c' : List α × σ} (h : P.Reaches c c') (hI : I c.2) (hL : ∀ p ∈ c.1, L c.2 p) :
    I c'.2 ∧ ∀ p ∈ c'.1, L c'.2 p := by
  induction h with
  | refl => exact ⟨hI, hL⟩
  | tail _ hs ih =>
    obtain ⟨hId, hLd⟩ := ih
    cases hs with
    | process i hi hp =>
      -- the mover and what it starts are new, all others stand still
      obtain ⟨hI', hp', hnew, hkeep⟩ := hinv.step hId (hLd _ (List.mem_of_getElem? hi)) hp
      refine ⟨hI', fun q hq => ?_⟩
      cases List.mem_append.mp hq with
      | inl hq => exact List.forall_mem_set i (fun a ha => hkeep a (hLd a ha)) hp' q hq
      | inr hq => exact hnew q hq
    | environment he =>
      obtain ⟨hI', hnew, hkeep⟩ := hinv.env hId he
      refine ⟨hI', fun q hq => ?_⟩
      cases List.mem_append.mp hq with
      | inl hq => exact hkeep q (hLd q hq)
      | inr hq => exact hnew q hq

/-- Under an invariant that admits every step, the restricted pool runs on as the pool does. -/
theorem Invariant.restrict {I : σ → Prop} {L : σ → α → Prop} (hinv : P.Invariant I L)
    {ok : α → σ → Prop} (hok : ∀ p s, I s → L s p → ok p s) {c c' : List α × σ}
    (h : P.Reaches c c') (hI : I c.2) (hL : ∀ p ∈ c.1, L c.2 p) : (P.restrict ok).Reaches c c' := by
  induction h with
  | refl => exact .refl
  | tail hrun hs ih =>
    obtain ⟨hId, hLd⟩ := hinv.reaches hrun hI hL
    refine ih.tail ?_
    cases hs with
    | process i hi hp => exact .process i hi ⟨hok _ _ hId (hLd _ (List.mem_of_getElem? hi)), hp⟩
    | environment he => exact .environment he

/-- An invariant may rely on one that is known. -/
theorem Invariant.extend {I J : σ → Prop} {L M : σ → α → Prop} (hinv : P.Invariant I L)
    (hstep : ∀ {p s p' s' new}, I s → J s → M s p → P.step p s p' s' new →
      J s' ∧ M s' p' ∧ (∀ q ∈ new, M s' q) ∧ ∀ q, M s q → M s' q)
    (henv : ∀ {s s' new}, I s → J s → P.env s s' new →
      J s' ∧ (∀ q ∈ new, M s' q) ∧ ∀ q, M s q → M s' q) :
    P.Invariant (fun s => I s ∧ J s) (fun s p => L s p ∧ M s p) where
  step := by
    intro p s p' s' new hI hp h
    obtain ⟨hI', hL', hLnew, hLkeep⟩ := hinv.step hI.1 hp.1 h
    obtain ⟨hJ', hM', hMnew, hMkeep⟩ := hstep hI.1 hI.2 hp.2 h
    exact ⟨⟨hI', hJ'⟩, ⟨hL', hM'⟩, fun q hq => ⟨hLnew q hq, hMnew q hq⟩,
      fun q hq => ⟨hLkeep q hq.1, hMkeep q hq.2⟩⟩
  env := by
    intro s s' new hI h
    obtain ⟨hI', hLnew, hLkeep⟩ := hinv.env hI.1 h
    obtain ⟨hJ', hMnew, hMkeep⟩ := henv hI.1 hI.2 h
    exact ⟨⟨hI', hJ'⟩, fun q hq => ⟨hLnew q hq, hMnew q hq⟩,
      fun q hq => ⟨hLkeep q hq.1, hMkeep q hq.2⟩⟩

/-- Two kinds of processes side by side on one store. -/
def beside {β : Type*} (P : Pool α σ) (Q : Pool β σ) : Pool (α ⊕ β) σ where
  step p s p' s' new :=
    (∃ a a' as, p = .inl a ∧ p' = .inl a' ∧ new = as.map .inl ∧ P.step a s a' s' as) ∨
      ∃ b b' bs, p = .inr b ∧ p' = .inr b' ∧ new = bs.map .inr ∧ Q.step b s b' s' bs
  env s s' new :=
    (∃ as, new = as.map .inl ∧ P.env s s' as) ∨ ∃ bs, new = bs.map .inr ∧ Q.env s s' bs

/-- Each pool runs on beside the other one. -/
theorem Step.beside {β : Type*} {Q : Pool β σ} {ps ps' : List α} {s s' : σ}
    (h : P.Step (ps, s) (ps', s')) :
    (P.beside Q).Step (ps.map .inl, s) (ps'.map .inl, s') := by
  cases h with
  | @process _ _ _ p p' new i hi h =>
    rw [List.map_append, List.map_set]
    refine .process i ?_ (Or.inl ⟨p, p', new, rfl, rfl, rfl, h⟩)
    rw [List.getElem?_map, hi]
    rfl
  | @environment _ _ _ new h =>
    rw [List.map_append]
    exact .environment (Or.inl ⟨new, rfl, h⟩)

theorem Reaches.beside {β : Type*} {Q : Pool β σ} {ps ps' : List α} {s s' : σ}
    (h : P.Reaches (ps, s) (ps', s')) :
    (P.beside Q).Reaches (ps.map .inl, s) (ps'.map .inl, s') :=
  h.lift (fun c => (c.1.map Sum.inl, c.2)) fun _ _ hstep => hstep.beside

/-- Invariants of two pools with one `I` hold side by side if every step of the store leaves
    the processes of the other pool their property: `R` is what such steps guarantee, and
    both properties are stable under it. -/
theorem Invariant.beside {β : Type*} {Q : Pool β σ} {I : σ → Prop} {L : σ → α → Prop}
    {M : σ → β → Prop} {R : σ → σ → Prop} (hP : P.Invariant I L) (hQ : Q.Invariant I M)
    (hPstep : ∀ {p s p' s' new}, I s → L s p → P.step p s p' s' new → R s s')
    (hPenv : ∀ {s s' new}, I s → P.env s s' new → R s s')
    (hQstep : ∀ {p s p' s' new}, I s → M s p → Q.step p s p' s' new → R s s')
    (hQenv : ∀ {s s' new}, I s → Q.env s s' new → R s s')
    (hL : ∀ {s s' a}, R s s' → L s a → L s' a) (hM : ∀ {s s' b}, R s s' → M s b → M s' b) :
    (P.beside Q).Invariant I (fun s => Sum.elim (L s) (M s)) where
  step := by
    intro p s p' s' new hI hp hstep
    rcases hstep with ⟨a, a', as, rfl, rfl, rfl, h⟩ | ⟨b, b', bs, rfl, rfl, rfl, h⟩
    · -- a step of the left pool: its own processes by `hP`, the others by `hM`
      obtain ⟨hI', ha', has, hkeep⟩ := hP.step hI hp h
      refine ⟨hI', ha', List.forall_mem_map.mpr has, fun q hq => ?_⟩
      cases q with
      | inl a => exact hkeep a hq
      | inr b => exact hM (hPstep hI hp h) hq
    · obtain ⟨hI', hb', hbs, hkeep⟩ := hQ.step hI hp h
      refine ⟨hI', hb', List.forall_mem_map.mpr hbs, fun q hq => ?_⟩
      cases q with
      | inl a => exact hL (hQstep hI hp h) hq
      | inr b => exact hkeep b hq
  env := by
    intro s s' new hI henv
    -- the environment of either pool, with the processes it starts
    rcases henv with ⟨as, rfl, h⟩ | ⟨bs, rfl, h⟩
    · obtain ⟨hI', has, hkeep⟩ := hP.env hI h
      refine ⟨hI', List.forall_mem_map.mpr has, fun q hq => ?_⟩
      cases q with
      | inl a => exact hkeep a hq
      | inr b => exact hM (hPenv hI h) hq
    · obtain ⟨hI', hbs, hkeep⟩ := hQ.env hI h
      refine ⟨hI', List.forall_mem_map.mpr hbs, fun q hq => ?_⟩
      cases q with
      | inl a => exact hL (hQenv hI h) hq
      | inr b => exact hkeep b hq

/-- A reflexive, transitive relation between stores that every step guarantees holds
    between the ends of a run. -/
theorem Reaches.rely {R : σ → σ → Prop} {c c' : List α × σ} (h : P.Reaches c c')
    (hrefl : ∀ s, R s s) (htrans : ∀ s s' s'', R s s' → R s' s'' → R s s'')
    (hstep : ∀ p s p' s' new, P.step p s p' s' new → R s s')
    (henv : ∀ s s' new, P.env s s' new → R s s') : R c.2 c'.2 := by
  induction h with
  | refl => exact hrefl _
  | tail _ hs ih =>
    refine htrans _ _ _ ih ?_
    cases hs with
    | process i hi hp => exact hstep _ _ _ _ _ hp
    | environment he => exact henv _ _ _ he

/-- If in every step the growth of `g` on the store is what the moving process and the
    processes it starts gain in `f`, then over a run `g` grows by what the pool gains. -/
theorem Reaches.balance {f : α → ℕ} {g : σ → ℕ} {c c' : List α × σ} (h : P.Reaches c c')
    (hstep : ∀ p s p' s' new, P.step p s p' s' new →
      g s' + f p = g s + f p' + (new.map f).sum)
    (henv : ∀ s s' new, P.env s s' new → g s' = g s + (new.map f).sum) :
    g c'.2 + (c.1.map f).sum = g c.2 + (c'.1.map f).sum := by
  induction h with
  | refl => rfl
  | tail _ hs ih =>
    cases hs with
    | @process ps s s' p p' new i hi hp =>
      -- one entry of the pool changes and `new` is added
      have hset := List.sum_map_set f ps i p p' hi
      have hg := hstep _ _ _ _ _ hp
      simp only [List.map_append, List.sum_append] at ih ⊢
      omega
    | environment he =>
      have hg := henv _ _ _ he
      simp only [List.map_append, List.sum_append] at ih ⊢
      omega

/-- Debts of the store are covered by processes. If a process that covers a debt leaves, with
    every step, one behind that does, and every new debt comes with such a process, then all
    debts stay covered. -/
theorem Reaches.covered {δ : Type*} {owed : σ → δ → Prop} {covers : α → δ → Prop}
    {c c' : List α × σ} (h : P.Reaches c c')
    (hstep : ∀ p s p' s' new, P.step p s p' s' new →
      (∀ d, covers p d → ∃ q ∈ p' :: new, covers q d) ∧
        ∀ d, owed s' d → owed s d ∨ ∃ q ∈ p' :: new, covers q d)
    (henv : ∀ s s' new, P.env s s' new → ∀ d, owed s' d → owed s d ∨ ∃ q ∈ new, covers q d)
    (hstart : ∀ d, owed c.2 d → ∃ p ∈ c.1, covers p d) :
    ∀ d, owed c'.2 d → ∃ p ∈ c'.1, covers p d := by
  induction h with
  | refl => exact hstart
  | tail _ hs ih =>
    intro d hd
    cases hs with
    | @process ps s s' p p' new i hi hp =>
      obtain ⟨hcovers, howed⟩ := hstep _ _ _ _ _ hp
      have hlt : i < ps.length := (List.getElem?_eq_some_iff.mp hi).1
      -- a process that was just made is the mover or one of `new`
      have hmade : (∃ q ∈ p' :: new, covers q d) → ∃ q ∈ ps.set i p' ++ new, covers q d := by
        rintro ⟨q, hq, hqd⟩
        refine ⟨q, List.mem_append.mpr ?_, hqd⟩
        cases List.mem_cons.mp hq with
        | inl heq => exact Or.inl (heq ▸ List.mem_set hlt p')
        | inr hq => exact Or.inr hq
      rcases howed d hd with hold | hnew
      · obtain ⟨q, hq, hqd⟩ := ih d hold
        obtain ⟨j, hj⟩ := List.mem_iff_getElem?.mp hq
        by_cases hij : i = j
        · -- the process that covered the debt has moved
          subst hij
          rw [hi] at hj
          cases hj
          exact hmade (hcovers d hqd)
        · refine ⟨q, List.mem_append_left _ (List.mem_of_getElem? (i := j) ?_), hqd⟩
          rw [List.getElem?_set_ne hij]
          exact hj
      · exact hmade hnew
    | environment he =>
      rcases henv _ _ _ he d hd with hold | ⟨q, hq, hqd⟩
      · obtain ⟨q, hq, hqd⟩ := ih d hold
        exact ⟨q, List.mem_append_left _ hq, hqd⟩
      · exact ⟨q, List.mem_append_right _ hq, hqd⟩

/-! ## Coming to rest -/

/-- `n` steps of processes, while the environment stands still. -/
inductive Moves (P : Pool α σ) : ℕ → List α × σ → List α × σ → Prop where
  | none (c : List α × σ) : Moves P 0 c c
  | more {n : ℕ} {c : List α × σ} {ps : List α} {s s' : σ} {p p' : α} {new : List α}
      (h : Moves P n c (ps, s)) (i : ℕ) (hi : ps[i]? = some p) (hp : P.step p s p' s' new) :
      Moves P (n + 1) c (ps.set i p' ++ new, s')

theorem Moves.reaches {n : ℕ} {c c' : List α × σ} (h : P.Moves n c c') : P.Reaches c c' := by
  induction h with
  | none c => exact .refl
  | more _ i hi hp ih => exact ih.tail (.process i hi hp)

/-- The pool whose environment stands still. -/
def closed (P : Pool α σ) : Pool α σ where
  step := P.step
  env _ _ _ := False

theorem Moves.closed {n : ℕ} {c c' : List α × σ} (h : P.Moves n c c') : P.closed.Reaches c c' := by
  induction h with
  | none c => exact .refl
  | more _ i hi hp ih => exact ih.tail (.process i hi hp)

/-- No process has a step. -/
def Rests (P : Pool α σ) (c : List α × σ) : Prop :=
  ∀ p ∈ c.1, ∀ p' s' new, ¬ P.step p c.2 p' s' new

section Measure

variable {f : α → ℕ}

/-- If every step costs its process some of what `f` gives it, then the processes make no more
    steps than they can pay for. -/
theorem Moves.le_sum (hf : ∀ p s p' s' new, P.step p s p' s' new → f p' + (new.map f).sum < f p)
    {n : ℕ} {c c' : List α × σ} (h : P.Moves n c c') : n + (c'.1.map f).sum ≤ (c.1.map f).sum := by
  induction h with
  | none c => exact Nat.le_of_eq (Nat.zero_add _)
  | @more n c ps s s' p p' new _ i hi hp ih =>
    have hset := List.sum_map_set f ps i p p' hi
    have hcost := hf _ _ _ _ _ hp
    simp only [List.map_append, List.sum_append] at ih ⊢
    omega

/-- Then the pool can also be brought to rest. -/
theorem exists_rests (hf : ∀ p s p' s' new, P.step p s p' s' new → f p' + (new.map f).sum < f p)
    (c : List α × σ) : ∃ n c', P.Moves n c c' ∧ P.Rests c' := by
  by_contra hnever
  -- otherwise there are runs of any length
  have hlong : ∀ n, ∃ c', P.Moves n c c' := by
    intro n
    induction n with
    | zero => exact ⟨c, .none c⟩
    | succ n ih =>
      obtain ⟨⟨ps, s⟩, hmoves⟩ := ih
      have hmore : ¬ P.Rests (ps, s) := fun hrests => hnever ⟨n, _, hmoves, hrests⟩
      unfold Rests at hmore
      push Not at hmore
      obtain ⟨p, hp, p', s', new, hstep⟩ := hmore
      obtain ⟨i, hi⟩ := List.mem_iff_getElem?.mp hp
      exact ⟨_, .more hmoves i hi hstep⟩
  obtain ⟨c', hmoves⟩ := hlong ((c.1.map f).sum + 1)
  have hle := hmoves.le_sum hf
  omega

end Measure

/-! ## Schedules

Where the steps of a process are a function `next`, a list of process numbers says which
one moves when, and running it gives a reachable state. -/

/-- Let the processes move in the order of the schedule; a process that is not `live` in
    the store it finds, or does not exist, misses its turn. -/
def runSchedule (live : α → σ → Bool) (next : α → σ → α × σ) : List ℕ → List α × σ → List α × σ
  | [], c => c
  | i :: is, c =>
    match c.1[i]? with
    | none => runSchedule live next is c
    | some p =>
      if live p c.2 then runSchedule live next is (c.1.set i (next p c.2).1, (next p c.2).2)
      else runSchedule live next is c

/-- A schedule of moves the pool admits ends in a state the pool reaches. -/
theorem reaches_runSchedule {live : α → σ → Bool} {next : α → σ → α × σ}
    (h : ∀ p s, live p s = true → P.step p s (next p s).1 (next p s).2 []) (is : List ℕ)
    (c : List α × σ) : P.Reaches c (runSchedule live next is c) := by
  induction is generalizing c with
  | nil => exact .refl
  | cons i is ih =>
    simp only [runSchedule]
    split
    · exact ih c
    · next p hp =>
      split
      · next hlive =>
        have hstep := Step.process i hp (h p c.2 hlive)
        rw [List.append_nil] at hstep
        exact .head hstep (ih _)
      · exact ih c

/-- Let the processes make the moves of a list, where a move says what the process at its index
    does next; one that cannot misses its turn. -/
def runMoves {μ : Type*} (next : μ → α → σ → Option (α × σ × List α)) :
    List (ℕ × μ) → List α × σ → List α × σ
  | [], c => c
  | (i, move) :: moves, c =>
    match c.1[i]?.bind (next move · c.2) with
    | none => runMoves next moves c
    | some (p', s', new) => runMoves next moves (c.1.set i p' ++ new, s')

/-- Moves the pool admits, with the environment standing still. -/
theorem moves_runMoves {μ : Type*} {next : μ → α → σ → Option (α × σ × List α)}
    (h : ∀ {move p s p' s' new}, next move p s = some (p', s', new) → P.step p s p' s' new)
    (moves : List (ℕ × μ)) (c : List α × σ) : ∃ n, P.Moves n c (runMoves next moves c) := by
  suffices ∀ n c', P.Moves n c c' → ∃ n, P.Moves n c (runMoves next moves c') from
    this 0 c (.none c)
  induction moves with
  | nil => exact fun n c' hmoves => ⟨n, hmoves⟩
  | cons move moves ih =>
    obtain ⟨i, move⟩ := move
    intro n c' hmoves
    simp only [runMoves]
    split
    · exact ih n c' hmoves
    · next p' s' new hnext =>
      obtain ⟨p, hi, hp⟩ := Option.bind_eq_some_iff.mp hnext
      exact ih (n + 1) _ (.more hmoves i hi (h hp))

/-! ## Serializability -/

/-- Run the operations `bs` one after another, collecting their results. -/
def serial {β ρ : Type*} (seq : β → σ → ρ × σ) : List β → σ → List ρ × σ
  | [], s => ([], s)
  | b :: bs, s => ((seq b s).1 :: (serial seq bs (seq b s).2).1, (serial seq bs (seq b s).2).2)

theorem serial_append {β ρ : Type*} (seq : β → σ → ρ × σ) (bs bs' : List β) (s : σ) :
    serial seq (bs ++ bs') s =
      ((serial seq bs s).1 ++ (serial seq bs' (serial seq bs s).2).1,
        (serial seq bs' (serial seq bs s).2).2) := by
  induction bs generalizing s with
  | nil => rfl
  | cons b bs ih => simp only [List.cons_append, serial, ih]

/-- The first of several calls gives its own result, and the rest follow in the store it
    leaves. -/
theorem serial_cons_eq {β ρ : Type*} {seq : β → σ → ρ × σ} {b : β} {bs : List β} {s s' : σ}
    {r : ρ} {rs : List ρ} (h : serial seq (b :: bs) s = (r :: rs, s')) :
    (seq b s).1 = r ∧ serial seq bs (seq b s).2 = (rs, s') := by
  simp only [serial, Prod.mk.injEq, List.cons.injEq] at h
  exact ⟨h.1.1, Prod.ext h.1.2 h.2⟩

/-- Each process carries out one call `b : β` of an operation whose sequential meaning is
    `seq b`. All its steps but the last leave the store alone, and the last one does in
    one go what `seq b` does in the store it finds. -/
structure Serializes {β ρ : Type*} (P : Pool α σ) (start : β → α) (outcome : α → Option ρ)
    (seq : β → σ → ρ × σ) (Follows : β → α → Prop) : Prop where
  start : ∀ b, Follows b (start b) ∧ outcome (start b) = none
  step : ∀ {b p s p' s' new}, Follows b p → P.step p s p' s' new →
    outcome p = none ∧ new = [] ∧ Follows b p' ∧
      (outcome p' = none ∧ s' = s ∨ ∃ r, outcome p' = some r ∧ seq b s = (r, s'))
  env : ∀ {s s' new}, ¬ P.env s s' new

section Serializes

variable {β ρ : Type*} {start : β → α} {outcome : α → Option ρ} {seq : β → σ → ρ × σ}
  {Follows : β → α → Prop}

/-- What a run of the calls has established when it stands at `(ps, s)`: every process
    belongs to its call, and the processes that have finished, in the order `order` in
    which they did, give the same results and the same store as a serial run. -/
structure SerialPrefix (outcome : α → Option ρ) (seq : β → σ → ρ × σ)
    (Follows : β → α → Prop) (calls : List β) (s₀ : σ) (ps : List α) (s : σ)
    (order : List ℕ) : Prop where
  length : ps.length = calls.length
  follows : ∀ (i : ℕ) (b : β) (p : α), calls[i]? = some b → ps[i]? = some p → Follows b p
  nodup : order.Nodup
  mem : ∀ i, i ∈ order ↔ ∃ p r, ps[i]? = some p ∧ outcome p = some r
  serial : Pool.serial seq (order.filterMap (calls[·]?)) s₀ =
    (order.filterMap (fun i => ps[i]?.bind outcome), s)

/-- A process that has not finished has no place in the order yet, so moving it changes
    none of the collected results. -/
private theorem filterMap_set_unfinished {ps : List α} {order : List ℕ} {i : ℕ} (p' : α)
    (hi : i ∉ order) :
    order.filterMap (fun j => (ps.set i p')[j]?.bind outcome) =
      order.filterMap (fun j => ps[j]?.bind outcome) := by
  refine List.filterMap_congr fun j hj => ?_
  have hij : i ≠ j := fun h => hi (h ▸ hj)
  rw [List.getElem?_set_ne hij]

/-- One step of the pool extends the serial run by the call that finished, if one did. -/
theorem SerialPrefix.next (h : P.Serializes start outcome seq Follows) {calls : List β}
    {s₀ : σ} {ps : List α} {s : σ} {order : List ℕ}
    (hpre : SerialPrefix outcome seq Follows calls s₀ ps s order)
    {e : List α × σ} (hs : P.Step (ps, s) e) :
    ∃ order', SerialPrefix outcome seq Follows calls s₀ e.1 e.2 order' := by
  cases hs with
  | environment he => exact absurd he h.env
  | @process _ _ s' p p' new i hi hp =>
    have hlt : i < ps.length := (List.getElem?_eq_some_iff.mp hi).1
    obtain ⟨b, hb⟩ : ∃ b, calls[i]? = some b :=
      ⟨_, List.getElem?_eq_getElem (hpre.length ▸ hlt)⟩
    obtain ⟨hrun, hnew, hfol, hcase⟩ := h.step (hpre.follows i b p hb hi) hp
    subst hnew
    -- the mover has not finished, so it has no place in the order
    have hnot : i ∉ order := by
      intro hmem
      obtain ⟨q, r, hq, hr⟩ := (hpre.mem i).mp hmem
      rw [hi] at hq
      cases hq
      rw [hrun] at hr
      cases hr
    have hfollows : ∀ (j : ℕ) (c : β) (q : α), calls[j]? = some c →
        (ps.set i p')[j]? = some q → Follows c q := by
      intro j c q hc hq
      by_cases hij : i = j
      · subst hij
        rw [List.getElem?_set_self hlt] at hq
        rw [hb] at hc
        cases hq; cases hc
        exact hfol
      · rw [List.getElem?_set_ne hij] at hq
        exact hpre.follows j c q hc hq
    simp only [List.append_nil]
    rcases hcase with ⟨hnone, rfl⟩ | ⟨r, hsome, hseq⟩
    · -- a step before the last one: the order stays
      refine ⟨order, by simpa using hpre.length, hfollows, hpre.nodup, fun j => ?_, ?_⟩
      · rw [hpre.mem j]
        by_cases hij : i = j
        · subst hij
          simp [List.getElem?_set_self hlt, hi, hrun, hnone]
        · rw [List.getElem?_set_ne hij]
      · rw [filterMap_set_unfinished p' hnot]
        exact hpre.serial
    · -- the last step: the call joins the order
      refine ⟨order ++ [i], by simpa using hpre.length, hfollows, ?_, fun j => ?_, ?_⟩
      · exact List.nodup_append.mpr ⟨hpre.nodup, by simp,
          fun a ha c hc => by rw [List.mem_singleton] at hc; rintro rfl; exact hnot (hc ▸ ha)⟩
      · rw [List.mem_append, hpre.mem j, List.mem_singleton]
        by_cases hij : i = j
        · subst hij
          simp [hlt, hsome]
        · rw [List.getElem?_set_ne hij]
          simp [Ne.symm hij]
      · rw [List.filterMap_append, serial_append, hpre.serial, List.filterMap_append,
          filterMap_set_unfinished p' hnot]
        simp [hb, Pool.serial, hseq, hlt, hsome]

/-- **Serializability.** When all calls have finished, they can be put in an order in
    which running them one at a time from the same store gives each of them the same
    result and ends in the same store. -/
theorem Serializes.exists_order (h : P.Serializes start outcome seq Follows) {calls : List β}
    {s₀ : σ} {ps : List α} {s : σ} (hr : P.Reaches (calls.map start, s₀) (ps, s))
    (hdone : ∀ p ∈ ps, outcome p ≠ none) :
    ps.length = calls.length ∧ ∃ order : List ℕ, order.Perm (List.range calls.length) ∧
      serial seq (order.filterMap (calls[·]?)) s₀ =
        (order.filterMap (fun i => ps[i]?.bind outcome), s) := by
  have hpre : ∀ c', P.Reaches (calls.map start, s₀) c' →
      ∃ order, SerialPrefix outcome seq Follows calls s₀ c'.1 c'.2 order := by
    intro c' hc'
    induction hc' with
    | refl =>
      -- at the start nobody has finished
      refine ⟨[], by simp, fun i b p hb hp => ?_, by simp, fun i => ?_, rfl⟩
      · simp only [List.getElem?_map, hb, Option.map_some, Option.some.injEq] at hp
        exact hp ▸ (h.start b).1
      · simp only [List.not_mem_nil, List.getElem?_map, Option.map_eq_some_iff, false_iff]
        rintro ⟨p, r, ⟨b, -, rfl⟩, hr⟩
        rw [(h.start b).2] at hr
        cases hr
    | tail _ hs ih =>
      obtain ⟨order, hord⟩ := ih
      exact SerialPrefix.next h hord hs
  obtain ⟨order, hord⟩ := hpre _ hr
  refine ⟨hord.length, order, ?_, hord.serial⟩
  -- in the end everybody has: the order is one of all calls
  refine (List.perm_ext_iff_of_nodup hord.nodup List.nodup_range).mpr fun i => ?_
  rw [hord.mem i, List.mem_range, ← hord.length]
  constructor
  · rintro ⟨p, r, hp, -⟩
    exact (List.getElem?_eq_some_iff.mp hp).1
  · intro hlt
    obtain ⟨r, hr⟩ := Option.ne_none_iff_exists'.mp (hdone _ (List.getElem_mem hlt))
    exact ⟨_, r, List.getElem?_eq_getElem hlt, hr⟩

end Serializes

/-! ## Operations that take effect on the way -/

section Effects

variable {β ρ ν γ : Type*} {held : α → List γ} {out : α → List (β × ρ)} {view : σ → ν}
  {seq : β → ν → ρ × ν}

open scoped List in
/-- What the processes hold after a step of one of them. -/
theorem perm_held_of_step {ps : List α} {i : ℕ} {p p' : α} {new : List α} {xs : List γ}
    (hi : ps[i]? = some p) (h : (held p' ++ new.flatMap held).Perm (xs ++ held p)) :
    ((ps.set i p' ++ new).flatMap held).Perm (xs ++ ps.flatMap held) := by
  have hset := List.perm_flatMap_set held ps i p p' hi
  rw [List.flatMap_append]
  refine (List.perm_append_left_iff (held p)).mp ?_
  calc held p ++ ((ps.set i p').flatMap held ++ new.flatMap held)
    _ = (held p ++ (ps.set i p').flatMap held) ++ new.flatMap held := (List.append_assoc ..).symm
    _ ~ (held p' ++ ps.flatMap held) ++ new.flatMap held := hset.append_right _
    _ = held p' ++ (ps.flatMap held ++ new.flatMap held) := List.append_assoc ..
    _ ~ held p' ++ (new.flatMap held ++ ps.flatMap held) := List.perm_append_comm.append_left _
    _ = (held p' ++ new.flatMap held) ++ ps.flatMap held := (List.append_assoc ..).symm
    _ ~ (xs ++ held p) ++ ps.flatMap held := h.append_right _
    _ = xs ++ (held p ++ ps.flatMap held) := List.append_assoc ..
    _ ~ held p ++ (xs ++ ps.flatMap held) := List.perm_append_comm_assoc ..

/-- What every step passes on is kept. -/
theorem Moves.perm_held
    (hstep : ∀ p s p' s' new, P.step p s p' s' new → held p' ++ new.flatMap held = held p) {n : ℕ}
    {c c' : List α × σ} (h : P.Moves n c c') : (c'.1.flatMap held).Perm (c.1.flatMap held) := by
  induction h with
  | none c => exact .refl _
  | @more n c ps s s' p p' new _ i hi hp ih =>
    exact (@perm_held_of_step _ _ held ps i p p' new [] hi (.of_eq (hstep _ _ _ _ _ hp))).trans ih

/-- Processes hold answers of operations. If every step either leaves the answers and the view
    of the store as they are, or brings in one answer, and does to the view in one go what the
    operation does, then the answers a run has brought in are those of the operations run one
    after another, in some order, and so is the view. -/
theorem Reaches.serial {L : α → Prop} {c c' : List α × σ} (h : P.Reaches c c')
    (hstep : ∀ p s p' s' new, L p → P.step p s p' s' new →
      (L p' ∧ ∀ q ∈ new, L q) ∧
        ((out p' ++ new.flatMap out).Perm (out p) ∧ view s' = view s ∨
          ∃ x, (out p' ++ new.flatMap out).Perm (x :: out p) ∧ seq x.1 (view s) = (x.2, view s')))
    (henv : ∀ s s' new, P.env s s' new →
      (∀ q ∈ new, L q) ∧ new.flatMap out = [] ∧ view s' = view s)
    (hL : ∀ p ∈ c.1, L p) :
    ∃ done : List (β × ρ), (c'.1.flatMap out).Perm (done ++ c.1.flatMap out) ∧
      Pool.serial seq (done.map Prod.fst) (view c.2) = (done.map Prod.snd, view c'.2) := by
  suffices (∀ p ∈ c'.1, L p) ∧ ∃ done : List (β × ρ),
      (c'.1.flatMap out).Perm (done ++ c.1.flatMap out) ∧
        Pool.serial seq (done.map Prod.fst) (view c.2) = (done.map Prod.snd, view c'.2) from this.2
  induction h with
  | refl => exact ⟨hL, [], .refl _, rfl⟩
  | tail _ hs ih =>
    obtain ⟨hall, done, hperm, hserial⟩ := ih
    cases hs with
    | @process ps s s' p p' new i hi hp =>
      obtain ⟨⟨hp', hnew⟩, hcase⟩ := hstep _ _ _ _ _ (hall _ (List.mem_of_getElem? hi)) hp
      refine ⟨fun q hq => ?_, ?_⟩
      · cases List.mem_append.mp hq with
        | inl hq => exact List.forall_mem_set i hall hp' q hq
        | inr hq => exact hnew q hq
      rcases hcase with ⟨hout, hview⟩ | ⟨x, hout, heffect⟩
      · refine ⟨done, (@perm_held_of_step _ _ out ps i p p' new [] hi hout).trans hperm, ?_⟩
        rw [hserial, hview]
      · -- the operation comes behind those that have taken effect
        refine ⟨done ++ [x], ?_, ?_⟩
        · refine (@perm_held_of_step _ _ out ps i p p' new [x] hi hout).trans ?_
          rw [List.append_assoc]
          exact (hperm.cons x).trans List.perm_middle.symm
        · rw [List.map_append, serial_append, hserial, List.map_append]
          simp only [List.map_cons, List.map_nil, Pool.serial, heffect]
    | environment he =>
      obtain ⟨hnew, hout, hview⟩ := henv _ _ _ he
      refine ⟨fun q hq => (List.mem_append.mp hq).elim (hall q) (hnew q), done, ?_, ?_⟩
      · rw [List.flatMap_append, hout, List.append_nil]
        exact hperm
      · rw [hserial, hview]

end Effects

end Pool
