import Shiplog.ForStd.List

/-!
# Job queues with custom ids

A queue of jobs under ids chosen by the producers: adding under an id that exists is a
no-op, and a job ends by being removed or by being retained under its final phase, as the
queue's options say. A retained job holds on to its id.

## Key results

- `nodup_add`, `Step.nodup`: ids stay unique
- `mem_add`, `Step.mem`: ids and data of jobs come from adds only
- `Step.live`: a queue that removes what ends holds live jobs only
- `filter_add`: after an add exactly one job has its id
-/

namespace JobQueue

/-- Where a job stands. -/
inductive Phase where
  | waiting
  | delayed
  | active
  | completed
  | failed
deriving DecidableEq

/-- The job has not ended. -/
def Phase.live : Phase → Bool
  | .waiting | .delayed | .active => true
  | .completed | .failed => false

/-- A job in the queue. -/
structure Entry (ι δ : Type*) where
  id : ι
  data : δ
  attemptsMade : ℕ
  phase : Phase
deriving DecidableEq

/-- How often a job is attempted, and whether it is removed when it ends. -/
structure Options where
  attempts : ℕ
  removeOnComplete : Bool
  removeOnFail : Bool

variable {ι δ : Type*}

/-- Add a job, unless one with its id exists. -/
def add [DecidableEq ι] (id : ι) (data : δ) (queue : List (Entry ι δ)) : List (Entry ι δ) :=
  if queue.any (·.id = id) then queue else queue ++ [⟨id, data, 0, .waiting⟩]

/-- The job at `i` ends: it is removed, or retained under its final phase. -/
def finish (remove : Bool) (phase : Phase) (i : ℕ) (e : Entry ι δ) (queue : List (Entry ι δ)) :
    List (Entry ι δ) :=
  if remove then queue.eraseIdx i else queue.set i { e with phase }

/-- What the workers do with the job at `i`: take it up, bring a delayed one back, lose it
    and have it taken up again, fail an attempt and retry later, complete it, or fail it for
    good (out of attempts, or at an error that is not worth a retry). -/
inductive Step (opts : Options) : List (Entry ι δ) → List (Entry ι δ) → Prop where
  | pickup {queue : List (Entry ι δ)} {i : ℕ} {e : Entry ι δ} (hi : queue[i]? = some e)
      (h : e.phase = .waiting) : Step opts queue (queue.set i { e with phase := .active })
  | promote {queue : List (Entry ι δ)} {i : ℕ} {e : Entry ι δ} (hi : queue[i]? = some e)
      (h : e.phase = .delayed) : Step opts queue (queue.set i { e with phase := .waiting })
  | stall {queue : List (Entry ι δ)} {i : ℕ} {e : Entry ι δ} (hi : queue[i]? = some e)
      (h : e.phase = .active) : Step opts queue (queue.set i { e with phase := .waiting })
  | retry {queue : List (Entry ι δ)} {i : ℕ} {e : Entry ι δ} (hi : queue[i]? = some e)
      (h : e.phase = .active) (hleft : e.attemptsMade + 1 < opts.attempts) :
      Step opts queue
        (queue.set i { e with attemptsMade := e.attemptsMade + 1, phase := .delayed })
  | complete {queue : List (Entry ι δ)} {i : ℕ} {e : Entry ι δ} (hi : queue[i]? = some e)
      (h : e.phase = .active) : Step opts queue (finish opts.removeOnComplete .completed i e queue)
  | fail {queue : List (Entry ι δ)} {i : ℕ} {e : Entry ι δ} (hi : queue[i]? = some e)
      (h : e.phase = .active) : Step opts queue (finish opts.removeOnFail .failed i e queue)

/-! ## Adds -/

section Add

variable [DecidableEq ι] {id : ι} {data : δ} {queue : List (Entry ι δ)}

/-- A job of the result is an old one, or the added one under a new id. -/
theorem mem_add {e : Entry ι δ} (h : e ∈ add id data queue) :
    e ∈ queue ∨ e = ⟨id, data, 0, .waiting⟩ ∧ ∀ e' ∈ queue, e'.id ≠ id := by
  unfold add at h
  split at h
  · exact Or.inl h
  · next hnew =>
    cases List.mem_append.mp h with
    | inl h => exact Or.inl h
    | inr h =>
      refine Or.inr ⟨List.mem_singleton.mp h, fun e' he' hid => hnew ?_⟩
      exact List.any_eq_true.mpr ⟨e', he', decide_eq_true hid⟩

theorem nodup_add (h : (queue.map Entry.id).Nodup) : ((add id data queue).map Entry.id).Nodup := by
  unfold add
  split
  · exact h
  · next hnew =>
    rw [List.map_append, List.map_singleton]
    refine List.nodup_append.mpr ⟨h, List.nodup_singleton _, fun k hk k' hk' heq => hnew ?_⟩
    obtain ⟨e, he, hek⟩ := List.mem_map.mp hk
    rw [List.mem_singleton] at hk'
    exact List.any_eq_true.mpr ⟨e, he, decide_eq_true (hek.trans (heq.trans hk'))⟩

/-- After an add exactly one job has its id. -/
theorem filter_add (h : (queue.map Entry.id).Nodup) (id : ι) (data : δ) :
    ∃ e, (add id data queue).filter (·.id = id) = [e] := by
  have hmem : ∃ e ∈ add id data queue, e.id = id := by
    unfold add
    split
    · next hold =>
      obtain ⟨e, he, hid⟩ := List.any_eq_true.mp hold
      exact ⟨e, he, of_decide_eq_true hid⟩
    · exact ⟨_, List.mem_concat_self, rfl⟩
  obtain ⟨e, he, rfl⟩ := hmem
  exact ⟨e, List.filter_eq_singleton_of_nodup_map (nodup_add h) he⟩

/-- An add under a free id appends its job. -/
theorem add_of_free (h : ∀ e ∈ queue, e.id ≠ id) :
    add id data queue = queue ++ [⟨id, data, 0, .waiting⟩] := by
  unfold add
  rw [if_neg]
  intro hold
  obtain ⟨e, he, hid⟩ := List.any_eq_true.mp hold
  exact h e he (of_decide_eq_true hid)

end Add

/-! ## Workers -/

section Workers

variable {opts : Options} {queue queue' : List (Entry ι δ)}

/-- The end of a job leaves the others alone. -/
theorem finish_cases (remove : Bool) (phase : Phase) (i : ℕ) (e : Entry ι δ)
    (queue : List (Entry ι δ)) :
    remove = true ∧ finish remove phase i e queue = queue.eraseIdx i ∨
      remove = false ∧ finish remove phase i e queue = queue.set i { e with phase } := by
  cases remove with
  | true => exact Or.inl ⟨rfl, rfl⟩
  | false => exact Or.inr ⟨rfl, rfl⟩

/-- **What a worker's step can do**: put a job in another phase, an ended one only where the
    options retain it, or remove it. -/
theorem Step.cases (h : Step opts queue queue') :
    ∃ i e, queue[i]? = some e ∧
      (queue' = queue.eraseIdx i ∨
        ∃ e', queue' = queue.set i e' ∧ e'.id = e.id ∧ e'.data = e.data ∧
          (e'.phase.live = true ∨ opts.removeOnComplete = false ∨ opts.removeOnFail = false)) := by
  cases h with
  | @pickup i e hi h => exact ⟨i, e, hi, Or.inr ⟨_, rfl, rfl, rfl, Or.inl rfl⟩⟩
  | @promote i e hi h => exact ⟨i, e, hi, Or.inr ⟨_, rfl, rfl, rfl, Or.inl rfl⟩⟩
  | @stall i e hi h => exact ⟨i, e, hi, Or.inr ⟨_, rfl, rfl, rfl, Or.inl rfl⟩⟩
  | @retry i e hi h hleft => exact ⟨i, e, hi, Or.inr ⟨_, rfl, rfl, rfl, Or.inl rfl⟩⟩
  | @complete i e hi h =>
    -- an ended job goes, unless its option keeps it
    refine ⟨i, e, hi, ?_⟩
    rcases finish_cases opts.removeOnComplete .completed i e queue with ⟨-, heq⟩ | ⟨hkeep, heq⟩
    · exact Or.inl heq
    · exact Or.inr ⟨_, heq, rfl, rfl, Or.inr (Or.inl hkeep)⟩
  | @fail i e hi h =>
    refine ⟨i, e, hi, ?_⟩
    rcases finish_cases opts.removeOnFail .failed i e queue with ⟨-, heq⟩ | ⟨hkeep, heq⟩
    · exact Or.inl heq
    · exact Or.inr ⟨_, heq, rfl, rfl, Or.inr (Or.inr hkeep)⟩

/-- Workers make up no job. -/
theorem Step.mem (h : Step opts queue queue') {e' : Entry ι δ} (he' : e' ∈ queue') :
    ∃ e ∈ queue, e'.id = e.id ∧ e'.data = e.data := by
  obtain ⟨i, e, hi, rfl | ⟨e'', rfl, hid, hdata, -⟩⟩ := h.cases
  · exact ⟨e', (List.eraseIdx_sublist queue i).subset he', rfl, rfl⟩
  · cases List.mem_or_eq_of_mem_set he' with
    | inl hmem => exact ⟨e', hmem, rfl, rfl⟩
    | inr heq => exact ⟨e, List.mem_of_getElem? hi, heq ▸ hid, heq ▸ hdata⟩

/-- Ids stay unique. -/
theorem Step.nodup (h : Step opts queue queue') (hq : (queue.map Entry.id).Nodup) :
    (queue'.map Entry.id).Nodup := by
  obtain ⟨i, e, hi, rfl | ⟨e', rfl, hid, -, -⟩⟩ := h.cases
  · exact hq.sublist ((List.eraseIdx_sublist queue i).map Entry.id)
  · -- the job that moves keeps its id
    have hset : (queue.set i e').map Entry.id = queue.map Entry.id := by
      obtain ⟨hlt, rfl⟩ := List.getElem?_eq_some_iff.mp hi
      have hlt' : i < (queue.map Entry.id).length := by rwa [List.length_map]
      rw [List.map_set, hid, ← @List.getElem_map _ _ Entry.id queue i hlt']
      exact List.set_getElem_self hlt'
    rw [hset]
    exact hq

/-- Where ended jobs are removed, only live ones are left. -/
theorem Step.live (hcomplete : opts.removeOnComplete = true) (hfail : opts.removeOnFail = true)
    (h : Step opts queue queue') (hq : ∀ e ∈ queue, e.phase.live = true) :
    ∀ e ∈ queue', e.phase.live = true := by
  obtain ⟨i, e, -, rfl | ⟨e', rfl, -, -, hlive⟩⟩ := h.cases
  · exact fun e he => hq e ((List.eraseIdx_sublist queue i).subset he)
  · refine List.forall_mem_set i hq ?_
    rcases hlive with hlive | hkeep | hkeep
    · exact hlive
    · rw [hcomplete] at hkeep
      cases hkeep
    · rw [hfail] at hkeep
      cases hkeep

end Workers

end JobQueue
