import Shiplog.Spec.IngestCorrect

/-!
# Concurrent ingest as a sequence of ingests

A call decides what it reports, and whether it writes, on reads it made earlier. While the
decision it carries to its upsert is the one it would take now (`IngestRun.fresh`), its
last operation does in one go what the whole call does, so that a run of concurrent calls
is a sequence of calls in the order they finish.

## Key results

- `undisturbed_serializes`: with fresh decisions every call takes effect at its last step
- `serial_added_unique`: in a sequence of calls one per entity answers `'added'`
- `ingest_serializable`: the run equals a sequential one, results and spine
-/

namespace Shiplog

/-- Concurrent `ingestEvent` calls on one spine, none of whose operations throws. -/
def undisturbedPool (rt : Runtime) : Pool IngestRun Spine where
  step run spine run' spine' new :=
    run.outcome = none ∧ run.next rt spine = (run', spine') ∧ new = []
  env _ _ _ := False

/-- A call about to insert a row carries the status it would decide on now. -/
def IngestRun.fresh : IngestRun → Spine → Bool
  | .running c (.updateOne status), spine =>
    c.keyTaken spine || decide (c.classify spine = some status)
  | _, _ => true

/-- One call after the other. -/
def ingestSeq (rt : Runtime) (args : IngestArgs) (spine : Spine) :
    Except JsVal IngestResult × Spine :=
  ingestEvent rt noFaults args.input args.tenantId spine

/-- Some order of the calls, run one at a time, gives each call the same answer and ends
    with the same set of rows. -/
def SerialEquivalent (rt : Runtime) (calls : List IngestArgs) (s₀ : Spine)
    (runs : List IngestRun) (s : Spine) : Prop :=
  ∃ order : List ℕ, order.Perm (List.range calls.length) ∧
    (Pool.serial (ingestSeq rt) (order.filterMap (calls[·]?)) s₀).1 =
      order.filterMap (fun i => runs[i]?.bind IngestRun.outcome) ∧
    (Pool.serial (ingestSeq rt) (order.filterMap (calls[·]?)) s₀).2.Perm s

theorem ingestSeq_of_prepare {rt : Runtime} {args : IngestArgs} {c : IngestCall}
    (h : IngestCall.prepare rt args.input args.tenantId = .ok c) (spine : Spine) :
    ingestSeq rt args spine =
      (.ok (c.result (c.statusIn spine)),
        if c.appends spine then spine ++ [c.row] else spine) := by
  unfold ingestSeq ingestEvent
  rw [h]
  exact c.commit_noFaults spine

/-- A call that does not append answers `'unchanged'` in one go. -/
theorem ingestSeq_of_not_appends {rt : Runtime} {args : IngestArgs} {c : IngestCall}
    (h : IngestCall.prepare rt args.input args.tenantId = .ok c) {spine : Spine}
    (hno : c.appends spine = false) :
    ingestSeq rt args spine = (.ok (c.result .unchanged), spine) := by
  rw [ingestSeq_of_prepare h, IngestCall.statusIn_of_not_appends hno, hno]
  rfl

/-- With fresh decisions, every step before the last one leaves the spine alone and the
    last one is the whole call. -/
theorem undisturbed_serializes (rt : Runtime) :
    ((undisturbedPool rt).restrict (fun run spine => run.fresh spine = true)).Serializes
      IngestRun.called IngestRun.outcome (ingestSeq rt) (IngestRun.Follows rt) where
  start := fun args => ⟨rfl, rfl⟩
  env := fun h => h
  step := by
    intro args run spine run' spine' new hfol hstep
    obtain ⟨hfresh, hlive, hnext, rfl⟩ := hstep
    refine ⟨hlive, rfl, ?_⟩
    cases run with
    | finished o => exact nomatch hlive
    | called a =>
      have ha : a = args := hfol
      subst ha
      simp only [IngestRun.next] at hnext
      cases hprep : IngestCall.prepare rt a.input a.tenantId with
      | error err =>
        -- turned away before any store operation
        rw [hprep] at hnext
        cases hnext
        refine ⟨trivial, Or.inr ⟨_, rfl, ?_⟩⟩
        simp only [ingestSeq, ingestEvent, hprep]
      | ok c =>
        rw [hprep] at hnext
        cases hnext
        exact ⟨hprep, Or.inl ⟨rfl, rfl⟩⟩
    | running c pc =>
      have hprep : IngestCall.prepare rt args.input args.tenantId = .ok c := hfol
      cases pc with
      | exists_ =>
        simp only [IngestRun.next] at hnext
        split at hnext
        · next hex =>
          -- the key is stored: the whole call would stop here as well
          cases hnext
          have hno : c.appends spine = false :=
            IngestCall.appends_eq_false.mpr (Or.inl (IngestCall.keyTaken_of_keyExists hex))
          exact ⟨trivial, Or.inr ⟨_, rfl, ingestSeq_of_not_appends hprep hno⟩⟩
        · cases hnext
          exact ⟨hprep, Or.inl ⟨rfl, rfl⟩⟩
      | findOne =>
        simp only [IngestRun.next] at hnext
        split at hnext
        · next hnone =>
          -- the latest row has the content, read and used in one step
          cases hnext
          have hno : c.appends spine = false :=
            IngestCall.appends_eq_false.mpr (Or.inr (IngestCall.classify_eq_none.mp hnone))
          exact ⟨trivial, Or.inr ⟨_, rfl, ingestSeq_of_not_appends hprep hno⟩⟩
        · cases hnext
          exact ⟨hprep, Or.inl ⟨rfl, rfl⟩⟩
      | updateOne status =>
        simp only [IngestRun.next] at hnext
        split at hnext
        · next htaken =>
          cases hnext
          have hno : c.appends spine = false :=
            IngestCall.appends_eq_false.mpr (Or.inl htaken)
          exact ⟨trivial, Or.inr ⟨_, rfl, ingestSeq_of_not_appends hprep hno⟩⟩
        · next hfree =>
          cases hnext
          -- the carried status is the one a read of this spine would give
          have hclass : c.classify spine = some status := by
            simpa [IngestRun.fresh, hfree] using hfresh
          have happ : c.appends spine = true := by
            simp [IngestCall.appends, hfree, hclass]
          refine ⟨trivial, Or.inr ⟨_, rfl, ?_⟩⟩
          rw [ingestSeq_of_prepare hprep, if_pos happ]
          simp only [IngestCall.statusIn, happ, if_true, hclass]

/-! ## One `'added'` per entity -/

/-- Two calls are about the same entity of the same tenant. -/
def SameEntity (rt : Runtime) (a b : IngestArgs) : Prop :=
  ∃ c d, IngestCall.prepare rt a.input a.tenantId = .ok c ∧
    IngestCall.prepare rt b.input b.tenantId = .ok d ∧ d.sameEntity c.row = true

/-- The answer is `'added'`. -/
def Added (answer : Option (Except JsVal IngestResult)) : Prop :=
  ∃ res, answer = some (.ok res) ∧ res.status = .added

/-- A call never shortens the spine. -/
private theorem prefix_ingestSeq (rt : Runtime) (args : IngestArgs) (spine : Spine) :
    spine <+: (ingestSeq rt args spine).2 := by
  cases hprep : IngestCall.prepare rt args.input args.tenantId with
  | error err =>
    have hsame : (ingestSeq rt args spine).2 = spine := by
      unfold ingestSeq ingestEvent
      rw [hprep]
    exact ⟨[], by rw [hsame, List.append_nil]⟩
  | ok c =>
    rw [ingestSeq_of_prepare hprep]
    show spine <+: if _ then _ else _
    split
    · exact List.prefix_append _ _
    · exact List.prefix_refl _

/-- An `'added'` answer finds no row of the entity and leaves one. -/
private theorem ingestSeq_added {rt : Runtime} {args : IngestArgs} {c : IngestCall} {spine : Spine}
    (hprep : IngestCall.prepare rt args.input args.tenantId = .ok c)
    (h : Added (some (ingestSeq rt args spine).1)) :
    (∀ r ∈ spine, c.sameEntity r = false) ∧ c.row ∈ (ingestSeq rt args spine).2 := by
  obtain ⟨res, hres, hadded⟩ := h
  rw [ingestSeq_of_prepare hprep] at hres ⊢
  have hstatus : c.statusIn spine = .added := by
    cases hres
    exact hadded
  have happ : c.appends spine = true := by
    by_contra hno
    rw [IngestCall.statusIn_of_not_appends (by simpa using hno)] at hstatus
    exact nomatch hstatus
  constructor
  · -- any row found would have made it `'updated'` or `'unchanged'`
    rw [← IngestCall.latest_eq_none]
    simp only [IngestCall.statusIn, happ, if_true, IngestCall.classify] at hstatus
    cases hl : c.latest spine with
    | none => rfl
    | some l =>
      rw [hl] at hstatus
      by_cases hhash : l.contentHash = c.cHash
      · simp [hhash] at hstatus
      · simp [hhash] at hstatus
  · rw [if_pos happ]
    exact List.mem_append_right _ (List.mem_singleton_self _)

section Order

variable {rt : Runtime} {calls : List IngestArgs} {answer : ℕ → Option (Except JsVal IngestResult)}

/-- Once an entity has a row, no later call about it answers `'added'`. -/
private theorem serial_not_added_of_row {r : Event} {order : List ℕ} {spine spine' : Spine}
    (hvalid : ∀ i ∈ order, (∃ a, calls[i]? = some a) ∧ ∃ o, answer i = some o)
    (hs : Pool.serial (ingestSeq rt) (order.filterMap (calls[·]?)) spine =
      (order.filterMap answer, spine'))
    (hr : r ∈ spine) {j : ℕ} (hj : j ∈ order) {b : IngestArgs} {d : IngestCall}
    (hb : calls[j]? = some b) (hd : IngestCall.prepare rt b.input b.tenantId = .ok d)
    (hent : d.sameEntity r = true) : ¬ Added (answer j) := by
  induction order generalizing spine with
  | nil => exact absurd hj List.not_mem_nil
  | cons i order ih =>
    obtain ⟨⟨a, ha⟩, o, ho⟩ := hvalid i List.mem_cons_self
    rw [List.filterMap_cons_some ha, List.filterMap_cons_some ho] at hs
    have ⟨hfirst, hrest⟩ := Pool.serial_cons_eq hs
    rcases List.mem_cons.mp hj with rfl | hj
    · -- the first call of the sequence would have read the row
      intro hadded
      rw [hb, Option.some.injEq] at ha
      subst ha
      rw [ho, ← hfirst] at hadded
      have hnone := (ingestSeq_added hd hadded).1 r hr
      rw [hent] at hnone
      exact nomatch hnone
    · exact ih (fun i hi => hvalid i (List.mem_cons_of_mem _ hi)) hrest
        ((prefix_ingestSeq rt a spine).subset hr) hj

/-- In a sequence of calls at most one about each entity answers `'added'`. -/
theorem serial_added_unique {order : List ℕ} {spine spine' : Spine} (hnodup : order.Nodup)
    (hvalid : ∀ i ∈ order, (∃ a, calls[i]? = some a) ∧ ∃ o, answer i = some o)
    (hs : Pool.serial (ingestSeq rt) (order.filterMap (calls[·]?)) spine =
      (order.filterMap answer, spine'))
    {i j : ℕ} (hi : i ∈ order) (hj : j ∈ order) (hij : i ≠ j) {a b : IngestArgs}
    (ha : calls[i]? = some a) (hb : calls[j]? = some b) (hab : SameEntity rt a b)
    (hba : SameEntity rt b a) : ¬ (Added (answer i) ∧ Added (answer j)) := by
  induction order generalizing spine with
  | nil => exact absurd hi List.not_mem_nil
  | cons k order ih =>
    have hrestvalid := fun i hi => hvalid i (List.mem_cons_of_mem k hi)
    obtain ⟨⟨e, he⟩, o, ho⟩ := hvalid k List.mem_cons_self
    rw [List.filterMap_cons_some he, List.filterMap_cons_some ho] at hs
    have ⟨hfirst, hrest⟩ := Pool.serial_cons_eq hs
    -- the first `'added'` leaves a row that every later call finds
    have hlater : ∀ {x : ℕ} {y z : IngestArgs}, calls[k]? = some y → x ∈ order →
        calls[x]? = some z → SameEntity rt y z → Added (answer k) → ¬ Added (answer x) := by
      intro x y z hy hx hz ⟨c, d, hc, hd, hent⟩ hk
      rw [hy, Option.some.injEq] at he
      subst he
      rw [ho, ← hfirst] at hk
      exact serial_not_added_of_row hrestvalid hrest (ingestSeq_added hc hk).2 hx hz hd hent
    intro ⟨hadda, haddb⟩
    rcases List.mem_cons.mp hi with rfl | hi'
    · rcases List.mem_cons.mp hj with rfl | hj'
      · exact hij rfl
      · exact hlater ha hj' hb hab hadda haddb
    · rcases List.mem_cons.mp hj with rfl | hj'
      · exact hlater hb hi' ha hba haddb hadda
      · exact ih (List.nodup_cons.mp hnodup).2 hrestvalid hrest hi' hj' ⟨hadda, haddb⟩

end Order

/-- **Serializability of ingest.** From any spine, whatever calls run concurrently and
    however their undisturbed steps interleave: if every insert acts on a decision that is
    still the one a fresh read would give, then some order of the calls, run one at a time,
    gives each call the same answer and ends with the same rows, and no two calls about one
    entity both answer `'added'`. -/
theorem ingest_serializable (rt : Runtime) (calls : List IngestArgs) (s₀ : Spine)
    (runs : List IngestRun) (s : Spine)
    (h : ((undisturbedPool rt).restrict (fun run spine => run.fresh spine = true)).Reaches
      (calls.map .called, s₀) (runs, s))
    (hdone : ∀ run ∈ runs, run.outcome ≠ none) :
    SerialEquivalent rt calls s₀ runs s ∧
      ∀ (i j : ℕ) (a b : IngestArgs), i ≠ j → calls[i]? = some a → calls[j]? = some b →
        SameEntity rt a b → ¬ (Added (runs[i]?.bind IngestRun.outcome) ∧
          Added (runs[j]?.bind IngestRun.outcome)) := by
  obtain ⟨hlen, order, hperm, hserial⟩ := (undisturbed_serializes rt).exists_order h hdone
  have hequiv : SerialEquivalent rt calls s₀ runs s := by
    refine ⟨order, hperm, ?_, ?_⟩
    · rw [hserial]
    · rw [hserial]
  refine ⟨hequiv, fun i j a b hij ha hb hab => ?_⟩
  have hmem : ∀ k, k ∈ order ↔ k < calls.length := fun k => by
    rw [hperm.mem_iff, List.mem_range]
  -- every call of the order has finished
  have hvalid : ∀ k ∈ order, (∃ c, calls[k]? = some c) ∧
      ∃ o, runs[k]?.bind IngestRun.outcome = some o := by
    intro k hk
    have hlt := (hmem k).mp hk
    have hlt' : k < runs.length := hlen ▸ hlt
    obtain ⟨o, ho⟩ := Option.ne_none_iff_exists'.mp (hdone _ (List.getElem_mem hlt'))
    exact ⟨⟨_, List.getElem?_eq_getElem hlt⟩, o, by
      rw [List.getElem?_eq_getElem hlt', Option.bind_some, ho]⟩
  have hba : SameEntity rt b a := by
    obtain ⟨c, d, hc, hd, hent⟩ := hab
    exact ⟨d, c, hd, hc, IngestCall.sameEntity_symm hent⟩
  exact serial_added_unique (hperm.nodup_iff.mpr List.nodup_range) hvalid hserial
    ((hmem i).mpr (List.getElem?_eq_some_iff.mp ha).1)
    ((hmem j).mpr (List.getElem?_eq_some_iff.mp hb).1) hij ha hb hab hba

/-- Calls none of which is live have all finished. -/
private theorem IngestRun.outcome_ne_none_of_all {runs : List IngestRun}
    (h : runs.all (fun run => !run.live) = true) : ∀ run ∈ runs, run.outcome ≠ none := by
  intro run hrun hnone
  have hdead := List.all_eq_true.mp h run hrun
  rw [IngestRun.live, hnone] at hdead
  exact nomatch hdead

/-- A schedule of undisturbed steps with fresh decisions. -/
def runFresh (rt : Runtime) : List ℕ → List IngestRun × Spine → List IngestRun × Spine :=
  Pool.runSchedule (fun run spine => run.live && run.fresh spine) (IngestRun.next rt)

private theorem reaches_runFresh (rt : Runtime) (schedule : List ℕ) (c : List IngestRun × Spine) :
    ((undisturbedPool rt).restrict (fun run spine => run.fresh spine = true)).Reaches c
      (runFresh rt schedule c) := by
  refine Pool.reaches_runSchedule (fun run spine hlive => ?_) schedule c
  rw [Bool.and_eq_true] at hlive
  exact ⟨hlive.2, Option.isNone_iff_eq_none.mp hlive.1, rfl, rfl⟩

/-- Two versions of one issue, ingested by overlapping calls that read before either
    writes only where they would read the same again. -/
def overlap : List IngestRun × Spine :=
  runFresh plainRuntime [0, 1, 0, 0, 0, 1, 1, 1]
    ([⟨issueInput "v1" "A", some tenantA⟩, ⟨issueInput "v2" "B", some tenantA⟩].map .called, [])

theorem ingest_serializable_overlap :
    overlap.2.length = 2 ∧ SerialEquivalent plainRuntime
      [⟨issueInput "v1" "A", some tenantA⟩, ⟨issueInput "v2" "B", some tenantA⟩] []
      overlap.1 overlap.2 := by
  have hdone : overlap.1.all (fun run => !run.live) = true := by decide +kernel
  refine ⟨by decide +kernel, (ingest_serializable plainRuntime _ [] overlap.1 overlap.2
    (reaches_runFresh plainRuntime _ _) fun run hrun => ?_).1⟩
  exact IngestRun.outcome_ne_none_of_all hdone run hrun

/-- Two versions with the same content, both classified before either is written. -/
def doubleAdd : List IngestRun × Spine :=
  Pool.runSchedule (fun run _ => run.live) (IngestRun.next plainRuntime) [0, 1, 0, 1, 0, 1, 0, 1]
    ([⟨issueInput "v1" "A", some tenantA⟩, ⟨issueInput "v2" "A", some tenantA⟩].map .called, [])

/-- Both overlapping calls answer `'added'`; run one at a time, in either order, the second
    one is suppressed. -/
theorem ingest_not_serializable :
    ¬ ∀ (calls : List IngestArgs) (runs : List IngestRun) (s : Spine),
      (undisturbedPool plainRuntime).Reaches (calls.map .called, []) (runs, s) →
      (∀ run ∈ runs, run.outcome ≠ none) → SerialEquivalent plainRuntime calls [] runs s := by
  intro h
  have hreach : (undisturbedPool plainRuntime).Reaches
      ([⟨issueInput "v1" "A", some tenantA⟩, ⟨issueInput "v2" "A", some tenantA⟩].map .called, [])
      (doubleAdd.1, doubleAdd.2) := by
    refine Pool.reaches_runSchedule (fun run spine hlive => ?_) _ _
    exact ⟨Option.isNone_iff_eq_none.mp hlive, rfl, rfl⟩
  have hdone : doubleAdd.1.all (fun run => !run.live) = true := by decide +kernel
  obtain ⟨order, hperm, -, hsame⟩ := h _ _ _ hreach (IngestRun.outcome_ne_none_of_all hdone)
  have hrows : doubleAdd.2.length = 2 := by decide +kernel
  -- either order of two calls leaves one row
  have horder : order = [0, 1] ∨ order = [1, 0] := by
    obtain ⟨i, j, rfl⟩ := List.length_eq_two.mp hperm.length_eq
    have hi : i < 2 := List.mem_range.mp (hperm.subset (by simp))
    have hj : j < 2 := List.mem_range.mp (hperm.subset (by simp))
    have hij : i ≠ j := by simpa using hperm.nodup_iff.mpr List.nodup_range
    have hcases : i = 0 ∧ j = 1 ∨ i = 1 ∧ j = 0 := by omega
    rcases hcases with ⟨rfl, rfl⟩ | ⟨rfl, rfl⟩
    · exact Or.inl rfl
    · exact Or.inr rfl
  have hlength := hsame.length_eq
  rw [hrows] at hlength
  revert hlength
  rcases horder with rfl | rfl
  · decide +kernel
  · decide +kernel

end Shiplog
