import Shiplog.Native.Workers
import Shiplog.Spec.CursorInvariant
import Shiplog.Spec.JobLife
import Shiplog.Spec.PipelineCorrect
import Shiplog.Spec.Provenance
import Shiplog.Spec.TenantIngest

/-!
# Backfill recovers what was landed

A completed ingest job is represented in the spine for good: its call found its key, found
its content, lost the race for its key, or appended its row, and rows are never taken back.
A backfill puts every raw record of a connection on the ingest queue once more, so after its
jobs have completed, everything landed is represented, however they are interleaved with the
rest of the system and with further `ingestEvent` calls.

## Key results

- `IngestRun.Step.represented`: a call that returns is represented
- `busySystem_invariant`: completed jobs are represented in every reachable state
- `backfill_recovers`: the guarantee of a backfill
-/

namespace Shiplog

/-! ## Represented calls -/

/-- A row of the call's tenant has its key, or its entity and content. -/
def IngestCall.Represented (c : IngestCall) (spine : Spine) : Prop :=
  ∃ r ∈ spine, r.tenantId = c.tenantId ∧ (r.idempotencyKey = c.idemKey ∨
    r.source = c.ev.source ∧ r.externalId = c.ev.externalId ∧ r.contentHash = c.cHash)

namespace IngestCall

variable {c : IngestCall} {spine spine' : Spine}

theorem Represented.mono (h : c.Represented spine) (hs : spine <+: spine') :
    c.Represented spine' := by
  obtain ⟨r, hr, hrep⟩ := h
  exact ⟨r, hs.subset hr, hrep⟩

/-- The first branch that answers `'unchanged'`: the version is stored. -/
private theorem represented_of_keyExists (h : c.keyExists spine = true) : c.Represented spine := by
  simp only [keyExists, List.any_eq_true, Bool.and_eq_true, decide_eq_true_eq] at h
  obtain ⟨r, hr, ht, hk⟩ := h
  exact ⟨r, hr, ht, Or.inl hk⟩

/-- The second one: the latest row of the entity has the call's content. -/
private theorem represented_of_suppressed (h : c.classify spine = none) : c.Represented spine := by
  obtain ⟨r, hlatest, hhash⟩ := classify_eq_none.mp h
  have hr : r ∈ spine.filter c.sameEntity := List.mem_reverse.mp (List.argmax_mem hlatest)
  obtain ⟨hmem, hsame⟩ := List.mem_filter.mp hr
  simp only [sameEntity, Bool.and_eq_true, decide_eq_true_eq] at hsame
  exact ⟨r, hmem, hsame.1.1, Or.inr ⟨hsame.1.2, hsame.2, hhash⟩⟩

/-- The third one: the upsert meets the call's key, which is a row of its own tenant. -/
private theorem represented_of_keyTaken {rt : Runtime} (hsha : Function.Injective rt.sha256Hex)
    (hown : OwnKeys rt spine) (hc : c.row.idempotencyKey = c.row.ownKey rt)
    (h : c.keyTaken spine = true) : c.Represented spine :=
  represented_of_keyExists (keyTaken_eq_keyExists hsha hown hc ▸ h)

private theorem represented_row (c : IngestCall) (spine : Spine) :
    c.Represented (spine ++ [c.row]) :=
  ⟨c.row, List.mem_concat_self, rfl, Or.inl rfl⟩

end IngestCall

/-! ## Calls among many -/

section Calls

variable {rt : Runtime} {args : IngestArgs} {run run' : IngestRun} {spine spine' : Spine}

/-- A call set up by the prologue writes under its own key. -/
theorem IngestCall.ownKey_of_prepare {c : IngestCall}
    (h : IngestCall.prepare rt args.input args.tenantId = .ok c) :
    c.row.idempotencyKey = c.row.ownKey rt := by
  obtain ⟨t, ev, -, -, rfl⟩ := IngestCall.prepare_ok h
  rfl

/-- Rows keep sitting under their own keys. -/
private theorem IngestRun.Step.ownKeys (h : IngestRun.Step rt run spine run' spine')
    (hf : run.Follows rt args) (hown : OwnKeys rt spine) : OwnKeys rt spine' := by
  rcases h.cases.2 with ⟨rfl, -⟩ | ⟨c, status, rfl, -, -, rfl⟩
  · exact hown
  · exact List.forall_mem_concat hown (IngestCall.ownKey_of_prepare hf)

/-- An operation whose answer lets the call return leaves it represented: the exact check, the
    content check and the upsert each return on a row of their own. -/
private theorem IngestRun.represented_of_next (hsha : Function.Injective rt.sha256Hex)
    {c : IngestCall} {pc : IngestPc} (hown : OwnKeys rt spine)
    (hc : c.row.idempotencyKey = c.row.ownKey rt) {res : IngestResult}
    (hres : ((IngestRun.running c pc).next rt spine).1.outcome = some (.ok res)) :
    c.Represented ((IngestRun.running c pc).next rt spine).2 := by
  cases pc with
  | exists_ =>
    simp only [IngestRun.next] at hres ⊢
    split
    · next hex => exact IngestCall.represented_of_keyExists hex
    · next hex =>
      rw [if_neg hex] at hres
      cases hres
  | findOne =>
    simp only [IngestRun.next] at hres ⊢
    split
    · next hcl => exact IngestCall.represented_of_suppressed hcl
    · next status hcl =>
      rw [hcl] at hres
      cases hres
  | updateOne status =>
    simp only [IngestRun.next]
    split
    · next htaken => exact IngestCall.represented_of_keyTaken hsha hown hc htaken
    · exact c.represented_row spine

/-- **A call that returns is represented**, on whichever branch it does. -/
theorem IngestRun.Step.represented (hsha : Function.Injective rt.sha256Hex)
    (h : IngestRun.Step rt run spine run' spine') (hf : run.Follows rt args)
    (hown : OwnKeys rt spine) {res : IngestResult} (hres : run'.outcome = some (.ok res)) :
    ∃ c, IngestCall.prepare rt args.input args.tenantId = .ok c ∧ c.Represented spine' := by
  cases h with
  | answer hrun =>
    cases run with
    | finished o => cases hrun
    | called a =>
      -- the prologue throws or hands over to the exact check
      simp only [IngestRun.next] at hres
      split at hres
      · cases hres
      · cases hres
    | running c pc =>
      exact ⟨c, hf, IngestRun.represented_of_next hsha hown (IngestCall.ownKey_of_prepare hf) hres⟩
  | @duplicateKey c status _ err htaken herr =>
    -- the unique index rejects the insert where the key is taken
    exact ⟨c, hf, IngestCall.represented_of_keyTaken hsha hown (IngestCall.ownKey_of_prepare hf)
      htaken⟩
  | throw hop herr => exact absurd hres (IngestRun.outcome_fault_ne_ok hop herr res)

end Calls

/-! ## Jobs -/

/-- The call of a job's record for its tenant is represented. -/
def IngestJobData.Represented (rt : Runtime) (data : IngestJobData) (spine : Spine) : Prop :=
  ∃ input c, normalizeGithubRecord rt data.record = .ok input ∧
    IngestCall.prepare rt input (some data.tenantId) = .ok c ∧ c.Represented spine

/-- A job inside `ingestEvent` works on its record, and a completed one is represented. -/
def JobProc.Recovered (rt : Runtime) (spine : Spine) : JobProc → Prop
  | .ingesting job _ run => ∃ input, normalizeGithubRecord rt job.data.record = .ok input ∧
      run.Follows rt ⟨input, some job.data.tenantId⟩
  | .completed job _ => job.data.Represented rt spine
  | _ => True

namespace JobProc

variable {rt : Runtime} {spine spine' : Spine}

theorem Recovered.mono {p : JobProc} (h : p.Recovered rt spine) (hs : spine <+: spine') :
    p.Recovered rt spine' := by
  cases p with
  | completed job res =>
    obtain ⟨input, c, hin, hprep, hrep⟩ := h
    exact ⟨input, c, hin, hprep, hrep.mono hs⟩
  | _ => exact h

/-- **One step of a job**: the spine grows under own keys, and what completes is
    represented. -/
private theorem Step.recovered {createThrows : Prop} {p p' : JobProc} {s s' : Pipeline}
    {new : List JobProc} (hsha : Function.Injective rt.sha256Hex)
    (h : Step rt createThrows p s p' s' new) (hown : OwnKeys rt s.spine)
    (hp : p.Recovered rt s.spine) :
    OwnKeys rt s'.spine ∧ s.spine <+: s'.spine ∧ p'.Recovered rt s'.spine ∧
      ∀ q ∈ new, q.Recovered rt s'.spine := by
  have hnil : ∀ q ∈ ([] : List JobProc), q.Recovered rt s'.spine :=
    fun q hq => absurd hq List.not_mem_nil
  cases h with
  | start failMode m h =>
    exact ⟨hown, List.prefix_refl _, enterIngest_all (fun _ => trivial) (fun _ _ => trivial)
      (fun _ _ => trivial) (fun input hin => ⟨input, hin, rfl⟩) failMode⟩
  | startDemo failMode h => exact ⟨hown, List.prefix_refl _, trivial, hnil⟩
  | demoRecovered m h =>
    exact ⟨hown, List.prefix_refl _, enterIngest_all (fun _ => trivial) (fun _ _ => trivial)
      (fun _ _ => trivial) (fun input hin => ⟨input, hin, rfl⟩) _⟩
  | demoOutage m h =>
    exact ⟨hown, List.prefix_refl _, throwing_all (fun _ => trivial) (fun _ _ => trivial)
      (fun _ _ => trivial) _⟩
  | demoThrow m err =>
    exact ⟨hown, List.prefix_refl _, throwing_all (fun _ => trivial) (fun _ _ => trivial)
      (fun _ _ => trivial) err⟩
  | ingest m h =>
    -- the only step that writes, and the only one after which a job can complete
    obtain ⟨input, hin, hf⟩ := hp
    refine ⟨h.ownKeys hf hown, h.grows, afterIngest_all (fun _ => trivial) (fun _ _ => trivial)
      (fun _ _ => trivial) ⟨input, hin, (h.follows hf).1⟩ fun res hout => ?_⟩
    obtain ⟨c, hprep, hrep⟩ := h.represented hsha hf hown hout
    exact ⟨input, c, hin, hprep, hrep⟩
  | log h => exact ⟨hown, List.prefix_refl _, trivial, hnil⟩
  | create id now h hdoc => exact ⟨hown, List.prefix_refl _, trivial, hnil⟩
  | createThrow hc h => exact ⟨hown, List.prefix_refl _, trivial, hnil⟩
  | park => exact ⟨hown, List.prefix_refl _, trivial, hnil⟩
  | parkThrow => exact ⟨hown, List.prefix_refl _, trivial, hnil⟩

end JobProc

/-! ## The system -/

/-- Completed ingest jobs are represented. -/
def ProcRecovered (rt : Runtime) (s : SystemStore) : Proc → Prop
  | .ingest proc => proc.Recovered rt s.1.spine
  | _ => True

theorem ProcRecovered.mono {rt : Runtime} {s s' : SystemStore} (hs : s.1.spine <+: s'.1.spine)
    {p : Proc} (h : ProcRecovered rt s p) : ProcRecovered rt s' p := by
  cases p with
  | ingest proc => exact JobProc.Recovered.mono h hs
  | _ => exact h

/-- Adding a job touches no collection. -/
theorem System.add_spine (s : System) (add : QueueAdd) : (s.add add).spine = s.spine := by
  cases add with
  | _ => rfl

theorem stampPlan_spine (env : RequestEnv) (replayed : Option (ObjectId × ObjectId)) (s : System) :
    (stampPlan env replayed s).spine = s.spine := by
  cases replayed with
  | none => rfl
  | some replayed => rfl

/-- What a step leaves behind: own keys, a longer spine, and recovered processes. -/
def Kept (rt : Runtime) (s s' : SystemStore) (ps : List Proc) : Prop :=
  (OwnKeys rt s'.1.spine ∧ s.1.spine <+: s'.1.spine) ∧ ∀ q ∈ ps, ProcRecovered rt s' q

/-- A step that leaves the spine alone and ends outside the ingest queue. -/
private theorem Kept.of_spine_eq {rt : Runtime} {s s' : SystemStore} (hown : OwnKeys rt s.1.spine)
    (heq : s'.1.spine = s.1.spine) {p : Proc} (hp : ProcRecovered rt s' p) : Kept rt s s' [p] := by
  refine ⟨?_, List.forall_mem_singleton.mpr hp⟩
  rw [heq]
  exact ⟨hown, List.prefix_refl _⟩

/-- **One step of the system** keeps completed jobs represented. -/
theorem Proc.Step.kept {rt : Runtime} (hsha : Function.Injective rt.sha256Hex) {d : Drivers}
    {options : AppOptions} {p p' : Proc} {s : SystemStore} {sys' : System} {new : List Proc}
    (h : Proc.Step rt d options p s.1 p' sys' new) (hown : OwnKeys rt s.1.spine)
    (hp : ProcRecovered rt s p) : Kept rt s (sys', s.2) (p' :: new) := by
  cases h with
  | @request tenantId req _ env hid =>
    refine Kept.of_spine_eq hown ?_ trivial
    -- a handler changes `connections` at most
    rcases @ApiRequest.plan_state d options env tenantId s.1 req with heq | ⟨v, r, heq⟩
    · rw [heq]
    · rw [heq]
  | webhook => exact Kept.of_spine_eq hown rfl trivial
  | sweep => exact Kept.of_spine_eq hown rfl trivial
  | add h => exact Kept.of_spine_eq hown (System.add_spine _ _) trivial
  | stamp env => exact Kept.of_spine_eq hown (stampPlan_spine _ _ _) trivial
  | nangoSync nango h => exact Kept.of_spine_eq hown rfl trivial
  | reconcile nango h => exact Kept.of_spine_eq hown rfl trivial
  | ingest h =>
    obtain ⟨hown', hgrows, hp', hnew⟩ := h.recovered hsha hown hp
    refine ⟨⟨hown', hgrows⟩, List.forall_mem_cons.mpr ⟨hp', fun q hq => ?_⟩⟩
    obtain ⟨q', hq', rfl⟩ := List.mem_map.mp hq
    exact hnew q' hq'
  | throw hcan => exact Kept.of_spine_eq hown rfl trivial

/-- What arrives changes no row and is no completed job. -/
theorem Arrival.kept {rt : Runtime} {s s' : SystemStore} {new : List Proc} (h : Arrival s s' new)
    (hown : OwnKeys rt s.1.spine) : Kept rt s s' new := by
  cases h with
  | request tenantId req => exact Kept.of_spine_eq hown rfl trivial
  | webhook payload => exact Kept.of_spine_eq hown rfl trivial
  | sweep => exact Kept.of_spine_eq hown rfl trivial
  | nangoSync h => exact Kept.of_spine_eq hown rfl trivial
  | reconcile h => exact Kept.of_spine_eq hown rfl trivial
  | ingest h => exact Kept.of_spine_eq hown rfl trivial

/-- `ingestEvent` calls made by others than the ingest worker, on any input. -/
def otherCalls (rt : Runtime) : Pool IngestRun SystemStore where
  step run s run' s' new := ∃ spine', IngestRun.Step rt run s.1.spine run' spine' ∧
    s' = ({ s.1 with spine := spine' }, s.2) ∧ new = []
  env s s' new := s' = s ∧ ∃ args, new = [.called args]

/-- The system, with further `ingestEvent` calls beside it. -/
def busySystem (rt : Runtime) (d : Drivers) (options : AppOptions) :
    Pool (Proc ⊕ IngestRun) SystemStore :=
  (shiplogSystem rt d options).beside (otherCalls rt)

/-- A run is one of some call. -/
def IsCall (rt : Runtime) (run : IngestRun) : Prop := ∃ args, run.Follows rt args

section Invariant

variable {rt : Runtime} (hsha : Function.Injective rt.sha256Hex)
include hsha

theorem shiplogSystem_recovered (d : Drivers) (options : AppOptions) :
    (shiplogSystem rt d options).Invariant (fun s => OwnKeys rt s.1.spine) (ProcRecovered rt) where
  step := by
    intro p s p' s' new hown hp hstep
    obtain ⟨sys', taken'⟩ := s'
    obtain ⟨hstep, rfl⟩ := hstep
    obtain ⟨⟨hown', hgrows⟩, hps⟩ := hstep.kept hsha hown hp
    obtain ⟨hp', hnew⟩ := List.forall_mem_cons.mp hps
    exact ⟨hown', hp', hnew, fun q hq => hq.mono hgrows⟩
  env := by
    intro s s' new hown henv
    obtain ⟨⟨hown', hgrows⟩, hnew⟩ := henv.kept hown
    exact ⟨hown', hnew, fun q hq => hq.mono hgrows⟩

omit hsha in
private theorem otherCalls_isCall :
    (otherCalls rt).Invariant (fun s => OwnKeys rt s.1.spine) (fun _ => IsCall rt) where
  step := by
    intro run s run' s' new hown hrun hstep
    obtain ⟨spine', h, rfl, rfl⟩ := hstep
    obtain ⟨args, hf⟩ := hrun
    exact ⟨h.ownKeys hf hown, ⟨args, (h.follows hf).1⟩, fun q hq => absurd hq List.not_mem_nil,
      fun q hq => hq⟩
  env := by
    intro s s' new hown henv
    obtain ⟨rfl, args, rfl⟩ := henv
    exact ⟨hown, List.forall_mem_singleton.mpr ⟨args, rfl⟩, fun q hq => hq⟩

/-- Side by side, rows keep their own keys and completed jobs stay represented. -/
theorem busySystem_invariant (d : Drivers) (options : AppOptions) :
    (busySystem rt d options).Invariant (fun s => OwnKeys rt s.1.spine)
      (fun s => Sum.elim (ProcRecovered rt s) (IsCall rt)) := by
  -- the two pools share the spine only, and every step of either lets it grow
  refine Pool.Invariant.beside (R := fun s s' => s.1.spine <+: s'.1.spine)
    (shiplogSystem_recovered hsha d options) otherCalls_isCall ?_ ?_ ?_ ?_ ?_ ?_
  · intro p s p' s' new hown hp hstep
    exact (hstep.1.kept hsha hown hp).1.2
  · intro s s' new hown henv
    exact (henv.kept hown).1.2
  · intro run s run' s' new hown hrun hstep
    obtain ⟨spine', h, rfl, -⟩ := hstep
    exact h.grows
  · intro s s' new hown henv
    rw [henv.1]
  · exact fun hs hp => hp.mono hs
  · exact fun _ hrun => hrun

end Invariant

/-- **Backfill recovers what was landed.** For a collision-free hash: let the system, with
    further `ingestEvent` calls beside it, come from empty collections to any state `s`, in
    which a backfill of connection `c` for tenant `t` reads the raw records, and from there to
    a state `s'` in which every job of that backfill has completed. Then for every raw record
    of the connection at `s` whose payload normalizes and validates, `s'` has a row of the
    tenant with the payload's key, or with its entity and content. -/
theorem backfill_recovers {rt : Runtime} (hsha : Function.Injective rt.sha256Hex) (d : Drivers)
    (options : AppOptions) (s s' : SystemStore) (procs procs' : List (Proc ⊕ IngestRun))
    (h : (busySystem rt d options).Reaches ([], (emptySystem, [])) (procs, s)) (t c : ObjectId)
    (h' : (busySystem rt d options).Reaches (procs, s) (procs', s'))
    (hdone : ∀ data ∈ backfillJobs c t s.1.rawRecords,
      ∃ attempts res, .inl (.ingest (.completed ⟨data, attempts⟩ res)) ∈ procs') :
    ∀ raw ∈ s.1.rawRecords, raw.isOf c t = true → ∀ input ev,
      normalizeGithubRecord rt (some raw.payload) = .ok input →
      NormalizedEventSchema.parse rt input = .ok ev →
      ∃ r ∈ s'.1.spine, r.tenantId = t ∧
        (r.idempotencyKey = idempotencyKey rt t.toStr ev.source ev.externalId ev.version ∨
          r.source = ev.source ∧ r.externalId = ev.externalId ∧
            r.contentHash = eventHash rt ev) := by
  intro raw hraw hof input ev hin hparse
  have hempty : OwnKeys rt emptySystem.spine := fun r hr => absurd hr List.not_mem_nil
  have hinv := (busySystem_invariant hsha d options).reaches (h.trans h') hempty
    fun p hp => absurd hp List.not_mem_nil
  -- the job of the record, and what its completion says
  have hjob : (⟨t, some c, none, some raw.payload, .undefined, none⟩ : IngestJobData) ∈
      backfillJobs c t s.1.rawRecords :=
    List.mem_map.mpr ⟨raw, List.mem_filter.mpr ⟨hraw, hof⟩, rfl⟩
  obtain ⟨attempts, res, hcompleted⟩ := hdone _ hjob
  obtain ⟨input', call, hin', hprep, hrep⟩ := hinv.2 _ hcompleted
  -- the call is the one of the payload
  have hsame : input' = input := Except.ok.inj (hin'.symm.trans hin)
  rw [hsame, IngestCall.prepare_some, hparse] at hprep
  cases hprep
  exact hrep

/-! ## A commit landed, lost and recovered -/

/-- What a handler generates once a connection has been registered. -/
def laterEnv : RequestEnv := { plainEnv with newId := tenantA }

/-- The next step of a handler, a tick, a reconcile run or an ingest job that nothing
    disturbs. -/
def calmNext (nango : NangoListParams → Page) (p : Proc) (s : SystemStore) :
    Proc × SystemStore :=
  match p with
  | .request t req =>
    let look := req.plan plainDrivers ⟨true, true, true⟩ laterEnv t s.1
    (.adding look.1.adds look.1.replayed, (look.2, s.2))
  | .sweep => (.adding (sweepAdds s.1.connections) none, s)
  | .adding (add :: adds) replayed => (.adding adds replayed, (s.1.add add, s.2))
  | .adding [] replayed => (.done, (stampPlan laterEnv replayed s.1, s.2))
  | .reconcile run =>
    let next := run.next plainRuntime nango s.1.toDeliveryStore
    (.reconcile next.1, ({ s.1 with toDeliveryStore := next.2 }, s.2))
  | .ingest (.waiting job made) =>
    (.ingest (JobProc.enterIngest plainRuntime defaultMoment job made .undefined).1, s)
  | .ingest (.ingesting job made run) =>
    let next := run.next plainRuntime s.1.spine
    (.ingest (JobProc.afterIngest plainRuntime defaultMoment job made next.1).1,
      ({ s.1 with spine := next.2 }, s.2))
  | p => (p, s)

/-- Whether that step is possible and starts no handler. -/
def calmLive (p : Proc) (s : SystemStore) : Bool :=
  match p with
  | .request _ _ => !(s.1.connections.map Connection.id).contains laterEnv.newId
  | .sweep => true
  | .adding (add :: _) _ => (plainDrivers.rejects add).isNone
  | .adding [] _ => true
  | .reconcile run => !run.isFinished
  | .ingest (.waiting job made) => (demoFaultId job.data).isNone &&
      (JobProc.enterIngest plainRuntime defaultMoment job made .undefined).2.isEmpty
  | .ingest (.ingesting job made run) => run.live &&
      (JobProc.afterIngest plainRuntime defaultMoment job made
        (run.next plainRuntime s.1.spine).1).2.isEmpty
  | _ => false

theorem calmNext_step {nango : NangoListParams → Page} {p : Proc} {s : SystemStore}
    (h : calmLive p s = true) :
    (shiplogSystem plainRuntime plainDrivers ⟨true, true, true⟩).step p s (calmNext nango p s).1
      (calmNext nango p s).2 [] := by
  cases p with
  | request t req =>
    refine ⟨.request laterEnv ?_, rfl⟩
    simpa [calmLive] using h
  | sweep => exact ⟨.sweep, rfl⟩
  | adding adds replayed =>
    cases adds with
    | nil => exact ⟨.stamp laterEnv, rfl⟩
    | cons add adds => exact ⟨.add (Option.isNone_iff_eq_none.mp h), rfl⟩
  | reconcile run => exact ⟨.reconcile nango (Bool.not_eq_true' _ ▸ h), rfl⟩
  | ingest proc =>
    cases proc with
    | waiting job made =>
      -- `calmLive` asks for a step that starts no `failed` handler
      obtain ⟨hdemo, hnew⟩ := Bool.and_eq_true_iff.mp h
      have hstep := @JobProc.Step.start plainRuntime True job made s.1.toPipeline .undefined
        defaultMoment
        (Option.isNone_iff_eq_none.mp hdemo)
      rw [List.isEmpty_iff.mp hnew] at hstep
      exact ⟨.ingest hstep, rfl⟩
    | ingesting job made run =>
      obtain ⟨hlive, hnew⟩ := Bool.and_eq_true_iff.mp h
      have hstep := @JobProc.Step.ingest plainRuntime True job made s.1.toPipeline run _ _
        defaultMoment
        (.answer (Option.isNone_iff_eq_none.mp hlive))
      rw [List.isEmpty_iff.mp hnew] at hstep
      exact ⟨.ingest hstep, rfl⟩
    | _ => exact nomatch h
  | _ => exact nomatch h

/-- A commit as Nango delivers it. -/
def commitRecord : NangoRecord where
  fields := [("id", .str "r1"), ("_nango_metadata", .obj [("cursor", .str "c1")]),
    ("sha", .str "5f3a"), ("message", .str "Fix the build"),
    ("html_url", .str "https://example.test/5f3a"), ("author_date", .str "2026-01-01")]

/-- The steps of the given processes, undisturbed, against an API of one page. -/
def calmRun (schedule : List ℕ) (c : List Proc × SystemStore) : List Proc × SystemStore :=
  Pool.runSchedule calmLive (calmNext (wholeLog onePos [commitRecord])) schedule c

/-- A tick enqueues the registered connection. -/
def tickDone : List Proc × SystemStore := calmRun [1, 1] ([.done, .sweep], (registered, []))

/-- Its reconcile job runs to the end. -/
def pageDone : List Proc × SystemStore :=
  calmRun [2, 2, 2, 2, 2] (tickDone.1 ++ [.reconcile (.load sweptJob)], tickDone.2)

theorem calmRun_reaches (schedule : List ℕ) (c : List Proc × SystemStore) :
    (shiplogSystem plainRuntime plainDrivers ⟨true, true, true⟩).Reaches c (calmRun schedule c) :=
  Pool.reaches_runSchedule (fun _ _ h => calmNext_step h) schedule c

theorem pageDone_reaches :
    (shiplogSystem plainRuntime plainDrivers ⟨true, true, true⟩).Reaches ([], (emptySystem, []))
      pageDone := by
  have hrequest : (shiplogSystem plainRuntime plainDrivers ⟨true, true, true⟩).Step
      ([], (emptySystem, [])) ([.request tenantA registerIssues], (emptySystem, [])) :=
    .environment (.request tenantA registerIssues _)
  have hregister := handle_reaches plainRuntime plainDrivers ⟨true, true, true⟩
    plainEnv tenantA registerIssues emptySystem [] List.not_mem_nil
  have hsweep : (shiplogSystem plainRuntime plainDrivers ⟨true, true, true⟩).Step
      ([.done], (registered, [])) ([.done, .sweep], (registered, [])) :=
    .environment (.sweep _)
  have hreconcile : (shiplogSystem plainRuntime plainDrivers ⟨true, true, true⟩).Step tickDone
      (tickDone.1 ++ [.reconcile (.load sweptJob)], tickDone.2) :=
    .environment (.reconcile List.mem_cons_self)
  have htick := ((Relation.ReflTransGen.head hrequest hregister).tail hsweep).trans
    (calmRun_reaches [1, 1] _)
  exact (htick.tail hreconcile).trans (calmRun_reaches [2, 2, 2, 2, 2] _)

/-- The job a backfill adds for the landed commit: the one the page added. -/
def backfilledJob : IngestJobData := sweptJob.ingestJob commitRecord

/-- Its `ingestEvent` call. -/
def backfilledCall : IngestCall := .ofEvent plainRuntime tenantA
  ⟨"github", .commit, "commit:5f3a", "unknown", "Fix the build", "https://example.test/5f3a", 0,
    "5f3a"⟩

/-- The job the page enqueued is lost; the connection is backfilled. -/
def backfillDone : List Proc × SystemStore :=
  calmRun [3, 3, 3] (pageDone.1 ++ [.request tenantA (.postBackfill tenantB.hex)], pageDone.2)

/-- The backfilled job is worked off. -/
def recoverDone : List Proc × SystemStore :=
  calmRun [4, 4, 4, 4, 4] (backfillDone.1 ++ [.ingest (.waiting ⟨backfilledJob, ingestAttempts⟩ 0)],
    (backfillDone.2.1, [backfilledJob]))

private theorem recoverDone_reaches :
    (shiplogSystem plainRuntime plainDrivers ⟨true, true, true⟩).Reaches pageDone recoverDone := by
  have hrequest : (shiplogSystem plainRuntime plainDrivers ⟨true, true, true⟩).Step pageDone
      (pageDone.1 ++ [.request tenantA (.postBackfill tenantB.hex)], pageDone.2) :=
    .environment (.request tenantA _ _)
  have hjobs : backfillDone.2.1.ingestJobs = pageDone.2.1.ingestJobs ++ [backfilledJob] := rfl
  have htaken : (shiplogSystem plainRuntime plainDrivers ⟨true, true, true⟩).Step backfillDone
      (backfillDone.1 ++ [.ingest (.waiting ⟨backfilledJob, ingestAttempts⟩ 0)],
        (backfillDone.2.1, [backfilledJob])) :=
    .environment (.ingest (hjobs ▸ List.mem_concat_self))
  exact ((Relation.ReflTransGen.single hrequest).trans (calmRun_reaches [3, 3, 3] _)).trans
    (.head htaken (calmRun_reaches [4, 4, 4, 4, 4] _))

theorem backfill_recovers_lostCommit :
    pageDone.2.1.spine = [] ∧ ∃ r ∈ recoverDone.2.1.spine, r.tenantId = tenantA ∧
      (r.idempotencyKey = backfilledCall.idemKey ∨
        r.source = "github" ∧ r.externalId = "commit:5f3a" ∧
          r.contentHash = eventHash plainRuntime backfilledCall.ev) := by
  have hraw : pageDone.2.1.rawRecords.map RawRecord.payload = [sweptJob.stamp commitRecord] := rfl
  obtain ⟨raw, hraws, hpayload⟩ := List.map_eq_singleton_iff.mp hraw
  -- the first run landed one row; the backfill makes one job of it, which completes
  have hjobs : backfillJobs tenantB tenantA pageDone.2.1.rawRecords = [backfilledJob] := rfl
  have hcompleted : recoverDone.1.getLast? = some (.ingest (.completed
      ⟨backfilledJob, ingestAttempts⟩ (backfilledCall.result .added))) := rfl
  have hof : raw.isOf tenantB tenantA = true := by
    have hall : ∀ raw ∈ pageDone.2.1.rawRecords, raw.isOf tenantB tenantA = true := by
      decide +kernel
    exact hall raw (hraws ▸ List.mem_cons_self)
  obtain ⟨input, hnormal, hparse⟩ : ∃ input,
      normalizeGithubRecord plainRuntime (some raw.payload) = .ok input ∧
        NormalizedEventSchema.parse plainRuntime input = .ok backfilledCall.ev := by
    rw [hpayload]
    exact ⟨_, rfl, rfl⟩
  refine ⟨rfl, @backfill_recovers plainRuntime Function.injective_id plainDrivers
    ⟨true, true, true⟩ pageDone.2 recoverDone.2 _ _ pageDone_reaches.beside tenantA tenantB
    recoverDone_reaches.beside ?_ raw (hraws ▸ List.mem_cons_self) hof input
    backfilledCall.ev hnormal hparse⟩
  intro data hdata
  rw [hjobs] at hdata
  rw [List.mem_singleton.mp hdata]
  exact ⟨ingestAttempts, _, List.mem_map_of_mem (List.mem_of_getLast? hcompleted)⟩

end Shiplog
