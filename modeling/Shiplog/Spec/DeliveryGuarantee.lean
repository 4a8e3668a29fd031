import Shiplog.Spec.Backfill
import Shiplog.Spec.CursorInvariant
import Shiplog.Spec.Durability
import Shiplog.Spec.NoSilentLoss

/-!
# From the records API to the spine

The parts put together: reconcile runs deliver the records of a log to the ingest queue, the
ingest worker takes jobs up, and an attempt ends in the spine or, after the last one, in the
dead letters. `loggedSystem` is the whole system where the records API answers the runs of one
`sync_state` key from a growing log and where `DeadLetter.create` does not throw. Everything
else is left open: other keys' runs get any pages, every other call may throw, any process may
stop for good, and requests, webhooks, sweeps and replays interleave.

## Key results

- `loggedSystem_covered`: some process is in charge of every job that was taken up
- `loggedSystem_accounted`, `loggedSystem_cursorSafe`: the two invariants of the system
- `delivery_guarantee`: in every reachable state each ingest job is queued, in progress,
  represented in the spine, dead-lettered or given up by the backoff strategy, and every live
  record before the stored cursor has such a job
-/

namespace Shiplog

/-! ## The system over a log -/

/-- The key a reconcile run checkpoints under. -/
def ReconcileRun.key? : ReconcileRun → Option (ObjectId × ObjectId × String)
  | .load job | .fetch job _ | .land job _ _ _ _ | .enqueue job _ _ _ _ | .checkpoint job _ _ =>
    some job.key
  | .finished _ => none

/-- What a step from `p` and `s` to `p'` and `s'` finds around it: `DeadLetter.create` goes
    through, and `listRecords` answers the runs under `key` from the log. -/
structure Served (rt : Runtime) (pos : String → ℕ) (key : ObjectId × ObjectId × String)
    (log : List NangoRecord) (p : Proc) (s : System) (p' : Proc) (s' : System) : Prop where
  create : ∀ job made err, p = .ingest (.failing job made err) →
    isTerminalFailure job.attempts made err = true → p' ≠ .ingest (.handled job made err)
  -- a call may still throw, and end the run
  listRecords : ∀ run, p = .reconcile run → run.key? = some key → p' = .done ∨
    ∃ nango : NangoListParams → Page, (∀ params, Answers pos log params.cursor (nango params)) ∧
      p' = .reconcile (run.next rt nango s.toDeliveryStore).1 ∧
      s' = { s with toDeliveryStore := (run.next rt nango s.toDeliveryStore).2 }

/-- The system, and the log behind the records API. -/
abbrev LoggedStore := SystemStore × List NangoRecord

/-- The system at work on a growing log. -/
def loggedSystem (rt : Runtime) (d : Drivers) (options : AppOptions) (pos : String → ℕ)
    (key : ObjectId × ObjectId × String) : Pool Proc LoggedStore where
  step p s p' s' new := (shiplogSystem rt d options).step p s.1 p' s'.1 new ∧ s'.2 = s.2 ∧
    Served rt pos key s.2 p s.1.1 p' s'.1.1
  env s s' new :=
    (shiplogSystem rt d options).env s.1 s'.1 new ∧ s'.2 = s.2 ∨
      s'.1 = s.1 ∧ (∃ more, s'.2 = s.2 ++ more) ∧ IsLog pos s'.2 ∧ new = []

section System

variable {rt : Runtime} {d : Drivers} {options : AppOptions} {pos : String → ℕ}
  {key : ObjectId × ObjectId × String}

/-- A run over the log is one of the system. -/
private theorem loggedSystem_reaches {c c' : List Proc × LoggedStore}
    (h : (loggedSystem rt d options pos key).Reaches c c') :
    (shiplogSystem rt d options).Reaches (c.1, c.2.1) (c'.1, c'.2.1) := by
  refine h.lift' (fun c => (c.1, c.2.1)) fun a b hstep => ?_
  cases hstep with
  | process i hi hp => exact .single (.process i hi hp.1)
  | @environment ps s s' new he =>
    rcases he with ⟨he, -⟩ | ⟨hsame, -, -, rfl⟩
    · exact .single (.environment he)
    · -- the log grows
      show (shiplogSystem rt d options).Reaches (ps, s.1) (ps ++ [], s'.1)
      rw [List.append_nil, hsame]

/-! ## Jobs in progress -/

/-- A process that is still at work on the job with this data: it is in charge of it, and not
    at its end. -/
def JobProc.WorksOn (data : IngestJobData) : JobProc → Prop
  | .completed _ _ | .handled _ _ _ | .givenUp _ _ _ => False
  | p => p.InCharge ⟨data, ingestAttempts⟩

/-- A step after which no dead letter has been given up is one where `create` goes through. -/
private theorem JobProc.Step.of_create {p p' : JobProc} {s s' : Pipeline} {new : List JobProc}
    (h : JobProc.Step rt True p s p' s' new) (hcreate : ∀ job made err, p = .failing job made err →
      isTerminalFailure job.attempts made err = true → p' ≠ .handled job made err) :
    JobProc.Step rt False p s p' s' new := by
  cases h with
  | start failMode m h => exact .start failMode m h
  | startDemo failMode h => exact .startDemo failMode h
  | demoRecovered m h => exact .demoRecovered m h
  | demoOutage m h => exact .demoOutage m h
  | demoThrow m err => exact .demoThrow m err
  | ingest m h => exact .ingest m h
  | log h => exact .log h
  | create id now h hdoc => exact .create id now h hdoc
  | createThrow hc h => exact absurd rfl (hcreate _ _ _ rfl h)
  | park => exact .park
  | parkThrow => exact .parkThrow

/-- What has been taken up, some process is in charge of. -/
theorem loggedSystem_covered {s₀ s : System} {log₀ log : List NangoRecord}
    {taken : List IngestJobData} {procs : List Proc}
    (h : (loggedSystem rt d options pos key).Reaches ([], ((s₀, []), log₀))
      (procs, ((s, taken), log))) :
    ∀ data ∈ taken, ∃ p ∈ procs, ∃ proc, p = .ingest proc ∧
      proc.InCharge ⟨data, ingestAttempts⟩ := by
  refine @Pool.Reaches.covered _ _ _ _ (fun s data => data ∈ s.2)
    (fun p data => ∃ proc, p = .ingest proc ∧ proc.InCharge ⟨data, ingestAttempts⟩) _ _
    (loggedSystem_reaches h) ?_ ?_ (fun data hdata => absurd hdata List.not_mem_nil)
  · -- a step takes nothing up, and one of an ingest job hands its charge on
    intro p s p' s' new hstep
    obtain ⟨sys', taken'⟩ := s'
    obtain ⟨hstep, htaken⟩ := hstep
    refine ⟨fun data hp => ?_, fun data hdata => Or.inl (htaken ▸ hdata)⟩
    obtain ⟨proc, rfl, hproc⟩ := hp
    simp only at hstep
    cases hstep with
    | ingest hstep =>
      exact ⟨_, List.mem_cons_self, _, rfl, hstep.inCharge hproc⟩
    | throw hcan => exact nomatch hcan
  · intro s s' new henv data hdata
    cases henv with
    | ingest hadded =>
      -- the job just taken up comes with its process
      rcases List.mem_append.mp hdata with hold | hnew
      · exact Or.inl hold
      · rw [List.mem_singleton.mp hnew]
        exact Or.inr ⟨_, List.mem_singleton_self _, _, rfl, rfl⟩
    | _ => exact Or.inl hdata

end System

/-! ## Dead letters -/

/-- Stamping a dead letter leaves its payload and tenant. -/
theorem DeadLettered.retains {job : Job} {s s' : Pipeline} (hs : s.Retains s')
    (h : DeadLettered job s.deadLetters) : DeadLettered job s'.deadLetters := by
  obtain ⟨doc, hdoc, hpayload, ht⟩ := h
  obtain ⟨doc', hdoc', hkept, -⟩ := hs.deadLetters.exists_mem hdoc
  refine ⟨doc', hdoc', ?_⟩
  rw [hkept]
  exact ⟨hpayload, ht⟩

theorem Accounted.retains {rt : Runtime} {s s' : Pipeline} (hs : s.Retains s') {p : JobProc}
    (h : Accounted rt s p) : Accounted rt s' p := by
  cases p with
  | parking job made err doc => exact DeadLettered.retains hs h
  | handled job made err => exact fun hgone => DeadLettered.retains hs (h hgone)
  | _ => exact h

/-- Ingest jobs are accounted for. -/
def ProcAccounted (rt : Runtime) (s : LoggedStore) : Proc → Prop
  | .ingest proc => Accounted rt s.1.1.toPipeline proc
  | _ => True

theorem ProcAccounted.retains {rt : Runtime} {s s' : LoggedStore} (hs : s.1.1.Retains s'.1.1)
    {p : Proc} (h : ProcAccounted rt s p) : ProcAccounted rt s' p := by
  cases p with
  | ingest proc => exact Accounted.retains hs.pipeline h
  | _ => trivial

/-- What arrives starts one process: a reconcile run at its first call, a waiting job, or one
    that neither reconciles nor ingests. -/
private theorem Arrival.starts {s s' : SystemStore} {new : List Proc} (h : Arrival s s' new)
    {Q : Proc → Prop} (hreconcile : ∀ job, Q (.reconcile (.load job)))
    (hingest : ∀ job, Q (.ingest (.waiting job 0)))
    (hother : ∀ p, (∀ run, p ≠ .reconcile run) → (∀ proc, p ≠ .ingest proc) → Q p) :
    ∀ q ∈ new, Q q := by
  cases h with
  | reconcile hjob => exact List.forall_mem_singleton.mpr (hreconcile _)
  | ingest hdata => exact List.forall_mem_singleton.mpr (hingest _)
  | _ =>
    exact List.forall_mem_singleton.mpr (hother _ (fun _ h => Proc.noConfusion h)
      fun _ h => Proc.noConfusion h)

/-- Every step keeps the accounts of the ingest jobs. -/
theorem loggedSystem_accounted (rt : Runtime) (d : Drivers) (options : AppOptions)
    (pos : String → ℕ) (key : ObjectId × ObjectId × String) :
    (loggedSystem rt d options pos key).Invariant (fun _ => True) (ProcAccounted rt) where
  step := by
    intro p s p' s' new _ hp hstep
    obtain ⟨⟨sys', taken'⟩, log'⟩ := s'
    obtain ⟨⟨hstep, -⟩, -, hserved⟩ := hstep
    simp only at hstep hserved
    -- the accounts of the other processes are kept by any step
    suffices h : ProcAccounted rt ((sys', taken'), log') p' ∧
        ∀ q ∈ new, ProcAccounted rt ((sys', taken'), log') q by
      exact ⟨trivial, h.1, h.2, fun q hq => hq.retains hstep.retains⟩
    have hnil : ∀ q ∈ ([] : List Proc), ProcAccounted rt ((sys', taken'), log') q :=
      fun q hq => absurd hq List.not_mem_nil
    cases hstep with
    | @ingest proc proc' pipeline' new _ h =>
      -- `create` goes through, so the pipeline's own invariant applies
      have hcreate := h.of_create fun job made err hfailing hterminal hhandled =>
        hserved.create job made err (congrArg _ hfailing) hterminal (congrArg _ hhandled)
      obtain ⟨-, hp', hnew, -⟩ := (pipeline_accounted rt).step trivial hp hcreate
      refine ⟨hp', fun q hq => ?_⟩
      obtain ⟨q', hq', rfl⟩ := List.mem_map.mp hq
      exact hnew q' hq'
    | _ => exact ⟨trivial, hnil⟩
  env := by
    intro s s' new _ henv
    rcases henv with ⟨henv, -⟩ | ⟨hsame, -, -, rfl⟩
    · -- an arrival changes no collection, and a waiting job owes nothing yet
      obtain ⟨hsys, -⟩ := henv.retains
      refine ⟨trivial, henv.starts (fun _ => trivial) (fun _ => trivial) fun p _ hp => ?_,
        fun q hq => hq.retains (hsys ▸ .refl _)⟩
      cases p with
      | ingest proc => exact absurd rfl (hp proc)
      | _ => trivial
    · exact ⟨trivial, fun q hq => absurd hq List.not_mem_nil,
        fun q hq => hq.retains (hsame ▸ .refl _)⟩

/-! ## The cursor -/

/-- A checkpoint under another key leaves the cursor alone. -/
private theorem cursorAt_storeCursor_of_ne {job : ReconcileJobData}
    {key : ObjectId × ObjectId × String} (h : job.key ≠ key) (cursor : Option String)
    (states : List SyncState) :
    cursorAt key (job.storeCursor cursor states) = cursorAt key states := by
  -- the upsert touches rows under the job's key only, `find?` looks at those under `key`
  have hother : ∀ state : SyncState, decide (state.key = job.key) = true →
      decide (state.key = key) = false := by
    intro state hstate
    rw [of_decide_eq_true hstate]
    exact decide_eq_false h
  unfold cursorAt ReconcileJobData.storeCursor
  congr 1
  refine List.find?_eq_of_agree (p := fun state => decide (state.key = key)) ?_ fun _ hq => hq
  apply List.filter_upsert_of_not
  · exact hother
  · exact hother
  · exact decide_eq_false h

/-- A run keeps its key until it ends. -/
private theorem ReconcileRun.turn_key (job : ReconcileJobData) (vars : ReconcileVars) (page : Page)
    (rest : List NangoRecord) : (ReconcileRun.turn job vars page rest).key? = some job.key := by
  obtain ⟨vars', -, -, hcase⟩ := turn_cases job vars page rest
  rcases hcase with ⟨-, hturn⟩ | ⟨dead, record, rest', -, -, -, hturn⟩
  · rw [hturn]
    rfl
  · rw [hturn]
    rfl

/-- A call of a run under another key leaves the cursor alone, and the run its key. -/
private theorem ReconcileRun.next_of_key_ne {rt : Runtime} {nango : NangoListParams → Page}
    {run : ReconcileRun} {s : DeliveryStore} {key : ObjectId × ObjectId × String}
    (h : run.key? ≠ some key) :
    cursorAt key (run.next rt nango s).2.syncStates = cursorAt key s.syncStates ∧
      (run.next rt nango s).1.key? ≠ some key := by
  cases run with
  | load job => exact ⟨rfl, h⟩
  | fetch job vars =>
    simp only [ReconcileRun.next]
    split
    · exact ⟨rfl, Option.some_ne_none key |>.symm⟩
    · exact ⟨rfl, by rw [ReconcileRun.turn_key]; exact h⟩
  | land job vars page record rest =>
    simp only [ReconcileRun.next]
    cases landRawRecord rt (job.stamp record) job.rawContext s.rawRecords with
    | error err => exact ⟨rfl, Option.some_ne_none key |>.symm⟩
    | ok rawRecords => exact ⟨rfl, h⟩
  | enqueue job vars page record rest =>
    exact ⟨rfl, by simp only [ReconcileRun.next, ReconcileRun.turn_key]; exact h⟩
  | checkpoint job vars page =>
    -- the one write of the cursor, and it goes to the run's own key
    have hkey : job.key ≠ key := fun heq => h (congrArg some heq)
    rw [ReconcileRun.next_checkpoint_snd]
    refine ⟨cursorAt_storeCursor_of_ne hkey _ _, ?_⟩
    simp only [ReconcileRun.next]
    split
    · exact Option.some_ne_none key |>.symm
    · split
      · exact Option.some_ne_none key |>.symm
      · exact h
  | finished result => exact ⟨rfl, h⟩

/-- Sync runs never write the cursor. -/
private theorem NangoSyncRun.next_syncStates (rt : Runtime) (nango : NangoListParams → Page)
    (run : NangoSyncRun) (s : DeliveryStore) :
    (run.next rt nango s).2.syncStates = s.syncStates := by
  cases run with
  | land job vars page record rest =>
    simp only [NangoSyncRun.next]
    cases landRawRecord rt (job.stamp record) job.rawContext s.rawRecords <;> rfl
  | _ => rfl

/-- Only runs under the key move its cursor. -/
private theorem Proc.Step.cursorAt_eq {rt : Runtime} {d : Drivers} {options : AppOptions}
    {p p' : Proc} {s s' : System} {new : List Proc} {key : ObjectId × ObjectId × String}
    (h : Proc.Step rt d options p s p' s' new)
    (hp : ∀ run, p = .reconcile run → run.key? ≠ some key) :
    cursorAt key s'.syncStates = cursorAt key s.syncStates := by
  cases h with
  | @request tenantId req _ env hid =>
    -- a handler writes `connections` at most
    rcases @ApiRequest.plan_state d options env tenantId s req with heq | ⟨v, r, heq⟩
    · rw [heq]
    · rw [heq]
  | @add add adds replayed _ hok => cases add <;> rfl
  | @stamp replayed _ env => cases replayed <;> rfl
  | @nangoSync run _ nango hlive => rw [run.next_syncStates rt nango s.toDeliveryStore]
  | @reconcile run _ nango hlive =>
    exact (@ReconcileRun.next_of_key_ne rt nango run s.toDeliveryStore key (hp run rfl)).1
  | _ => rfl

section Cursor

variable {rt : Runtime} {pos : String → ℕ} {key : ObjectId × ObjectId × String}

/-- A store that has grown with its cursor where it was. -/
private theorem CursorSafe.of_follows {s s' : LogStore} (hI : CursorSafe rt pos key s)
    (h : Follows s s') (hlog : IsLog pos s'.2)
    (hcursor : cursorAt key s'.1.syncStates = cursorAt key s.1.syncStates) :
    CursorSafe rt pos key s' where
  isLog := hlog
  delivered := by
    rw [hcursor]
    exact hI.delivered.mono h

/-- The delivery store beside the log. -/
def LoggedStore.logStore (s : LoggedStore) : LogStore := (s.1.1.toDeliveryStore, s.2)

variable (rt pos key) in
/-- Runs under the key are safe. -/
def ProcSafe (s : LoggedStore) : Proc → Prop
  | .reconcile run => run.key? = some key → RunSafe rt pos key s.logStore run
  | _ => True

theorem ProcSafe.mono {s s' : LoggedStore} (hs : Follows s.logStore s'.logStore) {p : Proc}
    (h : ProcSafe rt pos key s p) : ProcSafe rt pos key s' p := by
  cases p with
  | reconcile run => exact fun hkey => (h hkey).mono hs
  | _ => trivial

/-- Every step keeps what lies before the cursor delivered. -/
theorem loggedSystem_cursorSafe (d : Drivers) (options : AppOptions) :
    (loggedSystem rt d options pos key).Invariant (fun s => CursorSafe rt pos key s.logStore)
      (ProcSafe rt pos key) where
  step := by
    intro p s p' s' new hI hp hstep
    obtain ⟨⟨sys', taken'⟩, log'⟩ := s'
    obtain ⟨⟨hstep, -⟩, hlog, hserved⟩ := hstep
    have hlog' : log' = s.2 := hlog
    subst hlog'
    simp only at hstep hserved
    -- no step removes a row or a job, so the runs at rest stay safe
    have hfollows : Follows s.logStore (sys'.toDeliveryStore, s.2) :=
      ⟨hstep.retains.delivery.grows, List.prefix_refl _⟩
    suffices h : CursorSafe rt pos key (sys'.toDeliveryStore, s.2) ∧
        ProcSafe rt pos key ((sys', taken'), s.2) p' ∧
        ∀ q ∈ new, ProcSafe rt pos key ((sys', taken'), s.2) q by
      exact ⟨h.1, h.2.1, h.2.2, fun q hq => hq.mono hfollows⟩
    have hnil : ∀ q ∈ ([] : List Proc), ProcSafe rt pos key ((sys', taken'), s.2) q :=
      fun q hq => absurd hq List.not_mem_nil
    by_cases hours : ∃ run, p = .reconcile run ∧ run.key? = some key
    · -- a run under the key: its next call is answered, or it throws
      obtain ⟨run, rfl, hkey⟩ := hours
      cases hstep with
      | reconcile nango' hlive =>
        rcases hserved.listRecords run rfl hkey with hdone | ⟨nango, hnango, hnext, hsys⟩
        · exact nomatch hdone
        · -- the call is answered from the log
          have hsafe := next_safe hnango hI (hp hkey)
          have hstore := congrArg System.toDeliveryStore hsys
          simp only at hstore
          simp only [Proc.reconcile.injEq] at hnext
          rw [hstore, hnext]
          exact ⟨hsafe.1, fun _ => hsafe.2.1, fun q hq => absurd hq List.not_mem_nil⟩
      | throw hcan => exact ⟨hI, trivial, hnil⟩
    · -- any other step lets the store grow and leaves the cursor
      have hother : ∀ run, p = .reconcile run → run.key? ≠ some key :=
        fun run hrun hkey => hours ⟨run, hrun, hkey⟩
      refine ⟨hI.of_follows hfollows hI.isLog (hstep.cursorAt_eq hother), ?_⟩
      cases hstep with
      | @reconcile run _ nango hlive =>
        have hne := (@ReconcileRun.next_of_key_ne rt nango run s.1.1.toDeliveryStore key
          (hother run rfl)).2
        exact ⟨fun hkey => absurd hkey hne, hnil⟩
      | @ingest proc proc' pipeline' new _ h =>
        refine ⟨trivial, fun q hq => ?_⟩
        obtain ⟨q', -, rfl⟩ := List.mem_map.mp hq
        trivial
      | _ => exact ⟨trivial, hnil⟩
  env := by
    intro s s' new hI henv
    rcases henv with ⟨henv, hlog⟩ | ⟨hsame, ⟨more, hmore⟩, hlog, rfl⟩
    · -- a new run is about to load its cursor: only its key counts
      obtain ⟨hsys, -⟩ := henv.retains
      have hstore : s'.logStore = s.logStore := by
        unfold LoggedStore.logStore
        rw [hsys, hlog]
      have hfollows : Follows s.logStore s'.logStore := hstore ▸ ⟨.refl _, List.prefix_refl _⟩
      refine ⟨hstore ▸ hI, henv.starts (fun job hkey => Option.some.inj hkey) (fun _ => trivial)
        fun p hp _ => ?_, fun q hq => hq.mono hfollows⟩
      cases p with
      | reconcile run => exact absurd rfl (hp run)
      | _ => trivial
    · -- the log grows behind everybody
      have hfollows : Follows s.logStore s'.logStore := by
        refine ⟨?_, ?_⟩
        · show s.1.1.toDeliveryStore.Grows s'.1.1.toDeliveryStore
          rw [hsame]
          exact .refl _
        · show s.2 <+: s'.2
          rw [hmore]
          exact List.prefix_append _ _
      refine ⟨hI.of_follows hfollows hlog ?_, fun q hq => absurd hq List.not_mem_nil,
        fun q hq => hq.mono hfollows⟩
      show cursorAt key s'.1.1.syncStates = cursorAt key s.1.1.syncStates
      rw [hsame]

end Cursor

/-! ## The guarantee -/

/-- What has become of an ingest job. -/
inductive Fate (rt : Runtime) (procs : List Proc) (s : SystemStore) (data : IngestJobData) :
    Prop where
  /-- no worker has taken it up -/
  | queued (h : data ∉ s.2)
  | inProgress {proc : JobProc} (hproc : .ingest proc ∈ procs) (h : proc.WorksOn data)
  | represented (h : data.Represented rt s.1.spine)
  | deadLettered (h : DeadLettered ⟨data, ingestAttempts⟩ s.1.deadLetters)
  /-- the backoff strategy has answered `-1` while attempts were left -/
  | givenUp {made : Nat} {err : JsVal}
      (h : .ingest (.givenUp ⟨data, ingestAttempts⟩ made err) ∈ procs)

/-- What the process in charge of a job has made of it. -/
private theorem JobProc.InCharge.fate {rt : Runtime} {procs : List Proc} {s : SystemStore}
    {data : IngestJobData} {proc : JobProc} (h : proc.InCharge ⟨data, ingestAttempts⟩)
    (hproc : .ingest proc ∈ procs) (hrecovered : proc.Recovered rt s.1.spine)
    (haccounted : Accounted rt s.1.toPipeline proc) : Fate rt procs s data := by
  -- the three ends a job can come to; before them the process still works on it
  cases proc with
  | completed job res =>
    cases h
    exact .represented hrecovered
  | handled job made err =>
    obtain ⟨rfl, hgone⟩ := h
    exact .deadLettered (haccounted hgone)
  | givenUp job made err =>
    cases h
    exact .givenUp hproc
  | _ => exact .inProgress hproc h

/-- **The delivery guarantee.** From a state at rest whose events have their own keys and in
    which everything before the stored cursor has been delivered, whatever arrives and
    however the steps of the system interleave and throw, as long as no `DeadLetter.create`
    does: every ingest job is on the queue, in progress, represented in the spine,
    dead-lettered, or given up by the backoff strategy; and every live record of the log before
    the stored cursor is landed and has such a job. -/
theorem delivery_guarantee {rt : Runtime} (hsha : Function.Injective rt.sha256Hex) (d : Drivers)
    (options : AppOptions) (pos : String → ℕ) (key : ObjectId × ObjectId × String) (s₀ s : System)
    (log₀ log : List NangoRecord) (procs : List Proc) (taken : List IngestJobData)
    (hown : OwnKeys rt s₀.spine) (hlog : IsLog pos log₀)
    (hstart : DeliveredTo rt key (s₀.toDeliveryStore, log₀)
      (posOf pos (cursorAt key s₀.syncStates)))
    (h : (loggedSystem rt d options pos key).Reaches ([], ((s₀, []), log₀))
      (procs, ((s, taken), log))) :
    (∀ data ∈ s.ingestJobs, Fate rt procs (s, taken) data) ∧
      ∀ c, cursorAt key s.syncStates = some c →
        ∀ (i : ℕ) (record : NangoRecord), log[i]? = some record → i < pos c →
          record.deleted = false → Delivered rt key s.toDeliveryStore record ∧
            ∃ data ∈ s.ingestJobs, data.tenantId = key.1 ∧ data.connectionId = some key.2.1 ∧
              data.record = some (record.stamped (.str key.2.2)) ∧
              Fate rt procs (s, taken) data := by
  have hnone : ∀ {Q : Proc → Prop}, ∀ p ∈ ([] : List Proc), Q p :=
    fun p hp => absurd hp List.not_mem_nil
  have hrecovered := ((shiplogSystem_recovered hsha d options).reaches (loggedSystem_reaches h)
    hown hnone).2
  have haccounted := ((loggedSystem_accounted rt d options pos key).reaches h trivial hnone).2
  have hsafe := ((loggedSystem_cursorSafe d options).reaches h ⟨hlog, hstart⟩ hnone).1
  have hfate : ∀ data ∈ s.ingestJobs, Fate rt procs (s, taken) data := by
    intro data _
    -- a job no worker has seen is on the queue still
    by_cases htaken : data ∈ taken
    · obtain ⟨p, hp, proc, rfl, hproc⟩ := loggedSystem_covered h data htaken
      exact hproc.fate hp (hrecovered _ hp) (haccounted _ hp)
    · exact .queued htaken
  refine ⟨hfate, fun c hc i record hi hlt hlive => ?_⟩
  -- the cursor stands at `c`, so all live records before it have been delivered
  have hdelivered := hsafe.delivered
  rw [show cursorAt key (LoggedStore.logStore ((s, taken), log)).1.syncStates = some c from hc]
    at hdelivered
  have hrecord := hdelivered.2 i record hi hlt hlive
  obtain ⟨data, hdata, ht, hconn, hrec⟩ := hrecord.enqueued
  exact ⟨hrecord, data, hdata, ht, hconn, hrec, hfate data hdata⟩

/-! ## A log of one page -/

/-- A reconcile run goes on, answered with all that is left of the log. -/
def reconcileNext (rt : Runtime) (pos : String → ℕ) (p : Proc) (s : LoggedStore) :
    Proc × LoggedStore :=
  match p with
  | .reconcile run =>
    let next := run.next rt (wholeLog pos s.2) s.1.1.toDeliveryStore
    (.reconcile next.1, (({ s.1.1 with toDeliveryStore := next.2 }, s.1.2), s.2))
  | p => (p, s)

/-- Whether a process is a reconcile run that has not ended. -/
def isReconciling : Proc → Bool
  | .reconcile run => !run.isFinished
  | _ => false

private theorem reconcileNext_step {rt : Runtime} {d : Drivers} {options : AppOptions}
    {pos : String → ℕ} {key : ObjectId × ObjectId × String} {p : Proc} {s : LoggedStore}
    (h : isReconciling p = true) :
    (loggedSystem rt d options pos key).step p s (reconcileNext rt pos p s).1
      (reconcileNext rt pos p s).2 [] := by
  cases p with
  | reconcile run =>
    refine ⟨⟨.reconcile (wholeLog pos s.2) (Bool.not_eq_true' _ ▸ h), rfl⟩, rfl, ⟨nofun, ?_⟩⟩
    intro run' hrun _
    cases hrun
    exact Or.inr ⟨_, answers_wholeLog pos s.2, rfl, rfl⟩
  | _ => exact nomatch h

/-- A reconcile job on its queue. -/
def reconcileQueued : LoggedStore :=
  (({ emptySystem with reconcileJobs := [issueReconcile] }, []), [cursorRecord])

/-- Its run over a log of one record, to the end. -/
def reconcileDone : List Proc × LoggedStore :=
  Pool.runSchedule (fun p _ => isReconciling p) (reconcileNext plainRuntime onePos) [0, 0, 0, 0, 0]
    ([.reconcile (.load issueReconcile)], reconcileQueued)

theorem delivery_guarantee_onePage :
    ∃ data ∈ reconcileDone.2.1.1.ingestJobs, data.tenantId = tenantA ∧
      data.connectionId = some tenantB ∧
      data.record = some (cursorRecord.stamped (.str "GithubIssue")) ∧
      Fate plainRuntime reconcileDone.1 reconcileDone.2.1 data := by
  have hlog : IsLog onePos [cursorRecord] := by
    intro i record hi
    cases i with
    | zero =>
      cases hi
      exact ⟨"c1", rfl, by decide⟩
    | succ i => exact nomatch hi
  have hempty : DeliveredTo plainRuntime issueReconcile.key reconcileQueued.logStore 0 :=
    ⟨Nat.zero_le _, fun i record _ hlt => absurd hlt (Nat.not_lt_zero i)⟩
  have henv : (loggedSystem plainRuntime plainDrivers ⟨true, true, true⟩ onePos
      issueReconcile.key).Step ([], reconcileQueued)
      ([.reconcile (.load issueReconcile)], reconcileQueued) :=
    .environment (Or.inl ⟨.reconcile List.mem_cons_self, rfl⟩)
  have hcursor : cursorAt issueReconcile.key reconcileDone.2.1.1.syncStates = some "c1" := by
    decide +kernel
  have hsame : reconcileDone.2.2 = [cursorRecord] := rfl
  have hguarantee := @delivery_guarantee plainRuntime (fun _ _ h => h) plainDrivers
    ⟨true, true, true⟩ onePos issueReconcile.key reconcileQueued.1.1 reconcileDone.2.1.1
    [cursorRecord] reconcileDone.2.2 reconcileDone.1 reconcileDone.2.1.2
    (fun row hrow => absurd hrow List.not_mem_nil) hlog hempty
    (.head henv (Pool.reaches_runSchedule (fun p s h => reconcileNext_step h) _ _))
  exact (hguarantee.2 "c1" hcursor 0 cursorRecord (by rw [hsame]; rfl) (by decide)
    (by decide)).2

end Shiplog
