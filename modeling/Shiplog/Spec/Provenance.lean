import Shiplog.Native.Workers
import Shiplog.Spec.DeliveryCorrect
import Shiplog.Spec.Noninterference
import Shiplog.Spec.PipelineCorrect

/-!
# Tenant provenance

Connection ids and tenant ids travel in pairs: through job data, the raw layer, the sync
cursor, dead letters and replays. `PairsIn Q` says that every pair in a state passes `Q`; no
step makes up a pair, it copies one from a connection or from where `PairsIn` has it. With
`Q` the ownership in `connections`, which is never taken back, this is an invariant of the
whole system.

## Key results

- `ReconcileRun.next_wrote`, `NangoSyncRun.next_wrote`, `JobProc.Step.wrote`: what one step of
  a worker writes is under the pair of its job
- `ApiRequest.plan_owned`, `webhookNango_owned`, `sweepAdds_owned`: the jobs of a handler or
  tick carry owned pairs
- `shiplogSystem_invariant`: every step of the system keeps the provenance
- `tenant_provenance`: in every reachable state each job and document that carries a
  connection id has the tenant of that connection
-/

namespace Shiplog

/-- A connection belongs to a tenant. -/
def Owner (connections : List Connection) (connectionId tenantId : ObjectId) : Prop :=
  ∃ connection ∈ connections, connection.id = connectionId ∧ connection.tenantId = tenantId

/-! ## Delivery runs -/

/-- What a delivery step adds to the store is under one connection and tenant, and no job is
    taken back. -/
structure DeliveryStore.Wrote (connectionId tenantId : ObjectId) (s s' : DeliveryStore) :
    Prop where
  jobs : ∀ job ∈ s.ingestJobs, job ∈ s'.ingestJobs
  rawRecords : ∀ row ∈ s'.rawRecords, row ∈ s.rawRecords ∨
    row.tenantId = tenantId ∧ row.connectionId = some connectionId
  syncStates : ∀ state ∈ s'.syncStates,
    (∃ state₀ ∈ s.syncStates, state.tenantId = state₀.tenantId ∧
      state.connectionId = state₀.connectionId) ∨
    state.tenantId = tenantId ∧ state.connectionId = connectionId
  ingestJobs : ∀ job ∈ s'.ingestJobs, job ∈ s.ingestJobs ∨
    job.tenantId = tenantId ∧ job.connectionId = some connectionId

section Delivery

variable {c t : ObjectId} {rt : Runtime}

theorem DeliveryStore.Wrote.refl (s : DeliveryStore) : s.Wrote c t s where
  jobs := fun _ h => h
  rawRecords := fun _ h => Or.inl h
  syncStates := fun state h => Or.inl ⟨state, h, rfl, rfl⟩
  ingestJobs := fun _ h => Or.inl h

private theorem DeliveryStore.wrote_row {s : DeliveryStore} {row : RawRecord}
    (ht : row.tenantId = t) (hc : row.connectionId = some c) :
    s.Wrote c t { s with rawRecords := s.rawRecords.put RawRecord.key row } where
  jobs := fun _ h => h
  rawRecords := by
    intro r hr
    rcases List.mem_put RawRecord.key hr with h | rfl
    · exact Or.inl h
    · exact Or.inr ⟨ht, hc⟩
  syncStates := fun state h => Or.inl ⟨state, h, rfl, rfl⟩
  ingestJobs := fun _ h => Or.inl h

private theorem DeliveryStore.wrote_job {s : DeliveryStore} {job : IngestJobData}
    (ht : job.tenantId = t) (hc : job.connectionId = some c) :
    s.Wrote c t { s with ingestJobs := s.ingestJobs ++ [job] } where
  jobs := fun _ h => List.mem_append_left _ h
  rawRecords := fun _ h => Or.inl h
  syncStates := fun state h => Or.inl ⟨state, h, rfl, rfl⟩
  ingestJobs := List.forall_mem_concat (fun _ h => Or.inl h) (Or.inr ⟨ht, hc⟩)

/-- A checkpoint writes under the key of its job. -/
private theorem DeliveryStore.wrote_cursor {s : DeliveryStore} (job : ReconcileJobData)
    (cursor : Option String) :
    s.Wrote job.connectionId job.tenantId
      { s with syncStates := job.storeCursor cursor s.syncStates } where
  jobs := fun _ h => h
  rawRecords := fun _ h => Or.inl h
  syncStates := by
    intro state hstate
    unfold ReconcileJobData.storeCursor at hstate
    -- an old row, a changed one under its old key, or the inserted one
    rcases List.mem_upsert hstate with h | ⟨state₀, h, -, rfl⟩ | rfl
    · exact Or.inl ⟨state, h, rfl, rfl⟩
    · exact Or.inl ⟨state₀, h, rfl, rfl⟩
    · exact Or.inr ⟨rfl, rfl⟩
  ingestJobs := fun _ h => Or.inl h

/-- Landing a record writes under the pair of its context. -/
private theorem landRawRecord_wrote {s : DeliveryStore} {record : NangoRecord}
    {ctx : LandRawContext} {rawRecords : List RawRecord} (ht : ctx.tenantId = t)
    (hc : ctx.connectionId = some c)
    (h : landRawRecord rt record ctx s.rawRecords = .ok rawRecords) :
    s.Wrote c t { s with rawRecords } := by
  obtain ⟨row, hrow, rfl⟩ := landRawRecord_ok h
  obtain ⟨hrt, hrc, -⟩ := rawRow_ok hrow
  exact DeliveryStore.wrote_row (hrt.trans ht) (hrc.trans hc)

/-- The connection and tenant a reconcile run works for. -/
def ReconcileRun.pair? : ReconcileRun → Option (ObjectId × ObjectId)
  | .load job | .fetch job _ | .land job _ _ _ _ | .enqueue job _ _ _ _ | .checkpoint job _ _ =>
    some (job.connectionId, job.tenantId)
  | .finished _ => none

/-- The connection and tenant a sync run works for. -/
def NangoSyncRun.pair? : NangoSyncRun → Option (ObjectId × ObjectId)
  | .fetch job _ | .land job _ _ _ _ | .enqueue job _ _ _ _ =>
    some (job.connectionId, job.tenantId)
  | .finished _ => none

/-- A run that has not ended works for a connection and tenant. -/
private theorem ReconcileRun.exists_pair {run : ReconcileRun} (h : run.isFinished = false) :
    ∃ c t, run.pair? = some (c, t) := by
  cases run with
  | finished result => exact nomatch h
  | _ => exact ⟨_, _, rfl⟩

private theorem NangoSyncRun.exists_pair {run : NangoSyncRun} (h : run.isFinished = false) :
    ∃ c t, run.pair? = some (c, t) := by
  cases run with
  | finished result => exact nomatch h
  | _ => exact ⟨_, _, rfl⟩

private theorem ReconcileRun.turn_pair (job : ReconcileJobData) (vars : ReconcileVars) (page : Page)
    (rest : List NangoRecord) :
    (ReconcileRun.turn job vars page rest).pair? = some (job.connectionId, job.tenantId) := by
  obtain ⟨vars', -, -, hcase⟩ := turn_cases job vars page rest
  rcases hcase with ⟨-, hturn⟩ | ⟨dead, record, rest', -, -, -, hturn⟩
  · rw [hturn]
    rfl
  · rw [hturn]
    rfl

private theorem NangoSyncRun.turn_pair (job : NangoSyncJobData) (vars : NangoSyncVars) (page : Page)
    (rest : List NangoRecord) :
    (NangoSyncRun.turn job vars page rest).pair? = some (job.connectionId, job.tenantId) ∨
      (NangoSyncRun.turn job vars page rest).pair? = none := by
  induction rest generalizing vars with
  | nil =>
    simp only [NangoSyncRun.turn]
    split
    · exact Or.inr rfl
    · split
      · exact Or.inr rfl
      · exact Or.inl rfl
  | cons record rest ih =>
    simp only [NangoSyncRun.turn]
    split
    · exact ih _
    · exact Or.inl rfl

/-- One call of a reconcile run writes under its pair, and the run keeps it. -/
theorem ReconcileRun.next_wrote {run : ReconcileRun} {s : DeliveryStore}
    (nango : NangoListParams → Page) (h : run.pair? = some (c, t)) :
    s.Wrote c t (run.next rt nango s).2 ∧
      ((run.next rt nango s).1.pair? = some (c, t) ∨ (run.next rt nango s).1.pair? = none) := by
  cases run with
  | load job => exact ⟨.refl s, Or.inl h⟩
  | fetch job vars =>
    simp only [ReconcileRun.next]
    split
    · exact ⟨.refl s, Or.inr rfl⟩
    · exact ⟨.refl s, Or.inl ((ReconcileRun.turn_pair job vars _ _).trans h)⟩
  -- the raw record lands under the ids of the job
  | land job vars page record rest =>
    have hpair : (job.connectionId, job.tenantId) = (c, t) := Option.some.inj h
    cases hpair
    simp only [ReconcileRun.next]
    cases hland : landRawRecord rt (job.stamp record) job.rawContext s.rawRecords with
    | error err => exact ⟨.refl s, Or.inr rfl⟩
    | ok rawRecords => exact ⟨landRawRecord_wrote rfl rfl hland, Or.inl rfl⟩
  -- the ingest job is made of the ids of the run's own job
  | enqueue job vars page record rest =>
    have hpair : (job.connectionId, job.tenantId) = (c, t) := Option.some.inj h
    cases hpair
    exact ⟨DeliveryStore.wrote_job rfl rfl, Or.inl (ReconcileRun.turn_pair job _ page rest)⟩
  | checkpoint job vars page =>
    have hpair : (job.connectionId, job.tenantId) = (c, t) := Option.some.inj h
    cases hpair
    have hwrote := @DeliveryStore.wrote_cursor s job (ReconcileRun.checkpointCursor vars page)
    simp only [ReconcileRun.next]
    -- stored first, then the run ends or goes on to the next page
    cases page.nextCursor with
    | none => exact ⟨hwrote, Or.inr rfl⟩
    | some token =>
      simp only
      split
      · exact ⟨hwrote, Or.inr rfl⟩
      · exact ⟨hwrote, Or.inl rfl⟩
  | finished result => cases h

/-- One call of a sync run writes under its pair, and the run keeps it. -/
theorem NangoSyncRun.next_wrote {run : NangoSyncRun} {s : DeliveryStore}
    (nango : NangoListParams → Page) (h : run.pair? = some (c, t)) :
    s.Wrote c t (run.next rt nango s).2 ∧
      ((run.next rt nango s).1.pair? = some (c, t) ∨ (run.next rt nango s).1.pair? = none) := by
  cases run with
  | fetch job vars =>
    have hpair : (job.connectionId, job.tenantId) = (c, t) := Option.some.inj h
    cases hpair
    exact ⟨.refl s, NangoSyncRun.turn_pair job vars _ _⟩
  | land job vars page record rest =>
    have hpair : (job.connectionId, job.tenantId) = (c, t) := Option.some.inj h
    cases hpair
    simp only [NangoSyncRun.next]
    cases hland : landRawRecord rt (job.stamp record) job.rawContext s.rawRecords with
    | error err => exact ⟨.refl s, Or.inr rfl⟩
    | ok rawRecords => exact ⟨landRawRecord_wrote rfl rfl hland, Or.inl rfl⟩
  | enqueue job vars page record rest =>
    have hpair : (job.connectionId, job.tenantId) = (c, t) := Option.some.inj h
    cases hpair
    exact ⟨DeliveryStore.wrote_job rfl rfl, NangoSyncRun.turn_pair job _ page rest⟩
  | finished result => exact nomatch h

end Delivery

/-! ## Ingest jobs -/

/-- A run is one of an `ingestEvent` call for a tenant. -/
def IngestRun.IsFor (rt : Runtime) (t : ObjectId) (run : IngestRun) : Prop :=
  ∃ args : IngestArgs, args.tenantId = some t ∧ run.Follows rt args

/-- A process works on a job, and its `ingestEvent` call is for the job's tenant. -/
def JobProc.Serves (rt : Runtime) (job : Job) : JobProc → Prop
  | .ingesting job' _ run => job' = job ∧ run.IsFor rt job.data.tenantId
  | p => p.job = job

/-- What a step of an ingest job adds is its tenant's rows, its dead letter and its dlq
    job. -/
structure Pipeline.Wrote (data : IngestJobData) (s s' : Pipeline) : Prop where
  spine : ∀ row ∈ s'.spine, row ∈ s.spine ∨ row.tenantId = data.tenantId
  deadLetters : ∀ doc ∈ s'.deadLetters, doc ∈ s.deadLetters ∨
    doc.tenantId = data.tenantId ∧ doc.connectionId = data.connectionId ∧
      doc.payload = data.stored
  dlq : ∀ job ∈ s'.dlq, job ∈ s.dlq ∨ job.2 = data

theorem Pipeline.Wrote.refl (data : IngestJobData) (s : Pipeline) : s.Wrote data s where
  spine := fun _ h => Or.inl h
  deadLetters := fun _ h => Or.inl h
  dlq := fun _ h => Or.inl h

/-- A step of a call inserts a row of its tenant, if any. -/
private theorem IngestRun.Step.isFor {rt : Runtime} {t : ObjectId} {run run' : IngestRun}
    {spine spine' : Spine} (h : IngestRun.Step rt run spine run' spine') (hf : run.IsFor rt t) :
    run'.IsFor rt t ∧ ∀ row ∈ spine', row ∈ spine ∨ row.tenantId = t := by
  obtain ⟨args, hargs, hfollows⟩ := hf
  refine ⟨⟨args, hargs, (h.follows hfollows).1⟩, ?_⟩
  rcases h.cases.2 with ⟨rfl, -⟩ | ⟨c, status, rfl, -, -, rfl⟩
  · exact fun _ hrow => Or.inl hrow
  · -- the row is the one of the call the arguments set up
    obtain ⟨tid, ev, htid, -, rfl⟩ := IngestCall.prepare_ok hfollows
    rw [hargs] at htid
    cases htid
    exact List.forall_mem_concat (fun _ hrow => Or.inl hrow) (Or.inr rfl)

namespace JobProc

section Serves

variable (rt : Runtime) (m : Moment) (job : Job) (attemptsMade : Nat)

private theorem throwing_serves (err : JsVal) :
    Serves rt job (throwing rt m job attemptsMade err).1 ∧
      ∀ q ∈ (throwing rt m job attemptsMade err).2, Serves rt job q :=
  throwing_all (fun _ => rfl) (fun _ _ => rfl) (fun _ _ => rfl) err

private theorem enterIngest_serves (failMode : JsVal) :
    Serves rt job (enterIngest rt m job attemptsMade failMode).1 ∧
      ∀ q ∈ (enterIngest rt m job attemptsMade failMode).2, Serves rt job q :=
  enterIngest_all (fun _ => rfl) (fun _ _ => rfl) (fun _ _ => rfl)
    (fun input _ => ⟨rfl, ⟨input, some job.data.tenantId⟩, rfl, rfl⟩) failMode

private theorem afterIngest_serves {run : IngestRun} (h : run.IsFor rt job.data.tenantId) :
    Serves rt job (afterIngest rt m job attemptsMade run).1 ∧
      ∀ q ∈ (afterIngest rt m job attemptsMade run).2, Serves rt job q :=
  afterIngest_all (fun _ => rfl) (fun _ _ => rfl) (fun _ _ => rfl) ⟨rfl, h⟩ (fun _ _ => rfl)

end Serves

/-- **One step of an ingest job** writes for its tenant, and serves it on. -/
theorem Step.wrote {rt : Runtime} {job : Job} {createThrows : Prop} {p p' : JobProc}
    {s s' : Pipeline} {new : List JobProc} (h : Step rt createThrows p s p' s' new)
    (hp : p.Serves rt job) :
    s.Wrote job.data s' ∧ p'.Serves rt job ∧ ∀ q ∈ new, q.Serves rt job := by
  have hnil : ∀ q ∈ ([] : List JobProc), q.Serves rt job :=
    fun q hq => absurd hq List.not_mem_nil
  cases h with
  -- before `ingestEvent` begins nothing is written
  | @start job' made _ failMode m h =>
    have hjob : job' = job := hp
    subst hjob
    exact ⟨.refl _ s, enterIngest_serves rt m job' made failMode⟩
  | startDemo failMode h => exact ⟨.refl _ s, hp, hnil⟩
  | @demoRecovered job' made _ failMode id m h =>
    have hjob : job' = job := hp
    subst hjob
    exact ⟨.refl _ s, enterIngest_serves rt m job' made failMode⟩
  | @demoOutage job' made _ failMode id m h =>
    have hjob : job' = job := hp
    subst hjob
    exact ⟨.refl _ s, throwing_serves rt m job' made _⟩
  | @demoThrow job' made _ failMode id m err =>
    have hjob : job' = job := hp
    subst hjob
    exact ⟨.refl _ s, throwing_serves rt m job' made err⟩
  -- the only step that writes to the spine
  | @ingest job' made _ run run' spine' m h =>
    obtain ⟨hjob, hrun⟩ := hp
    subst hjob
    obtain ⟨hfor, hrows⟩ := h.isFor hrun
    exact ⟨⟨hrows, fun _ h => Or.inl h, fun _ h => Or.inl h⟩,
      afterIngest_serves rt m job' made hfor⟩
  | log h => exact ⟨.refl _ s, hp, hnil⟩
  -- the dead letter copies the tenant, the connection and the payload of the job
  | @create job' made _ err doc id now h hdoc =>
    have hjob : job' = job := hp
    subst hjob
    have hdoc' : doc.stored.tenantId = job'.data.tenantId ∧
        doc.stored.connectionId = job'.data.connectionId ∧
        doc.stored.payload = job'.data.stored := by
      rw [hdoc]
      exact ⟨rfl, rfl, rfl⟩
    exact ⟨⟨fun _ h => Or.inl h, List.forall_mem_concat (fun _ h => Or.inl h) (Or.inr hdoc'),
      fun _ h => Or.inl h⟩, rfl, hnil⟩
  | createThrow hc h => exact ⟨.refl _ s, hp, hnil⟩
  | @park job' made _ err doc =>
    have hjob : job' = job := hp
    subst hjob
    exact ⟨⟨fun _ h => Or.inl h, fun _ h => Or.inl h,
      List.forall_mem_concat (fun _ h => Or.inl h) (Or.inr rfl)⟩, rfl, hnil⟩
  | parkThrow => exact ⟨.refl _ s, hp, hnil⟩

end JobProc

/-! ## Pairs of a state -/

/-- Every pair of a connection and a tenant in a state passes `Q`. -/
structure PairsIn (Q : ObjectId → ObjectId → Prop) (s : System) : Prop where
  nangoSyncJobs : ∀ job ∈ s.nangoSyncJobs, Q job.connectionId job.tenantId
  reconcileJobs : ∀ job ∈ s.reconcileJobs, Q job.connectionId job.tenantId
  ingestJobs : ∀ job ∈ s.ingestJobs, ∀ c, job.connectionId = some c → Q c job.tenantId
  rawRecords : ∀ row ∈ s.rawRecords, ∀ c, row.connectionId = some c → Q c row.tenantId
  syncStates : ∀ state ∈ s.syncStates, Q state.connectionId state.tenantId
  deadLetters : ∀ doc ∈ s.deadLetters, ∀ c, doc.connectionId = some c → Q c doc.tenantId
  payloads : ∀ doc ∈ s.deadLetters, ∀ c, doc.payload.connectionId = some c →
    Q c doc.payload.tenantId
  dlq : ∀ job ∈ s.dlq, ∀ c, job.2.connectionId = some c → Q c job.2.tenantId

/-- The pair of a job about to be added passes `Q`. -/
def QueueAdd.PairIn (Q : ObjectId → ObjectId → Prop) : QueueAdd → Prop
  | .ingest data => ∀ c, data.connectionId = some c → Q c data.tenantId
  | .nangoSync data => Q data.connectionId data.tenantId
  | .reconcile data _ => Q data.connectionId data.tenantId

section Pairs

variable {Q Q' : ObjectId → ObjectId → Prop} {s : System}

theorem QueueAdd.PairIn.mono (hQ : ∀ c t, Q c t → Q' c t) {add : QueueAdd} (h : add.PairIn Q) :
    add.PairIn Q' := by
  cases add with
  | ingest data => exact fun c hc => hQ _ _ (h c hc)
  | nangoSync data => exact hQ _ _ h
  | reconcile data jobId => exact hQ _ _ h

theorem PairsIn.mono (hQ : ∀ c t, Q c t → Q' c t) (h : PairsIn Q s) : PairsIn Q' s where
  nangoSyncJobs := fun job hjob => hQ _ _ (h.nangoSyncJobs job hjob)
  reconcileJobs := fun job hjob => hQ _ _ (h.reconcileJobs job hjob)
  ingestJobs := fun job hjob c hc => hQ _ _ (h.ingestJobs job hjob c hc)
  rawRecords := fun row hrow c hc => hQ _ _ (h.rawRecords row hrow c hc)
  syncStates := fun state hstate => hQ _ _ (h.syncStates state hstate)
  deadLetters := fun doc hdoc c hc => hQ _ _ (h.deadLetters doc hdoc c hc)
  payloads := fun doc hdoc c hc => hQ _ _ (h.payloads doc hdoc c hc)
  dlq := fun job hjob c hc => hQ _ _ (h.dlq job hjob c hc)

/-- A job is added. -/
theorem PairsIn.add (h : PairsIn Q s) {add : QueueAdd} (hadd : add.PairIn Q) :
    PairsIn Q (s.add add) := by
  cases add with
  | ingest data => exact { h with ingestJobs := List.forall_mem_concat h.ingestJobs hadd }
  | nangoSync data => exact { h with nangoSyncJobs := List.forall_mem_concat h.nangoSyncJobs hadd }
  | reconcile data jobId =>
    exact { h with reconcileJobs := List.forall_mem_concat h.reconcileJobs hadd }

/-- A delivery run writes under an owned pair. -/
theorem PairsIn.deliver (h : PairsIn Q s) {c t : ObjectId} (hQ : Q c t) {store' : DeliveryStore}
    (hw : s.toDeliveryStore.Wrote c t store') : PairsIn Q { s with toDeliveryStore := store' } := by
  refine { h with
    rawRecords := fun row hrow => ?_
    syncStates := fun state hstate => ?_
    ingestJobs := fun job hjob => ?_ }
  · rcases hw.ingestJobs job hjob with hjob | ⟨ht, hc⟩
    · exact h.ingestJobs job hjob
    · intro c' hc'
      rw [hc] at hc'
      cases hc'
      rw [ht]
      exact hQ
  · rcases hw.rawRecords row hrow with hrow | ⟨ht, hc⟩
    · exact h.rawRecords row hrow
    · intro c' hc'
      rw [hc] at hc'
      cases hc'
      rw [ht]
      exact hQ
  · rcases hw.syncStates state hstate with ⟨state₀, hstate₀, ht, hc⟩ | ⟨ht, hc⟩
    · rw [ht, hc]
      exact h.syncStates state₀ hstate₀
    · rw [ht, hc]
      exact hQ

/-- An ingest job with an owned pair writes for its tenant. -/
theorem PairsIn.ingest (h : PairsIn Q s) {data : IngestJobData}
    (hQ : ∀ c, data.connectionId = some c → Q c data.tenantId) {pipeline' : Pipeline}
    (hw : s.toPipeline.Wrote data pipeline') : PairsIn Q { s with toPipeline := pipeline' } := by
  refine { h with
    deadLetters := fun doc hdoc => ?_
    payloads := fun doc hdoc => ?_
    dlq := fun job hjob => ?_ }
  · rcases hw.deadLetters doc hdoc with hdoc | ⟨ht, hc, -⟩
    · exact h.deadLetters doc hdoc
    · rw [ht, hc]
      exact hQ
  · rcases hw.deadLetters doc hdoc with hdoc | ⟨-, -, hpayload⟩
    · exact h.payloads doc hdoc
    · rw [hpayload]
      exact hQ
  · cases hw.dlq job hjob with
    | inl hjob => exact h.dlq job hjob
    | inr hdata =>
      rw [hdata]
      exact hQ

/-- A dead letter is stamped. -/
theorem PairsIn.stamp (h : PairsIn Q s) (env : RequestEnv)
    (replayed : Option (ObjectId × ObjectId)) : PairsIn Q (stampPlan env replayed s) := by
  cases replayed with
  | none => exact h
  | some item =>
    obtain ⟨id, t⟩ := item
    refine { h with deadLetters := fun doc hdoc => ?_, payloads := fun doc hdoc => ?_ }
    · rcases List.mem_updateOne hdoc with hdoc | ⟨doc₀, hdoc₀, -, rfl⟩
      · exact h.deadLetters doc hdoc
      · exact h.deadLetters doc₀ hdoc₀
    · rcases List.mem_updateOne hdoc with hdoc | ⟨doc₀, hdoc₀, -, rfl⟩
      · exact h.payloads doc hdoc
      · exact h.payloads doc₀ hdoc₀

end Pairs

/-! ## Handlers -/

section Handlers

variable {d : Drivers} {options : AppOptions} {env : RequestEnv} {t : ObjectId} {s : System}

/-- The jobs of a sweep tick carry owned pairs. -/
theorem sweepAdds_owned (connections : List Connection) :
    ∀ add ∈ sweepAdds connections, add.PairIn (Owner connections) := by
  intro add hadd
  obtain ⟨connection, hmem, model, rfl⟩ := sweepAdds_adds hadd
  exact ⟨connection, hmem, rfl, rfl⟩

/-- The job of a webhook carries an owned pair, whoever sent it. -/
theorem webhookNango_owned (rt : Runtime) (payload : JsVal) :
    ∀ add ∈ (webhookNango rt d options payload s).adds, add.PairIn (Owner s.connections) := by
  intro add hadd
  obtain ⟨connection, hmem, data, rfl, hid, ht⟩ := webhookNango_adds hadd
  exact ⟨connection, hmem, hid.symm, ht.symm⟩

/-- **The jobs of a handler carry owned pairs.** -/
theorem ApiRequest.plan_owned (hs : PairsIn (Owner s.connections) s) (req : ApiRequest) :
    ∀ add ∈ (req.plan d options env t s).1.adds, add.PairIn (Owner s.connections) := by
  intro add hadd
  cases (req.plan_madeFor d options env).adds add hadd with
  | @replay item hitem ht =>
    -- the pair is the payload's, whatever the document says
    exact hs.payloads item hitem
  | @reconcile connection hmem ht model => exact ⟨connection, hmem, rfl, rfl⟩
  | @backfill raw id hraw hid ht =>
    -- the id of the request is the row's, whose pair is an owned one
    intro c hc
    have howner := hs.rawRecords raw hraw id hid
    rw [ht] at howner
    cases hc
    exact howner

/-- A registration keeps every owner, and a fresh id keeps the ids apart. -/
private theorem upsertConnection_owner (v : JsVal) (r : Registration)
    (connections : List Connection) :
    (∀ c u, Owner connections c u → Owner (upsertConnection d env t v r connections).2 c u) ∧
      (env.newId ∉ connections.map Connection.id → (connections.map Connection.id).Nodup →
        ((upsertConnection d env t v r connections).2.map Connection.id).Nodup) := by
  constructor
  · intro c u ⟨connection, hmem, hid, htenant⟩
    -- a registration changes neither the id nor the tenant
    rcases @List.mem_upsert_of_mem _ (d.isRegistration t v) r.set (r.inserted env t) connection
      connections hmem with h | ⟨-, h⟩
    · exact ⟨connection, h, hid, htenant⟩
    · exact ⟨r.set connection, h, hid, htenant⟩
  · intro hfresh hnodup
    unfold upsertConnection
    simp only
    rcases @List.map_upsert _ _ (d.isRegistration t v) r.set (r.inserted env t) Connection.id
      (fun _ => rfl) connections with h | h
    · rw [h]
      exact hnodup
    · rw [h, List.nodup_append]
      refine ⟨hnodup, List.nodup_singleton _, fun id hid id' hid' heq => ?_⟩
      rw [heq, List.mem_singleton.mp hid'] at hid
      exact hfresh hid

/-- What a handler changes on the way: `connections` at most. -/
theorem ApiRequest.plan_state (req : ApiRequest) :
    (req.plan d options env t s).2 = s ∨ ∃ v r, (req.plan d options env t s).2 =
      { s with connections := (upsertConnection d env t v r s.connections).2 } := by
  cases req with
  | postConnections body =>
    simp only [ApiRequest.plan, Shiplog.postConnections]
    split
    · exact Or.inl rfl
    · split
      · exact Or.inl rfl
      · split
        · exact Or.inl rfl
        · exact Or.inr ⟨_, _, rfl⟩
  | _ => exact Or.inl rfl

end Handlers

/-! ## The system -/

/-- The provenance of everything in the system: connection ids are unique, every pair is an
    owner's, and the events come from the ingest jobs taken up. -/
structure Provenance (s : SystemStore) : Prop where
  ids : (s.1.connections.map Connection.id).Nodup
  pairs : PairsIn (Owner s.1.connections) s.1
  taken : ∀ job ∈ s.2, job ∈ s.1.ingestJobs
  spine : ∀ row ∈ s.1.spine, ∃ job ∈ s.2, job.tenantId = row.tenantId

/-- What holds of a process between two of its steps. -/
def ProcOwned (rt : Runtime) (s : SystemStore) : Proc → Prop
  | .adding adds _ => ∀ add ∈ adds, add.PairIn (Owner s.1.connections)
  | .nangoSync run => ∀ c t, run.pair? = some (c, t) → Owner s.1.connections c t
  | .reconcile run => ∀ c t, run.pair? = some (c, t) → Owner s.1.connections c t
  | .ingest proc => ∃ job, proc.Serves rt job ∧ job.data ∈ s.2
  | .request _ _ | .webhook _ | .sweep | .done => True

/-- Owners are never taken back, and neither are the jobs taken up. -/
structure SystemStore.Grows (s s' : SystemStore) : Prop where
  owners : ∀ c t, Owner s.1.connections c t → Owner s'.1.connections c t
  taken : ∀ job ∈ s.2, job ∈ s'.2

theorem ProcOwned.mono {rt : Runtime} {s s' : SystemStore} (h : SystemStore.Grows s s') {p : Proc}
    (hp : ProcOwned rt s p) : ProcOwned rt s' p := by
  cases p with
  | adding adds replayed => exact fun add hadd => (hp add hadd).mono h.owners
  | nangoSync run => exact fun c t hpair => h.owners c t (hp c t hpair)
  | reconcile run => exact fun c t hpair => h.owners c t (hp c t hpair)
  | ingest proc =>
    obtain ⟨job, hserves, htaken⟩ := hp
    exact ⟨job, hserves, h.taken _ htaken⟩
  | _ => exact trivial

section System

variable {rt : Runtime} {d : Drivers} {options : AppOptions}

/-- A step that leaves `connections` alone and keeps the pairs, the events and the jobs
    taken up. -/
private theorem Provenance.of_same {s : SystemStore} {s' : System} (h : Provenance s)
    (hconn : s'.connections = s.1.connections) (hpairs : PairsIn (Owner s.1.connections) s')
    (hjobs : ∀ job ∈ s.1.ingestJobs, job ∈ s'.ingestJobs)
    (hspine : ∀ row ∈ s'.spine, ∃ job ∈ s.2, job.tenantId = row.tenantId) :
    Provenance (s', s.2) ∧ SystemStore.Grows s (s', s.2) := by
  refine ⟨⟨?_, ?_, fun job hjob => hjobs job (h.taken job hjob), hspine⟩, ?_, fun job hjob => hjob⟩
  · show (s'.connections.map Connection.id).Nodup
    rw [hconn]
    exact h.ids
  · show PairsIn (Owner s'.connections) s'
    rw [hconn]
    exact hpairs
  · show ∀ c t, Owner s.1.connections c t → Owner s'.connections c t
    rw [hconn]
    exact fun c t howner => howner

/-- A handler's look at the collections keeps the provenance. -/
theorem Provenance.request {s : SystemStore} (h : Provenance s) (env : RequestEnv)
    (t : ObjectId) (req : ApiRequest) (hid : env.newId ∉ s.1.connections.map Connection.id) :
    Provenance ((req.plan d options env t s.1).2, s.2) ∧
      SystemStore.Grows s ((req.plan d options env t s.1).2, s.2) := by
  rcases @ApiRequest.plan_state d options env t s.1 req with hsame | ⟨v, r, hconn⟩
  · rw [hsame]
    exact ⟨h, fun _ _ howner => howner, fun _ hjob => hjob⟩
  · obtain ⟨howner, hnodup⟩ := @upsertConnection_owner d env t v r s.1.connections
    rw [hconn]
    have hpairs := h.pairs.mono howner
    exact ⟨⟨hnodup hid h.ids, { hpairs with }, h.taken, h.spine⟩, howner, fun _ hjob => hjob⟩

/-- A job added keeps the provenance. -/
theorem Provenance.add {s : SystemStore} (h : Provenance s) {add : QueueAdd}
    (hadd : add.PairIn (Owner s.1.connections)) :
    Provenance (s.1.add add, s.2) ∧ SystemStore.Grows s (s.1.add add, s.2) := by
  apply h.of_same
  · cases add <;> rfl
  · exact h.pairs.add hadd
  · intro job hjob
    cases add with
    | ingest data => exact List.mem_append_left _ hjob
    | _ => exact hjob
  · cases add <;> exact h.spine

/-- A dead letter stamped keeps the provenance. -/
theorem Provenance.stamp {s : SystemStore} (h : Provenance s) (env : RequestEnv)
    (replayed : Option (ObjectId × ObjectId)) :
    Provenance (stampPlan env replayed s.1, s.2) ∧
      SystemStore.Grows s (stampPlan env replayed s.1, s.2) := by
  have hpairs := h.pairs.stamp env replayed
  cases replayed with
  | none => exact h.of_same rfl hpairs (fun _ hjob => hjob) h.spine
  | some item => exact h.of_same rfl hpairs (fun _ hjob => hjob) h.spine

/-- A call of a delivery run with an owned pair keeps the provenance. -/
theorem Provenance.deliver {s : SystemStore} (h : Provenance s) {c t : ObjectId}
    (howner : Owner s.1.connections c t) {store' : DeliveryStore}
    (hw : s.1.toDeliveryStore.Wrote c t store') :
    Provenance ({ s.1 with toDeliveryStore := store' }, s.2) ∧
      SystemStore.Grows s ({ s.1 with toDeliveryStore := store' }, s.2) :=
  h.of_same rfl (h.pairs.deliver howner hw) hw.jobs h.spine

/-- A delivery run that keeps its owned pair, or ends, has no other pair. -/
private theorem owned_of_pair {connections : List Connection} {c t : ObjectId}
    (howner : Owner connections c t) {pair? : Option (ObjectId × ObjectId)}
    (h : pair? = some (c, t) ∨ pair? = none) :
    ∀ c' t', pair? = some (c', t') → Owner connections c' t' := by
  intro c' t' hpair
  cases h with
  | inl hsame =>
    rw [hsame] at hpair
    cases hpair
    exact howner
  | inr hnone =>
    rw [hnone] at hpair
    exact nomatch hpair

/-- **Every step of the system** keeps the provenance. -/
theorem shiplogSystem_invariant (rt : Runtime) (d : Drivers) (options : AppOptions) :
    (shiplogSystem rt d options).Invariant Provenance (ProcOwned rt) where
  env := by
    intro s s' new hI henv
    have hone : ∀ {s' : SystemStore} {p : Proc}, ProcOwned rt s' p → ∀ q ∈ [p], ProcOwned rt s' q :=
      fun hp q hq => List.mem_singleton.mp hq ▸ hp
    cases henv with
    | request tenantId req => exact ⟨hI, hone trivial, fun q hq => hq⟩
    | webhook payload => exact ⟨hI, hone trivial, fun q hq => hq⟩
    | sweep => exact ⟨hI, hone trivial, fun q hq => hq⟩
    | @nangoSync job _ hjob =>
      refine ⟨hI, hone fun c t hpair => ?_, fun q hq => hq⟩
      cases hpair
      exact hI.pairs.nangoSyncJobs job hjob
    | @reconcile job _ hjob =>
      refine ⟨hI, hone fun c t hpair => ?_, fun q hq => hq⟩
      cases hpair
      exact hI.pairs.reconcileJobs job hjob
    | @ingest data _ hdata =>
      -- the worker takes up a job that was added
      have hgrows : SystemStore.Grows s (s.1, s.2 ++ [data]) :=
        ⟨fun _ _ howner => howner, fun job hjob => List.mem_append_left _ hjob⟩
      have hspine : ∀ row ∈ s.1.spine, ∃ job ∈ s.2 ++ [data], job.tenantId = row.tenantId := by
        intro row hrow
        obtain ⟨job, hjob, ht⟩ := hI.spine row hrow
        exact ⟨job, List.mem_append_left _ hjob, ht⟩
      exact ⟨⟨hI.ids, hI.pairs, List.forall_mem_concat hI.taken hdata, hspine⟩,
        hone ⟨⟨data, ingestAttempts⟩, rfl, List.mem_concat_self⟩, fun q hq => hq.mono hgrows⟩
  step := by
    intro p s p' s' new hI hL hstep
    obtain ⟨sys', taken'⟩ := s'
    obtain ⟨hstep, htaken⟩ := hstep
    have htaken' : taken' = s.2 := htaken
    subst htaken'
    -- enough: the provenance, and what the step makes of its process and starts
    suffices h : (Provenance (sys', s.2) ∧ SystemStore.Grows s (sys', s.2)) ∧
        ProcOwned rt (sys', s.2) p' ∧ ∀ q ∈ new, ProcOwned rt (sys', s.2) q by
      obtain ⟨⟨hI', hgrows⟩, hp', hnew⟩ := h
      exact ⟨hI', hp', hnew, fun q hq => hq.mono hgrows⟩
    have hnil : ∀ q ∈ ([] : List Proc), ProcOwned rt (sys', s.2) q :=
      fun q hq => absurd hq List.not_mem_nil
    have hstay : Provenance s ∧ SystemStore.Grows s s :=
      ⟨hI, fun _ _ howner => howner, fun _ hjob => hjob⟩
    cases hstep with
    | @request tenantId req _ env hid =>
      -- the jobs were made in the state before, whose owners are still there
      have hkeep := @Provenance.request d options s hI env tenantId req hid
      refine ⟨hkeep, fun add hadd => ?_, hnil⟩
      exact (ApiRequest.plan_owned hI.pairs req add hadd).mono hkeep.2.owners
    | @webhook payload => exact ⟨hstay, webhookNango_owned rt payload, hnil⟩
    | sweep => exact ⟨hstay, sweepAdds_owned s.1.connections, hnil⟩
    | @add add adds replayed _ hok =>
      obtain ⟨hadd, hadds⟩ := List.forall_mem_cons.mp hL
      have hkeep := hI.add hadd
      exact ⟨hkeep, fun a ha => (hadds a ha).mono hkeep.2.owners, hnil⟩
    | @stamp replayed _ env => exact ⟨hI.stamp env replayed, trivial, hnil⟩
    | @nangoSync run _ nango hlive =>
      obtain ⟨c, t, hpair⟩ := NangoSyncRun.exists_pair hlive
      obtain ⟨hw, hnext⟩ := @NangoSyncRun.next_wrote c t rt run s.1.toDeliveryStore nango hpair
      have howner := hL c t hpair
      exact ⟨hI.deliver howner hw, owned_of_pair howner hnext, hnil⟩
    | @reconcile run _ nango hlive =>
      obtain ⟨c, t, hpair⟩ := ReconcileRun.exists_pair hlive
      obtain ⟨hw, hnext⟩ := @ReconcileRun.next_wrote c t rt run s.1.toDeliveryStore nango hpair
      have howner := hL c t hpair
      exact ⟨hI.deliver howner hw, owned_of_pair howner hnext, hnil⟩
    | @ingest proc proc' pipeline' new _ h =>
      obtain ⟨job, hserves, htaken⟩ := hL
      obtain ⟨hw, hserves', hnew⟩ := h.wrote hserves
      have hpair := hI.pairs.ingestJobs job.data (hI.taken _ htaken)
      refine ⟨hI.of_same rfl (hI.pairs.ingest hpair hw) (fun j hj => hj) fun row hrow => ?_,
        ⟨job, hserves', htaken⟩, fun q hq => ?_⟩
      · -- an inserted row has the tenant of the job at work
        cases hw.spine row hrow with
        | inl hrow => exact hI.spine row hrow
        | inr hrow => exact ⟨job.data, htaken, hrow.symm⟩
      · obtain ⟨q', hq', rfl⟩ := List.mem_map.mp hq
        exact ⟨job, hnew q' hq', htaken⟩
    | throw hcan => exact ⟨hstay, trivial, hnil⟩

end System

/-! ## Requests one at a time -/

section Handle

variable (rt : Runtime) (d : Drivers) (options : AppOptions) (env : RequestEnv)

/-- What a handler leaves once it has added its jobs: a dead letter is stamped, unless an `add`
    or the stamp has thrown. -/
def stampedState (replayed : Option (ObjectId × ObjectId))
    (done : Option JsVal × List QueueAdd × System) : System :=
  match done.1.or (replayed.bind fun _ => env.saveFault) with
  | some _ => done.2.2
  | none => stampPlan env replayed done.2.2

private theorem handle_state (t : ObjectId) (req : ApiRequest) (s : System) :
    (handle d options env t req s).2.2 =
      stampedState env (req.plan d options env t s).1.replayed
        (addAll d env.addFault (req.plan d options env t s).1.adds
          (req.plan d options env t s).2) := by
  unfold handle stampedState
  simp only
  generalize addAll d env.addFault _ _ = done
  obtain ⟨err, added, s'⟩ := done
  cases err with
  | some err => rfl
  | none =>
    simp only [Option.none_or]
    cases (req.plan d options env t s).1.replayed.bind fun _ => env.saveFault with
    | some err => rfl
    | none => rfl

/-- The steps of a handler past its look at the collections add its jobs and stamp its dead
    letter. -/
private theorem addAll_reaches (replayed : Option (ObjectId × ObjectId))
    (addFault : ℕ → Option JsVal) (adds : List QueueAdd) (s : System) (taken : List IngestJobData) :
    (shiplogSystem rt d options).Reaches ([.adding adds replayed], (s, taken))
      ([.done], (stampedState env replayed (addAll d addFault adds s), taken)) := by
  induction adds generalizing s addFault with
  | nil =>
    simp only [addAll, stampedState, Option.none_or]
    split
    · exact .single (.alone ⟨.throw rfl, rfl⟩)
    · exact .single (.alone ⟨.stamp env, rfl⟩)
  | cons add adds ih =>
    simp only [addAll]
    cases hfault : (d.rejects add).or (addFault 0) with
    | some err => exact .single (.alone ⟨.throw rfl, rfl⟩)
    | none =>
      have hrej : d.rejects add = none := (Option.or_eq_none_iff.mp hfault).1
      refine .head (b := ([.adding adds replayed], (s.add add, taken))) ?_ (ih _ (s.add add))
      exact .alone ⟨.add hrej, rfl⟩

/-- The system handles a request that is alone as `handle` does. -/
theorem handle_reaches (t : ObjectId) (req : ApiRequest) (s : System)
    (taken : List IngestJobData) (hid : env.newId ∉ s.connections.map Connection.id) :
    (shiplogSystem rt d options).Reaches ([.request t req], (s, taken))
      ([.done], ((handle d options env t req s).2.2, taken)) := by
  have hlook : (shiplogSystem rt d options).Step ([.request t req], (s, taken))
      ([.adding (req.plan d options env t s).1.adds (req.plan d options env t s).1.replayed],
        ((req.plan d options env t s).2, taken)) :=
    .alone ⟨.request env hid, rfl⟩
  rw [handle_state]
  exact .head hlook (addAll_reaches rt d options env _ _ _ _ taken)

end Handle

/-- Empty collections and queues. -/
def emptySystem : System where
  spine := []
  deadLetters := []
  dlq := []
  rawRecords := []
  syncStates := []
  ingestJobs := []
  connections := []
  syncRuns := []
  nangoSyncJobs := []
  reconcileJobs := []

/-- **Tenant provenance.** From empty collections and queues, whatever requests, webhooks and
    ticks arrive, however the workers' steps interleave, throw and are retried: in every
    state reached connection ids are unique, every job and document that carries a
    connection id has the tenant of that connection, and every event has the tenant of an
    ingest job that was taken up. -/
theorem tenant_provenance (rt : Runtime) (d : Drivers) (options : AppOptions) (s : System)
    (taken : List IngestJobData) (procs : List Proc)
    (h : (shiplogSystem rt d options).Reaches ([], (emptySystem, [])) (procs, (s, taken))) :
    (s.connections.map Connection.id).Nodup ∧ PairsIn (Owner s.connections) s ∧
      ∀ row ∈ s.spine, ∃ job ∈ taken, job ∈ s.ingestJobs ∧ job.tenantId = row.tenantId := by
  have hempty : Provenance (emptySystem, []) := by
    constructor
    · exact List.nodup_nil
    · constructor <;> exact fun _ hmem => absurd hmem List.not_mem_nil
    · exact fun _ hmem => absurd hmem List.not_mem_nil
    · exact fun _ hmem => absurd hmem List.not_mem_nil
  obtain ⟨hI, -⟩ := (shiplogSystem_invariant rt d options).reaches h hempty
    fun p hp => absurd hp List.not_mem_nil
  refine ⟨hI.ids, hI.pairs, fun row hrow => ?_⟩
  obtain ⟨job, hjob, ht⟩ := hI.spine row hrow
  exact ⟨job, hjob, hI.taken job hjob, ht⟩

/-! ## A connection registered and swept -/

/-- A request that registers a connection. -/
def registerIssues : ApiRequest :=
  .postConnections (.obj [("nangoConnectionId", .str "nango-1"),
    ("nangoIntegrationId", .str "github")])

/-- The system after it. -/
def registered : System :=
  (handle plainDrivers ⟨true, true, true⟩ plainEnv tenantA registerIssues emptySystem).2.2

/-- The job a sweep tick adds for the connection. -/
def sweptJob : ReconcileJobData where
  tenantId := tenantA
  connectionId := tenantB
  nangoConnectionId := some "nango-1"
  providerConfigKey := some "github"
  model := "Commit"

theorem tenant_provenance_swept :
    Owner (registered.add (.reconcile sweptJob "")).connections tenantB tenantA := by
  have hstart : (shiplogSystem plainRuntime plainDrivers ⟨true, true, true⟩).Step
      ([], (emptySystem, [])) ([.request tenantA registerIssues], (emptySystem, [])) :=
    .environment (.request tenantA registerIssues _)
  have hregister := handle_reaches plainRuntime plainDrivers ⟨true, true, true⟩
    plainEnv tenantA registerIssues emptySystem [] List.not_mem_nil
  have htick : (shiplogSystem plainRuntime plainDrivers ⟨true, true, true⟩).Step
      ([.done], (registered, [])) ([.done, .sweep], (registered, [])) :=
    .environment (.sweep _)
  have hsweep : (shiplogSystem plainRuntime plainDrivers ⟨true, true, true⟩).Step
      ([.done, .sweep], (registered, []))
      ([.done, .adding (sweepAdds registered.connections) none], (registered, [])) :=
    .process 1 rfl ⟨.sweep, rfl⟩
  have hadd : (shiplogSystem plainRuntime plainDrivers ⟨true, true, true⟩).Step
      ([.done, .adding (sweepAdds registered.connections) none], (registered, []))
      ([.done, .adding [] none], (registered.add (.reconcile sweptJob ""), [])) :=
    .process 1 rfl ⟨.add rfl, rfl⟩
  obtain ⟨-, hpairs, -⟩ := tenant_provenance plainRuntime plainDrivers ⟨true, true, true⟩ _ [] _
    ((((Relation.ReflTransGen.head hstart hregister).tail htick).tail hsweep).tail hadd)
  exact hpairs.reconcileJobs sweptJob List.mem_cons_self

end Shiplog
