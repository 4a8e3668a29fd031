import Shiplog.Spec.Backfill
import Shiplog.Spec.CursorInvariant
import Shiplog.Spec.Durability
import Shiplog.Spec.HandlerAdds
import Shiplog.Spec.NoSilentLoss
import Shiplog.Spec.RawLayer
import Shiplog.Spec.StoredPayload

/-!
# Lineage

Where the contents of the collections come from. Landing writes a row under the ids of its
payload, and only then is the record enqueued; replays and backfills enqueue what has been
landed before; an attempt inserts the row that the normalizer and the hashes make of its
record, or dead-letters the job as it was. So every event goes back, through an ingest job
that was taken up, to a raw record, and so does every dead letter.

## Key results

- `ReconcileRun.next_landed`, `NangoSyncRun.next_landed`: a delivery run lands before it
  enqueues
- `JobProc.Step.traced`: what one step of an ingest job writes
- `shiplogSystem_lineage`: every step of the system keeps the lineage
- `event_lineage`, `deadLetter_lineage`: the lineage of events, and of jobs and dead letters
-/

namespace Shiplog

/-! ## Raw records -/

/-- The row's ids are those of its payload. -/
def RawRecord.Coherent (rt : Runtime) (raw : RawRecord) : Prop :=
  Shiplog.nangoRecordId rt raw.payload = .ok raw.nangoRecordId ∧
    externalIdOf rt raw.payload = .ok raw.externalId

/-- The job's record, or the one it is the stored form of, has a raw row under the job's tenant,
    its connection and the record's id. -/
def Landed (rt : Runtime) (rawRecords : List RawRecord) (data : IngestJobData) : Prop :=
  ∃ record, (data.record = some record ∨ data.record = record.stored) ∧
    ∃ raw ∈ rawRecords, raw.tenantId = data.tenantId ∧ raw.connectionId = data.connectionId ∧
      nangoRecordId rt record = .ok raw.nangoRecordId

/-- A stored payload of a landed job is one. -/
theorem Landed.stored {rt : Runtime} {rawRecords : List RawRecord} {data : IngestJobData}
    (h : Landed rt rawRecords data) : Landed rt rawRecords data.stored := by
  obtain ⟨record, hrecord, hraw⟩ := h
  refine ⟨record, Or.inr ?_, hraw⟩
  show data.record.bind NangoRecord.stored = record.stored
  rcases hrecord with hrecord | hrecord
  · rw [hrecord]
    rfl
  · rw [hrecord]
    exact record.stored_bind_stored

/-- Rows are coherent, and nothing is enqueued that has not been landed. -/
structure RawLineage (rt : Runtime) (s : DeliveryStore) : Prop where
  rows : ∀ raw ∈ s.rawRecords, raw.Coherent rt
  jobs : ∀ data ∈ s.ingestJobs, Landed rt s.rawRecords data

section Raw

variable {rt : Runtime} {s s' : DeliveryStore}

/-- A row keeps its key, so what has been landed stays landed. -/
theorem Landed.retains (hs : s.Retains s') {data : IngestJobData}
    (h : Landed rt s.rawRecords data) : Landed rt s'.rawRecords data := by
  obtain ⟨record, hrecord, raw, hraw, ht, hc, hid⟩ := h
  obtain ⟨raw', hraw', hkey⟩ := hs.rawRecords.exists_mem hraw
  -- a later landing may change the payload, the key holds the three ids
  simp only [RawRecord.Retains, RawRecord.key, Prod.mk.injEq] at hkey
  exact ⟨record, hrecord, raw', hraw', hkey.1.trans ht, hkey.2.1.trans hc, by rw [hkey.2.2, hid]⟩

/-- A stored row is under the ids of its payload. -/
private theorem coherent_of_rawRow {record : NangoRecord} {ctx : LandRawContext} {row : RawRecord}
    (h : rawRow rt record ctx = .ok row) : row.Coherent rt := by
  have hpayload := Landing.payload_of_rawRow h
  -- `rawRow` computes both ids from the record it stores, or throws
  unfold rawRow at h
  split at h
  · next hid hext =>
    cases h
    exact ⟨hid, hext⟩
  · cases h
  · cases h

/-- A landing keeps the lineage and lands its record. -/
theorem RawLineage.land (hs : RawLineage rt s) {record : NangoRecord} {ctx : LandRawContext}
    {rawRecords : List RawRecord} (h : landRawRecord rt record ctx s.rawRecords = .ok rawRecords) :
    RawLineage rt { s with rawRecords } ∧ Landed rt rawRecords
      { tenantId := ctx.tenantId, connectionId := ctx.connectionId, record := some record } := by
  have hretains := landRawRecord_retains h
  obtain ⟨row, hrow, rfl⟩ := landRawRecord_ok h
  obtain ⟨ht, hc, hid⟩ := rawRow_ok hrow
  refine ⟨⟨fun raw hraw => ?_, fun data hdata => (hs.jobs data hdata).retains hretains⟩,
    record, Or.inl rfl, row, List.mem_put_self _ _ _, ht, hc, hid⟩
  -- the upsert overwrites the row of the key or appends one: nothing else changes
  cases List.mem_put RawRecord.key hraw with
  | inl hold => exact hs.rows raw hold
  | inr hnew => exact hnew ▸ coherent_of_rawRow hrow

/-- A landed record may be enqueued. -/
theorem RawLineage.enqueue (hs : RawLineage rt s) {data : IngestJobData}
    (h : Landed rt s.rawRecords data) :
    RawLineage rt { s with ingestJobs := s.ingestJobs ++ [data] } where
  rows := hs.rows
  jobs := List.forall_mem_concat hs.jobs h

/-- A run that is about to enqueue a record has landed it. -/
def ReconcileRun.HasLanded (rt : Runtime) (s : DeliveryStore) : ReconcileRun → Prop
  | .enqueue job _ _ record _ => Landed rt s.rawRecords (job.ingestJob record)
  | _ => True

def NangoSyncRun.HasLanded (rt : Runtime) (s : DeliveryStore) : NangoSyncRun → Prop
  | .enqueue job _ _ record _ => Landed rt s.rawRecords (job.ingestJob record)
  | _ => True

theorem ReconcileRun.HasLanded.retains (hs : s.Retains s') {run : ReconcileRun}
    (h : run.HasLanded rt s) : run.HasLanded rt s' := by
  cases run with
  | enqueue job vars page record rest => exact Landed.retains hs h
  | _ => trivial

theorem NangoSyncRun.HasLanded.retains (hs : s.Retains s') {run : NangoSyncRun}
    (h : run.HasLanded rt s) : run.HasLanded rt s' := by
  cases run with
  | enqueue job vars page record rest => exact Landed.retains hs h
  | _ => trivial

/-- The record loop stops before a landing. -/
private theorem ReconcileRun.turn_hasLanded (job : ReconcileJobData) (vars : ReconcileVars)
    (page : Page) (rest : List NangoRecord) :
    (ReconcileRun.turn job vars page rest).HasLanded rt s := by
  obtain ⟨vars', -, -, hcase⟩ := turn_cases job vars page rest
  rcases hcase with ⟨-, hturn⟩ | ⟨dead, record, rest', -, -, -, hturn⟩
  · rw [hturn]
    trivial
  · rw [hturn]
    trivial

private theorem NangoSyncRun.turn_hasLanded (job : NangoSyncJobData) (vars : NangoSyncVars)
    (page : Page) (rest : List NangoRecord) :
    (NangoSyncRun.turn job vars page rest).HasLanded rt s := by
  -- the loop passes over deleted records, each of them counted in `vars`
  induction rest generalizing vars with
  | nil =>
    simp only [NangoSyncRun.turn]
    split
    · trivial
    · split <;> trivial
  | cons record rest ih =>
    simp only [NangoSyncRun.turn]
    split
    · exact ih _
    · trivial

/-- **A reconcile run lands before it enqueues.** -/
theorem ReconcileRun.next_landed (nango : NangoListParams → Page) {run : ReconcileRun}
    (hs : RawLineage rt s) (h : run.HasLanded rt s) :
    RawLineage rt (run.next rt nango s).2 ∧
      (run.next rt nango s).1.HasLanded rt (run.next rt nango s).2 := by
  cases run with
  | load job => exact ⟨hs, trivial⟩
  | fetch job vars =>
    simp only [ReconcileRun.next]
    split
    · exact ⟨hs, trivial⟩
    · exact ⟨hs, ReconcileRun.turn_hasLanded job vars _ _⟩
  | land job vars page record rest =>
    simp only [ReconcileRun.next]
    -- a landing that throws ends the run with the store as it was
    cases hland : landRawRecord rt (job.stamp record) job.rawContext s.rawRecords with
    | error err => exact ⟨hs, trivial⟩
    | ok rawRecords => exact hs.land hland
  | enqueue job vars page record rest =>
    exact ⟨hs.enqueue h, ReconcileRun.turn_hasLanded job _ page rest⟩
  | checkpoint job vars page =>
    -- the cursor is no part of the lineage
    rw [ReconcileRun.next_checkpoint_snd]
    refine ⟨⟨hs.rows, hs.jobs⟩, ?_⟩
    simp only [ReconcileRun.next]
    split
    · trivial
    · split <;> trivial
  | finished result => exact ⟨hs, trivial⟩

/-- **A sync run lands before it enqueues.** -/
theorem NangoSyncRun.next_landed (nango : NangoListParams → Page) {run : NangoSyncRun}
    (hs : RawLineage rt s) (h : run.HasLanded rt s) :
    RawLineage rt (run.next rt nango s).2 ∧
      (run.next rt nango s).1.HasLanded rt (run.next rt nango s).2 := by
  cases run with
  | fetch job vars => exact ⟨hs, NangoSyncRun.turn_hasLanded job vars _ _⟩
  | land job vars page record rest =>
    simp only [NangoSyncRun.next]
    cases hland : landRawRecord rt (job.stamp record) job.rawContext s.rawRecords with
    | error err => exact ⟨hs, trivial⟩
    | ok rawRecords => exact hs.land hland
  | enqueue job vars page record rest =>
    exact ⟨hs.enqueue h, NangoSyncRun.turn_hasLanded job _ page rest⟩
  | finished result => exact ⟨hs, trivial⟩

end Raw

/-! ## Events and dead letters -/

/-- The row an attempt at the job inserts: the one made of its record for its tenant. -/
def MadeFrom (rt : Runtime) (data : IngestJobData) (row : Event) : Prop :=
  ∃ input c, normalizeGithubRecord rt data.record = .ok input ∧
    IngestCall.prepare rt input (some data.tenantId) = .ok c ∧ row = c.row

/-- The document is one of the job's. -/
def DeadLetter.IsFrom (data : IngestJobData) (doc : DeadLetter) : Prop :=
  doc.payload = data.stored ∧ doc.tenantId = data.tenantId ∧ doc.connectionId = data.connectionId ∧
    doc.syncRunId = data.syncRunId

/-- The spine keeps its index, and what the pipeline holds comes from the jobs taken up. -/
structure PipelineLineage (rt : Runtime) (taken : List IngestJobData) (s : Pipeline) : Prop where
  keys : SpineInv rt s.spine
  spine : ∀ row ∈ s.spine, ∃ data ∈ taken, MadeFrom rt data row
  deadLetters : ∀ doc ∈ s.deadLetters, ∃ data ∈ taken, doc.IsFrom data
  dlq : ∀ job ∈ s.dlq, ∃ doc ∈ s.deadLetters, doc.id = job.1 ∧
    doc.payload = job.2.stored

/-- A process works on a job that was taken up, on its record while inside `ingestEvent`, and
    on its document while parking it. -/
def JobProc.Traced (rt : Runtime) (taken : List IngestJobData) (s : Pipeline) : JobProc → Prop
  | .ingesting job _ run => job.data ∈ taken ∧
      ∃ input, normalizeGithubRecord rt job.data.record = .ok input ∧
        run.Follows rt ⟨input, some job.data.tenantId⟩
  | .parking job _ _ doc => job.data ∈ taken ∧
      ∃ doc' ∈ s.deadLetters, doc'.id = doc.id ∧ doc'.payload = job.data.stored
  | p => p.job.data ∈ taken

section Pipeline

variable {rt : Runtime} {taken taken' : List IngestJobData} {s s' : Pipeline}

theorem JobProc.Traced.retains (hs : s.Retains s') (ht : taken <+: taken') {p : JobProc}
    (h : p.Traced rt taken s) : p.Traced rt taken' s' := by
  cases p with
  | ingesting job made run => exact ⟨ht.subset h.1, h.2⟩
  | parking job made err doc =>
    obtain ⟨hjob, doc₁, hdoc₁, hid, hpayload⟩ := h
    -- meanwhile a replay may have stamped the document
    obtain ⟨doc₂, hdoc₂, hkept, -⟩ := hs.deadLetters.exists_mem hdoc₁
    refine ⟨ht.subset hjob, doc₂, hdoc₂, ?_⟩
    rw [hkept]
    exact ⟨hid, hpayload⟩
  | _ => exact ht.subset h

/-- More jobs are taken up. -/
theorem PipelineLineage.mono (ht : taken <+: taken') (h : PipelineLineage rt taken s) :
    PipelineLineage rt taken' s where
  keys := h.keys
  spine := fun row hrow =>
    let ⟨data, hdata, hmade⟩ := h.spine row hrow
    ⟨data, ht.subset hdata, hmade⟩
  deadLetters := fun doc hdoc =>
    let ⟨data, hdata, hfrom⟩ := h.deadLetters doc hdoc
    ⟨data, ht.subset hdata, hfrom⟩
  dlq := h.dlq

/-- A dead letter is stamped. -/
theorem PipelineLineage.stamp (h : PipelineLineage rt taken s) (id t : ObjectId) (now : Int) :
    PipelineLineage rt taken { s with deadLetters := stampReplayed id t now s.deadLetters } where
  keys := h.keys
  spine := h.spine
  deadLetters := by
    intro doc hdoc
    rcases List.mem_updateOne hdoc with hdoc | ⟨doc₀, hdoc₀, -, rfl⟩
    · exact h.deadLetters doc hdoc
    · exact h.deadLetters doc₀ hdoc₀
  dlq := by
    intro job hjob
    obtain ⟨doc, hdoc, hid, hpayload⟩ := h.dlq job hjob
    -- the document may be the stamped one: id and payload are kept
    have hstamp := @List.evolves_updateOne _ _ (DeadLetter.isItem id t)
      (fun doc => { doc with replayedAt := some now }) DeadLetter.Retains.refl
      (fun doc _ => ⟨rfl, fun _ => rfl⟩) s.deadLetters
    obtain ⟨doc', hdoc', hkept, -⟩ := hstamp.exists_mem hdoc
    refine ⟨doc', hdoc', ?_⟩
    rw [hkept]
    exact ⟨hid, hpayload⟩

namespace JobProc

variable {m : Moment} {job : Job} {attemptsMade : Nat}

private theorem throwing_traced (hjob : job.data ∈ taken) (err : JsVal) :
    (throwing rt m job attemptsMade err).1.Traced rt taken s ∧
      ∀ q ∈ (throwing rt m job attemptsMade err).2, q.Traced rt taken s :=
  throwing_all (fun _ => hjob) (fun _ _ => hjob) (fun _ _ => hjob) err

private theorem enterIngest_traced (hjob : job.data ∈ taken) (failMode : JsVal) :
    (enterIngest rt m job attemptsMade failMode).1.Traced rt taken s ∧
      ∀ q ∈ (enterIngest rt m job attemptsMade failMode).2, q.Traced rt taken s :=
  enterIngest_all (fun _ => hjob) (fun _ _ => hjob) (fun _ _ => hjob)
    (fun input hin => ⟨hjob, input, hin, rfl⟩) failMode

/-- **One step of an ingest job** keeps the lineage. -/
theorem Step.traced {createThrows : Prop} {p p' : JobProc} {new : List JobProc}
    (h : Step rt createThrows p s p' s' new) (hs : PipelineLineage rt taken s)
    (hp : p.Traced rt taken s) :
    PipelineLineage rt taken s' ∧ p'.Traced rt taken s' ∧ ∀ q ∈ new, q.Traced rt taken s' := by
  have hnil : ∀ q ∈ ([] : List JobProc), q.Traced rt taken s' :=
    fun q hq => absurd hq List.not_mem_nil
  cases h with
  | start failMode m h => exact ⟨hs, enterIngest_traced hp failMode⟩
  | startDemo failMode h => exact ⟨hs, hp, hnil⟩
  | demoRecovered m h => exact ⟨hs, enterIngest_traced hp _⟩
  | demoOutage m h => exact ⟨hs, throwing_traced hp _⟩
  | demoThrow m err => exact ⟨hs, throwing_traced hp err⟩
  | @ingest job made _ run run' spine' m h =>
    obtain ⟨hjob, input, hin, hf⟩ := hp
    refine ⟨?_, afterIngest_all (fun _ => hjob) (fun _ _ => hjob) (fun _ _ => hjob)
      ⟨hjob, input, hin, (h.follows hf).1⟩ (fun _ _ => hjob)⟩
    -- a row is inserted only under a free key, and is the one of the call
    rcases h.cases.2 with ⟨rfl, -⟩ | ⟨c, status, rfl, hfree, -, rfl⟩
    · exact hs
    · exact { hs with
        keys := hs.keys.append (IngestCall.ownKey_of_prepare hf) hfree
        spine := List.forall_mem_concat hs.spine ⟨job.data, hjob, input, c, hin, hf, rfl⟩ }
  | log h => exact ⟨hs, hp, hnil⟩
  | @create job made _ err doc id now h hdoc =>
    -- the document holds the job's ids as they are and its payload as it is stored
    have hfrom : doc.stored.IsFrom job.data := by
      rw [hdoc]
      exact ⟨rfl, rfl, rfl, rfl⟩
    have hdlq : ∀ parked ∈ s.dlq, ∃ doc' ∈ s.deadLetters ++ [doc.stored], doc'.id = parked.1 ∧
        doc'.payload = parked.2.stored := by
      intro parked hparked
      obtain ⟨doc', hdoc', heq⟩ := hs.dlq parked hparked
      exact ⟨doc', List.mem_append_left _ hdoc', heq⟩
    refine ⟨{ hs with
      deadLetters := List.forall_mem_concat hs.deadLetters ⟨job.data, hp, hfrom⟩
      dlq := hdlq }, ⟨hp, doc.stored, List.mem_concat_self, rfl, hfrom.1⟩, hnil⟩
  | createThrow hc h => exact ⟨hs, hp, hnil⟩
  | @park job made _ err doc =>
    -- the document was created before: the dlq copy is made under its id
    obtain ⟨hjob, doc', hdoc', heq⟩ := hp
    exact ⟨{ hs with dlq := List.forall_mem_concat hs.dlq ⟨doc', hdoc', heq⟩ }, hjob, hnil⟩
  | parkThrow => exact ⟨hs, hp.1, hnil⟩

end JobProc

end Pipeline

/-! ## The system -/

/-- The lineage of everything in the system. -/
structure Lineage (rt : Runtime) (s : SystemStore) : Prop where
  raw : RawLineage rt s.1.toDeliveryStore
  pipeline : PipelineLineage rt s.2 s.1.toPipeline
  taken : ∀ data ∈ s.2, data ∈ s.1.ingestJobs

/-- A process enqueues what has been landed, and works on what has been taken up. -/
def ProcTraced (rt : Runtime) (s : SystemStore) : Proc → Prop
  | .adding adds _ => ∀ data, .ingest data ∈ adds → Landed rt s.1.rawRecords data
  | .nangoSync run => run.HasLanded rt s.1.toDeliveryStore
  | .reconcile run => run.HasLanded rt s.1.toDeliveryStore
  | .ingest proc => proc.Traced rt s.2 s.1.toPipeline
  | .request _ _ | .webhook _ | .sweep | .done => True

theorem ProcTraced.retains {rt : Runtime} {s s' : SystemStore} (hs : s.1.Retains s'.1)
    (ht : s.2 <+: s'.2) {p : Proc} (h : ProcTraced rt s p) : ProcTraced rt s' p := by
  cases p with
  | adding adds replayed => exact fun data hdata => (h data hdata).retains hs.delivery
  | nangoSync run => exact NangoSyncRun.HasLanded.retains hs.delivery h
  | reconcile run => exact ReconcileRun.HasLanded.retains hs.delivery h
  | ingest proc => exact JobProc.Traced.retains hs.pipeline ht h
  | _ => trivial

section System

variable {rt : Runtime} {d : Drivers} {options : AppOptions}

/-- The ingest jobs of a handler have been landed: a replay copies a dead letter's, and a
    backfill makes them from raw rows. -/
private theorem ApiRequest.plan_landed {env : RequestEnv} {t : ObjectId} {s : SystemStore}
    (hs : Lineage rt s) (req : ApiRequest) (data : IngestJobData)
    (hdata : .ingest data ∈ (req.plan d options env t s.1).1.adds) :
    Landed rt s.1.rawRecords data := by
  cases (req.plan_madeFor d options env).adds _ hdata with
  | @replay item hitem ht =>
    -- the letter is of a job that was taken up, hence of one that had been landed
    obtain ⟨job, hjob, hpayload, -⟩ := hs.pipeline.deadLetters item hitem
    rw [hpayload]
    exact (hs.raw.jobs job (hs.taken job hjob)).stored
  | @backfill raw id hraw hid ht =>
    exact ⟨raw.payload, Or.inl rfl, raw, hraw, ht, hid, (hs.raw.rows raw hraw).1⟩

/-- A handler changes `connections` at most. -/
theorem Lineage.request {env : RequestEnv} {t : ObjectId} {s : SystemStore} (hs : Lineage rt s)
    (req : ApiRequest) : Lineage rt ((req.plan d options env t s.1).2, s.2) := by
  rcases @ApiRequest.plan_state d options env t s.1 req with heq | ⟨v, r, heq⟩
  · rw [heq]
    exact hs
  · rw [heq]
    exact ⟨hs.raw, hs.pipeline, hs.taken⟩

theorem shiplogSystem_lineage (rt : Runtime) (d : Drivers) (options : AppOptions) :
    (shiplogSystem rt d options).Invariant (Lineage rt) (ProcTraced rt) where
  step := by
    intro p s p' s' new hI hp hstep
    obtain ⟨sys', taken'⟩ := s'
    obtain ⟨hstep, htaken⟩ := hstep
    have htaken' : taken' = s.2 := htaken
    subst htaken'
    -- rows are never removed, so what the new processes rest on stays true
    have hretains := hstep.retains
    suffices h : Lineage rt (sys', s.2) ∧ ProcTraced rt (sys', s.2) p' ∧
        ∀ q ∈ new, ProcTraced rt (sys', s.2) q by
      exact ⟨h.1, h.2.1, h.2.2, fun q hq => hq.retains hretains (List.prefix_refl _)⟩
    have hnil : ∀ q ∈ ([] : List Proc), ProcTraced rt (sys', s.2) q :=
      fun q hq => absurd hq List.not_mem_nil
    have htakes : ∀ data ∈ s.2, data ∈ sys'.ingestJobs :=
      fun data hdata => hretains.delivery.ingestJobs.subset (hI.taken data hdata)
    cases hstep with
    | @request tenantId req _ env hid =>
      -- the handler plans its adds in the state it reads
      refine ⟨hI.request req, fun data hdata => ?_, hnil⟩
      exact (ApiRequest.plan_landed hI req data hdata).retains hretains.delivery
    | webhook =>
      -- webhooks and sweeps plan sync and reconcile jobs only
      refine ⟨hI, fun data hdata => ?_, hnil⟩
      obtain ⟨connection, -, sync, heq, -⟩ := webhookNango_adds hdata
      cases heq
    | sweep =>
      refine ⟨hI, fun data hdata => ?_, hnil⟩
      obtain ⟨connection, -, model, heq⟩ := sweepAdds_adds hdata
      cases heq
    | @add add adds replayed _ hok =>
      refine ⟨?_, fun data hdata => (hp data (List.mem_cons_of_mem _ hdata)).retains
        hretains.delivery, hnil⟩
      -- an ingest job reaches the queue here, and `hp` says that it had been landed
      cases add with
      | ingest data => exact ⟨hI.raw.enqueue (hp data List.mem_cons_self), hI.pipeline, htakes⟩
      | nangoSync data => exact ⟨hI.raw, hI.pipeline, htakes⟩
      | reconcile data jobId => exact ⟨hI.raw, hI.pipeline, htakes⟩
    | @stamp replayed _ env =>
      refine ⟨?_, trivial, hnil⟩
      cases replayed with
      | none => exact hI
      | some item => exact ⟨hI.raw, hI.pipeline.stamp item.1 item.2 env.now, htakes⟩
    | @nangoSync run _ nango hlive =>
      obtain ⟨hraw, hrun⟩ := NangoSyncRun.next_landed nango hI.raw hp
      exact ⟨⟨hraw, hI.pipeline, htakes⟩, hrun, hnil⟩
    | @reconcile run _ nango hlive =>
      obtain ⟨hraw, hrun⟩ := ReconcileRun.next_landed nango hI.raw hp
      exact ⟨⟨hraw, hI.pipeline, htakes⟩, hrun, hnil⟩
    | @ingest proc proc' pipeline' new _ h =>
      -- an ingest step leaves the delivery store alone
      obtain ⟨hpipeline, hproc', hnew⟩ := h.traced hI.pipeline hp
      refine ⟨⟨hI.raw, hpipeline, htakes⟩, hproc', fun q hq => ?_⟩
      obtain ⟨q', hq', rfl⟩ := List.mem_map.mp hq
      exact hnew q' hq'
    | throw hcan => exact ⟨hI, trivial, hnil⟩
  env := by
    intro s s' new hI henv
    have hone : ∀ {s' : SystemStore} {p : Proc}, ProcTraced rt s' p →
        ∀ q ∈ [p], ProcTraced rt s' q :=
      fun hp q hq => List.mem_singleton.mp hq ▸ hp
    cases henv with
    | @ingest data _ hdata =>
      -- a worker takes a job of the queue up: only `taken` grows
      have ht : s.2 <+: s.2 ++ [data] := List.prefix_append _ _
      exact ⟨⟨hI.raw, hI.pipeline.mono ht, List.forall_mem_concat hI.taken hdata⟩,
        hone (List.mem_concat_self : data ∈ s.2 ++ [data]),
        fun q hq => @ProcTraced.retains rt s (s.1, s.2 ++ [data]) (.refl _) ht q hq⟩
    | _ => exact ⟨hI, hone trivial, fun q hq => hq⟩

theorem emptySystem_lineage (rt : Runtime) : Lineage rt (emptySystem, []) where
  raw := ⟨fun _ h => absurd h List.not_mem_nil, fun _ h => absurd h List.not_mem_nil⟩
  pipeline := ⟨⟨List.nodup_nil, fun _ h => absurd h List.not_mem_nil⟩,
    fun _ h => absurd h List.not_mem_nil, fun _ h => absurd h List.not_mem_nil,
    fun _ h => absurd h List.not_mem_nil⟩
  taken := fun _ h => absurd h List.not_mem_nil

private theorem lineage_of_reaches {s : SystemStore} {procs : List Proc}
    (h : (shiplogSystem rt d options).Reaches ([], (emptySystem, [])) (procs, s)) : Lineage rt s :=
  ((shiplogSystem_lineage rt d options).reaches h (emptySystem_lineage rt)
    fun _ hp => absurd hp List.not_mem_nil).1

end System

/-- **Lineage of events.** From empty collections and queues, whatever arrives and however the
    steps interleave, throw and are retried: no source version is stored twice, and every
    event is the row made of the record of an ingest job that was taken up, whose record had
    been landed among the raw records. -/
theorem event_lineage (rt : Runtime) (d : Drivers) (options : AppOptions) (s : System)
    (taken : List IngestJobData) (procs : List Proc)
    (h : (shiplogSystem rt d options).Reaches ([], (emptySystem, [])) (procs, (s, taken))) :
    (s.spine.map Event.versionId).Nodup ∧ ∀ row ∈ s.spine, ∃ data ∈ taken,
      data ∈ s.ingestJobs ∧ MadeFrom rt data row ∧ Landed rt s.rawRecords data := by
  have hI := lineage_of_reaches h
  refine ⟨hI.pipeline.keys.versionId_nodup, fun row hrow => ?_⟩
  obtain ⟨data, hdata, hmade⟩ := hI.pipeline.spine row hrow
  have hjob := hI.taken data hdata
  exact ⟨data, hdata, hjob, hmade, hI.raw.jobs data hjob⟩

/-- **Lineage of dead letters.** In the same states every raw row is under the ids of its
    payload, every ingest job ever enqueued had been landed, every dead letter carries such a
    job that was taken up, with its tenant, connection and run, and every job on the dlq is
    one of a dead letter's, under its id. -/
theorem deadLetter_lineage (rt : Runtime) (d : Drivers) (options : AppOptions) (s : System)
    (taken : List IngestJobData) (procs : List Proc)
    (h : (shiplogSystem rt d options).Reaches ([], (emptySystem, [])) (procs, (s, taken))) :
    (∀ raw ∈ s.rawRecords, raw.Coherent rt) ∧
      (∀ data ∈ s.ingestJobs, Landed rt s.rawRecords data) ∧
      (∀ doc ∈ s.deadLetters, ∃ data ∈ taken, data ∈ s.ingestJobs ∧ doc.IsFrom data) ∧
      ∀ job ∈ s.dlq, ∃ doc ∈ s.deadLetters, doc.id = job.1 ∧ doc.payload = job.2.stored := by
  have hI := lineage_of_reaches h
  refine ⟨hI.raw.rows, hI.raw.jobs, fun doc hdoc => ?_, hI.pipeline.dlq⟩
  obtain ⟨data, hdata, hfrom⟩ := hI.pipeline.deadLetters doc hdoc
  exact ⟨data, hdata, hI.taken data hdata, hfrom⟩

/-! ## A commit from the records API to the spine -/

/-- The job of the commit is taken up. -/
def commitDone : List Proc × SystemStore :=
  calmRun [3, 3, 3, 3, 3] (pageDone.1 ++ [.ingest (.waiting ⟨sweptJob.ingestJob commitRecord,
    ingestAttempts⟩ 0)], (pageDone.2.1, [sweptJob.ingestJob commitRecord]))

/-- The worker may take the job of the commit up. -/
private theorem commitTaken_step : (shiplogSystem plainRuntime plainDrivers ⟨true, true, true⟩).Step
    pageDone (pageDone.1 ++ [.ingest (.waiting
      ⟨sweptJob.ingestJob commitRecord, ingestAttempts⟩ 0)],
      (pageDone.2.1, [sweptJob.ingestJob commitRecord])) := by
  have hjobs : pageDone.2.1.ingestJobs = [sweptJob.ingestJob commitRecord] := rfl
  exact .environment (.ingest (hjobs ▸ List.mem_cons_self))

private theorem commitDone_reaches :
    (shiplogSystem plainRuntime plainDrivers ⟨true, true, true⟩).Reaches ([], (emptySystem, []))
      commitDone :=
  (pageDone_reaches.tail commitTaken_step).trans (calmRun_reaches [3, 3, 3, 3, 3] _)

theorem event_lineage_commit :
    commitDone.2.1.spine.map (·.title) = ["Fix the build"] ∧ ∀ row ∈ commitDone.2.1.spine,
      ∃ data ∈ commitDone.2.2, data ∈ commitDone.2.1.ingestJobs ∧ MadeFrom plainRuntime data row ∧
        Landed plainRuntime commitDone.2.1.rawRecords data :=
  ⟨by decide +kernel, (event_lineage plainRuntime plainDrivers ⟨true, true, true⟩ _ _ _
    commitDone_reaches).2⟩

/-! ## A commit that is refused -/

/-- An answer of the store that no retry helps against. -/
def refusal : JsVal :=
  .obj [("name", .str "MongoServerError"), ("message", .str "not authorized")]

/-- The next step of a process, an ingest job's store calls refused. -/
def refusedNext (p : Proc) (s : SystemStore) : Proc × SystemStore :=
  match p with
  | .ingest (.ingesting job made run) =>
    (.ingest (JobProc.afterIngest plainRuntime defaultMoment job made (run.fault refusal)).1, s)
  | .ingest (.failing job made err) =>
    let doc := buildDeadLetterDoc job.data made err tenantA 0
    (.ingest (.parking job made err doc),
      ({ s.1 with deadLetters := s.1.deadLetters ++ [doc.stored] }, s.2))
  | .ingest (.parking job made err doc) =>
    (.ingest (.handled job made err), ({ s.1 with dlq := s.1.dlq ++ [(doc.id, job.data)] }, s.2))
  | p => calmNext (wholeLog onePos [commitRecord]) p s

/-- Whether that step is possible and starts no handler. -/
def refusedLive (p : Proc) (s : SystemStore) : Bool :=
  match p with
  | .ingest (.ingesting job made run) => run.op.isSome &&
      (JobProc.afterIngest plainRuntime defaultMoment job made (run.fault refusal)).2.isEmpty
  | .ingest (.failing job made err) => isTerminalFailure job.attempts made err
  | .ingest (.parking _ _ _ _) => true
  | p => calmLive p s

private theorem refusedNext_step {p : Proc} {s : SystemStore} (h : refusedLive p s = true) :
    (shiplogSystem plainRuntime plainDrivers ⟨true, true, true⟩).step p s (refusedNext p s).1
      (refusedNext p s).2 [] := by
  have hcalm := @calmNext_step (wholeLog onePos [commitRecord]) p s
  cases p with
  | ingest proc =>
    cases proc with
    | ingesting job made run =>
      -- the store throws at whichever call the run is about to make
      obtain ⟨hop, hnew⟩ := Bool.and_eq_true_iff.mp h
      have hstep := @JobProc.Step.ingest plainRuntime True job made s.1.toPipeline run _ _
        defaultMoment
        (@IngestRun.Step.throw plainRuntime run _ refusal (Option.isSome_iff_ne_none.mp hop)
          fun _ => rfl)
      rw [List.isEmpty_iff.mp hnew] at hstep
      exact ⟨.ingest hstep, rfl⟩
    | failing job made err => exact ⟨.ingest (.create tenantA 0 h rfl), rfl⟩
    | parking job made err doc => exact ⟨.ingest .park, rfl⟩
    | _ => exact hcalm h
  | _ => exact hcalm h

/-- The steps of the given processes, against a store that refuses. -/
def refusedRun (schedule : List ℕ) (c : List Proc × SystemStore) : List Proc × SystemStore :=
  Pool.runSchedule refusedLive refusedNext schedule c

/-- The job of the commit is taken up, refused and dead-lettered. -/
def commitRefused : List Proc × SystemStore :=
  refusedRun [3, 3, 3] (calmRun [3, 3] (pageDone.1 ++ [.ingest (.waiting
    ⟨sweptJob.ingestJob commitRecord, ingestAttempts⟩ 0)],
    (pageDone.2.1, [sweptJob.ingestJob commitRecord])))

theorem refusedRun_reaches (schedule : List ℕ) (c : List Proc × SystemStore) :
    (shiplogSystem plainRuntime plainDrivers ⟨true, true, true⟩).Reaches c
      (refusedRun schedule c) :=
  Pool.reaches_runSchedule (fun _ _ h => refusedNext_step h) schedule c

theorem commitRefused_reaches :
    (shiplogSystem plainRuntime plainDrivers ⟨true, true, true⟩).Reaches ([], (emptySystem, []))
      commitRefused :=
  ((pageDone_reaches.tail commitTaken_step).trans (calmRun_reaches [3, 3] _)).trans
    (refusedRun_reaches [3, 3, 3] _)

theorem deadLetter_lineage_commit :
    commitRefused.2.1.deadLetters.map (·.attemptsMade) = [1] ∧
      (∀ doc ∈ commitRefused.2.1.deadLetters, ∃ data ∈ commitRefused.2.2,
        data ∈ commitRefused.2.1.ingestJobs ∧ doc.IsFrom data) ∧
      commitRefused.2.1.dlq.map Prod.fst = [tenantA] ∧
      ∀ job ∈ commitRefused.2.1.dlq, ∃ doc ∈ commitRefused.2.1.deadLetters, doc.id = job.1 ∧
        doc.payload = job.2.stored := by
  obtain ⟨-, -, hdocs, hdlq⟩ := deadLetter_lineage plainRuntime plainDrivers ⟨true, true, true⟩
    _ _ _ commitRefused_reaches
  exact ⟨by decide +kernel, hdocs, by decide +kernel, hdlq⟩

end Shiplog
