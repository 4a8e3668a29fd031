import Shiplog.ForStd.Pool
import Shiplog.Native.Raw

/-!
# The reconcile processor

`src/nango/reconcileProcessor.ts` in small steps: one run of a reconcile job, which loads
the durable cursor, then fetches a page, lands and enqueues its live records one by one,
checkpoints, and goes on with the next page. Each step is one call of the store, the
records API or the queue; what happens between two calls belongs to the first of them.
-/

namespace Shiplog

/-- `ReconcileResult`. -/
structure ReconcileResult where
  fetched : Nat
  enqueued : Nat
  cursor : Option String

/-- The variables of the page loop. -/
structure ReconcileVars where
  fetched : Nat
  enqueued : Nat
  cursor : Option String
  pageCursor : Option String

/-- Where a run of a reconcile job stands. -/
inductive ReconcileRun where
  /-- about to load the cursor -/
  | load (job : ReconcileJobData)
  /-- about to fetch the page at `pageCursor` -/
  | fetch (job : ReconcileJobData) (vars : ReconcileVars)
  /-- about to land `record` of `page`, with `rest` to follow -/
  | land (job : ReconcileJobData) (vars : ReconcileVars) (page : Page) (record : NangoRecord)
      (rest : List NangoRecord)
  /-- about to enqueue the landed `record` -/
  | enqueue (job : ReconcileJobData) (vars : ReconcileVars) (page : Page) (record : NangoRecord)
      (rest : List NangoRecord)
  /-- about to store the cursor of `page` -/
  | checkpoint (job : ReconcileJobData) (vars : ReconcileVars) (page : Page)
  /-- returned its result, or threw -/
  | finished (result : Option ReconcileResult)

/-- `{ tenantId, connectionId, model }` of a `sync_state` row. -/
def SyncState.key (state : SyncState) : ObjectId × ObjectId × String :=
  (state.tenantId, state.connectionId, state.model)

namespace ReconcileJobData

/-- The job's key in `sync_state`. -/
def key (job : ReconcileJobData) : ObjectId × ObjectId × String :=
  (job.tenantId, job.connectionId, job.model)

/-- `SyncState.findOne({ tenantId, connectionId, model })`'s `cursor`. -/
def storedCursor (job : ReconcileJobData) (states : List SyncState) : Option String :=
  (states.find? fun state => state.key = job.key).bind (·.cursor)

/-- The checkpoint: `$set` of the cursor (an `undefined` one is left out) and the mode,
    with `upsert: true`. -/
def storeCursor (job : ReconcileJobData) (cursor : Option String) (states : List SyncState) :
    List SyncState :=
  states.upsert (fun state => state.key = job.key)
    (fun state => { state with cursor := cursor.or state.cursor, mode := "incremental" })
    { connectionId := job.connectionId, tenantId := job.tenantId, model := job.model,
      cursor, mode := "incremental" }

/-- `{ ...record, _nango_metadata: { ...meta, model } }`. -/
def stamp (job : ReconcileJobData) (record : NangoRecord) : NangoRecord :=
  record.stamped (.str job.model)

/-- The job enqueued for a landed record. -/
def ingestJob (job : ReconcileJobData) (record : NangoRecord) : IngestJobData :=
  { tenantId := job.tenantId, connectionId := some job.connectionId,
    record := some (job.stamp record) }

/-- The context records are landed in. -/
def rawContext (job : ReconcileJobData) : LandRawContext :=
  { tenantId := job.tenantId, connectionId := some job.connectionId, via := .reconcile }

/-- The request for the page at a cursor. -/
def listParams (job : ReconcileJobData) (cursor : Option String) : NangoListParams :=
  { providerConfigKey := .ofOption job.providerConfigKey,
    connectionId := .ofOption job.nangoConnectionId, model := .str job.model, cursor }

end ReconcileJobData

namespace ReconcileRun

/-- The record loop from here to its next call: skip tombstones, and land the first live
    record, or leave the loop. -/
def turn (job : ReconcileJobData) (vars : ReconcileVars) (page : Page) :
    List NangoRecord → ReconcileRun
  | [] => .checkpoint job vars page
  | record :: rest =>
    let vars := { vars with fetched := vars.fetched + 1 }
    if record.deleted then turn job vars page rest else .land job vars page record rest

/-- The cursor a page is checkpointed at: its last record's, else its `next_cursor`, else
    the one before. -/
def checkpointCursor (vars : ReconcileVars) (page : Page) : Option String :=
  ((page.records.getLast?.bind (·.cursor)).or page.nextCursor).or vars.cursor

/-- The next call of a run, answered. `nango` answers `listRecords`. -/
def next (rt : Runtime) (nango : NangoListParams → Page) :
    ReconcileRun → DeliveryStore → ReconcileRun × DeliveryStore
  | .load job, s =>
    let cursor := job.storedCursor s.syncStates
    (.fetch job { fetched := 0, enqueued := 0, cursor, pageCursor := cursor }, s)
  | .fetch job vars, s =>
    let page := nango (job.listParams vars.pageCursor)
    -- an empty page ends the run without a checkpoint
    if page.records.isEmpty then
      (.finished (some ⟨vars.fetched, vars.enqueued, vars.cursor⟩), s)
    else (turn job vars page page.records, s)
  | .land job vars page record rest, s =>
    match landRawRecord rt (job.stamp record) job.rawContext s.rawRecords with
    | .ok rawRecords => (.enqueue job vars page record rest, { s with rawRecords })
    -- a throw ends the run before its checkpoint: the page is delivered again
    | .error _ => (.finished none, s)
  | .enqueue job vars page record rest, s =>
    (turn job { vars with enqueued := vars.enqueued + 1 } page rest,
      { s with ingestJobs := s.ingestJobs ++ [job.ingestJob record] })
  | .checkpoint job vars page, s =>
    let cursor := checkpointCursor vars page
    let s' := { s with syncStates := job.storeCursor cursor s.syncStates }
    -- stop at the last page, or at a token that does not advance
    match page.nextCursor with
    | none => (.finished (some ⟨vars.fetched, vars.enqueued, cursor⟩), s')
    | some token =>
      if token = "" ∨ some token = vars.pageCursor then
        (.finished (some ⟨vars.fetched, vars.enqueued, cursor⟩), s')
      else (.fetch job { vars with cursor, pageCursor := some token }, s')
  | .finished result, s => (.finished result, s)

/-- Whether a run has returned or thrown. -/
def isFinished : ReconcileRun → Bool
  | .finished _ => true
  | _ => false

end ReconcileRun

end Shiplog
