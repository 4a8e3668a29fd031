import Shiplog.Native.Raw

/-!
# The nango-sync processor

`src/nango/syncProcessor.ts` in small steps: one run of a sync job, which fetches the pages
of changed records from the first one on and lands and enqueues their live records one by
one. Each step is one call of the records API, the store or the queue.
-/

namespace Shiplog

/-- `NangoSyncResult`. -/
structure NangoSyncResult where
  fetched : Nat
  enqueued : Nat

/-- The variables of the page loop. -/
structure NangoSyncVars where
  cursor : Option String
  fetched : Nat
  enqueued : Nat

/-- Where a run of a sync job stands. -/
inductive NangoSyncRun where
  /-- about to fetch the page at `cursor` -/
  | fetch (job : NangoSyncJobData) (vars : NangoSyncVars)
  /-- about to land `record` of `page`, with `rest` to follow -/
  | land (job : NangoSyncJobData) (vars : NangoSyncVars) (page : Page) (record : NangoRecord)
      (rest : List NangoRecord)
  /-- about to enqueue the landed `record` -/
  | enqueue (job : NangoSyncJobData) (vars : NangoSyncVars) (page : Page) (record : NangoRecord)
      (rest : List NangoRecord)
  /-- returned its result, or threw -/
  | finished (result : Option NangoSyncResult)

namespace NangoSyncJobData

/-- `{ ...record, _nango_metadata: { ...meta, model } }`. -/
def stamp (job : NangoSyncJobData) (record : NangoRecord) : NangoRecord :=
  record.stamped job.model

/-- The job enqueued for a landed record. -/
def ingestJob (job : NangoSyncJobData) (record : NangoRecord) : IngestJobData :=
  { tenantId := job.tenantId, connectionId := some job.connectionId,
    record := some (job.stamp record) }

/-- The context records are landed in; `via` is left to its default. -/
def rawContext (job : NangoSyncJobData) : LandRawContext :=
  { tenantId := job.tenantId, connectionId := some job.connectionId }

/-- The request for the page at a cursor. -/
def listParams (job : NangoSyncJobData) (cursor : Option String) : NangoListParams :=
  { providerConfigKey := job.providerConfigKey, connectionId := job.nangoConnectionId,
    model := job.model, cursor, modifiedAfter := job.modifiedAfter }

end NangoSyncJobData

namespace NangoSyncRun

/-- Where a run of a job begins. -/
def start (job : NangoSyncJobData) : NangoSyncRun :=
  .fetch job { cursor := none, fetched := 0, enqueued := 0 }

/-- The record loop from here to its next call: skip tombstones, and land the first live
    record, or leave the loop and go on with the next page while there is a token. -/
def turn (job : NangoSyncJobData) (vars : NangoSyncVars) (page : Page) :
    List NangoRecord → NangoSyncRun
  | [] =>
    match page.nextCursor with
    | none => .finished (some ⟨vars.fetched, vars.enqueued⟩)
    | some token =>
      -- `while (cursor)`: an empty token ends the loop like a missing one
      if token = "" then .finished (some ⟨vars.fetched, vars.enqueued⟩)
      else .fetch job { vars with cursor := some token }
  | record :: rest =>
    let vars := { vars with fetched := vars.fetched + 1 }
    if record.deleted then turn job vars page rest else .land job vars page record rest

/-- The next call of a run, answered. `nango` answers `listRecords`. -/
def next (rt : Runtime) (nango : NangoListParams → Page) :
    NangoSyncRun → DeliveryStore → NangoSyncRun × DeliveryStore
  | .fetch job vars, s =>
    let page := nango (job.listParams vars.cursor)
    (turn job vars page page.records, s)
  | .land job vars page record rest, s =>
    match landRawRecord rt (job.stamp record) job.rawContext s.rawRecords with
    | .ok rawRecords => (.enqueue job vars page record rest, { s with rawRecords })
    -- a throw ends the run, and what has landed stays
    | .error _ => (.finished none, s)
  | .enqueue job vars page record rest, s =>
    (turn job { vars with enqueued := vars.enqueued + 1 } page rest,
      { s with ingestJobs := s.ingestJobs ++ [job.ingestJob record] })
  | .finished result, s => (.finished result, s)

/-- Whether a run has returned or thrown. -/
def isFinished : NangoSyncRun → Bool
  | .finished _ => true
  | _ => false

end NangoSyncRun

end Shiplog
