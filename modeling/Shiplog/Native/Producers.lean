import Shiplog.Native.Pipeline
import Shiplog.Native.Raw

/-!
# Producers

`src/queue/replay.ts` and `src/queue/reconcileSweep.ts`: the code outside the workers that
puts jobs on the queues, over the collections and queues of the whole system.
-/

namespace Shiplog

/-- The collections of the whole system, and every job ever added to its queues (BullMQ may
    collapse an add onto a live job with the same `jobId`; it is kept here). -/
structure System extends Pipeline, DeliveryStore where
  connections : List Connection
  syncRuns : List SyncRun
  nangoSyncJobs : List NangoSyncJobData
  reconcileJobs : List ReconcileJobData

/-- One `add` call on a queue: the job's data, and its `jobId` where the caller sets it. -/
inductive QueueAdd where
  | ingest (data : IngestJobData)
  | nangoSync (data : NangoSyncJobData)
  | reconcile (data : ReconcileJobData) (jobId : String)

namespace QueueAdd

/-- `data.tenantId`. -/
def tenantId : QueueAdd → ObjectId
  | .ingest data => data.tenantId
  | .nangoSync data => data.tenantId
  | .reconcile data _ => data.tenantId

/-- `opts.jobId`. -/
def jobId : QueueAdd → Option String
  | .reconcile _ jobId => some jobId
  | _ => none

end QueueAdd

/-- The job goes onto its queue. -/
def System.add (s : System) : QueueAdd → System
  | .ingest data => { s with ingestJobs := s.ingestJobs ++ [data] }
  | .nangoSync data => { s with nangoSyncJobs := s.nangoSyncJobs ++ [data] }
  | .reconcile data _ => { s with reconcileJobs := s.reconcileJobs ++ [data] }

/-! ## Replay -/

/-- `DeadLetter.findOne({ _id, tenantId })`'s test. -/
def DeadLetter.isItem (id tenantId : ObjectId) (item : DeadLetter) : Bool :=
  item.id = id && item.tenantId = tenantId

/-- `item.replayedAt = new Date(); item.save()`, for the item `findOne` answered. -/
def stampReplayed (id tenantId : ObjectId) (now : Int) (deadLetters : List DeadLetter) :
    List DeadLetter :=
  deadLetters.updateOne (DeadLetter.isItem id tenantId)
    fun item => { item with replayedAt := some now }

/-! ## Backfill -/

/-- The test of `RawRecord.find({ tenantId, connectionId })`. -/
def RawRecord.isOf (connectionId tenantId : ObjectId) (raw : RawRecord) : Bool :=
  raw.tenantId = tenantId && raw.connectionId = some connectionId

/-- The jobs `backfillConnection(connectionId, { tenantId })` adds: one for each raw
    record. -/
def backfillJobs (connectionId tenantId : ObjectId) (rawRecords : List RawRecord) :
    List IngestJobData :=
  (rawRecords.filter (RawRecord.isOf connectionId tenantId)).map fun raw =>
    { tenantId, connectionId := some connectionId, record := some raw.payload }

/-! ## Reconcile jobs -/

/-- `reconcileJobFor(connection, model)`: the job's data and its `jobId`. -/
def reconcileJobFor (connection : Connection) (model : String) : ReconcileJobData × String :=
  ({ tenantId := connection.tenantId, connectionId := connection.id,
     nangoConnectionId := connection.nangoConnectionId,
     -- both are cast `as string`, `null` or not
     providerConfigKey := connection.nangoIntegrationId, model },
    "reconcile:" ++ connection.id.toStr ++ ":" ++ model)

/-- `enqueueReconcileJob(reconcileQueue, connection, model)`. -/
def enqueueReconcileJob (connection : Connection) (model : String) : QueueAdd :=
  .reconcile (reconcileJobFor connection model).1 (reconcileJobFor connection model).2

/-- `connection.models?.length ? connection.models : ['Commit']`. -/
def Connection.modelsOrDefault (connection : Connection) : List String :=
  if connection.models.isEmpty then ["Commit"] else connection.models

/-- `{ status: 'active', nangoConnectionId: { $ne: null } }`. -/
def Connection.isSwept (connection : Connection) : Bool :=
  -- the query does not ask for a `nangoIntegrationId`
  connection.status = "active" && connection.nangoConnectionId.isSome

/-- The jobs one tick of `reconcileSweep` adds. -/
def sweepAdds (connections : List Connection) : List QueueAdd :=
  (connections.filter Connection.isSwept).flatMap fun connection =>
    connection.modelsOrDefault.map (enqueueReconcileJob connection)

end Shiplog
