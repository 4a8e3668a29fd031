import Shiplog.ForStd.Upsert
import Shiplog.Native.Normalize

/-!
# The raw layer and the sync cursor

`src/events/raw.ts` and the collections the two delivery processors write:
`raw_records`, `sync_state` and the jobs they put on the ingest queue.
-/

namespace Shiplog

/-- What the delivery processors share: two collections, and every job ever added to the
    ingest queue, in order. -/
structure DeliveryStore where
  rawRecords : List RawRecord
  syncStates : List SyncState
  ingestJobs : List IngestJobData

/-- `LandRawContext` with its defaults filled in. -/
structure LandRawContext where
  tenantId : ObjectId
  connectionId : Option ObjectId
  source : String := "github"
  via : Via := .reconcile

/-- `String(record?.id ?? dflt)`. -/
def recordIdOr (rt : Runtime) (dflt : String) (record : NangoRecord) : Except JsVal String :=
  ((record.get "id").coalesce (.str dflt)).toStr rt

/-- `String(record?.id ?? '')`, the `nangoRecordId` of a landed record. -/
def nangoRecordId (rt : Runtime) (record : NangoRecord) : Except JsVal String :=
  recordIdOr rt "" record

/-- `externalIdOf(record)`: the normalizer's external id, or the record id. -/
def externalIdOf (rt : Runtime) (record : NangoRecord) : Except JsVal String :=
  match normalizeGithubRecord rt (some record) with
  | .ok normalized => (normalized.get "externalId").toStr rt
  -- the normalizer's error is swallowed: the raw layer takes every record
  | .error _ => recordIdOr rt "unknown" record

/-- The filter `{ tenantId, connectionId, nangoRecordId }` of the raw upsert. -/
def RawRecord.key (row : RawRecord) : ObjectId × Option ObjectId × String :=
  (row.tenantId, row.connectionId, row.nangoRecordId)

/-- The row a landing stores: the filter's fields and the `$set` ones. -/
def rawRow (rt : Runtime) (record : NangoRecord) (ctx : LandRawContext) :
    Except JsVal RawRecord :=
  match nangoRecordId rt record, externalIdOf rt record with
  | .ok nangoRecordId, .ok externalId =>
    .ok { tenantId := ctx.tenantId, connectionId := ctx.connectionId, source := ctx.source,
          externalId, nangoRecordId, payload := record, via := ctx.via }
  | .error err, _ => .error err
  | _, .error err => .error err

/-- `landRawRecord(record, ctx)`: the upsert writes every field its key leaves open. -/
def landRawRecord (rt : Runtime) (record : NangoRecord) (ctx : LandRawContext)
    (rawRecords : List RawRecord) : Except JsVal (List RawRecord) :=
  match rawRow rt record ctx with
  | .ok row => .ok (rawRecords.put RawRecord.key row)
  | .error err => .error err

/-- `NangoListParams`. -/
structure NangoListParams where
  providerConfigKey : JsVal
  connectionId : JsVal
  model : JsVal
  cursor : Option String
  modifiedAfter : JsVal := .undefined

/-- `v as string` of a nullable field that is sent on as it is. -/
def JsVal.ofOption : Option String → JsVal
  | some s => .str s
  | none => .null

end Shiplog
