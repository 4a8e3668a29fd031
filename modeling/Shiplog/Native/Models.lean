import Shiplog.Native.Schema

/-!
# Documents and job payloads

The Mongoose collections of `src/models`, the Nango record shape of
`src/nango/types.ts` and the BullMQ payloads of `src/queue/types.ts`. Collections are
lists in insertion order, which is the order of their generated `_id`s. The
`createdAt`, `updatedAt`, `receivedAt` and `lastSyncAt` stamps that no code reads back
are left out.
-/

namespace Shiplog

/-- A lowercase hexadecimal digit. -/
def isHexDigit (c : Char) : Bool := c.isDigit || ('a' ≤ c && c ≤ 'f')

/-- A Mongo `ObjectId`, carried as the 24 hex digits `String(id)` renders it to. -/
structure ObjectId where
  hex : String
  isHex : hex.toList.length = 24 ∧ hex.toList.all isHexDigit = true
deriving DecidableEq

namespace ObjectId

/-- `String(id)`. -/
def toStr (oid : ObjectId) : String := oid.hex

/-- The `ObjectId` a string casts to: 24 hex digits of either case. `none` is where
    `ObjectId.isValid` answers `false`. -/
def ofString? (s : String) : Option ObjectId :=
  let hex := String.ofList (s.toList.map Char.toLower)
  if h : hex.toList.length = 24 ∧ hex.toList.all isHexDigit = true then some ⟨hex, h⟩ else none

end ObjectId

/-! ## Nango records -/

/-- A record of Nango's records API: provider fields beside `id` and
    `_nango_metadata`. -/
structure NangoRecord where
  fields : List (String × JsVal)

namespace NangoRecord

/-- `record[key]`. -/
def get (record : NangoRecord) (key : String) : JsVal := JsVal.lookup record.fields key

/-- `record._nango_metadata ?? {}`. -/
def metadata (record : NangoRecord) : JsVal :=
  (record.get "_nango_metadata").coalesce (.obj [])

/-- `record._nango_metadata?.cursor`, the incremental resume point of the record. -/
def cursor (record : NangoRecord) : Option String :=
  match (record.get "_nango_metadata").get "cursor" with
  | .str c => some c
  | _ => none

/-- The tombstone test of both processors:
    `meta.deleted_at || meta.last_action === 'DELETED'`. -/
def deleted (record : NangoRecord) : Bool :=
  (record.metadata.get "deleted_at").truthy || (record.metadata.get "last_action").isStr "DELETED"

/-- `{ ...record, _nango_metadata: { ...meta, model } }`. -/
def stamped (record : NangoRecord) (model : JsVal) : NangoRecord :=
  ⟨JsVal.assign record.fields "_nango_metadata"
    (.obj (JsVal.assign record.metadata.fields "model" model))⟩

end NangoRecord

/-- One answer of `listRecords`: its records and the token of the next page, `none`
    when `next_cursor` is `null` or absent. -/
structure Page where
  records : List NangoRecord
  nextCursor : Option String

/-! ## Job payloads -/

/-- `IngestJobData`. -/
structure IngestJobData where
  tenantId : ObjectId
  connectionId : Option ObjectId := none
  syncRunId : Option ObjectId := none
  record : Option NangoRecord
  poison : JsVal := .undefined
  demoFault : Option String := none

/-- `NangoSyncJobData`; the last four fields are copied from the webhook body. -/
structure NangoSyncJobData where
  tenantId : ObjectId
  connectionId : ObjectId
  nangoConnectionId : JsVal
  providerConfigKey : JsVal
  model : JsVal
  modifiedAfter : JsVal

/-- `ReconcileJobData`; the two Nango ids are `null` where the code casts a null away. -/
structure ReconcileJobData where
  tenantId : ObjectId
  connectionId : ObjectId
  nangoConnectionId : Option String
  providerConfigKey : Option String
  model : String
deriving DecidableEq

/-! ## What Mongoose stores

A schema minimizes by default: a document is stored without the nested objects that are
empty, or become so. -/

/-- The keys Mongoose never copies. -/
def isSpecialProperty (key : String) : Bool :=
  ["__proto__", "constructor", "prototype"].contains key

mutual

/-- A value as a `Mixed` path stores it; an object without members is left out, as
    `undefined` is. -/
def JsVal.minimized : JsVal → JsVal
  | .arr xs => .arr (JsVal.minimizedItems xs)
  | .obj fields =>
    if (JsVal.minimizedFields fields).isEmpty then .undefined
    else .obj (JsVal.minimizedFields fields)
  | v => v

/-- The items of an array: an empty object keeps its place. -/
def JsVal.minimizedItems : List JsVal → List JsVal
  | [] => []
  | .obj fields :: xs => .obj (JsVal.minimizedFields fields) :: JsVal.minimizedItems xs
  | x :: xs => JsVal.minimized x :: JsVal.minimizedItems xs

/-- The members of an object. -/
def JsVal.minimizedFields : List (String × JsVal) → List (String × JsVal)
  | [] => []
  | (key, v) :: fields =>
    if isSpecialProperty key || (JsVal.minimized v).isUndefined then JsVal.minimizedFields fields
    else (key, JsVal.minimized v) :: JsVal.minimizedFields fields

end

/-- A record inside a stored payload. -/
def NangoRecord.stored (record : NangoRecord) : Option NangoRecord :=
  let fields := JsVal.minimizedFields record.fields
  if fields.isEmpty then none else some ⟨fields⟩

/-- A job's data as the `payload` of a document. -/
def IngestJobData.stored (data : IngestJobData) : IngestJobData :=
  { data with record := data.record.bind NangoRecord.stored, poison := data.poison.minimized }

/-! ## Collections -/

/-- A `tenants` document. -/
structure Tenant where
  id : ObjectId
  apiKey : String
deriving DecidableEq

/-- A row of `events`. -/
structure Event where
  tenantId : ObjectId
  idempotencyKey : String
  type : EventType
  source : String
  externalId : String
  contentHash : String
  actor : String
  title : String
  url : String
  occurredAt : Int
  version : String
  deleted : Bool
deriving DecidableEq

/-- A `connections` document. -/
structure Connection where
  id : ObjectId
  tenantId : ObjectId
  provider : Option String
  nangoConnectionId : Option String
  nangoIntegrationId : Option String
  status : String
  models : List String
  createdAt : Int
deriving DecidableEq

/-- A `sync_state` row: the durable cursor of one (tenant, connection, model). -/
structure SyncState where
  connectionId : ObjectId
  tenantId : ObjectId
  model : String
  cursor : Option String
  mode : String
deriving DecidableEq

/-- Which delivery path landed a raw record. -/
inductive Via where
  | webhook
  | reconcile
deriving DecidableEq

/-- A `raw_records` row. -/
structure RawRecord where
  tenantId : ObjectId
  connectionId : Option ObjectId
  source : String
  externalId : String
  nangoRecordId : String
  payload : NangoRecord
  via : Via

/-- A `sync_runs` document. -/
structure SyncRun where
  tenantId : ObjectId
  connectionId : Option ObjectId
  startedAt : Int
  finishedAt : Option Int
  status : String
  added : Nat
  updated : Nat
  deleted : Nat
  failed : Nat
  trigger : String
  createdAt : Int
deriving DecidableEq

/-- A `dead_letter` document. -/
structure DeadLetter where
  id : ObjectId
  tenantId : ObjectId
  connectionId : Option ObjectId
  syncRunId : Option ObjectId
  payload : IngestJobData
  errorMessage : JsVal
  errorStack : JsVal
  attemptsMade : Nat
  failedAt : Int
  replayedAt : Option Int

/-- The document a `create` stores. -/
def DeadLetter.stored (doc : DeadLetter) : DeadLetter :=
  { doc with payload := doc.payload.stored }

end Shiplog
