import Shiplog.ForStd.Except
import Shiplog.ForStd.KeyedStore
import Shiplog.Native.App
import Shiplog.Native.Reconcile

/-!
# The keyed collections

The indexes `src/models` declares on the four collections that are written by upserts, and
the upserts of `src/events/ingest.ts`, `src/events/raw.ts`,
`src/nango/reconcileProcessor.ts` and `POST /connections` as the look-up and the insert
MongoDB makes of them.
-/

namespace Shiplog

/-- The collections written by upserts. -/
inductive Collection where
  | events
  | syncState
  | rawRecords
  | connections
deriving DecidableEq

/-- An index of a schema: the fields it is on, and its `unique` option. -/
structure SchemaIndex where
  fields : List String
  unique : Bool := false

namespace Collection

abbrev Doc : Collection → Type
  | .events => Event
  | .syncState => SyncState
  | .rawRecords => RawRecord
  | .connections => Connection

/-- The indexes of the collection's schema. -/
def indexes : Collection → List SchemaIndex
  | .events =>
    [⟨["idempotencyKey"], true⟩, { fields := ["tenantId", "externalId"] },
      { fields := ["tenantId", "occurredAt"] }]
  | .syncState => [⟨["tenantId", "connectionId", "model"], true⟩]
  -- no unique index on the key of the raw upsert, nor on the one of a registration
  | .rawRecords => [{ fields := ["tenantId", "externalId"] }]
  | .connections => [{ fields := ["tenantId"] }]

/-- The fields the filter of an upsert asks for. -/
def keyFields : Collection → List String
  | .events => ["idempotencyKey"]
  | .syncState => ["tenantId", "connectionId", "model"]
  | .rawRecords => ["tenantId", "connectionId", "nangoRecordId"]
  | .connections => ["tenantId", "nangoConnectionId"]

/-- Whether a unique index covers the key: one that is on no field but the key's. -/
def hasUniqueKey (c : Collection) : Bool :=
  c.indexes.any fun index => index.unique && index.fields.all (c.keyFields.contains ·)

abbrev Key : Collection → Type
  | .events => String
  | .syncState => ObjectId × ObjectId × String
  | .rawRecords => ObjectId × Option ObjectId × String
  | .connections => ObjectId × Option String

/-- The values of the key fields. -/
def key : (c : Collection) → c.Doc → c.Key
  | .events, event => event.idempotencyKey
  | .syncState, state => state.key
  | .rawRecords, row => row.key
  | .connections, connection => (connection.tenantId, connection.nangoConnectionId)

end Collection

/-- The collections with their keys and indexes. -/
abbrev collections : Keyed Collection where
  Doc := Collection.Doc
  Key := Collection.Key
  key := Collection.key
  unique := Collection.hasUniqueKey

/-! ## The upserts -/

/-- Step 3 of `ingestEvent`: `$setOnInsert` leaves a match as it is. -/
def IngestCall.upsert (call : IngestCall) : collections.Upsert .events where
  filter := fun (event : Event) => event.idempotencyKey = call.idemKey
  change := id
  fresh := call.row
  filter_iff _ := decide_eq_true_iff
  key_change _ _ := rfl

/-- The checkpoint of `reconcileProcessor`. -/
def ReconcileJobData.upsert (job : ReconcileJobData) (cursor : Option String) :
    collections.Upsert .syncState where
  filter := fun (state : SyncState) => state.key = job.key
  change := fun (state : SyncState) =>
    { state with cursor := cursor.or state.cursor, mode := "incremental" }
  fresh := ({ connectionId := job.connectionId, tenantId := job.tenantId, model := job.model,
              cursor, mode := "incremental" } : SyncState)
  filter_iff _ := decide_eq_true_iff
  key_change _ _ := rfl

/-- The landing of a row. -/
def RawRecord.upsert (row : RawRecord) : collections.Upsert .rawRecords where
  filter := fun (doc : RawRecord) => doc.key = row.key
  change _ := row
  fresh := row
  filter_iff _ := decide_eq_true_iff
  key_change _ h := (decide_eq_true_iff.mp h).symm

/-- Mongoose casts a filter by the schema it casts an update by: a value that is no string
    and that both accept stands for one string. -/
structure Drivers.CastsAlike (d : Drivers) : Prop where
  cast : ∀ v r, v.isNullish = false → d.castConnectionId v = none → d.castUpdate v = .ok r →
    ∃ s, r = some (some s) ∧ ∀ connection,
      d.connectionIdMeets v connection = decide (connection.nangoConnectionId = some s)

/-- A cast registration has cast its Nango connection id for the filter and for the
    document. -/
theorem Registration.cast_ok {d : Drivers} {nangoConnectionId nangoIntegrationId provider : JsVal}
    {r : Registration}
    (h : Registration.cast d nangoConnectionId nangoIntegrationId provider = .ok r) :
    d.castConnectionIdFilter nangoConnectionId = none ∧
      d.castString nangoConnectionId = .ok r.nangoConnectionId := by
  unfold Registration.cast at h
  cases hfilter : d.castConnectionIdFilter nangoConnectionId with
  | some err =>
    rw [hfilter] at h
    cases h
  | none =>
    simp only [hfilter] at h
    obtain ⟨_, -, h⟩ := Except.bind_ok h
    obtain ⟨_, -, h⟩ := Except.bind_ok h
    obtain ⟨_, hcast, h⟩ := Except.bind_ok h
    cases h
    exact ⟨rfl, hcast⟩

/-- The filter of a registration asks for the key its document is inserted under. -/
private theorem Drivers.CastsAlike.isRegistration_iff {d : Drivers} (hd : d.CastsAlike)
    {nangoConnectionId : JsVal} {r : Registration} (htruthy : nangoConnectionId.truthy = true)
    (hfilter : d.castConnectionIdFilter nangoConnectionId = none)
    (hcast : d.castString nangoConnectionId = .ok r.nangoConnectionId) (tenantId : ObjectId)
    (connection : Connection) :
    d.isRegistration tenantId nangoConnectionId connection = true ↔
      (connection.tenantId, connection.nangoConnectionId) =
        (tenantId, r.nangoConnectionId.getD none) := by
  have hmeets : d.meetsConnectionId nangoConnectionId connection =
      decide (connection.nangoConnectionId = r.nangoConnectionId.getD none) := by
    cases nangoConnectionId with
    | undefined => cases htruthy
    | null => cases htruthy
    | str s =>
      simp only [Drivers.castString, Except.ok.injEq] at hcast
      simp only [Drivers.meetsConnectionId, ← hcast, Option.getD_some]
    | _ =>
      -- any other value is cast by the driver, alike for filter and update
      obtain ⟨s, hs, hmeets⟩ := hd.cast _ _ rfl hfilter hcast
      rw [hs]
      exact hmeets connection
  unfold Drivers.isRegistration
  rw [hmeets, Bool.and_eq_true, decide_eq_true_iff, decide_eq_true_iff, Prod.mk.injEq]

/-- A request of `POST /connections` up to its upsert: an id that is not falsy, and a filter
    and an update that cast. -/
structure RegistrationCall (d : Drivers) where
  env : RequestEnv
  tenantId : ObjectId
  nangoConnectionId : JsVal
  nangoIntegrationId : JsVal
  provider : JsVal
  r : Registration
  truthy : nangoConnectionId.truthy = true
  casts : Registration.cast d nangoConnectionId nangoIntegrationId provider = .ok r

/-- The upsert of `POST /connections`. -/
def RegistrationCall.upsert {d : Drivers} (hd : d.CastsAlike) (call : RegistrationCall d) :
    collections.Upsert .connections where
  filter := d.isRegistration call.tenantId call.nangoConnectionId
  change := call.r.set
  fresh := call.r.inserted call.env call.tenantId
  filter_iff connection :=
    have hcast := Registration.cast_ok call.casts
    hd.isRegistration_iff call.truthy hcast.1 hcast.2 call.tenantId connection
  key_change _ _ := rfl

/-- An upsert one of the four places issues. -/
inductive IssuedUpsert (rt : Runtime) {d : Drivers} (hd : d.CastsAlike) :
    (c : Collection) → collections.Upsert c → Prop where
  | ingest {input : JsVal} {tenantId : Option ObjectId} {call : IngestCall}
      (h : IngestCall.prepare rt input tenantId = .ok call) : IssuedUpsert rt hd .events call.upsert
  | checkpoint (job : ReconcileJobData) (cursor : Option String) :
      IssuedUpsert rt hd .syncState (job.upsert cursor)
  | land {record : NangoRecord} {ctx : LandRawContext} {row : RawRecord}
      (h : rawRow rt record ctx = .ok row) : IssuedUpsert rt hd .rawRecords row.upsert
  | register (call : RegistrationCall d) : IssuedUpsert rt hd .connections (call.upsert hd)

/-- The workers and the API at their upserts, any number of them side by side. -/
def upsertPool (rt : Runtime) {d : Drivers} (hd : d.CastsAlike) :
    Pool collections.Run collections.Store :=
  collections.upserts (IssuedUpsert rt hd)

end Shiplog
