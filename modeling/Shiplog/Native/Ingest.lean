import Shiplog.ForStd.Pool
import Shiplog.Native.Hash
import Shiplog.Native.Normalize

/-!
# Idempotent ingest

`src/events/ingest.ts`. `ingestEvent` is modelled twice: as the sequential function
(`ingestEvent`, with a fault plan saying which store operation throws what), and as the
small steps of one call among many (`IngestRun`), one step per store operation. The spine
is the `events` collection, a list in insertion order.
-/

namespace Shiplog

/-- The `events` collection in insertion order. -/
abbrev Spine := List Event

/-- `IngestStatus`. -/
inductive IngestStatus where
  | added
  | updated
  | unchanged
deriving DecidableEq, Repr

/-- `IngestResult`. -/
structure IngestResult where
  status : IngestStatus
  idempotencyKey : String
deriving DecidableEq, Repr

/-- The value of `status` when control reaches the upsert: never `'unchanged'`. -/
abbrev FreshStatus := { status : IngestStatus // status ≠ .unchanged }

/-- What one call has computed before its first store operation. -/
structure IngestCall where
  tenantId : ObjectId
  ev : NormalizedEvent
  idemKey : String
  cHash : String

/-- The argument of `contentHash`: the semantic fields, without the version. -/
def eventContent (ev : NormalizedEvent) : JsVal :=
  .obj [("source", .str ev.source), ("type", .str ev.type.name),
    ("externalId", .str ev.externalId), ("actor", .str ev.actor), ("title", .str ev.title),
    ("url", .str ev.url), ("occurredAt", .date (some ev.occurredAt))]

/-- The part of `ingestEvent` before its first `await`: the tenant check, the schema and
    the two hashes. -/
def IngestCall.prepare (rt : Runtime) (input : JsVal) (tenantId : Option ObjectId) :
    Except JsVal IngestCall :=
  match tenantId with
  | none => .error (mkError rt "Error" "ingestEvent requires a tenantId")
  | some tenantId =>
    match NormalizedEventSchema.parse rt input with
    | .error err => .error err
    | .ok ev =>
      match contentHash rt (eventContent ev) with
      | .error err => .error err
      | .ok cHash =>
        .ok { tenantId, ev, cHash,
              idemKey := idempotencyKey rt tenantId.toStr ev.source ev.externalId ev.version }

namespace IngestCall

/-! ## The three store operations -/

/-- `Event.exists({ tenantId, idempotencyKey })`. -/
def keyExists (c : IngestCall) (spine : Spine) : Bool :=
  spine.any fun r => r.tenantId = c.tenantId && r.idempotencyKey = c.idemKey

/-- The filter `{ tenantId, source, externalId }`. -/
def sameEntity (c : IngestCall) (r : Event) : Bool :=
  r.tenantId = c.tenantId && r.source = c.ev.source && r.externalId = c.ev.externalId

/-- `Event.findOne({ tenantId, source, externalId }).sort({ occurredAt: -1, _id: -1 })`. -/
def latest (c : IngestCall) (spine : Spine) : Option Event :=
  -- the spine is in `_id` order, so among rows of one date the last one comes first;
  -- the order of `Int` is given by name: not every instance of it can be executed
  @List.argmax Event Int Int.instLinearOrder.toPreorder Int.decLt (·.occurredAt)
    (spine.filter c.sameEntity).reverse

/-- The classification against the latest row; `none` suppresses a no-op update. -/
def classify (c : IngestCall) (spine : Spine) : Option FreshStatus :=
  match c.latest spine with
  | none => some ⟨.added, by decide⟩
  | some r => if r.contentHash = c.cHash then none else some ⟨.updated, by decide⟩

/-- Whether the unique index already holds the call's key. -/
def keyTaken (c : IngestCall) (spine : Spine) : Bool :=
  -- the index is on the key alone, whatever the tenant
  spine.any fun r => r.idempotencyKey = c.idemKey

/-- The `$setOnInsert` document. -/
def row (c : IngestCall) : Event where
  tenantId := c.tenantId
  source := c.ev.source
  type := c.ev.type
  externalId := c.ev.externalId
  idempotencyKey := c.idemKey
  contentHash := c.cHash
  actor := c.ev.actor
  title := c.ev.title
  url := c.ev.url
  occurredAt := c.ev.occurredAt
  version := c.ev.version
  -- the default of the model
  deleted := false

/-- `{ status, idempotencyKey: idemKey }`. -/
def result (c : IngestCall) (status : IngestStatus) : IngestResult := ⟨status, c.idemKey⟩

end IngestCall

/-! ## The sequential function -/

/-- The store operations of one call. -/
inductive IngestOp where
  | exists_
  | findOne
  | updateOne
deriving DecidableEq

/-- `err?.code === 11000`. -/
def isDuplicateKey (err : JsVal) : Bool :=
  match err.get "code" with
  | .num q => q == 11000
  | _ => false

/-- The part of `ingestEvent` from its first `await` on. `faults op` is the error the
    operation `op` throws, before taking effect, instead of answering. -/
def IngestCall.commit (faults : IngestOp → Option JsVal) (c : IngestCall) (spine : Spine) :
    Except JsVal IngestResult × Spine :=
  -- 1) exact-version replay
  match faults .exists_ with
  | some err => (.error err, spine)
  | none =>
    if c.keyExists spine then (.ok (c.result .unchanged), spine)
    else
      -- 2) classify against the latest known version
      match faults .findOne with
      | some err => (.error err, spine)
      | none =>
        match c.classify spine with
        | none => (.ok (c.result .unchanged), spine)
        | some status =>
          -- 3) idempotent append; E11000 is a lost race, hence a no-op
          match faults .updateOne with
          | some err =>
            if isDuplicateKey err then (.ok (c.result .unchanged), spine) else (.error err, spine)
          | none =>
            if c.keyTaken spine then (.ok (c.result .unchanged), spine)
            else (.ok (c.result status), spine ++ [c.row])

/-- `ingestEvent(input, { tenantId })`. -/
def ingestEvent (rt : Runtime) (faults : IngestOp → Option JsVal) (input : JsVal)
    (tenantId : Option ObjectId) (spine : Spine) : Except JsVal IngestResult × Spine :=
  match IngestCall.prepare rt input tenantId with
  | .error err => (.error err, spine)
  | .ok c => c.commit faults spine

/-- No store operation throws. -/
def noFaults : IngestOp → Option JsVal := fun _ => none

/-! ## Batches -/

/-- `RunCounts`. -/
structure RunCounts where
  added : Nat
  updated : Nat
  deleted : Nat
  failed : Nat
  unchanged : Nat
deriving DecidableEq, Repr

/-- `emptyCounts()`. -/
def emptyCounts : RunCounts := ⟨0, 0, 0, 0, 0⟩

/-- `counts[status] += 1`. -/
def RunCounts.count (counts : RunCounts) : IngestStatus → RunCounts
  | .added => { counts with added := counts.added + 1 }
  | .updated => { counts with updated := counts.updated + 1 }
  | .unchanged => { counts with unchanged := counts.unchanged + 1 }

/-- One turn of the batch loop: normalize, ingest, and count; any throw counts as
    `failed`. -/
def ingestRecord {α : Type} (rt : Runtime) (normalize : α → Except JsVal JsVal)
    (tenantId : Option ObjectId) (record : α) (counts : RunCounts) (spine : Spine) :
    RunCounts × Spine :=
  match normalize record with
  | .error _ => ({ counts with failed := counts.failed + 1 }, spine)
  | .ok normalized =>
    match ingestEvent rt noFaults normalized tenantId spine with
    | (.ok res, spine') => (counts.count res.status, spine')
    | (.error _, spine') => ({ counts with failed := counts.failed + 1 }, spine')

/-- `ingestNangoRecords(records, ctx, normalize)`. -/
def ingestNangoRecords {α : Type} (rt : Runtime) (normalize : α → Except JsVal JsVal)
    (tenantId : Option ObjectId) (records : List α) (spine : Spine) : RunCounts × Spine :=
  records.foldl (fun acc record => ingestRecord rt normalize tenantId record acc.1 acc.2)
    (emptyCounts, spine)

/-! ## One call among many -/

/-- The arguments of one `ingestEvent` call. -/
structure IngestArgs where
  input : JsVal
  tenantId : Option ObjectId

/-- Where a call stands between two of its store operations. -/
inductive IngestPc where
  | exists_
  | findOne
  | updateOne (status : FreshStatus)

/-- A call in flight: not begun, about to do its next store operation, or finished with a
    result or an error. -/
inductive IngestRun where
  | called (args : IngestArgs)
  | running (c : IngestCall) (pc : IngestPc)
  | finished (outcome : Except JsVal IngestResult)

namespace IngestRun

/-- The next operation of a call, answered by the store. -/
def next (rt : Runtime) : IngestRun → Spine → IngestRun × Spine
  | .called args, spine =>
    match IngestCall.prepare rt args.input args.tenantId with
    | .error err => (.finished (.error err), spine)
    | .ok c => (.running c .exists_, spine)
  | .running c .exists_, spine =>
    if c.keyExists spine then (.finished (.ok (c.result .unchanged)), spine)
    else (.running c .findOne, spine)
  | .running c .findOne, spine =>
    match c.classify spine with
    | none => (.finished (.ok (c.result .unchanged)), spine)
    | some status => (.running c (.updateOne status), spine)
  | .running c (.updateOne status), spine =>
    -- the upsert matched a row that came in between
    if c.keyTaken spine then (.finished (.ok (c.result .unchanged)), spine)
    else (.finished (.ok (c.result status)), spine ++ [c.row])
  | .finished outcome, spine => (.finished outcome, spine)

/-- The next operation of a call, throwing `err` before taking effect. -/
def fault (err : JsVal) : IngestRun → IngestRun
  | .running c (.updateOne _) =>
    if isDuplicateKey err then .finished (.ok (c.result .unchanged)) else .finished (.error err)
  | .running _ _ => .finished (.error err)
  | run => run

/-- The result a finished call returned or threw. -/
def outcome : IngestRun → Option (Except JsVal IngestResult)
  | .finished o => some o
  | _ => none

/-- Whether a call still has something to do. -/
def live (run : IngestRun) : Bool := run.outcome.isNone

/-- The store operation a call does next. -/
def op : IngestRun → Option IngestOp
  | .running _ .exists_ => some .exists_
  | .running _ .findOne => some .findOne
  | .running _ (.updateOne _) => some .updateOne
  | _ => none

/-- One step of a call: its next operation is answered, or throws. The upsert raises E11000
    only where the unique index holds the key. -/
inductive Step (rt : Runtime) : IngestRun → Spine → IngestRun → Spine → Prop where
  | answer {run : IngestRun} {spine : Spine} (h : run.outcome = none) :
      Step rt run spine (run.next rt spine).1 (run.next rt spine).2
  | duplicateKey {c : IngestCall} {status : FreshStatus} {spine : Spine} {err : JsVal}
      (h : c.keyTaken spine) (herr : isDuplicateKey err) :
      Step rt (.running c (.updateOne status)) spine
        (IngestRun.fault err (.running c (.updateOne status))) spine
  | throw {run : IngestRun} {spine : Spine} {err : JsVal} (h : run.op ≠ none)
      (herr : run.op = some .updateOne → isDuplicateKey err = false) :
      Step rt run spine (run.fault err) spine

end IngestRun

/-- Concurrent `ingestEvent` calls on one spine, any step of which may throw. -/
def ingestPool (rt : Runtime) : Pool IngestRun Spine where
  step run spine run' spine' new := IngestRun.Step rt run spine run' spine' ∧ new = []
  env _ _ _ := False

end Shiplog
