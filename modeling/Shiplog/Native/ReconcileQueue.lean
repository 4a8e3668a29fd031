import Shiplog.ForStd.JobQueue
import Shiplog.Native.App

/-!
# The reconcile queue and its triggers

`src/queue/queues.ts`, `src/queue/reconcileWorker.ts` and the two producers of reconcile
jobs: sweep ticks and `POST /connections/:id/reconcile`. The queue is BullMQ's with custom
ids, which are accepted as given. A producer looks at the connections once and then adds its
jobs one by one; workers take jobs up, retry, complete and fail them in between.
-/

namespace Shiplog

/-- `reconcileJobOptions`. -/
def reconcileJobOptions : JobQueue.Options where
  attempts := 5
  removeOnComplete := true
  removeOnFail := true

/-- A job on the reconcile queue. -/
abbrev ReconcileEntry := JobQueue.Entry String ReconcileJobData

/-- The collections, and the queue `createReconcileQueue` makes. -/
structure TriggerStore where
  system : System
  queue : List ReconcileEntry

/-- The queue after one `add` call; only reconcile jobs go onto it. -/
def addReconcile (add : QueueAdd) (queue : List ReconcileEntry) : List ReconcileEntry :=
  match add with
  | .reconcile data jobId => JobQueue.add jobId data queue
  | _ => queue

/-- A producer of reconcile jobs. -/
inductive Trigger where
  /-- a sweep tick, about to read the connections -/
  | sweep
  /-- an authenticated request, its handler about to read its connection -/
  | request (tenantId : ObjectId) (id : String) (body : JsVal)
  /-- adding its jobs -/
  | adding (adds : List QueueAdd)
  /-- answered, or given up -/
  | done

namespace Trigger

/-- One step of a producer; its read or its next `add` may throw and end it. -/
inductive Step (options : AppOptions) : Trigger → TriggerStore → Trigger → TriggerStore → Prop where
  | sweep {s : TriggerStore} :
      Step options .sweep s (.adding (sweepAdds s.system.connections)) s
  | request {tenantId : ObjectId} {id : String} {body : JsVal} {s : TriggerStore}
      (env : RequestEnv) (h : env.lookFault = none) :
      Step options (.request tenantId id body) s
        (.adding (postReconcile options env tenantId id body s.system).adds) s
  | add {add : QueueAdd} {adds : List QueueAdd} {s : TriggerStore} :
      Step options (.adding (add :: adds)) s (.adding adds)
        { s with queue := addReconcile add s.queue }
  | answer {s : TriggerStore} : Step options (.adding []) s .done s
  | throw {p : Trigger} {s : TriggerStore} : Step options p s .done s

end Trigger

/-- The documents of `connections`: `_id`s are unique, and an `_id` belongs to one tenant for
    good. -/
structure Documents (owner : ObjectId → ObjectId) (connections : List Connection) : Prop where
  ids : (connections.map Connection.id).Nodup
  tenants : ∀ connection ∈ connections, connection.tenantId = owner connection.id

/-- What happens around the producers: they arrive, workers move the queue's jobs, and
    connections are registered, changed and taken away. -/
inductive TriggerArrival (owner : ObjectId → ObjectId) :
    TriggerStore → TriggerStore → List Trigger → Prop where
  | sweep {s : TriggerStore} : TriggerArrival owner s s [.sweep]
  | request {s : TriggerStore} (tenantId : ObjectId) (id : String) (body : JsVal) :
      TriggerArrival owner s s [.request tenantId id body]
  | work {s : TriggerStore} {queue : List ReconcileEntry}
      (h : JobQueue.Step reconcileJobOptions s.queue queue) :
      TriggerArrival owner s { s with queue } []
  -- any change of the collection that keeps its `_id`s unique
  | documents {s : TriggerStore} {connections : List Connection} (h : Documents owner connections) :
      TriggerArrival owner s { s with system := { s.system with connections } } []

/-- Producers and workers on the reconcile queue. -/
def triggerPool (owner : ObjectId → ObjectId) (options : AppOptions) :
    Pool Trigger TriggerStore where
  step p s p' s' new := Trigger.Step options p s p' s' ∧ new = []
  env := TriggerArrival owner

end Shiplog
