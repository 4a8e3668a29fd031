import Shiplog.Native.App
import Shiplog.Native.Reconcile
import Shiplog.Native.Sync

/-!
# The whole system in small steps

`src/server.ts` and `src/worker.ts`: the API and the three workers side by side on the same
collections and queues. Requests, signed webhooks and sweep ticks arrive at any time, and a
worker may take up any job that was added, again after a failed or lost attempt. One step is
one look at the collections, one `add`, or one call of a processor; any of them may throw.
-/

namespace Shiplog

/-- The system, and the ingest jobs its worker has taken up. -/
abbrev SystemStore := System × List IngestJobData

/-- What is going on in the system. -/
inductive Proc where
  /-- an authenticated request, its handler about to look at the collections -/
  | request (tenantId : ObjectId) (req : ApiRequest)
  /-- a webhook with a valid signature -/
  | webhook (payload : JsVal)
  /-- a sweep tick -/
  | sweep
  /-- a handler or tick adding its jobs -/
  | adding (adds : List QueueAdd) (replayed : Option (ObjectId × ObjectId))
  | nangoSync (run : NangoSyncRun)
  | reconcile (run : ReconcileRun)
  | ingest (proc : JobProc)
  /-- answered, or given up -/
  | done

namespace Proc

/-- The processes whose next call may throw and end them; jobs on the ingest queue have
    their own failures. -/
def canThrow : Proc → Bool
  | .ingest _ | .done => false
  | _ => true

/-- One step of a process. -/
inductive Step (rt : Runtime) (d : Drivers) (options : AppOptions) :
    Proc → System → Proc → System → List Proc → Prop where
  -- a new document's `_id` is unused
  | request {tenantId : ObjectId} {req : ApiRequest} {s : System} (env : RequestEnv)
      (hid : env.newId ∉ s.connections.map Connection.id) :
      Step rt d options (.request tenantId req) s
        (.adding (req.plan d options env tenantId s).1.adds
          (req.plan d options env tenantId s).1.replayed)
        (req.plan d options env tenantId s).2 []
  | webhook {payload : JsVal} {s : System} :
      Step rt d options (.webhook payload) s
        (.adding (webhookNango rt d options payload s).adds none) s []
  | sweep {s : System} : Step rt d options .sweep s (.adding (sweepAdds s.connections) none) s []
  | add {add : QueueAdd} {adds : List QueueAdd} {replayed : Option (ObjectId × ObjectId)}
      {s : System} (h : d.rejects add = none) :
      Step rt d options (.adding (add :: adds) replayed) s (.adding adds replayed) (s.add add) []
  | stamp {replayed : Option (ObjectId × ObjectId)} {s : System} (env : RequestEnv) :
      Step rt d options (.adding [] replayed) s .done (stampPlan env replayed s) []
  -- the records API may answer each call with any page
  | nangoSync {run : NangoSyncRun} {s : System} (nango : NangoListParams → Page)
      (h : run.isFinished = false) :
      Step rt d options (.nangoSync run) s (.nangoSync (run.next rt nango s.toDeliveryStore).1)
        { s with toDeliveryStore := (run.next rt nango s.toDeliveryStore).2 } []
  | reconcile {run : ReconcileRun} {s : System} (nango : NangoListParams → Page)
      (h : run.isFinished = false) :
      Step rt d options (.reconcile run) s (.reconcile (run.next rt nango s.toDeliveryStore).1)
        { s with toDeliveryStore := (run.next rt nango s.toDeliveryStore).2 } []
  | ingest {proc proc' : JobProc} {pipeline' : Pipeline} {new : List JobProc} {s : System}
      (h : JobProc.Step rt True proc s.toPipeline proc' pipeline' new) :
      Step rt d options (.ingest proc) s (.ingest proc') { s with toPipeline := pipeline' }
        (new.map .ingest)
  -- the call throws before it takes effect
  | throw {p : Proc} {s : System} (h : p.canThrow = true) : Step rt d options p s .done s []

end Proc

/-- `ingestJobOptions.attempts`. -/
def ingestAttempts : Nat := 5

/-- What comes from outside, and jobs being taken up. -/
inductive Arrival : SystemStore → SystemStore → List Proc → Prop where
  | request (tenantId : ObjectId) (req : ApiRequest) (s : SystemStore) :
      Arrival s s [.request tenantId req]
  | webhook (payload : JsVal) (s : SystemStore) : Arrival s s [.webhook payload]
  | sweep (s : SystemStore) : Arrival s s [.sweep]
  -- a job stays in the store when it is taken up, so it may be taken up again
  | nangoSync {job : NangoSyncJobData} {s : SystemStore} (h : job ∈ s.1.nangoSyncJobs) :
      Arrival s s [.nangoSync (.start job)]
  | reconcile {job : ReconcileJobData} {s : SystemStore} (h : job ∈ s.1.reconcileJobs) :
      Arrival s s [.reconcile (.load job)]
  | ingest {data : IngestJobData} {s : SystemStore} (h : data ∈ s.1.ingestJobs) :
      Arrival s (s.1, s.2 ++ [data]) [.ingest (.waiting ⟨data, ingestAttempts⟩ 0)]

/-- The system at work. -/
def shiplogSystem (rt : Runtime) (d : Drivers) (options : AppOptions) : Pool Proc SystemStore where
  step p s p' s' new := Proc.Step rt d options p s.1 p' s'.1 new ∧ s'.2 = s.2
  env := Arrival

end Shiplog
