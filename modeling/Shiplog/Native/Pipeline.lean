import Shiplog.Native.IngestJob

/-!
# The ingest pipeline in small steps

Ingest jobs side by side on one database, as `createIngestWorker` runs them: every store
call of an attempt and of the `failed` handler is a step of its own, and any of them may
throw. What an attempt does between two store calls is the code of
`Shiplog.Native.IngestJob`.
-/

namespace Shiplog

/-- An ingest job with its `opts.attempts`. -/
structure Job where
  data : IngestJobData
  attempts : Nat

/-- The collections and the queue the ingest worker writes. -/
structure Pipeline where
  spine : Spine
  deadLetters : List DeadLetter
  dlq : List DlqJob

/-- A job in the pipeline, or the handler of one of its `failed` events. -/
inductive JobProc where
  /-- waiting or delayed in the queue -/
  | waiting (job : Job) (attemptsMade : Nat)
  /-- active, about to ask whether its demo fault has dead-lettered -/
  | demoCheck (job : Job) (attemptsMade : Nat) (failMode : JsVal) (id : String)
  /-- active, inside `ingestEvent` -/
  | ingesting (job : Job) (attemptsMade : Nat) (run : IngestRun)
  | completed (job : Job) (res : IngestResult)
  /-- the `failed` event of an attempt, its handler about to run -/
  | failing (job : Job) (attemptsMade : Nat) (err : JsVal)
  /-- the handler has written its document and parks the dlq job -/
  | parking (job : Job) (attemptsMade : Nat) (err : JsVal) (doc : DeadLetter)
  | handled (job : Job) (attemptsMade : Nat) (err : JsVal)
  /-- given up by the queue although attempts were left; the handler only logs it -/
  | givenUp (job : Job) (attemptsMade : Nat) (err : JsVal)

namespace JobProc

/-- An attempt throws out of its `try` block: the job waits for its next attempt while the
    handler of the `failed` event runs, or the queue gives it up and only that handler is
    left. -/
def throwing (rt : Runtime) (m : Moment) (job : Job) (attemptsMade : Nat) (err : JsVal) :
    JobProc × List JobProc :=
  let thrown := rethrow rt m.now err
  let failed := JobProc.failing job (attemptsMade + 1) thrown
  if bullmqRetries job.attempts (attemptsMade + 1) thrown then
    if m.givesUp (attemptsMade + 1) thrown then (.givenUp job (attemptsMade + 1) thrown, [])
    else (.waiting job (attemptsMade + 1), [failed])
  else (failed, [])

/-- An attempt after the demo fault, up to the first store call of `ingestEvent`. -/
def enterIngest (rt : Runtime) (m : Moment) (job : Job) (attemptsMade : Nat) (failMode : JsVal) :
    JobProc × List JobProc :=
  match ingestInput rt failMode job.data with
  | .error err => throwing rt m job attemptsMade err
  | .ok input => (.ingesting job attemptsMade (.called ⟨input, some job.data.tenantId⟩), [])

/-- An attempt whose `ingestEvent` call has come to `run`. -/
def afterIngest (rt : Runtime) (m : Moment) (job : Job) (attemptsMade : Nat) (run : IngestRun) :
    JobProc × List JobProc :=
  match run.outcome with
  | none => (.ingesting job attemptsMade run, [])
  | some (.ok res) => (.completed job res, [])
  | some (.error err) => throwing rt m job attemptsMade err

/-- One step of a job or handler. `createThrows` says whether `DeadLetter.create` may
    throw. -/
inductive Step (rt : Runtime) (createThrows : Prop) :
    JobProc → Pipeline → JobProc → Pipeline → List JobProc → Prop where
  | start {job : Job} {attemptsMade : Nat} {s : Pipeline} (failMode : JsVal) (m : Moment)
      (h : demoFaultId job.data = none) :
      Step rt createThrows (.waiting job attemptsMade) s
        (enterIngest rt m job attemptsMade failMode).1 s
        (enterIngest rt m job attemptsMade failMode).2
  -- a demo record first asks the dead letters whether it has failed before
  | startDemo {job : Job} {attemptsMade : Nat} {s : Pipeline} {id : String} (failMode : JsVal)
      (h : demoFaultId job.data = some id) :
      Step rt createThrows (.waiting job attemptsMade) s (.demoCheck job attemptsMade failMode id)
        s []
  | demoRecovered {job : Job} {attemptsMade : Nat} {s : Pipeline} {failMode : JsVal} {id : String}
      (m : Moment) (h : alreadyDeadLettered job.data id s.deadLetters = true) :
      Step rt createThrows (.demoCheck job attemptsMade failMode id) s
        (enterIngest rt m job attemptsMade failMode).1 s
        (enterIngest rt m job attemptsMade failMode).2
  | demoOutage {job : Job} {attemptsMade : Nat} {s : Pipeline} {failMode : JsVal} {id : String}
      (m : Moment) (h : alreadyDeadLettered job.data id s.deadLetters = false) :
      Step rt createThrows (.demoCheck job attemptsMade failMode id) s
        (throwing rt m job attemptsMade (demoFaultError rt)).1 s
        (throwing rt m job attemptsMade (demoFaultError rt)).2
  | demoThrow {job : Job} {attemptsMade : Nat} {s : Pipeline} {failMode : JsVal} {id : String}
      (m : Moment) (err : JsVal) :
      Step rt createThrows (.demoCheck job attemptsMade failMode id) s
        (throwing rt m job attemptsMade err).1 s (throwing rt m job attemptsMade err).2
  | ingest {job : Job} {attemptsMade : Nat} {s : Pipeline} {run run' : IngestRun} {spine' : Spine}
      (m : Moment) (h : IngestRun.Step rt run s.spine run' spine') :
      Step rt createThrows (.ingesting job attemptsMade run) s
        (afterIngest rt m job attemptsMade run').1 { s with spine := spine' }
        (afterIngest rt m job attemptsMade run').2
  -- the `failed` handler: a failure that BullMQ retries is only logged
  | log {job : Job} {attemptsMade : Nat} {s : Pipeline} {err : JsVal}
      (h : isTerminalFailure job.attempts attemptsMade err = false) :
      Step rt createThrows (.failing job attemptsMade err) s (.handled job attemptsMade err) s []
  -- a terminal one is written to the dead letters, then queued; either call may throw
  | create {job : Job} {attemptsMade : Nat} {s : Pipeline} {err : JsVal} {doc : DeadLetter}
      (id : ObjectId) (now : Int) (h : isTerminalFailure job.attempts attemptsMade err = true)
      (hdoc : doc = buildDeadLetterDoc job.data attemptsMade err id now) :
      Step rt createThrows (.failing job attemptsMade err) s (.parking job attemptsMade err doc)
        { s with deadLetters := s.deadLetters ++ [doc.stored] } []
  | createThrow {job : Job} {attemptsMade : Nat} {s : Pipeline} {err : JsVal} (hc : createThrows)
      (h : isTerminalFailure job.attempts attemptsMade err = true) :
      Step rt createThrows (.failing job attemptsMade err) s (.handled job attemptsMade err) s []
  | park {job : Job} {attemptsMade : Nat} {s : Pipeline} {err : JsVal} {doc : DeadLetter} :
      Step rt createThrows (.parking job attemptsMade err doc) s (.handled job attemptsMade err)
        { s with dlq := s.dlq ++ [(doc.id, job.data)] } []
  | parkThrow {job : Job} {attemptsMade : Nat} {s : Pipeline} {err : JsVal} {doc : DeadLetter} :
      Step rt createThrows (.parking job attemptsMade err doc) s (.handled job attemptsMade err)
        s []

end JobProc

/-- The ingest worker at work, while jobs keep arriving. -/
def ingestPipeline (rt : Runtime) (createThrows : Prop) : Pool JobProc Pipeline where
  step := JobProc.Step rt createThrows
  env s s' new := s' = s ∧ ∃ job, new = [.waiting job 0]

end Shiplog
