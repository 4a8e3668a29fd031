import Shiplog.Native.Backoff
import Shiplog.Native.Errors
import Shiplog.Native.Ingest

/-!
# Ingest jobs

`src/queue/ingestProcessor.ts`, `src/queue/deadLetter.ts` and the `failed` handler of
`src/queue/ingestWorker.ts`, with BullMQ's retry rule: one attempt at a job, what it
throws, and what becomes of the job afterwards. The same attempt is given once as a
function of the faults it meets (`ingestProcessor`) and once in small steps, one per store
operation, for jobs that run side by side (`JobProc`).
-/

namespace Shiplog

/-- `UnrecoverableError`'s default message in BullMQ. -/
def unrecoverableMessage : String := "bullmq:unrecoverable"

/-- `new UnrecoverableError(err?.message)` with `cause = err`. The `Error` constructor
    converts a given message to a string, and throws where that is impossible. -/
def unrecoverableError (rt : Runtime) (err : JsVal) : Except JsVal JsVal :=
  let withMessage (message : String) : JsVal :=
    .obj [("name", .str "UnrecoverableError"), ("message", .str message),
      ("stack", .str (rt.stackOf "Error" message)), ("cause", err)]
  match err.get "message" with
  | .undefined => .ok (withMessage unrecoverableMessage)
  | message =>
    match message.toStr rt with
    | .ok text => .ok (withMessage text)
    | .error typeError => .error typeError

/-! ## One attempt -/

/-- The failure a `failMode`, `poison` or `__poison` value injects. -/
def injectedFault (rt : Runtime) (injected : JsVal) : Option JsVal :=
  if injected.isStr "transient" then
    some (transientError rt "injected transient failure" 503)
  else if injected.isStr "logical" then some (logicalError rt "injected logical failure")
  else if injected.isStr "ratelimit" then
    some (.obj [("name", .str "Error"), ("message", .str "rate limited"),
      -- the delay is in the header, for the classifier to parse
      ("stack", .str (rt.stackOf "Error" "rate limited")), ("statusCode", .num 429),
      ("headers", .obj [("retry-after", .str "2")])])
  else none

/-- `failMode ?? poison ?? record?.__poison`. -/
def injectedMode (failMode : JsVal) (job : IngestJobData) : JsVal :=
  failMode.coalesce (job.poison.coalesce
    (match job.record with
      | some record => record.get "__poison"
      | none => .undefined))

/-- The part of an attempt between the demo fault and `ingestEvent`: the injected failure,
    then the normalizer. -/
def ingestInput (rt : Runtime) (failMode : JsVal) (job : IngestJobData) : Except JsVal JsVal :=
  match injectedFault rt (injectedMode failMode job) with
  | some err => .error err
  | none => normalizeGithubRecord rt job.record

/-- `demoFault?.id`, when it is truthy. -/
def demoFaultId (job : IngestJobData) : Option String :=
  match job.demoFault with
  | some id => if id = "" then none else some id
  | none => none

/-- `DeadLetter.exists({ tenantId, 'payload.demoFault.id': id })`. -/
def alreadyDeadLettered (job : IngestJobData) (id : String) (deadLetters : List DeadLetter) :
    Bool :=
  -- a dead letter of any job of the tenant's counts
  deadLetters.any fun doc => doc.tenantId = job.tenantId && doc.payload.demoFault = some id

/-- The error of the self-healing demo fault. -/
def demoFaultError (rt : Runtime) : JsVal :=
  transientError rt "injected transient outage (demo) — recovers after dead-lettering" 503

/-- What one attempt meets besides the job and the collections: the external toggle, and the
    faults of its store calls. -/
structure AttemptEnv extends Moment where
  failMode : JsVal
  existsFault : Option JsVal
  ingestFaults : IngestOp → Option JsVal
  createFault : Option JsVal
  dlqAddFault : Option JsVal
  newId : ObjectId

/-- The `try` block of `ingestProcessor`. -/
def ingestTry (rt : Runtime) (job : IngestJobData) (env : AttemptEnv)
    (deadLetters : List DeadLetter) (spine : Spine) : Except JsVal IngestResult × Spine :=
  let run : Except JsVal IngestResult × Spine :=
    match ingestInput rt env.failMode job with
    | .error err => (.error err, spine)
    | .ok input => ingestEvent rt env.ingestFaults input (some job.tenantId) spine
  match demoFaultId job with
  | none => run
  | some id =>
    match env.existsFault with
    | some err => (.error err, spine)
    | none =>
      if alreadyDeadLettered job id deadLetters then run else (.error (demoFaultError rt), spine)

/-- The `catch` block of `ingestProcessor`: what it throws for the error it caught. -/
def rethrow (rt : Runtime) (now : Int) (err : JsVal) : JsVal :=
  match classifyError rt now err with
  -- the constructor of the wrapper may itself throw
  | ⟨.logical, _⟩ =>
    match unrecoverableError rt err with
    | .ok unrecoverable => unrecoverable
    | .error typeError => typeError
  -- the caught error is thrown on, with the delay written into it where it has none
  | ⟨.transient, retryAfterMs⟩ =>
    if !retryAfterMs.isNullish && (err.get "retryAfterMs").isNullish then
      .obj (JsVal.assign err.fields "retryAfterMs" retryAfterMs)
    else err

/-- What the worker's processor throws for an error that comes up while it processes a job:
    `ingestProcessor` has a `catch` block, the processors of the other two have none. -/
def QueueWorker.thrown (rt : Runtime) (now : Int) (err : JsVal) : QueueWorker → JsVal
  | .ingest => rethrow rt now err
  | .nangoSync | .reconcile => err

/-- `ingestProcessor(job, { failMode })`. -/
def ingestProcessor (rt : Runtime) (job : IngestJobData) (env : AttemptEnv)
    (deadLetters : List DeadLetter) (spine : Spine) : Except JsVal IngestResult × Spine :=
  match ingestTry rt job env deadLetters spine with
  | (.ok res, spine') => (.ok res, spine')
  | (.error err, spine') => (.error (rethrow rt env.now err), spine')

/-! ## Retry or dead letter -/

/-- `isTerminalFailure(job, err)`. -/
def isTerminalFailure (attempts attemptsMade : Nat) (err : JsVal) : Bool :=
  (err.get "name").isStr "UnrecoverableError" || attempts ≤ attemptsMade

/-- `buildDeadLetterDoc(job, err)` under a generated id. -/
def buildDeadLetterDoc (job : IngestJobData) (attemptsMade : Nat) (err : JsVal) (id : ObjectId)
    (now : Int) : DeadLetter where
  id := id
  tenantId := job.tenantId
  connectionId := job.connectionId
  syncRunId := job.syncRunId
  payload := job
  errorMessage := err.get "message"
  errorStack := err.get "stack"
  attemptsMade := attemptsMade
  failedAt := now
  replayedAt := none

/-- The dlq jobs `persistDeadLetter` parks: the document's id and the payload. -/
abbrev DlqJob := ObjectId × IngestJobData

/-- `persistDeadLetter(job, err, { dlqQueue })`: the document, then the dlq job. An error
    of either call ends it. -/
def persistDeadLetter (job : IngestJobData) (attemptsMade : Nat) (err : JsVal) (env : AttemptEnv)
    (deadLetters : List DeadLetter) (dlq : List DlqJob) :
    Except JsVal DeadLetter × List DeadLetter × List DlqJob :=
  match env.createFault with
  | some fault => (.error fault, deadLetters, dlq)
  | none =>
    let doc := buildDeadLetterDoc job attemptsMade err env.newId env.now
    match env.dlqAddFault with
    -- the document is stored all the same
    | some fault => (.error fault, deadLetters ++ [doc.stored], dlq)
    -- the queue is given the data itself
    | none => (.ok doc, deadLetters ++ [doc.stored], dlq ++ [(doc.id, job)])

/-- The worker's `failed` handler: it persists terminal failures, and only logs an error of
    doing so. -/
def onFailed (job : IngestJobData) (attempts attemptsMade : Nat) (err : JsVal) (env : AttemptEnv)
    (deadLetters : List DeadLetter) (dlq : List DlqJob) : List DeadLetter × List DlqJob :=
  if isTerminalFailure attempts attemptsMade err then
    (persistDeadLetter job attemptsMade err env deadLetters dlq).2
  else (deadLetters, dlq)

/-! ## The life of a job that runs alone -/

/-- Where a job stands with the queue. -/
inductive JobStatus where
  | waiting
  | completed (res : IngestResult)
  | failed
deriving DecidableEq, Repr

/-- Whether the queue has given the job up. -/
def JobStatus.isFailed : JobStatus → Bool
  | .failed => true
  | _ => false

/-- A job between two attempts, with the collections it works on. -/
structure JobRun where
  status : JobStatus
  attemptsMade : Nat
  spine : Spine
  deadLetters : List DeadLetter
  dlq : List DlqJob

/-- One attempt: the processor, and for one that throws the queue's verdict and the
    `failed` handler. A job that is not waiting is not attempted. -/
def JobRun.attempt (rt : Runtime) (job : IngestJobData) (attempts : Nat) (env : AttemptEnv)
    (run : JobRun) : JobRun :=
  match run.status with
  | .waiting =>
    match ingestProcessor rt job env run.deadLetters run.spine with
    | (.ok res, spine') => { run with status := .completed res, spine := spine' }
    | (.error err, spine') =>
      -- BullMQ counts the attempt before the handler sees the job
      let attemptsMade := run.attemptsMade + 1
      let (deadLetters, dlq) :=
        onFailed job attempts attemptsMade err env run.deadLetters run.dlq
      let retries := bullmqRetries attempts attemptsMade err && !env.givesUp attemptsMade err
      { status := if retries then .waiting else .failed
        attemptsMade, spine := spine', deadLetters, dlq }
  | _ => run

/-- The state after the first `n` attempts of a script. -/
def JobRun.after (rt : Runtime) (job : IngestJobData) (attempts : Nat) (script : Nat → AttemptEnv)
    (run : JobRun) : Nat → JobRun
  | 0 => run
  | n + 1 => (JobRun.after rt job attempts script run n).attempt rt job attempts (script n)

end Shiplog
