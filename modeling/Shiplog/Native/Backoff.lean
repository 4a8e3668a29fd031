import Shiplog.Native.Js

/-!
# Backoff

`src/queue/backoff.ts`, and the `backoffStrategy` that `src/queue/ingestWorker.ts`,
`src/queue/nangoSyncWorker.ts` and `src/queue/reconcileWorker.ts` repeat. The random number
is an argument.
-/

namespace Shiplog

/-- `BackoffOptions` with its defaults; `rng` is the number drawn. -/
structure BackoffOptions where
  retryAfterMs : JsVal
  baseMs : Rat := 1000
  factor : Rat := 2
  jitterRatio : Rat := 1 / 4
  capMs : Rat := 30000
  rng : Rat

/-- `computeBackoff(attemptsMade, options)`: a number, or whatever `retryAfterMs` is. -/
def computeBackoff (attemptsMade : Nat) (options : BackoffOptions) : JsVal :=
  -- a server hint is taken as it is, without the cap
  if !options.retryAfterMs.isNullish then options.retryAfterMs
  else
    -- every operation rounds, and may overflow
    let exponential := (JsVal.num options.baseMs).times
      (.number (options.factor ^ ((attemptsMade : Int) - 1)))
    -- the jitter only lengthens the delay
    let jitter := ((JsVal.num options.rng).times exponential).times (.num options.jitterRatio)
    (exponential.plus jitter).floor.capped options.capMs

/-- The three workers with a `backoffStrategy`. -/
inductive QueueWorker where
  | ingest
  | nangoSync
  | reconcile
deriving DecidableEq, Repr

namespace QueueWorker

/-- The worker's `backoffStrategy(attemptsMade, _type, err)`. -/
def backoffStrategy (baseMs rng : Rat) (attemptsMade : Nat) (err : JsVal) : QueueWorker → JsVal
  | .ingest => computeBackoff attemptsMade { baseMs, rng, retryAfterMs := err.get "retryAfterMs" }
  | .nangoSync =>
    computeBackoff attemptsMade { baseMs, rng, retryAfterMs := err.get "retryAfterMs" }
  | .reconcile =>
    computeBackoff attemptsMade { baseMs, rng, retryAfterMs := err.get "retryAfterMs" }

end QueueWorker

/-! ## A failed attempt -/

/-- What a failing attempt meets besides its error: the clock, the worker's `baseMs`, and the
    number drawn for the jitter. -/
structure Moment where
  now : Int
  baseMs : Rat := 1000
  rng : Rat

/-- BullMQ's rule for a failed attempt, up to the answer of the backoff strategy: the job is
    retried unless the error is an `UnrecoverableError` or the attempts are used up. -/
def bullmqRetries (attempts attemptsMade : Nat) (err : JsVal) : Bool :=
  !(err.get "name").isStr "UnrecoverableError" && attemptsMade < attempts

/-- BullMQ gives a job up whose backoff strategy answers `-1`. -/
def givesUp : JsVal → Bool
  | .num q => q = -1
  | _ => false

/-- Whether the ingest worker's strategy gives the job up after the attempt. -/
def Moment.givesUp (m : Moment) (attemptsMade : Nat) (err : JsVal) : Bool :=
  Shiplog.givesUp (QueueWorker.ingest.backoffStrategy m.baseMs m.rng attemptsMade err)

end Shiplog
