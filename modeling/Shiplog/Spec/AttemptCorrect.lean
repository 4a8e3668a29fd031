import Shiplog.Native.Pipeline
import Shiplog.Spec.JobLife

/-!
# One attempt in two models

`JobRun.attempt` makes an attempt in one go, under faults that are given beforehand; the
pipeline makes it one store call at a time. For a job that runs alone the pipeline can do
what `JobRun.attempt` says, handler included.

## Key results

- `commit_reaches`: the store calls of `ingestEvent`
- `try_reaches`: the `try` block of the processor
- `handler_reaches`: the `failed` handler
- `attempt_reaches`: the whole attempt
-/

namespace Shiplog

/-- An answered operation of a call, as a step. -/
private theorem IngestRun.Step.of_next {rt : Runtime} {run run' : IngestRun} {spine spine' : Spine}
    (hlive : run.outcome = none) (h : run.next rt spine = (run', spine')) :
    IngestRun.Step rt run spine run' spine' := by
  have hstep := @IngestRun.Step.answer rt run spine hlive
  rw [h] at hstep
  exact hstep

/-- A read of a call throws. -/
private theorem IngestRun.Step.read_throws {rt : Runtime} {c : IngestCall} {pc : IngestPc}
    (spine : Spine) (err : JsVal) (h : (IngestRun.running c pc).op ≠ some .updateOne) :
    IngestRun.Step rt (.running c pc) spine (.finished (.error err)) spine := by
  cases pc with
  | exists_ => exact .throw (Option.some_ne_none _) fun hop => absurd hop h
  | findOne => exact .throw (Option.some_ne_none _) fun hop => absurd hop h
  | updateOne status => exact absurd rfl h

namespace JobProc

/-- Where an attempt stands that has come to a result or an error. -/
def settled (rt : Runtime) (m : Moment) (job : Job) (attemptsMade : Nat) :
    Except JsVal IngestResult → List JobProc
  | .ok res => [.completed job res]
  | .error err =>
    (throwing rt m job attemptsMade err).1 :: (throwing rt m job attemptsMade err).2

section Attempt

variable {rt : Runtime} {createThrows : Prop} (m : Moment) (job : Job) (attemptsMade : Nat)
  {s : Pipeline}

/-- A store call of `ingestEvent` that leaves something to do. -/
private theorem ingest_goes {run run' : IngestRun} (h : IngestRun.Step rt run s.spine run' s.spine)
    (hlive : run'.outcome = none) :
    (ingestPipeline rt createThrows).Step ([.ingesting job attemptsMade run], s)
      ([.ingesting job attemptsMade run'], s) := by
  -- neither the clock nor the strategy is asked
  have hstep := @Step.ingest rt createThrows job attemptsMade s _ _ _ ⟨0, 1000, 0⟩ h
  unfold afterIngest at hstep
  rw [hlive] at hstep
  exact .alone hstep

/-- A store call of `ingestEvent` that ends it. -/
private theorem ingest_ends {run : IngestRun} {o : Except JsVal IngestResult} {spine' : Spine}
    (h : IngestRun.Step rt run s.spine (.finished o) spine') :
    (ingestPipeline rt createThrows).Step ([.ingesting job attemptsMade run], s)
      (settled rt m job attemptsMade o, { s with spine := spine' }) := by
  have hstep := @Step.ingest rt createThrows job attemptsMade s _ _ _ m h
  cases o with
  | ok res => exact .alone hstep
  | error err => exact .alone hstep

/-- **The store calls of `ingestEvent`**, answered or throwing as `faults` says. -/
theorem commit_reaches {c : IngestCall} {faults : IngestOp → Option JsVal}
    (hdup : ∀ err, faults .updateOne = some err → isDuplicateKey err = true →
      c.keyTaken s.spine = true) :
    (ingestPipeline rt createThrows).Reaches
      ([.ingesting job attemptsMade (.running c .exists_)], s)
      (settled rt m job attemptsMade (c.commit faults s.spine).1,
        { s with spine := (c.commit faults s.spine).2 }) := by
  unfold IngestCall.commit
  cases h1 : faults .exists_ with
  | some err =>
    refine .single (ingest_ends m job attemptsMade (.read_throws _ err ?_))
    simp [IngestRun.op]
  | none =>
    by_cases hex : c.keyExists s.spine = true
    · -- an exact replay ends at the first call
      simp only [if_pos hex]
      refine .single (ingest_ends m job attemptsMade (.of_next rfl ?_))
      simp only [IngestRun.next, if_pos hex]
    have hfind : (ingestPipeline rt createThrows).Step
        ([.ingesting job attemptsMade (.running c .exists_)], s)
        ([.ingesting job attemptsMade (.running c .findOne)], s) := by
      refine ingest_goes job attemptsMade (.of_next rfl ?_) rfl
      simp only [IngestRun.next, if_neg hex]
    simp only [if_neg hex]
    cases h2 : faults .findOne with
    | some err =>
      refine .head hfind (.single (ingest_ends m job attemptsMade (.read_throws _ err ?_)))
      simp [IngestRun.op]
    | none =>
      cases hcl : c.classify s.spine with
      | none =>
        -- a suppressed version ends at the second
        refine .head hfind (.single (ingest_ends m job attemptsMade (.of_next rfl ?_)))
        simp only [IngestRun.next, hcl]
      | some status =>
        have hupdate : (ingestPipeline rt createThrows).Step
            ([.ingesting job attemptsMade (.running c .findOne)], s)
            ([.ingesting job attemptsMade (.running c (.updateOne status))], s) := by
          refine ingest_goes job attemptsMade (.of_next rfl ?_) rfl
          simp only [IngestRun.next, hcl]
        refine .head hfind (.head hupdate (.single ?_))
        cases h3 : faults .updateOne with
        | some err =>
          by_cases herr : isDuplicateKey err = true
          · have htaken := hdup err h3 herr
            have hstep := @IngestRun.Step.duplicateKey rt c status s.spine err htaken herr
            simp only [IngestRun.fault, if_pos herr] at hstep
            simp only [if_pos herr]
            exact ingest_ends m job attemptsMade hstep
          · rw [Bool.not_eq_true] at herr
            have hstep := @IngestRun.Step.throw rt (.running c (.updateOne status)) s.spine err
              (Option.some_ne_none _) fun _ => herr
            simp only [IngestRun.fault, herr] at hstep
            simp only [herr]
            exact ingest_ends m job attemptsMade hstep
        | none =>
          by_cases htaken : c.keyTaken s.spine = true
          · simp only [if_pos htaken]
            refine ingest_ends m job attemptsMade (.of_next rfl ?_)
            simp only [IngestRun.next, if_pos htaken]
          · simp only [if_neg htaken]
            refine ingest_ends m job attemptsMade (.of_next rfl ?_)
            simp only [IngestRun.next, if_neg htaken]

/-- From the first store call of `ingestEvent` on, or from an error before it. -/
private theorem enter_reaches {env : AttemptEnv}
    (hdup : env.DuplicateKeyStored rt job.data s.spine) {o : Except JsVal IngestResult}
    {spine' : Spine}
    (h : (match ingestInput rt env.failMode job.data with
      | .error err => (.error err, s.spine)
      | .ok input => ingestEvent rt env.ingestFaults input (some job.data.tenantId) s.spine) =
        (o, spine')) :
    (ingestPipeline rt createThrows).Reaches
      ((enterIngest rt m job attemptsMade env.failMode).1 ::
        (enterIngest rt m job attemptsMade env.failMode).2, s)
      (settled rt m job attemptsMade o, { s with spine := spine' }) := by
  unfold enterIngest
  cases hin : ingestInput rt env.failMode job.data with
  -- an injected fault or the normalizer throws before the store is asked
  | error err =>
    rw [hin] at h
    cases h
    exact .refl
  | ok input =>
    rw [hin] at h
    simp only [ingestEvent] at h
    simp only
    cases hprep : IngestCall.prepare rt input (some job.data.tenantId) with
    | error err =>
      rw [hprep] at h
      cases h
      refine .single (ingest_ends m job attemptsMade (.of_next rfl ?_))
      simp only [IngestRun.next, hprep]
    | ok c =>
      rw [hprep] at h
      -- the prologue is one step, the store calls are those of `commit`
      have hcall : (ingestPipeline rt createThrows).Step
          ([.ingesting job attemptsMade (.called ⟨input, some job.data.tenantId⟩)], s)
          ([.ingesting job attemptsMade (.running c .exists_)], s) := by
        refine ingest_goes job attemptsMade (.of_next rfl ?_) rfl
        simp only [IngestRun.next, hprep]
      have hcommit := @commit_reaches rt createThrows m job attemptsMade s c env.ingestFaults
        fun err h3 herr => hdup err h3 herr input c hin hprep
      have hc : c.commit env.ingestFaults s.spine = (o, spine') := h
      rw [hc] at hcommit
      exact .head hcall hcommit

/-- **The `try` block of the processor.** -/
theorem try_reaches {env : AttemptEnv}
    (hdup : env.DuplicateKeyStored rt job.data s.spine) {o : Except JsVal IngestResult}
    {spine' : Spine}
    (h : ingestTry rt job.data env s.deadLetters s.spine = (o, spine')) :
    (ingestPipeline rt createThrows).Reaches ([.waiting job attemptsMade], s)
      (settled rt env.toMoment job attemptsMade o, { s with spine := spine' }) := by
  unfold ingestTry at h
  cases hdemo : demoFaultId job.data with
  | none =>
    rw [hdemo] at h
    have hstart : (ingestPipeline rt createThrows).Step ([.waiting job attemptsMade], s) _ :=
      .alone (.start env.failMode env.toMoment hdemo)
    exact .head hstart (enter_reaches env.toMoment job attemptsMade hdup h)
  | some id =>
    rw [hdemo] at h
    have hstart : (ingestPipeline rt createThrows).Step ([.waiting job attemptsMade], s)
        ([.demoCheck job attemptsMade env.failMode id], s) :=
      .alone (.startDemo env.failMode hdemo)
    refine .head hstart ?_
    -- `DeadLetter.exists` is asked, and may throw itself
    cases hex : env.existsFault with
    | some err =>
      rw [hex] at h
      cases h
      exact .single (.alone (.demoThrow env.toMoment err))
    | none =>
      rw [hex] at h
      simp only at h
      cases hdead : alreadyDeadLettered job.data id s.deadLetters with
      | true =>
        rw [hdead, if_pos rfl] at h
        have hon : (ingestPipeline rt createThrows).Step
            ([.demoCheck job attemptsMade env.failMode id], s) _ :=
          .alone (.demoRecovered env.toMoment hdead)
        exact .head hon (enter_reaches env.toMoment job attemptsMade hdup h)
      | false =>
        rw [hdead, if_neg Bool.false_ne_true] at h
        cases h
        exact .single (.alone (.demoOutage env.toMoment hdead))

/-- **The `failed` handler**, beside the job if it is retried. -/
theorem handler_reaches (ps : List JobProc) (err : JsVal) (env : AttemptEnv) :
    (ingestPipeline rt True).Reaches (ps ++ [.failing job attemptsMade err], s)
      (ps ++ [.handled job attemptsMade err],
        { s with
          deadLetters := (onFailed job.data job.attempts attemptsMade err env s.deadLetters s.dlq).1
          dlq := (onFailed job.data job.attempts attemptsMade err env s.deadLetters
            s.dlq).2 }) := by
  unfold onFailed
  cases hterm : isTerminalFailure job.attempts attemptsMade err with
  | false => exact .single (.last ps (.log hterm))
  | true =>
    simp only [if_true, persistDeadLetter]
    cases env.createFault with
    | some fault => exact .single (.last ps (.createThrow trivial hterm))
    | none =>
      have hcreate : (ingestPipeline rt True).Step
          (ps ++ [.failing job attemptsMade err], s) _ :=
        .last ps (.create env.newId env.now hterm rfl)
      cases env.dlqAddFault with
      | some fault => exact .head hcreate (.single (.last ps .parkThrow))
      | none => exact .head hcreate (.single (.last ps .park))

end Attempt

/-- A job that is alone with its handlers, after an attempt that threw `err` if it failed. A
    job that is given up although the queue would retry its error has its own end. -/
def afterAttempt (job : Job) (err : JsVal) (run : JobRun) : List JobProc :=
  match run.status with
  | .waiting => [.waiting job run.attemptsMade, .handled job run.attemptsMade err]
  | .completed res => [.completed job res]
  | .failed =>
    if bullmqRetries job.attempts run.attemptsMade err then [.givenUp job run.attemptsMade err]
    else [.handled job run.attemptsMade err]

end JobProc

/-- **One attempt.** A job that runs alone in the pipeline can go where `JobRun.attempt`
    takes it under the same faults, of which an E11000 comes only from a key that is
    stored. -/
theorem attempt_reaches (rt : Runtime) (job : Job) (env : AttemptEnv) (attemptsMade : Nat)
    (s : Pipeline) (hdup : env.DuplicateKeyStored rt job.data s.spine) :
    let run := JobRun.attempt rt job.data job.attempts env
      ⟨.waiting, attemptsMade, s.spine, s.deadLetters, s.dlq⟩
    ∃ err, (ingestPipeline rt True).Reaches ([.waiting job attemptsMade], s)
      (JobProc.afterAttempt job err run, ⟨run.spine, run.deadLetters, run.dlq⟩) := by
  intro run
  obtain ⟨o, spine', htry⟩ : ∃ o spine',
      ingestTry rt job.data env s.deadLetters s.spine = (o, spine') := ⟨_, _, rfl⟩
  have hreach := @JobProc.try_reaches rt True job attemptsMade s env hdup o spine' htry
  cases o with
  | ok res =>
    have hrun : run = ⟨.completed res, attemptsMade, spine', s.deadLetters, s.dlq⟩ := by
      simp only [run, JobRun.attempt, ingestProcessor, htry]
    rw [hrun]
    exact ⟨.undefined, hreach⟩
  | error err =>
    refine ⟨rethrow rt env.now err, hreach.trans ?_⟩
    unfold JobProc.settled JobProc.throwing
    simp only
    cases hretry : bullmqRetries job.attempts (attemptsMade + 1) (rethrow rt env.now err) with
    | true =>
      have hkept := @onFailed_retried job.data job.attempts s.deadLetters s.dlq env
        (attemptsMade + 1) _ hretry
      cases hgivesUp : env.givesUp (attemptsMade + 1) (rethrow rt env.now err) with
      | true =>
        -- the strategy gives the job up, and its handler only logs
        have hrun : run = ⟨.failed, attemptsMade + 1, spine', s.deadLetters, s.dlq⟩ := by
          simp [run, JobRun.attempt, ingestProcessor, htry, hretry, hgivesUp, hkept]
        rw [hrun]
        simp only [JobProc.afterAttempt, hretry, if_true]
        exact .refl
      | false =>
        -- the job waits for its next attempt while the handler runs
        have hhandler := @JobProc.handler_reaches rt job (attemptsMade + 1)
          { s with spine := spine' } [.waiting job (attemptsMade + 1)] (rethrow rt env.now err) env
        simp only [hkept] at hhandler
        have hrun : run = ⟨.waiting, attemptsMade + 1, spine', s.deadLetters, s.dlq⟩ := by
          simp [run, JobRun.attempt, ingestProcessor, htry, hretry, hgivesUp, hkept]
        rw [hrun]
        exact hhandler
    | false =>
      have hhandler := @JobProc.handler_reaches rt job (attemptsMade + 1)
        { s with spine := spine' } [] (rethrow rt env.now err) env
      have hstatus : run.status = .failed ∧ run.attemptsMade = attemptsMade + 1 := by
        simp [run, JobRun.attempt, ingestProcessor, htry, hretry]
      unfold JobProc.afterAttempt
      rw [hstatus.1, hstatus.2]
      simp only [hretry, run, JobRun.attempt, ingestProcessor, htry]
      exact hhandler

end Shiplog
