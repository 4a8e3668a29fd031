import Shiplog.ForStd.Except
import Shiplog.Native.IngestJob
import Shiplog.Spec.BackoffCorrect
import Shiplog.Spec.IngestCorrect
import Shiplog.Spec.StoredPayload

/-!
# The life of an ingest job

Four pieces decide what becomes of a failed attempt: the classifier, the wrapping into
`UnrecoverableError`, BullMQ's retry rule and `isTerminalFailure`. On an error that is not
itself named `UnrecoverableError` and whose message prints if it is logical (`Benign`) they
agree, and so a job runs until its first success, its first logical error or its last
attempt.

## Key results

- `isTerminalFailure_eq`: the handler's guard is the negation of the queue's retry rule
- `rethrow_logical` / `rethrow_transient`: the thrown error is unrecoverable exactly for
  logical errors
- `bullmqRetries_rethrow_iff`: so the queue retries the transient ones while attempts are left
- `ingestTry_cases`: an attempt ingests as if undisturbed, or fails and changes nothing
- `ingestJob_life`: the job stops in time, completed without a dead letter or failed with
  exactly one
-/

namespace Shiplog

/-! ## Benign errors -/

/-- `String(v)` is defined. -/
def Printable (rt : Runtime) (v : JsVal) : Prop := ∃ text, v.toStr rt = .ok text

/-- The error is not named `UnrecoverableError`, and can be wrapped into one where the
    classifier asks for that. -/
structure Benign (rt : Runtime) (now : Int) (err : JsVal) : Prop where
  name : (err.get "name").isStr "UnrecoverableError" = false
  message : (classifyError rt now err).kind = .logical → Printable rt (err.get "message")

/-- An error object with a fixed name and a string message. -/
private theorem benign_mkError (rt : Runtime) (now : Int) {name : String} (message : String)
    (h : name ≠ "UnrecoverableError") : Benign rt now (mkError rt name message) where
  name := by
    show (name == "UnrecoverableError") = false
    exact beq_eq_false_iff_ne.mpr h
  message _ := ⟨message, rfl⟩

theorem benign_zodError (rt : Runtime) (now : Int) (paths : List String) :
    Benign rt now (NormalizedEventSchema.zodError rt paths) where
  name := rfl
  message _ := ⟨_, rfl⟩

private theorem benign_demoFaultError (rt : Runtime) (now : Int) :
    Benign rt now (demoFaultError rt) where
  name := rfl
  message _ := ⟨_, rfl⟩

private theorem benign_injectedFault {rt : Runtime} {now : Int} {injected err : JsVal}
    (h : injectedFault rt injected = some err) : Benign rt now err := by
  unfold injectedFault at h
  split at h
  · cases h; exact ⟨rfl, fun _ => ⟨_, rfl⟩⟩
  · split at h
    · cases h; exact ⟨rfl, fun _ => ⟨_, rfl⟩⟩
    · split at h
      · cases h; exact ⟨rfl, fun _ => ⟨_, rfl⟩⟩
      · exact nomatch h

/-- What a failed conversion throws: an error object of one of two classes of the language. -/
def IsPlainError (rt : Runtime) (err : JsVal) : Prop :=
  ∃ name message, (name = "TypeError" ∨ name = "Error") ∧ err = mkError rt name message

private theorem isPlainError_typeError (rt : Runtime) (message : String) :
    IsPlainError rt (mkError rt "TypeError" message) :=
  ⟨_, message, Or.inl rfl, rfl⟩

theorem IsPlainError.benign {rt : Runtime} {err : JsVal} (h : IsPlainError rt err) (now : Int) :
    Benign rt now err := by
  obtain ⟨name, message, hname, rfl⟩ := h
  rcases hname with rfl | rfl
  · exact benign_mkError rt now message (by decide)
  · exact benign_mkError rt now message (by decide)

mutual

/-- The only error of a string conversion is a `TypeError`. -/
theorem toStr_error (rt : Runtime) :
    ∀ (v : JsVal) {err : JsVal}, v.toStr rt = .error err → IsPlainError rt err
  | .undefined, _, h => nomatch h
  | .null, _, h => nomatch h
  | .bool _, _, h => nomatch h
  | .num _, _, h => nomatch h
  | .nonFinite _, _, h => nomatch h
  | .str _, _, h => nomatch h
  | .date _, _, h => nomatch h
  | .arr xs, err, h => by
    simp only [JsVal.toStr] at h
    cases hitems : JsVal.itemStrs rt xs with
    | ok items => rw [hitems] at h; exact nomatch h
    | error e =>
      rw [hitems] at h
      cases h
      exact itemStrs_error rt xs hitems
  | .obj fields, err, h => by
    simp only [JsVal.toStr] at h
    split at h
    · cases h; exact isPlainError_typeError rt _
    · exact nomatch h

private theorem itemStrs_error (rt : Runtime) :
    ∀ (xs : List JsVal) {err : JsVal}, JsVal.itemStrs rt xs = .error err → IsPlainError rt err
  | [], _, h => nomatch h
  | x :: xs, err, h => by
    simp only [JsVal.itemStrs] at h
    split at h
    · exact nomatch h
    · next hx =>
      cases h
      split at hx
      · exact nomatch hx
      · exact toStr_error rt x hx
    · next hxs _ => cases h; exact itemStrs_error rt xs hxs

end

private theorem newDate_error {rt : Runtime} {v err : JsVal} (h : newDate rt v = .error err) :
    IsPlainError rt err := by
  cases v with
  | arr xs =>
    simp only [newDate] at h
    split at h
    · cases h
    · next e hs =>
      cases h
      exact toStr_error rt _ hs
  | obj fields =>
    simp only [newDate] at h
    split at h
    · cases h
    · next e hs =>
      cases h
      exact toStr_error rt _ hs
  | _ => cases h

private theorem firstLine_error {rt : Runtime} {v err : JsVal} (h : firstLine rt v = .error err) :
    IsPlainError rt err := by
  unfold firstLine at h
  split at h
  · exact nomatch h
  · cases h; exact isPlainError_typeError rt _

/-- Whatever the normalizer throws is such an error. -/
theorem normalize_error {rt : Runtime} {record : Option NangoRecord} {err : JsVal}
    (h : normalizeGithubRecord rt record = .error err) : IsPlainError rt err := by
  unfold normalizeGithubRecord at h
  -- each normalizer throws in one of its conversions, if at all
  split at h
  · unfold normalizeIssue at h
    rcases Except.bind_error h with h | ⟨_, -, h⟩
    · exact toStr_error rt _ h
    rcases Except.bind_error h with h | ⟨_, -, h⟩
    · exact newDate_error h
    · exact nomatch h
  · unfold normalizePullRequest at h
    rcases Except.bind_error h with h | ⟨_, -, h⟩
    · exact toStr_error rt _ h
    rcases Except.bind_error h with h | ⟨_, -, h⟩
    · exact newDate_error h
    · exact nomatch h
  · unfold normalizeCommit at h
    rcases Except.bind_error h with h | ⟨_, -, h⟩
    · exact toStr_error rt _ h
    rcases Except.bind_error h with h | ⟨_, -, h⟩
    · exact firstLine_error h
    rcases Except.bind_error h with h | ⟨_, -, h⟩
    · exact newDate_error h
    · exact nomatch h
  · rcases Except.bind_error h with h | ⟨_, -, h⟩
    · exact toStr_error rt _ h
    · cases h; exact ⟨_, _, Or.inr rfl, rfl⟩

private theorem benign_ingestInput {rt : Runtime} {now : Int} {failMode : JsVal}
    {job : IngestJobData} {err : JsVal} (h : ingestInput rt failMode job = .error err) :
    Benign rt now err := by
  unfold ingestInput at h
  split at h
  · next hinj => cases h; exact benign_injectedFault hinj
  · exact (normalize_error h).benign now

/-- The schema throws nothing but its own error. -/
theorem parse_error {rt : Runtime} {input err : JsVal}
    (h : NormalizedEventSchema.parse rt input = .error err) :
    ∃ paths, err = NormalizedEventSchema.zodError rt paths := by
  unfold NormalizedEventSchema.parse at h
  split at h
  · split at h
    · exact nomatch h
    · exact ⟨_, (Except.error.inj h).symm⟩
  · split at h
    · exact nomatch h
    · exact ⟨_, (Except.error.inj h).symm⟩
  · exact ⟨_, (Except.error.inj h).symm⟩

private theorem benign_prepare {rt : Runtime} {now : Int} {input : JsVal} {tenantId : ObjectId}
    {err : JsVal} (h : IngestCall.prepare rt input (some tenantId) = .error err) :
    Benign rt now err := by
  rw [IngestCall.prepare_some] at h
  cases hp : NormalizedEventSchema.parse rt input with
  | ok ev => rw [hp] at h; exact nomatch h
  | error e =>
    rw [hp] at h
    cases h
    obtain ⟨paths, rfl⟩ := parse_error hp
    exact benign_zodError rt now paths

/-! ## Four pieces that agree -/

/-- The handler writes a dead letter exactly when the queue does not retry. -/
theorem isTerminalFailure_eq (attempts attemptsMade : Nat) (err : JsVal) :
    isTerminalFailure attempts attemptsMade err = !bullmqRetries attempts attemptsMade err := by
  unfold isTerminalFailure bullmqRetries
  simp only [Bool.not_and, Bool.not_not, ← decide_not, Nat.not_lt]

/-- A logical error is rethrown as an `UnrecoverableError`. -/
theorem rethrow_logical {rt : Runtime} {now : Int} {err : JsVal} (hb : Benign rt now err)
    (h : (classifyError rt now err).kind = .logical) :
    ((rethrow rt now err).get "name").isStr "UnrecoverableError" = true := by
  have hwrap : ∃ e, unrecoverableError rt err = .ok e ∧
      (e.get "name").isStr "UnrecoverableError" = true := by
    obtain ⟨text, htext⟩ := hb.message h
    unfold unrecoverableError
    split
    · exact ⟨_, rfl, rfl⟩
    · rw [htext]
      exact ⟨_, rfl, rfl⟩
  obtain ⟨e, he, hname⟩ := hwrap
  unfold rethrow
  split
  · rw [he]
    exact hname
  · next hc =>
    rw [hc] at h
    exact nomatch h

/-- A transient error is rethrown under its own name. -/
theorem rethrow_transient {rt : Runtime} {now : Int} {err : JsVal} (hb : Benign rt now err)
    (h : (classifyError rt now err).kind = .transient) :
    ((rethrow rt now err).get "name").isStr "UnrecoverableError" = false := by
  unfold rethrow
  split
  · next hc =>
    rw [hc] at h
    exact nomatch h
  · split
    · -- only `retryAfterMs` is assigned
      rw [JsVal.get_obj, JsVal.lookup_assign_ne _ _ (by decide)]
      cases err with
      | obj fields => exact hb.name
      | _ => rfl
    · exact hb.name

/-- The queue retries a rethrown error exactly if it was classified as transient and an
    attempt is left. -/
theorem bullmqRetries_rethrow_iff {rt : Runtime} {now : Int} {err : JsVal} {attempts n : Nat}
    (hb : Benign rt now err) : bullmqRetries attempts n (rethrow rt now err) = true ↔
      (classifyError rt now err).kind = .transient ∧ n < attempts := by
  unfold bullmqRetries
  rw [Bool.and_eq_true, decide_eq_true_eq]
  cases h : (classifyError rt now err).kind with
  | logical => simp [rethrow_logical hb h]
  | transient => simp [rethrow_transient hb h]

/-! ## One attempt -/

/-- The store call of an attempt that throws this error. -/
def AttemptEnv.Throws (env : AttemptEnv) (err : JsVal) : Prop :=
  env.existsFault = some err ∨ ∃ op, env.ingestFaults op = some err

/-- A call met by faults, of which a duplicate-key error only where the key is taken, fails
    with one of them or runs as if undisturbed. -/
theorem IngestCall.commit_cases {c : IngestCall} {faults : IngestOp → Option JsVal}
    {spine : Spine} (hdup : ∀ err, faults .updateOne = some err → isDuplicateKey err = true →
      c.keyTaken spine = true) :
    (∃ op err, faults op = some err ∧ c.commit faults spine = (.error err, spine)) ∨
      c.commit faults spine = c.commit noFaults spine := by
  simp only [commit, noFaults]
  cases h1 : faults .exists_ with
  | some err => exact Or.inl ⟨_, err, h1, rfl⟩
  | none =>
    by_cases hex : c.keyExists spine = true
    · simp only [if_pos hex, or_true]
    cases h2 : faults .findOne with
    | some err => exact Or.inl ⟨_, err, h2, by simp only [if_neg hex]⟩
    | none =>
      cases hcl : c.classify spine with
      | none => simp only [or_true]
      | some status =>
        cases h3 : faults .updateOne with
        | none => simp only [or_true]
        | some err =>
          by_cases herr : isDuplicateKey err = true
          · -- E11000 only answers what the upsert would have
            right
            simp only [if_pos herr, if_pos (hdup err h3 herr)]
          · left
            exact ⟨_, err, h3, by simp only [if_neg hex, if_neg herr]⟩

/-- The unique index raises an E11000 at the upsert of an attempt only for a key it holds. -/
def AttemptEnv.DuplicateKeyStored (rt : Runtime) (job : IngestJobData) (spine : Spine)
    (env : AttemptEnv) : Prop :=
  ∀ err, env.ingestFaults .updateOne = some err → isDuplicateKey err = true →
    ∀ input c, ingestInput rt env.failMode job = .ok input →
      IngestCall.prepare rt input (some job.tenantId) = .ok c → c.keyTaken spine = true

/-- BullMQ's contract as the job's life assumes it: no error of an attempt makes the backoff
    strategy give the job up. -/
def AttemptEnv.NeverGivesUp (rt : Runtime) (job : IngestJobData) (spine : Spine)
    (env : AttemptEnv) : Prop :=
  ∀ deadLetters attemptsMade err, (ingestProcessor rt job env deadLetters spine).1 = .error err →
    env.givesUp attemptsMade err = false

/-- The faults of an attempt as the job's life assumes them: dead letters can be written,
    errors are benign, an E11000 comes from the index, and BullMQ keeps its contract. -/
structure AttemptEnv.Admissible (rt : Runtime) (job : IngestJobData) (spine : Spine)
    (env : AttemptEnv) : Prop where
  create : env.createFault = none
  benign : ∀ err, env.Throws err → Benign rt env.now err
  duplicateKey : env.DuplicateKeyStored rt job spine
  contract : env.NeverGivesUp rt job spine

/-- The outcome of a single successful ingest of the job's record. -/
def IngestsTo (rt : Runtime) (job : IngestJobData) (spine : Spine) (res : IngestResult)
    (spine' : Spine) : Prop :=
  ∃ input, normalizeGithubRecord rt job.record = .ok input ∧
    ingestEvent rt noFaults input (some job.tenantId) spine = (.ok res, spine')

/-- An attempt ingests the record as if undisturbed, or fails with a benign error and
    leaves the spine alone. -/
theorem ingestTry_cases {rt : Runtime} {job : IngestJobData} {env : AttemptEnv}
    {deadLetters : List DeadLetter} {spine : Spine} (hadm : env.Admissible rt job spine) :
    (∃ res spine', ingestTry rt job env deadLetters spine = (.ok res, spine') ∧
        IngestsTo rt job spine res spine') ∨
      ∃ err, ingestTry rt job env deadLetters spine = (.error err, spine) ∧
        Benign rt env.now err := by
  unfold ingestTry
  extract_lets run
  -- the part of the attempt after the demo fault
  have hrun : (∃ res spine', run = (.ok res, spine') ∧ IngestsTo rt job spine res spine') ∨
      ∃ err, run = (.error err, spine) ∧ Benign rt env.now err := by
    unfold run
    cases hin : ingestInput rt env.failMode job with
    | error err => exact Or.inr ⟨err, rfl, benign_ingestInput hin⟩
    | ok input =>
      have hnorm : normalizeGithubRecord rt job.record = .ok input := by
        unfold ingestInput at hin
        split at hin
        · cases hin
        · exact hin
      simp only [ingestEvent]
      cases hprep : IngestCall.prepare rt input (some job.tenantId) with
      | error err => exact Or.inr ⟨err, rfl, benign_prepare hprep⟩
      | ok c =>
        have hdup := fun err h3 herr => hadm.duplicateKey err h3 herr input c hin hprep
        rcases IngestCall.commit_cases hdup with ⟨op, err, hop, hc⟩ | hc
        · exact Or.inr ⟨err, hc, hadm.benign err (Or.inr ⟨op, hop⟩)⟩
        · left
          have hok := c.commit_noFaults spine
          refine ⟨_, _, hc.trans hok, input, hnorm, ?_⟩
          simp only [ingestEvent, hprep]
          exact hok
  cases demoFaultId job with
  | none => exact hrun
  | some id =>
    cases hex : env.existsFault with
    | some err => exact Or.inr ⟨err, rfl, hadm.benign err (Or.inl hex)⟩
    | none =>
      by_cases hdead : alreadyDeadLettered job id deadLetters = true
      · simp only [if_pos hdead]
        exact hrun
      · simp only [if_neg hdead]
        exact Or.inr ⟨_, rfl, benign_demoFaultError rt env.now⟩

/-- How the classifier judges the error of an attempt; `none` if it does not fail. -/
def attemptKind (rt : Runtime) (job : IngestJobData) (env : AttemptEnv)
    (deadLetters : List DeadLetter) (spine : Spine) : Option ErrorKind :=
  match (ingestTry rt job env deadLetters spine).1 with
  | .ok _ => none
  | .error err => some (classifyError rt env.now err).kind

/-! ## A script of attempts -/

section Life

variable (rt : Runtime) (job : IngestJobData) (attempts : Nat) (script : Nat → AttemptEnv)
  (spine₀ : Spine) (deadLetters₀ : List DeadLetter) (dlq₀ : List DlqJob)

/-- The job as it is enqueued. -/
def JobRun.enqueued : JobRun := ⟨.waiting, 0, spine₀, deadLetters₀, dlq₀⟩

/-- The state of the job after `n` attempts of the script. -/
abbrev runAfter (n : Nat) : JobRun :=
  JobRun.after rt job attempts script (.enqueued spine₀ deadLetters₀ dlq₀) n

/-- The `n`th attempt would fail with an error of this kind, or not fail. -/
abbrev kindOf (n : Nat) : Option ErrorKind :=
  attemptKind rt job (script n) deadLetters₀ spine₀

/-- The first `n` attempts have all failed with transient errors and the job waits for the
    next one. -/
structure StillWaiting (n : Nat) : Prop where
  state : runAfter rt job attempts script spine₀ deadLetters₀ dlq₀ n =
    ⟨.waiting, n, spine₀, deadLetters₀, dlq₀⟩
  transient : ∀ j < n, kindOf rt job script spine₀ deadLetters₀ j = some .transient

/-- The `n`th attempt is the last one: all before it failed with transient errors, and
    it completed the job without a dead letter, or failed it for good with one. -/
structure StoppedAfter (n : Nat) : Prop where
  transient : ∀ j, j + 1 < n → kindOf rt job script spine₀ deadLetters₀ j = some .transient
  stays : ∀ m, n ≤ m → runAfter rt job attempts script spine₀ deadLetters₀ dlq₀ m =
    runAfter rt job attempts script spine₀ deadLetters₀ dlq₀ n
  outcome : let run := runAfter rt job attempts script spine₀ deadLetters₀ dlq₀ n
    (∃ res, run.status = .completed res ∧ IngestsTo rt job spine₀ res run.spine ∧
      run.deadLetters = deadLetters₀) ∨
    (run.status = .failed ∧ run.spine = spine₀ ∧
      (kindOf rt job script spine₀ deadLetters₀ (n - 1) = some .logical ∨
        n = attempts ∧ kindOf rt job script spine₀ deadLetters₀ (n - 1) = some .transient) ∧
      ∃ doc, run.deadLetters = deadLetters₀ ++ [doc] ∧ doc.payload = job.stored ∧
        (job.storedWhole = true → doc.payload = job) ∧ doc.tenantId = job.tenantId ∧
        doc.attemptsMade = n)

variable {rt job attempts script spine₀ deadLetters₀ dlq₀}

/-- A job that is not waiting is never attempted again. -/
private theorem runAfter_of_not_waiting {n : Nat}
    (h : (runAfter rt job attempts script spine₀ deadLetters₀ dlq₀ n).status ≠ .waiting)
    {m : Nat} (hm : n ≤ m) :
    runAfter rt job attempts script spine₀ deadLetters₀ dlq₀ m =
      runAfter rt job attempts script spine₀ deadLetters₀ dlq₀ n := by
  induction m, hm using Nat.le_induction with
  | base => rfl
  | succ m _ ih =>
    show (runAfter rt job attempts script spine₀ deadLetters₀ dlq₀ m).attempt rt job attempts
      (script m) = _
    rw [ih]
    unfold JobRun.attempt
    split
    · next hw => exact absurd hw h
    · rfl

/-- An attempt that fails for good writes its dead letter, whatever the dlq queue does. -/
theorem onFailed_terminal {env : AttemptEnv} {attemptsMade : Nat} {err : JsVal}
    (hcreate : env.createFault = none)
    (h : bullmqRetries attempts attemptsMade err = false) :
    (onFailed job attempts attemptsMade err env deadLetters₀ dlq₀).1 =
      deadLetters₀ ++ [(buildDeadLetterDoc job attemptsMade err env.newId env.now).stored] := by
  unfold onFailed persistDeadLetter
  rw [isTerminalFailure_eq, h, hcreate]
  cases env.dlqAddFault with
  | none => rfl
  | some fault => rfl

/-- An attempt that will be retried leaves the dead letters alone. -/
theorem onFailed_retried {env : AttemptEnv} {attemptsMade : Nat} {err : JsVal}
    (h : bullmqRetries attempts attemptsMade err = true) :
    onFailed job attempts attemptsMade err env deadLetters₀ dlq₀ = (deadLetters₀, dlq₀) := by
  unfold onFailed
  rw [isTerminalFailure_eq, h]
  rfl

/-- A waiting job with attempts left stops with its next attempt, or goes on waiting with
    one attempt fewer left. -/
theorem StillWaiting.next {n : Nat} (hadm : (script n).Admissible rt job spine₀)
    (h : StillWaiting rt job attempts script spine₀ deadLetters₀ dlq₀ n) (hn : n < attempts) :
    StoppedAfter rt job attempts script spine₀ deadLetters₀ dlq₀ (n + 1) ∨
      StillWaiting rt job attempts script spine₀ deadLetters₀ dlq₀ (n + 1) ∧ n + 1 < attempts := by
  have hstep : runAfter rt job attempts script spine₀ deadLetters₀ dlq₀ (n + 1) =
      JobRun.attempt rt job attempts (script n) ⟨.waiting, n, spine₀, deadLetters₀, dlq₀⟩ := by
    rw [← h.state]
    rfl
  have hbefore : ∀ j, j + 1 < n + 1 →
      kindOf rt job script spine₀ deadLetters₀ j = some .transient :=
    fun j hj => h.transient j (by omega)
  have hcases := @ingestTry_cases rt job (script n) deadLetters₀ spine₀ hadm
  rcases hcases with ⟨res, spine', htry, hing⟩ | ⟨err, htry, hben⟩
  · -- the attempt succeeds
    have hproc : ingestProcessor rt job (script n) deadLetters₀ spine₀ = (.ok res, spine') := by
      unfold ingestProcessor
      rw [htry]
    have hrun : runAfter rt job attempts script spine₀ deadLetters₀ dlq₀ (n + 1) =
        ⟨.completed res, n, spine', deadLetters₀, dlq₀⟩ := by
      rw [hstep]
      simp only [JobRun.attempt, hproc]
    refine Or.inl ⟨hbefore, fun m hm => runAfter_of_not_waiting ?_ hm, Or.inl ⟨res, ?_⟩⟩
    · rw [hrun]
      exact nofun
    · rw [hrun]
      exact ⟨rfl, hing, rfl⟩
  · -- the attempt fails
    have hproc : ingestProcessor rt job (script n) deadLetters₀ spine₀ =
        (.error (rethrow rt (script n).now err), spine₀) := by
      unfold ingestProcessor
      rw [htry]
    have hkind : kindOf rt job script spine₀ deadLetters₀ n =
        some (classifyError rt (script n).now err).kind := by
      unfold kindOf attemptKind
      rw [htry]
    cases hretry : bullmqRetries attempts (n + 1) (rethrow rt (script n).now err) with
    | true =>
      -- the queue retries: the error was transient and an attempt is left
      right
      have hrun : runAfter rt job attempts script spine₀ deadLetters₀ dlq₀ (n + 1) =
          ⟨.waiting, n + 1, spine₀, deadLetters₀, dlq₀⟩ := by
        have hcontract := hadm.contract deadLetters₀ (n + 1) _ (congrArg Prod.fst hproc)
        rw [hstep]
        simp [JobRun.attempt, hproc, hretry, onFailed_retried hretry, hcontract]
      obtain ⟨htransient, hleft⟩ := (bullmqRetries_rethrow_iff hben).mp hretry
      refine ⟨⟨hrun, fun j hj => ?_⟩, hleft⟩
      rcases Nat.lt_succ_iff_lt_or_eq.mp hj with hj | rfl
      · exact h.transient j hj
      · rw [hkind, htransient]
    | false =>
      -- the queue gives the job up, and the handler sees that
      left
      have hrun : runAfter rt job attempts script spine₀ deadLetters₀ dlq₀ (n + 1) =
          ⟨.failed, n + 1, spine₀,
            (onFailed job attempts (n + 1) (rethrow rt (script n).now err) (script n)
              deadLetters₀ dlq₀).1,
            (onFailed job attempts (n + 1) (rethrow rt (script n).now err) (script n)
              deadLetters₀ dlq₀).2⟩ := by
        rw [hstep]
        simp [JobRun.attempt, hproc, hretry]
      have hkinds : kindOf rt job script spine₀ deadLetters₀ n = some .logical ∨
          n + 1 = attempts ∧ kindOf rt job script spine₀ deadLetters₀ n = some .transient := by
        have hstop : ¬ ((classifyError rt (script n).now err).kind = .transient ∧
            n + 1 < attempts) := by
          rw [← bullmqRetries_rethrow_iff hben, hretry]
          exact Bool.false_ne_true
        rw [hkind]
        cases hk : (classifyError rt (script n).now err).kind with
        | logical => exact Or.inl rfl
        | transient =>
          have hlast : ¬ n + 1 < attempts := fun hlt => hstop ⟨hk, hlt⟩
          exact Or.inr ⟨by omega, rfl⟩
      refine ⟨hbefore, fun m hm => runAfter_of_not_waiting ?_ hm, Or.inr ?_⟩
      · rw [hrun]
        exact nofun
      · rw [hrun]
        exact ⟨rfl, rfl, hkinds, _, onFailed_terminal hadm.create hretry, rfl,
          fun hwhole => job.stored_eq_self_iff.mpr hwhole, rfl, rfl⟩

/-- **The life of an ingest job.** A job with at least one attempt, run with no other job in
    between, under any script of admissible faults, stops after some number `n` of attempts
    that is at most its limit. All attempts before the last one failed with transient
    errors. It completes, the spine is the one a single successful ingest of its record
    produces and no dead letter is written; or it fails for good, at its first logical error
    or its last attempt, the spine is the initial one and exactly one dead letter is
    written, with the job as Mongoose stores it, which is the job itself if it is stored
    whole, as payload, and `n` as the number of attempts. -/
theorem ingestJob_life (hattempts : 1 ≤ attempts)
    (hadm : ∀ n, (script n).Admissible rt job spine₀) :
    ∃ n, 1 ≤ n ∧ n ≤ attempts ∧
      StoppedAfter rt job attempts script spine₀ deadLetters₀ dlq₀ n := by
  -- on the number of attempts already made
  have hgo : ∀ n, n < attempts →
      (∃ m, 1 ≤ m ∧ m ≤ n ∧ StoppedAfter rt job attempts script spine₀ deadLetters₀ dlq₀ m) ∨
        StillWaiting rt job attempts script spine₀ deadLetters₀ dlq₀ n := by
    intro n
    induction n with
    | zero => exact fun _ => Or.inr ⟨rfl, fun j hj => absurd hj (Nat.not_lt_zero j)⟩
    | succ n ih =>
      intro hn
      rcases ih (by omega) with ⟨m, hm1, hmn, hstop⟩ | hwait
      · exact Or.inl ⟨m, hm1, by omega, hstop⟩
      · rcases hwait.next (hadm n) (by omega) with hstop | ⟨hwait', -⟩
        · exact Or.inl ⟨n + 1, by omega, le_refl _, hstop⟩
        · exact Or.inr hwait'
  rcases hgo (attempts - 1) (by omega) with ⟨m, hm1, hmn, hstop⟩ | hwait
  · exact ⟨m, hm1, by omega, hstop⟩
  · rcases hwait.next (hadm _) (by omega) with hstop | ⟨-, hlt⟩
    · exact ⟨attempts - 1 + 1, by omega, by omega, hstop⟩
    · omega

end Life

/-! ## An outage that ends, and two faults outside the theorem -/

/-- An issue as Nango delivers it. -/
def issueRecord (updatedAt title : String) : NangoRecord where
  fields := [("id", .str "1"), ("_nango_metadata", .obj [("model", .str "GithubIssue")]),
    ("number", .num 1), ("user_login", .str "ann"), ("title", .str title),
    ("html_url", .str "https://example.test/1"), ("created_at", .str "2026-01-01"),
    ("updated_at", .str updatedAt)]

/-- The ingest job of an issue. -/
def issueJob : IngestJobData := { tenantId := tenantA, record := some (issueRecord "v1" "A") }

/-- The default settings, at the start of the clock. -/
def defaultMoment : Moment := { now := 0, rng := 0 }

/-- An attempt no store call of which fails. -/
def calmAttempt : AttemptEnv where
  toMoment := defaultMoment
  failMode := .undefined
  existsFault := none
  ingestFaults := noFaults
  createFault := none
  dlqAddFault := none
  newId := tenantB

/-- Two attempts during an outage, then calm. -/
def shortOutage (n : Nat) : AttemptEnv :=
  { calmAttempt with failMode := if n < 2 then .str "transient" else .undefined }

/-- An attempt under the default settings keeps the contract if its errors say nothing of
    giving up. -/
private theorem neverGivesUp_of_default {rt : Runtime} {job : IngestJobData} {spine : Spine}
    {env : AttemptEnv} (hbase : env.baseMs = 1000) (hrng : env.rng = 0)
    (h : ∀ deadLetters err, (ingestProcessor rt job env deadLetters spine).1 = .error err →
      err.get "retryAfterMs" ≠ .num (-1)) : env.NeverGivesUp rt job spine := by
  intro deadLetters attemptsMade err herr
  refine Moment.givesUp_eq_false ?_ (le_of_eq hrng.symm) (h deadLetters err herr)
  rw [hbase]
  norm_num

private theorem shortOutage_neverGivesUp (n : Nat) :
    (shortOutage n).NeverGivesUp plainRuntime issueJob [] := by
  refine neverGivesUp_of_default rfl rfl fun deadLetters err h => ?_
  unfold shortOutage at h
  by_cases hn : n < 2
  · rw [if_pos hn] at h
    cases h
    intro hra
    cases hra
  · rw [if_neg hn] at h
    cases h

theorem ingestJob_life_shortOutage :
    ∃ n, 1 ≤ n ∧ n ≤ 5 ∧ StoppedAfter plainRuntime issueJob 5 shortOutage [] [] [] n := by
  apply ingestJob_life (by decide)
  intro n
  constructor
  · rfl
  · intro err h
    rcases h with h | ⟨op, h⟩
    · exact nomatch h
    · exact nomatch h
  · intro err h
    exact nomatch h
  · exact shortOutage_neverGivesUp n

/-- The life of the jobs that satisfy `okJob`, the payload of a dead letter being the job's
    data, under any faults that satisfy `ok`; dead letters are written, no fault is named
    `UnrecoverableError` already, and BullMQ keeps its contract. -/
def LifeUnder (okJob : IngestJobData → Prop) (ok : JsVal → Prop) : Prop :=
  ∀ (job : IngestJobData) (attempts : Nat) (script : Nat → AttemptEnv) (spine₀ : Spine)
    (deadLetters₀ : List DeadLetter) (dlq₀ : List DlqJob), 1 ≤ attempts → okJob job →
    (∀ n, (script n).createFault = none) →
    (∀ n err, (script n).Throws err →
      (err.get "name").isStr "UnrecoverableError" = false ∧ ok err) →
    (∀ n, (script n).NeverGivesUp plainRuntime job spine₀) →
    ∃ n, 1 ≤ n ∧ n ≤ attempts ∧
      StoppedAfter plainRuntime job attempts script spine₀ deadLetters₀ dlq₀ n ∧
      ∀ doc, (runAfter plainRuntime job attempts script spine₀ deadLetters₀ dlq₀ n).deadLetters =
        deadLetters₀ ++ [doc] → doc.payload = job

theorem LifeUnder.mono {okJob okJob' : IngestJobData → Prop} {ok ok' : JsVal → Prop}
    (h : LifeUnder okJob ok) (hjob : ∀ job, okJob' job → okJob job)
    (hok : ∀ err, ok' err → ok err) : LifeUnder okJob' ok' := by
  intro job attempts script s d q hN hokJob hc hthrows hretried
  exact h job attempts script s d q hN (hjob job hokJob) hc
    (fun n err ht => ⟨(hthrows n err ht).1, hok err (hthrows n err ht).2⟩) hretried

/-- An E11000 without a row to match. -/
def strayDuplicateKey : JsVal := .obj [("code", .num 11000)]

/-- An error whose message has no string form. -/
def unprintableError : JsVal := .obj [("message", .obj [("toString", .null)])]

/-- The upsert throws an E11000 although the key is free. -/
def strayAttempt : AttemptEnv :=
  { calmAttempt with
    ingestFaults := fun op => if op = .updateOne then some strayDuplicateKey else none }

/-- The first store call throws the error whose message has no string form. -/
def unprintableAttempt : AttemptEnv :=
  { calmAttempt with
    ingestFaults := fun op => if op = .exists_ then some unprintableError else none }

/-- The job of a poisoned record with an empty object in it. -/
def hollowJob : IngestJobData :=
  { tenantId := tenantA, record := some ⟨(issueRecord "v1" "A").fields ++ [("user", .obj [])]⟩,
    poison := .str "logical" }

/-- A stray E11000 completes the job without its row. -/
private theorem not_lifeUnder_printable :
    ¬ LifeUnder (fun job => job.storedWhole = true)
      (fun err => Printable plainRuntime (err.get "message")) := by
  intro h
  obtain ⟨n, hn1, hn, hstop, -⟩ := h issueJob 1 (fun _ => strayAttempt) [] [] [] (le_refl 1)
    (by decide) (fun _ => rfl) (by
      intro _ err hthrows
      rcases hthrows with hthrows | ⟨op, hop⟩
      · exact nomatch hthrows
      · simp only [strayAttempt] at hop
        split at hop
        · cases hop
          exact ⟨rfl, _, rfl⟩
        · exact nomatch hop)
    (fun _ => neverGivesUp_of_default rfl rfl fun _ _ herr => nomatch herr)
  have hn : n = 1 := by omega
  subst hn
  -- the job is completed on the empty spine
  let run := runAfter plainRuntime issueJob 1 (fun _ => strayAttempt) [] [] [] 1
  have hspine : run.spine.length = 0 := by decide +kernel
  have hstatus : run.status.isFailed = false := by decide +kernel
  rcases hstop.outcome with ⟨res, -, ⟨input, hin, hing⟩, -⟩ | ⟨hfailed, -⟩
  · -- a successful ingest would have left a row
    have hgrown : ∀ input, normalizeGithubRecord plainRuntime issueJob.record = .ok input →
        (ingestEvent plainRuntime noFaults input (some issueJob.tenantId) []).2.length = 1 := by
      intro input hin
      cases hin
      decide +kernel
    have hlen := hgrown input hin
    rw [hing] at hlen
    exact absurd (hspine.symm.trans hlen) (by decide)
  · have hyes : run.status.isFailed = true := by rw [hfailed]; rfl
    rw [hstatus] at hyes
    exact nomatch hyes

/-- An unprintable logical error is retried, because wrapping it throws a `TypeError`. -/
private theorem not_lifeUnder_noDuplicateKey :
    ¬ LifeUnder (fun job => job.storedWhole = true) (fun err => isDuplicateKey err = false) := by
  intro h
  obtain ⟨n, hn1, hn, hstop, -⟩ := h issueJob 2 (fun _ => unprintableAttempt) [] [] [] (by decide)
    (by decide) (fun _ => rfl) (by
      intro _ err hthrows
      rcases hthrows with hthrows | ⟨op, hop⟩
      · exact nomatch hthrows
      · simp only [unprintableAttempt] at hop
        split at hop
        · cases hop
          exact ⟨rfl, rfl⟩
        · exact nomatch hop)
    (fun _ => neverGivesUp_of_default rfl rfl fun _ err herr => by
      cases herr
      intro hra
      cases hra)
  have hcases : n = 1 ∨ n = 2 := by omega
  rcases hcases with rfl | rfl
  · -- after the first attempt the job still waits
    have hwait : (runAfter plainRuntime issueJob 2 (fun _ => unprintableAttempt) [] [] [] 1).status
        = .waiting := by decide +kernel
    rcases hstop.outcome with ⟨res, hdone, -⟩ | ⟨hfailed, -⟩
    · rw [hwait] at hdone
      exact nomatch hdone
    · rw [hwait] at hfailed
      exact nomatch hfailed
  · -- although its first error was logical
    have hfirst := hstop.transient 0 (by decide)
    revert hfirst
    decide +kernel

/-- The dead letter of a record with an empty object lacks it, whatever the faults. -/
private theorem not_lifeUnder_hollow :
    ¬ LifeUnder (fun _ => True) (fun err =>
      Printable plainRuntime (err.get "message") ∧ isDuplicateKey err = false) := by
  intro h
  obtain ⟨n, hn1, hn, -, hpayload⟩ := h hollowJob 1 (fun _ => calmAttempt) [] [] [] (le_refl 1)
    trivial (fun _ => rfl) (by
      intro _ err hthrows
      rcases hthrows with hthrows | ⟨op, hop⟩
      · exact nomatch hthrows
      · exact nomatch hop)
    (fun _ => neverGivesUp_of_default rfl rfl fun _ err herr => by
      cases herr
      intro hra
      cases hra)
  have hn : n = 1 := by omega
  subst hn
  have hstored : hollowJob.stored = hollowJob := hpayload _ rfl
  rw [IngestJobData.stored_eq_self_iff] at hstored
  exact absurd hstored (by decide)

/-- So a job has its life under neither kind of fault alone, nor its data in the dead letter
    without the condition on it, and not under all of them. -/
theorem ingestJob_life_fails :
    ¬ LifeUnder (fun _ => True) (fun _ => True) ∧
      ¬ LifeUnder (fun job => job.storedWhole = true)
        (fun err => Printable plainRuntime (err.get "message")) ∧
      ¬ LifeUnder (fun job => job.storedWhole = true) (fun err => isDuplicateKey err = false) ∧
      ¬ LifeUnder (fun _ => True) (fun err =>
        Printable plainRuntime (err.get "message") ∧ isDuplicateKey err = false) := by
  refine ⟨fun h => ?_, not_lifeUnder_printable, not_lifeUnder_noDuplicateKey,
    not_lifeUnder_hollow⟩
  exact not_lifeUnder_hollow (h.mono (fun _ _ => trivial) fun _ _ => trivial)

end Shiplog
