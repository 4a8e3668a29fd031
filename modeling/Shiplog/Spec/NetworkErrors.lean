import Shiplog.Spec.JobLife

/-!
# Network failures of the store

The classifier reads the network code and the HTTP status off the thrown error itself. A
driver that wraps the socket error hands over an error of its own, with the code somewhere
along its `cause` chain, where the classifier does not look.

## Key results

- `rethrow_unrecoverable_iff`: which errors leave an attempt as an `UnrecoverableError`
- `classifyError_untagged_iff`: an error without a tag is transient exactly by its own
  network code or HTTP status
- `networkError_retried_iff`: which network failures of a store step are retried
-/

namespace Shiplog

variable {rt : Runtime} {now : Int} {err : JsVal}

/-! ## What leaves an attempt -/

/-- The name by which BullMQ knows an error that is not to be retried. -/
def IsUnrecoverable (err : JsVal) : Prop := (err.get "name").isStr "UnrecoverableError" = true

/-- `new UnrecoverableError(message)` is one, and comes about exactly for a printable message. -/
private theorem unrecoverableError_cases (rt : Runtime) (err : JsVal) :
    (Printable rt (err.get "message") ∧
      ∃ e, unrecoverableError rt err = .ok e ∧ IsUnrecoverable e) ∨
    (¬ Printable rt (err.get "message") ∧
      ∃ e, unrecoverableError rt err = .error e ∧ ¬ IsUnrecoverable e) := by
  unfold unrecoverableError
  cases hstr : (err.get "message").toStr rt with
  | ok text =>
    left
    refine ⟨⟨text, hstr⟩, ?_⟩
    split
    · exact ⟨_, rfl, rfl⟩
    · rw [hstr]
      exact ⟨_, rfl, rfl⟩
  | error e =>
    right
    constructor
    · rintro ⟨text, htext⟩
      rw [hstr] at htext
      cases htext
    · split
      · next hmsg =>
        -- a missing message always prints
        rw [hmsg] at hstr
        cases hstr
      · rw [hstr]
        refine ⟨e, rfl, ?_⟩
        rw [IsUnrecoverable, ((toStr_error rt _ hstr).benign 0).name]
        exact Bool.false_ne_true

/-- A logical error is wrapped, if its message prints; a transient one keeps its name. -/
theorem rethrow_unrecoverable_iff (rt : Runtime) (now : Int) (err : JsVal) :
    IsUnrecoverable (rethrow rt now err) ↔
      ((classifyError rt now err).kind = .logical ∧ Printable rt (err.get "message")) ∨
        ((classifyError rt now err).kind = .transient ∧ IsUnrecoverable err) := by
  unfold rethrow
  split
  · next retryAfterMs hc =>
    rw [hc]
    rcases unrecoverableError_cases rt err with ⟨hprint, e, he, hname⟩ | ⟨hprint, e, he, hname⟩
    · simp [he, hname, hprint]
    · simp [he, hname, hprint]
  · next retryAfterMs hc =>
    rw [hc]
    have hname : ∀ v, IsUnrecoverable (.obj (JsVal.assign err.fields "retryAfterMs" v)) ↔
        IsUnrecoverable err := by
      intro v
      unfold IsUnrecoverable
      rw [JsVal.get_obj, JsVal.lookup_assign_ne _ _ (by decide)]
      cases err <;> rfl
    split
    · simp [hname]
    · simp

/-! ## Errors without a tag -/

/-- The error carries no explicit kind and is no schema error. -/
structure Untagged (err : JsVal) : Prop where
  transient : (err.get "kind").isStr "transient" = false
  logical : (err.get "kind").isStr "logical" = false
  zod : (err.get "name").isStr "ZodError" = false

/-- The HTTP status that is worth a retry: rate limited, or the server's own failure. -/
def RetryableStatus (v : JsVal) : Prop :=
  ∃ status, v = .num status ∧ (status = 429 ∨ 500 ≤ status ∧ status ≤ 599)

/-- What the classifier calls transient: a network code or such a status, on the error
    itself. -/
def OwnEvidence (err : JsVal) : Prop :=
  isNetworkCode (err.get "code") = true ∨
    RetryableStatus ((err.get "statusCode").coalesce (err.get "status"))

/-- Nothing falsy has fields. -/
theorem get_of_not_truthy (h : err.truthy = false) (key : String) : err.get key = .undefined := by
  cases err with
  | obj fields => cases h
  | _ => rfl

/-- **Without a tag** an error is transient exactly by its own evidence. -/
theorem classifyError_untagged_iff (hu : Untagged err) :
    (classifyError rt now err).kind = .transient ↔ OwnEvidence err := by
  unfold classifyError OwnEvidence RetryableStatus
  by_cases htruthy : err.truthy = true
  · simp only [htruthy, hu.transient, hu.logical, hu.zod, Bool.not_true, Bool.false_eq_true,
      if_false]
    by_cases hcode : isNetworkCode (err.get "code") = true
    · simp [hcode]
    · simp only [hcode, Bool.false_eq_true, if_false, false_or]
      cases (err.get "statusCode").coalesce (err.get "status") with
      | num status =>
        simp only [JsVal.num.injEq, exists_eq_left']
        by_cases h429 : status = 429
        · simp [h429]
        · by_cases h5xx : 500 ≤ status ∧ status ≤ 599
          · simp [h429, h5xx]
          · simp [h429, h5xx]
      | _ => simp
  · rw [Bool.not_eq_true] at htruthy
    simp [htruthy, get_of_not_truthy htruthy, isNetworkCode, JsVal.coalesce, JsVal.isNullish]

/-! ## Network failures -/

/-- The error carries a network code, itself or along its chain of causes. -/
inductive CarriesNetworkCode : JsVal → Prop where
  | own {err : JsVal} (h : isNetworkCode (err.get "code") = true) : CarriesNetworkCode err
  | cause {err : JsVal} (h : CarriesNetworkCode (err.get "cause")) : CarriesNetworkCode err

/-- The call comes to this store step: those before it answer, and their answers do not end
    it. -/
def IngestCall.ComesTo (c : IngestCall) (faults : IngestOp → Option JsVal) (spine : Spine) :
    IngestOp → Prop
  | .exists_ => True
  | .findOne => faults .exists_ = none ∧ c.keyExists spine = false
  | .updateOne => faults .exists_ = none ∧ c.keyExists spine = false ∧ faults .findOne = none ∧
    ∃ status, c.classify spine = some status

/-- To `ingestEvent` an E11000 of the upsert is a lost race, whatever its cause. -/
def Swallowed (op : IngestOp) (err : JsVal) : Prop := op = .updateOne ∧ isDuplicateKey err = true

/-- A store step that throws ends the call with its error, unless that is swallowed. -/
private theorem IngestCall.commit_of_fault {c : IngestCall} {faults : IngestOp → Option JsVal}
    {spine : Spine} {op : IngestOp} (h : c.ComesTo faults spine op) (hf : faults op = some err) :
    (Swallowed op err → c.commit faults spine = (.ok (c.result .unchanged), spine)) ∧
      (¬ Swallowed op err → c.commit faults spine = (.error err, spine)) := by
  unfold Swallowed IngestCall.commit
  cases op with
  | exists_ => simp [hf]
  | findOne =>
    obtain ⟨hexists, hkey⟩ := h
    simp [hexists, hkey, hf]
  | updateOne =>
    obtain ⟨hexists, hkey, hfind, status, hstatus⟩ := h
    cases hdup : isDuplicateKey err with
    | true => simp [hexists, hkey, hfind, hstatus, hf, hdup]
    | false => simp [hexists, hkey, hfind, hstatus, hf, hdup]

/-- The attempt comes to a store step of its `ingestEvent` call that throws this error, a
    network failure without a tag. -/
structure StoreNetworkError (rt : Runtime) (job : IngestJobData) (env : AttemptEnv)
    (deadLetters : List DeadLetter) (spine : Spine) (op : IngestOp) (err : JsVal) : Prop extends
    Untagged err where
  demoFault : ∀ id, demoFaultId job = some id →
    env.existsFault = none ∧ alreadyDeadLettered job id deadLetters = true
  comesTo : ∃ input c, ingestInput rt env.failMode job = .ok input ∧
    IngestCall.prepare rt input (some job.tenantId) = .ok c ∧
    c.ComesTo env.ingestFaults spine op
  thrown : env.ingestFaults op = some err
  carries : CarriesNetworkCode err

/-- The `try` block ends with the error, unless `ingestEvent` swallows it. -/
private theorem StoreNetworkError.tried {job : IngestJobData} {env : AttemptEnv}
    {deadLetters : List DeadLetter} {spine : Spine} {op : IngestOp}
    (h : StoreNetworkError rt job env deadLetters spine op err) :
    (Swallowed op err → ∃ res, (ingestTry rt job env deadLetters spine).1 = .ok res) ∧
      (¬ Swallowed op err → (ingestTry rt job env deadLetters spine).1 = .error err) := by
  obtain ⟨input, c, hinput, hprepare, hcomes⟩ := h.comesTo
  obtain ⟨hswallowed, hthrown⟩ := IngestCall.commit_of_fault hcomes h.thrown
  have hrun : ingestTry rt job env deadLetters spine = c.commit env.ingestFaults spine := by
    unfold ingestTry
    cases hid : demoFaultId job with
    | none => simp only [hinput, ingestEvent, hprepare]
    | some id =>
      obtain ⟨hexists, hdead⟩ := h.demoFault id hid
      simp only [hexists, hdead, hinput, ingestEvent, hprepare, if_true]
  rw [hrun]
  constructor
  · intro hs
    rw [hswallowed hs]
    exact ⟨_, rfl⟩
  · intro hs
    rw [hthrown hs]

/-- The attempt throws an error that is not an `UnrecoverableError`: while attempts remain
    the queue retries the job, and no dead letter is written. -/
def Retried (rt : Runtime) (job : IngestJobData) (env : AttemptEnv)
    (deadLetters : List DeadLetter) (spine : Spine) : Prop :=
  ∃ e, (ingestProcessor rt job env deadLetters spine).1 = .error e ∧ ¬ IsUnrecoverable e ∧
    ∀ attempts attemptsMade, attemptsMade < attempts →
      bullmqRetries attempts attemptsMade e = true ∧
      ∀ dlq, onFailed job attempts attemptsMade e env deadLetters dlq = (deadLetters, dlq)

/-- The processor throws what its `catch` block makes of the error. -/
private theorem ingestProcessor_of_error {job : IngestJobData} {env : AttemptEnv}
    {deadLetters : List DeadLetter} {spine : Spine}
    (h : (ingestTry rt job env deadLetters spine).1 = .error err) :
    (ingestProcessor rt job env deadLetters spine).1 = .error (rethrow rt env.now err) := by
  unfold ingestProcessor
  split
  · next res spine' hrun =>
    rw [hrun] at h
    cases h
  · next e spine' hrun =>
    rw [hrun] at h
    cases h
    rfl

/-- It returns what its `try` block returns. -/
private theorem ingestProcessor_of_ok {job : IngestJobData} {env : AttemptEnv}
    {deadLetters : List DeadLetter} {spine : Spine} {res : IngestResult}
    (h : (ingestTry rt job env deadLetters spine).1 = .ok res) :
    (ingestProcessor rt job env deadLetters spine).1 = .ok res := by
  unfold ingestProcessor
  split
  · next res' spine' hrun =>
    rw [hrun] at h
    exact h
  · next e spine' hrun =>
    rw [hrun] at h
    cases h

/-- A failed attempt is retried exactly if what it throws is not unrecoverable. -/
private theorem retried_iff {job : IngestJobData} {env : AttemptEnv} {deadLetters : List DeadLetter}
    {spine : Spine} (h : (ingestTry rt job env deadLetters spine).1 = .error err) :
    Retried rt job env deadLetters spine ↔ ¬ IsUnrecoverable (rethrow rt env.now err) := by
  rw [Retried, ingestProcessor_of_error h]
  constructor
  · rintro ⟨e, he, hname, -⟩
    rw [Except.error.inj he]
    exact hname
  · intro hname
    refine ⟨_, rfl, hname, fun attempts attemptsMade hlt => ?_⟩
    have hretry : bullmqRetries attempts attemptsMade (rethrow rt env.now err) = true := by
      unfold IsUnrecoverable at hname
      simp [bullmqRetries, hname, hlt]
    refine ⟨hretry, fun dlq => ?_⟩
    unfold onFailed
    rw [isTerminalFailure_eq, hretry]
    rfl

/-- **Network failures.** A network failure thrown by a store step of an ingest job is
    retried while attempts remain, if and only if it is not swallowed as a lost race; and the
    error itself carries a network code or a retryable HTTP status and is not named
    `UnrecoverableError`, or it carries neither, and its message has no string form to
    wrap. -/
theorem networkError_retried_iff {job : IngestJobData} {env : AttemptEnv}
    {deadLetters : List DeadLetter} {spine : Spine} {op : IngestOp}
    (h : StoreNetworkError rt job env deadLetters spine op err) :
    Retried rt job env deadLetters spine ↔
      ¬ Swallowed op err ∧
        ((OwnEvidence err ∧ ¬ IsUnrecoverable err) ∨
          (¬ OwnEvidence err ∧ ¬ Printable rt (err.get "message"))) := by
  obtain ⟨hswallowed, hthrown⟩ := h.tried
  by_cases hs : Swallowed op err
  · -- the attempt succeeds
    have hnot : ¬ Retried rt job env deadLetters spine := by
      rintro ⟨e, he, -⟩
      obtain ⟨res, hres⟩ := hswallowed hs
      rw [ingestProcessor_of_ok hres] at he
      cases he
    simp [hnot, hs]
  · have hkind : (classifyError rt env.now err).kind = .transient ↔ OwnEvidence err :=
      classifyError_untagged_iff h.toUntagged
    rw [retried_iff (hthrown hs), rethrow_unrecoverable_iff]
    by_cases hown : OwnEvidence err
    · simp [hkind.mpr hown, hown, hs]
    · have hlogical : (classifyError rt env.now err).kind = .logical := by
        cases hk : (classifyError rt env.now err).kind with
        | logical => rfl
        | transient => exact absurd (hkind.mp hk) hown
      simp [hlogical, hown, hs]

/-! ## A lost connection, bare and wrapped -/

/-- The socket error of a lost connection. -/
def socketError : JsVal :=
  .obj [("name", .str "Error"), ("message", .str "read ECONNRESET"), ("code", .str "ECONNRESET")]

/-- The driver's own error about it. -/
def driverNetworkError : JsVal :=
  .obj [("name", .str "MongoNetworkError"), ("message", .str "connection 1 closed"),
    ("cause", socketError)]

/-- The first store step of an attempt throws this error. -/
def attemptThrowing (err : JsVal) : AttemptEnv :=
  { calmAttempt with ingestFaults := fun op => if op = .exists_ then some err else none }

/-- Both are network failures of the store step that throws them. -/
private theorem storeNetworkError_attemptThrowing (hu : Untagged err)
    (hc : CarriesNetworkCode err) :
    StoreNetworkError plainRuntime issueJob (attemptThrowing err) [] [] .exists_ err where
  toUntagged := hu
  demoFault := by
    intro id hid
    cases hid
  comesTo := ⟨_, _, rfl, rfl, trivial⟩
  thrown := rfl
  carries := hc

/-- The bare socket error is retried. -/
theorem networkError_retried_socket :
    Retried plainRuntime issueJob (attemptThrowing socketError) [] [] := by
  have hcarries : CarriesNetworkCode socketError := .own rfl
  have hnet := storeNetworkError_attemptThrowing ⟨rfl, rfl, rfl⟩ hcarries
  apply (networkError_retried_iff hnet).mpr
  refine ⟨fun hs => absurd hs.1 (by decide), Or.inl ⟨Or.inl rfl, ?_⟩⟩
  unfold IsUnrecoverable
  decide

/-- The driver's error with the same socket error as its cause is not. -/
theorem networkError_wrapped_not_retried :
    ¬ ∀ (job : IngestJobData) (env : AttemptEnv) (deadLetters : List DeadLetter) (spine : Spine)
      (op : IngestOp) (err : JsVal),
      StoreNetworkError plainRuntime job env deadLetters spine op err →
      Retried plainRuntime job env deadLetters spine := by
  intro h
  have hcarries : CarriesNetworkCode driverNetworkError := .cause (.own rfl)
  obtain ⟨e, he, hname, -⟩ := h issueJob (attemptThrowing driverNetworkError) [] [] .exists_
    driverNetworkError (storeNetworkError_attemptThrowing ⟨rfl, rfl, rfl⟩ hcarries)
  cases he
  exact hname rfl

end Shiplog
