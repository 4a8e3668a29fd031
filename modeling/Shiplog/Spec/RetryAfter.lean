import Shiplog.Spec.BackoffCorrect
import Shiplog.Spec.NetworkErrors

/-!
# Retry-After

A `Retry-After` header reaches the backoff strategy as the `retryAfterMs` of the thrown
error. The classifier reads it for the status 429 only, and only the ingest worker
classifies: on every other path the delay is the error's own `retryAfterMs`, or the plain
exponential schedule.

## Key results

- `rethrow_retryAfterMs`: the `retryAfterMs` a transient error is thrown with
- `classifyError_retryAfter`: what the classifier makes of an HTTP failure with the header
- `thrown_retryAfterMs_cases`: the `retryAfterMs` that failure leaves the ingest processor with
- `retryAfter_honored_iff`: which failures wait as long as their header says
-/

namespace Shiplog

variable {rt : Runtime} {now : Int} {err : JsVal} {n : ℕ}

/-! ## An HTTP failure with the header -/

/-- The shape `classifyError` inspects: every field is of its declared type, or missing. -/
structure ClassifiableError (err : JsVal) : Prop where
  kind : err.get "kind" = .undefined ∨ err.get "kind" = .str "transient" ∨
    err.get "kind" = .str "logical"
  message : err.get "message" = .undefined ∨ ∃ text, err.get "message" = .str text
  retryAfterMs : IsOptionalNum (err.get "retryAfterMs")

/-- An error of that shape with an HTTP status 429 or 5xx and a `retry-after` header of `n`
    seconds. -/
structure RetryAfterError (err : JsVal) (n : ℕ) : Prop extends ClassifiableError err where
  status : RetryableStatus ((err.get "statusCode").coalesce (err.get "status"))
  header : ∃ text, (err.get "headers").get "retry-after" = .str text ∧ jsTrim text ≠ "" ∧
    (jsTrim text).toList.all Char.isDigit = true ∧ digitsValue (jsTrim text) = n

/-- What a header of `n` seconds is parsed to. -/
def headerMs (n : ℕ) : JsVal := (JsVal.number n).times (.num 1000)

/-- Rounding `n`, and then 1000 times the double it is rounded to, does not fall short of
    `1000 * n`; beyond the largest double it ends at infinity. -/
def RoundsUp (n : ℕ) : Prop :=
  Double.overflows n = true ∨ Double.overflows (Double.nearest n * 1000) = true ∨
    (n * 1000 : Rat) ≤ Double.nearest (Double.nearest n * 1000)

/-- Below `2 ^ 53` milliseconds nothing is rounded. -/
private theorem roundsUp_of_lt (h : n * 1000 < 2 ^ 53) : RoundsUp n := by
  right
  right
  have hproduct : ((n * 1000 : ℕ) : Rat) = n * 1000 := by push_cast; rfl
  rw [Double.nearest_natCast (by omega), ← hproduct, Double.nearest_natCast h]

/-- The parsed header reaches its seconds exactly where the rounding does. -/
private theorem delayAtLeast_headerMs_iff (n : ℕ) :
    DelayAtLeast (n * 1000) (headerMs n) ↔ RoundsUp n := by
  have hn : (0 : Rat) ≤ n := Nat.cast_nonneg n
  have hproduct : 0 ≤ Double.nearest n * 1000 :=
    mul_nonneg (Double.nearest_nonneg hn) (by norm_num)
  unfold headerMs RoundsUp
  rw [JsVal.number_of_nonneg hn]
  by_cases hover : Double.overflows (n : Rat) = true
  · have hinf : (JsVal.nonFinite .posInf).times (.num 1000) = .nonFinite .posInf := by
      norm_num [JsVal.times, JsVal.sign?]
    simp [hover, hinf, DelayAtLeast]
  · rw [if_neg hover, JsVal.times, JsVal.number_of_nonneg hproduct]
    by_cases hover' : Double.overflows (Double.nearest n * 1000) = true
    · simp [hover', DelayAtLeast]
    · simp [hover, hover', DelayAtLeast]

/-- The parsed header is a number. -/
private theorem headerMs_cases (n : ℕ) :
    (headerMs n).isNullish = false ∧ IsOptionalNum (headerMs n) := by
  have hnumber : ∀ q : Rat, (JsVal.number q).isNullish = false ∧ IsOptionalNum (.number q) := by
    intro q
    unfold JsVal.number
    split
    · exact ⟨rfl, Or.inr (Or.inr ⟨_, rfl⟩)⟩
    · exact ⟨rfl, Or.inr (Or.inl ⟨_, rfl⟩)⟩
  unfold headerMs JsVal.times
  split
  · exact hnumber _
  · split <;> exact ⟨rfl, Or.inr (Or.inr ⟨_, rfl⟩)⟩

/-- The header's value in milliseconds. -/
theorem RetryAfterError.parseRetryAfter (h : RetryAfterError err n) :
    parseRetryAfter rt now ((err.get "headers").get "retry-after") = headerMs n := by
  obtain ⟨text, htext, hne, hdigits, hvalue⟩ := h.header
  rw [htext]
  simp only [Shiplog.parseRetryAfter]
  rw [if_pos ⟨hne, hdigits⟩, hvalue]
  rfl

/-- A tag settles the classification before the status is looked at: the error is not
    retried by the ingest worker. -/
def TaggedLogical (err : JsVal) : Prop :=
  (err.get "kind").isStr "logical" = true ∨
    ((err.get "kind").isStr "transient" = false ∧ (err.get "name").isStr "ZodError" = true)

/-- The classifier gets as far as the header: no tag, no network code, and the status 429. -/
def HeaderRead (err : JsVal) : Prop :=
  Untagged err ∧ isNetworkCode (err.get "code") = false ∧
    (err.get "statusCode").coalesce (err.get "status") = .num 429

/-- What the classifier makes of such an error. -/
theorem classifyError_retryAfter (rt : Runtime) (now : Int) (h : RetryAfterError err n) :
    (TaggedLogical err ∧ (classifyError rt now err).kind = .logical) ∨
      (¬ TaggedLogical err ∧ (classifyError rt now err).kind = .transient ∧
        ((HeaderRead err ∧ (classifyError rt now err).retryAfterMs =
            (err.get "retryAfterMs").coalesce (headerMs n)) ∨
          (¬ HeaderRead err ∧ ((classifyError rt now err).retryAfterMs = .undefined ∨
            (classifyError rt now err).retryAfterMs = err.get "retryAfterMs")))) := by
  obtain ⟨status, hstatus, hrange⟩ := h.status
  have htruthy : err.truthy = true := by
    rw [← Bool.not_eq_false]
    intro hfalse
    simp [get_of_not_truthy hfalse, JsVal.coalesce, JsVal.isNullish] at hstatus
  unfold TaggedLogical HeaderRead classifyError
  simp only [htruthy, Bool.not_true, Bool.false_eq_true, if_false, hstatus]
  rcases h.kind with hkind | hkind | hkind
  · -- no kind: the name, the code and the status decide in this order
    have hnone : ∀ s, (err.get "kind").isStr s = false := by
      intro s
      rw [hkind]
      rfl
    simp only [hnone, Bool.false_eq_true, if_false, false_or, true_and]
    by_cases hzod : (err.get "name").isStr "ZodError" = true
    · left
      simp [hzod]
    · -- tagged transient: the error's own `retryAfterMs` is passed on, the header is not read
      right
      have hu : Untagged err := ⟨hnone _, hnone _, by simpa using hzod⟩
      by_cases hcode : isNetworkCode (err.get "code") = true
      · simp [hzod, hcode]
      · by_cases h429 : status = 429
        · simp [hzod, hcode, h429, hu, h.parseRetryAfter]
        · have h5xx : 500 ≤ status ∧ status ≤ 599 := hrange.resolve_left h429
          simp [hzod, hcode, h429, h5xx]
  · right
    have hyes : (err.get "kind").isStr "transient" = true := by
      rw [hkind]
      rfl
    have hno : (err.get "kind").isStr "logical" = false := by
      rw [hkind]
      rfl
    have htag : ¬ Untagged err := fun hu => absurd (hu.transient.symm.trans hyes) (by decide)
    simp [hyes, hno, htag]
  · left
    have hyes : (err.get "kind").isStr "logical" = true := by
      rw [hkind]
      rfl
    have hno : (err.get "kind").isStr "transient" = false := by
      rw [hkind]
      rfl
    simp [hyes, hno]

/-- The `retryAfterMs` a transient error leaves the ingest processor with. -/
theorem rethrow_retryAfterMs (h : (classifyError rt now err).kind = .transient) :
    (rethrow rt now err).get "retryAfterMs" =
      if (err.get "retryAfterMs").isNullish &&
          !(classifyError rt now err).retryAfterMs.isNullish then
        (classifyError rt now err).retryAfterMs
      else err.get "retryAfterMs" := by
  unfold rethrow
  split
  · next hc =>
    rw [hc] at h
    cases h
  · next retryAfterMs hc =>
    simp only [hc, Bool.and_comm]
    split
    · rw [JsVal.get_obj, JsVal.lookup_assign_self]
    · rfl

/-- The worker never schedules a delay for the error. -/
def NeverRetried (w : QueueWorker) (err : JsVal) : Prop :=
  IsUnrecoverable err ∨ (w = .ingest ∧ TaggedLogical err)

/-- Whenever the worker's queue retries the error of a job with so many attempts, the delay is
    at least `n` seconds. -/
def Honors (rt : Runtime) (now : Int) (baseMs : Rat) (attempts : ℕ) (w : QueueWorker)
    (err : JsVal) (n : ℕ) : Prop :=
  ∀ (attemptsMade : ℕ) (rng : Rat), 1 ≤ attemptsMade → 0 ≤ rng → rng < 1 →
    bullmqRetries attempts attemptsMade (w.thrown rt now err) = true →
    DelayAtLeast (n * 1000) (w.backoffStrategy baseMs rng attemptsMade (w.thrown rt now err))

/-- An error that BullMQ does not retry is honored trivially. -/
private theorem honors_of_unrecoverable {baseMs : Rat} {attempts : ℕ} {w : QueueWorker}
    (h : IsUnrecoverable (w.thrown rt now err)) : Honors rt now baseMs attempts w err n := by
  intro attemptsMade rng _ _ _ hretry
  have hname : ((w.thrown rt now err).get "name").isStr "UnrecoverableError" = true := h
  rw [bullmqRetries, hname] at hretry
  cases hretry

/-- A job of one attempt is never retried. -/
private theorem honors_of_one_attempt {baseMs : Rat} {attempts : ℕ} {w : QueueWorker}
    (h : attempts ≤ 1) : Honors rt now baseMs attempts w err n := by
  intro attemptsMade rng hmade _ _ hretry
  have hlt : attemptsMade < attempts := by
    rw [bullmqRetries, Bool.and_eq_true, decide_eq_true_eq] at hretry
    exact hretry.2
  omega

/-- The three strategies are one. -/
private theorem backoffStrategy_eq (w : QueueWorker) (baseMs rng : Rat) (attemptsMade : ℕ)
    (e : JsVal) :
    w.backoffStrategy baseMs rng attemptsMade e =
      computeBackoff attemptsMade { retryAfterMs := e.get "retryAfterMs", baseMs, rng } := by
  cases w <;> rfl

/-- An error that is retried waits as long as the `retryAfterMs` it is thrown with, or by the
    schedule. -/
private theorem honors_iff_of_retried {baseMs : Rat} {attempts : ℕ} {w : QueueWorker}
    (hbase : Double.IsDouble baseMs) (hattempts : 2 ≤ attempts)
    (hname : ¬ IsUnrecoverable (w.thrown rt now err))
    (hopt : IsOptionalNum ((w.thrown rt now err).get "retryAfterMs")) :
    Honors rt now baseMs attempts w err n ↔
      DelayAtLeast (n * 1000) ((w.thrown rt now err).get "retryAfterMs") ∨
        ((w.thrown rt now err).get "retryAfterMs" = .undefined ∧
          (n * 1000 : Rat) ≤ min 30000 ((⌊baseMs⌋ : ℤ) : Rat) ∧
            ScheduleFinite baseMs attempts) := by
  -- nothing but the attempts left decides whether it is retried
  have hretry : ∀ attemptsMade,
      bullmqRetries attempts attemptsMade (w.thrown rt now err) = true ↔
        attemptsMade < attempts := by
    intro attemptsMade
    unfold IsUnrecoverable at hname
    simp [bullmqRetries, hname]
  have hbound : (0 : Rat) ≤ n * 1000 := by positivity
  unfold Honors
  simp only [backoffStrategy_eq, hretry]
  -- a number is the delay of every attempt
  have hnumber : ∀ v : JsVal, v.isNullish = false →
      (w.thrown rt now err).get "retryAfterMs" = v →
      ((∀ (attemptsMade : ℕ) (rng : Rat), 1 ≤ attemptsMade → 0 ≤ rng → rng < 1 →
        attemptsMade < attempts → DelayAtLeast (n * 1000) (computeBackoff attemptsMade
          { retryAfterMs := (w.thrown rt now err).get "retryAfterMs", baseMs, rng })) ↔
        DelayAtLeast (n * 1000) v) := by
    intro v hv hra
    have hdelay : ∀ (attemptsMade : ℕ) (rng : Rat),
        computeBackoff attemptsMade { retryAfterMs := v, baseMs, rng } = v := by
      intro attemptsMade rng
      simp [computeBackoff, hv]
    simp only [hra, hdelay]
    exact ⟨fun h => h 1 0 (le_refl 1) (le_refl 0) one_pos hattempts, fun h _ _ _ _ _ _ => h⟩
  rcases hopt with hra | ⟨q, hra⟩ | ⟨x, hra⟩
  · -- no number: the schedule decides, for every attempt and draw
    rw [hra]
    have hno : ¬ DelayAtLeast (n * 1000) .undefined := fun h => h
    rw [← le_computeBackoff_iff hbase hbound hattempts]
    constructor
    · intro h
      exact Or.inr ⟨rfl, fun attemptsMade rng hmade hlt h0 h1 => h attemptsMade rng hmade h0 h1 hlt⟩
    · rintro (h | ⟨-, h⟩) attemptsMade rng hmade h0 h1 hlt
      · exact absurd h hno
      · exact h attemptsMade rng hmade hlt h0 h1
  · rw [hnumber _ rfl hra, hra]
    simp
  · rw [hnumber _ rfl hra, hra]
    simp

/-- When the header is honored: the error is never retried, its own `retryAfterMs` says as
    much, or it has none and the ingest worker reads the header, without losing any of it to
    rounding, or the schedule starts with as much and does not overflow. -/
def HeaderReaches (baseMs : Rat) (attempts : ℕ) (w : QueueWorker) (err : JsVal) (n : ℕ) : Prop :=
  attempts ≤ 1 ∨ NeverRetried w err ∨ DelayAtLeast (n * 1000) (err.get "retryAfterMs") ∨
    (err.get "retryAfterMs" = .undefined ∧
      ((w = .ingest ∧ HeaderRead err ∧ RoundsUp n) ∨
        ((n * 1000 : Rat) ≤ min 30000 ((⌊baseMs⌋ : ℤ) : Rat) ∧ ScheduleFinite baseMs attempts)))

/-- Workers that throw the error as it came wait for what it says itself. -/
private theorem honors_of_thrown_self {baseMs : Rat} {attempts : ℕ} {w : QueueWorker}
    (hbase : Double.IsDouble baseMs) (h : RetryAfterError err n) (hw : w ≠ .ingest)
    (hthrown : w.thrown rt now err = err) :
    Honors rt now baseMs attempts w err n ↔ HeaderReaches baseMs attempts w err n := by
  by_cases hname : IsUnrecoverable err
  · -- never retried, so no delay is scheduled
    have hthrown' : IsUnrecoverable (w.thrown rt now err) := hthrown.symm ▸ hname
    simp [honors_of_unrecoverable hthrown', HeaderReaches, NeverRetried, hname]
  rcases Nat.lt_or_ge 1 attempts with hattempts | hone
  · rw [honors_iff_of_retried hbase hattempts (hthrown.symm ▸ hname)
      (hthrown.symm ▸ h.retryAfterMs), hthrown]
    simp [HeaderReaches, NeverRetried, hname, hw, hattempts.not_ge]
  · simp [honors_of_one_attempt hone, HeaderReaches, hone]

/-- The `retryAfterMs` of a transient failure past the ingest processor: its own, or else what
    the header says where the classifier reads it. -/
theorem thrown_retryAfterMs_cases (h : RetryAfterError err n) (htag : ¬ TaggedLogical err) :
    (err.get "retryAfterMs" ≠ .undefined ∧
        (rethrow rt now err).get "retryAfterMs" = err.get "retryAfterMs") ∨
      (err.get "retryAfterMs" = .undefined ∧ HeaderRead err ∧
        (rethrow rt now err).get "retryAfterMs" = headerMs n) ∨
      (err.get "retryAfterMs" = .undefined ∧ ¬ HeaderRead err ∧
        (rethrow rt now err).get "retryAfterMs" = .undefined) := by
  rcases classifyError_retryAfter rt now h with ⟨hyes, -⟩ | ⟨-, hkind, hafter⟩
  · exact absurd hyes htag
  · have hra := rethrow_retryAfterMs hkind
    -- `rethrow` writes the classifier's number over the error's only where there is none
    have hown : ∀ v : JsVal, v.isNullish = false → err.get "retryAfterMs" = v →
        err.get "retryAfterMs" ≠ .undefined ∧
          (rethrow rt now err).get "retryAfterMs" = err.get "retryAfterMs" := by
      intro v hv hget
      rw [hra, hget, hv]
      refine ⟨?_, rfl⟩
      rintro rfl
      cases hv
    rcases h.retryAfterMs with hnone | ⟨q, hq⟩ | ⟨x, hx⟩
    · right
      rcases hafter with ⟨hread, hc⟩ | ⟨hread, hc | hc⟩
      · left
        have hheader : JsVal.undefined.coalesce (headerMs n) = headerMs n := rfl
        refine ⟨hnone, hread, ?_⟩
        rw [hra, hc, hnone, hheader, (headerMs_cases n).1]
        rfl
      · right
        refine ⟨hnone, hread, ?_⟩
        rw [hra, hc, hnone]
        rfl
      · right
        refine ⟨hnone, hread, ?_⟩
        rw [hra, hc, hnone]
        rfl
    · exact Or.inl (hown _ rfl hq)
    · exact Or.inl (hown _ rfl hx)

/-- The ingest processor wraps the errors that are tagged as logical, and keeps the name of
    the others. -/
private theorem rethrow_unrecoverable_of_retryAfter (h : RetryAfterError err n) :
    IsUnrecoverable (rethrow rt now err) ↔ TaggedLogical err ∨ IsUnrecoverable err := by
  have hprint : Printable rt (err.get "message") := by
    rcases h.message with hmsg | ⟨text, hmsg⟩
    · rw [hmsg]
      exact ⟨_, rfl⟩
    · rw [hmsg]
      exact ⟨_, rfl⟩
  rw [rethrow_unrecoverable_iff]
  rcases classifyError_retryAfter rt now h with ⟨htag, hkind⟩ | ⟨htag, hkind, -⟩
  · simp [hkind, hprint, htag]
  · simp [hkind, htag]

/-- The ingest worker classifies first. -/
private theorem honors_ingest {baseMs : Rat} {attempts : ℕ} (hbase : Double.IsDouble baseMs)
    (h : RetryAfterError err n) :
    Honors rt now baseMs attempts .ingest err n ↔ HeaderReaches baseMs attempts .ingest err n := by
  have hunrec := @rethrow_unrecoverable_of_retryAfter rt now err n h
  have hthrown : QueueWorker.ingest.thrown rt now err = rethrow rt now err := rfl
  rcases Nat.lt_or_ge 1 attempts with hattempts | hone
  swap
  · simp [honors_of_one_attempt hone, HeaderReaches, hone]
  by_cases hnever : TaggedLogical err ∨ IsUnrecoverable err
  · -- thrown as an `UnrecoverableError`
    have hhonors : Honors rt now baseMs attempts .ingest err n :=
      honors_of_unrecoverable (hthrown ▸ hunrec.mpr hnever)
    have hno : NeverRetried .ingest err := hnever.symm.imp id fun htag => ⟨rfl, htag⟩
    simp [hhonors, HeaderReaches, hno]
  · obtain ⟨htag, hname⟩ := not_or.mp hnever
    have hnamed : ¬ IsUnrecoverable (QueueWorker.ingest.thrown rt now err) :=
      fun hyes => hnever (hunrec.mp hyes)
    have hno : ¬ NeverRetried .ingest err := by
      simp [NeverRetried, hname, htag]
    have hmore : ¬ attempts ≤ 1 := hattempts.not_ge
    have hhonors := @honors_iff_of_retried rt now err n baseMs attempts .ingest hbase hattempts
      hnamed
    rw [hthrown] at hhonors
    rcases @thrown_retryAfterMs_cases rt now err n h htag with
      ⟨hown, hra⟩ | ⟨hown, hread, hra⟩ | ⟨hown, hread, hra⟩
    · -- its own number stays
      rw [hhonors (hra.symm ▸ h.retryAfterMs), hra, HeaderReaches]
      simp [hmore, hno, hown]
    · -- the header, as far as its rounding goes; below the cap nothing is rounded
      have hslow : (n * 1000 : Rat) ≤ 30000 → RoundsUp n := by
        intro hle
        have hle' : n * 1000 ≤ 30000 := by exact_mod_cast hle
        exact roundsUp_of_lt (by omega)
      have hnum := headerMs_cases n
      rw [hhonors (hra.symm ▸ hnum.2), hra, HeaderReaches, hown, delayAtLeast_headerMs_iff]
      have hundef : headerMs n ≠ .undefined := by
        intro heq
        rw [heq] at hnum
        cases hnum.1
      simp only [hmore, hno, hread, hundef, DelayAtLeast, false_or, false_and, or_false, true_and,
        le_min_iff]
      exact ⟨Or.inl, fun hor => hor.elim id fun hle => hslow hle.1.1⟩
    · -- neither
      rw [hhonors (Or.inl hra), hra, HeaderReaches, hown]
      simp [hmore, hno, hread]

/-- **Retry-After.** An HTTP failure with a `retry-after` header of `n` seconds that comes up
    in a worker waits at least `n` seconds before every retry, whatever the attempt and the
    jitter, if and only if it is never retried there; or its own `retryAfterMs` says so; or
    it has none, and the ingest worker reads the header (no tag, no network code, status
    429) and rounds none of it away, or the first delay of the schedule is that long already
    and none of its exponentials overflows. -/
theorem retryAfter_honored_iff (rt : Runtime) (now : Int) {baseMs : Rat} (attempts : ℕ)
    (w : QueueWorker) (hbase : Double.IsDouble baseMs) (h : RetryAfterError err n) :
    Honors rt now baseMs attempts w err n ↔ HeaderReaches baseMs attempts w err n := by
  cases w with
  | ingest => exact honors_ingest hbase h
  | nangoSync => exact honors_of_thrown_self hbase h (by decide) rfl
  | reconcile => exact honors_of_thrown_self hbase h (by decide) rfl

/-! ## The same header on two answers -/

/-- An HTTP failure whose header asks for two minutes. -/
def httpFailure (status : Rat) : JsVal :=
  .obj [("name", .str "Error"), ("message", .str "try again later"), ("status", .num status),
    ("headers", .obj [("retry-after", .str "120")])]

private theorem retryAfterError_httpFailure {status : Rat}
    (h : status = 429 ∨ 500 ≤ status ∧ status ≤ 599) :
    RetryAfterError (httpFailure status) 120 where
  kind := Or.inl rfl
  message := Or.inr ⟨_, rfl⟩
  retryAfterMs := Or.inl rfl
  status := ⟨status, rfl, h⟩
  header := ⟨"120", rfl, by decide, by decide, by decide +kernel⟩

/-- As a 429 in the ingest worker it is honored. -/
theorem retryAfter_honored_rateLimited :
    Honors plainRuntime 0 1000 5 .ingest (httpFailure 429) 120 := by
  have hbase : Double.IsDouble 1000 := by
    exact_mod_cast Double.isDouble_natCast (n := 1000) (by norm_num)
  apply (retryAfter_honored_iff plainRuntime 0 5 .ingest hbase
    (retryAfterError_httpFailure (Or.inl rfl))).mpr
  right
  right
  right
  exact ⟨rfl, Or.inl ⟨rfl, ⟨⟨rfl, rfl, rfl⟩, rfl, rfl⟩, roundsUp_of_lt (by norm_num)⟩⟩

/-- As a 503 it waits for the schedule, which is cut off at half a minute. -/
theorem retryAfter_ignored_unavailable :
    ¬ ∀ (w : QueueWorker) (err : JsVal) (n : ℕ), RetryAfterError err n →
      Honors plainRuntime 0 1000 5 w err n := by
  intro h
  have hdelay := h .ingest (httpFailure 503) 120
    (retryAfterError_httpFailure (Or.inr (by norm_num))) 1 0 (le_refl 1) (le_refl 0) one_pos
  have hretry : bullmqRetries 5 1 (QueueWorker.ingest.thrown plainRuntime 0 (httpFailure 503)) =
      true := by
    decide +kernel
  -- the thrown error has no `retryAfterMs`
  have hnone : (QueueWorker.ingest.thrown plainRuntime 0 (httpFailure 503)).get "retryAfterMs" =
      .undefined := rfl
  have hfirst := hdelay hretry
  rw [backoffStrategy_eq, hnone] at hfirst
  have hcap := DelayAtLeast.le_cap hfirst
  norm_num at hcap

end Shiplog
