import Shiplog.Native.Backoff

/-!
# The backoff schedule

The delays of `computeBackoff`: the error's own `retryAfterMs`, or the exponential schedule,
which is cut off at its cap and never shorter than its first delay. Where the exponential
overflows, a draw of zero makes the jitter, and with it the delay, `NaN`.

## Key results

- `le_computeBackoff_iff`: when every delay of the schedule reaches a bound
- `Moment.givesUp_eq_false`: no answer but the error's own gives a job up
-/

namespace Shiplog

/-- An optional number: what the interface of the errors allows as `retryAfterMs`. -/
def IsOptionalNum (v : JsVal) : Prop :=
  v = .undefined ∨ (∃ q, v = .num q) ∨ ∃ x, v = .nonFinite x

/-- The delay is a number and at least `bound`. -/
def DelayAtLeast (bound : Rat) : JsVal → Prop
  | .num q => bound ≤ q
  | .nonFinite x => x = .posInf
  | _ => False

theorem DelayAtLeast.mono {bound bound' : Rat} {v : JsVal} (h : DelayAtLeast bound' v)
    (hle : bound ≤ bound') : DelayAtLeast bound v := by
  cases v with
  | num q => exact hle.trans h
  | _ => exact h

/-! ## Bounds of computed numbers -/

section Bounds

variable {bound q : Rat} {v w : JsVal}

/-- Rounding does not go below a double, nor overflow downwards. -/
private theorem delayAtLeast_number (hbound : Double.nearest bound = bound) (hpos : 0 ≤ bound)
    (h : bound ≤ q) : DelayAtLeast bound (.number q) := by
  rw [JsVal.number_of_nonneg (hpos.trans h)]
  split
  · rfl
  · exact hbound ▸ Double.nearest_mono hpos h

private theorem isDouble_zero : Double.IsDouble 0 := by
  exact_mod_cast Double.isDouble_natCast (n := 0) (by norm_num)

/-- A number that is not negative, times one that is positive and finite. -/
private theorem delayAtLeast_times (hv : DelayAtLeast 0 v) (hq : 0 < q) :
    DelayAtLeast 0 (v.times (.num q)) := by
  cases v with
  | num p => exact delayAtLeast_number isDouble_zero.1 (le_refl 0) (mul_nonneg hv hq.le)
  | nonFinite x =>
    have hx : x = .posInf := hv
    subst hx
    have hsign : (JsVal.num q).sign? = some 1 := by
      simp [JsVal.sign?, hq.not_gt, hq.ne']
    rw [JsVal.times, hsign]
    · rfl
    · exact fun _ _ hnum => JsVal.noConfusion hnum
  | _ => exact hv.elim

/-- What is added only lengthens a delay. -/
private theorem delayAtLeast_plus (hbound : Double.nearest bound = bound) (hpos : 0 ≤ bound)
    (hq : bound ≤ q) (hw : DelayAtLeast 0 w) : DelayAtLeast bound ((JsVal.num q).plus w) := by
  cases w with
  | num p =>
    have hp : 0 ≤ p := hw
    exact delayAtLeast_number hbound hpos (by linarith)
  | nonFinite x => exact hw
  | _ => exact hw.elim

private theorem delayAtLeast_floor (h : DelayAtLeast bound v) :
    DelayAtLeast (⌊bound⌋ : Int) v.floor := by
  cases v with
  | num q => exact Int.cast_le.mpr (Int.floor_le_floor h)
  | _ => exact h

private theorem delayAtLeast_capped {cap : Rat} (hcap : bound ≤ cap) (h : DelayAtLeast bound v) :
    DelayAtLeast bound (v.capped cap) := by
  cases v with
  | num q => exact le_min hcap h
  | nonFinite x =>
    have hx : x = .posInf := h
    subst hx
    exact hcap
  | _ => exact h

theorem DelayAtLeast.le_cap {cap : Rat} (h : DelayAtLeast bound (v.capped cap)) :
    bound ≤ cap := by
  cases v with
  | num q => exact (le_min_iff.mp h).1
  | nonFinite x =>
    cases x with
    | posInf => exact h
    | nan => cases h
    | negInf => cases h
  | _ => exact h.elim

end Bounds

/-! ## The schedule -/

/-- No exponential of the schedule overflows before the last attempt. -/
def ScheduleFinite (baseMs : Rat) (attempts : ℕ) : Prop :=
  ∀ k, k + 1 < attempts →
    Double.overflows (2 ^ k) = false ∧ Double.overflows (baseMs * 2 ^ k) = false

-- the five attempts of the queues
example : ScheduleFinite 1000 5 := by
  intro k hk
  have hlt : k < 4 := by omega
  interval_cases k <;> decide +kernel

/-- The exponential after the attempt with number `k + 1`. -/
private def exponential (baseMs : Rat) (k : ℕ) : JsVal :=
  (JsVal.num baseMs).times (.number (2 ^ k))

/-- Without a `retryAfterMs` the delay is that of the schedule. -/
private theorem computeBackoff_undefined (baseMs rng : Rat) (k : ℕ) :
    computeBackoff (k + 1) { retryAfterMs := .undefined, baseMs, rng } =
      ((exponential baseMs k).plus
        (((JsVal.num rng).times (exponential baseMs k)).times (.num (1 / 4)))).floor.capped
          30000 := by
  have hpow : (2 : Rat) ^ (((k + 1 : ℕ) : ℤ) - 1) = 2 ^ k := by
    rw [Nat.cast_succ, add_sub_cancel_right, zpow_natCast]
  simp only [computeBackoff, JsVal.isNullish, Bool.not_true, Bool.false_eq_true, if_false, hpow]
  rfl

private theorem number_two_pow {k : ℕ} (h : Double.overflows (2 ^ k) = false) :
    JsVal.number (2 ^ k) = .num (2 ^ k) := by
  rw [JsVal.number_of_nonneg (by positivity), if_neg (by rw [h]; exact Bool.false_ne_true),
    Double.nearest_two_pow]

/-- It is finite if neither the power nor the product overflows. -/
private theorem exponential_eq {baseMs : Rat} {k : ℕ} (hpow : Double.overflows (2 ^ k) = false)
    (hproduct : Double.overflows (baseMs * 2 ^ k) = false) :
    exponential baseMs k = .num (Double.nearest (baseMs * 2 ^ k)) := by
  rw [exponential, number_two_pow hpow, JsVal.times, JsVal.number, hproduct]
  rfl

private theorem exponential_nonFinite {baseMs : Rat} {k : ℕ}
    (h : Double.overflows (2 ^ k) = true ∨ Double.overflows (baseMs * 2 ^ k) = true) :
    ∃ x, exponential baseMs k = .nonFinite x := by
  unfold exponential
  cases hpow : Double.overflows (2 ^ k) with
  | true =>
    rw [JsVal.number_of_nonneg (by positivity), if_pos hpow]
    unfold JsVal.times
    split
    · next heq => cases heq
    · split <;> exact ⟨_, rfl⟩
  | false =>
    have hproduct := h.resolve_left (by rw [hpow]; exact Bool.false_ne_true)
    rw [number_two_pow hpow, JsVal.times, JsVal.number, if_pos hproduct]
    exact ⟨_, rfl⟩

/-- After an overflow a draw of zero makes the delay `NaN`. -/
private theorem computeBackoff_nan {baseMs : Rat} {k : ℕ} {x : NonFinite}
    (h : exponential baseMs k = .nonFinite x) :
    computeBackoff (k + 1) { retryAfterMs := .undefined, baseMs, rng := 0 } = .nonFinite .nan := by
  rw [computeBackoff_undefined, h]
  cases x <;> rfl

/-- The first delay of the schedule, at a draw of zero. -/
private theorem computeBackoff_first {baseMs : Rat} (hbase : Double.IsDouble baseMs) :
    computeBackoff 1 { retryAfterMs := .undefined, baseMs, rng := 0 } =
      .num (min 30000 ((⌊baseMs⌋ : ℤ) : Rat)) := by
  have hone : Double.overflows (2 ^ 0) = false := by decide +kernel
  have hexp := exponential_eq hone (by rw [pow_zero, mul_one]; exact hbase.2)
  rw [pow_zero, mul_one, hbase.1] at hexp
  have hjitter : ((JsVal.num 0).times (.num baseMs)).times (.num (1 / 4)) = .num 0 := by
    have hzero := JsVal.number_of_isDouble isDouble_zero
    rw [JsVal.times, zero_mul, hzero, JsVal.times, zero_mul, hzero]
  have hsum : (JsVal.num baseMs).plus (.num 0) = .num baseMs := by
    rw [JsVal.plus, add_zero, JsVal.number_of_isDouble hbase]
  rw [computeBackoff_undefined, hexp, hjitter, hsum]
  rfl

/-- A delay whose exponential does not overflow is no shorter than the first one. -/
private theorem delayAtLeast_computeBackoff {baseMs rng bound : Rat} {k : ℕ}
    (hbase : Double.IsDouble baseMs) (hbound : 0 ≤ bound) (hrng : 0 ≤ rng)
    (h : bound ≤ min 30000 ((⌊baseMs⌋ : ℤ) : Rat)) (hpow : Double.overflows (2 ^ k) = false)
    (hproduct : Double.overflows (baseMs * 2 ^ k) = false) :
    DelayAtLeast bound
      (computeBackoff (k + 1) { retryAfterMs := .undefined, baseMs, rng }) := by
  obtain ⟨hcap, hfloor⟩ := le_min_iff.mp h
  have hpos : 0 ≤ baseMs := (hbound.trans hfloor).trans (Int.floor_le baseMs)
  -- the exponential is no less than `baseMs`, and the jitter is not negative
  have hle : baseMs ≤ baseMs * 2 ^ k := le_mul_of_one_le_right hpos (one_le_pow₀ one_le_two)
  have hexp : baseMs ≤ Double.nearest (baseMs * 2 ^ k) :=
    hbase.1.symm.le.trans (Double.nearest_mono hpos hle)
  have hdraw : DelayAtLeast 0
      ((JsVal.num rng).times (.num (Double.nearest (baseMs * 2 ^ k)))) :=
    delayAtLeast_number isDouble_zero.1 (le_refl 0) (mul_nonneg hrng (hpos.trans hexp))
  have hjitter := delayAtLeast_times hdraw (show (0 : Rat) < 1 / 4 by norm_num)
  rw [computeBackoff_undefined, exponential_eq hpow hproduct]
  have hdelay := delayAtLeast_floor (delayAtLeast_plus hbase.1 hpos hexp hjitter)
  exact delayAtLeast_capped hcap (hdelay.mono hfloor)

/-- **The schedule** without a `retryAfterMs`: all its delays before the last attempt reach a
    bound that is not negative exactly if the first one without jitter does, and none of them
    overflows. -/
theorem le_computeBackoff_iff {baseMs bound : Rat} {attempts : ℕ} (hbase : Double.IsDouble baseMs)
    (hbound : 0 ≤ bound) (hattempts : 2 ≤ attempts) :
    (∀ (attemptsMade : ℕ) (rng : Rat), 1 ≤ attemptsMade → attemptsMade < attempts → 0 ≤ rng →
      rng < 1 → DelayAtLeast bound
        (computeBackoff attemptsMade { retryAfterMs := .undefined, baseMs, rng })) ↔
      bound ≤ min 30000 ((⌊baseMs⌋ : ℤ) : Rat) ∧ ScheduleFinite baseMs attempts := by
  constructor
  · intro h
    constructor
    · have hfirst := h 1 0 (le_refl 1) hattempts (le_refl 0) one_pos
      rw [computeBackoff_first hbase] at hfirst
      exact hfirst
    · -- an overflow would show at a draw of zero
      intro k hk
      by_contra hover
      have hsome : Double.overflows (2 ^ k) = true ∨ Double.overflows (baseMs * 2 ^ k) = true := by
        rcases Bool.eq_false_or_eq_true (Double.overflows (2 ^ k)) with hpow | hpow
        · exact Or.inl hpow
        · exact Or.inr (Bool.not_eq_false _ ▸ fun hproduct => hover ⟨hpow, hproduct⟩)
      obtain ⟨x, hx⟩ := exponential_nonFinite hsome
      have hdelay := h (k + 1) 0 (Nat.le_add_left 1 k) hk (le_refl 0) one_pos
      rw [computeBackoff_nan hx] at hdelay
      cases hdelay
  · rintro ⟨h, hfinite⟩ attemptsMade rng hmade hlt hrng -
    obtain ⟨k, rfl⟩ : ∃ k, attemptsMade = k + 1 := ⟨attemptsMade - 1, by omega⟩
    obtain ⟨hpow, hproduct⟩ := hfinite k hlt
    exact delayAtLeast_computeBackoff hbase hbound hrng h hpow hproduct

/-! ## Giving up -/

/-- A number that is not negative, or `NaN`. -/
def NotNegative : JsVal → Prop
  | .num q => 0 ≤ q
  | .nonFinite x => x ≠ .negInf
  | _ => False

section NotNegative

variable {q : Rat} {v w : JsVal}

private theorem notNegative_number (h : 0 ≤ q) : NotNegative (.number q) := by
  rw [JsVal.number_of_nonneg h]
  split
  · exact fun hinf => NonFinite.noConfusion hinf
  · exact Double.nearest_nonneg h

/-- Such a number has no negative sign. -/
private theorem sign?_of_notNegative (h : NotNegative v) {s : Int} (hs : v.sign? = some s) :
    0 ≤ s := by
  cases v with
  | num q =>
    have hq : ¬ q < 0 := not_lt.mpr h
    simp only [JsVal.sign?, if_neg hq, Option.some.injEq] at hs
    split at hs <;> omega
  | nonFinite x =>
    cases x with
    | nan => cases hs
    | posInf =>
      cases hs
      exact Int.one_nonneg
    | negInf => exact absurd rfl h
  | _ => exact h.elim

private theorem notNegative_times (hv : NotNegative v) (hw : NotNegative w) :
    NotNegative (v.times w) := by
  unfold JsVal.times
  split
  · exact notNegative_number (mul_nonneg hv hw)
  · split
    · next s t hs ht =>
      have hproduct : 0 ≤ s * t :=
        mul_nonneg (sign?_of_notNegative hv hs) (sign?_of_notNegative hw ht)
      rw [if_neg (not_lt.mpr hproduct)]
      split <;> exact fun hinf => NonFinite.noConfusion hinf
    · exact fun hinf => NonFinite.noConfusion hinf

private theorem notNegative_plus (hv : NotNegative v) (hw : NotNegative w) :
    NotNegative (v.plus w) := by
  cases v with
  | num p =>
    cases w with
    | num q => exact notNegative_number (add_nonneg hv hw)
    | nonFinite x => exact hw
    | _ => exact hw.elim
  | nonFinite x =>
    cases w with
    | num q => exact hv
    | nonFinite y =>
      show (if x = y then x else NonFinite.nan) ≠ .negInf
      split
      · exact hv
      · exact fun hinf => NonFinite.noConfusion hinf
    | _ => exact hw.elim
  | _ => exact hv.elim

private theorem notNegative_floor (h : NotNegative v) : NotNegative v.floor := by
  cases v with
  | num q => exact Int.cast_nonneg (Int.floor_nonneg.mpr h)
  | _ => exact h

private theorem notNegative_capped {cap : Rat} (hcap : 0 ≤ cap) (h : NotNegative v) :
    NotNegative (v.capped cap) := by
  cases v with
  | num q => exact le_min hcap h
  | nonFinite x =>
    cases x with
    | posInf => exact hcap
    | _ => exact h
  | _ => exact h

/-- It is not `-1`. -/
private theorem givesUp_of_notNegative (h : NotNegative v) : givesUp v = false := by
  cases v with
  | num q =>
    have hq : 0 ≤ q := h
    exact decide_eq_false fun heq => by linarith
  | _ => rfl

end NotNegative

/-- A worker whose settings are not negative gives a job up only where the error says so. -/
theorem Moment.givesUp_eq_false {m : Moment} (hbase : 0 ≤ m.baseMs) (hrng : 0 ≤ m.rng)
    {attemptsMade : ℕ} {err : JsVal} (h : err.get "retryAfterMs" ≠ .num (-1)) :
    m.givesUp attemptsMade err = false := by
  unfold Moment.givesUp QueueWorker.backoffStrategy computeBackoff
  simp only
  split
  · -- the error's own answer
    cases hra : err.get "retryAfterMs" with
    | num q =>
      rw [hra, ne_eq, JsVal.num.injEq] at h
      exact decide_eq_false h
    | _ => rfl
  · -- a delay of the schedule is not negative
    have hpow : NotNegative (.number ((2 : Rat) ^ ((attemptsMade : ℤ) - 1))) :=
      notNegative_number (zpow_nonneg two_pos.le _)
    have hexp := notNegative_times (v := .num m.baseMs) hbase hpow
    have hjitter := notNegative_times (notNegative_times (v := .num m.rng) hrng hexp)
      (w := .num (1 / 4)) (show (0 : Rat) ≤ 1 / 4 by norm_num)
    exact givesUp_of_notNegative
      (notNegative_capped (by norm_num) (notNegative_floor (notNegative_plus hexp hjitter)))

end Shiplog
