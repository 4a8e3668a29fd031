import Mathlib

/-!
# Rounding to doubles

The IEEE 754 double nearest to a rational, ties to the even significand. A double is its
rational value here; what lies beyond the largest one overflows.

## Key results

- `Double.nearest_mono`: rounding keeps the order
- `Double.isDouble_natCast`: integers below `2 ^ 53` are doubles
-/

namespace Double

/-- The integer nearest to `q`, ties to even. -/
def roundEven (q : ℚ) : ℤ :=
  let rest := q - ⌊q⌋
  if 1 / 2 < rest ∨ (rest = 1 / 2 ∧ ⌊q⌋ % 2 = 1) then ⌊q⌋ + 1 else ⌊q⌋

/-- The exponent of the last place of the doubles around `q`: 53 bits of significand, as long
    as they are normal. -/
def lastPlace (q : ℚ) : ℤ := max (Int.log 2 |q| - 52) (-1074)

/-- The double nearest to `q`, were the exponents not bounded from above. -/
def nearest (q : ℚ) : ℚ := roundEven (q / 2 ^ lastPlace q) * 2 ^ lastPlace q

/-- Whether rounding `q` leaves the range of the finite doubles. -/
def overflows (q : ℚ) : Bool := 2 ^ 1024 ≤ |nearest q|

/-- A finite double. -/
def IsDouble (q : ℚ) : Prop := nearest q = q ∧ overflows q = false

/-! ## Rounding to an integer -/

private theorem roundEven_intCast (n : ℤ) : roundEven (n : ℚ) = n := by
  unfold roundEven
  simp only [Int.floor_intCast, sub_self]
  rw [if_neg]
  rintro (h | ⟨h, -⟩) <;> norm_num at h

private theorem floor_le_roundEven (q : ℚ) : ⌊q⌋ ≤ roundEven q := by
  unfold roundEven
  simp only
  split <;> omega

private theorem roundEven_le (q : ℚ) : roundEven q ≤ ⌊q⌋ + 1 := by
  unfold roundEven
  simp only
  split <;> omega

private theorem roundEven_mono {p q : ℚ} (h : p ≤ q) : roundEven p ≤ roundEven q := by
  rcases (Int.floor_le_floor h).lt_or_eq with hlt | heq
  · -- an integer lies between the two
    exact (roundEven_le p).trans ((Int.add_one_le_of_lt hlt).trans (floor_le_roundEven q))
  · -- of two fractions over one integer the larger one is rounded up first
    unfold roundEven
    simp only [heq]
    by_cases hp : 1 / 2 < p - ⌊q⌋ ∨ p - ⌊q⌋ = 1 / 2 ∧ ⌊q⌋ % 2 = 1
    · have hq : 1 / 2 < q - ⌊q⌋ ∨ q - ⌊q⌋ = 1 / 2 ∧ ⌊q⌋ % 2 = 1 := by
        rcases hp with hp | ⟨hp, hodd⟩
        · exact Or.inl (by linarith)
        · rcases (show 1 / 2 ≤ q - ⌊q⌋ by linarith).lt_or_eq with hlt | hhalf
          · exact Or.inl hlt
          · exact Or.inr ⟨hhalf.symm, hodd⟩
      rw [if_pos hp, if_pos hq]
    · rw [if_neg hp]
      split <;> omega

/-! ## Rounding to a double -/

private theorem unit_pos (q : ℚ) : (0 : ℚ) < 2 ^ lastPlace q := zpow_pos two_pos _

/-- A whole number of last places is a double. -/
private theorem nearest_of_whole {q : ℚ} {k : ℤ} (h : q = k * 2 ^ lastPlace q) : nearest q = q := by
  have hne : (2 : ℚ) ^ lastPlace q ≠ 0 := zpow_ne_zero _ two_ne_zero
  have hdiv : q / 2 ^ lastPlace q = k := by
    rw [div_eq_iff hne]
    exact h
  rw [nearest, hdiv, roundEven_intCast]
  exact h.symm

/-- The last place of an integer below `2 ^ 53` is no higher than the units. -/
private theorem lastPlace_natCast_nonpos {n : ℕ} (h : n < 2 ^ 53) : lastPlace (n : ℚ) ≤ 0 := by
  have hlog : Nat.log 2 n ≤ 52 := by
    have hlt := Nat.log_lt_of_lt_pow' (b := 2) (by norm_num : (53 : ℕ) ≠ 0) h
    omega
  unfold lastPlace
  rw [Nat.abs_cast, Int.log_natCast]
  omega

/-- Rounding keeps the sign. -/
theorem nearest_nonneg {q : ℚ} (h : 0 ≤ q) : 0 ≤ nearest q := by
  have hfloor : 0 ≤ ⌊q / 2 ^ lastPlace q⌋ := Int.floor_nonneg.mpr (by positivity)
  have hround : 0 ≤ roundEven (q / 2 ^ lastPlace q) := by
    unfold roundEven
    simp only
    split
    · omega
    · exact hfloor
  exact mul_nonneg (Int.cast_nonneg hround) (by positivity)

/-- Rounding stays on the side of a whole number of last places. -/
private theorem nearest_le_of_whole {q : ℚ} {k : ℤ} (h : q ≤ k * 2 ^ lastPlace q) :
    nearest q ≤ k * 2 ^ lastPlace q := by
  have hdiv : q / 2 ^ lastPlace q ≤ (k : ℚ) := (div_le_iff₀ (unit_pos q)).mpr h
  have hround := roundEven_mono hdiv
  rw [roundEven_intCast] at hround
  exact mul_le_mul_of_nonneg_right (Int.cast_le.mpr hround) (unit_pos q).le

private theorem le_nearest_of_whole {q : ℚ} {k : ℤ} (h : k * 2 ^ lastPlace q ≤ q) :
    k * 2 ^ lastPlace q ≤ nearest q := by
  have hdiv : (k : ℚ) ≤ q / 2 ^ lastPlace q := (le_div_iff₀ (unit_pos q)).mpr h
  have hround := roundEven_mono hdiv
  rw [roundEven_intCast] at hround
  exact mul_le_mul_of_nonneg_right (Int.cast_le.mpr hround) (unit_pos q).le

/-- A power of two that is not below the last place is a whole number of last places. -/
private theorem zpow_eq_whole {q : ℚ} {e : ℤ} (h : lastPlace q ≤ e) :
    (2 : ℚ) ^ e = ((2 ^ (e - lastPlace q).toNat : ℤ) : ℚ) * 2 ^ lastPlace q := by
  push_cast
  rw [← zpow_natCast, Int.toNat_of_nonneg (sub_nonneg.mpr h), ← zpow_add₀ two_ne_zero,
    sub_add_cancel]

/-- **Rounding keeps the order**, of numbers that are not negative. -/
theorem nearest_mono {p q : ℚ} (hp : 0 ≤ p) (h : p ≤ q) : nearest p ≤ nearest q := by
  rcases hp.eq_or_lt with rfl | hpos
  · have hzero : nearest 0 = 0 := nearest_of_whole (k := 0) (by simp)
    rw [hzero]
    exact nearest_nonneg h
  have hqpos := hpos.trans_le h
  have hlog := Int.log_mono_right (b := 2) hpos h
  have hplace : lastPlace p ≤ lastPlace q := by
    unfold lastPlace
    rw [abs_of_pos hpos, abs_of_pos hqpos]
    omega
  rcases hplace.lt_or_eq with hlt | heq
  · -- the power of two that `q` begins with lies between them, and both round towards it
    have hlastp : lastPlace p = max (Int.log 2 p - 52) (-1074) := by
      rw [lastPlace, abs_of_pos hpos]
    have hlastq : lastPlace q = max (Int.log 2 q - 52) (-1074) := by
      rw [lastPlace, abs_of_pos hqpos]
    have hbelow : p ≤ 2 ^ Int.log 2 q := by
      have hnext := (Int.lt_zpow_succ_log_self (b := 2) one_lt_two p).le
      have hpow : (2 : ℚ) ^ (Int.log 2 p + 1) ≤ 2 ^ Int.log 2 q :=
        zpow_le_zpow_right₀ one_le_two (by omega)
      exact hnext.trans (by exact_mod_cast hpow)
    have habove : (2 : ℚ) ^ Int.log 2 q ≤ q := by
      exact_mod_cast Int.zpow_log_le_self (b := 2) one_lt_two hqpos
    have hwholep := @zpow_eq_whole p (Int.log 2 q) (by omega)
    have hwholeq := @zpow_eq_whole q (Int.log 2 q) (by omega)
    calc nearest p ≤ 2 ^ Int.log 2 q := by
          rw [hwholep] at hbelow ⊢
          exact nearest_le_of_whole hbelow
      _ ≤ nearest q := by
          rw [hwholeq] at habove ⊢
          exact le_nearest_of_whole habove
  · -- one and the same unit
    unfold nearest
    rw [heq]
    have hround := roundEven_mono ((div_le_div_iff_of_pos_right (unit_pos q)).mpr h)
    exact mul_le_mul_of_nonneg_right (Int.cast_le.mpr hround) (unit_pos q).le

/-- **Powers of two** are doubles, as far as they go. -/
theorem nearest_two_pow (k : ℕ) : nearest (2 ^ k) = 2 ^ k := by
  have hlog : Int.log 2 ((2 : ℚ) ^ k) = k := by
    have hzpow := Int.log_zpow (R := ℚ) (b := 2) one_lt_two k
    exact_mod_cast hzpow
  have hplace : lastPlace ((2 : ℚ) ^ k) ≤ (k : ℤ) := by
    rw [lastPlace, abs_of_pos (by positivity), hlog]
    omega
  have hwhole := zpow_eq_whole hplace
  rw [zpow_natCast] at hwhole
  exact nearest_of_whole hwhole

/-- **Exact integers.** Every natural number below `2 ^ 53` is a double. -/
theorem nearest_natCast {n : ℕ} (h : n < 2 ^ 53) : nearest (n : ℚ) = n := by
  -- its last place divides the units
  obtain ⟨k, hk⟩ := Int.eq_ofNat_of_zero_le (neg_nonneg.mpr (lastPlace_natCast_nonpos h))
  have hplace : lastPlace (n : ℚ) = -(k : ℤ) := by omega
  refine nearest_of_whole (k := n * 2 ^ k) ?_
  rw [hplace, zpow_neg, zpow_natCast]
  push_cast
  rw [mul_assoc, mul_inv_cancel₀ (pow_ne_zero k two_ne_zero), mul_one]

theorem isDouble_natCast {n : ℕ} (h : n < 2 ^ 53) : IsDouble n := by
  refine ⟨nearest_natCast h, ?_⟩
  unfold overflows
  rw [nearest_natCast h, decide_eq_false_iff_not, not_le, Nat.abs_cast]
  calc (n : ℚ) < 2 ^ 53 := by exact_mod_cast h
    _ ≤ 2 ^ 1024 := pow_le_pow_right₀ one_le_two (by norm_num)

end Double
