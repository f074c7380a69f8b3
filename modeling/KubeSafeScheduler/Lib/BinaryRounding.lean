import Mathlib.Data.Int.Log
import KubeSafeScheduler.Lib.DecimalText

/-!
Rounding to a number of significant bits, as binary floating-point arithmetic rounds
where its exponents do not end.

* `roundHalfEven_mono`, `abs_roundHalfEven_sub_le`: rounding to an integer.
* `roundBits`: rounding to the nearest number with `p` significant bits, halves to the
  even one.
* `roundBits_of_lt`: a number with `p` bits stays. `roundBits_mono`: the order stays.
* `abs_roundBits_sub_le`: the relative error.
-/

namespace KubeSafeScheduler

/-! ### Rounding to an integer -/

lemma roundHalfEven_mono : Monotone roundHalfEven := by
  intro x y hxy
  have hfloor : ⌊x⌋ ≤ ⌊y⌋ := Int.floor_mono hxy
  rcases eq_or_lt_of_le hfloor with heq | hlt
  · have hfract : x - ⌊x⌋ ≤ y - ⌊y⌋ := by
      rw [heq]
      linarith
    unfold roundHalfEven
    rw [← heq] at hfract ⊢
    split_ifs <;> first | omega | linarith
  · have hx : roundHalfEven x ≤ ⌊x⌋ + 1 := by
      unfold roundHalfEven
      split_ifs <;> omega
    have hy : ⌊y⌋ ≤ roundHalfEven y := by
      unfold roundHalfEven
      split_ifs <;> omega
    omega

lemma abs_roundHalfEven_sub_le (x : ℚ) : |(roundHalfEven x : ℚ) - x| ≤ 1 / 2 := by
  have hround := abs_sub_round x
  rw [abs_sub_comm] at hround
  exact (roundHalfEven_nearest x (round x)).trans hround

/-! ### Rounding to significant bits -/

/-- The distance of the numbers with `p` significant bits next to `x`. -/
def unitLastPlace (p : ℕ) (x : ℚ) : ℚ := 2 ^ (Int.log 2 |x| + 1 - p)

/-- Rounding to the nearest number with `p` significant bits, halves to the even one. -/
def roundBits (p : ℕ) (x : ℚ) : ℚ := roundHalfEven (x / unitLastPlace p x) * unitLastPlace p x

variable {p : ℕ} {x y : ℚ}

lemma unitLastPlace_pos (p : ℕ) (x : ℚ) : 0 < unitLastPlace p x := zpow_pos two_pos _

/-- The unit is a part of the leading bit. -/
lemma unitLastPlace_mul (p : ℕ) (x : ℚ) :
    unitLastPlace p x * 2 ^ p = 2 ^ (Int.log 2 |x| + 1) := by
  rw [unitLastPlace, ← zpow_natCast (2 : ℚ) p, ← zpow_add₀ two_ne_zero, sub_add_cancel]

lemma zpow_log_le (hx : 0 < x) : (2 : ℚ) ^ Int.log 2 |x| ≤ x := by
  rw [abs_of_pos hx]
  exact Int.zpow_log_le_self one_lt_two hx

lemma lt_zpow_log (hx : 0 < x) : x < (2 : ℚ) ^ (Int.log 2 |x| + 1) := by
  rw [abs_of_pos hx]
  exact Int.lt_zpow_succ_log_self one_lt_two x

@[simp] lemma roundBits_zero (p : ℕ) : roundBits p 0 = 0 := by
  have hzero : roundHalfEven 0 = 0 := by exact_mod_cast roundHalfEven_intCast 0
  rw [roundBits, zero_div, hzero, Int.cast_zero, zero_mul]

lemma roundBits_nonneg (hx : 0 ≤ x) : 0 ≤ roundBits p x := by
  have hround := roundHalfEven_nonneg (div_nonneg hx (unitLastPlace_pos p x).le)
  exact mul_nonneg (by exact_mod_cast hround) (unitLastPlace_pos p x).le

/-- A multiple of the unit stays. -/
lemma roundBits_of_mul {m : ℤ} (h : x = m * unitLastPlace p x) : roundBits p x = x := by
  have hdiv : x / unitLastPlace p x = m := by
    rw [div_eq_iff (unitLastPlace_pos p x).ne']
    exact h
  rw [roundBits, hdiv, roundHalfEven_intCast]
  exact h.symm

/-- A number with `p` significant bits stays. -/
lemma roundBits_of_lt {m : ℕ} (hm : m < 2 ^ p) {e : ℤ} (h : x = m * 2 ^ e) :
    roundBits p x = x := by
  rcases Nat.eq_zero_or_pos m with rfl | hpos
  · rw [h, Nat.cast_zero, zero_mul, roundBits_zero]
  · have hx : 0 < x := by
      rw [h]
      positivity
    have hm' : (m : ℚ) < 2 ^ (p : ℤ) := by
      rw [zpow_natCast]
      exact_mod_cast hm
    -- the exponent is at least that of the unit
    have hexp : Int.log 2 |x| < p + e := by
      rw [← zpow_lt_zpow_iff_right₀ (one_lt_two (α := ℚ))]
      calc (2 : ℚ) ^ Int.log 2 |x| ≤ x := zpow_log_le hx
        _ = m * 2 ^ e := h
        _ < 2 ^ (p : ℤ) * 2 ^ e := mul_lt_mul_of_pos_right hm' (zpow_pos two_pos e)
        _ = 2 ^ (p + e) := (zpow_add₀ two_ne_zero _ _).symm
    obtain ⟨k, hk⟩ := Int.eq_ofNat_of_zero_le
      (show 0 ≤ e - (Int.log 2 |x| + 1 - p) by omega)
    refine roundBits_of_mul (m := (m * 2 ^ k : ℕ)) ?_
    calc x = m * 2 ^ ((k : ℤ) + (Int.log 2 |x| + 1 - p)) := by
          rw [← hk, sub_add_cancel]
          exact h
      _ = ((m * 2 ^ k : ℕ) : ℤ) * unitLastPlace p x := by
          rw [zpow_add₀ two_ne_zero, zpow_natCast, unitLastPlace]
          push_cast
          ring

/-- The leading bit of a positive number is not passed. -/
lemma roundBits_bounds (hx : 0 < x) (hp : 0 < p) :
    2 ^ Int.log 2 |x| ≤ roundBits p x ∧ roundBits p x ≤ 2 ^ (Int.log 2 |x| + 1) := by
  have hunit := unitLastPlace_pos p x
  obtain ⟨q, rfl⟩ : ∃ q, p = q + 1 := ⟨p - 1, by omega⟩
  have hlow : unitLastPlace (q + 1) x * 2 ^ q = 2 ^ Int.log 2 |x| := by
    rw [unitLastPlace, ← zpow_natCast (2 : ℚ) q, ← zpow_add₀ two_ne_zero]
    congr 1
    push_cast
    ring
  constructor
  · have hdiv : ((2 ^ q : ℤ) : ℚ) ≤ x / unitLastPlace (q + 1) x := by
      rw [le_div_iff₀ hunit, mul_comm]
      push_cast
      exact hlow.trans_le (zpow_log_le hx)
    have hround := roundHalfEven_mono hdiv
    rw [roundHalfEven_intCast] at hround
    rw [← hlow, mul_comm]
    exact mul_le_mul_of_nonneg_right (by exact_mod_cast hround) hunit.le
  · have hdiv : x / unitLastPlace (q + 1) x ≤ ((2 ^ (q + 1) : ℤ) : ℚ) := by
      rw [div_le_iff₀ hunit, mul_comm]
      push_cast
      exact (lt_zpow_log hx).le.trans_eq (unitLastPlace_mul (q + 1) x).symm
    have hround := roundHalfEven_le hdiv
    rw [← unitLastPlace_mul (q + 1) x, mul_comm (unitLastPlace (q + 1) x)]
    exact mul_le_mul_of_nonneg_right (by exact_mod_cast hround) hunit.le

/-- Rounding keeps the order. -/
lemma roundBits_mono (hp : 0 < p) (hx : 0 ≤ x) (hxy : x ≤ y) : roundBits p x ≤ roundBits p y := by
  rcases hx.eq_or_lt with rfl | hx
  · rw [roundBits_zero]
    exact roundBits_nonneg hxy
  · have hy : 0 < y := hx.trans_le hxy
    have hlog : Int.log 2 |x| ≤ Int.log 2 |y| := by
      rw [abs_of_pos hx, abs_of_pos hy]
      exact Int.log_mono_right hx hxy
    rcases hlog.eq_or_lt with heq | hlt
    · have hunit : unitLastPlace p x = unitLastPlace p y := by rw [unitLastPlace, heq, unitLastPlace]
      have hround := roundHalfEven_mono (div_le_div_of_nonneg_right hxy (unitLastPlace_pos p y).le)
      rw [roundBits, roundBits, hunit]
      exact mul_le_mul_of_nonneg_right (by exact_mod_cast hround) (unitLastPlace_pos p y).le
    · calc roundBits p x ≤ 2 ^ (Int.log 2 |x| + 1) := (roundBits_bounds hx hp).2
        _ ≤ 2 ^ Int.log 2 |y| := zpow_le_zpow_right₀ one_le_two (by omega)
        _ ≤ roundBits p y := (roundBits_bounds hy hp).1

/-- The relative error is at most half a unit. -/
lemma abs_roundBits_sub_le (hx : 0 ≤ x) : |roundBits p x - x| ≤ x / 2 ^ p := by
  rcases hx.eq_or_lt with rfl | hx
  · simp
  · have hunit := unitLastPlace_pos p x
    have hsub : roundBits p x - x
        = (roundHalfEven (x / unitLastPlace p x) - x / unitLastPlace p x) * unitLastPlace p x := by
      rw [roundBits, sub_mul, div_mul_cancel₀ x hunit.ne']
    rw [hsub, abs_mul, abs_of_pos hunit, le_div_iff₀ (by positivity), mul_assoc, unitLastPlace_mul,
      zpow_add_one₀ two_ne_zero]
    calc |(roundHalfEven (x / unitLastPlace p x) : ℚ) - x / unitLastPlace p x|
          * (2 ^ Int.log 2 |x| * 2)
        ≤ 1 / 2 * (2 ^ Int.log 2 |x| * 2) :=
          mul_le_mul_of_nonneg_right (abs_roundHalfEven_sub_le _) (by positivity)
      _ = 2 ^ Int.log 2 |x| := by ring
      _ ≤ x := zpow_log_le hx

end KubeSafeScheduler
