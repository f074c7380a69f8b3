import Mathlib.Probability.Distributions.Beta
import Mathlib.Analysis.SpecialFunctions.Pow.Real
import Mathlib.Tactic

/-!
The order of the Beta distributions by their shape parameters.

* `setLIntegral_Iic_le_of_crossing`: of two probability densities whose ratio
  crosses a constant once, the one that is larger on the left has the larger
  distribution function.
* `betaCdf`: the distribution function of a Beta distribution.
* `betaCdf_le_of_shape`: a smaller first and a larger second parameter move the
  mass to the left.
* `betaCdf_one`: all the mass is below one; `le_betaCdf_one_one`: the uniform
  distribution.
-/

namespace KubeSafeScheduler

open MeasureTheory ProbabilityTheory Set
open scoped ENNReal

/-! ### Densities that cross once -/

/-- Two probability densities `f` and `g` with `g ≥ r f` up to `x` and
`g ≤ r f` after it: up to `x`, `g` has at least the mass of `f`. -/
lemma setLIntegral_Iic_le_of_crossing {f g : ℝ → ℝ≥0∞} {r : ℝ≥0∞} {x : ℝ}
    (hf : ∫⁻ y, f y = 1) (hg : ∫⁻ y, g y = 1)
    (hleft : ∀ y ≤ x, r * f y ≤ g y) (hright : ∀ y, x < y → g y ≤ r * f y) :
    ∫⁻ y in Iic x, f y ≤ ∫⁻ y in Iic x, g y := by
  have hsplit (h : ℝ → ℝ≥0∞) :
      (∫⁻ y in Iic x, h y) + ∫⁻ y in Ioi x, h y = ∫⁻ y, h y := by
    rw [← compl_Iic]
    exact lintegral_add_compl h measurableSet_Iic
  rcases le_total 1 r with hr | hr
  · -- the density `g` is larger everywhere up to `x`
    refine setLIntegral_mono_ae' measurableSet_Iic (.of_forall fun y hy => ?_)
    calc f y = 1 * f y := (one_mul _).symm
      _ ≤ r * f y := mul_le_mul_left hr _
      _ ≤ g y := hleft y hy
  · -- the density `f` is larger everywhere after `x`
    have htail : ∫⁻ y in Ioi x, g y ≤ ∫⁻ y in Ioi x, f y := by
      refine setLIntegral_mono_ae' measurableSet_Ioi (.of_forall fun y hy => ?_)
      calc g y ≤ r * f y := hright y hy
        _ ≤ 1 * f y := mul_le_mul_left hr _
        _ = f y := one_mul _
    have hfinite : ∫⁻ y in Ioi x, f y ≠ ∞ := by
      refine ne_top_of_le_ne_top ENNReal.one_ne_top ?_
      rw [← hf, ← hsplit f]
      exact le_add_self
    refine (ENNReal.add_le_add_iff_right hfinite).mp ?_
    calc (∫⁻ y in Iic x, f y) + ∫⁻ y in Ioi x, f y
        = (∫⁻ y in Iic x, g y) + ∫⁻ y in Ioi x, g y := by rw [hsplit, hsplit, hf, hg]
      _ ≤ (∫⁻ y in Iic x, g y) + ∫⁻ y in Ioi x, f y := add_le_add_right htail _

/-! ### The distribution function -/

/-- The distribution function of the Beta distribution with shape parameters `a`
and `b`. -/
noncomputable def betaCdf (a b x : ℝ) : ℝ := (betaMeasure a b).real (Iic x)

variable {a b a' b' : ℝ}

lemma betaCdf_nonneg (a b x : ℝ) : 0 ≤ betaCdf a b x := measureReal_nonneg

lemma betaCdf_le_one (ha : 0 < a) (hb : 0 < b) (x : ℝ) : betaCdf a b x ≤ 1 :=
  have := isProbabilityMeasureBeta ha hb
  measureReal_le_one

lemma betaMeasure_Iic (a b x : ℝ) : betaMeasure a b (Iic x) = ∫⁻ y in Iic x, betaPDF a b y :=
  withDensity_apply _ measurableSet_Iic

/-- All the mass is below one. -/
lemma betaCdf_one (ha : 0 < a) (hb : 0 < b) {x : ℝ} (hx : 1 ≤ x) : betaCdf a b x = 1 := by
  have hmeasure : betaMeasure a b (Iic x) = 1 := by
    have htail : ∫⁻ y in (Iic x)ᶜ, betaPDF a b y = 0 := by
      rw [compl_Iic]
      exact setLIntegral_eq_zero measurableSet_Ioi fun y hy =>
        betaPDF_eq_zero_of_one_le (hx.trans (le_of_lt hy))
    have hsplit := lintegral_add_compl (μ := volume) (betaPDF a b) (measurableSet_Iic (a := x))
    rwa [htail, add_zero, lintegral_betaPDF_eq_one ha hb, ← betaMeasure_Iic] at hsplit
  rw [betaCdf, measureReal_def, hmeasure, ENNReal.toReal_one]

/-! ### The ratio of two densities -/

/-- The distribution with both parameters one is uniform. -/
lemma le_betaCdf_one_one {x : ℝ} (h0 : 0 ≤ x) (h1 : x ≤ 1) : x ≤ betaCdf 1 1 x := by
  have := isProbabilityMeasureBeta (α := 1) (β := 1) one_pos one_pos
  have hbeta : beta 1 1 = 1 := by norm_num [beta, Real.Gamma_two]
  have hdensity : ∀ t ∈ Ioo 0 x, betaPDF 1 1 t = 1 := by
    intro t ht
    rw [betaPDF_of_pos_lt_one ht.1 (ht.2.trans_le h1)]
    simp [hbeta]
  have hmass : betaMeasure 1 1 (Ioo 0 x) = ENNReal.ofReal x := by
    rw [betaMeasure, withDensity_apply _ measurableSet_Ioo,
      setLIntegral_congr_fun measurableSet_Ioo hdensity, setLIntegral_one, Real.volume_Ioo,
      sub_zero]
  calc x = (betaMeasure 1 1).real (Ioo 0 x) := by
        rw [measureReal_def, hmass, ENNReal.toReal_ofReal h0]
    _ ≤ betaCdf 1 1 x := measureReal_mono (Ioo_subset_Iio_self.trans Iio_subset_Iic_self)

/-- The ratio of the densities with parameters `a'`, `b'` and `a`, `b`. -/
noncomputable def betaRatio (a b a' b' x : ℝ) : ℝ :=
  beta a b / beta a' b' * x ^ (a' - a) * (1 - x) ^ (b' - b)

lemma betaRatio_nonneg (ha : 0 < a) (hb : 0 < b) (ha' : 0 < a') (hb' : 0 < b') {x : ℝ}
    (h0 : 0 < x) (h1 : x < 1) : 0 ≤ betaRatio a b a' b' x := by
  have hc : 0 < beta a b / beta a' b' := div_pos (beta_pos ha hb) (beta_pos ha' hb')
  have hpow := Real.rpow_nonneg h0.le (a' - a)
  have hpow' := Real.rpow_nonneg (sub_nonneg.mpr h1.le) (b' - b)
  exact mul_nonneg (mul_nonneg hc.le hpow) hpow'

/-- The ratio falls when `a' ≤ a` and `b ≤ b'`. -/
lemma betaRatio_anti (ha : 0 < a) (hb : 0 < b) (ha' : 0 < a') (hb' : 0 < b') (hle : a' ≤ a)
    (hle' : b ≤ b') {x y : ℝ} (h0 : 0 < x) (hxy : x ≤ y) (h1 : y < 1) :
    betaRatio a b a' b' y ≤ betaRatio a b a' b' x := by
  have hc : 0 < beta a b / beta a' b' := div_pos (beta_pos ha hb) (beta_pos ha' hb')
  have hx : y ^ (a' - a) ≤ x ^ (a' - a) :=
    Real.rpow_le_rpow_of_nonpos h0 hxy (sub_nonpos.mpr hle)
  have hy : (1 - y) ^ (b' - b) ≤ (1 - x) ^ (b' - b) :=
    Real.rpow_le_rpow (by linarith) (by linarith) (sub_nonneg.mpr hle')
  have hpow := Real.rpow_nonneg h0.le (a' - a)
  have hpow' := Real.rpow_nonneg (sub_nonneg.mpr h1.le) (b' - b)
  exact mul_le_mul (mul_le_mul_of_nonneg_left hx hc.le) hy hpow' (mul_nonneg hc.le hpow)

lemma betaPDF_eq_ratio_mul (ha : 0 < a) (hb : 0 < b) (ha' : 0 < a') (hb' : 0 < b') {x : ℝ}
    (h0 : 0 < x) (h1 : x < 1) :
    betaPDF a' b' x = ENNReal.ofReal (betaRatio a b a' b' x) * betaPDF a b x := by
  have hx1 : 0 < 1 - x := sub_pos.mpr h1
  have hne := (beta_pos ha hb).ne'
  have hne' := (beta_pos ha' hb').ne'
  rw [betaPDF_of_pos_lt_one h0 h1, betaPDF_of_pos_lt_one h0 h1,
    ← ENNReal.ofReal_mul (betaRatio_nonneg ha hb ha' hb' h0 h1)]
  congr 1
  have hpow : x ^ (a' - 1) = x ^ (a' - a) * x ^ (a - 1) := by
    rw [← Real.rpow_add h0]
    ring_nf
  have hpow' : (1 - x) ^ (b' - 1) = (1 - x) ^ (b' - b) * (1 - x) ^ (b - 1) := by
    rw [← Real.rpow_add hx1]
    ring_nf
  rw [hpow, hpow', betaRatio]
  field_simp

/-- A smaller first and a larger second parameter move the mass to the left. -/
theorem betaCdf_le_of_shape (ha : 0 < a) (hb : 0 < b) (ha' : 0 < a') (hb' : 0 < b') (hle : a' ≤ a)
    (hle' : b ≤ b') (x : ℝ) : betaCdf a b x ≤ betaCdf a' b' x := by
  rcases le_or_gt 1 x with h1 | h1
  · rw [betaCdf_one ha hb h1, betaCdf_one ha' hb' h1]
  rcases le_or_gt x 0 with h0 | h0
  · have hzero : betaCdf a b x = 0 := by
      rw [betaCdf, measureReal_def, betaMeasure_Iic,
        setLIntegral_eq_zero measurableSet_Iic fun y hy =>
          betaPDF_eq_zero_of_nonpos (le_trans hy h0), ENNReal.toReal_zero]
    rw [hzero]
    exact betaCdf_nonneg a' b' x
  · have hfinite : betaMeasure a' b' (Iic x) ≠ ∞ :=
      have := isProbabilityMeasureBeta ha' hb'
      measure_ne_top _ _
    refine ENNReal.toReal_mono hfinite ?_
    rw [betaMeasure_Iic, betaMeasure_Iic]
    -- the ratio of the densities at `x` is where they cross
    refine setLIntegral_Iic_le_of_crossing (r := ENNReal.ofReal (betaRatio a b a' b' x))
      (lintegral_betaPDF_eq_one ha hb) (lintegral_betaPDF_eq_one ha' hb') ?_ ?_
    · intro y hy
      rcases le_or_gt y 0 with hy0 | hy0
      · rw [betaPDF_eq_zero_of_nonpos hy0, mul_zero]
        exact zero_le
      · rw [betaPDF_eq_ratio_mul ha hb ha' hb' hy0 (hy.trans_lt h1)]
        gcongr
        exact betaRatio_anti ha hb ha' hb' hle hle' hy0 hy h1
    · intro y hy
      rcases le_or_gt 1 y with hy1 | hy1
      · rw [betaPDF_eq_zero_of_one_le hy1]
        exact zero_le
      · rw [betaPDF_eq_ratio_mul ha hb ha' hb' (h0.trans hy) hy1]
        gcongr
        exact betaRatio_anti ha hb ha' hb' hle hle' h0 hy.le hy1

end KubeSafeScheduler
