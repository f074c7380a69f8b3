import Mathlib.Tactic
import Mathlib.LinearAlgebra.Matrix.Defs
import Mathlib.Algebra.BigOperators.Fin
import KubeSafeScheduler.Lib.Exact
import KubeSafeScheduler.Lib.Moments

/-!
`utils/matrix.c` and the part of `utils/array.c` it uses, in exact arithmetic:
an array of numbers is a function on `Fin p`, a matrix a Mathlib matrix.

* `matrixAverage`, `matrixCovariance`, `covarianceFromStats`: the first and
  second moments of the columns of a data matrix.
* `matrixCofactor`, `matrixDeterminant`, `matrixAdjoint`, `matrixInverse`: the
  inverse by cofactors.
* `coefficientVariationFromStats`: the scalar coefficient of variation of a
  multivariate, by either of the two methods of `matrix_cov_method`.
* `albertZhangNom_covariance`: for the moments of a data matrix the numerator is
  the variance of the columns projected on the average;
  `coefficientVariation_albertZhang`: the coefficient is zero exactly when the
  projections are equal.
-/

namespace KubeSafeScheduler.Pigeon

variable {K : Type} [Field K] [LinearOrder K]

/-! ### Products with arrays -/

/-- `array_sum`. -/
def arraySum {p : ℕ} (x : Fin p → K) : K := ∑ i, x i

/-- `array_multiply`: the entrywise product. -/
def arrayMultiply {p : ℕ} (x y : Fin p → K) : Fin p → K := fun i => x i * y i

/-- `matrix_multiply_left`: the row vector `x` times the matrix. -/
def matrixMultiplyLeft {k n : ℕ} (y : Matrix (Fin k) (Fin n) K) (x : Fin k → K) : Fin n → K :=
  fun i => ∑ l, x l * y l i

/-! ### Moments -/

/-- `matrix_average`: the average of each row, zero when there is no column. -/
def matrixAverage {p n : ℕ} (x : Matrix (Fin p) (Fin n) K) : Fin p → K :=
  if n = 0 then fun _ => 0 else fun i => (∑ j, x i j) / n

/-- `matrix_covariance`: the lower triangle is computed and copied to the upper
one. -/
def matrixCovariance {p n : ℕ} (x : Matrix (Fin p) (Fin n) K) : Matrix (Fin p) (Fin p) K :=
  if n = 0 then 0
  else
    let entry i j := (∑ l, x i l * x j l) / n - matrixAverage x i * matrixAverage x j
    Matrix.of fun i j => if j ≤ i then entry i j else entry j i

/-- `matrix_covariance_from_stats`: the covariance from the second moment and
the average, `NULL` for an empty array; again the lower triangle is copied. -/
def covarianceFromStats {p : ℕ} (mu2 : Matrix (Fin p) (Fin p) K) (mu : Fin p → K) :
    Option (Matrix (Fin p) (Fin p) K) :=
  if p = 0 then none
  else
    let entry i j := mu2 i j - mu i * mu j
    some (Matrix.of fun i j => if j ≤ i then entry i j else entry j i)

/-! ### The inverse by cofactors -/

/-- `matrix_cofactor` of a matrix with at least two rows: row `p` and column
`q` are skipped. -/
def matrixCofactor {n : ℕ} (x : Matrix (Fin (n + 2)) (Fin (n + 2)) K) (p q : Fin (n + 2)) :
    Matrix (Fin (n + 1)) (Fin (n + 1)) K :=
  Matrix.of fun i j => x (p.succAbove i) (q.succAbove j)

/-- `matrix_determinant`: expansion along the first row with alternating
signs. -/
def matrixDeterminant : ∀ {n : ℕ}, Matrix (Fin n) (Fin n) K → K
  | 0, _ => 0
  | 1, x => x 0 0
  | n + 2, x => ∑ j : Fin (n + 2), (-1) ^ (j : ℕ) * x 0 j * matrixDeterminant (matrixCofactor x 0 j)

/-- `matrix_adjoint`: the transposed matrix of signed cofactor determinants. -/
def matrixAdjoint : ∀ {n : ℕ}, Matrix (Fin n) (Fin n) K → Matrix (Fin n) (Fin n) K
  | 0, x => x
  | 1, _ => Matrix.of fun _ _ => 1
  | _ + 2, x => Matrix.of fun j i =>
      (if ((i : ℕ) + j) % 2 = 0 then 1 else -1) * matrixDeterminant (matrixCofactor x i j)

/-- `matrix_inverse`: `NULL` when the determinant is zero. -/
def matrixInverse {n : ℕ} (x : Matrix (Fin n) (Fin n) K) : Option (Matrix (Fin n) (Fin n) K) :=
  let det := matrixDeterminant x
  if det = 0 then none else some (Matrix.of fun i j => matrixAdjoint x i j * (1 / det))

/-! ### The coefficient of variation -/

/-- `matrix_cov_method`. -/
inductive CovMethod where
  | albertZhang
  | voinovNikulin
  deriving DecidableEq, Repr

variable [HasSqrt K]

/-- The numerator `nom` of the method of Albert and Zhang, before the clamp:
`mu` times `sigma` times `mu`. -/
def albertZhangNom {p : ℕ} (sigma : Matrix (Fin p) (Fin p) K) (mu : Fin p → K) : K :=
  arraySum (arrayMultiply (matrixMultiplyLeft sigma mu) mu)

/-- The denominator of the method of Albert and Zhang. -/
def albertZhangDenom {p : ℕ} (mu : Fin p → K) : K := arraySum (arrayMultiply mu mu)

/-- `matrix_coefficient_variation_from_stats`: the one-dimensional coefficient
for a single variable, otherwise the method asked for. -/
def coefficientVariationFromStats {p : ℕ} (sigma : Matrix (Fin p) (Fin p) K) (mu : Fin p → K)
    (method : CovMethod) : K :=
  if hp : p = 0 then 0
  else if p = 1 then
    let i : Fin p := ⟨0, Nat.pos_of_ne_zero hp⟩
    if mu i ≠ 0 ∧ 0 ≤ sigma i i then HasSqrt.sqrt (sigma i i) / mu i else 0
  else
    match method with
    | .albertZhang =>
        let nom := max (albertZhangNom sigma mu) 0
        let denom := albertZhangDenom mu
        if 0 < denom ∧ 0 < nom then HasSqrt.sqrt nom / denom else 0
    | .voinovNikulin =>
        match matrixInverse sigma with
        | none => 0
        | some inv =>
            let denom := albertZhangNom inv mu
            if 0 < denom then 1 / HasSqrt.sqrt denom else 0

/-! ### The coefficient of a data matrix -/

section Data

open Matrix

omit [LinearOrder K] [HasSqrt K]

/-- The columns of a data matrix have equal weights. -/
lemma matrixAverage_eq_weightedMean {p n : ℕ} (hn : n ≠ 0) (x : Matrix (Fin p) (Fin n) K) :
    matrixAverage x = weightedMean (fun _ => 1 / (n : K)) x.col := by
  funext i
  rw [matrixAverage, if_neg hn, weightedMean, ← Finset.mul_sum]
  simp only [Matrix.col_apply]
  ring

lemma matrixCovariance_eq_weightedCovariance {p n : ℕ} (hn : n ≠ 0)
    (x : Matrix (Fin p) (Fin n) K) :
    matrixCovariance x = weightedCovariance (fun _ => 1 / (n : K)) x.col := by
  have hentry : ∀ i j, (∑ l, x i l * x j l) / n - matrixAverage x i * matrixAverage x j
      = weightedCovariance (fun _ => 1 / (n : K)) x.col i j := by
    intro i j
    rw [weightedCovariance, Matrix.sub_apply, weightedMoment_apply, vecMulVec_apply,
      ← matrixAverage_eq_weightedMean hn, ← Finset.mul_sum]
    simp only [Matrix.col_apply]
    ring
  ext i j
  simp only [matrixCovariance, if_neg hn, of_apply, hentry]
  split_ifs
  · rfl
  · exact (weightedCovariance_isSymm _ _).apply i j

lemma albertZhangNom_eq_dotProduct {p : ℕ} (sigma : Matrix (Fin p) (Fin p) K) (mu : Fin p → K) :
    albertZhangNom sigma mu = mu ⬝ᵥ (sigma *ᵥ mu) := by
  rw [dotProduct_mulVec]
  rfl

/-- The numerator from the second moments: the mean of the squared projections on
the average, less the square of the denominator. -/
lemma albertZhangNom_eq_sub {p n : ℕ} (hn : n ≠ 0) (x : Matrix (Fin p) (Fin n) K) :
    albertZhangNom (matrixCovariance x) (matrixAverage x)
      = (∑ l, (∑ i, matrixAverage x i * x i l) ^ 2) / n
        - albertZhangDenom (matrixAverage x) ^ 2 := by
  rw [albertZhangNom_eq_dotProduct, matrixCovariance_eq_weightedCovariance hn, weightedCovariance,
    sub_mulVec, dotProduct_sub, dotProduct_vecMulVec_self, dotProduct_weightedMoment,
    ← matrixAverage_eq_weightedMean hn, ← Finset.mul_sum, one_div_mul_eq_div]
  rfl

variable [CharZero K]

/-- The numerator is the variance of the columns projected on the average. -/
lemma albertZhangNom_covariance {p n : ℕ} (hn : n ≠ 0) (x : Matrix (Fin p) (Fin n) K) :
    albertZhangNom (matrixCovariance x) (matrixAverage x)
      = 1 / (n : K) * ∑ l, (∑ i, matrixAverage x i * (x i l - matrixAverage x i)) ^ 2 := by
  have hweights : ∑ _l : Fin n, 1 / (n : K) = 1 := by
    have hcast : (n : K) ≠ 0 := Nat.cast_ne_zero.mpr hn
    rw [Finset.sum_const, Finset.card_univ, Fintype.card_fin, nsmul_eq_mul,
      mul_one_div_cancel hcast]
  rw [albertZhangNom_eq_dotProduct, matrixCovariance_eq_weightedCovariance hn,
    dotProduct_weightedCovariance hweights, ← matrixAverage_eq_weightedMean hn, Finset.mul_sum]
  rfl

end Data

section Real

/-- A quotient under a guard grows with its numerator, if the guard does. -/
lemma ite_div_le_ite_div {P Q : Prop} [Decidable P] [Decidable Q] {x y c : ℝ} (h : P → Q)
    (hxy : x ≤ y) (hy : 0 ≤ y) (hc : Q → 0 ≤ c) :
    (if P then x / c else 0) ≤ if Q then y / c else 0 := by
  by_cases hQ : Q
  · rw [if_pos hQ]
    split_ifs
    · exact div_le_div_of_nonneg_right hxy (hc hQ)
    · exact div_nonneg hy (hc hQ)
  · rw [if_neg hQ, if_neg fun hP => hQ (h hP)]

/-- The coefficient grows with the numerator, for averages that are not
negative; for a single variable, with its variance. -/
lemma coefficientVariationFromStats_mono {p : ℕ} {sigma sigma' : Matrix (Fin p) (Fin p) ℝ}
    {mu : Fin p → ℝ} (hmu : ∀ i, 0 ≤ mu i) (hvar : p = 1 → ∀ i, sigma i i ≤ sigma' i i)
    (hnom : albertZhangNom sigma mu ≤ albertZhangNom sigma' mu) :
    coefficientVariationFromStats sigma mu .albertZhang
      ≤ coefficientVariationFromStats sigma' mu .albertZhang := by
  rw [coefficientVariationFromStats, coefficientVariationFromStats]
  by_cases hp : p = 0
  · rw [dif_pos hp, dif_pos hp]
  · rw [dif_neg hp, dif_neg hp]
    by_cases hp1 : p = 1
    · rw [if_pos hp1, if_pos hp1]
      have hle := hvar hp1 ⟨0, Nat.pos_of_ne_zero hp⟩
      exact ite_div_le_ite_div (fun h => ⟨h.1, h.2.trans hle⟩) (Real.sqrt_le_sqrt hle)
        (Real.sqrt_nonneg _) fun _ => hmu _
    · rw [if_neg hp1, if_neg hp1]
      have hle := max_le_max hnom (le_refl (0 : ℝ))
      exact ite_div_le_ite_div (fun h => ⟨h.1, h.2.trans_le hle⟩) (Real.sqrt_le_sqrt hle)
        (Real.sqrt_nonneg _) fun h => h.1.le

variable {p n : ℕ} (x : Matrix (Fin p) (Fin n) ℝ)

lemma albertZhangNom_covariance_nonneg (hn : n ≠ 0) :
    0 ≤ albertZhangNom (matrixCovariance x) (matrixAverage x) := by
  rw [albertZhangNom_covariance hn]
  exact mul_nonneg (by positivity) (Finset.sum_nonneg fun l _ => sq_nonneg _)

/-- The numerator is zero when the columns have one projection on the average. -/
lemma albertZhangNom_covariance_eq_zero (hn : n ≠ 0) :
    albertZhangNom (matrixCovariance x) (matrixAverage x) = 0
      ↔ ∀ l l', ∑ i, matrixAverage x i * x i l = ∑ i, matrixAverage x i * x i l' := by
  have hcast : (n : ℝ) ≠ 0 := Nat.cast_ne_zero.mpr hn
  have hproj : ∀ l, ∑ i, matrixAverage x i * (x i l - matrixAverage x i)
      = ∑ i, matrixAverage x i * x i l - ∑ i, matrixAverage x i * matrixAverage x i := by
    intro l
    rw [← Finset.sum_sub_distrib]
    exact Finset.sum_congr rfl fun i _ => by ring
  rw [albertZhangNom_covariance hn, mul_eq_zero,
    Finset.sum_eq_zero_iff_of_nonneg fun l _ => sq_nonneg _]
  simp only [one_div, inv_eq_zero, hcast, false_or, Finset.mem_univ, true_implies, hproj,
    pow_eq_zero_iff two_ne_zero, sub_eq_zero]
  constructor
  · intro h l l'
    rw [h l, h l']
  · -- the mean of equal projections is that projection
    intro h l
    have hmean : ∑ i, matrixAverage x i * matrixAverage x i
        = (∑ l', ∑ i, matrixAverage x i * x i l') / n := by
      rw [Finset.sum_comm, Finset.sum_div]
      refine Finset.sum_congr rfl fun i _ => ?_
      rw [← Finset.mul_sum, mul_div_assoc]
      congr 1
      rw [matrixAverage, if_neg hn]
    rw [hmean, Finset.sum_congr rfl fun l' _ => h l' l, Finset.sum_const, Finset.card_univ,
      Fintype.card_fin, nsmul_eq_mul, mul_div_cancel_left₀ _ hcast]

lemma albertZhangDenom_pos_iff (mu : Fin p → ℝ) : 0 < albertZhangDenom mu ↔ mu ≠ 0 := by
  have hnonneg : ∀ i ∈ Finset.univ, 0 ≤ mu i * mu i := fun i _ => mul_self_nonneg _
  have hsum : 0 ≤ albertZhangDenom mu := Finset.sum_nonneg hnonneg
  rw [lt_iff_le_and_ne, and_iff_right hsum, ne_comm, not_iff_not]
  constructor
  · intro h
    funext i
    have hi := (Finset.sum_eq_zero_iff_of_nonneg hnonneg).mp h i (Finset.mem_univ i)
    exact mul_self_eq_zero.mp hi
  · rintro rfl
    simp [albertZhangDenom, arraySum, arrayMultiply]

/-- The coefficient of variation of a data matrix by the method of Albert and
Zhang: the covariance is symmetric, the numerator is a variance, so that the
clamp never acts, and the coefficient is zero exactly when all columns have the
same projection on the average. -/
theorem coefficientVariation_albertZhang (hp : 2 ≤ p) (hn : 1 ≤ n) :
    (matrixCovariance x).IsSymm
      ∧ albertZhangNom (matrixCovariance x) (matrixAverage x)
        = 1 / (n : ℝ) * ∑ l, (∑ i, matrixAverage x i * (x i l - matrixAverage x i)) ^ 2
      ∧ 0 ≤ albertZhangNom (matrixCovariance x) (matrixAverage x)
      ∧ max (albertZhangNom (matrixCovariance x) (matrixAverage x)) 0
        = albertZhangNom (matrixCovariance x) (matrixAverage x)
      ∧ (coefficientVariationFromStats (matrixCovariance x) (matrixAverage x) .albertZhang = 0
        ↔ (∀ l l', ∑ i, matrixAverage x i * x i l = ∑ i, matrixAverage x i * x i l')
          ∨ matrixAverage x = 0) := by
  have hn0 : n ≠ 0 := by omega
  have hnonneg := albertZhangNom_covariance_nonneg x hn0
  refine ⟨?_, albertZhangNom_covariance hn0 x, hnonneg, max_eq_left hnonneg, ?_⟩
  · rw [matrixCovariance_eq_weightedCovariance hn0]
    exact weightedCovariance_isSymm _ _
  · rw [← albertZhangNom_covariance_eq_zero x hn0, coefficientVariationFromStats,
      dif_neg (by omega), if_neg (by omega)]
    simp only [max_eq_left hnonneg, albertZhangDenom_pos_iff]
    split_ifs with h
    · have hdenom := (albertZhangDenom_pos_iff _).mpr h.1
      have hpos : 0 < HasSqrt.sqrt (albertZhangNom (matrixCovariance x) (matrixAverage x))
          / albertZhangDenom (matrixAverage x) := div_pos (Real.sqrt_pos.mpr h.2) hdenom
      exact ⟨fun h0 => absurd h0 hpos.ne', fun h0 => absurd h0 (not_or.mpr ⟨h.2.ne', h.1⟩)⟩
    · refine ⟨fun _ => ?_, fun _ => rfl⟩
      by_cases hmu : matrixAverage x = 0
      · exact Or.inr hmu
      · exact Or.inl (le_antisymm (not_lt.mp fun hpos => h ⟨hmu, hpos⟩) hnonneg)

end Real

theorem coefficientVariation_albertZhang_two :
    albertZhangNom (matrixCovariance !![(1 : ℝ), 3; 2, 2]) (matrixAverage !![1, 3; 2, 2]) = 4 := by
  rw [(coefficientVariation_albertZhang !![(1 : ℝ), 3; 2, 2] (le_refl 2) (by omega)).2.1]
  simp [matrixAverage, Fin.sum_univ_two]
  norm_num

end KubeSafeScheduler.Pigeon
