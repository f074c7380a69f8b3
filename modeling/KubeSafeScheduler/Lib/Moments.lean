import Mathlib.Tactic
import Mathlib.Data.Matrix.Mul
import Mathlib.Algebra.BigOperators.Fin

/-!
Moments of finitely many vectors under a weighting.

* `weightedMean`, `weightedMoment`, `weightedCovariance`: the mean, the second
  moment and the covariance. The covariance is symmetric, and its quadratic form
  is the variance of the projections (`dotProduct_weightedCovariance`), so it is
  positive semi-definite.
* `runningWeight`: the weights of samples that are mixed into an average one
  after the other, the `k`-th with a factor `f k`. They sum to one
  (`sum_runningWeight`), and they are equal as long as `f k = 1/k`
  (`runningWeight_uniform`).
-/

namespace KubeSafeScheduler

open Matrix

variable {ι κ K : Type*} [Fintype ι] [Field K]

/-! ### The covariance of a weighting -/

/-- The mean of the vectors `x i` under the weights `w i`. -/
def weightedMean (w : ι → K) (x : ι → κ → K) : κ → K := fun j => ∑ i, w i * x i j

/-- The second moment: the mean of the outer products. -/
def weightedMoment (w : ι → K) (x : ι → κ → K) : Matrix κ κ K :=
  ∑ i, w i • vecMulVec (x i) (x i)

/-- The second moment about the mean. -/
def weightedCovariance (w : ι → K) (x : ι → κ → K) : Matrix κ κ K :=
  weightedMoment w x - vecMulVec (weightedMean w x) (weightedMean w x)

lemma weightedMoment_apply (w : ι → K) (x : ι → κ → K) (j k : κ) :
    weightedMoment w x j k = ∑ i, w i * (x i j * x i k) := by
  simp only [weightedMoment, Matrix.sum_apply, Matrix.smul_apply, vecMulVec_apply, smul_eq_mul]

lemma weightedMoment_isSymm (w : ι → K) (x : ι → κ → K) : (weightedMoment w x).IsSymm := by
  ext j k
  simp only [transpose_apply, weightedMoment_apply, mul_comm (x _ k)]

lemma weightedCovariance_isSymm (w : ι → K) (x : ι → κ → K) :
    (weightedCovariance w x).IsSymm := by
  ext j k
  simp only [transpose_apply, weightedCovariance, Matrix.sub_apply, vecMulVec_apply,
    (weightedMoment_isSymm w x).apply j k, mul_comm (weightedMean w x k)]

variable [Fintype κ]

omit [Fintype ι] in
lemma dotProduct_vecMulVec_self (u v : κ → K) :
    v ⬝ᵥ (vecMulVec u u *ᵥ v) = (v ⬝ᵥ u) ^ 2 := by
  rw [vecMulVec_mulVec, op_smul_eq_smul, dotProduct_smul, smul_eq_mul, dotProduct_comm u v, sq]

lemma dotProduct_weightedMean (w : ι → K) (x : ι → κ → K) (v : κ → K) :
    v ⬝ᵥ weightedMean w x = ∑ i, w i * (v ⬝ᵥ x i) := by
  simp only [dotProduct, weightedMean, Finset.mul_sum]
  rw [Finset.sum_comm]
  exact Finset.sum_congr rfl fun i _ => Finset.sum_congr rfl fun j _ => by ring

lemma dotProduct_weightedMoment (w : ι → K) (x : ι → κ → K) (v : κ → K) :
    v ⬝ᵥ (weightedMoment w x *ᵥ v) = ∑ i, w i * (v ⬝ᵥ x i) ^ 2 := by
  rw [weightedMoment, sum_mulVec, dotProduct_sum]
  refine Finset.sum_congr rfl fun i _ => ?_
  rw [smul_mulVec, dotProduct_smul, dotProduct_vecMulVec_self, smul_eq_mul]

/-- The quadratic form of the covariance is the variance of the projections. -/
lemma dotProduct_weightedCovariance {w : ι → K} (hw : ∑ i, w i = 1) (x : ι → κ → K) (v : κ → K) :
    v ⬝ᵥ (weightedCovariance w x *ᵥ v) = ∑ i, w i * (v ⬝ᵥ (x i - weightedMean w x)) ^ 2 := by
  have hmean := dotProduct_weightedMean w x v
  rw [weightedCovariance, sub_mulVec, dotProduct_sub, dotProduct_vecMulVec_self,
    dotProduct_weightedMoment]
  simp only [dotProduct_sub]
  generalize v ⬝ᵥ weightedMean w x = m at hmean ⊢
  calc ∑ i, w i * (v ⬝ᵥ x i) ^ 2 - m ^ 2
      = ∑ i, w i * (v ⬝ᵥ x i) ^ 2 - 2 * m * m + m ^ 2 * 1 := by ring
    _ = ∑ i, w i * (v ⬝ᵥ x i) ^ 2 - 2 * m * (∑ i, w i * (v ⬝ᵥ x i)) + m ^ 2 * ∑ i, w i := by
        rw [hw, ← hmean]
    _ = ∑ i, w i * (v ⬝ᵥ x i - m) ^ 2 := by
        rw [Finset.mul_sum, Finset.mul_sum, ← Finset.sum_sub_distrib, ← Finset.sum_add_distrib]
        exact Finset.sum_congr rfl fun i _ => by ring

/-- The covariance is positive semi-definite. -/
lemma dotProduct_weightedCovariance_nonneg [LinearOrder K] [IsStrictOrderedRing K] {w : ι → K}
    (hw : ∑ i, w i = 1) (hpos : ∀ i, 0 ≤ w i) (x : ι → κ → K) (v : κ → K) :
    0 ≤ v ⬝ᵥ (weightedCovariance w x *ᵥ v) := by
  rw [dotProduct_weightedCovariance hw]
  exact Finset.sum_nonneg fun i _ => mul_nonneg (hpos i) (sq_nonneg _)

/-! ### The weights of a running average -/

section Running

variable {K : Type*} [Field K]

/-- The weight of sample `i` after `n` samples, when the `k`-th sample enters
with factor `f k` and the average so far keeps `1 - f k`. -/
def runningWeight (f : ℕ → K) : ℕ → ℕ → K
  | 0, _ => 0
  | n + 1, i => if i = n then f (n + 1) else (1 - f (n + 1)) * runningWeight f n i

/-- One more sample: the weighted sum is mixed with the new value. -/
lemma sum_runningWeight_succ (f : ℕ → K) {n : ℕ} (y : Fin (n + 1) → K) :
    ∑ i : Fin (n + 1), runningWeight f (n + 1) i * y i
      = (1 - f (n + 1)) * ∑ i : Fin n, runningWeight f n i * y i.castSucc
        + f (n + 1) * y (Fin.last n) := by
  rw [Fin.sum_univ_castSucc, Finset.mul_sum]
  congr 1
  · refine Finset.sum_congr rfl fun i _ => ?_
    rw [runningWeight, Fin.val_castSucc, if_neg i.isLt.ne, mul_assoc]
  · rw [runningWeight, Fin.val_last, if_pos rfl]

/-- The weights sum to one when the first sample replaces everything. -/
lemma sum_runningWeight {f : ℕ → K} (hf : f 1 = 1) (n : ℕ) :
    ∑ i : Fin (n + 1), runningWeight f (n + 1) i = 1 := by
  have hsucc : ∀ m, ∑ i : Fin (m + 1), runningWeight f (m + 1) i
      = (1 - f (m + 1)) * (∑ i : Fin m, runningWeight f m i) + f (m + 1) := by
    intro m
    have h := sum_runningWeight_succ f (n := m) fun _ => 1
    simpa only [mul_one] using h
  induction n with
  | zero => simp [runningWeight, hf]
  | succ n ih =>
      rw [hsucc, ih]
      ring

lemma runningWeight_nonneg [LinearOrder K] [IsStrictOrderedRing K] {f : ℕ → K}
    (hf : ∀ k, 0 ≤ f (k + 1) ∧ f (k + 1) ≤ 1) (n i : ℕ) : 0 ≤ runningWeight f n i := by
  induction n with
  | zero => exact le_refl _
  | succ n ih =>
      rw [runningWeight]
      split_ifs
      · exact (hf n).1
      · exact mul_nonneg (sub_nonneg.mpr (hf n).2) ih

/-- While the factors are `1/k` every sample so far has the same weight. -/
lemma runningWeight_uniform [CharZero K] {f : ℕ → K} {n : ℕ}
    (hf : ∀ k < n, f (k + 1) = 1 / ((k + 1 : ℕ) : K)) {i : ℕ} (hi : i < n) :
    runningWeight f n i = 1 / (n : K) := by
  induction n with
  | zero => exact absurd hi (Nat.not_lt_zero i)
  | succ n ih =>
      rw [runningWeight, hf n (Nat.lt_succ_self n)]
      split_ifs with h
      · rfl
      · have hin : i < n := by omega
        have hn : (n : K) ≠ 0 := Nat.cast_ne_zero.mpr (by omega)
        have hn1 : ((n : K) + 1) ≠ 0 := by exact_mod_cast Nat.succ_ne_zero n
        rw [ih (fun k hk => hf k (by omega)) hin]
        push_cast
        field_simp
        ring

end Running

end KubeSafeScheduler
