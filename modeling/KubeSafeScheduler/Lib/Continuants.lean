import Mathlib.Tactic
import Mathlib.Algebra.ContinuedFractions.ContinuantsRecurrence

/-!
Continued fractions `1/(1 + d 1/(1 + d 2/(1 + ...)))` whose partial denominators
are all one.

* `continuant`: the two-term recurrence of their numerators and denominators,
  from any two first values.
* `unitFraction`: the continued fraction; `convs_unitFraction`: its convergents
  are the quotients of two continuants.
-/

namespace KubeSafeScheduler

variable {K : Type*}

section Semiring

variable [Semiring K]

/-- The recurrence `u (k + 2) = u (k + 1) + d (k + 2) * u k`. -/
def continuant (d : ℕ → K) (u₀ u₁ : K) : ℕ → K
  | 0 => u₀
  | 1 => u₁
  | k + 2 => continuant d u₀ u₁ (k + 1) + d (k + 2) * continuant d u₀ u₁ k

lemma continuant_add_two (d : ℕ → K) (u₀ u₁ : K) (k : ℕ) :
    continuant d u₀ u₁ (k + 2)
      = continuant d u₀ u₁ (k + 1) + d (k + 2) * continuant d u₀ u₁ k := rfl

end Semiring

variable [DivisionRing K]

/-- The continued fraction with partial numerators `1, d 1, d 2, ...`. -/
def unitFraction (d : ℕ → K) : GenContFract K :=
  ⟨0, Stream'.Seq.ofStream fun k => ⟨if k = 0 then 1 else d k, 1⟩⟩

lemma get?_unitFraction (d : ℕ → K) (k : ℕ) :
    (unitFraction d).s.get? k = some ⟨if k = 0 then 1 else d k, 1⟩ := rfl

lemma nums_unitFraction (d : ℕ → K) (k : ℕ) :
    (unitFraction d).nums (k + 1) = continuant d 1 1 k := by
  have hzero : (unitFraction d).nums 0 = 0 := GenContFract.zeroth_num_eq_h
  have hone : (unitFraction d).nums 1 = 1 := by
    rw [GenContFract.first_num_eq (get?_unitFraction d 0)]
    simp [unitFraction]
  induction k using Nat.twoStepInduction with
  | zero => exact hone
  | one =>
      rw [GenContFract.nums_recurrence (get?_unitFraction d 1) hzero hone]
      simp [continuant]
  | more k ih ih' =>
      rw [GenContFract.nums_recurrence (get?_unitFraction d (k + 2)) ih ih', continuant_add_two]
      simp

lemma dens_unitFraction (d : ℕ → K) (k : ℕ) :
    (unitFraction d).dens (k + 1) = continuant d 1 (1 + d 1) k := by
  have hzero : (unitFraction d).dens 0 = 1 := GenContFract.zeroth_den_eq_one
  have hone : (unitFraction d).dens 1 = 1 := by
    rw [GenContFract.first_den_eq (get?_unitFraction d 0)]
  induction k using Nat.twoStepInduction with
  | zero => exact hone
  | one =>
      rw [GenContFract.dens_recurrence (get?_unitFraction d 1) hzero hone]
      simp [continuant]
  | more k ih ih' =>
      rw [GenContFract.dens_recurrence (get?_unitFraction d (k + 2)) ih ih', continuant_add_two]
      simp

/-- The convergents are quotients of continuants. -/
lemma convs_unitFraction (d : ℕ → K) (k : ℕ) :
    (unitFraction d).convs (k + 1) = continuant d 1 1 k / continuant d 1 (1 + d 1) k := by
  rw [GenContFract.conv_eq_num_div_den, nums_unitFraction, dens_unitFraction]

end KubeSafeScheduler
