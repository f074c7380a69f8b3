import Mathlib.Tactic
import KubeSafeScheduler.Safe.Stats

/-!
`beta/betaDist.go`: a Beta distribution and the fit of its two shapes to a mean
and a second moment, in exact arithmetic.

* `BetaDistribution`, `newBetaDistribution`, `computeMoments`, `matchMoments`: the
  structure and its methods, each of which gives the changed structure back.
* `Existing`: the distributions a program can hold, from the constructor by any
  number of fits. They are valid (`Existing.isValid`), which `computeMoments`
  asks for.
* `computeMoments_fit`: the shapes of a mean `m` and a size `t` have mean `m` and
  variance `m * (1 - m) / (t + 1)`, so the fit inverts the moments
  (`size_variance`).
* `matchMoments_spec`: the fit succeeds exactly for the moments of some Beta
  distribution, and changes nothing elsewhere.
-/

namespace KubeSafeScheduler.Beta

variable {K : Type} [Field K]

/-- `BetaDistribution`. -/
structure BetaDistribution (K : Type) where
  alpha : K
  beta : K
  isValid : Bool
  firstMoment : K
  secondMoment : K
  thirdMoment : K
  deriving DecidableEq

/-- `computeMoments`. -/
def computeMoments (d : BetaDistribution K) : Bool × BetaDistribution K :=
  if d.isValid = false then (false, d)
  else
    let firstMoment := d.alpha / (d.alpha + d.beta)
    let secondMoment := firstMoment * (d.alpha + 1) / (d.alpha + d.beta + 1)
    let thirdMoment :=
      secondMoment * (d.alpha + ((2 : ℕ) : K)) / (d.alpha + d.beta + ((2 : ℕ) : K))
    (true, { d with firstMoment, secondMoment, thirdMoment })

@[simp] lemma computeMoments_isValid (d : BetaDistribution K) :
    (computeMoments d).2.isValid = d.isValid := by
  rw [computeMoments]
  split_ifs <;> rfl

variable [LinearOrder K]

/-- `checkValidity`. -/
def checkValidity (alpha beta : K) : Bool := decide (0 < alpha) && decide (0 < beta)

/-- `NewBetaDistribution`. -/
def newBetaDistribution (alpha beta : K) : Option (BetaDistribution K) :=
  if checkValidity alpha beta = false then none
  else some (computeMoments ⟨alpha, beta, true, 0, 0, 0⟩).2

/-- `Mean`. -/
def BetaDistribution.mean (d : BetaDistribution K) : K := d.firstMoment

/-- `Variance`. -/
def BetaDistribution.variance (d : BetaDistribution K) : K :=
  d.secondMoment - d.firstMoment * d.firstMoment

/-- `math.Max` with the smallest positive float: among floats no positive one is
below it. -/
def maxSmallestNonzero (temp : K) : K :=
  if 0 < temp then temp else Safe.smallestNonzeroFloat64

/-- `MatchMoments`. -/
def matchMoments (m1 m2 : K) (d : BetaDistribution K) : Bool × BetaDistribution K :=
  let variance := m2 - m1 * m1
  if m1 < 0 ∨ 1 < m1 ∨ variance < 0 ∨ m1 * (1 - m1) ≤ variance then (false, d)
  else
    let temp := maxSmallestNonzero (m1 * (1 - m1) / variance - 1)
    computeMoments { d with alpha := m1 * temp, beta := (1 - m1) * temp }

/-! ### The distributions of a program -/

/-- What the constructor and any number of fits make. -/
inductive Existing : BetaDistribution K → Prop
  | new {alpha beta : K} {d : BetaDistribution K} :
      newBetaDistribution alpha beta = some d → Existing d
  | matched {d : BetaDistribution K} (m1 m2 : K) :
      Existing d → Existing (matchMoments m1 m2 d).2

@[simp] lemma matchMoments_isValid (m1 m2 : K) (d : BetaDistribution K) :
    (matchMoments m1 m2 d).2.isValid = d.isValid := by
  simp only [matchMoments]
  split_ifs
  · rfl
  · exact computeMoments_isValid _

lemma Existing.isValid {d : BetaDistribution K} (h : Existing d) : d.isValid = true := by
  induction h with
  | new hd =>
      simp only [newBetaDistribution, Option.ite_none_left_eq_some, Option.some.injEq] at hd
      rw [← hd.2, computeMoments_isValid]
  | matched m1 m2 _ ih => rwa [matchMoments_isValid]

/-! ### Shapes and moments -/

omit [LinearOrder K] in
/-- The size of the fit gives the variance back. -/
lemma size_variance {m v : K} (hm : m * (1 - m) ≠ 0) :
    m * (1 - m) / (m * (1 - m) / v - 1 + 1) = v := by
  calc m * (1 - m) / (m * (1 - m) / v - 1 + 1)
      = m * (1 - m) / (m * (1 - m) / v) := by rw [sub_add_cancel]
    _ = m * (1 - m) * v / (m * (1 - m)) := div_div_eq_mul_div _ _ _
    _ = v := mul_div_cancel_left₀ _ hm

variable [IsStrictOrderedRing K]

/-- The moments of the shapes of mean `m` and size `t`. -/
lemma computeMoments_fit {d : BetaDistribution K} (hd : d.isValid = true) {m t : K} (ht : 0 < t) :
    (computeMoments { d with alpha := m * t, beta := (1 - m) * t }).1 = true
      ∧ (computeMoments { d with alpha := m * t, beta := (1 - m) * t }).2.alpha = m * t
      ∧ (computeMoments { d with alpha := m * t, beta := (1 - m) * t }).2.beta = (1 - m) * t
      ∧ (computeMoments { d with alpha := m * t, beta := (1 - m) * t }).2.mean = m
      ∧ (computeMoments { d with alpha := m * t, beta := (1 - m) * t }).2.variance
          = m * (1 - m) / (t + 1) := by
  have hsum : m * t + (1 - m) * t = t := by ring
  have hmean : m * t / t = m := mul_div_cancel_right₀ _ ht.ne'
  have ht1 : t + 1 ≠ 0 := by positivity
  have hvariance : m * (m * t + 1) / (t + 1) - m * m = m * (1 - m) / (t + 1) := by
    field_simp
    ring
  simp only [computeMoments, hd, Bool.true_eq_false, if_false, BetaDistribution.mean,
    BetaDistribution.variance, hsum, hmean, hvariance, and_self]

omit [IsStrictOrderedRing K] in
/-- The guard of the fit, for moments with a variance. -/
lemma fit_iff {m1 m2 : K} (hv : 0 < m2 - m1 * m1) :
    ¬(m1 < 0 ∨ 1 < m1 ∨ m2 - m1 * m1 < 0 ∨ m1 * (1 - m1) ≤ m2 - m1 * m1)
      ↔ 0 < m1 ∧ m1 < 1 ∧ m2 - m1 * m1 < m1 * (1 - m1) := by
  constructor
  · intro h
    simp only [not_or, not_lt, not_le] at h
    obtain ⟨h0, h1, -, hfit⟩ := h
    -- at the ends of the interval the bound is zero
    have hprod : m1 * (1 - m1) ≠ 0 := (hv.trans hfit).ne'
    have hm : m1 ≠ 0 := left_ne_zero_of_mul hprod
    have hm' : 1 - m1 ≠ 0 := right_ne_zero_of_mul hprod
    exact ⟨lt_of_le_of_ne h0 hm.symm, lt_of_le_of_ne h1 (sub_ne_zero.mp hm').symm, hfit⟩
  · rintro ⟨h0, h1, hfit⟩
    simp only [not_or, not_lt, not_le]
    exact ⟨h0.le, h1.le, hv.le, hfit⟩

/-- Where the moments fit the size is positive. -/
lemma size_pos {m v : K} (hv : 0 < v) (hfit : v < m * (1 - m)) : 0 < m * (1 - m) / v - 1 := by
  rw [sub_pos, one_lt_div hv]
  exact hfit

/-- The fit of moments with a variance succeeds exactly when the mean is strictly
between zero and one and the variance below that of a coin; then it has these
moments, and otherwise nothing changes. -/
theorem matchMoments_spec {d : BetaDistribution K} (hd : Existing d) {m1 m2 : K}
    (hv : 0 < m2 - m1 ^ 2) :
    ((matchMoments m1 m2 d).1 = true ↔ 0 < m1 ∧ m1 < 1 ∧ m2 - m1 ^ 2 < m1 * (1 - m1))
      ∧ ((matchMoments m1 m2 d).1 = true →
          0 < (matchMoments m1 m2 d).2.alpha ∧ 0 < (matchMoments m1 m2 d).2.beta
            ∧ (matchMoments m1 m2 d).2.mean = m1
            ∧ (matchMoments m1 m2 d).2.variance = m2 - m1 ^ 2)
      ∧ ((matchMoments m1 m2 d).1 = false → (matchMoments m1 m2 d).2 = d) := by
  rw [sq] at hv ⊢
  by_cases hguard : m1 < 0 ∨ 1 < m1 ∨ m2 - m1 * m1 < 0 ∨ m1 * (1 - m1) ≤ m2 - m1 * m1
  · have hresult : matchMoments m1 m2 d = (false, d) := if_pos hguard
    rw [hresult]
    refine ⟨?_, ?_, fun _ => rfl⟩
    · exact iff_of_false Bool.false_ne_true fun h => (fit_iff hv).mpr h hguard
    · intro h
      exact absurd h Bool.false_ne_true
  · obtain ⟨h0, h1, hfit⟩ := (fit_iff hv).mp hguard
    have hsize := size_pos hv hfit
    have hmax : maxSmallestNonzero (m1 * (1 - m1) / (m2 - m1 * m1) - 1)
        = m1 * (1 - m1) / (m2 - m1 * m1) - 1 := if_pos hsize
    have hresult : matchMoments m1 m2 d = computeMoments { d with
        alpha := m1 * (m1 * (1 - m1) / (m2 - m1 * m1) - 1)
        beta := (1 - m1) * (m1 * (1 - m1) / (m2 - m1 * m1) - 1) } := by
      simp only [matchMoments, if_neg hguard, hmax]
    obtain ⟨htrue, halpha, hbeta, hmean, hvariance⟩ := computeMoments_fit hd.isValid (m := m1) hsize
    rw [hresult, htrue, halpha, hbeta, hmean, hvariance, size_variance (hv.trans hfit).ne']
    refine ⟨iff_of_true rfl ⟨h0, h1, hfit⟩, fun _ => ?_, fun h => ?_⟩
    · exact ⟨mul_pos h0 hsize, mul_pos (sub_pos.mpr h1) hsize, rfl, rfl⟩
    · exact absurd h.symm Bool.false_ne_true

theorem matchMoments_half :
    (matchMoments (1 / 2 : ℚ) (1 / 3) ⟨1, 1, true, 1 / 2, 1 / 3, 1 / 4⟩).2.variance = 1 / 12 := by
  have hnew : newBetaDistribution (1 : ℚ) 1 = some ⟨1, 1, true, 1 / 2, 1 / 3, 1 / 4⟩ := by
    norm_num [newBetaDistribution, checkValidity, computeMoments]
  have hv : (0 : ℚ) < 1 / 3 - (1 / 2) ^ 2 := by norm_num
  have h := matchMoments_spec (Existing.new hnew) hv
  have hvariance := (h.2.1 (h.1.mpr (by norm_num))).2.2.2
  rw [hvariance]
  norm_num

/-! ### The fit of `computeRank` -/

/-- On numbers the fit that ranks a node is this one, as long as the smallest
float is no bound on the size. -/
theorem safe_matchMoments {d : BetaDistribution K} (hd : Existing d) {m1 m2 : K}
    (hv : 0 < m2 - m1 * m1)
    (hmin : m2 - m1 * m1 < m1 * (1 - m1) →
      Safe.smallestNonzeroFloat64 ≤ m1 * (1 - m1) / (m2 - m1 * m1) - 1) :
    Safe.matchMoments (.fin m1) (.fin m2)
      = if (matchMoments m1 m2 d).1 = true then
          some (.fin (matchMoments m1 m2 d).2.alpha, .fin (matchMoments m1 m2 d).2.beta)
        else none := by
  simp only [Safe.matchMoments, GoFloat.mul_fin, GoFloat.sub_fin, GoFloat.lt_fin, GoFloat.le_fin,
    GoFloat.div_fin hv.ne', GoFloat.max_fin, Bool.or_eq_true, decide_eq_true_eq, or_assoc,
    matchMoments]
  by_cases hguard : m1 < 0 ∨ 1 < m1 ∨ m2 - m1 * m1 < 0 ∨ m1 * (1 - m1) ≤ m2 - m1 * m1
  · simp only [if_pos hguard, Bool.false_eq_true, if_false]
  · have hfit := ((fit_iff hv).mp hguard).2.2
    simp only [if_neg hguard, max_eq_left (hmin hfit), maxSmallestNonzero,
      if_pos (size_pos hv hfit), computeMoments, hd.isValid, Bool.true_eq_false, if_false, if_true]

end KubeSafeScheduler.Beta
