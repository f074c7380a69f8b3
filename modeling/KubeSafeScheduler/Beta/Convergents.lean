import Mathlib.Tactic
import KubeSafeScheduler.Beta.BetaFunc
import KubeSafeScheduler.Lib.Continuants

/-!
What the loop of `betaCF` computes: convergents of a continued fraction, two
steps of the recurrence a round, scaled so that the denominator stays one.

* `coefficient`: the partial numerators `d(2m)` and `d(2m+1)` of the even and the
  odd steps; `numerator`, `denominator`: the recurrence without scaling.
* `afterRounds`: the variables of the loop after some rounds, without the exit;
  `roundDivisors`, `divisorsMet`: what a round and the function divide by.
* `Scaled`: the variables are those of the recurrence over one common factor,
  the invariant of the loop (`Scaled.betaCFStep`).
* `betaCF_convergent`: so the function returns a convergent, whichever round
  meets the tolerance; `betaCF_eq_convs`: one of the continued fraction that
  `coefficient` gives.
-/

namespace KubeSafeScheduler.Beta

variable {K : Type} [Field K]

/-! ### The recurrence -/

/-- The partial numerators of the continued fraction. -/
def coefficient (x a b : K) (k : ℕ) : K :=
  let m : K := (k / 2 : ℕ)
  if k % 2 = 0 then m * (b - m) * x / ((a - 1 + (m + m)) * (a + (m + m)))
  else -(a + m) * (a + b + m) * x / ((a + (m + m)) * (a + 1 + (m + m)))

/-- The numerators `A` of the plain recurrence. -/
def numerator (x a b : K) : ℕ → K := continuant (coefficient x a b) 1 1

/-- The denominators `B` of the plain recurrence. -/
def denominator (x a b : K) : ℕ → K :=
  continuant (coefficient x a b) 1 (1 - (a + b) * x / (a + 1))

lemma coefficient_two_mul (x a b : K) (m : ℕ) :
    coefficient x a b (2 * m)
      = m * (b - m) * x / ((a - 1 + ((m : K) + m)) * (a + ((m : K) + m))) := by
  have hhalf : 2 * m / 2 = m := by omega
  simp only [coefficient, Nat.mul_mod_right, hhalf, if_true]

lemma coefficient_two_mul_add_one (x a b : K) (m : ℕ) :
    coefficient x a b (2 * m + 1)
      = -(a + m) * (a + b + m) * x / ((a + ((m : K) + m)) * (a + 1 + ((m : K) + m))) := by
  have hhalf : (2 * m + 1) / 2 = m := by omega
  have hodd : ¬(2 * m + 1) % 2 = 0 := by omega
  simp only [coefficient, hhalf, if_neg hodd]

/-- The first coefficient is the one in the initial value of `bz`. -/
lemma coefficient_one {x a b : K} (ha : a ≠ 0) :
    coefficient x a b 1 = -((a + b) * x / (a + 1)) := by
  have h := coefficient_two_mul_add_one x a b 0
  simp only [Nat.mul_zero, Nat.zero_add, Nat.cast_zero, add_zero] at h
  rw [h, mul_assoc, neg_mul, neg_div, mul_div_mul_left _ _ ha]

/-! ### The rounds of the loop -/

/-- The variable `bpp` of round `m`. -/
def oddDenominator (x a b : K) (m : ℕ) (s : Convergent K) : K :=
  s.bz + coefficient x a b (2 * m) * s.bm + coefficient x a b (2 * m + 1) * s.bz

/-- The divisors of round `m`: of the even step, of the odd step and of the
normalization. -/
def roundDivisors (x a b : K) (m : ℕ) (s : Convergent K) : List K :=
  let tm := (m : K) + m
  [(a - 1 + tm) * (a + tm), (a + tm) * (a + 1 + tm), oddDenominator x a b m s]

/-- The variables before the loop of `betaCF`. -/
def betaCFStart (x a b : K) : Convergent K :=
  { am := 1, bm := 1, az := 1, bz := 1 - (a + b) * x / (a + 1) }

/-- The variables after the first `m` rounds. -/
def afterRounds (x a b : K) : ℕ → Convergent K
  | 0 => betaCFStart x a b
  | m + 1 => betaCFStep x a b (m + 1) (afterRounds x a b m)

lemma betaCFStep_eq (x a b : K) (m : ℕ) (s : Convergent K) :
    betaCFStep x a b m s
      = { am := (s.az + coefficient x a b (2 * m) * s.am) / oddDenominator x a b m s
          bm := (s.bz + coefficient x a b (2 * m) * s.bm) / oddDenominator x a b m s
          az := (s.az + coefficient x a b (2 * m) * s.am + coefficient x a b (2 * m + 1) * s.az)
            / oddDenominator x a b m s
          bz := 1 } := by
  rw [oddDenominator, coefficient_two_mul, coefficient_two_mul_add_one]
  rfl

/-- The variables are those of the recurrence at `2m` and `2m + 1`, all divided
by `c`. -/
structure Scaled (x a b : K) (m : ℕ) (c : K) (s : Convergent K) : Prop where
  am : s.am * c = numerator x a b (2 * m)
  bm : s.bm * c = denominator x a b (2 * m)
  az : s.az * c = numerator x a b (2 * m + 1)
  bz : s.bz * c = denominator x a b (2 * m + 1)

lemma scaled_start (x a b : K) : Scaled x a b 0 1 (betaCFStart x a b) where
  am := mul_one _
  bm := mul_one _
  az := mul_one _
  bz := mul_one _

/-- One round takes two steps of the recurrence and multiplies the factor by the
new denominator. -/
lemma Scaled.betaCFStep {x a b c : K} {m : ℕ} {s : Convergent K} (h : Scaled x a b m c s)
    (hne : oddDenominator x a b (m + 1) s ≠ 0) :
    Scaled x a b (m + 1) (c * oddDenominator x a b (m + 1) s) (betaCFStep x a b (m + 1) s) := by
  have hcancel : ∀ u : K, u / oddDenominator x a b (m + 1) s
      * (c * oddDenominator x a b (m + 1) s) = u * c := by
    intro u
    calc u / oddDenominator x a b (m + 1) s * (c * oddDenominator x a b (m + 1) s)
        = c * (u / oddDenominator x a b (m + 1) s * oddDenominator x a b (m + 1) s) :=
          mul_left_comm _ _ _
      _ = u * c := by rw [div_mul_cancel₀ u hne, mul_comm]
  have heven : ∀ u₀ u₁, continuant (coefficient x a b) u₀ u₁ (2 * (m + 1))
      = continuant (coefficient x a b) u₀ u₁ (2 * m + 1)
        + coefficient x a b (2 * (m + 1)) * continuant (coefficient x a b) u₀ u₁ (2 * m) :=
    fun u₀ u₁ => continuant_add_two _ u₀ u₁ (2 * m)
  have hodd : ∀ u₀ u₁, continuant (coefficient x a b) u₀ u₁ (2 * (m + 1) + 1)
      = continuant (coefficient x a b) u₀ u₁ (2 * (m + 1))
        + coefficient x a b (2 * (m + 1) + 1)
          * continuant (coefficient x a b) u₀ u₁ (2 * m + 1) :=
    fun u₀ u₁ => continuant_add_two _ u₀ u₁ (2 * m + 1)
  have ham := h.am
  have hbm := h.bm
  have haz := h.az
  have hbz := h.bz
  rw [betaCFStep_eq]
  constructor
  · rw [hcancel, numerator, heven, ← numerator, ← haz, ← ham]
    ring
  · rw [hcancel, denominator, heven, ← denominator, ← hbz, ← hbm]
    ring
  · rw [hcancel, numerator, hodd, heven, ← numerator, ← haz, ← ham]
    ring
  · rw [denominator, hodd, heven, ← denominator, ← hbz, ← hbm, oddDenominator]
    ring

/-- The factor after `m` rounds. -/
lemma exists_scaled {x a b : K} {m : ℕ}
    (hdiv : ∀ k < m, (0 : K) ∉ roundDivisors x a b (k + 1) (afterRounds x a b k)) :
    ∃ c, c ≠ 0 ∧ Scaled x a b m c (afterRounds x a b m) := by
  induction m with
  | zero => exact ⟨1, one_ne_zero, scaled_start x a b⟩
  | succ m ih =>
      obtain ⟨c, hc, hscaled⟩ := ih fun k hk => hdiv k (by omega)
      have hne : oddDenominator x a b (m + 1) (afterRounds x a b m) ≠ 0 := by
        intro hzero
        apply hdiv m (Nat.lt_succ_self m)
        simp only [roundDivisors, hzero, List.mem_cons, true_or, or_true]
      exact ⟨_, mul_ne_zero hc hne, hscaled.betaCFStep hne⟩

/-- After some rounds `az` is a convergent. -/
lemma az_afterRounds {x a b : K} {m : ℕ} (hm : 1 ≤ m)
    (hdiv : ∀ k < m, (0 : K) ∉ roundDivisors x a b (k + 1) (afterRounds x a b k)) :
    (afterRounds x a b m).az
      = numerator x a b (2 * m + 1) / denominator x a b (2 * m + 1) := by
  obtain ⟨c, hc, hscaled⟩ := exists_scaled hdiv
  have hbz : (afterRounds x a b m).bz = 1 := by
    obtain ⟨n, rfl⟩ := Nat.exists_eq_add_of_le' hm
    rfl
  have hden := hscaled.bz
  rw [hbz, one_mul] at hden
  calc (afterRounds x a b m).az
      = (afterRounds x a b m).az * c / c := (mul_div_cancel_right₀ _ hc).symm
    _ = numerator x a b (2 * m + 1) / denominator x a b (2 * m + 1) := by rw [hscaled.az, hden]

/-! ### The function -/

variable [LinearOrder K]

/-- What the loop divides by before it returns. -/
def loopDivisors (x a b : K) : ℕ → ℕ → Convergent K → List K
  | 0, _, _ => []
  | rounds + 1, m, s =>
      let t := betaCFStep x a b m s
      roundDivisors x a b m s
        ++ if |t.az - s.az| < eps * |t.az| then [] else loopDivisors x a b rounds (m + 1) t

/-- What `betaCF` divides by. -/
def divisorsMet (x a b : K) : List K :=
  (a + 1) :: loopDivisors x a b itmax 1 (betaCFStart x a b)

/-- The loop returns what some round leaves in `az`, and meets the divisors of
all rounds up to it. -/
lemma exists_betaCFLoop (x a b : K) (rounds m : ℕ) :
    ∃ n, m + min 1 rounds ≤ n ∧ n ≤ m + rounds
      ∧ betaCFLoop x a b rounds (m + 1) (afterRounds x a b m) = (afterRounds x a b n).az
      ∧ ∀ k, m ≤ k → k < n → roundDivisors x a b (k + 1) (afterRounds x a b k)
          ⊆ loopDivisors x a b rounds (m + 1) (afterRounds x a b m) := by
  induction rounds generalizing m with
  | zero => exact ⟨m, by omega, by omega, rfl, fun k hk hkm => by omega⟩
  | succ rounds ih =>
      have hstep : betaCFStep x a b (m + 1) (afterRounds x a b m) = afterRounds x a b (m + 1) := rfl
      simp only [betaCFLoop, loopDivisors, hstep]
      split_ifs with hexit
      · refine ⟨m + 1, by omega, by omega, rfl, fun k hk hkm => ?_⟩
        rw [show k = m by omega, List.append_nil]
        exact List.Subset.refl _
      · obtain ⟨n, hmn, hn, hloop, hdiv⟩ := ih (m + 1)
        refine ⟨n, by omega, by omega, hloop, fun k hk hkn => ?_⟩
        rcases Nat.eq_or_lt_of_le hk with rfl | hlt
        · exact List.subset_append_left _ _
        · exact List.subset_append_of_subset_right _ (hdiv k hlt hkn)

lemma exists_convergent {x a b : K} (hmet : (0 : K) ∉ divisorsMet x a b) :
    ∃ m, 1 ≤ m ∧ m ≤ 100
      ∧ betaCF x a b = numerator x a b (2 * m + 1) / denominator x a b (2 * m + 1) := by
  obtain ⟨m, hm, hle, hloop, hsub⟩ := exists_betaCFLoop x a b itmax 0
  rw [itmax] at hm hle
  have hpos : 1 ≤ m := by omega
  have hdiv : ∀ k < m, (0 : K) ∉ roundDivisors x a b (k + 1) (afterRounds x a b k) :=
    fun k hk hzero => hmet (List.mem_cons_of_mem _ (hsub k (Nat.zero_le k) hk hzero))
  refine ⟨m, hpos, by omega, ?_⟩
  rw [← az_afterRounds hpos hdiv]
  exact hloop

/-- When no divisor met is zero, `az` is a convergent of the plain recurrence
after every number of rounds, and `betaCF` returns such a convergent. -/
theorem betaCF_convergent (x a b : K) :
    (∀ m, 1 ≤ m
        → (∀ k < m, (0 : K) ∉ roundDivisors x a b (k + 1) (afterRounds x a b k))
        → (afterRounds x a b m).az
          = numerator x a b (2 * m + 1) / denominator x a b (2 * m + 1))
      ∧ ((0 : K) ∉ divisorsMet x a b → ∃ m, 1 ≤ m ∧ m ≤ 100
          ∧ betaCF x a b = numerator x a b (2 * m + 1) / denominator x a b (2 * m + 1)) :=
  ⟨fun _ hm hdiv => az_afterRounds hm hdiv, exists_convergent⟩

theorem betaCF_half :
    (afterRounds (1 / 2 : ℚ) 1 1 1).az = numerator (1 / 2) 1 1 3 / denominator (1 / 2) 1 1 3
      ∧ ∃ m, 1 ≤ m ∧ m ≤ 100 ∧ betaCF (1 / 2 : ℚ) 1 1
          = numerator (1 / 2) 1 1 (2 * m + 1) / denominator (1 / 2) 1 1 (2 * m + 1) :=
  ⟨(betaCF_convergent (1 / 2) 1 1).1 1 le_rfl (by decide +kernel),
    (betaCF_convergent (1 / 2) 1 1).2 (by decide +kernel)⟩

/-- What `betaCF` returns is a convergent of the continued fraction with the
coefficients as its partial numerators. -/
theorem betaCF_eq_convs {x a b : K} (ha : a ≠ 0) (hmet : (0 : K) ∉ divisorsMet x a b) :
    ∃ m, 1 ≤ m ∧ m ≤ 100
      ∧ betaCF x a b = (unitFraction (coefficient x a b)).convs (2 * m + 2) := by
  obtain ⟨m, hm, hle, heq⟩ := exists_convergent hmet
  refine ⟨m, hm, hle, ?_⟩
  rw [heq, convs_unitFraction, coefficient_one ha, ← sub_eq_add_neg]
  rfl

end KubeSafeScheduler.Beta
