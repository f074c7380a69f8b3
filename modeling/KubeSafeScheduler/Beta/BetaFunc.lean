import Mathlib.Tactic
import Mathlib.Analysis.SpecialFunctions.Gamma.Basic
import Mathlib.Analysis.SpecialFunctions.Log.Basic

/-!
`beta/betaFunc.go`: the beta function and its incomplete forms, in exact
arithmetic, with `math.Exp`, `math.Log` and `math.Lgamma` the real functions.

* `complete`: the beta function; `complete_eq`: a quotient of gamma functions.
* `betaCF`: the continued fraction of at most `itmax` rounds.
* `regIncByContFraction`: both incomplete forms, from a continued fraction `cf`.
  The flag divides the factor `bt` by the beta function, but the branch for
  large `x` subtracts from one with either value of the flag.
* `incomplete_eq_iff`: so the incomplete form is the beta function times the
  regularized one only in the branch for small `x`, unless the beta function is
  one there.
-/

namespace KubeSafeScheduler.Beta

/-! ### The continued fraction -/

section Fraction

variable {K : Type} [Field K] [LinearOrder K]

/-- The variables of the loop of `betaCF`. -/
structure Convergent (K : Type) where
  am : K
  bm : K
  az : K
  bz : K

/-- The tolerance `eps` of `betaCF`. -/
def eps : K := ((3 : ℕ) : K) / ((10 ^ 7 : ℕ) : K)

/-- The even and the odd step of one round of `betaCF`, and the normalization. -/
def betaCFStep (x a b : K) (m : ℕ) (s : Convergent K) : Convergent K :=
  let mf : K := m
  let tm := mf + mf
  let qab := a + b
  let qap := a + 1
  let qam := a - 1
  let d := mf * (b - mf) * x / ((qam + tm) * (a + tm))
  let ap := s.az + d * s.am
  let bp := s.bz + d * s.bm
  let d := -(a + mf) * (qab + mf) * x / ((a + tm) * (qap + tm))
  let app := ap + d * s.az
  let bpp := bp + d * s.bz
  { am := ap / bpp, bm := bp / bpp, az := app / bpp, bz := 1 }

/-- The loop of `betaCF` from round `m` on, with `rounds` rounds left. -/
def betaCFLoop (x a b : K) : ℕ → ℕ → Convergent K → K
  | 0, _, s => s.az
  | rounds + 1, m, s =>
      let t := betaCFStep x a b m s
      if |t.az - s.az| < eps * |t.az| then t.az else betaCFLoop x a b rounds (m + 1) t

/-- `itmax` of `betaCF`. -/
def itmax : ℕ := 100

/-- `betaCF`. -/
def betaCF (x a b : K) : K :=
  betaCFLoop x a b itmax 1 { am := 1, bm := 1, az := 1, bz := 1 - (a + b) * x / (a + 1) }

end Fraction

/-! ### The beta functions -/

/-- `lgamma`: the logarithm of the absolute value of the gamma function. -/
noncomputable def lgamma (x : ℝ) : ℝ := Real.log |Real.Gamma x|

/-- `Complete`. -/
noncomputable def complete (a b : ℝ) : ℝ := Real.exp (lgamma a + lgamma b - lgamma (a + b))

/-- The variable `bt` of `regIncByContFraction`. -/
noncomputable def btFactor (x a b : ℝ) (isRegularized : Bool) : ℝ :=
  if x = 0 ∨ x = 1 then 0
  else
    let bt := Real.exp (a * Real.log x + b * Real.log (1 - x))
    if isRegularized = true ∧ bt ≠ 0 then bt / complete a b else bt

/-- `regIncByContFraction`, with `cf` for the continued fraction. -/
noncomputable def regIncByContFraction (cf : ℝ → ℝ → ℝ → ℝ) (x a b : ℝ) (isRegularized : Bool) :
    ℝ :=
  let bt := btFactor x a b isRegularized
  if x < (a + 1) / (a + b + ((2 : ℕ) : ℝ)) then bt * cf x a b / a
  else 1 - bt * cf (1 - x) b a / b

/-- `Incomplete`. -/
noncomputable def incomplete (cf : ℝ → ℝ → ℝ → ℝ) (x a b : ℝ) : ℝ :=
  regIncByContFraction cf x a b false

/-- `RegularizedIncomplete`. -/
noncomputable def regularizedIncomplete (cf : ℝ → ℝ → ℝ → ℝ) (x a b : ℝ) : ℝ :=
  regIncByContFraction cf x a b true

/-! ### The two forms -/

lemma exp_lgamma {x : ℝ} (hx : 0 < x) : Real.exp (lgamma x) = Real.Gamma x := by
  have hpos := Real.Gamma_pos_of_pos hx
  rw [lgamma, abs_of_pos hpos, Real.exp_log hpos]

lemma complete_eq {a b : ℝ} (ha : 0 < a) (hb : 0 < b) :
    complete a b = Real.Gamma a * Real.Gamma b / Real.Gamma (a + b) := by
  rw [complete, Real.exp_sub, Real.exp_add, exp_lgamma ha, exp_lgamma hb,
    exp_lgamma (add_pos ha hb)]

lemma complete_eq_one_iff {a b : ℝ} (ha : 0 < a) (hb : 0 < b) :
    complete a b = 1 ↔ Real.Gamma a * Real.Gamma b = Real.Gamma (a + b) := by
  rw [complete_eq ha hb, div_eq_one_iff_eq (Real.Gamma_pos_of_pos (add_pos ha hb)).ne']

/-- The flag divides the factor by the beta function, also where it is zero. -/
lemma complete_mul_btFactor (x a b : ℝ) :
    complete a b * btFactor x a b true = btFactor x a b false := by
  have hne : complete a b ≠ 0 := (Real.exp_pos _).ne'
  have hbt : Real.exp (a * Real.log x + b * Real.log (1 - x)) ≠ 0 := (Real.exp_pos _).ne'
  by_cases hx : x = 0 ∨ x = 1
  · rw [btFactor, btFactor, if_pos hx, if_pos hx, mul_zero]
  · simp only [btFactor, if_neg hx, hbt, ne_eq, not_false_iff, and_true, if_true,
      Bool.false_eq_true, if_false]
    exact mul_div_cancel₀ _ hne

/-- The incomplete beta function is the beta function times the regularized form
exactly in the branch for small `x`, or when the beta function is one. -/
theorem incomplete_eq_iff (cf : ℝ → ℝ → ℝ → ℝ) {x a b : ℝ} (_hx : x ∈ Set.Icc 0 1)
    (ha : 0 < a) (hb : 0 < b) :
    incomplete cf x a b = complete a b * regularizedIncomplete cf x a b
      ↔ x < (a + 1) / (a + b + 2) ∨ Real.Gamma a * Real.Gamma b = Real.Gamma (a + b) := by
  have hbt := complete_mul_btFactor x a b
  rw [← complete_eq_one_iff ha hb, incomplete, regularizedIncomplete, regIncByContFraction,
    regIncByContFraction, Nat.cast_ofNat]
  by_cases hlt : x < (a + 1) / (a + b + 2)
  · simp only [if_pos hlt, ← hbt]
    refine iff_of_true ?_ (Or.inl hlt)
    ring
  · rw [if_neg hlt, if_neg hlt, ← hbt, or_iff_right hlt]
    -- what is subtracted agrees, what it is subtracted from does not
    have hright : complete a b * (1 - btFactor x a b true * cf (1 - x) b a / b)
        = complete a b - complete a b * btFactor x a b true * cf (1 - x) b a / b := by ring
    rw [hright, sub_left_inj, eq_comm]

theorem incomplete_quarter :
    incomplete betaCF (1 / 4) 2 2 = complete 2 2 * regularizedIncomplete betaCF (1 / 4) 2 2 :=
  (incomplete_eq_iff betaCF ⟨by norm_num, by norm_num⟩ (by norm_num) (by norm_num)).mpr
    (Or.inl (by norm_num))

lemma complete_two_two : complete 2 2 = 1 / 6 := by
  rw [complete_eq two_pos two_pos]
  norm_num [Nat.factorial]

/-- At `x = 1` both forms are one, whatever the continued fraction. -/
theorem incomplete_one_ne :
    incomplete betaCF 1 2 2 ≠ complete 2 2 * regularizedIncomplete betaCF 1 2 2 := by
  rw [complete_two_two]
  simp [incomplete, regularizedIncomplete, regIncByContFraction, btFactor]
  norm_num

end KubeSafeScheduler.Beta
