import Mathlib.Tactic
import Mathlib.Data.Rat.Floor
import KubeSafeScheduler.Lib.DecimalText

/-!
Python's `decimal` under its default context: 28 digits, ties to even, exponents
up to 999999, with `InvalidOperation` and `Overflow` raised as exceptions.

* `Dec`: a finite number as sign, coefficient and exponent; `Dec.sum` and
  `Dec.prod` are exact, `Dec.fix` rounds to the context.
* `Dec.fix_spec`: below `10 ^ 26` rounding succeeds, does not touch numbers
  without a fraction, leaves the exponent of the others negative, and gives a
  number of the context that is as near as any other (`Rounds`).
* `Decimal`, `Number`: the numbers with infinities and NaNs, and those mixed with
  Python integers.
* `Number.Tracks`, `Number.Runs`: what a rounded sum keeps of the exact one;
  `Number.Runs.add` is the step of a summation loop.
* `Dec.Nearest`: a result that no number of the context is nearer than;
  `Number.add_of_int`: sums of integers are exact, whatever their exponents are.
-/

namespace KubeSafeScheduler.Py

/-- The exceptions that arithmetic and conversions raise. -/
inductive Exn where
  | valueError (message : String)
  | overflowError (message : String)
  | invalidOperation
  | overflow
  deriving DecidableEq

/-! ### The context -/

/-- The digits of a coefficient. -/
def prec : ℕ := 28

/-- The largest exponent of a number in scientific form. -/
def emax : ℤ := 999999

/-- The exponent of the smallest number of the context. -/
def etiny : ℤ := -1000026

/-- The largest exponent of a coefficient of 28 digits. -/
def etop : ℤ := 999972

/-! ### Finite numbers -/

/-- A finite number: `coeff * 10 ^ exp`, negative if `neg`. -/
structure Dec where
  neg : Bool
  coeff : ℕ
  exp : ℤ
  deriving DecidableEq

namespace Dec

/-- The number of digits of a coefficient as it is written, one for zero. -/
def numDigits (c : ℕ) : ℕ := (Nat.toDigits 10 c).length

/-- The sign as a factor. -/
def sign (neg : Bool) : ℤ := if neg then -1 else 1

/-- The number that is denoted. -/
def value (d : Dec) : ℚ := sign d.neg * d.coeff * (10 : ℚ) ^ d.exp

/-- `Decimal(n)` of an integer. -/
def ofInt (n : ℤ) : Dec := ⟨decide (n < 0), n.natAbs, 0⟩

/-- The coefficient with its sign at an exponent below the number's own. -/
def rescale (d : Dec) (exp : ℤ) : ℤ := sign d.neg * d.coeff * 10 ^ (d.exp - exp).toNat

/-- The exact sum, at the smaller exponent. Zero is negative only as a sum of
negative zeros. -/
def sum (a b : Dec) : Dec :=
  let exp := min a.exp b.exp
  let total := a.rescale exp + b.rescale exp
  ⟨if total = 0 then a.neg && b.neg else decide (total < 0), total.natAbs, exp⟩

/-- The exact product. -/
def prod (a b : Dec) : Dec := ⟨a.neg ^^ b.neg, a.coeff * b.coeff, a.exp + b.exp⟩

/-- The exponent that `fix` rounds to: that of the last of 28 digits, or of the
smallest number. -/
def expMin (d : Dec) : ℤ := max (numDigits d.coeff + d.exp - prec) etiny

/-- The multiple of `10 ^ expMin` that `fix` rounds. -/
def quotient (d : Dec) : ℚ := (d.coeff : ℚ) / 10 ^ (d.expMin - d.exp).toNat

/-- `Decimal._fix`: round to the context. A coefficient that rounds up to 29 digits
gives one back to the exponent. -/
def fix (d : Dec) : Except Exn Dec :=
  if d.coeff = 0 then .ok { d with exp := min (max d.exp etiny) emax }
  else if etop < numDigits d.coeff + d.exp - prec then .error .overflow
  else if d.exp < d.expMin then
    if (roundHalfEven d.quotient).toNat = 10 ^ prec then
      if etop < d.expMin + 1 then .error .overflow
      else .ok ⟨d.neg, 10 ^ (prec - 1), d.expMin + 1⟩
    else .ok ⟨d.neg, (roundHalfEven d.quotient).toNat, d.expMin⟩
  else .ok d

/-! ### Values -/

lemma abs_sign (neg : Bool) : |(sign neg : ℚ)| = 1 := by
  cases neg <;> simp [sign]

lemma abs_value (d : Dec) : |d.value| = d.coeff * (10 : ℚ) ^ d.exp := by
  rw [value, abs_mul, abs_mul, abs_sign, one_mul, Nat.abs_cast,
    abs_of_pos (zpow_pos (by norm_num) _)]

lemma sign_decide_mul_natAbs (n : ℤ) :
    (sign (decide (n < 0)) : ℚ) * (n.natAbs : ℚ) = n := by
  have hint : sign (decide (n < 0)) * (n.natAbs : ℤ) = n := by
    unfold sign
    split_ifs with h <;> simp only [decide_eq_true_eq] at h <;> omega
  rw [← Int.cast_natCast, ← Int.cast_mul, hint]

@[simp] lemma value_ofInt (n : ℤ) : (ofInt n).value = n := by
  rw [value, ofInt, zpow_zero, mul_one]
  exact sign_decide_mul_natAbs n

lemma rescale_value (d : Dec) {exp : ℤ} (h : exp ≤ d.exp) :
    (d.rescale exp : ℚ) * (10 : ℚ) ^ exp = d.value := by
  have hsplit : (10 : ℚ) ^ d.exp = 10 ^ (d.exp - exp).toNat * (10 : ℚ) ^ exp := by
    rw [← zpow_natCast, ← zpow_add₀ (by norm_num)]
    congr 1
    omega
  rw [value, hsplit, rescale]
  push_cast
  ring

lemma sum_value (a b : Dec) : (sum a b).value = a.value + b.value := by
  rw [← rescale_value a (min_le_left a.exp b.exp), ← rescale_value b (min_le_right a.exp b.exp),
    ← add_mul, value]
  simp only [sum]
  congr 1
  split_ifs with h
  · rw [← Int.cast_add, h]
    simp
  · rw [← Int.cast_add]
    exact sign_decide_mul_natAbs _

lemma prod_value (a b : Dec) : (prod a b).value = a.value * b.value := by
  have hsign : ((sign (a.neg ^^ b.neg) : ℤ) : ℚ) = sign a.neg * sign b.neg := by
    cases a.neg <;> cases b.neg <;> simp [sign]
  rw [value, prod, hsign, zpow_add₀ (by norm_num), value, value]
  push_cast
  ring

/-! ### Digits -/

lemma lt_pow_numDigits (c : ℕ) : c < 10 ^ numDigits c :=
  (Nat.length_toDigits_le_iff (by decide) Nat.length_toDigits_pos).mp le_rfl

lemma numDigits_pos (c : ℕ) : 0 < numDigits c := Nat.length_toDigits_pos

lemma pow_numDigits_le {c : ℕ} (h : c ≠ 0) : 10 ^ (numDigits c - 1) ≤ c := by
  rcases Nat.eq_zero_or_pos (numDigits c - 1) with hzero | hpos
  · rw [hzero, pow_zero]
    omega
  · by_contra hlt
    have hle : numDigits c ≤ numDigits c - 1 :=
      (Nat.length_toDigits_le_iff (by decide) hpos).mpr (by omega)
    omega

/-- The first digit of a number is worth at most the number. -/
lemma zpow_le_abs_value {d : Dec} (h : d.coeff ≠ 0) :
    (10 : ℚ) ^ (numDigits d.coeff - 1 + d.exp) ≤ |d.value| := by
  have hlow : ((10 ^ (numDigits d.coeff - 1) : ℕ) : ℚ) ≤ d.coeff := by
    exact_mod_cast pow_numDigits_le h
  have hpos := numDigits_pos d.coeff
  have hcast : ((numDigits d.coeff : ℤ) - 1) = ((numDigits d.coeff - 1 : ℕ) : ℤ) := by omega
  rw [abs_value, zpow_add₀ (by norm_num), hcast, zpow_natCast]
  push_cast at hlow
  gcongr

/-! ### Rounding -/

/-- A number of the context. -/
def Fits (d : Dec) : Prop := d.coeff < 10 ^ prec ∧ etiny ≤ d.exp

/-- What rounding `d` to `r` keeps: `r` is a number of the context as near to `d` as
any other, integers of the context stay, and digits after the point stay there. -/
structure Rounds (d r : Dec) : Prop where
  fits : r.Fits
  whole : 0 ≤ d.exp → 0 ≤ r.exp ∧ r.value = d.value
  fraction : d.exp < 0 → r.exp < 0
  nonpos : d.exp ≤ 0 → r.exp ≤ 0
  nearest : ∀ z : Dec, z.Fits → |r.value - d.value| ≤ |z.value - d.value|

/-- Below `10 ^ 26` the last of 28 digits is worth less than a tenth. -/
lemma numDigits_add_exp_le {d : Dec} (h : d.coeff ≠ 0) (hd : |d.value| < 10 ^ 26) :
    numDigits d.coeff + d.exp ≤ 26 := by
  have hlt : (10 : ℚ) ^ ((numDigits d.coeff : ℤ) - 1 + d.exp) < (10 : ℚ) ^ (26 : ℤ) :=
    (zpow_le_abs_value h).trans_lt (by exact_mod_cast hd)
  have hexp := (zpow_lt_zpow_iff_right₀ (by norm_num : (1 : ℚ) < 10)).mp hlt
  omega

/-- A number of the context at an exponent above its own does not reach the least
coefficient of 28 digits there. -/
lemma Fits.abs_value_lt {z : Dec} (hz : z.Fits) {exp : ℤ} (h : z.exp < exp) :
    |z.value| < (10 : ℚ) ^ (prec - 1) * (10 : ℚ) ^ exp := by
  have hcoeff : (z.coeff : ℚ) < 10 ^ prec := by exact_mod_cast hz.1
  have hpow : (10 : ℚ) ^ (z.exp + 1) ≤ 10 ^ exp :=
    zpow_le_zpow_right₀ (by norm_num) (by omega)
  calc |z.value| = z.coeff * (10 : ℚ) ^ z.exp := abs_value z
    _ < 10 ^ prec * (10 : ℚ) ^ z.exp := by gcongr
    _ = 10 ^ (prec - 1) * (10 : ℚ) ^ (z.exp + 1) := by
        rw [zpow_add₀ (by norm_num), zpow_one, prec]
        ring
    _ ≤ 10 ^ (prec - 1) * (10 : ℚ) ^ exp := by gcongr

lemma abs_sign_mul_sub (neg : Bool) (x y : ℚ) : |sign neg * x - sign neg * y| = |x - y| := by
  rw [← mul_sub, abs_mul, abs_sign, one_mul]

/-- No number of the context is nearer to `d` than the rounded multiple of
`10 ^ exp`, as long as those of smaller exponents are below `d`. -/
lemma roundHalfEven_grid_nearest {d z : Dec} {exp : ℤ} {y : ℚ}
    (hd : d.value = sign d.neg * (y * (10 : ℚ) ^ exp)) (hz : z.Fits)
    (hlow : z.exp < exp → (10 : ℚ) ^ (prec - 1) ≤ y) :
    |(roundHalfEven y : ℚ) - y| * (10 : ℚ) ^ exp ≤ |z.value - d.value| := by
  have hpos : (0 : ℚ) < (10 : ℚ) ^ exp := zpow_pos (by norm_num) _
  rcases le_or_gt exp z.exp with hle | hlt
  · -- `z` is a multiple of `10 ^ exp` itself
    set w : ℤ := sign d.neg * z.rescale exp with hw
    have hzval : z.value = sign d.neg * (w * (10 : ℚ) ^ exp) := by
      have hsquare : (sign d.neg : ℚ) * sign d.neg = 1 := by
        cases d.neg <;> simp [sign]
      rw [← rescale_value z hle, hw]
      push_cast
      linear_combination (-(z.rescale exp : ℚ) * (10 : ℚ) ^ exp) * hsquare
    rw [hzval, hd, abs_sign_mul_sub, ← sub_mul, abs_mul, abs_of_pos hpos]
    exact mul_le_mul_of_nonneg_right (roundHalfEven_nearest y w) hpos.le
  · -- the least coefficient of 28 digits lies between `z` and `d`
    have hy := hlow hlt
    have hround := roundHalfEven_nearest y (10 ^ (prec - 1))
    have hdist : |((10 ^ (prec - 1) : ℤ) : ℚ) - y| = y - 10 ^ (prec - 1) := by
      push_cast
      rw [abs_sub_comm]
      exact abs_of_nonneg (by linarith)
    have habs : |d.value| = y * (10 : ℚ) ^ exp := by
      have hy0 : 0 ≤ y := le_trans (by positivity) hy
      rw [hd, abs_mul, abs_sign, one_mul, abs_of_nonneg (by positivity)]
    calc |(roundHalfEven y : ℚ) - y| * (10 : ℚ) ^ exp
        ≤ (y - 10 ^ (prec - 1)) * (10 : ℚ) ^ exp :=
          mul_le_mul_of_nonneg_right (hround.trans hdist.le) hpos.le
      _ = |d.value| - (10 : ℚ) ^ (prec - 1) * (10 : ℚ) ^ exp := by rw [habs]; ring
      _ ≤ |d.value| - |z.value| := by linarith [hz.abs_value_lt hlt]
      _ ≤ |z.value - d.value| := by
          rw [abs_sub_comm]
          exact abs_sub_abs_le_abs_sub _ _

section Rounding

variable {d : Dec} (h0 : d.coeff ≠ 0) (hexp : d.exp < d.expMin)

include hexp in
lemma value_eq_quotient : d.value = sign d.neg * (d.quotient * (10 : ℚ) ^ d.expMin) := by
  have hsplit : (10 : ℚ) ^ d.expMin = 10 ^ (d.expMin - d.exp).toNat * (10 : ℚ) ^ d.exp := by
    rw [← zpow_natCast, ← zpow_add₀ (by norm_num)]
    congr 1
    omega
  rw [value, quotient, hsplit]
  field_simp

include hexp in
lemma quotient_lt : d.quotient < 10 ^ prec := by
  have hk : numDigits d.coeff ≤ prec + (d.expMin - d.exp).toNat := by
    have hmax : numDigits d.coeff + d.exp - prec ≤ d.expMin := le_max_left _ _
    omega
  have hcoeff : (d.coeff : ℚ) < 10 ^ (prec + (d.expMin - d.exp).toNat) := by
    have hnat : d.coeff < 10 ^ (prec + (d.expMin - d.exp).toNat) :=
      (lt_pow_numDigits d.coeff).trans_le (Nat.pow_le_pow_right (by decide) hk)
    exact_mod_cast hnat
  rw [quotient, div_lt_iff₀ (by positivity), ← pow_add]
  exact hcoeff

include h0 hexp in
lemma le_quotient (hmin : etiny < d.expMin) : (10 : ℚ) ^ (prec - 1) ≤ d.quotient := by
  have heq : d.expMin = numDigits d.coeff + d.exp - prec := by
    unfold expMin at hmin ⊢
    omega
  have hk : numDigits d.coeff - 1 = (prec - 1) + (d.expMin - d.exp).toNat := by
    simp only [prec] at heq ⊢
    omega
  have hcoeff : ((10 ^ (numDigits d.coeff - 1) : ℕ) : ℚ) ≤ d.coeff := by
    exact_mod_cast pow_numDigits_le h0
  rw [quotient, le_div_iff₀ (by positivity), ← pow_add, ← hk]
  exact_mod_cast hcoeff

include h0 hexp in
/-- A number of the context that has the value of the rounded coefficient. -/
lemma rounds_of_value {r : Dec} (hd : |d.value| < 10 ^ 26) (hfits : r.Fits)
    (hrexp : r.exp ≤ d.expMin + 1)
    (hr : r.value = sign d.neg * (roundHalfEven d.quotient * (10 : ℚ) ^ d.expMin)) :
    Rounds d r := by
  have hsum := numDigits_add_exp_le h0 hd
  have hneg : d.expMin ≤ -2 := by
    simp only [expMin, prec, etiny]
    omega
  have hwhole : ¬ 0 ≤ d.exp := by omega
  refine ⟨hfits, fun h => absurd h hwhole, fun _ => by omega, fun _ => by omega, ?_⟩
  intro z hz
  have hpos : (0 : ℚ) < (10 : ℚ) ^ d.expMin := zpow_pos (by norm_num) _
  have hval := value_eq_quotient hexp
  have hlow : z.exp < d.expMin → (10 : ℚ) ^ (prec - 1) ≤ d.quotient := fun hlt =>
    le_quotient h0 hexp (lt_of_le_of_lt hz.2 hlt)
  have hnear := roundHalfEven_grid_nearest hval hz hlow
  rw [hr]
  nth_rewrite 1 [hval]
  rw [abs_sign_mul_sub, ← sub_mul, abs_mul, abs_of_pos hpos]
  exact hnear

end Rounding

/-- Zero keeps its value; only its exponent is brought into the context. -/
lemma rounds_zero {d : Dec} (h0 : d.coeff = 0) :
    Rounds d { d with exp := min (max d.exp etiny) emax } := by
  have hval : ({ d with exp := min (max d.exp etiny) emax } : Dec).value = d.value := by
    simp [value, h0]
  refine ⟨⟨?_, ?_⟩, fun h => ⟨?_, hval⟩, fun h => ?_, fun h => ?_, fun z _ => ?_⟩
  · simp [h0, prec]
  · simp only [etiny, emax]
    omega
  · simp only [etiny, emax]
    omega
  · simp only [etiny, emax]
    omega
  · simp only [etiny, emax]
    omega
  · rw [hval, sub_self, abs_zero]
    exact abs_nonneg _

/-- A number that `fix` leaves alone. -/
lemma rounds_self {d : Dec} (hexp : d.expMin ≤ d.exp) : Rounds d d := by
  have hdigits : numDigits d.coeff ≤ prec := by
    have hle : numDigits d.coeff + d.exp - prec ≤ d.expMin := le_max_left _ _
    omega
  have hcoeff : d.coeff < 10 ^ prec :=
    (lt_pow_numDigits d.coeff).trans_le (Nat.pow_le_pow_right (by decide) hdigits)
  refine ⟨⟨hcoeff, (le_max_right _ _).trans hexp⟩, fun h => ⟨h, rfl⟩, id, id, fun z _ => ?_⟩
  rw [sub_self, abs_zero]
  exact abs_nonneg _

/-- Below `10 ^ 26`, rounding to the context succeeds. -/
theorem fix_spec {d : Dec} (hd : |d.value| < 10 ^ 26) : ∃ r, d.fix = .ok r ∧ Rounds d r := by
  by_cases h0 : d.coeff = 0
  · exact ⟨_, if_pos h0, rounds_zero h0⟩
  have hsum := numDigits_add_exp_le h0 hd
  have hover : ¬ etop < numDigits d.coeff + d.exp - prec := by
    simp only [etop, prec]
    omega
  by_cases hexp : d.exp < d.expMin
  · have hnonneg : 0 ≤ roundHalfEven d.quotient :=
      roundHalfEven_nonneg (div_nonneg (Nat.cast_nonneg _) (by positivity))
    have hcast : ((roundHalfEven d.quotient).toNat : ℚ) = roundHalfEven d.quotient := by
      exact_mod_cast Int.toNat_of_nonneg hnonneg
    have hle : roundHalfEven d.quotient ≤ 10 ^ prec :=
      roundHalfEven_le (by exact_mod_cast (quotient_lt hexp).le)
    have hmin : etiny ≤ d.expMin := le_max_right _ _
    by_cases hcarry : (roundHalfEven d.quotient).toNat = 10 ^ prec
    · have hover' : ¬ etop < d.expMin + 1 := by
        simp only [expMin, etop, prec, etiny]
        omega
      refine ⟨⟨d.neg, 10 ^ (prec - 1), d.expMin + 1⟩, ?_, ?_⟩
      · rw [fix, if_neg h0, if_neg hover, if_pos hexp, if_pos hcarry, if_neg hover']
      · refine rounds_of_value h0 hexp hd ⟨by norm_num [prec], hmin.trans (by simp)⟩ le_rfl ?_
        rw [← hcast, hcarry, value, zpow_add₀ (by norm_num), zpow_one]
        norm_num [prec]
        ring
    · refine ⟨⟨d.neg, (roundHalfEven d.quotient).toNat, d.expMin⟩, ?_, ?_⟩
      · rw [fix, if_neg h0, if_neg hover, if_pos hexp, if_neg hcarry]
      · have hlt : (roundHalfEven d.quotient).toNat < 10 ^ prec :=
          lt_of_le_of_ne (Int.toNat_le.mpr (by exact_mod_cast hle)) hcarry
        refine rounds_of_value h0 hexp hd ⟨hlt, hmin⟩ (by simp) ?_
        rw [value, hcast, mul_assoc]
  · exact ⟨d, by rw [fix, if_neg h0, if_neg hover, if_neg hexp], rounds_self (by omega)⟩

end Dec

/-! ### Decimals -/

/-- `decimal.Decimal`. -/
inductive Decimal where
  | fin (d : Dec)
  | inf (neg : Bool)
  | nan (neg signaling : Bool) (payload : ℕ)
  deriving DecidableEq

/-- A `float`: a finite one is `num / 2 ^ k` in lowest terms. -/
inductive Float64 where
  | fin (neg : Bool) (num k : ℕ) (lowest : k = 0 ∨ num % 2 = 1)
  | inf (neg : Bool)
  | nan

namespace Decimal

/-- `Decimal(x)` of a float, which is exact. -/
def ofFloat : Float64 → Decimal
  | .fin neg num k _ => .fin ⟨neg, num * 5 ^ k, -k⟩
  | .inf neg => .inf neg
  | .nan => .nan false false 0

/-- The number when it is finite. -/
def finite : Decimal → Option Dec
  | .fin d => some d
  | _ => none

lemma eq_fin_of_finite {a : Decimal} {d : Dec} (h : a.finite = some d) : a = .fin d := by
  unfold finite at h
  split at h
  · rw [Option.some.inj h]
  · cases h

/-- A NaN as a result: it is quiet, and its payload is cut to the context. -/
def quiet (neg : Bool) (payload : ℕ) : Decimal := .nan neg false (payload % 10 ^ prec)

/-- `a + b`. -/
def add : Decimal → Decimal → Except Exn Decimal
  | .nan _ true _, _ => .error .invalidOperation
  | _, .nan _ true _ => .error .invalidOperation
  | .nan neg false payload, _ => .ok (quiet neg payload)
  | _, .nan neg false payload => .ok (quiet neg payload)
  | .inf a, .inf b => if a = b then .ok (.inf a) else .error .invalidOperation
  | .inf a, .fin _ => .ok (.inf a)
  | .fin _, .inf b => .ok (.inf b)
  | .fin a, .fin b => (a.sum b).fix.map .fin

/-- `copy_negate`. -/
def negate : Decimal → Decimal
  | .fin d => .fin { d with neg := !d.neg }
  | .inf neg => .inf !neg
  | .nan neg signaling payload => .nan (!neg) signaling payload

/-- `a - b`: a NaN keeps its sign. -/
def sub : Decimal → Decimal → Except Exn Decimal
  | a, .nan neg signaling payload => a.add (.nan neg signaling payload)
  | a, b => a.add b.negate

/-- `a * b`. -/
def mul : Decimal → Decimal → Except Exn Decimal
  | .nan _ true _, _ => .error .invalidOperation
  | _, .nan _ true _ => .error .invalidOperation
  | .nan neg false payload, _ => .ok (quiet neg payload)
  | _, .nan neg false payload => .ok (quiet neg payload)
  | .inf a, .inf b => .ok (.inf (a ^^ b))
  | .inf a, .fin b => if b.coeff = 0 then .error .invalidOperation else .ok (.inf (a ^^ b.neg))
  | .fin a, .inf b => if a.coeff = 0 then .error .invalidOperation else .ok (.inf (a.neg ^^ b))
  | .fin a, .fin b => (a.prod b).fix.map .fin

/-- Only a finite number times a finite number is finite. -/
lemma fin_of_mul_eq_fin {a : Decimal} {e r : Dec} (h : a.mul (.fin e) = .ok (.fin r)) :
    ∃ d, a = .fin d := by
  cases a with
  | fin d => exact ⟨d, rfl⟩
  | inf neg =>
      simp only [mul] at h
      split_ifs at h
      cases h
  | nan neg signaling payload => cases signaling <;> cases h

/-- `a < 0`: NaNs have no order. -/
def isNegative : Decimal → Except Exn Bool
  | .fin d => .ok (d.neg && d.coeff ≠ 0)
  | .inf neg => .ok neg
  | .nan _ _ _ => .error .invalidOperation

/-- `int(a)`, towards zero. -/
def toInt : Decimal → Except Exn ℤ
  | .fin d => .ok (Dec.sign d.neg * (d.coeff * 10 ^ d.exp.toNat / 10 ^ (-d.exp).toNat : ℕ))
  | .inf _ => .error (.overflowError "cannot convert Infinity to integer")
  | .nan _ _ _ => .error (.valueError "cannot convert NaN to integer")

end Decimal

/-! ### Numbers -/

/-- An integer or a decimal; mixed operands become decimals. -/
inductive Number where
  | int (n : ℤ)
  | decimal (d : Decimal)
  deriving DecidableEq

namespace Number

/-- The operand as a decimal. -/
def toDecimal : Number → Decimal
  | .int n => .fin (Dec.ofInt n)
  | .decimal d => d

/-- `a + b`. -/
def add : Number → Number → Except Exn Number
  | .int a, .int b => .ok (.int (a + b))
  | a, b => (a.toDecimal.add b.toDecimal).map .decimal

/-- `a - b`. -/
def sub : Number → Number → Except Exn Number
  | .int a, .int b => .ok (.int (a - b))
  | a, b => (a.toDecimal.sub b.toDecimal).map .decimal

/-- `a * b`. -/
def mul : Number → Number → Except Exn Number
  | .int a, .int b => .ok (.int (a * b))
  | a, b => (a.toDecimal.mul b.toDecimal).map .decimal

/-- `a < 0`. -/
def isNegative : Number → Except Exn Bool
  | .int n => .ok (decide (n < 0))
  | .decimal d => d.isNegative

/-- `int(a)`. -/
def toInt : Number → Except Exn ℤ
  | .int n => .ok n
  | .decimal d => d.toInt

/-- The number when it is finite. -/
def dec (a : Number) : Option Dec := a.toDecimal.finite

@[simp] lemma dec_int (n : ℤ) : (Number.int n).dec = some (Dec.ofInt n) := rfl

@[simp] lemma dec_fin (d : Dec) : (Number.decimal (.fin d)).dec = some d := rfl

lemma toDecimal_of_dec {a : Number} {d : Dec} (h : a.dec = some d) : a.toDecimal = .fin d :=
  Decimal.eq_fin_of_finite h

/-- A sum of finite numbers: of integers it is exact, else it is rounded. -/
lemma add_cases {a b : Number} {d e : Dec} (ha : a.dec = some d) (hb : b.dec = some e) :
    (∃ m n, a = .int m ∧ b = .int n ∧ a.add b = .ok (.int (m + n)))
      ∨ a.add b = (d.sum e).fix.map fun r => .decimal (.fin r) := by
  have hda := toDecimal_of_dec ha
  have heb := toDecimal_of_dec hb
  cases a with
  | int m =>
      cases b with
      | int n => exact Or.inl ⟨m, n, rfl, rfl, rfl⟩
      | decimal y =>
          right
          simp only [add, hda, heb, Decimal.add]
          cases (d.sum e).fix <;> rfl
  | decimal x =>
      right
      simp only [add, hda, heb, Decimal.add]
      cases (d.sum e).fix <;> rfl

/-- Differences below `10 ^ 26` are finite. -/
lemma sub_finite {a b : Number} {d e : Dec} (ha : a.dec = some d) (hb : b.dec = some e)
    (h : |d.value| + |e.value| < 10 ^ 26) : ∃ r f, a.sub b = .ok r ∧ r.dec = some f := by
  have hlt : |(d.sum { e with neg := !e.neg }).value| < 10 ^ 26 := by
    have habs : |({ e with neg := !e.neg } : Dec).value| = |e.value| := by
      rw [Dec.abs_value, Dec.abs_value]
    rw [Dec.sum_value]
    have hsum := abs_add_le d.value ({ e with neg := !e.neg } : Dec).value
    linarith
  obtain ⟨f, hfix, -⟩ := Dec.fix_spec hlt
  have hsub : a.toDecimal.sub b.toDecimal = .ok (.fin f) := by
    rw [toDecimal_of_dec ha, toDecimal_of_dec hb]
    simp only [Decimal.sub, Decimal.negate, Decimal.add, hfix]
    rfl
  cases a with
  | int m =>
      cases b with
      | int n => exact ⟨_, _, rfl, rfl⟩
      | decimal y => exact ⟨.decimal (.fin f), f, by simp only [sub, hsub]; rfl, rfl⟩
  | decimal x => exact ⟨.decimal (.fin f), f, by simp only [sub, hsub]; rfl, rfl⟩

/-- Products below `10 ^ 26` are finite. -/
lemma mul_finite {a b : Number} {d e : Dec} (ha : a.dec = some d) (hb : b.dec = some e)
    (h : |d.value * e.value| < 10 ^ 26) : ∃ r f, a.mul b = .ok r ∧ r.dec = some f := by
  obtain ⟨f, hfix, -⟩ := Dec.fix_spec (d := d.prod e) (by rwa [Dec.prod_value])
  have hmul : a.toDecimal.mul b.toDecimal = .ok (.fin f) := by
    rw [toDecimal_of_dec ha, toDecimal_of_dec hb]
    simp only [Decimal.mul, hfix]
    rfl
  cases a with
  | int m =>
      cases b with
      | int n => exact ⟨_, _, rfl, rfl⟩
      | decimal y => exact ⟨.decimal (.fin f), f, by simp only [mul, hmul]; rfl, rfl⟩
  | decimal x => exact ⟨.decimal (.fin f), f, by simp only [mul, hmul]; rfl, rfl⟩

lemma toInt_of_dec {a : Number} {d : Dec} (h : a.dec = some d) : ∃ n, a.toInt = .ok n := by
  cases a with
  | int n => exact ⟨n, rfl⟩
  | decimal x =>
      obtain rfl : x = .fin d := toDecimal_of_dec h
      exact ⟨_, rfl⟩

lemma isNegative_of_dec {a : Number} {d : Dec} (h : a.dec = some d) :
    ∃ negative, a.isNegative = .ok negative := by
  cases a with
  | int n => exact ⟨_, rfl⟩
  | decimal x =>
      obtain rfl : x = .fin d := toDecimal_of_dec h
      exact ⟨_, rfl⟩

end Number

/-! ### Sums with a rounding at every step -/

/-- A number that stands for `x` and is at most `b`: it is `x` itself when `whole`,
and has digits after the point otherwise. -/
structure Dec.Tracks (d : Dec) (x b : ℚ) (whole : Prop) : Prop where
  abs_le : |d.value| ≤ b
  exact_of_whole : whole → 0 ≤ d.exp ∧ d.value = x
  fraction : ¬ whole → d.exp < 0

/-- A running sum is a number of the context that stands for the exact sum and has
no digits dropped before the point. -/
structure Dec.Runs (d : Dec) (x b : ℚ) (whole : Prop) : Prop extends d.Tracks x b whole where
  fits : d.Fits
  nonpos : d.exp ≤ 0

lemma Dec.ofInt_fits {n : ℤ} (h : |(n : ℚ)| < 10 ^ 26) : (Dec.ofInt n).Fits := by
  have hint : |n| < 10 ^ 26 := by exact_mod_cast h
  rw [Int.abs_eq_natAbs] at hint
  refine ⟨?_, by simp [Dec.ofInt, etiny]⟩
  simp only [Dec.ofInt, prec]
  omega

/-- An integer stands for itself. -/
lemma Dec.runs_ofInt {n : ℤ} {b : ℚ} (h : |(n : ℚ)| ≤ b) (hb : b < 10 ^ 26) :
    (Dec.ofInt n).Runs n b True where
  abs_le := by rwa [Dec.value_ofInt]
  exact_of_whole := fun _ => ⟨le_rfl, Dec.value_ofInt n⟩
  fraction := fun h => absurd trivial h
  fits := Dec.ofInt_fits (h.trans_lt hb)
  nonpos := le_rfl

/-- A rounded sum of a running sum and a term. Rounding moves it by no more than the
term, since the running sum itself is a number of the context. -/
lemma Dec.Runs.of_rounds {d e r : Dec} {x y b c : ℚ} {v w : Prop} (hd : d.Runs x b v)
    (he : e.Tracks y c w) (hr : Dec.Rounds (d.sum e) r) : r.Runs (x + y) (b + 2 * c) (v ∧ w) where
  abs_le := by
    have hnear := hr.nearest d hd.fits
    rw [Dec.sum_value, sub_add_cancel_left, abs_neg] at hnear
    have htri : |r.value| ≤ |r.value - (d.value + e.value)| + |d.value + e.value| := by
      have h := abs_add_le (r.value - (d.value + e.value)) (d.value + e.value)
      rwa [sub_add_cancel] at h
    have hsum := abs_add_le d.value e.value
    linarith [hd.abs_le, he.abs_le]
  exact_of_whole := by
    rintro ⟨hv, hw⟩
    obtain ⟨hdexp, hdval⟩ := hd.exact_of_whole hv
    obtain ⟨heexp, heval⟩ := he.exact_of_whole hw
    obtain ⟨hexp, hval⟩ := hr.whole (le_min hdexp heexp)
    exact ⟨hexp, by rw [hval, Dec.sum_value, hdval, heval]⟩
  fraction := by
    intro hvw
    refine hr.fraction (min_lt_iff.mpr ?_)
    by_cases hv : v
    · exact Or.inr (he.fraction fun hw => hvw ⟨hv, hw⟩)
    · exact Or.inl (hd.fraction hv)
  fits := hr.fits
  nonpos := hr.nonpos ((min_le_left _ _).trans hd.nonpos)

namespace Number

/-- A finite number that stands for `x`. -/
def Tracks (a : Number) (x b : ℚ) (whole : Prop) : Prop := ∃ d, a.dec = some d ∧ d.Tracks x b whole

/-- A running sum that stands for `x`. -/
def Runs (a : Number) (x b : ℚ) (whole : Prop) : Prop := ∃ d, a.dec = some d ∧ d.Runs x b whole

variable {a b : Number} {x y B C : ℚ} {v w : Prop}

lemma Runs.tracks (h : a.Runs x B v) : a.Tracks x B v := by
  obtain ⟨d, hd, hruns⟩ := h
  exact ⟨d, hd, hruns.toTracks⟩

lemma runs_int {n : ℤ} (h : |(n : ℚ)| ≤ B) (hB : B < 10 ^ 26) : (Number.int n).Runs n B True :=
  ⟨_, rfl, Dec.runs_ofInt h hB⟩

/-- The step of a summation loop. -/
theorem Runs.add (ha : a.Runs x B v) (hb : b.Tracks y C w) (hbound : B + 2 * C < 10 ^ 26) :
    ∃ r, a.add b = .ok r ∧ r.Runs (x + y) (B + 2 * C) (v ∧ w) := by
  obtain ⟨d, hd, hdruns⟩ := ha
  obtain ⟨e, he, hetracks⟩ := hb
  have hC : 0 ≤ C := (abs_nonneg _).trans hetracks.abs_le
  have hsum : |d.value + e.value| ≤ B + C := by
    calc |d.value + e.value| ≤ |d.value| + |e.value| := abs_add_le _ _
      _ ≤ B + C := add_le_add hdruns.abs_le hetracks.abs_le
  rcases add_cases hd he with ⟨m, n, rfl, rfl, hadd⟩ | hadd
  · refine ⟨_, hadd, Dec.ofInt (m + n), rfl, ?_⟩
    obtain rfl := Option.some.inj hd
    obtain rfl := Option.some.inj he
    have hv : v := by
      by_contra hv
      exact lt_irrefl _ (hdruns.fraction hv)
    have hw : w := by
      by_contra hw
      exact lt_irrefl _ (hetracks.fraction hw)
    have hx := (hdruns.exact_of_whole hv).2
    have hy := (hetracks.exact_of_whole hw).2
    rw [Dec.value_ofInt] at hx hy
    have hruns : (Dec.ofInt (m + n)).Runs (m + n : ℤ) (B + 2 * C) True := by
      refine Dec.runs_ofInt ?_ hbound
      rw [Dec.value_ofInt, Dec.value_ofInt] at hsum
      push_cast
      linarith
    rw [← hx, ← hy, ← Int.cast_add]
    simpa only [hv, hw, and_self] using hruns
  · have hlt : |(d.sum e).value| < 10 ^ 26 := by
      rw [Dec.sum_value]
      linarith
    obtain ⟨r, hfix, hr⟩ := Dec.fix_spec hlt
    refine ⟨.decimal (.fin r), ?_, r, rfl, hdruns.of_rounds hetracks hr⟩
    rw [hadd, hfix]
    rfl

end Number

/-! ### Nearest numbers -/

/-- A number that stands for `x`: it is `x` itself, or a number of the context that is as
near to `x` as any other. -/
def Dec.Nearest (d : Dec) (x : ℚ) : Prop :=
  d.value = x ∨ d.Fits ∧ ∀ z : Dec, z.Fits → |d.value - x| ≤ |z.value - x|

namespace Dec

variable {d e r : Dec} {x : ℚ}

lemma Rounds.nearest_value (h : Rounds d r) : r.Nearest d.value := Or.inr ⟨h.fits, h.nearest⟩

/-- No integer is nearer. -/
lemma Nearest.le_of_int (h : d.Nearest x) {n : ℤ} (hn : |(n : ℚ)| < 10 ^ 26) :
    |d.value - x| ≤ |(n : ℚ) - x| := by
  rcases h with rfl | ⟨-, hnear⟩
  · rw [sub_self, abs_zero]
    exact abs_nonneg _
  · have hint := hnear (ofInt n) (ofInt_fits hn)
    rwa [value_ofInt] at hint

/-- What stands for a number is less than one away from it. -/
lemma Nearest.abs_sub_lt (h : d.Nearest x) (hx : |x| < 2 ^ 63) :
    |d.value - x| < 1 := by
  have hfloor : |((⌊x⌋ : ℤ) : ℚ)| < 10 ^ 26 := by
    have hle := Int.floor_le x
    have hlt := Int.lt_floor_add_one x
    rw [abs_lt] at hx ⊢
    constructor <;> linarith [hx.1, hx.2]
  calc |d.value - x| ≤ |((⌊x⌋ : ℤ) : ℚ) - x| := h.le_of_int hfloor
    _ = x - ⌊x⌋ := by rw [abs_sub_comm, abs_of_nonneg (by linarith [Int.floor_le x])]
    _ < 1 := by linarith [Int.lt_floor_add_one x]

/-- What stands for an integer is that integer. -/
lemma Nearest.eq_of_int {n : ℤ} (h : d.Nearest n) (hn : |(n : ℚ)| < 10 ^ 26) : d.value = n := by
  have hzero := h.le_of_int hn
  rw [sub_self, abs_zero] at hzero
  exact sub_eq_zero.mp (abs_nonpos_iff.mp hzero)

/-- Rounding a second time changes nothing. -/
lemma Nearest.of_rounds (he : e.Nearest x) (hd : d.value = e.value) (hr : Rounds d r) :
    r.Nearest x := by
  rcases he with rfl | ⟨hfits, hnear⟩
  · rw [← hd]
    exact hr.nearest_value
  · have hzero := hr.nearest e hfits
    rw [hd, sub_self, abs_zero] at hzero
    have hvalue : r.value = e.value := sub_eq_zero.mp (abs_nonpos_iff.mp hzero)
    exact Or.inr ⟨hr.fits, fun z hz => by rw [hvalue]; exact hnear z hz⟩

end Dec

namespace Number

variable {a b r : Number} {d e : Dec}

/-- A sum of integers is exact, whatever their exponents are. -/
lemma add_of_int (ha : a.dec = some d) (hb : b.dec = some e) {m n : ℤ} (hm : d.value = m)
    (hn : e.value = n) (hlt : |((m + n : ℤ) : ℚ)| < 10 ^ 26) (hadd : a.add b = .ok r) :
    ∃ f, r.dec = some f ∧ f.value = (m + n : ℤ) := by
  rcases add_cases ha hb with ⟨m', n', rfl, rfl, hint⟩ | hdec
  · obtain rfl := Except.ok.inj (hint.symm.trans hadd)
    obtain rfl := Option.some.inj ha
    obtain rfl := Option.some.inj hb
    rw [Dec.value_ofInt] at hm hn
    refine ⟨_, rfl, ?_⟩
    rw [Dec.value_ofInt, Int.cast_add, Int.cast_add, hm, hn]
  · have hvalue : (d.sum e).value = ((m + n : ℤ) : ℚ) := by
      rw [Dec.sum_value, hm, hn, Int.cast_add]
    obtain ⟨f, hfix, hf⟩ := Dec.fix_spec (d := d.sum e) (by rwa [hvalue])
    rw [hdec, hfix] at hadd
    obtain rfl := Except.ok.inj hadd
    have hnear := hf.nearest_value
    rw [hvalue] at hnear
    exact ⟨f, rfl, hnear.eq_of_int hlt⟩

/-- Adding to zero keeps what the number stands for. -/
lemma zero_add_nearest (hb : b.dec = some e) {x : ℚ} (he : e.Nearest x)
    (hlt : |e.value| < 10 ^ 26) (hadd : (Number.int 0).add b = .ok r) :
    ∃ f, r.dec = some f ∧ f.Nearest x := by
  rcases add_cases (dec_int 0) hb with ⟨m, n, hm, rfl, hint⟩ | hdec
  · obtain rfl := Number.int.inj hm
    obtain rfl := Except.ok.inj (hint.symm.trans hadd)
    obtain rfl := Option.some.inj hb
    rw [zero_add]
    exact ⟨_, rfl, he⟩
  · have hvalue : ((Dec.ofInt 0).sum e).value = e.value := by
      rw [Dec.sum_value, Dec.value_ofInt, Int.cast_zero, zero_add]
    obtain ⟨f, hfix, hf⟩ := Dec.fix_spec (d := (Dec.ofInt 0).sum e) (by rwa [hvalue])
    rw [hdec, hfix] at hadd
    obtain rfl := Except.ok.inj hadd
    exact ⟨f, rfl, he.of_rounds hvalue hf⟩

end Number

end KubeSafeScheduler.Py
