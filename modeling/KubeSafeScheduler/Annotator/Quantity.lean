import Mathlib.Tactic
import KubeSafeScheduler.Lib.PyDecimal
import KubeSafeScheduler.Lib.PyText

/-!
`quantity.py` of the node annotator: Kubernetes quantities as decimals.

* `parseQuantity`: `parse_quantity`, with its errors.
* `Quantity.amount`: the number that a quantity denotes, without rounding;
  `Quantity.lastPlace`: the power of ten of its last digit.
* `parseQuantity_spec`: an accepted quantity is read as its amount when its last
  digit counts units or more, and keeps digits after the point otherwise.
-/

namespace KubeSafeScheduler.Annotator

open Py

/-! ### `parse_quantity` -/

/-- What the function is applied to: a number, or anything else by its text. -/
inductive Quantity where
  | int (n : ℤ)
  | float (x : Float64)
  | decimal (d : Decimal)
  | text (s : String)

/-- The table `exponents`. -/
def exponents : Char → Option ℤ
  | 'n' => some (-3)
  | 'u' => some (-2)
  | 'm' => some (-1)
  | 'K' => some 1
  | 'k' => some 1
  | 'M' => some 2
  | 'G' => some 3
  | 'T' => some 4
  | 'P' => some 5
  | 'E' => some 6
  | _ => none

/-- Split the text into the number and the suffix. -/
def splitSuffix (cs : List Char) : List Char × Option (List Char) :=
  match cs.reverse with
  | 'i' :: c :: rest => if (exponents c).isSome then (rest.reverse, some [c, 'i']) else (cs, none)
  | c :: rest => if (exponents c).isSome then (rest.reverse, some [c]) else (cs, none)
  | [] => (cs, none)

/-- The bases of the suffixes. -/
inductive Base where
  | decimal
  | binary
  deriving DecidableEq

/-- 1000 or 1024. -/
def Base.toNat : Base → ℕ
  | .decimal => 1000
  | .binary => 1024

/-- `base ** -1`, which has 1 or 7 digits. -/
def Base.reciprocal : Base → Dec
  | .decimal => ⟨false, 1, -3⟩
  | .binary => ⟨false, 9765625, -10⟩

/-- `base ** exponent`. With the exponents of the table no result has more than 28
digits, so that powers are not rounded. -/
def Base.power (base : Base) (exponent : ℤ) : Dec :=
  if 0 ≤ exponent then ⟨false, base.toNat ^ exponent.toNat, 0⟩
  else ⟨false, base.reciprocal.coeff ^ (-exponent).toNat, base.reciprocal.exp * -exponent⟩

/-- The base and the exponent of a suffix; `none` stands for an unknown suffix. The
small `k` is one of base 1000 only. -/
def suffixScale (suffix : List Char) : Option (Base × ℤ) := do
  let base ← if suffix.getLast? = some 'i' then some Base.binary
    else if suffix.length = 1 then some Base.decimal
    else none
  if suffix = ['k', 'i'] then none
  let exponent ← suffix.head?.bind exponents
  some (base, exponent)

/-- `parse_quantity`. -/
def parseQuantity : Quantity → Except Exn Decimal
  | .int n => .ok (.fin (Dec.ofInt n))
  | .float x => .ok (Decimal.ofFloat x)
  | .decimal d => .ok d
  | .text s =>
      let (number, suffix) := splitSuffix s.toList
      match Decimal.ofString number with
      | none => .error (.valueError ("Invalid number format: " ++ String.ofList number))
      | some number =>
          match suffix with
          | none => .ok number
          | some suffix =>
              match suffixScale suffix with
              | none => .error (.valueError (s ++ " has unknown suffix"))
              | some (base, exponent) => number.mul (.fin (base.power exponent))

/-! ### What a quantity denotes -/

namespace Quantity

/-- The number of a quantity and the scale of its suffix; `none` for infinities, for
NaNs and for what cannot be read. -/
def reading : Quantity → Option (Dec × Option (Base × ℤ))
  | .int n => some (Dec.ofInt n, none)
  | .float x => (Decimal.ofFloat x).finite.map fun d => (d, none)
  | .decimal d => d.finite.map fun d => (d, none)
  | .text s => do
      let (number, suffix) := splitSuffix s.toList
      let number ← (Decimal.ofString number).bind Decimal.finite
      match suffix with
      | none => some (number, none)
      | some suffix => (suffixScale suffix).map fun scale => (number, some scale)

/-- The amount that a quantity denotes. -/
def amount (q : Quantity) : ℚ :=
  match q.reading with
  | none => 0
  | some (d, none) => d.value
  | some (d, some (base, exponent)) => d.value * (base.toNat : ℚ) ^ exponent

/-- The decimal places that the suffix adds: three, six or nine for `m`, `u` and `n`,
ten, twenty or thirty for the same with base 1024. -/
def suffixPlaces : Base × ℤ → ℤ
  | (.decimal, exponent) => min 0 (3 * exponent)
  | (.binary, exponent) => min 0 (10 * exponent)

/-- The power of ten of the last digit of a quantity. -/
def lastPlace (q : Quantity) : ℤ :=
  match q.reading with
  | none => 0
  | some (d, none) => d.exp
  | some (d, some scale) => d.exp + suffixPlaces scale

/-- `parse_quantity` returns a finite number. -/
def Accepted (q : Quantity) : Prop := ∃ d, parseQuantity q = .ok (.fin d)

end Quantity

/-! ### Powers -/

lemma Base.power_value (base : Base) (exponent : ℤ) :
    (base.power exponent).value = (base.toNat : ℚ) ^ exponent := by
  have hrecip : (base.reciprocal.coeff : ℚ) * (10 : ℚ) ^ base.reciprocal.exp
      = (base.toNat : ℚ)⁻¹ := by
    cases base <;> norm_num [Base.reciprocal, Base.toNat]
  unfold Base.power
  split_ifs with h
  · have hcast : (base.toNat : ℚ) ^ exponent = (base.toNat : ℚ) ^ exponent.toNat := by
      rw [← zpow_natCast, Int.toNat_of_nonneg h]
    rw [hcast]
    simp [Dec.value, Dec.sign]
  · have hexp : exponent = -((-exponent).toNat : ℤ) := by omega
    have hpow : (10 : ℚ) ^ (base.reciprocal.exp * -exponent)
        = ((10 : ℚ) ^ base.reciprocal.exp) ^ (-exponent).toNat := by
      rw [zpow_mul, ← zpow_natCast, Int.toNat_of_nonneg (by omega)]
    have hright : (base.toNat : ℚ) ^ exponent = ((base.toNat : ℚ)⁻¹) ^ (-exponent).toNat := by
      rw [inv_pow, ← zpow_natCast, ← zpow_neg, ← hexp]
    rw [hright, ← hrecip, mul_pow, ← hpow]
    simp [Dec.value, Dec.sign]

lemma Base.power_exp (base : Base) (exponent : ℤ) :
    (base.power exponent).exp = Quantity.suffixPlaces (base, exponent) := by
  cases base <;> simp only [Base.power, Quantity.suffixPlaces, Base.reciprocal] <;> split_ifs <;>
    simp only <;> omega

/-! ### The reading of accepted quantities -/

/-- An accepted quantity has a reading; its result is the number itself, or the
rounded product with the power of the suffix. -/
lemma Quantity.Accepted.reading {q : Quantity} (h : q.Accepted) :
    (∃ d, q.reading = some (d, none) ∧ parseQuantity q = .ok (.fin d))
      ∨ ∃ d base exponent, q.reading = some (d, some (base, exponent))
        ∧ parseQuantity q = (d.prod (base.power exponent)).fix.map .fin := by
  obtain ⟨r, hr⟩ := h
  cases q with
  | int n => exact Or.inl ⟨_, rfl, rfl⟩
  | float x =>
      have hx : Decimal.ofFloat x = .fin r := Except.ok.inj hr
      exact Or.inl ⟨r, by rw [Quantity.reading, hx]; rfl, hr⟩
  | decimal d =>
      have hd : d = .fin r := Except.ok.inj hr
      exact Or.inl ⟨r, by rw [Quantity.reading, hd]; rfl, hr⟩
  | text s =>
      rcases hsplit : splitSuffix s.toList with ⟨number, suffix⟩
      simp only [parseQuantity, Quantity.reading, hsplit] at hr ⊢
      cases hnumber : Decimal.ofString number with
      | none => simp only [hnumber, reduceCtorEq] at hr
      | some a =>
          cases suffix with
          | none =>
              simp only [hnumber, Except.ok.injEq] at hr
              exact Or.inl ⟨r, by simp [hr, Decimal.finite], by rw [hr]⟩
          | some suffix =>
              cases hscale : suffixScale suffix with
              | none => simp only [hnumber, hscale, reduceCtorEq] at hr
              | some scale =>
                  obtain ⟨base, exponent⟩ := scale
                  simp only [hnumber, hscale] at hr
                  obtain ⟨d, rfl⟩ := Decimal.fin_of_mul_eq_fin hr
                  refine Or.inr ⟨d, base, exponent, by simp [Decimal.finite, hscale], ?_⟩
                  simp only [hscale]
                  rfl

/-- What `parse_quantity` keeps of the amount. -/
theorem parseQuantity_spec {q : Quantity} (h : q.Accepted) (hsmall : |q.amount| < 10 ^ 26) :
    ∃ d, parseQuantity q = .ok (.fin d) ∧ d.Tracks q.amount (2 * |q.amount|) (0 ≤ q.lastPlace) := by
  rcases h.reading with ⟨d, hread, hparse⟩ | ⟨d, base, exponent, hread, hparse⟩
  · have hamount : q.amount = d.value := by rw [Quantity.amount, hread]
    have hplace : q.lastPlace = d.exp := by rw [Quantity.lastPlace, hread]
    refine ⟨d, hparse, ?_, fun hw => ⟨hplace ▸ hw, hamount.symm⟩, fun hw => ?_⟩
    · rw [hamount]
      linarith [abs_nonneg d.value]
    · rw [hplace] at hw
      omega
  · have hamount : q.amount = (d.prod (base.power exponent)).value := by
      rw [Quantity.amount, hread, Dec.prod_value, Base.power_value]
    have hplace : q.lastPlace = (d.prod (base.power exponent)).exp := by
      rw [Quantity.lastPlace, hread, Dec.prod, Base.power_exp]
    rw [hamount] at hsmall ⊢
    obtain ⟨r, hfix, hr⟩ := Dec.fix_spec hsmall
    refine ⟨r, by rw [hparse, hfix]; rfl, ?_, fun hw => hr.whole (hplace ▸ hw), fun hw => ?_⟩
    · have hzero := hr.nearest (Dec.ofInt 0) (Dec.ofInt_fits (by norm_num))
      rw [Dec.value_ofInt, Int.cast_zero, zero_sub, abs_neg] at hzero
      have htri := abs_sub_abs_le_abs_sub r.value (d.prod (base.power exponent)).value
      linarith
    · rw [hplace] at hw
      exact hr.fraction (by omega)

/-- `parse_quantity` gives the amount, or a number that is as near to it as any other. -/
lemma parseQuantity_nearest {q : Quantity} (h : q.Accepted) (hsmall : |q.amount| < 10 ^ 26) :
    ∃ d, parseQuantity q = .ok (.fin d) ∧ d.Nearest q.amount := by
  rcases h.reading with ⟨d, hread, hparse⟩ | ⟨d, base, exponent, hread, hparse⟩
  · exact ⟨d, hparse, Or.inl (by rw [Quantity.amount, hread])⟩
  · have hamount : q.amount = (d.prod (base.power exponent)).value := by
      rw [Quantity.amount, hread, Dec.prod_value, Base.power_value]
    rw [hamount] at hsmall ⊢
    obtain ⟨r, hfix, hr⟩ := Dec.fix_spec hsmall
    exact ⟨r, by rw [hparse, hfix]; rfl, hr.nearest_value⟩

end KubeSafeScheduler.Annotator
