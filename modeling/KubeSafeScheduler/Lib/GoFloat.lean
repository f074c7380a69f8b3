import KubeSafeScheduler.Lib.Exact

/-!
The numbers of type `float64` of a Go program, read exactly: an element of an
ordered field, an infinity, or no number at all.

The finite part is not rounded and has one zero, so a quotient by zero has the
sign of its numerator. Comparisons are those of the Go operators: they are false
when an operand is not a number.

* `GoFloat` with `+`, `-`, `*`, `/`, `lt`, `le`, `eq`.
* `min`, `max`, `sqrt`: `math.Min`, `math.Max`, `math.Sqrt` with their special
  cases.
* `toInt`: the conversion to `int` as compiled for amd64.
* `InUnit`: the finite numbers between zero and one; `clamp_cases`: what
  `math.Max(math.Min(x, 1), 0)` can be.
-/

set_option linter.unusedSectionVars false

namespace KubeSafeScheduler

/-- A number of type `float64`. -/
inductive GoFloat (K : Type*) where
  | nan
  | inf (neg : Bool)
  | fin (x : K)
  deriving DecidableEq

namespace GoFloat

variable {K : Type*} [Field K] [LinearOrder K] [IsStrictOrderedRing K]

instance : Inhabited (GoFloat K) := ⟨nan⟩

/-! ### Arithmetic -/

/-- The opposite. -/
protected def neg : GoFloat K → GoFloat K
  | nan => nan
  | inf s => inf !s
  | fin x => fin (-x)

/-- The sum; infinities of opposite signs have none. -/
protected def add : GoFloat K → GoFloat K → GoFloat K
  | fin x, fin y => fin (x + y)
  | inf s, inf t => if s = t then inf s else nan
  | inf s, fin _ => inf s
  | fin _, inf t => inf t
  | _, _ => nan

/-- The product; an infinity times zero has none. -/
protected def mul : GoFloat K → GoFloat K → GoFloat K
  | fin x, fin y => fin (x * y)
  | inf s, inf t => inf (s ^^ t)
  | inf s, fin y => if y = 0 then nan else inf (s ^^ decide (y < 0))
  | fin x, inf t => if x = 0 then nan else inf (decide (x < 0) ^^ t)
  | _, _ => nan

/-- The quotient; that of zeros and that of infinities is not a number. -/
protected def div : GoFloat K → GoFloat K → GoFloat K
  | fin x, fin y =>
      if y = 0 then if x = 0 then nan else inf (decide (x < 0)) else fin (x / y)
  | inf s, fin y => inf (s ^^ decide (y < 0))
  | fin _, inf _ => fin 0
  | _, _ => nan

instance : Neg (GoFloat K) := ⟨GoFloat.neg⟩
instance : Add (GoFloat K) := ⟨GoFloat.add⟩
instance : Sub (GoFloat K) := ⟨fun x y => x + -y⟩
instance : Mul (GoFloat K) := ⟨GoFloat.mul⟩
instance : Div (GoFloat K) := ⟨GoFloat.div⟩

@[simp] lemma neg_fin (x : K) : -(fin x) = fin (-x) := rfl

@[simp] lemma neg_nan : -(nan : GoFloat K) = nan := rfl

@[simp] lemma neg_inf (s : Bool) : -(inf s : GoFloat K) = inf !s := rfl

@[simp] lemma add_fin (x y : K) : fin x + fin y = fin (x + y) := rfl

@[simp] lemma inf_add_fin (s : Bool) (y : K) : inf s + fin y = inf s := rfl

@[simp] lemma fin_add_inf (x : K) (s : Bool) : fin x + inf s = inf s := rfl

@[simp] lemma inf_add_inf (s t : Bool) :
    (inf s : GoFloat K) + inf t = if s = t then inf s else nan := rfl

@[simp] lemma nan_add (y : GoFloat K) : nan + y = nan := by
  cases y <;> rfl

@[simp] lemma add_nan (x : GoFloat K) : x + nan = nan := by
  cases x <;> rfl

lemma sub_eq (x y : GoFloat K) : x - y = x + -y := rfl

@[simp] lemma sub_fin (x y : K) : fin x - fin y = fin (x - y) := by
  rw [sub_eq, neg_fin, add_fin, sub_eq_add_neg]

@[simp] lemma nan_sub (y : GoFloat K) : nan - y = nan := nan_add _

@[simp] lemma sub_nan (x : GoFloat K) : x - nan = nan := add_nan x

@[simp] lemma mul_fin (x y : K) : fin x * fin y = fin (x * y) := rfl

@[simp] lemma inf_mul_fin (s : Bool) (y : K) :
    inf s * fin y = if y = 0 then nan else inf (s ^^ decide (y < 0)) := rfl

@[simp] lemma fin_mul_inf (x : K) (t : Bool) :
    fin x * inf t = if x = 0 then nan else inf (decide (x < 0) ^^ t) := rfl

@[simp] lemma nan_mul (y : GoFloat K) : nan * y = nan := by
  cases y <;> rfl

@[simp] lemma mul_nan (x : GoFloat K) : x * nan = nan := by
  cases x <;> rfl

lemma div_fin {y : K} (hy : y ≠ 0) (x : K) : fin x / fin y = fin (x / y) := if_neg hy

@[simp] lemma zero_div_zero : (fin 0 : GoFloat K) / fin 0 = nan :=
  (if_pos rfl).trans (if_pos rfl)

@[simp] lemma inf_div_fin (s : Bool) (y : K) : inf s / fin y = inf (s ^^ decide (y < 0)) := rfl

@[simp] lemma nan_div (y : GoFloat K) : nan / y = nan := by
  cases y <;> rfl

@[simp] lemma div_nan (x : GoFloat K) : x / nan = nan := by
  cases x <;> rfl

/-- A quotient by a finite number other than zero is a number when its numerator
is. -/
lemma div_eq_nan_iff {y : K} (hy : y ≠ 0) (x : GoFloat K) : x / fin y = nan ↔ x = nan := by
  cases x with
  | nan => simp
  | inf s => simp
  | fin x => simp [div_fin hy]

lemma add_fin_eq_nan_iff (x : GoFloat K) (y : K) : x + fin y = nan ↔ x = nan := by
  cases x <;> simp

lemma fin_sub_eq_nan_iff (x : K) (y : GoFloat K) : fin x - y = nan ↔ y = nan := by
  cases y <;> simp [sub_eq]

/-- A product with a finite number other than zero is a number when the other
factor is. -/
lemma mul_eq_nan_iff {y : K} (hy : y ≠ 0) (x : GoFloat K) : x * fin y = nan ↔ x = nan := by
  cases x with
  | nan => simp
  | inf s => simp [hy]
  | fin x => simp

/-! ### Comparisons -/

/-- `x < y`. -/
def lt : GoFloat K → GoFloat K → Bool
  | fin x, fin y => decide (x < y)
  | inf s, inf t => s && !t
  | inf s, fin _ => s
  | fin _, inf t => !t
  | _, _ => false

/-- `x == y`. -/
def eq : GoFloat K → GoFloat K → Bool
  | fin x, fin y => decide (x = y)
  | inf s, inf t => s == t
  | _, _ => false

/-- `x <= y`. -/
def le (x y : GoFloat K) : Bool := x.lt y || x.eq y

@[simp] lemma lt_fin (x y : K) : (fin x).lt (fin y) = decide (x < y) := rfl

@[simp] lemma eq_fin (x y : K) : (fin x).eq (fin y) = decide (x = y) := rfl

@[simp] lemma le_fin (x y : K) : (fin x).le (fin y) = decide (x ≤ y) := by
  simp [le, le_iff_lt_or_eq]

@[simp] lemma nan_lt (y : GoFloat K) : (nan : GoFloat K).lt y = false := by
  cases y <;> rfl

@[simp] lemma lt_nan (x : GoFloat K) : x.lt nan = false := by
  cases x <;> rfl

@[simp] lemma nan_eq (y : GoFloat K) : (nan : GoFloat K).eq y = false := by
  cases y <;> rfl

@[simp] lemma eq_nan (x : GoFloat K) : x.eq nan = false := by
  cases x <;> rfl

@[simp] lemma nan_le (y : GoFloat K) : (nan : GoFloat K).le y = false := by
  simp [le]

@[simp] lemma le_nan (x : GoFloat K) : x.le nan = false := by
  simp [le]

/-! ### Functions of package `math` -/

/-- `math.IsNaN`. -/
def isNaN (x : GoFloat K) : Bool := decide (x = nan)

/-- `math.Min`: a negative infinity counts before an operand that is not a
number. -/
def min (x y : GoFloat K) : GoFloat K :=
  if x = inf true ∨ y = inf true then inf true
  else if x.isNaN || y.isNaN then nan
  else if x.lt y then x else y

/-- `math.Max`: a positive infinity counts before an operand that is not a
number. -/
def max (x y : GoFloat K) : GoFloat K :=
  if x = inf false ∨ y = inf false then inf false
  else if x.isNaN || y.isNaN then nan
  else if y.lt x then x else y

@[simp] lemma min_fin (x y : K) : (fin x).min (fin y) = fin (Min.min x y) := by
  by_cases h : x < y
  · simp [GoFloat.min, isNaN, h, min_eq_left h.le]
  · simp [GoFloat.min, isNaN, h, min_eq_right (not_lt.mp h)]

@[simp] lemma max_fin (x y : K) : (fin x).max (fin y) = fin (Max.max x y) := by
  by_cases h : y < x
  · simp [GoFloat.max, isNaN, h, max_eq_left h.le]
  · simp [GoFloat.max, isNaN, h, max_eq_right (not_lt.mp h)]

@[simp] lemma min_nan_fin (y : K) : (nan : GoFloat K).min (fin y) = nan := by
  simp [GoFloat.min, isNaN]

@[simp] lemma max_nan_fin (y : K) : (nan : GoFloat K).max (fin y) = nan := by
  simp [GoFloat.max, isNaN]

@[simp] lemma min_inf_fin (s : Bool) (y : K) :
    (inf s).min (fin y) = if s then inf true else fin y := by
  cases s <;> simp [GoFloat.min, isNaN, lt]

@[simp] lemma max_inf_fin (s : Bool) (y : K) :
    (inf s).max (fin y) = if s then fin y else inf false := by
  cases s <;> simp [GoFloat.max, isNaN, lt]

lemma max_fin_eq_nan_iff (x : GoFloat K) (y : K) : x.max (fin y) = nan ↔ x = nan := by
  cases x with
  | nan => simp
  | inf s => cases s <;> simp
  | fin x => simp

/-- `math.Sqrt`. -/
def sqrt [HasSqrt K] : GoFloat K → GoFloat K
  | nan => nan
  | inf s => if s then nan else inf false
  | fin x => if x < 0 then nan else fin (HasSqrt.sqrt x)

/-! ### The unit interval -/

/-- A finite number between zero and one. -/
def InUnit (x : GoFloat K) : Prop := ∃ y : K, 0 ≤ y ∧ y ≤ 1 ∧ x = fin y

lemma inUnit_fin {y : K} (h0 : 0 ≤ y) (h1 : y ≤ 1) : InUnit (fin y) := ⟨y, h0, h1, rfl⟩

/-- `math.Max(math.Min(x, 1), 0)`. -/
def clamp (x : GoFloat K) : GoFloat K := (x.min (fin 1)).max (fin 0)

@[simp] lemma clamp_nan : clamp (nan : GoFloat K) = nan := by
  simp [clamp]

@[simp] lemma clamp_fin (x : K) : clamp (fin x) = fin (Max.max (Min.min x 1) 0) := by
  simp [clamp]

@[simp] lemma clamp_inf (s : Bool) : clamp (inf s : GoFloat K) = fin (if s then 0 else 1) := by
  cases s <;> simp [clamp]

lemma clamp_cases (x : GoFloat K) : x = nan ∨ InUnit (clamp x) := by
  cases x with
  | nan => exact .inl rfl
  | inf s => cases s <;> exact .inr (by simp [InUnit])
  | fin x =>
      rw [clamp_fin]
      exact .inr (inUnit_fin (le_max_right _ _) (max_le (min_le_right _ _) zero_le_one))

/-! ### Conversion to an integer -/

variable [FloorRing K]

/-- The integer part, toward zero. -/
def trunc (x : K) : ℤ := if 0 ≤ x then ⌊x⌋ else ⌈x⌉

/-- `int(x)`: toward zero, and the least number of 64 bits when `x` has no such
integer. -/
def toInt : GoFloat K → ℤ
  | fin x => if -2 ^ 63 ≤ trunc x ∧ trunc x < 2 ^ 63 then trunc x else -2 ^ 63
  | _ => -2 ^ 63

@[simp] lemma toInt_nan : (nan : GoFloat K).toInt = -2 ^ 63 := rfl

/-- A number from zero to below `m + 1` becomes its integer part. -/
lemma toInt_fin {x : K} {m : ℤ} (h0 : 0 ≤ x) (hm : x < m + 1) (hm' : m < 2 ^ 63) :
    (fin x).toInt = ⌊x⌋ ∧ 0 ≤ ⌊x⌋ ∧ ⌊x⌋ ≤ m := by
  have hfloor : 0 ≤ ⌊x⌋ := Int.floor_nonneg.mpr h0
  have hle : ⌊x⌋ ≤ m := Int.floor_le_iff.mpr hm
  have htrunc : trunc x = ⌊x⌋ := if_pos h0
  refine ⟨?_, hfloor, hle⟩
  rw [toInt, htrunc, if_pos ⟨by omega, by omega⟩]

end GoFloat

end KubeSafeScheduler
