import Mathlib.Tactic
import Mathlib.Analysis.SpecialFunctions.Pow.NNReal

/-!
Exact readings of machine arithmetic.

* `HasSqrt`: a field with a square root function. Floating-point code is read
  over an ordered field `K` with such a function; `ℝ` with `Real.sqrt` is the
  reading used by results that need the square root to be monotone.
* `toInt32`, `toInt64`: the conversion of an integer to a fixed width, keeping
  the low bits as a two's complement number.
* `roundHalfAway`: rounding to the nearest integer, halves away from zero.
-/

namespace KubeSafeScheduler

/-- A type with a square root function. -/
class HasSqrt (K : Type*) where
  sqrt : K → K

noncomputable instance : HasSqrt ℝ := ⟨Real.sqrt⟩

@[simp] lemma sqrt_real (x : ℝ) : HasSqrt.sqrt x = Real.sqrt x := rfl

/-- The low 32 bits as a signed number. -/
def toInt32 (x : ℤ) : ℤ := x.bmod (2 ^ 32)

/-- The low 64 bits as a signed number. -/
def toInt64 (x : ℤ) : ℤ := x.bmod (2 ^ 64)

lemma toInt32_of_range {x : ℤ} (h : -2 ^ 31 ≤ x) (h' : x < 2 ^ 31) : toInt32 x = x := by
  rw [toInt32, Int.bmod_def]
  push_cast
  split_ifs <;> omega

/-- The conversion changes the value by a multiple of `2^32` and lands in the
signed range. -/
lemma toInt32_spec (x : ℤ) :
    (∃ k, x = toInt32 x + 2 ^ 32 * k) ∧ -2 ^ 31 ≤ toInt32 x ∧ toInt32 x < 2 ^ 31 := by
  rw [toInt32, Int.bmod_def]
  push_cast
  split_ifs with h
  · exact ⟨⟨x / 2 ^ 32, by omega⟩, by omega, by omega⟩
  · exact ⟨⟨x / 2 ^ 32 + 1, by omega⟩, by omega, by omega⟩

lemma toInt64_of_range {x : ℤ} (h : -2 ^ 63 ≤ x) (h' : x < 2 ^ 63) : toInt64 x = x := by
  rw [toInt64, Int.bmod_def]
  push_cast
  split_ifs <;> omega

lemma toInt64_toInt64_add (x y : ℤ) : toInt64 (toInt64 x + y) = toInt64 (x + y) :=
  Int.bmod_add_bmod

lemma toInt64_toInt64 (x : ℤ) : toInt64 (toInt64 x) = toInt64 x := by
  simpa only [add_zero] using toInt64_toInt64_add x 0

/-- A loop of 64-bit additions: only the sum is cut. -/
lemma foldl_toInt64_add {α : Type*} (f : α → ℤ) (l : List α) {s : ℤ} (hs : toInt64 s = s) :
    l.foldl (fun s a => toInt64 (s + f a)) s = toInt64 (s + (l.map f).sum) := by
  induction l generalizing s with
  | nil => rw [List.foldl_nil, List.map_nil, List.sum_nil, add_zero, hs]
  | cons a l ih =>
      rw [List.foldl_cons, ih (toInt64_toInt64 _), toInt64_toInt64_add, List.map_cons,
        List.sum_cons, add_assoc]

section Round

variable {K : Type*} [Field K] [LinearOrder K] [IsStrictOrderedRing K] [FloorRing K]

/-- Rounding to the nearest integer, halves away from zero. -/
def roundHalfAway (x : K) : ℤ := if 0 ≤ x then ⌊x + 1 / 2⌋ else ⌈x - 1 / 2⌉

lemma roundHalfAway_mono_of_nonneg {x y : K} (hx : 0 ≤ x) (h : x ≤ y) :
    roundHalfAway x ≤ roundHalfAway y := by
  rw [roundHalfAway, roundHalfAway, if_pos hx, if_pos (hx.trans h)]
  exact Int.floor_mono (by linarith)

/-- An integer is its own rounding. -/
lemma roundHalfAway_intCast (z : ℤ) : roundHalfAway (z : K) = z := by
  rw [roundHalfAway]
  split_ifs
  · rw [Int.floor_eq_iff]
    constructor <;> linarith
  · rw [Int.ceil_eq_iff]
    constructor <;> linarith

end Round

end KubeSafeScheduler
