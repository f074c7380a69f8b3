import Mathlib.Tactic
import Mathlib.Data.Rat.Floor

/-!
Numbers as decimal texts.

* `roundHalfEven`: rounding to the nearest integer, halves to the even one;
  `roundHalfEven_nearest`.
* `fixedDigits`: a natural number as digits, padded with zeros to a width.
* `formatFixed`: a multiple of a power of a tenth, with a decimal point.
* `parseDecimal`: the number that a decimal text without exponent denotes.
* `parseDecimal_formatFixed`: reading what was written.
-/

namespace KubeSafeScheduler

/-! ### Rounding -/

/-- Rounding to the nearest integer, halves to the even one. -/
def roundHalfEven (x : ℚ) : ℤ :=
  if x - ⌊x⌋ < 1 / 2 then ⌊x⌋
  else if 1 / 2 < x - ⌊x⌋ then ⌊x⌋ + 1
  else if Even ⌊x⌋ then ⌊x⌋ else ⌊x⌋ + 1

@[simp] lemma roundHalfEven_intCast (n : ℤ) : roundHalfEven n = n := by
  simp [roundHalfEven]

lemma roundHalfEven_nonneg {x : ℚ} (h : 0 ≤ x) : 0 ≤ roundHalfEven x := by
  have hfloor : 0 ≤ ⌊x⌋ := Int.floor_nonneg.mpr h
  unfold roundHalfEven
  split_ifs <;> omega

/-- Rounding does not pass an integer. -/
lemma roundHalfEven_le {x : ℚ} {n : ℤ} (h : x ≤ n) : roundHalfEven x ≤ n := by
  have hfloor : ⌊x⌋ ≤ n := by
    have hle : (⌊x⌋ : ℚ) ≤ n := (Int.floor_le x).trans h
    exact_mod_cast hle
  rcases eq_or_lt_of_le hfloor with heq | hlt
  · have hzero : x - ⌊x⌋ < 1 / 2 := by
      rw [heq]
      linarith
    rw [roundHalfEven, if_pos hzero]
    exact hfloor
  · unfold roundHalfEven
    split_ifs <;> omega

/-- No integer is nearer. -/
lemma roundHalfEven_nearest (x : ℚ) (n : ℤ) : |(roundHalfEven x : ℚ) - x| ≤ |(n : ℚ) - x| := by
  have hle := Int.floor_le x
  have hlt := Int.lt_floor_add_one x
  have hfar : x - ⌊x⌋ ≤ |(n : ℚ) - x| ∨ ⌊x⌋ + 1 - x ≤ |(n : ℚ) - x| := by
    rcases le_or_gt n ⌊x⌋ with hn | hn
    · have hn' : (n : ℚ) ≤ ⌊x⌋ := by exact_mod_cast hn
      refine Or.inl ?_
      rw [abs_sub_comm]
      exact le_trans (by linarith) (le_abs_self _)
    · have hn' : (⌊x⌋ : ℚ) + 1 ≤ n := by exact_mod_cast hn
      exact Or.inr (le_trans (by linarith) (le_abs_self _))
  have hdown : |((⌊x⌋ : ℤ) : ℚ) - x| = x - ⌊x⌋ := by
    rw [abs_sub_comm, abs_of_nonneg (by linarith)]
  have hup : |((⌊x⌋ + 1 : ℤ) : ℚ) - x| = ⌊x⌋ + 1 - x := by
    push_cast
    exact abs_of_nonneg (by linarith)
  unfold roundHalfEven
  split_ifs with h1 h2 h3
  · rw [hdown]
    rcases hfar with h | h <;> linarith
  · rw [hup]
    rcases hfar with h | h <;> linarith
  · rw [hdown]
    rcases hfar with h | h <;> linarith
  · rw [hup]
    rcases hfar with h | h <;> linarith

/-- What is rounded to less than an even number. -/
lemma roundHalfEven_lt_iff {x : ℚ} {n : ℤ} (hn : Even n) :
    roundHalfEven x < n ↔ x < n - 1 / 2 := by
  have hle := Int.floor_le x
  have hlt := Int.lt_floor_add_one x
  have hcast : ∀ m : ℤ, m < n → (m : ℚ) + 1 ≤ n := fun m h => by exact_mod_cast h
  have hback : ∀ m : ℤ, (m : ℚ) < n → m < n := fun m h => Int.cast_lt.mp h
  have hodd : Even ⌊x⌋ → ⌊x⌋ + 1 ≠ n := by
    rintro heven rfl
    exact Int.not_even_iff_odd.mpr heven.add_one hn
  unfold roundHalfEven
  split_ifs with hdown hup heven
  · refine ⟨fun h => ?_, fun h => hback _ (by linarith)⟩
    have hnext := hcast _ h
    linarith
  · refine ⟨fun h => ?_, fun h => hback _ (by push_cast; linarith)⟩
    have hnext := hcast _ h
    push_cast at hnext
    linarith
  · refine ⟨fun h => ?_, fun h => hback _ (by linarith)⟩
    have hnext := hcast _ (lt_of_le_of_ne h (hodd heven))
    push_cast at hnext
    linarith
  · refine ⟨fun h => ?_, fun h => hback _ (by push_cast; linarith)⟩
    have hnext := hcast _ h
    push_cast at hnext
    linarith

/-! ### Digits -/

/-- The last `k` digits of a number. -/
def fixedDigits : ℕ → ℕ → List Char
  | 0, _ => []
  | k + 1, n => fixedDigits k (n / 10) ++ [(n % 10).digitChar]

@[simp] lemma fixedDigits_length (k n : ℕ) : (fixedDigits k n).length = k := by
  induction k generalizing n with
  | zero => rfl
  | succ k ih => rw [fixedDigits, List.length_append, ih, List.length_singleton]

lemma isDigit_of_mem_fixedDigits {k n : ℕ} {c : Char} (h : c ∈ fixedDigits k n) : c.isDigit := by
  induction k generalizing n with
  | zero => cases h
  | succ k ih =>
      rw [fixedDigits, List.mem_append, List.mem_singleton] at h
      rcases h with h | rfl
      · exact ih h
      · rw [Nat.isDigit_digitChar, decide_eq_true_eq]
        omega

lemma ofDigitChars_fixedDigits (k n m : ℕ) :
    Nat.ofDigitChars 10 (fixedDigits k n) m = m * 10 ^ k + n % 10 ^ k := by
  induction k generalizing n m with
  | zero => simp [fixedDigits, Nat.mod_one]
  | succ k ih =>
      have hlast : n % 10 < 10 := Nat.mod_lt n (by decide)
      rw [fixedDigits, Nat.ofDigitChars_append, ih,
        Nat.ofDigitChars_cons_digitChar_of_lt_ten hlast, Nat.ofDigitChars_nil, pow_succ',
        Nat.mod_mul]
      ring

/-! ### Texts with a decimal point -/

/-- The text of `n` units of `10 ^ -d`, with `d` digits after the point. -/
def formatFixed (d n : ℕ) : String :=
  String.ofList (Nat.toDigits 10 (n / 10 ^ d) ++ '.' :: fixedDigits d (n % 10 ^ d))

/-- The number that a text of digits, perhaps with a point, denotes. -/
def parseUnsigned (cs : List Char) : Option ℚ :=
  let whole := cs.takeWhile Char.isDigit
  match cs.dropWhile Char.isDigit with
  | [] => if whole = [] then none else some (Nat.ofDigitChars 10 whole 0)
  | c :: fraction =>
      if c = '.' ∧ fraction.all Char.isDigit ∧ whole ++ fraction ≠ [] then
        some (Nat.ofDigitChars 10 (whole ++ fraction) 0 / 10 ^ fraction.length)
      else none

/-- The number that a decimal text denotes; texts with an exponent, and those of
infinities, are not read. -/
def parseDecimal (s : String) : Option ℚ :=
  match s.toList with
  | '-' :: cs => (parseUnsigned cs).map (- ·)
  | '+' :: cs => parseUnsigned cs
  | cs => parseUnsigned cs

/-- Digits before a point are read up to the point. -/
lemma parseUnsigned_point {whole fraction : List Char} (hwhole : ∀ c ∈ whole, c.isDigit)
    (hfraction : ∀ c ∈ fraction, c.isDigit) (hne : whole ≠ []) :
    parseUnsigned (whole ++ '.' :: fraction)
      = some ((Nat.ofDigitChars 10 (whole ++ fraction) 0 : ℚ) / 10 ^ fraction.length) := by
  have htake : (whole ++ '.' :: fraction).takeWhile Char.isDigit = whole := by
    rw [List.takeWhile_append_of_pos hwhole]
    simp
  have hdrop : (whole ++ '.' :: fraction).dropWhile Char.isDigit = '.' :: fraction := by
    rw [List.dropWhile_append_of_pos hwhole]
    simp
  rw [parseUnsigned, htake, hdrop]
  simp [hne, List.all_eq_true.mpr hfraction]

/-- A text that starts with a digit has no sign. -/
lemma parseDecimal_of_isDigit {c : Char} {cs : List Char} (hc : c.isDigit) :
    parseDecimal (String.ofList (c :: cs)) = parseUnsigned (c :: cs) := by
  rw [parseDecimal, String.toList_ofList]
  split
  · rename_i heq
    obtain ⟨rfl, -⟩ := List.cons.inj heq
    exact absurd hc (by decide)
  · rename_i heq
    obtain ⟨rfl, -⟩ := List.cons.inj heq
    exact absurd hc (by decide)
  · rfl

/-- Reading what was written. -/
theorem parseDecimal_formatFixed (d n : ℕ) :
    parseDecimal (formatFixed d n) = some ((n : ℚ) / 10 ^ d) := by
  have hdigits : ∀ c ∈ Nat.toDigits 10 (n / 10 ^ d), c.isDigit := fun c hc =>
    Nat.isDigit_of_mem_toDigits (by decide) (by decide) hc
  have hfraction : ∀ c ∈ fixedDigits d (n % 10 ^ d), c.isDigit := fun c hc =>
    isDigit_of_mem_fixedDigits hc
  have hparse := parseUnsigned_point hdigits hfraction Nat.toDigits_ne_nil
  obtain ⟨c, cs, hcons⟩ :=
    List.exists_cons_of_ne_nil (Nat.toDigits_ne_nil (n := n / 10 ^ d) (b := 10))
  have hc : c.isDigit := hdigits c (by rw [hcons]; exact List.mem_cons_self)
  have hvalue : Nat.ofDigitChars 10
      (Nat.toDigits 10 (n / 10 ^ d) ++ fixedDigits d (n % 10 ^ d)) 0 = n := by
    rw [Nat.ofDigitChars_append, Nat.ofDigitChars_ten_toDigits, ofDigitChars_fixedDigits,
      Nat.mod_mod, mul_comm]
    exact Nat.div_add_mod n (10 ^ d)
  rw [hvalue, fixedDigits_length] at hparse
  rw [formatFixed, hcons, List.cons_append, parseDecimal_of_isDigit hc, ← List.cons_append,
    ← hcons]
  exact hparse

end KubeSafeScheduler
