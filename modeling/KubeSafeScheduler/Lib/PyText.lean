import Mathlib.Tactic
import Mathlib.Data.List.TakeWhile
import KubeSafeScheduler.Lib.PyDecimal

/-!
Python's numbers as texts.

* `Number.str`: `str` of an integer or a decimal; `Dec.text_of_exp_zero` and
  `Dec.mem_text_of_exp_neg` say when it is a plain sequence of digits.
* `Decimal.ofString`: the constructor `Decimal(text)`, which is exact. It takes
  blanks around the number, underscores and the digits of every script.
* `asciiDigit`: the digits that `str.isdigit` keeps of a text; `Decimal.ofString_spec`:
  of a finite number they are those of the coefficient and of the exponent.
-/

namespace KubeSafeScheduler.Py

/-! ### Numbers to texts -/

/-- `str(n)`. -/
def intText (n : ℤ) : List Char := (if n < 0 then ['-'] else []) ++ Nat.toDigits 10 n.natAbs

namespace Dec

/-- The characters of the sign. -/
def signText (neg : Bool) : List Char := if neg then ['-'] else []

/-- The digits before the point. -/
def leftDigits (d : Dec) : ℤ := d.exp + numDigits d.coeff

/-- Where the point is set: after the units as long as at most five zeros follow it,
and after the first digit in scientific form. -/
def dotPlace (d : Dec) : ℤ := if d.exp ≤ 0 ∧ -6 < d.leftDigits then d.leftDigits else 1

/-- The digits with the point. -/
def mantissaText (d : Dec) : List Char :=
  let digits := Nat.toDigits 10 d.coeff
  if d.dotPlace ≤ 0 then '0' :: '.' :: (List.replicate (-d.dotPlace).toNat '0' ++ digits)
  else if numDigits d.coeff ≤ d.dotPlace then
    digits ++ List.replicate (d.dotPlace - numDigits d.coeff).toNat '0'
  else digits.take d.dotPlace.toNat ++ '.' :: digits.drop d.dotPlace.toNat

/-- The exponent of the scientific form, always with a sign. -/
def exponentText (d : Dec) : List Char :=
  if d.leftDigits = d.dotPlace then []
  else 'E' :: ((if d.leftDigits - d.dotPlace < 0 then [] else ['+'])
    ++ intText (d.leftDigits - d.dotPlace))

/-- `str(d)`. -/
def text (d : Dec) : List Char := signText d.neg ++ (d.mantissaText ++ d.exponentText)

lemma text_of_exp_zero {d : Dec} (h : d.exp = 0) :
    d.text = signText d.neg ++ Nat.toDigits 10 d.coeff := by
  have hpos := numDigits_pos d.coeff
  have hleft : d.leftDigits = numDigits d.coeff := by rw [leftDigits, h, zero_add]
  have hdot : d.dotPlace = numDigits d.coeff := by
    rw [dotPlace, hleft, if_pos (by omega)]
  rw [text, mantissaText, exponentText, hdot, hleft, if_neg (by omega), if_pos le_rfl, if_pos rfl,
    sub_self, Int.toNat_zero, List.replicate_zero, List.append_nil, List.append_nil]

/-- Digits after the point show as a point or as an exponent. -/
lemma mem_text_of_exp_neg {d : Dec} (h : d.exp < 0) : '.' ∈ d.text ∨ 'E' ∈ d.text := by
  have hleft : d.leftDigits < numDigits d.coeff := by
    rw [leftDigits]
    omega
  by_cases hplain : d.exp ≤ 0 ∧ -6 < d.leftDigits
  · have hdot : d.dotPlace = d.leftDigits := if_pos hplain
    left
    refine List.mem_append_right _ (List.mem_append_left _ ?_)
    rw [mantissaText, hdot]
    split_ifs
    · simp
    · omega
    · simp
  · have hdot : d.dotPlace = 1 := if_neg hplain
    have hne : d.leftDigits ≠ d.dotPlace := by omega
    right
    refine List.mem_append_right _ (List.mem_append_right _ ?_)
    rw [exponentText, if_neg hne]
    exact List.mem_cons_self

end Dec

/-- `str(a)` of a decimal. -/
def Decimal.text : Decimal → List Char
  | .fin d => d.text
  | .inf neg => Dec.signText neg ++ "Infinity".toList
  | .nan neg signaling payload =>
      Dec.signText neg ++ (if signaling then "sNaN" else "NaN").toList
        ++ if payload = 0 then [] else Nat.toDigits 10 payload

/-- `str(a)`. -/
def Number.str : Number → String
  | .int n => String.ofList (intText n)
  | .decimal d => String.ofList d.text

/-- An integer is written like the decimal of the same value. -/
lemma Number.str_of_dec {a : Number} {d : Dec} (h : a.dec = some d) :
    a.str = String.ofList d.text := by
  cases a with
  | int n =>
      obtain rfl := Option.some.inj h
      rw [Number.str, Dec.text_of_exp_zero rfl]
      simp [intText, Dec.ofInt, Dec.signText]
  | decimal x =>
      have hx : x = .fin d := Number.toDecimal_of_dec h
      rw [Number.str, hx]
      rfl

/-! ### Texts to numbers -/

/-- The code points of the digit zero in the scripts that have decimal digits. -/
def zeroDigits : List ℕ :=
  [48, 1632, 1776, 1984, 2406, 2534, 2662, 2790, 2918, 3046, 3174, 3302, 3430, 3558, 3664, 3792,
    3872, 4160, 4240, 6112, 6160, 6470, 6608, 6784, 6800, 6992, 7088, 7232, 7248, 42528, 43216,
    43264, 43472, 43504, 43600, 44016, 65296, 66720, 68912, 69734, 69872, 69942, 70096, 70384,
    70736, 70864, 71248, 71360, 71472, 71904, 72016, 72784, 73040, 73120, 92768, 92864, 93008,
    120782, 120792, 120802, 120812, 120822, 123200, 123632, 125264, 130032]

/-- The code points that `str.isspace` accepts. -/
def isSpace (c : Char) : Bool :=
  let n := c.toNat
  (9 ≤ n && n ≤ 13) || (28 ≤ n && n ≤ 32) || n == 133 || n == 160 || n == 5760
    || (8192 ≤ n && n ≤ 8202) || n == 8232 || n == 8233 || n == 8239 || n == 8287 || n == 12288

/-- A character of a number in ASCII: digits of other scripts become those of
ASCII. -/
def toAscii (c : Char) : Option Char :=
  if c.toNat < 128 then some c
  else (zeroDigits.find? fun z => z ≤ c.toNat ∧ c.toNat < z + 10).map fun z =>
    (c.toNat - z).digitChar

/-- The text without blanks around it and without underscores, in ASCII. -/
def numericAsAscii (cs : List Char) : Option (List Char) :=
  let stripped := ((cs.dropWhile isSpace).reverse.dropWhile isSpace).reverse
  (stripped.filter (· ≠ '_')).mapM toAscii

/-- Take a sign. -/
def takeSign : List Char → Bool × List Char
  | '-' :: cs => (true, cs)
  | '+' :: cs => (false, cs)
  | cs => (false, cs)

/-- The exponent after the digits, if there is one. -/
def readExponent : List Char → Option ℤ
  | [] => some 0
  | c :: cs =>
      let (neg, digits) := takeSign cs
      if c.toLower = 'e' ∧ digits ≠ [] ∧ digits.all Char.isDigit then
        some (Dec.sign neg * Nat.ofDigitChars 10 digits 0)
      else none

/-- The largest exponent of a number in scientific form that can be represented. -/
def maxEmax : ℤ := 999999999999999999

/-- The least exponent that can be represented. -/
def minEtiny : ℤ := -1999999999999999997

/-- The digits with a point and an exponent. -/
def readFinite (neg : Bool) (cs : List Char) : Option Decimal := do
  let whole := cs.takeWhile Char.isDigit
  let (fraction, rest) := match cs.dropWhile Char.isDigit with
    | '.' :: rest => (rest.takeWhile Char.isDigit, rest.dropWhile Char.isDigit)
    | rest => ([], rest)
  let exponent ← readExponent rest
  let coeff := Nat.ofDigitChars 10 (whole ++ fraction) 0
  let exp := exponent - fraction.length
  if whole ++ fraction ≠ [] ∧ exp + Dec.numDigits coeff - 1 ≤ maxEmax ∧ minEtiny ≤ exp then
    some (.fin ⟨neg, coeff, exp⟩)
  else none

/-- The payload after the name of a NaN. -/
def readNan (neg signaling : Bool) (payload : List Char) : Option Decimal :=
  if payload.all Char.isDigit then some (.nan neg signaling (Nat.ofDigitChars 10 payload 0))
  else none

/-- A number without its sign. Infinities and NaNs are spelled in any case. -/
def readUnsigned (neg : Bool) (cs : List Char) : Option Decimal :=
  match cs.map Char.toLower with
  | ['i', 'n', 'f'] => some (.inf neg)
  | ['i', 'n', 'f', 'i', 'n', 'i', 't', 'y'] => some (.inf neg)
  | 'n' :: 'a' :: 'n' :: payload => readNan neg false payload
  | 's' :: 'n' :: 'a' :: 'n' :: payload => readNan neg true payload
  | _ => readFinite neg cs

/-- `Decimal(text)`; `none` stands for `InvalidOperation`. -/
def Decimal.ofString (cs : List Char) : Option Decimal := do
  let ascii ← numericAsAscii cs
  let (neg, digits) := takeSign ascii
  readUnsigned neg digits

/-! ### The digits of a text -/

/-- The digit that a character is, in ASCII, if `str.isdigit` accepts it. -/
def asciiDigit (c : Char) : Option Char := (toAscii c).filter Char.isDigit

/-- The blanks that are not in ASCII. -/
def wideSpaces : List ℕ :=
  [133, 160, 5760, 8192, 8193, 8194, 8195, 8196, 8197, 8198, 8199, 8200, 8201, 8202, 8232, 8233,
    8239, 8287, 12288]

lemma isDigit_iff (c : Char) : c.isDigit = true ↔ 48 ≤ c.toNat ∧ c.toNat ≤ 57 := by
  have hzero : ('0' : Char).val.toNat = 48 := rfl
  have hnine : ('9' : Char).val.toNat = 57 := rfl
  simp only [Char.isDigit, Bool.and_eq_true, decide_eq_true_eq, ge_iff_le, UInt32.le_iff_toNat_le,
    hzero, hnine]
  rfl

lemma asciiDigit_of_isSpace {c : Char} (h : isSpace c = true) : asciiDigit c = none := by
  simp only [isSpace, Bool.or_eq_true, Bool.and_eq_true, decide_eq_true_eq, beq_iff_eq] at h
  rw [asciiDigit, toAscii]
  split_ifs with hascii
  · have hdigit : c.isDigit = false := by
      rw [Bool.eq_false_iff, ne_eq, isDigit_iff]
      omega
    simp [Option.filter, hdigit]
  · have hwide : c.toNat ∈ wideSpaces := by
      simp only [wideSpaces, List.mem_cons, List.not_mem_nil]
      omega
    have hnone : ∀ n ∈ wideSpaces, (zeroDigits.find? fun z => z ≤ n ∧ n < z + 10) = none := by
      decide
    rw [hnone _ hwide]
    rfl

lemma filterMap_dropWhile {α β : Type*} {p : α → Bool} {f : α → Option β}
    (h : ∀ a, p a = true → f a = none) (l : List α) :
    (l.dropWhile p).filterMap f = l.filterMap f := by
  induction l with
  | nil => rfl
  | cons a l ih =>
      rw [List.dropWhile_cons]
      split_ifs with ha
      · rw [ih, List.filterMap_cons_none (h a ha)]
      · rfl

/-- The conversion to ASCII keeps the digits. -/
lemma filter_isDigit_of_mapM {cs ascii : List Char} (h : cs.mapM toAscii = some ascii) :
    ascii.filter Char.isDigit = cs.filterMap asciiDigit := by
  induction cs generalizing ascii with
  | nil =>
      obtain rfl := Option.some.inj h
      rfl
  | cons c cs ih =>
      rw [List.mapM_cons] at h
      obtain ⟨d, hd, h⟩ := Option.bind_eq_some_iff.mp h
      obtain ⟨ds, hds, h⟩ := Option.bind_eq_some_iff.mp h
      obtain rfl := Option.some.inj h
      have hdigit : asciiDigit c = if d.isDigit then some d else none := by
        rw [asciiDigit, hd]
        rfl
      rw [List.filterMap_cons, hdigit, List.filter_cons, ih hds]
      split_ifs <;> rfl

/-- So do the blanks and the underscores that are left out. -/
lemma filter_isDigit_numericAsAscii {cs ascii : List Char} (h : numericAsAscii cs = some ascii) :
    ascii.filter Char.isDigit = cs.filterMap asciiDigit := by
  have hspace : ∀ c, isSpace c = true → asciiDigit c = none := fun c hc => asciiDigit_of_isSpace hc
  have hkeep : (fun c => if decide (c ≠ '_') = true then asciiDigit c else none) = asciiDigit := by
    funext c
    by_cases hc : c = '_'
    · rw [hc]
      rfl
    · rw [if_pos (decide_eq_true hc)]
  rw [filter_isDigit_of_mapM h, List.filterMap_filter, hkeep, List.filterMap_reverse,
    filterMap_dropWhile hspace, ← List.filterMap_reverse, List.reverse_reverse,
    filterMap_dropWhile hspace]

lemma takeSign_sublist (cs : List Char) : (takeSign cs).2.Sublist cs := by
  unfold takeSign
  split
  · exact List.sublist_cons_self _ _
  · exact List.sublist_cons_self _ _
  · exact List.Sublist.refl _

lemma filter_isDigit_takeSign (cs : List Char) :
    (takeSign cs).2.filter Char.isDigit = cs.filter Char.isDigit := by
  unfold takeSign
  split <;> rfl

lemma toLower_of_isDigit {c : Char} (h : c.isDigit = true) : c.toLower = c := by
  have hlt := (isDigit_iff c).mp h
  have hA : ('A' : Char).val.toNat = 65 := rfl
  have hupper : ¬ c.val ≥ 'A'.val := by
    rw [ge_iff_le, UInt32.le_iff_toNat_le, hA]
    exact not_le.mpr (lt_of_le_of_lt hlt.2 (by norm_num))
  exact dif_neg fun hand => hupper hand.1

/-- An exponent is at most the number of its digits; without digits it is zero. -/
lemma readExponent_spec {cs : List Char} {exponent : ℤ} (h : readExponent cs = some exponent) :
    exponent ≤ Nat.ofDigitChars 10 (cs.filter Char.isDigit) 0
      ∧ (cs.filter Char.isDigit ≠ [] → ∃ c ∈ cs, c.toLower = 'e') := by
  cases cs with
  | nil =>
      obtain rfl := Option.some.inj h
      exact ⟨le_rfl, fun hne => absurd rfl hne⟩
  | cons c cs =>
      simp only [readExponent] at h
      split_ifs at h with hexp
      obtain ⟨he, -, hall⟩ := hexp
      obtain rfl := Option.some.inj h
      have hc : c.isDigit = false := by
        rw [Bool.eq_false_iff]
        intro hdigit
        rw [toLower_of_isDigit hdigit] at he
        rw [he] at hdigit
        exact absurd hdigit (by decide)
      have hdigits : (c :: cs).filter Char.isDigit = (takeSign cs).2 := by
        rw [List.filter_cons_of_neg (by simp [hc]), ← filter_isDigit_takeSign]
        exact List.filter_eq_self.mpr (List.all_eq_true.mp hall)
      rw [hdigits]
      refine ⟨?_, fun _ => ⟨c, List.mem_cons_self, he⟩⟩
      unfold Dec.sign
      split_ifs <;> omega

lemma exists_of_mem_mapM {cs ascii : List Char} (h : cs.mapM toAscii = some ascii) {d : Char}
    (hd : d ∈ ascii) : ∃ c ∈ cs, toAscii c = some d := by
  induction cs generalizing ascii with
  | nil =>
      obtain rfl := Option.some.inj h
      cases hd
  | cons c cs ih =>
      rw [List.mapM_cons] at h
      obtain ⟨d', hd', h⟩ := Option.bind_eq_some_iff.mp h
      obtain ⟨ds, hds, h⟩ := Option.bind_eq_some_iff.mp h
      obtain rfl := Option.some.inj h
      rcases List.mem_cons.mp hd with rfl | hd
      · exact ⟨c, List.mem_cons_self, hd'⟩
      · obtain ⟨c', hc', hcd⟩ := ih hds hd
        exact ⟨c', List.mem_cons_of_mem _ hc', hcd⟩

/-- The characters of a number in ASCII that are no digits are those of the text. -/
lemma mem_of_mem_numericAsAscii {cs ascii : List Char} (h : numericAsAscii cs = some ascii)
    {d : Char} (hd : d ∈ ascii) (hdigit : d.isDigit = false) : d ∈ cs := by
  obtain ⟨c, hc, hcd⟩ := exists_of_mem_mapM h hd
  have hcs : c ∈ cs := by
    have hright := (List.mem_filter.mp hc).1
    rw [List.mem_reverse] at hright
    have hleft := (List.dropWhile_sublist isSpace).subset hright
    rw [List.mem_reverse] at hleft
    exact (List.dropWhile_sublist isSpace).subset hleft
  rw [toAscii] at hcd
  split_ifs at hcd
  · rwa [← Option.some.inj hcd]
  · obtain ⟨z, hz, rfl⟩ := Option.map_eq_some_iff.mp hcd
    have hlt := List.find?_some hz
    rw [decide_eq_true_eq] at hlt
    rw [Nat.isDigit_digitChar, decide_eq_false_iff_not] at hdigit
    omega

/-- The digits of a number: those of its coefficient, in front of the point and behind it, and
those of its exponent. -/
structure NumberDigits (cs : List Char) (d : Dec) (coeffDigits expDigits : List Char) : Prop where
  digits : cs.filter Char.isDigit = coeffDigits ++ expDigits
  nonempty : coeffDigits ≠ []
  coeff : d.coeff = Nat.ofDigitChars 10 coeffDigits 0
  exp_le : d.exp ≤ Nat.ofDigitChars 10 expDigits 0
  letter : expDigits ≠ [] → ∃ c ∈ cs, c.toLower = 'e'

lemma filter_takeWhile_isDigit (l : List Char) :
    (l.takeWhile Char.isDigit).filter Char.isDigit = l.takeWhile Char.isDigit :=
  List.filter_eq_self.mpr fun _ hc => List.mem_takeWhile_imp hc

/-- The digits of the parts of a number, whatever stands between those of the coefficient. -/
lemma numberDigits_of_parts {cs point fraction rest : List Char} {d : Dec} {exponent : ℤ}
    (hdrop : cs.dropWhile Char.isDigit = point ++ (fraction ++ rest))
    (hpoint : point.filter Char.isDigit = []) (hfraction : fraction.filter Char.isDigit = fraction)
    (hexponent : readExponent rest = some exponent)
    (hne : cs.takeWhile Char.isDigit ++ fraction ≠ [])
    (hcoeff : d.coeff = Nat.ofDigitChars 10 (cs.takeWhile Char.isDigit ++ fraction) 0)
    (hexp : d.exp = exponent - fraction.length) :
    NumberDigits cs d (cs.takeWhile Char.isDigit ++ fraction) (rest.filter Char.isDigit) := by
  obtain ⟨hle, he⟩ := readExponent_spec hexponent
  refine ⟨?_, hne, hcoeff, ?_, fun hdigits => ?_⟩
  · nth_rewrite 1 [← List.takeWhile_append_dropWhile (p := Char.isDigit) (l := cs)]
    rw [List.filter_append, filter_takeWhile_isDigit, hdrop, List.filter_append, List.filter_append,
      hpoint, hfraction, List.nil_append, List.append_assoc]
  · omega
  · obtain ⟨c, hc, hce⟩ := he hdigits
    refine ⟨c, (List.dropWhile_sublist Char.isDigit).subset ?_, hce⟩
    rw [hdrop]
    exact List.mem_append_right _ (List.mem_append_right _ hc)

lemma readFinite_spec {neg : Bool} {cs : List Char} {d : Dec}
    (h : readFinite neg cs = some (.fin d)) :
    ∃ coeffDigits expDigits, NumberDigits cs d coeffDigits expDigits := by
  simp only [readFinite] at h
  split at h
  · rename_i rest hrest
    obtain ⟨exponent, hexponent, h⟩ := Option.bind_eq_some_iff.mp h
    split_ifs at h with hok
    obtain rfl := Decimal.fin.inj (Option.some.inj h)
    have hdrop : cs.dropWhile Char.isDigit
        = ['.'] ++ (rest.takeWhile Char.isDigit ++ rest.dropWhile Char.isDigit) := by
      rw [List.takeWhile_append_dropWhile, hrest]
      rfl
    exact ⟨_, _, numberDigits_of_parts hdrop rfl (filter_takeWhile_isDigit _) hexponent hok.1 rfl
      rfl⟩
  · obtain ⟨exponent, hexponent, h⟩ := Option.bind_eq_some_iff.mp h
    split_ifs at h with hok
    obtain rfl := Decimal.fin.inj (Option.some.inj h)
    have hdrop : cs.dropWhile Char.isDigit = [] ++ ([] ++ cs.dropWhile Char.isDigit) := rfl
    exact ⟨_, _, numberDigits_of_parts hdrop rfl rfl hexponent hok.1 rfl rfl⟩

/-- The digits of the text of a finite number. -/
lemma Decimal.ofString_spec {cs : List Char} {d : Dec} (h : Decimal.ofString cs = some (.fin d)) :
    ∃ coeffDigits expDigits, cs.filterMap asciiDigit = coeffDigits ++ expDigits
      ∧ coeffDigits ≠ [] ∧ d.coeff = Nat.ofDigitChars 10 coeffDigits 0
      ∧ d.exp ≤ Nat.ofDigitChars 10 expDigits 0
      ∧ (expDigits ≠ [] → ∃ c ∈ cs, c.toLower = 'e') := by
  obtain ⟨ascii, hascii, h⟩ := Option.bind_eq_some_iff.mp h
  have hfinite : readFinite (takeSign ascii).1 (takeSign ascii).2 = some (.fin d) := by
    have hnan : ∀ neg signaling payload, readNan neg signaling payload ≠ some (.fin d) := by
      intro neg signaling payload hread
      rw [readNan] at hread
      split_ifs at hread
      cases hread
    have hread : readUnsigned (takeSign ascii).1 (takeSign ascii).2 = some (.fin d) := h
    unfold readUnsigned at hread
    split at hread
    · cases hread
    · cases hread
    · exact absurd hread (hnan _ _ _)
    · exact absurd hread (hnan _ _ _)
    · exact hread
  obtain ⟨coeffDigits, expDigits, hnumber⟩ := readFinite_spec hfinite
  refine ⟨coeffDigits, expDigits, ?_, hnumber.nonempty, hnumber.coeff, hnumber.exp_le,
    fun hexpDigits => ?_⟩
  · rw [← hnumber.digits, filter_isDigit_takeSign, filter_isDigit_numericAsAscii hascii]
  · obtain ⟨c, hc, hce⟩ := hnumber.letter hexpDigits
    have hmem : c ∈ ascii := (takeSign_sublist ascii).subset hc
    refine ⟨c, mem_of_mem_numericAsAscii hascii hmem ?_, hce⟩
    rw [Bool.eq_false_iff]
    intro hdigit
    rw [toLower_of_isDigit hdigit] at hce
    rw [hce] at hdigit
    exact absurd hdigit (by decide)

end KubeSafeScheduler.Py
