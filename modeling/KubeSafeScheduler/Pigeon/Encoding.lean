import Mathlib.Data.List.TakeWhile
import KubeSafeScheduler.Pigeon.Parser
import KubeSafeScheduler.Pigeon.Reader
import KubeSafeScheduler.Lib.CountedLoop

/-!
`replay/parser.c`: the functions that encode arrays as texts, and those that decode
them.

* `sprintfInt`, `scanInt`, `scanString`: the formats `%d` and `%s`;
  `scanInt_sprintfInt`: a number of 32 bits is read as it was written.
* `encodeArray`, `parserEncodeIntmatrix`: the rows in brackets, with commas inside a
  row and nothing between two rows.
* `strtok`: the tokens between brackets, commas and blanks; `strtok_encodeRow`: those of
  a row are its entries.
* `decodeArray`: the cells by tokens, row by row and again from the first one on; a write
  to a cell that is not there is a result of `none`.
* `decodeLoop_eq`: the tokens of a matrix, in the order of its rows, fill it.
* `decode_encode`: what was encoded comes back, through `nextkeyvaluepair`.
-/

namespace KubeSafeScheduler.Pigeon.Parser

open Matrix

/-! ### Formats -/

/-- `sprintf` with the format `%d`. -/
def sprintfInt (n : ℤ) : List Char :=
  if n < 0 then '-' :: Nat.toDigits 10 n.natAbs else Nat.toDigits 10 n.natAbs

/-- The sign in front of a number. -/
def scanSign : List Char → Bool × List Char
  | '-' :: cs => (true, cs)
  | '+' :: cs => (false, cs)
  | cs => (false, cs)

/-- `sscanf` with the format `%d`; without digits nothing is read. -/
def scanInt (s : List Char) : Option ℤ :=
  let (neg, cs) := scanSign (s.dropWhile isspace)
  let digits := cs.takeWhile Char.isDigit
  if digits = [] then none
  else
    let n : ℤ := Nat.ofDigitChars 10 digits 0
    some (toInt32 (if neg then max (-n) (-2 ^ 63) else min n (2 ^ 63 - 1)))

/-- `sscanf` with the format `%s`; nothing is read from a text of white space. -/
def scanString (s : List Char) : Option (List Char) :=
  let cs := s.dropWhile isspace
  if cs = [] then none else some (cs.takeWhile (!isspace ·))

lemma parserDecodeInt_eq (s : String) : parserDecodeInt s = (scanInt s.toList).getD 0 := by
  simp only [scanInt]
  by_cases hdigits : (scanSign (s.toList.dropWhile isspace)).2.takeWhile Char.isDigit = []
  · rw [if_pos hdigits]
    exact if_pos hdigits
  · rw [if_neg hdigits]
    exact if_neg hdigits

lemma isspace_of_isDigit {c : Char} (h : c.isDigit) : isspace c = false := by
  have hne : ∀ d : Char, d.isDigit = false → c ≠ d := by
    rintro d hd rfl
    rw [h] at hd
    cases hd
  simp [isspace, hne ' ' (by decide), hne '\t' (by decide), hne '\n' (by decide),
    hne '\x0b' (by decide), hne '\x0c' (by decide), hne '\r' (by decide)]

lemma scanSign_of_isDigit {c : Char} {cs : List Char} (h : c.isDigit) :
    scanSign (c :: cs) = (false, c :: cs) := by
  unfold scanSign
  split
  · rename_i heq
    obtain ⟨rfl, -⟩ := List.cons.inj heq
    exact absurd h (by decide)
  · rename_i heq
    obtain ⟨rfl, -⟩ := List.cons.inj heq
    exact absurd h (by decide)
  · rfl

lemma isDigit_of_mem_sprintfInt {n : ℤ} {c : Char} (h : c ∈ sprintfInt n) :
    c = '-' ∨ c.isDigit := by
  have hdigit : ∀ {c}, c ∈ Nat.toDigits 10 n.natAbs → c.isDigit :=
    fun hc => Nat.isDigit_of_mem_toDigits (by decide) (by decide) hc
  rw [sprintfInt] at h
  split_ifs at h
  · exact (List.mem_cons.mp h).imp_right hdigit
  · exact Or.inr (hdigit h)

lemma sprintfInt_ne_nil (n : ℤ) : sprintfInt n ≠ [] := by
  rw [sprintfInt]
  split_ifs
  · exact List.cons_ne_nil _ _
  · exact Nat.toDigits_ne_nil

/-- Only digits are read up to the end. -/
lemma scanDigits (n : ℕ) : (Nat.toDigits 10 n).takeWhile Char.isDigit = Nat.toDigits 10 n :=
  List.takeWhile_eq_self_iff.mpr fun _ hc => Nat.isDigit_of_mem_toDigits (by decide) (by decide) hc

/-- A number of 32 bits is read as it was written. -/
lemma scanInt_sprintfInt {n : ℤ} (h : -2 ^ 31 ≤ n) (h' : n < 2 ^ 31) :
    scanInt (sprintfInt n) = some n := by
  have habs : (Nat.ofDigitChars 10 (Nat.toDigits 10 n.natAbs) 0 : ℤ) = |n| := by
    rw [Nat.ofDigitChars_ten_toDigits, Int.natCast_natAbs]
  by_cases hneg : n < 0
  · have hclamp : max (-|n|) (-2 ^ 63) = n := by
      rw [abs_of_neg hneg, neg_neg]
      exact max_eq_left (by omega)
    have hspace : isspace '-' = false := by decide
    rw [sprintfInt, if_pos hneg, scanInt, List.dropWhile_cons_of_neg (by simp [hspace])]
    simp only [scanSign, scanDigits, if_neg (Nat.toDigits_ne_nil), habs, if_true, hclamp,
      toInt32_of_range h h']
  · have hclamp : min |n| (2 ^ 63 - 1) = n := by
      rw [abs_of_nonneg (not_lt.mp hneg)]
      exact min_eq_left (by omega)
    obtain ⟨c, cs, hcons⟩ :=
      List.exists_cons_of_ne_nil (Nat.toDigits_ne_nil (n := n.natAbs) (b := 10))
    have hc : c.isDigit :=
      Nat.isDigit_of_mem_toDigits (by decide) (by decide) (hcons ▸ List.mem_cons_self)
    rw [sprintfInt, if_neg hneg, scanInt, hcons,
      List.dropWhile_cons_of_neg (by simp [isspace_of_isDigit hc]), scanSign_of_isDigit hc, ← hcons]
    simp only [scanDigits, if_neg (Nat.toDigits_ne_nil), habs, Bool.false_eq_true, if_false, hclamp,
      toInt32_of_range h h']

/-- A number of 32 bits fits the buffer of 16 characters. -/
lemma length_sprintfInt_lt {n : ℤ} (h : -2 ^ 31 ≤ n) (h' : n < 2 ^ 31) :
    (sprintfInt n).length < 16 := by
  have hdigits : (Nat.toDigits 10 n.natAbs).length ≤ 10 :=
    (Nat.length_toDigits_le_iff (by decide) (by decide)).mpr (by omega)
  rw [sprintfInt]
  split_ifs
  · rw [List.length_cons]
    omega
  · omega

/-! ### Encoding -/

/-- Texts with commas between them. -/
def encodeRow {num : ℕ} (text : Fin num → List Char) : List Char :=
  (List.finRange num).flatMap fun i => text i ++ if (i : ℕ) + 1 < num then [','] else []

/-- `key=[val_1,...,val_num];` -/
def encodeArray (key : List Char) {num : ℕ} (text : Fin num → List Char) : List Char :=
  key ++ '=' :: '[' :: (encodeRow text ++ [']', ';'])

/-- `parser_encode_intarray`. -/
def parserEncodeIntarray (key : List Char) {num : ℕ} (val : Fin num → ℤ) : List Char :=
  encodeArray key fun i => sprintfInt (val i)

/-- `parser_encode_boolarray`. -/
def parserEncodeBoolarray (key : List Char) {num : ℕ} (val : Fin num → Bool) : List Char :=
  encodeArray key fun i => sprintfInt (val i).toNat

/-- `parser_encode_stringarray`. -/
def parserEncodeStringarray (key : List Char) {num : ℕ} (val : Fin num → List Char) : List Char :=
  encodeArray key val

/-- `parser_encode_intmatrix`. -/
def parserEncodeIntmatrix (key : List Char) {nrows ncols : ℕ}
    (val : Matrix (Fin nrows) (Fin ncols) ℤ) : List Char :=
  key ++ '=' :: '[' :: ((List.finRange nrows).flatMap (fun i =>
    '[' :: (encodeRow (fun j => sprintfInt (val i j)) ++ [']'])) ++ [']', ';'])

/-! ### Tokens -/

/-- The characters of `BRACKETS`. -/
def isBracket (c : Char) : Bool :=
  c = ' ' ∨ c = '[' ∨ c = ']' ∨ c = '{' ∨ c = '}' ∨ c = ','

/-- The tokens that the calls of `strtok` give, `tok` being what the current one has
read. -/
def strtok (tok : List Char) : List Char → List (List Char)
  | [] => if tok = [] then [] else [tok]
  | c :: cs =>
      if isBracket c then if tok = [] then strtok [] cs else tok :: strtok [] cs
      else strtok (tok ++ [c]) cs

/-- A text that is one token. -/
def IsToken (s : List Char) : Prop := s ≠ [] ∧ ∀ c ∈ s, isBracket c = false

lemma strtok_bracket {c : Char} (h : isBracket c = true) (cs : List Char) :
    strtok [] (c :: cs) = strtok [] cs := by
  rw [strtok, if_pos h, if_pos rfl]

lemma strtok_append {s : List Char} (h : ∀ c ∈ s, isBracket c = false) (tok cs : List Char) :
    strtok tok (s ++ cs) = strtok (tok ++ s) cs := by
  induction s generalizing tok with
  | nil => rw [List.nil_append, List.append_nil]
  | cons c s ih =>
      obtain ⟨hc, hs⟩ := List.forall_mem_cons.mp h
      rw [List.cons_append, strtok, if_neg (by simp [hc]), ih hs, List.append_assoc,
        List.singleton_append]

/-- A token ends at a bracket. -/
lemma strtok_token {s : List Char} (h : IsToken s) {c : Char} (hc : isBracket c = true)
    (cs : List Char) : strtok [] (s ++ c :: cs) = s :: strtok [] cs := by
  rw [strtok_append h.2, List.nil_append, strtok, if_pos hc, if_neg h.1]

/-- The tokens of a row are its entries. -/
lemma strtok_encodeRow {num : ℕ} {text : Fin num → List Char} (h : ∀ i, IsToken (text i))
    (cs : List Char) :
    strtok [] (encodeRow text ++ ']' :: cs) = (List.finRange num).map text ++ strtok [] cs := by
  induction num with
  | zero => exact strtok_bracket (by decide) cs
  | succ num ih =>
      have hrow : encodeRow text = (text 0 ++ if 0 < num then [','] else [])
          ++ encodeRow fun i => text i.succ := by
        simp only [encodeRow, List.finRange_succ, List.flatMap_cons, List.flatMap_map,
          Fin.val_zero, Fin.val_succ, Nat.add_lt_add_iff_right]
        congr
      have hrest := ih fun i => h i.succ
      have hclose : isBracket ']' = true := by decide
      have hcomma : isBracket ',' = true := by decide
      rw [hrow, List.finRange_succ, List.map_cons, List.map_map, List.cons_append]
      obtain rfl | hnum := Nat.eq_zero_or_pos num
      · rw [if_neg (lt_irrefl 0), List.append_nil, List.append_assoc]
        exact strtok_token (h 0) hclose cs
      · rw [if_pos hnum, List.append_assoc, List.append_assoc, List.singleton_append,
          strtok_token (h 0) hcomma, hrest]
        rfl

/-- The tokens of the rows of a matrix, one row after the other. -/
lemma strtok_encodeRows {ι : Type} {num : ℕ} {text : ι → Fin num → List Char}
    (h : ∀ i j, IsToken (text i j)) (l : List ι) (cs : List Char) :
    strtok [] (l.flatMap (fun i => '[' :: (encodeRow (text i) ++ [']'])) ++ cs)
      = l.flatMap (fun i => (List.finRange num).map (text i)) ++ strtok [] cs := by
  have hopen : isBracket '[' = true := by decide
  induction l with
  | nil => rfl
  | cons i l ih =>
      rw [List.flatMap_cons, List.flatMap_cons, List.append_assoc, List.cons_append,
        strtok_bracket hopen, List.append_assoc, List.singleton_append, strtok_encodeRow (h i), ih,
        List.append_assoc]

/-! ### Decoding -/

section Decoding

variable {α : Type} {nrows ncols : ℕ}

/-- The variables `i`, `j` and `value` of the functions that decode arrays. -/
structure DecodeState (α : Type) (nrows ncols : ℕ) where
  i : ℕ
  j : ℕ
  value : Matrix (Fin nrows) (Fin ncols) α

/-- One round of the loop: what `read` makes of a token and the old value goes to the
cell of the counters. -/
def DecodeState.write (read : List Char → α → Option α) (s : DecodeState α nrows ncols)
    (tok : List Char) : Option (DecodeState α nrows ncols) :=
  if h : s.i < nrows ∧ s.j < ncols then
    (read tok (s.value ⟨s.i, h.1⟩ ⟨s.j, h.2⟩)).map fun v =>
      let value :=
        s.value.updateRow ⟨s.i, h.1⟩ (Function.update (s.value ⟨s.i, h.1⟩) ⟨s.j, h.2⟩ v)
      if s.j + 1 = ncols then ⟨if s.i + 1 = nrows then 0 else s.i + 1, 0, value⟩
      else ⟨s.i, s.j + 1, value⟩
  else none

/-- The functions that decode arrays, with the value that a new cell has; nothing is read
from `NULL`. -/
def decodeArray (initial : α) (read : List Char → α → Option α) (s : Option (List Char))
    (nrows ncols : ℕ) : Option (Matrix (Fin nrows) (Fin ncols) α) :=
  s.elim (some (of fun _ _ => initial)) fun s =>
    ((strtok [] s).foldlM (DecodeState.write read) ⟨0, 0, of fun _ _ => initial⟩).map
      DecodeState.value

/-- `parser_decode_bool`. -/
def parserDecodeBool (s : List Char) : Bool :=
  s = "true".toList ∨ s = "TRUE".toList ∨ s = "1".toList

/-- `parser_decode_intarray`. -/
def parserDecodeIntarray : Option (List Char) → (nrows ncols : ℕ) →
    Option (Matrix (Fin nrows) (Fin ncols) ℤ) :=
  decodeArray 0 fun tok v => some ((scanInt tok).getD v)

/-- `parser_decode_boolarray`. -/
def parserDecodeBoolarray : Option (List Char) → (nrows ncols : ℕ) →
    Option (Matrix (Fin nrows) (Fin ncols) Bool) :=
  decodeArray false fun tok _ => some (parserDecodeBool tok)

/-- `parser_decode_stringarray`: a cell is `NULL` or a text; a buffer that `sscanf` leaves
as it was allocated is a result of `none`. -/
def parserDecodeStringarray : Option (List Char) → (nrows ncols : ℕ) →
    Option (Matrix (Fin nrows) (Fin ncols) (Option (List Char))) :=
  decodeArray none fun tok _ => (scanString tok).map some

/-- The state after `r` rows and `c` columns of the next one, when the values are those
of `w`. -/
def DecodeState.filled (w init : Matrix (Fin nrows) (Fin ncols) α) (r c : ℕ) :
    DecodeState α nrows ncols :=
  if c = ncols then ⟨(r + 1) % nrows, 0, filledTo w init r c⟩
  else ⟨r % nrows, c, filledTo w init r c⟩

lemma DecodeState.write_filled {read : List Char → α → Option α}
    {w init : Matrix (Fin nrows) (Fin ncols) α} {tok : List Char} {r : Fin nrows} {c : Fin ncols}
    (hread : ∀ v, read tok v = some (w r c)) :
    (filled w init r c).write read tok = some (filled w init r (c + 1)) := by
  have hc : (c : ℕ) ≠ ncols := c.isLt.ne
  have hr : (r : ℕ) % nrows = r := Nat.mod_eq_of_lt r.isLt
  have hlt : (r : ℕ) < nrows ∧ (c : ℕ) < ncols := ⟨r.isLt, c.isLt⟩
  have hwrap : (if (r : ℕ) + 1 = nrows then 0 else (r : ℕ) + 1) = (r + 1) % nrows := by
    split_ifs with hlast
    · rw [hlast, Nat.mod_self]
    · exact (Nat.mod_eq_of_lt (by omega)).symm
  rw [filled, if_neg hc, hr, write, dif_pos hlt, hread, filled]
  simp only [Option.map_some, Fin.eta, updateRow_filledTo, hwrap, hr]

lemma DecodeState.filled_zero (h : ncols ≠ 0) (w init : Matrix (Fin nrows) (Fin ncols) α) :
    filled w init 0 0 = ⟨0, 0, init⟩ := by
  rw [filled, if_neg h.symm, filledTo_zero, Nat.zero_mod]

lemma DecodeState.filled_row_end (h : ncols ≠ 0) (w init : Matrix (Fin nrows) (Fin ncols) α)
    (r : ℕ) : filled w init r ncols = filled w init (r + 1) 0 := by
  rw [filled, if_pos rfl, filled, if_neg h.symm, filledTo_row_end]

lemma DecodeState.value_filled (h : ncols ≠ 0) (w init : Matrix (Fin nrows) (Fin ncols) α) :
    (filled w init nrows 0).value = w := by
  rw [filled, if_neg h.symm, filledTo_end]

/-- The tokens of a matrix, in the order of its rows, fill it. -/
lemma decodeArray_eq {initial : α} {read : List Char → α → Option α}
    {w : Matrix (Fin nrows) (Fin ncols) α} {text : Fin nrows → Fin ncols → List Char}
    (hread : ∀ r c v, read (text r c) v = some (w r c)) {s : List Char}
    (hs : strtok [] s = (List.finRange nrows).flatMap fun r => (List.finRange ncols).map (text r)) :
    decodeArray initial read (some s) nrows ncols = some w := by
  by_cases h : ncols = 0
  · subst h
    have hnone : strtok [] s = [] := by
      rw [hs, List.flatMap_eq_nil_iff]
      intro r _
      rfl
    rw [decodeArray, Option.elim_some, hnone]
    refine congrArg some ?_
    ext i j
    exact j.elim0
  · have hrow : ∀ r : Fin nrows, ((List.finRange ncols).map (text r)).foldlM
        (DecodeState.write read) (DecodeState.filled w (of fun _ _ => initial) r 0)
          = some (DecodeState.filled w (of fun _ _ => initial) (r + 1) 0) := by
      intro r
      rw [List.foldlM_map, ← DecodeState.filled_row_end h]
      exact foldlM_finRange _ fun c => DecodeState.write_filled (hread r c)
    rw [decodeArray, Option.elim_some, hs, foldlM_flatMap,
      ← DecodeState.filled_zero h w (of fun _ _ => initial),
      foldlM_finRange (fun r => DecodeState.filled w (of fun _ _ => initial) r 0) hrow,
      Option.map_some, DecodeState.value_filled h]

end Decoding

/-! ### What was encoded -/

/-- The text is that of a pair with this key, and its value is decoded to `val`. -/
def GivesBack {β : Type} (text key : List Char) (decode : Option (List Char) → Option β)
    (val : β) : Prop :=
  (nextkeyvaluepair text).key = key
    ∧ (nextkeyvaluepair text).issingleton = some true
    ∧ decode (some (nextkeyvaluepair text).value) = some val

/-- The scanner takes the brackets and what is between them as one value. -/
lemma nextkeyvaluepair_brackets {key : List Char} (hne : key ≠ []) (heq : '=' ∉ key)
    (hblank : key.head? ≠ some ' ') {body : List Char} (hbody : ∀ c ∈ body, endsValue c = false) :
    nextkeyvaluepair (key ++ '=' :: '[' :: (body ++ [']', ';']))
      = ⟨key, '[' :: (body ++ [']']), some true, some []⟩ := by
  have hvalue : ∀ c ∈ '[' :: (body ++ [']']), endsValue c = false := by
    intro c hc
    rw [List.mem_cons, List.mem_append, List.mem_singleton] at hc
    rcases hc with rfl | hc | rfl
    · rfl
    · exact hbody c hc
    · rfl
  have hsplit : '[' :: (body ++ [']', ';']) = '[' :: (body ++ [']']) ++ [';'] := by simp
  have hrest : ∀ c ∈ [';'].head?, endsValue c = true := by simp [endsValue]
  rw [nextkeyvaluepair_key hne heq hblank, hsplit,
    readValue_singleton key (by simp) (List.cons_ne_nil _ _) hvalue hrest]
  rfl

/-- An entry of an array: a token in which no value ends. -/
def IsEntry (s : List Char) : Prop := IsToken s ∧ ∀ c ∈ s, endsValue c = false

lemma endsValue_of_mem_encodeRow {num : ℕ} {text : Fin num → List Char}
    (h : ∀ i, IsEntry (text i)) {c : Char} (hc : c ∈ encodeRow text) : endsValue c = false := by
  obtain ⟨i, -, hi⟩ := List.mem_flatMap.mp hc
  rcases List.mem_append.mp hi with hi | hi
  · exact (h i).2 c hi
  · split_ifs at hi
    · rw [List.mem_singleton.mp hi]
      rfl
    · cases hi

/-- An array of entries is decoded to what they are read as. -/
lemma givesBack_encodeArray {α : Type} {initial : α} {read : List Char → α → Option α}
    {key : List Char} (hne : key ≠ []) (heq : '=' ∉ key) (hblank : key.head? ≠ some ' ') {num : ℕ}
    {text : Fin num → List Char} (htext : ∀ i, IsEntry (text i)) {val : Fin num → α}
    (hread : ∀ i v, read (text i) v = some (val i)) :
    GivesBack (encodeArray key text) key (decodeArray initial read · 1 num)
      (of fun _ : Fin 1 => val) := by
  have hbody : ∀ c ∈ encodeRow text, endsValue c = false :=
    fun c hc => endsValue_of_mem_encodeRow htext hc
  have htokens : strtok [] ('[' :: (encodeRow text ++ [']'])) = (List.finRange num).map text := by
    rw [strtok_bracket (by decide), strtok_encodeRow (fun i => (htext i).1)]
    exact List.append_nil _
  rw [GivesBack, encodeArray, nextkeyvaluepair_brackets hne heq hblank hbody]
  refine ⟨rfl, rfl, decodeArray_eq (fun _ => hread) ?_⟩
  rw [htokens]
  exact (List.append_nil _).symm

lemma isEntry_sprintfInt (n : ℤ) : IsEntry (sprintfInt n) := by
  have hdigit : ∀ {c : Char}, c = '-' ∨ c.isDigit → ∀ d : Char, d ≠ '-' → d.isDigit = false →
      c ≠ d := by
    rintro c (rfl | hc) d hd hd' rfl
    · exact hd rfl
    · rw [hc] at hd'
      cases hd'
  refine ⟨⟨sprintfInt_ne_nil n, fun c hc => ?_⟩, fun c hc => ?_⟩
  · have hne := hdigit (isDigit_of_mem_sprintfInt hc)
    simp [isBracket, hne ' ' (by decide) (by decide), hne '[' (by decide) (by decide),
      hne ']' (by decide) (by decide), hne '{' (by decide) (by decide),
      hne '}' (by decide) (by decide), hne ',' (by decide) (by decide)]
  · have hne := hdigit (isDigit_of_mem_sprintfInt hc)
    simp [endsValue, hne ';' (by decide) (by decide), hne '}' (by decide) (by decide),
      hne '\n' (by decide) (by decide)]

/-- The strings that can be entries: without white space and without the characters that
separate them or end the value. -/
def IsPlain (s : List Char) : Prop :=
  s ≠ [] ∧ ∀ c ∈ s, isspace c = false ∧ c ∉ ['[', ']', '{', '}', ',', ';']

lemma IsPlain.isEntry {s : List Char} (h : IsPlain s) : IsEntry s := by
  refine ⟨⟨h.1, fun c hc => ?_⟩, fun c hc => ?_⟩
  · obtain ⟨hspace, hsep⟩ := h.2 c hc
    simp_all [isspace, isBracket]
  · obtain ⟨hspace, hsep⟩ := h.2 c hc
    simp_all [isspace, endsValue]

lemma IsPlain.scanString {s : List Char} (h : IsPlain s) : scanString s = some s := by
  obtain ⟨hne, hs⟩ := h
  obtain ⟨c, cs, rfl⟩ := List.exists_cons_of_ne_nil hne
  have hc : isspace c = false := (hs c List.mem_cons_self).1
  have hall : (c :: cs).takeWhile (!isspace ·) = c :: cs :=
    List.takeWhile_eq_self_iff.mpr fun d hd => by rw [(hs d hd).1]; rfl
  have hdrop : (c :: cs).dropWhile isspace = c :: cs :=
    List.dropWhile_cons_of_neg (by simp [hc])
  simp only [Parser.scanString, hdrop, hall, if_neg hne]

/-- So is a matrix of numbers. -/
lemma givesBack_encodeIntmatrix {key : List Char} (hne : key ≠ []) (heq : '=' ∉ key)
    (hblank : key.head? ≠ some ' ') {nrows ncols : ℕ} {val : Matrix (Fin nrows) (Fin ncols) ℤ}
    (hval : ∀ i j, -2 ^ 31 ≤ val i j ∧ val i j < 2 ^ 31) :
    GivesBack (parserEncodeIntmatrix key val) key (parserDecodeIntarray · nrows ncols) val := by
  have hentry : ∀ i j, IsEntry (sprintfInt (val i j)) := fun i j => isEntry_sprintfInt _
  have hbody : ∀ c ∈ (List.finRange nrows).flatMap (fun i =>
      '[' :: (encodeRow (fun j => sprintfInt (val i j)) ++ [']'])), endsValue c = false := by
    intro c hc
    obtain ⟨i, -, hi⟩ := List.mem_flatMap.mp hc
    rw [List.mem_cons, List.mem_append, List.mem_singleton] at hi
    rcases hi with rfl | hi | rfl
    · rfl
    · exact endsValue_of_mem_encodeRow (hentry i) hi
    · rfl
  have hread : ∀ i j v, some ((scanInt (sprintfInt (val i j))).getD v) = some (val i j) := by
    intro i j v
    rw [scanInt_sprintfInt (hval i j).1 (hval i j).2, Option.getD_some]
  rw [GivesBack, parserEncodeIntmatrix, nextkeyvaluepair_brackets hne heq hblank hbody]
  refine ⟨rfl, rfl, decodeArray_eq hread ?_⟩
  rw [strtok_bracket (by decide), strtok_encodeRows (fun i j => (hentry i j).1)]
  exact List.append_nil _

/-- The arrays that are encoded come back with their keys. -/
theorem decode_encode {key : List Char} (hne : key ≠ []) (heq : '=' ∉ key)
    (hblank : key.head? ≠ some ' ') :
    (∀ {nrows ncols : ℕ} (val : Matrix (Fin nrows) (Fin ncols) ℤ),
        (∀ i j, -2 ^ 31 ≤ val i j ∧ val i j < 2 ^ 31) →
        GivesBack (parserEncodeIntmatrix key val) key (parserDecodeIntarray · nrows ncols) val)
      ∧ (∀ {num : ℕ} (val : Fin num → ℤ), (∀ i, -2 ^ 31 ≤ val i ∧ val i < 2 ^ 31) →
        GivesBack (parserEncodeIntarray key val) key (parserDecodeIntarray · 1 num)
          (of fun _ : Fin 1 => val))
      ∧ (∀ {num : ℕ} (val : Fin num → Bool),
        GivesBack (parserEncodeBoolarray key val) key (parserDecodeBoolarray · 1 num)
          (of fun _ : Fin 1 => val))
      ∧ ∀ {num : ℕ} (val : Fin num → List Char), (∀ i, IsPlain (val i)) →
        GivesBack (parserEncodeStringarray key val) key (parserDecodeStringarray · 1 num)
          (of fun (_ : Fin 1) j => some (val j)) := by
  refine ⟨fun val hval => givesBack_encodeIntmatrix hne heq hblank hval, fun val hval => ?_,
    fun val => ?_, fun val hval => ?_⟩
  · refine givesBack_encodeArray hne heq hblank (fun i => isEntry_sprintfInt (val i)) fun i v => ?_
    rw [scanInt_sprintfInt (hval i).1 (hval i).2, Option.getD_some]
  · refine givesBack_encodeArray hne heq hblank (fun i => isEntry_sprintfInt _) fun i v => ?_
    cases val i <;> rfl
  · refine givesBack_encodeArray hne heq hblank (fun i => (hval i).isEntry) fun i v => ?_
    rw [(hval i).scanString, Option.map_some]

theorem decode_encode_demands :
    GivesBack (parserEncodeIntmatrix "demand".toList !![-2147483648, 7; 0, 2147483647])
        "demand".toList (parserDecodeIntarray · 2 2) !![-2147483648, 7; 0, 2147483647]
      ∧ GivesBack (parserEncodeIntarray "demand".toList ![-5, 100]) "demand".toList
        (parserDecodeIntarray · 1 2) (of fun _ : Fin 1 => ![-5, 100])
      ∧ GivesBack (parserEncodeStringarray "demand".toList !["cpu".toList, "memory".toList])
        "demand".toList (parserDecodeStringarray · 1 2)
        (of fun (_ : Fin 1) j => some (!["cpu".toList, "memory".toList] j)) := by
  obtain ⟨hmatrix, harray, -, hstrings⟩ := decode_encode (by decide : "demand".toList ≠ [])
    (by decide) (by decide)
  refine ⟨hmatrix _ ?_, harray _ ?_, hstrings _ ?_⟩
  · simp [Fin.forall_fin_two]
  · simp [Fin.forall_fin_two]
  · simp [Fin.forall_fin_two, IsPlain, isspace]

end KubeSafeScheduler.Pigeon.Parser
