import KubeSafeScheduler.Lib.DecimalText
import KubeSafeScheduler.Pigeon.Encoding
import KubeSafeScheduler.Utils.Stringbuffer

/-!
`replay/parser.c`: the functions `parser_encode_*` as they use the memory. Each builds
its text in a `stringbuffer`, through local arrays of 16 or 32 characters into which
`sprintf` writes.

* `encode`, `appendValue`, `appendRow`, `appendRows`: what the encoders share; the
  functions of the source are cases of `encodeScalar`, `encodeArray`, `encodeMatrix`.
* `Leaves`: what an encoder leaves in the memory, one more block with the text.
* `Appends`: a step adds a text to the buffer, with the rules for two steps in a row and
  for a loop; `encode_leaves`.
* `encoders_leave`: the texts are those of `Parser`.
* `Fits`: the numbers whose text fits a local array; `float_encoders_leave`.
-/

namespace KubeSafeScheduler.Pigeon.Encoders

open Matrix
open Pigeon.Parser (sprintfInt encodeRow)
open Utils (Stringbuffer)

variable (grant : Grant)

/-! ### The functions -/

/-- `sprintf` into a local array of so many characters. -/
def sprintf (size : ℕ) (text : List Char) : Except Crash (List Char) :=
  if text.length < size then .ok text else .error .invalid

/-- The text of a number with the format `%f`. -/
def sprintfFloat (val : ℚ) : List Char :=
  (if val < 0 then ['-'] else []) ++ (formatFixed 6 (roundHalfEven (|val| * 10 ^ 6)).toNat).toList

/-- What all encoders do: the key, a text before the values, the values, a text behind
them, and the end. -/
def encode (key front back : List Char)
    (body : Stringbuffer × TextHeap → Except Crash (Stringbuffer × TextHeap)) (h : TextHeap) :
    Except Crash (ℕ × TextHeap) := do
  let (sb, h) ← Stringbuffer.create grant h
  let (sb, h) ← sb.append grant key h
  let (sb, h) ← sb.append grant front h
  let (sb, h) ← body (sb, h)
  let (sb, h) ← sb.append grant back h
  sb.finish grant h

/-- A value is appended. -/
def appendValue (valstr : Except Crash (List Char)) (s : Stringbuffer × TextHeap) :
    Except Crash (Stringbuffer × TextHeap) := do
  let valstr ← valstr
  s.1.append grant valstr s.2

/-- The loop over the values of a row, with commas between them. -/
def appendRow {num : ℕ} (valstr : Fin num → Except Crash (List Char))
    (s : Stringbuffer × TextHeap) : Except Crash (Stringbuffer × TextHeap) :=
  (List.finRange num).foldlM (fun s i => do
    let (sb, h) ← appendValue grant (valstr i) s
    if (i : ℕ) + 1 < num then sb.append grant [','] h else .ok (sb, h)) s

/-- The loop over the rows, in brackets. -/
def appendRows {nrows ncols : ℕ} (valstr : Fin nrows → Fin ncols → Except Crash (List Char))
    (s : Stringbuffer × TextHeap) : Except Crash (Stringbuffer × TextHeap) :=
  (List.finRange nrows).foldlM (fun s i => do
    let (sb, h) ← s.1.append grant ['['] s.2
    let (sb, h) ← appendRow grant (valstr i) (sb, h)
    sb.append grant [']'] h) s

/-- `key=val;` -/
def encodeScalar (key : List Char) (valstr : Except Crash (List Char)) :
    TextHeap → Except Crash (ℕ × TextHeap) :=
  encode grant key ['='] [';'] (appendValue grant valstr)

/-- `key=[val_1,...,val_num];` -/
def encodeArray (key : List Char) {num : ℕ} (valstr : Fin num → Except Crash (List Char)) :
    TextHeap → Except Crash (ℕ × TextHeap) :=
  encode grant key ['=', '['] [']', ';'] (appendRow grant valstr)

/-- `key=[[val_11,...,val_1ncols]...[val_nrows1,...,val_nrowsncols]];` -/
def encodeMatrix (key : List Char) {nrows ncols : ℕ}
    (valstr : Fin nrows → Fin ncols → Except Crash (List Char)) :
    TextHeap → Except Crash (ℕ × TextHeap) :=
  encode grant key ['=', '['] [']', ';'] (appendRows grant valstr)

/-- `parser_encode_int`. -/
def parserEncodeInt (key : List Char) (val : ℤ) : TextHeap → Except Crash (ℕ × TextHeap) :=
  encodeScalar grant key (sprintf 16 (sprintfInt val))

/-- `parser_encode_float`, of a finite number. -/
def parserEncodeFloat (key : List Char) (val : ℚ) : TextHeap → Except Crash (ℕ × TextHeap) :=
  encodeScalar grant key (sprintf 16 (sprintfFloat val))

/-- `parser_encode_bool`. -/
def parserEncodeBool (key : List Char) (val : Bool) : TextHeap → Except Crash (ℕ × TextHeap) :=
  encodeScalar grant key (sprintf 16 (sprintfInt val.toNat))

/-- `parser_encode_string`. -/
def parserEncodeString (key val : List Char) : TextHeap → Except Crash (ℕ × TextHeap) :=
  encodeScalar grant key (.ok val)

/-- `parser_encode_intarray`. -/
def parserEncodeIntarray (key : List Char) {num : ℕ} (val : Fin num → ℤ) :
    TextHeap → Except Crash (ℕ × TextHeap) :=
  encodeArray grant key fun i => sprintf 16 (sprintfInt (val i))

/-- `parser_encode_floatarray`, of finite numbers. -/
def parserEncodeFloatarray (key : List Char) {num : ℕ} (val : Fin num → ℚ) :
    TextHeap → Except Crash (ℕ × TextHeap) :=
  encodeArray grant key fun i => sprintf 32 (sprintfFloat (val i))

/-- `parser_encode_boolarray`. -/
def parserEncodeBoolarray (key : List Char) {num : ℕ} (val : Fin num → Bool) :
    TextHeap → Except Crash (ℕ × TextHeap) :=
  encodeArray grant key fun i => sprintf 16 (sprintfInt (val i).toNat)

/-- `parser_encode_stringarray`. -/
def parserEncodeStringarray (key : List Char) {num : ℕ} (val : Fin num → List Char) :
    TextHeap → Except Crash (ℕ × TextHeap) :=
  encodeArray grant key fun i => .ok (val i)

/-- `parser_encode_intmatrix`. -/
def parserEncodeIntmatrix (key : List Char) {nrows ncols : ℕ}
    (val : Matrix (Fin nrows) (Fin ncols) ℤ) : TextHeap → Except Crash (ℕ × TextHeap) :=
  encodeMatrix grant key fun i j => sprintf 32 (sprintfInt (val i j))

/-- `parser_encode_floatmatrix`, of finite numbers. -/
def parserEncodeFloatmatrix (key : List Char) {nrows ncols : ℕ}
    (val : Matrix (Fin nrows) (Fin ncols) ℚ) : TextHeap → Except Crash (ℕ × TextHeap) :=
  encodeMatrix grant key fun i j => sprintf 32 (sprintfFloat (val i j))

/-- `parser_encode_stringmatrix`. -/
def parserEncodeStringmatrix (key : List Char) {nrows ncols : ℕ}
    (val : Matrix (Fin nrows) (Fin ncols) (List Char)) :
    TextHeap → Except Crash (ℕ × TextHeap) :=
  encodeMatrix grant key fun i j => .ok (val i j)

/-! ### What is left in the memory -/

/-- A block that is new in the heap `h₀` holds the text, and is at most twice as long as
it; nothing else has changed. -/
structure Leaves (h₀ : TextHeap) (text : List Char) (r : ℕ × TextHeap) : Prop where
  new : h₀.next ≤ r.1
  spans : ∃ room, r.2.Spans r.1 text room ∧ text.length + 1 + room ≤ max 64 (2 * text.length)
  frame : ∀ q, q ≠ r.1 → r.2.block q = h₀.block q
  short : text.length < 2 ^ 30

/-- A step of an encoder in the heap `h₀` adds the text `added`. -/
def Appends (h₀ : TextHeap) (total : ℕ) (added : List Char)
    (step : Stringbuffer × TextHeap → Except Crash (Stringbuffer × TextHeap)) : Prop :=
  ∀ text s, s.1.Built h₀ text s.2 → (text ++ added).length ≤ total →
    Ends (fun s => s.1.Built h₀ (text ++ added) s.2) (Stringbuffer.TooLong grant total) (step s)

variable {grant} {h₀ : TextHeap} {total : ℕ}

lemma leaves_finish {h : TextHeap} {sb : Stringbuffer} {text : List Char}
    (hb : sb.Built h₀ text h) (hfresh : Stringbuffer.Fresh h₀) :
    Ends (Leaves h₀ text) (Stringbuffer.TooLong grant total) (sb.finish grant h) := by
  refine (Stringbuffer.finish_ends hb.toOwns hfresh).mono ?_ fun _ he => .inl he
  rintro ⟨t, h'⟩ ⟨ht, hblock, hframe⟩
  dsimp only at *
  subst ht
  obtain ⟨room, ⟨hplain, rest, hrest, hlen⟩, hroom⟩ := hb.spans
  have htight := hb.tight
  refine ⟨hb.new_s.1, ⟨room, ⟨hplain, rest, hblock.trans hrest, hlen⟩, ?_⟩, hframe, hb.length_lt⟩
  omega

namespace Appends

variable {added added' : List Char}
  {step step' : Stringbuffer × TextHeap → Except Crash (Stringbuffer × TextHeap)}

/-- Two steps in a row. -/
lemma bind (h : Appends grant h₀ total added step) (h' : Appends grant h₀ total added' step') :
    Appends grant h₀ total (added ++ added') (fun s => step s >>= step') := by
  intro text s hb htotal
  rw [← List.append_assoc] at htotal ⊢
  have hfirst : (text ++ added).length ≤ total := by
    rw [List.length_append] at htotal
    omega
  exact (h text s hb hfirst).bind fun s' hb' => h' _ s' hb' htotal

/-- A loop whose rounds add their texts. -/
lemma foldlM {ι : Type*} {added : ι → List Char}
    {step : Stringbuffer × TextHeap → ι → Except Crash (Stringbuffer × TextHeap)}
    (h : ∀ i, Appends grant h₀ total (added i) (fun s => step s i)) (l : List ι) :
    Appends grant h₀ total (l.flatMap added) (fun s => l.foldlM step s) := by
  induction l with
  | nil =>
      intro text s hb _
      rw [List.flatMap_nil, List.append_nil]
      exact hb
  | cons i l ih =>
      rw [List.flatMap_cons]
      simp only [List.foldlM_cons]
      exact (h i).bind ih

/-- `stringbuffer_append`. -/
lemma append (hfresh : Stringbuffer.Fresh h₀) {string : List Char} (hplain : nul ∉ string) :
    Appends grant h₀ total string (fun s => s.1.append grant string s.2) :=
  fun _ _ hb htotal => Stringbuffer.append_ends hb hfresh hplain htotal

lemma value (hfresh : Stringbuffer.Fresh h₀) {val : List Char}
    {valstr : Except Crash (List Char)} (hvalstr : valstr = .ok val) (hval : nul ∉ val) :
    Appends grant h₀ total val (appendValue grant valstr) :=
  fun _ _ hb htotal => Ends.of_ok hvalstr (Stringbuffer.append_ends hb hfresh hval htotal)

lemma row (hfresh : Stringbuffer.Fresh h₀) {num : ℕ} {val : Fin num → List Char}
    {valstr : Fin num → Except Crash (List Char)} (hvalstr : ∀ i, valstr i = .ok (val i))
    (hval : ∀ i, nul ∉ val i) :
    Appends grant h₀ total (encodeRow val) (appendRow grant valstr) := by
  refine foldlM (fun i => (value hfresh (hvalstr i) (hval i)).bind ?_) _
  by_cases hlast : (i : ℕ) + 1 < num
  · simp only [if_pos hlast]
    exact append hfresh (by decide)
  · simp only [if_neg hlast]
    intro text s hb _
    rw [List.append_nil]
    exact hb

/-- The rows in brackets, as the encoder of matrices writes them. -/
lemma rows (hfresh : Stringbuffer.Fresh h₀) {nrows ncols : ℕ}
    {val : Fin nrows → Fin ncols → List Char}
    {valstr : Fin nrows → Fin ncols → Except Crash (List Char)}
    (hvalstr : ∀ i j, valstr i j = .ok (val i j)) (hval : ∀ i j, nul ∉ val i j) :
    Appends grant h₀ total
      ((List.finRange nrows).flatMap fun i => ['['] ++ (encodeRow (val i) ++ [']']))
      (appendRows grant valstr) := by
  refine foldlM (fun i => ?_) _
  exact (append hfresh (by decide)).bind
    ((row hfresh (hvalstr i) (hval i)).bind (append hfresh (by decide)))

end Appends

/-- An encoder whose values add their text. -/
lemma encode_leaves (hfresh : Stringbuffer.Fresh h₀) {key front back values : List Char}
    (hkey : nul ∉ key) (hfront : nul ∉ front) (hback : nul ∉ back)
    {body : Stringbuffer × TextHeap → Except Crash (Stringbuffer × TextHeap)}
    (hbody : Appends grant h₀ total values body)
    (htotal : (key ++ (front ++ (values ++ back))).length ≤ total) :
    Ends (Leaves h₀ (key ++ (front ++ (values ++ back)))) (Stringbuffer.TooLong grant total)
      (encode grant key front back body h₀) := by
  refine ((Stringbuffer.create_ends grant h₀).mono (fun _ hr => hr) fun _ he => .inl he).bind ?_
  intro s hb
  have hall := (Appends.append hfresh hkey).bind ((Appends.append hfresh hfront).bind
    (hbody.bind (Appends.append hfresh hback)))
  have hrun := (hall [] s hb htotal).bind fun s hb => leaves_finish hb hfresh
  simp only [bind_assoc] at hrun
  exact hrun

/-! ### The texts -/

variable (grant)

/-- Run in the heap `h₀`, an encoder gives back a new block with the text and leaves
nothing else behind. It stops when memory is refused, and only in this case if the
text has less than `2^30` characters; a longer text is never given back. -/
def Encodes (h₀ : TextHeap) (text : List Char)
    (run : TextHeap → Except Crash (ℕ × TextHeap)) : Prop :=
  (∀ r, run h₀ = .ok r → Leaves h₀ text r)
    ∧ ∀ e, run h₀ = .error e → grant.Refuses e ∨ 2 ^ 30 ≤ text.length

variable {grant}

lemma encodes_of_ends {text : List Char} {run : TextHeap → Except Crash (ℕ × TextHeap)}
    (h : Ends (Leaves h₀ text) (Stringbuffer.TooLong grant text.length) (run h₀)) :
    Encodes grant h₀ text run := by
  refine ⟨fun r hr => ?_, fun e he => ?_⟩
  · rw [hr] at h
    exact h
  · rw [he] at h
    exact h

lemma encodes_scalar (hfresh : Stringbuffer.Fresh h₀) {key : List Char} (hkey : nul ∉ key)
    {val : List Char} {valstr : Except Crash (List Char)} (hvalstr : valstr = .ok val)
    (hval : nul ∉ val) :
    Encodes grant h₀ (key ++ '=' :: (val ++ [';'])) (encodeScalar grant key valstr) :=
  encodes_of_ends (encode_leaves hfresh hkey (by decide) (by decide)
    (Appends.value hfresh hvalstr hval) le_rfl)

lemma encodes_array (hfresh : Stringbuffer.Fresh h₀) {key : List Char} (hkey : nul ∉ key)
    {num : ℕ} {val : Fin num → List Char} {valstr : Fin num → Except Crash (List Char)}
    (hvalstr : ∀ i, valstr i = .ok (val i)) (hval : ∀ i, nul ∉ val i) :
    Encodes grant h₀ (Parser.encodeArray key val) (encodeArray grant key valstr) :=
  encodes_of_ends (encode_leaves hfresh hkey (by decide) (by decide)
    (Appends.row hfresh hvalstr hval) le_rfl)

lemma encodes_matrix (hfresh : Stringbuffer.Fresh h₀) {key : List Char} (hkey : nul ∉ key)
    {nrows ncols : ℕ} {val : Fin nrows → Fin ncols → List Char}
    {valstr : Fin nrows → Fin ncols → Except Crash (List Char)}
    (hvalstr : ∀ i j, valstr i j = .ok (val i j)) (hval : ∀ i j, nul ∉ val i j) :
    Encodes grant h₀ (key ++ '=' :: '[' :: ((List.finRange nrows).flatMap (fun i =>
      '[' :: (encodeRow (val i) ++ [']'])) ++ [']', ';'])) (encodeMatrix grant key valstr) :=
  encodes_of_ends (encode_leaves hfresh hkey (by decide) (by decide)
    (Appends.rows hfresh hvalstr hval) le_rfl)

lemma sprintf_of_lt {size : ℕ} {text : List Char} (h : text.length < size) :
    sprintf size text = .ok text := if_pos h

lemma nul_notMem_digits {cs : List Char} (h : ∀ c ∈ cs, c = '-' ∨ c = '.' ∨ c.isDigit) :
    nul ∉ cs := fun hmem => by
  rcases h nul hmem with h | h | h <;> exact absurd h (by decide)

lemma nul_notMem_sprintfInt (n : ℤ) : nul ∉ sprintfInt n :=
  nul_notMem_digits fun _ hc => (Parser.isDigit_of_mem_sprintfInt hc).imp_right .inr

lemma nul_notMem_sprintfFloat (val : ℚ) : nul ∉ sprintfFloat val := by
  refine nul_notMem_digits fun c hc => ?_
  rw [sprintfFloat, formatFixed, String.toList_ofList, List.mem_append, List.mem_append,
    List.mem_cons] at hc
  rcases hc with hsign | hwhole | hpoint | hfraction
  · split_ifs at hsign
    · exact .inl (List.mem_singleton.mp hsign)
    · cases hsign
  · exact .inr (.inr (Nat.isDigit_of_mem_toDigits (by decide) (by decide) hwhole))
  · exact .inr (.inl hpoint)
  · exact .inr (.inr (isDigit_of_mem_fixedDigits hfraction))

/-- The numbers whose text with the format `%f` fits into `size` characters: there is one
digit less for a negative one. -/
def Fits (size : ℕ) (val : ℚ) : Prop :=
  1 / 2 / 10 ^ 6 - 10 ^ (size - 9) < val ∧ val < 10 ^ (size - 8) - 1 / 2 / 10 ^ 6

/-- The text of a number without its sign. -/
lemma length_formatFixed_lt_iff {x : ℚ} (hx : 0 ≤ x) {k : ℕ} (hk : 0 < k) :
    (formatFixed 6 (roundHalfEven (x * 10 ^ 6)).toNat).toList.length < k + 8
      ↔ x < 10 ^ k - 1 / 2 / 10 ^ 6 := by
  have heven : Even ((10 : ℤ) ^ (k + 6)) := by
    rw [Int.even_pow]
    exact ⟨by decide, by omega⟩
  have hround := roundHalfEven_nonneg (x := x * 10 ^ 6) (by positivity)
  calc (formatFixed 6 (roundHalfEven (x * 10 ^ 6)).toNat).toList.length < k + 8
      ↔ (Nat.toDigits 10 ((roundHalfEven (x * 10 ^ 6)).toNat / 10 ^ 6)).length ≤ k := by
        rw [formatFixed, String.toList_ofList, List.length_append, List.length_cons,
          fixedDigits_length]
        omega
    _ ↔ (roundHalfEven (x * 10 ^ 6)).toNat < 10 ^ (k + 6) := by
        rw [Nat.length_toDigits_le_iff (by decide) hk, Nat.div_lt_iff_lt_mul (by positivity),
          pow_add]
    _ ↔ roundHalfEven (x * 10 ^ 6) < 10 ^ (k + 6) := by
        rw [Int.toNat_lt hround]
        push_cast
        rfl
    _ ↔ x * 10 ^ 6 < 10 ^ (k + 6) - 1 / 2 := by
        rw [roundHalfEven_lt_iff heven]
        push_cast
        rfl
    _ ↔ x < 10 ^ k - 1 / 2 / 10 ^ 6 := by
        rw [← lt_div_iff₀ (by positivity), sub_div, pow_add, mul_div_cancel_right₀ _ (by positivity)]

lemma length_sprintfFloat_lt_iff (val : ℚ) {size : ℕ} (hsize : 10 ≤ size) :
    (sprintfFloat val).length < size ↔ Fits size val := by
  have hpow : ∀ k : ℕ, (1 : ℚ) ≤ 10 ^ k := fun k => one_le_pow₀ (by norm_num)
  rw [sprintfFloat, List.length_append, Fits]
  by_cases hneg : val < 0
  · have htext := length_formatFixed_lt_iff (abs_nonneg val) (k := size - 9) (by omega)
    have hupper : val < 10 ^ (size - 8) - 1 / 2 / 10 ^ 6 := by
      linarith [hpow (size - 8)]
    rw [abs_of_neg hneg] at htext ⊢
    rw [if_pos hneg, List.length_singleton, and_iff_left hupper]
    calc _ ↔ (formatFixed 6 (roundHalfEven (-val * 10 ^ 6)).toNat).toList.length
          < size - 9 + 8 := by omega
      _ ↔ -val < 10 ^ (size - 9) - 1 / 2 / 10 ^ 6 := htext
      _ ↔ _ := by constructor <;> intro h <;> linarith
  · have htext := length_formatFixed_lt_iff (abs_nonneg val) (k := size - 8) (by omega)
    have hlower : 1 / 2 / 10 ^ 6 - 10 ^ (size - 9) < val := by
      linarith [hpow (size - 9), not_lt.mp hneg]
    rw [abs_of_nonneg (not_lt.mp hneg)] at htext ⊢
    rw [if_neg hneg, List.length_nil, and_iff_right hlower, ← htext, zero_add,
      Nat.sub_add_cancel (by omega)]

/-! ### The encoders -/

/-- The encoders of whole numbers, truth values and texts build the texts of the model
without memory, `Parser`. -/
theorem encoders_leave (grant : Grant) (hfresh : Stringbuffer.Fresh h₀) {key : List Char}
    (hkey : nul ∉ key) :
    (∀ val : ℤ, -2 ^ 31 ≤ val ∧ val < 2 ^ 31 →
        Encodes grant h₀ (key ++ '=' :: (sprintfInt val ++ [';'])) (parserEncodeInt grant key val))
      ∧ (∀ val : Bool, Encodes grant h₀ (key ++ '=' :: (sprintfInt val.toNat ++ [';']))
        (parserEncodeBool grant key val))
      ∧ (∀ val, nul ∉ val →
        Encodes grant h₀ (key ++ '=' :: (val ++ [';'])) (parserEncodeString grant key val))
      ∧ (∀ {num : ℕ} (val : Fin num → ℤ), (∀ i, -2 ^ 31 ≤ val i ∧ val i < 2 ^ 31) →
        Encodes grant h₀ (Parser.parserEncodeIntarray key val)
          (parserEncodeIntarray grant key val))
      ∧ (∀ {num : ℕ} (val : Fin num → Bool), Encodes grant h₀ (Parser.parserEncodeBoolarray key val)
          (parserEncodeBoolarray grant key val))
      ∧ (∀ {num : ℕ} (val : Fin num → List Char), (∀ i, nul ∉ val i) →
        Encodes grant h₀ (Parser.parserEncodeStringarray key val)
          (parserEncodeStringarray grant key val))
      ∧ (∀ {nrows ncols : ℕ} (val : Matrix (Fin nrows) (Fin ncols) ℤ),
        (∀ i j, -2 ^ 31 ≤ val i j ∧ val i j < 2 ^ 31) →
        Encodes grant h₀ (Parser.parserEncodeIntmatrix key val)
          (parserEncodeIntmatrix grant key val))
      ∧ ∀ {nrows ncols : ℕ} (val : Matrix (Fin nrows) (Fin ncols) (List Char)),
        (∀ i j, nul ∉ val i j) →
        Encodes grant h₀ (key ++ '=' :: '[' :: ((List.finRange nrows).flatMap (fun i =>
          '[' :: (encodeRow (val i) ++ [']'])) ++ [']', ';']))
          (parserEncodeStringmatrix grant key val) := by
  have hint : ∀ n : ℤ, -2 ^ 31 ≤ n ∧ n < 2 ^ 31 → sprintf 16 (sprintfInt n) = .ok (sprintfInt n) :=
    fun n hn => sprintf_of_lt (Parser.length_sprintfInt_lt hn.1 hn.2)
  have hbool : ∀ b : Bool, sprintf 16 (sprintfInt b.toNat) = .ok (sprintfInt b.toNat) := by
    intro b
    refine hint _ ?_
    cases b <;> decide
  refine ⟨fun val hval => ?_, fun val => ?_, fun val hval => ?_, fun val hval => ?_,
    fun val => ?_, fun val hval => ?_, fun val hval => ?_, fun val hval => ?_⟩
  · exact encodes_scalar hfresh hkey (hint val hval) (nul_notMem_sprintfInt _)
  · exact encodes_scalar hfresh hkey (hbool val) (nul_notMem_sprintfInt _)
  · exact encodes_scalar hfresh hkey rfl hval
  · exact encodes_array hfresh hkey (fun i => hint _ (hval i)) fun i => nul_notMem_sprintfInt _
  · exact encodes_array hfresh hkey (fun i => hbool _) fun i => nul_notMem_sprintfInt _
  · exact encodes_array hfresh hkey (fun i => rfl) hval
  · refine encodes_matrix hfresh hkey (fun i j => ?_) fun i j => nul_notMem_sprintfInt _
    have hshort := Parser.length_sprintfInt_lt (hval i j).1 (hval i j).2
    exact sprintf_of_lt (hshort.trans (by decide))
  · exact encodes_matrix hfresh hkey (fun i j => rfl) hval

theorem encoders_leave_demands :
    Encodes (fun _ _ => some fun _ => nul) ⟨fun _ => none, 0⟩
        (Parser.parserEncodeIntarray "demand".toList ![-5, 100])
        (parserEncodeIntarray (fun _ _ => some fun _ => nul) "demand".toList ![-5, 100])
      ∧ Encodes (fun _ _ => none) ⟨fun _ => none, 0⟩ "name=cpu;".toList
        (parserEncodeString (fun _ _ => none) "name".toList "cpu".toList) := by
  have hfresh : Stringbuffer.Fresh ⟨fun _ => none, 0⟩ := fun _ _ => rfl
  refine ⟨(encoders_leave _ hfresh (by decide)).2.2.2.1 _ ?_,
    (encoders_leave _ hfresh (by decide)).2.2.1 _ (by decide)⟩
  simp [Fin.forall_fin_two]

/-! ### Numbers that do not fit -/

lemma appendValue_ne_ok {size : ℕ} {val : ℚ} (hsize : 10 ≤ size) (h : ¬Fits size val)
    (s s' : Stringbuffer × TextHeap) :
    appendValue grant (sprintf size (sprintfFloat val)) s ≠ .ok s' := by
  rw [appendValue, sprintf, if_neg ((length_sprintfFloat_lt_iff val hsize).not.mpr h)]
  nofun

lemma appendRow_ne_ok {size num : ℕ} {val : Fin num → ℚ} (hsize : 10 ≤ size) {i : Fin num}
    (h : ¬Fits size (val i)) (s s' : Stringbuffer × TextHeap) :
    appendRow grant (fun i => sprintf size (sprintfFloat (val i))) s ≠ .ok s' :=
  foldlM_ne_ok (List.mem_finRange i)
    (fun s => bind_ne_ok_left (appendValue_ne_ok hsize h s) _) s s'

lemma appendRows_ne_ok {size nrows ncols : ℕ} {val : Fin nrows → Fin ncols → ℚ}
    (hsize : 10 ≤ size) {i : Fin nrows} {j : Fin ncols} (h : ¬Fits size (val i j))
    (s s' : Stringbuffer × TextHeap) :
    appendRows grant (fun i j => sprintf size (sprintfFloat (val i j))) s ≠ .ok s' :=
  foldlM_ne_ok (List.mem_finRange i) (fun _ => bind_ne_ok_right _ fun _ =>
    bind_ne_ok_left (appendRow_ne_ok hsize h _) _) s s'

lemma encode_ne_ok {key front back : List Char}
    {body : Stringbuffer × TextHeap → Except Crash (Stringbuffer × TextHeap)}
    (h : ∀ s s', body s ≠ .ok s') (r : ℕ × TextHeap) :
    encode grant key front back body h₀ ≠ .ok r :=
  bind_ne_ok_right _ (fun _ => bind_ne_ok_right _ fun _ => bind_ne_ok_right _ fun _ =>
    bind_ne_ok_left (h _) _) r

/-- The encoders of floating-point numbers build their text exactly if the text of each
number fits the local array: 16 characters for one number, 32 in an array. Else they
write past the end of that array. -/
theorem float_encoders_leave (grant : Grant) (hfresh : Stringbuffer.Fresh h₀) {key : List Char}
    (hkey : nul ∉ key) :
    (∀ val : ℚ,
        (Fits 16 val → Encodes grant h₀ (key ++ '=' :: (sprintfFloat val ++ [';']))
          (parserEncodeFloat grant key val))
        ∧ (¬Fits 16 val → ∀ r, parserEncodeFloat grant key val h₀ ≠ .ok r))
      ∧ (∀ {num : ℕ} (val : Fin num → ℚ),
        ((∀ i, Fits 32 (val i)) →
          Encodes grant h₀ (Parser.encodeArray key fun i => sprintfFloat (val i))
            (parserEncodeFloatarray grant key val))
        ∧ ((∃ i, ¬Fits 32 (val i)) → ∀ r, parserEncodeFloatarray grant key val h₀ ≠ .ok r))
      ∧ ∀ {nrows ncols : ℕ} (val : Matrix (Fin nrows) (Fin ncols) ℚ),
        ((∀ i j, Fits 32 (val i j)) →
          Encodes grant h₀ (key ++ '=' :: '[' :: ((List.finRange nrows).flatMap (fun i =>
            '[' :: (encodeRow (fun j => sprintfFloat (val i j)) ++ [']'])) ++ [']', ';']))
            (parserEncodeFloatmatrix grant key val))
        ∧ ((∃ i j, ¬Fits 32 (val i j)) → ∀ r, parserEncodeFloatmatrix grant key val h₀ ≠ .ok r) := by
  have htext : ∀ {size val}, 10 ≤ size → Fits size val →
      sprintf size (sprintfFloat val) = .ok (sprintfFloat val) :=
    fun hsize h => sprintf_of_lt ((length_sprintfFloat_lt_iff _ hsize).mpr h)
  refine ⟨fun val => ⟨fun h => ?_, fun h => ?_⟩, fun val => ⟨fun h => ?_, ?_⟩,
    fun val => ⟨fun h => ?_, ?_⟩⟩
  · exact encodes_scalar hfresh hkey (htext (by decide) h) (nul_notMem_sprintfFloat _)
  · exact encode_ne_ok (appendValue_ne_ok (by decide) h)
  · exact encodes_array hfresh hkey (fun i => htext (by decide) (h i))
      fun i => nul_notMem_sprintfFloat _
  · rintro ⟨i, hi⟩
    exact encode_ne_ok (appendRow_ne_ok (by decide) hi)
  · exact encodes_matrix hfresh hkey (fun i j => htext (by decide) (h i j))
      fun i j => nul_notMem_sprintfFloat _
  · rintro ⟨i, j, hij⟩
    exact encode_ne_ok (appendRows_ne_ok (by decide) hij)

theorem float_encoders_leave_weights :
    (∀ r, parserEncodeFloat (fun _ _ => some fun _ => nul) "w".toList 100000000
        ⟨fun _ => none, 0⟩ ≠ .ok r)
      ∧ Encodes (fun _ _ => some fun _ => nul) ⟨fun _ => none, 0⟩
        (Parser.encodeArray "w".toList fun i => sprintfFloat (![1 / 2, 100000000] i))
        (parserEncodeFloatarray (fun _ _ => some fun _ => nul) "w".toList ![1 / 2, 100000000]) := by
  have hfresh : Stringbuffer.Fresh ⟨fun _ => none, 0⟩ := fun _ _ => rfl
  refine ⟨((float_encoders_leave _ hfresh (by decide)).1 _).2 ?_,
    ((float_encoders_leave _ hfresh (by decide)).2.1 _).1 ?_⟩
  · norm_num [Fits]
  · norm_num [Fits, Fin.forall_fin_two]

end KubeSafeScheduler.Pigeon.Encoders
