import Mathlib.Tactic
import KubeSafeScheduler.Pigeon.Reader

/-!
Blanks in a configuration file: what `properties_readfromfile` makes of blanks
around the `=` signs and at the ends of the lines.

* `fileOf`: a file from its lines; `lines_fileOf`: what `fgets` makes of lines that
  fit its buffer.
* `insertAll`, `readfromfile_eq`: so the property list is made from the entries of
  the lines, as long as what stands before a `=` fits the buffer of the keys.
* `BlankEdit`: one line, and the line with blanks put in. The blanks at the end
  become part of a value that is not empty (`BlankEdit.entry`), those around the
  `=` are lost (`entry_edited`).
* `readfromfile_edited`: the same for whole files; without blanks at the ends of
  lines the file reads the same.
-/

namespace KubeSafeScheduler.Pigeon

open Utils (Hashmap Rand)

namespace Properties

/-! ### Files and lines -/

/-- The byte at the end of a line. -/
abbrev newline : UInt8 := '\n'.toUInt8

abbrev blank : UInt8 := ' '.toUInt8

abbrev equals : UInt8 := '='.toUInt8

/-- The file with these lines. -/
def fileOf (ls : List (List UInt8)) : List UInt8 := List.intercalate [newline] ls

lemma fileOf_cons_cons (l l' : List UInt8) (ls : List (List UInt8)) :
    fileOf (l :: l' :: ls) = l ++ newline :: fileOf (l' :: ls) := by
  rw [fileOf, List.intercalate_cons_cons, List.append_assoc, List.singleton_append, fileOf]

/-- A line shorter than the buffer, the zero byte behind it included. -/
def LineFits (l : List UInt8) : Prop := newline ∉ l ∧ l.length < 4096

instance (l : List UInt8) : Decidable (LineFits l) := inferInstanceAs (Decidable (_ ∧ _))

lemma lines_append_newline (line l rest : List UInt8) (hl : newline ∉ l)
    (hlen : line.length + l.length < 4095) :
    lines line (l ++ newline :: rest) = (line.reverse ++ l ++ [newline]) :: lines [] rest := by
  induction l generalizing line with
  | nil =>
      rw [List.nil_append, lines, if_pos (Or.inl rfl), List.reverse_cons, List.append_nil]
  | cons c l ih =>
      simp only [List.mem_cons, not_or, List.length_cons] at hl hlen
      have hc : ¬(c = newline ∨ line.length + 1 = 4095) :=
        not_or.mpr ⟨fun h => hl.1 h.symm, by omega⟩
      rw [List.cons_append, lines, if_neg hc, ih _ hl.2 (by rw [List.length_cons]; omega),
        List.reverse_cons]
      simp only [List.append_assoc, List.cons_append, List.nil_append]

/-- A line that fills the buffer is read without the end of the line. -/
lemma lines_append_full (line l rest : List UInt8) (hl : newline ∉ l) (hne : l ≠ [])
    (hlen : line.length + l.length = 4095) :
    lines line (l ++ rest) = (line.reverse ++ l) :: lines [] rest := by
  induction l generalizing line with
  | nil => exact absurd rfl hne
  | cons c l ih =>
      simp only [List.mem_cons, not_or, List.length_cons] at hl hlen
      rw [List.cons_append, lines]
      by_cases hend : l = []
      · subst hend
        rw [if_pos (Or.inr (by simpa using hlen)), List.reverse_cons, List.nil_append]
      · have hpos := List.length_pos_iff.mpr hend
        have hc : ¬(c = newline ∨ line.length + 1 = 4095) :=
          not_or.mpr ⟨fun h => hl.1 h.symm, by omega⟩
        rw [if_neg hc, ih _ hl.2 hend (by rw [List.length_cons]; omega), List.reverse_cons]
        simp only [List.append_assoc, List.cons_append, List.nil_append]

/-- The last line of a file. -/
lemma lines_last (line l : List UInt8) (hl : newline ∉ l) (hlen : line.length + l.length < 4095) :
    lines line l = if line.reverse ++ l = [] then [] else [line.reverse ++ l] := by
  induction l generalizing line with
  | nil => simp only [lines, List.append_nil, List.reverse_eq_nil_iff]
  | cons c l ih =>
      simp only [List.mem_cons, not_or, List.length_cons] at hl hlen
      have hc : ¬(c = newline ∨ line.length + 1 = 4095) :=
        not_or.mpr ⟨fun h => hl.1 h.symm, by omega⟩
      rw [lines, if_neg hc, ih _ hl.2 (by rw [List.length_cons]; omega), List.reverse_cons]
      simp only [List.append_assoc, List.cons_append, List.nil_append]

/-- The chunks that `fgets` makes of a line before the last one. -/
def chunks (l : List UInt8) : List (List UInt8) :=
  if l.length = 4095 then [l, [newline]] else [l ++ [newline]]

lemma lines_line {l : List UInt8} (hl : LineFits l) (rest : List UInt8) :
    lines [] (l ++ newline :: rest) = chunks l ++ lines [] rest := by
  obtain ⟨hnl, hlen⟩ := hl
  rw [chunks]
  split_ifs with hfull
  · have hne : l ≠ [] := by
      rintro rfl
      simp at hfull
    rw [lines_append_full [] l _ hnl hne (by simpa using hfull), lines, if_pos (Or.inl rfl)]
    rfl
  · rw [lines_append_newline [] l rest hnl (by rw [List.length_nil]; omega)]
    rfl

lemma lines_single {l : List UInt8} (hl : LineFits l) :
    lines [] l = if l = [] then [] else [l] := by
  obtain ⟨hnl, hlen⟩ := hl
  by_cases hfull : l.length = 4095
  · have hne : l ≠ [] := by
      rintro rfl
      simp at hfull
    have h := lines_append_full [] l [] hnl hne (by simpa using hfull)
    rw [List.append_nil] at h
    rw [h, if_neg hne]
    rfl
  · exact lines_last [] l hnl (by rw [List.length_nil]; omega)

/-- What `fgets` reads of a file whose lines fit its buffer: a loop that does not
see where they end goes over the lines. -/
lemma foldlM_lines_fileOf {β : Type} {step : β → List UInt8 → Option β}
    (hnil : ∀ x, step x [] = some x) (hnewline : ∀ x, step x [newline] = some x)
    (hend : ∀ x l, newline ∉ l → step x (l ++ [newline]) = step x l) {ls : List (List UInt8)}
    (hls : ∀ l ∈ ls, LineFits l) (x : β) :
    (lines [] (fileOf ls)).foldlM step x = ls.foldlM step x := by
  have hchunks : ∀ l x, newline ∉ l → (chunks l).foldlM step x = step x l := by
    intro l x hl
    rw [chunks]
    split_ifs
    · simp only [List.foldlM_cons, List.foldlM_nil, hnewline, Option.pure_def,
        Option.bind_eq_bind, Option.bind_fun_some]
    · simp only [List.foldlM_cons, List.foldlM_nil, hend x l hl, Option.pure_def,
        Option.bind_eq_bind, Option.bind_fun_some]
  induction ls generalizing x with
  | nil => rfl
  | cons l ls ih =>
      obtain ⟨hl, hrest⟩ := List.forall_mem_cons.mp hls
      cases ls with
      | nil =>
          rw [fileOf, List.intercalate_singleton, lines_single hl]
          split_ifs with hempty
          · rw [hempty, List.foldlM_cons, hnil]
            rfl
          · rfl
      | cons l' ls =>
          rw [fileOf_cons_cons, lines_line hl, List.foldlM_append, hchunks l x hl.1,
            List.foldlM_cons]
          simp only [ih hrest]

/-! ### The entries of the lines -/

lemma cString_append_of_notMem {s : List UInt8} (h : (0 : UInt8) ∉ s) (t : List UInt8) :
    cString (s ++ t) = s ++ cString t := by
  have hall : ∀ c ∈ s, decide (c ≠ 0) = true := by
    intro c hc
    exact decide_eq_true fun h0 => h (h0 ▸ hc)
  exact List.takeWhile_append_of_pos hall

lemma cString_append_of_mem {s : List UInt8} (h : (0 : UInt8) ∈ s) (t : List UInt8) :
    cString (s ++ t) = cString s := by
  obtain ⟨a, b, rfl, ha⟩ := List.eq_append_cons_of_mem h
  have hzero : ∀ u : List UInt8, cString (0 :: u) = [] := fun _ => rfl
  rw [List.append_assoc, cString_append_of_notMem ha, cString_append_of_notMem ha,
    List.cons_append, hzero, hzero]

/-- The value in the part of a line behind its first `=`. -/
def valueText (s : List UInt8) : List UInt8 :=
  ((cString s).dropWhile (· = blank)).takeWhile (· ≠ newline)

lemma takeWhile_key {key : List UInt8} (hkey : equals ∉ key) (s : List UInt8) :
    (key ++ equals :: s).takeWhile (· ≠ equals) = key := by
  have hall : ∀ c ∈ key, decide (c ≠ equals) = true :=
    fun c hc => decide_eq_true fun h => hkey (h ▸ hc)
  rw [List.takeWhile_append_of_pos hall, List.takeWhile_cons_of_neg (by simp), List.append_nil]

lemma dropWhile_key {key : List UInt8} (hkey : equals ∉ key) (s : List UInt8) :
    (key ++ equals :: s).dropWhile (· ≠ equals) = equals :: s := by
  have hall : ∀ c ∈ key, decide (c ≠ equals) = true :=
    fun c hc => decide_eq_true fun h => hkey (h ▸ hc)
  rw [List.dropWhile_append_of_pos hall, List.dropWhile_cons_of_neg (by simp)]

/-- Whether the line is skipped: a comment, or empty. -/
def Skipped (line : List UInt8) : Prop :=
  line.head? = some '#'.toUInt8 ∨ line.head? = some '\n'.toUInt8

instance (line : List UInt8) : Decidable (Skipped line) := inferInstanceAs (Decidable (_ ∨ _))

lemma skipped_pair (key s : List UInt8) : Skipped (key ++ equals :: s) ↔ Skipped key := by
  cases key with
  | nil =>
      simp only [Skipped, List.nil_append, List.head?_cons, List.head?_nil, reduceCtorEq, or_self,
        iff_false]
      decide
  | cons c key => rfl

lemma cString_pair {key : List UInt8} (hzero : (0 : UInt8) ∉ key) (s : List UInt8) :
    cString (key ++ equals :: s) = key ++ equals :: cString s := by
  rw [cString_append_of_notMem hzero, cString, List.takeWhile_cons_of_pos (by decide)]
  rfl

lemma equals_notMem_cString {s : List UInt8} (h : equals ∉ s) : equals ∉ cString s :=
  fun hmem => h ((List.takeWhile_sublist _).subset hmem)

/-- The entry of a line with a `=`. -/
lemma entry_pair {key : List UInt8} (hkey : equals ∉ key) (s : List UInt8) :
    Spec.entry (key ++ equals :: s)
      = if Skipped key ∨ (0 : UInt8) ∈ key then none
        else some (textOf (key.takeWhile (· ≠ blank)), textOf (valueText s)) := by
  have hskip := skipped_pair key s
  rw [Skipped] at hskip
  rw [Spec.entry]
  by_cases hzero : (0 : UInt8) ∈ key
  · rw [if_pos (Or.inr hzero), cString_append_of_mem hzero, if_neg (equals_notMem_cString hkey),
      ite_self]
  · have hmem : equals ∈ key ++ equals :: cString s := by simp
    simp only [hskip, cString_pair hzero, hmem, if_true, hzero, or_false, takeWhile_key hkey,
      valueOf, dropWhile_key hkey, List.tail_cons]
    rfl

lemma entry_plain {line : List UInt8} (h : equals ∉ line) : Spec.entry line = none := by
  rw [Spec.entry]
  split_ifs with _ hmem
  · rfl
  · exact absurd ((List.takeWhile_sublist _).subset hmem) h
  · rfl

lemma takeWhile_newline {s : List UInt8} (h : newline ∉ s) (t : List UInt8) :
    (s ++ t).takeWhile (· ≠ newline) = s ++ t.takeWhile (· ≠ newline) :=
  List.takeWhile_append_of_pos fun _ hc => decide_eq_true fun hn => h (hn ▸ hc)

/-- Without a zero byte the value is all but the blanks in front. -/
lemma valueText_append {s : List UInt8} (hnewline : newline ∉ s) (hzero : (0 : UInt8) ∉ s)
    (t : List UInt8) :
    valueText (s ++ t) = if s.dropWhile (· = blank) = [] then valueText t
      else s.dropWhile (· = blank) ++ (cString t).takeWhile (· ≠ newline) := by
  have hdrop : newline ∉ s.dropWhile (· = blank) :=
    fun h => hnewline ((List.dropWhile_sublist _).subset h)
  rw [valueText, cString_append_of_notMem hzero, List.dropWhile_append]
  by_cases hblank : s.dropWhile (· = blank) = []
  · rw [if_pos hblank, if_pos (by rw [hblank]; rfl), valueText]
  · rw [if_neg hblank, if_neg (by simpa using hblank), takeWhile_newline hdrop]

lemma valueText_of_clean {s : List UInt8} (hnewline : newline ∉ s) (hzero : (0 : UInt8) ∉ s) :
    valueText s = s.dropWhile (· = blank) := by
  have h := valueText_append hnewline hzero []
  rw [List.append_nil] at h
  rw [h]
  split_ifs with hblank
  · rw [hblank]
    rfl
  · exact List.append_nil _

/-- Blanks at the end of a line belong to its value, unless that is empty. -/
lemma valueText_append_blanks {s : List UInt8} (hnewline : newline ∉ s) (hzero : (0 : UInt8) ∉ s)
    (n : ℕ) :
    valueText (s ++ List.replicate n blank)
      = if valueText s = [] then [] else valueText s ++ List.replicate n blank := by
  have hblanks : cString (List.replicate n blank) = List.replicate n blank :=
    List.takeWhile_replicate_eq_filter.trans (List.filter_replicate_of_pos (by decide))
  rw [valueText_append hnewline hzero, valueText_of_clean hnewline hzero]
  split_ifs
  · rw [valueText, hblanks, List.dropWhile_replicate_eq_filter_not,
      List.filter_replicate_of_neg (by decide)]
    rfl
  · rw [hblanks, List.takeWhile_replicate_eq_filter, List.filter_replicate_of_pos (by decide)]

/-- The end of a line belongs to no entry. -/
lemma entry_append_newline {line : List UInt8} (h : newline ∉ line) :
    Spec.entry (line ++ [newline]) = Spec.entry line := by
  by_cases hmem : equals ∈ line
  · obtain ⟨key, s, rfl, hkey⟩ := List.eq_append_cons_of_mem hmem
    have hs : newline ∉ s := fun hs => h (by simp [hs])
    have hvalue : valueText (s ++ [newline]) = valueText s := by
      by_cases hzero : (0 : UInt8) ∈ s
      · rw [valueText, cString_append_of_mem hzero, valueText]
      · rw [valueText_append hs hzero, valueText_of_clean hs hzero]
        split_ifs with hblank
        · rw [hblank]
          rfl
        · exact List.append_nil _
    rw [List.append_assoc, List.cons_append, entry_pair hkey, entry_pair hkey, hvalue]
  · have hnewline : equals ≠ newline := by decide
    rw [entry_plain hmem, entry_plain]
    simp [hmem, hnewline]

/-- What stands before the `=` of a line, if it is copied, fits the buffer of the
keys. -/
def KeyFits (line : List UInt8) : Prop :=
  ¬Skipped line → equals ∈ cString line →
    ((cString line).takeWhile (· ≠ equals)).length < 64

instance (line : List UInt8) : Decidable (KeyFits line) :=
  inferInstanceAs (Decidable (_ → _ → _))

lemma keyFits_pair {key : List UInt8} (hkey : equals ∉ key) (s : List UInt8) :
    KeyFits (key ++ equals :: s) ↔ (Skipped key ∨ (0 : UInt8) ∈ key) ∨ key.length < 64 := by
  rw [KeyFits, skipped_pair]
  by_cases hzero : (0 : UInt8) ∈ key
  · have hnot := equals_notMem_cString hkey
    simp only [cString_append_of_mem hzero, hnot, hzero, false_implies, implies_true, or_true,
      true_or]
  · have hmem : equals ∈ key ++ equals :: cString s := by simp
    simp only [cString_pair hzero, hmem, true_implies, hzero, or_false, takeWhile_key hkey]
    exact Decidable.or_iff_not_imp_left.symm

lemma keyFits_plain {line : List UInt8} (h : equals ∉ line) : KeyFits line :=
  fun _ hmem => absurd hmem (equals_notMem_cString h)

/-- A line inserts its entry. -/
lemma readLine_eq (p : Hashmap String) (line : List UInt8) :
    readLine p line = if KeyFits line then
      (Spec.entry line).elim (some p) fun kv => p.insert kv.2 kv.1 else none := by
  unfold readLine Spec.entry KeyFits Skipped
  by_cases hskip : line.head? = some '#'.toUInt8 ∨ line.head? = some '\n'.toUInt8
  · simp only [hskip, not_true_eq_false, false_implies, if_true, Option.elim_none]
  · by_cases hmem : equals ∈ cString line
    · simp only [hskip, not_false_eq_true, true_implies, if_false, hmem, if_true, Option.elim_some]
    · simp only [hskip, not_false_eq_true, true_implies, if_false, hmem, false_implies, if_true,
        Option.elim_none]

lemma readLine_append_newline (p : Hashmap String) {line : List UInt8} (h : newline ∉ line) :
    readLine p (line ++ [newline]) = readLine p line := by
  rw [readLine_eq, readLine_eq, entry_append_newline h]
  congr 1
  by_cases hmem : equals ∈ line
  · obtain ⟨key, s, rfl, hkey⟩ := List.eq_append_cons_of_mem hmem
    rw [List.append_assoc, List.cons_append, keyFits_pair hkey, keyFits_pair hkey]
  · have hne : equals ≠ newline := by decide
    have hmem' : equals ∉ line ++ [newline] := by simp [hmem, hne]
    exact propext (iff_of_true (keyFits_plain hmem') (keyFits_plain hmem))

/-- The insertions of a list of entries into a new property list. -/
def insertAll (rand : Rand) (entries : List (String × String)) : Option (Hashmap String) :=
  entries.foldlM (fun p kv => p.insert kv.2 kv.1) (Hashmap.create rand)

/-- The property list is made from the entries of the lines. -/
theorem readfromfile_eq (rand : Rand) {ls : List (List UInt8)}
    (hls : ∀ l ∈ ls, LineFits l ∧ KeyFits l) :
    readfromfile rand (fileOf ls) = insertAll rand (ls.filterMap Spec.entry) := by
  rw [readfromfile, foldlM_lines_fileOf (fun _ => rfl) (fun _ => rfl)
    (fun p l hl => readLine_append_newline p hl) fun l hl => (hls l hl).1, insertAll]
  generalize Hashmap.create rand = p
  induction ls generalizing p with
  | nil => rfl
  | cons l ls ih =>
      obtain ⟨hl, hrest⟩ := List.forall_mem_cons.mp hls
      rw [List.foldlM_cons, readLine_eq, if_pos hl.2]
      cases hentry : Spec.entry l with
      | none =>
          rw [List.filterMap_cons_none hentry]
          exact ih hrest p
      | some kv =>
          rw [List.filterMap_cons_some hentry, List.foldlM_cons]
          simp only [Option.elim_some, ih hrest]

/-- The value of the last entry with this key. -/
def lastValue (entries : List (String × String)) (key : String) : Option String :=
  (entries.reverse.find? fun kv => kv.1 = key).map Prod.snd

lemma get_foldl_insert (entries : List (String × String)) (key : String) :
    (entries.foldl (fun m kv => m.insert kv.1 kv.2) (∅ : StringMap String)).get key
      = lastValue entries key := by
  induction entries using List.reverseRecOn with
  | nil => rfl
  | append_singleton entries kv ih =>
      rw [List.foldl_append, List.foldl_cons, List.foldl_nil, StringMap.get_insert, lastValue,
        List.reverse_append, List.reverse_singleton, List.singleton_append, List.find?_cons]
      by_cases hkey : kv.1 = key
      · rw [if_pos hkey.symm, decide_eq_true hkey]
        rfl
      · rw [if_neg fun h => hkey h.symm, decide_eq_false hkey, ih, lastValue]

/-! ### Blanks in the lines -/

/-- `n` blanks. -/
def blanks (n : ℕ) : List UInt8 := List.replicate n blank

/-- A line, and how many blanks are put before its key, around its first `=` and
at its end. -/
inductive BlankEdit where
  | plain (line : List UInt8) (after : ℕ) (h : equals ∉ line)
  | pair (key value : List UInt8) (before left right after : ℕ) (h : equals ∉ key)

namespace BlankEdit

/-- The line as it was. -/
def original : BlankEdit → List UInt8
  | plain line _ _ => line
  | pair key value _ _ _ _ _ => key ++ equals :: value

/-- The line with the blanks. -/
def edited : BlankEdit → List UInt8
  | plain line after _ => line ++ blanks after
  | pair key value before left right after _ =>
      blanks before ++ key ++ blanks left ++ equals :: (blanks right ++ value ++ blanks after)

/-- The blanks before the key. -/
def before : BlankEdit → ℕ
  | plain _ _ _ => 0
  | pair _ _ before _ _ _ _ => before

/-- The blanks at the end of the line. -/
def after : BlankEdit → ℕ
  | plain _ after _ => after
  | pair _ _ _ _ _ after _ => after

/-- The entry with the blanks at the end of the line added to the value, unless
this is empty, or ends before the line does. -/
def entry (e : BlankEdit) : Option (String × String) :=
  (Spec.entry e.original).map fun kv =>
    if kv.2 = "" ∨ (0 : UInt8) ∈ e.original then kv
    else (kv.1, kv.2 ++ String.ofList (List.replicate e.after ' '))

end BlankEdit

lemma textOf_append (s t : List UInt8) : textOf (s ++ t) = textOf s ++ textOf t := by
  rw [textOf, List.map_append, String.ofList_append, textOf, textOf]

lemma textOf_eq_empty {s : List UInt8} : textOf s = "" ↔ s = [] := by
  rw [textOf, ← String.toList_inj, String.toList_ofList]
  exact List.map_eq_nil_iff

lemma textOf_blanks (n : ℕ) : textOf (blanks n) = String.ofList (List.replicate n ' ') := by
  rw [textOf, blanks, List.map_replicate]
  rfl

lemma notMem_blanks {c : UInt8} (hc : c ≠ blank) (n : ℕ) : c ∉ blanks n :=
  fun h => hc (List.eq_of_mem_replicate h)

lemma skipped_append_blanks (key : List UInt8) (n : ℕ) :
    Skipped (key ++ blanks n) ↔ Skipped key := by
  cases key with
  | nil =>
      cases n with
      | zero => rfl
      | succ n =>
          refine iff_of_false ?_ ?_
          · rintro (h | h)
            · exact absurd (Option.some.inj h) (by decide)
            · exact absurd (Option.some.inj h) (by decide)
          · rintro (h | h) <;> cases h
  | cons c key => rfl

lemma takeWhile_append_blanks (key : List UInt8) (n : ℕ) :
    (key ++ blanks n).takeWhile (· ≠ blank) = key.takeWhile (· ≠ blank) := by
  rw [List.takeWhile_append, blanks, List.takeWhile_replicate_eq_filter,
    List.filter_replicate_of_neg (by decide), List.append_nil]
  split_ifs with hlen
  · exact ((List.takeWhile_sublist _).eq_of_length hlen).symm
  · rfl

lemma valueText_blanks_append (n : ℕ) (s : List UInt8) :
    valueText (blanks n ++ s) = valueText s := by
  have hzero : (0 : UInt8) ∉ blanks n := notMem_blanks (by decide) n
  have hall : ∀ c ∈ blanks n, decide (c = blank) = true :=
    fun c hc => decide_eq_true (List.eq_of_mem_replicate hc)
  rw [valueText, cString_append_of_notMem hzero, List.dropWhile_append_of_pos hall, valueText]

/-- The text of a value with blanks behind it. -/
lemma textOf_append_blanks {value : List UInt8} (hvalue : newline ∉ value) (n : ℕ) :
    textOf (valueText (value ++ blanks n))
      = if textOf (valueText value) = "" ∨ (0 : UInt8) ∈ value then textOf (valueText value)
        else textOf (valueText value) ++ String.ofList (List.replicate n ' ') := by
  by_cases hcut : (0 : UInt8) ∈ value
  · rw [if_pos (Or.inr hcut), valueText, cString_append_of_mem hcut, valueText]
  · rw [blanks, valueText_append_blanks hvalue hcut]
    by_cases hempty : valueText value = []
    · rw [if_pos hempty, if_pos (Or.inl (textOf_eq_empty.mpr hempty)), hempty]
    · have hnot : ¬(textOf (valueText value) = "" ∨ (0 : UInt8) ∈ value) :=
        not_or.mpr ⟨fun h => hempty (textOf_eq_empty.mp h), hcut⟩
      rw [if_neg hempty, if_neg hnot, textOf_append, ← blanks, textOf_blanks]

/-- A line with blanks around its `=` and at its end has the entry that
`BlankEdit.entry` says. -/
lemma entry_edited {e : BlankEdit} (hbefore : e.before = 0) (hnewline : newline ∉ e.original) :
    Spec.entry e.edited = e.entry := by
  cases e with
  | plain line after h =>
      have hedited : equals ∉ line ++ blanks after := by
        rw [List.mem_append, not_or]
        exact ⟨h, notMem_blanks (by decide) after⟩
      rw [BlankEdit.entry, BlankEdit.original, entry_plain h]
      exact entry_plain hedited
  | pair key value before left right after h =>
      rw [BlankEdit.before] at hbefore
      subst hbefore
      have hkey : equals ∉ key ++ blanks left := by
        rw [List.mem_append, not_or]
        exact ⟨h, notMem_blanks (by decide) left⟩
      have hzero : (0 : UInt8) ∈ key ++ blanks left ↔ (0 : UInt8) ∈ key := by
        rw [List.mem_append, or_iff_left (notMem_blanks (by decide) left)]
      have hvalue : newline ∉ value := fun hmem => hnewline (by simp [BlankEdit.original, hmem])
      have hline : (BlankEdit.pair key value 0 left right after h).edited
          = (key ++ blanks left) ++ equals :: (blanks right ++ (value ++ blanks after)) := by
        rw [BlankEdit.edited, List.append_assoc (blanks right)]
        rfl
      rw [hline, entry_pair hkey, BlankEdit.entry]
      simp only [BlankEdit.original, entry_pair h, skipped_append_blanks, hzero,
        takeWhile_append_blanks, valueText_blanks_append, BlankEdit.after]
      by_cases hskip : Skipped key ∨ (0 : UInt8) ∈ key
      · simp only [if_pos hskip, Option.map_none]
      · have hne : (0 : UInt8) ≠ equals := by decide
        have hmem : (0 : UInt8) ∈ key ++ equals :: value ↔ (0 : UInt8) ∈ value := by
          rw [List.mem_append, List.mem_cons, or_iff_right fun hk => hskip (Or.inr hk),
            or_iff_right hne]
        simp only [if_neg hskip, Option.map_some, hmem, textOf_append_blanks hvalue]
        split_ifs <;> rfl

lemma entry_of_after_eq_zero {e : BlankEdit} (h : e.after = 0) :
    e.entry = Spec.entry e.original := by
  rw [BlankEdit.entry, h]
  cases Spec.entry e.original with
  | none => rfl
  | some kv => simp

/-- A file with blanks around the `=` signs and at the ends of lines: the property
list is made from the entries with the blanks at the ends of lines added, and
holds the last value of each key; without such blanks it is the same as before,
and so are the policy objective and the resource index. -/
theorem readfromfile_edited (rand : Rand) {edits : List BlankEdit}
    (hbefore : ∀ e ∈ edits, e.before = 0)
    (horiginal : ∀ e ∈ edits, LineFits e.original ∧ KeyFits e.original)
    (hedited : ∀ e ∈ edits, LineFits e.edited ∧ KeyFits e.edited) :
    readfromfile rand (fileOf (edits.map BlankEdit.edited))
        = insertAll rand (edits.filterMap BlankEdit.entry)
      ∧ (∀ p, readfromfile rand (fileOf (edits.map BlankEdit.edited)) = some p →
          ∀ key, p.get key = lastValue (edits.filterMap BlankEdit.entry) key)
      ∧ ((∀ e ∈ edits, e.after = 0) →
          readfromfile rand (fileOf (edits.map BlankEdit.edited))
              = readfromfile rand (fileOf (edits.map BlankEdit.original))
            ∧ Reader.create rand (fileOf (edits.map BlankEdit.edited))
              = Reader.create rand (fileOf (edits.map BlankEdit.original))) := by
  have hentries : (edits.map BlankEdit.edited).filterMap Spec.entry
      = edits.filterMap BlankEdit.entry := by
    rw [List.filterMap_map]
    exact List.filterMap_congr fun e he => entry_edited (hbefore e he) (horiginal e he).1.1
  have hfits : ∀ l ∈ edits.map BlankEdit.edited, LineFits l ∧ KeyFits l :=
    List.forall_mem_map.mpr hedited
  have hread : readfromfile rand (fileOf (edits.map BlankEdit.edited))
      = insertAll rand (edits.filterMap BlankEdit.entry) := by
    rw [readfromfile_eq rand hfits, hentries]
  refine ⟨hread, fun p hp key => ?_, fun hafter => ?_⟩
  · rw [readfromfile, foldlM_lines_fileOf (fun _ => rfl) (fun _ => rfl)
      (fun p l hl => readLine_append_newline p hl) fun l hl => (hfits l hl).1] at hp
    rw [(holds_foldlM (Hashmap.holds_create rand) (fun _ hi => absurd rfl hi) _ hp).get_eq key,
      hentries, get_foldl_insert]
  · have hsame : edits.filterMap BlankEdit.entry
        = (edits.map BlankEdit.original).filterMap Spec.entry := by
      rw [List.filterMap_map]
      exact List.filterMap_congr fun e he => entry_of_after_eq_zero (hafter e he)
    have heq : readfromfile rand (fileOf (edits.map BlankEdit.edited))
        = readfromfile rand (fileOf (edits.map BlankEdit.original)) := by
      rw [hread, hsame, readfromfile_eq rand (List.forall_mem_map.mpr horiginal)]
    exact ⟨heq, by rw [Reader.create, Reader.create, heq]⟩

/-- The bytes of a text. -/
def bytesOf (s : String) : List UInt8 := s.toUTF8.toList

/-- A file that sets the policy objective, with so many blanks before the `=`, after
it and at the end of the line. -/
def objectiveEdits (left right after : ℕ) : List BlankEdit :=
  [.plain (bytesOf "# objective") 0 (by decide +kernel),
    .pair (bytesOf "policyObjective") (bytesOf "CONSOLIDATE") 0 left right after
      (by decide +kernel),
    .plain [] 0 List.not_mem_nil]

theorem readfromfile_edited_objective :
    Reader.create (fun _ => 0) (fileOf ((objectiveEdits 1 2 0).map BlankEdit.edited))
      = Reader.create (fun _ => 0) (fileOf ((objectiveEdits 1 2 0).map BlankEdit.original)) :=
  ((@readfromfile_edited (fun _ => 0) (objectiveEdits 1 2 0) (by decide +kernel)
    (by decide +kernel) (by decide +kernel)).2.2 (by decide +kernel)).2

/-- With one blank at the end of its line the objective is not recognized. -/
theorem reader_create_trailing_blank :
    ¬ ∀ (rand : Rand) (edits : List BlankEdit),
      (∀ e ∈ edits, equals ∈ e.original → blank ∉ e.original.takeWhile (· ≠ equals)) →
      (∀ e ∈ edits, Skipped e.original → e.edited = e.original) →
      (∀ e ∈ edits, LineFits e.original ∧ KeyFits e.original) →
      (∀ e ∈ edits, LineFits e.edited ∧ KeyFits e.edited) →
      Reader.create rand (fileOf (edits.map BlankEdit.edited))
        = Reader.create rand (fileOf (edits.map BlankEdit.original)) := by
  intro h
  have hsame := h (fun _ => 0) (objectiveEdits 0 0 1) (by decide +kernel) (by decide +kernel)
    (by decide +kernel) (by decide +kernel)
  revert hsame
  decide +kernel

end Properties

end KubeSafeScheduler.Pigeon
