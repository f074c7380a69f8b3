import Mathlib.Tactic

/-!
`replay/parser.c`: sequences of key and value pairs, and the scanner that takes
them apart.

A text is the list of the characters before its terminating zero; buffers are
large enough.

* `nextkeyvaluepair`: the first pair of a text, with the three ways a value ends
  (`closing` is the counter of the braces, `afterDelimiter` the step behind it).
* `Pairs`, `Value`: the grammar of `parser.h`, over types of keys and strings; with
  `Key` and `Str` nothing outside of the grammar can be built.
* `parse`: the calls until there is no next pair, again on each value in braces;
  `parseFuel_eq`: the length of the text is fuel enough.
* `closing_print`: a printed sequence is balanced, whatever its depth;
  `parse_print`: so parsing a printed sequence gives it back.
-/

namespace KubeSafeScheduler.Pigeon.Parser

/-! ### The scanner -/

/-- What `parser_nextkeyvaluepair` gives back: the two buffers, the flag, which
is not written when there is no `=`, and the rest of the text or `NULL`. -/
structure NextPair where
  key : List Char
  value : List Char
  issingleton : Option Bool
  next : Option (List Char)
  deriving DecidableEq

/-- The loop that counts matching braces, `count` being open: the text up to the
one that closes, and the text behind it. -/
def closing : ℕ → List Char → Option (List Char × List Char)
  | _, [] => none
  | count, c :: cs =>
      if c = '\n' then none
      else if c = '{' then (closing (count + 1) cs).map fun p => (c :: p.1, p.2)
      else if c = '}' then
        if count = 1 then some ([], cs)
        else (closing (count - 1) cs).map fun p => (c :: p.1, p.2)
      else (closing count cs).map fun p => (c :: p.1, p.2)

/-- The text behind the character at which a value ended. -/
def afterDelimiter : List Char → Option (List Char)
  | [] => none
  | c :: cs => if c = '\n' then none else some cs

/-- Whether `strpbrk` stops at the character. -/
def endsValue (c : Char) : Bool := c = ';' ∨ c = '}' ∨ c = '\n'

/-- The value of a pair, from behind its `=`. -/
def readValue (key : List Char) : List Char → NextPair
  | '{' :: c =>
      match closing 1 c with
      | some (value, valend) => ⟨key, value, some false, afterDelimiter valend⟩
      | none => ⟨key, [], some false, none⟩
  | valbegin =>
      ⟨key, valbegin.takeWhile (!endsValue ·), some true,
        afterDelimiter (valbegin.dropWhile (!endsValue ·))⟩

/-- `parser_nextkeyvaluepair`. -/
def nextkeyvaluepair (q : List Char) : NextPair :=
  if '=' ∈ q then
    let f := q.dropWhile (· = ' ')
    readValue (f.takeWhile (· ≠ '=')) (q.dropWhile (· ≠ '=')).tail
  else ⟨[], [], none, none⟩

lemma length_closing {n : ℕ} {s : List Char} {p : List Char × List Char}
    (h : closing n s = some p) : p.1.length + p.2.length < s.length := by
  have hcons : ∀ {c : Char} {cs : List Char} {o : Option (List Char × List Char)},
      (∀ p, o = some p → p.1.length + p.2.length < cs.length) →
      ∀ p, (o.map fun p => (c :: p.1, p.2)) = some p →
        p.1.length + p.2.length < (c :: cs).length := by
    intro c cs o ho p hp
    obtain ⟨p', hp', rfl⟩ := Option.map_eq_some_iff.mp hp
    have := ho p' hp'
    simp only [List.length_cons]
    omega
  induction s generalizing n p with
  | nil => cases h
  | cons c cs ih =>
      rw [closing] at h
      split_ifs at h
      · exact hcons (fun p hp => ih hp) p h
      · obtain rfl := Option.some.inj h
        simp
      · exact hcons (fun p hp => ih hp) p h
      · exact hcons (fun p hp => ih hp) p h

lemma length_afterDelimiter {s next : List Char} (h : afterDelimiter s = some next) :
    next.length < s.length := by
  cases s with
  | nil => cases h
  | cons c cs =>
      rw [afterDelimiter] at h
      split_ifs at h
      obtain rfl := Option.some.inj h
      exact Nat.lt_succ_self _

/-- The value and the rest are shorter than what they were read from. -/
lemma length_readValue (key w : List Char) :
    (readValue key w).value.length ≤ w.length
      ∧ ∀ next, (readValue key w).next = some next → next.length < w.length := by
  unfold readValue
  split
  · rename_i c
    split
    · rename_i value valend hclosing
      have hlen := length_closing hclosing
      simp only at hlen
      refine ⟨?_, fun next hnext => ?_⟩
      · simp only [List.length_cons]
        omega
      · have := length_afterDelimiter hnext
        simp only [List.length_cons]
        omega
    · refine ⟨Nat.zero_le _, fun next hnext => ?_⟩
      cases hnext
  · refine ⟨(List.takeWhile_sublist _).length_le, fun next hnext => ?_⟩
    exact (length_afterDelimiter hnext).trans_le (List.dropWhile_sublist _).length_le

lemma length_nextkeyvaluepair {q : List Char} (hq : q ≠ []) :
    (nextkeyvaluepair q).value.length < q.length
      ∧ ∀ next, (nextkeyvaluepair q).next = some next → next.length < q.length := by
  have hpos := List.length_pos_iff.mpr hq
  rw [nextkeyvaluepair]
  split_ifs with h
  · have hvalue := length_readValue ((q.dropWhile (· = ' ')).takeWhile (· ≠ '='))
      (q.dropWhile (· ≠ '=')).tail
    have htail : (q.dropWhile (· ≠ '=')).tail.length < q.length := by
      have := (List.dropWhile_sublist (l := q) (· ≠ '=')).length_le
      rw [List.length_tail]
      omega
    exact ⟨hvalue.1.trans_lt htail, fun next hnext => (hvalue.2 next hnext).trans htail⟩
  · exact ⟨hpos, fun next hnext => by cases hnext⟩

/-! ### The grammar -/

mutual

/-- `<Q>`: one or more pairs. -/
inductive Pairs (K S : Type) where
  | last (key : K) (value : Value K S)
  | more (key : K) (value : Value K S) (rest : Pairs K S)

/-- `<V>`: a string, or a sequence in braces. -/
inductive Value (K S : Type) where
  | string (s : S)
  | braced (q : Pairs K S)

end

/-- `<S>`. -/
def Str : Type :=
  { s : List Char // s ≠ [] ∧ ∀ c ∈ s, c ≠ '=' ∧ c ≠ ';' ∧ c ≠ '{' ∧ c ≠ '}' ∧ c ≠ '\n' }

/-- `<K>`, without a blank in front. -/
def Key : Type := { s : Str // s.val.head? ≠ some ' ' }

mutual

/-- The sequence with its keys and strings as plain texts. -/
def Pairs.raw : Pairs Key Str → Pairs (List Char) (List Char)
  | .last key value => .last key.val.val value.raw
  | .more key value rest => .more key.val.val value.raw rest.raw

def Value.raw : Value Key Str → Value (List Char) (List Char)
  | .string s => .string s.val
  | .braced q => .braced q.raw

end

mutual

/-- A sequence as text, without a separator at its end. -/
def Pairs.print : Pairs (List Char) (List Char) → List Char
  | .last key value => key ++ '=' :: value.print
  | .more key value rest => key ++ '=' :: (value.print ++ ';' :: rest.print)

def Value.print : Value (List Char) (List Char) → List Char
  | .string s => s
  | .braced q => '{' :: (q.print ++ ['}'])

end

/-! ### The parser -/

/-- The value of a pair: its text if it is a singleton, and parsed again if not. -/
def parseValue (parse : List Char → Option (Pairs (List Char) (List Char))) (p : NextPair) :
    Option (Value (List Char) (List Char)) :=
  match p.issingleton with
  | some true => some (.string p.value)
  | some false => (parse p.value).map .braced
  | none => none

/-- The calls until `NULL`, with at most `fuel` of them nested. -/
def parseFuel : ℕ → List Char → Option (Pairs (List Char) (List Char))
  | 0, _ => none
  | fuel + 1, q =>
      let p := nextkeyvaluepair q
      (parseValue (parseFuel fuel) p).bind fun value =>
        match p.next with
        | none => some (.last p.key value)
        | some next => (parseFuel fuel next).map (.more p.key value)

/-- A text as a sequence of pairs. -/
def parse (q : List Char) : Option (Pairs (List Char) (List Char)) := parseFuel (q.length + 1) q

/-- Once the fuel is more than the characters, its amount makes no difference. -/
lemma parseFuel_congr {fuel fuel' : ℕ} {q : List Char} (h : q.length < fuel)
    (h' : q.length < fuel') : parseFuel fuel q = parseFuel fuel' q := by
  induction fuel generalizing fuel' q with
  | zero => exact absurd h (Nat.not_lt_zero _)
  | succ fuel ih =>
      obtain ⟨fuel', rfl⟩ := Nat.exists_eq_add_of_le' (show 1 ≤ fuel' by omega)
      rw [parseFuel, parseFuel]
      by_cases hq : q = []
      · subst hq
        rfl
      · obtain ⟨hvalue, hnext⟩ := length_nextkeyvaluepair hq
        have hparse : parseValue (parseFuel fuel) (nextkeyvaluepair q)
            = parseValue (parseFuel fuel') (nextkeyvaluepair q) := by
          rw [parseValue, parseValue, ih (show _ < fuel by omega) (show _ < fuel' by omega)]
        simp only [hparse]
        congr 1
        funext value
        cases hn : (nextkeyvaluepair q).next with
        | none => rfl
        | some next =>
            have := hnext next hn
            simp only [ih (show next.length < fuel by omega) (show _ < fuel' by omega)]

lemma parseFuel_eq {fuel : ℕ} {q : List Char} (h : q.length < fuel) :
    parseFuel fuel q = parse q := parseFuel_congr h (Nat.lt_succ_self _)

/-! ### Printed sequences -/

/-- The text `s` in front of what the loop over the braces found. -/
def prepend (s : List Char) (p : List Char × List Char) : List Char × List Char := (s ++ p.1, p.2)

lemma map_prepend (s t : List Char) (o : Option (List Char × List Char)) :
    (o.map (prepend t)).map (prepend s) = o.map (prepend (s ++ t)) := by
  rw [Option.map_map]
  congr 1
  funext p
  simp [prepend]

lemma map_prepend_nil (o : Option (List Char × List Char)) : o.map (prepend []) = o := by
  cases o <;> rfl

/-- The loop goes over a text without braces. -/
lemma closing_append (n : ℕ) {s : List Char} (hs : ∀ c ∈ s, c ≠ '{' ∧ c ≠ '}' ∧ c ≠ '\n')
    (t : List Char) : closing n (s ++ t) = (closing n t).map (prepend s) := by
  induction s with
  | nil => rw [List.nil_append, map_prepend_nil]
  | cons c s ih =>
      obtain ⟨⟨hopen, hclose, hnewline⟩, hrest⟩ := List.forall_mem_cons.mp hs
      rw [List.cons_append, closing, if_neg hnewline, if_neg hopen, if_neg hclose, ih hrest]
      exact map_prepend [c] s _

lemma closing_open (n : ℕ) (t : List Char) :
    closing n ('{' :: t) = (closing (n + 1) t).map (prepend ['{']) := rfl

lemma closing_close (n : ℕ) (t : List Char) :
    closing (n + 2) ('}' :: t) = (closing (n + 1) t).map (prepend ['}']) := rfl

lemma Str.closing (s : Str) (n : ℕ) (t : List Char) :
    closing n (s.val ++ t) = (closing n t).map (prepend s.val) :=
  closing_append n (fun c hc => ⟨(s.property.2 c hc).2.2.1, (s.property.2 c hc).2.2.2.1,
    (s.property.2 c hc).2.2.2.2⟩) t

lemma closing_char {c : Char} (h : c = '=' ∨ c = ';') (n : ℕ) (t : List Char) :
    closing n (c :: t) = (closing n t).map (prepend [c]) := by
  rcases h with rfl | rfl <;> rfl

mutual

/-- The braces of a printed sequence match: the loop goes over it. -/
lemma Pairs.closing_print (q : Pairs Key Str) (n : ℕ) (t : List Char) :
    closing (n + 1) (q.raw.print ++ t) = (closing (n + 1) t).map (prepend q.raw.print) := by
  cases q with
  | last key value =>
      rw [Pairs.raw, Pairs.print, List.append_assoc, Str.closing, List.cons_append,
        closing_char (Or.inl rfl), Value.closing_print value n t]
      simp only [map_prepend, List.singleton_append]
  | more key value rest =>
      rw [Pairs.raw, Pairs.print, List.append_assoc, Str.closing, List.cons_append,
        List.append_assoc, List.cons_append, closing_char (Or.inl rfl),
        Value.closing_print value n, closing_char (Or.inr rfl), Pairs.closing_print rest n t]
      simp only [map_prepend, List.singleton_append]

lemma Value.closing_print (v : Value Key Str) (n : ℕ) (t : List Char) :
    closing (n + 1) (v.raw.print ++ t) = (closing (n + 1) t).map (prepend v.raw.print) := by
  cases v with
  | string s => exact s.closing (n + 1) t
  | braced q =>
      rw [Value.raw, Value.print, List.cons_append, List.append_assoc, closing_open,
        Pairs.closing_print q (n + 1), List.singleton_append, closing_close]
      simp only [map_prepend, List.cons_append, List.nil_append]

end

/-- The scanner finds the key in front of the first `=`. -/
lemma nextkeyvaluepair_key {key : List Char} (hne : key ≠ []) (heq : '=' ∉ key)
    (hblank : key.head? ≠ some ' ') (w : List Char) :
    nextkeyvaluepair (key ++ '=' :: w) = readValue key w := by
  have hall : ∀ c ∈ key, decide (c ≠ '=') = true :=
    fun c hc => decide_eq_true fun h => heq (h ▸ hc)
  have hleading : (key ++ '=' :: w).dropWhile (· = ' ') = key ++ '=' :: w := by
    cases key with
    | nil => exact absurd rfl hne
    | cons c key =>
        have hc : c ≠ ' ' := fun h => hblank (congrArg some h)
        rw [List.cons_append, List.dropWhile_cons_of_neg (by simpa using hc)]
  rw [nextkeyvaluepair, if_pos (by simp)]
  simp only [hleading]
  rw [List.takeWhile_append_of_pos hall, List.takeWhile_cons_of_neg (by simp), List.append_nil,
    List.dropWhile_append_of_pos hall, List.dropWhile_cons_of_neg (by simp), List.tail_cons]

lemma Key.nextkeyvaluepair (k : Key) (w : List Char) :
    nextkeyvaluepair (k.val.val ++ '=' :: w) = readValue k.val.val w :=
  nextkeyvaluepair_key k.val.property.1
    (fun h => (k.val.property.2 '=' h).1 rfl) k.property w

/-- The text of a value, in braces or not. -/
def Value.text : Value (List Char) (List Char) → List Char
  | .string s => s
  | .braced q => q.print

def Value.isSingleton : Value (List Char) (List Char) → Bool
  | .string _ => true
  | .braced _ => false

/-- A singleton ends at the first delimiter. -/
lemma readValue_singleton (key : List Char) {s rest : List Char} (hopen : s.head? ≠ some '{')
    (hne : s ≠ []) (hs : ∀ c ∈ s, endsValue c = false)
    (hrest : ∀ c ∈ rest.head?, endsValue c = true) :
    readValue key (s ++ rest) = ⟨key, s, some true, afterDelimiter rest⟩ := by
  have hall : ∀ c ∈ s, (!endsValue c) = true := fun c hc => by rw [hs c hc]; rfl
  have hstop : rest.takeWhile (!endsValue ·) = [] ∧ rest.dropWhile (!endsValue ·) = rest := by
    cases rest with
    | nil => exact ⟨rfl, rfl⟩
    | cons c rest =>
        have hc := hrest c rfl
        exact ⟨List.takeWhile_cons_of_neg (by simp [hc]), List.dropWhile_cons_of_neg (by simp [hc])⟩
  unfold readValue
  split
  · rename_i c hc
    cases s with
    | nil => exact absurd rfl hne
    | cons d s =>
        injection hc with hd
        exact absurd (congrArg some hd) hopen
  · rw [List.takeWhile_append_of_pos hall, List.dropWhile_append_of_pos hall, hstop.1, hstop.2,
      List.append_nil]

/-- The scanner reads a printed value up to its end, which is that of the text or a
separator. -/
lemma readValue_print (key : List Char) (v : Value Key Str) {rest : List Char}
    (hrest : ∀ c ∈ rest.head?, c = ';') :
    readValue key (v.raw.print ++ rest)
      = ⟨key, v.raw.text, some v.raw.isSingleton, afterDelimiter rest⟩ := by
  cases v with
  | string s =>
      obtain ⟨hne, hs⟩ := s.property
      refine readValue_singleton key ?_ hne ?_ ?_
      · intro h
        exact (hs '{' (List.mem_of_mem_head? h)).2.2.1 rfl
      · intro c hc
        obtain ⟨-, hsemi, -, hclose, hnewline⟩ := hs c hc
        simp [endsValue, hsemi, hclose, hnewline]
      · intro c hc
        rw [hrest c hc]
        rfl
  | braced q =>
      have hclosing : closing 1 (q.raw.print ++ '}' :: rest) = some (q.raw.print, rest) := by
        have h := q.closing_print 0 ('}' :: rest)
        have hend : closing 1 ('}' :: rest) = some ([], rest) := rfl
        rw [hend] at h
        simpa [prepend] using h
      have htext : (Value.braced q : Value Key Str).raw.print ++ rest
          = '{' :: (q.raw.print ++ '}' :: rest) := by
        simp [Value.raw, Value.print]
      rw [htext, readValue, hclosing]
      rfl

mutual

/-- Enough fuel parses a printed sequence. -/
lemma Pairs.parseFuel_print (q : Pairs Key Str) {fuel : ℕ} (h : q.raw.print.length < fuel) :
    parseFuel fuel q.raw.print = some q.raw := by
  obtain ⟨fuel, rfl⟩ := Nat.exists_eq_add_of_le' (show 1 ≤ fuel by omega)
  cases q with
  | last key value =>
      rw [Pairs.raw, Pairs.print, List.length_append, List.length_cons] at h
      have hnext := key.nextkeyvaluepair value.raw.print
      have hread : readValue key.val.val (value.raw.print ++ []) = _ :=
        readValue_print key.val.val value (by simp)
      have hlen : value.raw.print.length < fuel := by omega
      have hvalue := value.parseValue_print key.val.val none hlen
      rw [List.append_nil] at hread
      rw [Pairs.raw, Pairs.print, parseFuel]
      simp only [hnext, hread]
      rw [show afterDelimiter [] = none from rfl, hvalue]
      rfl
  | more key value rest =>
      rw [Pairs.raw, Pairs.print, List.length_append, List.length_cons, List.length_append,
        List.length_cons] at h
      have hnext := key.nextkeyvaluepair (value.raw.print ++ ';' :: rest.raw.print)
      have hread : readValue key.val.val (value.raw.print ++ ';' :: rest.raw.print) = _ :=
        readValue_print key.val.val value (by simp)
      have hlen : value.raw.print.length < fuel ∧ rest.raw.print.length < fuel := by omega
      have hvalue := value.parseValue_print key.val.val (some rest.raw.print) hlen.1
      have hrest := rest.parseFuel_print hlen.2
      rw [Pairs.raw, Pairs.print, parseFuel]
      simp only [hnext, hread]
      rw [show afterDelimiter (';' :: rest.raw.print) = some rest.raw.print from rfl, hvalue]
      simp only [Option.bind_some, hrest, Option.map_some]

lemma Value.parseValue_print (v : Value Key Str) (key : List Char) (next : Option (List Char))
    {fuel : ℕ} (h : v.raw.print.length < fuel) :
    parseValue (parseFuel fuel) ⟨key, v.raw.text, some v.raw.isSingleton, next⟩ = some v.raw := by
  cases v with
  | string s => rfl
  | braced q =>
      rw [Value.raw, Value.print, List.length_cons, List.length_append] at h
      have hlen : q.raw.print.length < fuel := by omega
      have hq := q.parseFuel_print hlen
      rw [Value.raw, Value.text, Value.isSingleton, parseValue]
      simp only [hq, Option.map_some]

end

/-- Parsing a printed sequence of pairs gives it back, with its order, its nesting
and the kinds of its values. -/
theorem parse_print (q : Pairs Key Str) : parse q.raw.print = some q.raw :=
  q.parseFuel_print (Nat.lt_succ_self _)

end KubeSafeScheduler.Pigeon.Parser
