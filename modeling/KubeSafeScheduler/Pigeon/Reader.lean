import KubeSafeScheduler.Pigeon.Agent
import KubeSafeScheduler.Utils.HashmapRefinement

/-!
`replay/properties.c`, `replay/reader.c` and `parser_decode_int`: the
configuration file of the agent; and what `NewClient` reads of the environment.

A file is a list of bytes. A byte of a key or a value is the character of its
number, and a text ends before its first zero byte. A key that does not fit its
buffer, which is undefined in C, is a result of `none`, and so is an insertion
into the hash table that does not end.

* `Properties.lines`: the rounds of `fgets`; nothing of the file is lost
  (`flatten_lines`) and every round fits the buffer (`length_of_mem_lines`).
* `Properties.readLine`, `readfromfile`, `Reader.create`.
* `Properties.Spec`: the file as the map of its lines, the last one of a key
  counting; `get_readfromfile`: a file that is read gives that map.
* `parserDecodeInt`: `sscanf` with the format `%d`.
* `numResourcesOf`: the number of resources, from 1 to 5 (`numResourcesOf_bounds`).
-/

namespace KubeSafeScheduler.Pigeon

open Utils (Hashmap Rand)

/-! ### The property list -/

namespace Properties

/-- The rounds of `fgets` with a buffer of `PROP_MAX_LINE_LENGTH` bytes, `line`
being what the current one has read, last byte first. -/
def lines (line : List UInt8) : List UInt8 → List (List UInt8)
  | [] => if line = [] then [] else [line.reverse]
  | c :: content =>
      if c = '\n'.toUInt8 ∨ line.length + 1 = 4095 then (c :: line).reverse :: lines [] content
      else lines (c :: line) content

/-- The bytes of a buffer before the first zero. -/
def cString (s : List UInt8) : List UInt8 := s.takeWhile (· ≠ 0)

/-- The text of a list of bytes. -/
def textOf (s : List UInt8) : String := String.ofList (s.map Char.ofUInt8)

/-- The value of a line: what comes after the first `=` and the blanks behind
it, up to the end of the line. -/
def valueOf (s : List UInt8) : List UInt8 :=
  (((s.dropWhile (· ≠ '='.toUInt8)).tail).dropWhile (· = ' '.toUInt8)).takeWhile
    (· ≠ '\n'.toUInt8)

/-- One round of the loop of `properties_readfromfile`. The key, what comes
before the first `=`, goes to a buffer of `PROP_MAX_KEY_LENGTH` bytes, where it
is cut at its first blank. -/
def readLine (p : Hashmap String) (line : List UInt8) : Option (Hashmap String) :=
  if line.head? = some '#'.toUInt8 ∨ line.head? = some '\n'.toUInt8 then some p
  else
    let s := cString line
    if '='.toUInt8 ∈ s then
      let k := s.takeWhile (· ≠ '='.toUInt8)
      if k.length < 64 then
        p.insert (textOf (valueOf s)) (textOf (k.takeWhile (· ≠ ' '.toUInt8)))
      else none
    else some p

/-- `properties_readfromfile` into a new list, for a file that can be opened. -/
def readfromfile (rand : Rand) (content : List UInt8) : Option (Hashmap String) :=
  (lines [] content).foldlM readLine (Hashmap.create rand)

/-- The rounds of `fgets` read the whole file. -/
lemma flatten_lines (line content : List UInt8) :
    (lines line content).flatten = line.reverse ++ content := by
  induction content generalizing line with
  | nil =>
      rw [lines]
      split_ifs with hline
      · rw [hline]
        rfl
      · simp
  | cons c content ih =>
      rw [lines]
      split_ifs
      · rw [List.flatten_cons, ih]
        simp
      · rw [ih]
        simp

/-- What `fgets` reads in one round fits the buffer, with the zero behind it. -/
lemma length_of_mem_lines {line content : List UInt8} (hline : line.length < 4095)
    {s : List UInt8} (hs : s ∈ lines line content) : s.length < 4096 := by
  induction content generalizing line with
  | nil =>
      rw [lines] at hs
      split_ifs at hs
      · cases hs
      · rw [List.mem_singleton.mp hs, List.length_reverse]
        omega
  | cons c content ih =>
      rw [lines] at hs
      split_ifs at hs with hend
      · rcases List.mem_cons.mp hs with rfl | hs
        · rw [List.length_reverse, List.length_cons]
          omega
        · exact ih (by simp) hs
      · rw [not_or] at hend
        refine ih ?_ hs
        rw [List.length_cons]
        omega

/-- The buffer of the value is never overrun. -/
lemma length_valueOf_lt {line content s : List UInt8} (hline : line.length < 4095)
    (hs : s ∈ lines line content) : (valueOf (cString s)).length < 4096 := by
  have hsub : (valueOf (cString s)).Sublist s :=
    (List.takeWhile_sublist _).trans ((List.dropWhile_sublist _).trans
      ((List.tail_sublist _).trans ((List.dropWhile_sublist _).trans (List.takeWhile_sublist _))))
  exact hsub.length_le.trans_lt (length_of_mem_lines hline hs)

/-! ### The property list as a map -/

/-- The key and the value that a line sets. -/
def Spec.entry (line : List UInt8) : Option (String × String) :=
  if line.head? = some '#'.toUInt8 ∨ line.head? = some '\n'.toUInt8 then none
  else if '='.toUInt8 ∈ cString line then
    some (textOf (((cString line).takeWhile (· ≠ '='.toUInt8)).takeWhile (· ≠ ' '.toUInt8)),
      textOf (valueOf (cString line)))
  else none

/-- The map of the lines of a file: later lines replace earlier ones. -/
def Spec.map (content : List UInt8) : StringMap String :=
  ((lines [] content).filterMap Spec.entry).foldl (fun m kv => m.insert kv.1 kv.2) ∅

/-- A line that is read sets its entry, if it has one. -/
lemma holds_readLine {p p' : Hashmap String} {m : StringMap String} (h : p.Holds m)
    (ht : p.Tight) {line : List UInt8} (hread : readLine p line = some p') :
    p'.Holds ((Spec.entry line).toList.foldl (fun m kv => m.insert kv.1 kv.2) m) ∧ p'.Tight := by
  simp only [readLine] at hread
  rw [Spec.entry]
  split_ifs at hread ⊢
  · obtain rfl := Option.some.inj hread
    exact ⟨h, ht⟩
  · obtain ⟨h1, h2, -⟩ :=
      Hashmap.Holds.insertFuel_spec 32 true h (h.unobstructed_of_tight ht _) hread
    exact ⟨h1, h2 ht⟩
  · obtain rfl := Option.some.inj hread
    exact ⟨h, ht⟩

lemma holds_foldlM {p p' : Hashmap String} {m : StringMap String} (h : p.Holds m) (ht : p.Tight)
    (ls : List (List UInt8)) (hread : ls.foldlM readLine p = some p') :
    p'.Holds ((ls.filterMap Spec.entry).foldl (fun m kv => m.insert kv.1 kv.2) m) := by
  induction ls generalizing p m with
  | nil =>
      obtain rfl := Option.some.inj hread
      exact h
  | cons line ls ih =>
      rw [List.foldlM_cons, Option.bind_eq_bind, Option.bind_eq_some_iff] at hread
      obtain ⟨p₁, hline, hrest⟩ := hread
      obtain ⟨h1, h2⟩ := holds_readLine h ht hline
      have hcons : (line :: ls).filterMap Spec.entry
          = (Spec.entry line).toList ++ ls.filterMap Spec.entry := by
        rw [List.filterMap_cons]
        cases Spec.entry line with
        | none => rfl
        | some kv => rfl
      rw [hcons, List.foldl_append]
      exact ih h1 h2 hrest

/-- The property list of a file that is read is the map of its lines, whatever
the size of the table. -/
theorem get_readfromfile {rand : Rand} {content : List UInt8} {p : Hashmap String}
    (hread : readfromfile rand content = some p) (key : String) :
    p.get key = (Spec.map content).get key :=
  (holds_foldlM (Hashmap.holds_create rand) (fun _ hi => absurd rfl hi) _ hread).get_eq key

end Properties

/-! ### The reader -/

/-- `isspace` in the locale of C. -/
def isspace (c : Char) : Bool :=
  c = ' ' ∨ c = '\t' ∨ c = '\n' ∨ c = '\x0b' ∨ c = '\x0c' ∨ c = '\r'

/-- `parser_decode_int`: without digits the value stays zero; a number is cut to
the nearest one of 64 bits, and then to 32 bits. -/
def parserDecodeInt (s : String) : ℤ :=
  let (neg, cs) := match s.toList.dropWhile isspace with
    | '-' :: cs => (true, cs)
    | '+' :: cs => (false, cs)
    | cs => (false, cs)
  let digits := cs.takeWhile Char.isDigit
  if digits = [] then 0
  else
    let n : ℤ := Nat.ofDigitChars 10 digits 0
    toInt32 (if neg then max (-n) (-2 ^ 63) else min n (2 ^ 63 - 1))

/-- The policy resource index of a property list; zero is the default. -/
def Properties.policyResourceIndex (p : Hashmap String) : ℤ :=
  match p.get "policyResourceIndex" with
  | some value => parserDecodeInt value
  | none => 0

/-- The policy objective of a property list; `A_BINPACK` is the default. -/
def Properties.policyObjective (p : Hashmap String) : ObjectiveType :=
  match p.get "policyObjective" with
  | some value => objtypeFromstring (some value)
  | none => .aBinpack

/-- `reader_create`, for a file that can be opened. -/
def Reader.create (rand : Rand) (content : List UInt8) : Option (ℤ × ObjectiveType) :=
  (Properties.readfromfile rand content).map fun p =>
    (Properties.policyResourceIndex p, Properties.policyObjective p)

/-! ### The environment -/

/-- `numResources` of `NewClient`, from the environment variable
`NUM_RESOURCES`, which is empty when it is not set. -/
def numResourcesOf (numResourcesValue : String) : ℕ :=
  if 0 < numResourcesValue.length then
    match parseIntChecked numResourcesValue with
    | .ok numv => if 0 < numv ∧ numv ≤ 5 then numv.toNat else 2
    | .error _ => 2
  else 2

lemma numResourcesOf_bounds (value : String) :
    0 < numResourcesOf value ∧ numResourcesOf value ≤ 5 := by
  unfold numResourcesOf
  split_ifs
  · split
    · split_ifs
      · omega
      · omega
    · omega
  · omega

end KubeSafeScheduler.Pigeon
