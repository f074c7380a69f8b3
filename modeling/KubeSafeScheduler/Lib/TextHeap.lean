import KubeSafeScheduler.Lib.Buffer

/-!
A heap of blocks of characters, and the functions of C for texts that end with a
null character.

A call stops when memory is refused and the answer is asserted, and on an access
that is not inside a live block. Which requests are granted, and what stands in the
new cells, is a parameter.

* `TextHeap`: `malloc`, `realloc`, `free`, `write`; `strlen`, `strcat`.
* `Spans`: a block has a text, a null character and further cells;
  `strlen_of_spans`, `strcat_of_spans`.
* `strcat_ne_ok`: a text that does not fit is never appended.
-/

namespace KubeSafeScheduler

/-- Why a call does not come back: memory of so many bytes was refused, an access was
not inside a live block, a number did not fit its type, or a loop does not end. -/
inductive Crash where
  | refused (request : ℕ)
  | invalid
  | overflow
  | running
  deriving DecidableEq

/-- The null character. -/
def nul : Char := Char.ofNat 0

/-- The live blocks with their cells, and the first address that was never used. -/
structure TextHeap where
  block : ℕ → Option (List Char)
  next : ℕ

/-- What is answered to a request for the block of an address: nothing, or the
characters of its new cells. -/
abbrev Grant := ℕ → ℕ → Option (ℕ → Char)

/-- The program stops because a request was refused. -/
def Grant.Refuses (grant : Grant) : Crash → Prop
  | .refused request => ∃ p, grant p request = none
  | _ => False

namespace TextHeap

/-! ### The functions -/

/-- `malloc`, and the assertion that it did not fail. -/
def malloc (grant : Grant) (h : TextHeap) (request : ℕ) : Except Crash (ℕ × TextHeap) :=
  match grant h.next request with
  | none => .error (.refused request)
  | some fresh => .ok (h.next,
      { block := Function.update h.block h.next (some ((List.range request).map fresh))
        next := h.next + 1 })

/-- `free`. -/
def free (h : TextHeap) (p : ℕ) : Except Crash TextHeap :=
  if (h.block p).isSome then .ok { h with block := Function.update h.block p none }
  else .error .invalid

/-- `realloc`, and the assertion that it did not fail: the block moves to a new
address and keeps its cells as far as they fit. -/
def realloc (grant : Grant) (h : TextHeap) (p request : ℕ) : Except Crash (ℕ × TextHeap) :=
  match h.block p with
  | none => .error .invalid
  | some cells =>
      match grant h.next request with
      | none => .error (.refused request)
      | some fresh => .ok (h.next,
          { block := Function.update (Function.update h.block p none) h.next
              (some (cells.take request ++ ((List.range request).drop cells.length).map fresh))
            next := h.next + 1 })

/-- A character is written to a cell. -/
def write (h : TextHeap) (p i : ℕ) (c : Char) : Except Crash TextHeap :=
  match h.block p with
  | none => .error .invalid
  | some cells =>
      if i < cells.length then
        .ok { h with block := Function.update h.block p (some (cells.set i c)) }
      else .error .invalid

/-- `strlen`: the cells up to a null character are read. -/
def strlen (h : TextHeap) (p : ℕ) : Except Crash ℕ :=
  match h.block p with
  | none => .error .invalid
  | some cells => (cells.findIdx? (· = nul)).elim (.error .invalid) .ok

/-- Characters are written from a cell on. -/
def writeAll (p : ℕ) : List Char → ℕ → TextHeap → Except Crash TextHeap
  | [], _, h => .ok h
  | c :: cs, i, h => do
      let h ← h.write p i c
      writeAll p cs (i + 1) h

/-- `strcat`. -/
def strcat (h : TextHeap) (p : ℕ) (string : List Char) : Except Crash TextHeap := do
  let len ← h.strlen p
  writeAll p (string ++ [nul]) len h

/-! ### Memory -/

variable {grant : Grant} {h : TextHeap} {p : ℕ}

lemma malloc_spec (grant : Grant) (h : TextHeap) (request : ℕ) :
    Ends (fun r => r.1 = h.next ∧ r.2.next = h.next + 1
        ∧ (∃ cells, r.2.block h.next = some cells ∧ cells.length = request)
        ∧ ∀ q, q ≠ h.next → r.2.block q = h.block q)
      grant.Refuses (h.malloc grant request) := by
  rw [malloc]
  cases hgrant : grant h.next request with
  | none => exact ⟨h.next, hgrant⟩
  | some fresh =>
      refine ⟨rfl, rfl, ⟨_, Function.update_self _ _ _, ?_⟩, fun q hq => ?_⟩
      · rw [List.length_map, List.length_range]
      · exact Function.update_of_ne hq _ _

lemma free_spec (hlive : (h.block p).isSome) :
    h.free p = .ok { h with block := Function.update h.block p none } := by
  rw [free, if_pos hlive]

/-! ### Texts in blocks -/

/-- The block has the text, a null character, and `room` further cells. -/
def Spans (h : TextHeap) (p : ℕ) (text : List Char) (room : ℕ) : Prop :=
  nul ∉ text ∧ ∃ rest, h.block p = some (text ++ nul :: rest) ∧ rest.length = room

variable {text : List Char} {room : ℕ}

lemma strlen_of_spans (hs : h.Spans p text room) : h.strlen p = .ok text.length := by
  obtain ⟨hplain, rest, hblock, -⟩ := hs
  have hfind : (text ++ nul :: rest).findIdx? (· = nul) = some text.length := by
    have hnone : text.findIdx? (· = nul) = none := by
      rw [List.findIdx?_eq_none_iff]
      intro c hc
      rw [decide_eq_false_iff_not]
      rintro rfl
      exact hplain hc
    rw [List.findIdx?_append, hnone]
    simp [List.findIdx?_cons]
  rw [strlen, hblock]
  simp only [hfind]
  rfl

/-- A null character at the front is the empty text. -/
lemma write_nul {cells : List Char} {room : ℕ} (hblock : h.block p = some cells)
    (hlen : cells.length = room + 1) : ∃ h', h.write p 0 nul = .ok h' ∧ h'.next = h.next
      ∧ h'.Spans p [] room ∧ ∀ q, q ≠ p → h'.block q = h.block q := by
  obtain ⟨c, rest, rfl⟩ := List.exists_cons_of_length_eq_add_one hlen
  refine ⟨{ h with block := Function.update h.block p (some (nul :: rest)) }, ?_, rfl,
    ⟨List.not_mem_nil, rest, Function.update_self _ _ _, by simpa using hlen⟩,
    fun q hq => Function.update_of_ne hq _ _⟩
  rw [write, hblock]
  exact if_pos (Nat.zero_lt_succ _)

/-- `realloc` to a block that has room for the text. -/
lemma realloc_of_spans (grant : Grant) (hs : h.Spans p text room) (hp : p ≠ h.next)
    {request room' : ℕ} (hfit : text.length + 1 + room' = request) (hmore : room ≤ room') :
    Ends (fun r => r.1 = h.next ∧ r.2.next = h.next + 1 ∧ r.2.Spans h.next text room'
        ∧ r.2.block p = none ∧ ∀ q, q ≠ p → q ≠ h.next → r.2.block q = h.block q)
      grant.Refuses (h.realloc grant p request) := by
  obtain ⟨hplain, rest, hblock, hroom⟩ := hs
  rw [realloc, hblock]
  cases hgrant : grant h.next request with
  | none => exact ⟨h.next, hgrant⟩
  | some fresh =>
      have hcells : (text ++ nul :: rest).length ≤ request := by
        simp only [List.length_append, List.length_cons]
        omega
      refine ⟨rfl, rfl, ⟨hplain,
        rest ++ ((List.range request).drop (text ++ nul :: rest).length).map fresh, ?_, ?_⟩, ?_,
        fun q hq hnext => ?_⟩
      · refine (Function.update_self _ _ _).trans (congrArg some ?_)
        rw [List.take_of_length_le hcells, List.append_assoc, List.cons_append]
      · simp only [List.length_append, List.length_cons, List.length_map, List.length_drop,
          List.length_range]
        omega
      · exact (Function.update_of_ne hp _ _).trans (Function.update_self _ _ _)
      · exact (Function.update_of_ne hnext _ _).trans (Function.update_of_ne hq _ _)

/-- Characters replace as many cells. -/
lemma writeAll_eq (cs : List Char) {front mid rest : List Char} {h : TextHeap}
    (hblock : h.block p = some (front ++ mid ++ rest)) (hmid : mid.length = cs.length) :
    writeAll p cs front.length h
      = .ok { h with block := Function.update h.block p (some (front ++ cs ++ rest)) } := by
  induction cs generalizing front mid h with
  | nil =>
      obtain rfl := List.length_eq_zero_iff.mp hmid
      have hsame : Function.update h.block p (some (front ++ [] ++ rest)) = h.block := by
        rw [← hblock, Function.update_eq_self]
      rw [writeAll, hsame]
  | cons c cs ih =>
      obtain ⟨m, mid, rfl⟩ := List.exists_cons_of_length_eq_add_one hmid
      have hset : (front ++ m :: mid ++ rest).set front.length c
          = (front ++ [c]) ++ mid ++ rest := by
        simp
      have hwrite : h.write p front.length c = .ok { h with
          block := Function.update h.block p (some ((front ++ [c]) ++ mid ++ rest)) } := by
        rw [write, hblock]
        simp only [hset]
        rw [if_pos (by simp)]
      have hrest := ih (h := { h with
        block := Function.update h.block p (some ((front ++ [c]) ++ mid ++ rest)) })
        (Function.update_self _ _ _) (by simpa using hmid)
      rw [writeAll, hwrite]
      rw [List.length_append, List.length_singleton] at hrest
      refine hrest.trans ?_
      simp [Function.update_idem]

/-- `strcat` of a text that fits. -/
lemma strcat_of_spans (hs : h.Spans p text room) {string : List Char} (hplain : nul ∉ string)
    (hfit : string.length ≤ room) : ∃ h', h.strcat p string = .ok h' ∧ h'.next = h.next
      ∧ h'.Spans p (text ++ string) (room - string.length)
      ∧ ∀ q, q ≠ p → h'.block q = h.block q := by
  obtain ⟨htext, rest, hblock, hroom⟩ := hs
  have hcells : h.block p = some (text ++ (nul :: rest).take (string ++ [nul]).length
      ++ (nul :: rest).drop (string ++ [nul]).length) := by
    rw [List.append_assoc, List.take_append_drop]
    exact hblock
  have hwritten := writeAll_eq (string ++ [nul]) hcells (by
    have hcount : (string ++ [nul]).length ≤ (nul :: rest).length := by
      simpa [hroom] using hfit
    rw [List.length_take, Nat.min_eq_left hcount])
  refine ⟨{ h with block := Function.update h.block p (some (text ++ (string ++ [nul])
      ++ (nul :: rest).drop (string ++ [nul]).length)) }, ?_, rfl,
    ⟨?_, (nul :: rest).drop (string ++ [nul]).length, ?_, ?_⟩, fun q hq => ?_⟩
  · rw [strcat, strlen_of_spans ⟨htext, rest, hblock, hroom⟩]
    exact hwritten
  · rw [List.mem_append, not_or]
    exact ⟨htext, hplain⟩
  · simp
  · simp [hroom]
  · exact Function.update_of_ne hq _ _

/-- Writing past the last cell stops the program. -/
lemma writeAll_ne_ok (cs : List Char) {i : ℕ} {cells : List Char} {h : TextHeap}
    (hblock : h.block p = some cells) (hlen : cells.length < i + cs.length) (hne : cs ≠ [])
    (h' : TextHeap) : writeAll p cs i h ≠ .ok h' := by
  induction cs generalizing i cells h with
  | nil => exact absurd rfl hne
  | cons c cs ih =>
      rw [writeAll, write, hblock]
      by_cases hi : i < cells.length
      · simp only [hi, if_true]
        refine ih (Function.update_self _ _ _) ?_ ?_
        · rw [List.length_set]
          rw [List.length_cons] at hlen
          omega
        · rintro rfl
          rw [List.length_singleton] at hlen
          omega
      · simp only [hi, if_false]
        nofun

/-- A text that does not fit is not appended. -/
lemma strcat_ne_ok (hs : h.Spans p text room) {string : List Char} (hlong : room < string.length)
    (h' : TextHeap) : h.strcat p string ≠ .ok h' := by
  rw [strcat, strlen_of_spans hs]
  obtain ⟨-, rest, hblock, hroom⟩ := hs
  refine writeAll_ne_ok _ hblock ?_ (by simp) h'
  simp only [List.length_append, List.length_cons, List.length_nil]
  omega

end TextHeap

end KubeSafeScheduler
