import KubeSafeScheduler.Lib.Exact
import KubeSafeScheduler.Lib.TextHeap

/-!
`utils/stringbuffer.c`: a text that grows, in a block that is doubled when it is full.

* `Stringbuffer`, `create`, `destroy`, `append`, `getstring`, `reset`, over a heap
  `TextHeap`. `growLoop` is the loop that doubles the size.
* `Owns`: the invariant. The size is `64 * 2^k` and at most `2^30`, the block has that
  many cells and holds the text, and nothing else of the heap has changed.
* `create_ends`, `append_ends`, `finish_ends`: what the operations keep. A text of `2^30`
  characters or more is never held, since the size would leave the 32 bits.
-/

namespace KubeSafeScheduler.Utils

/-- `stringbuffer`: where the record is, where the text is, and `bufsize`. -/
structure Stringbuffer where
  self : ℕ
  s : ℕ
  bufsize : ℤ

namespace Stringbuffer

/-! ### The operations -/

/-- `INITIAL_SIZE`. -/
def initialSize : ℕ := 64

/-- `stringbuffer_create`. -/
def create (grant : Grant) (h : TextHeap) : Except Crash (Stringbuffer × TextHeap) := do
  let (self, h) ← h.malloc grant 16
  let (s, h) ← h.malloc grant initialSize
  let h ← h.write s 0 nul
  .ok (⟨self, s, initialSize⟩, h)

/-- `bufsize *= 2`. -/
@[irreducible] def doubled (bufsize : ℤ) : Except Crash ℤ :=
  if toInt32 (bufsize * 2) = bufsize * 2 then .ok (bufsize * 2) else .error .overflow

/-- `while (desiredlength >= bufsize)`. In 32 rounds every size but 0 has been too
large, and 0 stays. -/
def growLoop (desiredlength : ℤ) : ℕ → ℤ → Except Crash ℤ
  | 0, _ => .error .running
  | fuel + 1, bufsize =>
      if desiredlength ≥ bufsize then do
        let bufsize ← doubled bufsize
        growLoop desiredlength fuel bufsize
      else .ok bufsize

/-- `int desiredlength`: the sum of two lengths. -/
def desiredLength (m n : ℕ) : ℤ := toInt32 (m + n : ℕ)

/-- The block is made longer than a length. -/
def extend (grant : Grant) (sb : Stringbuffer) (desiredlength : ℤ) (h : TextHeap) :
    Except Crash (Stringbuffer × TextHeap) :=
  if desiredlength ≥ sb.bufsize then do
    let bufsize ← doubled sb.bufsize
    let bufsize ← growLoop desiredlength 32 bufsize
    let (s, h) ← h.realloc grant sb.s (bufsize % 2 ^ 64).toNat
    .ok ({ sb with s, bufsize }, h)
  else .ok (sb, h)

/-- `stringbuffer_extend_if_short`. -/
def extendIfShort (grant : Grant) (sb : Stringbuffer) (string : List Char) (h : TextHeap) :
    Except Crash (Stringbuffer × TextHeap) := do
  let len ← h.strlen sb.s
  extend grant sb (desiredLength len string.length) h

/-- `stringbuffer_append`, of a string that is not to be freed. -/
def append (grant : Grant) (sb : Stringbuffer) (string : List Char) (h : TextHeap) :
    Except Crash (Stringbuffer × TextHeap) := do
  let (sb, h) ← extendIfShort grant sb string h
  let h ← h.strcat sb.s string
  .ok (sb, h)

/-- `stringbuffer_getstring`. -/
def getstring (sb : Stringbuffer) : ℕ := sb.s

/-- `stringbuffer_reset`: a new block, and the old one is not freed. -/
def reset (grant : Grant) (sb : Stringbuffer) (h : TextHeap) :
    Except Crash (Stringbuffer × TextHeap) := do
  let (s, h) ← h.malloc grant initialSize
  let h ← h.write s 0 nul
  .ok ({ sb with s, bufsize := initialSize }, h)

/-- `stringbuffer_destroy`. -/
def destroy (sb : Stringbuffer) (h : TextHeap) : Except Crash TextHeap := do
  let h ← h.free sb.s
  h.free sb.self

/-- How the encoders end: the text is taken out before the buffer is destroyed. -/
def finish (grant : Grant) (sb : Stringbuffer) (h : TextHeap) : Except Crash (ℕ × TextHeap) := do
  let t := sb.getstring
  let (sb, h) ← sb.reset grant h
  let h ← sb.destroy h
  .ok (t, h)

/-! ### The size -/

/-- A size that doubling can give. -/
def IsSize (bufsize : ℤ) : Prop := ∃ k ≤ 24, bufsize = 64 * 2 ^ k

lemma IsSize.bounds {bufsize : ℤ} (h : IsSize bufsize) : 64 ≤ bufsize ∧ bufsize ≤ 2 ^ 30 := by
  obtain ⟨k, hk, rfl⟩ := h
  have hone : (1 : ℤ) ≤ 2 ^ k := one_le_pow₀ (by omega)
  have htop : (2 : ℤ) ^ k ≤ 2 ^ 24 := pow_le_pow_right₀ (by omega) hk
  omega

/-- Only the largest size cannot be doubled. -/
lemma doubled_size {k : ℕ} (hk : k ≤ 24) :
    k < 24 ∧ doubled (64 * 2 ^ k) = .ok (64 * 2 ^ (k + 1))
      ∨ (64 * 2 ^ k : ℤ) = 2 ^ 30 ∧ doubled (64 * 2 ^ k) = .error .overflow := by
  rcases hk.lt_or_eq with hlt | rfl
  · have hsize := IsSize.bounds ⟨k + 1, hlt, rfl⟩
    have hdouble : (64 * 2 ^ k * 2 : ℤ) = 64 * 2 ^ (k + 1) := by
      rw [pow_succ, mul_assoc]
    refine .inl ⟨hlt, ?_⟩
    rw [doubled, hdouble, if_pos (toInt32_of_range (by omega) (by omega))]
  · refine .inr ⟨rfl, ?_⟩
    rw [doubled]
    rfl

/-- The loop ends with a size above the length, and at most twice the length, unless
the length is beyond all sizes. -/
lemma growLoop_ends {desiredlength bound : ℤ} {k : ℕ} (hk : k ≤ 24)
    (hbound : 64 * 2 ^ k ≤ bound) (htwice : desiredlength * 2 ≤ bound) {fuel : ℕ}
    (hfuel : 24 < fuel + k) :
    Ends (fun b => IsSize b ∧ desiredlength < b ∧ b ≤ bound) (fun _ => 2 ^ 30 ≤ desiredlength)
      (growLoop desiredlength fuel (64 * 2 ^ k)) := by
  induction fuel generalizing k with
  | zero => omega
  | succ fuel ih =>
      rw [growLoop]
      split_ifs with hshort
      · rcases doubled_size hk with ⟨hlt, hnext⟩ | ⟨hlast, hstop⟩
        · refine Ends.of_ok hnext (ih hlt ?_ (by omega))
          rw [pow_succ]
          omega
        · rw [hstop]
          exact hlast ▸ hshort
      · exact ⟨⟨k, hk, rfl⟩, not_le.mp hshort, hbound⟩

/-- The sum of the lengths is right, or too large for a number of 32 bits. -/
lemma desiredLength_spec (m n : ℕ) : desiredLength m n = (m + n : ℕ) ∨ 2 ^ 31 ≤ m + n := by
  by_cases hlt : m + n < 2 ^ 31
  · refine .inl ?_
    rw [desiredLength]
    exact toInt32_of_range (by omega) (by omega)
  · exact .inr (not_lt.mp hlt)

attribute [irreducible] desiredLength

/-! ### The invariant -/

/-- The buffer has been built in the heap `h₀` and holds the text. -/
structure Owns (h₀ : TextHeap) (sb : Stringbuffer) (text : List Char) (h : TextHeap) : Prop where
  size : IsSize sb.bufsize
  spans : ∃ room, h.Spans sb.s text room ∧ text.length + 1 + room = sb.bufsize
  live : (h.block sb.self).isSome
  ne : sb.self ≠ sb.s
  new_self : h₀.next ≤ sb.self ∧ sb.self < h.next
  new_s : h₀.next ≤ sb.s ∧ sb.s < h.next
  frame : ∀ q, q ≠ sb.self → q ≠ sb.s → h.block q = h₀.block q

/-- The buffer holds the text, and the block is not longer than it has to be. -/
structure Built (h₀ : TextHeap) (sb : Stringbuffer) (text : List Char) (h : TextHeap) : Prop
    extends Owns h₀ sb text h where
  tight : sb.bufsize ≤ max 64 (2 * text.length)

/-- Addresses that were never used have no block. -/
def Fresh (h : TextHeap) : Prop := ∀ q, h.next ≤ q → h.block q = none

/-- Why the building of a text of so many characters may stop. -/
def TooLong (grant : Grant) (total : ℕ) (e : Crash) : Prop := grant.Refuses e ∨ 2 ^ 30 ≤ total

variable {grant : Grant} {h₀ h : TextHeap} {sb : Stringbuffer} {text : List Char} {total : ℕ}

lemma Owns.length_lt (ho : Owns h₀ sb text h) : text.length < 2 ^ 30 := by
  obtain ⟨room, -, hroom⟩ := ho.spans
  have hsize := ho.size.bounds
  omega

/-- A new block with the empty text. -/
lemma create_ends (grant : Grant) (h₀ : TextHeap) :
    Ends (fun r => Built h₀ r.1 [] r.2) grant.Refuses (create grant h₀) := by
  refine (TextHeap.malloc_spec grant h₀ 16).bind ?_
  rintro ⟨self, h⟩ ⟨hself, hnext, ⟨cells, hblock, -⟩, hframe⟩
  refine (TextHeap.malloc_spec grant h initialSize).bind ?_
  rintro ⟨s, h'⟩ ⟨hs, hnext', ⟨cells', hblock', hlen⟩, hframe'⟩
  dsimp only at *
  subst hself hs
  obtain ⟨h'', hwrite, hnext'', hspans, hframe''⟩ :
      ∃ h'', h'.write h.next 0 nul = .ok h'' ∧ h''.next = h'.next ∧ h''.Spans h.next [] 63
        ∧ ∀ q, q ≠ h.next → h''.block q = h'.block q :=
    TextHeap.write_nul hblock' hlen
  refine Ends.of_ok hwrite ?_
  have hself : h₀.next ≠ h.next := by omega
  refine ⟨⟨⟨0, Nat.zero_le _, rfl⟩, ⟨63, hspans, rfl⟩, ?_, hself, ?_, ?_, fun q hq hq' => ?_⟩,
    le_rfl⟩
  · rw [hframe'' _ hself, hframe' _ hself, hblock]
    rfl
  · constructor <;> dsimp only <;> omega
  · constructor <;> dsimp only <;> omega
  · dsimp only at hq hq'
    rw [hframe'' q hq', hframe' q hq', hframe q hq]

/-- A length that is not beyond all sizes fits after `extend`. -/
lemma extend_ends (ho : Owns h₀ sb text h) (hfresh : Fresh h₀) {desiredlength : ℤ}
    (htotal : 2 ^ 30 ≤ desiredlength → 2 ^ 30 ≤ total) :
    Ends (fun r => Owns h₀ r.1 text r.2 ∧ desiredlength < r.1.bufsize
        ∧ r.1.bufsize ≤ max sb.bufsize (desiredlength * 2))
      (TooLong grant total) (extend grant sb desiredlength h) := by
  obtain ⟨room, hspans, hroom⟩ := ho.spans
  obtain ⟨k, hk, hbuf⟩ := ho.size
  rw [extend]
  split_ifs with hshort
  · have hgrow : Ends
        (fun b => IsSize b ∧ desiredlength < b ∧ b ≤ max sb.bufsize (desiredlength * 2))
        (fun _ => 2 ^ 30 ≤ desiredlength) (growLoop desiredlength 33 sb.bufsize) :=
      hbuf ▸ growLoop_ends hk (le_max_left _ _) (le_max_right _ _) (by omega)
    rw [growLoop, if_pos hshort] at hgrow
    rw [← bind_assoc]
    refine (hgrow.mono (fun _ hb => hb) fun _ he => .inr (htotal he)).bind ?_
    rintro b ⟨hsize, hlt, hle⟩
    have hbounds := hsize.bounds
    have hcast : (b % 2 ^ 64).toNat = b.toNat := by omega
    rw [hcast]
    obtain ⟨room', hroom'⟩ : ∃ room', text.length + 1 + room' = b.toNat :=
      ⟨b.toNat - (text.length + 1), by omega⟩
    have hmore : room ≤ room' := by omega
    have hmove := TextHeap.realloc_of_spans grant hspans ho.new_s.2.ne hroom' hmore
    refine (hmove.mono (fun _ hr => hr) fun _ he => Or.inl he).bind ?_
    rintro ⟨s, h'⟩ ⟨hs, hnext, hspans', hfreed, hframe⟩
    dsimp only at *
    subst hs
    have hself := ho.new_self
    have hold := ho.new_s
    have hne : sb.self ≠ h.next := by omega
    refine ⟨⟨hsize, ⟨room', hspans', ?_⟩, ?_, hne, ?_, ?_, fun q hq hq' => ?_⟩, hlt, hle⟩
    · dsimp only
      omega
    · rw [hframe _ ho.ne hne]
      exact ho.live
    · constructor <;> dsimp only <;> omega
    · constructor <;> dsimp only <;> omega
    · dsimp only at hq hq'
      by_cases hqs : q = sb.s
      · rw [hqs, hfreed, hfresh _ hold.1]
      · rw [hframe q hqs hq', ho.frame q hq hqs]
  · exact ⟨ho, not_le.mp hshort, le_max_left _ _⟩

/-- `stringbuffer_append`. -/
lemma append_ends (hb : Built h₀ sb text h) (hfresh : Fresh h₀) {string : List Char}
    (hplain : nul ∉ string) (htotal : (text ++ string).length ≤ total) :
    Ends (fun r => Built h₀ r.1 (text ++ string) r.2) (TooLong grant total)
      (append grant sb string h) := by
  obtain ⟨room, hspans, hroom⟩ := hb.spans
  rw [List.length_append] at htotal
  have hdesired := desiredLength_spec text.length string.length
  have hextend : Ends (fun r => Owns h₀ r.1 text r.2
        ∧ desiredLength text.length string.length < r.1.bufsize
        ∧ r.1.bufsize ≤ max sb.bufsize (desiredLength text.length string.length * 2))
      (TooLong grant total) (extendIfShort grant sb string h) := by
    rw [extendIfShort]
    exact Ends.of_ok (TextHeap.strlen_of_spans hspans) (extend_ends hb.toOwns hfresh (by omega))
  rw [append]
  refine hextend.bind ?_
  rintro ⟨sb', h'⟩ ⟨ho, hlt, hle⟩
  obtain ⟨room', hspans', hroom'⟩ := ho.spans
  have hsize := ho.size.bounds
  dsimp only at *
  by_cases hfit : string.length ≤ room'
  · obtain ⟨h'', hcat, hnext, hspans'', hframe⟩ := TextHeap.strcat_of_spans hspans' hplain hfit
    refine Ends.of_ok hcat ⟨⟨ho.size, ⟨_, hspans'', ?_⟩, ?_, ho.ne, ?_, ?_, fun q hq hq' => ?_⟩, ?_⟩
    · rw [List.length_append]
      dsimp only
      omega
    · rw [hframe _ ho.ne]
      exact ho.live
    · exact ⟨ho.new_self.1, hnext ▸ ho.new_self.2⟩
    · exact ⟨ho.new_s.1, hnext ▸ ho.new_s.2⟩
    · rw [hframe q hq', ho.frame q hq hq']
    · have htight := hb.tight
      rw [List.length_append]
      dsimp only
      omega
  · have hlong : 2 ^ 30 ≤ total := by omega
    cases hcat : h'.strcat sb'.s string with
    | ok h'' => exact absurd hcat (TextHeap.strcat_ne_ok hspans' (not_le.mp hfit) h'')
    | error e => exact .inr hlong

/-- `stringbuffer_reset` leaves every block as it was. -/
lemma reset_ends (grant : Grant) (sb : Stringbuffer) (h : TextHeap) :
    Ends (fun r => r.1.self = sb.self ∧ r.1.s = h.next ∧ (r.2.block h.next).isSome
        ∧ ∀ q, q ≠ h.next → r.2.block q = h.block q)
      grant.Refuses (reset grant sb h) := by
  refine (TextHeap.malloc_spec grant h initialSize).bind ?_
  rintro ⟨s, h'⟩ ⟨hs, hnext, ⟨cells, hblock, hlen⟩, hframe⟩
  dsimp only at *
  subst hs
  obtain ⟨h'', hwrite, -, ⟨-, rest, hblock', -⟩, hframe'⟩ :
      ∃ h'', h'.write h.next 0 nul = .ok h'' ∧ h''.next = h'.next ∧ h''.Spans h.next [] 63
        ∧ ∀ q, q ≠ h.next → h''.block q = h'.block q :=
    TextHeap.write_nul hblock hlen
  refine Ends.of_ok hwrite ⟨rfl, rfl, ?_, fun q hq => ?_⟩
  · rw [hblock']
    rfl
  · rw [hframe' q hq, hframe q hq]

/-- `stringbuffer_destroy` of two blocks. -/
lemma destroy_ends (sb : Stringbuffer) (hs : (h.block sb.s).isSome)
    (hself : (h.block sb.self).isSome) (hne : sb.self ≠ sb.s) :
    Ends (fun h' => h'.block sb.s = none ∧ h'.block sb.self = none
        ∧ ∀ q, q ≠ sb.s → q ≠ sb.self → h'.block q = h.block q)
      (fun _ => False) (destroy sb h) := by
  rw [destroy]
  refine Ends.of_ok (TextHeap.free_spec hs) ?_
  rw [TextHeap.free_spec ((congrArg Option.isSome (Function.update_of_ne hne _ _)).trans hself)]
  refine ⟨(Function.update_of_ne hne.symm _ _).trans (Function.update_self _ _ _),
    Function.update_self _ _ _, fun q hq hq' => ?_⟩
  exact (Function.update_of_ne hq' _ _).trans (Function.update_of_ne hq _ _)

/-- The text stays behind, and nothing else of the buffer. -/
lemma finish_ends (ho : Owns h₀ sb text h) (hfresh : Fresh h₀) :
    Ends (fun r => r.1 = sb.s ∧ r.2.block sb.s = h.block sb.s
        ∧ ∀ q, q ≠ sb.s → r.2.block q = h₀.block q)
      grant.Refuses (finish grant sb h) := by
  have hself := ho.new_self
  have hs := ho.new_s
  have hlive := ho.live
  rw [finish]
  refine (reset_ends grant sb h).bind ?_
  rintro ⟨⟨self, s, bufsize⟩, h'⟩ ⟨hself', hs', hnew, hframe⟩
  dsimp only at *
  subst hself' hs'
  have hne : sb.self ≠ h.next := by omega
  have hkept : (h'.block sb.self).isSome := by
    rw [hframe _ hne]
    exact hlive
  refine (destroy_ends ⟨sb.self, h.next, bufsize⟩ hnew hkept hne).of_never.bind ?_
  rintro h'' ⟨hs'', hself'', hframe'⟩
  dsimp only at hs'' hself'' hframe'
  refine ⟨rfl, ?_, fun q hq => ?_⟩
  · rw [hframe' _ (by omega) ho.ne.symm, hframe _ (by omega)]
  · by_cases hqself : q = sb.self
    · rw [hqself, hself'', hfresh _ hself.1]
    · by_cases hqnew : q = h.next
      · rw [hqnew, hs'', hfresh _ (by omega)]
      · rw [hframe' q hqnew hqself, hframe q hqnew, ho.frame q hqself hq]

end Stringbuffer

end KubeSafeScheduler.Utils
