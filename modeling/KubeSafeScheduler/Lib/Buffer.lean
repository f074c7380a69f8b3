import Mathlib.Tactic

/-!
Programs that can stop, and buffers of memory.

* `Ends Q E r`: the program `r` comes to an end with `Q`, or stops for a reason with
  `E`; the rules for two programs in a row (`Ends.bind`), for weaker conditions
  (`Ends.mono`) and for a counted loop with an invariant (`Ends.foldlM_range`) or one
  over a list (`Ends.foldlM_list`).
* `bind_ne_ok_left`, `bind_ne_ok_right`, `foldlM_ne_ok`: programs that never end.
* `Buffer`: a block of memory, and the capacity that its owner has noted. An access
  out of bounds stops the program.
* `Buffer.foldlM_moveDown`, `Buffer.foldlM_moveUp`: the loops that shift a stretch of
  cells by one, to the front and to the back.
-/

namespace KubeSafeScheduler

universe u

variable {ε : Type*} {α β : Type u}

/-! ### Programs that can stop -/

/-- The program ends with `Q`, or stops for a reason with `E`. -/
def Ends (Q : α → Prop) (E : ε → Prop) : Except ε α → Prop
  | .ok a => Q a
  | .error e => E e

namespace Ends

variable {Q Q' : α → Prop} {E E' : ε → Prop} {r : Except ε α}

lemma mono (h : Ends Q E r) (hQ : ∀ a, Q a → Q' a) (hE : ∀ e, E e → E' e) : Ends Q' E' r := by
  cases r with
  | ok a => exact hQ a h
  | error e => exact hE e h

/-- A program that does not stop. -/
lemma of_never (h : Ends Q (fun _ => False) r) : Ends Q E r :=
  h.mono (fun _ ha => ha) fun _ he => he.elim

/-- Two programs in a row. -/
lemma bind {R : β → Prop} {f : α → Except ε β} (h : Ends Q E r)
    (hf : ∀ a, Q a → Ends R E (f a)) : Ends R E (r >>= f) := by
  cases r with
  | ok a => exact hf a h
  | error e => exact h

/-- The first program is known to end. -/
lemma of_ok {R : β → Prop} {f : α → Except ε β} {a : α} (hr : r = .ok a) (h : Ends R E (f a)) :
    Ends R E (r >>= f) := by
  rw [hr]
  exact h

/-- A loop of `n` rounds with an invariant. -/
lemma foldlM_range {n : ℕ} {step : α → ℕ → Except ε α} (I : ℕ → α → Prop) {a : α} (h0 : I 0 a)
    (hstep : ∀ k < n, ∀ a, I k a → Ends (I (k + 1)) E (step a k)) :
    Ends (I n) E ((List.range n).foldlM step a) := by
  induction n with
  | zero => exact h0
  | succ n ih =>
      have hinit := ih fun k hk => hstep k (Nat.lt_succ_of_lt hk)
      rw [List.range_succ, List.foldlM_append]
      refine hinit.bind fun b hb => ?_
      rw [List.foldlM_cons]
      exact (hstep n (Nat.lt_succ_self n) b hb).bind fun c hc => hc

/-- A loop over the items of a list, with an invariant of those that are done. -/
lemma foldlM_list {ι : Type*} {step : α → ι → Except ε α} (I : List ι → α → Prop) {l : List ι}
    (hstep : ∀ done i rest, l = done ++ i :: rest → ∀ a, I done a →
      Ends (I (done ++ [i])) E (step a i)) {a : α} (h0 : I [] a) :
    Ends (I l) E (l.foldlM step a) := by
  suffices hrest : ∀ rest done, l = done ++ rest → ∀ a, I done a →
      Ends (I l) E (rest.foldlM step a) from hrest l [] rfl a h0
  intro rest
  induction rest with
  | nil =>
      intro done hl a ha
      rw [hl, List.append_nil]
      exact ha
  | cons i rest ih =>
      intro done hl a ha
      rw [List.foldlM_cons]
      refine (hstep done i rest hl a ha).bind fun b hb => ?_
      exact ih (done ++ [i]) (by rw [hl, List.append_assoc, List.singleton_append]) b hb

end Ends

/-- Nothing comes back if the first program does not end. -/
lemma bind_ne_ok_left {r : Except ε α} (h : ∀ a, r ≠ .ok a) (f : α → Except ε β) (b : β) :
    r >>= f ≠ .ok b := by
  cases r with
  | ok a => exact absurd rfl (h a)
  | error e => nofun

/-- Nothing comes back if the second program never ends. -/
lemma bind_ne_ok_right (r : Except ε α) {f : α → Except ε β} (h : ∀ a b, f a ≠ .ok b) (b : β) :
    r >>= f ≠ .ok b := by
  cases r with
  | ok a => exact h a b
  | error e => nofun

/-- A loop does not end if the round of one item never does. -/
lemma foldlM_ne_ok {ι : Type*} {step : α → ι → Except ε α} {l : List ι} {i : ι} (hi : i ∈ l)
    (h : ∀ a b, step a i ≠ .ok b) (a b : α) : l.foldlM step a ≠ .ok b := by
  induction l generalizing a b with
  | nil => cases hi
  | cons j l ih =>
      rw [List.foldlM_cons]
      rcases List.mem_cons.mp hi with rfl | hi
      · exact bind_ne_ok_left (h a) _ b
      · exact bind_ne_ok_right _ (ih hi) b

/-! ### Buffers -/

/-- A block of memory, and the capacity that its owner has noted for it. -/
structure Buffer (β : Type u) where
  capacity : ℤ
  data : List β

namespace Buffer

variable (outOfBounds : ε) (b : Buffer β)

/-- A read, which stops outside of the block. -/
def read (i : ℤ) : Except ε β :=
  if i < 0 then .error outOfBounds else (b.data[i.toNat]?).elim (.error outOfBounds) .ok

/-- A write, which stops outside of the block and from the capacity on. -/
def write (i : ℤ) (x : β) : Except ε (Buffer β) :=
  if 0 ≤ i ∧ i < b.capacity ∧ i < b.data.length then
    .ok { b with data := b.data.set i.toNat x }
  else .error outOfBounds

/-- The content of one cell is written to another. -/
def move (dst src : ℤ) : Except ε (Buffer β) := do
  let x ← b.read outOfBounds src
  b.write outOfBounds dst x

variable {b} {front mid rest : List β} {x y : β} {i : ℤ}

lemma read_eq (h : b.data = front ++ x :: rest) (hi : i = front.length) :
    b.read outOfBounds i = .ok x := by
  have hcell : b.data[i.toNat]? = some x := by
    rw [h, hi, Int.toNat_natCast, List.getElem?_append_right le_rfl, Nat.sub_self]
    rfl
  rw [read, if_neg (by omega), hcell]
  rfl

lemma write_eq (h : b.data = front ++ x :: rest) (hi : i = front.length) (hc : i < b.capacity) :
    b.write outOfBounds i y = .ok { b with data := front ++ y :: rest } := by
  have hblock : i < b.data.length := by
    rw [h, hi, List.length_append, List.length_cons]
    omega
  have hset : b.data.set i.toNat y = front ++ y :: rest := by
    rw [h, hi, Int.toNat_natCast, List.set_append_right _ _ le_rfl, Nat.sub_self]
    rfl
  rw [write, if_pos ⟨by omega, hc, hblock⟩, hset]

lemma move_eq {dst src : ℤ} {front' rest' : List β} (hread : b.data = front' ++ x :: rest')
    (hsrc : src = front'.length) (hwrite : b.data = front ++ y :: rest) (hdst : dst = front.length)
    (hc : dst < b.capacity) :
    b.move outOfBounds dst src = .ok { b with data := front ++ x :: rest } := by
  rw [move, read_eq outOfBounds hread hsrc]
  exact write_eq outOfBounds hwrite hdst hc

/-- The cells `mid` move one to the front, over the cell before them. -/
lemma foldlM_moveDown (h : b.data = front ++ x :: (mid ++ rest))
    (hc : (front.length : ℤ) + mid.length < b.capacity) :
    ∃ y, (List.range' front.length mid.length).foldlM
        (fun b (i : ℕ) => b.move outOfBounds i (i + 1)) b
      = .ok { b with data := front ++ (mid ++ y :: rest) } := by
  induction mid generalizing b front x with
  | nil =>
      refine ⟨x, ?_⟩
      rw [List.nil_append] at h ⊢
      rw [← h]
      rfl
  | cons z mid ih =>
      rw [List.length_cons] at hc
      push_cast at hc
      have hmove : b.move outOfBounds front.length (front.length + 1)
          = .ok { b with data := front ++ z :: (z :: mid ++ rest) } :=
        move_eq outOfBounds
          (show b.data = (front ++ [x]) ++ z :: (mid ++ rest) by rw [h, List.append_assoc]; rfl)
          (by simp) h rfl (by omega)
      have hnext : ({ b with data := front ++ z :: (z :: mid ++ rest) } : Buffer β).data
          = (front ++ [z]) ++ z :: (mid ++ rest) := by rw [List.append_assoc]; rfl
      have hcount : ((front ++ [z]).length : ℤ) + mid.length < b.capacity := by
        rw [List.length_append, List.length_singleton]
        push_cast
        omega
      obtain ⟨y, hy⟩ := ih hnext hcount
      refine ⟨y, ?_⟩
      rw [List.length_cons, List.range'_succ, List.foldlM_cons, hmove]
      rw [List.length_append, List.length_singleton, List.append_assoc] at hy
      exact hy

/-- The cells `mid` move one to the back, over the cell behind them, the last one
first. -/
lemma foldlM_moveUp (h : b.data = front ++ (mid ++ y :: rest))
    (hc : (front.length : ℤ) + mid.length < b.capacity) :
    ∃ x, (List.range' front.length mid.length).reverse.foldlM
        (fun b (i : ℕ) => b.move outOfBounds (i + 1) i) b
      = .ok { b with data := front ++ x :: (mid ++ rest) } := by
  induction mid using List.reverseRecOn generalizing b y rest with
  | nil =>
      refine ⟨y, ?_⟩
      rw [List.nil_append] at h ⊢
      rw [← h]
      rfl
  | append_singleton mid z ih =>
      rw [List.length_append, List.length_singleton] at hc
      push_cast at hc
      have hmove : b.move outOfBounds ((front.length + mid.length : ℕ) + 1)
            (front.length + mid.length : ℕ)
          = .ok { b with data := (front ++ mid ++ [z]) ++ z :: rest } :=
        move_eq outOfBounds
          (show b.data = (front ++ mid) ++ z :: (y :: rest) by rw [h]; simp)
          (by rw [List.length_append])
          (show b.data = (front ++ mid ++ [z]) ++ y :: rest by rw [h]; simp)
          (by simp only [List.length_append, List.length_singleton]; push_cast; rfl)
          (by push_cast; omega)
      have hnext : ({ b with data := (front ++ mid ++ [z]) ++ z :: rest } : Buffer β).data
          = front ++ (mid ++ z :: (z :: rest)) := by simp
      obtain ⟨x, hx⟩ := ih hnext (show _ < b.capacity by omega)
      refine ⟨x, ?_⟩
      rw [List.length_append, List.length_singleton, List.range'_1_concat, List.reverse_append,
        List.reverse_singleton, List.singleton_append, List.foldlM_cons, hmove,
        List.append_assoc mid]
      exact hx

end Buffer

end KubeSafeScheduler
