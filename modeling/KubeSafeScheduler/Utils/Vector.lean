import Mathlib.Tactic
import KubeSafeScheduler.Lib.Exact
import KubeSafeScheduler.Lib.Buffer

/-!
`utils/vector.c`: a vector of pointers, whose memory doubles when it is full.

The elements are pointers, `none` being `NULL`. The sizes are of type `int`, and a
product that leaves its range wraps around. What `malloc` and `realloc` answer is left
open, and so is what stands in the new cells of a block.

* `Vector.append`, `Vector.appendall`, `Vector.delete`, `Vector.set`, `Vector.remove`,
  `Vector.insert`, `Vector.clear`: the functions; `Vector.Op`, `Vector.Call`: calls of
  them on a store of vectors, where a vector can be appended to itself.
* `Vector.Op.onLists`: what the calls do to lists.
* `Vector.Shows`: the vector has the elements of a list in a block of its capacity;
  `Vector.Holds`: and the capacity is 10, doubled at most 27 times.
* `Vector.Call.step_ends`: a call leads to the lists that it should, or stops on a request
  for memory that is refused; a request that no allocator can grant is made for more than
  `maxSize` elements.
* `Vector.alwaysBehaves_iff`: so runs behave as lists exactly as long as no list grows
  past that.
-/

namespace KubeSafeScheduler.Utils

variable {ι α : Type}

/-! ### Memory -/

/-- Why a call does not come back: memory of so many bytes was requested and the
assertion on the answer failed, an access was out of bounds, or a loop does not end. -/
inductive Stop where
  | assertFailed (request : ℕ)
  | outOfBounds
  | running
  deriving DecidableEq

/-- `malloc` and `realloc` while a function runs: the answer to a request of so many bytes
is `NULL` or a block, with whatever stands in its new cells. No object is larger than
`PTRDIFF_MAX`. -/
structure Allocator (α : Type) where
  grant : ℕ → Option (ℕ → Option α)
  refuses : ∀ request, 2 ^ 63 ≤ request → grant request = none

/-- `realloc`, and the assertion that it did not fail: the block keeps its cells as far as
they fit. -/
def Allocator.realloc (alloc : Allocator α) (data : List (Option α)) (request : ℕ) :
    Except Stop (List (Option α)) :=
  match alloc.grant request with
  | none => .error (.assertFailed request)
  | some fresh => .ok ((List.range (request / 8)).map fun k => (data[k]?).getD (fresh k))

/-- `malloc`, and the assertion that it did not fail. -/
def Allocator.malloc (alloc : Allocator α) (request : ℕ) : Except Stop (List (Option α)) :=
  alloc.realloc [] request

/-- An allocator that grants everything up to `PTRDIFF_MAX`. -/
def Allocator.generous (α : Type) : Allocator α where
  grant request := if request < 2 ^ 63 then some fun _ => none else none
  refuses _ h := if_neg (not_lt.mpr h)

/-- `_capacity * sizeof(char *)`, converted to `size_t`. -/
def requestOf (capacity : ℤ) : ℕ := (capacity % 2 ^ 64 * 8 % 2 ^ 64).toNat

/-! ### The functions -/

/-- `s_vector`: the size, and the block with its capacity. -/
structure Vector (α : Type) extends Buffer (Option α) where
  size : ℤ

/-- `VECTOR_INITIAL_CAPACITY`. -/
def vectorInitialCapacity : ℤ := 10

/-- `vector_create`: memory for the structure and for its elements. -/
def Vector.create (alloc : Allocator α) : Except Stop (Vector α) := do
  let _ ← alloc.malloc 16
  let data ← alloc.malloc (requestOf vectorInitialCapacity)
  .ok { size := 0, capacity := vectorInitialCapacity, data := data }

/-- `vector_double_capacity_if_full`. -/
def Vector.doubleCapacityIfFull (alloc : Allocator α) (v : Vector α) : Except Stop (Vector α) :=
  if v.capacity ≤ v.size then do
    let capacity := toInt32 (v.capacity * 2)
    let data ← alloc.realloc v.data (requestOf capacity)
    .ok { v with capacity := capacity, data := data }
  else .ok v

/-- `vector_append`. -/
def Vector.append (alloc : Allocator α) (v : Vector α) (element : Option α) :
    Except Stop (Vector α × Bool) := do
  let v ← v.doubleCapacityIfFull alloc
  let buffer ← v.toBuffer.write .outOfBounds v.size element
  .ok ({ toBuffer := buffer, size := toInt32 (v.size + 1) }, true)

/-- `vector_get`. -/
def Vector.get (v : Vector α) (index : ℤ) : Except Stop (Option α) :=
  if v.size ≤ index ∨ index < 0 then .ok none else v.toBuffer.read .outOfBounds index

/-- `vector_getsize`. -/
def Vector.getsize (v : Vector α) : ℤ := v.size

/-- `vector_isempty`. -/
def Vector.isempty (v : Vector α) : Bool := v.size = 0

/-- The round `i` of `vector_appendall` in a store of vectors: `other` may be the vector
itself, which then grows while its elements are read. -/
def Vector.appendallRound [DecidableEq ι] (alloc : Allocator α) (self other : ι)
    (s : ι → Vector α) (i : ℕ) : Except Stop (ι → Vector α) := do
  let element ← (s other).get i
  if element.isSome then do
    let (v, _) ← (s self).append alloc element
    .ok (Function.update s self v)
  else .ok s

/-- `vector_appendall`. -/
def Vector.appendall [DecidableEq ι] (alloc : Allocator α) (s : ι → Vector α) (self other : ι) :
    Except Stop (ι → Vector α) :=
  (List.range (s other).getsize.toNat).foldlM (appendallRound alloc self other) s

/-- The loops of `vector_getindex` and `vector_getindexbycompare` over the given indices:
the first one whose element is `found`, or -1. -/
def Vector.search (v : Vector α) (found : Option α → Bool) : List ℕ → Except Stop ℤ
  | [] => .ok (-1)
  | i :: indices => do
      let element ← v.toBuffer.read .outOfBounds i
      if found element then .ok i else v.search found indices

/-- `vector_getindexbycompare`. -/
def Vector.getindexbycompare (v : Vector α) (element : Option α)
    (elementCompare : Option α → Option α → ℤ) : Except Stop ℤ :=
  v.search (fun x => elementCompare x element = 0) (List.range v.size.toNat)

/-- `vector_containsbycompare`. -/
def Vector.containsbycompare (v : Vector α) (element : Option α)
    (elementCompare : Option α → Option α → ℤ) : Except Stop Bool :=
  (v.getindexbycompare element elementCompare).map fun index => decide (0 ≤ index)

/-- The loops that append `NULL` as long as the size is below a bound, for at most `fuel`
rounds. -/
def Vector.pad (alloc : Allocator α) (bound : ℤ) : ℕ → Vector α → Except Stop (Vector α)
  | 0, v => if v.size < bound then .error .running else .ok v
  | fuel + 1, v =>
      if v.size < bound then do
        let (v, _) ← v.append alloc none
        Vector.pad alloc bound fuel v
      else .ok v

/-- `vector_set`: the loop goes on while `_index >= _self->size`, and there are fewer than
`2 ^ 32` sizes. -/
def Vector.set (alloc : Allocator α) (v : Vector α) (index : ℤ) (element : Option α) :
    Except Stop (Vector α) := do
  let v ← v.pad alloc (index + 1) (2 ^ 32)
  if 0 ≤ index then do
    let buffer ← v.toBuffer.write .outOfBounds index element
    .ok { v with toBuffer := buffer }
  else .ok v

/-- `vector_remove`. -/
def Vector.remove (v : Vector α) (index : ℤ) : Except Stop (Vector α × Bool) :=
  if 0 ≤ index ∧ index < v.size then do
    -- `for (int i = _index; i < _self->size - 1; ++i)`
    let buffer ← (List.range' index.toNat (v.size - 1 - index).toNat).foldlM
      (fun buffer (i : ℕ) => buffer.move .outOfBounds i (i + 1)) v.toBuffer
    let buffer ← buffer.write .outOfBounds (v.size - 1) none
    .ok ({ toBuffer := buffer, size := toInt32 (v.size - 1) }, true)
  else .ok (v, false)

/-- `vector_insert`. -/
def Vector.insert (alloc : Allocator α) (v : Vector α) (index : ℤ) (element : Option α) :
    Except Stop (Vector α × Bool) := do
  let v ← v.pad alloc index (2 ^ 32)
  if 0 ≤ index then do
    let v ← v.doubleCapacityIfFull alloc
    -- `for (int i = _self->size - 1; i >= _index; --i)`
    let buffer ← (List.range' index.toNat (v.size - index).toNat).reverse.foldlM
      (fun buffer (i : ℕ) => buffer.move .outOfBounds (i + 1) i) v.toBuffer
    let buffer ← buffer.write .outOfBounds index element
    .ok ({ toBuffer := buffer, size := toInt32 (v.size + 1) }, true)
  else .ok (v, false)

/-- `vector_clear`. -/
def Vector.clear (alloc : Allocator α) (v : Vector α) : Except Stop (Vector α) := do
  let data ← alloc.realloc v.data (requestOf vectorInitialCapacity)
  .ok { size := 0, capacity := vectorInitialCapacity, data := data }

section Equality

variable [DecidableEq α]

/-- `vector_getindex`. -/
def Vector.getindex (v : Vector α) (element : Option α) : Except Stop ℤ :=
  v.search (fun x => x = element) (List.range v.size.toNat)

/-- `vector_contains`. -/
def Vector.contains (v : Vector α) (element : Option α) : Except Stop Bool :=
  (v.getindex element).map fun index => decide (0 ≤ index)

/-- `vector_delete`. -/
def Vector.delete (v : Vector α) (element : Option α) : Except Stop (Vector α × Bool) := do
  let index ← v.getindex element
  if 0 ≤ index then v.remove index else .ok (v, false)

end Equality

/-! ### The invariant -/

/-- A list with an element at `n`. -/
lemma exists_split {l : List (Option α)} {n : ℕ} (h : n < l.length) :
    ∃ front x mid, front.length = n ∧ l = front ++ x :: mid := by
  refine ⟨l.take n, l[n], l.drop (n + 1), List.length_take_of_le h.le, ?_⟩
  rw [← List.drop_eq_getElem_cons h, List.take_append_drop]

/-- The largest capacity that doubling reaches: the next one is no `int`. -/
def maxSize : ℕ := 10 * 2 ^ 27

/-- The vector has the elements of the list, in a block of as many cells as its
capacity. -/
structure Vector.Shows (v : Vector α) (l : List (Option α)) : Prop where
  size_eq : v.size = l.length
  size_le : v.size ≤ v.capacity
  block : (v.data.length : ℤ) = v.capacity
  isPrefix : l <+: v.data

/-- The invariant: moreover the capacity is 10, doubled some times. -/
structure Vector.Holds (v : Vector α) (l : List (Option α)) : Prop extends v.Shows l where
  doubled : ∃ k ≤ 27, v.capacity = 10 * 2 ^ k

/-- The reasons to stop while a list of at most `len` elements is made: a request is
refused, and it is no request for more than `maxSize` elements if `len` is not. -/
def Refused (alloc : Allocator α) (len : ℕ) : Stop → Prop
  | .assertFailed request =>
      alloc.grant request = none ∧ (request < 2 ^ 63 ∨ maxSize < len)
  | _ => False

lemma Refused.mono {alloc : Allocator α} {len len' : ℕ} (hle : len ≤ len') :
    ∀ e, Refused alloc len e → Refused alloc len' e
  | .assertFailed _, h => ⟨h.1, h.2.imp_right fun hlt => hlt.trans_le hle⟩
  | .outOfBounds, h => h
  | .running, h => h

/-- The program stops because memory ran out: a request for an object of a possible size
was refused. -/
def OutOfMemory : Stop → Prop
  | .assertFailed request => request < 2 ^ 63
  | _ => False

/-- No refusal is due to the size of lists that have at most `maxSize` elements. -/
lemma Refused.outOfMemory {alloc : Allocator α} {len : ℕ} (hle : len ≤ maxSize) :
    ∀ e, Refused alloc len e → OutOfMemory e
  | .assertFailed _, h => h.2.resolve_right (not_lt.mpr hle)
  | .outOfBounds, h => h
  | .running, h => h

/-- The generous allocator does not run out of memory. -/
lemma not_outOfMemory {len : ℕ} {e : Stop} (h : Refused (.generous α) len e) :
    ¬OutOfMemory e := by
  cases e with
  | assertFailed request =>
      intro hlt
      have hgrant : (Allocator.generous α).grant request = some fun _ => none := if_pos hlt
      have hrefused : (Allocator.generous α).grant request = none := h.1
      rw [hgrant] at hrefused
      exact Option.some_ne_none _ hrefused
  | outOfBounds => exact h.elim
  | running => exact h.elim

namespace Vector.Holds

variable {v : Vector α} {l l' rest : List (Option α)} {alloc : Allocator α}

lemma capacity_le (h : v.Holds l) : v.capacity ≤ maxSize := by
  obtain ⟨k, hk, hcapacity⟩ := h.doubled
  have hpow : (2 : ℤ) ^ k ≤ 2 ^ 27 := pow_le_pow_right₀ (by norm_num) hk
  rw [hcapacity, maxSize]
  push_cast
  omega

/-- No vector is larger. -/
lemma length_le (h : v.Holds l) : l.length ≤ maxSize := by
  have hle := h.capacity_le
  have hsize := h.size_le
  rw [h.size_eq] at hsize
  omega

/-- The cells behind the elements. -/
lemma exists_rest (h : v.Holds l) : ∃ rest, v.data = l ++ rest := by
  obtain ⟨rest, hrest⟩ := h.isPrefix
  exact ⟨rest, hrest.symm⟩

/-- There is a cell for another element unless the vector is full. -/
lemma exists_cell (h : v.Holds l) (hlt : v.size < v.capacity) :
    ∃ x rest, v.data = l ++ x :: rest := by
  obtain ⟨rest, hdata⟩ := h.exists_rest
  cases rest with
  | nil =>
      have hblock := h.block
      rw [hdata, List.append_nil, ← h.size_eq] at hblock
      omega
  | cons x rest => exact ⟨x, rest, hdata⟩

/-- The size counts up in a vector that is not full. -/
lemma toInt32_size_add_one (h : v.Holds l) (hlt : v.size < v.capacity) :
    toInt32 (v.size + 1) = v.size + 1 := by
  have hcapacity := h.capacity_le
  have hsize := h.size_eq
  rw [maxSize] at hcapacity
  exact toInt32_of_range (by omega) (by omega)

/-- The size counts down. -/
lemma toInt32_size_sub_one (h : v.Holds l) : toInt32 (v.size - 1) = v.size - 1 := by
  have hcapacity := h.capacity_le
  have hsize := h.size_eq
  have hle := h.size_le
  rw [maxSize] at hcapacity
  exact toInt32_of_range (by omega) (by omega)

/-- The cells around the element at `n`. -/
lemma split (h : v.Holds l) {n : ℕ} (hn : n < l.length) :
    ∃ front x mid rest, front.length = n ∧ l = front ++ x :: mid
      ∧ v.data = front ++ x :: (mid ++ rest) ∧ v.size = front.length + mid.length + 1 := by
  obtain ⟨front, x, mid, hfront, hl⟩ := exists_split hn
  obtain ⟨rest, hdata⟩ := h.exists_rest
  refine ⟨front, x, mid, rest, hfront, hl, ?_, ?_⟩
  · rw [hdata, hl, List.append_assoc, List.cons_append]
  · rw [h.size_eq, hl, List.length_append, List.length_cons]
    push_cast
    ring

/-- Other elements in the same block. -/
lemma replaced (h : v.Holds l) (hlen : (l' ++ rest).length = v.data.length) {size : ℤ}
    (hsize : size = l'.length) :
    Holds { capacity := v.capacity, data := l' ++ rest, size := size } l' where
  size_eq := hsize
  size_le := by
    show size ≤ v.capacity
    rw [hsize, ← h.block, ← hlen, List.length_append]
    omega
  block := by
    show ((l' ++ rest).length : ℤ) = v.capacity
    rw [hlen, h.block]
  isPrefix := List.prefix_append _ _
  doubled := h.doubled

end Vector.Holds

/-! ### Growth -/

/-- A block keeps the elements that fit into its new cells. -/
lemma Allocator.realloc_ends (alloc : Allocator α) {data l : List (Option α)} {request : ℕ}
    (hkeep : l <+: data) (hle : l.length ≤ request / 8) :
    Ends (fun data' => data'.length = request / 8 ∧ l <+: data')
      (fun e => e = .assertFailed request ∧ alloc.grant request = none)
      (alloc.realloc data request) := by
  cases hgrant : alloc.grant request with
  | none =>
      rw [realloc, hgrant]
      exact ⟨rfl, rfl⟩
  | some fresh =>
      rw [realloc, hgrant]
      refine ⟨by rw [List.length_map, List.length_range], ?_⟩
      rw [List.prefix_iff_getElem?] at hkeep ⊢
      intro k hk
      rw [List.getElem?_map, List.getElem?_range (hk.trans_le hle), Option.map_some, hkeep k hk,
        Option.getD_some]

lemma requestOf_of_nonneg {c : ℤ} (h : 0 ≤ c) (h' : c < 2 ^ 32) :
    (requestOf c : ℤ) = c * 8 := by
  rw [requestOf, Int.emod_eq_of_lt h (by omega), Int.emod_eq_of_lt (by omega) (by omega)]
  omega

/-- The capacity after the last one: no allocator grants it. -/
lemma requestOf_overflow : 2 ^ 63 ≤ requestOf (toInt32 (10 * 2 ^ 27 * 2)) := by
  norm_num [requestOf, toInt32, Int.bmod]

namespace Vector

variable {v : Vector α} {l : List (Option α)} {alloc : Allocator α}

/-- The answer to the request for a larger block. -/
lemma realloc_refused {len request : ℕ} (h : request < 2 ^ 63 ∨ maxSize < len) (e : Stop)
    (he : e = .assertFailed request ∧ alloc.grant request = none) : Refused alloc len e := by
  rw [he.1]
  exact ⟨he.2, h⟩

/-- After the check there is room for an element, or memory for it was refused. -/
lemma doubleCapacityIfFull_ends (alloc : Allocator α) (h : v.Holds l) :
    Ends (fun v' => v'.Holds l ∧ v'.size < v'.capacity) (Refused alloc (l.length + 1))
      (v.doubleCapacityIfFull alloc) := by
  obtain ⟨k, hk, hcapacity⟩ := h.doubled
  have hsize := h.size_eq
  have hle := h.size_le
  by_cases hfull : v.capacity ≤ v.size
  · rw [doubleCapacityIfFull, if_pos hfull]
    rcases Nat.lt_or_eq_of_le hk with hlt | rfl
    · have hpow : (0 : ℤ) < 2 ^ k := by positivity
      have hpow' : (2 : ℤ) ^ k ≤ 2 ^ 26 := pow_le_pow_right₀ (by norm_num) (by omega)
      have hdouble : toInt32 (v.capacity * 2) = v.capacity * 2 :=
        toInt32_of_range (by omega) (by omega)
      have hrequest := requestOf_of_nonneg (c := v.capacity * 2) (by omega) (by omega)
      rw [hdouble]
      refine ((alloc.realloc_ends h.isPrefix (by omega)).mono (fun _ hdata => hdata)
        (realloc_refused (.inl (by omega)))).bind fun data hdata => ?_
      refine ⟨⟨⟨hsize, ?_, ?_, hdata.2⟩, k + 1, by omega, ?_⟩, ?_⟩
      · show v.size ≤ v.capacity * 2
        omega
      · show (data.length : ℤ) = v.capacity * 2
        omega
      · show v.capacity * 2 = 10 * 2 ^ (k + 1)
        rw [hcapacity, pow_succ]
        ring
      · show v.size < v.capacity * 2
        omega
    · -- the doubled capacity is negative as an `int`
      have hmany : maxSize < l.length + 1 := by
        rw [maxSize]
        omega
      have hrefused := alloc.refuses _ requestOf_overflow
      rw [hcapacity]
      show Ends _ _ (alloc.realloc v.data (requestOf (toInt32 (10 * 2 ^ 27 * 2))) >>= _)
      rw [Allocator.realloc, hrefused]
      exact ⟨hrefused, .inr hmany⟩
  · rw [doubleCapacityIfFull, if_neg hfull]
    exact ⟨h, not_le.mp hfull⟩

/-- One more element. -/
lemma append_ends (alloc : Allocator α) (h : v.Holds l) (element : Option α) :
    Ends (fun p => p.1.Holds (l ++ [element]) ∧ p.2 = true) (Refused alloc (l.length + 1))
      (v.append alloc element) := by
  refine (doubleCapacityIfFull_ends alloc h).bind fun v' hv' => ?_
  obtain ⟨hholds, hlt⟩ := hv'
  obtain ⟨x, rest, hdata⟩ := hholds.exists_cell hlt
  rw [Buffer.write_eq Stop.outOfBounds hdata hholds.size_eq hlt, hholds.toInt32_size_add_one hlt]
  have hcells : l ++ element :: rest = (l ++ [element]) ++ rest := by
    rw [List.append_assoc, List.singleton_append]
  rw [hcells]
  refine ⟨hholds.replaced ?_ ?_, rfl⟩
  · rw [hdata]
    simp
  · rw [hholds.size_eq]
    simp

/-! ### Padding -/

lemma rightpad_of_le {n : ℕ} (h : n ≤ l.length) : l.rightpad n none = l := by
  rw [List.rightpad, Nat.sub_eq_zero_of_le h, List.replicate_zero, List.append_nil]

lemma rightpad_append_none {n : ℕ} (h : l.length < n) :
    (l ++ [none]).rightpad n none = l.rightpad n none := by
  have hcount : n - l.length = n - (l.length + 1) + 1 := by omega
  rw [List.rightpad, List.rightpad, List.length_append, List.length_singleton, hcount,
    List.replicate_succ, List.append_assoc, List.singleton_append]

/-- The loop ends, or memory for the padding was refused: the fuel is more than any
vector has elements. -/
lemma pad_ends (alloc : Allocator α) (h : v.Holds l) (bound : ℤ) {fuel : ℕ}
    (hfuel : maxSize < fuel + l.length) :
    Ends (fun v' => v'.Holds (l.rightpad bound.toNat none))
      (Refused alloc (l.rightpad bound.toNat none).length) (v.pad alloc bound fuel) := by
  induction fuel generalizing v l with
  | zero =>
      have hle := h.length_le
      omega
  | succ fuel ih =>
      have hsize := h.size_eq
      rw [pad]
      by_cases hlt : v.size < bound
      · rw [if_pos hlt]
        have hgrow : l.length + 1 ≤ (l.rightpad bound.toNat none).length := by
          rw [List.length_rightpad]
          omega
        refine ((append_ends alloc h none).mono (fun _ hp => hp) (Refused.mono hgrow)).bind
          fun p hp => ?_
        rw [← rightpad_append_none (by omega)]
        refine ih hp.1 ?_
        rw [List.length_append, List.length_singleton]
        omega
      · rw [if_neg hlt, rightpad_of_le (by omega)]
        exact h

/-- There are fewer sizes than rounds. -/
lemma pad_all_ends (alloc : Allocator α) (h : v.Holds l) (bound : ℤ) :
    Ends (fun v' => v'.Holds (l.rightpad bound.toNat none))
      (Refused alloc (l.rightpad bound.toNat none).length) (v.pad alloc bound (2 ^ 32)) := by
  refine pad_ends alloc h bound ?_
  rw [maxSize]
  omega

/-- An element in the place of another. -/
lemma write_ends (h : v.Holds l) {n : ℕ} (hn : n < l.length) (element : Option α) :
    ∃ buffer, v.toBuffer.write Stop.outOfBounds n element = .ok buffer
      ∧ Holds { toBuffer := buffer, size := v.size } (l.set n element) := by
  obtain ⟨front, x, mid, rest, rfl, rfl, hdata, hsize⟩ := h.split hn
  have hset : (front ++ x :: mid).set front.length element = front ++ element :: mid := by
    rw [List.set_append_right _ _ le_rfl, Nat.sub_self]
    rfl
  have hle := h.size_le
  refine ⟨_, Buffer.write_eq Stop.outOfBounds hdata rfl (by omega), ?_⟩
  rw [hset, ← List.cons_append, ← List.append_assoc]
  refine h.replaced ?_ ?_
  · rw [hdata]
    simp
  · rw [h.size_eq]
    simp

lemma set_ends (alloc : Allocator α) (h : v.Holds l) (index : ℤ) (element : Option α) :
    Ends (fun v' => v'.Holds (if index < 0 then l
        else (l.rightpad (index + 1).toNat none).set index.toNat element))
      (Refused alloc (if index < 0 then l
        else (l.rightpad (index + 1).toNat none).set index.toNat element).length)
      (v.set alloc index element) := by
  have hpad := pad_all_ends alloc h (index + 1)
  by_cases hneg : index < 0
  · rw [rightpad_of_le (by omega)] at hpad
    rw [if_pos hneg]
    refine hpad.bind fun v' hv' => ?_
    rw [if_neg (by omega)]
    exact hv'
  · rw [if_neg hneg, List.length_set]
    refine hpad.bind fun v' hv' => ?_
    have hlt : index.toNat < (l.rightpad (index + 1).toNat none).length := by
      rw [List.length_rightpad]
      omega
    obtain ⟨buffer, hwrite, hholds⟩ := write_ends hv' hlt element
    rw [Int.toNat_of_nonneg (by omega)] at hwrite
    rw [if_pos (by omega), hwrite]
    exact hholds

/-! ### Shifting -/

/-- The elements behind one move down over it, and the last cell is cleared. -/
lemma moveDown_ends (h : v.Holds l) {front mid rest : List (Option α)} {x : Option α}
    (hdata : v.data = front ++ x :: (mid ++ rest))
    (hsize : v.size = front.length + mid.length + 1) :
    ∃ buffer, (List.range' front.length mid.length).foldlM
          (fun b (i : ℕ) => b.move Stop.outOfBounds i (i + 1)) v.toBuffer = .ok buffer
      ∧ ∃ buffer', buffer.write Stop.outOfBounds (v.size - 1) none = .ok buffer'
        ∧ Holds { toBuffer := buffer', size := v.size - 1 } (front ++ mid) := by
  have hle := h.size_le
  have hlast : v.size - 1 = (front ++ mid).length := by
    rw [hsize, List.length_append]
    push_cast
    ring
  obtain ⟨y, hloop⟩ := Buffer.foldlM_moveDown Stop.outOfBounds hdata (by omega)
  refine ⟨_, hloop, _, Buffer.write_eq Stop.outOfBounds (List.append_assoc _ _ _).symm hlast
    (show _ < v.capacity by omega), h.replaced ?_ hlast⟩
  rw [hdata]
  simp
  omega

lemma remove_ends (h : v.Holds l) (index : ℤ) :
    Ends (fun p => p.1.Holds (if 0 ≤ index ∧ index < l.length then l.eraseIdx index.toNat else l)
        ∧ p.2 = decide (0 ≤ index ∧ index < l.length)) (fun _ => False) (v.remove index) := by
  rw [remove, h.size_eq]
  by_cases hin : 0 ≤ index ∧ index < l.length
  · rw [if_pos hin, if_pos hin, decide_eq_true hin, ← h.size_eq]
    obtain ⟨front, x, mid, rest, hfront, rfl, hdata, hsize⟩ :=
      h.split (show index.toNat < l.length by omega)
    obtain ⟨buffer, hloop, buffer', hwrite, hholds⟩ := moveDown_ends h hdata hsize
    have hcount : (v.size - 1 - index).toNat = mid.length := by omega
    have herase : (front ++ x :: mid).eraseIdx front.length = front ++ mid := by
      rw [List.eraseIdx_append_of_length_le le_rfl, Nat.sub_self]
      rfl
    rw [hcount, ← hfront, herase, h.toInt32_size_sub_one]
    exact Ends.of_ok hloop (Ends.of_ok hwrite ⟨hholds, rfl⟩)
  · rw [if_neg hin, if_neg hin, decide_eq_false hin]
    exact ⟨h, rfl⟩

lemma insertIdx_append (front mid : List (Option α)) (element : Option α) :
    (front ++ mid).insertIdx front.length element = front ++ element :: mid := by
  induction front with
  | nil => rfl
  | cons x front ih =>
      rw [List.cons_append, List.length_cons, List.insertIdx_succ_cons, ih, List.cons_append]

/-- The elements behind the index move up in a vector that is not full. -/
lemma moveUp_ends (h : v.Holds l) (hlt : v.size < v.capacity) {front mid : List (Option α)}
    (hl : l = front ++ mid) (element : Option α) :
    ∃ buffer, (List.range' front.length mid.length).reverse.foldlM
          (fun b (i : ℕ) => b.move Stop.outOfBounds (i + 1) i) v.toBuffer = .ok buffer
      ∧ ∃ buffer', buffer.write Stop.outOfBounds front.length element = .ok buffer'
        ∧ Holds { toBuffer := buffer', size := v.size + 1 } (front ++ element :: mid) := by
  obtain ⟨y, rest, hdata⟩ := h.exists_cell hlt
  have hsize := h.size_eq
  rw [hl, List.length_append] at hsize
  rw [hl, List.append_assoc] at hdata
  obtain ⟨x, hloop⟩ := Buffer.foldlM_moveUp Stop.outOfBounds hdata (by omega)
  refine ⟨_, hloop, _, Buffer.write_eq Stop.outOfBounds rfl rfl (show _ < v.capacity by omega), ?_⟩
  have hcells : front ++ element :: (mid ++ rest) = (front ++ element :: mid) ++ rest := by
    rw [List.append_assoc, List.cons_append]
  rw [hcells]
  refine h.replaced ?_ ?_
  · rw [hdata]
    simp
    omega
  · rw [hsize]
    simp
    omega

lemma insert_ends (alloc : Allocator α) (h : v.Holds l) (index : ℤ) (element : Option α) :
    Ends (fun p => p.1.Holds (if index < 0 then l
          else (l.rightpad index.toNat none).insertIdx index.toNat element)
        ∧ p.2 = decide (0 ≤ index))
      (Refused alloc (if index < 0 then l
        else (l.rightpad index.toNat none).insertIdx index.toNat element).length)
      (v.insert alloc index element) := by
  have hpad := pad_all_ends alloc h index
  by_cases hneg : index < 0
  · rw [rightpad_of_le (by omega)] at hpad
    rw [if_pos hneg, decide_eq_false (by omega)]
    refine hpad.bind fun v' hv' => ?_
    rw [if_neg (by omega)]
    exact ⟨hv', rfl⟩
  · rw [if_neg hneg, decide_eq_true (by omega)]
    set p := l.rightpad index.toNat none with hp
    have hle : index.toNat ≤ p.length := by
      rw [hp, List.length_rightpad]
      omega
    rw [List.length_insertIdx_of_le_length hle]
    refine (hpad.mono (fun _ hv' => hv') (Refused.mono (Nat.le_succ _))).bind fun v' hv' => ?_
    rw [if_pos (by omega)]
    refine (doubleCapacityIfFull_ends alloc hv').bind fun v'' hv'' => ?_
    obtain ⟨hholds, hlt⟩ := hv''
    have hfront : (p.take index.toNat).length = index.toNat := List.length_take_of_le hle
    have hcount : (v''.size - index).toNat = (p.drop index.toNat).length := by
      rw [hholds.size_eq, List.length_drop]
      omega
    obtain ⟨buffer, hloop, buffer', hwrite, hholds'⟩ :=
      moveUp_ends hholds hlt (List.take_append_drop index.toNat p).symm element
    rw [hfront] at hloop hwrite
    rw [Int.toNat_of_nonneg (by omega)] at hwrite
    rw [hcount]
    have hinsert := insertIdx_append (p.take index.toNat) (p.drop index.toNat) element
    rw [List.take_append_drop, hfront] at hinsert
    rw [hinsert, hholds.toInt32_size_add_one hlt]
    exact Ends.of_ok hloop (Ends.of_ok hwrite ⟨hholds', rfl⟩)

lemma clear_ends (alloc : Allocator α) (v : Vector α) :
    Ends (fun v' => v'.Holds []) (Refused alloc 0) (v.clear alloc) := by
  have hrequest : requestOf vectorInitialCapacity = 80 := rfl
  refine ((alloc.realloc_ends List.nil_prefix (Nat.zero_le _)).mono (fun _ hdata => hdata)
    (realloc_refused (.inl ?_))).bind fun data hdata => ?_
  · rw [hrequest]
    norm_num
  · refine ⟨⟨rfl, ?_, ?_, hdata.2⟩, 0, Nat.zero_le _, rfl⟩
    · show (0 : ℤ) ≤ vectorInitialCapacity
      norm_num [vectorInitialCapacity]
    · show (data.length : ℤ) = vectorInitialCapacity
      rw [hdata.1, hrequest]
      rfl

lemma create_ends (alloc : Allocator α) :
    Ends (fun v => v.Holds []) (Refused alloc 0) (create alloc) := by
  refine ((alloc.realloc_ends List.nil_prefix (Nat.zero_le _)).mono (fun _ hdata => hdata)
    (realloc_refused (.inl ?_))).bind fun _ _ => ?_
  · norm_num
  · exact clear_ends alloc { size := 0, capacity := 0, data := [] }

/-- A new vector has no elements. -/
lemma holds_of_create (h : create alloc = .ok v) : v.Holds [] := by
  have hends := create_ends alloc
  rw [h] at hends
  exact hends

lemma exists_created : ∃ s : ι → Vector α, ∀ i, ∃ alloc, create alloc = .ok (s i) :=
  ⟨fun _ => _, fun _ => ⟨.generous α, rfl⟩⟩

/-! ### Reading -/

/-- An element of the list is read, and `NULL` outside of it. -/
lemma get_eq (h : v.Shows l) (index : ℤ) :
    v.get index = .ok (if index < 0 then none else (l[index.toNat]?).join) := by
  have hsize := h.size_eq
  by_cases hneg : index < 0
  · rw [get, if_pos (.inr hneg), if_pos hneg]
  · rw [if_neg hneg]
    by_cases hout : v.size ≤ index
    · rw [get, if_pos (.inl hout), List.getElem?_eq_none (by omega)]
      rfl
    · obtain ⟨front, x, mid, hfront, rfl⟩ := exists_split (show index.toNat < l.length by omega)
      obtain ⟨rest, hdata⟩ := h.isPrefix
      rw [List.append_assoc, List.cons_append] at hdata
      rw [get, if_neg (by omega), Buffer.read_eq Stop.outOfBounds hdata.symm (by omega), ← hfront,
        List.getElem?_append_right le_rfl, Nat.sub_self]
      rfl

/-- The search over the indices of a stretch of the elements. -/
lemma search_eq (found : Option α → Bool) {front rest tail : List (Option α)}
    (h : v.data = front ++ (rest ++ tail)) :
    v.search found (List.range' front.length rest.length)
      = .ok ((rest.findIdx? found).elim (-1) fun k => (front.length + k : ℕ)) := by
  induction rest generalizing front with
  | nil => rfl
  | cons x rest ih =>
      have hnext : v.search found (List.range' (front ++ [x]).length rest.length)
          = .ok ((rest.findIdx? found).elim (-1) fun k => ((front ++ [x]).length + k : ℕ)) :=
        ih (by rw [h]; simp)
      rw [List.length_append, List.length_singleton] at hnext
      rw [List.length_cons, List.range'_succ, search, Buffer.read_eq Stop.outOfBounds h rfl,
        List.findIdx?_cons]
      cases hfound : found x with
      | true =>
          show (if found x = true then Except.ok _ else _) = _
          rw [if_pos hfound]
          rfl
      | false =>
          show (if found x = true then Except.ok _ else _) = _
          rw [if_neg (ne_true_of_eq_false hfound), hnext]
          cases rest.findIdx? found with
          | none => rfl
          | some k =>
              have hindex : front.length + 1 + k = front.length + (k + 1) := by omega
              exact congrArg (fun i : ℕ => Except.ok (i : ℤ)) hindex

lemma search_range (h : v.Shows l) (found : Option α → Bool) :
    v.search found (List.range v.size.toNat)
      = .ok ((l.findIdx? found).elim (-1) fun k => (k : ℤ)) := by
  obtain ⟨tail, hdata⟩ := h.isPrefix
  have hsearch := search_eq found (show v.data = [] ++ (l ++ tail) from hdata.symm)
  rw [List.length_nil, ← List.range_eq_range'] at hsearch
  rw [h.size_eq, Int.toNat_natCast, hsearch]
  simp only [Nat.zero_add]

/-- The search says whether there is such an element. -/
lemma map_search_range (h : v.Shows l) (found : Option α → Bool) :
    (v.search found (List.range v.size.toNat)).map (fun index => decide (0 ≤ index))
      = .ok (l.any found) := by
  rw [search_range h, ← List.findIdx?_isSome]
  cases l.findIdx? found with
  | none => rfl
  | some k => exact congrArg Except.ok (decide_eq_true (Int.natCast_nonneg k))

lemma containsbycompare_eq (h : v.Shows l) (element : Option α)
    (elementCompare : Option α → Option α → ℤ) :
    v.containsbycompare element elementCompare
      = .ok (l.any fun x => elementCompare x element = 0) :=
  map_search_range h _

lemma isempty_eq (h : v.Shows l) : v.isempty = l.isEmpty := by
  rw [isempty, h.size_eq, Bool.eq_iff_iff, decide_eq_true_iff, List.isEmpty_iff,
    Int.natCast_eq_zero, List.length_eq_zero_iff]

section Equality

variable [DecidableEq α]

/-- The index of the first element that is the same pointer, or -1. -/
lemma getindex_eq (h : v.Shows l) (element : Option α) :
    v.getindex element
      = .ok ((l.findIdx? fun x => x = element).elim (-1) fun k => (k : ℤ)) :=
  search_range h _

lemma findIdx?_isSome_iff (element : Option α) :
    (l.findIdx? fun x => x = element).isSome = decide (element ∈ l) := by
  rw [List.findIdx?_isSome, Bool.eq_iff_iff, List.any_eq_true, decide_eq_true_iff]
  constructor
  · rintro ⟨x, hx, hxe⟩
    rwa [← of_decide_eq_true hxe]
  · exact fun hmem => ⟨element, hmem, decide_eq_true rfl⟩

lemma contains_eq (h : v.Shows l) (element : Option α) :
    v.contains element = .ok (decide (element ∈ l)) := by
  rw [contains, getindex, map_search_range h, ← findIdx?_isSome_iff, List.findIdx?_isSome]

lemma erase_eq (element : Option α) :
    l.erase element = (l.findIdx? fun x => x = element).elim l l.eraseIdx := by
  have hsame : (fun x => x == element) = fun x => decide (x = element) := by
    funext x
    rw [Bool.eq_iff_iff, beq_iff_eq, decide_eq_true_iff]
  rw [List.erase_eq_eraseP', List.eraseP_eq_eraseIdx, hsame]
  cases l.findIdx? fun x => x = element <;> rfl

/-- The element that was found is removed. -/
lemma remove_found_ends (h : v.Holds l) {element : Option α} {k : ℕ}
    (hfind : (l.findIdx? fun x => x = element) = some k) :
    Ends (fun p => p.1.Holds (l.erase element) ∧ p.2 = true) (fun _ => False) (v.remove k) := by
  have hk : k < l.length := (List.findIdx?_eq_some_iff_getElem.mp hfind).1
  have hin : (0 : ℤ) ≤ k ∧ (k : ℤ) < l.length := ⟨by omega, by omega⟩
  have hremove := remove_ends h k
  rw [if_pos hin, decide_eq_true hin, Int.toNat_natCast] at hremove
  rw [erase_eq, hfind]
  exact hremove

lemma delete_ends (h : v.Holds l) (element : Option α) :
    Ends (fun p => p.1.Holds (l.erase element) ∧ p.2 = decide (element ∈ l)) (fun _ => False)
      (v.delete element) := by
  refine Ends.of_ok (getindex_eq h.toShows element) ?_
  rw [← findIdx?_isSome_iff]
  cases hfind : l.findIdx? fun x => x = element with
  | none =>
      rw [erase_eq, hfind]
      exact ⟨h, rfl⟩
  | some k =>
      show Ends _ _ (if (0 : ℤ) ≤ k then v.remove k else .ok (v, false))
      rw [if_pos (Int.natCast_nonneg k)]
      exact remove_found_ends h hfind

end Equality

/-! ### Appending a vector -/

section Store

variable [DecidableEq ι]

/-- One vector of a store is changed, and its list. -/
lemma holds_update {s : ι → Vector α} {lists : ι → List (Option α)}
    (h : ∀ i, (s i).Holds (lists i)) {self : ι} (hv : v.Holds l) (i : ι) :
    (Function.update s self v i).Holds (Function.update lists self l i) := by
  by_cases hi : i = self
  · subst hi
    rw [Function.update_self, Function.update_self]
    exact hv
  · rw [Function.update_of_ne hi, Function.update_of_ne hi]
    exact h i

/-- The lists after the elements of `l` that are not `NULL` were appended to one. -/
def appendedAll (lists : ι → List (Option α)) (self : ι) (l : List (Option α)) :
    ι → List (Option α) :=
  Function.update lists self (lists self ++ l.filter Option.isSome)

/-- What was appended does not stand in front of an element that was there. -/
lemma getElem?_appendedAll {lists : ι → List (Option α)} (self : ι) (l : List (Option α))
    {other : ι} {k : ℕ} (hk : k < (lists other).length) :
    (appendedAll lists self l other)[k]? = some (lists other)[k] := by
  rw [appendedAll, Function.update_apply]
  split_ifs with hself
  · subst hself
    rw [List.getElem?_append_left hk, List.getElem?_eq_getElem hk]
  · exact List.getElem?_eq_getElem hk

lemma appendallRound_ends (alloc : Allocator α) {s : ι → Vector α} {lists : ι → List (Option α)}
    {self other : ι} {k : ℕ} (hk : k < (lists other).length)
    (h : ∀ i, (s i).Holds (appendedAll lists self ((lists other).take k) i)) :
    Ends (fun s' => ∀ i, (s' i).Holds (appendedAll lists self ((lists other).take (k + 1)) i))
      (Refused alloc (lists self ++ (lists other).filter Option.isSome).length)
      (appendallRound alloc self other s k) := by
  have hget : (s other).get k = .ok (lists other)[k] := by
    rw [get_eq (h other).toShows, if_neg (by omega), Int.toNat_natCast,
      getElem?_appendedAll self _ hk, Option.join_some]
  have htake : ((lists other).take (k + 1)).filter Option.isSome
      = ((lists other).take k).filter Option.isSome ++ [(lists other)[k]].filter Option.isSome := by
    rw [← List.filter_append, ← List.take_append_getElem hk]
  have hself : appendedAll lists self ((lists other).take k) self
      = lists self ++ ((lists other).take k).filter Option.isSome := Function.update_self ..
  refine Ends.of_ok hget ?_
  cases helement : (lists other)[k] with
  | none =>
      have hsame : appendedAll lists self ((lists other).take (k + 1))
          = appendedAll lists self ((lists other).take k) := by
        rw [appendedAll, appendedAll, htake, helement]
        simp
      rw [hsame]
      exact h
  | some x =>
      have hnext : lists self ++ ((lists other).take (k + 1)).filter Option.isSome
          = appendedAll lists self ((lists other).take k) self ++ [some x] := by
        rw [hself, htake, helement, List.append_assoc]
        rfl
      have hle : (appendedAll lists self ((lists other).take k) self).length + 1
          ≤ (lists self ++ (lists other).filter Option.isSome).length := by
        have hsub := ((List.take_sublist (k + 1) (lists other)).filter Option.isSome).length_le
        have hlen := congrArg List.length hnext
        simp only [List.length_append, List.length_singleton] at hlen ⊢
        omega
      refine ((append_ends alloc (h self) (some x)).mono (fun _ hp => hp)
        (Refused.mono hle)).bind fun p hp => ?_
      have hupdate : appendedAll lists self ((lists other).take (k + 1))
          = Function.update (appendedAll lists self ((lists other).take k)) self
            (appendedAll lists self ((lists other).take k) self ++ [some x]) := by
        rw [appendedAll, hnext, appendedAll, Function.update_idem]
      rw [hupdate]
      exact holds_update h hp.1

/-- The elements of `other` that are not `NULL` are appended; if it is the vector itself,
those that it had before. -/
lemma appendall_ends (alloc : Allocator α) {s : ι → Vector α} {lists : ι → List (Option α)}
    (h : ∀ i, (s i).Holds (lists i)) (self other : ι) :
    Ends (fun s' => ∀ i, (s' i).Holds (appendedAll lists self (lists other) i))
      (Refused alloc (lists self ++ (lists other).filter Option.isSome).length)
      (appendall alloc s self other) := by
  have hn : (s other).getsize.toNat = (lists other).length := by
    rw [getsize, (h other).size_eq, Int.toNat_natCast]
  have hzero : appendedAll lists self ((lists other).take 0) = lists := by
    rw [appendedAll, List.take_zero, List.filter_nil, List.append_nil, Function.update_eq_self]
  have hall := Ends.foldlM_range (n := (lists other).length) (a := s)
    (fun k s => ∀ i, (s i).Holds (appendedAll lists self ((lists other).take k) i))
    (by rw [hzero]; exact h) fun k hk s hs => appendallRound_ends alloc hk hs
  rw [List.take_length] at hall
  rw [appendall, hn]
  exact hall

end Store

/-! ### Calls -/

/-- A function with its arguments. -/
inductive Op (ι α : Type) where
  | append (element : Option α)
  | appendall (other : ι)
  | delete (element : Option α)
  | set (index : ℤ) (element : Option α)
  | remove (index : ℤ)
  | insert (index : ℤ) (element : Option α)
  | clear

/-- A function is called on a vector of a store, and memory is allocated meanwhile. -/
structure Call (ι α : Type) where
  self : ι
  op : Op ι α
  alloc : Allocator α

/-- The vector and the function, without the memory. -/
def Call.request (c : Call ι α) : ι × Op ι α := (c.self, c.op)

variable [DecidableEq ι] [DecidableEq α]

/-- What a call makes of the store, and what it returns if it returns something. -/
def Call.step (c : Call ι α) (s : ι → Vector α) :
    Except Stop ((ι → Vector α) × Option Bool) :=
  match c.op with
  | .append element => do
      let (v, appended) ← (s c.self).append c.alloc element
      .ok (Function.update s c.self v, some appended)
  | .appendall other => do
      let s ← appendall c.alloc s c.self other
      .ok (s, none)
  | .delete element => do
      let (v, deleted) ← (s c.self).delete element
      .ok (Function.update s c.self v, some deleted)
  | .set index element => do
      let v ← (s c.self).set c.alloc index element
      .ok (Function.update s c.self v, none)
  | .remove index => do
      let (v, removed) ← (s c.self).remove index
      .ok (Function.update s c.self v, some removed)
  | .insert index element => do
      let (v, inserted) ← (s c.self).insert c.alloc index element
      .ok (Function.update s c.self v, some inserted)
  | .clear => do
      let v ← (s c.self).clear c.alloc
      .ok (Function.update s c.self v, none)

/-- What a function does to lists: the new list in the place of the one it is called on,
and the answer. -/
def Op.onLists (lists : ι → List (Option α)) (self : ι) :
    Op ι α → List (Option α) × Option Bool
  | .append element => (lists self ++ [element], some true)
  | .appendall other => (lists self ++ (lists other).filter Option.isSome, none)
  | .delete element => ((lists self).erase element, some (decide (element ∈ lists self)))
  | .set index element =>
      (if index < 0 then lists self
        else ((lists self).rightpad (index + 1).toNat none).set index.toNat element, none)
  | .remove index =>
      (if 0 ≤ index ∧ index < (lists self).length then (lists self).eraseIdx index.toNat
        else lists self, some (decide (0 ≤ index ∧ index < (lists self).length)))
  | .insert index element =>
      (if index < 0 then lists self
        else ((lists self).rightpad index.toNat none).insertIdx index.toNat element,
        some (decide (0 ≤ index)))
  | .clear => ([], none)

/-- The lists after a call. -/
def Op.next (lists : ι → List (Option α)) (self : ι) (op : Op ι α) : ι → List (Option α) :=
  Function.update lists self (op.onLists lists self).1

/-- A call makes of the vectors what it should make of the lists, and returns the same,
unless memory is refused. -/
theorem Call.step_ends (c : Call ι α) {s : ι → Vector α} {lists : ι → List (Option α)}
    (h : ∀ i, (s i).Holds (lists i)) :
    Ends (fun p => (∀ i, (p.1 i).Holds (c.op.next lists c.self i))
        ∧ p.2 = (c.op.onLists lists c.self).2)
      (Refused c.alloc (c.op.onLists lists c.self).1.length) (c.step s) := by
  obtain ⟨self, op, alloc⟩ := c
  cases op with
  | append element =>
      refine ((append_ends alloc (h self) element).mono (fun _ hp => hp) (Refused.mono ?_)).bind
        fun p hp => ⟨holds_update h hp.1, congrArg some hp.2⟩
      rw [Op.onLists, List.length_append, List.length_singleton]
  | appendall other =>
      exact (appendall_ends alloc h self other).bind fun s' hs' => ⟨hs', rfl⟩
  | delete element =>
      exact (delete_ends (h self) element).of_never.bind fun p hp =>
        ⟨holds_update h hp.1, congrArg some hp.2⟩
  | set index element =>
      exact (set_ends alloc (h self) index element).bind fun v hv =>
        ⟨holds_update h hv, rfl⟩
  | remove index =>
      exact (remove_ends (h self) index).of_never.bind fun p hp =>
        ⟨holds_update h hp.1, congrArg some hp.2⟩
  | insert index element =>
      exact (insert_ends alloc (h self) index element).bind fun p hp =>
        ⟨holds_update h hp.1, congrArg some hp.2⟩
  | clear =>
      exact (clear_ends alloc (s self)).bind fun v hv => ⟨holds_update h hv, rfl⟩

/-! ### Runs -/

/-- In every state of the run the vectors show the lists, and the calls return what they
do on lists; the run stops only if memory runs out. -/
def Behaves : List (Call ι α) → (ι → Vector α) → (ι → List (Option α)) → Prop
  | [], s, lists => ∀ i, (s i).Shows (lists i)
  | c :: calls, s, lists =>
      (∀ i, (s i).Shows (lists i))
        ∧ Ends (fun p => p.2 = (c.op.onLists lists c.self).2
            ∧ Behaves calls p.1 (c.op.next lists c.self)) OutOfMemory (c.step s)

/-- No call makes a list longer than `maxSize`. -/
def Fits : (ι → List (Option α)) → List (ι × Op ι α) → Prop
  | _, [] => True
  | lists, (self, op) :: ops =>
      (op.onLists lists self).1.length ≤ maxSize ∧ Fits (op.next lists self) ops

/-- A run whose lists fit behaves as the lists. -/
lemma behaves_of_fits {calls : List (Call ι α)} {s : ι → Vector α} {lists : ι → List (Option α)}
    (h : ∀ i, (s i).Holds (lists i)) (hfits : Fits lists (calls.map Call.request)) :
    Behaves calls s lists := by
  induction calls generalizing s lists with
  | nil => exact fun i => (h i).toShows
  | cons c calls ih =>
      obtain ⟨hlen, hrest⟩ := hfits
      exact ⟨fun i => (h i).toShows, (c.step_ends h).mono (fun p hp => ⟨hp.2, ih hp.1 hrest⟩)
        (Refused.outOfMemory hlen)⟩

/-- With enough memory a run that behaves as lists has lists that fit. -/
lemma fits_of_behaves {ops : List (ι × Op ι α)} {s : ι → Vector α} {lists : ι → List (Option α)}
    (h : ∀ i, (s i).Holds (lists i))
    (hbehaves : Behaves (ops.map fun r => ⟨r.1, r.2, .generous α⟩) s lists) : Fits lists ops := by
  induction ops generalizing s lists with
  | nil => trivial
  | cons r ops ih =>
      obtain ⟨-, hends⟩ := hbehaves
      have hstep := Call.step_ends ⟨r.1, r.2, .generous α⟩ h
      cases hresult : Call.step ⟨r.1, r.2, .generous α⟩ s with
      | ok p =>
          rw [hresult] at hends hstep
          have hholds := hstep.1 r.1
          rw [Op.next, Function.update_self] at hholds
          exact ⟨hholds.length_le, ih hstep.1 hends.2⟩
      | error e =>
          rw [hresult] at hends hstep
          exact absurd hends (not_outOfMemory hstep)

/-- Runs that make these calls on new vectors behave as lists, whatever memory is
granted. -/
def AlwaysBehaves (ops : List (ι × Op ι α)) : Prop :=
  ∀ (s : ι → Vector α) (calls : List (Call ι α)),
    (∀ i, ∃ alloc, create alloc = .ok (s i)) → calls.map Call.request = ops →
    Behaves calls s fun _ => []

lemma fits_of_alwaysBehaves {ops : List (ι × Op ι α)} (h : AlwaysBehaves ops) :
    Fits (fun _ => []) ops := by
  obtain ⟨s, hs⟩ := exists_created (ι := ι) (α := α)
  refine fits_of_behaves (fun i => ?_) (h s _ hs ?_)
  · obtain ⟨alloc, hcreate⟩ := hs i
    exact holds_of_create hcreate
  · rw [List.map_map]
    exact List.map_id _

/-- The vectors behave as lists exactly as long as no list grows past `maxSize`. -/
theorem alwaysBehaves_iff (ops : List (ι × Op ι α)) :
    AlwaysBehaves ops ↔ Fits (fun _ => []) ops := by
  refine ⟨fits_of_alwaysBehaves, fun hfits s calls hs hcalls => ?_⟩
  refine behaves_of_fits (fun i => ?_) (hcalls ▸ hfits)
  obtain ⟨alloc, hcreate⟩ := hs i
  exact holds_of_create hcreate

/-- An element behind `maxSize` others does not fit. -/
theorem set_behind_maxSize :
    ¬AlwaysBehaves [((), Op.set (ι := Unit) 1342177280 (some 0 : Option ℕ))] := by
  intro h
  have hlen := (fits_of_alwaysBehaves h).1
  rw [Op.onLists, if_neg (by norm_num), List.length_set, List.length_rightpad, maxSize] at hlen
  norm_num at hlen

end Vector

end KubeSafeScheduler.Utils
