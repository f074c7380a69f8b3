import KubeSafeScheduler.Lib.Exact
import KubeSafeScheduler.Lib.StringMap

/-!
`utils/hashmap.c`: a hash table with open addressing and double hashing.

A removed entry keeps its place, marked as not active. The keys are strings and
the data are not `NULL`. The numbers of `rand()` that the primality test will
see are part of the state. A search for a new size that never ends, or leaves
the range of `int`, is a result of `none`, and so is an insertion that waits for
one.

* `hashfunction`, `probePath`: the slots that the loops visit for a key.
* `isPrime`, `findPrimeGreaterThan`, `rehash`; `insert`, `remove`, `get`,
  `getkeys`.
* `insert_eq_insertFuel`: the number of nested enlargements that the definition
  of `insert` allows for is never reached.
-/

namespace KubeSafeScheduler.Utils

/-! ### The hash function -/

/-- `HIGH_BITS`. -/
def highBits : UInt64 := ~~~((~~~(0 : UInt64)) >>> 8)

/-- One round of the loop of `hashfunction`; a `char` is signed. -/
def hashStep (hashValue : UInt64) (c : UInt8) : UInt64 :=
  let hashValue := (hashValue <<< 8) + (if c < 128 then c.toUInt64 else c.toUInt64 - 256)
  let i := hashValue &&& highBits
  if i ≠ 0 then (hashValue ^^^ (i >>> 48)) &&& ~~~highBits else hashValue

/-- `hashfunction`. -/
def hashfunction (datum : String) : UInt64 := datum.toUTF8.toList.foldl hashStep 0

/-- The slots that the loops visit for a key in a table of the given size, in
order: `size` many, `step` apart. -/
def probePath (size : ℕ) (keystring : String) : List ℕ :=
  let key := (hashfunction keystring).toNat
  let step := key % (size - 2) + 1
  List.iterate (fun index => (index + step) % size) (key % size) size

/-! ### Sizes -/

/-- The outputs of `rand()` that are still to come. -/
abbrev Rand : Type := ℕ → ℕ

/-- `(x * y) % val`, where the product is an `int` and `val` an
`unsigned long`. -/
def mulMod (x y : ℤ) (val : ℕ) : ℤ := toInt32 (toInt32 (x * y) % 2 ^ 64 % val)

/-- The inner loop of `isPrime`, with at most `fuel` bits of the exponent. -/
def powLoop (val : ℕ) : ℕ → ℤ → ℤ → ℕ → ℤ
  | 0, p, _, _ => p
  | fuel + 1, p, a, exp =>
      if exp = 0 then p
      else powLoop val fuel (if exp % 2 = 1 then mulMod p a val else p) (mulMod a a val) (exp / 2)

/-- The outer loop of `isPrime`: `rounds` random bases. -/
def isPrimeLoop (val : ℕ) : ℕ → Rand → Bool × Rand
  | 0, rand => (true, rand)
  | rounds + 1, rand =>
      let a := toInt32 ((rand 0 % (val - 4) + 2 : ℕ) : ℤ)
      let rand : Rand := fun k => rand (k + 1)
      if powLoop val 31 1 a (val - 1) ≠ 1 then (false, rand) else isPrimeLoop val rounds rand

/-- `isPrime`, for numbers of type `int`. -/
def isPrime (val : ℕ) (rand : Rand) : Bool × Rand := isPrimeLoop val 9 rand

/-- The loop of `findPrimeGreaterThan`. A number that leaves the range of `int`
is negative, and `isPrime` does not return on it. -/
def searchPrime : ℕ → ℕ → Rand → Option (ℕ × Rand)
  | 0, _, _ => none
  | fuel + 1, val, rand =>
      if val < 2 ^ 31 then
        let (found, rand) := isPrime val rand
        if found then some (val, rand) else searchPrime fuel (val + 2) rand
      else none

/-- `findPrimeGreaterThan`: there are fewer than `2^30` candidates. -/
def findPrimeGreaterThan (val : ℕ) (rand : Rand) : Option (ℕ × Rand) :=
  if val < 2 ^ 31 then
    searchPrime (2 ^ 30) (if val % 2 = 1 then val + 2 else val + 1) rand
  else none

lemma searchPrime_bounds {fuel val : ℕ} {rand rand' : Rand} {p : ℕ}
    (h : searchPrime fuel val rand = some (p, rand')) : val ≤ p ∧ p < 2 ^ 31 := by
  induction fuel generalizing val rand with
  | zero => simp [searchPrime] at h
  | succ fuel ih =>
      rw [searchPrime] at h
      split_ifs at h with hval
      simp only at h
      split_ifs at h with hfound
      · obtain ⟨rfl, -⟩ := Prod.mk.inj (Option.some.inj h)
        exact ⟨le_refl _, hval⟩
      · have := ih h
        omega

/-- A size that is found is larger, and an `int`. -/
lemma findPrimeGreaterThan_bounds {val : ℕ} {rand rand' : Rand} {p : ℕ}
    (h : findPrimeGreaterThan val rand = some (p, rand')) : val < p ∧ p < 2 ^ 31 := by
  rw [findPrimeGreaterThan] at h
  split_ifs at h
  · have := searchPrime_bounds h
    omega
  · have := searchPrime_bounds h
    omega

/-! ### The table -/

/-- `hEntry`: `none` is `NULL`. -/
structure Entry (V : Type) where
  data : Option V
  active : Bool
  keystring : Option String
  deriving DecidableEq

/-- An entry that was never used. -/
def Entry.blank {V : Type} : Entry V := { data := none, active := false, keystring := none }

/-- `s_hashmap`. -/
structure Hashmap (V : Type) where
  size : ℕ
  count : ℕ
  table : ℕ → Entry V
  rand : Rand

namespace Hashmap

variable {V : Type}

/-- `hashmap_create(0)`: the size is `TABLE_STARTSIZE`. -/
def create (rand : Rand) : Hashmap V where
  size := 1021
  count := 0
  table := fun _ => Entry.blank
  rand := rand

/-- The `for` loop of `hashmap_insert` over the slots to visit; `none` when it
runs to its end. -/
def insertLoop (hm : Hashmap V) (data : V) (keystring : String) : List ℕ → Option (Hashmap V)
  | [] => none
  | index :: rest =>
      if (hm.table index).active then
        if (hm.table index).keystring = some keystring then
          some { hm with
            table := Function.update hm.table index { hm.table index with data := some data } }
        else insertLoop hm data keystring rest
      else
        some { hm with
          table := Function.update hm.table index
            { data := some data, active := true, keystring := some keystring }
          count := hm.count + 1 }

/-- The slots that are active, in order. -/
def activeSlots (hm : Hashmap V) : List ℕ :=
  (List.range hm.size).filter fun index => (hm.table index).active

/-- `rehash`, with the insertion to use: the active entries go to a larger table,
from the last slot to the first. -/
def rehash (insert : Hashmap V → V → String → Option (Hashmap V)) (hm : Hashmap V) :
    Option (Hashmap V) := do
  let (size, rand) ← findPrimeGreaterThan (2 * hm.size) hm.rand
  hm.activeSlots.reverse.foldlM (fun new index =>
      match (hm.table index).data, (hm.table index).keystring with
      | some data, some keystring => insert new data keystring
      | _, _ => some new)
    { size := size, count := 0, table := fun _ => Entry.blank, rand := rand }

/-- `hashmap_insert` with at most `fuel` nested enlargements: when the table is
full, which is tested at the start only, or the loop runs to its end, the table
is enlarged and the loop starts again. -/
def insertFuel : ℕ → Bool → Hashmap V → V → String → Option (Hashmap V)
  | 0, _, _, _, _ => none
  | fuel + 1, atStart, hm, data, keystring =>
      match if atStart && decide (hm.size ≤ hm.count) then none
        else hm.insertLoop data keystring (probePath hm.size keystring) with
      | some hm => some hm
      | none => do
          let hm ← hm.rehash (insertFuel fuel true)
          insertFuel fuel false hm data keystring

/-- `hashmap_insert`. Every enlargement doubles the size, which is an `int`. -/
def insert (hm : Hashmap V) (data : V) (keystring : String) : Option (Hashmap V) :=
  insertFuel 32 true hm data keystring

/-- The loop of `hashmap_remove`. -/
def removeLoop (hm : Hashmap V) (keystring : String) : List ℕ → Option V × Hashmap V
  | [] => (none, hm)
  | index :: rest =>
      if (hm.table index).data.isSome then
        if (hm.table index).keystring = some keystring then
          if (hm.table index).active then
            ((hm.table index).data, { hm with
              table := Function.update hm.table index { hm.table index with active := false }
              count := hm.count - 1 })
          else (none, hm)
        else removeLoop hm keystring rest
      else (none, hm)

/-- `hashmap_remove`. -/
def remove (hm : Hashmap V) (keystring : String) : Option V × Hashmap V :=
  hm.removeLoop keystring (probePath hm.size keystring)

/-- The loop of `hashmap_get`. -/
def getLoop (hm : Hashmap V) (keystring : String) : List ℕ → Option V
  | [] => none
  | index :: rest =>
      if (hm.table index).keystring = some keystring then
        if (hm.table index).active then (hm.table index).data else none
      else if (hm.table index).data.isNone then none
      else getLoop hm keystring rest

/-- `hashmap_get`. -/
def get (hm : Hashmap V) (keystring : String) : Option V :=
  if hm.count = 0 then none else hm.getLoop keystring (probePath hm.size keystring)

/-- `hashmap_getkeys`. -/
def getkeys (hm : Hashmap V) : List String :=
  if hm.count = 0 then [] else hm.activeSlots.filterMap fun index => (hm.table index).keystring

/-! ### Sizes of the tables, and the fuel of an insertion -/

lemma size_insertLoop {hm hm' : Hashmap V} {d : V} {k : String} {l : List ℕ}
    (h : hm.insertLoop d k l = some hm') : hm'.size = hm.size := by
  induction l with
  | nil => simp [insertLoop] at h
  | cons i l ih =>
      rw [insertLoop] at h
      split_ifs at h
      · rw [← Option.some.inj h]
      · exact ih h
      · rw [← Option.some.inj h]

lemma size_removeLoop {hm : Hashmap V} (k : String) (l : List ℕ) :
    (hm.removeLoop k l).2.size = hm.size := by
  induction l with
  | nil => rfl
  | cons i l ih =>
      rw [removeLoop]
      split_ifs
      · rfl
      · rfl
      · exact ih
      · rfl

/-- The loop of `rehash` does not make the table smaller if the insertion does
not. -/
lemma size_foldlM {insert : Hashmap V → V → String → Option (Hashmap V)}
    (hins : ∀ new d k new', insert new d k = some new' → new.size ≤ new'.size)
    (hm : Hashmap V) (l : List ℕ) {new new' : Hashmap V}
    (h : l.foldlM (fun new index =>
      match (hm.table index).data, (hm.table index).keystring with
      | some data, some keystring => insert new data keystring
      | _, _ => some new) new = some new') : new.size ≤ new'.size := by
  induction l generalizing new with
  | nil => rw [Option.some.inj h]
  | cons i l ih =>
      rw [List.foldlM_cons, Option.bind_eq_bind, Option.bind_eq_some_iff] at h
      obtain ⟨new₁, hstep, hrest⟩ := h
      refine le_trans ?_ (ih hrest)
      split at hstep
      · exact hins _ _ _ _ hstep
      · rw [Option.some.inj hstep]

lemma size_rehash {insert : Hashmap V → V → String → Option (Hashmap V)}
    (hins : ∀ new d k new', insert new d k = some new' → new.size ≤ new'.size)
    {hm hm' : Hashmap V} (h : hm.rehash insert = some hm') : 2 * hm.size < hm'.size := by
  rw [rehash, Option.bind_eq_bind, Option.bind_eq_some_iff] at h
  obtain ⟨⟨size, rand⟩, hprime, hfold⟩ := h
  exact (findPrimeGreaterThan_bounds hprime).1.trans_le (size_foldlM hins hm _ hfold)

lemma size_insertFuel {fuel : ℕ} {atStart : Bool} {hm hm' : Hashmap V} {d : V} {k : String}
    (h : insertFuel fuel atStart hm d k = some hm') : hm.size ≤ hm'.size := by
  induction fuel generalizing atStart hm hm' d k with
  | zero => simp [insertFuel] at h
  | succ fuel ih =>
      rw [insertFuel] at h
      split at h
      · rename_i hm₁ hattempt
        obtain rfl := Option.some.inj h
        split_ifs at hattempt
        exact (size_insertLoop hattempt).ge
      · rw [Option.bind_eq_bind, Option.bind_eq_some_iff] at h
        obtain ⟨hm₁, hre, hins⟩ := h
        have h1 := size_rehash (fun _ _ _ _ => ih) hre
        have h2 := ih hins
        omega

/-- Two insertions that agree on larger tables give the same `rehash`. -/
lemma rehash_congr {insert insert' : Hashmap V → V → String → Option (Hashmap V)} {hm : Hashmap V}
    (hins : ∀ new d k new', insert new d k = some new' → new.size ≤ new'.size)
    (heq : ∀ new d k, 2 * hm.size < new.size → insert new d k = insert' new d k) :
    hm.rehash insert = hm.rehash insert' := by
  have hfold : ∀ (l : List ℕ) (new : Hashmap V), 2 * hm.size < new.size →
      l.foldlM (fun new index =>
        match (hm.table index).data, (hm.table index).keystring with
        | some data, some keystring => insert new data keystring
        | _, _ => some new) new
      = l.foldlM (fun new index =>
        match (hm.table index).data, (hm.table index).keystring with
        | some data, some keystring => insert' new data keystring
        | _, _ => some new) new := by
    intro l
    induction l with
    | nil => exact fun _ _ => rfl
    | cons i l ih =>
        intro new hnew
        rw [List.foldlM_cons, List.foldlM_cons]
        split
        · rw [← heq _ _ _ hnew]
          refine Option.bind_congr fun new₁ hnew₁ => ih new₁ ?_
          exact hnew.trans_le (hins _ _ _ _ hnew₁)
        · exact ih new hnew
  rw [rehash, rehash]
  refine Option.bind_congr fun r hr => hfold _ _ ?_
  exact (findPrimeGreaterThan_bounds hr).1

/-- With as many nested enlargements as sizes fit in an `int`, one more makes no
difference. -/
lemma insertFuel_succ (fuel : ℕ) (atStart : Bool) (hm : Hashmap V) (d : V) (k : String)
    (h : 2 ^ 31 ≤ hm.size * 2 ^ (fuel + 1)) :
    insertFuel (fuel + 2) atStart hm d k = insertFuel (fuel + 1) atStart hm d k := by
  induction fuel generalizing atStart hm d k with
  | zero =>
      rw [insertFuel, insertFuel]
      split
      · rfl
      · have hnone : findPrimeGreaterThan (2 * hm.size) hm.rand = none := by
          rw [findPrimeGreaterThan, if_neg (by omega)]
        rw [rehash, rehash, hnone]
        rfl
  | succ fuel ih =>
      have hbound : ∀ new : Hashmap V, 2 * hm.size < new.size →
          2 ^ 31 ≤ new.size * 2 ^ (fuel + 1) := by
        intro new hnew
        calc 2 ^ 31 ≤ hm.size * 2 ^ (fuel + 1 + 1) := h
          _ = 2 * hm.size * 2 ^ (fuel + 1) := by ring
          _ ≤ new.size * 2 ^ (fuel + 1) := Nat.mul_le_mul_right _ hnew.le
      have hre : hm.rehash (insertFuel (fuel + 2) true) = hm.rehash (insertFuel (fuel + 1) true) :=
        rehash_congr (fun _ _ _ _ => size_insertFuel) fun new d k hnew =>
          ih true new d k (hbound new hnew)
      conv_lhs => rw [insertFuel]
      conv_rhs => rw [insertFuel]
      split
      · rfl
      · rw [hre]
        refine Option.bind_congr fun hm₁ hhm₁ => ih false hm₁ d k (hbound hm₁ ?_)
        exact size_rehash (fun _ _ _ _ => size_insertFuel) hhm₁

/-- The fuel of `insert` is enough for every table of at least the first size. -/
lemma insert_eq_insertFuel {hm : Hashmap V} (h : 1021 ≤ hm.size) (fuel : ℕ) (d : V) (k : String) :
    insertFuel (32 + fuel) true hm d k = hm.insert d k := by
  induction fuel with
  | zero => rfl
  | succ fuel ih =>
      have hbound : 2 ^ 31 ≤ hm.size * 2 ^ (31 + fuel + 1) := by
        calc 2 ^ 31 ≤ 1021 * 2 ^ 31 := by norm_num
          _ ≤ hm.size * 2 ^ (31 + fuel + 1) :=
            Nat.mul_le_mul h (Nat.pow_le_pow_right (by norm_num) (by omega))
      have hsucc := insertFuel_succ (31 + fuel) true hm d k hbound
      rw [show 31 + fuel + 2 = 32 + (fuel + 1) by omega, show 31 + fuel + 1 = 32 + fuel by omega]
        at hsucc
      rw [hsucc, ih]

end Hashmap

end KubeSafeScheduler.Utils
