import KubeSafeScheduler.Utils.HashmapRefinement

/-!
`utils/hashset.c`: a set of strings kept as the keys of a hash table, and what
else the users of the tables rely on: the order in which they list their
entries, and room for a bounded number of keys.

* `Hashset`: `add`, `find`. `Hashset.Shows`: the set of the strings added.
* `Hashmap.getvalues`, `Hashmap.Holds.exists_listed`: the finite map behind a
  table can be taken to list its entries in the order of the slots.
* `Hashmap.Roomy`: a table of the first size whose keys are among fewer than
  `TABLE_STARTSIZE` names; insertions of such keys return
  (`Hashmap.Holds.insert_of_roomy`).
-/

namespace KubeSafeScheduler.Utils

namespace Hashmap

variable {V : Type} {hm : Hashmap V} {m : StringMap V}

/-! ### Listing the entries -/

/-- `hashmap_getvalues`. -/
def getvalues (hm : Hashmap V) : List V :=
  if hm.count = 0 then [] else hm.activeSlots.filterMap fun index => (hm.table index).data

/-- The entries of the active slots, in order. -/
def slotEntries (hm : Hashmap V) : List (String × V) :=
  hm.activeSlots.filterMap fun index =>
    (hm.table index).keystring.bind fun k => (hm.table index).data.map fun v => (k, v)

/-- An active slot has a key and data. -/
lemma Holds.slot_entry (h : hm.Holds m) {i : ℕ} (hi : i ∈ hm.activeSlots) :
    ∃ k v, (hm.table i).keystring = some k ∧ (hm.table i).data = some v ∧ m.get k = some v := by
  obtain ⟨hlt, hact⟩ := mem_activeSlots.mp hi
  obtain ⟨k, v, hk, hv, hget, -⟩ := h.entry i hlt hact
  exact ⟨k, v, hk, hv, hget⟩

lemma Holds.map_slotEntries (h : hm.Holds m) :
    hm.slotEntries.map Prod.fst = hm.getkeys ∧ hm.slotEntries.map Prod.snd = hm.getvalues := by
  have hempty : hm.count = 0 → hm.slotEntries = [] := fun hcount => by
    rw [h.count, List.length_eq_zero_iff] at hcount
    rw [slotEntries, hcount]
    rfl
  constructor
  · rw [getkeys]
    split_ifs with hcount
    · rw [hempty hcount]
      rfl
    · rw [slotEntries, List.map_filterMap]
      refine List.filterMap_congr fun i hi => ?_
      obtain ⟨k, v, hk, hv, -⟩ := h.slot_entry hi
      rw [hk, hv]
      rfl
  · rw [getvalues]
    split_ifs with hcount
    · rw [hempty hcount]
      rfl
    · rw [slotEntries, List.map_filterMap]
      refine List.filterMap_congr fun i hi => ?_
      obtain ⟨k, v, hk, hv, -⟩ := h.slot_entry hi
      rw [hk, hv]
      rfl

lemma Holds.mem_slotEntries (h : hm.Holds m) {k : String} {v : V} :
    (k, v) ∈ hm.slotEntries ↔ m.get k = some v := by
  rw [slotEntries, List.mem_filterMap]
  constructor
  · rintro ⟨i, hi, heq⟩
    obtain ⟨k', v', hk, hv, hget⟩ := h.slot_entry hi
    rw [hk, hv] at heq
    obtain ⟨rfl, rfl⟩ := Prod.mk.inj (Option.some.inj heq)
    exact hget
  · intro hget
    obtain ⟨i, hlt, hact, hk⟩ := h.live k v hget
    obtain ⟨v', hv, hget', -⟩ := h.get_of_active hlt hact hk
    obtain rfl := Option.some.inj (hget.symm.trans hget')
    exact ⟨i, mem_activeSlots.mpr ⟨hlt, hact⟩, by rw [hk, hv]; rfl⟩

/-- The finite map behind a table, with its entries in the order of the slots. -/
lemma Holds.exists_listed (h : hm.Holds m) : ∃ m' : StringMap V,
    (∀ k, m'.get k = m.get k) ∧ m'.getkeys = hm.getkeys ∧ m'.getvalues = hm.getvalues := by
  obtain ⟨hfst, hsnd⟩ := h.map_slotEntries
  have hnd : (hm.slotEntries.map Prod.fst).Nodup := by
    rw [hfst]
    exact h.matches_getkeys.1.nodup_iff.mpr m.nodup_getkeys
  refine ⟨StringMap.ofEntries hm.slotEntries hnd, fun k => ?_, ?_, ?_⟩
  · ext v
    rw [StringMap.get_ofEntries hnd, h.mem_slotEntries]
  · rw [StringMap.getkeys_ofEntries, hfst]
  · rw [StringMap.getvalues_ofEntries, hsnd]

/-! ### Room -/

/-- The table has the first size, and its keys are among the names. -/
structure Roomy (names : Finset String) (hm : Hashmap V) : Prop where
  size : hm.size = 1021
  keys : ∀ k v, hm.get k = some v → k ∈ names

lemma roomy_create (names : Finset String) (rand : Rand) :
    (create rand : Hashmap V).Roomy names := by
  refine ⟨rfl, fun k v hv => ?_⟩
  rw [(holds_create rand).get_eq, StringMap.get_empty] at hv
  exact absurd hv (by simp)

variable {names : Finset String}

/-- An insertion of one of the names returns, and leaves room. -/
lemma Holds.insert_of_roomy (h : hm.Holds m) (hroom : hm.Roomy names) (hcard : names.card < 1021)
    (d : V) {k : String} (hk : k ∈ names) (hun : hm.Unobstructed k) :
    ∃ hm', hm.insert d k = some hm' ∧ hm'.Roomy names := by
  have hcount : hm.count < 1021 := by
    rw [h.matches_getkeys.2, ← List.toFinset_card_of_nodup m.nodup_getkeys]
    refine (Finset.card_le_card fun x hx => ?_).trans_lt hcard
    obtain ⟨v, hv⟩ := StringMap.mem_getkeys.mp (List.mem_toFinset.mp hx)
    exact hroom.keys x v ((h.get_eq x).trans hv)
  have hno : ∀ d' k', Op.insert d k = Op.insert d' k' → ¬ hm.NeedsRoom k' := by
    rintro d' k' hop
    obtain ⟨rfl, rfl⟩ := Op.insert.inj hop
    exact h.not_needsRoom hroom.size hcount k
  obtain ⟨hm', hins⟩ : ∃ hm', hm.insert d k = some hm' :=
    (insertFuel_of_not_needsRoom (hno d k rfl) 31 true d).imp fun _ hins => hins.1
  have hstep : hm.step (.insert d k) = some (none, hm') := by
    rw [Hashmap.step, hins]
    rfl
  refine ⟨hm', hins, (size_step hno hstep).trans hroom.size, fun x v hv => ?_⟩
  rw [(Holds.insertFuel_spec 32 true h hun hins).1.get_eq, StringMap.get_insert] at hv
  split_ifs at hv with hx
  · exact hx ▸ hk
  · exact hroom.keys x v ((h.get_eq x).trans hv)

/-- An insertion where nothing was removed. -/
lemma Holds.insert_of_tight (h : hm.Holds m) (ht : hm.Tight) {d : V} {k : String}
    {hm' : Hashmap V} (hins : hm.insert d k = some hm') : hm'.Holds (m.insert k d) ∧ hm'.Tight := by
  obtain ⟨h1, h2, -⟩ := Holds.insertFuel_spec 32 true h (h.unobstructed_of_tight ht k) hins
  exact ⟨h1, h2 ht⟩

/-- A loop of insertions where nothing was removed. -/
lemma Holds.foldlM_insert {α : Type} (key : α → String) (val : α → V) (l : List α)
    (h : hm.Holds m) (ht : hm.Tight) {hm' : Hashmap V}
    (hins : l.foldlM (fun hm a => hm.insert (val a) (key a)) hm = some hm') :
    hm'.Holds (l.foldl (fun m a => m.insert (key a) (val a)) m) ∧ hm'.Tight := by
  induction l generalizing hm m with
  | nil =>
      obtain rfl := Option.some.inj hins
      exact ⟨h, ht⟩
  | cons a l ih =>
      rw [List.foldlM_cons, Option.bind_eq_bind, Option.bind_eq_some_iff] at hins
      obtain ⟨hm₁, hstep, hrest⟩ := hins
      obtain ⟨h1, h2⟩ := h.insert_of_tight ht hstep
      exact ih h1 h2 hrest

/-- A loop of insertions of names returns. -/
lemma Holds.foldlM_insert_of_roomy {α : Type} (key : α → String) (val : α → V) (l : List α)
    (h : hm.Holds m) (ht : hm.Tight) (hroom : hm.Roomy names) (hcard : names.card < 1021)
    (hkeys : ∀ a ∈ l, key a ∈ names) :
    ∃ hm', l.foldlM (fun hm a => hm.insert (val a) (key a)) hm = some hm' ∧ hm'.Roomy names := by
  induction l generalizing hm m with
  | nil => exact ⟨hm, rfl, hroom⟩
  | cons a l ih =>
      obtain ⟨hm₁, hins, hroom₁⟩ := h.insert_of_roomy hroom hcard (val a)
        (hkeys a List.mem_cons_self) (h.unobstructed_of_tight ht _)
      obtain ⟨h1, h2⟩ := h.insert_of_tight ht hins
      rw [List.foldlM_cons, hins]
      exact ih h1 h2 hroom₁ fun b hb => hkeys b (List.mem_cons_of_mem _ hb)

end Hashmap

/-! ### Sets -/

/-- `s_hashset`. -/
structure Hashset where
  map : Hashmap Unit

namespace Hashset

/-- `hashset_create(0)`. -/
def create (rand : Rand) : Hashset := { map := Hashmap.create rand }

/-- `hashset_add`: the datum is the set itself, so it is not `NULL`. -/
def add (hs : Hashset) (elem : String) : Option Hashset :=
  (hs.map.insert () elem).map fun map => { map := map }

/-- `hashset_find`. -/
def find (hs : Hashset) (elem : String) : Bool := (hs.map.get elem).isSome

/-- The set of the strings that were added, none of which was deleted. -/
structure Shows (hs : Hashset) (elems : Finset String) : Prop where
  holds : ∃ m, hs.map.Holds m ∧ ∀ k, k ∈ elems ↔ m.get k = some ()
  tight : hs.map.Tight

variable {hs hs' : Hashset} {elems : Finset String}

lemma shows_create (rand : Rand) : (create rand).Shows ∅ :=
  ⟨⟨∅, Hashmap.holds_create rand, by simp⟩, fun _ hi => absurd rfl hi⟩

lemma Shows.find_iff (h : hs.Shows elems) (elem : String) :
    hs.find elem = true ↔ elem ∈ elems := by
  obtain ⟨m, hm, hmem⟩ := h.holds
  rw [find, hm.get_eq, hmem, Option.isSome_iff_exists]
  exact ⟨fun ⟨_, hv⟩ => hv, fun hv => ⟨(), hv⟩⟩

/-- `hashset_add` adds the string. -/
lemma Shows.add (h : hs.Shows elems) {elem : String} (hadd : hs.add elem = some hs') :
    hs'.Shows (insert elem elems) := by
  obtain ⟨m, hm, hmem⟩ := h.holds
  obtain ⟨map, hins, rfl⟩ := Option.map_eq_some_iff.mp hadd
  obtain ⟨h1, h2⟩ := hm.insert_of_tight h.tight hins
  refine ⟨⟨m.insert elem (), h1, fun k => ?_⟩, h2⟩
  rw [StringMap.get_insert, Finset.mem_insert]
  split_ifs with hk
  · simp [hk]
  · simp [hk, hmem]

/-- `hashset_add` of one of fewer than `TABLE_STARTSIZE` names returns. -/
lemma Shows.add_of_roomy (h : hs.Shows elems) {names : Finset String}
    (hroom : hs.map.Roomy names) (hcard : names.card < 1021) {elem : String}
    (helem : elem ∈ names) : ∃ hs', hs.add elem = some hs' ∧ hs'.map.Roomy names := by
  obtain ⟨m, hm, -⟩ := h.holds
  obtain ⟨map, hins, hroom'⟩ := hm.insert_of_roomy hroom hcard () helem
    (hm.unobstructed_of_tight h.tight _)
  exact ⟨{ map := map }, by rw [Hashset.add, hins]; rfl, hroom'⟩

end Hashset

end KubeSafeScheduler.Utils
