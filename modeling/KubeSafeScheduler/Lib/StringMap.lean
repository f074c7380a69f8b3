import Mathlib.Data.List.AList

/-!
Finite maps from strings, on top of Mathlib's association lists with distinct
keys: lookup, insertion, removal, and the lists of keys and values. This is
what a hash table keyed by strings provides to its users.

* `StringMap.get_insert`, `get_remove`, `get_empty`: lookup after each
  operation.
* `get_foldl_insert`: lookup after a loop of insertions.
* `mem_getkeys`, `mem_getvalues`, `nodup_getkeys`: the enumerations list
  exactly the entries, each key once; `entries_perm`: maps that agree list the
  same entries.
* `ofEntries`: the map that lists given entries in their order.
-/

namespace KubeSafeScheduler

/-- A finite map from strings to `V`. -/
def StringMap (V : Type) : Type := AList fun _ : String => V

namespace StringMap

variable {V : Type}

/-- The map without entries. -/
def empty : StringMap V := (∅ : AList fun _ : String => V)

instance : EmptyCollection (StringMap V) := ⟨empty⟩

/-- The value of a key. -/
def get (m : StringMap V) (k : String) : Option V := AList.lookup k m

/-- Set the value of a key. -/
def insert (m : StringMap V) (k : String) (v : V) : StringMap V := AList.insert k v m

/-- Drop a key. -/
def remove (m : StringMap V) (k : String) : StringMap V := AList.erase k m

/-- The keys, each once. -/
def getkeys (m : StringMap V) : List String := AList.keys m

/-- The values, key by key. -/
def getvalues (m : StringMap V) : List V := (AList.entries m).map Sigma.snd

/-- The entries, key by key. -/
def entries (m : StringMap V) : List (String × V) :=
  (AList.entries m).map fun e => (e.1, e.2)

@[simp] lemma get_empty (k : String) : (∅ : StringMap V).get k = none := AList.lookup_empty k

lemma get_insert (m : StringMap V) (k : String) (v : V) (k' : String) :
    (m.insert k v).get k' = if k' = k then some v else m.get k' := by
  by_cases h : k' = k
  · subst h
    rw [if_pos rfl]
    exact AList.lookup_insert m
  · rw [if_neg h]
    exact AList.lookup_insert_ne h

@[simp] lemma get_insert_self (m : StringMap V) (k : String) (v : V) :
    (m.insert k v).get k = some v := by
  rw [get_insert, if_pos rfl]

lemma get_insert_of_ne (m : StringMap V) {k k' : String} (v : V) (h : k' ≠ k) :
    (m.insert k v).get k' = m.get k' := by
  rw [get_insert, if_neg h]

lemma get_remove (m : StringMap V) (k k' : String) :
    (m.remove k).get k' = if k' = k then none else m.get k' := by
  by_cases h : k' = k
  · subst h
    rw [if_pos rfl]
    exact AList.lookup_erase k' m
  · rw [if_neg h]
    exact AList.lookup_erase_ne h

lemma nodup_getkeys (m : StringMap V) : m.getkeys.Nodup := AList.keys_nodup m

lemma mem_getkeys {m : StringMap V} {k : String} : k ∈ m.getkeys ↔ ∃ v, m.get k = some v := by
  rw [← Option.isSome_iff_exists]
  exact AList.lookup_isSome.symm

lemma mem_getvalues {m : StringMap V} {v : V} : v ∈ m.getvalues ↔ ∃ k, m.get k = some v := by
  constructor
  · intro h
    obtain ⟨e, he, rfl⟩ := List.mem_map.mp h
    exact ⟨e.1, AList.mem_lookup_iff.mpr he⟩
  · rintro ⟨k, hk⟩
    exact List.mem_map.mpr ⟨⟨k, v⟩, AList.mem_lookup_iff.mp hk, rfl⟩

lemma mem_entries {m : StringMap V} {k : String} {v : V} :
    (k, v) ∈ m.entries ↔ m.get k = some v := by
  constructor
  · intro h
    obtain ⟨e, he, heq⟩ := List.mem_map.mp h
    obtain ⟨rfl, rfl⟩ := Prod.mk.inj heq
    exact AList.mem_lookup_iff.mpr he
  · intro hk
    exact List.mem_map.mpr ⟨⟨k, v⟩, AList.mem_lookup_iff.mp hk, rfl⟩

/-- Lookup after a loop of insertions in which equal keys carry equal values. -/
lemma get_foldl_insert {α : Type*} (key : α → String) (val : α → V) (l : List α) (m : StringMap V)
    (hinj : ∀ a ∈ l, ∀ b ∈ l, key a = key b → val a = val b) (k : String) (v : V) :
    (l.foldl (fun m a => m.insert (key a) (val a)) m).get k = some v ↔
      (∃ a ∈ l, key a = k ∧ val a = v) ∨ (∀ a ∈ l, key a ≠ k) ∧ m.get k = some v := by
  induction l generalizing m with
  | nil => simp
  | cons c l ih =>
      have hinj' : ∀ a ∈ l, ∀ b ∈ l, key a = key b → val a = val b :=
        fun a ha b hb => hinj a (List.mem_cons_of_mem _ ha) b (List.mem_cons_of_mem _ hb)
      rw [List.foldl_cons, ih _ hinj', get_insert]
      simp only [List.mem_cons, exists_eq_or_imp, forall_eq_or_imp]
      by_cases hk : k = key c
      · subst hk
        rw [if_pos rfl]
        constructor
        · rintro (h | ⟨-, hv⟩)
          · exact Or.inl (Or.inr h)
          · exact Or.inl (Or.inl ⟨rfl, Option.some.inj hv⟩)
        · rintro ((⟨-, hv⟩ | h) | ⟨⟨hne, -⟩, -⟩)
          · -- a later insertion under this key carries the same value
            by_cases hall : ∀ a ∈ l, key a ≠ key c
            · exact Or.inr ⟨hall, by rw [hv]⟩
            · push Not at hall
              obtain ⟨a, ha, hac⟩ := hall
              have hval := hinj a (List.mem_cons_of_mem _ ha) c List.mem_cons_self hac
              exact Or.inl ⟨a, ha, hac, hval.trans hv⟩
          · exact Or.inl h
          · exact absurd rfl hne
      · rw [if_neg hk]
        constructor
        · rintro (h | ⟨hall, hv⟩)
          · exact Or.inl (Or.inr h)
          · exact Or.inr ⟨⟨Ne.symm hk, hall⟩, hv⟩
        · rintro ((⟨hc, -⟩ | h) | ⟨⟨-, hall⟩, hv⟩)
          · exact absurd hc.symm hk
          · exact Or.inl h
          · exact Or.inr ⟨hall, hv⟩

lemma map_fst_entries (m : StringMap V) : m.entries.map Prod.fst = m.getkeys := by
  rw [entries, List.map_map]
  rfl

lemma nodup_entries (m : StringMap V) : m.entries.Nodup :=
  List.Nodup.of_map Prod.fst (by rw [map_fst_entries]; exact m.nodup_getkeys)

/-- Maps that agree list the same entries. -/
lemma entries_perm {m m' : StringMap V} (h : ∀ k, m.get k = m'.get k) :
    m.entries.Perm m'.entries := by
  refine (List.perm_ext_iff_of_nodup m.nodup_entries m'.nodup_entries).mpr ?_
  rintro ⟨k, v⟩
  rw [mem_entries, mem_entries, h]

/-- The map with the given entries, in their order. -/
def ofEntries (l : List (String × V)) (hnd : (l.map Prod.fst).Nodup) : StringMap V :=
  (⟨l.map fun e => ⟨e.1, e.2⟩, by
    rw [List.NodupKeys, List.keys, List.map_map]
    exact hnd⟩ : AList fun _ : String => V)

lemma get_ofEntries {l : List (String × V)} (hnd : (l.map Prod.fst).Nodup) {k : String} {v : V} :
    (ofEntries l hnd).get k = some v ↔ (k, v) ∈ l := by
  refine AList.mem_lookup_iff.trans ?_
  simp [ofEntries]

lemma getkeys_ofEntries {l : List (String × V)} (hnd : (l.map Prod.fst).Nodup) :
    (ofEntries l hnd).getkeys = l.map Prod.fst := by
  rw [getkeys, ofEntries, AList.keys, List.keys, List.map_map]
  rfl

lemma getvalues_ofEntries {l : List (String × V)} (hnd : (l.map Prod.fst).Nodup) :
    (ofEntries l hnd).getvalues = l.map Prod.snd := by
  rw [getvalues, ofEntries, List.map_map]
  rfl

end StringMap

end KubeSafeScheduler
