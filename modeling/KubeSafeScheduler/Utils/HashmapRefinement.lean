import KubeSafeScheduler.Utils.Hashmap

/-!
The hash table as a finite map from strings.

* `Hashmap.Holds`: a table holds the entries of a finite map. The loops for a
  key come to its entry, because the slots before it on its path are used, and
  not by this key.
* `Holds.get_eq`, `Holds.remove_spec`, `Holds.insertFuel_spec`: the operations;
  the insertion of a key that is present is right if no slot before its entry is
  inactive (`Unobstructed`), and otherwise makes a second entry
  (`Holds.insert_twice`).
* `Holds.insert_returns`: an insertion returns if the size that an enlargement
  needs is found (`SizeFound`) and is prime.
* `behaves_iff`: which sequences of calls see a finite map; while there is room,
  those that insert a key only while it is absent do (`behaves_of_fresh`), and
  those that remove nothing (`behaves_of_growing`).
-/

namespace KubeSafeScheduler.Utils

/-- The same list with two of its elements marked: the marks coincide, or one of
them stands before the other. -/
lemma eq_or_mem_of_append_eq {α : Type} {b b' a a' : List α} {i j : α}
    (h : b ++ i :: a = b' ++ j :: a') : (i = j ∧ b = b') ∨ i ∈ b' ∨ j ∈ b := by
  rcases List.append_eq_append_iff.mp h with ⟨c, hc, hc'⟩ | ⟨c, hc, hc'⟩
  · cases c with
    | nil => exact Or.inl ⟨(List.cons.inj hc').1, by simpa using hc.symm⟩
    | cons x c =>
        obtain ⟨rfl, -⟩ := List.cons.inj hc'
        exact Or.inr (Or.inl (by simp [hc]))
  · cases c with
    | nil => exact Or.inl ⟨(List.cons.inj hc').1.symm, by simpa using hc⟩
    | cons x c =>
        obtain ⟨rfl, -⟩ := List.cons.inj hc'
        exact Or.inr (Or.inr (by simp [hc]))

/-- Setting one more element of a list without repetitions. -/
lemma filter_update_perm {l : List ℕ} (hnd : l.Nodup) {p q : ℕ → Bool} {i : ℕ} (hi : i ∈ l)
    (hp : p i = false) (hq : q i = true) (hpq : ∀ j, j ≠ i → q j = p j) :
    (l.filter q).Perm (i :: l.filter p) := by
  refine (List.perm_ext_iff_of_nodup (hnd.filter _) ?_).mpr fun j => ?_
  · refine List.nodup_cons.mpr ⟨?_, hnd.filter _⟩
    simp [hp]
  · by_cases hj : j = i
    · subst hj
      simp [hi, hq]
    · simp [hj, hpq j hj]

lemma mem_probePath_lt {size : ℕ} (h : 0 < size) {k : String} {i : ℕ}
    (hi : i ∈ probePath size k) : i < size := by
  obtain ⟨r, -, rfl⟩ := List.mem_iterate.mp hi
  cases r with
  | zero => exact Nat.mod_lt _ h
  | succ r =>
      rw [Function.iterate_succ_apply']
      exact Nat.mod_lt _ h

namespace Hashmap

variable {V : Type} {hm : Hashmap V} {m : StringMap V}

/-- The loops for a key come to the slot: the slots before it are used, and not
by this key. -/
def Reaches (hm : Hashmap V) (k : String) (i : ℕ) : Prop :=
  ∃ before after, probePath hm.size k = before ++ i :: after ∧
    ∀ j ∈ before, (hm.table j).data ≠ none ∧ (hm.table j).keystring ≠ some k

/-- The table holds the entries of a finite map. -/
structure Holds (hm : Hashmap V) (m : StringMap V) : Prop where
  size_pos : 0 < hm.size
  entry : ∀ i < hm.size, (hm.table i).active = true → ∃ k v, (hm.table i).keystring = some k
    ∧ (hm.table i).data = some v ∧ m.get k = some v ∧ hm.Reaches k i
  live : ∀ k v, m.get k = some v →
    ∃ i < hm.size, (hm.table i).active = true ∧ (hm.table i).keystring = some k
  count : hm.count = hm.activeSlots.length

/-- No entry was removed. -/
def Tight (hm : Hashmap V) : Prop := ∀ i, (hm.table i).data ≠ none → (hm.table i).active = true

/-- On the path of the key no slot before its entry is inactive. -/
def Unobstructed (hm : Hashmap V) (k : String) : Prop :=
  ∀ before i after, probePath hm.size k = before ++ i :: after → i ∉ before →
    (hm.table i).active = true → (hm.table i).keystring = some k →
    ∀ j ∈ before, (hm.table j).active = true

lemma mem_activeSlots {i : ℕ} :
    i ∈ hm.activeSlots ↔ i < hm.size ∧ (hm.table i).active = true := by
  simp [activeSlots]

/-- A slot that becomes active counts. -/
lemma length_activeSlots_activate {i : ℕ} (hi : i < hm.size) (hact : (hm.table i).active = false)
    {e : Entry V} (he : e.active = true) (count : ℕ) :
    ({ hm with table := Function.update hm.table i e, count := count } : Hashmap V
      ).activeSlots.length = hm.activeSlots.length + 1 := by
  have hperm := filter_update_perm (List.nodup_range (n := hm.size)) (List.mem_range.mpr hi)
    (p := fun j => (hm.table j).active) (q := fun j => (Function.update hm.table i e j).active)
    hact (by simpa using he) (fun j hj => by simp [hj])
  exact hperm.length_eq

/-- A slot that is no longer active does not count. -/
lemma length_activeSlots_deactivate {i : ℕ} (hi : i < hm.size) (hact : (hm.table i).active = true)
    {e : Entry V} (he : e.active = false) (count : ℕ) :
    ({ hm with table := Function.update hm.table i e, count := count } : Hashmap V
      ).activeSlots.length = hm.activeSlots.length - 1 := by
  have hperm := filter_update_perm (List.nodup_range (n := hm.size)) (List.mem_range.mpr hi)
    (p := fun j => (Function.update hm.table i e j).active) (q := fun j => (hm.table j).active)
    (by simpa using he) hact (fun j hj => by simp [hj])
  have hlen : hm.activeSlots.length
      = ({ hm with table := Function.update hm.table i e, count := count } : Hashmap V
        ).activeSlots.length + 1 := hperm.length_eq
  omega

/-- A slot that stays active, or inactive. -/
lemma length_activeSlots_keep {i : ℕ} {e : Entry V} (he : e.active = (hm.table i).active) :
    ({ hm with table := Function.update hm.table i e } : Hashmap V).activeSlots.length
      = hm.activeSlots.length := by
  refine congrArg List.length (List.filter_congr fun j _ => ?_)
  show (Function.update hm.table i e j).active = _
  by_cases hji : j = i
  · rw [hji, Function.update_self, he]
  · rw [Function.update_of_ne hji]

lemma Tight.update (h : hm.Tight) (i : ℕ) {e : Entry V} (he : e.active = true) (count : ℕ) :
    Tight { hm with table := Function.update hm.table i e, count := count } := by
  intro j hj
  by_cases hji : j = i
  · subst hji
    simpa using he
  · simp only [Function.update_of_ne hji] at hj ⊢
    exact h j hj

/-- A slot that stays in use, and does not become one of the key, does not stop
the loops. -/
lemma Reaches.update {k : String} {i j : ℕ} {e : Entry V} (h : hm.Reaches k j)
    (hdata : e.data ≠ none) (hkey : e.keystring = some k → (hm.table i).keystring = some k)
    (count : ℕ) :
    Reaches { hm with table := Function.update hm.table i e, count := count } k j := by
  obtain ⟨before, after, hpath, hb⟩ := h
  refine ⟨before, after, hpath, fun x hx => ?_⟩
  obtain ⟨hxdata, hxkey⟩ := hb x hx
  show (Function.update hm.table i e x).data ≠ none
    ∧ (Function.update hm.table i e x).keystring ≠ some k
  by_cases hxi : x = i
  · subst hxi
    rw [Function.update_self]
    exact ⟨hdata, fun hk => hxkey (hkey hk)⟩
  · rw [Function.update_of_ne hxi]
    exact ⟨hxdata, hxkey⟩

namespace Holds

/-- A map that agrees is held too. -/
lemma congr (h : hm.Holds m) {m' : StringMap V} (hm' : ∀ k, m'.get k = m.get k) : hm.Holds m' :=
  ⟨h.size_pos, by simpa only [hm'] using h.entry, by simpa only [hm'] using h.live, h.count⟩

/-- An active slot of a key has its value. -/
lemma get_of_active (h : hm.Holds m) {i : ℕ} {k : String} (hi : i < hm.size)
    (hact : (hm.table i).active = true) (hkey : (hm.table i).keystring = some k) :
    ∃ v, (hm.table i).data = some v ∧ m.get k = some v ∧ hm.Reaches k i := by
  obtain ⟨k', v, h1, h2, h3, h4⟩ := h.entry i hi hact
  obtain rfl := Option.some.inj (h1.symm.trans hkey)
  exact ⟨v, h2, h3, h4⟩

/-- Every key has one slot. -/
lemma slot_unique (h : hm.Holds m) {i j : ℕ} {k : String} (hi : i < hm.size) (hj : j < hm.size)
    (hai : (hm.table i).active = true) (haj : (hm.table j).active = true)
    (hki : (hm.table i).keystring = some k) (hkj : (hm.table j).keystring = some k) : i = j := by
  obtain ⟨-, -, -, b, a, hp, hb⟩ := h.get_of_active hi hai hki
  obtain ⟨-, -, -, b', a', hp', hb'⟩ := h.get_of_active hj haj hkj
  rcases eq_or_mem_of_append_eq (hp.symm.trans hp') with heq | hmem | hmem
  · exact heq.1
  · exact absurd hki (hb' i hmem).2
  · exact absurd hkj (hb j hmem).2

/-! ### Lookup -/

/-- The loop of `hashmap_get` goes past used slots of other keys. -/
lemma getLoop_append (k : String) (before rest : List ℕ)
    (hb : ∀ j ∈ before, (hm.table j).data ≠ none ∧ (hm.table j).keystring ≠ some k) :
    hm.getLoop k (before ++ rest) = hm.getLoop k rest := by
  induction before with
  | nil => rfl
  | cons i before ih =>
      obtain ⟨hd, hk⟩ := hb i List.mem_cons_self
      rw [List.cons_append, getLoop, if_neg hk, if_neg (by simpa using hd)]
      exact ih fun j hj => hb j (List.mem_cons_of_mem _ hj)

/-- Without the key, the loop of `hashmap_get` finds nothing. -/
lemma getLoop_of_absent (h : hm.Holds m) {k : String} (hk : m.get k = none) (l : List ℕ)
    (hl : ∀ i ∈ l, i < hm.size) : hm.getLoop k l = none := by
  induction l with
  | nil => rfl
  | cons i l ih =>
      rw [getLoop]
      split_ifs with hkey hact
      · obtain ⟨v, -, hv, -⟩ := h.get_of_active (hl i List.mem_cons_self) hact hkey
        rw [hk] at hv
        exact absurd hv (by simp)
      · rfl
      · rfl
      · exact ih fun j hj => hl j (List.mem_cons_of_mem _ hj)

/-- `hashmap_get` returns the data of the key. -/
lemma get_eq (h : hm.Holds m) (k : String) : hm.get k = m.get k := by
  rw [Hashmap.get]
  cases hk : m.get k with
  | none =>
      rw [h.getLoop_of_absent hk _ fun i hi => mem_probePath_lt h.size_pos hi, ite_self]
  | some v =>
      obtain ⟨i, hi, hact, hkey⟩ := h.live k v hk
      obtain ⟨v', hdata, hv, b, a, hpath, hb⟩ := h.get_of_active hi hact hkey
      obtain rfl := Option.some.inj (hk.symm.trans hv)
      have hcount : hm.count ≠ 0 := by
        rw [h.count]
        exact (List.length_pos_of_mem (mem_activeSlots.mpr ⟨hi, hact⟩)).ne'
      rw [if_neg hcount, hpath, getLoop_append k b _ hb, getLoop, if_pos hkey, if_pos hact, hdata]

/-! ### Removal -/

/-- The loop of `hashmap_remove` goes past used slots of other keys. -/
lemma removeLoop_append (k : String) (before rest : List ℕ)
    (hb : ∀ j ∈ before, (hm.table j).data ≠ none ∧ (hm.table j).keystring ≠ some k) :
    hm.removeLoop k (before ++ rest) = hm.removeLoop k rest := by
  induction before with
  | nil => rfl
  | cons i before ih =>
      obtain ⟨hd, hk⟩ := hb i List.mem_cons_self
      rw [List.cons_append, removeLoop, if_pos (Option.isSome_iff_ne_none.mpr hd), if_neg hk]
      exact ih fun j hj => hb j (List.mem_cons_of_mem _ hj)

/-- Without the key, the loop of `hashmap_remove` changes nothing. -/
lemma removeLoop_of_absent (h : hm.Holds m) {k : String} (hk : m.get k = none) (l : List ℕ)
    (hl : ∀ i ∈ l, i < hm.size) : hm.removeLoop k l = (none, hm) := by
  induction l with
  | nil => rfl
  | cons i l ih =>
      rw [removeLoop]
      split_ifs with hdata hkey hact
      · obtain ⟨v, -, hv, -⟩ := h.get_of_active (hl i List.mem_cons_self) hact hkey
        rw [hk] at hv
        exact absurd hv (by simp)
      · rfl
      · exact ih fun j hj => hl j (List.mem_cons_of_mem _ hj)
      · rfl

/-- Marking the slot of a key as not active removes the key. -/
lemma deactivate (h : hm.Holds m) {i : ℕ} {k : String} (hi : i < hm.size)
    (hact : (hm.table i).active = true) (hkey : (hm.table i).keystring = some k) :
    Holds { hm with
      table := Function.update hm.table i { hm.table i with active := false }
      count := hm.count - 1 } (m.remove k) := by
  obtain ⟨d, hdata, -, -⟩ := h.get_of_active hi hact hkey
  set hm' : Hashmap V := { hm with
    table := Function.update hm.table i { hm.table i with active := false }
    count := hm.count - 1 } with hhm'
  have hself : hm'.table i = { hm.table i with active := false } := Function.update_self ..
  have hother : ∀ j, j ≠ i → hm'.table j = hm.table j := fun j hj => Function.update_of_ne hj ..
  have hreach : ∀ k' j, hm.Reaches k' j → hm'.Reaches k' j := fun k' j hj =>
    hj.update (e := { hm.table i with active := false }) (by simp [hdata]) (fun hk => hk)
      (hm.count - 1)
  refine ⟨h.size_pos, fun j hj hjact => ?_, fun k' v hv => ?_, ?_⟩
  · have hji : j ≠ i := by
      rintro rfl
      rw [hself] at hjact
      exact absurd hjact (by simp)
    rw [hother j hji] at hjact ⊢
    obtain ⟨k', v, h1, h2, h3, h4⟩ := h.entry j hj hjact
    refine ⟨k', v, h1, h2, ?_, hreach k' j h4⟩
    rw [StringMap.get_remove, if_neg]
    · exact h3
    · rintro rfl
      exact hji (h.slot_unique hj hi hjact hact h1 hkey)
  · rw [StringMap.get_remove] at hv
    split_ifs at hv with hk'
    obtain ⟨j, hj, hjact, hjkey⟩ := h.live k' v hv
    have hji : j ≠ i := by
      rintro rfl
      exact hk' (Option.some.inj (hjkey.symm.trans hkey))
    exact ⟨j, hj, by rw [hother j hji, hjact], by rw [hother j hji, hjkey]⟩
  · show hm.count - 1 = hm'.activeSlots.length
    rw [h.count]
    exact (length_activeSlots_deactivate hi hact rfl _).symm

/-- `hashmap_remove` returns the data of the key and removes it. -/
lemma remove_spec (h : hm.Holds m) (k : String) :
    (hm.remove k).1 = m.get k ∧ (hm.remove k).2.Holds (m.remove k) := by
  rw [Hashmap.remove]
  cases hk : m.get k with
  | none =>
      rw [h.removeLoop_of_absent hk _ fun i hi => mem_probePath_lt h.size_pos hi]
      refine ⟨rfl, h.congr fun k' => ?_⟩
      rw [StringMap.get_remove]
      split_ifs with hk'
      · rw [hk', hk]
      · rfl
  | some v =>
      obtain ⟨i, hi, hact, hkey⟩ := h.live k v hk
      obtain ⟨v', hdata, hv, b, a, hpath, hb⟩ := h.get_of_active hi hact hkey
      obtain rfl := Option.some.inj (hk.symm.trans hv)
      have hsome : (hm.table i).data.isSome = true := by rw [hdata]; rfl
      rw [hpath, removeLoop_append k b _ hb, removeLoop, if_pos hsome, if_pos hkey, if_pos hact]
      exact ⟨hdata, h.deactivate hi hact hkey⟩

/-! ### Insertion -/

/-- Where the loop of `hashmap_insert` ends: at an active slot of the key or at
an inactive slot, past active slots of other keys. -/
lemma insertLoop_cases {d : V} {k : String} {l : List ℕ} {hm' : Hashmap V}
    (h : hm.insertLoop d k l = some hm') :
    ∃ before i after, l = before ++ i :: after
      ∧ (∀ j ∈ before, (hm.table j).active = true ∧ (hm.table j).keystring ≠ some k)
      ∧ (((hm.table i).active = true ∧ (hm.table i).keystring = some k
            ∧ hm' = { hm with
                table := Function.update hm.table i { hm.table i with data := some d } })
          ∨ ((hm.table i).active = false
            ∧ hm' = { hm with
                table := Function.update hm.table i
                  { data := some d, active := true, keystring := some k }
                count := hm.count + 1 })) := by
  induction l with
  | nil => simp [insertLoop] at h
  | cons i l ih =>
      rw [insertLoop] at h
      split_ifs at h with hact hkey
      · exact ⟨[], i, l, rfl, by simp, Or.inl ⟨hact, hkey, (Option.some.inj h).symm⟩⟩
      · obtain ⟨b, j, a, rfl, hb, hres⟩ := ih h
        refine ⟨i :: b, j, a, rfl, fun x hx => ?_, hres⟩
        rcases List.mem_cons.mp hx with rfl | hx
        · exact ⟨hact, hkey⟩
        · exact hb x hx
      · exact ⟨[], i, l, rfl, by simp, Or.inr ⟨by simpa using hact, (Option.some.inj h).symm⟩⟩

/-- The loop of `hashmap_insert` runs to its end if and only if all slots are
taken by other keys. -/
lemma insertLoop_eq_none {d : V} {k : String} {l : List ℕ} :
    hm.insertLoop d k l = none
      ↔ ∀ i ∈ l, (hm.table i).active = true ∧ (hm.table i).keystring ≠ some k := by
  induction l with
  | nil => simp [insertLoop]
  | cons x l ih =>
      rw [insertLoop, List.forall_mem_cons]
      split_ifs with hact hkey
      · simp [hkey]
      · rw [ih]
        exact ⟨fun h => ⟨⟨hact, hkey⟩, h⟩, fun h => h.2⟩
      · simp [hact]

/-- New data in the slot of a key. -/
lemma overwrite (h : hm.Holds m) {i : ℕ} {k : String} (hi : i < hm.size)
    (hact : (hm.table i).active = true) (hkey : (hm.table i).keystring = some k) (d : V) :
    Holds { hm with
      table := Function.update hm.table i { hm.table i with data := some d } } (m.insert k d) := by
  set hm' : Hashmap V := { hm with
    table := Function.update hm.table i { hm.table i with data := some d } } with hhm'
  have hself : hm'.table i = { hm.table i with data := some d } := Function.update_self ..
  have hother : ∀ j, j ≠ i → hm'.table j = hm.table j := fun j hj => Function.update_of_ne hj ..
  have hreach : ∀ k' j, hm.Reaches k' j → hm'.Reaches k' j := fun k' j hj =>
    hj.update (e := { hm.table i with data := some d }) (by simp) (fun hk => hk) hm.count
  refine ⟨h.size_pos, fun j hj hjact => ?_, fun k' v hv => ?_, ?_⟩
  · by_cases hji : j = i
    · subst hji
      obtain ⟨-, -, -, h4⟩ := h.get_of_active hj hact hkey
      exact ⟨k, d, by rw [hself, hkey], by rw [hself], StringMap.get_insert_self _ _ _,
        hreach k j h4⟩
    · rw [hother j hji] at hjact ⊢
      obtain ⟨k', v, h1, h2, h3, h4⟩ := h.entry j hj hjact
      refine ⟨k', v, h1, h2, ?_, hreach k' j h4⟩
      rw [StringMap.get_insert_of_ne _ _ fun hk' => ?_]
      · exact h3
      · exact hji (h.slot_unique hj hi hjact hact h1 (hk' ▸ hkey))
  · rw [StringMap.get_insert] at hv
    split_ifs at hv with hk'
    · exact ⟨i, hi, by rw [hself, hact], by rw [hself, hkey, hk']⟩
    · obtain ⟨j, hj, hjact, hjkey⟩ := h.live k' v hv
      have hji : j ≠ i := by
        rintro rfl
        exact hk' (Option.some.inj (hjkey.symm.trans hkey))
      exact ⟨j, hj, by rw [hother j hji, hjact], by rw [hother j hji, hjkey]⟩
  · show hm.count = hm'.activeSlots.length
    rw [h.count]
    exact (length_activeSlots_keep (e := { hm.table i with data := some d }) rfl).symm

/-- A key that is absent in the first inactive slot of its path. -/
lemma fill (h : hm.Holds m) {k : String} (hk : m.get k = none) {before after : List ℕ} {i : ℕ}
    (hpath : probePath hm.size k = before ++ i :: after)
    (hb : ∀ j ∈ before, (hm.table j).active = true ∧ (hm.table j).keystring ≠ some k)
    (hact : (hm.table i).active = false) (d : V) :
    Holds { hm with
      table := Function.update hm.table i { data := some d, active := true, keystring := some k }
      count := hm.count + 1 } (m.insert k d) := by
  have hi : i < hm.size := mem_probePath_lt h.size_pos (k := k) (by rw [hpath]; simp)
  set hm' : Hashmap V := { hm with
    table := Function.update hm.table i { data := some d, active := true, keystring := some k }
    count := hm.count + 1 } with hhm'
  have hself : hm'.table i = { data := some d, active := true, keystring := some k } :=
    Function.update_self ..
  have hother : ∀ j, j ≠ i → hm'.table j = hm.table j := fun j hj => Function.update_of_ne hj ..
  have hreach : ∀ k' j, k' ≠ k → hm.Reaches k' j → hm'.Reaches k' j := fun k' j hk' hj =>
    hj.update (e := { data := some d, active := true, keystring := some k }) (by simp)
      (fun hkey => absurd (Option.some.inj hkey).symm hk') (hm.count + 1)
  -- the slot is used now, and by no key that was present
  have hne : ∀ j < hm.size, (hm.table j).active = true →
      ∀ k', (hm.table j).keystring = some k' → k' ≠ k := by
    rintro j hj hjact k' hjkey rfl
    obtain ⟨v, -, hv, -⟩ := h.get_of_active hj hjact hjkey
    rw [hk] at hv
    exact absurd hv (by simp)
  refine ⟨h.size_pos, fun j hj hjact => ?_, fun k' v hv => ?_, ?_⟩
  · by_cases hji : j = i
    · subst hji
      refine ⟨k, d, by rw [hself], by rw [hself], StringMap.get_insert_self _ _ _, before, after,
        hpath, fun x hx => ?_⟩
      obtain ⟨hxact, hxkey⟩ := hb x hx
      have hxi : x ≠ j := by
        rintro rfl
        rw [hact] at hxact
        exact absurd hxact (by simp)
      have hxlt : x < hm.size := mem_probePath_lt h.size_pos (k := k) (by rw [hpath]; simp [hx])
      obtain ⟨-, v, -, hv, -, -⟩ := h.entry x hxlt hxact
      rw [hother x hxi, hv]
      exact ⟨by simp, hxkey⟩
    · rw [hother j hji] at hjact ⊢
      obtain ⟨k', v, h1, h2, h3, h4⟩ := h.entry j hj hjact
      have hk' := hne j hj hjact k' h1
      exact ⟨k', v, h1, h2, by rw [StringMap.get_insert_of_ne _ _ hk', h3], hreach k' j hk' h4⟩
  · rw [StringMap.get_insert] at hv
    split_ifs at hv with hk'
    · exact ⟨i, hi, by rw [hself], by rw [hself, hk']⟩
    · obtain ⟨j, hj, hjact, hjkey⟩ := h.live k' v hv
      have hji : j ≠ i := by
        rintro rfl
        rw [hact] at hjact
        exact absurd hjact (by simp)
      exact ⟨j, hj, by rw [hother j hji, hjact], by rw [hother j hji, hjkey]⟩
  · show hm.count + 1 = hm'.activeSlots.length
    rw [h.count]
    exact (length_activeSlots_activate hi hact rfl _).symm

/-- A key that is absent has no entry that could be obstructed. -/
lemma unobstructed_of_absent (h : hm.Holds m) {k : String} (hk : m.get k = none) :
    hm.Unobstructed k := by
  intro before i after hpath _ hact hkey
  have hi : i < hm.size := mem_probePath_lt h.size_pos (k := k) (by rw [hpath]; simp)
  obtain ⟨v, -, hv, -⟩ := h.get_of_active hi hact hkey
  rw [hk] at hv
  exact absurd hv (by simp)

/-- Where nothing was removed no entry is obstructed. -/
lemma unobstructed_of_tight (h : hm.Holds m) (ht : hm.Tight) (k : String) :
    hm.Unobstructed k := by
  intro before i after hpath hnot hact hkey j hj
  have hi : i < hm.size := mem_probePath_lt h.size_pos (k := k) (by rw [hpath]; simp)
  obtain ⟨v, -, -, b, a, hpath', hb⟩ := h.get_of_active hi hact hkey
  rcases eq_or_mem_of_append_eq (hpath.symm.trans hpath') with heq | hmem | hmem
  · exact ht j (hb j (heq.2 ▸ hj)).1
  · exact absurd hkey (hb i hmem).2
  · exact absurd hmem hnot

/-- The loop of `hashmap_insert` on an entry that is not obstructed. -/
lemma insertLoop_spec (h : hm.Holds m) {k : String} (hun : hm.Unobstructed k) {d : V}
    {hm' : Hashmap V} (hloop : hm.insertLoop d k (probePath hm.size k) = some hm') :
    hm'.Holds (m.insert k d) ∧ (hm.Tight → hm'.Tight) ∧ hm'.size = hm.size := by
  obtain ⟨before, i, after, hpath, hb, hres⟩ := insertLoop_cases hloop
  have hi : i < hm.size := mem_probePath_lt h.size_pos (k := k) (by rw [hpath]; simp)
  rcases hres with ⟨hact, hkey, rfl⟩ | ⟨hact, rfl⟩
  · exact ⟨h.overwrite hi hact hkey d, fun ht =>
      ht.update i (e := { hm.table i with data := some d }) hact hm.count, rfl⟩
  · -- an inactive slot comes first only if the key is absent
    have hk : m.get k = none := by
      by_contra hne
      obtain ⟨v, hv⟩ := Option.ne_none_iff_exists'.mp hne
      obtain ⟨j, hj, hjact, hjkey⟩ := h.live k v hv
      obtain ⟨-, -, -, b, a, hpath', hb'⟩ := h.get_of_active hj hjact hjkey
      have hnot : j ∉ b := fun hmem => (hb' j hmem).2 hjkey
      rcases eq_or_mem_of_append_eq (hpath.symm.trans hpath') with heq | hmem | hmem
      · rw [heq.1, hjact] at hact
        exact absurd hact (by simp)
      · have := hun b j a hpath' hnot hjact hjkey i hmem
        rw [hact] at this
        exact absurd this (by simp)
      · exact (hb j hmem).2 hjkey
    exact ⟨h.fill hk hpath hb hact d, fun ht => ht.update i rfl (hm.count + 1), rfl⟩

/-! ### Enlargement -/

/-- An insertion that is right on tables where nothing was removed, for keys that
are absent. -/
def InsertsFresh (insert : Hashmap V → V → String → Option (Hashmap V)) : Prop :=
  ∀ (hm : Hashmap V) (m : StringMap V) (d : V) (k : String) (hm' : Hashmap V), hm.Holds m →
    hm.Tight → m.get k = none → insert hm d k = some hm' →
    hm'.Holds (m.insert k d) ∧ hm'.Tight ∧ hm.size ≤ hm'.size

/-- The loop of `rehash` over some of the active slots: their entries come to
those that are there. -/
lemma foldlM_rehash {insert : Hashmap V → V → String → Option (Hashmap V)}
    (hins : InsertsFresh insert) (h : hm.Holds m) (l : List ℕ) (hnd : l.Nodup)
    (hl : ∀ i ∈ l, i < hm.size ∧ (hm.table i).active = true) {new new' : Hashmap V}
    {m₀ : StringMap V} (hnew : new.Holds m₀) (ht : new.Tight)
    (hm₀ : ∀ i ∈ l, ∀ k, (hm.table i).keystring = some k → m₀.get k = none)
    (hfold : l.foldlM (fun new index =>
      match (hm.table index).data, (hm.table index).keystring with
      | some data, some keystring => insert new data keystring
      | _, _ => some new) new = some new') :
    ∃ m', new'.Holds m' ∧ new'.Tight ∧ new.size ≤ new'.size
      ∧ ∀ k v, m'.get k = some v ↔ m₀.get k = some v
          ∨ ∃ i ∈ l, (hm.table i).keystring = some k ∧ (hm.table i).data = some v := by
  induction l generalizing new m₀ with
  | nil =>
      obtain rfl := Option.some.inj hfold
      exact ⟨m₀, hnew, ht, le_refl _, by simp⟩
  | cons i l ih =>
      obtain ⟨hi, hact⟩ := hl i List.mem_cons_self
      obtain ⟨hil, hnd'⟩ := List.nodup_cons.mp hnd
      obtain ⟨k, d, hkey, hdata, -, -⟩ := h.entry i hi hact
      simp only [List.foldlM_cons, hkey, hdata, Option.bind_eq_bind, Option.bind_eq_some_iff]
        at hfold
      obtain ⟨new₁, hins₁, hfold'⟩ := hfold
      have hk := hm₀ i List.mem_cons_self k hkey
      obtain ⟨h1, h2, h3⟩ := hins new m₀ d k new₁ hnew ht hk hins₁
      obtain ⟨m', i1, i2, i3, i4⟩ := ih hnd' (fun j hj => hl j (List.mem_cons_of_mem _ hj)) h1 h2
        (fun j hj k' hk' => by
          rw [StringMap.get_insert_of_ne _ _ fun hkk => ?_]
          · exact hm₀ j (List.mem_cons_of_mem _ hj) k' hk'
          · obtain ⟨hjlt, hjact⟩ := hl j (List.mem_cons_of_mem _ hj)
            rw [h.slot_unique hi hjlt hact hjact hkey (hkk ▸ hk')] at hil
            exact hil hj) hfold'
      refine ⟨m', i1, i2, h3.trans i3, fun k' v => ?_⟩
      rw [i4, StringMap.get_insert]
      simp only [List.mem_cons, exists_eq_or_imp, hkey, hdata, Option.some.injEq]
      by_cases hkk : k' = k
      · subst hkk
        simp only [if_true, Option.some.injEq, hk, reduceCtorEq, false_or, true_and]
      · simp only [if_neg hkk, Ne.symm hkk, false_and, false_or]

/-- A table without entries holds the empty map. -/
lemma holds_blank {hm : Hashmap V} (hsize : 0 < hm.size) (hcount : hm.count = 0)
    (htable : hm.table = fun _ => Entry.blank) : hm.Holds ∅ := by
  refine ⟨hsize, fun i _ hact => ?_, fun k v hv => absurd hv (by simp), ?_⟩
  · rw [htable] at hact
    exact absurd hact (by simp [Entry.blank])
  · simp [hcount, activeSlots, htable, Entry.blank]

/-- `rehash` keeps the entries and drops what was removed. -/
lemma rehash_spec {insert : Hashmap V → V → String → Option (Hashmap V)}
    (hins : InsertsFresh insert) (h : hm.Holds m) {hm' : Hashmap V}
    (hre : hm.rehash insert = some hm') :
    hm'.Holds m ∧ hm'.Tight ∧ 2 * hm.size < hm'.size := by
  rw [rehash, Option.bind_eq_bind, Option.bind_eq_some_iff] at hre
  obtain ⟨⟨size, rand⟩, hprime, hfold⟩ := hre
  obtain ⟨hlt, -⟩ := findPrimeGreaterThan_bounds hprime
  set fresh : Hashmap V :=
    { size := size, count := 0, table := fun _ => Entry.blank, rand := rand }
  have hempty : fresh.Holds ∅ := holds_blank ((Nat.zero_le _).trans_lt hlt) rfl rfl
  have htight : fresh.Tight := fun i hi => absurd rfl hi
  obtain ⟨m', h1, h2, h3, h4⟩ := foldlM_rehash hins h hm.activeSlots.reverse
    (List.nodup_reverse.mpr (List.nodup_range.filter _))
    (fun i hi => mem_activeSlots.mp (List.mem_reverse.mp hi)) hempty htight
    (fun _ _ _ _ => StringMap.get_empty _) hfold
  refine ⟨h1.congr fun k => ?_, h2, hlt.trans_le h3⟩
  ext v
  rw [h4]
  simp only [StringMap.get_empty, reduceCtorEq, false_or, List.mem_reverse, mem_activeSlots]
  constructor
  · intro hv
    obtain ⟨i, hi, hact, hkey⟩ := h.live k v hv
    obtain ⟨v', hdata, hv', -⟩ := h.get_of_active hi hact hkey
    exact ⟨i, ⟨hi, hact⟩, hkey, by rw [hdata, ← hv', hv]⟩
  · rintro ⟨i, ⟨hi, hact⟩, hkey, hdata⟩
    obtain ⟨v', hdata', hv', -⟩ := h.get_of_active hi hact hkey
    rw [hv', ← hdata', hdata]

/-- `hashmap_insert` of a key whose entry is not obstructed. -/
lemma insertFuel_spec (fuel : ℕ) (atStart : Bool) {hm : Hashmap V} {m : StringMap V}
    (h : hm.Holds m) {k : String} (hun : hm.Unobstructed k) {d : V} {hm' : Hashmap V}
    (hins : insertFuel fuel atStart hm d k = some hm') :
    hm'.Holds (m.insert k d) ∧ (hm.Tight → hm'.Tight) ∧ hm.size ≤ hm'.size := by
  induction fuel generalizing atStart hm m k d hm' with
  | zero => simp [insertFuel] at hins
  | succ fuel ih =>
      have hfresh : InsertsFresh (insertFuel (V := V) fuel true) := by
        intro hm m d k hm' h ht hk hins
        obtain ⟨h1, h2, h3⟩ := ih true h (h.unobstructed_of_absent hk) hins
        exact ⟨h1, h2 ht, h3⟩
      rw [insertFuel] at hins
      split at hins
      · rename_i hm₁ hattempt
        obtain rfl := Option.some.inj hins
        split_ifs at hattempt
        obtain ⟨h1, h2, h3⟩ := h.insertLoop_spec hun hattempt
        exact ⟨h1, h2, h3.ge⟩
      · rw [Option.bind_eq_bind, Option.bind_eq_some_iff] at hins
        obtain ⟨hm₁, hre, hins⟩ := hins
        obtain ⟨r1, r2, r3⟩ := rehash_spec hfresh h hre
        obtain ⟨h1, h2, h3⟩ := ih false r1 (r1.unobstructed_of_tight r2 k) hins
        exact ⟨h1, fun _ => h2 r2, by omega⟩

lemma insertsFresh_insertFuel (fuel : ℕ) : InsertsFresh (insertFuel (V := V) fuel true) := by
  intro hm m d k hm' h ht hk hins
  obtain ⟨h1, h2, h3⟩ := insertFuel_spec fuel true h (h.unobstructed_of_absent hk) hins
  exact ⟨h1, h2 ht, h3⟩

/-! ### Counting and listing -/

/-- The number of entries and the list of the keys. -/
lemma matches_getkeys (h : hm.Holds m) :
    hm.getkeys.Perm m.getkeys ∧ hm.count = m.getkeys.length := by
  have hkey : ∀ i ∈ hm.activeSlots, (hm.table i).keystring
      = some (((hm.table i).keystring).getD "") := by
    intro i hi
    obtain ⟨hlt, hact⟩ := mem_activeSlots.mp hi
    obtain ⟨k, -, hk, -⟩ := h.entry i hlt hact
    rw [hk]
    rfl
  have hlist : hm.getkeys = hm.activeSlots.map fun i => ((hm.table i).keystring).getD "" := by
    have hmap : hm.activeSlots.filterMap (fun i => (hm.table i).keystring)
        = hm.activeSlots.map fun i => ((hm.table i).keystring).getD "" := by
      rw [← List.filterMap_eq_map]
      exact List.filterMap_congr hkey
    rw [getkeys, hmap]
    split_ifs with hcount
    · rw [h.count, List.length_eq_zero_iff] at hcount
      rw [hcount]
      rfl
    · rfl
  have hnd : hm.getkeys.Nodup := by
    rw [hlist]
    refine (List.nodup_range.filter _).map_on fun i hi j hj hij => ?_
    obtain ⟨hilt, hiact⟩ := mem_activeSlots.mp hi
    obtain ⟨hjlt, hjact⟩ := mem_activeSlots.mp hj
    exact h.slot_unique hilt hjlt hiact hjact (hkey i hi) ((hkey j hj).trans (by rw [hij]))
  have hperm : hm.getkeys.Perm m.getkeys := by
    refine (List.perm_ext_iff_of_nodup hnd m.nodup_getkeys).mpr fun k => ?_
    rw [hlist, List.mem_map, StringMap.mem_getkeys]
    constructor
    · rintro ⟨i, hi, rfl⟩
      obtain ⟨hlt, hact⟩ := mem_activeSlots.mp hi
      obtain ⟨v, -, hv, -⟩ := h.get_of_active hlt hact (hkey i hi)
      exact ⟨v, hv⟩
    · rintro ⟨v, hv⟩
      obtain ⟨i, hlt, hact, hk⟩ := h.live k v hv
      exact ⟨i, mem_activeSlots.mpr ⟨hlt, hact⟩, by rw [hk]; rfl⟩
  refine ⟨hperm, ?_⟩
  rw [← hperm.length_eq, hlist, List.length_map, h.count]

end Holds

/-! ### Sequences of calls -/

/-- A call of `hashmap_insert`, `hashmap_remove` or `hashmap_get`. -/
inductive Op (V : Type) where
  | insert (data : V) (keystring : String)
  | remove (keystring : String)
  | get (keystring : String)

/-- A call on the table: what it returns, and the table afterwards; `none` if it
does not return. -/
def step (hm : Hashmap V) : Op V → Option (Option V × Hashmap V)
  | .insert data keystring => (hm.insert data keystring).map fun hm => (none, hm)
  | .remove keystring => some (hm.remove keystring)
  | .get keystring => some (hm.get keystring, hm)

/-- The same call on a finite map. -/
def specStep (m : StringMap V) : Op V → Option V × StringMap V
  | .insert data keystring => (none, m.insert keystring data)
  | .remove keystring => (m.get keystring, m.remove keystring)
  | .get keystring => (m.get keystring, m)

/-- The calls behave as on the finite map: every call returns, and what the
finite map returns; and at every point the count is the number of keys and the
list of the keys has each of them once. -/
def Behaves (hm : Hashmap V) (m : StringMap V) : List (Op V) → Prop
  | [] => hm.getkeys.Perm m.getkeys ∧ hm.count = m.getkeys.length
  | op :: ops => (hm.getkeys.Perm m.getkeys ∧ hm.count = m.getkeys.length)
      ∧ ∃ hm', hm.step op = some ((specStep m op).1, hm') ∧ Behaves hm' (specStep m op).2 ops

/-- An insertion needs a larger table: this one is full, or the slots on the path
of the key are all taken by other keys. -/
def NeedsRoom (hm : Hashmap V) (k : String) : Prop :=
  hm.size ≤ hm.count
    ∨ ∀ i ∈ probePath hm.size k, (hm.table i).active = true ∧ (hm.table i).keystring ≠ some k

/-- The search for a larger size comes to one. -/
def SizeFound (hm : Hashmap V) : Prop :=
  ∃ r, findPrimeGreaterThan (2 * hm.size) hm.rand = some r

/-- If the search comes to a size, it is a prime number. -/
def SizePrime (hm : Hashmap V) : Prop :=
  ∀ r, findPrimeGreaterThan (2 * hm.size) hm.rand = some r → r.1.Prime

/-- Whenever a key is inserted, no slot before its entry is inactive, and if the
table has no room, the search for a larger size comes to one. -/
def Clear (hm : Hashmap V) : List (Op V) → Prop
  | [] => True
  | op :: ops => (∀ d k, op = .insert d k → hm.Unobstructed k ∧ (hm.NeedsRoom k → hm.SizeFound))
      ∧ ∀ r, hm.step op = some r → Clear r.2 ops

/-- Whenever an insertion finds a larger size, it is a prime number: no other
number passed the test of `isPrime`, which draws its bases at random. -/
def PrimeSizes (hm : Hashmap V) : List (Op V) → Prop
  | [] => True
  | op :: ops => (∀ d k, op = .insert d k → hm.NeedsRoom k → hm.SizePrime)
      ∧ ∀ r, hm.step op = some r → PrimeSizes r.2 ops

/-- An insertion that needs room enlarges the table first. -/
lemma insert_of_needsRoom {k : String} (hneeds : hm.NeedsRoom k) (d : V) :
    hm.insert d k
      = (hm.rehash (insertFuel 31 true)).bind fun new => insertFuel 31 false new d k := by
  have hnone : (if true && decide (hm.size ≤ hm.count) then none
      else hm.insertLoop d k (probePath hm.size k)) = none := by
    rcases hneeds with hfull | hall
    · exact if_pos (by simpa using hfull)
    · rw [Holds.insertLoop_eq_none.mpr hall, ite_self]
  rw [Hashmap.insert, insertFuel, hnone]
  rfl

/-- With room, the first pass through the loop is the insertion, whatever the
fuel. -/
lemma insertFuel_of_not_needsRoom {k : String} (hroom : ¬ hm.NeedsRoom k) (fuel : ℕ)
    (atStart : Bool) (d : V) :
    ∃ hm', insertFuel (fuel + 1) atStart hm d k = some hm'
      ∧ hm.insertLoop d k (probePath hm.size k) = some hm' := by
  rw [NeedsRoom, not_or, ← Holds.insertLoop_eq_none (d := d)] at hroom
  obtain ⟨hm', hloop⟩ := Option.ne_none_iff_exists'.mp hroom.2
  refine ⟨hm', ?_, hloop⟩
  rw [insertFuel, if_neg (by simp [hroom.1]), hloop]

/-- A call on a table that holds a finite map, if it is not obstructed. -/
lemma Holds.step (h : hm.Holds m) {op : Op V} (hun : ∀ d k, op = .insert d k → hm.Unobstructed k)
    {r : Option V × Hashmap V} (hr : hm.step op = some r) :
    r.1 = (specStep m op).1 ∧ r.2.Holds (specStep m op).2 := by
  cases op with
  | insert d k =>
      obtain ⟨hm', hins, rfl⟩ := Option.map_eq_some_iff.mp hr
      exact ⟨rfl, (Holds.insertFuel_spec 32 true h (hun d k rfl) hins).1⟩
  | remove k =>
      obtain rfl := Option.some.inj hr
      exact h.remove_spec k
  | get k =>
      obtain rfl := Option.some.inj hr
      exact ⟨h.get_eq k, h⟩

/-- The path of a key in a table of a prime number of slots comes to every
slot. -/
lemma mem_probePath_prime {size : ℕ} (hprime : size.Prime) (h3 : 3 ≤ size) (k : String) {i : ℕ}
    (hi : i < size) : i ∈ probePath size k := by
  have : Fact (Nat.Prime size) := ⟨hprime⟩
  set x := (hashfunction k).toNat % size with hx
  set step := (hashfunction k).toNat % (size - 2) + 1 with hstep
  have hstep0 : (step : ZMod size) ≠ 0 := by
    rw [Ne, ZMod.natCast_eq_zero_iff]
    refine Nat.not_dvd_of_pos_of_lt (Nat.succ_pos _) ?_
    have := Nat.mod_lt (hashfunction k).toNat (show 0 < size - 2 by omega)
    omega
  have hiter : ∀ r, (fun index => (index + step) % size)^[r] x = (x + r * step) % size := by
    intro r
    induction r with
    | zero =>
        rw [Function.iterate_zero, id, Nat.zero_mul, Nat.add_zero]
        exact (Nat.mod_mod _ _).symm
    | succ r ih =>
        rw [Function.iterate_succ_apply', ih, Nat.mod_add_mod]
        congr 1
        ring
  -- the number of steps solves a linear equation modulo the size
  set r := (((i : ZMod size) - x) / step).val with hr
  refine List.mem_iterate.mpr ⟨r, ZMod.val_lt _, ?_⟩
  have hsolve : ((x + r * step : ℕ) : ZMod size) = (i : ℕ) := by
    push_cast
    rw [hr, ZMod.natCast_zmod_val, div_mul_cancel₀ _ hstep0]
    ring
  have hmod := (ZMod.natCast_eq_natCast_iff' _ _ _).mp hsolve
  rw [Nat.mod_eq_of_lt hi] at hmod
  exact hmod.symm.trans (hiter r).symm

/-- A table of a prime number of slots that is not full has room for every
key. -/
lemma Holds.not_needsRoom_of_prime (h : hm.Holds m) (hprime : hm.size.Prime) (h3 : 3 ≤ hm.size)
    (hlt : hm.count < hm.size) (k : String) : ¬ hm.NeedsRoom k := by
  rintro (hfull | hall)
  · omega
  · have hslots : hm.activeSlots = List.range hm.size :=
      List.filter_eq_self.mpr fun i hi =>
        (hall i (mem_probePath_prime hprime h3 k (List.mem_range.mp hi))).1
    have hcount := h.count
    rw [hslots, List.length_range] at hcount
    omega

/-- `TABLE_STARTSIZE` is a prime number. -/
lemma Holds.not_needsRoom (h : hm.Holds m) (hsize : hm.size = 1021) (hlt : hm.count < 1021)
    (k : String) : ¬ hm.NeedsRoom k :=
  h.not_needsRoom_of_prime (by rw [hsize]; norm_num) (by omega) (by omega) k

lemma count_insertLoop_le {d : V} {k : String} {l : List ℕ} {hm' : Hashmap V}
    (hloop : hm.insertLoop d k l = some hm') : hm'.count ≤ hm.count + 1 := by
  obtain ⟨_, _, _, _, _, hres⟩ := Holds.insertLoop_cases hloop
  rcases hres with ⟨-, -, rfl⟩ | ⟨-, rfl⟩
  · exact Nat.le_succ _
  · exact le_refl _

/-- The loop of `rehash` into a table with a prime number of slots, which has room
for all of the entries. -/
lemma foldlM_rehash_of_prime (fuel : ℕ) (hm : Hashmap V) (l : List ℕ) {new : Hashmap V}
    {m₀ : StringMap V} (hnew : new.Holds m₀) (ht : new.Tight) (hprime : new.size.Prime)
    (h3 : 3 ≤ new.size) (hlt : new.count + l.length < new.size) :
    ∃ new', l.foldlM (fun new index =>
        match (hm.table index).data, (hm.table index).keystring with
        | some data, some keystring => insertFuel (fuel + 1) true new data keystring
        | _, _ => some new) new = some new'
      ∧ new'.size = new.size ∧ new'.count ≤ new.count + l.length := by
  induction l generalizing new m₀ with
  | nil => exact ⟨new, rfl, rfl, le_refl _⟩
  | cons i l ih =>
      rw [List.length_cons] at hlt ⊢
      rw [List.foldlM_cons]
      split
      · rename_i data keystring _ _
        -- the entry is inserted without an enlargement
        obtain ⟨new₁, hins, hloop⟩ := insertFuel_of_not_needsRoom
          (hnew.not_needsRoom_of_prime hprime h3 (by omega) keystring) fuel true data
        obtain ⟨h1, h2, hsize⟩ :=
          hnew.insertLoop_spec (hnew.unobstructed_of_tight ht keystring) hloop
        have hcount := count_insertLoop_le hloop
        obtain ⟨new', hfold, hsize', hcount'⟩ := ih h1 (h2 ht) (hsize ▸ hprime) (hsize ▸ h3)
          (by omega)
        refine ⟨new', ?_, hsize'.trans hsize, by omega⟩
        rw [hins]
        exact hfold
      · obtain ⟨new', hfold, hsize', hcount'⟩ := ih hnew ht hprime h3 (by omega)
        exact ⟨new', hfold, hsize', by omega⟩

/-- An insertion returns if, should it need room, a prime number is found. -/
lemma Holds.insert_returns (h : hm.Holds m) (d : V) (k : String)
    (hfound : hm.NeedsRoom k → hm.SizeFound) (hprime : hm.NeedsRoom k → hm.SizePrime) :
    ∃ hm', hm.insert d k = some hm' := by
  by_cases hneeds : hm.NeedsRoom k
  · obtain ⟨⟨size, rand⟩, hsize⟩ := hfound hneeds
    have hp : size.Prime := hprime hneeds _ hsize
    have hlt := (findPrimeGreaterThan_bounds hsize).1
    have hpos := h.size_pos
    set fresh : Hashmap V :=
      { size := size, count := 0, table := fun _ => Entry.blank, rand := rand }
    have hslots : hm.activeSlots.reverse.length ≤ hm.size := by
      rw [List.length_reverse, activeSlots]
      exact (List.length_filter_le _ _).trans List.length_range.le
    have h3 : 3 ≤ fresh.size := show 3 ≤ size by omega
    have hempty : fresh.Holds (∅ : StringMap V) :=
      holds_blank (show 0 < size by omega) rfl rfl
    obtain ⟨hm₁, hfold, hsize₁, hcount₁⟩ := foldlM_rehash_of_prime 30 hm hm.activeSlots.reverse
      hempty (fun i hi => absurd rfl hi) hp h3 (show 0 + _ < size by omega)
    have hre : hm.rehash (insertFuel 31 true) = some hm₁ := by
      rw [rehash, hsize]
      exact hfold
    -- the new table has room for the key itself
    have hlt₁ : hm₁.count < hm₁.size := by
      have hzero : fresh.count = 0 := rfl
      have hfresh : fresh.size = size := rfl
      omega
    obtain ⟨h1, -, -⟩ := rehash_spec (insertsFresh_insertFuel 31) h hre
    obtain ⟨hm', hins, -⟩ := insertFuel_of_not_needsRoom
      (h1.not_needsRoom_of_prime (hsize₁ ▸ hp) (hsize₁ ▸ h3) hlt₁ k) 30 false d
    refine ⟨hm', ?_⟩
    rw [insert_of_needsRoom hneeds, hre]
    exact hins
  · obtain ⟨hm', hins, -⟩ := insertFuel_of_not_needsRoom hneeds 31 true d
    exact ⟨hm', hins⟩

/-! ### The condition -/

/-- The converse, as long as the sizes that are found are prime numbers. -/
lemma Holds.behaves_of_clear (h : hm.Holds m) {ops : List (Op V)} (hclear : hm.Clear ops)
    (hprime : hm.PrimeSizes ops) : hm.Behaves m ops := by
  induction ops generalizing hm m with
  | nil => exact h.matches_getkeys
  | cons op ops ih =>
      obtain ⟨hstep, hclear⟩ := hclear
      obtain ⟨hstep', hprime⟩ := hprime
      obtain ⟨r, hr⟩ : ∃ r, hm.step op = some r := by
        cases op with
        | insert d k =>
            obtain ⟨hm', hins⟩ := h.insert_returns d k (hstep d k rfl).2 (hstep' d k rfl)
            exact ⟨(none, hm'), by rw [Hashmap.step, hins]; rfl⟩
        | remove k => exact ⟨_, rfl⟩
        | get k => exact ⟨_, rfl⟩
      obtain ⟨h1, h2⟩ := h.step (fun d k hop => (hstep d k hop).1) hr
      refine ⟨h.matches_getkeys, r.2, ?_, ih h2 (hclear r hr) (hprime r hr)⟩
      rw [hr, ← h1]

/-- A new table holds the empty map. -/
lemma holds_create (rand : Rand) : (create rand : Hashmap V).Holds ∅ :=
  Holds.holds_blank (show 0 < 1021 by decide) rfl rfl

/-! ### Runs with room -/

/-- A call that does not need room does not enlarge the table. -/
lemma size_step {op : Op V} (hroom : ∀ d k, op = .insert d k → ¬ hm.NeedsRoom k)
    {r : Option V × Hashmap V} (hr : hm.step op = some r) : r.2.size = hm.size := by
  cases op with
  | insert d k =>
      obtain ⟨hm', hins, rfl⟩ := Option.map_eq_some_iff.mp hr
      have hroom := hroom d k rfl
      obtain ⟨hm₁, hins', hloop⟩ := insertFuel_of_not_needsRoom hroom 31 true d
      rw [Hashmap.insert, hins'] at hins
      obtain rfl := Option.some.inj hins
      exact size_insertLoop hloop
  | remove k =>
      obtain rfl := Option.some.inj hr
      exact size_removeLoop k _
  | get k =>
      obtain rfl := Option.some.inj hr
      rfl

/-- No insertion is obstructed, and none needs a larger table. -/
def Spare (hm : Hashmap V) : List (Op V) → Prop
  | [] => True
  | op :: ops => (∀ d k, op = .insert d k → hm.Unobstructed k ∧ ¬ hm.NeedsRoom k)
      ∧ ∀ r, hm.step op = some r → Spare r.2 ops

lemma Spare.clear {ops : List (Op V)} (h : hm.Spare ops) : hm.Clear ops ∧ hm.PrimeSizes ops := by
  induction ops generalizing hm with
  | nil => exact ⟨trivial, trivial⟩
  | cons op ops ih =>
      obtain ⟨hop, hops⟩ := h
      exact ⟨⟨fun d k heq => ⟨(hop d k heq).1, fun hneeds => absurd hneeds (hop d k heq).2⟩,
          fun r hr => (ih (hops r hr)).1⟩,
        fun d k heq hneeds => absurd hneeds (hop d k heq).2, fun r hr => (ih (hops r hr)).2⟩

/-- One call on a table of the first size, followed by more. -/
lemma Holds.spare_cons (h : hm.Holds m) (hsize : hm.size = 1021) {op : Op V} {ops : List (Op V)}
    (hun : ∀ d k, op = .insert d k → hm.Unobstructed k)
    (hlt : ∀ d k, op = .insert d k → m.getkeys.length < 1021)
    (hrest : ∀ r, hm.step op = some r → r.2.Holds (specStep m op).2 → r.2.size = 1021 →
      r.2.Spare ops) : hm.Spare (op :: ops) := by
  have hroom : ∀ d k, op = .insert d k → ¬ hm.NeedsRoom k := fun d k hop =>
    h.not_needsRoom hsize (h.matches_getkeys.2 ▸ hlt d k hop) k
  exact ⟨fun d k hop => ⟨hun d k hop, hroom d k hop⟩, fun r hr =>
    hrest r hr (h.step hun hr).2 ((size_step hroom hr).trans hsize)⟩

/-- A key is inserted only while it is absent and fewer than 1021 keys are
present. -/
def Fresh (m : StringMap V) : List (Op V) → Prop
  | [] => True
  | op :: ops => (∀ d k, op = .insert d k → m.get k = none ∧ m.getkeys.length < 1021)
      ∧ Fresh (specStep m op).2 ops

/-- Nothing is removed, and a key is inserted only while fewer than 1021 keys are
present. -/
def Growing (m : StringMap V) : List (Op V) → Prop
  | [] => True
  | op :: ops => (∀ k, op ≠ .remove k) ∧ (∀ d k, op = .insert d k → m.getkeys.length < 1021)
      ∧ Growing (specStep m op).2 ops

lemma Holds.spare_of_fresh (h : hm.Holds m) (hsize : hm.size = 1021) (ops : List (Op V))
    (hfresh : Fresh m ops) : hm.Spare ops := by
  induction ops generalizing hm m with
  | nil => trivial
  | cons op ops ih =>
      obtain ⟨hop, hops⟩ := hfresh
      refine h.spare_cons hsize (fun d k heq => ?_) (fun d k heq => (hop d k heq).2) ?_
      · exact h.unobstructed_of_absent (hop d k heq).1
      · exact fun r _ hr hrsize => ih hr hrsize hops

/-- Without removals every slot that is used is active. -/
lemma Holds.tight_step (h : hm.Holds m) (ht : hm.Tight) {op : Op V} (hop : ∀ k, op ≠ .remove k)
    {r : Option V × Hashmap V} (hr : hm.step op = some r) : r.2.Tight := by
  cases op with
  | insert d k =>
      obtain ⟨hm', hins, rfl⟩ := Option.map_eq_some_iff.mp hr
      exact (Holds.insertFuel_spec 32 true h (h.unobstructed_of_tight ht k) hins).2.1 ht
  | remove k => exact absurd rfl (hop k)
  | get k =>
      obtain rfl := Option.some.inj hr
      exact ht

lemma Holds.spare_of_growing (h : hm.Holds m) (ht : hm.Tight) (hsize : hm.size = 1021)
    (ops : List (Op V)) (hgrowing : Growing m ops) : hm.Spare ops := by
  induction ops generalizing hm m with
  | nil => trivial
  | cons op ops ih =>
      obtain ⟨hop, hlt, hops⟩ := hgrowing
      refine h.spare_cons hsize (fun d k _ => h.unobstructed_of_tight ht k) hlt ?_
      exact fun r hstep hr hrsize => ih hr (h.tight_step ht hop hstep) hrsize hops

/-! ### The table as a finite map -/

lemma behaves_of_spare {rand : Rand} {ops : List (Op V)}
    (h : (create rand : Hashmap V).Spare ops) : (create rand : Hashmap V).Behaves ∅ ops :=
  (holds_create rand).behaves_of_clear h.clear.1 h.clear.2

/-- The table is a finite map for callers that insert a key only while it is
absent, and fewer than 1021 keys are present. -/
theorem behaves_of_fresh (rand : Rand) (ops : List (Op V)) (hfresh : Fresh ∅ ops) :
    (create rand : Hashmap V).Behaves ∅ ops :=
  behaves_of_spare ((holds_create rand).spare_of_fresh rfl ops hfresh)

/-- The table is a finite map for callers that remove nothing while fewer than
1021 keys are present. -/
theorem behaves_of_growing (rand : Rand) (ops : List (Op V)) (hgrowing : Growing ∅ ops) :
    (create rand : Hashmap V).Behaves ∅ ops :=
  behaves_of_spare ((holds_create rand).spare_of_growing (fun _ hi => absurd rfl hi) rfl ops
    hgrowing)

end Hashmap

end KubeSafeScheduler.Utils
