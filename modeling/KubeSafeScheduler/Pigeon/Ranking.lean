import KubeSafeScheduler.Lib.Enumeration
import KubeSafeScheduler.Lib.Exact
import KubeSafeScheduler.Lib.StringMap

/-!
`ComputeRank` of `pigeon/agent.go`: values of the nodes, where smaller is
better and NaN means that the pod does not fit, are rescaled to integer scores
between zero and `MaxPriority`.

The two loops range over a Go map, so the order of each is an argument. The
scores do not depend on it (`get_computeRank`).

* `Extremes`, `scanValue`: the loop that finds the least and the greatest value;
  `extremes_perm`, `extremes_bounds`.
* `rankOf`, `computeRank`: the loop that fills the map of scores.
* `rankOf_some`: the score of a value between two distinct extremes;
  `rankOf_antitone`, `rankOf_least`, `rankOf_greatest`.
* `computeRank_reverses`: the scores turn the order of the values round.
-/

namespace KubeSafeScheduler.Pigeon

variable {K : Type} [Field K] [LinearOrder K]

/-- `schedulerapi.MaxPriority`. -/
def maxPriority : ℤ := 10

/-- The variables of the first loop of `ComputeRank`. -/
@[ext]
structure Extremes (K : Type) where
  isSet : Bool
  minValue : K
  maxValue : K

/-- One round of the first loop of `ComputeRank`; `none` is NaN. -/
def scanValue (s : Extremes K) : Option K → Extremes K
  | none => s
  | some v =>
      if s.isSet then
        { s with
          minValue := if v < s.minValue then v else s.minValue
          maxValue := if s.maxValue < v then v else s.maxValue }
      else { isSet := true, minValue := v, maxValue := v }

/-- The first loop of `ComputeRank`. -/
def extremes (values : List (Option K)) : Extremes K :=
  values.foldl scanValue { isSet := false, minValue := 0, maxValue := 0 }

/-- The map that `GetPodRanks` fills: the value of each node under its name. -/
def podRanks (nameList : List String) (cRanks : List (Option K)) : StringMap (Option K) :=
  (nameList.zip cRanks).foldl (fun m kv => m.insert kv.1 kv.2) ∅

section Loops

variable [FloorRing K]

/-- The score that the second loop of `ComputeRank` gives to a value. -/
def rankOf (s : Extremes K) : Option K → ℤ
  | none => 0
  | some v =>
      let span := s.maxValue - s.minValue
      let span := if span < 0 then 0 else span
      if span = 0 then maxPriority
      else
        let rank := roundHalfAway (1 + ((maxPriority : K) - 1) * (s.maxValue - v) / span)
        let rank := if rank < 0 then 0 else rank
        if maxPriority < rank then maxPriority else rank

/-- `ComputeRank` on the values that `GetPodRanks` returns. -/
def computeRank (ord ord' : EnumOrder) (valueMap : StringMap (Option K)) : StringMap ℤ :=
  let s := extremes ((ord.order valueMap.entries).map Prod.snd)
  (ord'.order valueMap.entries).foldl (fun m kv => m.insert kv.1 (rankOf s kv.2)) ∅

end Loops

/-! ### The values by name -/

omit [Field K] [LinearOrder K] in
/-- With distinct names every node has its own value. -/
lemma get_podRanks {nameList : List String} (hnd : nameList.Nodup) (cRanks : List (Option K))
    (k : String) (v : Option K) :
    (podRanks nameList cRanks).get k = some v ↔ (k, v) ∈ nameList.zip cRanks := by
  have hinj : ∀ a ∈ nameList.zip cRanks, ∀ b ∈ nameList.zip cRanks, a.1 = b.1 → a.2 = b.2 := by
    intro a ha b hb hab
    obtain ⟨i, hi⟩ := List.mem_iff_getElem?.mp ha
    obtain ⟨j, hj⟩ := List.mem_iff_getElem?.mp hb
    obtain ⟨hi1, hi2⟩ := List.getElem?_zip_eq_some.mp hi
    obtain ⟨hj1, hj2⟩ := List.getElem?_zip_eq_some.mp hj
    -- equal names stand at one position
    have hij : i = j := by
      obtain ⟨hilt, hi'⟩ := List.getElem?_eq_some_iff.mp hi1
      obtain ⟨hjlt, hj'⟩ := List.getElem?_eq_some_iff.mp hj1
      exact (hnd.getElem_inj_iff).mp (hi'.trans (hab.trans hj'.symm))
    rw [hij, hj2] at hi2
    exact (Option.some.inj hi2).symm
  rw [podRanks, StringMap.get_foldl_insert Prod.fst Prod.snd _ _ hinj]
  simp only [StringMap.get_empty, reduceCtorEq, and_false, or_false]
  constructor
  · rintro ⟨⟨k', v'⟩, hmem, rfl, rfl⟩
    exact hmem
  · exact fun hmem => ⟨(k, v), hmem, rfl, rfl⟩

/-! ### The extremes -/

omit [Field K] in
/-- Two rounds of the first loop can be swapped. -/
lemma scanValue_comm (s : Extremes K) (a b : Option K) :
    scanValue (scanValue s a) b = scanValue (scanValue s b) a := by
  cases a with
  | none => rfl
  | some a =>
      cases b with
      | none => rfl
      | some b =>
          cases hs : s.isSet <;> ext <;> simp only [scanValue, hs, Bool.false_eq_true, if_true,
            if_false] <;> grind

lemma extremes_perm {vs ws : List (Option K)} (h : vs.Perm ws) : extremes vs = extremes ws :=
  h.foldl_eq' (fun a _ b _ s => scanValue_comm s a b) _

omit [Field K] in
/-- Once set, the extremes enclose the values seen. -/
lemma foldl_scanValue_bounds (vs : List (Option K)) (s : Extremes K) (hs : s.isSet = true) :
    (vs.foldl scanValue s).isSet = true
      ∧ (vs.foldl scanValue s).minValue ≤ s.minValue
      ∧ s.maxValue ≤ (vs.foldl scanValue s).maxValue
      ∧ ∀ v, some v ∈ vs → (vs.foldl scanValue s).minValue ≤ v
          ∧ v ≤ (vs.foldl scanValue s).maxValue := by
  induction vs generalizing s with
  | nil => simp [hs]
  | cons w vs ih =>
      cases w with
      | none =>
          obtain ⟨h1, h2, h3, h4⟩ := ih s hs
          refine ⟨h1, h2, h3, fun v hv => h4 v ?_⟩
          simpa using hv
      | some w =>
          have hset : (scanValue s (some w)).isSet = true := by simp [scanValue, hs]
          have hmin : (scanValue s (some w)).minValue ≤ s.minValue
              ∧ (scanValue s (some w)).minValue ≤ w := by
            simp only [scanValue, hs, if_true]
            split_ifs with hlt
            · exact ⟨hlt.le, le_refl _⟩
            · exact ⟨le_refl _, not_lt.mp hlt⟩
          have hmax : s.maxValue ≤ (scanValue s (some w)).maxValue
              ∧ w ≤ (scanValue s (some w)).maxValue := by
            simp only [scanValue, hs, if_true]
            split_ifs with hlt
            · exact ⟨hlt.le, le_refl _⟩
            · exact ⟨le_refl _, not_lt.mp hlt⟩
          obtain ⟨h1, h2, h3, h4⟩ := ih _ hset
          refine ⟨h1, h2.trans hmin.1, hmax.1.trans h3, fun v hv => ?_⟩
          rcases List.mem_cons.mp hv with hv | hv
          · rw [Option.some.inj hv]
            exact ⟨h2.trans hmin.2, hmax.2.trans h3⟩
          · exact h4 v hv

/-- The extremes enclose every value. -/
lemma extremes_bounds {vs : List (Option K)} {v : K} (hv : some v ∈ vs) :
    (extremes vs).minValue ≤ v ∧ v ≤ (extremes vs).maxValue := by
  -- bring the value to the front, where it sets the extremes
  have hperm := extremes_perm (List.perm_cons_erase hv)
  rw [hperm, extremes, List.foldl_cons]
  obtain ⟨-, h2, h3, -⟩ := foldl_scanValue_bounds (vs.erase (some v))
    (scanValue { isSet := false, minValue := 0, maxValue := 0 } (some v)) (by simp [scanValue])
  exact ⟨h2, h3⟩

omit [Field K] in
/-- The extremes are among the starting extremes and the values seen. -/
lemma foldl_scanValue_attained (vs : List (Option K)) (s : Extremes K) (hs : s.isSet = true) :
    ((vs.foldl scanValue s).minValue = s.minValue
        ∨ some (vs.foldl scanValue s).minValue ∈ vs)
      ∧ ((vs.foldl scanValue s).maxValue = s.maxValue
        ∨ some (vs.foldl scanValue s).maxValue ∈ vs) := by
  induction vs generalizing s with
  | nil => exact ⟨Or.inl rfl, Or.inl rfl⟩
  | cons w vs ih =>
      cases w with
      | none =>
          obtain ⟨hmin, hmax⟩ := ih s hs
          exact ⟨hmin.imp_right (List.mem_cons_of_mem _), hmax.imp_right (List.mem_cons_of_mem _)⟩
      | some w =>
          obtain ⟨hmin, hmax⟩ := ih (scanValue s (some w)) (by simp [scanValue, hs])
          rw [List.foldl_cons]
          constructor
          · rcases hmin with hmin | hmin
            · rw [hmin]
              simp only [scanValue, hs, if_true]
              split_ifs
              · exact Or.inr List.mem_cons_self
              · exact Or.inl rfl
            · exact Or.inr (List.mem_cons_of_mem _ hmin)
          · rcases hmax with hmax | hmax
            · rw [hmax]
              simp only [scanValue, hs, if_true]
              split_ifs
              · exact Or.inr List.mem_cons_self
              · exact Or.inl rfl
            · exact Or.inr (List.mem_cons_of_mem _ hmax)

/-- When there is a value, the extremes are values. -/
lemma extremes_mem {vs : List (Option K)} {v : K} (hv : some v ∈ vs) :
    some (extremes vs).minValue ∈ vs ∧ some (extremes vs).maxValue ∈ vs := by
  have hperm := List.perm_cons_erase hv
  rw [extremes_perm hperm, hperm.mem_iff, hperm.mem_iff, extremes, List.foldl_cons]
  obtain ⟨hmin, hmax⟩ := foldl_scanValue_attained (vs.erase (some v))
    (scanValue { isSet := false, minValue := 0, maxValue := 0 } (some v)) (by simp [scanValue])
  constructor
  · rcases hmin with hmin | hmin
    · exact hmin ▸ List.mem_cons_self
    · exact List.mem_cons_of_mem _ hmin
  · rcases hmax with hmax | hmax
    · exact hmax ▸ List.mem_cons_self
    · exact List.mem_cons_of_mem _ hmax

/-! ### The scores -/

/-- The values of a map that are numbers. -/
def numbers (valueMap : StringMap (Option K)) : Set K :=
  {x | ∃ k, valueMap.get k = some (some x)}

/-- A score before it is rounded, the values ranging from `a` to `b`. -/
def scaledRank (a b v : K) : K := 1 + ((maxPriority : K) - 1) * (b - v) / (b - a)

lemma scaledRank_antitone [IsStrictOrderedRing K] {a b v w : K} (hab : a ≤ b) (h : v ≤ w) :
    scaledRank a b w ≤ scaledRank a b v := by
  have hnine : (0 : K) ≤ (maxPriority : K) - 1 := by
    simp only [maxPriority]; norm_num
  have hscaled : ((maxPriority : K) - 1) * (b - w) / (b - a)
      ≤ ((maxPriority : K) - 1) * (b - v) / (b - a) :=
    div_le_div_of_nonneg_right (mul_le_mul_of_nonneg_left (by linarith) hnine)
      (sub_nonneg.mpr hab)
  rw [scaledRank, scaledRank]
  linarith

omit [LinearOrder K] in
lemma scaledRank_max (a b : K) : scaledRank a b b = 1 := by
  simp [scaledRank]

omit [LinearOrder K] in
lemma scaledRank_min {a b : K} (h : a ≠ b) : scaledRank a b a = (maxPriority : K) := by
  have hspan : b - a ≠ 0 := sub_ne_zero.mpr (Ne.symm h)
  rw [scaledRank, mul_div_assoc, div_self hspan]
  ring

variable [FloorRing K]

/-- The scores of a map of values: each key keeps its value's score, in
whatever order the two loops run. -/
lemma get_computeRank (ord ord' : EnumOrder) (valueMap : StringMap (Option K)) (k : String) :
    (computeRank ord ord' valueMap).get k
      = (valueMap.get k).map (rankOf (extremes (valueMap.entries.map Prod.snd))) := by
  have hext : extremes ((ord.order valueMap.entries).map Prod.snd)
      = extremes (valueMap.entries.map Prod.snd) := extremes_perm ((ord.perm _).map _)
  -- two entries of one key are the same entry
  have hinj : ∀ a ∈ ord'.order valueMap.entries, ∀ b ∈ ord'.order valueMap.entries,
      a.1 = b.1 → rankOf (extremes (valueMap.entries.map Prod.snd)) a.2
        = rankOf (extremes (valueMap.entries.map Prod.snd)) b.2 := by
    intro a ha b hb hab
    have ha' := StringMap.mem_entries.mp ((ord'.mem_order).mp ha)
    have hb' := StringMap.mem_entries.mp ((ord'.mem_order).mp hb)
    rw [hab, hb'] at ha'
    rw [Option.some.inj ha']
  ext r
  rw [computeRank, hext, StringMap.get_foldl_insert Prod.fst
    (fun kv => rankOf (extremes (valueMap.entries.map Prod.snd)) kv.2) _ _ hinj]
  simp only [EnumOrder.mem_order, StringMap.get_empty, reduceCtorEq, and_false, or_false,
    Option.map_eq_some_iff]
  constructor
  · rintro ⟨⟨k', v⟩, hmem, rfl, hr⟩
    exact ⟨v, StringMap.mem_entries.mp hmem, hr⟩
  · rintro ⟨v, hv, hr⟩
    exact ⟨(k, v), StringMap.mem_entries.mpr hv, rfl, hr⟩

section Order

variable [IsStrictOrderedRing K]

/-- Between two distinct extremes a score is a rounded number from one to
`MaxPriority`; the two clamps of the source never act. -/
lemma rankOf_some {s : Extremes K} {v : K} (hne : s.minValue ≠ s.maxValue)
    (hmin : s.minValue ≤ v) (hmax : v ≤ s.maxValue) :
    rankOf s (some v) = roundHalfAway (scaledRank s.minValue s.maxValue v)
      ∧ 1 ≤ rankOf s (some v) ∧ rankOf s (some v) ≤ maxPriority := by
  have hle : s.minValue ≤ s.maxValue := hmin.trans hmax
  have hspan : s.maxValue - s.minValue ≠ 0 := sub_ne_zero.mpr (Ne.symm hne)
  have hlow : 1 ≤ scaledRank s.minValue s.maxValue v := by
    rw [← scaledRank_max s.minValue s.maxValue]
    exact scaledRank_antitone hle hmax
  have hhigh : scaledRank s.minValue s.maxValue v ≤ (maxPriority : K) := by
    rw [← scaledRank_min hne]
    exact scaledRank_antitone hle hmin
  have hround : 1 ≤ roundHalfAway (scaledRank s.minValue s.maxValue v) := by
    have h := roundHalfAway_mono_of_nonneg zero_le_one hlow
    rwa [← Int.cast_one, roundHalfAway_intCast] at h
  have hround' : roundHalfAway (scaledRank s.minValue s.maxValue v) ≤ maxPriority := by
    have h := roundHalfAway_mono_of_nonneg (zero_le_one.trans hlow) hhigh
    rwa [roundHalfAway_intCast] at h
  have hrank : rankOf s (some v) = roundHalfAway (scaledRank s.minValue s.maxValue v) := by
    simp only [rankOf, if_neg (not_lt.mpr (sub_nonneg.mpr hle)), if_neg hspan]
    rw [← scaledRank, if_neg (by omega), if_neg (by omega)]
  rw [hrank]
  exact ⟨rfl, hround, hround'⟩

omit [IsStrictOrderedRing K] in
/-- Equal extremes give every value the greatest score. -/
lemma rankOf_some_of_eq {s : Extremes K} (h : s.minValue = s.maxValue) (v : K) :
    rankOf s (some v) = maxPriority := by
  simp [rankOf, h]

/-- The score of a value is between one and `MaxPriority`. -/
lemma rankOf_mem {vs : List (Option K)} {v : K} (hv : some v ∈ vs) :
    1 ≤ rankOf (extremes vs) (some v) ∧ rankOf (extremes vs) (some v) ≤ maxPriority := by
  obtain ⟨hmin, hmax⟩ := extremes_bounds hv
  by_cases hne : (extremes vs).minValue = (extremes vs).maxValue
  · rw [rankOf_some_of_eq hne]
    exact ⟨by decide, le_refl _⟩
  · exact (rankOf_some hne hmin hmax).2

/-- Among the values of one request, a smaller value has at least the score of
a larger one. -/
lemma rankOf_antitone {vs : List (Option K)} {v w : K} (hv : some v ∈ vs) (hw : some w ∈ vs)
    (h : v ≤ w) : rankOf (extremes vs) (some w) ≤ rankOf (extremes vs) (some v) := by
  obtain ⟨hmin, hmax⟩ := extremes_bounds hv
  obtain ⟨hmin', hmax'⟩ := extremes_bounds hw
  by_cases hne : (extremes vs).minValue = (extremes vs).maxValue
  · rw [rankOf_some_of_eq hne, rankOf_some_of_eq hne]
  · have hle := hmin.trans hmax
    have hlow : 0 ≤ scaledRank (extremes vs).minValue (extremes vs).maxValue w := by
      have h1 := scaledRank_antitone hle hmax'
      rw [scaledRank_max] at h1
      exact zero_le_one.trans h1
    rw [(rankOf_some hne hmin hmax).1, (rankOf_some hne hmin' hmax').1]
    exact roundHalfAway_mono_of_nonneg hlow (scaledRank_antitone hle h)

/-- The least value has the greatest score. -/
lemma rankOf_least {vs : List (Option K)} {v : K} (hv : some v ∈ vs)
    (hleast : ∀ w, some w ∈ vs → v ≤ w) : rankOf (extremes vs) (some v) = maxPriority := by
  have hmin : v = (extremes vs).minValue :=
    le_antisymm (hleast _ (extremes_mem hv).1) (extremes_bounds hv).1
  by_cases hne : (extremes vs).minValue = (extremes vs).maxValue
  · exact rankOf_some_of_eq hne v
  · obtain ⟨hl, hu⟩ := extremes_bounds hv
    rw [(rankOf_some hne hl hu).1, hmin, scaledRank_min hne, roundHalfAway_intCast]

/-- The greatest value has score one when another value is smaller. -/
lemma rankOf_greatest {vs : List (Option K)} {v w : K} (hv : some v ∈ vs) (hw : some w ∈ vs)
    (hgreatest : ∀ u, some u ∈ vs → u ≤ v) (hne : w ≠ v) :
    rankOf (extremes vs) (some v) = 1 := by
  have hmax : v = (extremes vs).maxValue :=
    le_antisymm (extremes_bounds hv).2 (hgreatest _ (extremes_mem hv).2)
  have hlt : (extremes vs).minValue < (extremes vs).maxValue :=
    calc (extremes vs).minValue ≤ w := (extremes_bounds hw).1
      _ < v := lt_of_le_of_ne (hgreatest w hw) hne
      _ = (extremes vs).maxValue := hmax
  obtain ⟨hl, hu⟩ := extremes_bounds hv
  rw [(rankOf_some hlt.ne hl hu).1, hmax, scaledRank_max, ← Int.cast_one, roundHalfAway_intCast]

/-- `ComputeRank` turns the order of the values round: whatever the orders of
its two loops, every node keeps a score from zero to `MaxPriority`, zero
exactly where the value is NaN, `MaxPriority` at the least value, one at the
greatest when there are two values, and smaller values never score lower. -/
theorem computeRank_reverses (ord ord' : EnumOrder) (valueMap : StringMap (Option K)) :
    (∀ k, (computeRank ord ord' valueMap).get k = none ↔ valueMap.get k = none)
      ∧ (∀ k v r, valueMap.get k = some v → (computeRank ord ord' valueMap).get k = some r →
          0 ≤ r ∧ r ≤ maxPriority ∧ (r = 0 ↔ v = none) ∧ (v ≠ none → 1 ≤ r)
            ∧ (∀ x, v = some x → IsLeast (numbers valueMap) x → r = maxPriority)
            ∧ (∀ x, v = some x → IsGreatest (numbers valueMap) x →
                (numbers valueMap).Nontrivial → r = 1))
      ∧ (∀ k k' x y r r', valueMap.get k = some (some x) → valueMap.get k' = some (some y) →
          (computeRank ord ord' valueMap).get k = some r →
          (computeRank ord ord' valueMap).get k' = some r' → x ≤ y → r' ≤ r) := by
  set vs := valueMap.entries.map Prod.snd with hvs
  have hmem : ∀ x, some x ∈ vs ↔ x ∈ numbers valueMap := by
    intro x
    rw [hvs, List.mem_map]
    constructor
    · rintro ⟨⟨k, v⟩, hkv, rfl⟩
      exact ⟨k, StringMap.mem_entries.mp hkv⟩
    · rintro ⟨k, hk⟩
      exact ⟨(k, some x), StringMap.mem_entries.mpr hk, rfl⟩
  have hrank : ∀ {k v r}, valueMap.get k = some v →
      (computeRank ord ord' valueMap).get k = some r → r = rankOf (extremes vs) v := by
    intro k v r hv hr
    rw [get_computeRank, hv] at hr
    exact (Option.some.inj hr).symm
  refine ⟨fun k => ?_, fun k v r hv hr => ?_, fun k k' x y r r' hx hy hr hr' hxy => ?_⟩
  · rw [get_computeRank, Option.map_eq_none_iff]
  · rw [hrank hv hr]
    cases v with
    | none => simp [rankOf, maxPriority]
    | some v =>
        have hv' : some v ∈ vs := (hmem v).mpr ⟨k, hv⟩
        obtain ⟨h1, hle⟩ := rankOf_mem hv'
        refine ⟨by omega, hle, by simp; omega, fun _ => h1, ?_, ?_⟩
        · intro x hx hleast
          obtain rfl := Option.some.inj hx
          exact rankOf_least hv' fun w hw => hleast.2 ((hmem w).mp hw)
        · intro x hx hgreatest hnt
          obtain rfl := Option.some.inj hx
          obtain ⟨w, hw, hne⟩ := hnt.exists_ne v
          exact rankOf_greatest hv' ((hmem w).mpr hw)
            (fun u hu => hgreatest.2 ((hmem u).mp hu)) hne
  · rw [hrank hx hr, hrank hy hr']
    exact rankOf_antitone ((hmem x).mpr ⟨k, hx⟩) ((hmem y).mpr ⟨k', hy⟩) hxy

end Order

/-- The values of three nodes, the pod not fitting the last. -/
def threeValues : StringMap (Option ℚ) := podRanks ["a", "b", "c"] [some (-2), some 3, none]

theorem computeRank_reverses_threeValues :
    (computeRank .stored .stored threeValues).get "a" = some 10
      ∧ (computeRank .stored .stored threeValues).get "b" = some 1
      ∧ (computeRank .stored .stored threeValues).get "c" = some 0
      ∧ (1 : ℤ) ≤ 10 := by
  have ha : (computeRank .stored .stored threeValues).get "a" = some 10 := by decide +kernel
  have hb : (computeRank .stored .stored threeValues).get "b" = some 1 := by decide +kernel
  have hle := (computeRank_reverses .stored .stored threeValues).2.2 "a" "b" (-2) 3 10 1
    (by decide) (by decide) ha hb (by norm_num)
  exact ⟨ha, hb, by decide, hle⟩

end KubeSafeScheduler.Pigeon
