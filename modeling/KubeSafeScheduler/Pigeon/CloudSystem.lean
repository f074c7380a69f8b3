import KubeSafeScheduler.Lib.StringMap
import KubeSafeScheduler.Pigeon.Entities
import KubeSafeScheduler.Pigeon.DemandStats

/-!
`system/cloudsystem.c`: the model of the cluster, a vector of PEs with a map
from their names.

The map is the finite map that `utils/hashmap.c` provides as long as absent
names are inserted (`Utils.Hashmap.behaves_of_fresh`), which is what this file
does. The memory the PEs and LEs live in is a field of the system.

* `CloudSystem.addPE`, `removePE`, `updatePE`, `resetpes`.
* `CloudSystem.Named`: the vector and the map agree; every operation keeps it,
  whatever is in the memory.
* `CloudSystem.WF`: the vector and the map name the same PEs, an LE points to
  the PE whose list it is in, lists are disjoint and without repetition, no
  two hosted LEs have one name, and positions are right unless the system is
  marked as modified.
* `wf_create`, `WF.addPE`, `WF.removePE`, `WF.resetpes`, `WF.placeLE`,
  `WF.removeLE`: every operation keeps it.
-/

namespace KubeSafeScheduler.Pigeon

variable {n : ℕ} {K : Type}

/-- `s_cloudsystem`, with the memory of its PEs and LEs. -/
structure CloudSystem (n : ℕ) (K : Type) where
  mem : Memory n
  pes : List PeRef
  pemap : StringMap PeRef
  ds : Option (DemandStats n K)
  ismodified : Bool

namespace CloudSystem

/-- `cloudsystem_getPE`. -/
def getPE (cs : CloudSystem n K) (peid : String) : Option PeRef := cs.pemap.get peid

/-- One round of the loop of `cloudsystem_resetpes`: map the name of the PE at
position `i` and tell it its position. -/
def resetAt (cs : CloudSystem n K) (pi : PeRef × ℕ) : CloudSystem n K :=
  { cs with
    pemap := cs.pemap.insert (cs.mem.pe pi.1).label pi.1
    mem := cs.mem.setPe pi.1 { cs.mem.pe pi.1 with indexinsystem := pi.2 } }

/-- `cloudsystem_resetpes`: when the system was modified, build the map anew
and renumber the PEs. -/
def resetpes (cs : CloudSystem n K) : CloudSystem n K :=
  if cs.ismodified then
    cs.pes.zipIdx.foldl resetAt { cs with ismodified := false, pemap := ∅ }
  else cs

/-- `cloudsystem_create` from an empty vector. -/
def create (n : ℕ) (K : Type) : CloudSystem n K :=
  resetpes { mem := Memory.empty n, pes := [], pemap := ∅, ds := none, ismodified := true }

/-- `cloudsystem_addPE`: a PE whose name is taken is not added. -/
def addPE (cs : CloudSystem n K) (p : PeRef) : CloudSystem n K :=
  if (cs.getPE (cs.mem.pe p).label).isSome then cs
  else
    { cs with
      pemap := cs.pemap.insert (cs.mem.pe p).label p
      pes := cs.pes ++ [p]
      ismodified := true }

/-- `cloudsystem_remove_PE`: clear the PE, then drop it from the map and the
vector. -/
def removePE (cs : CloudSystem n K) (peid : String) : CloudSystem n K :=
  match cs.pemap.get peid with
  | none => cs
  | some p =>
      { cs with
        mem := Pe.clear cs.mem p true
        pemap := cs.pemap.remove peid
        pes := cs.pes.erase p
        ismodified := true }

/-- `cloudsystem_updatePE`. -/
def updatePE (cs : CloudSystem n K) (peid : String) (capacity usage : Option (Fin n → ℤ)) :
    CloudSystem n K :=
  match cs.getPE peid with
  | none => cs
  | some p => { cs with mem := cs.mem.setPe p ((cs.mem.pe p).update capacity usage) }

/-- `cloudsystem_getnumresources`: zero without PEs. -/
def getnumresources (cs : CloudSystem n K) : ℕ := if cs.pes = [] then 0 else n

/-- The resources of the PEs, in vector order. -/
def resources (cs : CloudSystem n K) : List (Resource n) :=
  cs.pes.map fun p => (cs.mem.pe p).resource

/-! ### The loop of `resetpes` -/

lemma resetAt_mem (cs : CloudSystem n K) (pi : PeRef × ℕ) : (cs.resetAt pi).mem
    = cs.mem.setPe pi.1 { cs.mem.pe pi.1 with indexinsystem := pi.2 } := rfl

/-- What a stretch of the loop of `cloudsystem_resetpes` does: it renumbers the
PEs it passes and maps their names, and touches nothing else. -/
lemma foldl_resetAt (ps : List (PeRef × ℕ)) (cs : CloudSystem n K) (hnd : (ps.map Prod.fst).Nodup) :
    (ps.foldl resetAt cs).pes = cs.pes
      ∧ (ps.foldl resetAt cs).ds = cs.ds
      ∧ (ps.foldl resetAt cs).ismodified = cs.ismodified
      ∧ (ps.foldl resetAt cs).mem.le = cs.mem.le
      ∧ (ps.foldl resetAt cs).mem.peCount = cs.mem.peCount
      ∧ (ps.foldl resetAt cs).mem.leCount = cs.mem.leCount
      ∧ (∀ q, ((ps.foldl resetAt cs).mem.pe q).label = (cs.mem.pe q).label
          ∧ ((ps.foldl resetAt cs).mem.pe q).resource = (cs.mem.pe q).resource
          ∧ ((ps.foldl resetAt cs).mem.pe q).hostedLE = (cs.mem.pe q).hostedLE)
      ∧ (∀ q ∉ ps.map Prod.fst, (ps.foldl resetAt cs).mem.pe q = cs.mem.pe q)
      ∧ ∀ qi ∈ ps, ((ps.foldl resetAt cs).mem.pe qi.1).indexinsystem = qi.2 := by
  induction ps generalizing cs with
  | nil => simp
  | cons pi ps ih =>
      simp only [List.map_cons, List.nodup_cons] at hnd
      obtain ⟨h1, h2, h3, h4, h5, h6, h7, h8, h9⟩ := ih (cs.resetAt pi) hnd.2
      have hpe : ∀ q, q ≠ pi.1 → (cs.resetAt pi).mem.pe q = cs.mem.pe q :=
        fun q hq => Memory.setPe_pe_of_ne _ _ hq
      have hpi : (cs.resetAt pi).mem.pe pi.1 = { cs.mem.pe pi.1 with indexinsystem := pi.2 } :=
        Memory.setPe_pe_self _ _ _
      rw [List.foldl_cons]
      refine ⟨h1, h2, h3, h4, h5, h6, fun q => ?_, fun q hq => ?_, fun qi hqi => ?_⟩
      · obtain ⟨ha, hb, hc⟩ := h7 q
        rw [ha, hb, hc, resetAt_mem]
        refine ⟨?_, ?_, ?_⟩
        · exact cs.mem.setPe_congr Pe.label (by rfl) q
        · exact cs.mem.setPe_congr Pe.resource (by rfl) q
        · exact cs.mem.setPe_congr Pe.hostedLE (by rfl) q
      · simp only [List.map_cons, List.mem_cons, not_or] at hq
        rw [h8 q hq.2, hpe q hq.1]
      · rcases List.mem_cons.mp hqi with rfl | hqi
        · rw [h8 _ hnd.1, hpi]
        · exact h9 qi hqi

/-- The map built by the loop of `cloudsystem_resetpes`: renumbering a PE does
not change its name. -/
lemma pemap_foldl_resetAt (ps : List (PeRef × ℕ)) (cs : CloudSystem n K) :
    (ps.foldl resetAt cs).pemap
      = ps.foldl (fun M a => M.insert (cs.mem.pe a.1).label a.1) cs.pemap := by
  induction ps generalizing cs with
  | nil => rfl
  | cons pi ps ih =>
      have hlabel : ∀ q, ((cs.resetAt pi).mem.pe q).label = (cs.mem.pe q).label := by
        rw [resetAt_mem]
        exact cs.mem.setPe_congr Pe.label (by rfl)
      rw [List.foldl_cons, ih]
      simp only [hlabel]
      rfl

/-! ### The vector and the map -/

/-- The part of the invariant that is about the vector and the map alone: they
name the same PEs, each name once, and positions are right unless the system is
marked as modified. -/
structure Named (cs : CloudSystem n K) : Prop where
  names_nodup : (cs.pes.map fun p => (cs.mem.pe p).label).Nodup
  get_iff : ∀ name p, cs.pemap.get name = some p ↔
    p ∈ cs.pes ∧ (cs.mem.pe p).label = name
  index : cs.ismodified = false →
    ∀ (i : ℕ) p, cs.pes[i]? = some p → (cs.mem.pe p).indexinsystem = i

namespace Named

variable {cs : CloudSystem n K}

lemma pes_nodup (h : cs.Named) : cs.pes.Nodup := h.names_nodup.of_map

/-- The names of the PEs are distinct. -/
lemma label_inj (h : cs.Named) {p q : PeRef} (hp : p ∈ cs.pes) (hq : q ∈ cs.pes)
    (hpq : (cs.mem.pe p).label = (cs.mem.pe q).label) : p = q :=
  List.inj_on_of_nodup_map h.names_nodup hp hq hpq

/-- A change of the memory that keeps the names and the positions. -/
lemma congr_mem (h : cs.Named) {m : Memory n} (hlabel : ∀ p, (m.pe p).label = (cs.mem.pe p).label)
    (hindex : ∀ p, (m.pe p).indexinsystem = (cs.mem.pe p).indexinsystem) :
    Named { cs with mem := m } where
  names_nodup := by simpa only [hlabel] using h.names_nodup
  get_iff name p := by simpa only [hlabel] using h.get_iff name p
  index hmod i p hp := by simpa only [hindex] using h.index hmod i p hp

/-- `cloudsystem_addPE` keeps it, whichever PE is added. -/
lemma addPE (h : cs.Named) (p : PeRef) : Named (cs.addPE p) := by
  rw [CloudSystem.addPE]
  cases hget : cs.getPE (cs.mem.pe p).label with
  | some q => simpa using h
  | none =>
      have hfree : ∀ q ∈ cs.pes, (cs.mem.pe q).label ≠ (cs.mem.pe p).label := by
        intro q hq hqp
        have hsome := (h.get_iff _ q).mpr ⟨hq, hqp⟩
        rw [getPE, hsome] at hget
        exact absurd hget (by simp)
      refine ⟨?_, fun name q => ?_, fun hmod => absurd hmod (by simp)⟩
      · rw [if_neg (by simp), List.map_append]
        refine h.names_nodup.append (List.nodup_singleton _) (List.disjoint_singleton.mpr ?_)
        intro hmem
        obtain ⟨q, hq, hqp⟩ := List.mem_map.mp hmem
        exact hfree q hq hqp
      · simp only [Option.isSome_none, Bool.false_eq_true, if_false, StringMap.get_insert,
          List.mem_append, List.mem_singleton]
        split_ifs with hname
        · constructor
          · intro hq
            obtain rfl := Option.some.inj hq
            exact ⟨Or.inr rfl, hname.symm⟩
          · rintro ⟨hq | rfl, hl⟩
            · exact absurd (hl.trans hname) (hfree q hq)
            · rfl
        · rw [h.get_iff]
          constructor
          · rintro ⟨hq, hl⟩
            exact ⟨Or.inl hq, hl⟩
          · rintro ⟨hq | rfl, hl⟩
            · exact ⟨hq, hl⟩
            · exact absurd hl.symm hname

/-- `cloudsystem_remove_PE` keeps it. -/
lemma removePE (h : cs.Named) (peid : String) : Named (cs.removePE peid) := by
  rw [CloudSystem.removePE]
  cases hlook : cs.pemap.get peid with
  | none => exact h
  | some p =>
      obtain ⟨hp, hlabel⟩ := (h.get_iff peid p).mp hlook
      have hf := Pe.frame_clear cs.mem p
      have hmem : ∀ q, q ∈ cs.pes.erase p ↔ q ≠ p ∧ q ∈ cs.pes :=
        fun q => h.pes_nodup.mem_erase_iff
      refine ⟨?_, fun name q => ?_, fun hmod => absurd hmod (by simp)⟩
      · simp only [hf.label]
        exact h.names_nodup.sublist (List.erase_sublist.map _)
      · simp only [hf.label, hmem, StringMap.get_remove]
        split_ifs with hname
        · constructor
          · intro hq
            exact absurd hq (by simp)
          · rintro ⟨⟨hne, hq⟩, hl⟩
            exact absurd (h.label_inj hq hp (hl.trans (hname.trans hlabel.symm))) hne
        · rw [h.get_iff]
          constructor
          · rintro ⟨hq, hl⟩
            refine ⟨⟨?_, hq⟩, hl⟩
            rintro rfl
            exact hname (hl.symm.trans hlabel)
          · rintro ⟨⟨-, hq⟩, hl⟩
            exact ⟨hq, hl⟩

/-- `cloudsystem_updatePE` keeps it. -/
lemma updatePE (h : cs.Named) (peid : String) (capacity usage : Option (Fin n → ℤ)) :
    Named (cs.updatePE peid capacity usage) := by
  rw [CloudSystem.updatePE]
  cases cs.getPE peid with
  | none => exact h
  | some p =>
      refine h.congr_mem (fun q => ?_) fun q => ?_
      · exact cs.mem.setPe_congr Pe.label (by rfl) q
      · exact cs.mem.setPe_congr Pe.indexinsystem (by rfl) q

/-- `cloudsystem_resetpes` keeps it: it needs the names to be distinct, and
makes the map and the positions right. -/
lemma resetpes (h : cs.Named) : Named cs.resetpes := by
  rw [CloudSystem.resetpes]
  split_ifs with hmod
  swap
  · exact h
  set cs₀ : CloudSystem n K := { cs with ismodified := false, pemap := ∅ } with hcs₀
  have hnd : (cs.pes.zipIdx.map Prod.fst).Nodup := by simpa using h.pes_nodup
  have hmem : ∀ a ∈ cs.pes.zipIdx, a.1 ∈ cs.pes := fun a ha => List.fst_mem_of_mem_zipIdx ha
  obtain ⟨h1, -, -, -, -, -, h7, -, h9⟩ := foldl_resetAt cs.pes.zipIdx cs₀ hnd
  have hlookup := StringMap.get_foldl_insert (fun a : PeRef × ℕ => (cs.mem.pe a.1).label) Prod.fst
    cs.pes.zipIdx ∅ (fun a ha b hb hab => h.label_inj (hmem a ha) (hmem b hb) hab)
  refine ⟨?_, fun name p => ?_, fun _ i p hp => ?_⟩
  · simp only [h1, (h7 _).1]
    exact h.names_nodup
  · rw [pemap_foldl_resetAt, hlookup, h1, (h7 p).1]
    simp only [hcs₀, StringMap.get_empty, reduceCtorEq, and_false, or_false]
    constructor
    · rintro ⟨a, ha, hl, rfl⟩
      exact ⟨hmem a ha, hl⟩
    · rintro ⟨hp, hl⟩
      obtain ⟨i, hi⟩ := List.mem_iff_getElem?.mp hp
      exact ⟨(p, i), List.mk_mem_zipIdx_iff_getElem?.mpr hi, hl, rfl⟩
  · rw [h1] at hp
    exact h9 (p, i) (List.mk_mem_zipIdx_iff_getElem?.mpr hp)

end Named

/-! ### Well-formed systems -/

/-- The structural invariant of the cloud system. -/
structure WF (cs : CloudSystem n K) : Prop where
  pes_nodup : cs.pes.Nodup
  pes_lt : ∀ p ∈ cs.pes, p < cs.mem.peCount
  get_iff : ∀ name p, cs.pemap.get name = some p ↔
    p ∈ cs.pes ∧ (cs.mem.pe p).label = name
  host_iff : ∀ l p, (cs.mem.le l).host = some p ↔ p ∈ cs.pes ∧ l ∈ (cs.mem.pe p).hostedLE
  hosted_nodup : ∀ p ∈ cs.pes, (cs.mem.pe p).hostedLE.Nodup
  host_lt : ∀ l, (cs.mem.le l).host ≠ none → l < cs.mem.leCount
  name_inj : ∀ l k, (cs.mem.le l).host ≠ none → (cs.mem.le k).host ≠ none →
    (cs.mem.le l).label = (cs.mem.le k).label → l = k
  index : cs.ismodified = false →
    ∀ (i : ℕ) p, cs.pes[i]? = some p → (cs.mem.pe p).indexinsystem = i

namespace WF

variable {cs : CloudSystem n K}

/-- The names of the PEs are distinct. -/
lemma label_inj (h : cs.WF) {p q : PeRef} (hp : p ∈ cs.pes) (hq : q ∈ cs.pes)
    (hpq : (cs.mem.pe p).label = (cs.mem.pe q).label) : p = q := by
  have h1 := (h.get_iff _ p).mpr ⟨hp, rfl⟩
  have h2 := (h.get_iff _ q).mpr ⟨hq, rfl⟩
  rw [hpq, h2] at h1
  exact (Option.some.inj h1).symm

/-- The vector and the map of a well-formed system agree. -/
lemma named (h : cs.WF) : cs.Named :=
  ⟨h.pes_nodup.map_on fun _ hp _ hq => h.label_inj hp hq, h.get_iff, h.index⟩

lemma getPE_eq_some (h : cs.WF) {name : String} {p : PeRef} :
    cs.getPE name = some p ↔ p ∈ cs.pes ∧ (cs.mem.pe p).label = name := h.get_iff name p

lemma getPE_eq_none (h : cs.WF) {name : String} :
    cs.getPE name = none ↔ ∀ p ∈ cs.pes, (cs.mem.pe p).label ≠ name := by
  constructor
  · intro hn p hp hl
    rw [h.getPE_eq_some.mpr ⟨hp, hl⟩] at hn
    exact Option.some_ne_none p hn
  · intro hall
    cases hg : cs.getPE name with
    | none => rfl
    | some p =>
        obtain ⟨hp, hl⟩ := h.getPE_eq_some.mp hg
        exact absurd hl (hall p hp)

/-- An LE that is in the list of one PE of the system is in no other. -/
lemma eq_of_mem_hosted (h : cs.WF) {l : LeRef} {p q : PeRef} (hp : p ∈ cs.pes) (hq : q ∈ cs.pes)
    (hlp : l ∈ (cs.mem.pe p).hostedLE) (hlq : l ∈ (cs.mem.pe q).hostedLE) : p = q := by
  have h1 := (h.host_iff l p).mpr ⟨hp, hlp⟩
  have h2 := (h.host_iff l q).mpr ⟨hq, hlq⟩
  rw [h1] at h2
  exact Option.some.inj h2


/-! ### Changes that keep the shape -/

/-- A change of resources keeps the invariant. -/
lemma sameShape (h : cs.WF) {m : Memory n} (hm : cs.mem.SameShape m) :
    WF { cs with mem := m } where
  pes_nodup := h.pes_nodup
  pes_lt p hp := by simpa [hm.peCount] using h.pes_lt p hp
  get_iff name p := by simpa [hm.label] using h.get_iff name p
  host_iff l p := by simpa [hm.le, hm.hosted] using h.host_iff l p
  hosted_nodup p hp := by simpa [hm.hosted] using h.hosted_nodup p hp
  host_lt l hl := by simpa [hm.leCount] using h.host_lt l (by simpa [hm.le] using hl)
  name_inj l k hl hk hlk :=
    h.name_inj l k (by simpa [hm.le] using hl) (by simpa [hm.le] using hk)
      (by simpa [hm.le] using hlk)
  index hmod i p hp := by simpa [hm.index] using h.index hmod i p hp

lemma setResource (h : cs.WF) (p : PeRef) (r : Resource n) :
    WF { cs with mem := cs.mem.setPe p { cs.mem.pe p with resource := r } } :=
  h.sameShape (cs.mem.sameShape_setPe p r)

/-- Allocating an LE that is not hosted keeps the invariant. -/
lemma newLe (h : cs.WF) (label : String) (demand : Fin n → ℤ) :
    WF { cs with mem := (cs.mem.newLe (Le.create label demand)).1 } := by
  have hfresh : (cs.mem.le cs.mem.leCount).host = none := by
    by_contra hne
    exact absurd (h.host_lt _ hne) (lt_irrefl _)
  have hhost : ∀ k, (((cs.mem.newLe (Le.create label demand)).1).le k).host
      = (cs.mem.le k).host := by
    intro k
    by_cases hk : k = cs.mem.leCount
    · subst hk; simp [hfresh, Le.create]
    · rw [Memory.newLe_fst_le_of_ne _ _ hk]
  have hlabel : ∀ k, (cs.mem.le k).host ≠ none →
      (((cs.mem.newLe (Le.create label demand)).1).le k).label = (cs.mem.le k).label := by
    intro k hk
    rw [Memory.newLe_fst_le_of_ne]
    rintro rfl
    exact hk hfresh
  refine ⟨h.pes_nodup, h.pes_lt, h.get_iff, fun l p => ?_, h.hosted_nodup, fun l hl => ?_,
    fun l k hl hk hlk => ?_, h.index⟩
  · rw [hhost]; exact h.host_iff l p
  · rw [hhost] at hl
    exact Nat.lt_succ_of_lt (h.host_lt l hl)
  · rw [hhost] at hl hk
    rw [hlabel l hl, hlabel k hk] at hlk
    exact h.name_inj l k hl hk hlk

/-! ### Placing and removing LEs -/

/-- An LE without a host is in no list of the system. -/
lemma notMem_of_host_eq_none (h : cs.WF) {l : LeRef} (hl : (cs.mem.le l).host = none)
    {p : PeRef} (hp : p ∈ cs.pes) : l ∉ (cs.mem.pe p).hostedLE := by
  intro hmem
  rw [(h.host_iff l p).mpr ⟨hp, hmem⟩] at hl
  exact Option.some_ne_none p hl

/-- Placing an LE that is not hosted, under a name that no hosted LE has. -/
lemma placeLE (h : cs.WF) {p : PeRef} {l : LeRef} (hp : p ∈ cs.pes)
    (hl : (cs.mem.le l).host = none) (hlt : l < cs.mem.leCount)
    (hname : ∀ k, (cs.mem.le k).host ≠ none → (cs.mem.le k).label ≠ (cs.mem.le l).label) :
    WF { cs with mem := (Pe.placeLE cs.mem p l true).2 } := by
  have hnot := h.notMem_of_host_eq_none hl hp
  have hf := Pe.frame_placeLE cs.mem p l
  have hhost := Pe.placeLE_host (m := cs.mem) hnot
  refine ⟨h.pes_nodup, fun q hq => ?_, fun name q => ?_, fun k q => ?_, fun q hq => ?_,
    fun k hk => ?_, fun k j hk hj hkj => ?_, fun hmod i q hq => ?_⟩
  · simpa [hf.peCount] using h.pes_lt q hq
  · simpa [hf.label] using h.get_iff name q
  · show (((Pe.placeLE cs.mem p l true).2.le k).host = some q ↔ _)
    rw [hhost]
    by_cases hk : k = l
    · subst hk
      by_cases hq : q = p
      · subst hq; simp [hp, Pe.placeLE_hostedLE hnot]
      · have : ¬ (q ∈ cs.pes ∧ k ∈ (cs.mem.pe q).hostedLE) :=
          fun hc => h.notMem_of_host_eq_none hl hc.1 hc.2
        simpa [Pe.placeLE_pe_of_ne hq, Ne.symm hq] using this
    · rw [if_neg hk, h.host_iff]
      by_cases hq : q = p
      · subst hq; simp [Pe.placeLE_hostedLE hnot, hk]
      · simp [Pe.placeLE_pe_of_ne hq]
  · by_cases hqp : q = p
    · subst hqp
      show ((Pe.placeLE cs.mem q l true).2.pe q).hostedLE.Nodup
      rw [Pe.placeLE_hostedLE hnot]
      exact (h.hosted_nodup q hp).append (List.nodup_singleton l)
        (List.disjoint_singleton.mpr hnot)
    · simpa [Pe.placeLE_pe_of_ne hqp] using h.hosted_nodup q hq
  · show k < (Pe.placeLE cs.mem p l true).2.leCount
    rw [hf.leCount]
    by_cases hkl : k = l
    · exact hkl ▸ hlt
    · refine h.host_lt k ?_
      simpa [hhost, hkl] using hk
  · rw [hf.leLabel, hf.leLabel] at hkj
    rw [hhost] at hk hj
    by_cases hkl : k = l <;> by_cases hjl : j = l
    · rw [hkl, hjl]
    · rw [if_neg hjl] at hj
      exact absurd (hkl ▸ hkj).symm (hname j hj)
    · rw [if_neg hkl] at hk
      exact absurd (hjl ▸ hkj) (hname k hk)
    · rw [if_neg hkl] at hk
      rw [if_neg hjl] at hj
      exact h.name_inj k j hk hj hkj
  · simpa [hf.index] using h.index hmod i q hq

/-- Removing an LE from a PE of the system. -/
lemma removeLE (h : cs.WF) {p : PeRef} (hp : p ∈ cs.pes) (l : LeRef) :
    WF { cs with mem := (Pe.removeLE cs.mem p l true).2 } := by
  by_cases hmem : l ∈ (cs.mem.pe p).hostedLE
  swap
  · rw [Pe.removeLE_of_notMem hmem]; exact h
  have hf := Pe.frame_removeLE cs.mem p l
  have hhost := Pe.removeLE_host (m := cs.mem) hmem
  refine ⟨h.pes_nodup, fun q hq => ?_, fun name q => ?_, fun k q => ?_, fun q hq => ?_,
    fun k hk => ?_, fun k j hk hj hkj => ?_, fun hmod i q hq => ?_⟩
  · simpa [hf.peCount] using h.pes_lt q hq
  · simpa [hf.label] using h.get_iff name q
  · show (((Pe.removeLE cs.mem p l true).2.le k).host = some q ↔ _)
    rw [hhost]
    by_cases hk : k = l
    · subst hk
      have hnone : ¬ (q ∈ cs.pes ∧ k ∈ ((Pe.removeLE cs.mem p k true).2.pe q).hostedLE) := by
        rintro ⟨hq, hkq⟩
        by_cases hqp : q = p
        · subst hqp
          rw [Pe.removeLE_hostedLE] at hkq
          exact (h.hosted_nodup q hp).not_mem_erase hkq
        · rw [Pe.removeLE_pe_of_ne hqp] at hkq
          exact hqp (h.eq_of_mem_hosted hq hp hkq hmem)
      simpa using hnone
    · rw [if_neg hk, h.host_iff]
      by_cases hq : q = p
      · subst hq; simp [Pe.removeLE_hostedLE, List.mem_erase_of_ne hk]
      · simp [Pe.removeLE_pe_of_ne hq]
  · by_cases hqp : q = p
    · subst hqp
      show ((Pe.removeLE cs.mem q l true).2.pe q).hostedLE.Nodup
      rw [Pe.removeLE_hostedLE]
      exact (h.hosted_nodup q hp).erase l
    · simpa [Pe.removeLE_pe_of_ne hqp] using h.hosted_nodup q hq
  · show k < (Pe.removeLE cs.mem p l true).2.leCount
    rw [hf.leCount]
    refine h.host_lt k fun hk0 => hk ?_
    rw [hhost, hk0]; simp
  · rw [hf.leLabel, hf.leLabel] at hkj
    refine h.name_inj k j (fun h0 => hk ?_) (fun h0 => hj ?_) hkj
    · rw [hhost, h0]; simp
    · rw [hhost, h0]; simp
  · simpa [hf.index] using h.index hmod i q hq


/-! ### Adding, removing and renumbering PEs -/

/-- Adding a new PE under a name that is free. -/
lemma addNew (h : cs.WF) {x : Pe n} (hx : x.hostedLE = []) (hfree : cs.getPE x.label = none) :
    WF (({ cs with mem := (cs.mem.newPe x).1 } : CloudSystem n K).addPE cs.mem.peCount) := by
  have hself := Memory.newPe_fst_pe_self cs.mem x
  have hold : ∀ p ∈ cs.pes, (cs.mem.newPe x).1.pe p = cs.mem.pe p :=
    fun p hp => Memory.newPe_fst_pe_of_lt _ _ (h.pes_lt p hp)
  have hnamed : Named ({ cs with mem := (cs.mem.newPe x).1 } : CloudSystem n K) := by
    refine ⟨?_, fun name p => ?_, fun hmod i p hp => ?_⟩
    · rw [List.map_congr_left fun p hp => by rw [hold p hp]]
      exact h.named.names_nodup
    · rw [h.get_iff]
      exact and_congr_right fun hp => by rw [hold p hp]
    · rw [hold p (List.mem_of_getElem? hp)]
      exact h.index hmod i p hp
  have hadd := hnamed.addPE cs.mem.peCount
  have hnone : cs.pemap.get x.label = none := hfree
  rw [addPE, if_neg (by simp [getPE, hnone])] at hadd ⊢
  refine ⟨hadd.pes_nodup, ?_, hadd.get_iff, ?_, ?_, h.host_lt, h.name_inj, hadd.index⟩
  · intro p hp
    rcases List.mem_append.mp hp with hp | hp
    · exact Nat.lt_succ_of_lt (h.pes_lt p hp)
    · rw [List.mem_singleton.mp hp]; exact Nat.lt_succ_self _
  · intro l p
    simp only [Memory.newPe_fst_le, List.mem_append, List.mem_singleton]
    rw [h.host_iff]
    constructor
    · rintro ⟨hp, hl⟩
      exact ⟨Or.inl hp, by rw [hold p hp]; exact hl⟩
    · rintro ⟨hp | hp, hl⟩
      · exact ⟨hp, by rw [← hold p hp]; exact hl⟩
      · rw [hp, hself, hx] at hl
        exact absurd hl List.not_mem_nil
  · intro p hp
    rcases List.mem_append.mp hp with hp | hp
    · simpa [hold p hp] using h.hosted_nodup p hp
    · rw [List.mem_singleton.mp hp]
      simp [hself, hx]

/-- Removing a PE by name. -/
lemma removePE (h : cs.WF) (peid : String) : WF (cs.removePE peid) := by
  have hnamed := h.named.removePE peid
  rw [CloudSystem.removePE] at hnamed ⊢
  cases hlook : cs.pemap.get peid with
  | none => exact h
  | some p =>
      rw [hlook] at hnamed
      obtain ⟨hp, -⟩ := (h.get_iff peid p).mp hlook
      have hf := Pe.frame_clear cs.mem p
      obtain ⟨-, hother, hhost⟩ := Pe.clear_spec cs.mem p
      have hmem : ∀ q, q ∈ cs.pes.erase p ↔ q ≠ p ∧ q ∈ cs.pes :=
        fun q => h.pes_nodup.mem_erase_iff
      refine ⟨h.pes_nodup.erase p, fun q hq => ?_, hnamed.get_iff, fun k q => ?_,
        fun q hq => ?_, fun k hk => ?_, fun k j hk hj hkj => ?_, hnamed.index⟩
      · simpa [hf.peCount] using h.pes_lt q ((hmem q).mp hq).2
      · simp only [hhost, hmem]
        constructor
        · intro hk
          split_ifs at hk with hkp
          obtain ⟨hq, hkq⟩ := (h.host_iff k q).mp hk
          have hne : q ≠ p := by
            rintro rfl
            exact hkp hkq
          exact ⟨⟨hne, hq⟩, by rw [hother q hne]; exact hkq⟩
        · rintro ⟨⟨hne, hq⟩, hkq⟩
          rw [hother q hne] at hkq
          rw [if_neg fun hkp => hne (h.eq_of_mem_hosted hq hp hkq hkp)]
          exact (h.host_iff k q).mpr ⟨hq, hkq⟩
      · obtain ⟨hne, hq⟩ := (hmem q).mp hq
        simpa [hother q hne] using h.hosted_nodup q hq
      · rw [hhost] at hk
        show k < (Pe.clear cs.mem p true).leCount
        rw [hf.leCount]
        refine h.host_lt k fun h0 => hk ?_
        simp [h0]
      · rw [hf.leLabel, hf.leLabel] at hkj
        rw [hhost] at hk hj
        refine h.name_inj k j (fun h0 => hk ?_) (fun h0 => hj ?_) hkj
        · simp [h0]
        · simp [h0]

end WF

/-! ### Renumbering -/

/-- What `cloudsystem_resetpes` leaves as it was: the vector, the statistics,
the LEs and everything in a PE but its position. -/
lemma resetpes_frame (cs : CloudSystem n K) (hnd : cs.pes.Nodup) :
    cs.resetpes.pes = cs.pes ∧ cs.resetpes.ds = cs.ds ∧ cs.resetpes.ismodified = false
      ∧ cs.resetpes.mem.le = cs.mem.le
      ∧ cs.resetpes.mem.peCount = cs.mem.peCount ∧ cs.resetpes.mem.leCount = cs.mem.leCount
      ∧ ∀ q, (cs.resetpes.mem.pe q).label = (cs.mem.pe q).label
          ∧ (cs.resetpes.mem.pe q).resource = (cs.mem.pe q).resource
          ∧ (cs.resetpes.mem.pe q).hostedLE = (cs.mem.pe q).hostedLE := by
  rw [resetpes]
  split_ifs with hmod
  · have hnd' : (cs.pes.zipIdx.map Prod.fst).Nodup := by simpa using hnd
    obtain ⟨h1, h2, h3, h4, h5, h6, h7, -, -⟩ :=
      foldl_resetAt cs.pes.zipIdx { cs with ismodified := false, pemap := ∅ } hnd'
    exact ⟨h1, h2, h3, h4, h5, h6, h7⟩
  · simp [hmod]

/-- `cloudsystem_resetpes` keeps the invariant. -/
lemma WF.resetpes {cs : CloudSystem n K} (h : cs.WF) : WF cs.resetpes := by
  have hnamed := h.named.resetpes
  obtain ⟨h1, -, -, h4, h5, h6, h7⟩ := cs.resetpes_frame h.pes_nodup
  refine ⟨hnamed.pes_nodup, ?_, hnamed.get_iff, fun l p => ?_, fun p hp => ?_, fun l hl => ?_,
    fun l k hl hk hlk => ?_, hnamed.index⟩
  · rw [h1, h5]; exact h.pes_lt
  · rw [h4, h1, (h7 p).2.2]; exact h.host_iff l p
  · rw [h1] at hp
    rw [(h7 p).2.2]; exact h.hosted_nodup p hp
  · rw [h4] at hl
    rw [h6]; exact h.host_lt l hl
  · rw [h4] at hl hk hlk
    exact h.name_inj l k hl hk hlk

/-! ### Moves -/

/-- One change that the updater makes to the system when it closes a session:
a PE goes, the PEs are renumbered, an LE is taken off a PE, or one of the LEs
`known` to the session that is not hosted is placed on one. -/
inductive Move (known : LeRef → Prop) : CloudSystem n K → CloudSystem n K → Prop
  | removePE {cs : CloudSystem n K} (h : cs.WF) (peid : String) :
      Move known cs (cs.removePE peid)
  | resetpes {cs : CloudSystem n K} (h : cs.WF) : Move known cs cs.resetpes
  | removeLE {cs : CloudSystem n K} (h : cs.WF) {p : PeRef} (hp : p ∈ cs.pes) (l : LeRef) :
      Move known cs { cs with mem := (Pe.removeLE cs.mem p l true).2 }
  | placeLE {cs : CloudSystem n K} (h : cs.WF) {p : PeRef} {l : LeRef} (hp : p ∈ cs.pes)
      (hl : (cs.mem.le l).host = none) (hk : known l) :
      Move known cs { cs with mem := (Pe.placeLE cs.mem p l true).2 }

/-- The system made by `cloudsystem_create` is well-formed. -/
lemma wf_create (n : ℕ) (K : Type) : WF (create n K) := by
  refine WF.resetpes ⟨List.nodup_nil, by simp, by simp, ?_, by simp, ?_, ?_, by simp⟩
  · simp [Memory.empty, Le.create]
  · intro l hl
    exact absurd rfl hl
  · intro l k hl
    exact absurd rfl hl

end CloudSystem

end KubeSafeScheduler.Pigeon
