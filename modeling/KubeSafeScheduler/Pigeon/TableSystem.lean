import KubeSafeScheduler.Pigeon.CloudSystem
import KubeSafeScheduler.Utils.HashmapRefinement

/-!
`system/cloudsystem.c` over the hash table of `utils/hashmap.c`: the vector of
the PEs and the table from their names, with its collisions, deleted entries and
enlargements.

A call does not return (`none`) when an insertion into the table does not. The
PEs that can be added are those of the memory, under whatever names they have.

* `TableSystem.addPE`, `removePE`, `updatePE`, `resetpes`; `Call`, `step`, `run`.
* `TableSystem.Refines`: the system over the finite map that stands behind the
  table. An insertion is always of a name that is absent, so it is never
  obstructed (`Refines.addPE`, `Refines.resetpes`).
* `run_refines`: a run refines the same run over the finite map, where the
  vector and the map agree (`CloudSystem.Named`).
* `table_agrees`: what this means for the table.
-/

namespace KubeSafeScheduler.Pigeon

open Utils

variable {n : ℕ} {K : Type}

/-- `s_cloudsystem` with its hash table. -/
structure TableSystem (n : ℕ) where
  mem : Memory n
  pes : List PeRef
  pemap : Hashmap PeRef
  ismodified : Bool

namespace TableSystem

/-- `cloudsystem_getPE`. -/
def getPE (s : TableSystem n) (peid : String) : Option PeRef := s.pemap.get peid

/-- One round of the loop of `cloudsystem_resetpes`. -/
def resetAt (s : TableSystem n) (pi : PeRef × ℕ) : Option (TableSystem n) := do
  let pemap ← s.pemap.insert pi.1 (s.mem.pe pi.1).label
  pure { s with
    pemap := pemap
    mem := s.mem.setPe pi.1 { s.mem.pe pi.1 with indexinsystem := pi.2 } }

/-- `cloudsystem_resetpes`: when the system was modified, a new table. -/
def resetpes (s : TableSystem n) : Option (TableSystem n) :=
  if s.ismodified then
    s.pes.zipIdx.foldlM resetAt
      { s with ismodified := false, pemap := Hashmap.create s.pemap.rand }
  else some s

/-- `cloudsystem_create` from an empty vector. -/
def create (mem : Memory n) (rand : Rand) : Option (TableSystem n) :=
  resetpes { mem := mem, pes := [], pemap := Hashmap.create rand, ismodified := true }

/-- `cloudsystem_addPE`, where `none` is `NULL`. -/
def addPE (s : TableSystem n) : Option PeRef → Option (TableSystem n)
  | none => some s
  | some p =>
      if (s.getPE (s.mem.pe p).label).isSome then some s
      else do
        let pemap ← s.pemap.insert p (s.mem.pe p).label
        pure { s with pemap := pemap, pes := s.pes ++ [p], ismodified := true }

/-- `cloudsystem_remove_PE`. -/
def removePE (s : TableSystem n) (peid : String) : TableSystem n :=
  match s.pemap.get peid with
  | none => s
  | some p =>
      { s with
        mem := Pe.clear s.mem p true
        pemap := (s.pemap.remove peid).2
        pes := s.pes.erase p
        ismodified := true }

/-- `cloudsystem_updatePE`. -/
def updatePE (s : TableSystem n) (peid : String) (capacity usage : Option (Fin n → ℤ)) :
    TableSystem n :=
  match s.getPE peid with
  | none => s
  | some p => { s with mem := s.mem.setPe p ((s.mem.pe p).update capacity usage) }

/-- A call on the system. -/
inductive Call (n : ℕ) where
  | addPE (p : Option PeRef)
  | removePE (peid : String)
  | updatePE (peid : String) (capacity usage : Option (Fin n → ℤ))
  | resetpes

/-- The system after a call that returns. -/
def step (s : TableSystem n) : Call n → Option (TableSystem n)
  | .addPE p => s.addPE p
  | .removePE peid => some (s.removePE peid)
  | .updatePE peid capacity usage => some (s.updatePE peid capacity usage)
  | .resetpes => s.resetpes

/-- The system after calls that return, from one made by `cloudsystem_create`. -/
def run (mem : Memory n) (rand : Rand) (calls : List (Call n)) : Option (TableSystem n) :=
  (create mem rand).bind fun s => calls.foldlM step s

/-! ### The finite map behind the table -/

/-- The system over a finite map that the table holds. -/
structure Refines (s : TableSystem n) (cs : CloudSystem n K) : Prop where
  mem : s.mem = cs.mem
  pes : s.pes = cs.pes
  pemap : s.pemap.Holds cs.pemap
  ismodified : s.ismodified = cs.ismodified

/-- The same call over the finite map. -/
def specStep (cs : CloudSystem n K) : Call n → CloudSystem n K
  | .addPE none => cs
  | .addPE (some p) => cs.addPE p
  | .removePE peid => cs.removePE peid
  | .updatePE peid capacity usage => cs.updatePE peid capacity usage
  | .resetpes => cs.resetpes

namespace Refines

variable {s s' : TableSystem n} {cs : CloudSystem n K}

/-- `cloudsystem_getPE` reads the finite map. -/
lemma getPE_eq (h : s.Refines cs) (peid : String) : s.getPE peid = cs.getPE peid :=
  h.pemap.get_eq peid

/-- An insertion of a name that is absent. -/
lemma insert_holds (h : s.Refines cs) {p : PeRef} {name : String} {pemap : Hashmap PeRef}
    (habs : cs.pemap.get name = none) (hins : s.pemap.insert p name = some pemap) :
    pemap.Holds (cs.pemap.insert name p) :=
  (Hashmap.Holds.insertFuel_spec 32 true h.pemap (h.pemap.unobstructed_of_absent habs) hins).1

/-- `cloudsystem_addPE` inserts only a name that the table does not have. -/
lemma addPE (h : s.Refines cs) {p : PeRef} (hs : s.addPE (some p) = some s') :
    s'.Refines (cs.addPE p) := by
  rw [TableSystem.addPE, h.getPE_eq, h.mem] at hs
  rw [CloudSystem.addPE]
  cases hget : cs.getPE (cs.mem.pe p).label with
  | some q =>
      rw [hget, if_pos (by simp)] at hs
      obtain rfl := Option.some.inj hs
      simpa using h
  | none =>
      rw [hget, if_neg (by simp), Option.bind_eq_bind, Option.bind_eq_some_iff] at hs
      obtain ⟨pemap, hins, hs⟩ := hs
      obtain rfl := Option.some.inj hs
      exact ⟨rfl, by simp [h.pes], h.insert_holds hget hins, rfl⟩

lemma removePE (h : s.Refines cs) (peid : String) :
    (s.removePE peid).Refines (cs.removePE peid) := by
  rw [TableSystem.removePE, CloudSystem.removePE, h.pemap.get_eq]
  cases cs.pemap.get peid with
  | none => exact h
  | some p =>
      exact ⟨by simp [h.mem], by simp [h.pes], (h.pemap.remove_spec peid).2, rfl⟩

lemma updatePE (h : s.Refines cs) (peid : String) (capacity usage : Option (Fin n → ℤ)) :
    (s.updatePE peid capacity usage).Refines (cs.updatePE peid capacity usage) := by
  rw [TableSystem.updatePE, CloudSystem.updatePE, h.getPE_eq]
  cases cs.getPE peid with
  | none => exact h
  | some p => exact ⟨by simp [h.mem], h.pes, h.pemap, h.ismodified⟩

/-- One round of the loop of `cloudsystem_resetpes`, for a name that is absent. -/
lemma resetAt (h : s.Refines cs) {pi : PeRef × ℕ}
    (habs : cs.pemap.get (cs.mem.pe pi.1).label = none) (hs : s.resetAt pi = some s') :
    s'.Refines (cs.resetAt pi) := by
  rw [TableSystem.resetAt, Option.bind_eq_bind, Option.bind_eq_some_iff] at hs
  obtain ⟨pemap, hins, hs⟩ := hs
  obtain rfl := Option.some.inj hs
  rw [h.mem] at hins
  exact ⟨by rw [CloudSystem.resetAt_mem, h.mem], h.pes, h.insert_holds habs hins, h.ismodified⟩

/-- The loop of `cloudsystem_resetpes` over PEs whose names are distinct, and not
in the table yet. -/
lemma foldlM_resetAt (ps : List (PeRef × ℕ)) (h : s.Refines cs)
    (hnd : (ps.map fun pi => (cs.mem.pe pi.1).label).Nodup)
    (habs : ∀ pi ∈ ps, cs.pemap.get (cs.mem.pe pi.1).label = none)
    (hs : ps.foldlM TableSystem.resetAt s = some s') :
    s'.Refines (ps.foldl CloudSystem.resetAt cs) := by
  induction ps generalizing s cs with
  | nil =>
      obtain rfl := Option.some.inj hs
      exact h
  | cons pi ps ih =>
      rw [List.foldlM_cons, Option.bind_eq_bind, Option.bind_eq_some_iff] at hs
      obtain ⟨s₁, hstep, hrest⟩ := hs
      have hlabel : ∀ q, ((cs.resetAt pi).mem.pe q).label = (cs.mem.pe q).label := by
        rw [CloudSystem.resetAt_mem]
        exact cs.mem.setPe_congr Pe.label (by rfl)
      obtain ⟨hnot, hnd'⟩ := List.nodup_cons.mp hnd
      refine ih (h.resetAt (habs pi List.mem_cons_self) hstep) ?_ (fun qi hqi => ?_) hrest
      · simpa only [hlabel] using hnd'
      · rw [hlabel]
        refine (StringMap.get_insert_of_ne _ _ fun heq => hnot ?_).trans
          (habs qi (List.mem_cons_of_mem _ hqi))
        exact List.mem_map.mpr ⟨qi, hqi, heq⟩

/-- `cloudsystem_resetpes` inserts every name once, into a new table. -/
lemma resetpes (h : s.Refines cs)
    (hnd : (cs.pes.map fun p => (cs.mem.pe p).label).Nodup) (hs : s.resetpes = some s') :
    s'.Refines cs.resetpes := by
  rw [TableSystem.resetpes, h.ismodified] at hs
  rw [CloudSystem.resetpes]
  split_ifs at hs ⊢ with hmod
  · have hstart : Refines { s with ismodified := false, pemap := Hashmap.create s.pemap.rand }
        ({ cs with ismodified := false, pemap := ∅ } : CloudSystem n K) :=
      ⟨h.mem, h.pes, Hashmap.holds_create _, rfl⟩
    refine hstart.foldlM_resetAt cs.pes.zipIdx ?_ (fun _ _ => StringMap.get_empty _) (h.pes ▸ hs)
    rw [show (fun pi : PeRef × ℕ => (cs.mem.pe pi.1).label)
      = (fun p => (cs.mem.pe p).label) ∘ Prod.fst from rfl, ← List.map_map]
    simpa using hnd
  · obtain rfl := Option.some.inj hs
    exact h

/-- A call that returns refines the call over the finite map. -/
lemma step (h : s.Refines cs) (hcs : cs.Named) {call : Call n} (hs : s.step call = some s') :
    s'.Refines (specStep cs call) := by
  cases call with
  | addPE p =>
      cases p with
      | none =>
          obtain rfl := Option.some.inj hs
          exact h
      | some p => exact h.addPE hs
  | removePE peid =>
      obtain rfl := Option.some.inj hs
      exact h.removePE peid
  | updatePE peid capacity usage =>
      obtain rfl := Option.some.inj hs
      exact h.updatePE peid capacity usage
  | resetpes => exact h.resetpes hcs.names_nodup hs

end Refines

/-- Every call keeps the vector and the map in agreement. -/
lemma named_specStep {cs : CloudSystem n K} (h : cs.Named) (call : Call n) :
    (specStep cs call).Named := by
  cases call with
  | addPE p =>
      cases p with
      | none => exact h
      | some p => exact h.addPE p
  | removePE peid => exact h.removePE peid
  | updatePE peid capacity usage => exact h.updatePE peid capacity usage
  | resetpes => exact h.resetpes

/-! ### Runs -/

/-- The system over the finite map at the start of a run. -/
def specCreate (K : Type) (mem : Memory n) : CloudSystem n K :=
  CloudSystem.resetpes { mem := mem, pes := [], pemap := ∅, ds := none, ismodified := true }

/-- A run that returns refines the run over the finite map, in which the vector
and the map agree all along. -/
lemma run_refines (K : Type) {mem : Memory n} {rand : Rand} {calls : List (Call n)}
    {s : TableSystem n} (h : run mem rand calls = some s) :
    s.Refines (calls.foldl specStep (specCreate K mem))
      ∧ (calls.foldl specStep (specCreate K mem)).Named := by
  rw [run, Option.bind_eq_some_iff] at h
  obtain ⟨s₀, hcreate, hrun⟩ := h
  have hstart : CloudSystem.Named
      ({ mem := mem, pes := [], pemap := ∅, ds := none, ismodified := true } : CloudSystem n K) :=
    ⟨List.nodup_nil, by simp, by simp⟩
  have h₀ : s₀.Refines (specCreate K mem) :=
    Refines.resetpes ⟨rfl, rfl, Hashmap.holds_create rand, rfl⟩ hstart.names_nodup hcreate
  have hnamed : (specCreate K mem).Named := hstart.resetpes
  generalize specCreate K mem = cs at h₀ hnamed
  clear hcreate hstart
  induction calls generalizing s₀ cs with
  | nil =>
      obtain rfl := Option.some.inj hrun
      exact ⟨h₀, hnamed⟩
  | cons call calls ih =>
      rw [List.foldlM_cons, Option.bind_eq_bind, Option.bind_eq_some_iff] at hrun
      obtain ⟨s₁, hstep, hrest⟩ := hrun
      exact ih s₁ hrest (specStep cs call) (h₀.step hnamed hstep) (named_specStep hnamed call)

/-- After `cloudsystem_resetpes` the system is not marked as modified. -/
lemma ismodified_resetpes {cs : CloudSystem n K} (h : cs.Named) :
    cs.resetpes.ismodified = false :=
  (cs.resetpes_frame h.pes_nodup).2.2.1

/-- In every state of every run the table finds a PE by a name if and only if the
vector has one of this name, and then this one; the names in the vector are
distinct, the table counts as many entries as the vector has PEs, and after
`cloudsystem_resetpes` every PE knows its position. -/
theorem table_agrees (mem : Memory n) (rand : Rand) (calls : List (Call n)) (s : TableSystem n)
    (h : run mem rand calls = some s) :
    (∀ name, (∃ p, s.getPE name = some p) ↔ ∃ p ∈ s.pes, (s.mem.pe p).label = name)
      ∧ (∀ name p, s.getPE name = some p ↔ p ∈ s.pes ∧ (s.mem.pe p).label = name)
      ∧ (s.pes.map fun p => (s.mem.pe p).label).Nodup
      ∧ s.pemap.count = s.pes.length
      ∧ (calls.getLast? = some .resetpes →
          ∀ (i : ℕ) p, s.pes[i]? = some p → (s.mem.pe p).indexinsystem = i) := by
  obtain ⟨href, hnamed⟩ := run_refines Unit h
  set cs : CloudSystem n Unit := calls.foldl specStep (specCreate Unit mem) with hcs
  have hget : ∀ name p, s.getPE name = some p ↔ p ∈ s.pes ∧ (s.mem.pe p).label = name := by
    intro name p
    rw [href.getPE_eq, href.pes, href.mem]
    exact hnamed.get_iff name p
  refine ⟨fun name => exists_congr fun p => hget name p, hget, ?_, ?_, fun hlast i p hp => ?_⟩
  · rw [href.pes, href.mem]
    exact hnamed.names_nodup
  · -- the keys of the map are the names in the vector
    have hkeys : cs.pemap.getkeys.Perm (cs.pes.map fun p => (cs.mem.pe p).label) := by
      refine (List.perm_ext_iff_of_nodup (StringMap.nodup_getkeys _) hnamed.names_nodup).mpr
        fun name => ?_
      rw [StringMap.mem_getkeys, List.mem_map]
      exact exists_congr fun p => hnamed.get_iff name p
    rw [href.pemap.matches_getkeys.2, hkeys.length_eq, List.length_map, href.pes]
  · obtain ⟨calls', rfl⟩ := List.getLast?_eq_some_iff.mp hlast
    rw [href.pes] at hp
    rw [href.mem]
    refine hnamed.index ?_ i p hp
    rw [hcs, List.foldl_append]
    obtain ⟨s', hs'⟩ : ∃ s', run mem rand calls' = some s' := by
      rw [run, Option.bind_eq_some_iff] at h
      obtain ⟨s₀, hcreate, hrun⟩ := h
      rw [List.foldlM_append, Option.bind_eq_bind, Option.bind_eq_some_iff] at hrun
      obtain ⟨s₁, hs₁, -⟩ := hrun
      exact ⟨s₁, by rw [run, hcreate, Option.bind_some, hs₁]⟩
    exact ismodified_resetpes (run_refines Unit hs').2

/-- Three PEs: two of one name, and one whose name has the same path in the
table. -/
def sharedPath : Memory 1 :=
  { Memory.empty 1 with
    pe := fun p => Pe.create (if p = 0 then "ad" else "ea") (Resource.create (fun _ => 4) none) }

/-- A PE is removed, its name is taken up again behind the other entry, and the
PE whose name is taken is not added. -/
theorem table_agrees_sharedPath :
    ∃ s, run sharedPath (fun _ => 0) [.addPE (some 0), .addPE (some 1), .removePE "ad",
        .addPE (some 2), .updatePE "ea" (some fun _ => 8) none, .addPE (some 0), .addPE none,
        .resetpes] = some s
      ∧ s.pes = [1, 0] ∧ s.pemap.count = s.pes.length
      ∧ (∀ p, s.getPE "ad" = some p ↔ p ∈ s.pes ∧ (s.mem.pe p).label = "ad")
      ∧ ∀ (i : ℕ) p, s.pes[i]? = some p → (s.mem.pe p).indexinsystem = i := by
  have hrun : (run sharedPath (fun _ => 0) [.addPE (some 0), .addPE (some 1), .removePE "ad",
      .addPE (some 2), .updatePE "ea" (some fun _ => 8) none, .addPE (some 0), .addPE none,
      .resetpes]).map TableSystem.pes = some [1, 0] := by decide +kernel
  obtain ⟨s, hs, hpes⟩ := Option.map_eq_some_iff.mp hrun
  obtain ⟨-, hget, -, hcount, hindex⟩ := table_agrees _ _ _ s hs
  exact ⟨s, hs, hpes, hcount, hget "ad", hindex rfl⟩

end TableSystem

end KubeSafeScheduler.Pigeon
