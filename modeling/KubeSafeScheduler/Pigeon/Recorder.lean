import KubeSafeScheduler.Pigeon.Sessions
import KubeSafeScheduler.Pigeon.Views

/-!
The six vectors in which `system/stateupdater.c` notes what a session changed,
for the printed report: names of PEs and LEs that were added, deleted or
updated. `start` empties them, the reports and `stop` append to them.

* `Recorder`: the updater with these vectors. Its updater is the one without
  them (`su_start`, `su_stop`, `su_report`).
* `changes_stop`: what `stop` appends.
* `updatePE_cases`, `updateLE_cases`: what a report appends, and what it does to
  the system.
-/

namespace KubeSafeScheduler.Pigeon

variable {n : ℕ} {K : Type}

/-- The vectors of `s_stateupdater` for the report. -/
structure Changes where
  addedPEs : List String := []
  deletedPEs : List String := []
  updatedPEs : List String := []
  addedLEs : List String := []
  deletedLEs : List String := []
  updatedLEs : List String := []

/-- `s_stateupdater` with the vectors for the report. -/
structure Recorder (n : ℕ) (K : Type) where
  su : StateUpdater n K
  changes : Changes

/-- Removing a PE keeps the names. -/
lemma CloudSystem.label_removePE (cs : CloudSystem n K) (peid : String) (p : PeRef) :
    ((cs.removePE peid).mem.pe p).label = (cs.mem.pe p).label := by
  rw [removePE]
  cases cs.pemap.get peid with
  | none => rfl
  | some q => exact (Pe.frame_clear cs.mem q).label p

namespace Recorder

/-! ### The operations -/

/-- One round of the first loop of `stateupdater_stop`. -/
def dropPE (observed : Finset String) (x : CloudSystem n K × List String) (p : PeRef) :
    CloudSystem n K × List String :=
  let idi := (x.1.mem.pe p).label
  if idi ∈ observed then x else (x.1.removePE idi, x.2 ++ [idi])

/-- One round of the second loop of `stateupdater_stop`. -/
def dropLE (observed : Finset String) (x : Memory n × List String) (l : LeRef) :
    Memory n × List String :=
  if (x.1.le l).label ∈ observed then x
  else
    match (x.1.le l).host with
    | none => x
    | some p => ((Pe.removeLE x.1 p l true).2, x.2 ++ [(x.1.le l).label])

/-- `stateupdater_stop`. -/
def stop (ord : EnumOrder) (r : Recorder n K) : Recorder n K :=
  if r.su.started then
    let pes := r.su.cs.pes.foldl (dropPE r.su.observedPEs) (r.su.cs, r.changes.deletedPEs)
    let cs := pes.1.resetpes
    let les := (ord.order r.su.lemap.getvalues).foldl (dropLE r.su.observedLEs)
      (cs.mem, r.changes.deletedLEs)
    let s : StateUpdater n K := { r.su with cs := { cs with mem := les.1 } }
    { su := { s.placeLEs ord with
        observedPEs := ∅
        observedLEs := ∅
        lemap := ∅
        newplacements := ∅
        started := false }
      changes := { r.changes with deletedPEs := pes.2, deletedLEs := les.2 } }
  else r

/-- `stateupdater_start`. -/
def start (ord : EnumOrder) (r : Recorder n K) (generation : ℤ) : Bool × Recorder n K :=
  if generation ≤ r.su.gen then (false, { r with su := { r.su with started := false } })
  else
    let r := if r.su.started then r.stop ord else r
    (true,
      { su := { r.su with
          started := true
          gen := generation
          observedPEs := ∅
          observedLEs := ∅
          lemap := (StateUpdater.hostedLEs r.su.cs).foldl
            (fun m l => m.insert (r.su.cs.mem.le l).label l) ∅
          newplacements := ∅ }
        changes := {} })

/-- `stateupdater_updatePE`. -/
def updatePE (r : Recorder n K) (id : String) (capacity : Fin n → ℤ)
    (ovf : Option (Fin n → Bool)) (usage : Option (Fin n → ℤ)) : Recorder n K :=
  if r.su.started then
    match r.su.cs.getPE id with
    | some p =>
        let x := r.su.cs.mem.pe p
        if x.resource.haschanged capacity usage then
          { su := { r.su with
              observedPEs := insert id r.su.observedPEs
              cs := { r.su.cs with mem := r.su.cs.mem.setPe p (x.update (some capacity) usage) } }
            changes := { r.changes with updatedPEs := r.changes.updatedPEs ++ [id] } }
        else { r with su := { r.su with observedPEs := insert id r.su.observedPEs } }
    | none =>
        let (mem, p) := r.su.cs.mem.newPe (Pe.observed id capacity ovf usage)
        { su := { r.su with
            observedPEs := insert id r.su.observedPEs
            cs := ({ r.su.cs with mem := mem } : CloudSystem n K).addPE p }
          changes := { r.changes with addedPEs := r.changes.addedPEs ++ [id] } }
  else r

/-- `stateupdater_updateLE`. -/
def updateLE (r : Recorder n K) (id hostID : String) (demand : Fin n → ℤ) : Recorder n K :=
  if r.su.started then
    let s := { r.su with observedLEs := insert id r.su.observedLEs }
    match s.lemap.get id with
    | some l =>
        match (s.cs.mem.le l).host with
        | some p =>
            if (s.cs.mem.pe p).label = hostID then { r with su := s }
            else
              { su := { s with
                  cs := { s.cs with mem := (Pe.removeLE s.cs.mem p l true).2 }
                  newplacements := s.newplacements.insert id hostID }
                changes := { r.changes with updatedLEs := r.changes.updatedLEs ++ [id] } }
        | none => { r with su := { s with newplacements := s.newplacements.insert id hostID } }
    | none =>
        let (mem, l) := s.cs.mem.newLe (Le.create id demand)
        { su := { s with
            cs := { s.cs with mem := mem }
            lemap := s.lemap.insert id l
            newplacements := s.newplacements.insert id hostID }
          changes := { r.changes with addedLEs := r.changes.addedLEs ++ [id] } }
  else r

/-- Pass on an observation. -/
def report (r : Recorder n K) : Report n → Recorder n K
  | .pe id capacity ovf usage => r.updatePE id capacity ovf usage
  | .le id hostID demand => r.updateLE id hostID demand

/-! ### The updater without the vectors -/

lemma fst_foldl_dropPE (observed : Finset String) (ps : List PeRef)
    (x : CloudSystem n K × List String) :
    (ps.foldl (dropPE observed) x).1 = ps.foldl (StateUpdater.dropPE observed) x.1 := by
  refine (List.foldl_hom Prod.fst fun x p => ?_).symm
  rw [dropPE, StateUpdater.dropPE]
  split_ifs <;> rfl

lemma fst_foldl_dropLE (observed : Finset String) (ls : List LeRef)
    (x : Memory n × List String) :
    (ls.foldl (dropLE observed) x).1 = ls.foldl (StateUpdater.dropLE observed) x.1 := by
  refine (List.foldl_hom Prod.fst fun x l => ?_).symm
  rw [dropLE, StateUpdater.dropLE]
  split_ifs
  · rfl
  · cases (x.1.le l).host <;> rfl

lemma su_stop (r : Recorder n K) (ord : EnumOrder) : (r.stop ord).su = r.su.stop ord := by
  rw [stop, StateUpdater.stop]
  split_ifs
  · simp only [fst_foldl_dropPE, fst_foldl_dropLE]
    rfl
  · rfl

lemma su_start (r : Recorder n K) (ord : EnumOrder) (generation : ℤ) :
    (r.start ord generation).1 = (r.su.start ord generation).1
      ∧ (r.start ord generation).2.su = (r.su.start ord generation).2 := by
  rw [start, StateUpdater.start]
  split_ifs
  · exact ⟨rfl, rfl⟩
  · simp only [su_stop, and_self]
  · exact ⟨rfl, rfl⟩

lemma su_updatePE (r : Recorder n K) (id : String) (capacity : Fin n → ℤ)
    (ovf : Option (Fin n → Bool)) (usage : Option (Fin n → ℤ)) :
    (r.updatePE id capacity ovf usage).su = r.su.updatePE id capacity ovf usage := by
  rw [updatePE, StateUpdater.updatePE]
  split_ifs
  · cases r.su.cs.getPE id with
    | none => rfl
    | some p =>
        simp only
        split_ifs <;> rfl
  · rfl

lemma su_updateLE (r : Recorder n K) (id hostID : String) (demand : Fin n → ℤ) :
    (r.updateLE id hostID demand).su = r.su.updateLE id hostID demand := by
  rw [updateLE, StateUpdater.updateLE]
  split_ifs
  · simp only
    cases hid : r.su.lemap.get id with
    | none => rfl
    | some l =>
        simp only
        cases (r.su.cs.mem.le l).host with
        | none => rfl
        | some p =>
            simp only
            split_ifs <;> rfl
  · rfl

lemma su_report (r : Recorder n K) (x : Report n) : (r.report x).su = r.su.report x := by
  cases x with
  | pe id capacity ovf usage => exact su_updatePE r id capacity ovf usage
  | le id hostID demand => exact su_updateLE r id hostID demand

lemma su_reports (r : Recorder n K) (reports : List (Report n)) :
    (reports.foldl report r).su = reports.foldl StateUpdater.report r.su :=
  (List.foldl_hom su fun r x => (su_report r x).symm).symm

/-! ### What `stop` appends -/

lemma snd_foldl_dropPE (observed : Finset String) (ps : List PeRef) (cs : CloudSystem n K)
    (deleted : List String) :
    (ps.foldl (dropPE observed) (cs, deleted)).2
      = deleted ++ (ps.map fun p => (cs.mem.pe p).label).filter fun id => id ∉ observed := by
  induction ps generalizing cs deleted with
  | nil => simp
  | cons p ps ih =>
      rw [List.foldl_cons, dropPE, List.map_cons]
      by_cases hobs : (cs.mem.pe p).label ∈ observed
      · simp only [if_pos hobs]
        rw [ih, List.filter_cons_of_neg (by simpa using hobs)]
      · simp only [if_neg hobs]
        rw [ih, List.filter_cons_of_pos (by simpa using hobs)]
        simp only [CloudSystem.label_removePE, List.append_assoc, List.singleton_append]

/-- An LE that `stateupdater_stop` takes off its host: it was not observed, and
its host was. -/
def deletes (s : StateUpdater n K) (l : LeRef) : Bool :=
  decide ((s.cs.mem.le l).label ∉ s.observedLEs)
    && ((s.cs.mem.le l).host.filter fun p => (s.cs.mem.pe p).label ∈ s.observedPEs).isSome

/-- Taking an LE off its host does not change whether another one has a host. -/
lemma snd_foldl_dropLE (observed : Finset String) (ls : List LeRef) {cs : CloudSystem n K}
    (h : cs.WF) (hnd : ls.Nodup) (deleted : List String) :
    (ls.foldl (dropLE observed) (cs.mem, deleted)).2
      = deleted ++ (ls.filter fun l => decide ((cs.mem.le l).label ∉ observed)
          && (cs.mem.le l).host.isSome).map fun l => (cs.mem.le l).label := by
  induction ls generalizing cs deleted with
  | nil => simp
  | cons k ls ih =>
      obtain ⟨hk, hnd'⟩ := List.nodup_cons.mp hnd
      have hr := StateUpdater.dropLE_spec (fun _ => True) observed h k
      have hrest := fun deleted => ih hr.wf hnd' deleted
      have hsame : (ls.filter fun l =>
            decide (((StateUpdater.dropLE observed cs.mem k).le l).label ∉ observed)
              && ((StateUpdater.dropLE observed cs.mem k).le l).host.isSome).map
            (fun l => ((StateUpdater.dropLE observed cs.mem k).le l).label)
          = (ls.filter fun l => decide ((cs.mem.le l).label ∉ observed)
              && (cs.mem.le l).host.isSome).map fun l => (cs.mem.le l).label := by
        have hfilter : (ls.filter fun l =>
              decide (((StateUpdater.dropLE observed cs.mem k).le l).label ∉ observed)
                && ((StateUpdater.dropLE observed cs.mem k).le l).host.isSome)
            = ls.filter fun l => decide ((cs.mem.le l).label ∉ observed)
                && (cs.mem.le l).host.isSome :=
          List.filter_congr fun l hl => by
            have hlk : l ≠ k := fun hlk => hk (hlk ▸ hl)
            rw [hr.kept.leLabel, hr.host, if_neg fun hc => hlk hc.1]
        rw [hfilter]
        exact List.map_congr_left fun l _ => hr.kept.leLabel l
      rw [List.foldl_cons]
      have hstep : dropLE observed (cs.mem, deleted) k
          = (StateUpdater.dropLE observed cs.mem k,
              deleted ++ if decide ((cs.mem.le k).label ∉ observed)
                && (cs.mem.le k).host.isSome then [(cs.mem.le k).label] else []) := by
        rw [dropLE, StateUpdater.dropLE]
        by_cases hobs : (cs.mem.le k).label ∈ observed
        · simp [hobs]
        · cases hhost : (cs.mem.le k).host <;> simp [hobs]
      rw [hstep, hrest, hsame, List.append_assoc, List.filter_cons]
      split_ifs <;> simp

/-- The LEs of a session are listed once. -/
lemma nodup_getvalues {s : StateUpdater n K} (h : s.Session) : s.lemap.getvalues.Nodup := by
  have heq : s.lemap.getvalues = s.lemap.entries.map Prod.snd := by
    rw [StringMap.entries, StringMap.getvalues, List.map_map]
    rfl
  rw [heq]
  refine s.lemap.nodup_entries.map_on ?_
  rintro ⟨id, l⟩ hid ⟨id', l'⟩ hid' rfl
  have hl := (h.lemap id l (StringMap.mem_entries.mp hid)).1
  have hl' := (h.lemap id' l (StringMap.mem_entries.mp hid')).1
  rw [← hl, ← hl']

/-- What `stateupdater_stop` notes: the PEs that were not observed, and the LEs
that were not observed on PEs that were. -/
lemma changes_stop {r : Recorder n K} (h : r.su.WF) (hst : r.su.started = true)
    (ord : EnumOrder) :
    (r.stop ord).changes = { r.changes with
      deletedPEs := r.changes.deletedPEs
        ++ r.su.cs.names.filter fun id => id ∉ r.su.observedPEs
      deletedLEs := r.changes.deletedLEs
        ++ ((ord.order r.su.lemap.getvalues).filter (deletes r.su)).map
          fun l => (r.su.cs.mem.le l).label } := by
  obtain ⟨a1, -⟩ := StateUpdater.removePEs_spec (fun _ => True) h.cs
  have hnd := ord.nodup_order.mpr (nodup_getvalues (h.session hst))
  have hles := snd_foldl_dropLE r.su.observedLEs _ a1.wf hnd r.changes.deletedLEs
  simp only [a1.kept.leLabel, a1.host] at hles
  rw [stop, if_pos hst]
  simp only [snd_foldl_dropPE, fst_foldl_dropPE]
  rw [show (r.su.cs.pes.foldl (StateUpdater.dropPE r.su.observedPEs) r.su.cs).resetpes.mem
    = r.su.removePEs.cs.mem from rfl, hles]
  rfl

/-! ### One report -/

/-- What `stateupdater_updatePE` notes in an open session, and what it does to
the names of the system. -/
lemma updatePE_cases {r : Recorder n K} (h : r.su.WF) (hst : r.su.started = true) (id : String)
    (capacity : Fin n → ℤ) (ovf : Option (Fin n → Bool)) (usage : Option (Fin n → ℤ)) :
    (r.su.cs.getPE id = none
        ∧ (r.updatePE id capacity ovf usage).changes
            = { r.changes with addedPEs := r.changes.addedPEs ++ [id] }
        ∧ (r.updatePE id capacity ovf usage).su.cs.names = r.su.cs.names ++ [id])
      ∨ ∃ p, r.su.cs.getPE id = some p
          ∧ (r.updatePE id capacity ovf usage).changes
              = (if (r.su.cs.mem.pe p).resource.haschanged capacity usage then
                  { r.changes with updatedPEs := r.changes.updatedPEs ++ [id] }
                else r.changes)
          ∧ (r.updatePE id capacity ovf usage).su.cs.names = r.su.cs.names := by
  cases hget : r.su.cs.getPE id with
  | none =>
      refine Or.inl ⟨rfl, ?_, ?_⟩
      · rw [updatePE, if_pos hst, hget]
      · rw [su_updatePE, StateUpdater.updatePE_of_new hst hget]
        have hold : ∀ p ∈ r.su.cs.pes,
            ((r.su.cs.mem.newPe (Pe.observed id capacity ovf usage)).1.pe p).label
              = (r.su.cs.mem.pe p).label := fun p hp => by
          rw [Memory.newPe_fst_pe_of_lt _ _ (h.cs.pes_lt p hp)]
        have hself := Memory.newPe_fst_pe_self r.su.cs.mem (Pe.observed id capacity ovf usage)
        simp only [CloudSystem.names, List.map_append, List.map_cons, List.map_nil, hself,
          List.map_congr_left hold]
        rfl
  | some p =>
      refine Or.inr ⟨p, rfl, ?_, ?_⟩
      · rw [updatePE, if_pos hst, hget]
        simp only
        split_ifs <;> rfl
      · have hr := StateUpdater.updatePE_spec h.cs hst id capacity ovf usage
        have hpes : (r.su.updatePE id capacity ovf usage).cs.pes = r.su.cs.pes := by
          rw [StateUpdater.updatePE, if_pos hst, hget]
          simp only
          split_ifs <;> rfl
        rw [su_updatePE, CloudSystem.names, hpes]
        exact List.map_congr_left hr.label

/-- What `stateupdater_updateLE` notes in an open session, and what it does to
the map of LEs and to the hosts: the LE is new, it stays where it is, or it is
taken off its host. -/
lemma updateLE_cases {r : Recorder n K} (h : r.su.WF) (hst : r.su.started = true)
    (id hostID : String) (demand : Fin n → ℤ) :
    (r.su.lemap.get id = none
        ∧ (r.updateLE id hostID demand).changes
            = { r.changes with addedLEs := r.changes.addedLEs ++ [id] }
        ∧ (r.updateLE id hostID demand).su.lemap = r.su.lemap.insert id r.su.cs.mem.leCount
        ∧ ∀ k, ((r.updateLE id hostID demand).su.cs.mem.le k).host = (r.su.cs.mem.le k).host)
      ∨ (∃ l, r.su.lemap.get id = some l
        ∧ (∀ p, (r.su.cs.mem.le l).host = some p → (r.su.cs.mem.pe p).label = hostID)
        ∧ (r.updateLE id hostID demand).changes = r.changes
        ∧ (r.updateLE id hostID demand).su.lemap = r.su.lemap
        ∧ ∀ k, ((r.updateLE id hostID demand).su.cs.mem.le k).host = (r.su.cs.mem.le k).host)
      ∨ ∃ l p, r.su.lemap.get id = some l ∧ (r.su.cs.mem.le l).host = some p
        ∧ (r.su.cs.mem.pe p).label ≠ hostID
        ∧ (r.updateLE id hostID demand).changes
            = { r.changes with updatedLEs := r.changes.updatedLEs ++ [id] }
        ∧ (r.updateLE id hostID demand).su.lemap = r.su.lemap
        ∧ ∀ k, ((r.updateLE id hostID demand).su.cs.mem.le k).host
            = if k = l then none else (r.su.cs.mem.le k).host := by
  rw [updateLE, if_pos hst]
  cases hid : r.su.lemap.get id with
  | none =>
      simp only [hid]
      refine Or.inl ⟨trivial, trivial, rfl, fun k => ?_⟩
      by_cases hk : k = r.su.cs.mem.leCount
      · -- nothing is hosted beyond the LEs there are
        have hnone : (r.su.cs.mem.le k).host = none := by
          by_contra hne
          exact absurd (h.cs.host_lt k hne) (hk ▸ lt_irrefl _)
        rw [hnone, hk, Memory.newLe_fst_le_self]
        rfl
      · rw [Memory.newLe_fst_le_of_ne _ _ hk]
  | some l =>
      cases hl : (r.su.cs.mem.le l).host with
      | none =>
          simp only [hid, hl]
          exact Or.inr (Or.inl ⟨l, rfl, by simp [hl], trivial, trivial, fun _ => trivial⟩)
      | some p =>
          simp only [hid, hl]
          split_ifs with hlabel
          · refine Or.inr (Or.inl ⟨l, rfl, fun q hq => ?_, rfl, rfl, fun _ => rfl⟩)
            rw [hl] at hq
            rw [← Option.some.inj hq, hlabel]
          · have hlp := ((h.cs.host_iff l p).mp hl).2
            exact Or.inr (Or.inr ⟨l, p, rfl, hl, hlabel, rfl, rfl, Pe.removeLE_host hlp⟩)

end Recorder

end KubeSafeScheduler.Pigeon
