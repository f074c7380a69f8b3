import KubeSafeScheduler.Pigeon.Sessions
import KubeSafeScheduler.Pigeon.TableSystem
import KubeSafeScheduler.Utils.Hashset

/-!
`system/stateupdater.c` over the hash tables of `utils/hashmap.c` and the sets of
`utils/hashset.c`: the updater as it runs, with collisions, entries listed in
the order of their slots, deleted entries in the map of the PEs, and tables that
may have to grow.

A call does not return (`none`) when an insertion does not. Between sessions the
tables are destroyed; what the record holds then is not read. Each table has
numbers of `rand()` of its own.

* `TableUpdater.start`, `stop`, `updatePE`, `updateLE`; `Call`, `step`, `run`.
* `TableUpdater.Refines`: the updater over the finite maps and sets behind the
  tables. Which finite map stands behind a table may be chosen anew, as long as
  its lookups are the same (`StateUpdater.Agrees`): `stop` lists the entries of
  the maps, and for it they are taken in the order of the slots.
* `Refines.stop`, `Refines.start`, `Refines.report`; `run_refines`.
* `TableUpdater.Fits`: fewer than `TABLE_STARTSIZE` names; then every call returns.
* `table_session`: a session over the tables.
-/

namespace KubeSafeScheduler.Pigeon

open Utils

variable {n : ℕ} {K : Type}

/-- `s_stateupdater` with its tables. -/
structure TableUpdater (n : ℕ) where
  cs : TableSystem n
  gen : ℤ
  started : Bool
  observedPEs : Hashset
  observedLEs : Hashset
  lemap : Hashmap LeRef
  newplacements : Hashmap String

namespace TableUpdater

/-! ### The operations -/

/-- `stateupdater_create`. -/
def create (cs : TableSystem n) (rand : Rand) : TableUpdater n where
  cs := cs
  gen := -1
  started := false
  observedPEs := Hashset.create rand
  observedLEs := Hashset.create rand
  lemap := Hashmap.create rand
  newplacements := Hashmap.create rand

/-- One round of the first loop of `stateupdater_stop`. -/
def dropPE (observed : Hashset) (cs : TableSystem n) (p : PeRef) : TableSystem n :=
  if observed.find (cs.mem.pe p).label then cs else cs.removePE (cs.mem.pe p).label

/-- One round of the second loop of `stateupdater_stop`. -/
def dropLE (observed : Hashset) (m : Memory n) (l : LeRef) : Memory n :=
  if observed.find (m.le l).label then m
  else
    match (m.le l).host with
    | none => m
    | some p => (Pe.removeLE m p l true).2

/-- One round of the third loop of `stateupdater_stop`. -/
def effectPlacement (t : TableUpdater n) (cs : TableSystem n) (leID : String) : TableSystem n :=
  match t.lemap.get leID with
  | none => cs
  | some l =>
      match (t.newplacements.get leID).bind cs.getPE with
      | none => cs
      | some p => { cs with mem := (Pe.placeLE cs.mem p l true).2 }

/-- `stateupdater_stop`. -/
def stop (t : TableUpdater n) : Option (TableUpdater n) :=
  if t.started then do
    let cs ← (t.cs.pes.foldl (dropPE t.observedPEs) t.cs).resetpes
    let cs := { cs with mem := t.lemap.getvalues.foldl (dropLE t.observedLEs) cs.mem }
    let cs := t.newplacements.getkeys.foldl t.effectPlacement cs
    pure { t with cs := cs, started := false }
  else some t

/-- The LEs hosted in the system, PE by PE. -/
def hostedLEs (cs : TableSystem n) : List LeRef :=
  cs.pes.flatMap fun p => (cs.mem.pe p).hostedLE

/-- The loops of `stateupdater_start` that fill the map of the LEs. -/
def fillLemap (cs : TableSystem n) (rand : Rand) : Option (Hashmap LeRef) :=
  (hostedLEs cs).foldlM (fun lemap l => lemap.insert l (cs.mem.le l).label) (Hashmap.create rand)

/-- `stateupdater_start`, with what it returns. -/
def start (t : TableUpdater n) (generation : ℤ) : Option (Bool × TableUpdater n) :=
  if generation ≤ t.gen then some (false, { t with started := false })
  else do
    let t ← (if t.started then t.stop else some t)
    let lemap ← fillLemap t.cs t.lemap.rand
    pure (true,
      { t with
        started := true
        gen := generation
        observedPEs := Hashset.create t.observedPEs.map.rand
        observedLEs := Hashset.create t.observedLEs.map.rand
        lemap := lemap
        newplacements := Hashmap.create t.newplacements.rand })

/-- `stateupdater_updatePE`. -/
def updatePE (t : TableUpdater n) (id : String) (capacity : Fin n → ℤ)
    (ovf : Option (Fin n → Bool)) (usage : Option (Fin n → ℤ)) : Option (TableUpdater n) :=
  if t.started then do
    let observedPEs ← t.observedPEs.add id
    match t.cs.getPE id with
    | some p =>
        let x := t.cs.mem.pe p
        pure { t with
          observedPEs := observedPEs
          cs := if x.resource.haschanged capacity usage then
              { t.cs with mem := t.cs.mem.setPe p (x.update (some capacity) usage) }
            else t.cs }
    | none =>
        let (mem, p) := t.cs.mem.newPe (Pe.observed id capacity ovf usage)
        let cs ← TableSystem.addPE { t.cs with mem := mem } (some p)
        pure { t with observedPEs := observedPEs, cs := cs }
  else some t

/-- `stateupdater_updateLE`. -/
def updateLE (t : TableUpdater n) (id hostID : String) (demand : Fin n → ℤ) :
    Option (TableUpdater n) :=
  if t.started then do
    let observedLEs ← t.observedLEs.add id
    let t := { t with observedLEs := observedLEs }
    match t.lemap.get id with
    | some l =>
        match (t.cs.mem.le l).host with
        | some p =>
            if (t.cs.mem.pe p).label = hostID then pure t
            else do
              let newplacements ← t.newplacements.insert hostID id
              pure { t with
                cs := { t.cs with mem := (Pe.removeLE t.cs.mem p l true).2 }
                newplacements := newplacements }
        | none => do
            let newplacements ← t.newplacements.insert hostID id
            pure { t with newplacements := newplacements }
    | none => do
        let (mem, l) := t.cs.mem.newLe (Le.create id demand)
        let lemap ← t.lemap.insert l id
        let newplacements ← t.newplacements.insert hostID id
        pure { t with
          cs := { t.cs with mem := mem }
          lemap := lemap
          newplacements := newplacements }
  else some t

/-- Pass on an observation. -/
def report (t : TableUpdater n) : Report n → Option (TableUpdater n)
  | .pe id capacity ovf usage => t.updatePE id capacity ovf usage
  | .le id hostID demand => t.updateLE id hostID demand

/-- A call on the updater. -/
inductive Call (n : ℕ) where
  | start (generation : ℤ)
  | report (r : Report n)
  | stop

/-- The updater after a call that returns. -/
def step (t : TableUpdater n) : Call n → Option (TableUpdater n)
  | .start generation => (t.start generation).map Prod.snd
  | .report r => t.report r
  | .stop => t.stop

/-- The updater after calls that return, from one made for an empty system. -/
def run (n : ℕ) (rand : Rand) (calls : List (Call n)) : Option (TableUpdater n) :=
  (TableSystem.create (Memory.empty n) rand).bind fun cs => calls.foldlM step (create cs rand)

end TableUpdater

/-! ### Other finite maps behind the tables -/

namespace StateUpdater

/-- Updaters that differ in the order of the entries of their maps at most. -/
structure Agrees (s s' : StateUpdater n K) : Prop where
  cs : s'.cs = s.cs
  gen : s'.gen = s.gen
  started : s'.started = s.started
  observedPEs : s'.observedPEs = s.observedPEs
  observedLEs : s'.observedLEs = s.observedLEs
  lemap : ∀ k, s'.lemap.get k = s.lemap.get k
  newplacements : ∀ k, s'.newplacements.get k = s.newplacements.get k

lemma Agrees.wf {s s' : StateUpdater n K} (h : s.Agrees s') (hs : s.WF) : s'.WF := by
  refine ⟨h.cs ▸ hs.cs, fun hst => ?_⟩
  obtain ⟨h1, h2, h3, h4⟩ := hs.session (h.started ▸ hst)
  exact ⟨by simpa only [h.cs, h.observedPEs] using h1, by simpa only [h.cs, h.lemap] using h2,
    by simpa only [h.cs, h.lemap] using h3,
    by simpa only [h.cs, h.lemap, h.newplacements, h.observedLEs] using h4⟩

lemma Agrees.tracks {s s' : StateUpdater n K} (h : s.Agrees s') {reports : List (Report n)}
    (hs : Tracks reports s) : Tracks reports s' := by
  have hintended : ∀ id, s'.intendedHost id = s.intendedHost id := fun id => by
    simp only [intendedHost, h.cs, h.lemap, h.newplacements]
  exact ⟨h.wf hs.wf, h.started.trans hs.started, by simpa only [h.observedPEs] using hs.observedPEs,
    by simpa only [h.observedLEs] using hs.observedLEs, by simpa only [h.cs] using hs.capacity,
    by simpa only [hintended] using hs.host⟩

end StateUpdater

namespace TableUpdater

/-! ### The finite maps behind the tables -/

/-- The maps and sets of an open session. -/
structure Tables (t : TableUpdater n) (s : StateUpdater n K) : Prop where
  observedPEs : t.observedPEs.Shows s.observedPEs
  observedLEs : t.observedLEs.Shows s.observedLEs
  lemap : t.lemap.Holds s.lemap
  lemap_tight : t.lemap.Tight
  newplacements : t.newplacements.Holds s.newplacements
  newplacements_tight : t.newplacements.Tight

/-- The updater over finite maps and sets that the tables hold. -/
structure Refines (t : TableUpdater n) (s : StateUpdater n K) : Prop where
  cs : t.cs.Refines s.cs
  gen : t.gen = s.gen
  started : t.started = s.started
  tables : t.started = true → t.Tables s

/-! ### Closing a session -/

/-- One round of the first loop of `stateupdater_stop`. -/
lemma refines_dropPE {observed : Hashset} {elems : Finset String} (hobs : observed.Shows elems)
    {cs : TableSystem n} {cs' : CloudSystem n K} (h : cs.Refines cs') (p : PeRef) :
    (dropPE observed cs p).Refines (StateUpdater.dropPE elems cs' p) := by
  rw [dropPE, StateUpdater.dropPE, h.mem]
  by_cases hmem : (cs'.mem.pe p).label ∈ elems
  · rw [if_pos ((hobs.find_iff _).mpr hmem), if_pos hmem]
    exact h
  · rw [if_neg fun hc => hmem ((hobs.find_iff _).mp hc), if_neg hmem]
    exact h.removePE _

lemma refines_foldl_dropPE {observed : Hashset} {elems : Finset String}
    (hobs : observed.Shows elems) (ps : List PeRef) {cs : TableSystem n} {cs' : CloudSystem n K}
    (h : cs.Refines cs') :
    (ps.foldl (dropPE observed) cs).Refines (ps.foldl (StateUpdater.dropPE elems) cs') := by
  induction ps generalizing cs cs' with
  | nil => exact h
  | cons p ps ih => exact ih (refines_dropPE hobs h p)

/-- The second loop of `stateupdater_stop` asks the set only. -/
lemma foldl_dropLE_eq {observed : Hashset} {elems : Finset String} (hobs : observed.Shows elems)
    (ls : List LeRef) (m : Memory n) :
    ls.foldl (dropLE observed) m = ls.foldl (StateUpdater.dropLE elems) m := by
  have hround : dropLE (n := n) observed = StateUpdater.dropLE elems := by
    funext m l
    rw [dropLE, StateUpdater.dropLE]
    by_cases hmem : (m.le l).label ∈ elems
    · rw [if_pos ((hobs.find_iff _).mpr hmem), if_pos hmem]
    · have hfind : ¬observed.find (m.le l).label = true := fun hc => hmem ((hobs.find_iff _).mp hc)
      exact (if_neg hfind).trans (if_neg hmem).symm
  rw [hround]

/-- One round of the third loop of `stateupdater_stop`. -/
lemma Tables.effectPlacement {t : TableUpdater n} {s : StateUpdater n K} (ht : t.Tables s)
    {cs : TableSystem n} {cs' : CloudSystem n K} (h : cs.Refines cs') (leID : String) :
    (t.effectPlacement cs leID).Refines (s.effectPlacement cs' leID) := by
  rw [TableUpdater.effectPlacement, StateUpdater.effectPlacement, ht.lemap.get_eq,
    ht.newplacements.get_eq]
  have hget : cs.getPE = cs'.getPE := funext h.getPE_eq
  rw [hget]
  cases s.lemap.get leID with
  | none => exact h
  | some l =>
      cases (s.newplacements.get leID).bind cs'.getPE with
      | none => exact h
      | some p => exact ⟨by simp [h.mem], h.pes, h.pemap, h.ismodified⟩

lemma Tables.foldl_effectPlacement {t : TableUpdater n} {s : StateUpdater n K} (ht : t.Tables s)
    (ids : List String) {cs : TableSystem n} {cs' : CloudSystem n K} (h : cs.Refines cs') :
    (ids.foldl t.effectPlacement cs).Refines (ids.foldl s.effectPlacement cs') := by
  induction ids generalizing cs cs' with
  | nil => exact h
  | cons id ids ih => exact ih (ht.effectPlacement h id)

/-- The maps of the session, with their entries in the order of the slots. -/
lemma Tables.exists_listed {t : TableUpdater n} {s : StateUpdater n K} (ht : t.Tables s) :
    ∃ s' : StateUpdater n K, s.Agrees s' ∧ t.Tables s'
      ∧ s'.lemap.getvalues = t.lemap.getvalues
      ∧ s'.newplacements.getkeys = t.newplacements.getkeys := by
  obtain ⟨lemap, h1, -, h2⟩ := ht.lemap.exists_listed
  obtain ⟨newplacements, h3, h4, -⟩ := ht.newplacements.exists_listed
  refine ⟨{ s with lemap := lemap, newplacements := newplacements },
    ⟨rfl, rfl, rfl, rfl, rfl, h1, h3⟩, ?_, h2, h4⟩
  exact ⟨ht.observedPEs, ht.observedLEs, ht.lemap.congr h1, ht.lemap_tight,
    ht.newplacements.congr h3, ht.newplacements_tight⟩

/-- `stateupdater_stop` lists its maps in the order of their slots. -/
lemma Refines.stop {t t' : TableUpdater n} {s : StateUpdater n K} (h : t.Refines s) (hs : s.WF)
    (hstop : t.stop = some t') :
    ∃ s', s.Agrees s' ∧ t'.Refines (s'.stop .stored) := by
  rw [TableUpdater.stop] at hstop
  split_ifs at hstop with hst
  · obtain ⟨s', hagrees, ht, hvalues, hkeys⟩ := (h.tables hst).exists_listed
    have hst' : s'.started = true := (hagrees.started.trans h.started.symm).trans hst
    rw [Option.bind_eq_bind, Option.bind_eq_some_iff] at hstop
    obtain ⟨cs, hreset, hstop⟩ := hstop
    obtain rfl := Option.some.inj hstop
    have hcs : t.cs.Refines s'.cs := hagrees.cs ▸ h.cs
    have hwf : s'.cs.WF := hagrees.cs ▸ hs.cs
    have hdrop := refines_foldl_dropPE ht.observedPEs t.cs.pes hcs
    obtain ⟨d1, -⟩ := StateUpdater.foldl_dropPE (fun _ => True) s'.observedPEs s'.cs.pes hwf
      hwf.pes_nodup fun p hp => hp
    have hremove : cs.Refines s'.removePEs.cs := by
      rw [StateUpdater.removePEs]
      rw [hcs.pes] at hdrop hreset
      exact hdrop.resetpes d1.wf.named.names_nodup hreset
    have hdelete : TableSystem.Refines
        { cs with mem := t.lemap.getvalues.foldl (dropLE t.observedLEs) cs.mem }
        (s'.removePEs.deleteLEs .stored).cs := by
      refine ⟨?_, hremove.pes, hremove.pemap, hremove.ismodified⟩
      rw [foldl_dropLE_eq ht.observedLEs, ← hvalues, hremove.mem]
      rfl
    refine ⟨s', hagrees, ?_⟩
    rw [StateUpdater.stop, if_pos hst']
    refine ⟨?_, h.gen.trans hagrees.gen.symm, rfl, fun hc => absurd hc (by simp)⟩
    have htB : t.Tables (s'.removePEs.deleteLEs .stored) :=
      ⟨ht.observedPEs, ht.observedLEs, ht.lemap, ht.lemap_tight, ht.newplacements,
        ht.newplacements_tight⟩
    rw [← hkeys]
    exact htB.foldl_effectPlacement _ hdelete
  · obtain rfl := Option.some.inj hstop
    have hst' : s.started = false := by rw [← h.started]; simpa using hst
    refine ⟨s, ⟨rfl, rfl, rfl, rfl, rfl, fun _ => rfl, fun _ => rfl⟩, ?_⟩
    rw [StateUpdater.stop_of_not_started hst']
    exact h

/-! ### Opening a session -/

/-- `stateupdater_start`, after the session that was still open, if any, has been
closed. -/
lemma start_of_newer {t : TableUpdater n} {generation : ℤ} (hgen : ¬ generation ≤ t.gen) :
    t.start generation = t.stop.bind fun t => (fillLemap t.cs t.lemap.rand).map fun lemap =>
      (true,
        { t with
          started := true
          gen := generation
          observedPEs := Hashset.create t.observedPEs.map.rand
          observedLEs := Hashset.create t.observedLEs.map.rand
          lemap := lemap
          newplacements := Hashmap.create t.newplacements.rand }) := by
  have hstop : (if t.started then t.stop else some t) = t.stop := by
    rw [TableUpdater.stop]
    split_ifs <;> rfl
  rw [start, if_neg hgen, hstop]
  cases t.stop with
  | none => rfl
  | some t' => cases hfill : fillLemap t'.cs t'.lemap.rand <;> simp [hfill]

lemma Refines.hostedLEs_eq {t : TableUpdater n} {s : StateUpdater n K} (h : t.Refines s) :
    hostedLEs t.cs = StateUpdater.hostedLEs s.cs := by
  rw [hostedLEs, StateUpdater.hostedLEs, h.cs.pes, h.cs.mem]

/-- `stateupdater_start`: the map of the LEs is filled from a new table. -/
lemma Refines.start {t t' : TableUpdater n} {s : StateUpdater n K} (h : t.Refines s) (hs : s.WF)
    {generation : ℤ} {b : Bool} (hstart : t.start generation = some (b, t')) :
    ∃ s', s.Agrees s' ∧ (s'.start .stored generation).1 = b
      ∧ t'.Refines (s'.start .stored generation).2 := by
  by_cases hgen : generation ≤ t.gen
  · rw [TableUpdater.start, if_pos hgen] at hstart
    obtain ⟨rfl, rfl⟩ := Prod.mk.inj (Option.some.inj hstart)
    refine ⟨s, ⟨rfl, rfl, rfl, rfl, rfl, fun _ => rfl, fun _ => rfl⟩, ?_⟩
    rw [StateUpdater.start, if_pos (h.gen ▸ hgen)]
    exact ⟨rfl, h.cs, h.gen, rfl, fun hc => absurd hc (by simp)⟩
  · rw [start_of_newer hgen, Option.bind_eq_some_iff] at hstart
    obtain ⟨t₁, hstop, hmap⟩ := hstart
    obtain ⟨lemap, hfold, heq⟩ := Option.map_eq_some_iff.mp hmap
    obtain ⟨rfl, rfl⟩ := Prod.mk.inj heq
    obtain ⟨s', hagrees, hr⟩ := h.stop hs hstop
    have hclose : (if s'.started then s'.stop .stored else s') = s'.stop .stored := by
      cases hst : s'.started with
      | false => exact (StateUpdater.stop_of_not_started hst .stored).symm
      | true => rfl
    have hgen' : ¬ generation ≤ s'.gen := by rwa [hagrees.gen, ← h.gen]
    have hnew : Hashmap.Tight (Hashmap.create t₁.lemap.rand : Hashmap LeRef) :=
      fun _ hi => absurd rfl hi
    obtain ⟨hlemap, htight⟩ := (Hashmap.holds_create t₁.lemap.rand).foldlM_insert
      (fun l => (t₁.cs.mem.le l).label) (fun l => l) (hostedLEs t₁.cs) hnew hfold
    rw [hr.hostedLEs_eq, hr.cs.mem] at hlemap
    refine ⟨s', hagrees, ?_⟩
    rw [StateUpdater.start, if_neg hgen', hclose]
    exact ⟨rfl, hr.cs, rfl, rfl, fun _ => ⟨Hashset.shows_create _, Hashset.shows_create _, hlemap,
      htight, Hashmap.holds_create _, fun _ hi => absurd rfl hi⟩⟩

/-! ### Reports -/

/-- `stateupdater_updatePE`. -/
lemma Refines.updatePE {t t' : TableUpdater n} {s : StateUpdater n K} (h : t.Refines s)
    {id : String} {capacity : Fin n → ℤ} {ovf : Option (Fin n → Bool)}
    {usage : Option (Fin n → ℤ)} (hup : t.updatePE id capacity ovf usage = some t') :
    t'.Refines (s.updatePE id capacity ovf usage) := by
  rw [TableUpdater.updatePE] at hup
  split_ifs at hup with hst
  · have ht := h.tables hst
    rw [Option.bind_eq_bind, Option.bind_eq_some_iff] at hup
    obtain ⟨observedPEs, hadd, hup⟩ := hup
    have hobs := ht.observedPEs.add hadd
    have htables : ∀ (s' : StateUpdater n K) (t' : TableUpdater n),
        t'.observedPEs = observedPEs → t'.observedLEs = t.observedLEs → t'.lemap = t.lemap →
        t'.newplacements = t.newplacements → s'.observedPEs = insert id s.observedPEs →
        s'.observedLEs = s.observedLEs → s'.lemap = s.lemap →
        s'.newplacements = s.newplacements → t'.Tables s' := by
      intro s' t' e1 e2 e3 e4 e5 e6 e7 e8
      exact ⟨e1 ▸ e5 ▸ hobs, e2 ▸ e6 ▸ ht.observedLEs, e3 ▸ e7 ▸ ht.lemap, e3 ▸ ht.lemap_tight,
        e4 ▸ e8 ▸ ht.newplacements, e4 ▸ ht.newplacements_tight⟩
    rw [StateUpdater.updatePE, if_pos (h.started.symm.trans hst)]
    rw [h.cs.getPE_eq] at hup
    cases hget : s.cs.getPE id with
    | some p =>
        rw [hget] at hup
        obtain rfl := Option.some.inj hup
        refine ⟨?_, h.gen, h.started, fun _ => htables _ _ rfl rfl rfl rfl rfl rfl rfl rfl⟩
        simp only [h.cs.mem]
        split_ifs
        · exact ⟨rfl, h.cs.pes, h.cs.pemap, h.cs.ismodified⟩
        · exact h.cs
    | none =>
        rw [hget] at hup
        simp only [Option.bind_eq_bind, Option.bind_eq_some_iff] at hup
        obtain ⟨cs, haddPE, hup⟩ := hup
        obtain rfl := Option.some.inj hup
        have hnew : TableSystem.Refines
            { t.cs with mem := (t.cs.mem.newPe (Pe.observed id capacity ovf usage)).1 }
            { s.cs with mem := (s.cs.mem.newPe (Pe.observed id capacity ovf usage)).1 } :=
          ⟨by rw [h.cs.mem], h.cs.pes, h.cs.pemap, h.cs.ismodified⟩
        refine ⟨?_, h.gen, h.started, fun _ => htables _ _ rfl rfl rfl rfl rfl rfl rfl rfl⟩
        have hcount : (t.cs.mem.newPe (Pe.observed id capacity ovf usage)).2
            = (s.cs.mem.newPe (Pe.observed id capacity ovf usage)).2 := by rw [h.cs.mem]
        rw [hcount] at haddPE
        exact hnew.addPE haddPE
  · obtain rfl := Option.some.inj hup
    rw [StateUpdater.updatePE_of_not_started (by rw [← h.started]; simpa using hst)]
    exact h

/-- `stateupdater_updateLE`. -/
lemma Refines.updateLE {t t' : TableUpdater n} {s : StateUpdater n K} (h : t.Refines s)
    {id hostID : String} {demand : Fin n → ℤ} (hup : t.updateLE id hostID demand = some t') :
    t'.Refines (s.updateLE id hostID demand) := by
  rw [TableUpdater.updateLE] at hup
  split_ifs at hup with hst
  · have ht := h.tables hst
    rw [Option.bind_eq_bind, Option.bind_eq_some_iff] at hup
    obtain ⟨observedLEs, hadd, hup⟩ := hup
    have hobs := ht.observedLEs.add hadd
    have hplaced : ∀ newplacements, t.newplacements.insert hostID id = some newplacements →
        newplacements.Holds (s.newplacements.insert id hostID) ∧ newplacements.Tight :=
      fun _ hins => ht.newplacements.insert_of_tight ht.newplacements_tight hins
    rw [StateUpdater.updateLE, if_pos (h.started.symm.trans hst)]
    simp only at hup ⊢
    rw [ht.lemap.get_eq] at hup
    cases hid : s.lemap.get id with
    | none =>
        rw [hid] at hup
        simp only [Option.bind_eq_bind, Option.bind_eq_some_iff] at hup
        obtain ⟨lemap, hinsL, newplacements, hinsN, hup⟩ := hup
        obtain rfl := Option.some.inj hup
        obtain ⟨hlemap, htight⟩ := ht.lemap.insert_of_tight ht.lemap_tight hinsL
        obtain ⟨hnew, hnew'⟩ := hplaced newplacements hinsN
        have hcount : (t.cs.mem.newLe (Le.create id demand)).2
            = (s.cs.mem.newLe (Le.create id demand)).2 := by rw [h.cs.mem]
        rw [hcount] at hlemap
        exact ⟨⟨by rw [h.cs.mem], h.cs.pes, h.cs.pemap, h.cs.ismodified⟩, h.gen, h.started,
          fun _ => ⟨ht.observedPEs, hobs, hlemap, htight, hnew, hnew'⟩⟩
    | some l =>
        rw [hid] at hup
        simp only [h.cs.mem] at hup ⊢
        cases hl : (s.cs.mem.le l).host with
        | none =>
            simp only [hl, Option.bind_eq_bind, Option.bind_eq_some_iff] at hup
            obtain ⟨newplacements, hinsN, hup⟩ := hup
            obtain rfl := Option.some.inj hup
            obtain ⟨hnew, hnew'⟩ := hplaced newplacements hinsN
            exact ⟨h.cs, h.gen, h.started,
              fun _ => ⟨ht.observedPEs, hobs, ht.lemap, ht.lemap_tight, hnew, hnew'⟩⟩
        | some p =>
            simp only [hl] at hup
            split_ifs at hup with hlabel
            · obtain rfl := Option.some.inj hup
              simp only [if_pos hlabel]
              exact ⟨h.cs, h.gen, h.started, fun _ => ⟨ht.observedPEs, hobs, ht.lemap,
                ht.lemap_tight, ht.newplacements, ht.newplacements_tight⟩⟩
            · rw [Option.bind_eq_bind, Option.bind_eq_some_iff] at hup
              obtain ⟨newplacements, hinsN, hup⟩ := hup
              obtain rfl := Option.some.inj hup
              obtain ⟨hnew, hnew'⟩ := hplaced newplacements hinsN
              simp only [if_neg hlabel]
              exact ⟨⟨rfl, h.cs.pes, h.cs.pemap, h.cs.ismodified⟩, h.gen, h.started,
                fun _ => ⟨ht.observedPEs, hobs, ht.lemap, ht.lemap_tight, hnew, hnew'⟩⟩
  · obtain rfl := Option.some.inj hup
    rw [StateUpdater.updateLE_of_not_started (by rw [← h.started]; simpa using hst)]
    exact h

lemma Refines.report {t t' : TableUpdater n} {s : StateUpdater n K} (h : t.Refines s)
    {r : Report n} (hup : t.report r = some t') : t'.Refines (s.report r) := by
  cases r with
  | pe id capacity ovf usage => exact h.updatePE hup
  | le id hostID demand => exact h.updateLE hup

/-! ### Runs -/

/-- A call that returns keeps the refinement. -/
lemma Refines.step {t t' : TableUpdater n} {s : StateUpdater n K} (h : t.Refines s) (hs : s.WF)
    {call : Call n} (hstep : t.step call = some t') :
    ∃ s' : StateUpdater n K, t'.Refines s' ∧ s'.WF := by
  cases call with
  | start generation =>
      obtain ⟨⟨b, t₁⟩, hstart, rfl⟩ := Option.map_eq_some_iff.mp hstep
      obtain ⟨s', hagrees, -, hr⟩ := h.start hs hstart
      exact ⟨_, hr, (hagrees.wf hs).start .stored generation⟩
  | report r => exact ⟨_, h.report hstep, hs.report r⟩
  | stop =>
      obtain ⟨s', hagrees, hr⟩ := h.stop hs hstep
      exact ⟨_, hr, (hagrees.wf hs).stop .stored⟩

/-- Calls that return. -/
lemma Refines.steps {t t' : TableUpdater n} {s : StateUpdater n K} (h : t.Refines s) (hs : s.WF)
    {calls : List (Call n)} (hrun : calls.foldlM TableUpdater.step t = some t') :
    ∃ s' : StateUpdater n K, t'.Refines s' ∧ s'.WF := by
  induction calls generalizing t s with
  | nil =>
      obtain rfl := Option.some.inj hrun
      exact ⟨s, h, hs⟩
  | cons call calls ih =>
      rw [List.foldlM_cons, Option.bind_eq_bind, Option.bind_eq_some_iff] at hrun
      obtain ⟨t₁, hstep, hrest⟩ := hrun
      obtain ⟨s₁, h₁, hs₁⟩ := h.step hs hstep
      exact ih h₁ hs₁ hrest

/-- The updater made for an empty system. -/
lemma refines_create {cs : TableSystem n} {rand : Rand}
    (hcs : TableSystem.create (Memory.empty n) rand = some cs) :
    (create cs rand).Refines (StateUpdater.create (CloudSystem.create n K)) := by
  have hempty : TableSystem.Refines
      { mem := Memory.empty n, pes := [], pemap := Hashmap.create rand, ismodified := true }
      ({ mem := Memory.empty n, pes := [], pemap := ∅, ds := none, ismodified := true } :
        CloudSystem n K) :=
    ⟨rfl, rfl, Hashmap.holds_create rand, rfl⟩
  exact ⟨hempty.resetpes List.nodup_nil hcs, rfl, rfl, fun hc => absurd hc (by simp [create])⟩

/-- A run that returns is a run over finite maps. -/
lemma run_refines (K : Type) {rand : Rand} {calls : List (Call n)} {t : TableUpdater n}
    (hrun : run n rand calls = some t) : ∃ s : StateUpdater n K, t.Refines s ∧ s.WF := by
  rw [run, Option.bind_eq_some_iff] at hrun
  obtain ⟨cs, hcs, hcalls⟩ := hrun
  exact (refines_create hcs).steps (StateUpdater.wf_create (CloudSystem.wf_create n K)) hcalls

/-! ### Room for the names -/

/-- The name that a report is about. -/
def reportedName : Report n → String
  | .pe id _ _ _ => id
  | .le id _ _ => id

/-- The names that calls report. -/
def reportedNames (calls : List (Call n)) : Finset String :=
  (calls.filterMap fun call =>
    match call with
    | .report r => some (reportedName r)
    | _ => none).toFinset

/-- The tables have their first size, and all names are among `names`. -/
structure Fits (names : Finset String) (t : TableUpdater n) : Prop where
  size : t.cs.pemap.size = 1021
  pes : ∀ p ∈ t.cs.pes, (t.cs.mem.pe p).label ∈ names
  hosted : ∀ l, (t.cs.mem.le l).host ≠ none → (t.cs.mem.le l).label ∈ names
  observedPEs : t.started = true → t.observedPEs.map.Roomy names
  observedLEs : t.started = true → t.observedLEs.map.Roomy names
  lemap : t.started = true → t.lemap.Roomy names
  newplacements : t.started = true → t.newplacements.Roomy names

variable {names : Finset String}

/-- The keys of the table of the PEs are their names. -/
lemma Fits.roomy_pemap {t : TableUpdater n} {s : StateUpdater n K} (h : t.Fits names)
    (ht : t.Refines s) (hs : s.WF) : t.cs.pemap.Roomy names := by
  refine ⟨h.size, fun k p hk => ?_⟩
  obtain ⟨hp, hlabel⟩ := hs.cs.getPE_eq_some.mp ((ht.cs.getPE_eq k).symm.trans hk)
  rw [← ht.cs.pes] at hp
  rw [← ht.cs.mem] at hlabel
  exact hlabel ▸ h.pes p hp

end TableUpdater

/-- One round of the loop of `cloudsystem_resetpes` after another returns. -/
lemma TableSystem.Refines.exists_foldlM_resetAt {names : Finset String} (hcard : names.card < 1021)
    (ps : List (PeRef × ℕ)) {s : TableSystem n} {cs : CloudSystem n K} (h : s.Refines cs)
    (hnd : (ps.map fun pi => (cs.mem.pe pi.1).label).Nodup)
    (habs : ∀ pi ∈ ps, cs.pemap.get (cs.mem.pe pi.1).label = none)
    (hnames : ∀ pi ∈ ps, (cs.mem.pe pi.1).label ∈ names)
    (hroom : s.pemap.Roomy names) :
    ∃ s', ps.foldlM TableSystem.resetAt s = some s' ∧ s'.pemap.size = 1021 := by
  induction ps generalizing s cs with
  | nil => exact ⟨s, rfl, hroom.size⟩
  | cons pi ps ih =>
      obtain ⟨pemap, hins, hroom₁⟩ :=
        h.pemap.insert_of_roomy hroom hcard pi.1 (hnames pi List.mem_cons_self)
          (h.pemap.unobstructed_of_absent (habs pi List.mem_cons_self))
      have hstep : s.resetAt pi = some { s with
          pemap := pemap
          mem := s.mem.setPe pi.1 { s.mem.pe pi.1 with indexinsystem := pi.2 } } := by
        rw [TableSystem.resetAt, h.mem, hins]
        rfl
      have hlabel : ∀ q, ((cs.resetAt pi).mem.pe q).label = (cs.mem.pe q).label := by
        rw [CloudSystem.resetAt_mem]
        exact cs.mem.setPe_congr Pe.label (by rfl)
      obtain ⟨hnot, hnd'⟩ := List.nodup_cons.mp hnd
      rw [List.foldlM_cons, hstep]
      refine ih (h.resetAt (habs pi List.mem_cons_self) hstep) (by simpa only [hlabel] using hnd')
        (fun qi hqi => ?_) (fun qi hqi => hlabel qi.1 ▸ hnames qi (List.mem_cons_of_mem _ hqi))
        hroom₁
      rw [hlabel]
      refine (StringMap.get_insert_of_ne _ _ fun heq => hnot ?_).trans
        (habs qi (List.mem_cons_of_mem _ hqi))
      exact List.mem_map.mpr ⟨qi, hqi, heq⟩

/-- `cloudsystem_resetpes` returns when the PEs have few names. -/
lemma TableSystem.Refines.exists_resetpes {names : Finset String} (hcard : names.card < 1021)
    {s : TableSystem n} {cs : CloudSystem n K} (h : s.Refines cs)
    (hnd : (cs.pes.map fun p => (cs.mem.pe p).label).Nodup)
    (hnames : ∀ p ∈ cs.pes, (cs.mem.pe p).label ∈ names) (hsize : s.pemap.size = 1021) :
    ∃ s', s.resetpes = some s' ∧ s'.pemap.size = 1021 := by
  rw [TableSystem.resetpes]
  split_ifs with hmod
  · have hstart : Refines { s with ismodified := false, pemap := Hashmap.create s.pemap.rand }
        ({ cs with ismodified := false, pemap := ∅ } : CloudSystem n K) :=
      ⟨h.mem, h.pes, Hashmap.holds_create _, rfl⟩
    have hnd' : (cs.pes.zipIdx.map fun pi => (cs.mem.pe pi.1).label).Nodup := by
      rw [show (fun pi : PeRef × ℕ => (cs.mem.pe pi.1).label)
        = (fun p => (cs.mem.pe p).label) ∘ Prod.fst from rfl, ← List.map_map]
      simpa using hnd
    obtain ⟨s', hs', hsize'⟩ := hstart.exists_foldlM_resetAt hcard cs.pes.zipIdx hnd'
      (fun _ _ => StringMap.get_empty _)
      (fun pi hpi => hnames pi.1 (List.fst_mem_of_mem_zipIdx hpi)) (Hashmap.roomy_create names _)
    rw [← h.pes] at hs'
    exact ⟨s', hs', hsize'⟩
  · exact ⟨s, rfl, hsize⟩

/-- A PE whose name is absent is added at the end. -/
lemma TableSystem.addPE_new {s : TableSystem n} {x : Pe n} {pemap : Hashmap PeRef}
    (habs : s.getPE x.label = none)
    (hins : s.pemap.insert s.mem.peCount x.label = some pemap) :
    TableSystem.addPE { s with mem := (s.mem.newPe x).1 } (some s.mem.peCount) = some
      { mem := (s.mem.newPe x).1
        pes := s.pes ++ [s.mem.peCount]
        pemap := pemap
        ismodified := true } := by
  have hlabel : ((s.mem.newPe x).1.pe s.mem.peCount).label = x.label := by simp [Memory.newPe]
  have habs' : TableSystem.getPE { s with mem := (s.mem.newPe x).1 } x.label = none := habs
  rw [TableSystem.addPE]
  simp only [hlabel, habs', hins, Option.isSome_none]
  rfl

namespace TableUpdater

variable {names : Finset String}

/-- Removals do not change the size of the table. -/
lemma size_foldl_dropPE (observed : Hashset) (ps : List PeRef) (cs : TableSystem n) :
    (ps.foldl (dropPE observed) cs).pemap.size = cs.pemap.size := by
  induction ps generalizing cs with
  | nil => rfl
  | cons p ps ih =>
      rw [List.foldl_cons, ih, dropPE]
      split_ifs
      · rfl
      · rw [TableSystem.removePE]
        split
        · rfl
        · exact Hashmap.size_removeLoop _ _

/-- Placements do not change the table. -/
lemma pemap_foldl_effectPlacement (t : TableUpdater n) (ids : List String) (cs : TableSystem n) :
    (ids.foldl t.effectPlacement cs).pemap = cs.pemap := by
  induction ids generalizing cs with
  | nil => rfl
  | cons id ids ih =>
      rw [List.foldl_cons, ih, effectPlacement]
      split
      · rfl
      · split <;> rfl

/-- `stateupdater_stop` returns when the names are few. -/
lemma Refines.exists_stop {t : TableUpdater n} {s : StateUpdater n K} (h : t.Refines s)
    (hs : s.WF) (hfits : t.Fits names) (hcard : names.card < 1021) :
    ∃ t', t.stop = some t' ∧ t'.Fits names := by
  cases hst : t.started with
  | false => exact ⟨t, by rw [TableUpdater.stop, hst]; rfl, hfits⟩
  | true =>
      have hdrop := refines_foldl_dropPE (h.tables hst).observedPEs s.cs.pes h.cs
      obtain ⟨d1, d2, -⟩ := StateUpdater.foldl_dropPE (fun _ => True) s.observedPEs s.cs.pes hs.cs
        hs.cs.pes_nodup fun p hp => hp
      obtain ⟨cs, hreset, hsize⟩ := hdrop.exists_resetpes hcard d1.wf.named.names_nodup
        (fun p hp => by
          rw [d1.kept.label, ← h.cs.mem]
          rw [d2, ← h.cs.pes] at hp
          exact hfits.pes p (List.mem_of_mem_filter hp))
        ((size_foldl_dropPE _ _ _).trans hfits.size)
      have hstop : t.stop = some { t with
          cs := t.newplacements.getkeys.foldl t.effectPlacement
            { cs with mem := t.lemap.getvalues.foldl (dropLE t.observedLEs) cs.mem }
          started := false } := by
        rw [TableUpdater.stop, if_pos hst, h.cs.pes, hreset]
        rfl
      obtain ⟨s', hagrees, hr⟩ := h.stop hs hstop
      have hst' : s'.started = true := (hagrees.started.trans h.started.symm).trans hst
      have hc := StateUpdater.stop_spec (hagrees.wf hs) hst' .stored
      have hmem : s'.cs.mem = t.cs.mem := by rw [hagrees.cs, h.cs.mem]
      refine ⟨_, hstop, ?_, fun p hp => ?_, fun l hl => ?_, ?_, ?_, ?_, ?_⟩
      · rw [pemap_foldl_effectPlacement]
        exact hsize
      · rw [hr.cs.mem, hc.kept.label, hmem]
        rw [hr.cs.pes, hc.pes, hagrees.cs, ← h.cs.pes] at hp
        exact hfits.pes p (List.mem_of_mem_filter hp)
      · -- an LE that is hosted in the end is in the map of the LEs
        rw [hr.cs.mem, hc.host] at hl
        rw [hr.cs.mem, hc.kept.leLabel]
        refine (hfits.lemap hst).keys _ l (not_not.mp fun hmap => hl ?_)
        rw [StateUpdater.hostAfter, if_neg]
        rwa [hagrees.lemap, ← (h.tables hst).lemap.get_eq]
      all_goals exact fun hf => absurd hf (by simp)

/-- `stateupdater_start` returns when the names are few. -/
lemma Refines.exists_start {t : TableUpdater n} {s : StateUpdater n K} (h : t.Refines s)
    (hs : s.WF) (hfits : t.Fits names) (hcard : names.card < 1021) (generation : ℤ) :
    ∃ b t', t.start generation = some (b, t') ∧ t'.Fits names := by
  by_cases hgen : generation ≤ t.gen
  · refine ⟨false, { t with started := false }, by rw [TableUpdater.start, if_pos hgen],
      hfits.size, hfits.pes, hfits.hosted, ?_, ?_, ?_, ?_⟩
    all_goals exact fun hf => absurd hf (by simp)
  · obtain ⟨t₁, hstop, hfits₁⟩ := h.exists_stop hs hfits hcard
    obtain ⟨s', hagrees, hr⟩ := h.stop hs hstop
    have hwf := ((hagrees.wf hs).stop .stored).cs
    have hnew : Hashmap.Tight (Hashmap.create t₁.lemap.rand : Hashmap LeRef) :=
      fun _ hi => absurd rfl hi
    obtain ⟨lemap, hfill, hroom⟩ := (Hashmap.holds_create t₁.lemap.rand).foldlM_insert_of_roomy
      (fun l => (t₁.cs.mem.le l).label) (fun l => l) (hostedLEs t₁.cs) hnew
      (Hashmap.roomy_create names _) hcard fun l hl => hfits₁.hosted l (by
        rw [hr.hostedLEs_eq, StateUpdater.mem_hostedLEs hwf, ← hr.cs.mem] at hl
        exact hl)
    rw [start_of_newer hgen, hstop, Option.bind_some, fillLemap, hfill]
    exact ⟨true, _, rfl, hfits₁.size, hfits₁.pes, hfits₁.hosted,
      fun _ => Hashmap.roomy_create names _, fun _ => Hashmap.roomy_create names _,
      fun _ => hroom, fun _ => Hashmap.roomy_create names _⟩

/-- `stateupdater_updatePE` of one of few names returns. -/
lemma Refines.exists_updatePE {t : TableUpdater n} {s : StateUpdater n K} (h : t.Refines s)
    (hs : s.WF) (hfits : t.Fits names) (hcard : names.card < 1021) {id : String} (hid : id ∈ names)
    (capacity : Fin n → ℤ) (ovf : Option (Fin n → Bool)) (usage : Option (Fin n → ℤ)) :
    ∃ t', t.updatePE id capacity ovf usage = some t' ∧ t'.Fits names := by
  cases hst : t.started with
  | false => exact ⟨t, by rw [TableUpdater.updatePE, hst]; rfl, hfits⟩
  | true =>
      obtain ⟨observedPEs, hadd, hobs⟩ :=
        (h.tables hst).observedPEs.add_of_roomy (hfits.observedPEs hst) hcard hid
      -- the call returns, and the table of the PEs keeps its size
      have hreturns : ∃ t', t.updatePE id capacity ovf usage = some t'
          ∧ t'.cs.pemap.size = 1021 ∧ t'.observedPEs = observedPEs
          ∧ t'.observedLEs = t.observedLEs ∧ t'.lemap = t.lemap
          ∧ t'.newplacements = t.newplacements := by
        rw [TableUpdater.updatePE, if_pos hst, hadd, Option.bind_eq_bind, Option.bind_some]
        cases hget : t.cs.getPE id with
        | some p =>
            refine ⟨_, rfl, ?_, rfl, rfl, rfl, rfl⟩
            dsimp only
            split_ifs <;> exact hfits.size
        | none =>
            have habs : s.cs.pemap.get id = none := (h.cs.getPE_eq id).symm.trans hget
            obtain ⟨pemap, hins, hroom⟩ := h.cs.pemap.insert_of_roomy (hfits.roomy_pemap h hs)
              hcard t.cs.mem.peCount hid (h.cs.pemap.unobstructed_of_absent habs)
            show ∃ t', (TableSystem.addPE
                { t.cs with mem := (t.cs.mem.newPe (Pe.observed id capacity ovf usage)).1 }
                (some t.cs.mem.peCount) >>= fun cs =>
                  pure { t with observedPEs := observedPEs, cs := cs }) = some t' ∧ _
            rw [TableSystem.addPE_new hget hins]
            exact ⟨_, rfl, hroom.size, rfl, rfl, rfl, rfl⟩
      obtain ⟨t', hup, hsize, e1, e2, e3, e4⟩ := hreturns
      have hr := h.updatePE hup
      have hspec := StateUpdater.updatePE_spec hs.cs (h.started.symm.trans hst) id capacity ovf usage
      refine ⟨t', hup, hsize, fun p hp => ?_, fun l hl => ?_, fun _ => e1 ▸ hobs,
        fun _ => e2 ▸ hfits.observedLEs hst, fun _ => e3 ▸ hfits.lemap hst,
        fun _ => e4 ▸ hfits.newplacements hst⟩
      · rw [hr.cs.mem]
        rw [hr.cs.pes] at hp
        by_cases hold : p ∈ s.cs.pes
        · rw [hspec.label p hold, ← h.cs.mem]
          exact hfits.pes p (h.cs.pes ▸ hold)
        · rw [hspec.added p hp hold]
          exact hid
      · rw [hr.cs.mem, hspec.le, ← h.cs.mem] at hl ⊢
        exact hfits.hosted l hl

/-- `stateupdater_updateLE` of one of few names returns. -/
lemma Refines.exists_updateLE {t : TableUpdater n} {s : StateUpdater n K} (h : t.Refines s)
    (hs : s.WF) (hfits : t.Fits names) (hcard : names.card < 1021) {id : String} (hid : id ∈ names)
    (hostID : String) (demand : Fin n → ℤ) :
    ∃ t', t.updateLE id hostID demand = some t' ∧ t'.Fits names := by
  cases hst : t.started with
  | false => exact ⟨t, by rw [TableUpdater.updateLE, hst]; rfl, hfits⟩
  | true =>
      have ht := h.tables hst
      obtain ⟨observedLEs, hadd, hobs⟩ :=
        ht.observedLEs.add_of_roomy (hfits.observedLEs hst) hcard hid
      obtain ⟨newplacements, hinsN, hroomN⟩ := ht.newplacements.insert_of_roomy
        (hfits.newplacements hst) hcard hostID hid
        (ht.newplacements.unobstructed_of_tight ht.newplacements_tight _)
      obtain ⟨lemap, hinsL, hroomL⟩ := ht.lemap.insert_of_roomy (hfits.lemap hst) hcard
        t.cs.mem.leCount hid (ht.lemap.unobstructed_of_tight ht.lemap_tight _)
      have hreturns : ∃ t', t.updateLE id hostID demand = some t'
          ∧ t'.cs.pemap = t.cs.pemap ∧ t'.observedPEs = t.observedPEs
          ∧ t'.observedLEs = observedLEs ∧ t'.lemap.Roomy names
          ∧ t'.newplacements.Roomy names := by
        rw [TableUpdater.updateLE, if_pos hst, hadd, Option.bind_eq_bind, Option.bind_some]
        dsimp only
        split
        · split
          · split_ifs
            · exact ⟨_, rfl, rfl, rfl, rfl, hfits.lemap hst, hfits.newplacements hst⟩
            · rw [hinsN]
              exact ⟨_, rfl, rfl, rfl, rfl, hfits.lemap hst, hroomN⟩
          · rw [hinsN]
            exact ⟨_, rfl, rfl, rfl, rfl, hfits.lemap hst, hroomN⟩
        · rw [show (t.cs.mem.newLe (Le.create id demand)).2 = t.cs.mem.leCount from rfl, hinsL,
            hinsN]
          exact ⟨_, rfl, rfl, rfl, rfl, hroomL, hroomN⟩
      obtain ⟨t', hup, e1, e2, e3, hroomL', hroomN'⟩ := hreturns
      have hr := h.updateLE hup
      have hspec := StateUpdater.updateLE_spec hs (h.started.symm.trans hst) id hostID demand
      have hst' : (s.updateLE id hostID demand).started = true :=
        hspec.started.trans (h.started.symm.trans hst)
      refine ⟨t', hup, e1 ▸ hfits.size, fun p hp => ?_, fun l hl => ?_,
        fun _ => e2 ▸ hfits.observedPEs hst, fun _ => e3 ▸ hobs, fun _ => hroomL', fun _ => hroomN'⟩
      · rw [hr.cs.mem, hspec.label, ← h.cs.mem]
        rw [hr.cs.pes, hspec.pes, ← h.cs.pes] at hp
        exact hfits.pes p hp
      · -- the map of the LEs has every LE that is hosted
        rw [hr.cs.mem] at hl ⊢
        refine hroomL'.keys _ l ?_
        rw [(hr.tables (hr.started.trans hst')).lemap.get_eq]
        exact (hspec.wf.session hst').hosted l hl

/-- A call about few names returns. -/
lemma Refines.exists_step {t : TableUpdater n} {s : StateUpdater n K} (h : t.Refines s)
    (hs : s.WF) (hfits : t.Fits names) (hcard : names.card < 1021) {call : Call n}
    (hcall : reportedNames [call] ⊆ names) : ∃ t', t.step call = some t' ∧ t'.Fits names := by
  cases call with
  | start generation =>
      obtain ⟨b, t', hstart, hfits'⟩ := h.exists_start hs hfits hcard generation
      exact ⟨t', by rw [TableUpdater.step, hstart]; rfl, hfits'⟩
  | report r =>
      have hid : reportedName r ∈ names := hcall (by simp [reportedNames])
      cases r with
      | pe id capacity ovf usage => exact h.exists_updatePE hs hfits hcard hid capacity ovf usage
      | le id hostID demand => exact h.exists_updateLE hs hfits hcard hid hostID demand
  | stop => exact h.exists_stop hs hfits hcard

lemma reportedNames_cons (call : Call n) (calls : List (Call n)) :
    reportedNames (call :: calls) = reportedNames [call] ∪ reportedNames calls := by
  rw [reportedNames, reportedNames, reportedNames, ← List.toFinset_append,
    ← List.filterMap_append, List.singleton_append]

/-- Calls about few names return. -/
lemma Refines.exists_steps {t : TableUpdater n} {s : StateUpdater n K} (h : t.Refines s)
    (hs : s.WF) (hfits : t.Fits names) (hcard : names.card < 1021) {calls : List (Call n)}
    (hcalls : reportedNames calls ⊆ names) : ∃ t', calls.foldlM TableUpdater.step t = some t' := by
  induction calls generalizing t s with
  | nil => exact ⟨t, rfl⟩
  | cons call calls ih =>
      rw [reportedNames_cons] at hcalls
      obtain ⟨t₁, hstep, hfits₁⟩ :=
        h.exists_step hs hfits hcard (Finset.union_subset_left hcalls)
      obtain ⟨s₁, h₁, hs₁⟩ := h.step hs hstep
      rw [List.foldlM_cons, hstep]
      exact ih h₁ hs₁ hfits₁ (Finset.union_subset_right hcalls)

/-- A run in which few names are reported returns. -/
lemma exists_run {rand : Rand} {calls : List (Call n)} (hcard : (reportedNames calls).card < 1021) :
    ∃ t, run n rand calls = some t := by
  obtain ⟨cs, hcs, hsize⟩ : ∃ cs, TableSystem.create (Memory.empty n) rand = some cs
      ∧ cs.pemap.size = 1021 := ⟨_, rfl, rfl⟩
  have hr : (create cs rand).Refines (StateUpdater.create (CloudSystem.create n Unit)) :=
    refines_create hcs
  have hwf := CloudSystem.wf_create n Unit
  have hfits : (create cs rand).Fits (reportedNames calls) := by
    refine ⟨hsize, fun p hp => ?_, fun l hl => ?_, ?_, ?_, ?_, ?_⟩
    · rw [hr.cs.pes] at hp
      exact absurd hp (by simp [StateUpdater.create, CloudSystem.create, CloudSystem.resetpes])
    · rw [hr.cs.mem] at hl
      exact absurd rfl hl
    all_goals exact fun hf => absurd hf (by simp [create])
  obtain ⟨t, ht⟩ := hr.exists_steps (StateUpdater.wf_create hwf) hfits hcard subset_rfl
  exact ⟨t, by rw [run, hcs]; exact ht⟩

/-- A run is a run of its first calls and then the others. -/
lemma run_append {rand : Rand} {calls calls' : List (Call n)} {t' : TableUpdater n}
    (hrun : run n rand (calls ++ calls') = some t') :
    ∃ t, run n rand calls = some t ∧ calls'.foldlM step t = some t' := by
  rw [run, Option.bind_eq_some_iff] at hrun
  obtain ⟨cs, hcs, hcalls⟩ := hrun
  rw [List.foldlM_append, Option.bind_eq_bind, Option.bind_eq_some_iff] at hcalls
  obtain ⟨t, ht, ht'⟩ := hcalls
  exact ⟨t, by rw [run, hcs]; exact ht, ht'⟩

/-! ### A session -/

/-- The calls of a session. -/
def sessionCalls (generation : ℤ) (reports : List (Report n)) : List (Call n) :=
  .start generation :: reports.map .report ++ [.stop]

/-- Reports in an open session. -/
lemma Refines.reports {t t' : TableUpdater n} {s : StateUpdater n K} (h : t.Refines s)
    {reports : List (Report n)} (hrun : (reports.map Call.report).foldlM TableUpdater.step t
      = some t') : t'.Refines (reports.foldl StateUpdater.report s) := by
  induction reports generalizing t s with
  | nil =>
      obtain rfl := Option.some.inj hrun
      exact h
  | cons r reports ih =>
      rw [List.map_cons, List.foldlM_cons, Option.bind_eq_bind, Option.bind_eq_some_iff] at hrun
      obtain ⟨t₁, hstep, hrest⟩ := hrun
      exact ih (h.report hstep) hrest

/-- A session with a newer generation leaves the tables with the observed state. -/
lemma Refines.mirrors_session {t t' : TableUpdater n} {s : StateUpdater n K} (h : t.Refines s)
    (hs : s.WF) {generation : ℤ} (hgen : t.gen < generation) {reports : List (Report n)}
    (hcap : ∀ r ∈ reports, r.Nonneg)
    (hrun : (sessionCalls generation reports).foldlM TableUpdater.step t = some t') :
    ∃ cs : CloudSystem n K, t'.cs.Refines cs ∧ cs.WF ∧ cs.Mirrors reports := by
  rw [sessionCalls, List.cons_append, List.foldlM_cons, Option.bind_eq_bind,
    Option.bind_eq_some_iff] at hrun
  obtain ⟨t₁, hstart, hrest⟩ := hrun
  rw [List.foldlM_append, Option.bind_eq_bind, Option.bind_eq_some_iff] at hrest
  obtain ⟨t₂, hreports, hstop⟩ := hrest
  rw [List.foldlM_cons, Option.bind_eq_bind, Option.bind_eq_some_iff] at hstop
  obtain ⟨t₃, hstop, hend⟩ := hstop
  obtain rfl := Option.some.inj hend
  -- the call of `start` opens a session that has no reports yet
  obtain ⟨⟨b, t₁'⟩, hopen, rfl⟩ := Option.map_eq_some_iff.mp hstart
  obtain ⟨s', hagrees, -, hr₁⟩ := h.start hs hopen
  have hgen' : s'.gen < generation := by rwa [hagrees.gen, ← h.gen]
  have htracks := StateUpdater.tracks_reports
    (StateUpdater.follows_start (hagrees.wf hs) .stored hgen') reports hcap
  -- it tracks the reports, and `stop` makes the system mirror them
  obtain ⟨s₂, hagrees₂, hr₃⟩ := (hr₁.reports hreports).stop htracks.wf hstop
  have htracks₂ := hagrees₂.tracks htracks
  exact ⟨_, hr₃.cs, (htracks₂.wf.stop .stored).cs, htracks₂.mirrors_stop .stored⟩

end TableUpdater

/-- A session over the hash tables: after any run, a session with a newer
generation that returns leaves the system with the observed state, and the table
of the PEs with their names; a run in which fewer than `TABLE_STARTSIZE` names
are reported returns. -/
theorem table_session (rand : Rand) (calls : List (TableUpdater.Call n)) (generation : ℤ)
    (reports : List (Report n)) (hcap : ∀ r ∈ reports, r.Nonneg) :
    (∀ t t', TableUpdater.run n rand calls = some t → t.gen < generation →
      (TableUpdater.sessionCalls generation reports).foldlM TableUpdater.step t = some t' →
      (∃ cs : CloudSystem n Unit, t'.cs.Refines cs ∧ cs.WF ∧ cs.Mirrors reports)
        ∧ ∀ id, (∃ p, t'.cs.getPE id = some p) ↔ lastCapacity reports id ≠ none)
      ∧ ((TableUpdater.reportedNames
            (calls ++ TableUpdater.sessionCalls generation reports)).card < 1021 →
          ∃ t, TableUpdater.run n rand (calls ++ TableUpdater.sessionCalls generation reports)
            = some t) := by
  refine ⟨fun t t' hrun hgen hsession => ?_, TableUpdater.exists_run⟩
  obtain ⟨s, hr, hs⟩ := TableUpdater.run_refines Unit hrun
  obtain ⟨cs, hcs, hwf, hmirrors⟩ := hr.mirrors_session hs hgen hcap hsession
  refine ⟨⟨cs, hcs, hwf, hmirrors⟩, fun id => ?_⟩
  rw [lastCapacity_ne_none, ← hmirrors.reported]
  refine exists_congr fun p => ?_
  rw [hcs.getPE_eq, hwf.getPE_eq_some]

/-- Two sessions over nodes whose names have the same path in the table: the
first node goes, and the pod moves to the other. -/
theorem table_session_sharedPath :
    ∃ t t', TableUpdater.run 1 (fun _ => 0) (TableUpdater.sessionCalls 1
        [.pe "ad" (fun _ => 4) none none, .le "pod" "ad" (fun _ => 2)]) = some t
      ∧ (TableUpdater.sessionCalls 2
          [.le "pod" "ea" (fun _ => 2), .pe "ea" (fun _ => 8) none none]).foldlM
            TableUpdater.step t = some t'
      ∧ (∃ cs : CloudSystem 1 Unit, t'.cs.Refines cs ∧ cs.WF ∧ cs.Mirrors
          [.le "pod" "ea" (fun _ => 2), .pe "ea" (fun _ => 8) none none])
      ∧ ∃ p, t'.cs.getPE "ea" = some p := by
  obtain ⟨hsession, hreturns⟩ := table_session (n := 1) (fun _ => 0) (TableUpdater.sessionCalls 1
    [.pe "ad" (fun _ => 4) none none, .le "pod" "ad" (fun _ => 2)]) 2
    [.le "pod" "ea" (fun _ => 2), .pe "ea" (fun _ => 8) none none] (by simp [Report.Nonneg])
  obtain ⟨t', ht'⟩ := hreturns (by decide +kernel)
  obtain ⟨t, ht, hsecond⟩ := TableUpdater.run_append ht'
  have hgen : t.gen = 1 := by
    have h := congrArg (Option.map TableUpdater.gen) ht
    exact (Option.some.inj (h.symm.trans (by decide +kernel)))
  obtain ⟨hmirrors, hget⟩ := hsession t t' ht (hgen ▸ one_lt_two) hsecond
  exact ⟨t, t', ht, hsecond, hmirrors, (hget "ea").mpr (by simp [lastCapacity, Report.capacityFor])⟩

end KubeSafeScheduler.Pigeon
