import Mathlib.Data.Finset.Insert
import KubeSafeScheduler.Lib.Enumeration
import KubeSafeScheduler.Pigeon.CloudSystem

/-!
`system/stateupdater.c`: update sessions. Between `start` and `stop` the
observed PEs and LEs are reported; PEs are added and changed at once, an LE
that moves is taken off its host at once, and `stop` removes what was not
reported and makes the new placements.

The maps of a session are finite maps: nothing is removed from them
(`Utils.Hashmap.behaves_of_growing`). The order in which the hash tables list
the LEs and the new placements is an argument of `stop` (and of `start`, which
may close a session). The vectors kept for the printed report are those of
`Recorder`.

* `StateUpdater.start`, `stop`, `updatePE`, `updateLE`; the three phases of
  `stop` are `removePEs`, `deleteLEs` and `placeLEs`.
* `StateUpdater.WF`: the cloud system is well-formed and, while a session is
  open, its maps describe the system (`Session`).
* `removePEs_spec`, `deleteLEs_spec`, `stop_spec`: where every LE is hosted after
  each phase of `stop`.
* `WF.start`, `WF.stop`, `WF.updatePE`, `WF.updateLE`: every operation keeps
  the invariant.
-/

namespace KubeSafeScheduler.Pigeon

variable {n : ℕ} {K : Type}

/-- `s_stateupdater`. -/
structure StateUpdater (n : ℕ) (K : Type) where
  cs : CloudSystem n K
  gen : ℤ
  started : Bool
  observedPEs : Finset String
  observedLEs : Finset String
  lemap : StringMap LeRef
  newplacements : StringMap String

/-- The PE that `stateupdater_updatePE` creates for a name it does not find. -/
def Pe.observed (id : String) (capacity : Fin n → ℤ) (ovf : Option (Fin n → Bool))
    (usage : Option (Fin n → ℤ)) : Pe n :=
  let res := Resource.create capacity ovf
  Pe.create id (match usage with
    | some u => res.setusage u
    | none => res)

/-- `haschanged` of `stateupdater_updatePE`: the reported capacity, or the
reported usage if there is one, differs from the current one. -/
def Resource.haschanged (r : Resource n) (capacity : Fin n → ℤ) (usage : Option (Fin n → ℤ)) :
    Bool :=
  decide (∃ k, r.capacity k ≠ capacity k ∨ ∃ u ∈ usage, r.usage k ≠ u k)

namespace StateUpdater

/-- `stateupdater_create`. -/
def create (cs : CloudSystem n K) : StateUpdater n K where
  cs := cs
  gen := -1
  started := false
  observedPEs := ∅
  observedLEs := ∅
  lemap := ∅
  newplacements := ∅

/-! ### Closing a session -/

/-- One round of the first loop of `stateupdater_stop`. -/
def dropPE (observed : Finset String) (cs : CloudSystem n K) (p : PeRef) : CloudSystem n K :=
  if (cs.mem.pe p).label ∈ observed then cs else cs.removePE (cs.mem.pe p).label

/-- The first phase of `stateupdater_stop`: remove the PEs that were not
observed and renumber the others. -/
def removePEs (s : StateUpdater n K) : StateUpdater n K :=
  { s with cs := (s.cs.pes.foldl (dropPE s.observedPEs) s.cs).resetpes }

/-- One round of the second loop of `stateupdater_stop`. -/
def dropLE (observed : Finset String) (m : Memory n) (l : LeRef) : Memory n :=
  if (m.le l).label ∈ observed then m
  else
    match (m.le l).host with
    | none => m
    | some p => (Pe.removeLE m p l true).2

/-- The second phase of `stateupdater_stop`: take the LEs that were not
observed off their hosts. -/
def deleteLEs (ord : EnumOrder) (s : StateUpdater n K) : StateUpdater n K :=
  { s with cs := { s.cs with
      mem := (ord.order s.lemap.getvalues).foldl
        (dropLE s.observedLEs) s.cs.mem } }

/-- One round of the third loop of `stateupdater_stop`. -/
def effectPlacement (s : StateUpdater n K) (cs : CloudSystem n K) (leID : String) :
    CloudSystem n K :=
  match s.lemap.get leID with
  | none => cs
  | some l =>
      match (s.newplacements.get leID).bind cs.getPE with
      | none => cs
      | some p => { cs with mem := (Pe.placeLE cs.mem p l true).2 }

/-- The third phase of `stateupdater_stop`: make the new placements. -/
def placeLEs (ord : EnumOrder) (s : StateUpdater n K) : StateUpdater n K :=
  { s with cs := (ord.order s.newplacements.getkeys).foldl s.effectPlacement s.cs }

/-- `stateupdater_stop`: nothing happens without an open session. -/
def stop (ord : EnumOrder) (s : StateUpdater n K) : StateUpdater n K :=
  if s.started then
    { ((s.removePEs.deleteLEs ord).placeLEs ord) with
      observedPEs := ∅
      observedLEs := ∅
      lemap := ∅
      newplacements := ∅
      started := false }
  else s

/-! ### Opening a session -/

/-- The LEs hosted in the system, PE by PE. -/
def hostedLEs (cs : CloudSystem n K) : List LeRef :=
  cs.pes.flatMap fun p => (cs.mem.pe p).hostedLE

/-- `stateupdater_start`: a generation number that is not above the last one
is refused, but closes the session flag all the same; otherwise a session
still open is stopped and a new one begins, with the hosted LEs by name. -/
def start (ord : EnumOrder) (s : StateUpdater n K) (generation : ℤ) : Bool × StateUpdater n K :=
  if generation ≤ s.gen then (false, { s with started := false })
  else
    let s := if s.started then s.stop ord else s
    (true, { s with
      started := true
      gen := generation
      observedPEs := ∅
      observedLEs := ∅
      lemap := (hostedLEs s.cs).foldl (fun m l => m.insert (s.cs.mem.le l).label l) ∅
      newplacements := ∅ })

/-! ### Reports -/

/-- `stateupdater_updatePE`. -/
def updatePE (s : StateUpdater n K) (id : String) (capacity : Fin n → ℤ)
    (ovf : Option (Fin n → Bool)) (usage : Option (Fin n → ℤ)) : StateUpdater n K :=
  if s.started then
    match s.cs.getPE id with
    | some p =>
        let x := s.cs.mem.pe p
        { s with
          observedPEs := insert id s.observedPEs
          cs := if x.resource.haschanged capacity usage then
              { s.cs with mem := s.cs.mem.setPe p (x.update (some capacity) usage) }
            else s.cs }
    | none =>
        let (mem, p) := s.cs.mem.newPe (Pe.observed id capacity ovf usage)
        { s with
          observedPEs := insert id s.observedPEs
          cs := ({ s.cs with mem := mem } : CloudSystem n K).addPE p }
  else s

/-- `stateupdater_updateLE`. -/
def updateLE (s : StateUpdater n K) (id hostID : String) (demand : Fin n → ℤ) :
    StateUpdater n K :=
  if s.started then
    let s := { s with observedLEs := insert id s.observedLEs }
    match s.lemap.get id with
    | some l =>
        match (s.cs.mem.le l).host with
        | some p =>
            if (s.cs.mem.pe p).label = hostID then s
            else
              { s with
                cs := { s.cs with mem := (Pe.removeLE s.cs.mem p l true).2 }
                newplacements := s.newplacements.insert id hostID }
        | none => { s with newplacements := s.newplacements.insert id hostID }
    | none =>
        let (mem, l) := s.cs.mem.newLe (Le.create id demand)
        { s with
          cs := { s.cs with mem := mem }
          lemap := s.lemap.insert id l
          newplacements := s.newplacements.insert id hostID }
  else s

/-! ### Calls without a session -/

lemma stop_of_not_started {s : StateUpdater n K} (hst : s.started = false) (ord : EnumOrder) :
    s.stop ord = s := by
  simp [stop, hst]

lemma updatePE_of_not_started {s : StateUpdater n K} (hst : s.started = false) (id : String)
    (capacity : Fin n → ℤ) (ovf : Option (Fin n → Bool)) (usage : Option (Fin n → ℤ)) :
    s.updatePE id capacity ovf usage = s := by
  simp [updatePE, hst]

lemma updateLE_of_not_started {s : StateUpdater n K} (hst : s.started = false)
    (id hostID : String) (demand : Fin n → ℤ) : s.updateLE id hostID demand = s := by
  simp [updateLE, hst]

end StateUpdater

/-- An observation of a session: a PE or an LE. -/
inductive Report (n : ℕ) where
  | pe (id : String) (capacity : Fin n → ℤ) (ovf : Option (Fin n → Bool))
      (usage : Option (Fin n → ℤ))
  | le (id hostID : String) (demand : Fin n → ℤ)

/-- Pass on an observation. -/
def StateUpdater.report (s : StateUpdater n K) : Report n → StateUpdater n K
  | .pe id capacity ovf usage => s.updatePE id capacity ovf usage
  | .le id hostID demand => s.updateLE id hostID demand

namespace StateUpdater

/-! ### The invariant -/

/-- What holds while a session is open: the observed PEs are in the system, the
map of LEs has every hosted LE under its name, and an LE with a new placement
was observed and is not hosted. -/
structure Session (s : StateUpdater n K) : Prop where
  observed : ∀ id ∈ s.observedPEs, ∃ p ∈ s.cs.pes, (s.cs.mem.pe p).label = id
  lemap : ∀ id l, s.lemap.get id = some l →
    (s.cs.mem.le l).label = id ∧ l < s.cs.mem.leCount
  hosted : ∀ l, (s.cs.mem.le l).host ≠ none → s.lemap.get (s.cs.mem.le l).label = some l
  pending : ∀ id h, s.newplacements.get id = some h → id ∈ s.observedLEs ∧
    ∃ l, s.lemap.get id = some l ∧ (s.cs.mem.le l).host = none

/-- The invariant of the updater. -/
structure WF (s : StateUpdater n K) : Prop where
  cs : s.cs.WF
  session : s.started = true → s.Session

lemma wf_create {cs : CloudSystem n K} (h : cs.WF) : WF (create cs) :=
  ⟨h, fun hs => absurd hs (by simp [create])⟩

/-! ### The phases of `stop` -/

/-- The LEs that the session knows. -/
def Known (s : StateUpdater n K) (l : LeRef) : Prop := ∃ id, s.lemap.get id = some l

/-- A phase of `stop` from `cs` to `cs'`: the result is well-formed and made by
moves, names, capacities and demands are as before, and every LE is hosted
where `host` says. -/
structure Rehosts (known : LeRef → Prop) (cs cs' : CloudSystem n K)
    (host : LeRef → Option PeRef) : Prop where
  wf : cs'.WF
  moves : Relation.ReflTransGen (CloudSystem.Move known) cs cs'
  kept : cs.mem.Kept cs'.mem
  ds : cs'.ds = cs.ds
  host : ∀ l, (cs'.mem.le l).host = host l

lemma Rehosts.refl {known : LeRef → Prop} {cs : CloudSystem n K} (h : cs.WF) :
    Rehosts known cs cs fun l => (cs.mem.le l).host :=
  ⟨h, .refl, Memory.Kept.refl _, rfl, fun _ => rfl⟩

section Phases

variable (known : LeRef → Prop)

/-- The first loop of `stateupdater_stop`, one round: a PE of the system whose
name was not observed goes, and with it the hosts of its LEs. -/
lemma dropPE_spec (observed : Finset String) {cs : CloudSystem n K} (h : cs.WF) {p : PeRef}
    (hp : p ∈ cs.pes) :
    Rehosts known cs (dropPE observed cs p)
        (fun l => (cs.mem.le l).host.filter fun q => q ≠ p ∨ (cs.mem.pe q).label ∈ observed)
      ∧ (dropPE observed cs p).pes
          = cs.pes.filter (fun q => q ≠ p ∨ (cs.mem.pe q).label ∈ observed)
      ∧ ∀ q, q ≠ p ∨ (cs.mem.pe q).label ∈ observed →
          (dropPE observed cs p).mem.pe q = cs.mem.pe q := by
  by_cases hobs : (cs.mem.pe p).label ∈ observed
  · have hkeep : ∀ q, q ≠ p ∨ (cs.mem.pe q).label ∈ observed := by
      intro q
      by_cases hq : q = p
      · exact Or.inr (hq ▸ hobs)
      · exact Or.inl hq
    rw [dropPE, if_pos hobs]
    refine ⟨⟨h, .refl, Memory.Kept.refl _, rfl, fun l => ?_⟩, ?_, fun _ _ => rfl⟩
    · cases (cs.mem.le l).host <;> simp [Option.filter, hkeep]
    · exact (List.filter_eq_self.mpr fun q _ => by simpa using hkeep q).symm
  · have hgone : ∀ q, (q ≠ p ∨ (cs.mem.pe q).label ∈ observed) ↔ q ≠ p := by
      intro q
      refine ⟨?_, Or.inl⟩
      rintro (hq | hq) rfl
      · exact hq rfl
      · exact hobs hq
    have hlook := (h.get_iff _ p).mpr ⟨hp, rfl⟩
    obtain ⟨-, hother, hhost⟩ := Pe.clear_spec cs.mem p
    have hwf := h.removePE (cs.mem.pe p).label
    have hmove : CloudSystem.Move known cs (cs.removePE (cs.mem.pe p).label) := .removePE h _
    simp only [hgone]
    rw [dropPE, if_neg hobs, CloudSystem.removePE, hlook] at *
    refine ⟨⟨hwf, .single hmove, (Pe.frame_clear _ _).toKept, rfl, fun l => ?_⟩, ?_, hother⟩
    · rw [hhost]
      cases hl : (cs.mem.le l).host with
      | none => simp
      | some q =>
          obtain ⟨hq, hlq⟩ := (h.host_iff l q).mp hl
          have hlp : l ∈ (cs.mem.pe p).hostedLE ↔ q = p :=
            ⟨fun hlp => h.eq_of_mem_hosted hq hp hlq hlp, fun hqp => hqp ▸ hlq⟩
          by_cases hqp : q = p <;> simp [Option.filter, hlp, hqp]
    · show cs.pes.erase p = _
      rw [h.pes_nodup.erase_eq_filter]
      exact List.filter_congr fun q _ => by by_cases hq : q = p <;> simp [hq]

/-- The first loop of `stateupdater_stop` over a stretch of the PEs. -/
lemma foldl_dropPE (observed : Finset String) (ps : List PeRef) {cs : CloudSystem n K}
    (h : cs.WF) (hnd : ps.Nodup) (hps : ∀ p ∈ ps, p ∈ cs.pes) :
    Rehosts known cs (ps.foldl (dropPE observed) cs)
        (fun l => (cs.mem.le l).host.filter fun q => q ∉ ps ∨ (cs.mem.pe q).label ∈ observed)
      ∧ (ps.foldl (dropPE observed) cs).pes
          = cs.pes.filter (fun q => q ∉ ps ∨ (cs.mem.pe q).label ∈ observed)
      ∧ ∀ q, q ∉ ps ∨ (cs.mem.pe q).label ∈ observed →
          (ps.foldl (dropPE observed) cs).mem.pe q = cs.mem.pe q := by
  induction ps generalizing cs with
  | nil =>
      refine ⟨⟨h, .refl, Memory.Kept.refl _, rfl, fun l => ?_⟩, by simp, fun _ _ => rfl⟩
      cases hl : (cs.mem.le l).host <;> simp [Option.filter, hl]
  | cons p ps ih =>
      obtain ⟨hp, hnd'⟩ := List.nodup_cons.mp hnd
      obtain ⟨s1, s2, s3⟩ := dropPE_spec known observed h (hps p List.mem_cons_self)
      obtain ⟨i1, i2, i3⟩ := ih s1.wf hnd' fun q hq => by
        rw [s2, List.mem_filter]
        refine ⟨hps q (List.mem_cons_of_mem _ hq), ?_⟩
        have hqp : q ≠ p := fun hqp => hp (hqp ▸ hq)
        simp [hqp]
      have hiff : ∀ q, (q ∉ p :: ps ∨ (cs.mem.pe q).label ∈ observed) ↔
          (q ≠ p ∨ (cs.mem.pe q).label ∈ observed) ∧
            (q ∉ ps ∨ (cs.mem.pe q).label ∈ observed) := by
        intro q
        rw [List.mem_cons, not_or]
        tauto
      simp only [s1.kept.label] at i1 i2 i3
      rw [List.foldl_cons]
      refine ⟨⟨i1.wf, s1.moves.trans i1.moves, s1.kept.trans i1.kept, i1.ds.trans s1.ds,
        fun l => ?_⟩, ?_, fun q hq => ?_⟩
      · rw [i1.host, s1.host]
        ext q
        simp only [Option.filter_eq_some_iff, decide_eq_true_eq, hiff, and_assoc]
      · rw [i2, s2, List.filter_filter]
        exact List.filter_congr fun q _ => by
          simp only [hiff, Bool.decide_and, Bool.and_comm]
      · obtain ⟨h1, h2⟩ := (hiff q).mp hq
        rw [i3 q h2, s3 q h1]

/-- The second loop of `stateupdater_stop`, one round: an LE whose name was not
observed loses its host. -/
lemma dropLE_spec (observed : Finset String) {cs : CloudSystem n K} (h : cs.WF) (k : LeRef) :
    Rehosts known cs { cs with mem := dropLE observed cs.mem k } fun l =>
      if l = k ∧ (cs.mem.le l).label ∉ observed then none else (cs.mem.le l).host := by
  rw [dropLE]
  split_ifs with hobs
  · refine ⟨h, .refl, Memory.Kept.refl _, rfl, fun l => ?_⟩
    rw [if_neg]
    rintro ⟨rfl, hl⟩
    exact hl hobs
  · cases hk : (cs.mem.le k).host with
    | none =>
        refine ⟨h, .refl, Memory.Kept.refl _, rfl, fun l => ?_⟩
        split_ifs with hl
        · rw [hl.1, hk]
        · rfl
    | some p =>
        obtain ⟨hp, hkp⟩ := (h.host_iff k p).mp hk
        refine ⟨h.removeLE hp k, .single (.removeLE h hp k), (Pe.frame_removeLE _ _ _).toKept, rfl,
          fun l => ?_⟩
        rw [Pe.removeLE_host hkp]
        by_cases hl : l = k
        · subst hl; simp [hobs]
        · simp [hl]

/-- The second loop of `stateupdater_stop` over a stretch of the LEs. -/
lemma foldl_dropLE (observed : Finset String) (ls : List LeRef) {cs : CloudSystem n K}
    (h : cs.WF) :
    Rehosts known cs { cs with mem := ls.foldl (dropLE observed) cs.mem } fun l =>
      if l ∈ ls ∧ (cs.mem.le l).label ∉ observed then none else (cs.mem.le l).host := by
  induction ls generalizing cs with
  | nil => simpa using Rehosts.refl h
  | cons k ls ih =>
      have s1 := dropLE_spec known observed h k
      have i1 := ih s1.wf
      refine ⟨i1.wf, s1.moves.trans i1.moves, s1.kept.trans i1.kept, i1.ds.trans s1.ds, fun l => ?_⟩
      rw [List.foldl_cons, i1.host, s1.host, s1.kept.leLabel]
      by_cases hobs : (cs.mem.le l).label ∈ observed
      · simp [hobs]
      · by_cases hl : l = k
        · subst hl; simp [hobs]
        · simp [hobs, hl]

/-- The third loop of `stateupdater_stop`, one round: the LE with a new
placement, which is not hosted, is placed on the PE of that name, if there is
one. -/
lemma effectPlacement_spec (s : StateUpdater n K) {cs : CloudSystem n K} (h : cs.WF) (id : String)
    (hlemap : ∀ id l, s.lemap.get id = some l →
      (cs.mem.le l).label = id ∧ l < cs.mem.leCount)
    (hhosted : ∀ l, (cs.mem.le l).host ≠ none → s.lemap.get (cs.mem.le l).label = some l)
    (hpend : ∀ l, s.lemap.get id = some l → (cs.mem.le l).host = none) :
    Rehosts s.Known cs (s.effectPlacement cs id) (fun l =>
        if s.lemap.get id = some l then (s.newplacements.get id).bind cs.getPE
        else (cs.mem.le l).host)
      ∧ (s.effectPlacement cs id).pes = cs.pes
      ∧ (s.effectPlacement cs id).pemap = cs.pemap
      ∧ (s.effectPlacement cs id).ismodified = cs.ismodified := by
  rw [effectPlacement]
  cases hlook : s.lemap.get id with
  | none => exact ⟨by simpa using Rehosts.refl h, rfl, rfl, rfl⟩
  | some l =>
      have hfree := hpend l hlook
      obtain ⟨hlabel, hlt⟩ := hlemap id l hlook
      cases hbind : (s.newplacements.get id).bind cs.getPE with
      | none =>
          refine ⟨⟨h, .refl, Memory.Kept.refl _, rfl, fun k => ?_⟩, rfl, rfl, rfl⟩
          split_ifs with hk
          · rw [← Option.some.inj hk, hfree]
          · rfl
      | some p =>
          obtain ⟨host, -, hget⟩ := Option.bind_eq_some_iff.mp hbind
          have hp := (h.getPE_eq_some.mp hget).1
          have hnot := h.notMem_of_host_eq_none hfree hp
          refine ⟨⟨?_, .single (.placeLE h hp hfree ⟨id, hlook⟩), (Pe.frame_placeLE _ _ _).toKept,
            rfl, fun k => ?_⟩, rfl, rfl, rfl⟩
          · -- a hosted LE of this name would be the LE itself
            refine h.placeLE hp hfree hlt fun k hk hkl => hk ?_
            have := hhosted k hk
            rw [hkl, hlabel, hlook] at this
            rw [← Option.some.inj this, hfree]
          · rw [Pe.placeLE_host hnot]
            by_cases hk : k = l
            · subst hk; simp
            · simp [hk, Ne.symm hk]

/-- The session knows an LE by a name if that is its label and it knows it by its label. -/
lemma lemap_get_eq_some_iff {s : StateUpdater n K} {cs : CloudSystem n K} {id : String} {l : LeRef}
    (h : s.lemap.get id = some l → (cs.mem.le l).label = id) :
    s.lemap.get id = some l ↔
      (cs.mem.le l).label = id ∧ s.lemap.get (cs.mem.le l).label = some l := by
  constructor
  · intro hl
    have hlabel := h hl
    exact ⟨hlabel, by rw [hlabel]; exact hl⟩
  · rintro ⟨hl, hl'⟩
    rwa [hl] at hl'

/-- The third loop of `stateupdater_stop` over a stretch of the names with a
new placement. -/
lemma foldl_effectPlacement (s : StateUpdater n K) (ids : List String) {cs : CloudSystem n K}
    (h : cs.WF) (hnd : ids.Nodup)
    (hlemap : ∀ id l, s.lemap.get id = some l →
      (cs.mem.le l).label = id ∧ l < cs.mem.leCount)
    (hhosted : ∀ l, (cs.mem.le l).host ≠ none → s.lemap.get (cs.mem.le l).label = some l)
    (hpend : ∀ id ∈ ids, ∀ l, s.lemap.get id = some l → (cs.mem.le l).host = none) :
    Rehosts s.Known cs (ids.foldl s.effectPlacement cs) (fun l =>
        if (cs.mem.le l).label ∈ ids ∧ s.lemap.get (cs.mem.le l).label = some l then
          (s.newplacements.get (cs.mem.le l).label).bind cs.getPE
        else (cs.mem.le l).host)
      ∧ (ids.foldl s.effectPlacement cs).pes = cs.pes
      ∧ (ids.foldl s.effectPlacement cs).pemap = cs.pemap
      ∧ (ids.foldl s.effectPlacement cs).ismodified = cs.ismodified := by
  induction ids generalizing cs with
  | nil => simpa using Rehosts.refl h
  | cons id ids ih =>
      obtain ⟨hid, hnd'⟩ := List.nodup_cons.mp hnd
      obtain ⟨s1, s2, s3, s4⟩ :=
        effectPlacement_spec s h id hlemap hhosted (hpend id List.mem_cons_self)
      have hlook := fun l => lemap_get_eq_some_iff (l := l) fun hl => (hlemap id l hl).1
      obtain ⟨i1, i2, i3, i4⟩ := ih s1.wf hnd'
        (fun x l hl => by rw [s1.kept.leLabel, s1.kept.leCount]; exact hlemap x l hl)
        (fun l hl => by
          rw [s1.kept.leLabel]
          rw [s1.host] at hl
          split_ifs at hl with hc
          · exact ((hlook l).mp hc).2
          · exact hhosted l hl)
        (fun x hx l hl => by
          rw [s1.host, if_neg]
          · exact hpend x (List.mem_cons_of_mem _ hx) l hl
          · intro hc
            rw [(hlemap x l hl).1.symm.trans (hlemap id l hc).1] at hx
            exact hid hx)
      have hget : ∀ name, (s.effectPlacement cs id).getPE name = cs.getPE name := by
        intro name
        rw [CloudSystem.getPE, s3, CloudSystem.getPE]
      rw [List.foldl_cons]
      refine ⟨⟨i1.wf, s1.moves.trans i1.moves, s1.kept.trans i1.kept, i1.ds.trans s1.ds,
        fun l => ?_⟩, i2.trans s2, i3.trans s3, i4.trans s4⟩
      rw [i1.host, s1.host]
      simp only [s1.kept.leLabel, hget, hlook]
      by_cases hl : s.lemap.get (cs.mem.le l).label = some l
      · by_cases hlid : (cs.mem.le l).label = id
        · subst hlid; simp [hl, hid]
        · simp [hl, hlid]
      · simp [hl]

/-- Where `stateupdater_stop` leaves an LE that the session knows under its
name: on the PE of its new placement if there is one and that PE was observed;
otherwise where it was, if both it and its host were observed. -/
def hostAfter (s : StateUpdater n K) (l : LeRef) : Option PeRef :=
  if s.lemap.get (s.cs.mem.le l).label = some l then
    match s.newplacements.get (s.cs.mem.le l).label with
    | some h => if h ∈ s.observedPEs then s.cs.getPE h else none
    | none =>
        if (s.cs.mem.le l).label ∈ s.observedLEs then
          (s.cs.mem.le l).host.filter fun p => (s.cs.mem.pe p).label ∈ s.observedPEs
        else none
  else none

/-- What `stateupdater_stop` makes of an open session. -/
structure Closed (s r : StateUpdater n K) : Prop where
  wf : r.cs.WF
  moves : Relation.ReflTransGen (CloudSystem.Move s.Known) s.cs r.cs
  started : r.started = false
  gen : r.gen = s.gen
  ds : r.cs.ds = s.cs.ds
  ismodified : r.cs.ismodified = false
  pes : r.cs.pes = s.cs.pes.filter fun p => (s.cs.mem.pe p).label ∈ s.observedPEs
  kept : s.cs.mem.Kept r.cs.mem
  host : ∀ l, (r.cs.mem.le l).host = s.hostAfter l

/-- The first phase of `stateupdater_stop`. -/
lemma removePEs_spec {s : StateUpdater n K} (h : s.cs.WF) :
    Rehosts known s.cs s.removePEs.cs
        (fun l => (s.cs.mem.le l).host.filter fun p => (s.cs.mem.pe p).label ∈ s.observedPEs)
      ∧ s.removePEs.cs.ismodified = false
      ∧ s.removePEs.cs.pes = s.cs.pes.filter (fun p => (s.cs.mem.pe p).label ∈ s.observedPEs)
      ∧ ∀ q, (s.cs.mem.pe q).label ∈ s.observedPEs →
          (s.removePEs.cs.mem.pe q).resource = (s.cs.mem.pe q).resource
            ∧ (s.removePEs.cs.mem.pe q).hostedLE = (s.cs.mem.pe q).hostedLE := by
  obtain ⟨d1, d2, d3⟩ := foldl_dropPE known s.observedPEs s.cs.pes h h.pes_nodup fun p hp => hp
  obtain ⟨r1, r2, r3, r4, r5, r6, r7⟩ := CloudSystem.resetpes_frame _ d1.wf.pes_nodup
  refine ⟨⟨d1.wf.resetpes, d1.moves.tail (.resetpes d1.wf), d1.kept.trans ?_, r2.trans d1.ds,
    fun l => ?_⟩, r3, ?_, fun q hq => ?_⟩
  · exact ⟨fun p => (r7 p).1, fun p => by rw [removePEs, (r7 p).2.1],
      fun p => by rw [removePEs, (r7 p).2.1], fun l => by rw [removePEs, r4],
      fun l => by rw [removePEs, r4], r5, r6⟩
  · rw [removePEs, r4, d1.host]
    cases hl : (s.cs.mem.le l).host with
    | none => rfl
    | some q =>
        have hq := ((h.host_iff l q).mp hl).1
        simp [Option.filter, hq]
  · rw [removePEs, r1, d2]
    exact List.filter_congr fun q hq => by simp [hq]
  · rw [removePEs, (r7 q).2.1, (r7 q).2.2, d3 q (Or.inr hq)]
    exact ⟨rfl, rfl⟩

/-- The PEs that the first phase of `stateupdater_stop` leaves, by name. -/
lemma getPE_removePEs {s : StateUpdater n K} (h : s.cs.WF) (name : String) :
    s.removePEs.cs.getPE name = if name ∈ s.observedPEs then s.cs.getPE name else none := by
  obtain ⟨a1, -, a3, -⟩ := removePEs_spec s.Known h
  ext p
  rw [a1.wf.getPE_eq_some, a3, a1.kept.label, List.mem_filter]
  split_ifs with hname
  · rw [h.getPE_eq_some]
    constructor
    · rintro ⟨⟨hp, -⟩, hl⟩
      exact ⟨hp, hl⟩
    · rintro ⟨hp, hl⟩
      exact ⟨⟨hp, by simpa [hl] using hname⟩, hl⟩
  · simp only [iff_false]
    rintro ⟨⟨-, hp⟩, hl⟩
    rw [hl] at hp
    exact hname (by simpa using hp)

/-- The first two phases of `stateupdater_stop`: an LE that the session knows and
that was not observed is not hosted any more, nor is one whose host is gone. -/
lemma deleteLEs_spec {s : StateUpdater n K} (h : s.WF) (hst : s.started = true)
    (ord : EnumOrder) :
    Rehosts s.Known s.cs (s.removePEs.deleteLEs ord).cs fun l =>
      if s.lemap.get (s.cs.mem.le l).label = some l ∧ (s.cs.mem.le l).label ∉ s.observedLEs
      then none
      else (s.cs.mem.le l).host.filter fun p => (s.cs.mem.pe p).label ∈ s.observedPEs := by
  obtain ⟨a1, -⟩ := removePEs_spec s.Known h.cs
  have hvalues : ∀ l, l ∈ ord.order s.lemap.getvalues ↔
      s.lemap.get (s.cs.mem.le l).label = some l := by
    intro l
    rw [EnumOrder.mem_order, StringMap.mem_getvalues]
    constructor
    · rintro ⟨id, hid⟩
      rw [((h.session hst).lemap id l hid).1]; exact hid
    · exact fun hl => ⟨_, hl⟩
  have b1 : Rehosts s.Known s.removePEs.cs (s.removePEs.deleteLEs ord).cs _ :=
    foldl_dropLE s.Known s.observedLEs (ord.order s.lemap.getvalues) a1.wf
  refine ⟨b1.wf, a1.moves.trans b1.moves, a1.kept.trans b1.kept, b1.ds.trans a1.ds, fun l => ?_⟩
  rw [b1.host, a1.host, a1.kept.leLabel]
  simp only [hvalues]

/-- What the third phase of `stateupdater_stop` finds: the map of LEs still
describes the system, and the LEs with a new placement are not hosted. -/
structure Ready (s : StateUpdater n K) (cs : CloudSystem n K) : Prop where
  lemap : ∀ id l, s.lemap.get id = some l → (cs.mem.le l).label = id ∧ l < cs.mem.leCount
  hosted : ∀ l, (cs.mem.le l).host ≠ none → s.lemap.get (cs.mem.le l).label = some l
  pending : ∀ id ∈ s.newplacements.getkeys, ∀ l, s.lemap.get id = some l →
    (cs.mem.le l).host = none

/-- The first two phases take LEs off their hosts only. -/
lemma ready_deleteLEs {s : StateUpdater n K} (h : s.WF) (hst : s.started = true)
    (ord : EnumOrder) : s.Ready (s.removePEs.deleteLEs ord).cs := by
  have hs := h.session hst
  have b1 := deleteLEs_spec h hst ord
  have hnone : ∀ l, (s.cs.mem.le l).host = none →
      ((s.removePEs.deleteLEs ord).cs.mem.le l).host = none := by
    intro l hl
    rw [b1.host, hl]
    simp
  refine ⟨fun id l hl => ?_, fun l hl => ?_, fun id hid l hl => ?_⟩
  · rw [b1.kept.leLabel, b1.kept.leCount]
    exact hs.lemap id l hl
  · rw [b1.kept.leLabel]
    exact hs.hosted l fun h0 => hl (hnone l h0)
  · obtain ⟨host, hhost⟩ := StringMap.mem_getkeys.mp hid
    obtain ⟨-, k, hk, hk0⟩ := hs.pending id host hhost
    rw [show k = l from Option.some.inj (hk.symm.trans hl)] at hk0
    exact hnone l hk0

/-- `stateupdater_stop` on an open session. -/
lemma stop_spec {s : StateUpdater n K} (h : s.WF) (hst : s.started = true) (ord : EnumOrder) :
    Closed s (s.stop ord) := by
  have hs := h.session hst
  obtain ⟨-, a2, a3, -⟩ := removePEs_spec s.Known h.cs
  have b1 := deleteLEs_spec h hst ord
  have hready := ready_deleteLEs h hst ord
  -- the maps of the session do not change on the way
  set B := s.removePEs.deleteLEs ord with hB
  obtain ⟨c1, c2, c3, c4⟩ := foldl_effectPlacement B (ord.order s.newplacements.getkeys) b1.wf
    ((ord.nodup_order).mpr s.newplacements.nodup_getkeys) hready.lemap hready.hosted
    (fun id hid => hready.pending id (ord.mem_order.mp hid))
  rw [stop, if_pos hst]
  refine ⟨c1.wf, b1.moves.trans c1.moves, rfl, rfl, c1.ds.trans b1.ds, c4.trans a2, c2.trans a3,
    b1.kept.trans c1.kept, fun l => ?_⟩
  show (((B.placeLEs ord).cs).mem.le l).host = s.hostAfter l
  rw [placeLEs, show B.newplacements = s.newplacements from rfl, c1.host, b1.kept.leLabel,
    b1.host, hostAfter, show B.lemap = s.lemap from rfl,
    show B.newplacements = s.newplacements from rfl]
  by_cases hl : s.lemap.get (s.cs.mem.le l).label = some l
  · cases hnew : s.newplacements.get (s.cs.mem.le l).label with
    | some host =>
        have hkey : (s.cs.mem.le l).label ∈ ord.order s.newplacements.getkeys :=
          ord.mem_order.mpr (StringMap.mem_getkeys.mpr ⟨host, hnew⟩)
        rw [if_pos ⟨hkey, hl⟩, if_pos hl]
        exact getPE_removePEs h.cs host
    | none =>
        have hkey : (s.cs.mem.le l).label ∉ ord.order s.newplacements.getkeys := by
          intro hc
          obtain ⟨host, hhost⟩ := StringMap.mem_getkeys.mp (ord.mem_order.mp hc)
          exact Option.some_ne_none host (hhost.symm.trans hnew)
        rw [if_neg fun hc => hkey hc.1, if_pos hl]
        by_cases hobs : (s.cs.mem.le l).label ∈ s.observedLEs <;> simp [hl, hobs]
  · have hnone : (s.cs.mem.le l).host = none := by
      by_contra hne
      exact hl (hs.hosted l hne)
    simp [hl, hnone]

end Phases

/-! ### Every operation keeps the invariant -/

lemma WF.stop {s : StateUpdater n K} (h : s.WF) (ord : EnumOrder) : WF (s.stop ord) := by
  cases hst : s.started with
  | false => rwa [stop_of_not_started hst]
  | true =>
      have hc := stop_spec h hst ord
      exact ⟨hc.wf, fun hs => absurd hs (by simp [hc.started])⟩

lemma mem_hostedLEs {cs : CloudSystem n K} (h : cs.WF) {l : LeRef} :
    l ∈ hostedLEs cs ↔ (cs.mem.le l).host ≠ none := by
  rw [hostedLEs, List.mem_flatMap, Option.ne_none_iff_exists']
  exact exists_congr fun p => (h.host_iff l p).symm

/-- The state in which an accepted `stateupdater_start` leaves the updater. -/
structure Opened (s r : StateUpdater n K) (generation : ℤ) : Prop where
  cs : r.cs = s.cs
  started : r.started = true
  gen : r.gen = generation
  observedPEs : r.observedPEs = ∅
  observedLEs : r.observedLEs = ∅
  newplacements : r.newplacements = ∅
  lemap : ∀ id l, r.lemap.get id = some l ↔
    (s.cs.mem.le l).host ≠ none ∧ (s.cs.mem.le l).label = id

/-- `stateupdater_start` on a newer generation, after the session that was
still open, if any, has been closed. -/
lemma start_spec {s : StateUpdater n K} (h : s.WF) (ord : EnumOrder) {generation : ℤ}
    (hgen : s.gen < generation) :
    (s.start ord generation).1 = true
      ∧ Opened (s.stop ord) (s.start ord generation).2 generation := by
  have hstop : (if s.started then s.stop ord else s) = s.stop ord := by
    cases hst : s.started with
    | false => exact (stop_of_not_started hst ord).symm
    | true => rfl
  have hwf := (h.stop ord).cs
  rw [start, if_neg (not_le.mpr hgen), hstop]
  refine ⟨rfl, rfl, rfl, rfl, rfl, rfl, rfl, fun id l => ?_⟩
  have hinj : ∀ a ∈ hostedLEs (s.stop ord).cs, ∀ b ∈ hostedLEs (s.stop ord).cs,
      ((s.stop ord).cs.mem.le a).label = ((s.stop ord).cs.mem.le b).label → a = b :=
    fun a ha b hb => hwf.name_inj a b ((mem_hostedLEs hwf).mp ha) ((mem_hostedLEs hwf).mp hb)
  rw [StringMap.get_foldl_insert (fun l => ((s.stop ord).cs.mem.le l).label) (fun l => l) _ _ hinj]
  simp only [mem_hostedLEs hwf, StringMap.get_empty, reduceCtorEq, and_false, or_false]
  constructor
  · rintro ⟨a, ha, hlabel, rfl⟩
    exact ⟨ha, hlabel⟩
  · rintro ⟨hl, hlabel⟩
    exact ⟨l, hl, hlabel, rfl⟩

lemma Opened.wf {s r : StateUpdater n K} {generation : ℤ} (h : Opened s r generation)
    (hs : s.cs.WF) : r.WF := by
  refine ⟨by rw [h.cs]; exact hs, fun _ => ⟨?_, fun id l hl => ?_, fun l hl => ?_, ?_⟩⟩
  · simp [h.observedPEs]
  · obtain ⟨hhost, hlabel⟩ := (h.lemap id l).mp hl
    rw [h.cs]
    exact ⟨hlabel, hs.host_lt l hhost⟩
  · rw [h.cs] at hl ⊢
    exact (h.lemap _ l).mpr ⟨hl, rfl⟩
  · simp [h.newplacements]

lemma WF.start {s : StateUpdater n K} (h : s.WF) (ord : EnumOrder) (generation : ℤ) :
    WF (s.start ord generation).2 := by
  by_cases hgen : generation ≤ s.gen
  · rw [StateUpdater.start, if_pos hgen]
    exact ⟨h.cs, fun hs => absurd hs (by simp)⟩
  · exact (start_spec h ord (not_le.mp hgen)).2.wf (h.stop ord).cs

/-! ### Reports in an open session -/

/-- What `stateupdater_updatePE` makes of an open session: the PE of that name
is there and holds what was reported, if that was not negative; every other PE
is as before, and so is where every LE is hosted. -/
structure PeReported (s r : StateUpdater n K) (id : String) (capacity : Fin n → ℤ)
    (ovf : Option (Fin n → Bool)) (usage : Option (Fin n → ℤ)) : Prop where
  wf : r.cs.WF
  started : r.started = s.started
  gen : r.gen = s.gen
  ds : r.cs.ds = s.cs.ds
  observedPEs : r.observedPEs = insert id s.observedPEs
  observedLEs : r.observedLEs = s.observedLEs
  lemap : r.lemap = s.lemap
  newplacements : r.newplacements = s.newplacements
  le : r.cs.mem.le = s.cs.mem.le
  leCount : r.cs.mem.leCount = s.cs.mem.leCount
  getPE_ne : ∀ name, name ≠ id → r.cs.getPE name = s.cs.getPE name
  mem_pes : ∀ p ∈ s.cs.pes, p ∈ r.cs.pes
  label : ∀ p ∈ s.cs.pes, (r.cs.mem.pe p).label = (s.cs.mem.pe p).label
  hostedLE : ∀ p ∈ s.cs.pes, (r.cs.mem.pe p).hostedLE = (s.cs.mem.pe p).hostedLE
  resource_ne : ∀ p ∈ s.cs.pes, (s.cs.mem.pe p).label ≠ id →
    (r.cs.mem.pe p).resource = (s.cs.mem.pe p).resource
  allowoverflow : ∀ p ∈ s.cs.pes,
    (r.cs.mem.pe p).resource.allowoverflow = (s.cs.mem.pe p).resource.allowoverflow
  usage_none : usage = none → ∀ p ∈ s.cs.pes,
    (r.cs.mem.pe p).resource.usage = (s.cs.mem.pe p).resource.usage
  reported : ∃ p, r.cs.getPE id = some p
    ∧ ((∀ k, 0 ≤ capacity k) → (r.cs.mem.pe p).resource.capacity = capacity)
    ∧ (∀ u, usage = some u → (∀ k, 0 ≤ u k) → (r.cs.mem.pe p).resource.usage = u)
  added : ∀ p ∈ r.cs.pes, p ∉ s.cs.pes → r.cs.mem.pe p = Pe.observed id capacity ovf usage

lemma haschanged_eq_false {r : Resource n} {capacity : Fin n → ℤ} {usage : Option (Fin n → ℤ)}
    (h : r.haschanged capacity usage = false) :
    r.capacity = capacity ∧ ∀ u, usage = some u → r.usage = u := by
  simp only [Resource.haschanged, decide_eq_false_iff_not, not_exists, not_or, not_not,
    Option.mem_def, not_and] at h
  exact ⟨funext fun k => (h k).1, fun u hu => funext fun k => (h k).2 u hu⟩

/-- `pe_update` sets what is not negative and keeps the overflow flags. -/
lemma update_resource (x : Pe n) (c : Fin n → ℤ) (usage : Option (Fin n → ℤ)) :
    ((∀ k, 0 ≤ c k) → (x.update (some c) usage).resource.capacity = c)
      ∧ (∀ u, usage = some u → (∀ k, 0 ≤ u k) → (x.update (some c) usage).resource.usage = u)
      ∧ (usage = none → (x.update (some c) usage).resource.usage = x.resource.usage)
      ∧ (x.update (some c) usage).resource.allowoverflow = x.resource.allowoverflow := by
  cases usage with
  | none => exact ⟨fun h => Resource.setcapacity_of_nonneg _ h, by simp, fun _ => rfl, rfl⟩
  | some u =>
      refine ⟨fun h => ?_, fun v hv h => ?_, by simp, rfl⟩
      · exact Resource.setcapacity_of_nonneg x.resource h
      · rw [← Option.some.inj hv] at h ⊢
        exact Resource.setusage_of_nonneg _ h

lemma observed_resource (id : String) (c : Fin n → ℤ) (ovf : Option (Fin n → Bool))
    (usage : Option (Fin n → ℤ)) :
    (Pe.observed id c ovf usage).resource.capacity = c
      ∧ ∀ u, usage = some u → (∀ k, 0 ≤ u k) →
          (Pe.observed id c ovf usage).resource.usage = u := by
  cases usage with
  | none => exact ⟨rfl, by simp⟩
  | some u =>
      refine ⟨rfl, fun v hv h => ?_⟩
      rw [← Option.some.inj hv] at h ⊢
      exact Resource.setusage_of_nonneg _ h

/-- `stateupdater_updatePE` on a name that the system does not know. -/
lemma updatePE_of_new {s : StateUpdater n K} (hst : s.started = true) {id : String}
    (hget : s.cs.getPE id = none) (capacity : Fin n → ℤ) (ovf : Option (Fin n → Bool))
    (usage : Option (Fin n → ℤ)) :
    s.updatePE id capacity ovf usage = { s with
      observedPEs := insert id s.observedPEs
      cs := { s.cs with
        mem := (s.cs.mem.newPe (Pe.observed id capacity ovf usage)).1
        pemap := s.cs.pemap.insert id s.cs.mem.peCount
        pes := s.cs.pes ++ [s.cs.mem.peCount]
        ismodified := true } } := by
  have hnone : s.cs.pemap.get id = none := hget
  have hlabel : (Pe.observed id capacity ovf usage).label = id := rfl
  rw [updatePE, if_pos hst, hget]
  simp [CloudSystem.addPE, CloudSystem.getPE, Memory.newPe, hlabel, hnone]

/-- A known PE whose resource changed. -/
lemma updatePE_of_changed {s : StateUpdater n K} (h : s.cs.WF) (hst : s.started = true)
    {id : String} {p : PeRef} {capacity : Fin n → ℤ} {usage : Option (Fin n → ℤ)}
    (hget : s.cs.getPE id = some p)
    (hch : (s.cs.mem.pe p).resource.haschanged capacity usage = true)
    (ovf : Option (Fin n → Bool)) :
    PeReported s (s.updatePE id capacity ovf usage) id capacity ovf usage := by
  have hlabel := (h.getPE_eq_some.mp hget).2
  rw [updatePE, if_pos hst, hget]
  simp only [hch, if_true]
  set x := s.cs.mem.pe p with hx
  obtain ⟨u1, u2, u3, u4⟩ := update_resource x capacity usage
  have hself : (s.cs.mem.setPe p (x.update (some capacity) usage)).pe p
      = x.update (some capacity) usage := Memory.setPe_pe_self _ _ _
  refine ⟨h.setResource p _, rfl, rfl, rfl, rfl, rfl, rfl, rfl, rfl, rfl, fun _ _ => rfl,
    fun q hq => hq, fun q _ => ?_, fun q _ => ?_, fun q _ hq => ?_, fun q _ => ?_,
    fun hnone q _ => ?_, ⟨p, hget, fun hc => ?_, fun u hu hu0 => ?_⟩,
    fun q hq hq' => absurd hq hq'⟩
  · exact s.cs.mem.setPe_congr Pe.label (by rfl) q
  · exact s.cs.mem.setPe_congr Pe.hostedLE (by rfl) q
  · rw [Memory.setPe_pe_of_ne _ _]
    rintro rfl
    exact hq hlabel
  · exact s.cs.mem.setPe_congr (fun y => y.resource.allowoverflow) u4 q
  · exact s.cs.mem.setPe_congr (fun y => y.resource.usage) (u3 hnone) q
  · rw [hself]; exact u1 hc
  · rw [hself]; exact u2 u hu hu0

/-- A known PE whose resource is as it was. -/
lemma updatePE_of_unchanged {s : StateUpdater n K} (h : s.cs.WF) (hst : s.started = true)
    {id : String} {p : PeRef} {capacity : Fin n → ℤ} {usage : Option (Fin n → ℤ)}
    (hget : s.cs.getPE id = some p)
    (hch : (s.cs.mem.pe p).resource.haschanged capacity usage = false)
    (ovf : Option (Fin n → Bool)) :
    PeReported s (s.updatePE id capacity ovf usage) id capacity ovf usage := by
  have hsame := haschanged_eq_false hch
  rw [updatePE, if_pos hst, hget]
  simp only [if_neg (ne_true_of_eq_false hch)]
  exact ⟨h, rfl, rfl, rfl, rfl, rfl, rfl, rfl, rfl, rfl, fun _ _ => rfl, fun q hq => hq,
    fun q _ => rfl, fun q _ => rfl, fun q _ _ => rfl, fun q _ => rfl, fun _ q _ => rfl,
    ⟨p, hget, fun _ => hsame.1, fun u hu _ => hsame.2 u hu⟩, fun q hq hq' => absurd hq hq'⟩

/-- A PE that is new. -/
lemma updatePE_of_getPE_none {s : StateUpdater n K} (h : s.cs.WF) (hst : s.started = true)
    {id : String} (hget : s.cs.getPE id = none) (capacity : Fin n → ℤ)
    (ovf : Option (Fin n → Bool)) (usage : Option (Fin n → ℤ)) :
    PeReported s (s.updatePE id capacity ovf usage) id capacity ovf usage := by
  obtain ⟨o1, o2⟩ := observed_resource id capacity ovf usage
  have hself := Memory.newPe_fst_pe_self s.cs.mem (Pe.observed id capacity ovf usage)
  have hold : ∀ p ∈ s.cs.pes, (s.cs.mem.newPe (Pe.observed id capacity ovf usage)).1.pe p
      = s.cs.mem.pe p := fun p hp => Memory.newPe_fst_pe_of_lt _ _ (h.pes_lt p hp)
  have hwf : ((s.updatePE id capacity ovf usage).cs).WF := by
    have := h.addNew (x := Pe.observed id capacity ovf usage) rfl hget
    rw [updatePE, if_pos hst, hget]
    exact this
  rw [updatePE_of_new hst hget] at hwf ⊢
  refine ⟨hwf, rfl, rfl, rfl, rfl, rfl, rfl, rfl, rfl, rfl, fun name hname => ?_,
    fun p hp => List.mem_append_left _ hp, fun p hp => ?_, fun p hp => ?_, fun p hp _ => ?_,
    fun p hp => ?_, fun _ p hp => ?_,
    ⟨s.cs.mem.peCount, ?_, fun _ => ?_, fun u hu hu0 => ?_⟩, fun p hp hp' => ?_⟩
  · exact StringMap.get_insert_of_ne _ _ hname
  · rw [hold p hp]
  · rw [hold p hp]
  · rw [hold p hp]
  · rw [hold p hp]
  · rw [hold p hp]
  · exact StringMap.get_insert_self _ _ _
  · rw [hself]; exact o1
  · rw [hself]; exact o2 u hu hu0
  · have hpc : p = s.cs.mem.peCount := by simpa [hp'] using hp
    rw [hpc, hself]

/-- `stateupdater_updatePE` in an open session. -/
lemma updatePE_spec {s : StateUpdater n K} (h : s.cs.WF) (hst : s.started = true) (id : String)
    (capacity : Fin n → ℤ) (ovf : Option (Fin n → Bool)) (usage : Option (Fin n → ℤ)) :
    PeReported s (s.updatePE id capacity ovf usage) id capacity ovf usage := by
  cases hget : s.cs.getPE id with
  | none => exact updatePE_of_getPE_none h hst hget capacity ovf usage
  | some p =>
      cases hch : (s.cs.mem.pe p).resource.haschanged capacity usage with
      | true => exact updatePE_of_changed h hst hget hch ovf
      | false => exact updatePE_of_unchanged h hst hget hch ovf

lemma WF.updatePE {s : StateUpdater n K} (h : s.WF) (id : String) (capacity : Fin n → ℤ)
    (ovf : Option (Fin n → Bool)) (usage : Option (Fin n → ℤ)) :
    WF (s.updatePE id capacity ovf usage) := by
  cases hst : s.started with
  | false => rwa [updatePE_of_not_started hst]
  | true =>
      have hs := h.session hst
      have hr := updatePE_spec h.cs hst id capacity ovf usage
      refine ⟨hr.wf, fun _ => ⟨fun name hname => ?_, fun name l hl => ?_, fun l hl => ?_,
        fun name host hn => ?_⟩⟩
      · rw [hr.observedPEs, Finset.mem_insert] at hname
        rcases hname with rfl | hname
        · obtain ⟨p, hp, -⟩ := hr.reported
          obtain ⟨hp, hl⟩ := hr.wf.getPE_eq_some.mp hp
          exact ⟨p, hp, hl⟩
        · obtain ⟨p, hp, hl⟩ := hs.observed name hname
          exact ⟨p, hr.mem_pes p hp, (hr.label p hp).trans hl⟩
      · rw [hr.lemap] at hl
        rw [hr.le, hr.leCount]
        exact hs.lemap name l hl
      · rw [hr.le] at hl ⊢
        rw [hr.lemap]
        exact hs.hosted l hl
      · rw [hr.newplacements] at hn
        rw [hr.lemap, hr.le, hr.observedLEs]
        exact hs.pending name host hn

/-- The host that the session holds for a name: that of its new placement, or
else the one it is on. -/
def intendedHost (s : StateUpdater n K) (id : String) : Option String :=
  (s.lemap.get id).bind fun l =>
    match s.newplacements.get id with
    | some h => some h
    | none => (s.cs.mem.le l).host.map fun p => (s.cs.mem.pe p).label

/-- What `stateupdater_updateLE` makes of an open session: the intended host of
that name is the reported one, and nothing is changed for other names. -/
structure LeReported (s r : StateUpdater n K) (id hostID : String) : Prop where
  wf : r.WF
  started : r.started = s.started
  gen : r.gen = s.gen
  ds : r.cs.ds = s.cs.ds
  observedPEs : r.observedPEs = s.observedPEs
  observedLEs : r.observedLEs = insert id s.observedLEs
  pes : r.cs.pes = s.cs.pes
  pemap : r.cs.pemap = s.cs.pemap
  label : ∀ p, (r.cs.mem.pe p).label = (s.cs.mem.pe p).label
  capacity : ∀ p, (r.cs.mem.pe p).resource.capacity = (s.cs.mem.pe p).resource.capacity
  intended : r.intendedHost id = some hostID
  intended_ne : ∀ name, name ≠ id → r.intendedHost name = s.intendedHost name

/-- The session map after a report that leaves the LEs as they are but for
their hosts. -/
lemma Session.of_rehosted {s r : StateUpdater n K} (hs : s.Session)
    (hpes : r.cs.pes = s.cs.pes) (hobs : r.observedPEs = s.observedPEs)
    {id hostID : String} (hobsLE : r.observedLEs = insert id s.observedLEs)
    (hkept : s.cs.mem.Kept r.cs.mem) (hlemap : r.lemap = s.lemap)
    (hhost : ∀ l, (r.cs.mem.le l).host = none ∨ (r.cs.mem.le l).host = (s.cs.mem.le l).host)
    {l : LeRef} (hid : s.lemap.get id = some l) (hfree : (r.cs.mem.le l).host = none)
    (hnew : r.newplacements = s.newplacements.insert id hostID) : r.Session := by
  refine ⟨fun name hname => ?_, fun name k hk => ?_, fun k hk => ?_, fun name host hn => ?_⟩
  · rw [hobs] at hname
    obtain ⟨p, hp, hl⟩ := hs.observed name hname
    exact ⟨p, by rwa [hpes], (hkept.label p).trans hl⟩
  · rw [hlemap] at hk
    rw [hkept.leLabel, hkept.leCount]
    exact hs.lemap name k hk
  · rw [hlemap, hkept.leLabel]
    refine hs.hosted k ?_
    rcases hhost k with h0 | h0
    · exact absurd h0 hk
    · rwa [← h0]
  · rw [hlemap, hobsLE, Finset.mem_insert]
    rw [hnew, StringMap.get_insert] at hn
    split_ifs at hn with hname
    · exact ⟨Or.inl hname, l, hname ▸ hid, hfree⟩
    · obtain ⟨hobs', k, hk, hk0⟩ := hs.pending name host hn
      refine ⟨Or.inr hobs', k, hk, ?_⟩
      rcases hhost k with h0 | h0
      · exact h0
      · rw [h0, hk0]

/-- A known LE that is off its host, if it had one, and gets a new placement. -/
lemma leReported_of_moved {s r : StateUpdater n K} (h : s.WF) (hst : s.started = true)
    {id hostID : String} {l : LeRef} (hid : s.lemap.get id = some l) (m : Memory n)
    (hm : WF { s with cs := { s.cs with mem := m }, started := false })
    (hkept : s.cs.mem.Kept m)
    (hhost : ∀ k, (m.le k).host = if k = l then none else (s.cs.mem.le k).host)
    (hr : r = { s with
      cs := { s.cs with mem := m }
      observedLEs := insert id s.observedLEs
      newplacements := s.newplacements.insert id hostID }) :
    LeReported s r id hostID := by
  have hs := h.session hst
  have hfree : (m.le l).host = none := by rw [hhost, if_pos rfl]
  subst hr
  refine ⟨⟨hm.cs, fun _ => ?_⟩, rfl, rfl, rfl, rfl, rfl, rfl, rfl, hkept.label, hkept.capacity,
    ?_, fun name hname => ?_⟩
  · refine hs.of_rehosted rfl rfl rfl hkept rfl (fun k => ?_) hid hfree rfl
    rw [hhost]
    split_ifs <;> simp
  · simp [intendedHost, hid]
  · simp only [intendedHost, StringMap.get_insert_of_ne _ _ hname]
    cases hk : s.lemap.get name with
    | none => rfl
    | some k =>
        -- another name belongs to another LE
        have hkl : k ≠ l := by
          rintro rfl
          exact hname ((hs.lemap name k hk).1.symm.trans (hs.lemap id k hid).1)
        simp [hhost, hkl, hkept.label]

/-- An LE that the session does not know yet. -/
lemma leReported_of_new {s : StateUpdater n K} (h : s.WF) (hst : s.started = true)
    {id : String} (hid : s.lemap.get id = none) (hostID : String) (demand : Fin n → ℤ) :
    LeReported s { s with
      cs := { s.cs with mem := (s.cs.mem.newLe (Le.create id demand)).1 }
      observedLEs := insert id s.observedLEs
      lemap := s.lemap.insert id s.cs.mem.leCount
      newplacements := s.newplacements.insert id hostID } id hostID := by
  have hs := h.session hst
  have hself := Memory.newLe_fst_le_self s.cs.mem (Le.create id demand)
  have hold : ∀ k, k ≠ s.cs.mem.leCount →
      (s.cs.mem.newLe (Le.create id demand)).1.le k = s.cs.mem.le k :=
    fun k hk => Memory.newLe_fst_le_of_ne _ _ hk
  refine ⟨⟨h.cs.newLe id demand, fun _ => ⟨hs.observed, fun name k hk => ?_, fun k hk => ?_,
    fun name host hn => ?_⟩⟩, rfl, rfl, rfl, rfl, rfl, rfl, rfl, fun _ => rfl, fun _ => rfl, ?_,
    fun name hname => ?_⟩
  · rw [StringMap.get_insert] at hk
    split_ifs at hk with hname
    · rw [← Option.some.inj hk, hself, hname]
      exact ⟨rfl, Nat.lt_succ_self _⟩
    · obtain ⟨hl, hlt⟩ := hs.lemap name k hk
      rw [hold k hlt.ne]
      exact ⟨hl, Nat.lt_succ_of_lt hlt⟩
  · have hkne : k ≠ s.cs.mem.leCount := by
      rintro rfl
      exact hk (by rw [hself]; rfl)
    rw [hold k hkne] at hk ⊢
    have hk' := hs.hosted k hk
    rw [StringMap.get_insert_of_ne _ _ fun hc => ?_]
    · exact hk'
    · rw [hc, hid] at hk'
      exact absurd hk' (by simp)
  · rw [StringMap.get_insert] at hn
    split_ifs at hn with hname
    · exact ⟨Finset.mem_insert.mpr (Or.inl hname), s.cs.mem.leCount,
        by rw [hname, StringMap.get_insert_self], by rw [hself]; rfl⟩
    · obtain ⟨hobs, k, hk, hk0⟩ := hs.pending name host hn
      refine ⟨Finset.mem_insert_of_mem hobs, k, ?_, ?_⟩
      · rw [StringMap.get_insert_of_ne _ _ hname]
        exact hk
      · rw [hold k (hs.lemap name k hk).2.ne]
        exact hk0
  · simp [intendedHost]
  · simp only [intendedHost, StringMap.get_insert_of_ne _ _ hname]
    cases hk : s.lemap.get name with
    | none => rfl
    | some k => simp [hold k (hs.lemap name k hk).2.ne]

/-- `stateupdater_updateLE` in an open session. -/
lemma updateLE_spec {s : StateUpdater n K} (h : s.WF) (hst : s.started = true) (id hostID : String)
    (demand : Fin n → ℤ) : LeReported s (s.updateLE id hostID demand) id hostID := by
  have hs := h.session hst
  rw [updateLE, if_pos hst]
  cases hid : s.lemap.get id with
  | none =>
      simp only [hid]
      exact leReported_of_new h hst hid hostID demand
  | some l =>
      cases hl : (s.cs.mem.le l).host with
      | none =>
          simp only [hid, hl]
          refine leReported_of_moved h hst hid s.cs.mem ⟨h.cs, by simp⟩ (Memory.Kept.refl _)
            (fun k => ?_) rfl
          split_ifs with hk
          · rw [hk, hl]
          · rfl
      | some p =>
          obtain ⟨hp, hlp⟩ := (h.cs.host_iff l p).mp hl
          simp only [hid, hl]
          split_ifs with hlabel
          · -- the reported host is the one the LE is on: no new placement is pending
            have hnew : s.newplacements.get id = none := by
              by_contra hne
              obtain ⟨host, hhost⟩ := Option.ne_none_iff_exists'.mp hne
              obtain ⟨-, k, hk, hk0⟩ := hs.pending id host hhost
              rw [show k = l from Option.some.inj (hk.symm.trans hid), hl] at hk0
              exact absurd hk0 (by simp)
            have hpend : ∀ name host, s.newplacements.get name = some host →
                name ∈ insert id s.observedLEs ∧
                  ∃ l, s.lemap.get name = some l ∧ (s.cs.mem.le l).host = none :=
              fun name host hn => (hs.pending name host hn).imp_left Finset.mem_insert_of_mem
            refine ⟨⟨h.cs, fun _ => ⟨hs.observed, hs.lemap, hs.hosted, hpend⟩⟩, rfl, rfl, rfl,
              rfl, rfl, rfl, rfl, fun _ => rfl, fun _ => rfl, ?_, fun _ _ => rfl⟩
            simp [intendedHost, hid, hnew, hl, hlabel]
          · exact leReported_of_moved h hst hid _ ⟨h.cs.removeLE hp l, by simp⟩
              (Pe.frame_removeLE _ _ _).toKept (Pe.removeLE_host hlp) rfl

/-- What `stateupdater_updateLE` can do to the system and to the map of LEs:
nothing, take an LE off its host, or make a new LE. -/
lemma updateLE_cases (s : StateUpdater n K) (id hostID : String) (demand : Fin n → ℤ) :
    ((s.updateLE id hostID demand).cs = s.cs ∧ (s.updateLE id hostID demand).lemap = s.lemap)
      ∨ (∃ p l, (s.cs.mem.le l).host = some p
          ∧ (s.updateLE id hostID demand).cs
              = { s.cs with mem := (Pe.removeLE s.cs.mem p l true).2 }
          ∧ (s.updateLE id hostID demand).lemap = s.lemap)
      ∨ (s.updateLE id hostID demand).cs
            = { s.cs with mem := (s.cs.mem.newLe (Le.create id demand)).1 }
          ∧ (s.updateLE id hostID demand).lemap = s.lemap.insert id s.cs.mem.leCount := by
  cases hst : s.started with
  | false =>
      rw [updateLE_of_not_started hst]
      exact Or.inl ⟨rfl, rfl⟩
  | true =>
      rw [updateLE, if_pos hst]
      cases hid : s.lemap.get id with
      | none =>
          simp only [hid]
          exact Or.inr (Or.inr ⟨trivial, rfl⟩)
      | some l =>
          cases hl : (s.cs.mem.le l).host with
          | none =>
              simp only [hid, hl]
              exact Or.inl ⟨trivial, trivial⟩
          | some p =>
              simp only [hid, hl]
              split_ifs
              · exact Or.inl ⟨rfl, rfl⟩
              · exact Or.inr (Or.inl ⟨p, l, hl, rfl, rfl⟩)

lemma WF.updateLE {s : StateUpdater n K} (h : s.WF) (id hostID : String) (demand : Fin n → ℤ) :
    WF (s.updateLE id hostID demand) := by
  cases hst : s.started with
  | false => rwa [updateLE_of_not_started hst]
  | true => exact (updateLE_spec h hst id hostID demand).wf

lemma WF.report {s : StateUpdater n K} (h : s.WF) (r : Report n) : WF (s.report r) := by
  cases r with
  | pe id capacity ovf usage => exact h.updatePE id capacity ovf usage
  | le id hostID demand => exact h.updateLE id hostID demand

end StateUpdater

end KubeSafeScheduler.Pigeon
