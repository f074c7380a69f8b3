import KubeSafeScheduler.Pigeon.Recorder

/-!
What the vectors of the report say after a session, in terms of the system at
its start and of the reports.

* `Logs`: the invariant of an open session, relative to the state at its start
  and the reports so far; `logs_start`, `Logs.updatePE` and `Logs.updateLE` (one
  report), `Logs.reports` (all of them).
* `Counts`: how often a PE is noted as updated.
* `session_changes`: the vectors after a session.
-/

namespace KubeSafeScheduler.Pigeon

variable {n : ℕ} {K : Type}

namespace Recorder

/-! ### An open session and what it has noted -/

/-- Some report gives the LE another host. -/
def ReportedAway (reports : List (Report n)) (id host : String) : Prop :=
  ∃ hostID demand, Report.le id hostID demand ∈ reports ∧ hostID ≠ host

/-- The open session `r`, which began as `b`, and its vectors after these
reports. The LEs that `b` knows are hosted in it. -/
structure Logs (b : StateUpdater n K) (reports : List (Report n)) (r : Recorder n K) : Prop where
  follows : StateUpdater.Follows reports r.su
  names : r.su.cs.names = b.cs.names ++ r.changes.addedPEs
  addedPEs : ∀ id ∈ r.changes.addedPEs, lastCapacity reports id ≠ none
  deletedPEs : r.changes.deletedPEs = []
  pes : ∀ p ∈ b.cs.pes, p ∈ r.su.cs.pes ∧ (r.su.cs.mem.pe p).label = (b.cs.mem.pe p).label
  nodup_addedLEs : r.changes.addedLEs.Nodup
  mem_addedLEs : ∀ id, id ∈ r.changes.addedLEs ↔
    b.lemap.get id = none ∧ lastHost reports id ≠ none
  deletedLEs : r.changes.deletedLEs = []
  nodup_updatedLEs : r.changes.updatedLEs.Nodup
  mem_updatedLEs : ∀ id, id ∈ r.changes.updatedLEs ↔
    ∃ l p, b.lemap.get id = some l ∧ (b.cs.mem.le l).host = some p
      ∧ ReportedAway reports id (b.cs.mem.pe p).label
  known : ∀ id l, b.lemap.get id = some l → r.su.lemap.get id = some l
    ∧ (r.su.cs.mem.le l).host
        = if id ∈ r.changes.updatedLEs then none else (b.cs.mem.le l).host
  unknown : ∀ id, b.lemap.get id = none →
    (lastHost reports id = none → r.su.lemap.get id = none)
      ∧ ∀ l, r.su.lemap.get id = some l → (r.su.cs.mem.le l).host = none

/-- An accepted `stateupdater_start` empties the vectors. -/
lemma logs_start {r : Recorder n K} (h : r.su.WF) (ord : EnumOrder) {generation : ℤ}
    (hgen : r.su.gen < generation) :
    Logs (r.su.start ord generation).2 [] (r.start ord generation).2 := by
  have hsu := (su_start r ord generation).2
  have ho := (StateUpdater.start_spec h ord hgen).2
  have hchanges : (r.start ord generation).2.changes = {} := by
    rw [start, if_neg (not_le.mpr hgen)]
  rw [← hsu] at ho ⊢
  refine ⟨hsu ▸ StateUpdater.follows_start h ord hgen, ?_, ?_, ?_, fun p hp => ⟨hp, rfl⟩, ?_, ?_, ?_,
    ?_, ?_, fun id l hl => ⟨hl, ?_⟩, fun id hid => ⟨fun _ => hid, fun l hl => ?_⟩⟩
  all_goals try rw [hchanges]
  · exact (List.append_nil _).symm
  · simp
  · exact List.nodup_nil
  · simp [lastHost]
  · exact List.nodup_nil
  · simp [ReportedAway]
  · simp
  · rw [hid] at hl
    exact absurd hl (by simp)

lemma reportedAway_concat_pe (reports : List (Report n)) (id : String) (capacity : Fin n → ℤ)
    (ovf : Option (Fin n → Bool)) (usage : Option (Fin n → ℤ)) (name host : String) :
    ReportedAway (reports ++ [.pe id capacity ovf usage]) name host
      ↔ ReportedAway reports name host := by
  simp [ReportedAway]

lemma reportedAway_concat_le (reports : List (Report n)) (id hostID : String)
    (demand : Fin n → ℤ) (name host : String) :
    ReportedAway (reports ++ [.le id hostID demand]) name host
      ↔ ReportedAway reports name host ∨ id = name ∧ hostID ≠ host := by
  simp only [ReportedAway, List.mem_append, List.mem_singleton, Report.le.injEq]
  constructor
  · rintro ⟨h, d, hmem | ⟨rfl, rfl, rfl⟩, hne⟩
    · exact Or.inl ⟨h, d, hmem, hne⟩
    · exact Or.inr ⟨rfl, hne⟩
  · rintro (⟨h, d, hmem, hne⟩ | ⟨rfl, hne⟩)
    · exact ⟨h, d, Or.inl hmem, hne⟩
    · exact ⟨hostID, demand, Or.inr ⟨rfl, rfl, rfl⟩, hne⟩

/-- One report of a PE. -/
lemma Logs.updatePE {b : StateUpdater n K} {reports : List (Report n)} {r : Recorder n K}
    (h : Logs b reports r) (id : String) (capacity : Fin n → ℤ) (ovf : Option (Fin n → Bool))
    (usage : Option (Fin n → ℤ)) :
    Logs b (reports ++ [.pe id capacity ovf usage]) (r.updatePE id capacity ovf usage) := by
  have hwf := h.follows.wf
  have hst := h.follows.started
  have hr := StateUpdater.updatePE_spec hwf.cs hst id capacity ovf usage
  have hsu := su_updatePE r id capacity ovf usage
  have hcap := StateUpdater.lastCapacity_concat_pe reports id capacity ovf usage
  have hhost : ∀ name, lastHost (reports ++ [.pe id capacity ovf usage]) name
      = lastHost reports name := by
    intro name
    rw [lastHost_concat, Report.hostFor, Option.none_or]
  -- the vectors of the LEs are as they were
  have hles : (r.updatePE id capacity ovf usage).changes.addedLEs = r.changes.addedLEs
      ∧ (r.updatePE id capacity ovf usage).changes.deletedLEs = r.changes.deletedLEs
      ∧ (r.updatePE id capacity ovf usage).changes.updatedLEs = r.changes.updatedLEs
      ∧ (r.updatePE id capacity ovf usage).changes.deletedPEs = r.changes.deletedPEs := by
    rcases updatePE_cases hwf hst id capacity ovf usage with ⟨-, hc, -⟩ | ⟨p, -, hc, -⟩
    · rw [hc]
      exact ⟨rfl, rfl, rfl, rfl⟩
    · rw [hc]
      split_ifs
      all_goals exact ⟨rfl, rfl, rfl, rfl⟩
  obtain ⟨c1, c2, c3, c4⟩ := hles
  have hpes : (r.updatePE id capacity ovf usage).su.cs.names
        = b.cs.names ++ (r.updatePE id capacity ovf usage).changes.addedPEs
      ∧ ∀ name ∈ (r.updatePE id capacity ovf usage).changes.addedPEs,
        lastCapacity (reports ++ [.pe id capacity ovf usage]) name ≠ none := by
    have hold : ∀ name ∈ r.changes.addedPEs,
        lastCapacity (reports ++ [.pe id capacity ovf usage]) name ≠ none := by
      intro name hname
      rw [hcap]
      split_ifs
      · simp
      · exact h.addedPEs name hname
    rcases updatePE_cases hwf hst id capacity ovf usage with ⟨-, hc, hn⟩ | ⟨p, -, hc, hn⟩
    · rw [hc, hn, h.names, List.append_assoc]
      refine ⟨rfl, fun name hname => ?_⟩
      rcases List.mem_append.mp hname with hname | hname
      · exact hold name hname
      · rw [hcap, if_pos (List.mem_singleton.mp hname).symm]
        simp
    · have hadded : (r.updatePE id capacity ovf usage).changes.addedPEs = r.changes.addedPEs := by
        rw [hc]
        split_ifs <;> rfl
      rw [hn, hadded]
      exact ⟨h.names, hold⟩
  refine ⟨hsu ▸ h.follows.updatePE id capacity ovf usage, hpes.1, hpes.2, c4.trans h.deletedPEs,
    fun p hp => ?_, c1 ▸ h.nodup_addedLEs, fun name => ?_, c2.trans h.deletedLEs,
    c3 ▸ h.nodup_updatedLEs, fun name => ?_, fun name l hl => ?_, fun name hname => ?_⟩
  · obtain ⟨hp', hlabel⟩ := h.pes p hp
    rw [hsu]
    exact ⟨hr.mem_pes p hp', (hr.label p hp').trans hlabel⟩
  · rw [c1, h.mem_addedLEs, hhost]
  · simp only [c3, h.mem_updatedLEs, reportedAway_concat_pe]
  · rw [hsu, hr.lemap, hr.le, c3]
    exact h.known name l hl
  · rw [hsu, hr.lemap, hr.le, hhost]
    exact h.unknown name hname

/-- A name that was reported is known, and so is one that was hosted before. -/
lemma Logs.lemap_ne_none {b : StateUpdater n K} {reports : List (Report n)} {r : Recorder n K}
    (h : Logs b reports r) {id : String} (hid : r.su.lemap.get id = none) :
    b.lemap.get id = none ∧ lastHost reports id = none := by
  constructor
  · by_contra hne
    obtain ⟨l, hl⟩ := Option.ne_none_iff_exists'.mp hne
    rw [(h.known id l hl).1] at hid
    exact absurd hid (by simp)
  · by_contra hne
    obtain ⟨host, hhost⟩ := Option.ne_none_iff_exists'.mp hne
    have hintended := h.follows.host id host hhost
    rw [StateUpdater.intendedHost, hid] at hintended
    exact absurd hintended (by simp)

/-- An LE that has a host in the session has had it from its start. -/
lemma Logs.host_eq {b : StateUpdater n K} {reports : List (Report n)} {r : Recorder n K}
    (h : Logs b reports r) {id : String} {l : LeRef} {p : PeRef}
    (hl : r.su.lemap.get id = some l) (hp : (r.su.cs.mem.le l).host = some p) :
    b.lemap.get id = some l ∧ (b.cs.mem.le l).host = some p ∧ id ∉ r.changes.updatedLEs := by
  cases hb : b.lemap.get id with
  | none =>
      rw [(h.unknown id hb).2 l hl] at hp
      exact absurd hp (by simp)
  | some k =>
      obtain ⟨hk, hhost⟩ := h.known id k hb
      obtain rfl : k = l := Option.some.inj (hk.symm.trans hl)
      rw [hhost] at hp
      split_ifs at hp with hmem
      exact ⟨rfl, hp, hmem⟩

/-- A report about an LE does not touch what is noted about the PEs. -/
lemma Logs.pes_updateLE {b : StateUpdater n K} {reports : List (Report n)} {r : Recorder n K}
    (h : Logs b reports r) (id hostID : String) (demand : Fin n → ℤ) :
    (r.updateLE id hostID demand).su.cs.names
        = b.cs.names ++ (r.updateLE id hostID demand).changes.addedPEs
      ∧ (∀ name ∈ (r.updateLE id hostID demand).changes.addedPEs,
          lastCapacity (reports ++ [.le id hostID demand]) name ≠ none)
      ∧ (r.updateLE id hostID demand).changes.deletedPEs = []
      ∧ (r.updateLE id hostID demand).changes.deletedLEs = []
      ∧ ∀ p ∈ b.cs.pes, p ∈ (r.updateLE id hostID demand).su.cs.pes
          ∧ ((r.updateLE id hostID demand).su.cs.mem.pe p).label = (b.cs.mem.pe p).label := by
  have hwf := h.follows.wf
  have hst := h.follows.started
  have hr := StateUpdater.updateLE_spec hwf hst id hostID demand
  have hsu := su_updateLE r id hostID demand
  have hnames : (r.updateLE id hostID demand).su.cs.names = r.su.cs.names := by
    rw [hsu, CloudSystem.names, hr.pes]
    exact List.map_congr_left fun p _ => hr.label p
  have hsame : (r.updateLE id hostID demand).changes.addedPEs = r.changes.addedPEs
      ∧ (r.updateLE id hostID demand).changes.deletedPEs = r.changes.deletedPEs
      ∧ (r.updateLE id hostID demand).changes.deletedLEs = r.changes.deletedLEs := by
    rcases updateLE_cases hwf hst id hostID demand with
      ⟨-, hc, -⟩ | ⟨l, -, -, hc, -⟩ | ⟨l, p, -, -, -, hc, -⟩
    all_goals
      rw [hc]
      exact ⟨rfl, rfl, rfl⟩
  refine ⟨?_, fun name hname => ?_, hsame.2.1.trans h.deletedPEs, hsame.2.2.trans h.deletedLEs,
    fun p hp => ?_⟩
  · rw [hnames, hsame.1, h.names]
  · rw [lastCapacity_concat, Report.capacityFor, Option.none_or]
    exact h.addedPEs name (hsame.1 ▸ hname)
  · obtain ⟨hp', hlabel⟩ := h.pes p hp
    rw [hsu, hr.pes]
    exact ⟨hp', (hr.label p).trans hlabel⟩

/-- One report of an LE. -/
lemma Logs.updateLE {b : StateUpdater n K} {reports : List (Report n)} {r : Recorder n K}
    (h : Logs b reports r) (hb : b.cs.WF) (id hostID : String) (demand : Fin n → ℤ) :
    Logs b (reports ++ [.le id hostID demand]) (r.updateLE id hostID demand) := by
  have hwf := h.follows.wf
  have hst := h.follows.started
  have hs := hwf.session hst
  have hfollows : StateUpdater.Follows (reports ++ [.le id hostID demand])
      (r.updateLE id hostID demand).su :=
    su_updateLE r id hostID demand ▸ h.follows.updateLE id hostID demand
  obtain ⟨p1, p2, p3, p4, p5⟩ := h.pes_updateLE id hostID demand
  have hlast := StateUpdater.lastHost_concat_le reports id hostID demand
  have haway := reportedAway_concat_le reports id hostID demand
  rcases updateLE_cases hwf hst id hostID demand with
    ⟨hid, hc, hmap, hhost⟩ | ⟨l, hid, hstay, hc, hmap, hhost⟩
      | ⟨l, p, hid, hl, hne, hc, hmap, hhost⟩
  · -- the LE is new
    obtain ⟨hbid, hnone⟩ := h.lemap_ne_none hid
    have hnew : id ∉ r.changes.addedLEs := fun hmem => ((h.mem_addedLEs id).mp hmem).2 hnone
    have hadded : (r.updateLE id hostID demand).changes.addedLEs = r.changes.addedLEs ++ [id] := by
      rw [hc]
    have hupdated : (r.updateLE id hostID demand).changes.updatedLEs = r.changes.updatedLEs := by
      rw [hc]
    have hother : ∀ name l, b.lemap.get name = some l → name ≠ id := by
      rintro name l hl rfl
      rw [hbid] at hl
      exact absurd hl (by simp)
    refine ⟨hfollows, p1, p2, p3, p5, ?_, fun name => ?_, p4, hupdated ▸ h.nodup_updatedLEs,
      fun name => ?_, fun name l hl => ?_, fun name hname => ⟨fun hn => ?_, fun l hl => ?_⟩⟩
    · rw [hadded, List.nodup_append_comm, List.singleton_append]
      exact List.nodup_cons.mpr ⟨hnew, h.nodup_addedLEs⟩
    · rw [hadded, List.mem_append, List.mem_singleton, h.mem_addedLEs, hlast]
      by_cases hname : id = name
      · subst hname
        simp [hbid]
      · simp [hname, Ne.symm hname]
    · rw [hupdated, h.mem_updatedLEs]
      refine exists_congr fun l => exists_congr fun p => and_congr_right fun hl => ?_
      rw [haway]
      simp [(hother name l hl).symm]
    · rw [hmap, hhost, hupdated, StringMap.get_insert_of_ne _ _ (hother name l hl)]
      exact h.known name l hl
    · rw [hlast] at hn
      split_ifs at hn with hname'
      rw [hmap, StringMap.get_insert_of_ne _ _ (Ne.symm hname')]
      exact (h.unknown name hname).1 hn
    · rw [hhost]
      rw [hmap, StringMap.get_insert] at hl
      split_ifs at hl with hname'
      · by_contra hne
        exact absurd (hwf.cs.host_lt l hne) (Option.some.inj hl ▸ lt_irrefl _)
      · exact (h.unknown name hname).2 l hl
  · -- the LE stays where it is
    have hadded : (r.updateLE id hostID demand).changes.addedLEs = r.changes.addedLEs := by
      rw [hc]
    have hupdated : (r.updateLE id hostID demand).changes.updatedLEs = r.changes.updatedLEs := by
      rw [hc]
    refine ⟨hfollows, p1, p2, p3, p5, hadded ▸ h.nodup_addedLEs, fun name => ?_, p4,
      hupdated ▸ h.nodup_updatedLEs, fun name => ?_, fun name k hk => ?_,
      fun name hname => ⟨fun hn => ?_, fun k hk => ?_⟩⟩
    · rw [hadded, h.mem_addedLEs, hlast]
      refine and_congr_right fun hname => ?_
      split_ifs with hname'
      · have hreported : lastHost reports name ≠ none := by
          intro hnone
          have hfree := (h.unknown name hname).1 hnone
          rw [← hname', hid] at hfree
          exact absurd hfree (by simp)
        simp [hreported]
      · rfl
    · rw [hupdated]
      constructor
      · intro hmem
        obtain ⟨k, q, hk, hq, ha⟩ := (h.mem_updatedLEs name).mp hmem
        exact ⟨k, q, hk, hq, (haway _ _).mpr (Or.inl ha)⟩
      · rintro ⟨k, q, hk, hq, ha⟩
        rcases (haway _ _).mp ha with ha | ⟨rfl, hne⟩
        · exact (h.mem_updatedLEs name).mpr ⟨k, q, hk, hq, ha⟩
        · by_contra hmem
          -- it is still on the host it had at the start
          obtain ⟨hk', hhost'⟩ := h.known id k hk
          obtain rfl : k = l := Option.some.inj (hk'.symm.trans hid)
          rw [if_neg hmem, hq] at hhost'
          have hlabel := (h.pes q ((hb.host_iff k q).mp hq).1).2
          exact hne ((hstay q hhost').symm.trans hlabel)
    · rw [hmap, hhost, hupdated]
      exact h.known name k hk
    · rw [hlast] at hn
      split_ifs at hn
      rw [hmap]
      exact (h.unknown name hname).1 hn
    · rw [hhost]
      rw [hmap] at hk
      exact (h.unknown name hname).2 k hk
  · -- the LE is taken off the host it had at the start
    obtain ⟨hbid, hbl, hmem⟩ := h.host_eq hid hl
    have hadded : (r.updateLE id hostID demand).changes.addedLEs = r.changes.addedLEs := by
      rw [hc]
    have hupdated : (r.updateLE id hostID demand).changes.updatedLEs
        = r.changes.updatedLEs ++ [id] := by
      rw [hc]
    have hlabel := (h.pes p ((hb.host_iff l p).mp hbl).1).2
    have hsome : b.lemap.get id ≠ none := by simp [hbid]
    refine ⟨hfollows, p1, p2, p3, p5, hadded ▸ h.nodup_addedLEs, fun name => ?_, p4, ?_,
      fun name => ?_, fun name k hk => ?_, fun name hname => ⟨fun hn => ?_, fun k hk => ?_⟩⟩
    · rw [hadded, h.mem_addedLEs, hlast]
      refine and_congr_right fun hname => ?_
      have hname' : id ≠ name := fun heq => hsome (heq ▸ hname)
      rw [if_neg hname']
    · rw [hupdated, List.nodup_append_comm, List.singleton_append]
      exact List.nodup_cons.mpr ⟨hmem, h.nodup_updatedLEs⟩
    · rw [hupdated, List.mem_append, List.mem_singleton, h.mem_updatedLEs]
      constructor
      · rintro (⟨k, q, hk, hq, ha⟩ | rfl)
        · exact ⟨k, q, hk, hq, (haway _ _).mpr (Or.inl ha)⟩
        · exact ⟨l, p, hbid, hbl, (haway _ _).mpr (Or.inr ⟨rfl, fun heq =>
            hne (hlabel.trans heq.symm)⟩)⟩
      · rintro ⟨k, q, hk, hq, ha⟩
        rcases (haway _ _).mp ha with ha | ⟨rfl, -⟩
        · exact Or.inl ⟨k, q, hk, hq, ha⟩
        · exact Or.inr rfl
    · obtain ⟨hk', hhost'⟩ := h.known name k hk
      rw [hmap, hhost, hupdated, hhost']
      refine ⟨hk', ?_⟩
      by_cases hname : name = id
      · have hkl : k = l := Option.some.inj (hk.symm.trans (hname ▸ hbid))
        simp [hname, hkl]
      · have hkl : k ≠ l := by
          rintro rfl
          exact hname ((hs.lemap name k hk').1.symm.trans (hs.lemap id k hid).1)
        simp [hname, hkl]
    · rw [hlast] at hn
      split_ifs at hn
      rw [hmap]
      exact (h.unknown name hname).1 hn
    · rw [hhost]
      rw [hmap] at hk
      split_ifs
      · rfl
      · exact (h.unknown name hname).2 k hk

/-- All reports of a session. -/
lemma Logs.reports {b : StateUpdater n K} {r : Recorder n K} (h : Logs b [] r) (hb : b.cs.WF)
    (reports : List (Report n)) : Logs b reports (reports.foldl report r) := by
  induction reports using List.reverseRecOn with
  | nil => exact h
  | append_singleton reports x ih =>
      rw [List.foldl_append, List.foldl_cons, List.foldl_nil]
      cases x with
      | pe id capacity ovf usage => exact ih.updatePE id capacity ovf usage
      | le id hostID demand => exact ih.updateLE hb id hostID demand

/-! ### The PEs that were updated -/

/-- How often a sequence changes. -/
def changeCount {α : Type*} [DecidableEq α] : List α → ℕ
  | a :: b :: l => (if a = b then 0 else 1) + changeCount (b :: l)
  | _ => 0

lemma changeCount_concat {α : Type*} [DecidableEq α] {l : List α} {a : α}
    (h : l.getLast? = some a) (b : α) :
    changeCount (l ++ [b]) = changeCount l + if a = b then 0 else 1 := by
  induction l with
  | nil => simp at h
  | cons c l ih =>
      cases l with
      | nil =>
          obtain rfl : c = a := by simpa using h
          simp [changeCount]
      | cons d l =>
          have ih' := ih (by simpa using h)
          simp only [List.cons_append, changeCount] at ih' ⊢
          rw [ih', add_assoc]

/-- The capacities of a PE in a session: the one it begins with, if it is in the
system, and those reported. -/
def capacities (before : CloudSystem n K) (reports : List (Report n)) (id : String) :
    List (Fin n → ℤ) :=
  ((before.getPE id).map fun p => (before.mem.pe p).resource.capacity).toList
    ++ reports.filterMap (Report.capacityFor id)

/-- A report gives no usage to the PE. -/
def UsageFree (id : String) : Report n → Prop
  | .pe name _ _ usage => name = id → usage = none
  | .le _ _ _ => True

/-- The vector of updated PEs has a name as often as its capacity changed so
far, and the last capacity is in the system. -/
structure Counts (before : CloudSystem n K) (reports : List (Report n)) (r : Recorder n K)
    (id : String) : Prop where
  count : r.changes.updatedPEs.count id = changeCount (capacities before reports id)
  last : (r.su.cs.getPE id).map (fun p => (r.su.cs.mem.pe p).resource.capacity)
    = (capacities before reports id).getLast?

lemma capacities_concat (before : CloudSystem n K) (reports : List (Report n)) (x : Report n)
    (id : String) : capacities before (reports ++ [x]) id
      = capacities before reports id ++ (x.capacityFor id).toList := by
  rw [capacities, List.filterMap_append, ← List.append_assoc]
  cases h : x.capacityFor id <;> simp [capacities, h]

/-- One report of the PE itself. -/
lemma Counts.updatePE {before : CloudSystem n K} {reports : List (Report n)} {r : Recorder n K}
    {id : String} (h : Counts before reports r id) (hwf : r.su.WF) (hst : r.su.started = true)
    {capacity : Fin n → ℤ} (hcap : ∀ k, 0 ≤ capacity k) (ovf : Option (Fin n → Bool)) :
    Counts before (reports ++ [.pe id capacity ovf none]) (r.updatePE id capacity ovf none) id := by
  have hr := StateUpdater.updatePE_spec hwf.cs hst id capacity ovf none
  have hcaps : capacities before (reports ++ [.pe id capacity ovf none]) id
      = capacities before reports id ++ [capacity] := by
    rw [capacities_concat, Report.capacityFor, if_pos rfl]
    rfl
  have hlast : ((r.updatePE id capacity ovf none).su.cs.getPE id).map
        (fun p => ((r.updatePE id capacity ovf none).su.cs.mem.pe p).resource.capacity)
      = (capacities before (reports ++ [.pe id capacity ovf none]) id).getLast? := by
    obtain ⟨p, hp, hpc, -⟩ := hr.reported
    rw [su_updatePE, hp, Option.map_some, hpc hcap, hcaps, List.getLast?_concat]
  refine ⟨?_, hlast⟩
  rw [hcaps]
  rcases updatePE_cases hwf hst id capacity ovf none with ⟨hget, hc, -⟩ | ⟨p, hget, hc, -⟩
  · -- nothing was known of the PE
    have hnil := h.last
    rw [hget, Option.map_none] at hnil
    have hcount := h.count
    rw [List.getLast?_eq_none_iff.mp hnil.symm] at hcount ⊢
    rw [hc]
    exact hcount
  · have hold := h.last
    rw [hget, Option.map_some] at hold
    have hchanged : (r.su.cs.mem.pe p).resource.haschanged capacity none = true
        ↔ (r.su.cs.mem.pe p).resource.capacity ≠ capacity := by
      simp [Resource.haschanged, Function.ne_iff]
    rw [changeCount_concat hold.symm, hc, ← h.count]
    by_cases heq : (r.su.cs.mem.pe p).resource.capacity = capacity
    · rw [if_neg fun hch => hchanged.mp hch heq, if_pos heq, add_zero]
    · rw [if_pos (hchanged.mpr heq), if_neg heq]
      simp

/-- One report of something else. -/
lemma Counts.other {before : CloudSystem n K} {reports : List (Report n)} {r r' : Recorder n K}
    {id : String} (h : Counts before reports r id) {x : Report n} (hx : x.capacityFor id = none)
    (hcount : r'.changes.updatedPEs.count id = r.changes.updatedPEs.count id)
    (hget : r'.su.cs.getPE id = r.su.cs.getPE id)
    (hcap : ∀ p, r.su.cs.getPE id = some p →
      (r'.su.cs.mem.pe p).resource.capacity = (r.su.cs.mem.pe p).resource.capacity) :
    Counts before (reports ++ [x]) r' id := by
  have hcaps : capacities before (reports ++ [x]) id = capacities before reports id := by
    rw [capacities_concat, hx]
    exact List.append_nil _
  refine ⟨by rw [hcount, hcaps, h.count], ?_⟩
  rw [hcaps, hget, ← h.last]
  cases hp : r.su.cs.getPE id with
  | none => rfl
  | some p => rw [Option.map_some, Option.map_some, hcap p hp]

lemma Counts.report {b : StateUpdater n K} {before : CloudSystem n K} {reports : List (Report n)}
    {r : Recorder n K} {id : String} (h : Counts before reports r id) (hl : Logs b reports r)
    {x : Report n} (hx : x.Nonneg) (hfree : UsageFree id x) :
    Counts before (reports ++ [x]) (r.report x) id := by
  have hwf := hl.follows.wf
  have hst := hl.follows.started
  cases x with
  | pe name capacity ovf usage =>
      by_cases hname : name = id
      · subst hname
        obtain rfl := hfree rfl
        exact h.updatePE hwf hst hx ovf
      · have hr := StateUpdater.updatePE_spec hwf.cs hst name capacity ovf usage
        have hsu := su_updatePE r name capacity ovf usage
        refine h.other (if_neg hname) ?_ ?_ fun p hp => ?_
        · rcases updatePE_cases hwf hst name capacity ovf usage with ⟨-, hc, -⟩ | ⟨p, -, hc, -⟩
          · exact (congrArg (fun c : Changes => c.updatedPEs.count id) hc).trans rfl
          · refine (congrArg (fun c : Changes => c.updatedPEs.count id) hc).trans ?_
            split_ifs
            · simp [hname]
            · rfl
        · show (r.updatePE name capacity ovf usage).su.cs.getPE id = _
          rw [hsu]
          exact hr.getPE_ne id (Ne.symm hname)
        · obtain ⟨hp', hlabel⟩ := hwf.cs.getPE_eq_some.mp hp
          show ((r.updatePE name capacity ovf usage).su.cs.mem.pe p).resource.capacity = _
          rw [hsu, hr.resource_ne p hp' fun hc => hname (hc.symm.trans hlabel)]
  | le name hostID demand =>
      have hr := StateUpdater.updateLE_spec hwf hst name hostID demand
      have hsu := su_updateLE r name hostID demand
      refine h.other rfl ?_ ?_ fun p _ => ?_
      · rcases updateLE_cases hwf hst name hostID demand with
          ⟨-, hc, -⟩ | ⟨l, -, -, hc, -⟩ | ⟨l, p, -, -, -, hc, -⟩
        all_goals exact (congrArg (fun c : Changes => c.updatedPEs.count id) hc).trans rfl
      · show (r.updateLE name hostID demand).su.cs.pemap.get id = _
        rw [hsu, hr.pemap]
        rfl
      · show ((r.updateLE name hostID demand).su.cs.mem.pe p).resource.capacity = _
        rw [hsu, hr.capacity]

/-- All reports of a session, none with a negative capacity. -/
lemma counts_reports {b : StateUpdater n K} {r : Recorder n K} (h : Logs b [] r) (hb : b.cs.WF)
    (hsu : r.su = b) (hempty : r.changes.updatedPEs = []) (reports : List (Report n))
    (hcap : ∀ x ∈ reports, x.Nonneg) (id : String) (hfree : ∀ x ∈ reports, UsageFree id x) :
    Counts b.cs reports (reports.foldl report r) id := by
  induction reports using List.reverseRecOn with
  | nil =>
      refine ⟨?_, ?_⟩
      · rw [List.foldl_nil, hempty, capacities]
        cases b.cs.getPE id <;> rfl
      · rw [List.foldl_nil, hsu, capacities]
        cases b.cs.getPE id <;> rfl
  | append_singleton reports x ih =>
      rw [List.foldl_append, List.foldl_cons, List.foldl_nil]
      have hmem : ∀ y ∈ reports, y ∈ reports ++ [x] := fun y hy => List.mem_append_left _ hy
      refine (ih (fun y hy => hcap y (hmem y hy)) fun y hy => hfree y (hmem y hy)).report
        (h.reports hb reports) (hcap x ?_) (hfree x ?_)
      all_goals exact List.mem_append_right _ (List.mem_singleton.mpr rfl)

/-! ### A whole session -/

/-- The LE of a name is hosted on the PE of a name. -/
def Places (cs : CloudSystem n K) (id host : String) : Prop :=
  ∃ l p, (cs.mem.le l).host = some p ∧ (cs.mem.le l).label = id ∧ (cs.mem.pe p).label = host

/-- The PE that a report changes: its capacity, or the usage that the report gives,
is not the one that the system has just before. -/
def changedBy (s : StateUpdater n K) : Report n → List String
  | .pe id capacity _ usage =>
      if s.started = true
          ∧ ∃ p, s.cs.getPE id = some p ∧ (s.cs.mem.pe p).resource.haschanged capacity usage = true
      then [id] else []
  | .le _ _ _ => []

/-- The PEs that the reports of a session change, in the order of the reports. -/
def changedPEs (s : StateUpdater n K) : List (Report n) → List String
  | [] => []
  | x :: reports => changedBy s x ++ changedPEs (s.report x) reports

/-- What the vectors say after a session that began with the system `before`. -/
structure Accounts (before : CloudSystem n K) (reports : List (Report n)) (after : Recorder n K) :
    Prop where
  names : after.su.cs.names
    = (before.names.filter fun id => id ∉ after.changes.deletedPEs) ++ after.changes.addedPEs
  deletedPEs : after.changes.deletedPEs
    = before.names.filter fun id => lastCapacity reports id = none
  nodup_addedPEs : after.changes.addedPEs.Nodup
  mem_addedPEs : ∀ id, id ∈ after.changes.addedPEs ↔
    id ∉ before.names ∧ lastCapacity reports id ≠ none
  count_updatedPEs : (∀ x ∈ reports, x.Nonneg) → ∀ id, (∀ x ∈ reports, UsageFree id x) →
    after.changes.updatedPEs.count id = changeCount (capacities before reports id)
  nodup_addedLEs : after.changes.addedLEs.Nodup
  mem_addedLEs : ∀ id, id ∈ after.changes.addedLEs ↔
    (∀ host, ¬ Places before id host) ∧ lastHost reports id ≠ none
  nodup_updatedLEs : after.changes.updatedLEs.Nodup
  mem_updatedLEs : ∀ id, id ∈ after.changes.updatedLEs ↔
    ∃ host, Places before id host ∧ ReportedAway reports id host
  nodup_deletedLEs : after.changes.deletedLEs.Nodup
  mem_deletedLEs : ∀ id, id ∈ after.changes.deletedLEs ↔
    ∃ host, Places before id host ∧ lastHost reports id = none ∧ lastCapacity reports host ≠ none

/-- A report of a PE leaves it in the system. -/
lemma Logs.mem_names {b : StateUpdater n K} {reports : List (Report n)} {r : Recorder n K}
    (h : Logs b reports r) {id : String} (hid : lastCapacity reports id ≠ none) :
    id ∈ r.su.cs.names :=
  List.mem_map.mpr ((h.follows.wf.session h.follows.started).observed id
    ((h.follows.observedPEs id).mpr hid))

/-- The LEs that the session began with, by name and host. -/
lemma places_iff {b : StateUpdater n K}
    (hlemap : ∀ id l, b.lemap.get id = some l ↔
      (b.cs.mem.le l).host ≠ none ∧ (b.cs.mem.le l).label = id) {id host : String} :
    Places b.cs id host ↔ ∃ l p, b.lemap.get id = some l ∧ (b.cs.mem.le l).host = some p
      ∧ (b.cs.mem.pe p).label = host := by
  refine exists_congr fun l => exists_congr fun p => ?_
  rw [hlemap]
  constructor
  · rintro ⟨hl, hid, hp⟩
    exact ⟨⟨by simp [hl], hid⟩, hl, hp⟩
  · rintro ⟨⟨-, hid⟩, hl, hp⟩
    exact ⟨hl, hid, hp⟩

/-- The names that the session did not begin with. -/
lemma lemap_eq_none_iff {b : StateUpdater n K}
    (hlemap : ∀ id l, b.lemap.get id = some l ↔
      (b.cs.mem.le l).host ≠ none ∧ (b.cs.mem.le l).label = id) {id : String} :
    b.lemap.get id = none ↔ ∀ host, ¬ Places b.cs id host := by
  constructor
  · intro hid host hp
    obtain ⟨l, p, hl, -⟩ := (places_iff hlemap).mp hp
    rw [hid] at hl
    exact absurd hl (by simp)
  · intro hno
    by_contra hne
    obtain ⟨l, hl⟩ := Option.ne_none_iff_exists'.mp hne
    obtain ⟨hhost, hlabel⟩ := (hlemap id l).mp hl
    obtain ⟨p, hp⟩ := Option.ne_none_iff_exists'.mp hhost
    exact hno _ ⟨l, p, hp, hlabel, rfl⟩

lemma not_reportedAway {reports : List (Report n)} {id : String}
    (h : lastHost reports id = none) (host : String) : ¬ ReportedAway reports id host := by
  rintro ⟨hostID, demand, hmem, -⟩
  have hnil : reports.filterMap (Report.hostFor id) = [] := List.getLast?_eq_none_iff.mp h
  have : hostID ∈ reports.filterMap (Report.hostFor id) :=
    List.mem_filterMap.mpr ⟨_, hmem, by simp [Report.hostFor]⟩
  rw [hnil] at this
  exact List.not_mem_nil this

/-- The PEs that `stateupdater_stop` deletes and leaves. -/
lemma Logs.names_stop {b : StateUpdater n K} {reports : List (Report n)} {r : Recorder n K}
    (h : Logs b reports r) (ord : EnumOrder) :
    (r.stop ord).changes.deletedPEs = b.cs.names.filter (fun id => lastCapacity reports id = none)
      ∧ (r.stop ord).su.cs.names
          = b.cs.names.filter (fun id => lastCapacity reports id ≠ none) ++ r.changes.addedPEs := by
  have hwf := h.follows.wf
  have hst := h.follows.started
  have hc := StateUpdater.stop_spec hwf hst ord
  have hnone : r.changes.addedPEs.filter (fun id => id ∉ r.su.observedPEs) = [] := by
    refine List.filter_eq_nil_iff.mpr fun id hid => ?_
    simpa using (h.follows.observedPEs id).mpr (h.addedPEs id hid)
  have hall : r.changes.addedPEs.filter (fun id => id ∈ r.su.observedPEs) = r.changes.addedPEs := by
    refine List.filter_eq_self.mpr fun id hid => ?_
    simpa using (h.follows.observedPEs id).mpr (h.addedPEs id hid)
  constructor
  · rw [changes_stop hwf hst, h.deletedPEs, h.names, List.nil_append, List.filter_append, hnone,
      List.append_nil]
    exact List.filter_congr fun id _ => by simp [h.follows.observedPEs]
  · have hnames : (r.stop ord).su.cs.names
        = r.su.cs.names.filter fun id => id ∈ r.su.observedPEs := by
      rw [su_stop, CloudSystem.names, hc.pes, CloudSystem.names, List.filter_map]
      exact List.map_congr_left fun p _ => hc.kept.label p
    rw [hnames, h.names, List.filter_append, hall]
    congr 1
    exact List.filter_congr fun id _ => by simp [h.follows.observedPEs]

/-- The LEs that `stateupdater_stop` deletes. -/
lemma Logs.mem_deletedLEs_stop {b : StateUpdater n K} {reports : List (Report n)}
    {r : Recorder n K} (h : Logs b reports r) (hb : b.cs.WF) (ord : EnumOrder) (id : String) :
    id ∈ (r.stop ord).changes.deletedLEs ↔
      ∃ l p, b.lemap.get id = some l ∧ (b.cs.mem.le l).host = some p
        ∧ lastHost reports id = none ∧ lastCapacity reports (b.cs.mem.pe p).label ≠ none := by
  have hwf := h.follows.wf
  have hst := h.follows.started
  have hs := hwf.session hst
  rw [changes_stop hwf hst, h.deletedLEs, List.nil_append, List.mem_map]
  constructor
  · rintro ⟨l, hl, rfl⟩
    obtain ⟨hl, hdel⟩ := List.mem_filter.mp hl
    obtain ⟨id, hid⟩ := StringMap.mem_getvalues.mp (ord.mem_order.mp hl)
    simp only [deletes, Bool.and_eq_true, decide_eq_true_eq, Option.isSome_iff_exists,
      Option.filter_eq_some_iff] at hdel
    obtain ⟨hobs, p, hp, hpobs⟩ := hdel
    rw [(hs.lemap id l hid).1] at hobs ⊢
    obtain ⟨hbl, hbp, -⟩ := h.host_eq hid hp
    refine ⟨l, p, hbl, hbp, ?_, ?_⟩
    · by_contra hne
      exact hobs ((h.follows.observedLEs id).mpr hne)
    · rw [← (h.pes p ((hb.host_iff l p).mp hbp).1).2]
      exact (h.follows.observedPEs _).mp hpobs
  · rintro ⟨l, p, hbl, hbp, hlast, hcap⟩
    obtain ⟨hl, hhost⟩ := h.known id l hbl
    have hmem : id ∉ r.changes.updatedLEs := by
      intro hmem
      obtain ⟨-, q, -, -, ha⟩ := (h.mem_updatedLEs id).mp hmem
      exact not_reportedAway hlast _ ha
    rw [if_neg hmem, hbp] at hhost
    have hlabel := (hs.lemap id l hl).1
    refine ⟨l, List.mem_filter.mpr ⟨ord.mem_order.mpr (StringMap.mem_getvalues.mpr ⟨id, hl⟩), ?_⟩,
      hlabel⟩
    have hobs : id ∉ r.su.observedLEs := fun hc => (h.follows.observedLEs id).mp hc hlast
    have hpobs : (r.su.cs.mem.pe p).label ∈ r.su.observedPEs := by
      rw [(h.pes p ((hb.host_iff l p).mp hbp).1).2]
      exact (h.follows.observedPEs _).mpr hcap
    simp [deletes, hlabel, hobs, hhost, hpobs]

lemma updatedPEs_report (r : Recorder n K) (x : Report n) :
    (r.report x).changes.updatedPEs = r.changes.updatedPEs ++ changedBy r.su x := by
  cases x with
  | pe id capacity ovf usage =>
      rw [report, Recorder.updatePE, changedBy]
      cases hst : r.su.started with
      | false => simp
      | true =>
          cases hget : r.su.cs.getPE id with
          | none => simp
          | some p =>
              cases hch : (r.su.cs.mem.pe p).resource.haschanged capacity usage <;> simp [hch]
  | le id hostID demand =>
      rw [report, Recorder.updateLE, changedBy, List.append_nil]
      split_ifs
      · dsimp only
        split
        · split
          · split_ifs <;> rfl
          · rfl
        · rfl
      · rfl

lemma updatedPEs_reports (r : Recorder n K) (reports : List (Report n)) :
    (reports.foldl report r).changes.updatedPEs
      = r.changes.updatedPEs ++ changedPEs r.su reports := by
  induction reports generalizing r with
  | nil => exact (List.append_nil _).symm
  | cons x reports ih =>
      rw [List.foldl_cons, ih, updatedPEs_report, changedPEs, List.append_assoc, su_report]

lemma updatedPEs_stop (r : Recorder n K) (ord : EnumOrder) :
    (r.stop ord).changes.updatedPEs = r.changes.updatedPEs := by
  rw [stop]
  split_ifs <;> rfl

/-- What `stateupdater_stop` leaves in the vectors of an open session. -/
lemma Logs.accounts_stop {b : StateUpdater n K} {reports : List (Report n)} {r : Recorder n K}
    (h : Logs b reports r) (hb : b.cs.WF)
    (hlemap : ∀ id l, b.lemap.get id = some l ↔
      (b.cs.mem.le l).host ≠ none ∧ (b.cs.mem.le l).label = id)
    (hcounts : (∀ x ∈ reports, x.Nonneg) → ∀ id, (∀ x ∈ reports, UsageFree id x) →
      Counts b.cs reports r id)
    (ord : EnumOrder) : Accounts b.cs reports (r.stop ord) := by
  have hwf := h.follows.wf
  have hst := h.follows.started
  have hs := hwf.session hst
  have hch := changes_stop hwf hst ord
  obtain ⟨hdeleted, hnames⟩ := h.names_stop ord
  have hadded : (r.stop ord).changes.addedPEs = r.changes.addedPEs := by rw [hch]
  have hnd := hwf.cs.nodup_names
  rw [h.names, List.nodup_append] at hnd
  refine ⟨?_, hdeleted, hadded ▸ hnd.2.1, fun id => ?_, fun hcap id hfree => ?_, ?_, fun id => ?_,
    ?_, fun id => ?_, ?_, fun id => ?_⟩
  · rw [hnames, hadded, hdeleted]
    congr 1
    refine List.filter_congr fun id hid => ?_
    simp [List.mem_filter, hid]
  · rw [hadded]
    constructor
    · intro hid
      exact ⟨fun hc => hnd.2.2 id hc id hid rfl, h.addedPEs id hid⟩
    · rintro ⟨hnot, hcap⟩
      have hmem := h.mem_names hcap
      rw [h.names, List.mem_append] at hmem
      exact hmem.resolve_left hnot
  · rw [hch]
    exact (hcounts hcap id hfree).count
  · rw [hch]
    exact h.nodup_addedLEs
  · rw [hch, ← lemap_eq_none_iff hlemap]
    exact h.mem_addedLEs id
  · rw [hch]
    exact h.nodup_updatedLEs
  · rw [hch]
    refine (h.mem_updatedLEs id).trans ?_
    simp only [places_iff hlemap]
    constructor
    · rintro ⟨l, p, hl, hp, ha⟩
      exact ⟨_, ⟨l, p, hl, hp, rfl⟩, ha⟩
    · rintro ⟨host, ⟨l, p, hl, hp, rfl⟩, ha⟩
      exact ⟨l, p, hl, hp, ha⟩
  · rw [hch, h.deletedLEs, List.nil_append]
    refine ((ord.nodup_order.mpr (nodup_getvalues hs)).filter _).map_on fun l hl k hk hlk => ?_
    obtain ⟨id, hid⟩ := StringMap.mem_getvalues.mp (ord.mem_order.mp (List.mem_filter.mp hl).1)
    obtain ⟨id', hid'⟩ := StringMap.mem_getvalues.mp (ord.mem_order.mp (List.mem_filter.mp hk).1)
    rw [(hs.lemap id l hid).1, (hs.lemap id' k hid').1] at hlk
    exact Option.some.inj (hid.symm.trans (hlk ▸ hid'))
  · refine (h.mem_deletedLEs_stop hb ord id).trans ?_
    simp only [places_iff hlemap]
    constructor
    · rintro ⟨l, p, hl, hp, hlast, hcap⟩
      exact ⟨_, ⟨l, p, hl, hp, rfl⟩, hlast, hcap⟩
    · rintro ⟨host, ⟨l, p, hl, hp, rfl⟩, hlast, hcap⟩
      exact ⟨l, p, hl, hp, hlast, hcap⟩

section Reachable

variable [Field K] [LinearOrder K] [HasSqrt K] [FloorRing K]

/-- From every reachable state, and whatever the vectors held, a session with a
newer generation number and any reports in any order leaves the updater as it is
without the vectors, and in them what it changed: the PEs that came and went, one
entry for each report that changed a PE, the LEs that were not hosted before,
those that were reported on another host, and those that were not reported
although their host was. -/
theorem session_changes (resindex : ℤ) (type : ObjectiveType) (evs : List (Event n))
    (changes : Changes) (generation : ℤ) (ord ord' : EnumOrder) (reports : List (Report n))
    (hgen : ((Evaluator.create resindex type : Evaluator n K).run evs).2.updater.gen < generation) :
    let r : Recorder n K :=
      ⟨((Evaluator.create resindex type : Evaluator n K).run evs).2.updater, changes⟩
    ((reports.foldl report (r.start ord generation).2).stop ord').su
        = (reports.foldl StateUpdater.report (r.su.start ord generation).2).stop ord'
      ∧ ((reports.foldl report (r.start ord generation).2).stop ord').changes.updatedPEs
        = changedPEs (r.su.start ord generation).2 reports
      ∧ Accounts (r.start ord generation).2.su.cs reports
        ((reports.foldl report (r.start ord generation).2).stop ord') := by
  intro r
  have hwf : r.su.WF := Evaluator.wf_run (Evaluator.wf_create resindex type) evs
  have hsu := (su_start r ord generation).2
  have hb : (r.start ord generation).2.su.WF := hsu ▸ hwf.start ord generation
  have hstart := logs_start hwf ord hgen
  rw [← hsu] at hstart
  have ho := (StateUpdater.start_spec hwf ord hgen).2
  rw [← hsu] at ho
  have hlemap := ho.lemap
  rw [← ho.cs] at hlemap
  have hempty : (r.start ord generation).2.changes.updatedPEs = [] := by
    rw [start, if_neg (not_le.mpr hgen)]
  refine ⟨by rw [su_stop, su_reports, hsu], ?_, ?_⟩
  · rw [updatedPEs_stop, updatedPEs_reports, hempty, List.nil_append, hsu]
  · exact (hstart.reports hb.cs reports).accounts_stop hb.cs hlemap
      (fun hcap id hfree => counts_reports hstart hb.cs rfl hempty reports hcap id hfree) ord'

end Reachable

/-- A node that stays with another capacity and then another usage, one that goes
and one that comes, and a pod that is new. -/
theorem session_changes_nodes :
    let evs : List (Event 1) := [.start .stored 1, .report (.pe "a" (fun _ => 5) none none),
      .report (.pe "b" (fun _ => 5) none none), .stop .stored]
    let r : Recorder 1 ℝ :=
      ⟨((Evaluator.create 0 .loadBalance : Evaluator 1 ℝ).run evs).2.updater, {}⟩
    let reports : List (Report 1) := [.pe "a" (fun _ => 7) none none,
      .pe "a" (fun _ => 7) none (some fun _ => 3), .pe "c" (fun _ => 5) none none,
      .le "pod" "c" (fun _ => 2)]
    ((reports.foldl report (r.start .stored 2).2).stop .stored).changes.updatedPEs = ["a", "a"]
      ∧ Accounts (r.start .stored 2).2.su.cs reports
        ((reports.foldl report (r.start .stored 2).2).stop .stored) := by
  intro evs r reports
  have hgen : ((Evaluator.create 0 .loadBalance : Evaluator 1 ℝ).run evs).2.updater.gen < 2 := by
    show (1 : ℤ) < 2
    decide
  obtain ⟨-, hupdated, haccounts⟩ :=
    session_changes 0 .loadBalance evs {} 2 .stored .stored reports hgen
  refine ⟨hupdated.trans ?_, haccounts⟩
  decide +kernel

end Recorder

end KubeSafeScheduler.Pigeon
