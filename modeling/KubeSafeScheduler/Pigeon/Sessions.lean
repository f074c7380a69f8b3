import KubeSafeScheduler.Pigeon.Evaluator

/-!
A whole update session: what `start`, any interleaving of reports and `stop`
make of the system.

A session is meant to replace the state of the model by the observed one. The
observed state is what the reports say last: `lastCapacity` for a PE, `lastHost`
for an LE. `session_outcome` is the refinement: the PEs after the session are
the reported ones with their last capacities, and the LEs are hosted where they
were last reported, as far as that PE was reported too.

* `Follows`, `HoldsCapacities`: the invariant of an open session, relative to the
  reports so far; `follows_start`, `Follows.report` and `HoldsCapacities.report`
  (one report), `follows_reports` (all of them). `Tracks` is both, where no
  capacity is negative.
* `Tracks.mirrors_stop`: what `stop` makes of it.
-/

namespace KubeSafeScheduler.Pigeon

variable {n : ℕ} {K : Type}

/-! ### The observed state -/

/-- The capacity that a report gives to a PE. -/
def Report.capacityFor (id : String) : Report n → Option (Fin n → ℤ)
  | .pe name capacity _ _ => if name = id then some capacity else none
  | .le _ _ _ => none

/-- The host that a report gives to an LE. -/
def Report.hostFor (id : String) : Report n → Option String
  | .pe _ _ _ _ => none
  | .le name hostID _ => if name = id then some hostID else none

/-- The last capacity reported for a PE. -/
def lastCapacity (reports : List (Report n)) (id : String) : Option (Fin n → ℤ) :=
  (reports.filterMap (Report.capacityFor id)).getLast?

/-- The last host reported for an LE. -/
def lastHost (reports : List (Report n)) (id : String) : Option String :=
  (reports.filterMap (Report.hostFor id)).getLast?

/-- The capacities of a report are not negative. -/
def Report.Nonneg : Report n → Prop
  | .pe _ capacity _ _ => ∀ k, 0 ≤ capacity k
  | .le _ _ _ => True

lemma lastCapacity_concat (reports : List (Report n)) (r : Report n) (id : String) :
    lastCapacity (reports ++ [r]) id = (r.capacityFor id).or (lastCapacity reports id) := by
  cases h : r.capacityFor id <;> simp [lastCapacity, List.filterMap_append, h]

lemma lastHost_concat (reports : List (Report n)) (r : Report n) (id : String) :
    lastHost (reports ++ [r]) id = (r.hostFor id).or (lastHost reports id) := by
  cases h : r.hostFor id <;> simp [lastHost, List.filterMap_append, h]

/-- A PE has a last capacity exactly when some report is about it. -/
lemma lastCapacity_ne_none {reports : List (Report n)} {id : String} :
    lastCapacity reports id ≠ none ↔
      ∃ capacity ovf usage, Report.pe id capacity ovf usage ∈ reports := by
  rw [lastCapacity, Ne, List.getLast?_eq_none_iff]
  constructor
  · intro hne
    obtain ⟨c, hc⟩ := List.exists_mem_of_ne_nil _ hne
    obtain ⟨r, hr, hrc⟩ := List.mem_filterMap.mp hc
    cases r with
    | pe name capacity ovf usage =>
        simp only [Report.capacityFor, Option.ite_none_right_eq_some] at hrc
        exact ⟨capacity, ovf, usage, hrc.1 ▸ hr⟩
    | le name hostID demand => simp [Report.capacityFor] at hrc
  · rintro ⟨capacity, ovf, usage, hr⟩
    have hmem : capacity ∈ reports.filterMap (Report.capacityFor id) :=
      List.mem_filterMap.mpr ⟨_, hr, by simp [Report.capacityFor]⟩
    exact List.ne_nil_of_mem hmem

namespace StateUpdater

/-! ### An open session follows its reports -/

/-- The open session `s` holds what the reports so far said of names and hosts. -/
structure Follows (reports : List (Report n)) (s : StateUpdater n K) : Prop where
  wf : s.WF
  started : s.started = true
  observedPEs : ∀ id, id ∈ s.observedPEs ↔ lastCapacity reports id ≠ none
  observedLEs : ∀ id, id ∈ s.observedLEs ↔ lastHost reports id ≠ none
  host : ∀ id h, lastHost reports id = some h → s.intendedHost id = some h

lemma follows_start {s : StateUpdater n K} (h : s.WF) (ord : EnumOrder) {generation : ℤ}
    (hgen : s.gen < generation) : Follows [] (s.start ord generation).2 := by
  have ho := (start_spec h ord hgen).2
  refine ⟨h.start ord generation, ho.started, fun id => ?_, fun id => ?_, ?_⟩
  · simp [ho.observedPEs, lastCapacity]
  · simp [ho.observedLEs, lastHost]
  · simp [lastHost]

lemma lastCapacity_concat_pe (reports : List (Report n)) (id : String) (capacity : Fin n → ℤ)
    (ovf : Option (Fin n → Bool)) (usage : Option (Fin n → ℤ)) (name : String) :
    lastCapacity (reports ++ [.pe id capacity ovf usage]) name
      = if id = name then some capacity else lastCapacity reports name := by
  rw [lastCapacity_concat, Report.capacityFor]
  split_ifs <;> rfl

lemma lastHost_concat_le (reports : List (Report n)) (id hostID : String) (demand : Fin n → ℤ)
    (name : String) : lastHost (reports ++ [.le id hostID demand]) name
      = if id = name then some hostID else lastHost reports name := by
  rw [lastHost_concat, Report.hostFor]
  split_ifs <;> rfl

/-- One report of a PE. -/
lemma Follows.updatePE {reports : List (Report n)} {s : StateUpdater n K} (h : Follows reports s)
    (id : String) (capacity : Fin n → ℤ) (ovf : Option (Fin n → Bool))
    (usage : Option (Fin n → ℤ)) :
    Follows (reports ++ [.pe id capacity ovf usage]) (s.updatePE id capacity ovf usage) := by
  have hr := updatePE_spec h.wf.cs h.started id capacity ovf usage
  have hlastHost : ∀ name, lastHost (reports ++ [.pe id capacity ovf usage]) name
      = lastHost reports name := by
    intro name
    rw [lastHost_concat, Report.hostFor, Option.none_or]
  -- where an LE is hosted keeps its name
  have hintended : ∀ name, (s.updatePE id capacity ovf usage).intendedHost name
      = s.intendedHost name := by
    intro name
    rw [intendedHost, intendedHost, hr.lemap, hr.newplacements, hr.le]
    cases s.lemap.get name with
    | none => rfl
    | some l =>
        cases s.newplacements.get name with
        | some host => rfl
        | none =>
            cases hl : (s.cs.mem.le l).host with
            | none => simp [hl]
            | some p =>
                simp [hl, hr.label p ((h.wf.cs.host_iff l p).mp hl).1]
  refine ⟨h.wf.updatePE id capacity ovf usage, hr.started.trans h.started, fun name => ?_,
    fun name => ?_, fun name host hh => ?_⟩
  · rw [hr.observedPEs, Finset.mem_insert, h.observedPEs, lastCapacity_concat_pe]
    by_cases hname : id = name
    · simp [hname]
    · simp [hname, Ne.symm hname]
  · rw [hr.observedLEs, h.observedLEs, hlastHost]
  · rw [hlastHost] at hh
    rw [hintended]
    exact h.host name host hh

/-- One report of an LE. -/
lemma Follows.updateLE {reports : List (Report n)} {s : StateUpdater n K} (h : Follows reports s)
    (id hostID : String) (demand : Fin n → ℤ) :
    Follows (reports ++ [.le id hostID demand]) (s.updateLE id hostID demand) := by
  have hr := updateLE_spec h.wf h.started id hostID demand
  refine ⟨hr.wf, hr.started.trans h.started, fun name => ?_, fun name => ?_, fun name host hh => ?_⟩
  · rw [hr.observedPEs, h.observedPEs, lastCapacity_concat, Report.capacityFor, Option.none_or]
  · rw [hr.observedLEs, Finset.mem_insert, h.observedLEs, lastHost_concat_le]
    by_cases hname : id = name
    · simp [hname]
    · simp [hname, Ne.symm hname]
  · rw [lastHost_concat_le] at hh
    split_ifs at hh with hname
    · rw [← hname, hr.intended, Option.some.inj hh]
    · rw [hr.intended_ne name (Ne.symm hname)]
      exact h.host name host hh

/-- One report. -/
lemma Follows.report {reports : List (Report n)} {s : StateUpdater n K} (h : Follows reports s)
    (r : Report n) : Follows (reports ++ [r]) (s.report r) := by
  cases r with
  | pe id capacity ovf usage => exact h.updatePE id capacity ovf usage
  | le id hostID demand => exact h.updateLE id hostID demand

/-- The system holds the last capacities that are not negative. -/
def HoldsCapacities (reports : List (Report n)) (s : StateUpdater n K) : Prop :=
  ∀ id c, lastCapacity reports id = some c → (∀ k, 0 ≤ c k) →
    ∃ p, s.cs.getPE id = some p ∧ (s.cs.mem.pe p).resource.capacity = c

/-- One report, of a PE or of an LE. -/
lemma HoldsCapacities.report {reports : List (Report n)} {s : StateUpdater n K}
    (hc : HoldsCapacities reports s) (h : Follows reports s) (r : Report n) :
    HoldsCapacities (reports ++ [r]) (s.report r) := by
  intro name c hlast hpos
  cases r with
  | pe id capacity ovf usage =>
      have hr := updatePE_spec h.wf.cs h.started id capacity ovf usage
      rw [lastCapacity_concat_pe] at hlast
      split_ifs at hlast with hname
      · obtain rfl := Option.some.inj hlast
        obtain ⟨p, hp, hpc, -⟩ := hr.reported
        exact ⟨p, hname ▸ hp, hpc hpos⟩
      · obtain ⟨p, hp, hpc⟩ := hc name c hlast hpos
        obtain ⟨hmem, hlabel⟩ := h.wf.cs.getPE_eq_some.mp hp
        refine ⟨p, (hr.getPE_ne name (Ne.symm hname)).trans hp, ?_⟩
        rw [← hpc]
        exact congrArg Resource.capacity
          (hr.resource_ne p hmem fun hl => hname (hl.symm.trans hlabel))
  | le id hostID demand =>
      have hr := updateLE_spec h.wf h.started id hostID demand
      rw [lastCapacity_concat, Report.capacityFor, Option.none_or] at hlast
      obtain ⟨p, hp, hpc⟩ := hc name c hlast hpos
      refine ⟨p, ?_, (hr.capacity p).trans hpc⟩
      show (s.updateLE id hostID demand).cs.pemap.get name = some p
      rw [hr.pemap]
      exact hp

/-- All reports of a session. -/
lemma follows_reports {s : StateUpdater n K} (h : Follows [] s) (reports : List (Report n)) :
    Follows reports (reports.foldl StateUpdater.report s)
      ∧ HoldsCapacities reports (reports.foldl StateUpdater.report s) := by
  induction reports using List.reverseRecOn with
  | nil => exact ⟨h, fun id c hc => absurd hc (by simp [lastCapacity])⟩
  | append_singleton reports r ih =>
      rw [List.foldl_append, List.foldl_cons, List.foldl_nil]
      exact ⟨ih.1.report r, ih.2.report ih.1 r⟩

/-- The open session `s` holds what the reports so far said, capacities too. -/
structure Tracks (reports : List (Report n)) (s : StateUpdater n K) : Prop where
  wf : s.WF
  started : s.started = true
  observedPEs : ∀ id, id ∈ s.observedPEs ↔ lastCapacity reports id ≠ none
  observedLEs : ∀ id, id ∈ s.observedLEs ↔ lastHost reports id ≠ none
  capacity : ∀ id c, lastCapacity reports id = some c →
    ∃ p, s.cs.getPE id = some p ∧ (s.cs.mem.pe p).resource.capacity = c
  host : ∀ id h, lastHost reports id = some h → s.intendedHost id = some h

lemma Tracks.follows {reports : List (Report n)} {s : StateUpdater n K} (h : Tracks reports s) :
    Follows reports s :=
  ⟨h.wf, h.started, h.observedPEs, h.observedLEs, h.host⟩

/-- All reports of a session, none with a negative capacity. -/
lemma tracks_reports {s : StateUpdater n K} (h : Follows [] s) (reports : List (Report n))
    (hcap : ∀ r ∈ reports, r.Nonneg) : Tracks reports (reports.foldl report s) := by
  obtain ⟨hf, hc⟩ := follows_reports h reports
  refine ⟨hf.wf, hf.started, hf.observedPEs, hf.observedLEs, fun id c hlast => ?_, hf.host⟩
  refine hc id c hlast ?_
  -- a last capacity is one of those reported
  obtain ⟨r, hr, hrc⟩ := List.mem_filterMap.mp (List.mem_of_getLast? hlast)
  have hpos := hcap r hr
  cases r with
  | pe name capacity ovf usage =>
      simp only [Report.capacityFor, Option.ite_none_right_eq_some, Option.some.injEq] at hrc
      exact hrc.2 ▸ hpos
  | le name hostID demand => simp [Report.capacityFor] at hrc

/-! ### Closing it -/

/-- The LE under a name is left where it was last reported, if the PE of that
name was reported; an LE that was not reported, or is not the one under its
name, is left without a host. -/
lemma Follows.hostAfter_eq {reports : List (Report n)} {s : StateUpdater n K}
    (h : Follows reports s) (l : LeRef) :
    s.hostAfter l = if s.lemap.get (s.cs.mem.le l).label = some l then
        (lastHost reports (s.cs.mem.le l).label).bind fun host =>
          if lastCapacity reports host ≠ none then s.cs.getPE host else none
      else none := by
  have hs := h.wf.session h.started
  rw [hostAfter]
  by_cases hl : s.lemap.get (s.cs.mem.le l).label = some l
  swap
  · rw [if_neg hl, if_neg hl]
  rw [if_pos hl, if_pos hl]
  set id := (s.cs.mem.le l).label with hid
  cases hlast : lastHost reports id with
  | none =>
      have hobs : id ∉ s.observedLEs := fun hc => (h.observedLEs id).mp hc hlast
      cases hnew : s.newplacements.get id with
      | none => simp [hobs]
      | some host => exact absurd (hs.pending id host hnew).1 hobs
  | some host =>
      have hobs : id ∈ s.observedLEs := (h.observedLEs id).mpr (by simp [hlast])
      have hintended := h.host id host hlast
      rw [intendedHost, hl] at hintended
      cases hnew : s.newplacements.get id with
      | some host' =>
          have : host' = host := by simpa [hnew] using hintended
          simp [this, h.observedPEs]
      | none =>
          simp only [hnew, Option.bind_some] at hintended
          obtain ⟨p, hp, hlabel⟩ := Option.map_eq_some_iff.mp hintended
          have hget : s.cs.getPE host = some p :=
            h.wf.cs.getPE_eq_some.mpr ⟨((h.wf.cs.host_iff l p).mp hp).1, hlabel⟩
          simp only [if_pos hobs, hp, Option.filter_some, hlabel, h.observedPEs, hget,
            Option.bind_some, decide_eq_true_eq]

/-- An LE that is known under its name and was reported. -/
lemma Tracks.lemap_of_lastHost {reports : List (Report n)} {s : StateUpdater n K}
    (h : Tracks reports s) {id host : String} (hh : lastHost reports id = some host) :
    ∃ l, s.lemap.get id = some l ∧ (s.cs.mem.le l).label = id := by
  have hintended := h.host id host hh
  obtain ⟨l, hl, -⟩ := Option.bind_eq_some_iff.mp hintended
  exact ⟨l, hl, ((h.wf.session h.started).lemap id l hl).1⟩

end StateUpdater

/-- The system holds the observed state: its PEs are the reported ones, each
once, with its last capacity and its position; an LE is in the list of a PE of
the system exactly when it was reported and its last host was reported, it is
then in the list of that PE and of no other, and its host is that PE. -/
structure CloudSystem.Mirrors (cs : CloudSystem n K) (reports : List (Report n)) : Prop where
  reported : ∀ id, (∃ p ∈ cs.pes, (cs.mem.pe p).label = id) ↔
    ∃ capacity ovf usage, Report.pe id capacity ovf usage ∈ reports
  once : (cs.pes.map fun p => (cs.mem.pe p).label).Nodup
  capacity : ∀ p ∈ cs.pes,
    lastCapacity reports (cs.mem.pe p).label = some (cs.mem.pe p).resource.capacity
  position : ∀ (i : ℕ) p, cs.pes[i]? = some p → (cs.mem.pe p).indexinsystem = i
  hosted : ∀ id, (∃ p ∈ cs.pes, ∃ l ∈ (cs.mem.pe p).hostedLE, (cs.mem.le l).label = id) ↔
    ∃ host capacity ovf usage, lastHost reports id = some host ∧
      Report.pe host capacity ovf usage ∈ reports
  place : ∀ p ∈ cs.pes, ∀ l ∈ (cs.mem.pe p).hostedLE,
    lastHost reports (cs.mem.le l).label = some (cs.mem.pe p).label
      ∧ ∀ q ∈ cs.pes, l ∈ (cs.mem.pe q).hostedLE → q = p
  host : ∀ l p, (cs.mem.le l).host = some p ↔ p ∈ cs.pes ∧ l ∈ (cs.mem.pe p).hostedLE

namespace StateUpdater

/-- The PE of a name that was reported. -/
lemma Tracks.exists_pe {reports : List (Report n)} {s : StateUpdater n K} (h : Tracks reports s)
    {id : String} (hne : lastCapacity reports id ≠ none) :
    ∃ p ∈ s.cs.pes, (s.cs.mem.pe p).label = id
      ∧ lastCapacity reports id = some (s.cs.mem.pe p).resource.capacity := by
  obtain ⟨c, hcap⟩ := Option.ne_none_iff_exists'.mp hne
  obtain ⟨p, hp, hpc⟩ := h.capacity id c hcap
  obtain ⟨hmem, hlabel⟩ := h.wf.cs.getPE_eq_some.mp hp
  exact ⟨p, hmem, hlabel, by rw [hcap, hpc]⟩

/-- Closing a session keeps the PEs that were reported. -/
lemma Tracks.mem_pes_stop {reports : List (Report n)} {s : StateUpdater n K}
    (h : Tracks reports s) (ord : EnumOrder) (p : PeRef) :
    p ∈ (s.stop ord).cs.pes ↔
      p ∈ s.cs.pes ∧ lastCapacity reports (s.cs.mem.pe p).label ≠ none := by
  rw [(stop_spec h.wf h.started ord).pes, List.mem_filter, decide_eq_true_eq, h.observedPEs]

/-- The LEs that a PE hosts after the session: those known under their names whose
last host it is. -/
lemma Tracks.mem_hostedLE_stop {reports : List (Report n)} {s : StateUpdater n K}
    (h : Tracks reports s) (ord : EnumOrder) (l : LeRef) {p : PeRef}
    (hp : p ∈ (s.stop ord).cs.pes) :
    l ∈ ((s.stop ord).cs.mem.pe p).hostedLE ↔
      s.lemap.get (s.cs.mem.le l).label = some l
        ∧ lastHost reports (s.cs.mem.le l).label = some (s.cs.mem.pe p).label := by
  have hc := stop_spec h.wf h.started ord
  obtain ⟨hp', hrep⟩ := (h.mem_pes_stop ord p).mp hp
  have hget : ∀ host, s.cs.getPE host = some p ↔ host = (s.cs.mem.pe p).label := by
    intro host
    rw [h.wf.cs.getPE_eq_some]
    exact ⟨fun hh => hh.2.symm, fun hh => ⟨hp', hh.symm⟩⟩
  have hiff := hc.wf.host_iff l p
  rw [hc.host, h.follows.hostAfter_eq] at hiff
  constructor
  · intro hl
    have hl' := hiff.mpr ⟨hp, hl⟩
    split_ifs at hl' with hmap
    obtain ⟨host, hhost, hif⟩ := Option.bind_eq_some_iff.mp hl'
    split_ifs at hif with hobs
    exact ⟨hmap, by rw [hhost, (hget host).mp hif]⟩
  · rintro ⟨hmap, hhost⟩
    refine (hiff.mp ?_).2
    rw [if_pos hmap, hhost, Option.bind_some, if_pos hrep]
    exact (hget _).mpr rfl

/-- Closing a session leaves the system with the observed state. -/
lemma Tracks.mirrors_stop {reports : List (Report n)} {s : StateUpdater n K}
    (h : Tracks reports s) (ord : EnumOrder) : (s.stop ord).cs.Mirrors reports := by
  have hc := stop_spec h.wf h.started ord
  have hpes := h.mem_pes_stop ord
  refine ⟨fun id => ?_, ?_, fun p hp => ?_, hc.wf.index hc.ismodified, fun id => ?_,
    fun p hp l hl => ⟨?_, fun q hq hlq => hc.wf.eq_of_mem_hosted hq hp hlq hl⟩, hc.wf.host_iff⟩
  · rw [← lastCapacity_ne_none]
    constructor
    · rintro ⟨p, hp, hlabel⟩
      rw [hc.kept.label] at hlabel
      exact hlabel ▸ ((hpes p).mp hp).2
    · intro hne
      obtain ⟨p, hmem, hlabel, -⟩ := h.exists_pe hne
      exact ⟨p, (hpes p).mpr ⟨hmem, by rw [hlabel]; exact hne⟩, by rw [hc.kept.label, hlabel]⟩
  · exact hc.wf.pes_nodup.map_on fun p hp q hq hpq => hc.wf.label_inj hp hq hpq
  · obtain ⟨hmem, hne⟩ := (hpes p).mp hp
    obtain ⟨q, hq, hlabel, hcap⟩ := h.exists_pe hne
    have hpq : q = p := h.wf.cs.label_inj hq hmem hlabel
    rw [hc.kept.label, hc.kept.capacity, hcap, hpq]
  · constructor
    · rintro ⟨p, hp, l, hl, hlabel⟩
      rw [hc.kept.leLabel] at hlabel
      have hhost := ((h.mem_hostedLE_stop ord l hp).mp hl).2
      obtain ⟨capacity, ovf, usage, hmem⟩ := lastCapacity_ne_none.mp ((hpes p).mp hp).2
      exact ⟨_, capacity, ovf, usage, hlabel ▸ hhost, hmem⟩
    · rintro ⟨host, capacity, ovf, usage, hhost, hmem⟩
      have hne : lastCapacity reports host ≠ none :=
        lastCapacity_ne_none.mpr ⟨capacity, ovf, usage, hmem⟩
      obtain ⟨p, hpmem, hplabel, -⟩ := h.exists_pe hne
      obtain ⟨l, hl, hlabel⟩ := h.lemap_of_lastHost hhost
      have hp' : p ∈ (s.stop ord).cs.pes := (hpes p).mpr ⟨hpmem, by rw [hplabel]; exact hne⟩
      refine ⟨p, hp', l, (h.mem_hostedLE_stop ord l hp').mpr ⟨?_, ?_⟩,
        by rw [hc.kept.leLabel, hlabel]⟩
      · rw [hlabel]
        exact hl
      · rw [hlabel, hplabel]
        exact hhost
  · rw [hc.kept.leLabel, hc.kept.label]
    exact ((h.mem_hostedLE_stop ord l hp).mp hl).2

end StateUpdater

section Reachable

variable [Field K] [LinearOrder K] [HasSqrt K] [FloorRing K]

/-- From every reachable state, with or without an open session, a session with
a newer generation number leaves the system with the observed state, whatever
the reports and their order. -/
theorem session_outcome (resindex : ℤ) (type : ObjectiveType) (evs : List (Event n))
    (generation : ℤ) (ord ord' : EnumOrder) (reports : List (Report n))
    (hgen : ((Evaluator.create resindex type : Evaluator n K).run evs).2.updater.gen < generation)
    (hcap : ∀ r ∈ reports, r.Nonneg) :
    let s := ((Evaluator.create resindex type : Evaluator n K).run evs).2.updater
    (s.start ord generation).1 = true
      ∧ CloudSystem.Mirrors
          ((reports.foldl StateUpdater.report (s.start ord generation).2).stop ord').cs
          reports := by
  intro s
  have hwf : s.WF := Evaluator.wf_run (Evaluator.wf_create resindex type) evs
  have ht := StateUpdater.tracks_reports (StateUpdater.follows_start hwf ord hgen) reports hcap
  exact ⟨(StateUpdater.start_spec hwf ord hgen).1, ht.mirrors_stop ord'⟩

end Reachable

/-- A session that reports a node, and a pod first on another node and then on
this one. -/
theorem session_outcome_pod_moved :
    CloudSystem.Mirrors
      ((([.pe "node" (fun _ => 5) none none, .le "pod" "other" (fun _ => 2),
          .le "pod" "node" (fun _ => 2)] : List (Report 1)).foldl StateUpdater.report
        (((Evaluator.create 0 .loadBalance : Evaluator 1 ℝ).run []).2.updater.start
          EnumOrder.stored 1).2).stop EnumOrder.stored).cs
      [.pe "node" (fun _ => 5) none none, .le "pod" "other" (fun _ => 2),
        .le "pod" "node" (fun _ => 2)] :=
  (session_outcome 0 .loadBalance [] 1 EnumOrder.stored EnumOrder.stored _
    (show (-1 : ℤ) < 1 by decide)
    (fun r hr => by
      simp only [List.mem_cons, List.not_mem_nil, or_false] at hr
      rcases hr with rfl | rfl | rfl <;> simp [Report.Nonneg])).2

end KubeSafeScheduler.Pigeon
