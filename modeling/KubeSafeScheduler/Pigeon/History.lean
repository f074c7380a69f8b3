import KubeSafeScheduler.Pigeon.Evaluator

/-!
The divisions of `abpnf_getvariation_demand_history`, over runs.

The demands seen are divided by the average capacities. The code asks for a
positive average capacity of the row and then divides by the product with that
of the column.

* `ds_stop`, `ds_start`, `ds_report`: update sessions leave the statistics of
  the demands alone.
* `Abpfn.normalizedHistory`, `Abpfn.historyDivisors`: the normalised moments and
  the divisors on the way to them; `historyRight_iff_capacities`: for which
  capacities all divisors are non-zero and the normalised moment is symmetric.
* `Evaluator.historyCalls`, `historyCallsOfRun`: the systems for which the
  function is called in an evaluation, and in a run.
* `historyRight_iff`: the runs in which every call is right.
-/

namespace KubeSafeScheduler.Pigeon

variable {n : ℕ} {K : Type}

/-! ### The statistics in a session -/

namespace StateUpdater

lemma ds_stop {s : StateUpdater n K} (h : s.WF) (ord : EnumOrder) :
    (s.stop ord).cs.ds = s.cs.ds := by
  cases hst : s.started with
  | false => rw [stop_of_not_started hst]
  | true => exact (stop_spec h hst ord).ds

lemma ds_start {s : StateUpdater n K} (h : s.WF) (ord : EnumOrder) (generation : ℤ) :
    (s.start ord generation).2.cs.ds = s.cs.ds := by
  by_cases hgen : generation ≤ s.gen
  · rw [start, if_pos hgen]
  · rw [(start_spec h ord (not_le.mp hgen)).2.cs]
    exact ds_stop h ord

lemma ds_report {s : StateUpdater n K} (h : s.WF) (r : Report n) :
    (s.report r).cs.ds = s.cs.ds := by
  cases hst : s.started with
  | false =>
      cases r with
      | pe id capacity ovf usage => rw [report, updatePE_of_not_started hst]
      | le id hostID demand => rw [report, updateLE_of_not_started hst]
  | true =>
      cases r with
      | pe id capacity ovf usage => exact (updatePE_spec h.cs hst id capacity ovf usage).ds
      | le id hostID demand => exact (updateLE_spec h hst id hostID demand).ds

end StateUpdater

/-! ### The second moment of a run -/

section Runs

variable [Field K] [LinearOrder K] [FloorRing K]

/-- What is computed above the diagonal is mirrored. -/
lemma DemandStats.avg2_isSymm_add {ds : DemandStats n K} {d : Fin n → ℤ} {m : DemandMoments n K}
    (h : (ds.add d).moments = some m) : m.avg2.IsSymm := by
  ext j k
  cases hold : ds.moments with
  | none =>
      simp only [DemandStats.add, DemandStats.addWith, hold, Option.some.injEq] at h
      simp only [← h, Matrix.transpose_apply, Matrix.of_apply, min_comm k j, max_comm k j]
  | some m₀ =>
      simp only [DemandStats.add, DemandStats.addWith, hold, Option.some.injEq] at h
      simp only [← h, Matrix.transpose_apply, Matrix.of_apply, min_comm k j, max_comm k j]

namespace Evaluator

variable [HasSqrt K]

/-- A run without evaluations leaves the statistics alone. -/
lemma ds_run_of_sessions {e : Evaluator n K} (h : e.updater.WF) {evs : List (Event n)}
    (hevs : ∀ id demand, Event.eval id demand ∉ evs) : (e.run evs).2.cs.ds = e.cs.ds := by
  induction evs generalizing e with
  | nil => rfl
  | cons ev evs ih =>
      have hrest := ih (wf_step h ev) fun id demand hev =>
        hevs id demand (List.mem_cons_of_mem _ hev)
      have hev : (e.step ev).2.cs.ds = e.cs.ds := by
        cases ev with
        | start ord generation => exact StateUpdater.ds_start h ord generation
        | report r => exact StateUpdater.ds_report h r
        | stop ord => exact StateUpdater.ds_stop h ord
        | eval id demand => exact absurd List.mem_cons_self (hevs id demand)
      exact hrest.trans hev

/-- No event makes or drops the statistics. -/
lemma ds_step_eq_none_iff {e : Evaluator n K} (h : e.updater.WF) (ev : Event n) :
    (e.step ev).2.cs.ds = none ↔ e.cs.ds = none := by
  cases ev with
  | start ord generation =>
      rw [show (e.step (.start ord generation)).2.cs.ds = e.cs.ds from
        StateUpdater.ds_start h ord generation]
  | report r =>
      rw [show (e.step (.report r)).2.cs.ds = e.cs.ds from StateUpdater.ds_report h r]
  | stop ord =>
      rw [show (e.step (.stop ord)).2.cs.ds = e.cs.ds from StateUpdater.ds_stop h ord]
  | eval id demand =>
      obtain ⟨mem, -, hres⟩ := (e.createLE id demand).eval_sameShape
        (unhosted_createLE h.cs id demand)
      have hds : (e.step (.eval id demand)).2.cs.ds
          = (noteDemand (e.createLE id demand).cs e.cs.mem.leCount).ds :=
        congrArg (fun e : Evaluator n K => e.cs.ds) hres
      rw [hds]
      exact Option.map_eq_none_iff

end Evaluator

end Runs

/-! ### The divisions -/

section Divisions

variable [Field K] [LinearOrder K]

/-- There are moments of the demands. -/
def CloudSystem.HasHistory (cs : CloudSystem n K) : Prop :=
  ∃ dstats m, cs.ds = some dstats ∧ dstats.moments = some m

namespace Abpfn

/-- `mu2norm` and `munorm`, which `abpnf_getvariation_demand_history` hands to
`matrix_covariance_from_stats`. -/
def normalizedHistory (cs : CloudSystem n K) :
    Option (Matrix (Fin n) (Fin n) K × (Fin n → K)) := do
  let dstats ← cs.ds
  let mu ← dstats.moments
  let avgcap ← cs.getaveragecapacity
  pure (Matrix.of fun i j =>
      if 0 < avgcap i then mu.avg2 i j / (avgcap i * avgcap j) else mu.avg2 i j,
    fun i => if 0 < avgcap i then mu.avg i / avgcap i else mu.avg i)

/-- The divisors of its loop, in the order of the divisions. -/
def historyDivisors (cs : CloudSystem n K) : List K :=
  ((cs.ds.bind DemandStats.moments).bind fun _ => cs.getaveragecapacity).elim [] fun avgcap =>
    (List.finRange n).flatMap fun i =>
      if 0 < avgcap i then avgcap i :: (List.finRange n).map fun j => avgcap i * avgcap j else []

/-- The covariance of the demands is that of the normalised moments. -/
lemma getvariationDemandHistory_eq (cs : CloudSystem n K) :
    getvariationDemandHistory cs = (normalizedHistory cs).bind fun h =>
      (covarianceFromStats h.1 h.2).map fun cov => (cov, h.2) := by
  rw [getvariationDemandHistory, normalizedHistory]
  cases cs.ds with
  | none => rfl
  | some dstats =>
      cases hm : dstats.moments with
      | none => simp [hm]
      | some mu => cases cs.getaveragecapacity <;> simp [hm, Option.map_eq_bind]

/-- All divisors are non-zero and the normalised moment is symmetric. -/
structure HistoryRight (cs : CloudSystem n K) : Prop where
  divisor_ne : ∀ d ∈ historyDivisors cs, d ≠ 0
  isSymm : ∀ h, normalizedHistory cs = some h → h.1.IsSymm

/-- Without moments or without capacities nothing is divided. -/
lemma historyRight_of_none {cs : CloudSystem n K}
    (h : ∀ dstats m avgcap, cs.ds = some dstats → dstats.moments = some m →
      cs.getaveragecapacity ≠ some avgcap) : HistoryRight cs := by
  constructor
  · intro d hd
    rw [historyDivisors] at hd
    cases hds : cs.ds with
    | none => simp [hds] at hd
    | some dstats =>
        cases hm : dstats.moments with
        | none => simp [hds, hm] at hd
        | some m =>
            cases hcap : cs.getaveragecapacity with
            | none => simp [hds, hm, hcap] at hd
            | some avgcap => exact absurd hcap (h dstats m avgcap hds hm)
  · intro x hx
    simp only [normalizedHistory, Option.bind_eq_bind, Option.bind_eq_some_iff] at hx
    obtain ⟨dstats, hds, m, hm, avgcap, hcap, -⟩ := hx
    exact absurd hcap (h dstats m avgcap hds hm)

/-- With moments and capacities every row of positive capacity is divided. -/
lemma historyRight_iff_avgcap {cs : CloudSystem n K} {dstats : DemandStats n K}
    {m : DemandMoments n K} {avgcap : Fin n → K} (hds : cs.ds = some dstats)
    (hm : dstats.moments = some m) (hcap : cs.getaveragecapacity = some avgcap)
    (hsymm : m.avg2.IsSymm) (hnonneg : ∀ j, 0 ≤ avgcap j) :
    HistoryRight cs ↔ (∀ j, 0 < avgcap j) ∨ ∀ j, avgcap j = 0 := by
  have hdivisors : historyDivisors cs = (List.finRange n).flatMap fun i =>
      if 0 < avgcap i then avgcap i :: (List.finRange n).map fun j => avgcap i * avgcap j
      else [] := by
    simp [historyDivisors, hds, hm, hcap]
  have hmoment : normalizedHistory cs = some (Matrix.of fun i j =>
        if 0 < avgcap i then m.avg2 i j / (avgcap i * avgcap j) else m.avg2 i j,
      fun i => if 0 < avgcap i then m.avg i / avgcap i else m.avg i) := by
    simp [normalizedHistory, hds, hm, hcap]
  constructor
  · intro h
    by_contra hne
    push Not at hne
    obtain ⟨⟨j, hj⟩, i, hi⟩ := hne
    -- the row of `i` is divided by zero in the column of `j`
    refine h.divisor_ne (avgcap i * avgcap j) ?_ (by rw [le_antisymm hj (hnonneg j), mul_zero])
    rw [hdivisors, List.mem_flatMap]
    refine ⟨i, List.mem_finRange i, ?_⟩
    rw [if_pos (lt_of_le_of_ne (hnonneg i) (Ne.symm hi))]
    exact List.mem_cons_of_mem _ (List.mem_map.mpr ⟨j, List.mem_finRange j, rfl⟩)
  · rintro (hpos | hzero)
    · constructor
      · intro d hd
        rw [hdivisors, List.mem_flatMap] at hd
        obtain ⟨i, -, hd⟩ := hd
        rw [if_pos (hpos i), List.mem_cons, List.mem_map] at hd
        rcases hd with rfl | ⟨j, -, rfl⟩
        · exact (hpos i).ne'
        · exact mul_ne_zero (hpos i).ne' (hpos j).ne'
      · intro h hh
        rw [← Option.some.inj (hmoment.symm.trans hh)]
        ext i j
        simp only [Matrix.transpose_apply, Matrix.of_apply, if_pos (hpos _), hsymm.apply i j,
          mul_comm (avgcap j)]
    · constructor
      · intro d hd
        simp [hdivisors, hzero] at hd
      · intro h hh
        rw [← Option.some.inj (hmoment.symm.trans hh)]
        ext i j
        simp only [Matrix.transpose_apply, Matrix.of_apply, hzero, lt_irrefl, if_false,
          hsymm.apply i j]

end Abpfn

variable [IsStrictOrderedRing K]

/-- An average capacity is positive when a node has the resource, and zero
otherwise. -/
lemma getaveragecapacity_cases {cs : CloudSystem n K} {avgcap : Fin n → K}
    (h : cs.getaveragecapacity = some avgcap) (j : Fin n) :
    (0 < avgcap j ∧ ∃ r ∈ cs.resources, 0 < r.capacity j)
      ∨ (avgcap j = 0 ∧ ∀ r ∈ cs.resources, r.capacity j ≤ 0) := by
  simp only [CloudSystem.getaveragecapacity, Option.ite_none_left_eq_some, Option.some.injEq] at h
  rw [← congrFun h.2 j]
  set caps := (cs.resources.map fun r => r.capacity j).filter fun c => 0 < c with hcaps
  have hmem : ∀ c, c ∈ caps ↔ (∃ r ∈ cs.resources, r.capacity j = c) ∧ 0 < c := by
    intro c
    rw [hcaps, List.mem_filter, List.mem_map, decide_eq_true_eq]
  by_cases hlen : 0 < caps.length
  · left
    obtain ⟨c, hc⟩ := List.exists_mem_of_length_pos hlen
    obtain ⟨⟨r, hr, rfl⟩, hpos⟩ := (hmem c).mp hc
    refine ⟨?_, r, hr, hpos⟩
    rw [if_pos hlen]
    have hsum : 0 < (caps.map fun c : ℤ => (c : K)).sum := by
      refine List.sum_pos _ (fun x hx => ?_) (by simpa using List.length_pos_iff.mp hlen)
      obtain ⟨c, hc, rfl⟩ := List.mem_map.mp hx
      exact_mod_cast ((hmem c).mp hc).2
    exact div_pos hsum (by exact_mod_cast hlen)
  · right
    refine ⟨if_neg hlen, fun r hr => ?_⟩
    by_contra hc
    have hin : r.capacity j ∈ caps := (hmem _).mpr ⟨⟨r, hr, rfl⟩, not_le.mp hc⟩
    exact hlen (List.length_pos_of_mem hin)

/-- A system whose second moment of the demands is symmetric. -/
lemma historyRight_iff_capacities {cs : CloudSystem n K}
    (hsymm : ∀ dstats m, cs.ds = some dstats → dstats.moments = some m → m.avg2.IsSymm) :
    Abpfn.HistoryRight cs ↔ ¬ cs.HasHistory
      ∨ (∀ j, ∃ r ∈ cs.resources, 0 < r.capacity j)
      ∨ ∀ r ∈ cs.resources, ∀ j, r.capacity j ≤ 0 := by
  by_cases hhist : cs.HasHistory
  · rw [or_iff_right (not_not.mpr hhist)]
    obtain ⟨dstats, m, hds, hm⟩ := hhist
    cases hcap : cs.getaveragecapacity with
    | none =>
        refine iff_of_true (Abpfn.historyRight_of_none fun _ _ _ _ _ => by simp [hcap])
          (Or.inr fun r hr j => ?_)
        -- there is nothing to average without PEs or without resources
        simp only [CloudSystem.getaveragecapacity, CloudSystem.getnumresources, ite_eq_left_iff,
          reduceCtorEq, imp_false, not_not] at hcap
        by_cases hpes : cs.pes = []
        · simp [CloudSystem.resources, hpes] at hr
        · exact absurd (hcap hpes) (Fin.pos j).ne'
    | some avgcap =>
        have hcases := getaveragecapacity_cases hcap
        rw [Abpfn.historyRight_iff_avgcap hds hm hcap (hsymm dstats m hds hm)
          fun j => (hcases j).elim (fun h => h.1.le) fun h => h.1.ge]
        have hpos : ∀ j, 0 < avgcap j ↔ ∃ r ∈ cs.resources, 0 < r.capacity j := by
          intro j
          rcases hcases j with ⟨h1, h2⟩ | ⟨h1, h2⟩
          · exact iff_of_true h1 h2
          · refine iff_of_false h1.not_gt ?_
            rintro ⟨r, hr, hlt⟩
            exact absurd hlt (not_lt.mpr (h2 r hr))
        have hzero : ∀ j, avgcap j = 0 ↔ ∀ r ∈ cs.resources, r.capacity j ≤ 0 := by
          intro j
          rcases hcases j with ⟨h1, r, hr, h2⟩ | ⟨h1, h2⟩
          · exact iff_of_false h1.ne' fun hall => absurd h2 (not_lt.mpr (hall r hr))
          · exact iff_of_true h1 h2
        simp only [hpos, hzero]
        exact or_congr_right ⟨fun h r hr j => h j r hr, fun h j r hr => h r hr j⟩
  · refine iff_of_true (Abpfn.historyRight_of_none fun dstats m _ hds hm => ?_) (Or.inl hhist)
    exact absurd ⟨dstats, m, hds, hm⟩ hhist

end Divisions

/-! ### The calls of a run -/

namespace Evaluator

/-- On no host does the LE fit exactly if there is no trial. -/
lemma trials_eq_nil_iff {l : LeRef} {hosts : List PeRef} {cs : CloudSystem n K} :
    trials l hosts cs = [] ↔ ∀ p ∈ hosts, Pe.canplaceLE cs.mem p l = false := by
  induction hosts with
  | nil => simp [trials]
  | cons p hosts ih =>
      rw [trials]
      split_ifs with hfit
      · simp [hfit]
      · simp [hfit, ih]

variable [Field K] [LinearOrder K]

section Calls

variable [FloorRing K]

/-- The systems for which `abpnf_getvariation_demand_history` is called in an
evaluation: those whose value is read, when the objective is that of `A_BINPACK`
and the utilizations have a variation. -/
def historyCalls (e : Evaluator n K) (l : LeRef) : List (CloudSystem n K) :=
  if e.policyobjective.usesStats then
    (trials l e.cs.pes (noteDemand e.cs l)).filter fun placed =>
      (Abpfn.getvariationSystem placed).isSome
  else []

/-- The LE fits on no PE, or every resource is on some PE, or none is. -/
def CapacitiesCover (cs : CloudSystem n K) (demand : Fin n → ℤ) : Prop :=
  (∀ r ∈ cs.resources, r.canuse demand = false)
    ∨ (∀ j, ∃ r ∈ cs.resources, 0 < r.capacity j)
    ∨ ∀ r ∈ cs.resources, ∀ j, r.capacity j ≤ 0

/-- The systems for which it is called in an event. -/
def historyCallsOfEvent (e : Evaluator n K) : Event n → List (CloudSystem n K)
  | .eval id demand => (e.createLE id demand).historyCalls e.cs.mem.leCount
  | _ => []

variable [IsStrictOrderedRing K]

/-- A trial is divided right exactly if the capacities of the system are as
they should be: there are demands, if there are statistics. -/
lemma historyRight_trial_iff {e : Evaluator n K} {l : LeRef} {dstats : DemandStats n K}
    (hds : e.cs.ds = some dstats) {placed : CloudSystem n K}
    (hplaced : placed ∈ trials l e.cs.pes (noteDemand e.cs l)) :
    Abpfn.HistoryRight placed ↔ (∀ j, ∃ r ∈ e.cs.resources, 0 < r.capacity j)
      ∨ ∀ r ∈ e.cs.resources, ∀ j, r.capacity j ≤ 0 := by
  obtain ⟨hpes, hpds, hcap⟩ := of_mem_trials hplaced
  have hpds' : placed.ds = some (dstats.add (e.cs.mem.le l).demand) := by
    rw [hpds, noteDemand, hds]
    rfl
  have hhist : placed.HasHistory := ⟨_, _, hpds', rfl⟩
  have hres : ∀ P : (Fin n → ℤ) → Prop,
      (∀ r ∈ placed.resources, P r.capacity) ↔ ∀ r ∈ e.cs.resources, P r.capacity := by
    intro P
    simp only [CloudSystem.resources, List.forall_mem_map, hpes, hcap]
    exact Iff.rfl
  have hex : ∀ j, (∃ r ∈ placed.resources, 0 < r.capacity j)
      ↔ ∃ r ∈ e.cs.resources, 0 < r.capacity j := by
    intro j
    have hall := not_congr (hres fun c => ¬ 0 < c j)
    push Not at hall
    exact hall
  rw [historyRight_iff_capacities, or_iff_right (not_not.mpr hhist), hres fun c => ∀ j, c j ≤ 0]
  · simp only [hex]
  · intro old m hold hm
    rw [hpds', Option.some.injEq] at hold
    exact DemandStats.avg2_isSymm_add (hold ▸ hm)

/-- The calls of one evaluation. -/
lemma historyCalls_right_iff (e : Evaluator n K) (l : LeRef) :
    (∀ cs ∈ e.historyCalls l, Abpfn.HistoryRight cs) ↔ e.policyobjective.usesStats = false
      ∨ e.cs.ds = none ∨ CapacitiesCover e.cs (e.cs.mem.le l).demand := by
  by_cases htype : e.policyobjective.usesStats = true
  · rw [or_iff_right (by simp [htype])]
    cases hds : e.cs.ds with
    | none =>
        refine iff_of_true (fun placed hplaced => ?_) (Or.inl rfl)
        rw [historyCalls, if_pos htype] at hplaced
        obtain ⟨-, hpds, -⟩ := of_mem_trials (List.mem_of_mem_filter hplaced)
        refine Abpfn.historyRight_of_none fun dstats m avgcap hsome => ?_
        rw [hpds, noteDemand, hds] at hsome
        cases hsome
    | some dstats =>
        rw [or_iff_right (by simp)]
        have hnil : trials l e.cs.pes (noteDemand e.cs l) = []
            ↔ ∀ r ∈ e.cs.resources, r.canuse (e.cs.mem.le l).demand = false := by
          rw [trials_eq_nil_iff, CloudSystem.resources, List.forall_mem_map]
          exact Iff.rfl
        have hcalls : ∀ cs, cs ∈ e.historyCalls l
            ↔ cs ∈ trials l e.cs.pes (noteDemand e.cs l)
              ∧ (Abpfn.getvariationSystem cs).isSome = true := by
          intro cs
          rw [historyCalls, if_pos htype, List.mem_filter]
        constructor
        · intro hright
          refine or_iff_not_imp_left.mpr fun hfit => ?_
          obtain ⟨placed, hplaced⟩ := List.exists_mem_of_ne_nil _ (mt hnil.mp hfit)
          by_cases hn : n = 0
          · subst hn
            exact Or.inl fun j => j.elim0
          · refine (historyRight_trial_iff hds hplaced).mp
              (hright placed ((hcalls placed).mpr ⟨hplaced, ?_⟩))
            have hpes : placed.pes ≠ [] := by
              rw [(of_mem_trials hplaced).1]
              intro hempty
              have hempty' : e.cs.pes = [] := hempty
              rw [hempty'] at hplaced
              cases hplaced
            rw [Abpfn.getvariationSystem, if_neg (by simp [CloudSystem.getnumresources, hpes, hn])]
            rfl
        · rintro (hnone | hcap) placed hplaced
          · rw [hcalls, hnil.mpr hnone] at hplaced
            cases hplaced.1
          · exact (historyRight_trial_iff hds ((hcalls placed).mp hplaced).1).mpr hcap
  · have hfalse : e.policyobjective.usesStats = false := by simpa using htype
    exact iff_of_true (by simp [historyCalls, hfalse]) (Or.inl hfalse)

/-- The calls of one event. -/
lemma historyCallsOfEvent_right_iff (e : Evaluator n K) (ev : Event n) :
    (∀ cs ∈ e.historyCallsOfEvent ev, Abpfn.HistoryRight cs)
      ↔ e.policyobjective.usesStats = false ∨ e.cs.ds = none
        ∨ ∀ id demand, ev = .eval id demand → CapacitiesCover e.cs demand := by
  cases ev with
  | eval id demand =>
      have hdemand : ((e.createLE id demand).cs.mem.le e.cs.mem.leCount).demand = demand :=
        congrArg Le.demand (Memory.newLe_fst_le_self e.cs.mem (Le.create id demand))
      rw [historyCallsOfEvent, historyCalls_right_iff, hdemand]
      refine or_congr_right (or_congr_right ⟨?_, fun h => h id demand rfl⟩)
      rintro h id' demand' heq
      obtain ⟨rfl, rfl⟩ := Event.eval.inj heq
      exact h
  | _ => simp [historyCallsOfEvent]

end Calls

variable [HasSqrt K] [FloorRing K]

/-- The systems for which it is called in a run. -/
def historyCallsOfRun (e : Evaluator n K) : List (Event n) → List (CloudSystem n K)
  | [] => []
  | ev :: evs => e.historyCallsOfEvent ev ++ (e.step ev).2.historyCallsOfRun evs

/-- At every evaluation of a run the LE fits on no PE, or every resource is on
some PE, or none is. -/
def RunCovers (e : Evaluator n K) : List (Event n) → Prop
  | [] => True
  | ev :: evs => (∀ id demand, ev = .eval id demand → CapacitiesCover e.cs demand)
      ∧ (e.step ev).2.RunCovers evs

variable [IsStrictOrderedRing K]

/-- In a run from a well-formed state that collects the demands. -/
lemma historyCallsOfRun_right_iff {e : Evaluator n K} (h : e.updater.WF)
    (htype : e.policyobjective.usesStats = true) (hds : e.cs.ds ≠ none) (evs : List (Event n)) :
    (∀ cs ∈ e.historyCallsOfRun evs, Abpfn.HistoryRight cs) ↔ e.RunCovers evs := by
  induction evs generalizing e with
  | nil => simp [historyCallsOfRun, RunCovers]
  | cons ev evs ih =>
      have hrest := ih (wf_step h ev) (by rw [step_policyobjective]; exact htype)
        (fun hnone => hds ((ds_step_eq_none_iff h ev).mp hnone))
      rw [historyCallsOfRun, RunCovers, List.forall_mem_append, hrest,
        historyCallsOfEvent_right_iff, or_iff_right (by simp [htype]), or_iff_right hds]

/-- Without statistics there is nothing to divide. -/
lemma historyCallsOfRun_right_of_blind {e : Evaluator n K} (h : e.updater.WF)
    (hblind : e.policyobjective.usesStats = false ∨ e.cs.ds = none) (evs : List (Event n)) :
    ∀ cs ∈ e.historyCallsOfRun evs, Abpfn.HistoryRight cs := by
  induction evs generalizing e with
  | nil => simp [historyCallsOfRun]
  | cons ev evs ih =>
      rw [historyCallsOfRun, List.forall_mem_append]
      refine ⟨(historyCallsOfEvent_right_iff e ev).mpr (hblind.imp_right Or.inl),
        ih (wf_step h ev) ?_⟩
      rw [step_policyobjective, ds_step_eq_none_iff h]
      exact hblind

end Evaluator

/-- In a run of update sessions and evaluations, every call divides by non-zero
numbers and hands on a symmetric matrix if and only if no demands are collected,
or at every evaluation the LE fits on no PE, or every resource is on some PE, or
none is. -/
theorem historyRight_iff [Field K] [LinearOrder K] [HasSqrt K] [FloorRing K]
    [IsStrictOrderedRing K] (resindex : ℤ) (type : ObjectiveType) (evs : List (Event n)) :
    (∀ cs ∈ (Evaluator.create resindex type : Evaluator n K).historyCallsOfRun evs,
        Abpfn.HistoryRight cs)
      ↔ type ≠ .aBinpack ∨ (Evaluator.create resindex type : Evaluator n K).RunCovers evs := by
  have hwf := Evaluator.wf_create (n := n) (K := K) resindex type
  by_cases htype : type = .aBinpack
  · subst htype
    rw [Evaluator.historyCallsOfRun_right_iff hwf rfl (by simp [Evaluator.create, Evaluator.cs,
      StateUpdater.create]), or_iff_right (by simp)]
  · refine iff_of_true (Evaluator.historyCallsOfRun_right_of_blind hwf (Or.inr ?_) evs)
      (Or.inl htype)
    simp [Evaluator.create, Evaluator.cs, StateUpdater.create, htype]

/-- A session that reports one node with the given capacities, and an evaluation
of a pod. -/
def oneNodeRun (capacity demand : Fin n → ℤ) : List (Event n) :=
  [.start .stored 1, .report (.pe "node" capacity none (some fun _ => 0)), .stop .stored,
    .eval "pod" demand]

/-- A node with GPUs: the pod fits, and every call is right. -/
theorem historyRight_oneNodeRun :
    ((Evaluator.create 0 .aBinpack : Evaluator 4 ℝ).run
        ((oneNodeRun ![4000, 16384, 110, 8] ![1, 1, 1, 0]).take 3)).2.cs.resources.any
          (·.canuse ![1, 1, 1, 0]) = true
      ∧ ∀ cs ∈ (Evaluator.create 0 .aBinpack : Evaluator 4 ℝ).historyCallsOfRun
        (oneNodeRun ![4000, 16384, 110, 8] ![1, 1, 1, 0]), Abpfn.HistoryRight cs := by
  refine ⟨by decide, (historyRight_iff 0 .aBinpack _).mpr (Or.inr ?_)⟩
  refine ⟨fun _ _ h => (by cases h), fun _ _ h => (by cases h), fun _ _ h => (by cases h),
    fun _ _ _ => Or.inr (Or.inl ?_), trivial⟩
  decide

/-- A node without GPUs, and a pod that asks for none: the first row is divided by
the product of the average CPU capacity with zero. -/
theorem not_historyRight_oneNodeRun :
    ¬ ∀ cs ∈ (Evaluator.create 0 .aBinpack : Evaluator 4 ℝ).historyCallsOfRun
      (oneNodeRun ![4000, 16384, 110, 0] ![1, 1, 1, 0]), Abpfn.HistoryRight cs := by
  rw [Evaluator.historyCallsOfRun_right_iff (Evaluator.wf_create 0 .aBinpack) rfl
    (by simp [Evaluator.create, Evaluator.cs, StateUpdater.create])]
  rintro ⟨-, -, -, h, -⟩
  rcases h "pod" ![1, 1, 1, 0] rfl with h | h | h
  · revert h
    decide
  · revert h
    decide
  · revert h
    decide

end KubeSafeScheduler.Pigeon
