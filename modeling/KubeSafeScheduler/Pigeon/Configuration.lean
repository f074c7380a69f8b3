import KubeSafeScheduler.Pigeon.AdaptivePacking
import KubeSafeScheduler.Pigeon.Views

/-!
The two ways to configure an objective: `evaluator_create` with the objective,
and `evaluator_create` with another one followed by
`evaluator_setpolicyobjective`.

Only the first makes the statistics of the demands that `A_BINPACK` needs. An
objective that does not look at the statistics gives the same values on both
ways, by a simulation that ignores them; for `A_BINPACK` the values differ after
one session and one pod.

* `CloudSystem.withDs`: other statistics; every operation of a session commutes
  with it.
* `Evaluator.run_withDs`: the simulation.
* `Evaluator.setpolicyobjective_eq_create_iff`: when the two ways agree.
-/

namespace KubeSafeScheduler.Pigeon

variable {n : ℕ} {K : Type}

/-! ### Operations and statistics -/

namespace CloudSystem

/-- The system with other statistics. -/
def withDs (cs : CloudSystem n K) (ds : Option (DemandStats n K)) : CloudSystem n K :=
  { cs with ds := ds }

variable (cs : CloudSystem n K) (ds : Option (DemandStats n K))

lemma foldl_resetAt_withDs (ps : List (PeRef × ℕ)) :
    ps.foldl resetAt (cs.withDs ds) = (ps.foldl resetAt cs).withDs ds :=
  List.foldl_hom (withDs · ds) fun _ _ => rfl

lemma resetpes_withDs : (cs.withDs ds).resetpes = cs.resetpes.withDs ds := by
  by_cases hm : cs.ismodified = true
  · have hm' : (cs.withDs ds).ismodified = true := hm
    rw [resetpes, if_pos hm', resetpes, if_pos hm]
    exact foldl_resetAt_withDs { cs with ismodified := false, pemap := ∅ } ds cs.pes.zipIdx
  · have hm' : ¬ (cs.withDs ds).ismodified = true := hm
    rw [resetpes, if_neg hm', resetpes, if_neg hm]

lemma addPE_withDs (p : PeRef) : (cs.withDs ds).addPE p = (cs.addPE p).withDs ds := by
  by_cases hm : (cs.getPE (cs.mem.pe p).label).isSome = true
  · have hm' : ((cs.withDs ds).getPE ((cs.withDs ds).mem.pe p).label).isSome = true := hm
    rw [addPE, if_pos hm', addPE, if_pos hm]
  · have hm' : ¬ ((cs.withDs ds).getPE ((cs.withDs ds).mem.pe p).label).isSome = true := hm
    rw [addPE, if_neg hm', addPE, if_neg hm]
    rfl

lemma removePE_withDs (peid : String) :
    (cs.withDs ds).removePE peid = (cs.removePE peid).withDs ds := by
  have hget : (cs.withDs ds).pemap.get peid = cs.pemap.get peid := rfl
  rw [removePE, removePE, hget]
  cases cs.pemap.get peid <;> rfl

end CloudSystem

namespace StateUpdater

/-- The updater with other statistics. -/
def withDs (s : StateUpdater n K) (ds : Option (DemandStats n K)) : StateUpdater n K :=
  { s with cs := s.cs.withDs ds }

variable (s : StateUpdater n K) (ds : Option (DemandStats n K))

lemma dropPE_withDs (observed : Finset String) (cs : CloudSystem n K) (p : PeRef) :
    dropPE observed (cs.withDs ds) p = (dropPE observed cs p).withDs ds := by
  have hlabel : (cs.withDs ds).mem.pe p = cs.mem.pe p := rfl
  rw [dropPE, dropPE, hlabel]
  split_ifs
  · rfl
  · exact cs.removePE_withDs ds _

lemma removePEs_withDs : (s.withDs ds).removePEs = s.removePEs.withDs ds := by
  have hfold : s.cs.pes.foldl (dropPE s.observedPEs) (s.cs.withDs ds)
      = (s.cs.pes.foldl (dropPE s.observedPEs) s.cs).withDs ds :=
    List.foldl_hom (CloudSystem.withDs · ds) fun cs p => dropPE_withDs ds s.observedPEs cs p
  show ({ s with cs := (s.cs.pes.foldl (dropPE s.observedPEs) (s.cs.withDs ds)).resetpes } :
    StateUpdater n K) = _
  rw [hfold, CloudSystem.resetpes_withDs]
  rfl

lemma effectPlacement_withDs (cs : CloudSystem n K) (id : String) :
    (s.withDs ds).effectPlacement (cs.withDs ds) id = (s.effectPlacement cs id).withDs ds := by
  have hlook : (s.withDs ds).lemap.get id = s.lemap.get id := rfl
  have hhost : ((s.withDs ds).newplacements.get id).bind (cs.withDs ds).getPE
      = (s.newplacements.get id).bind cs.getPE := rfl
  rw [effectPlacement, effectPlacement, hlook, hhost]
  cases s.lemap.get id with
  | none => rfl
  | some l => cases (s.newplacements.get id).bind cs.getPE <;> rfl

lemma placeLEs_withDs (ord : EnumOrder) :
    (s.withDs ds).placeLEs ord = (s.placeLEs ord).withDs ds := by
  have hfold : (ord.order s.newplacements.getkeys).foldl (s.withDs ds).effectPlacement
        (s.cs.withDs ds)
      = ((ord.order s.newplacements.getkeys).foldl s.effectPlacement s.cs).withDs ds :=
    List.foldl_hom (CloudSystem.withDs · ds) fun cs id => effectPlacement_withDs s ds cs id
  exact congrArg (fun cs : CloudSystem n K => ({ s with cs := cs } : StateUpdater n K)) hfold

lemma stop_withDs (ord : EnumOrder) : (s.withDs ds).stop ord = (s.stop ord).withDs ds := by
  have hstarted : (s.withDs ds).started = s.started := rfl
  have hdelete : (s.removePEs.withDs ds).deleteLEs ord = (s.removePEs.deleteLEs ord).withDs ds :=
    rfl
  rw [stop, stop, hstarted, removePEs_withDs, hdelete, placeLEs_withDs]
  split_ifs <;> rfl

lemma start_withDs (ord : EnumOrder) (generation : ℤ) :
    ((s.withDs ds).start ord generation).2 = (s.start ord generation).2.withDs ds := by
  have hgen : (s.withDs ds).gen = s.gen := rfl
  have hstarted : (s.withDs ds).started = s.started := rfl
  rw [start, start, hgen, hstarted, stop_withDs]
  by_cases hle : generation ≤ s.gen
  · rw [if_pos hle, if_pos hle]
    rfl
  · rw [if_neg hle, if_neg hle]
    cases s.started <;> rfl

lemma updatePE_withDs (id : String) (capacity : Fin n → ℤ) (ovf : Option (Fin n → Bool))
    (usage : Option (Fin n → ℤ)) :
    (s.withDs ds).updatePE id capacity ovf usage
      = (s.updatePE id capacity ovf usage).withDs ds := by
  have hstarted : (s.withDs ds).started = s.started := rfl
  have hget : (s.withDs ds).cs.getPE id = s.cs.getPE id := rfl
  rw [updatePE, updatePE, hstarted, hget]
  split_ifs
  · cases s.cs.getPE id with
    | none =>
        exact congrArg (fun cs : CloudSystem n K =>
          ({ s with observedPEs := insert id s.observedPEs, cs := cs } : StateUpdater n K))
          (CloudSystem.addPE_withDs
            { s.cs with mem := (s.cs.mem.newPe (Pe.observed id capacity ovf usage)).1 } ds
            s.cs.mem.peCount)
    | some p =>
        have hpe : (s.withDs ds).cs.mem.pe p = s.cs.mem.pe p := rfl
        simp only [hpe]
        split_ifs <;> rfl
  · rfl

lemma updateLE_withDs (id hostID : String) (demand : Fin n → ℤ) :
    (s.withDs ds).updateLE id hostID demand = (s.updateLE id hostID demand).withDs ds := by
  have hstarted : (s.withDs ds).started = s.started := rfl
  have hlook : (s.withDs ds).lemap.get id = s.lemap.get id := rfl
  have hmem : (s.withDs ds).cs.mem = s.cs.mem := rfl
  simp only [updateLE, hstarted, hlook, hmem]
  split_ifs
  · cases s.lemap.get id with
    | none => rfl
    | some l =>
        simp only
        cases (s.cs.mem.le l).host with
        | none => rfl
        | some p =>
            simp only
            split_ifs <;> rfl
  · rfl

lemma report_withDs (r : Report n) : (s.withDs ds).report r = (s.report r).withDs ds := by
  cases r with
  | pe id capacity ovf usage => exact updatePE_withDs s ds id capacity ovf usage
  | le id hostID demand => exact updateLE_withDs s ds id hostID demand

end StateUpdater

/-! ### The simulation -/

namespace Evaluator

/-- The evaluator with other statistics. -/
def withDs (e : Evaluator n K) (ds : Option (DemandStats n K)) : Evaluator n K :=
  { e with updater := e.updater.withDs ds }

variable [Field K] [LinearOrder K] [HasSqrt K]

/-- The objective of the evaluator does not look at the statistics. -/
def Blind (e : Evaluator n K) : Prop :=
  ∀ (cs : CloudSystem n K) (ds : Option (DemandStats n K)),
    Objfn.getvalue (cs.withDs ds) e.policyobjective e.policyresourceindex
      = Objfn.getvalue cs e.policyobjective e.policyresourceindex

lemma evalLoop_withDs {e : Evaluator n K} (h : e.Blind) (l : LeRef) (hosts : List PeRef)
    (cs : CloudSystem n K) (ds : Option (DemandStats n K)) :
    evalLoop e.policyobjective e.policyresourceindex l hosts (cs.withDs ds)
      = ((evalLoop e.policyobjective e.policyresourceindex l hosts cs).1,
          (evalLoop e.policyobjective e.policyresourceindex l hosts cs).2.withDs ds) := by
  induction hosts generalizing cs with
  | nil => rfl
  | cons p hosts ih =>
      have hfit : Pe.canplaceLE (cs.withDs ds).mem p l = Pe.canplaceLE cs.mem p l := rfl
      have hvalue := h { cs with mem := (Pe.placeLE cs.mem p l true).2 } ds
      obtain ⟨hvals, hcs⟩ := Prod.ext_iff.mp (ih { cs with mem :=
        (Pe.removeLE (Pe.placeLE cs.mem p l true).2 p l true).2 })
      rw [evalLoop, evalLoop, hfit]
      split_ifs
      · exact Prod.ext (congrArg₂ (fun v vals => some v :: vals) hvalue hvals) hcs
      · rw [ih cs]

variable [FloorRing K]

lemma eval_withDs {e : Evaluator n K} (h : e.Blind) (ds : Option (DemandStats n K)) (l : LeRef) :
    ((e.withDs ds).eval l).1 = (e.eval l).1
      ∧ ∃ ds', ((e.withDs ds).eval l).2 = (e.eval l).2.withDs ds' := by
  have hnote : noteDemand (e.withDs ds).cs l
      = (noteDemand e.cs l).withDs (noteDemand (e.withDs ds).cs l).ds := rfl
  have hloop := evalLoop_withDs h l e.cs.pes (noteDemand e.cs l)
    (noteDemand (e.withDs ds).cs l).ds
  rw [← hnote] at hloop
  obtain ⟨hvals, hcs⟩ := Prod.ext_iff.mp hloop
  exact ⟨hvals, (noteDemand (e.withDs ds).cs l).ds, congrArg e.setCs hcs⟩

/-- An event returns the same values whatever the statistics are. -/
lemma step_withDs {e : Evaluator n K} (h : e.Blind) (ds : Option (DemandStats n K))
    (ev : Event n) :
    ((e.withDs ds).step ev).1 = (e.step ev).1
      ∧ ∃ ds', ((e.withDs ds).step ev).2 = (e.step ev).2.withDs ds' := by
  cases ev with
  | start ord generation =>
      exact ⟨rfl, ds, congrArg (fun s => ({ e with updater := s } : Evaluator n K))
        (e.updater.start_withDs ds ord generation)⟩
  | report r =>
      exact ⟨rfl, ds, congrArg (fun s => ({ e with updater := s } : Evaluator n K))
        (e.updater.report_withDs ds r)⟩
  | stop ord =>
      exact ⟨rfl, ds, congrArg (fun s => ({ e with updater := s } : Evaluator n K))
        (e.updater.stop_withDs ds ord)⟩
  | eval id demand =>
      have hblind : (e.createLE id demand).Blind := h
      obtain ⟨h1, ds', h2⟩ := eval_withDs hblind ds e.cs.mem.leCount
      exact ⟨congrArg some h1, ds', h2⟩

lemma Blind.step {e : Evaluator n K} (h : e.Blind) (ev : Event n) : (e.step ev).2.Blind := by
  cases ev <;> exact h

/-- A run returns the same values whatever the statistics are. -/
lemma run_withDs {e : Evaluator n K} (h : e.Blind) (ds : Option (DemandStats n K))
    (evs : List (Event n)) : ((e.withDs ds).run evs).1 = (e.run evs).1 := by
  induction evs generalizing e ds with
  | nil => rfl
  | cons ev evs ih =>
      obtain ⟨h1, ds', h2⟩ := step_withDs h ds ev
      show ((e.withDs ds).step ev).1.toList ++ (((e.withDs ds).step ev).2.run evs).1
        = (e.step ev).1.toList ++ ((e.step ev).2.run evs).1
      rw [h1, h2, ih (h.step ev)]

omit [FloorRing K] in
/-- `LOAD_BALANCE` and `CONSOLIDATE` do not look at the statistics, and without
resources nothing does. -/
lemma blind_of {e : Evaluator n K} (h : n = 0 ∨ e.policyobjective.usesStats = false) :
    e.Blind := by
  intro cs ds
  rcases h with rfl | h
  · have habp : ∀ cs : CloudSystem 0 K, Abpfn.getsystemvalue cs = 0 := by
      intro cs
      rw [Abpfn.getsystemvalue, Abpfn.getvariationSystem,
        if_pos (Or.inr (by simp [CloudSystem.getnumresources]))]
    cases e.policyobjective with
    | loadBalance => rfl
    | consolidate => rfl
    | _ => exact (habp _).trans (habp _).symm
  · have hperm : (cs.withDs ds).resources.Perm cs.resources := List.Perm.refl _
    refine Objfn.getvalue_congr hperm _ (fun huse => ?_) _
    rw [h] at huse
    exact absurd huse (by decide)

end Evaluator

/-! ### A run that tells the two ways apart -/

/-- Two PEs, one half used in every resource and one not used: there is
variation. -/
lemma systemVariation_pos (hn : n ≠ 0) {r r' : Resource n}
    (hr : ∀ j, (r.getutilization j : ℝ) = 1 / 2) (hr' : ∀ j, (r'.getutilization j : ℝ) = 0) :
    0 < systemVariation [r, r'] := by
  have hmu : (matrixAverage (Abpfn.systemMatrix [r, r']) : Fin n → ℝ) = fun _ => 1 / 4 := by
    funext j
    rw [matrixAverage_systemMatrix]
    simp [hr, hr']
    norm_num
  have hsigma : (matrixCovariance (Abpfn.systemMatrix [r, r']) : Matrix (Fin n) (Fin n) ℝ)
      = Matrix.of fun _ _ => 1 / 16 := by
    ext j k
    rw [matrixCovariance_systemMatrix]
    simp [hr, hr']
    norm_num
  have hpos : (0 : ℝ) < n := Nat.cast_pos.mpr (Nat.pos_of_ne_zero hn)
  rw [systemVariation, hmu, hsigma, coefficientVariationFromStats, dif_neg hn]
  split_ifs with h1
  · show (0 : ℝ) < if (1 / 4 : ℝ) ≠ 0 ∧ (0 : ℝ) ≤ 1 / 16 then Real.sqrt (1 / 16) / (1 / 4) else 0
    rw [if_pos (by norm_num)]
    positivity
  · have hdenom : (0 : ℝ) < albertZhangDenom fun _ : Fin n => (1 / 4 : ℝ) := by
      simp [albertZhangDenom, arraySum, arrayMultiply]
      positivity
    have hnom : (0 : ℝ) < albertZhangNom (Matrix.of fun _ _ : Fin n => (1 / 16 : ℝ))
        fun _ => 1 / 4 := by
      simp [albertZhangNom, arraySum, arrayMultiply, matrixMultiplyLeft]
      positivity
    simp only [sqrt_real, max_eq_left hnom.le]
    rw [if_pos ⟨hdenom, hnom⟩]
    exact div_pos (Real.sqrt_pos.mpr hnom) hdenom

/-- A PE of ten units of every resource, not used. -/
def emptyResource (n : ℕ) : Resource n where
  capacity := fun _ => 10
  usage := fun _ => 0
  allowoverflow := fun _ => false

/-- A session that reports two empty PEs, and a pod that asks for half of one. -/
def twoEmptyNodes (n : ℕ) : List (Event n) :=
  [.start .stored 1,
   .report (.pe "a" (fun _ => 10) (some fun _ => false) (some fun _ => 0)),
   .report (.pe "b" (fun _ => 10) (some fun _ => false) (some fun _ => 0)),
   .stop .stored,
   .eval "pod" fun _ => 5]

/-- The state of the updater before the pod of `twoEmptyNodes`. -/
def twoEmptyNodesUpdater (s : StateUpdater n K) : StateUpdater n K :=
  (((s.start .stored 1).2.updatePE "a" (fun _ => 10) (some fun _ => false)
    (some fun _ => 0)).updatePE "b" (fun _ => 10) (some fun _ => false)
    (some fun _ => 0)).stop .stored

/-- From an empty system the session leaves the two PEs. -/
lemma twoEmptyNodesUpdater_spec {s : StateUpdater n K} (h : s.Podless) (hgen : s.gen < 1)
    (hview : ∀ name, s.cs.view name = none) :
    (twoEmptyNodesUpdater s).Podless ∧ (twoEmptyNodesUpdater s).cs.ds = s.cs.ds
      ∧ ∀ name r, (twoEmptyNodesUpdater s).cs.view name = some r ↔
          (name = "a" ∨ name = "b") ∧ r = emptyResource n := by
  obtain ⟨h1, v1, d1, -, st1, o1⟩ := h.start .stored hgen
  set s1 := (s.start .stored 1).2 with hs1
  have hnone : ∀ name, s1.cs.view name = none := by
    intro name
    rw [v1, StateUpdater.viewOnStop]
    split_ifs
    · rfl
    · exact hview name
  obtain ⟨h2, r2, v2, -⟩ := h1.updatePE st1 "a" (fun _ => 10) (some fun _ => false)
    (some fun _ => 0)
  have a2 := h1.view_updatePE st1 "a" (fun _ => by decide : ∀ _ : Fin n, (0 : ℤ) ≤ 10)
    (fun _ => le_refl 0) (fun name r hr => absurd hr (by rw [hnone]; simp))
  set s2 := s1.updatePE "a" (fun _ => 10) (some fun _ => false) (some fun _ => 0) with hs2
  have st2 : s2.started = true := r2.started.trans st1
  obtain ⟨h3, r3, v3, -⟩ := h2.updatePE st2 "b" (fun _ => 10) (some fun _ => false)
    (some fun _ => 0)
  have b3 := h2.view_updatePE st2 "b" (fun _ => by decide : ∀ _ : Fin n, (0 : ℤ) ≤ 10)
    (fun _ => le_refl 0) (fun name r hr => by
      by_cases hname : name = "a"
      · rw [hname, a2] at hr
        rw [← Option.some.inj hr]
      · rw [v2 name hname, hnone] at hr
        exact absurd hr (by simp))
  set s3 := s2.updatePE "b" (fun _ => 10) (some fun _ => false) (some fun _ => 0) with hs3
  obtain ⟨h4, v4, d4, -, -⟩ := h3.stop .stored
  have hobs : ∀ name, name ∈ s3.observedPEs ↔ name = "a" ∨ name = "b" := by
    intro name
    rw [r3.observedPEs, r2.observedPEs, o1]
    simp [or_comm]
  refine ⟨h4, d4.trans (r3.ds.trans (r2.ds.trans d1)), fun name r => ?_⟩
  show (s3.stop .stored).cs.view name = some r ↔ _
  rw [v4, StateUpdater.viewOnStop_eq_some, hobs]
  have st3 : s3.started = true := r3.started.trans st2
  have hshown : name = "a" ∨ name = "b" → s3.cs.view name = some (emptyResource n) := by
    rintro (rfl | rfl)
    · rw [v3 "a" (by decide)]
      exact a2
    · exact b3
  constructor
  · rintro ⟨hname, hr⟩
    rw [hshown (hname st3)] at hr
    exact ⟨hname st3, (Option.some.inj hr).symm⟩
  · rintro ⟨hname, rfl⟩
    exact ⟨fun _ => hname, hshown hname⟩

namespace Evaluator

/-- The evaluator with the pod of `twoEmptyNodes`. -/
def withHalfPod (e : Evaluator n K) : Evaluator n K :=
  ({ e with updater := twoEmptyNodesUpdater e.updater } : Evaluator n K).createLE "pod" fun _ => 5

/-- The LE of the pod. -/
def halfPod (e : Evaluator n K) : LeRef := (twoEmptyNodesUpdater e.updater).cs.mem.leCount

lemma withHalfPod_demand (e : Evaluator n K) :
    (e.withHalfPod.cs.mem.le e.halfPod).demand = fun _ => 5 :=
  congrArg Le.demand (Memory.newLe_fst_le_self (twoEmptyNodesUpdater e.updater).cs.mem
    (Le.create "pod" fun _ => 5))

variable [Field K] [LinearOrder K] [HasSqrt K] [FloorRing K]

/-- The values that `twoEmptyNodes` returns from an empty system. -/
lemma run_twoEmptyNodes {e : Evaluator n K} (h : e.updater.Podless) (hgen : e.updater.gen < 1)
    (hview : ∀ name, e.cs.view name = none) :
    (e.run (twoEmptyNodes n)).1 = [e.withHalfPod.cs.pes.map (valueAt e.policyobjective
      e.policyresourceindex (noteDemand e.withHalfPod.cs e.halfPod) e.halfPod)] := by
  obtain ⟨h1, -, h3⟩ := twoEmptyNodesUpdater_spec h hgen hview
  have hu : ∀ p ∈ e.withHalfPod.cs.pes, ∀ i, 0 ≤ (e.withHalfPod.cs.mem.pe p).resource.usage i := by
    intro p hp i
    have hp' := h1.wf.cs.view_eq_some.mpr ⟨p, hp, rfl, rfl⟩
    have hres : (e.withHalfPod.cs.mem.pe p).resource = emptyResource n := ((h3 _ _).mp hp').2
    rw [hres]
    exact le_refl 0
  have hl : Unhosted e.withHalfPod.cs e.halfPod :=
    unhosted_createLE (e := { e with updater := twoEmptyNodesUpdater e.updater }) h1.wf.cs _ _
  have hrun : (e.run (twoEmptyNodes n)).1 = [(e.withHalfPod.eval e.halfPod).1] := rfl
  rw [hrun, eval_eq _ _ hl hu]
  rfl

omit [FloorRing K] in
/-- Without statistics every value of `A_BINPACK` is zero. -/
lemma valueAt_of_no_stats {cs : CloudSystem n K} (h : cs.ds = none) (resindex : ℤ) (l : LeRef)
    (p : PeRef) {v : K} (hv : valueAt .aBinpack resindex cs l p = some v) : v = 0 := by
  have hds : (cs.withPlaced p l).ds = none := h
  have hvalue : Abpfn.getsystemvalue (cs.withPlaced p l) = 0 := by
    rw [Abpfn.getsystemvalue, Abpfn.getvariationDemandHistory, hds]
    cases Abpfn.getvariationSystem (cs.withPlaced p l) <;> rfl
  rw [valueAt] at hv
  split_ifs at hv
  exact (Option.some.inj hv).symm.trans hvalue

end Evaluator

/-- A node that is half in use beside an empty one varies. -/
lemma systemVariation_half_pos (hn : n ≠ 0) {resources : List (Resource n)}
    (h : resources.Perm [((emptyResource n).use fun _ => 5).2, emptyResource n]) :
    0 < systemVariation resources := by
  rw [systemVariation_perm h]
  refine systemVariation_pos hn (fun j => ?_) fun j => ?_
  · rw [getutilization_eq (by simp [emptyResource, Resource.use])
      (by simp [emptyResource, Resource.use]) (by simp [emptyResource, Resource.use])]
    simp [emptyResource, Resource.use]
    norm_num
  · rw [getutilization_eq (by simp [emptyResource]) (by simp [emptyResource])
      (by simp [emptyResource])]
    simp [emptyResource]

/-- With statistics that hold the pod alone, some value of `A_BINPACK` is
positive. -/
lemma Evaluator.exists_valueAt_pos (hn : n ≠ 0) {e : Evaluator n ℝ} (h : e.updater.Podless)
    (hgen : e.updater.gen < 1) (hview : ∀ name, e.cs.view name = none)
    (hds : e.cs.ds = some (DemandStats.create 0)) (resindex : ℤ) :
    ∃ p ∈ e.withHalfPod.cs.pes, ∃ v, 0 < v ∧ valueAt .aBinpack resindex
      (noteDemand e.withHalfPod.cs e.halfPod) e.halfPod p = some v := by
  obtain ⟨h1, h2, h3⟩ := twoEmptyNodesUpdater_spec h hgen hview
  set cs := noteDemand e.withHalfPod.cs e.halfPod with hcs
  have hwf : cs.WF := (wf_sameShape (wf_createLE (e := { e with
    updater := twoEmptyNodesUpdater e.updater }) h1.wf "pod" fun _ => 5)
    (Memory.SameShape.refl _) _).cs
  have hdemand : (cs.mem.le e.halfPod).demand = fun _ => 5 := e.withHalfPod_demand
  have hcsview : ∀ name r, cs.view name = some r ↔
      (name = "a" ∨ name = "b") ∧ r = emptyResource n := h3
  obtain ⟨p, hp, hlabel, hres⟩ := hwf.view_eq_some.mp ((hcsview "a" _).mpr ⟨Or.inl rfl, rfl⟩)
  have hshown : cs.shown.Perm [("a", emptyResource n), ("b", emptyResource n)] := by
    refine (List.perm_ext_iff_of_nodup hwf.nodup_shown (by simp)).mpr ?_
    rintro ⟨name, r⟩
    rw [hwf.mem_shown, hcsview]
    simp only [List.mem_cons, Prod.mk.injEq, List.not_mem_nil, or_false]
    tauto
  have hresources : (cs.withPlaced p e.halfPod).resources.Perm
      [((emptyResource n).use fun _ => 5).2, emptyResource n] := by
    rw [hwf.resources_withPlaced_eq hp, hlabel, hdemand]
    exact hshown.map _
  have hfit : Pe.canplaceLE cs.mem p e.halfPod = true := by
    rw [Pe.canplaceLE, hres, hdemand, Resource.canuse_iff]
    exact fun i => Or.inr (by simp [emptyResource])
  have hcsds : (cs.withPlaced p e.halfPod).ds
      = some ((DemandStats.create (0 : ℝ)).add fun _ => 5) := by
    show e.withHalfPod.cs.ds.map _ = _
    rw [show e.withHalfPod.cs.ds = e.cs.ds from h2, hds, withHalfPod_demand]
    rfl
  have hconst : ((DemandStats.create (0 : ℝ)).add fun _ : Fin n => 5).Constant fun _ => 5 :=
    DemandStats.constant_replicate (fun _ => 5) 1
  have hvalue : Abpfn.getsystemvalue (cs.withPlaced p e.halfPod)
      = systemVariation (cs.withPlaced p e.halfPod).resources := by
    refine Abpfn.getsystemvalue_of_constant (List.ne_nil_of_mem hp) (c := fun _ => 10) (by simp)
      (fun r hr => ?_) hcsds hconst ⟨_, rfl⟩
    rcases List.mem_pair.mp (hresources.mem_iff.mp hr) with rfl | rfl <;> rfl
  refine ⟨p, hp, Objfn.getvalue (cs.withPlaced p e.halfPod) .aBinpack resindex, ?_, ?_⟩
  · show 0 < Abpfn.getsystemvalue (cs.withPlaced p e.halfPod)
    rw [hvalue]
    exact systemVariation_half_pos hn hresources
  · rw [valueAt, if_pos hfit]

/-! ### When the two ways agree -/

lemma objtypeFromstring_eq_aBinpack {s : String} (h : ¬ (s = "LOAD_BALANCE" ∨ s = "CONSOLIDATE")) :
    objtypeFromstring (some s) = .aBinpack := by
  obtain ⟨h1, h2⟩ := not_or.mp h
  rw [objtypeFromstring, if_neg h1, if_neg h2, ite_self]

namespace Evaluator

/-- From empty systems, the one without statistics and the other with new ones,
`A_BINPACK` returns different values. -/
lemma run_twoEmptyNodes_ne (hn : n ≠ 0) {e f : Evaluator n ℝ} (he : e.updater.Podless)
    (hegen : e.updater.gen < 1) (heview : ∀ name, e.cs.view name = none) (heds : e.cs.ds = none)
    (hf : f.updater.Podless) (hfgen : f.updater.gen < 1) (hfview : ∀ name, f.cs.view name = none)
    (hfds : f.cs.ds = some (DemandStats.create 0)) (hetype : e.policyobjective = .aBinpack)
    (hftype : f.policyobjective = .aBinpack) :
    (e.run (twoEmptyNodes n)).1 ≠ (f.run (twoEmptyNodes n)).1 := by
  intro hsame
  have hleft := run_twoEmptyNodes he hegen heview
  have hright := run_twoEmptyNodes hf hfgen hfview
  rw [hsame, hright, List.singleton_inj, hetype, hftype] at hleft
  obtain ⟨p, hp, v, hv, hvalue⟩ := exists_valueAt_pos hn hf hfgen hfview hfds f.policyresourceindex
  -- the value is in the vector of `f`, so it is in that of `e`, where all are zero
  have hmem := List.mem_map.mpr ⟨p, hp, hvalue⟩
  rw [hleft, List.mem_map] at hmem
  obtain ⟨q, -, hq⟩ := hmem
  obtain ⟨-, hds, -⟩ := twoEmptyNodesUpdater_spec he hegen heview
  have hnone : (noteDemand e.withHalfPod.cs e.halfPod).ds = none := by
    show e.withHalfPod.cs.ds.map _ = none
    rw [show e.withHalfPod.cs.ds = e.cs.ds from hds, heds]
    rfl
  exact hv.ne' (valueAt_of_no_stats hnone _ _ _ hq)

/-- Set to `A_BINPACK` by name, an evaluator made for another objective does not
return the values of one made for `A_BINPACK`. -/
lemma run_setpolicyobjective_ne (hn : n ≠ 0) (resindex : ℤ) {o1 : ObjectiveType} {o2 : String}
    (ho1 : o1 ≠ .aBinpack) (ho2 : objtypeFromstring (some o2) = .aBinpack) :
    (((create resindex o1 : Evaluator n ℝ).setpolicyobjective o2).run (twoEmptyNodes n)).1
      ≠ ((create resindex (objtypeFromstring (some o2)) : Evaluator n ℝ).run
          (twoEmptyNodes n)).1 := by
  obtain ⟨l1, l2, l3⟩ := podless_create (n := n) (K := ℝ) resindex o1
  obtain ⟨r1, r2, r3⟩ := podless_create (n := n) (K := ℝ) resindex (objtypeFromstring (some o2))
  exact run_twoEmptyNodes_ne hn l1 l2 l3 (if_neg ho1) r1 r2 r3 (if_pos ho2) ho2 ho2

/-- Set to an objective that does not look at the statistics, an evaluator
returns the values of one made for it. -/
lemma run_setpolicyobjective_eq (resindex : ℤ) (o1 : ObjectiveType) (o2 : String)
    (h : n = 0 ∨ (objtypeFromstring (some o2)).usesStats = false) (evs : List (Event n)) :
    (((create resindex o1 : Evaluator n ℝ).setpolicyobjective o2).run evs).1
      = ((create resindex (objtypeFromstring (some o2)) : Evaluator n ℝ).run evs).1 :=
  (run_withDs (blind_of (e := (create resindex o1 : Evaluator n ℝ).setpolicyobjective o2) h)
    (create resindex (objtypeFromstring (some o2)) : Evaluator n ℝ).cs.ds evs).symm

/-- An evaluator made for one objective and set to another by name returns the
same values in every run as one made for the second if and only if there are no
resources, or it was made for `A_BINPACK`, or the name is that of an objective
that does not use the statistics. The policy resource, where the second
objective reads it, is one of the resources. -/
theorem setpolicyobjective_eq_create_iff (n : ℕ) (resindex : ℤ) (o1 : ObjectiveType)
    (o2 : String) (_hindex : (objtypeFromstring (some o2)).usesStats = true
      ∨ 0 ≤ resindex ∧ resindex < n) :
    (∀ evs : List (Event n),
        (((create resindex o1 : Evaluator n ℝ).setpolicyobjective o2).run evs).1
          = ((create resindex (objtypeFromstring (some o2)) : Evaluator n ℝ).run evs).1)
      ↔ n = 0 ∨ o1 = .aBinpack ∨ o2 = "LOAD_BALANCE" ∨ o2 = "CONSOLIDATE" := by
  constructor
  · intro hsame
    by_contra hcond
    obtain ⟨hn, hcond⟩ := not_or.mp hcond
    obtain ⟨ho1, ho2⟩ := not_or.mp hcond
    exact run_setpolicyobjective_ne hn resindex ho1 (objtypeFromstring_eq_aBinpack ho2) (hsame _)
  · intro hcond evs
    by_cases ho2 : o2 = "LOAD_BALANCE" ∨ o2 = "CONSOLIDATE"
    · exact run_setpolicyobjective_eq resindex o1 o2
        (Or.inr ((usesStats_objtypeFromstring (some o2)).mpr
          (ho2.imp (congrArg some) (congrArg some)))) evs
    · have htype := objtypeFromstring_eq_aBinpack ho2
      rcases hcond with hn | rfl | h
      · exact run_setpolicyobjective_eq resindex o1 o2 (Or.inl hn) evs
      · -- both ways make the statistics
        rw [setpolicyobjective, htype]
        rfl
      · exact absurd h ho2

/-- The second of two resources: `LOAD_BALANCE` can be changed to `CONSOLIDATE` and
not to `A_BINPACK`. -/
theorem setpolicyobjective_eq_create_iff_second :
    (∀ evs : List (Event 2),
        (((create 1 .loadBalance : Evaluator 2 ℝ).setpolicyobjective "CONSOLIDATE").run evs).1
          = ((create 1 (objtypeFromstring (some "CONSOLIDATE")) : Evaluator 2 ℝ).run evs).1)
      ∧ ¬ ∀ evs : List (Event 2),
        (((create 1 .loadBalance : Evaluator 2 ℝ).setpolicyobjective "A_BINPACK").run evs).1
          = ((create 1 (objtypeFromstring (some "A_BINPACK")) : Evaluator 2 ℝ).run evs).1 :=
  ⟨(setpolicyobjective_eq_create_iff 2 1 .loadBalance "CONSOLIDATE"
      (Or.inr ⟨by decide, by decide⟩)).mpr (Or.inr (Or.inr (Or.inr rfl))),
    fun h => absurd ((setpolicyobjective_eq_create_iff 2 1 .loadBalance "A_BINPACK"
      (Or.inr ⟨by decide, by decide⟩)).mp h) (by decide)⟩

/-- Made for `LOAD_BALANCE` and set to `A_BINPACK`, the evaluator of one resource
does not return the values of one made for `A_BINPACK`. -/
theorem setpolicyobjective_ne_create :
    (((create 0 .loadBalance : Evaluator 1 ℝ).setpolicyobjective "A_BINPACK").run
        (twoEmptyNodes 1)).1
      ≠ ((create 0 (objtypeFromstring (some "A_BINPACK")) : Evaluator 1 ℝ).run
          (twoEmptyNodes 1)).1 :=
  run_setpolicyobjective_ne one_ne_zero 0 (by decide) (by decide)

end Evaluator

end KubeSafeScheduler.Pigeon
