import KubeSafeScheduler.Pigeon.Views

/-!
The range of `CONSOLIDATE`.

`unbalance_scaled` is made for utilizations between zero and one. A utilization
outside should count as one, but the test for it asks for both ends at once and
never holds, and `consfn_getsystemvalue` does not cut the utilizations.

* `unbalanceMean`: the mean of the squared terms; `unbalanceMean_mem`: it is in
  the unit interval for utilizations in the unit interval.
* `CloudSystem.NotOvercommitted`: the systems on which the slip does not show.
* `Event.NotBeyond`, `Evaluator.NotBeyond`: runs that report no node beyond its
  capacity; `notBeyond_step`, `notBeyond_run`.
* `consolidate_inUnit`: the objective in the states of a run.
-/

namespace KubeSafeScheduler.Pigeon

variable {n : ℕ} {K : Type}

/-! ### The mean of the squared terms -/

section Mean

variable [Field K] [LinearOrder K]

/-- What `unbalance_scaled` adds for the utilization `xi`. -/
def unbalanceSquare (avg xi : K) : K :=
  if xi ≤ 0 ∧ 1 ≤ xi then 1
  else
    let term :=
      if xi < avg then (avg - xi) / avg
      else if avg < xi then (xi - avg) / (1 - avg)
      else 0
    term * term

/-- The mean of what `unbalance_scaled` adds. -/
def unbalanceMean (x : List K) : K :=
  (x.map (unbalanceSquare (mathhelperAverage x))).sum / x.length

lemma unbalanceScaled_eq_mean [HasSqrt K] (x : List K) :
    unbalanceScaled x = if mathhelperAverage x ≤ 0 ∨ 1 ≤ mathhelperAverage x then 0
      else 1 - HasSqrt.sqrt (unbalanceMean x) := rfl

variable [IsStrictOrderedRing K]

lemma unbalanceSquare_mem {avg xi : K} (h0 : 0 < avg) (h1 : avg < 1) (hx0 : 0 ≤ xi)
    (hx1 : xi ≤ 1) : 0 ≤ unbalanceSquare avg xi ∧ unbalanceSquare avg xi ≤ 1 := by
  have hroom : 0 < 1 - avg := sub_pos.mpr h1
  rw [unbalanceSquare]
  split_ifs with hout hlt hgt
  · exact ⟨zero_le_one, le_refl _⟩
  · have hterm0 : 0 ≤ (avg - xi) / avg := div_nonneg (by linarith) h0.le
    have hterm1 : (avg - xi) / avg ≤ 1 := (div_le_one h0).mpr (by linarith)
    exact ⟨mul_self_nonneg _, mul_le_one₀ hterm1 hterm0 hterm1⟩
  · have hterm0 : 0 ≤ (xi - avg) / (1 - avg) := div_nonneg (by linarith) hroom.le
    have hterm1 : (xi - avg) / (1 - avg) ≤ 1 := (div_le_one hroom).mpr (by linarith)
    exact ⟨mul_self_nonneg _, mul_le_one₀ hterm1 hterm0 hterm1⟩
  · simp

/-- Utilizations in the unit interval have their mean there. -/
lemma unbalanceMean_mem {x : List K} (h0 : 0 < mathhelperAverage x) (h1 : mathhelperAverage x < 1)
    (hx : ∀ xi ∈ x, 0 ≤ xi ∧ xi ≤ 1) : 0 ≤ unbalanceMean x ∧ unbalanceMean x ≤ 1 := by
  have hmem : ∀ y ∈ x.map (unbalanceSquare (mathhelperAverage x)), 0 ≤ y ∧ y ≤ 1 := by
    intro y hy
    obtain ⟨xi, hxi, rfl⟩ := List.mem_map.mp hy
    exact unbalanceSquare_mem h0 h1 (hx xi hxi).1 (hx xi hxi).2
  have hsum : (x.map (unbalanceSquare (mathhelperAverage x))).sum ≤ x.length := by
    have hle := List.sum_le_card_nsmul _ 1 fun y hy => (hmem y hy).2
    rwa [List.length_map, nsmul_one] at hle
  constructor
  · exact div_nonneg (List.sum_nonneg fun y hy => (hmem y hy).1) (Nat.cast_nonneg _)
  · exact div_le_one_of_le₀ hsum (Nat.cast_nonneg _)

end Mean

/-! ### One system -/

namespace CloudSystem

/-- The vector `u` of `consfn_getsystemvalue`. -/
noncomputable def policyUtilizations (cs : CloudSystem n ℝ) (i : Fin n) : List ℝ :=
  cs.resources.map (Resource.policyUtilization ((i : ℕ) : ℤ))

/-- The average utilization is not strictly between zero and one, or no node
with capacity has a usage below zero or above it. -/
def NotOvercommitted (cs : CloudSystem n ℝ) (i : Fin n) : Prop :=
  mathhelperAverage (cs.policyUtilizations i) ≤ 0 ∨ 1 ≤ mathhelperAverage (cs.policyUtilizations i)
    ∨ ∀ r ∈ cs.resources, 0 < r.capacity i → 0 ≤ r.usage i ∧ r.usage i ≤ r.capacity i

/-- `CONSOLIDATE` is in the unit interval, and so is the mean of the squared
terms where it is formed. -/
structure ConsolidateInUnit (cs : CloudSystem n ℝ) (i : Fin n) : Prop where
  mean : 0 < mathhelperAverage (cs.policyUtilizations i) →
    mathhelperAverage (cs.policyUtilizations i) < 1 →
    0 ≤ unbalanceMean (cs.policyUtilizations i) ∧ unbalanceMean (cs.policyUtilizations i) ≤ 1
  value : 0 ≤ Objfn.getvalue cs .consolidate ((i : ℕ) : ℤ)
    ∧ Objfn.getvalue cs .consolidate ((i : ℕ) : ℤ) ≤ 1

lemma getvalue_consolidate (cs : CloudSystem n ℝ) (i : Fin n) :
    Objfn.getvalue cs .consolidate ((i : ℕ) : ℤ)
      = commonobjUnbalance (cs.policyUtilizations i) := rfl

lemma policyUtilization_mem {r : Resource n} {i : Fin n}
    (h : 0 < r.capacity i → 0 ≤ r.usage i ∧ r.usage i ≤ r.capacity i) :
    0 ≤ (r.policyUtilization ((i : ℕ) : ℤ) : ℝ) ∧ (r.policyUtilization ((i : ℕ) : ℤ) : ℝ) ≤ 1 := by
  simp only [Resource.policyUtilization, readAt_natCast]
  split_ifs with hcap
  · have hcap' : (0 : ℝ) < r.capacity i := by exact_mod_cast hcap
    obtain ⟨h0, h1⟩ := h hcap
    exact ⟨div_nonneg (by exact_mod_cast h0) hcap'.le,
      (div_le_one hcap').mpr (by exact_mod_cast h1)⟩
  · exact ⟨zero_le_one, le_refl _⟩

/-- A system that is not overcommitted. -/
lemma NotOvercommitted.inUnit {cs : CloudSystem n ℝ} {i : Fin n} (h : cs.NotOvercommitted i) :
    cs.ConsolidateInUnit i := by
  have hmean : 0 < mathhelperAverage (cs.policyUtilizations i) →
      mathhelperAverage (cs.policyUtilizations i) < 1 →
      0 ≤ unbalanceMean (cs.policyUtilizations i)
        ∧ unbalanceMean (cs.policyUtilizations i) ≤ 1 := by
    intro h0 h1
    rcases h with h | h | h
    · exact absurd h0 (not_lt.mpr h)
    · exact absurd h1 (not_lt.mpr h)
    · refine unbalanceMean_mem h0 h1 fun xi hxi => ?_
      obtain ⟨r, hr, rfl⟩ := List.mem_map.mp hxi
      exact policyUtilization_mem (h r hr)
  refine ⟨hmean, ?_⟩
  rw [getvalue_consolidate, commonobjUnbalance, unbalanceScaled_eq_mean]
  split_ifs with hlen hout
  · exact ⟨le_refl _, zero_le_one⟩
  · exact ⟨le_refl _, zero_le_one⟩
  · rw [not_or, not_le, not_le] at hout
    obtain ⟨hm0, hm1⟩ := hmean hout.1 hout.2
    have hsqrt : Real.sqrt (unbalanceMean (cs.policyUtilizations i)) ≤ 1 :=
      Real.sqrt_le_one.mpr hm1
    rw [sqrt_real]
    exact ⟨sub_nonneg.mpr hsqrt, sub_le_self _ (Real.sqrt_nonneg _)⟩

end CloudSystem

/-! ### Runs -/

/-- A session may report nodes with usages that are not negative and, in the
policy resource, within the capacity; it reports no LEs. -/
def Event.NotBeyond (i : Fin n) : Event n → Prop
  | .report (.pe _ capacity _ usage) =>
      (∀ k, 0 ≤ capacity k) ∧ ∃ u, usage = some u ∧ (∀ k, 0 ≤ u k) ∧ u i ≤ capacity i
  | .report (.le _ _ _) => False
  | _ => True

namespace Evaluator

variable {K : Type}

/-- No LE is known, and the usages shown are not negative and within the capacity
in the policy resource. -/
structure NotBeyond (i : Fin n) (e : Evaluator n K) : Prop where
  podless : e.updater.Podless
  usage : ∀ name r, e.cs.view name = some r → (∀ k, 0 ≤ r.usage k) ∧ r.usage i ≤ r.capacity i

lemma NotBeyond.notOvercommitted {i : Fin n} {e : Evaluator n ℝ} (h : e.NotBeyond i) :
    e.cs.NotOvercommitted i := by
  refine Or.inr (Or.inr fun r hr _ => ?_)
  obtain ⟨p, hp, rfl⟩ := List.mem_map.mp hr
  obtain ⟨h0, h1⟩ := h.usage _ _ (h.podless.wf.cs.view_eq_some.mpr ⟨p, hp, rfl, rfl⟩)
  exact ⟨h0 i, h1⟩

variable [Field K] [LinearOrder K] [HasSqrt K] [FloorRing K]

/-- An evaluation changes only the statistics. -/
lemma NotBeyond.step_eval {i : Fin n} {e : Evaluator n K} (h : e.NotBeyond i) (id : String)
    (demand : Fin n → ℤ) : (e.step (.eval id demand)).2.NotBeyond i := by
  have hwf := h.podless.wf
  have hl := unhosted_createLE hwf.cs id demand
  have hu : ∀ p ∈ (e.createLE id demand).cs.pes, ∀ k,
      0 ≤ ((e.createLE id demand).cs.mem.pe p).resource.usage k := fun p hp =>
    (h.usage _ _ (hwf.cs.view_eq_some.mpr ⟨p, hp, rfl, rfl⟩)).1
  have heval : (e.step (.eval id demand)).2
      = (e.createLE id demand).setCs
          (noteDemand (e.createLE id demand).cs e.cs.mem.leCount) := by
    rw [step, eval_eq _ _ hl hu]
  have hwf' := wf_step hwf (.eval id demand)
  rw [heval] at hwf' ⊢
  exact ⟨⟨hwf', h.podless.host_createLE id demand, h.podless.lemap⟩, h.usage⟩

/-- A report of a node within its capacity. -/
lemma NotBeyond.step_report {i : Fin n} {e : Evaluator n K} (h : e.NotBeyond i) (id : String)
    {capacity u : Fin n → ℤ} (hcap : ∀ k, 0 ≤ capacity k) (hu : ∀ k, 0 ≤ u k)
    (hle : u i ≤ capacity i) (ovf : Option (Fin n → Bool)) :
    (e.step (.report (.pe id capacity ovf (some u)))).2.NotBeyond i := by
  rw [step, StateUpdater.report]
  cases hst : e.updater.started with
  | false =>
      rw [StateUpdater.updatePE_of_not_started hst]
      exact h
  | true =>
      obtain ⟨h1, hr, hother, -⟩ := h.podless.updatePE hst id capacity ovf (some u)
      refine ⟨h1, fun name r hname => ?_⟩
      by_cases hid : name = id
      · -- the node that was reported
        obtain ⟨p, hget, hc, husage⟩ := hr.reported
        rw [hid, cs, CloudSystem.view, hget, Option.map_some, Option.some.injEq] at hname
        rw [← hname, hc hcap, husage u rfl hu]
        exact ⟨hu, hle⟩
      · exact h.usage name r ((hother name hid).symm.trans hname)

/-- One event. -/
lemma notBeyond_step {i : Fin n} {e : Evaluator n K} (h : e.NotBeyond i) {ev : Event n}
    (hev : ev.NotBeyond i) : (e.step ev).2.NotBeyond i := by
  have hstop : ∀ {cs : CloudSystem n K}, cs.view = e.updater.viewOnStop →
      ∀ name r, cs.view name = some r → (∀ k, 0 ≤ r.usage k) ∧ r.usage i ≤ r.capacity i := by
    intro cs hview name r hr
    rw [hview] at hr
    exact h.usage name r (StateUpdater.viewOnStop_eq_some.mp hr).2
  cases ev with
  | start ord generation =>
      by_cases hgen : generation ≤ e.updater.gen
      · -- a refused start leaves the system alone
        have hwf := h.podless.wf.start ord generation
        rw [StateUpdater.start, if_pos hgen] at hwf
        rw [step, StateUpdater.start, if_pos hgen]
        exact ⟨⟨hwf, h.podless.host, h.podless.lemap⟩, h.usage⟩
      · obtain ⟨h1, h2, -⟩ := h.podless.start ord (not_le.mp hgen)
        exact ⟨h1, hstop h2⟩
  | report r =>
      cases r with
      | pe id capacity ovf usage =>
          obtain ⟨hcap, u, rfl, hu, hle⟩ := hev
          exact h.step_report id hcap hu hle ovf
      | le id hostID demand => exact hev.elim
  | stop ord =>
      obtain ⟨h1, h2, -⟩ := h.podless.stop ord
      exact ⟨h1, hstop h2⟩
  | eval id demand => exact h.step_eval id demand

lemma notBeyond_run {i : Fin n} {e : Evaluator n K} (h : e.NotBeyond i) {evs : List (Event n)}
    (hevs : ∀ ev ∈ evs, ev.NotBeyond i) : (e.run evs).2.NotBeyond i := by
  induction evs generalizing e with
  | nil => exact h
  | cons ev evs ih =>
      exact ih (notBeyond_step h (hevs ev List.mem_cons_self)) fun ev' hev' =>
        hevs ev' (List.mem_cons_of_mem _ hev')

omit [HasSqrt K] [FloorRing K] in
lemma notBeyond_create (i : Fin n) (resindex : ℤ) (type : ObjectiveType) :
    (create resindex type : Evaluator n K).NotBeyond i := by
  obtain ⟨hpodless, -, hview⟩ := podless_create (n := n) (K := K) resindex type
  refine ⟨hpodless, fun name r hr => ?_⟩
  rw [hview] at hr
  cases hr

end Evaluator

/-- `CONSOLIDATE` over runs: in every state, also while an LE is placed on trial,
it is in the unit interval if the system is not overcommitted; and a run that
reports no node beyond its capacity reaches only such states. -/
theorem consolidate_inUnit (resindex : ℤ) (type : ObjectiveType) (evs : List (Event n))
    (i : Fin n) :
    (∀ mem : Memory n,
      let cs : CloudSystem n ℝ :=
        { ((Evaluator.create resindex type).run evs).2.cs with mem := mem }
      cs.NotOvercommitted i → cs.ConsolidateInUnit i)
    ∧ ((∀ ev ∈ evs, ev.NotBeyond i) →
      ((Evaluator.create resindex type : Evaluator n ℝ).run evs).2.cs.ConsolidateInUnit i) := by
  refine ⟨fun mem h => CloudSystem.NotOvercommitted.inUnit h, fun hevs => ?_⟩
  have hwithin := Evaluator.notBeyond_run (Evaluator.notBeyond_create (K := ℝ) i resindex type) hevs
  exact hwithin.notOvercommitted.inUnit

/-- A session that reports two nodes of two units, the first with `used` units
used and the second empty. -/
def twoNodeSession (used : ℤ) : List (Event 1) :=
  [.start .stored 1, .report (.pe "a" (fun _ => 2) none (some fun _ => used)),
    .report (.pe "b" (fun _ => 2) none (some fun _ => 0)), .stop .stored]

/-- The system after such a session. -/
noncomputable def twoNodeSystem (used : ℤ) : CloudSystem 1 ℝ :=
  ((Evaluator.create 0 .consolidate).run (twoNodeSession used)).2.cs

theorem consolidate_inUnit_twoNodeSystem : (twoNodeSystem 1).ConsolidateInUnit 0 := by
  refine (consolidate_inUnit 0 .consolidate (twoNodeSession 1) 0).2 fun ev hev => ?_
  simp only [twoNodeSession, List.mem_cons, List.not_mem_nil, or_false] at hev
  rcases hev with rfl | rfl | rfl | rfl
  · trivial
  · exact ⟨fun _ => zero_le_two, _, rfl, by decide, by decide⟩
  · exact ⟨fun _ => zero_le_two, _, rfl, by decide, by decide⟩
  · trivial

lemma policyUtilizations_twoNodeSystem : (twoNodeSystem 3).policyUtilizations 0 = [3 / 2, 0] := by
  have hamounts : (twoNodeSystem 3).resources.map (fun r => (r.capacity 0, r.usage 0))
      = [(2, 3), (2, 0)] := by
    decide +kernel
  have hmap : (twoNodeSystem 3).policyUtilizations 0
      = ((twoNodeSystem 3).resources.map fun r => (r.capacity 0, r.usage 0)).map
          fun x => if 0 < x.1 then (x.2 : ℝ) / x.1 else 1 := by
    rw [CloudSystem.policyUtilizations, List.map_map]
    refine List.map_congr_left fun r _ => ?_
    simp only [Resource.policyUtilization, readAt_natCast, Function.comp_apply]
  rw [hmap, hamounts]
  norm_num

/-- Three of two units used on one node and none on the other: the mean of the
squared terms is five. -/
theorem not_consolidateInUnit_twoNodeSystem : ¬ (twoNodeSystem 3).ConsolidateInUnit 0 := by
  intro h
  have hmean := h.mean
  rw [policyUtilizations_twoNodeSystem] at hmean
  have havg : mathhelperAverage [(3 / 2 : ℝ), 0] = 3 / 4 := by norm_num [mathhelperAverage]
  have hfive : unbalanceMean [(3 / 2 : ℝ), 0] = 5 := by
    rw [unbalanceMean, havg]
    norm_num [unbalanceSquare]
  rw [havg, hfive] at hmean
  have hle := (hmean (by norm_num) (by norm_num)).2
  norm_num at hle

end KubeSafeScheduler.Pigeon
