import KubeSafeScheduler.Pigeon.Evaluator

/-!
Units of resources: measuring a resource in another unit does not change an
evaluation.

Changing the unit multiplies capacities, usages and demands of one resource by a
positive factor. The utilization of a node does not see it, nor does the fit of
an LE. The statistics of the demands are kept in raw units and are scaled along
(`rescale_add`); the average capacity that normalises them later is scaled by
the same factor, provided that it is positive (`avgcap_rescale`).

* `Resource.rescale`, `Memory.rescale`, `DemandStats.rescale`,
  `CloudSystem.rescale`: a system in the other unit.
* `foldl_add_rescale`: the statistics of a history of rescaled demands.
* `getvalue_rescale`: the objectives; `placeLE_rescale`, `removeLE_rescale`: the
  trials; `eval_rescale`: the evaluation.
-/

namespace KubeSafeScheduler.Pigeon

variable {n : ℕ} {K : Type}

/-- The factor of each resource, when the unit of `r` is divided by `k`. -/
def unitFactor (r : Fin n) (k : ℤ) (i : Fin n) : ℤ := if i = r then k else 1

/-- Amounts of resources in the other unit. -/
def rescaleAmounts (r : Fin n) (k : ℤ) (x : Fin n → ℤ) : Fin n → ℤ :=
  fun i => unitFactor r k i * x i

lemma unitFactor_pos {k : ℤ} (hk : 0 < k) (r i : Fin n) : 0 < unitFactor r k i := by
  rw [unitFactor]
  split_ifs
  · exact hk
  · exact one_pos

/-- A resource in the other unit. -/
def Resource.rescale (r : Fin n) (k : ℤ) (x : Resource n) : Resource n :=
  { x with capacity := rescaleAmounts r k x.capacity, usage := rescaleAmounts r k x.usage }

/-- A PE in the other unit. -/
def Pe.rescale (r : Fin n) (k : ℤ) (x : Pe n) : Pe n :=
  { x with resource := x.resource.rescale r k }

/-- An LE in the other unit. -/
def Le.rescale (r : Fin n) (k : ℤ) (x : Le n) : Le n :=
  { x with demand := rescaleAmounts r k x.demand }

/-- A memory in the other unit. -/
def Memory.rescale (r : Fin n) (k : ℤ) (m : Memory n) : Memory n :=
  { m with
    pe := fun p => (m.pe p).rescale r k
    le := fun l => (m.le l).rescale r k }

section Stats

variable [Field K] [LinearOrder K]

/-- Moments of demands in the other unit. -/
def DemandMoments.rescale (r : Fin n) (k : ℤ) (m : DemandMoments n K) : DemandMoments n K where
  avg := fun j => unitFactor r k j * m.avg j
  avg2 := Matrix.of fun i j => unitFactor r k i * unitFactor r k j * m.avg2 i j

/-- Statistics of demands in the other unit. -/
def DemandStats.rescale (r : Fin n) (k : ℤ) (ds : DemandStats n K) : DemandStats n K :=
  { ds with moments := ds.moments.map (DemandMoments.rescale r k) }

/-- The factors of an entry and of its mirror image are the same. -/
lemma unitFactor_min_max (r : Fin n) (k : ℤ) (i j : Fin n) :
    unitFactor r k (min i j) * unitFactor r k (max i j) = unitFactor r k i * unitFactor r k j := by
  rcases le_total i j with h | h
  · rw [min_eq_left h, max_eq_right h]
  · rw [min_eq_right h, max_eq_left h, mul_comm]

variable [FloorRing K]

/-- One demand more. -/
lemma DemandStats.rescale_add (r : Fin n) (k : ℤ) (ds : DemandStats n K) (d : Fin n → ℤ) :
    (ds.rescale r k).add (rescaleAmounts r k d) = (ds.add d).rescale r k := by
  have hfactor : ∀ i j : Fin n, ((unitFactor r k (min i j) : ℤ) : K) * unitFactor r k (max i j)
      = unitFactor r k i * unitFactor r k j := by
    intro i j
    exact_mod_cast congrArg (Int.cast : ℤ → K) (unitFactor_min_max r k i j)
  have hmax : (ds.rescale r k).countmax = ds.countmax := rfl
  have hcount : (ds.rescale r k).demandcount = ds.demandcount := rfl
  simp only [DemandStats.add, DemandStats.addWith, hmax, hcount]
  generalize (if ds.demandcount < ds.countmax then ds.demandcount + 1 else ds.demandcount) = c
  simp only [DemandStats.rescale]
  cases ds.moments with
  | none =>
      simp only [Option.map_none, Option.map_some, DemandMoments.rescale, rescaleAmounts]
      congr 3
      · funext j
        push_cast
        rfl
      · funext i j
        simp only [Matrix.of_apply, Int.cast_mul]
        rw [← hfactor i j]
        ring
  | some m =>
      simp only [Option.map_some, DemandMoments.rescale, rescaleAmounts]
      congr 3
      · funext j
        push_cast
        ring
      · funext i j
        simp only [Matrix.of_apply, Int.cast_mul]
        rw [← hfactor i j]
        ring

/-- The statistics of a history. -/
lemma DemandStats.foldl_add_rescale (r : Fin n) (k : ℤ) (history : List (Fin n → ℤ))
    (ds : DemandStats n K) :
    (history.map (rescaleAmounts r k)).foldl DemandStats.add (ds.rescale r k)
      = (history.foldl DemandStats.add ds).rescale r k := by
  induction history generalizing ds with
  | nil => rfl
  | cons d history ih => rw [List.map_cons, List.foldl_cons, List.foldl_cons, rescale_add, ih]

end Stats

/-- A system in the other unit. -/
def CloudSystem.rescale [Field K] (r : Fin n) (k : ℤ) (cs : CloudSystem n K) : CloudSystem n K :=
  { cs with
    mem := cs.mem.rescale r k
    ds := cs.ds.map (DemandStats.rescale r k) }

/-- A system that has seen the demands of a history, if it collects them. -/
def CloudSystem.withHistory [Field K] [LinearOrder K] [FloorRing K] (cs : CloudSystem n K)
    (smoothingfactor : K) (history : Option (List (Fin n → ℤ))) : CloudSystem n K :=
  { cs with
    ds := history.map fun ds => ds.foldl DemandStats.add (DemandStats.create smoothingfactor) }

section Objectives

variable [Field K] [LinearOrder K] [IsStrictOrderedRing K] {r : Fin n} {k : ℤ} (hk : 0 < k)

include hk

/-! ### Ratios -/

/-- A ratio of two amounts of one resource. -/
lemma div_unitFactor (i : Fin n) (x y : ℤ) :
    (((unitFactor r k i * x : ℤ) : K) / ((unitFactor r k i * y : ℤ) : K)) = (x : K) / y := by
  have hpos : ((unitFactor r k i : ℤ) : K) ≠ 0 := by
    exact_mod_cast (unitFactor_pos hk r i).ne'
  push_cast
  exact mul_div_mul_left _ _ hpos

/-- The fit of an LE. -/
lemma Resource.canuse_rescale (x : Resource n) (d : Fin n → ℤ) :
    (x.rescale r k).canuse (rescaleAmounts r k d) = x.canuse d := by
  have hiff : ∀ i, unitFactor r k i * d i ≤ unitFactor r k i * x.capacity i
      - unitFactor r k i * x.usage i ↔ d i ≤ x.capacity i - x.usage i := by
    intro i
    rw [← mul_sub]
    exact mul_le_mul_iff_of_pos_left (unitFactor_pos hk r i)
  simp only [Resource.canuse, Resource.rescale, rescaleAmounts, hiff]

/-- The utilization of a resource. -/
lemma Resource.getutilization_rescale (x : Resource n) (i : Fin n) :
    ((x.rescale r k).getutilization i : K) = x.getutilization i := by
  have hne := (unitFactor_pos hk r i).ne'
  simp only [Resource.getutilization, Resource.rescale, rescaleAmounts, div_unitFactor hk,
    mul_eq_zero, hne, false_or]

omit [LinearOrder K] [IsStrictOrderedRing K] [Field K] in
lemma readAt_rescale (r : Fin n) (i : ℤ) :
    ∃ f : ℤ, 0 < f ∧ ∀ x : Fin n → ℤ, readAt (rescaleAmounts r k x) i = f * readAt x i := by
  by_cases h : 0 ≤ i ∧ i < n
  · refine ⟨unitFactor r k ⟨i.toNat, by omega⟩, unitFactor_pos hk r _, fun x => ?_⟩
    rw [readAt, readAt, dif_pos h, dif_pos h]
    rfl
  · refine ⟨1, one_pos, fun x => ?_⟩
    rw [readAt, readAt, dif_neg h, dif_neg h, mul_zero]

/-- The utilization of the policy resource. -/
lemma Resource.policyUtilization_rescale (resindex : ℤ) (x : Resource n) :
    (Resource.policyUtilization resindex (x.rescale r k) : K)
      = Resource.policyUtilization resindex x := by
  obtain ⟨f, hf, hread⟩ := readAt_rescale hk r resindex
  have hne : (f : K) ≠ 0 := by exact_mod_cast hf.ne'
  simp only [Resource.policyUtilization, Resource.rescale, hread, mul_pos_iff_of_pos_left hf]
  push_cast
  rw [mul_div_mul_left _ _ hne]

/-! ### The objectives -/

omit [LinearOrder K] [IsStrictOrderedRing K] hk in
lemma CloudSystem.resources_rescale (cs : CloudSystem n K) :
    (cs.rescale r k).resources = cs.resources.map (Resource.rescale r k) := by
  rw [CloudSystem.resources, CloudSystem.resources, List.map_map]
  rfl

/-- The moments of the utilizations. -/
lemma Abpfn.getvariationSystem_rescale (cs : CloudSystem n K) :
    Abpfn.getvariationSystem (cs.rescale r k) = Abpfn.getvariationSystem cs := by
  have havg : matrixAverage (Abpfn.systemMatrix (cs.rescale r k).resources : Matrix (Fin n) _ K)
      = matrixAverage (Abpfn.systemMatrix cs.resources) := by
    funext j
    simp only [matrixAverage_systemMatrix, CloudSystem.resources_rescale, List.length_map,
      List.map_map, Function.comp_def, Resource.getutilization_rescale hk]
  have hcov : matrixCovariance (Abpfn.systemMatrix (cs.rescale r k).resources :
      Matrix (Fin n) _ K) = matrixCovariance (Abpfn.systemMatrix cs.resources) := by
    ext i j
    simp only [matrixCovariance_systemMatrix, CloudSystem.resources_rescale, List.length_map,
      List.map_map, Function.comp_def, Resource.getutilization_rescale hk]
  simp only [Abpfn.getvariationSystem, havg, hcov]
  rfl

/-- The capacities over which `cloudsystem_getaveragecapacity` averages. -/
def CloudSystem.positiveCapacities (cs : CloudSystem n K) (i : Fin n) : List ℤ :=
  (cs.resources.map fun x => x.capacity i).filter fun c => 0 < c

omit [LinearOrder K] [IsStrictOrderedRing K] in
lemma CloudSystem.positiveCapacities_rescale (cs : CloudSystem n K) (i : Fin n) :
    (cs.rescale r k).positiveCapacities i
      = (cs.positiveCapacities i).map fun c => unitFactor r k i * c := by
  have hpred : ∀ c, decide (0 < unitFactor r k i * c) = decide (0 < c) := fun c =>
    decide_eq_decide.mpr (mul_pos_iff_of_pos_left (unitFactor_pos hk r i))
  simp only [positiveCapacities, CloudSystem.resources_rescale, List.map_map, List.filter_map,
    Function.comp_def, Resource.rescale, rescaleAmounts, hpred]

omit hk in
lemma CloudSystem.sum_positiveCapacities_pos {cs : CloudSystem n K} {i : Fin n}
    (hne : 0 < (cs.positiveCapacities i).length) :
    0 < ((cs.positiveCapacities i).map fun c : ℤ => (c : K)).sum := by
  refine List.sum_pos _ (fun x hx => ?_) (List.ne_nil_of_length_pos (by simpa using hne))
  obtain ⟨c, hc, rfl⟩ := List.mem_map.mp hx
  have hpos := of_decide_eq_true (List.mem_filter.mp hc).2
  exact_mod_cast hpos

/-- The average capacity of a resource that some node has is positive, and is
scaled like the capacities. -/
lemma CloudSystem.avgcap_rescale {cs : CloudSystem n K}
    (hcap : ∀ i, ∃ p ∈ cs.pes, 0 < (cs.mem.pe p).resource.capacity i) {a : Fin n → K}
    (ha : cs.getaveragecapacity = some a) :
    (∀ i, 0 < a i)
      ∧ (cs.rescale r k).getaveragecapacity = some fun i => unitFactor r k i * a i := by
  have hlen : ∀ i, 0 < (cs.positiveCapacities i).length := by
    intro i
    obtain ⟨p, hp, hpos⟩ := hcap i
    refine List.length_pos_of_mem (List.mem_filter.mpr ⟨?_, by simpa using hpos⟩)
    exact List.mem_map.mpr ⟨_, List.mem_map.mpr ⟨p, hp, rfl⟩, rfl⟩
  have hnum : (cs.rescale r k).getnumresources = cs.getnumresources := rfl
  rw [getaveragecapacity] at ha ⊢
  rw [hnum]
  split_ifs at ha ⊢ with hzero
  have ha' : a = fun i => ((cs.positiveCapacities i).map fun c : ℤ => (c : K)).sum
      / (cs.positiveCapacities i).length := by
    rw [← Option.some.inj ha]
    exact funext fun i => if_pos (hlen i)
  subst ha'
  refine ⟨fun i => ?_, congrArg some (funext fun i => ?_)⟩
  · exact div_pos (sum_positiveCapacities_pos (hlen i)) (by exact_mod_cast hlen i)
  · have hscaled := CloudSystem.positiveCapacities_rescale (r := r) hk cs i
    have hlen' : 0 < ((cs.rescale r k).positiveCapacities i).length := by
      rw [hscaled, List.length_map]
      exact hlen i
    refine (if_pos hlen').trans ?_
    show (((cs.rescale r k).positiveCapacities i).map fun c : ℤ => (c : K)).sum
      / ((cs.rescale r k).positiveCapacities i).length = _
    rw [hscaled, List.length_map, List.map_map, mul_div_assoc', ← List.sum_map_mul_left]
    simp only [Function.comp_def, Int.cast_mul]

/-- The moments of the demands, normalised by the average capacities. -/
lemma Abpfn.getvariationDemandHistory_rescale {cs : CloudSystem n K}
    (hcap : ∀ i, ∃ p ∈ cs.pes, 0 < (cs.mem.pe p).resource.capacity i) :
    Abpfn.getvariationDemandHistory (cs.rescale r k) = Abpfn.getvariationDemandHistory cs := by
  have hf : ∀ i, ((unitFactor r k i : ℤ) : K) ≠ 0 := fun i => by
    exact_mod_cast (unitFactor_pos hk r i).ne'
  have hfpos : ∀ i, (0 : K) < unitFactor r k i := fun i => by
    exact_mod_cast unitFactor_pos hk r i
  have hds : (cs.rescale r k).ds = cs.ds.map (DemandStats.rescale r k) := rfl
  rw [Abpfn.getvariationDemandHistory, Abpfn.getvariationDemandHistory, hds]
  cases cs.ds with
  | none => rfl
  | some ds =>
      cases hm : ds.moments with
      | none => simp [DemandStats.rescale, hm]
      | some m =>
          cases ha : cs.getaveragecapacity with
          | none =>
              have hnone : (cs.rescale r k).getaveragecapacity = none := by
                rw [CloudSystem.getaveragecapacity] at ha ⊢
                split_ifs at ha with hzero
                exact if_pos hzero
              simp [DemandStats.rescale, hm, hnone]
          | some a =>
              obtain ⟨hpos, hscaled⟩ := CloudSystem.avgcap_rescale (r := r) hk hcap ha
              have hmu : (fun i => if 0 < unitFactor r k i * a i then
                  unitFactor r k i * m.avg i / (unitFactor r k i * a i)
                  else unitFactor r k i * m.avg i)
                  = fun i => if 0 < a i then m.avg i / a i else m.avg i := by
                funext i
                rw [if_pos (mul_pos (hfpos i) (hpos i)), if_pos (hpos i),
                  mul_div_mul_left _ _ (hf i)]
              have hmu2 : (Matrix.of fun i j => if 0 < unitFactor r k i * a i then
                  unitFactor r k i * unitFactor r k j * m.avg2 i j
                    / (unitFactor r k i * a i * (unitFactor r k j * a j))
                  else unitFactor r k i * unitFactor r k j * m.avg2 i j)
                  = Matrix.of fun i j =>
                    if 0 < a i then m.avg2 i j / (a i * a j) else m.avg2 i j := by
                funext i j
                simp only [Matrix.of_apply]
                rw [if_pos (mul_pos (hfpos i) (hpos i)), if_pos (hpos i), mul_mul_mul_comm,
                  mul_div_mul_left _ _ (mul_ne_zero (hf i) (hf j))]
              simp only [Option.map_some, DemandStats.rescale, hm, hscaled, Option.bind_eq_bind,
                Option.bind_some, DemandMoments.rescale, Matrix.of_apply, hmu, hmu2]

/-- The value of an objective. -/
lemma Objfn.getvalue_rescale [HasSqrt K] {cs : CloudSystem n K}
    (hcap : ∀ i, ∃ p ∈ cs.pes, 0 < (cs.mem.pe p).resource.capacity i) (type : ObjectiveType)
    (resindex : ℤ) :
    Objfn.getvalue (cs.rescale r k) type resindex = Objfn.getvalue cs type resindex := by
  have hutil : ((cs.rescale r k).resources.map (Resource.policyUtilization resindex) : List K)
      = cs.resources.map (Resource.policyUtilization resindex) := by
    simp only [CloudSystem.resources_rescale, List.map_map, Function.comp_def,
      Resource.policyUtilization_rescale hk]
  have habp : Abpfn.getsystemvalue (cs.rescale r k) = Abpfn.getsystemvalue cs := by
    rw [Abpfn.getsystemvalue, Abpfn.getsystemvalue, Abpfn.getvariationSystem_rescale hk,
      Abpfn.getvariationDemandHistory_rescale hk hcap]
  cases type with
  | loadBalance => exact congrArg commonobjBalance hutil
  | consolidate => exact congrArg commonobjUnbalance hutil
  | _ => exact habp

end Objectives

/-! ### Placing and removing -/

namespace Memory

variable (r : Fin n) (k : ℤ) (m : Memory n)

lemma rescale_setPe (p : PeRef) (x : Pe n) :
    (m.setPe p x).rescale r k = (m.rescale r k).setPe p (x.rescale r k) := by
  have hpe : ((m.setPe p x).rescale r k).pe = ((m.rescale r k).setPe p (x.rescale r k)).pe := by
    funext q
    by_cases hq : q = p
    · subst hq
      simp [rescale]
    · simp [rescale, setPe_pe_of_ne, hq]
  exact Memory.ext hpe rfl rfl rfl

lemma rescale_sethost (l : LeRef) (h : Option PeRef) :
    (m.sethost l h).rescale r k = (m.rescale r k).sethost l h := by
  have hle : ((m.sethost l h).rescale r k).le = ((m.rescale r k).sethost l h).le := by
    funext j
    by_cases hj : j = l
    · subst hj
      simp [rescale, sethost, Le.rescale]
    · simp [rescale, sethost, hj]
  exact Memory.ext rfl hle rfl rfl

end Memory

lemma Pe.placeLE_rescale (r : Fin n) (k : ℤ) (m : Memory n) (p : PeRef) (l : LeRef) :
    (Pe.placeLE (m.rescale r k) p l true).2 = (Pe.placeLE m p l true).2.rescale r k := by
  by_cases hl : l ∈ (m.pe p).hostedLE
  · have hl' : l ∈ ((m.rescale r k).pe p).hostedLE := hl
    simp [Pe.placeLE, hl, hl']
  · have hl' : l ∉ ((m.rescale r k).pe p).hostedLE := hl
    have hsum : (fun i => rescaleAmounts r k (m.pe p).resource.usage i
        + rescaleAmounts r k (m.le l).demand i)
        = rescaleAmounts r k fun i => (m.pe p).resource.usage i + (m.le l).demand i :=
      funext fun i => (mul_add _ _ _).symm
    rw [placeLE_of_notMem hl, placeLE_of_notMem hl', Memory.rescale_sethost, Memory.rescale_setPe]
    simp only [Pe.rescale, Resource.rescale, Resource.use, Memory.rescale, Le.rescale, hsum]

/-- A release that is cut at zero is cut in every unit. -/
lemma Resource.release_rescale {r : Fin n} {k : ℤ} (hk : 0 < k) (x : Resource n) (d : Fin n → ℤ) :
    ((x.rescale r k).release (rescaleAmounts r k d)).2 = (x.release d).2.rescale r k := by
  refine Resource.ext rfl (funext fun i => ?_) rfl
  have hpos := unitFactor_pos hk r i
  show (if unitFactor r k i * x.usage i - unitFactor r k i * d i < 0 then 0
      else unitFactor r k i * x.usage i - unitFactor r k i * d i)
    = unitFactor r k i * if x.usage i - d i < 0 then 0 else x.usage i - d i
  rw [← mul_sub]
  by_cases hcut : x.usage i - d i < 0
  · rw [if_pos (mul_neg_of_pos_of_neg hpos hcut), if_pos hcut, mul_zero]
  · rw [if_neg (not_lt.mpr (mul_nonneg hpos.le (not_lt.mp hcut))), if_neg hcut]

lemma Pe.removeLE_rescale {r : Fin n} {k : ℤ} (hk : 0 < k) (m : Memory n) (p : PeRef)
    (l : LeRef) :
    (Pe.removeLE (m.rescale r k) p l true).2 = (Pe.removeLE m p l true).2.rescale r k := by
  by_cases hl : l ∈ (m.pe p).hostedLE
  · have hl' : l ∈ ((m.rescale r k).pe p).hostedLE := hl
    have hrel := Resource.release_rescale (r := r) hk (m.pe p).resource (m.le l).demand
    rw [removeLE_of_mem hl, removeLE_of_mem hl', Memory.rescale_sethost, Memory.rescale_setPe]
    simp only [Pe.rescale, Memory.rescale, Le.rescale, hrel]
  · have hl' : l ∉ ((m.rescale r k).pe p).hostedLE := hl
    rw [removeLE_of_notMem hl, removeLE_of_notMem hl']

/-! ### Evaluations -/

namespace Evaluator

variable [Field K] [LinearOrder K] [IsStrictOrderedRing K] [HasSqrt K]

/-- The loop over the hosts goes through the same trials in the other unit. -/
lemma evalLoop_rescale {r : Fin n} {k : ℤ} (hk : 0 < k) (type : ObjectiveType) (resindex : ℤ)
    (l : LeRef) (hosts : List PeRef) {cs : CloudSystem n K}
    (hcap : ∀ i, ∃ p ∈ cs.pes, 0 < (cs.mem.pe p).resource.capacity i) :
    (evalLoop type resindex l hosts (cs.rescale r k)).1
      = (evalLoop type resindex l hosts cs).1 := by
  induction hosts generalizing cs with
  | nil => rfl
  | cons p hosts ih =>
      have hfit : Pe.canplaceLE (cs.rescale r k).mem p l = Pe.canplaceLE cs.mem p l :=
        Resource.canuse_rescale hk _ _
      set placed : CloudSystem n K := { cs with mem := (Pe.placeLE cs.mem p l true).2 }
        with hplaced
      set removed : CloudSystem n K := { placed with mem := (Pe.removeLE placed.mem p l true).2 }
        with hremoved
      -- placing and removing do not change the capacities
      have hplace := Pe.frame_placeLE cs.mem p l
      have hremove := Pe.frame_removeLE placed.mem p l
      have hcap₁ : ∀ i, ∃ q ∈ placed.pes, 0 < (placed.mem.pe q).resource.capacity i :=
        fun i => (hcap i).imp fun q hq => ⟨hq.1, by rw [hplace.capacity]; exact hq.2⟩
      have hcap₂ : ∀ i, ∃ q ∈ removed.pes, 0 < (removed.mem.pe q).resource.capacity i :=
        fun i => (hcap₁ i).imp fun q hq => ⟨hq.1, by rw [hremove.capacity]; exact hq.2⟩
      have hplaced' : { cs.rescale r k with
          mem := (Pe.placeLE (cs.rescale r k).mem p l true).2 } = placed.rescale r k := by
        rw [CloudSystem.rescale, Pe.placeLE_rescale]
        rfl
      have hremoved' : { cs.rescale r k with
          mem := (Pe.removeLE (Pe.placeLE (cs.rescale r k).mem p l true).2 p l true).2 }
          = removed.rescale r k := by
        rw [CloudSystem.rescale, Pe.placeLE_rescale, Pe.removeLE_rescale hk]
        rfl
      rw [evalLoop, evalLoop, hfit]
      split_ifs with hcan
      · simp only [hplaced', hremoved', Objfn.getvalue_rescale hk hcap₁, ih hcap₂]
        rfl
      · exact congrArg (none :: ·) (ih hcap)

variable [FloorRing K]

omit [IsStrictOrderedRing K] [HasSqrt K] in
/-- The demand of the LE itself comes to the statistics in the other unit. -/
lemma noteDemand_rescale (r : Fin n) (k : ℤ) (cs : CloudSystem n K) (l : LeRef) :
    noteDemand (cs.rescale r k) l = (noteDemand cs l).rescale r k := by
  have hds : (noteDemand (cs.rescale r k) l).ds = ((noteDemand cs l).rescale r k).ds := by
    show (cs.ds.map (DemandStats.rescale r k)).map
        (fun dstats => dstats.add (rescaleAmounts r k (cs.mem.le l).demand))
      = (cs.ds.map fun dstats => dstats.add (cs.mem.le l).demand).map (DemandStats.rescale r k)
    cases cs.ds with
    | none => rfl
    | some ds => exact congrArg some (ds.rescale_add r k _)
  calc noteDemand (cs.rescale r k) l
      = { (noteDemand cs l).rescale r k with ds := (noteDemand (cs.rescale r k) l).ds } := rfl
    _ = (noteDemand cs l).rescale r k := by rw [hds]

omit [IsStrictOrderedRing K] [HasSqrt K] in
/-- A history of demands in the other unit. -/
lemma withHistory_rescale (r : Fin n) (k : ℤ) (cs : CloudSystem n K) (smoothingfactor : K)
    (history : Option (List (Fin n → ℤ))) :
    (cs.rescale r k).withHistory smoothingfactor (history.map (List.map (rescaleAmounts r k)))
      = (cs.withHistory smoothingfactor history).rescale r k := by
  have hds : ((cs.rescale r k).withHistory smoothingfactor
        (history.map (List.map (rescaleAmounts r k)))).ds
      = ((cs.withHistory smoothingfactor history).rescale r k).ds := by
    cases history with
    | none => rfl
    | some history =>
        exact congrArg some (DemandStats.foldl_add_rescale r k history
          (DemandStats.create smoothingfactor))
  calc (cs.rescale r k).withHistory smoothingfactor (history.map (List.map (rescaleAmounts r k)))
      = { (cs.withHistory smoothingfactor history).rescale r k with
          ds := ((cs.rescale r k).withHistory smoothingfactor
            (history.map (List.map (rescaleAmounts r k)))).ds } := rfl
    _ = (cs.withHistory smoothingfactor history).rescale r k := by rw [hds]

/-- The choice of the unit of a resource does not change an evaluation: with the
capacities and usages of one resource on every node and its demands of every LE,
evaluated now or seen before, multiplied by a positive integer, the vector of
values is the same. -/
theorem eval_rescale (e : Evaluator n K) (smoothingfactor : K)
    (history : Option (List (Fin n → ℤ))) (l : LeRef) (r : Fin n) (k : ℤ) (hk : 0 < k)
    (hcap : ∀ i, ∃ p ∈ e.cs.pes, 0 < (e.cs.mem.pe p).resource.capacity i) :
    ((e.setCs ((e.cs.rescale r k).withHistory smoothingfactor
        (history.map (List.map (rescaleAmounts r k))))).eval l).1
      = ((e.setCs (e.cs.withHistory smoothingfactor history)).eval l).1 := by
  rw [withHistory_rescale]
  set cs := noteDemand (e.cs.withHistory smoothingfactor history) l with hcs
  show (evalLoop e.policyobjective e.policyresourceindex l cs.pes
      (noteDemand ((e.cs.withHistory smoothingfactor history).rescale r k) l)).1
    = (evalLoop e.policyobjective e.policyresourceindex l cs.pes cs).1
  rw [noteDemand_rescale]
  exact evalLoop_rescale hk _ _ l cs.pes hcap

/-- The second of two resources in a unit a thousand times smaller. -/
theorem eval_rescale_fullNode :
    (((fullNode .aBinpack).setCs (((fullNode .aBinpack).cs.rescale 1 1000).withHistory 0
        (some [![2, 2000]]))).eval 0).1
      = (((fullNode .aBinpack).setCs ((fullNode .aBinpack).cs.withHistory 0
        (some [fun _ => 2]))).eval 0).1 := by
  have h := eval_rescale (fullNode .aBinpack) 0 (some [fun _ => 2]) 0 1 1000 (by norm_num)
    (fun _ => ⟨0, List.mem_cons_self, show (0 : ℤ) < 10 by decide⟩)
  have hscale : rescaleAmounts (1 : Fin 2) 1000 (fun _ => 2) = ![2, 2000] := by decide
  rwa [Option.map_some, List.map_cons, List.map_nil, hscale] at h

end Evaluator

end KubeSafeScheduler.Pigeon
