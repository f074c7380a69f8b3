import KubeSafeScheduler.Pigeon.History
import KubeSafeScheduler.Pigeon.Policies

/-!
The limit behaviour of `A_BINPACK`: when all demands seen are equal, the demand
has no variation, and the objective is the coefficient of variation of the
utilizations alone, so that equal pods are spread to the least allocated node.

* `DemandStats.constant_replicate`: the moments of a history of equal demands.
* `Abpfn.getsystemvalue_of_constant`: the value is then the variation of the
  system.
* `albertZhangNom_systemMatrix`: the numerator of the coefficient is the
  variance of the projections of the utilizations to their mean.
* `systemVariation_exchange`: the exchange argument for it.
* `binpack_spreads_equal_pods`: the values of two nodes.
-/

namespace KubeSafeScheduler.Pigeon

variable {n : ℕ}

/-! ### Equal demands have no variation -/

section Demand

variable {K : Type} [Field K] [LinearOrder K] [FloorRing K]

/-- The moments of samples that all equal `d`, if there are any. -/
def DemandStats.Constant (ds : DemandStats n K) (d : Fin n → ℤ) : Prop :=
  ∀ m, ds.moments = some m →
    m = { avg := fun j => (d j : K), avg2 := Matrix.of fun j k => (d j : K) * d k }

/-- One more sample `d` keeps the moments of `d`. -/
lemma DemandStats.Constant.add {ds : DemandStats n K} {d : Fin n → ℤ} (h : ds.Constant d) :
    (ds.add d).Constant d := by
  intro m hm
  -- the two orders of a product that is mirrored
  have hsymm : ∀ j k : Fin n, (d (min j k) : K) * d (max j k) = (d j : K) * d k :=
    fn_min_mul_fn_max fun j => (d j : K)
  cases hold : ds.moments with
  | none =>
      simp only [DemandStats.add, DemandStats.addWith, hold, Option.some.injEq] at hm
      rw [← hm]
      congr 1
      ext j k
      simp [hsymm]
  | some m₀ =>
      simp only [DemandStats.add, DemandStats.addWith, hold, Option.some.injEq] at hm
      rw [← hm, h m₀ hold]
      congr 1
      · funext j
        ring
      · ext j k
        simp only [Matrix.of_apply, mul_assoc, hsymm]
        ring

lemma DemandStats.constant_replicate (d : Fin n → ℤ) (k : ℕ) :
    ((List.replicate k d).foldl DemandStats.add (DemandStats.create (0 : K))).Constant d := by
  have key : ∀ (k : ℕ) (ds : DemandStats n K), ds.Constant d →
      ((List.replicate k d).foldl DemandStats.add ds).Constant d := by
    intro k
    induction k with
    | zero => exact fun ds h => h
    | succ k ih => exact fun ds h => ih _ h.add
  exact key k _ fun m hm => absurd hm (by simp [DemandStats.create])

lemma DemandStats.add_moments (ds : DemandStats n K) (d : Fin n → ℤ) :
    ∃ m, (ds.add d).moments = some m := ⟨_, rfl⟩

end Demand

/-- A covariance of zero has no variation. -/
lemma coefficientVariation_zero (mu : Fin n → ℝ) :
    coefficientVariationFromStats (0 : Matrix (Fin n) (Fin n) ℝ) mu .albertZhang = 0 := by
  have hnom : albertZhangNom (0 : Matrix (Fin n) (Fin n) ℝ) mu = 0 := by
    simp [albertZhangNom, arraySum, arrayMultiply, matrixMultiplyLeft]
  rw [coefficientVariationFromStats]
  split_ifs
  · rfl
  · simp
  · simp [hnom]

/-- The variation of the utilizations, `covS` of `abpfn_diffvalue`. -/
noncomputable def systemVariation (rs : List (Resource n)) : ℝ :=
  coefficientVariationFromStats (matrixCovariance (Abpfn.systemMatrix rs))
    (matrixAverage (Abpfn.systemMatrix rs)) .albertZhang

lemma systemVariation_perm {rs rs' : List (Resource n)} (h : rs.Perm rs') :
    systemVariation rs = systemVariation rs' := by
  rw [systemVariation, systemVariation, matrixAverage_perm h, matrixCovariance_perm h]

/-! ### The value is the variation of the system -/

lemma getutilization_nonneg (r : Resource n) (j : Fin n) : (0 : ℝ) ≤ r.getutilization j := by
  rw [Resource.getutilization]
  split_ifs
  · exact le_refl _
  · exact zero_le_one
  · dsimp only
    split_ifs with h1 h2 h2
    · exact le_refl _
    · exact zero_le_one
    · exact le_refl _
    · exact not_lt.mp h2

lemma matrixAverage_nonneg (rs : List (Resource n)) (j : Fin n) :
    (0 : ℝ) ≤ matrixAverage (Abpfn.systemMatrix rs) j := by
  rw [matrixAverage_systemMatrix]
  split_ifs
  · exact le_refl _
  · refine div_nonneg (List.sum_nonneg fun x hx => ?_) (Nat.cast_nonneg _)
    obtain ⟨r, -, rfl⟩ := List.mem_map.mp hx
    exact getutilization_nonneg r j

lemma systemVariation_nonneg (rs : List (Resource n)) : 0 ≤ systemVariation rs := by
  rw [systemVariation, coefficientVariationFromStats]
  split_ifs with h0 h1
  · exact le_refl _
  · dsimp only
    split_ifs
    · exact div_nonneg (Real.sqrt_nonneg _) (matrixAverage_nonneg rs _)
    · exact le_refl _
  · dsimp only
    split_ifs with h2
    · exact div_nonneg (Real.sqrt_nonneg _) h2.1.le
    · exact le_refl _

/-- The average capacity of PEs of one positive capacity. -/
lemma getaveragecapacity_const {cs : CloudSystem n ℝ} (hpes : cs.pes ≠ []) (hn : n ≠ 0)
    {c : Fin n → ℤ} (hc : ∀ j, 0 < c j) (hcap : ∀ r ∈ cs.resources, r.capacity = c) :
    cs.getaveragecapacity = some fun j => (c j : ℝ) := by
  have hlen : cs.resources.length ≠ 0 := by simpa [CloudSystem.resources] using hpes
  rw [CloudSystem.getaveragecapacity, if_neg (by simp [CloudSystem.getnumresources, hpes, hn])]
  congr 1
  funext j
  have hcaps : (cs.resources.map fun r => r.capacity j).filter (fun x => decide (0 < x))
      = List.replicate cs.resources.length (c j) := by
    rw [List.filter_eq_self.mpr]
    · refine List.eq_replicate_iff.mpr ⟨by simp, fun x hx => ?_⟩
      obtain ⟨r, hr, rfl⟩ := List.mem_map.mp hx
      rw [hcap r hr]
    · intro x hx
      obtain ⟨r, hr, rfl⟩ := List.mem_map.mp hx
      simpa [hcap r hr] using hc j
  have hlen' : (cs.resources.length : ℝ) ≠ 0 := Nat.cast_ne_zero.mpr hlen
  simp only [hcaps, List.length_replicate, if_pos (Nat.pos_of_ne_zero hlen), List.map_replicate,
    List.sum_replicate, nsmul_eq_mul]
  field_simp

/-- With a history of equal demands the value is the variation of the system
alone. -/
lemma Abpfn.getsystemvalue_of_constant {cs : CloudSystem n ℝ} (hpes : cs.pes ≠ [])
    {c : Fin n → ℤ} (hc : ∀ j, 0 < c j) (hcap : ∀ r ∈ cs.resources, r.capacity = c)
    {ds : DemandStats n ℝ} (hds : cs.ds = some ds) {d : Fin n → ℤ} (hconst : ds.Constant d)
    (hm : ∃ m, ds.moments = some m) :
    Abpfn.getsystemvalue cs = systemVariation cs.resources := by
  by_cases hn : n = 0
  · subst hn
    rw [Abpfn.getsystemvalue, Abpfn.getvariationSystem,
      if_pos (Or.inr (by simp [CloudSystem.getnumresources])), systemVariation,
      coefficientVariationFromStats, dif_pos rfl]
  · obtain ⟨m, hm⟩ := hm
    have hvar : Abpfn.getvariationSystem cs
        = some (matrixCovariance (Abpfn.systemMatrix cs.resources),
            matrixAverage (Abpfn.systemMatrix cs.resources)) := by
      rw [Abpfn.getvariationSystem, if_neg]
      simp [CloudSystem.getnumresources, hpes, hn]
    have hdem : ∃ munorm, Abpfn.getvariationDemandHistory cs = some (0, munorm) := by
      refine ⟨fun i => (d i : ℝ) / c i, ?_⟩
      have hpos : ∀ j, (0 : ℝ) < c j := fun j => Int.cast_pos.mpr (hc j)
      simp only [Abpfn.getvariationDemandHistory, hds, hm, hconst m hm,
        getaveragecapacity_const hpes hn hc hcap, hpos, if_true, covarianceFromStats, if_neg hn,
        Option.bind_eq_bind, Option.bind_some, Matrix.of_apply]
      congr 2
      ext i j
      have hi := (hpos i).ne'
      have hj := (hpos j).ne'
      simp only [Matrix.of_apply, Matrix.zero_apply]
      split_ifs <;> field_simp <;> ring
    obtain ⟨munorm, hdem⟩ := hdem
    rw [Abpfn.getsystemvalue, hvar, hdem]
    simp only [Abpfn.diffvalue, coefficientVariation_zero, sub_zero]
    exact if_pos (systemVariation_nonneg _)

/-! ### The exchange -/

/-- The numerator of the coefficient of variation is the variance of the
projections of the utilizations to their mean. -/
lemma albertZhangNom_systemMatrix (rs : List (Resource n)) (hrs : rs.length ≠ 0) :
    albertZhangNom (matrixCovariance (Abpfn.systemMatrix rs))
        (matrixAverage (Abpfn.systemMatrix rs) : Fin n → ℝ)
      = (rs.map fun r =>
          (∑ j, matrixAverage (Abpfn.systemMatrix rs) j * r.getutilization j) ^ 2).sum
          / rs.length
        - albertZhangDenom (matrixAverage (Abpfn.systemMatrix rs) : Fin n → ℝ) ^ 2 := by
  rw [albertZhangNom_eq_sub hrs]
  congr 2
  exact sum_systemMatrix rs fun u =>
    (∑ j, matrixAverage (Abpfn.systemMatrix rs) j * u j) ^ 2

/-- Two systems of one size and one mean: the variation grows with the squared
projections to every direction that is not negative. -/
lemma systemVariation_le {rs rs' : List (Resource n)} (hlen : rs.length = rs'.length)
    (hsum : ∀ j, (rs.map fun r => (r.getutilization j : ℝ)).sum
      = (rs'.map fun r => (r.getutilization j : ℝ)).sum)
    (hsq : ∀ w : Fin n → ℝ, (∀ j, 0 ≤ w j) →
      (rs.map fun r => (∑ j, w j * r.getutilization j) ^ 2).sum
        ≤ (rs'.map fun r => (∑ j, w j * r.getutilization j) ^ 2).sum) :
    systemVariation rs ≤ systemVariation rs' := by
  by_cases h0 : rs.length = 0
  · have hnil : rs = [] := List.length_eq_zero_iff.mp h0
    have hnil' : rs' = [] := List.length_eq_zero_iff.mp (hlen.symm.trans h0)
    rw [hnil, hnil']
  have h0' : rs'.length ≠ 0 := hlen ▸ h0
  have hN : (0 : ℝ) ≤ rs'.length := Nat.cast_nonneg _
  have hmu : (matrixAverage (Abpfn.systemMatrix rs) : Fin n → ℝ)
      = matrixAverage (Abpfn.systemMatrix rs') := by
    funext j
    rw [matrixAverage_systemMatrix, matrixAverage_systemMatrix, hlen, hsum]
  have hnom : albertZhangNom (matrixCovariance (Abpfn.systemMatrix rs))
        (matrixAverage (Abpfn.systemMatrix rs) : Fin n → ℝ)
      ≤ albertZhangNom (matrixCovariance (Abpfn.systemMatrix rs'))
        (matrixAverage (Abpfn.systemMatrix rs') : Fin n → ℝ) := by
    rw [albertZhangNom_systemMatrix rs h0, albertZhangNom_systemMatrix rs' h0', hmu, hlen]
    exact sub_le_sub_right (div_le_div_of_nonneg_right
      (hsq _ fun j => matrixAverage_nonneg rs' j) hN) _
  rw [hmu] at hnom
  rw [systemVariation, systemVariation, hmu]
  refine coefficientVariationFromStats_mono (matrixAverage_nonneg rs') (fun hn1 i => ?_) hnom
  -- a single resource: the variance is that of the utilization itself
  subst hn1
  have hone := hsq (fun _ => 1) fun _ => zero_le_one
  simp only [Fin.sum_univ_one, one_mul, sq] at hone
  rw [Subsingleton.elim i 0, matrixCovariance_systemMatrix, matrixCovariance_systemMatrix,
    if_neg h0, if_neg h0', hlen, hsum]
  exact sub_le_sub_right (div_le_div_of_nonneg_right hone hN) _

/-! ### Two nodes -/

/-- The demand is within what is left of every resource. -/
def Resource.Fits (r : Resource n) (d : Fin n → ℤ) : Prop :=
  ∀ j, d j ≤ r.capacity j - r.usage j

/-- A demand that fits passes the fit test. -/
lemma Resource.Fits.canuse {r : Resource n} {d : Fin n → ℤ} (h : r.Fits d) : r.canuse d = true :=
  (Resource.canuse_iff _ _).mpr fun j => Or.inr (h j)

/-- Where the usage is between zero and the capacity, the utilization is the
used share. -/
lemma getutilization_eq {r : Resource n} {j : Fin n} (hc : 0 < r.capacity j) (h0 : 0 ≤ r.usage j)
    (h1 : r.usage j ≤ r.capacity j) :
    (r.getutilization j : ℝ) = (r.usage j : ℝ) / r.capacity j := by
  have hc' : (0 : ℝ) < r.capacity j := Int.cast_pos.mpr hc
  have hle : (r.usage j : ℝ) / r.capacity j ≤ 1 :=
    (div_le_one hc').mpr (Int.cast_le.mpr h1)
  have hge : (0 : ℝ) ≤ (r.usage j : ℝ) / r.capacity j :=
    div_nonneg (Int.cast_nonneg h0) hc'.le
  simp only [Resource.getutilization, if_neg hc.ne', if_neg (not_lt.mpr hle),
    if_neg (not_lt.mpr hge)]

/-- Placing an LE where it fits adds its share to the utilization. -/
lemma getutilization_use {r : Resource n} {d : Fin n → ℤ} {j : Fin n} (hc : 0 < r.capacity j)
    (h0 : 0 ≤ r.usage j) (hd : 0 ≤ d j) (hfit : r.Fits d) :
    ((r.use d).2.getutilization j : ℝ) = r.getutilization j + (d j : ℝ) / r.capacity j := by
  have hfit' := hfit j
  rw [getutilization_eq hc h0 (by omega), getutilization_eq (r := (r.use d).2) hc
    (add_nonneg h0 hd) (show r.usage j + d j ≤ r.capacity j by omega), ← add_div]
  simp [Resource.use]

/-- Giving the LE to the less used of two PEs, with the other PEs as they are,
does not increase the variation. -/
lemma systemVariation_exchange {r s : Resource n} {c d : Fin n → ℤ} (hc : ∀ j, 0 < c j)
    (hr : r.capacity = c) (hs : s.capacity = c) (hd : ∀ j, 0 ≤ d j) (hr0 : ∀ j, 0 ≤ r.usage j)
    (hs0 : ∀ j, 0 ≤ s.usage j) (hfr : r.Fits d) (hfs : s.Fits d)
    (hle : ∀ j, r.usage j ≤ s.usage j) (rest : List (Resource n)) :
    systemVariation ((r.use d).2 :: s :: rest) ≤ systemVariation (r :: (s.use d).2 :: rest) := by
  have hur : ∀ j, ((r.use d).2.getutilization j : ℝ) = r.getutilization j + (d j : ℝ) / c j := by
    intro j
    rw [getutilization_use (by rw [hr]; exact hc j) (hr0 j) (hd j) hfr, hr]
  have hus : ∀ j, ((s.use d).2.getutilization j : ℝ) = s.getutilization j + (d j : ℝ) / c j := by
    intro j
    rw [getutilization_use (by rw [hs]; exact hc j) (hs0 j) (hd j) hfs, hs]
  have hord : ∀ j, (r.getutilization j : ℝ) ≤ s.getutilization j := by
    intro j
    have h1 := hfr j
    have h2 := hfs j
    have h3 := hd j
    rw [getutilization_eq (by rw [hr]; exact hc j) (hr0 j) (by omega),
      getutilization_eq (by rw [hs]; exact hc j) (hs0 j) (by omega), hr, hs]
    exact div_le_div_of_nonneg_right (Int.cast_le.mpr (hle j)) (Int.cast_nonneg (hc j).le)
  refine systemVariation_le rfl (fun j => ?_) fun w hw => ?_
  · simp only [List.map_cons, List.sum_cons, hur, hus]
    ring
  · -- along `w` the exchange is that of a square
    have hab : ∑ j, w j * (r.getutilization j : ℝ) ≤ ∑ j, w j * (s.getutilization j : ℝ) :=
      Finset.sum_le_sum fun j _ => mul_le_mul_of_nonneg_left (hord j) (hw j)
    have hinc : (0 : ℝ) ≤ ∑ j, w j * ((d j : ℝ) / c j) :=
      Finset.sum_nonneg fun j _ => mul_nonneg (hw j)
        (div_nonneg (Int.cast_nonneg (hd j)) (Int.cast_nonneg (hc j).le))
    have hex := convexOn_exchange (Even.convexOn_pow (𝕜 := ℝ) even_two) hab hinc
    simp only [List.map_cons, List.sum_cons, hur, hus, mul_add, Finset.sum_add_distrib]
    linarith

/-- A trial on a PE, undone, shows the same utilization: a negative usage is set
to zero, and its utilization was zero before. -/
lemma getutilization_release_use {r : Resource n} {d : Fin n → ℤ} {j : Fin n}
    (hc : 0 < r.capacity j) :
    (((r.use d).2.release d).2.getutilization j : ℝ) = r.getutilization j := by
  have hcap : ((r.use d).2.release d).2.capacity j = r.capacity j := rfl
  have hc' : (0 : ℝ) < r.capacity j := Int.cast_pos.mpr hc
  by_cases hu : 0 ≤ r.usage j
  · simp only [Resource.getutilization, usage_release_use hu, hcap]
  · have hzero : ((r.use d).2.release d).2.usage j = 0 := by
      simp only [Resource.use, Resource.release, add_sub_cancel_right]
      rw [if_pos (not_le.mp hu)]
    have hneg : (r.usage j : ℝ) / r.capacity j < 0 :=
      div_neg_of_neg_of_pos (Int.cast_lt_zero.mpr (not_le.mp hu)) hc'
    simp only [Resource.getutilization, hzero, hcap, if_neg hc.ne', if_pos hneg,
      if_neg (not_lt.mpr (hneg.le.trans zero_le_one))]
    simp

/-- What `A_BINPACK` reads of a resource. -/
noncomputable def Resource.capacityAndUtilization (r : Resource n) : (Fin n → ℤ) × (Fin n → ℝ) :=
  (r.capacity, r.getutilization)

lemma Abpfn.getsystemvalue_congr {cs cs' : CloudSystem n ℝ} (hds : cs.ds = cs'.ds)
    (h : cs.resources.map Resource.capacityAndUtilization
      = cs'.resources.map Resource.capacityAndUtilization) :
    Abpfn.getsystemvalue cs = Abpfn.getsystemvalue cs' := by
  have hlen : cs.resources.length = cs'.resources.length := by
    simpa using congrArg List.length h
  have hpes : cs.pes.length = cs'.pes.length := by
    simpa [CloudSystem.resources] using hlen
  -- what is read of the list of resources, through the two readings
  have hcap : ∀ j, cs.resources.map (fun r => r.capacity j)
      = cs'.resources.map fun r => r.capacity j := by
    intro j
    simpa [Resource.capacityAndUtilization, List.map_map, Function.comp_def]
      using congrArg (List.map fun x : (Fin n → ℤ) × (Fin n → ℝ) => x.1 j) h
  have hutil : ∀ f : (Fin n → ℝ) → ℝ, cs.resources.map (fun r => f r.getutilization)
      = cs'.resources.map fun r => f r.getutilization := by
    intro f
    simpa [Resource.capacityAndUtilization, List.map_map, Function.comp_def]
      using congrArg (List.map fun x : (Fin n → ℤ) × (Fin n → ℝ) => f x.2) h
  have havg : (matrixAverage (Abpfn.systemMatrix cs.resources) : Fin n → ℝ)
      = matrixAverage (Abpfn.systemMatrix cs'.resources) := by
    funext j
    rw [matrixAverage_systemMatrix, matrixAverage_systemMatrix, hlen, hutil fun u => u j]
  have hcov : (matrixCovariance (Abpfn.systemMatrix cs.resources) : Matrix (Fin n) (Fin n) ℝ)
      = matrixCovariance (Abpfn.systemMatrix cs'.resources) := by
    ext j k
    rw [matrixCovariance_systemMatrix, matrixCovariance_systemMatrix, hlen,
      hutil fun u => u j, hutil fun u => u k, hutil fun u => u j * u k]
  simp only [Abpfn.getsystemvalue, Abpfn.getvariationSystem, Abpfn.getvariationDemandHistory,
    CloudSystem.getaveragecapacity, hpes, getnumresources_perm hpes, havg, hcov, hds, hcap]

/-- On nodes of one positive capacity, let the demands seen so far and that of
the LE to be placed be equal and not negative. Let a node be used at most as
much as another in every resource, not negatively, and let the demand be within
what is left on the other. Then the first has at most the `A_BINPACK` value of
the second. -/
theorem binpack_spreads_equal_pods (e : Evaluator n ℝ) (hwf : e.cs.WF)
    (htype : e.policyobjective = .aBinpack) (c : Fin n → ℤ) (hc : ∀ j, 0 < c j)
    (hcap : ∀ p ∈ e.cs.pes, (e.cs.mem.pe p).resource.capacity = c)
    (l : LeRef) (hl : Evaluator.Unhosted e.cs l) (hd : ∀ j, 0 ≤ (e.cs.mem.le l).demand j) (k : ℕ)
    (hhist : e.cs.ds = some ((List.replicate k (e.cs.mem.le l).demand).foldl DemandStats.add
      (DemandStats.create 0)))
    (i j : ℕ) (p q : PeRef) (hp : e.cs.pes[i]? = some p) (hq : e.cs.pes[j]? = some q)
    (hu : ∀ r, 0 ≤ (e.cs.mem.pe p).resource.usage r)
    (hfit : (e.cs.mem.pe q).resource.Fits (e.cs.mem.le l).demand)
    (hle : ∀ r, (e.cs.mem.pe p).resource.usage r ≤ (e.cs.mem.pe q).resource.usage r) :
    ∃ vp vq : ℝ, (e.eval l).1[i]? = some (some vp) ∧ (e.eval l).1[j]? = some (some vq)
      ∧ vp ≤ vq := by
  have hpmem : p ∈ e.cs.pes := List.mem_of_getElem? hp
  have hqmem : q ∈ e.cs.pes := List.mem_of_getElem? hq
  have hfitp : (e.cs.mem.pe p).resource.Fits (e.cs.mem.le l).demand := by
    intro r
    have h1 := hfit r
    have h2 := hle r
    rw [hcap p hpmem]
    rw [hcap q hqmem] at h1
    omega
  set cs := Evaluator.noteDemand e.cs l with hcs
  have heval : (e.eval l).1 = e.cs.pes.map (Evaluator.valueAt .aBinpack
      e.policyresourceindex cs l) := by
    rw [← htype]
    refine e.eval_fst Resource.capacityAndUtilization (fun _ _ hds hviews => ?_) hl hwf.pes_nodup
      fun x hx => ?_
    · rw [htype]
      exact Abpfn.getsystemvalue_congr hds hviews
    · refine Prod.ext rfl (funext fun r => ?_)
      exact getutilization_release_use (by rw [hcap x hx]; exact hc r)
  have hentry : ∀ (i : ℕ) x, e.cs.pes[i]? = some x →
      (e.cs.mem.pe x).resource.Fits (e.cs.mem.le l).demand →
      (e.eval l).1[i]? = some (some (Abpfn.getsystemvalue (cs.withPlaced x l))) := by
    intro i x hx hfx
    have hcan : Pe.canplaceLE cs.mem x l = true := hfx.canuse
    rw [heval, List.getElem?_map, hx, Option.map_some, Evaluator.valueAt, if_pos hcan]
    rfl
  -- after the demand is noted the history is still one of equal demands
  have hds : cs.ds = some (((List.replicate k (e.cs.mem.le l).demand).foldl DemandStats.add
      (DemandStats.create 0)).add (e.cs.mem.le l).demand) := by
    rw [hcs, Evaluator.noteDemand, hhist]
    rfl
  have hvalue : ∀ x, Abpfn.getsystemvalue (cs.withPlaced x l)
      = systemVariation (cs.withPlaced x l).resources := by
    intro x
    refine Abpfn.getsystemvalue_of_constant (List.ne_nil_of_mem hpmem) hc (fun r hr => ?_) hds
      (DemandStats.constant_replicate _ k).add (DemandStats.add_moments _ _)
    obtain ⟨y, hy, rfl⟩ := List.mem_map.mp hr
    rw [withPlaced_resource]
    split_ifs with hyx
    · exact hcap x (hyx ▸ hy)
    · exact hcap y hy
  refine ⟨_, _, hentry i p hp hfitp, hentry j q hq hfit, ?_⟩
  rw [hvalue, hvalue]
  by_cases hpq : p = q
  · rw [hpq]
  obtain ⟨rest, -, h1, h2⟩ := resources_withPlaced cs hwf.pes_nodup hpmem hqmem hpq l
  rw [systemVariation_perm h1, systemVariation_perm h2]
  exact systemVariation_exchange hc (hcap p hpmem) (hcap q hqmem) hd hu
    (fun r => (hu r).trans (hle r)) hfitp hfit hle _

/-- Three equal pods before the one to be placed. -/
theorem binpack_spreads_equal_pods_twoNodes :
    let ds := (List.replicate 3 fun _ : Fin 1 => (2 : ℤ)).foldl DemandStats.add
      (DemandStats.create (0 : ℝ))
    ∃ vp vq : ℝ, ((twoNodes .aBinpack 7 (some ds)).eval 0).1[0]? = some (some vp)
      ∧ ((twoNodes .aBinpack 7 (some ds)).eval 0).1[1]? = some (some vq) ∧ vp ≤ vq := by
  intro ds
  exact binpack_spreads_equal_pods (twoNodes .aBinpack 7 (some ds)) (wf_twoNodes _ _ _) rfl
    (fun _ => 10) (by decide) (fun _ _ => rfl) 0 ⟨rfl, fun _ _ => List.not_mem_nil⟩
    (fun _ => show (0 : ℤ) ≤ 2 by decide) 3 rfl 0 1 0 1 rfl rfl
    (fun _ => show (0 : ℤ) ≤ 3 by decide) (fun _ => show (2 : ℤ) ≤ 10 - 7 by decide)
    (fun _ => show (3 : ℤ) ≤ 7 by decide)

/-! ### Where the utilization is cut -/

/-- Three nodes of ten units that may overflow, with `first`, `second` and five
units used by one LE each. -/
def threeNodesRun (first second : ℤ) : List (Event 1) :=
  [.start .stored 1, .report (.pe "a" (fun _ => 10) (some fun _ => true) none),
    .report (.pe "b" (fun _ => 10) (some fun _ => true) none),
    .report (.pe "c" (fun _ => 10) (some fun _ => true) none),
    .report (.le "x" "a" fun _ => first), .report (.le "y" "b" fun _ => second),
    .report (.le "z" "c" fun _ => 5), .stop .stored]

/-- The evaluator after that session. -/
@[irreducible]
noncomputable def threeNodesSession (first second : ℤ) : Evaluator 1 ℝ :=
  ((Evaluator.create 0 .aBinpack).run (threeNodesRun first second)).2

/-- Then it is asked about its first pod, of two units. -/
noncomputable def threeNodes (first second : ℤ) : Evaluator 1 ℝ :=
  (threeNodesSession first second).createLE "pod" fun _ => 2

/-- The variation of a single resource with a positive average. -/
lemma systemVariation_one {rs : List (Resource 1)} {us : List ℝ}
    (hus : rs.map (fun r => r.getutilization 0) = us) {avg var : ℝ}
    (havg : us.sum / us.length = avg) (hpos : 0 < avg)
    (hvar : (us.map fun u => u * u).sum / us.length - avg * avg = var) (h0 : 0 ≤ var) :
    systemVariation rs = Real.sqrt (var / avg ^ 2) := by
  have hlen : rs.length = us.length := by rw [← hus, List.length_map]
  have hne : us.length ≠ 0 := by
    intro hzero
    rw [hzero, Nat.cast_zero, div_zero] at havg
    exact hpos.ne havg
  have hsq : rs.map (fun r => (r.getutilization 0 * r.getutilization 0 : ℝ))
      = us.map fun u => u * u := by
    rw [← hus, List.map_map]
    rfl
  have hmu : (matrixAverage (Abpfn.systemMatrix rs) 0 : ℝ) = avg := by
    rw [matrixAverage_systemMatrix, hus, hlen, if_neg hne, havg]
  have hsigma : (matrixCovariance (Abpfn.systemMatrix rs) 0 0 : ℝ) = var := by
    rw [matrixCovariance_systemMatrix, hus, hsq, hlen, if_neg hne, havg, hvar]
  rw [systemVariation, coefficientVariationFromStats, dif_neg one_ne_zero, if_pos rfl]
  simp only [show (⟨0, Nat.pos_of_ne_zero one_ne_zero⟩ : Fin 1) = 0 from rfl, hmu, hsigma]
  rw [if_pos ⟨hpos.ne', h0⟩, sqrt_real, Real.sqrt_div' _ (sq_nonneg avg), Real.sqrt_sq hpos.le]

lemma notMem_threeNodesRun (first second : ℤ) (id : String) (demand : Fin 1 → ℤ) :
    Event.eval id demand ∉ threeNodesRun first second := by
  simp [threeNodesRun]

lemma ds_threeNodesSession (first second : ℤ) :
    (threeNodesSession first second).cs.ds = some (DemandStats.create 0) := by
  have hds := Evaluator.ds_run_of_sessions (Evaluator.wf_create (K := ℝ) 0 .aBinpack)
    (notMem_threeNodesRun first second)
  have hcreate : (Evaluator.create 0 .aBinpack : Evaluator 1 ℝ).cs.ds
      = some (DemandStats.create 0) := rfl
  unfold threeNodesSession
  exact hds.trans hcreate

lemma ds_threeNodes (first second : ℤ) :
    (threeNodes first second).cs.ds = some (DemandStats.create 0) :=
  ds_threeNodesSession first second

/-- The values of the three nodes, from the resources in the trials. -/
lemma eval_threeNodes {first second : ℤ} {u v w : List (Resource 1)}
    (hpes : (threeNodes first second).cs.pes = [0, 1, 2])
    (hdemand : ((threeNodes first second).cs.mem.le 3).demand = fun _ => 2)
    (hres : (Evaluator.trials 3 (threeNodes first second).cs.pes
      (Evaluator.noteDemand (threeNodes first second).cs 3)).map CloudSystem.resources = [u, v, w])
    (hcap : ∀ rs ∈ [u, v, w], ∀ r ∈ rs, r.capacity = fun _ => 10) :
    ((threeNodes first second).eval 3).1
      = [some (systemVariation u), some (systemVariation v), some (systemVariation w)] := by
  have hlen := congrArg List.length hres
  rw [List.length_map] at hlen
  have heval := (threeNodes first second).eval_fst_of_trials 3 (hlen.trans (by rw [hpes]; rfl))
  have htype : (threeNodes first second).policyobjective = .aBinpack := by
    show (threeNodesSession first second).policyobjective = .aBinpack
    unfold threeNodesSession
    exact Evaluator.run_policyobjective _ _
  have hvalue : ∀ placed ∈ Evaluator.trials 3 (threeNodes first second).cs.pes
      (Evaluator.noteDemand (threeNodes first second).cs 3),
      some (Objfn.getvalue placed (threeNodes first second).policyobjective
        (threeNodes first second).policyresourceindex)
        = some (systemVariation placed.resources) := by
    intro placed hplaced
    obtain ⟨hpes', hds, -⟩ := Evaluator.of_mem_trials hplaced
    rw [Evaluator.noteDemand, ds_threeNodes, hdemand] at hds
    rw [htype]
    refine congrArg some (Abpfn.getsystemvalue_of_constant (c := fun _ => 10) (d := fun _ => 2) ?_
      (fun _ => by decide) (hcap placed.resources (hres ▸ List.mem_map_of_mem hplaced))
      hds (DemandStats.constant_replicate (fun _ => 2) 0).add
      (DemandStats.add_moments _ _))
    rw [hpes']
    show (threeNodes first second).cs.pes ≠ []
    rw [hpes]
    exact List.cons_ne_nil _ _
  rw [heval, List.map_congr_left hvalue]
  have hmap := congrArg (List.map fun rs => some (systemVariation rs)) hres
  rwa [List.map_map] at hmap

/-- The PEs of a trial: ten units each, of which the given amounts are used. -/
def tenUnits (used : List ℤ) : List (Resource 1) :=
  used.map fun u => ⟨fun _ => 10, fun _ => u, fun _ => true⟩

lemma systemVariation_lt {rs rs' : List (Resource 1)} (us us' : List ℝ) (a v a' v' : ℝ)
    (hus : rs.map (fun r => r.getutilization 0) = us)
    (hus' : rs'.map (fun r => r.getutilization 0) = us')
    (ha : us.sum / us.length = a ∧ 0 < a) (ha' : us'.sum / us'.length = a' ∧ 0 < a')
    (hv : (us.map fun u => u * u).sum / us.length - a * a = v ∧ 0 ≤ v)
    (hv' : (us'.map fun u => u * u).sum / us'.length - a' * a' = v' ∧ 0 ≤ v')
    (h : v / a ^ 2 < v' / a' ^ 2) : systemVariation rs < systemVariation rs' := by
  rw [systemVariation_one hus ha.1 ha.2 hv.1 hv.2, systemVariation_one hus' ha'.1 ha'.2 hv'.1 hv'.2]
  exact Real.sqrt_lt_sqrt (div_nonneg hv.2 (sq_nonneg a)) h

/-- The pod takes the second node above its capacity. -/
lemma eval_threeNodes_full :
    ∃ va vb vc : ℝ, ((threeNodes 9 10).eval 3).1 = [some va, some vb, some vc] ∧ vb < va := by
  refine ⟨_, _, _, eval_threeNodes (u := tenUnits [11, 10, 5]) (v := tenUnits [9, 12, 5])
    (w := tenUnits [9, 10, 7]) (by decide +kernel) (by decide +kernel) (by decide +kernel)
    (by decide), ?_⟩
  refine systemVariation_lt [9 / 10, 1, 1 / 2] [1, 1, 1 / 2] (4 / 5) (7 / 150) (5 / 6)
    (1 / 18) ?_ ?_ ?_ ?_ ?_ ?_ ?_
  · norm_num [tenUnits, Resource.getutilization]
  · norm_num [tenUnits, Resource.getutilization]
  all_goals norm_num

/-- The first node is used negatively, also with the pod on it. -/
lemma eval_threeNodes_negative :
    ∃ va vb vc : ℝ, ((threeNodes (-4) (-1)).eval 3).1 = [some va, some vb, some vc]
      ∧ vb < va := by
  refine ⟨_, _, _, eval_threeNodes (u := tenUnits [-2, -1, 5]) (v := tenUnits [0, 1, 5])
    (w := tenUnits [0, 0, 7]) (by decide +kernel) (by decide +kernel) (by decide +kernel)
    (by decide), ?_⟩
  refine systemVariation_lt [0, 1 / 10, 1 / 2] [0, 0, 1 / 2] (1 / 5) (7 / 150) (1 / 6)
    (1 / 18) ?_ ?_ ?_ ?_ ?_ ?_ ?_
  · norm_num [tenUnits, Resource.getutilization]
  · norm_num [tenUnits, Resource.getutilization]
  all_goals norm_num

/-- A pod of two units fits on each of three nodes of ten units, of which the first
two have the given usages, and the value of the first node is the greater one. -/
def FirstIsWorse (u v : ℤ) : Prop :=
  (threeNodes u v).cs.WF ∧ Evaluator.Unhosted (threeNodes u v).cs 3
    ∧ (threeNodes u v).cs.ds = some (DemandStats.create 0)
    ∧ (threeNodes u v).cs.pes = [0, 1, 2]
    ∧ (∀ p ∈ (threeNodes u v).cs.pes,
        (∀ i, ((threeNodes u v).cs.mem.pe p).resource.capacity i = 10)
          ∧ Pe.canplaceLE (threeNodes u v).cs.mem p 3 = true)
    ∧ (∀ i, ((threeNodes u v).cs.mem.le 3).demand i = 2)
    ∧ (threeNodes u v).cs.resources.map (·.usage) = [fun _ => u, fun _ => v, fun _ => 5]
    ∧ ∃ va vb vc : ℝ, ((threeNodes u v).eval 3).1 = [some va, some vb, some vc] ∧ vb < va

lemma firstIsWorse_of_mem {x : ℤ × ℤ} (hx : x ∈ [((9, 10) : ℤ × ℤ), (-4, -1)]) :
    FirstIsWorse x.1 x.2 := by
  have hstate : ∀ x ∈ [((9, 10) : ℤ × ℤ), (-4, -1)],
      (threeNodes x.1 x.2).cs.pes = [0, 1, 2]
        ∧ (∀ p ∈ (threeNodes x.1 x.2).cs.pes,
            (∀ i, ((threeNodes x.1 x.2).cs.mem.pe p).resource.capacity i = 10)
              ∧ Pe.canplaceLE (threeNodes x.1 x.2).cs.mem p 3 = true)
        ∧ (∀ i, ((threeNodes x.1 x.2).cs.mem.le 3).demand i = 2)
        ∧ (threeNodes x.1 x.2).cs.resources.map (·.usage)
          = [fun _ => x.1, fun _ => x.2, fun _ => 5] := by
    decide +kernel
  have hvalues : ∀ x ∈ [((9, 10) : ℤ × ℤ), (-4, -1)],
      ∃ va vb vc : ℝ, ((threeNodes x.1 x.2).eval 3).1 = [some va, some vb, some vc]
        ∧ vb < va := by
    intro x hx
    rcases List.mem_pair.mp hx with rfl | rfl
    · exact eval_threeNodes_full
    · exact eval_threeNodes_negative
  obtain ⟨hpes, hfit, hdemand, husage⟩ := hstate x hx
  have hwf : (threeNodesSession x.1 x.2).updater.WF := by
    unfold threeNodesSession
    exact Evaluator.wf_run (Evaluator.wf_create 0 .aBinpack) _
  have hcount : (threeNodesSession x.1 x.2).cs.mem.leCount = 3 := by
    have hall : ∀ x ∈ [((9, 10) : ℤ × ℤ), (-4, -1)],
        (threeNodesSession x.1 x.2).cs.mem.leCount = 3 := by decide +kernel
    exact hall x hx
  have hl := Evaluator.unhosted_createLE hwf.cs "pod" fun _ => 2
  rw [hcount] at hl
  exact ⟨(Evaluator.wf_createLE hwf "pod" fun _ => 2).cs, hl, ds_threeNodes _ _, hpes, hfit,
    hdemand, husage, hvalues x hx⟩

/-- The first of two nodes is used less and has the greater value: where the pod
takes the second node above its capacity, and where the usage of the first node is
negative. -/
theorem binpack_spreads_equal_pods_threeNodes : FirstIsWorse 9 10 ∧ FirstIsWorse (-4) (-1) :=
  ⟨firstIsWorse_of_mem (x := (9, 10)) (by simp), firstIsWorse_of_mem (x := (-4, -1)) (by simp)⟩

end KubeSafeScheduler.Pigeon
