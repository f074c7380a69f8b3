import KubeSafeScheduler.Lib.Exchange
import KubeSafeScheduler.Pigeon.Evaluator
import KubeSafeScheduler.Pigeon.Ranking

/-!
What `LOAD_BALANCE` and `CONSOLIDATE` prefer: among nodes of one capacity, the
first the less used node, the second the more used one.

Both objectives are a square root of an average of a convex function of the
utilizations, around a mean that does not depend on the node the LE goes to, so
the comparison of two nodes is an exchange argument.

* `resources_withPlaced`: the two hypothetical systems differ in two entries.
* `mathhelperStddev_exchange`, `commonobjUnbalance_exchange`: the exchange.
* `spread_and_pack`: the values of two nodes, and their scores when the policy
  resource is used negatively on no node; `negativeUsage`: what the trials of an
  evaluation do to a negative usage.
-/

namespace KubeSafeScheduler.Pigeon

variable {n : ℕ} {K : Type}

/-! ### The hypothetical systems -/

/-- Placing an LE on `p` and placing it on `q` change two entries of the list of
resources, up to the order. -/
lemma resources_withPlaced (cs : CloudSystem n K) (hnd : cs.pes.Nodup) {p q : PeRef}
    (hp : p ∈ cs.pes) (hq : q ∈ cs.pes) (hpq : p ≠ q) (l : LeRef) :
    ∃ rest : List PeRef, (∀ k ∈ rest, k ∈ cs.pes)
      ∧ (cs.withPlaced p l).resources.Perm
          (((cs.mem.pe p).resource.use (cs.mem.le l).demand).2 :: (cs.mem.pe q).resource
            :: rest.map fun k => (cs.mem.pe k).resource)
      ∧ (cs.withPlaced q l).resources.Perm
          ((cs.mem.pe p).resource :: ((cs.mem.pe q).resource.use (cs.mem.le l).demand).2
            :: rest.map fun k => (cs.mem.pe k).resource) := by
  obtain ⟨rest, hperm, hprest, hqrest⟩ := exists_perm_pair hnd hp hq hpq
  refine ⟨rest, fun k hk => hperm.mem_iff.mpr (by simp [hk]), ?_, ?_⟩
  · refine (hperm.map fun k => ((cs.withPlaced p l).mem.pe k).resource).trans (List.Perm.of_eq ?_)
    have hrest : rest.map (fun k => ((cs.withPlaced p l).mem.pe k).resource)
        = rest.map fun k => (cs.mem.pe k).resource := by
      refine List.map_congr_left fun k hk => ?_
      rw [withPlaced_resource, if_neg]
      rintro rfl
      exact hprest hk
    rw [List.map_cons, List.map_cons, hrest, withPlaced_resource, withPlaced_resource,
      if_pos rfl, if_neg (Ne.symm hpq)]
  · refine (hperm.map fun k => ((cs.withPlaced q l).mem.pe k).resource).trans (List.Perm.of_eq ?_)
    have hrest : rest.map (fun k => ((cs.withPlaced q l).mem.pe k).resource)
        = rest.map fun k => (cs.mem.pe k).resource := by
      refine List.map_congr_left fun k hk => ?_
      rw [withPlaced_resource, if_neg]
      rintro rfl
      exact hqrest hk
    rw [List.map_cons, List.map_cons, hrest, withPlaced_resource, withPlaced_resource,
      if_pos rfl, if_neg hpq]

/-! ### The exchange -/

/-- Moving an increment to the smaller of two utilizations does not increase
the standard deviation. -/
lemma mathhelperStddev_exchange {a b d : ℝ} (R : List ℝ) (hab : a ≤ b) (hd : 0 ≤ d) :
    mathhelperStddev ((a + d) :: b :: R) ≤ mathhelperStddev (a :: (b + d) :: R) := by
  have hsum : ((a + d) :: b :: R).sum = (a :: (b + d) :: R).sum := by
    simp only [List.sum_cons]; ring
  have hsq : (((a + d) :: b :: R).map fun x => x * x).sum
      ≤ ((a :: (b + d) :: R).map fun x => x * x).sum := by
    simp only [List.map_cons, List.sum_cons]
    nlinarith [mul_nonneg hd (sub_nonneg.mpr hab)]
  have hlen : ((a + d) :: b :: R).length = (a :: (b + d) :: R).length := rfl
  have hpos : (0 : ℝ) ≤ ((a :: (b + d) :: R).length : ℝ) := Nat.cast_nonneg _
  simp only [mathhelperStddev, hsum, hlen, sqrt_real]
  rw [if_neg (by simp), if_neg (by simp)]
  refine Real.sqrt_le_sqrt (max_le_max (sub_le_sub_right ?_ _) le_rfl)
  exact div_le_div_of_nonneg_right hsq hpos

/-- The square in the loop of `unbalance_scaled`, for an average strictly
between zero and one. -/
lemma unbalanceScaled_eq {x : List ℝ} (h0 : 0 < mathhelperAverage x)
    (h1 : mathhelperAverage x < 1) :
    unbalanceScaled x = 1 - Real.sqrt ((x.map (twoSided (mathhelperAverage x)
      (mathhelperAverage x) (1 - mathhelperAverage x))).sum / x.length) := by
  set m := mathhelperAverage x with hm
  have hm1 : 0 < 1 - m := sub_pos.mpr h1
  simp only [unbalanceScaled, ← hm, if_neg (not_or.mpr ⟨not_le.mpr h0, not_le.mpr h1⟩), sqrt_real]
  congr 4
  refine List.map_congr_left fun xi _ => ?_
  have hno : ¬ (xi ≤ 0 ∧ 1 ≤ xi) := fun h => by linarith [h.1, h.2]
  rw [if_neg hno, twoSided]
  rcases lt_trichotomy xi m with hlt | heq | hgt
  · have hl : 0 ≤ (m - xi) / m := div_nonneg (by linarith) h0.le
    have hr : (xi - m) / (1 - m) ≤ 0 := div_nonpos_of_nonpos_of_nonneg (by linarith) hm1.le
    rw [if_pos hlt, max_eq_left hl, max_eq_right hr]
    ring
  · rw [heq, if_neg (lt_irrefl m), if_neg (lt_irrefl m)]
    simp
  · have hl : (m - xi) / m ≤ 0 := div_nonpos_of_nonpos_of_nonneg (by linarith) h0.le
    have hr : 0 ≤ (xi - m) / (1 - m) := div_nonneg (by linarith) hm1.le
    rw [if_neg (not_lt.mpr hgt.le), if_pos hgt, max_eq_right hl, max_eq_left hr]
    ring

/-- Moving an increment to the smaller of two utilizations does not decrease
the value of `unbalance_scaled`. -/
lemma commonobjUnbalance_exchange {a b d : ℝ} (R : List ℝ) (hab : a ≤ b) (hd : 0 ≤ d) :
    commonobjUnbalance (a :: (b + d) :: R) ≤ commonobjUnbalance ((a + d) :: b :: R) := by
  have hlen : ((a + d) :: b :: R).length = (a :: (b + d) :: R).length := rfl
  have hsum : ((a + d) :: b :: R).sum = (a :: (b + d) :: R).sum := by
    simp only [List.sum_cons]; ring
  have havg : mathhelperAverage ((a + d) :: b :: R) = mathhelperAverage (a :: (b + d) :: R) := by
    rw [mathhelperAverage, mathhelperAverage, hsum, hlen]
  rw [commonobjUnbalance, commonobjUnbalance, if_neg (by simp), if_neg (by simp)]
  by_cases hout : mathhelperAverage (a :: (b + d) :: R) ≤ 0
      ∨ 1 ≤ mathhelperAverage (a :: (b + d) :: R)
  · simp only [unbalanceScaled, havg, if_pos hout, le_refl]
  · obtain ⟨h0, h1⟩ := not_or.mp hout
    rw [not_le] at h0 h1
    rw [unbalanceScaled_eq h0 h1, unbalanceScaled_eq (havg ▸ h0) (havg ▸ h1), havg, hlen]
    refine sub_le_sub_left (Real.sqrt_le_sqrt (div_le_div_of_nonneg_right ?_ (Nat.cast_nonneg _))) 1
    set f := twoSided (mathhelperAverage (a :: (b + d) :: R))
      (mathhelperAverage (a :: (b + d) :: R)) (1 - mathhelperAverage (a :: (b + d) :: R)) with hf
    have hex : f (a + d) + f b ≤ f a + f (b + d) :=
      convexOn_exchange (convexOn_twoSided _ _ _) hab hd
    simp only [List.map_cons, List.sum_cons]
    linarith

/-! ### Two nodes of one capacity -/

/-- The names of the PEs, in vector order. -/
def CloudSystem.names (cs : CloudSystem n K) : List String :=
  cs.pes.map fun p => (cs.mem.pe p).label

lemma CloudSystem.WF.nodup_names {cs : CloudSystem n K} (h : cs.WF) : cs.names.Nodup :=
  h.pes_nodup.map_on fun _ hp _ hq hpq => h.label_inj hp hq hpq

/-- The map of values of an evaluation has the value of every PE under its
name. -/
lemma Evaluator.get_podRanks_eval [Field K] [LinearOrder K] [HasSqrt K] [FloorRing K]
    {e : Evaluator n K} (hwf : e.cs.WF) {l : LeRef} {v : PeRef → Option K}
    (heval : (e.eval l).1 = e.cs.pes.map v) {p : PeRef} (hp : p ∈ e.cs.pes) :
    (podRanks e.cs.names (e.eval l).1).get (e.cs.mem.pe p).label = some (v p) := by
  rw [get_podRanks hwf.nodup_names, heval, CloudSystem.names, List.zip_map']
  exact List.mem_map.mpr ⟨p, hp, rfl⟩

/-- The scores that `ComputeRank` gives to the names of the PEs, from one
evaluation. -/
def Evaluator.scores [Field K] [LinearOrder K] [HasSqrt K] [FloorRing K] (e : Evaluator n K)
    (l : LeRef) (ord ord' : EnumOrder) : StringMap ℤ :=
  computeRank ord ord' (podRanks e.cs.names (e.eval l).1)

/-- When an evaluation returns the values `valueAt` of one system, two PEs on
which the LE fits are scored in the opposite order of their values. -/
lemma Evaluator.scores_antitone [Field K] [LinearOrder K] [IsStrictOrderedRing K] [HasSqrt K]
    [FloorRing K] {e : Evaluator n K} (hwf : e.cs.WF) {l : LeRef}
    (heval : (e.eval l).1 = e.cs.pes.map (Evaluator.valueAt e.policyobjective
      e.policyresourceindex (Evaluator.noteDemand e.cs l) l)) (ord ord' : EnumOrder)
    {p q : PeRef} (hp : p ∈ e.cs.pes) (hq : q ∈ e.cs.pes)
    (hfp : Pe.canplaceLE e.cs.mem p l = true) (hfq : Pe.canplaceLE e.cs.mem q l = true)
    (hle : Objfn.getvalue ((Evaluator.noteDemand e.cs l).withPlaced p l) e.policyobjective
        e.policyresourceindex
      ≤ Objfn.getvalue ((Evaluator.noteDemand e.cs l).withPlaced q l) e.policyobjective
        e.policyresourceindex) :
    ∃ rp rq, (e.scores l ord ord').get (e.cs.mem.pe p).label = some rp
      ∧ (e.scores l ord ord').get (e.cs.mem.pe q).label = some rq ∧ rq ≤ rp := by
  have hget : ∀ k ∈ e.cs.pes, Pe.canplaceLE e.cs.mem k l = true →
      (podRanks e.cs.names (e.eval l).1).get (e.cs.mem.pe k).label
        = some (some (Objfn.getvalue ((Evaluator.noteDemand e.cs l).withPlaced k l)
            e.policyobjective e.policyresourceindex)) := by
    intro k hk hfit
    have hfit' : Pe.canplaceLE (Evaluator.noteDemand e.cs l).mem k l = true := hfit
    rw [Evaluator.get_podRanks_eval hwf heval hk, Evaluator.valueAt, if_pos hfit']
  have hmem : ∀ k ∈ e.cs.pes, Pe.canplaceLE e.cs.mem k l = true →
      some (Objfn.getvalue ((Evaluator.noteDemand e.cs l).withPlaced k l) e.policyobjective
        e.policyresourceindex) ∈ (podRanks e.cs.names (e.eval l).1).entries.map Prod.snd :=
    fun k hk hfit => List.mem_map.mpr ⟨(_, _), StringMap.mem_entries.mpr (hget k hk hfit), rfl⟩
  refine ⟨_, _, ?_, ?_, rankOf_antitone (hmem p hp hfp) (hmem q hq hfq) hle⟩
  · rw [Evaluator.scores, get_computeRank, hget p hp hfp, Option.map_some]
  · rw [Evaluator.scores, get_computeRank, hget q hq hfq, Option.map_some]

lemma policyUtilization_eq {r : Resource n} {i : Fin n} (h : 0 < r.capacity i) :
    (r.policyUtilization (i : ℕ) : ℝ) = (r.usage i : ℝ) / r.capacity i := by
  simp only [Resource.policyUtilization, readAt_natCast, if_pos h]

/-- The utilizations of the two hypothetical systems: an increment moves from
one entry to another. -/
lemma utilizations_withPlaced (cs : CloudSystem n ℝ) (hnd : cs.pes.Nodup) {i : Fin n} {c : ℤ}
    (hc : 0 < c) (hcap : ∀ p ∈ cs.pes, (cs.mem.pe p).resource.capacity i = c) {p q : PeRef}
    (hp : p ∈ cs.pes) (hq : q ∈ cs.pes) (hpq : p ≠ q) (l : LeRef) :
    ∃ R : List ℝ,
      ((cs.withPlaced p l).resources.map (Resource.policyUtilization (i : ℕ))).Perm
          ((((cs.mem.pe p).resource.usage i : ℝ) / c + ((cs.mem.le l).demand i : ℝ) / c)
            :: ((cs.mem.pe q).resource.usage i : ℝ) / c :: R)
      ∧ ((cs.withPlaced q l).resources.map (Resource.policyUtilization (i : ℕ))).Perm
          (((cs.mem.pe p).resource.usage i : ℝ) / c
            :: (((cs.mem.pe q).resource.usage i : ℝ) / c + ((cs.mem.le l).demand i : ℝ) / c)
            :: R) := by
  obtain ⟨rest, -, h1, h2⟩ := resources_withPlaced cs hnd hp hq hpq l
  have hplain : ∀ k ∈ cs.pes, ((cs.mem.pe k).resource.policyUtilization (i : ℕ) : ℝ)
      = ((cs.mem.pe k).resource.usage i : ℝ) / c := by
    intro k hk
    rw [policyUtilization_eq (by rw [hcap k hk]; exact hc), hcap k hk]
  have hused : ∀ k ∈ cs.pes,
      (((cs.mem.pe k).resource.use (cs.mem.le l).demand).2.policyUtilization (i : ℕ) : ℝ)
        = ((cs.mem.pe k).resource.usage i : ℝ) / c + ((cs.mem.le l).demand i : ℝ) / c := by
    intro k hk
    have hck : ((cs.mem.pe k).resource.use (cs.mem.le l).demand).2.capacity i = c := hcap k hk
    rw [policyUtilization_eq (by rw [hck]; exact hc), hck, ← add_div]
    simp [Resource.use]
  refine ⟨(rest.map fun k => (cs.mem.pe k).resource).map (Resource.policyUtilization (i : ℕ)),
    ?_, ?_⟩
  · have h := h1.map (Resource.policyUtilization (K := ℝ) ((i : ℕ) : ℤ))
    rwa [List.map_cons, List.map_cons, hused p hp, hplain q hq] at h
  · have h := h2.map (Resource.policyUtilization (K := ℝ) ((i : ℕ) : ℤ))
    rwa [List.map_cons, List.map_cons, hplain p hp, hused q hq] at h

/-- The values of the two policies, for any usages. -/
lemma getvalue_exchange (cs : CloudSystem n ℝ) (hnd : cs.pes.Nodup) {i : Fin n} {c : ℤ}
    (hc : 0 < c) (hcap : ∀ p ∈ cs.pes, (cs.mem.pe p).resource.capacity i = c) {l : LeRef}
    (hd : 0 ≤ (cs.mem.le l).demand i) {p q : PeRef} (hp : p ∈ cs.pes) (hq : q ∈ cs.pes)
    (hle : (cs.mem.pe p).resource.usage i ≤ (cs.mem.pe q).resource.usage i) :
    Objfn.getvalue (cs.withPlaced p l) .loadBalance (i : ℕ)
        ≤ Objfn.getvalue (cs.withPlaced q l) .loadBalance (i : ℕ)
      ∧ Objfn.getvalue (cs.withPlaced q l) .consolidate (i : ℕ)
        ≤ Objfn.getvalue (cs.withPlaced p l) .consolidate (i : ℕ) := by
  by_cases hpq : p = q
  · subst hpq
    exact ⟨le_refl _, le_refl _⟩
  obtain ⟨R, h1, h2⟩ := utilizations_withPlaced cs hnd hc hcap hp hq hpq l
  have hcR : (0 : ℝ) ≤ c := Int.cast_nonneg hc.le
  have hab : ((cs.mem.pe p).resource.usage i : ℝ) / c ≤ ((cs.mem.pe q).resource.usage i : ℝ) / c :=
    div_le_div_of_nonneg_right (Int.cast_le.mpr hle) hcR
  have hd' : (0 : ℝ) ≤ ((cs.mem.le l).demand i : ℝ) / c := div_nonneg (Int.cast_nonneg hd) hcR
  simp only [Objfn.getvalue, Lbfn.getsystemvalue, Consfn.getsystemvalue]
  rw [commonobjBalance_perm h1, commonobjBalance_perm h2, commonobjUnbalance_perm h1,
    commonobjUnbalance_perm h2]
  exact ⟨mathhelperStddev_exchange R hab hd', commonobjUnbalance_exchange R hab hd'⟩

lemma usage_release_use {r : Resource n} {d : Fin n → ℤ} {i : Fin n} (hu : 0 ≤ r.usage i) :
    ((r.use d).2.release d).2.usage i = r.usage i := by
  simp [Resource.use, Resource.release, hu]

/-- A trial on a PE, undone, shows the same policy utilization, unless the usage
was negative. -/
lemma policyUtilization_release_use [Field K] {r : Resource n} {d : Fin n → ℤ} {i : Fin n}
    (hu : 0 ≤ r.usage i) :
    (((r.use d).2.release d).2.policyUtilization (i : ℕ) : K)
      = r.policyUtilization (i : ℕ) := by
  have hcap : ((r.use d).2.release d).2.capacity i = r.capacity i := rfl
  simp only [Resource.policyUtilization, readAt_natCast, usage_release_use hu, hcap]

/-- The two policies read the policy utilizations only. -/
lemma Objfn.getvalue_congr_policy [Field K] [LinearOrder K] [HasSqrt K] {type : ObjectiveType}
    (htype : type.usesStats = false) {resindex : ℤ} {cs cs' : CloudSystem n K}
    (h : cs.resources.map (Resource.policyUtilization (K := K) resindex)
      = cs'.resources.map (Resource.policyUtilization resindex)) :
    Objfn.getvalue cs type resindex = Objfn.getvalue cs' type resindex := by
  cases type with
  | loadBalance => exact congrArg commonobjBalance h
  | consolidate => exact congrArg commonobjUnbalance h
  | _ => exact absurd htype (by decide)

/-- On nodes of one positive capacity of the policy resource, let an LE fit on
two nodes of which the first is used at most as much as the second. The
`LOAD_BALANCE` value of the first is at most that of the second and the
`CONSOLIDATE` value at least that of the second, whatever the usages. When the
policy resource is used negatively on no node, these are the values that an
evaluation returns, and the scores are ordered the other way round. -/
theorem spread_and_pack (e : Evaluator n ℝ) (hwf : e.cs.WF) (i : Fin n) (c : ℤ) (hc : 0 < c)
    (hcap : ∀ p ∈ e.cs.pes, (e.cs.mem.pe p).resource.capacity i = c) (l : LeRef)
    (hl : Evaluator.Unhosted e.cs l) (hd : ∀ k, 0 ≤ (e.cs.mem.le l).demand k) (p q : PeRef)
    (hp : p ∈ e.cs.pes) (hq : q ∈ e.cs.pes) (hfp : Pe.canplaceLE e.cs.mem p l = true)
    (hfq : Pe.canplaceLE e.cs.mem q l = true)
    (hle : (e.cs.mem.pe p).resource.usage i ≤ (e.cs.mem.pe q).resource.usage i) :
    Objfn.getvalue (e.cs.withPlaced p l) .loadBalance (i : ℕ)
        ≤ Objfn.getvalue (e.cs.withPlaced q l) .loadBalance (i : ℕ)
      ∧ Objfn.getvalue (e.cs.withPlaced q l) .consolidate (i : ℕ)
        ≤ Objfn.getvalue (e.cs.withPlaced p l) .consolidate (i : ℕ)
      ∧ (e.policyresourceindex = (i : ℕ) → e.policyobjective.usesStats = false →
          (∀ k ∈ e.cs.pes, 0 ≤ (e.cs.mem.pe k).resource.usage i) →
          (e.eval l).1 = e.cs.pes.map (Evaluator.valueAt e.policyobjective (i : ℕ) e.cs l)
            ∧ ∀ ord ord' : EnumOrder, ∃ rp rq,
              (e.scores l ord ord').get (e.cs.mem.pe p).label = some rp
                ∧ (e.scores l ord ord').get (e.cs.mem.pe q).label = some rq
                ∧ (e.policyobjective = .loadBalance → rq ≤ rp)
                ∧ (e.policyobjective = .consolidate → rp ≤ rq)) := by
  obtain ⟨hlb, hcons⟩ := getvalue_exchange e.cs hwf.pes_nodup hc hcap (hd i) hp hq hle
  refine ⟨hlb, hcons, fun hindex htype hu => ?_⟩
  have heval : (e.eval l).1 = e.cs.pes.map (Evaluator.valueAt e.policyobjective
      e.policyresourceindex (Evaluator.noteDemand e.cs l) l) :=
    e.eval_fst (Resource.policyUtilization e.policyresourceindex)
      (fun _ _ _ => Objfn.getvalue_congr_policy htype) hl hwf.pes_nodup
      fun k hk => by rw [hindex]; exact policyUtilization_release_use (hu k hk)
  -- the statistics of the demands are not read
  have hvalue : ∀ k, Objfn.getvalue ((Evaluator.noteDemand e.cs l).withPlaced k l)
      e.policyobjective e.policyresourceindex
      = Objfn.getvalue (e.cs.withPlaced k l) e.policyobjective (i : ℕ) := by
    intro k
    rw [hindex]
    exact Objfn.getvalue_congr_policy htype rfl
  refine ⟨?_, fun ord ord' => ?_⟩
  · rw [heval]
    refine List.map_congr_left fun k _ => ?_
    rw [Evaluator.valueAt, Evaluator.valueAt, hvalue]
    rfl
  · have hscores := fun {p q : PeRef} (hp : p ∈ e.cs.pes) (hq : q ∈ e.cs.pes) =>
      Evaluator.scores_antitone hwf heval ord ord' hp hq
    simp only [hvalue] at hscores
    cases htype' : e.policyobjective with
    | loadBalance =>
        rw [htype'] at hscores
        obtain ⟨rp, rq, hrp, hrq, hrank⟩ := hscores hp hq hfp hfq hlb
        exact ⟨rp, rq, hrp, hrq, fun _ => hrank, fun h => absurd h (by decide)⟩
    | consolidate =>
        rw [htype'] at hscores
        obtain ⟨rq, rp, hrq, hrp, hrank⟩ := hscores hq hp hfq hfp hcons
        exact ⟨rp, rq, hrp, hrq, fun h => absurd h (by decide), fun _ => hrank⟩
    | _ => rw [htype'] at htype; exact absurd htype (by decide)

/-- Two nodes of ten units that may overflow, the first with three and the second
with `second` units used, and a pod that asks for two. -/
def twoNodes (type : ObjectiveType) (second : ℤ) (ds : Option (DemandStats 1 ℝ)) :
    Evaluator 1 ℝ where
  updater := StateUpdater.create
    { mem :=
        { pe := fun p =>
            { label := if p = 0 then "a" else "b"
              resource := { capacity := fun _ => 10, usage := fun _ => if p = 0 then 3 else second,
                            allowoverflow := fun _ => true }
              hostedLE := []
              indexinsystem := p }
          le := fun _ => Le.create "pod" fun _ => 2
          peCount := 2
          leCount := 1 }
      pes := [0, 1]
      pemap := ((∅ : StringMap PeRef).insert "a" 0).insert "b" 1
      ds := ds
      ismodified := false }
  policyresourceindex := 0
  policyobjective := type

lemma wf_twoNodes (type : ObjectiveType) (second : ℤ) (ds : Option (DemandStats 1 ℝ)) :
    (twoNodes type second ds).cs.WF := by
  refine ⟨show [0, 1].Nodup by decide, show ∀ p ∈ [0, 1], p < 2 by decide, fun name p => ?_, ?_,
    ?_, ?_, ?_, fun _ i p hp => ?_⟩
  · simp only [twoNodes, Evaluator.cs, StateUpdater.create, StringMap.get_insert,
      StringMap.get_empty]
    constructor
    · intro h
      split_ifs at h with h1 h2
      · obtain rfl := Option.some.inj h
        exact ⟨by simp, by simp [h1]⟩
      · obtain rfl := Option.some.inj h
        exact ⟨by simp, by simp [h2]⟩
    · rintro ⟨hp, rfl⟩
      rcases List.mem_pair.mp hp with rfl | rfl <;> simp
  · intro l p
    simp [twoNodes, Evaluator.cs, StateUpdater.create, Le.create]
  · intro p _
    exact List.nodup_nil
  · intro l hl
    exact absurd rfl hl
  · intro l k hl
    exact absurd rfl hl
  · cases i with
    | zero => exact Option.some.inj hp ▸ rfl
    | succ i =>
        cases i with
        | zero => exact Option.some.inj hp ▸ rfl
        | succ i => simp [twoNodes, Evaluator.cs, StateUpdater.create] at hp

/-- The second node is over-committed. -/
theorem spread_and_pack_twoNodes :
    (Objfn.getvalue ((twoNodes .loadBalance 12 none).cs.withPlaced 0 0) .loadBalance 0
        ≤ Objfn.getvalue ((twoNodes .loadBalance 12 none).cs.withPlaced 1 0) .loadBalance 0
      ∧ ∃ ra rb,
        ((twoNodes .loadBalance 12 none).scores 0 .stored .stored).get "a" = some ra
          ∧ ((twoNodes .loadBalance 12 none).scores 0 .stored .stored).get "b" = some rb
          ∧ rb ≤ ra)
      ∧ Objfn.getvalue ((twoNodes .consolidate 12 none).cs.withPlaced 1 0) .consolidate 0
          ≤ Objfn.getvalue ((twoNodes .consolidate 12 none).cs.withPlaced 0 0) .consolidate 0
        ∧ ∃ ra rb,
          ((twoNodes .consolidate 12 none).scores 0 .stored .stored).get "a" = some ra
            ∧ ((twoNodes .consolidate 12 none).scores 0 .stored .stored).get "b" = some rb
            ∧ ra ≤ rb := by
  have hfit : ∀ p type, Pe.canplaceLE (twoNodes type 12 none).cs.mem p 0 = true := fun p _ =>
    (Resource.canuse_iff _ _).mpr fun _ => Or.inl rfl
  have hpack := fun type => spread_and_pack (twoNodes type 12 none) (wf_twoNodes _ _ _) 0 10
    (by decide) (fun _ _ => rfl) 0 ⟨rfl, fun _ _ => List.not_mem_nil⟩
    (fun _ => show (0 : ℤ) ≤ 2 by decide) 0 1 List.mem_cons_self (List.mem_cons_of_mem _
    List.mem_cons_self) (hfit 0 type) (hfit 1 type) (show (3 : ℤ) ≤ 12 by decide)
  have hu : ∀ p : PeRef, (0 : ℤ) ≤ if p = 0 then 3 else 12 := by
    intro p
    split_ifs <;> decide
  obtain ⟨hlb, -, hscores⟩ := hpack .loadBalance
  obtain ⟨-, hcons, hscores'⟩ := hpack .consolidate
  obtain ⟨ra, rb, hra, hrb, hle, -⟩ := (hscores rfl rfl fun p _ => hu p).2 .stored .stored
  obtain ⟨ra', rb', hra', hrb', -, hle'⟩ := (hscores' rfl rfl fun p _ => hu p).2 .stored .stored
  exact ⟨⟨hlb, ra, rb, hra, hrb, hle rfl⟩, hcons, ra', rb', hra', hrb', hle' rfl⟩

/-! ### A negative usage -/

/-- Two nodes of ten units that may overflow. An LE of demand minus five takes
the usage of the first below zero. -/
def negativeRun : List (Event 1) :=
  [.start .stored 1, .report (.pe "a" (fun _ => 10) (some fun _ => true) none),
    .report (.pe "b" (fun _ => 10) (some fun _ => true) none), .report (.le "x" "a" fun _ => -5),
    .stop .stored]

/-- The evaluator after that session, asked about a pod of two units. -/
noncomputable def negativeUsage : Evaluator 1 ℝ :=
  ((Evaluator.create 0 .loadBalance).run negativeRun).2.createLE "pod" fun _ => 2

/-- The trial on the first node ends with no usage there, and the trial on the
second node starts from that. -/
lemma eval_negativeUsage :
    ∃ va vb : ℝ, (negativeUsage.eval 1).1 = [some va, some vb] ∧ vb < va := by
  have hres : (Evaluator.trials 1 negativeUsage.cs.pes
        (Evaluator.noteDemand negativeUsage.cs 1)).map CloudSystem.resources
      = [[⟨fun _ => 10, fun _ => -3, fun _ => true⟩, ⟨fun _ => 10, fun _ => 0, fun _ => true⟩],
        [⟨fun _ => 10, fun _ => 0, fun _ => true⟩, ⟨fun _ => 10, fun _ => 2, fun _ => true⟩]] := by
    decide
  have hlen := congrArg List.length hres
  rw [List.length_map] at hlen
  have heval := negativeUsage.eval_fst_of_trials 1 (hlen.trans (by decide))
  obtain ⟨ca, cb, htrials⟩ := List.length_eq_two.mp hlen
  rw [htrials] at hres heval
  obtain ⟨hca, hcb⟩ := List.cons_eq_cons.mp hres
  refine ⟨_, _, heval, ?_⟩
  show mathhelperStddev (cb.resources.map (Resource.policyUtilization 0))
    < mathhelperStddev (ca.resources.map (Resource.policyUtilization 0))
  rw [hca, (List.cons_eq_cons.mp hcb).1]
  simp only [List.map_cons, List.map_nil, Resource.policyUtilization, mathhelperStddev, readAt]
  refine Real.sqrt_lt_sqrt ?_ ?_
  all_goals norm_num

/-- The scores of two nodes of which the second has the smaller value. -/
lemma get_computeRank_pair {a b : String} (hab : a ≠ b) {va vb : ℝ} (h : vb < va)
    (ord ord' : EnumOrder) :
    (computeRank ord ord' (podRanks [a, b] [some va, some vb])).get a = some 1
      ∧ (computeRank ord ord' (podRanks [a, b] [some va, some vb])).get b
        = some maxPriority := by
  have hnd : [a, b].Nodup := by simpa using hab
  have hget := get_podRanks hnd [some va, some vb]
  have hga := (hget a (some va)).mpr (by simp)
  have hgb := (hget b (some vb)).mpr (by simp)
  set m := podRanks [a, b] [some va, some vb]
  have hva : some va ∈ m.entries.map Prod.snd :=
    List.mem_map.mpr ⟨(a, _), StringMap.mem_entries.mpr hga, rfl⟩
  have hvb : some vb ∈ m.entries.map Prod.snd :=
    List.mem_map.mpr ⟨(b, _), StringMap.mem_entries.mpr hgb, rfl⟩
  -- there is no third value
  have hmem : ∀ w, some w ∈ m.entries.map Prod.snd → w = va ∨ w = vb := by
    intro w hw
    obtain ⟨⟨k, v⟩, hkv, rfl⟩ := List.mem_map.mp hw
    have hzip := (hget k (some w)).mp (StringMap.mem_entries.mp hkv)
    simp only [List.zip_cons_cons, List.zip_nil_right, List.mem_cons, Prod.mk.injEq,
      Option.some.injEq, List.not_mem_nil, or_false] at hzip
    exact hzip.imp And.right And.right
  rw [get_computeRank, get_computeRank, hga, hgb, Option.map_some, Option.map_some]
  refine ⟨congrArg some (rankOf_greatest hva hvb (fun u hu => ?_) h.ne),
    congrArg some (rankOf_least hvb fun w hw => ?_)⟩
  · rcases hmem u hu with rfl | rfl
    · exact le_refl _
    · exact h.le
  · rcases hmem w hw with rfl | rfl
    · exact h.le
    · exact le_refl _

/-- The first node is used less, and has the greater value and the smaller
score. -/
theorem spread_and_pack_negativeUsage :
    negativeUsage.cs.WF ∧ Evaluator.Unhosted negativeUsage.cs 1
      ∧ negativeUsage.cs.names = ["a", "b"]
      ∧ (∀ p ∈ negativeUsage.cs.pes, (negativeUsage.cs.mem.pe p).resource.capacity 0 = 10)
      ∧ (negativeUsage.cs.mem.le 1).demand 0 = 2
      ∧ (∀ p ∈ negativeUsage.cs.pes, Pe.canplaceLE negativeUsage.cs.mem p 1 = true)
      ∧ negativeUsage.cs.resources.map (fun r => r.usage 0) = [-5, 0]
      ∧ (∃ va vb : ℝ, (negativeUsage.eval 1).1 = [some va, some vb] ∧ vb < va)
      ∧ (negativeUsage.scores 1 .stored .stored).get "a" = some 1
      ∧ (negativeUsage.scores 1 .stored .stored).get "b" = some 10 := by
  have hwf := Evaluator.wf_run (K := ℝ) (Evaluator.wf_create 0 .loadBalance) negativeRun
  have hnames : negativeUsage.cs.names = ["a", "b"] := by decide
  obtain ⟨va, vb, heval, hlt⟩ := eval_negativeUsage
  have hscores := get_computeRank_pair (show "a" ≠ "b" by decide) hlt .stored .stored
  rw [← hnames, ← heval] at hscores
  refine ⟨(Evaluator.wf_createLE hwf "pod" fun _ => 2).cs,
    Evaluator.unhosted_createLE hwf.cs "pod" fun _ => 2, hnames, ?_, ?_, ?_, ?_,
    ⟨va, vb, heval, hlt⟩, hscores⟩
  all_goals decide

end KubeSafeScheduler.Pigeon
