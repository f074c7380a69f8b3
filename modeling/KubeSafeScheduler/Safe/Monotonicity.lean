import KubeSafeScheduler.Lib.BetaOrder
import KubeSafeScheduler.Safe.Overload

/-!
When a smaller pod is accepted wherever a larger one is, with the Beta
distribution function of the mathematics in place of its numerical evaluation.

The fit keeps the deviation of the node and moves the mean, so a smaller mean can
lose its fit, which counts as the largest risk, or get a fit with a heavier tail.

* `Context.computeRank_of_pos`: the rank of a mean and a deviation that are not
  zero.
* `Context.safePredicate_of_no_fit`: without a fit, a pod is rejected unless the
  percentile is the largest.
* `Context.accepts_smaller`: monotonicity, for statistics that move in order.
-/

namespace KubeSafeScheduler.Safe

open Pigeon (NodeObject parseIntChecked)

/-! ### The fit -/

/-- The Beta distribution function; it has no value at parameters that are not
shapes. -/
noncomputable def betaRegularized : GoFloat ℝ → GoFloat ℝ → GoFloat ℝ → GoFloat ℝ
  | .fin x, .fin a, .fin b =>
      open Classical in if 0 < a ∧ 0 < b then .fin (betaCdf a b x) else .nan
  | _, _, _ => .nan

lemma betaRegularized_of_pos {a b : ℝ} (ha : 0 < a) (hb : 0 < b) (x : ℝ) :
    betaRegularized (.fin x) (.fin a) (.fin b) = .fin (betaCdf a b x) := if_pos ⟨ha, hb⟩

/-- The sum of the shape parameters of the fit. -/
noncomputable def fitSize (m s : ℝ) : ℝ := max (m * (1 - m) / s ^ 2 - 1) smallestNonzeroFloat64

/-- The first shape parameter of the fit. -/
noncomputable def fitAlpha (m s : ℝ) : ℝ := m * fitSize m s

/-- The second shape parameter of the fit. -/
noncomputable def fitBeta (m s : ℝ) : ℝ := (1 - m) * fitSize m s

lemma fitSize_pos (m s : ℝ) : 0 < fitSize m s := by
  have h : (0 : ℝ) < smallestNonzeroFloat64 := by
    unfold smallestNonzeroFloat64
    positivity
  exact lt_of_lt_of_le h (le_max_right _ _)

lemma fitSize_eq {m s : ℝ} (h : 1 ≤ m * (1 - m) / s ^ 2 - 1) :
    fitSize m s = m * (1 - m) / s ^ 2 - 1 := by
  refine max_eq_left (le_trans ?_ h)
  exact div_le_self zero_le_one (by exact_mod_cast Nat.one_le_two_pow)

/-- A fit has positive shape parameters. -/
lemma fit_pos {m s : ℝ} (h0 : 0 ≤ m) (h1 : m ≤ 1) (hfit : s ^ 2 < m * (1 - m)) :
    0 < fitAlpha m s ∧ 0 < fitBeta m s := by
  have hprod : 0 < m * (1 - m) := lt_of_le_of_lt (sq_nonneg s) hfit
  have hm : m ≠ 0 := fun h => by simp [h] at hprod
  have hm' : 1 - m ≠ 0 := fun h => by simp [h] at hprod
  exact ⟨mul_pos (lt_of_le_of_ne h0 (Ne.symm hm)) (fitSize_pos m s),
    mul_pos (lt_of_le_of_ne (sub_nonneg.mpr h1) (Ne.symm hm')) (fitSize_pos m s)⟩

lemma matchMoments_of_pos {m s : ℝ} (h0 : 0 ≤ m) (h1 : m ≤ 1) (hs : s ≠ 0) :
    matchMoments (.fin m) (.fin s * .fin s + .fin m * .fin m)
      = if m * (1 - m) ≤ s ^ 2 then none
        else some (.fin (fitAlpha m s), .fin (fitBeta m s)) := by
  have hvariance : s * s + m * m - m * m = s ^ 2 := by ring
  have hpos : ¬s ^ 2 < 0 := not_lt.mpr (sq_nonneg s)
  have hne : s ^ 2 ≠ 0 := pow_ne_zero 2 hs
  simp only [matchMoments, GoFloat.mul_fin, GoFloat.add_fin, GoFloat.sub_fin, hvariance,
    GoFloat.lt_fin, GoFloat.le_fin, not_lt.mpr h0, not_lt.mpr h1, hpos, decide_false,
    Bool.false_or, decide_eq_true_eq, GoFloat.div_fin hne, GoFloat.max_fin, fitAlpha, fitBeta,
    fitSize]

variable {c : Context ℝ}

/-- The rank of a mean and a deviation that are not zero: that of the fit, and
zero without a fit. -/
lemma Context.computeRank_of_pos (hbeta : c.regularizedIncomplete = betaRegularized) {m s : ℝ}
    (h0 : 0 ≤ m) (h1 : m ≤ 1) (hm : m ≠ 0) (hs : s ≠ 0) (t : ℝ) :
    c.computeRank (.fin m) (.fin s) (.fin t)
      = if m * (1 - m) ≤ s ^ 2 then .fin 0
        else .fin (betaCdf (fitAlpha m s) (fitBeta m s) t) := by
  have hmean : (GoFloat.fin m).eq (.fin 0) = false := by simpa using hm
  have hdeviation : (GoFloat.fin s).eq (.fin 0) = false := by simpa using hs
  simp only [Context.computeRank, hmean, hdeviation, Bool.false_and, Bool.or_self,
    Bool.false_eq_true, if_false, matchMoments_of_pos h0 h1 hs]
  by_cases hfit : m * (1 - m) ≤ s ^ 2
  · simp only [if_pos hfit]
  · obtain ⟨ha, hb⟩ := fit_pos h0 h1 (not_le.mp hfit)
    simp [if_neg hfit, hbeta, betaRegularized_of_pos ha hb, GoFloat.isNaN]

lemma Context.isDistribution_of_beta (hbeta : c.regularizedIncomplete = betaRegularized) :
    c.IsDistribution := by
  intro x alpha beta
  rw [hbeta]
  unfold betaRegularized
  split
  · split_ifs with hpos
    · exact .inr (GoFloat.inUnit_fin (betaCdf_nonneg _ _ _) (betaCdf_le_one hpos.1 hpos.2 _))
    · exact .inl rfl
  · exact .inl rfl

/-! ### Acceptance by risk -/

lemma Context.safePredicate_of_rank {rs : ResourceStats ℝ} {y : ℝ}
    (hrank : c.computeRank (getMuSigma rs).1 (getMuSigma rs).2 (.fin c.getSafeUtilization)
      = .fin y) :
    c.safePredicate (some rs) = true ↔ 1 - y ≤ c.getSafePercentile := by
  simp [Context.safePredicate, Context.computeRisk, hrank]

/-- With the largest percentile every pod is accepted. -/
lemma Context.safePredicate_of_percentile_one (hc : c.IsDistribution)
    (hone : c.getSafePercentile = 1) (rs : ResourceStats ℝ) : c.safePredicate (some rs) = true := by
  obtain ⟨y, hy0, -, hy⟩ := Context.computeRank_inUnit hc (getMuSigma rs).1 (getMuSigma rs).2
    (.fin c.getSafeUtilization)
  rw [Context.safePredicate_of_rank hy, hone]
  linarith

/-- Without a fit, a resource is accepted with the largest percentile only. -/
lemma Context.safePredicate_of_no_fit (hbeta : c.regularizedIncomplete = betaRegularized)
    {rs : ResourceStats ℝ} {m s : ℝ} (hrs : getMuSigma rs = (.fin m, .fin s)) (h0 : 0 ≤ m)
    (h1 : m ≤ 1) (hm : m ≠ 0) (hs : s ≠ 0) (hfit : m * (1 - m) ≤ s ^ 2)
    (haccept : c.safePredicate (some rs) = true) : c.getSafePercentile = 1 := by
  have hrank := Context.computeRank_of_pos hbeta h0 h1 hm hs c.getSafeUtilization
  have hzero : c.computeRank (getMuSigma rs).1 (getMuSigma rs).2 (.fin c.getSafeUtilization)
      = .fin 0 := by
    rw [if_pos hfit] at hrank
    rw [hrs]
    exact hrank
  have hle := (Context.safePredicate_of_rank hzero).mp haccept
  linarith [c.getSafePercentile_mem.2]

lemma Context.safePredicate_of_rank_one {rs : ResourceStats ℝ}
    (hrank : c.computeRank (getMuSigma rs).1 (getMuSigma rs).2 (.fin c.getSafeUtilization)
      = .fin 1) : c.safePredicate (some rs) = true := by
  rw [Context.safePredicate_of_rank hrank]
  linarith [c.getSafePercentile_mem.1]

/-- A deviation that is not a number is no risk. -/
lemma Context.computeRank_nan (hbeta : c.regularizedIncomplete = betaRegularized) {m : ℝ}
    (h0 : 0 ≤ m) (h1 : m ≤ 1) (t : ℝ) : c.computeRank (.fin m) .nan (.fin t) = .fin 1 := by
  simp [Context.computeRank, matchMoments, hbeta, betaRegularized, GoFloat.isNaN,
    not_lt.mpr h0, not_lt.mpr h1]

lemma Context.computeRank_zero_deviation (c : Context ℝ) {t : ℝ} (ht : 0 ≤ t) (m : ℝ) :
    c.computeRank (.fin m) (.fin 0) (.fin t) = .fin (if m ≤ t then 1 else 0) := by
  by_cases hm : m ≤ t
  · simp [Context.computeRank, hm]
  · have hm0 : m ≠ 0 := fun h => hm (h ▸ ht)
    simp [Context.computeRank, hm, hm0, not_le.mp hm]

/-- The statistics of a smaller pod (`rs'`) and of a larger one (`rs`) move in
order: unless they are not numbers, the deviation is zero, the smaller mean is
zero or both means are equal, the percentile is the largest, or the smaller pod
has a fit and, unless the threshold is one or the larger pod has no fit, the
shape parameters move to the left. -/
def Context.MovesInOrder (c : Context ℝ) (rs' rs : ResourceStats ℝ) : Prop :=
  ∀ m' m s : ℝ, getMuSigma rs' = (.fin m', .fin s) → getMuSigma rs = (.fin m, .fin s) →
    s = 0 ∨ m' = 0 ∨ m' = m ∨ c.getSafePercentile = 1
      ∨ (s ^ 2 < m' * (1 - m')
        ∧ (c.getSafeUtilization = 1 ∨ m * (1 - m) ≤ s ^ 2
          ∨ (fitAlpha m' s ≤ fitAlpha m s ∧ fitBeta m s ≤ fitBeta m' s)))

/-- A smaller request leaves the deviation as it is and does not raise the
mean. -/
lemma Context.getMuSigma_mono {kind : ResourceKind} {node : NodeObject} {r' r : Resource}
    {rs' rs : ResourceStats ℝ} (hpos : 0 < kind.allocatable node)
    (hle : kind.request r' ≤ kind.request r) (hrs' : c.resourceStats kind node r' = some rs')
    (hrs : c.resourceStats kind node r = some rs) :
    (getMuSigma rs').2 = (getMuSigma rs).2
      ∧ (getMuSigma rs' = getMuSigma rs ∨ ∃ m' m : ℝ, (getMuSigma rs').1 = .fin m'
        ∧ (getMuSigma rs).1 = .fin m ∧ 0 ≤ m' ∧ m' ≤ m ∧ m ≤ 1) := by
  have hfactor : (0 : ℝ) < kind.factor := kind.factor_pos
  have hcapacity : (0 : ℝ) < kind.allocatable node * kind.factor :=
    mul_pos (Int.cast_pos.mpr hpos) hfactor
  have hdemand : (kind.request r' : ℝ) * kind.factor ≤ kind.request r * kind.factor :=
    mul_le_mul_of_nonneg_right (Int.cast_le.mpr hle) hfactor.le
  rw [c.resourceStats_eq, Option.map_eq_some_iff] at hrs' hrs
  obtain ⟨freeAvg, hmean, rfl⟩ := hrs
  obtain ⟨freeAvg', hmean', rfl⟩ := hrs'
  obtain rfl : freeAvg' = freeAvg := Option.some.inj (hmean'.symm.trans hmean)
  refine ⟨rfl, ?_⟩
  simp only [getMuSigma]
  -- the used amount is the same for both pods
  generalize (GoFloat.fin _ - c.weightedFree freeAvg' _ * _).max (.fin 0) = usedAvg
  cases usedAvg with
  | nan => exact .inl (by simp)
  | inf neg => exact .inl (by simp)
  | fin x =>
      right
      simp only [GoFloat.add_fin, GoFloat.div_fin hcapacity.ne', GoFloat.clamp_fin]
      refine ⟨_, _, rfl, rfl, le_max_right _ _, ?_, max_le (min_le_right _ _) zero_le_one⟩
      gcongr

/-- Without deviation, the risk is all or nothing. -/
lemma Context.safePredicate_mono_of_zero (hc : c.IsDistribution) {rs' rs : ResourceStats ℝ}
    {m' m : ℝ} (hrs' : getMuSigma rs' = (.fin m', .fin 0)) (hrs : getMuSigma rs = (.fin m, .fin 0))
    (hle : m' ≤ m) (haccept : c.safePredicate (some rs) = true) :
    c.safePredicate (some rs') = true := by
  have hrank := c.computeRank_zero_deviation c.getSafeUtilization_mem.1 m
  have hrank' := c.computeRank_zero_deviation c.getSafeUtilization_mem.1 m'
  by_cases ht : m ≤ c.getSafeUtilization
  · rw [if_pos (hle.trans ht)] at hrank'
    exact Context.safePredicate_of_rank_one (by rw [hrs']; exact hrank')
  · rw [if_neg ht] at hrank
    have hrisk := (Context.safePredicate_of_rank (by rw [hrs]; exact hrank)).mp haccept
    have hone : c.getSafePercentile = 1 := le_antisymm c.getSafePercentile_mem.2 (by linarith)
    exact Context.safePredicate_of_percentile_one hc hone rs'

/-- Of two fits, the one whose mass is further to the left has the smaller
risk. -/
lemma Context.safePredicate_mono_of_fit (hbeta : c.regularizedIncomplete = betaRegularized)
    {rs' rs : ResourceStats ℝ} {m' m s : ℝ} (hrs' : getMuSigma rs' = (.fin m', .fin s))
    (hrs : getMuSigma rs = (.fin m, .fin s)) (h0 : 0 ≤ m') (hle : m' ≤ m) (h1 : m ≤ 1)
    (hs : s ≠ 0) (hfit' : s ^ 2 < m' * (1 - m'))
    (horder : c.getSafeUtilization = 1 ∨ m * (1 - m) ≤ s ^ 2
      ∨ (fitAlpha m' s ≤ fitAlpha m s ∧ fitBeta m s ≤ fitBeta m' s))
    (haccept : c.safePredicate (some rs) = true) : c.safePredicate (some rs') = true := by
  have hm0' : m' ≠ 0 := fun h => by
    rw [h, zero_mul] at hfit'
    exact absurd hfit' (not_lt.mpr (sq_nonneg s))
  have hm0 : m ≠ 0 := (lt_of_lt_of_le (lt_of_le_of_ne h0 (Ne.symm hm0')) hle).ne'
  have hrank' := Context.computeRank_of_pos hbeta h0 (hle.trans h1) hm0' hs c.getSafeUtilization
  rw [if_neg (not_le.mpr hfit')] at hrank'
  obtain ⟨ha', hb'⟩ := fit_pos h0 (hle.trans h1) hfit'
  by_cases hfit : m * (1 - m) ≤ s ^ 2
  · have hone := Context.safePredicate_of_no_fit hbeta hrs (h0.trans hle) h1 hm0 hs hfit haccept
    exact Context.safePredicate_of_percentile_one (Context.isDistribution_of_beta hbeta) hone rs'
  · rcases horder with ht | hno | ⟨ha, hb⟩
    · rw [betaCdf_one ha' hb' ht.ge] at hrank'
      exact Context.safePredicate_of_rank_one (by rw [hrs']; exact hrank')
    · exact absurd hno hfit
    · have hrank := Context.computeRank_of_pos hbeta (h0.trans hle) h1 hm0 hs c.getSafeUtilization
      rw [if_neg hfit] at hrank
      have hrisk := (Context.safePredicate_of_rank (by rw [hrs]; exact hrank)).mp haccept
      obtain ⟨hpa, hpb⟩ := fit_pos (h0.trans hle) h1 (not_le.mp hfit)
      have hcdf := betaCdf_le_of_shape hpa hpb ha' hb' ha hb c.getSafeUtilization
      exact (Context.safePredicate_of_rank (by rw [hrs']; exact hrank')).mpr (by linarith)

/-- Of two pods whose statistics move in order, the smaller one is accepted when
the larger one is. -/
lemma Context.safePredicate_mono (hbeta : c.regularizedIncomplete = betaRegularized)
    {rs' rs : ResourceStats ℝ} (hsigma : (getMuSigma rs').2 = (getMuSigma rs).2)
    (hmu : getMuSigma rs' = getMuSigma rs ∨ ∃ m' m : ℝ, (getMuSigma rs').1 = .fin m'
      ∧ (getMuSigma rs).1 = .fin m ∧ 0 ≤ m' ∧ m' ≤ m ∧ m ≤ 1)
    (horder : c.MovesInOrder rs' rs) (haccept : c.safePredicate (some rs) = true) :
    c.safePredicate (some rs') = true := by
  have hdist := Context.isDistribution_of_beta hbeta
  have hsame (h : getMuSigma rs' = getMuSigma rs) : c.safePredicate (some rs') = true := by
    have hrisk : c.computeRisk rs' = c.computeRisk rs := by
      rw [Context.computeRisk, Context.computeRisk, h]
    rw [Context.safePredicate, hrisk]
    exact haccept
  rcases hmu with hmu | ⟨m', m, hm', hm, h0, hle, h1⟩
  · exact hsame hmu
  rcases GoFloat.clamp_cases (rs.usedStdev / rs.capacity) with hnan | ⟨s, -, -, hs⟩
  · -- the deviation is not a number
    have hsnan : (getMuSigma rs).2 = .nan := by
      simp [getMuSigma, hnan]
    refine Context.safePredicate_of_rank_one ?_
    rw [hsigma, hsnan, hm']
    exact Context.computeRank_nan hbeta h0 (hle.trans h1) _
  · have hrs : getMuSigma rs = (.fin m, .fin s) := Prod.ext hm hs
    have hrs' : getMuSigma rs' = (.fin m', .fin s) := Prod.ext hm' (hsigma.trans hs)
    by_cases hs0 : s = 0
    · subst hs0
      exact Context.safePredicate_mono_of_zero hdist hrs' hrs hle haccept
    · rcases horder m' m s hrs' hrs with h | h | h | h | ⟨hfit', h⟩
      · exact absurd h hs0
      · refine Context.safePredicate_of_rank_one ?_
        rw [hrs', h]
        simp [Context.computeRank]
      · exact hsame (by rw [hrs', hrs, h])
      · exact Context.safePredicate_of_percentile_one hdist h rs'
      · exact Context.safePredicate_mono_of_fit hbeta hrs' hrs h0 hle h1 hs0 hfit' h haccept

/-! ### Monotonicity of the predicate -/

lemma Context.predicateFunc_iff (c : Context ℝ) (pod : Pod) (node : NodeObject) :
    c.predicateFunc pod node = true ↔ ∀ kind : ResourceKind,
      c.safePredicate (c.resourceStats kind node (getResourceRequest pod)) = true := by
  constructor
  · intro h kind
    obtain ⟨hcpu, hmemory⟩ := (Bool.and_eq_true _ _).mp h
    cases kind with
    | cpu => exact hcpu
    | memory => exact hmemory
  · intro h
    exact (Bool.and_eq_true _ _).mpr ⟨h .cpu, h .memory⟩

/-- A pod that asks for no more CPU and no more memory than an accepted one is
accepted, when the statistics of both resources move in order. -/
theorem Context.accepts_smaller (hbeta : c.regularizedIncomplete = betaRegularized)
    (node : NodeObject) (hcpu : 0 < node.allocatable.cpu.milliValue)
    (hmemory : 0 < node.allocatable.memory.value) (pod' pod : Pod)
    (hleCPU : (getResourceRequest pod').milliCPU ≤ (getResourceRequest pod).milliCPU)
    (hleMemory : (getResourceRequest pod').memory ≤ (getResourceRequest pod).memory)
    (horder : ∀ kind rs' rs, c.resourceStats kind node (getResourceRequest pod') = some rs' →
      c.resourceStats kind node (getResourceRequest pod) = some rs → c.MovesInOrder rs' rs)
    (haccept : c.predicateFunc pod node = true) : c.predicateFunc pod' node = true := by
  rw [Context.predicateFunc_iff] at haccept ⊢
  intro kind
  have hpos : 0 < kind.allocatable node := by
    cases kind with
    | cpu => exact hcpu
    | memory => exact hmemory
  have hle : kind.request (getResourceRequest pod') ≤ kind.request (getResourceRequest pod) := by
    cases kind with
    | cpu => exact hleCPU
    | memory => exact hleMemory
  cases hrs' : c.resourceStats kind node (getResourceRequest pod') with
  | none => rfl
  | some rs' =>
      -- statistics depend on the annotations of the node only
      have hsome : (c.resourceStats kind node (getResourceRequest pod)).isSome := by
        rw [c.resourceStats_isSome, ← c.resourceStats_isSome kind node (getResourceRequest pod'),
          hrs', Option.isSome_some]
      obtain ⟨rs, hrs⟩ := Option.isSome_iff_exists.mp hsome
      obtain ⟨hsigma, hmu⟩ := Context.getMuSigma_mono hpos hle hrs' hrs
      have haccept' := haccept kind
      rw [hrs] at haccept'
      exact Context.safePredicate_mono hbeta hsigma hmu (horder kind rs' rs hrs' hrs) haccept'

/-- What is read of a node that has annotations for CPU only: the mean and the
deviation of the free CPUs, as integers. -/
structure ReadsCPU (node : NodeObject) (mean std : ℤ) : Prop where
  mean : parseIntChecked (annotationOf node "mean-free-cpu") = .ok mean
  std : parseIntChecked (annotationOf node "std-free-cpu") = .ok std
  forecast : annotationOf node "forcasted-free-cpu" = ""
  memory : parseIntChecked (annotationOf node "mean-free-memory") = .error .errSyntax

/-- The CPUs of a pod are counted in thousandths. -/
lemma getResourceRequest_cpuPod {cpus : ℤ} (h : |cpus| ≤ 2 ^ 32) :
    getResourceRequest (cpuPod cpus) = ⟨cpus * 1000, 0⟩ := by
  obtain ⟨h0, h1⟩ := abs_le.mp h
  have hrange : toInt64 (cpus * 1000) = cpus * 1000 := toInt64_of_range (by omega) (by omega)
  simp [getResourceRequest, cpuPod, Resource.add, Pigeon.Quantity.units, hrange]

namespace ReadsCPU

variable {c : Context ℝ} {node : NodeObject} {capacity mean std k : ℤ} {rs : ResourceStats ℝ}

/-- The statistics of a node whose CPUs are all free on average. -/
lemma getMuSigma_eq (h : ReadsCPU node capacity std) (hparse : c.parseFloat = parseInteger)
    (hcapacity : node.allocatable.cpu.milliValue = capacity) (hpos : 0 < capacity)
    (hs0 : 0 ≤ std) (hs1 : std ≤ capacity) (h0 : 0 ≤ k) (h1 : k ≤ capacity)
    (hrs : c.getCPUStats node ⟨k, 0⟩ = some rs) :
    getMuSigma rs = (.fin (k / capacity), .fin (std / capacity)) := by
  have hpos' : (0 : ℝ) < capacity := Int.cast_pos.mpr hpos
  have hunit : ∀ x : ℤ, 0 ≤ x → x ≤ capacity → (0 : ℝ) ≤ x / capacity ∧ (x : ℝ) / capacity ≤ 1 :=
    fun x hx hx' => ⟨div_nonneg (Int.cast_nonneg hx) hpos'.le,
      (div_le_one hpos').mpr (by exact_mod_cast hx')⟩
  obtain ⟨hk, hk'⟩ := hunit k h0 h1
  obtain ⟨hs, hs'⟩ := hunit std hs0 hs1
  rw [Context.getCPUStats_of_integers hparse node ⟨k, 0⟩ capacity std h.mean h.std h.forecast,
    hcapacity, Option.some.injEq] at hrs
  subst hrs
  simp [getMuSigma, GoFloat.div_fin, hpos'.ne', min_eq_left hk', max_eq_left hk, min_eq_left hs',
    max_eq_left hs]

lemma exists_getCPUStats (h : ReadsCPU node mean std) (hparse : c.parseFloat = parseInteger)
    (podRequest : Resource) : ∃ rs, c.getCPUStats node podRequest = some rs :=
  ⟨_, Context.getCPUStats_of_integers hparse node podRequest mean std h.mean h.std h.forecast⟩

lemma resourceStats_memory (h : ReadsCPU node mean std) (hparse : c.parseFloat = parseInteger)
    (podRequest : Resource) : c.resourceStats .memory node podRequest = none := by
  rw [← Option.not_isSome_iff_eq_none, Context.resourceStats_isSome, ResourceKind.meanKey, hparse]
  simp [parseInteger, h.memory]

end ReadsCPU

/-- A threshold of one and the default percentile. -/
noncomputable def fullThreshold : Context ℝ where
  safeUtilization := "100"
  parseFloat := parseInteger
  regularizedIncomplete := betaRegularized

/-- Ten CPUs, all free on average, with a deviation of four. -/
def burstyNode : NodeObject :=
  annotatedNode 10 [("mean-free-cpu", "10000"), ("std-free-cpu", "4000")]

lemma getSafeUtilization_fullThreshold : fullThreshold.getSafeUtilization = 1 := by
  have hset : parseIntChecked "100" = .ok 100 := rfl
  have hlen : 0 < "100".length := by decide
  simp [Context.getSafeUtilization, getPercentage, fullThreshold, hset, hlen]

lemma getSafePercentile_fullThreshold : fullThreshold.getSafePercentile = 30 / 100 := rfl

lemma reads_burstyNode : ReadsCPU burstyNode 10000 4000 :=
  ⟨rfl, rfl, rfl, rfl⟩

lemma getMuSigma_burstyNode {k : ℤ} {rs : ResourceStats ℝ} (h0 : 0 ≤ k) (h1 : k ≤ 10000)
    (hrs : fullThreshold.getCPUStats burstyNode ⟨k, 0⟩ = some rs) :
    getMuSigma rs = (.fin (k / 10000), .fin (4 / 10)) := by
  rw [reads_burstyNode.getMuSigma_eq rfl rfl (by decide) (by decide) (by decide) h0 h1 hrs]
  norm_num

/-- A pod of half the CPUs is accepted: its fit never exceeds the threshold. -/
lemma predicateFunc_burstyNode_five :
    fullThreshold.predicateFunc (cpuPod 5) burstyNode = true := by
  have hrequest : getResourceRequest (cpuPod 5) = ⟨5000, 0⟩ := getResourceRequest_cpuPod (by decide)
  rw [Context.predicateFunc_iff, hrequest]
  intro kind
  cases kind with
  | cpu =>
      obtain ⟨rs, hrs⟩ := reads_burstyNode.exists_getCPUStats (c := fullThreshold) rfl ⟨5000, 0⟩
      have hmusigma := getMuSigma_burstyNode (by decide) (by decide) hrs
      rw [Context.resourceStats, hrs]
      refine Context.safePredicate_of_rank_one ?_
      have hfit : ¬((5000 : ℤ) / 10000 : ℝ) * (1 - (5000 : ℤ) / 10000) ≤ (4 / 10) ^ 2 := by norm_num
      obtain ⟨ha, hb⟩ := fit_pos (by norm_num) (by norm_num) (not_le.mp hfit)
      rw [hmusigma, Context.computeRank_of_pos rfl (by norm_num) (by norm_num) (by norm_num)
        (by norm_num), if_neg hfit, getSafeUtilization_fullThreshold, betaCdf_one ha hb le_rfl]
  | memory => rw [reads_burstyNode.resourceStats_memory rfl, Context.safePredicate]

/-- A threshold of a half, and a risk of up to sixty percent. -/
noncomputable def halfThreshold : Context ℝ where
  safeUtilization := "50"
  safePercentile := "60"
  parseFloat := parseInteger
  regularizedIncomplete := betaRegularized

/-- Twenty CPUs, all free on average, with a deviation of 5.8. -/
def steadyNode : NodeObject :=
  annotatedNode 20 [("mean-free-cpu", "20000"), ("std-free-cpu", "5800")]

lemma settings_halfThreshold :
    halfThreshold.getSafeUtilization = 1 / 2 ∧ halfThreshold.getSafePercentile = 6 / 10 := by
  have hset : parseIntChecked "50" = .ok 50 := rfl
  have hset' : parseIntChecked "60" = .ok 60 := rfl
  have hlen : 0 < "50".length := by decide
  have hlen' : 0 < "60".length := by decide
  constructor
  · norm_num [Context.getSafeUtilization, getPercentage, halfThreshold, hset, hlen]
  · norm_num [Context.getSafePercentile, getPercentage, halfThreshold, hset', hlen']

lemma reads_steadyNode : ReadsCPU steadyNode 20000 5800 :=
  ⟨rfl, rfl, rfl, rfl⟩

lemma getMuSigma_steadyNode {k : ℤ} {rs : ResourceStats ℝ} (h0 : 0 ≤ k) (h1 : k ≤ 20000)
    (hrs : halfThreshold.getCPUStats steadyNode ⟨k, 0⟩ = some rs) :
    getMuSigma rs = (.fin (k / (20000 : ℤ)), .fin ((5800 : ℤ) / (20000 : ℤ))) :=
  reads_steadyNode.getMuSigma_eq rfl rfl (by decide) (by decide) (by decide) h0 h1 hrs

/-- The shape parameters for nine and for eight of the twenty CPUs. -/
lemma fit_steadyNode :
    (fitAlpha (9 / 20) (29 / 100) ≤ 1 ∧ 1 ≤ fitBeta (9 / 20) (29 / 100))
      ∧ fitAlpha (8 / 20) (29 / 100) ≤ fitAlpha (9 / 20) (29 / 100)
      ∧ fitBeta (9 / 20) (29 / 100) ≤ fitBeta (8 / 20) (29 / 100) := by
  have hnine := fitSize_eq (m := 9 / 20) (s := 29 / 100) (by norm_num)
  have height := fitSize_eq (m := 8 / 20) (s := 29 / 100) (by norm_num)
  rw [fitAlpha, fitAlpha, fitBeta, fitBeta, hnine, height]
  norm_num

/-- Nine CPUs are accepted: the fit is left of the uniform distribution. -/
lemma predicateFunc_steadyNode_nine :
    halfThreshold.predicateFunc (cpuPod 9) steadyNode = true := by
  have hrequest : getResourceRequest (cpuPod 9) = ⟨9000, 0⟩ := getResourceRequest_cpuPod (by decide)
  obtain ⟨hutilization, hpercentile⟩ := settings_halfThreshold
  rw [Context.predicateFunc_iff, hrequest]
  intro kind
  cases kind with
  | cpu =>
      obtain ⟨rs, hrs⟩ := reads_steadyNode.exists_getCPUStats (c := halfThreshold) rfl ⟨9000, 0⟩
      have hmusigma : getMuSigma rs = (.fin (9 / 20), .fin (29 / 100)) := by
        rw [getMuSigma_steadyNode (by decide) (by decide) hrs]
        norm_num
      have hfit : ¬ (9 / 20 : ℝ) * (1 - 9 / 20) ≤ (29 / 100) ^ 2 := by norm_num
      obtain ⟨ha, hb⟩ := fit_pos (by norm_num) (by norm_num) (not_le.mp hfit)
      obtain ⟨⟨hα, hβ⟩, -⟩ := fit_steadyNode
      have hrank := Context.computeRank_of_pos (c := halfThreshold) rfl (m := 9 / 20)
        (s := 29 / 100) (by norm_num) (by norm_num) (by norm_num) (by norm_num)
        halfThreshold.getSafeUtilization
      rw [if_neg hfit, hutilization] at hrank
      have hhalf : (1 / 2 : ℝ) ≤ betaCdf (fitAlpha (9 / 20) (29 / 100))
          (fitBeta (9 / 20) (29 / 100)) (1 / 2) :=
        (le_betaCdf_one_one (by norm_num) (by norm_num)).trans
          (betaCdf_le_of_shape one_pos one_pos ha hb hα hβ _)
      rw [Context.resourceStats, hrs]
      refine (Context.safePredicate_of_rank (by rw [hmusigma, hutilization]; exact hrank)).mpr ?_
      rw [hpercentile]
      linarith
  | memory => rw [reads_steadyNode.resourceStats_memory rfl, Context.safePredicate]

/-- The shape parameters of eight CPUs are left of those of nine. -/
theorem Context.accepts_smaller_steadyNode :
    halfThreshold.predicateFunc (cpuPod 8) steadyNode = true := by
  have hrequest : getResourceRequest (cpuPod 9) = ⟨9000, 0⟩ := getResourceRequest_cpuPod (by decide)
  have hrequest' : getResourceRequest (cpuPod 8) = ⟨8000, 0⟩ := getResourceRequest_cpuPod (by decide)
  refine Context.accepts_smaller rfl steadyNode (by decide) (by decide) (cpuPod 8) (cpuPod 9)
    (by rw [hrequest, hrequest']; decide) (by rw [hrequest, hrequest']) ?_
    predicateFunc_steadyNode_nine
  intro kind rs' rs hrs' hrs m' m s hm' hm
  rw [hrequest'] at hrs'
  rw [hrequest] at hrs
  cases kind with
  | cpu =>
      rw [getMuSigma_steadyNode (by decide) (by decide) hrs', Prod.mk.injEq, GoFloat.fin.injEq,
        GoFloat.fin.injEq] at hm'
      rw [getMuSigma_steadyNode (by decide) (by decide) hrs, Prod.mk.injEq, GoFloat.fin.injEq,
        GoFloat.fin.injEq] at hm
      have hs : s = 29 / 100 := by rw [← hm'.2]; norm_num
      have hmeans : m' = 8 / 20 ∧ m = 9 / 20 := by
        rw [← hm'.1, ← hm.1]
        norm_num
      rw [hs, hmeans.1, hmeans.2]
      exact .inr (.inr (.inr (.inr ⟨by norm_num, .inr (.inr fit_steadyNode.2)⟩)))
  | memory =>
      rw [reads_steadyNode.resourceStats_memory rfl] at hrs'
      cases hrs'

/-- A pod of half the CPUs is accepted and a pod of one CPU is not: its mean is
too small for the deviation of the node to have a fit. -/
theorem Context.smaller_pod_rejected :
    fullThreshold.regularizedIncomplete = betaRegularized
      ∧ 0 < burstyNode.allocatable.cpu.milliValue ∧ 0 < burstyNode.allocatable.memory.value
      ∧ 0 < fullThreshold.getSafePercentile
      ∧ (getResourceRequest (cpuPod 1)).milliCPU ≤ (getResourceRequest (cpuPod 5)).milliCPU
      ∧ (getResourceRequest (cpuPod 1)).memory ≤ (getResourceRequest (cpuPod 5)).memory
      ∧ fullThreshold.predicateFunc (cpuPod 5) burstyNode = true
      ∧ fullThreshold.predicateFunc (cpuPod 1) burstyNode = false := by
  have hpercentile := getSafePercentile_fullThreshold
  refine ⟨rfl, by decide, by decide, by norm_num [hpercentile],
    by decide, by decide,
    predicateFunc_burstyNode_five, ?_⟩
  have hrequest : getResourceRequest (cpuPod 1) = ⟨1000, 0⟩ := getResourceRequest_cpuPod (by decide)
  rw [← Bool.not_eq_true, Context.predicateFunc_iff, hrequest]
  intro haccept
  obtain ⟨rs, hrs⟩ := reads_burstyNode.exists_getCPUStats (c := fullThreshold) rfl ⟨1000, 0⟩
  have hcpu := haccept .cpu
  rw [Context.resourceStats, hrs] at hcpu
  have hone := Context.safePredicate_of_no_fit rfl
    (getMuSigma_burstyNode (by decide) (by decide) hrs) (by norm_num) (by norm_num) (by norm_num)
    (by norm_num) (by norm_num) hcpu
  norm_num [hpercentile] at hone

end KubeSafeScheduler.Safe
