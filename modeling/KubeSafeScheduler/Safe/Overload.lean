import KubeSafeScheduler.Safe.Stats

/-!
`safe/predicate.go` and `safe/priority.go`: the filter and the scores of the
safe scheduler.

Both compute the risk of a node, the filter to compare it with the percentile
and the scorer to divide it by the percentile. The distribution function is any
function with values between zero and one.

* `Context.predicateFunc`, `Context.priorityFunc`: the two entry points.
* `Context.rejected_scores_zero`: the two agree, for every mixture of valid and
  invalid statistics.
* `Context.score_safe_iff`: for which nodes and settings the scorer divides by
  numbers other than zero and stays within its range.
-/

namespace KubeSafeScheduler.Safe

open Pigeon (NodeObject parseIntChecked)

section Code

variable {K : Type*} [Field K] [LinearOrder K]

/-! ### The predicate -/

/-- `computeRisk`. -/
def Context.computeRisk (c : Context K) (rs : ResourceStats K) : GoFloat K :=
  let (mu, sigma) := getMuSigma rs
  .fin 1 - c.computeRank mu sigma (.fin c.getSafeUtilization)

/-- The common part of `MemorySafePredicate` and `CPUSafePredicate`: without
statistics the node is accepted. -/
def Context.safePredicate (c : Context K) : Option (ResourceStats K) → Bool
  | none => true
  | some rs => !(GoFloat.fin c.getSafePercentile).lt (c.computeRisk rs)

/-- `MemorySafePredicate`. -/
def Context.memorySafePredicate (c : Context K) (node : NodeObject) (podRequest : Resource) :
    Bool :=
  c.safePredicate (c.getMemoryStats node podRequest)

/-- `CPUSafePredicate`. -/
def Context.cpuSafePredicate (c : Context K) (node : NodeObject) (podRequest : Resource) : Bool :=
  c.safePredicate (c.getCPUStats node podRequest)

/-- `PredicateFunc`. -/
def Context.predicateFunc (c : Context K) (pod : Pod) (node : NodeObject) : Bool :=
  let podRequest := getResourceRequest pod
  let okCPU := c.cpuSafePredicate node podRequest
  let okMemory := c.memorySafePredicate node podRequest
  okCPU && okMemory

/-! ### The priority function -/

/-- `schedulerapi.MaxPriority`. -/
def maxPriority : ℤ := 10

variable [HasSqrt K] [FloorRing K]

/-- `computeScore`. -/
def Context.computeScore (c : Context K) (rs : ResourceStats K) (isBalance : Bool) : ℤ :=
  let (mu, sigma) := getMuSigma rs
  if isBalance then
    let obj := (mu + sigma.sqrt) / .fin ((2 : ℕ) : K)
    let objScaled := (.fin 1 - obj) * .fin maxPriority
    (objScaled + .fin (1 / ((2 : ℕ) : K))).toInt
  else
    let rnk := c.computeRank mu sigma (.fin c.getSafeUtilization)
    let risk := .fin 1 - rnk
    let riskFraction := risk / .fin c.getSafePercentile
    let riskFraction := riskFraction.min (.fin 1)
    if (GoFloat.fin 1).le riskFraction then 0
    else ((.fin 1 - riskFraction.sqrt) * .fin maxPriority).toInt

/-- The divisors of the divisions in `getMuSigma` and `computeScore`, in the
order of execution. -/
def Context.divisors (c : Context K) (rs : ResourceStats K) (isBalance : Bool) :
    List (GoFloat K) :=
  [rs.capacity, rs.capacity]
    ++ if isBalance then [.fin ((2 : ℕ) : K)] else [.fin c.getSafePercentile]

/-- The common part of `memoryScore` and `cpuScore`: the score and whether there
are statistics. -/
def Context.resourceScore (c : Context K) (isBalance : Bool) :
    Option (ResourceStats K) → ℤ × Bool
  | none => (0, false)
  | some rs => (c.computeScore rs isBalance, true)

/-- `memoryScore`. -/
def Context.memoryScore (c : Context K) (node : NodeObject) (podRequest : Resource)
    (isBalance : Bool) : ℤ × Bool :=
  c.resourceScore isBalance (c.getMemoryStats node podRequest)

/-- `cpuScore`. -/
def Context.cpuScore (c : Context K) (node : NodeObject) (podRequest : Resource)
    (isBalance : Bool) : ℤ × Bool :=
  c.resourceScore isBalance (c.getCPUStats node podRequest)

/-- One round of the loop of `PriorityFunc`: the smaller of the scores that there
are. -/
def Context.nodeScore (c : Context K) (podRequest : Resource) (isBalance : Bool)
    (node : NodeObject) : ℤ :=
  let (cpuScore, okCPU) := c.cpuScore node podRequest isBalance
  let (memoryScore, okMemory) := c.memoryScore node podRequest isBalance
  if okMemory then
    if okCPU then if cpuScore < memoryScore then cpuScore else memoryScore else memoryScore
  else if okCPU then cpuScore else 0

/-- `schedulerapi.HostPriority`. -/
structure HostPriority where
  host : String
  score : ℤ
  deriving DecidableEq

/-- `PriorityFunc`. -/
def Context.priorityFunc (c : Context K) (pod : Pod) (nodes : List NodeObject)
    (isBalance : Bool) : List HostPriority :=
  let podRequest := getResourceRequest pod
  nodes.map fun node => ⟨node.name, c.nodeScore podRequest isBalance node⟩

/-- The entry of a node in the list of priorities. -/
lemma Context.priorityFunc_getElem? (c : Context K) (pod : Pod) {nodes : List NodeObject}
    {i : ℕ} {node : NodeObject} (h : nodes[i]? = some node) (isBalance : Bool) :
    (c.priorityFunc pod nodes isBalance)[i]?
      = some ⟨node.name, c.nodeScore (getResourceRequest pod) isBalance node⟩ := by
  simp [Context.priorityFunc, h]

section Node

variable {c : Context K} {node : NodeObject} {podRequest : Resource} {isBalance : Bool}

lemma Context.nodeScore_of_both (hcpu : (c.getCPUStats node podRequest).isSome)
    (hmemory : (c.getMemoryStats node podRequest).isSome) :
    c.nodeScore podRequest isBalance node
      = min (c.cpuScore node podRequest isBalance).1
        (c.memoryScore node podRequest isBalance).1 := by
  obtain ⟨rsCPU, hrsCPU⟩ := Option.isSome_iff_exists.mp hcpu
  obtain ⟨rsMemory, hrsMemory⟩ := Option.isSome_iff_exists.mp hmemory
  simp only [Context.nodeScore, Context.cpuScore, Context.memoryScore, hrsCPU, hrsMemory,
    Context.resourceScore, if_true]
  split_ifs with h
  · exact (min_eq_left h.le).symm
  · exact (min_eq_right (not_lt.mp h)).symm

lemma Context.nodeScore_of_cpu_zero (hcpu : c.cpuScore node podRequest isBalance = (0, true))
    (hmemory : 0 ≤ (c.memoryScore node podRequest isBalance).1) :
    c.nodeScore podRequest isBalance node = 0 := by
  simp only [Context.nodeScore, hcpu, if_true]
  split_ifs <;> omega

lemma Context.nodeScore_of_memory_zero
    (hmemory : c.memoryScore node podRequest isBalance = (0, true))
    (hcpu : 0 ≤ (c.cpuScore node podRequest isBalance).1) :
    c.nodeScore podRequest isBalance node = 0 := by
  simp only [Context.nodeScore, hmemory, if_true]
  split_ifs <;> omega

end Node

end Code

/-! ### Risk and score -/

variable {c : Context ℝ}

lemma Context.computeRisk_inUnit (hc : c.IsDistribution) (rs : ResourceStats ℝ) :
    (c.computeRisk rs).InUnit := by
  obtain ⟨y, hy0, hy1, hy⟩ := Context.computeRank_inUnit hc (getMuSigma rs).1 (getMuSigma rs).2
    (.fin c.getSafeUtilization)
  refine ⟨1 - y, by linarith, by linarith, ?_⟩
  simp only [Context.computeRisk, hy, GoFloat.sub_fin]

/-- The score of a risk `r`: zero from the percentile on, and within the range. -/
lemma Context.computeScore_overload {rs : ResourceStats ℝ} {r : ℝ}
    (hr : c.computeRisk rs = .fin r) (h0 : 0 ≤ r) (hpos : 0 < c.getSafePercentile) :
    (c.getSafePercentile ≤ r → c.computeScore rs false = 0)
      ∧ 0 ≤ c.computeScore rs false ∧ c.computeScore rs false ≤ maxPriority := by
  have hscore : c.computeScore rs false
      = if 1 ≤ min (r / c.getSafePercentile) 1 then 0
        else ((GoFloat.fin 1 - (GoFloat.fin (min (r / c.getSafePercentile) 1)).sqrt)
          * GoFloat.fin (maxPriority : ℝ)).toInt := by
    have hr' : .fin 1 - c.computeRank (getMuSigma rs).1 (getMuSigma rs).2
        (.fin c.getSafeUtilization) = .fin r := hr
    simp only [Context.computeScore, Bool.false_eq_true, if_false, hr',
      GoFloat.div_fin hpos.ne', GoFloat.min_fin, GoFloat.le_fin, decide_eq_true_eq]
  rw [hscore]
  split_ifs with hone
  · exact ⟨fun _ => rfl, le_rfl, by decide⟩
  · have hfrac : 0 ≤ r / c.getSafePercentile := div_nonneg h0 hpos.le
    have hlt : r / c.getSafePercentile < 1 := by
      by_contra hge
      exact hone (le_min (not_lt.mp hge) le_rfl)
    have hsqrt : √(r / c.getSafePercentile) ≤ 1 := Real.sqrt_le_one.mpr hlt.le
    have hsqrt0 := Real.sqrt_nonneg (r / c.getSafePercentile)
    have hvalue : (GoFloat.fin 1 - (GoFloat.fin (min (r / c.getSafePercentile) 1)).sqrt)
        * .fin (maxPriority : ℝ) = .fin ((1 - √(r / c.getSafePercentile)) * maxPriority) := by
      simp [min_eq_left hlt.le, GoFloat.sqrt, not_lt.mpr hfrac]
    obtain ⟨hint, hnonneg, hle⟩ := GoFloat.toInt_fin (K := ℝ) (m := maxPriority)
      (x := (1 - √(r / c.getSafePercentile)) * maxPriority)
      (mul_nonneg (by linarith) (by norm_num [maxPriority]))
      (by norm_num [maxPriority]; linarith) (by decide)
    rw [hvalue, hint]
    refine ⟨fun hge => absurd hlt (not_lt.mpr ?_), hnonneg, hle⟩
    exact (one_le_div hpos).mpr hge

/-- A resource that the predicate rejects has score zero, and every score is
within the range. -/
lemma Context.resourceScore_overload (hc : c.IsDistribution) (hpos : 0 < c.getSafePercentile)
    (stats : Option (ResourceStats ℝ)) :
    (c.safePredicate stats = false → c.resourceScore false stats = (0, true))
      ∧ 0 ≤ (c.resourceScore false stats).1 ∧ (c.resourceScore false stats).1 ≤ maxPriority := by
  cases stats with
  | none =>
      have hmax : 0 ≤ maxPriority := by decide
      refine ⟨fun h => ?_, le_rfl, hmax⟩
      cases h
  | some rs =>
      obtain ⟨r, hr0, -, hr⟩ := Context.computeRisk_inUnit hc rs
      obtain ⟨hzero, hrange⟩ := Context.computeScore_overload hr hr0 hpos
      refine ⟨fun h => ?_, hrange⟩
      have hlt : c.getSafePercentile < r := by
        simpa [Context.safePredicate, hr] using h
      exact Prod.ext (hzero hlt.le) rfl

/-! ### Agreement of the filter and the scorer -/

/-- If the predicate rejects the pod on the node then the safe-overload priority
of the node is zero; when both resources have statistics, the priority is the
smaller of the two scores, each between zero and the largest priority. -/
theorem Context.rejected_scores_zero (hc : c.IsDistribution) (hpos : 0 < c.getSafePercentile)
    (pod : Pod) (node : NodeObject) (nodes : List NodeObject) (i : ℕ)
    (hi : nodes[i]? = some node) :
    (c.predicateFunc pod node = false →
        (c.priorityFunc pod nodes false)[i]? = some ⟨node.name, 0⟩)
      ∧ ((c.getCPUStats node (getResourceRequest pod)).isSome →
        (c.getMemoryStats node (getResourceRequest pod)).isSome →
        let cpuScore := (c.cpuScore node (getResourceRequest pod) false).1
        let memoryScore := (c.memoryScore node (getResourceRequest pod) false).1
        (c.priorityFunc pod nodes false)[i]? = some ⟨node.name, min cpuScore memoryScore⟩
          ∧ 0 ≤ cpuScore ∧ cpuScore ≤ maxPriority
          ∧ 0 ≤ memoryScore ∧ memoryScore ≤ maxPriority) := by
  have hcpu := Context.resourceScore_overload hc hpos (c.getCPUStats node (getResourceRequest pod))
  have hmemory :=
    Context.resourceScore_overload hc hpos (c.getMemoryStats node (getResourceRequest pod))
  rw [Context.priorityFunc_getElem? c pod hi]
  constructor
  · intro hreject
    have hzero : c.nodeScore (getResourceRequest pod) false node = 0 := by
      simp only [Context.predicateFunc, Bool.and_eq_false_iff] at hreject
      rcases hreject with h | h
      · exact Context.nodeScore_of_cpu_zero (hcpu.1 h) hmemory.2.1
      · exact Context.nodeScore_of_memory_zero (hmemory.1 h) hcpu.2.1
    rw [hzero]
  · intro hvalidCPU hvalidMemory
    refine ⟨?_, hcpu.2.1, hcpu.2.2, hmemory.2.1, hmemory.2.2⟩
    rw [Context.nodeScore_of_both hvalidCPU hvalidMemory]

/-- A node with the given number of CPUs, one GiB and the given annotations. -/
def annotatedNode (cpus : ℤ) (annotations : List (String × String)) : NodeObject where
  name := "node"
  annotations := annotations.foldl (fun m e => m.insert e.1 e.2) ∅
  allocatable := { cpu := .units cpus, memory := .units (2 ^ 30) }

/-- Nothing is free. -/
def fullNode : NodeObject :=
  annotatedNode 1 [("mean-free-cpu", "0"), ("std-free-cpu", "0"), ("mean-free-memory", "0")]

/-- A pod that asks for the given number of CPUs. -/
def cpuPod (cpus : ℤ) : Pod := ⟨[{ cpu := some (.units cpus) }], []⟩

/-- The default settings, with a distribution function that is constant. -/
noncomputable def constantContext : Context ℝ where
  parseFloat := parseInteger
  regularizedIncomplete := fun _ _ _ => .fin (1 / ((2 : ℕ) : ℝ))

lemma constantContext_isDistribution : constantContext.IsDistribution :=
  fun _ _ _ => .inr (GoFloat.inUnit_fin (by norm_num) (by norm_num))

/-- The full node has statistics of both resources. -/
lemma resourceStats_fullNode_isSome (kind : ResourceKind) (podRequest : Resource) :
    (constantContext.resourceStats kind fullNode podRequest).isSome := by
  rw [Context.resourceStats_isSome]
  cases kind with
  | cpu =>
      have hparse : parseIntChecked (annotationOf fullNode "mean-free-cpu") = .ok 0 := by
        decide
      simp [constantContext, ResourceKind.meanKey, parseInteger, hparse]
  | memory =>
      have hparse : parseIntChecked (annotationOf fullNode "mean-free-memory") = .ok 0 := by
        decide
      simp [constantContext, ResourceKind.meanKey, parseInteger, hparse]

theorem Context.rejected_scores_zero_fullNode :
    (constantContext.priorityFunc (cpuPod 1) [fullNode] false)[0]? = some ⟨"node", 0⟩
      ∧ 0 ≤ (constantContext.memoryScore fullNode (getResourceRequest (cpuPod 1)) false).1 := by
  have hpos : 0 < constantContext.getSafePercentile := by
    norm_num [Context.getSafePercentile, getPercentage, constantContext]
  have hreject : constantContext.predicateFunc (cpuPod 1) fullNode = false := by
    have hthreshold : constantContext.getSafeUtilization = 90 / 100 := rfl
    have hpercentile : constantContext.getSafePercentile = 30 / 100 := rfl
    have hstats := Context.getCPUStats_of_integers (c := constantContext) rfl fullNode ⟨1000, 0⟩
      0 0 (by decide) (by decide) (by decide)
    have hcapacity : fullNode.allocatable.cpu.milliValue = 1000 := rfl
    have hrequest : getResourceRequest (cpuPod 1) = ⟨1000, 0⟩ := by decide
    simp only [Context.predicateFunc, Context.cpuSafePredicate, hrequest, hstats, hcapacity,
      Context.safePredicate, Context.computeRisk, getMuSigma, Context.computeRank, hthreshold,
      hpercentile]
    norm_num [GoFloat.div_fin]
  obtain ⟨hzero, hboth⟩ := Context.rejected_scores_zero constantContext_isDistribution hpos
    (cpuPod 1) fullNode [fullNode] 0 rfl
  have hscores := hboth (resourceStats_fullNode_isSome .cpu _)
    (resourceStats_fullNode_isSome .memory _)
  exact ⟨hzero hreject, hscores.2.2.2.1⟩

/-! ### Divisors and range of the scores -/

/-- Every division has a divisor other than zero and the score is between zero
and the largest priority. -/
def Context.ScoreSafe (c : Context ℝ) (rs : ResourceStats ℝ) (isBalance : Bool) : Prop :=
  (∀ d ∈ c.divisors rs isBalance, d ≠ .fin 0)
    ∧ 0 ≤ c.computeScore rs isBalance ∧ c.computeScore rs isBalance ≤ maxPriority

/-- The annotations of a resource, and the weighted mean with its forecast, are
numbers. -/
def Context.FreeIsNumber (c : Context ℝ) (kind : ResourceKind) (node : NodeObject) : Prop :=
  c.parseFloat (annotationOf node kind.meanKey) ≠ some .nan
    ∧ c.parseFloat (annotationOf node kind.stdKey) ≠ some .nan
    ∧ ∀ freeAvg freeForecastAvg, c.parseFloat (annotationOf node kind.meanKey) = some freeAvg →
      c.parseFloat (annotationOf node kind.forecastKey) = some freeForecastAvg →
      0 < (annotationOf node kind.forecastKey).length →
      WeighsToNumber c.getForecastWeight freeAvg freeForecastAvg

/-- The node can allocate some amount of the resource; for the balancing score,
its annotations are numbers, and for the other one, the percentile is not set to
zero. -/
def Context.ScoreCondition (c : Context ℝ) (kind : ResourceKind) (node : NodeObject)
    (isBalance : Bool) : Prop :=
  kind.allocatable node ≠ 0
    ∧ if isBalance then c.FreeIsNumber kind node
      else parseIntChecked c.safePercentile ≠ .ok 0

lemma Context.weightedFree_eq_nan_iff (c : Context ℝ) (freeAvg : GoFloat ℝ) (forecast : String) :
    c.weightedFree freeAvg forecast = .nan ↔ freeAvg = .nan
      ∨ ∃ freeForecastAvg, c.parseFloat forecast = some freeForecastAvg ∧ 0 < forecast.length
        ∧ ¬WeighsToNumber c.getForecastWeight freeAvg freeForecastAvg := by
  obtain ⟨h0, h1⟩ := c.getForecastWeight_mem
  unfold Context.weightedFree
  cases hparse : c.parseFloat forecast with
  | none => simp
  | some freeForecastAvg =>
      by_cases hlen : 0 < forecast.length
      · by_cases hnan : freeAvg = .nan
        · simp [hlen, hnan]
        · simp only [hlen, if_true, weighted_eq_nan_iff h0 h1 hnan, hnan, false_or, true_and,
            Option.some.injEq]
          exact ⟨fun h => ⟨_, rfl, h⟩, fun ⟨_, heq, h⟩ => heq ▸ h⟩
      · simp [hlen]

/-- Mean and deviation of the utilization are numbers when the annotations
are. -/
lemma Context.getMuSigma_number_iff {kind : ResourceKind} {node : NodeObject}
    {podRequest : Resource} {rs : ResourceStats ℝ}
    (hrs : c.resourceStats kind node podRequest = some rs) (hne : kind.allocatable node ≠ 0) :
    ((rs.usedAvg + rs.demand) / rs.capacity ≠ .nan ∧ rs.usedStdev / rs.capacity ≠ .nan)
      ↔ c.FreeIsNumber kind node := by
  have hfactor : (kind.factor : ℝ) ≠ 0 := kind.factor_pos.ne'
  have hcapacity : (kind.allocatable node : ℝ) * kind.factor ≠ 0 :=
    mul_ne_zero (Int.cast_ne_zero.mpr hne) hfactor
  rw [c.resourceStats_eq, Option.map_eq_some_iff] at hrs
  obtain ⟨freeAvg, hmean, rfl⟩ := hrs
  dsimp only
  rw [ne_eq, ne_eq, GoFloat.div_eq_nan_iff hcapacity, GoFloat.add_fin_eq_nan_iff,
    GoFloat.max_fin_eq_nan_iff, GoFloat.fin_sub_eq_nan_iff, GoFloat.mul_eq_nan_iff hfactor,
    GoFloat.div_eq_nan_iff hcapacity, GoFloat.mul_eq_nan_iff hfactor,
    c.weightedFree_eq_nan_iff]
  have hstd : (c.parseFloat (annotationOf node kind.stdKey)).getD (.fin 0) = .nan
      ↔ c.parseFloat (annotationOf node kind.stdKey) = some .nan := by
    cases c.parseFloat (annotationOf node kind.stdKey) <;> simp
  rw [hstd, Context.FreeIsNumber, hmean]
  grind

/-- The balancing score of a mean and a deviation in the unit interval. -/
lemma Context.computeScore_balance {rs : ResourceStats ℝ} (hmu : (getMuSigma rs).1.InUnit)
    (hsigma : (getMuSigma rs).2.InUnit) :
    0 ≤ c.computeScore rs true ∧ c.computeScore rs true ≤ maxPriority := by
  obtain ⟨m, hm0, hm1, hm⟩ := hmu
  obtain ⟨s, hs0, hs1, hs⟩ := hsigma
  have hsqrt : √s ≤ 1 := Real.sqrt_le_one.mpr hs1
  have hsqrt0 := Real.sqrt_nonneg s
  have hscore : c.computeScore rs true
      = (GoFloat.fin ((1 - (m + √s) / 2) * maxPriority + 1 / 2) : GoFloat ℝ).toInt := by
    simp [Context.computeScore, hm, hs, GoFloat.sqrt, not_lt.mpr hs0, GoFloat.div_fin]
  obtain ⟨hint, hrange⟩ := GoFloat.toInt_fin (K := ℝ) (m := maxPriority)
    (x := (1 - (m + √s) / 2) * maxPriority + 1 / 2) (by norm_num [maxPriority]; linarith)
    (by norm_num [maxPriority]; linarith) (by decide)
  rw [hscore, hint]
  exact hrange

/-- Without a mean or a deviation, the balancing score is out of range. -/
lemma Context.computeScore_balance_nan {rs : ResourceStats ℝ}
    (h : (rs.usedAvg + rs.demand) / rs.capacity = .nan ∨ rs.usedStdev / rs.capacity = .nan) :
    c.computeScore rs true = -2 ^ 63 := by
  rcases h with h | h
  · simp [Context.computeScore, getMuSigma, h]
  · simp [Context.computeScore, getMuSigma, h, GoFloat.sqrt]

/-- For every resource with statistics, the scorer divides by numbers other than
zero and stays within its range exactly when the node can allocate some of the
resource and, for the balancing score, the annotations are numbers, for the other
one, the percentile is not set to zero. -/
theorem Context.score_safe_iff (hc : c.IsDistribution) (kind : ResourceKind) (node : NodeObject)
    (pod : Pod) (isBalance : Bool) {rs : ResourceStats ℝ}
    (hrs : c.resourceStats kind node (getResourceRequest pod) = some rs) :
    c.ScoreSafe rs isBalance ↔ c.ScoreCondition kind node isBalance := by
  have hcapacity : rs.capacity = .fin 0 ↔ kind.allocatable node = 0 := by
    have hrs' := hrs
    rw [c.resourceStats_eq, Option.map_eq_some_iff] at hrs'
    obtain ⟨freeAvg, -, rfl⟩ := hrs'
    simp [kind.factor_pos.ne']
  by_cases hne : kind.allocatable node = 0
  · -- both divisions of `getMuSigma` are by zero
    refine ⟨fun h => absurd (hcapacity.mpr hne) (h.1 rs.capacity ?_), fun h => absurd hne h.1⟩
    simp [Context.divisors]
  · have hcap : rs.capacity ≠ .fin 0 := mt hcapacity.mp hne
    cases isBalance with
    | true =>
        have hdivisors : ∀ d ∈ c.divisors rs true, d ≠ .fin 0 := by
          simp [Context.divisors, hcap]
        rw [Context.ScoreCondition, if_pos rfl, ← Context.getMuSigma_number_iff hrs hne]
        obtain ⟨hmu, hsigma⟩ := getMuSigma_cases rs
        constructor
        · intro h
          refine ⟨hne, ?_⟩
          by_contra hnan
          have hscore := Context.computeScore_balance_nan (c := c)
            (or_iff_not_and_not.mpr hnan)
          have hpos := h.2.1
          rw [hscore] at hpos
          exact absurd hpos (by decide)
        · rintro ⟨-, hnumber⟩
          exact ⟨hdivisors, Context.computeScore_balance (hmu.resolve_left hnumber.1)
            (hsigma.resolve_left hnumber.2)⟩
    | false =>
        have hzero : c.getSafePercentile ≠ 0 ↔ parseIntChecked c.safePercentile ≠ .ok 0 :=
          not_congr c.getSafePercentile_eq_zero_iff
        rw [Context.ScoreCondition, if_neg Bool.false_ne_true, ← hzero]
        constructor
        · intro h
          have hpercentile := h.1 (.fin c.getSafePercentile) (by simp [Context.divisors])
          exact ⟨hne, fun h0 => hpercentile (by rw [h0])⟩
        · rintro ⟨-, hpercentile⟩
          have hpos : 0 < c.getSafePercentile :=
            lt_of_le_of_ne c.getSafePercentile_mem.1 (Ne.symm hpercentile)
          obtain ⟨r, hr0, -, hr⟩ := Context.computeRisk_inUnit hc rs
          refine ⟨?_, (Context.computeScore_overload hr hr0 hpos).2⟩
          simp [Context.divisors, hcap, hpercentile]

theorem Context.score_safe_iff_fullNode :
    ∃ rs, constantContext.resourceStats .cpu fullNode (getResourceRequest (cpuPod 1)) = some rs
      ∧ constantContext.ScoreSafe rs false := by
  obtain ⟨rs, hrs⟩ := Option.isSome_iff_exists.mp
    (resourceStats_fullNode_isSome .cpu (getResourceRequest (cpuPod 1)))
  refine ⟨rs, hrs, ?_⟩
  rw [Context.score_safe_iff constantContext_isDistribution .cpu fullNode (cpuPod 1) false hrs]
  have hset : parseIntChecked "" ≠ .ok 0 := by decide
  exact ⟨by decide, hset⟩

/-- Settings with a percentile of zero. -/
noncomputable def zeroContext : Context ℝ := { constantContext with safePercentile := "0" }

/-- Everything is free. -/
def idleNode : NodeObject := annotatedNode 1 [("mean-free-cpu", "1000"), ("std-free-cpu", "0")]

/-- With a percentile of zero, a node without risk is scored by the quotient of
two zeros. -/
theorem Context.zero_percentile_score :
    zeroContext.IsDistribution ∧ parseIntChecked zeroContext.safePercentile = .ok 0
      ∧ ∃ rs, zeroContext.resourceStats .cpu idleNode (getResourceRequest (cpuPod 0)) = some rs
        ∧ zeroContext.computeScore rs false = -2 ^ 63 ∧ ¬zeroContext.ScoreSafe rs false := by
  have hset : parseIntChecked zeroContext.safePercentile = .ok 0 := by
    have hzero : parseIntChecked "0" = .ok 0 := by decide
    exact hzero
  have hpercentile : zeroContext.getSafePercentile = 0 :=
    zeroContext.getSafePercentile_eq_zero_iff.mpr hset
  have hstats := Context.getCPUStats_of_integers (c := zeroContext) rfl idleNode ⟨0, 0⟩
    1000 0 (by decide) (by decide) (by decide)
  have hcapacity : idleNode.allocatable.cpu.milliValue = 1000 := rfl
  have hscore : ∀ rs, zeroContext.getCPUStats idleNode ⟨0, 0⟩ = some rs →
      zeroContext.computeScore rs false = -2 ^ 63 := by
    intro rs hrs
    rw [hstats, hcapacity, Option.some.injEq] at hrs
    subst hrs
    simp [Context.computeScore, getMuSigma, Context.computeRank, hpercentile, GoFloat.div_fin,
      GoFloat.sqrt]
  refine ⟨constantContext_isDistribution, hset, _, hstats, hscore _ hstats, fun h => ?_⟩
  have hpos := h.2.1
  rw [hscore _ hstats] at hpos
  exact absurd hpos (by decide)

end KubeSafeScheduler.Safe
