import KubeSafeScheduler.Lib.GoFloat
import KubeSafeScheduler.Pigeon.Adapter

/-!
`safe/stats.go` with the fit of `beta/betaDist.go`: from the annotations of a
node to the probability that its utilization stays below a limit.

Numbers of type `float64` are `GoFloat`. What the functions take from outside is
a `Context`: the environment variables, `strconv.ParseFloat`, and the Beta
distribution function. The texts that go to the log are left out.

* `getResourceRequest`: the CPU and the memory that a pod asks for.
* `Context.getMemoryStats`, `getCPUStats`: the usage of a node, when annotated.
* `getMuSigma`: mean and deviation of the utilization, in the unit interval or
  not a number (`getMuSigma_cases`).
* `Context.computeRank`: always in the unit interval (`computeRank_inUnit`).
-/

namespace KubeSafeScheduler.Safe

open Pigeon (Quantity NodeObject parseIntChecked)

/-! ### Requests of a pod -/

/-- The requests of a container: the entries that the code reads, when
listed. -/
structure Requests where
  cpu : Option Quantity := none
  memory : Option Quantity := none

/-- `v1.Pod`: its containers. -/
structure Pod where
  containers : List Requests
  initContainers : List Requests := []

/-- `schedulercache.Resource`: CPU and memory. -/
structure Resource where
  milliCPU : ℤ
  memory : ℤ
  deriving DecidableEq

/-- `Resource.Add`. -/
def Resource.add (r : Resource) (requests : Requests) : Resource where
  milliCPU := match requests.cpu with
    | some q => toInt64 (r.milliCPU + q.milliValue)
    | none => r.milliCPU
  memory := match requests.memory with
    | some q => toInt64 (r.memory + q.value)
    | none => r.memory

/-- One round of the loop over the init containers: the larger request. -/
def Resource.raise (r : Resource) (requests : Requests) : Resource where
  milliCPU := match requests.cpu with
    | some q => if r.milliCPU < q.milliValue then q.milliValue else r.milliCPU
    | none => r.milliCPU
  memory := match requests.memory with
    | some q => if r.memory < q.value then q.value else r.memory
    | none => r.memory

/-- `getResourceRequest`. -/
def getResourceRequest (pod : Pod) : Resource :=
  pod.initContainers.foldl Resource.raise (pod.containers.foldl Resource.add ⟨0, 0⟩)

/-! ### Settings -/

/-- What the functions of the package take from outside: three environment
variables, empty when not set; `strconv.ParseFloat`, `none` in case of error;
`RegularizedIncomplete(x, alpha, beta)`. -/
structure Context (K : Type*) where
  safeUtilization : String := ""
  safePercentile : String := ""
  safeForecastWeight : String := ""
  parseFloat : String → Option (GoFloat K)
  regularizedIncomplete : GoFloat K → GoFloat K → GoFloat K → GoFloat K

variable {K : Type*} [Field K]

/-- Hundredths. -/
def percent (n : ℤ) : K := n / ((100 : ℤ) : K)

@[simp] lemma percent_eq (n : ℤ) : (percent n : K) = n / 100 := by
  simp [percent]

/-- A percentage among the environment variables: an integer from 0 to 100, else
the default. -/
def getPercentage (default : K) (value : String) : K :=
  if 0 < value.length then
    match parseIntChecked value with
    | .ok v => if 0 ≤ v ∧ v ≤ 100 then percent v else default
    | .error _ => default
  else default

/-- A percentage is the default or a hundredth of an integer between 0 and 100. -/
lemma getPercentage_cases (default : K) (value : String) :
    getPercentage default value = default
      ∨ ∃ v : ℤ, 0 ≤ v ∧ v ≤ 100 ∧ parseIntChecked value = .ok v
        ∧ getPercentage default value = v / 100 := by
  unfold getPercentage
  split_ifs with hlen
  · split
    · rename_i v hv
      split_ifs with hrange
      · exact .inr ⟨v, hrange.1, hrange.2, hv, percent_eq v⟩
      · exact .inl rfl
    · exact .inl rfl
  · exact .inl rfl

/-- `getSafeUtilization`. -/
def Context.getSafeUtilization (c : Context K) : K := getPercentage (percent 90) c.safeUtilization

/-- `getSafePercentile`. -/
def Context.getSafePercentile (c : Context K) : K := getPercentage (percent 30) c.safePercentile

/-- `getForecastWeight`. -/
def Context.getForecastWeight (c : Context K) : K := getPercentage (percent 20) c.safeForecastWeight

/-! ### Statistics of a node -/

variable [LinearOrder K]

/-- `resourceStats`. -/
structure ResourceStats (K : Type*) where
  usedAvg : GoFloat K
  usedStdev : GoFloat K
  demand : GoFloat K
  capacity : GoFloat K

/-- An annotation of a node; a missing one reads as the empty string. -/
def annotationOf (node : NodeObject) (key : String) : String := (node.annotations.get key).getD ""

/-- The mean of the free amount, weighted with its forecast when there is one. -/
def Context.weightedFree (c : Context K) (freeAvg : GoFloat K) (forecast : String) : GoFloat K :=
  match c.parseFloat forecast with
  | some freeForecastAvg =>
      if 0 < forecast.length then
        (.fin 1 - .fin c.getForecastWeight) * freeAvg + .fin c.getForecastWeight * freeForecastAvg
      else freeAvg
  | none => freeAvg

/-- The weighted mean of `freeAvg` and a forecast is a number: both are, they are
not opposite infinities, and neither is an infinity of weight zero. -/
def WeighsToNumber (weight : K) (freeAvg freeForecastAvg : GoFloat K) : Prop :=
  freeForecastAvg ≠ .nan
    ∧ (∀ s, freeAvg = .inf s → weight ≠ 1 ∧ freeForecastAvg ≠ .inf !s)
    ∧ (∀ s, freeForecastAvg = .inf s → weight ≠ 0)

/-- The common part of `getMemoryStats` and `getCPUStats`: the keys of the
annotations, the change of unit, the allocatable amount and the request are
those of the resource. -/
def Context.getStats (c : Context K) (meanKey stdKey forecastKey : String)
    (scale : GoFloat K → GoFloat K) (allocatable request : ℤ) (node : NodeObject) :
    Option (ResourceStats K) :=
  match c.parseFloat (annotationOf node meanKey) with
  | none => none
  | some freeAvg =>
      let freeStdev := (c.parseFloat (annotationOf node stdKey)).getD (.fin 0)
      let freeAvg := scale (c.weightedFree freeAvg (annotationOf node forecastKey))
      let freeStdev := scale freeStdev
      let capacity := scale (.fin allocatable)
      some {
        capacity := capacity
        demand := scale (.fin request)
        usedAvg := (capacity - freeAvg).max (.fin 0)
        usedStdev := freeStdev }

/-- From bytes to MiB. -/
def megaFactor : K := 1 / 1024 / 1024

/-- `getMemoryStats`. -/
def Context.getMemoryStats (c : Context K) (node : NodeObject) (podRequest : Resource) :
    Option (ResourceStats K) :=
  c.getStats "mean-free-memory" "std-free-memory" "forcasted-free-memory"
    (· * .fin megaFactor) node.allocatable.memory.value podRequest.memory node

/-- `getCPUStats`. -/
def Context.getCPUStats (c : Context K) (node : NodeObject) (podRequest : Resource) :
    Option (ResourceStats K) :=
  c.getStats "mean-free-cpu" "std-free-cpu" "forcasted-free-cpu"
    id node.allocatable.cpu.milliValue podRequest.milliCPU node

/-! ### Both resources -/

/-- The two resources that the package looks at. -/
inductive ResourceKind where
  | cpu
  | memory
  deriving DecidableEq

namespace ResourceKind

/-- The key of the mean of the free amount. -/
def meanKey : ResourceKind → String
  | cpu => "mean-free-cpu"
  | memory => "mean-free-memory"

/-- The key of the deviation of the free amount. -/
def stdKey : ResourceKind → String
  | cpu => "std-free-cpu"
  | memory => "std-free-memory"

/-- The key of the forecast of the free amount. -/
def forecastKey : ResourceKind → String
  | cpu => "forcasted-free-cpu"
  | memory => "forcasted-free-memory"

/-- The amount that a node can allocate. -/
def allocatable : ResourceKind → NodeObject → ℤ
  | cpu, node => node.allocatable.cpu.milliValue
  | memory, node => node.allocatable.memory.value

/-- The amount that a pod asks for. -/
def request : ResourceKind → Resource → ℤ
  | cpu, r => r.milliCPU
  | memory, r => r.memory

/-- The unit of the statistics. -/
def factor : ResourceKind → K
  | cpu => 1
  | memory => megaFactor

end ResourceKind

/-- The statistics of a resource. -/
def Context.resourceStats (c : Context K) :
    ResourceKind → NodeObject → Resource → Option (ResourceStats K)
  | .cpu => c.getCPUStats
  | .memory => c.getMemoryStats

/-! ### Utilization and rank -/

/-- `getMuSigma`. -/
def getMuSigma (rs : ResourceStats K) : GoFloat K × GoFloat K :=
  (((rs.usedAvg + rs.demand) / rs.capacity).clamp, (rs.usedStdev / rs.capacity).clamp)

/-- `math.SmallestNonzeroFloat64`. -/
def smallestNonzeroFloat64 : K := 1 / ((2 ^ 1074 : ℕ) : K)

/-- `MatchMoments`: the shape parameters of the Beta distribution with the given
moments. -/
def matchMoments (m1 m2 : GoFloat K) : Option (GoFloat K × GoFloat K) :=
  let variance := m2 - m1 * m1
  if m1.lt (.fin 0) || (GoFloat.fin 1).lt m1 || variance.lt (.fin 0)
      || (m1 * (.fin 1 - m1)).le variance then none
  else
    let temp := (m1 * (.fin 1 - m1) / variance - .fin 1).max (.fin smallestNonzeroFloat64)
    some (m1 * temp, (.fin 1 - m1) * temp)

/-- `computeRank`: the probability that the utilization is at most the
threshold. -/
def Context.computeRank (c : Context K) (mu sigma threshold : GoFloat K) : GoFloat K :=
  if mu.eq (.fin 0) || (sigma.eq (.fin 0) && mu.le threshold) then .fin 1
  else if sigma.eq (.fin 0) && threshold.lt mu then .fin 0
  else
    match matchMoments mu (sigma * sigma + mu * mu) with
    | none => .fin 0
    | some (alpha, beta) =>
        let belowLimit := c.regularizedIncomplete threshold alpha beta
        if belowLimit.isNaN then .fin 1 else belowLimit

/-! ### Ranges -/

/-- The distribution function gives a number between zero and one, or none. -/
def Context.IsDistribution (c : Context K) : Prop :=
  ∀ x alpha beta, c.regularizedIncomplete x alpha beta = .nan
    ∨ (c.regularizedIncomplete x alpha beta).InUnit

variable [IsStrictOrderedRing K]

lemma getPercentage_mem {default : K} (h0 : 0 ≤ default) (h1 : default ≤ 1) (value : String) :
    0 ≤ getPercentage default value ∧ getPercentage default value ≤ 1 := by
  obtain h | ⟨v, hv0, hv1, -, h⟩ := getPercentage_cases default value
  · rw [h]
    exact ⟨h0, h1⟩
  · have hv0' : (0 : K) ≤ v := Int.cast_nonneg hv0
    have hv1' : (v : K) ≤ 100 := by exact_mod_cast hv1
    rw [h]
    exact ⟨by positivity, (div_le_one (by norm_num)).mpr hv1'⟩

lemma Context.getSafeUtilization_mem (c : Context K) :
    0 ≤ c.getSafeUtilization ∧ c.getSafeUtilization ≤ 1 :=
  getPercentage_mem (by norm_num) (by norm_num) _

lemma Context.getSafePercentile_mem (c : Context K) :
    0 ≤ c.getSafePercentile ∧ c.getSafePercentile ≤ 1 :=
  getPercentage_mem (by norm_num) (by norm_num) _

lemma Context.getForecastWeight_mem (c : Context K) :
    0 ≤ c.getForecastWeight ∧ c.getForecastWeight ≤ 1 :=
  getPercentage_mem (by norm_num) (by norm_num) _

/-- The percentile is zero only when it is set to zero. -/
lemma Context.getSafePercentile_eq_zero_iff (c : Context K) :
    c.getSafePercentile = 0 ↔ parseIntChecked c.safePercentile = .ok 0 := by
  constructor
  · intro h
    obtain h' | ⟨v, -, -, hv, h'⟩ := getPercentage_cases (percent 30 : K) c.safePercentile
    · have hne : (percent 30 : K) ≠ 0 := by norm_num
      exact absurd (h'.symm.trans h) hne
    · have hdiv : (v : K) / 100 = 0 := h'.symm.trans h
      have hv0 : v = 0 := by simpa using hdiv
      rw [hv, hv0]
  · intro h
    have hlen : 0 < c.safePercentile.length := by
      by_contra hlen
      have hempty : c.safePercentile = "" := by
        rw [← String.length_eq_zero_iff]
        omega
      rw [hempty] at h
      exact absurd h (by decide)
    simp [Context.getSafePercentile, getPercentage, hlen, h]

lemma ResourceKind.factor_pos (kind : ResourceKind) : (0 : K) < kind.factor := by
  cases kind with
  | cpu => exact zero_lt_one
  | memory =>
      have h : (0 : K) < 1 / 1024 / 1024 := by norm_num
      exact h

/-- The statistics that the code reports, for either resource. -/
lemma Context.resourceStats_eq (c : Context K) (kind : ResourceKind) (node : NodeObject)
    (podRequest : Resource) :
    c.resourceStats kind node podRequest
      = (c.parseFloat (annotationOf node kind.meanKey)).map fun freeAvg =>
          { capacity := .fin (kind.allocatable node * kind.factor)
            demand := .fin (kind.request podRequest * kind.factor)
            usedAvg := (.fin (kind.allocatable node * kind.factor)
              - c.weightedFree freeAvg (annotationOf node kind.forecastKey)
                * .fin kind.factor).max (.fin 0)
            usedStdev := (c.parseFloat (annotationOf node kind.stdKey)).getD (.fin 0)
              * .fin kind.factor } := by
  cases kind with
  | cpu =>
      have hone (x : GoFloat K) : x * .fin 1 = x := by
        cases x <;> simp [zero_le_one.not_gt]
      simp only [resourceStats, getCPUStats, getStats, ResourceKind.meanKey, ResourceKind.stdKey,
        ResourceKind.forecastKey, ResourceKind.allocatable, ResourceKind.request,
        ResourceKind.factor, hone, id, mul_one]
      cases c.parseFloat (annotationOf node "mean-free-cpu") <;> rfl
  | memory =>
      simp only [resourceStats, getMemoryStats, getStats]
      cases hmean : c.parseFloat (annotationOf node "mean-free-memory") <;>
        simp [hmean, ResourceKind.meanKey, ResourceKind.stdKey, ResourceKind.forecastKey,
          ResourceKind.allocatable, ResourceKind.request, ResourceKind.factor]

lemma weighted_eq_nan_iff {w : K} (h0 : 0 ≤ w) (h1 : w ≤ 1) {x : GoFloat K} (hx : x ≠ .nan)
    (y : GoFloat K) :
    (.fin 1 - .fin w) * x + .fin w * y = .nan ↔ ¬WeighsToNumber w x y := by
  have h1' : ¬(1 : K) - w < 0 := by linarith
  have hsub : (1 : K) - w = 0 ↔ w = 1 := ⟨fun h => by linarith, fun h => by linarith⟩
  cases x with
  | nan => exact absurd rfl hx
  | inf s =>
      cases y with
      | nan => simp [WeighsToNumber]
      | inf t =>
          by_cases hw0 : w = 0
          · simp [WeighsToNumber, hw0]
          · by_cases hw1 : w = 1
            · simp [WeighsToNumber, hw1]
            · cases s <;> cases t <;> simp [WeighsToNumber, hw0, hw1, hsub, h1', h0.not_gt]
      | fin y =>
          by_cases hw1 : w = 1
          · simp [WeighsToNumber, hw1]
          · simp [WeighsToNumber, hw1, hsub]
  | fin x =>
      cases y with
      | nan => simp [WeighsToNumber]
      | inf t =>
          by_cases hw0 : w = 0
          · simp [WeighsToNumber, hw0]
          · simp [WeighsToNumber, hw0]
      | fin y => simp [WeighsToNumber]

/-- There are statistics of a resource when its mean is annotated. -/
lemma Context.resourceStats_isSome (c : Context K) (kind : ResourceKind) (node : NodeObject)
    (podRequest : Resource) :
    (c.resourceStats kind node podRequest).isSome
      = (c.parseFloat (annotationOf node kind.meanKey)).isSome := by
  rw [c.resourceStats_eq, Option.isSome_map]

lemma getMuSigma_cases (rs : ResourceStats K) :
    ((rs.usedAvg + rs.demand) / rs.capacity = .nan ∨ (getMuSigma rs).1.InUnit)
      ∧ (rs.usedStdev / rs.capacity = .nan ∨ (getMuSigma rs).2.InUnit) :=
  ⟨GoFloat.clamp_cases _, GoFloat.clamp_cases _⟩

/-- The rank is a number between zero and one, whatever the moments. -/
lemma Context.computeRank_inUnit {c : Context K} (hc : c.IsDistribution)
    (mu sigma threshold : GoFloat K) : (c.computeRank mu sigma threshold).InUnit := by
  have h0 : (GoFloat.fin 0 : GoFloat K).InUnit := GoFloat.inUnit_fin le_rfl zero_le_one
  have h1 : (GoFloat.fin 1 : GoFloat K).InUnit := GoFloat.inUnit_fin zero_le_one le_rfl
  unfold Context.computeRank
  split_ifs with hone hzero
  · exact h1
  · exact h0
  · split
    · exact h0
    · rename_i alpha beta _
      dsimp only
      split_ifs with hnan
      · exact h1
      · exact (hc threshold alpha beta).resolve_left (by simpa [GoFloat.isNaN] using hnan)

/-! ### Integers among the annotations -/

/-- `strconv.ParseFloat` on the digits of an integer. -/
def parseInteger (s : String) : Option (GoFloat K) :=
  match parseIntChecked s with
  | .ok v => some (.fin v)
  | .error _ => none

/-- The statistics of a node whose annotations are integers. -/
lemma Context.getCPUStats_of_integers {c : Context K} (hparse : c.parseFloat = parseInteger)
    (node : NodeObject) (podRequest : Resource) (mean std : ℤ)
    (hmean : parseIntChecked (annotationOf node "mean-free-cpu") = .ok mean)
    (hstd : parseIntChecked (annotationOf node "std-free-cpu") = .ok std)
    (hforecast : annotationOf node "forcasted-free-cpu" = "") :
    c.getCPUStats node podRequest = some
      { capacity := .fin node.allocatable.cpu.milliValue
        demand := .fin podRequest.milliCPU
        usedAvg := .fin (max (node.allocatable.cpu.milliValue - mean) 0)
        usedStdev := .fin std } := by
  have hempty : parseIntChecked "" = .error .errSyntax := by decide
  simp only [Context.getCPUStats, Context.getStats, Context.weightedFree, hparse, hforecast,
    parseInteger, hmean, hstd, hempty, id, GoFloat.sub_fin, GoFloat.max_fin, Option.getD]

end KubeSafeScheduler.Safe
