import KubeSafeScheduler.Pigeon.Requests
import KubeSafeScheduler.Safe.Stats

/-!
One pod and the two agents: `getPodResourceRequested` of `pigeon/adapter.go` and
`getResourceRequest` of `safe/stats.go`.

* `PodSpec`: the requests of the containers and init containers of a pod, with
  the views that the two agents have of it.
* `PodSpec.effective`: the larger of the sum over the containers and the largest
  request of an init container; `getResourceRequest_eq`: what the safe agent
  computes.
* `totalsAgree_iff`: the pigeon agent agrees exactly for pods without an init
  container that asks for more than all containers together.
-/

namespace KubeSafeScheduler.Safe

open Pigeon (Quantity ResourceList getPodResourceRequested)

/-- `v1.PodSpec`: the request maps of the containers. -/
structure PodSpec where
  uid : String := ""
  containers : List (StringMap Quantity)
  initContainers : List (StringMap Quantity)

/-- `Memory()` and its like: a missing entry is the zero quantity. -/
def resourceListOf (requests : StringMap Quantity) : ResourceList where
  cpu := (requests.get "cpu").getD .zero
  memory := (requests.get "memory").getD .zero
  pods := (requests.get "pods").getD .zero
  gpu := (requests.get "gpu").getD .zero
  storageEphemeral := (requests.get "ephemeral-storage").getD .zero

/-- The entries of a request map that the safe agent reads. -/
def requestsOf (requests : StringMap Quantity) : Requests where
  cpu := requests.get "cpu"
  memory := requests.get "memory"

/-- The pod as the pigeon agent reads it. -/
def PodSpec.pigeonPod (pod : PodSpec) : Pigeon.Pod where
  uid := pod.uid
  containers := pod.containers.map resourceListOf

/-- The pod as the safe agent reads it. -/
def PodSpec.safePod (pod : PodSpec) : Pod where
  containers := pod.containers.map requestsOf
  initContainers := pod.initContainers.map requestsOf

/-! ### The effective request -/

/-- The amount of one entry of a request map, zero when it is missing. -/
def amountOf (key : String) (amount : Quantity → ℤ) (requests : StringMap Quantity) : ℤ :=
  ((requests.get key).map amount).getD 0

/-- The sum over the containers, as a number of 64 bits. -/
def PodSpec.containerSum (pod : PodSpec) (key : String) (amount : Quantity → ℤ) : ℤ :=
  toInt64 (pod.containers.map (amountOf key amount)).sum

/-- The requests of the init containers that have one. -/
def PodSpec.initRequests (pod : PodSpec) (key : String) (amount : Quantity → ℤ) : List ℤ :=
  pod.initContainers.filterMap fun requests => (requests.get key).map amount

/-- The larger of the sum over the containers and the largest request of an init
container. -/
def PodSpec.effective (pod : PodSpec) (key : String) (amount : Quantity → ℤ) : ℤ :=
  (pod.initRequests key amount).foldl max (pod.containerSum key amount)

lemma foldl_max_le_iff (l : List ℤ) (s t : ℤ) : l.foldl max s ≤ t ↔ s ≤ t ∧ ∀ x ∈ l, x ≤ t := by
  induction l generalizing s with
  | nil => simp
  | cons a l ih => rw [List.foldl_cons, ih, max_le_iff, and_assoc, List.forall_mem_cons]

lemma foldl_max_eq_self_iff (l : List ℤ) (s : ℤ) : l.foldl max s = s ↔ ∀ x ∈ l, x ≤ s := by
  have hle := ((foldl_max_le_iff l s _).mp le_rfl).1
  constructor
  · intro h
    exact ((foldl_max_le_iff l s s).mp h.le).2
  · intro h
    exact le_antisymm ((foldl_max_le_iff l s s).mpr ⟨le_rfl, h⟩) hle

/-! ### The pigeon agent -/

lemma pigeonPod_sum (pod : PodSpec) {amount : ResourceList → ℤ} {key : String}
    {amount' : Quantity → ℤ}
    (h : ∀ requests, amount (resourceListOf requests) = amountOf key amount' requests) :
    toInt64 (pod.pigeonPod.sum amount) = pod.containerSum key amount' := by
  rw [Pigeon.Pod.sum, PodSpec.pigeonPod, List.map_map, PodSpec.containerSum]
  exact congrArg (fun l => toInt64 (List.sum l)) (List.map_congr_left fun requests _ => h requests)

lemma getPodResourceRequested_pigeonPod (pod : PodSpec) :
    (getPodResourceRequested pod.pigeonPod).milliCPU = pod.containerSum "cpu" Quantity.milliValue
      ∧ (getPodResourceRequested pod.pigeonPod).memory
        = pod.containerSum "memory" Quantity.value := by
  rw [Pigeon.getPodResourceRequested_milliCPU, Pigeon.getPodResourceRequested_memory]
  constructor <;> refine pigeonPod_sum pod fun requests => ?_
  · cases h : requests.get "cpu" <;> simp [resourceListOf, amountOf, h, Quantity.zero]
  · cases h : requests.get "memory" <;> simp [resourceListOf, amountOf, h, Quantity.zero]

/-! ### The safe agent -/

/-- A component of the result of the safe agent is the one of a request. -/
structure Tracks (total : Resource → ℤ) (key : String) (amount : Quantity → ℤ) : Prop where
  start : total ⟨0, 0⟩ = 0
  add : ∀ r requests, total (Resource.add r (requestsOf requests))
    = ((requests.get key).map fun q => toInt64 (total r + amount q)).getD (total r)
  raise : ∀ r requests, total (Resource.raise r (requestsOf requests))
    = ((requests.get key).map fun q => max (total r) (amount q)).getD (total r)

lemma tracks_milliCPU : Tracks Resource.milliCPU "cpu" Quantity.milliValue where
  start := rfl
  add := fun r requests => by
    cases h : requests.get "cpu" <;> simp [Resource.add, requestsOf, h]
  raise := fun r requests => by
    cases h : requests.get "cpu" <;> simp [Resource.raise, requestsOf, h, max_def_lt]

lemma tracks_memory : Tracks Resource.memory "memory" Quantity.value where
  start := rfl
  add := fun r requests => by
    cases h : requests.get "memory" <;> simp [Resource.add, requestsOf, h]
  raise := fun r requests => by
    cases h : requests.get "memory" <;> simp [Resource.raise, requestsOf, h, max_def_lt]

variable {total : Resource → ℤ} {key : String} {amount : Quantity → ℤ}

/-- The loop over the containers. -/
lemma Tracks.foldl_add (h : Tracks total key amount) (l : List (StringMap Quantity))
    {r : Resource} (hr : toInt64 (total r) = total r) :
    total ((l.map requestsOf).foldl Resource.add r)
      = toInt64 (total r + (l.map (amountOf key amount)).sum) := by
  induction l generalizing r with
  | nil => simpa using hr.symm
  | cons requests l ih =>
      have hstep : total (Resource.add r (requestsOf requests))
          = toInt64 (total r + amountOf key amount requests) := by
        rw [h.add, amountOf]
        cases requests.get key with
        | none => simpa using hr.symm
        | some q => rfl
      have hcut : toInt64 (total (Resource.add r (requestsOf requests)))
          = total (Resource.add r (requestsOf requests)) := by
        rw [hstep, toInt64_toInt64]
      rw [List.map_cons, List.foldl_cons, ih hcut, hstep, toInt64_toInt64_add, List.map_cons,
        List.sum_cons, add_assoc]

/-- The loop over the init containers. -/
lemma Tracks.foldl_raise (h : Tracks total key amount) (l : List (StringMap Quantity))
    (r : Resource) :
    total ((l.map requestsOf).foldl Resource.raise r)
      = (l.filterMap fun requests => (requests.get key).map amount).foldl max (total r) := by
  induction l generalizing r with
  | nil => rfl
  | cons requests l ih =>
      rw [List.map_cons, List.foldl_cons, ih, h.raise]
      cases hget : requests.get key with
      | none => rw [List.filterMap_cons_none (by rw [hget]; rfl)]; rfl
      | some q => rw [List.filterMap_cons_some (by rw [hget]; rfl)]; rfl

/-- The safe agent computes the effective request. -/
lemma Tracks.getResourceRequest (h : Tracks total key amount) (pod : PodSpec) :
    total (Safe.getResourceRequest pod.safePod) = pod.effective key amount := by
  have hzero : toInt64 (total ⟨0, 0⟩) = total ⟨0, 0⟩ := by
    rw [h.start]
    rfl
  rw [Safe.getResourceRequest, PodSpec.safePod, h.foldl_raise, h.foldl_add _ hzero, h.start,
    zero_add]
  rfl

/-! ### Agreement -/

/-- The two agents compute the same CPU and memory totals, the effective
requests. -/
structure TotalsAgree (pod : PodSpec) : Prop where
  milliCPU_eq : (getPodResourceRequested pod.pigeonPod).milliCPU
    = (getResourceRequest pod.safePod).milliCPU
  memory_eq : (getPodResourceRequested pod.pigeonPod).memory
    = (getResourceRequest pod.safePod).memory
  milliCPU_effective : (getPodResourceRequested pod.pigeonPod).milliCPU
    = pod.effective "cpu" Quantity.milliValue
  memory_effective : (getPodResourceRequested pod.pigeonPod).memory
    = pod.effective "memory" Quantity.value

/-- The two agents agree exactly when no init container asks for more CPU or
memory than all containers together. -/
theorem totalsAgree_iff (pod : PodSpec) :
    TotalsAgree pod ↔
      (∀ x ∈ pod.initRequests "cpu" Quantity.milliValue,
          x ≤ pod.containerSum "cpu" Quantity.milliValue)
        ∧ ∀ x ∈ pod.initRequests "memory" Quantity.value,
          x ≤ pod.containerSum "memory" Quantity.value := by
  obtain ⟨hpcpu, hpmemory⟩ := getPodResourceRequested_pigeonPod pod
  have hscpu := tracks_milliCPU.getResourceRequest pod
  have hsmemory := tracks_memory.getResourceRequest pod
  rw [← foldl_max_eq_self_iff, ← foldl_max_eq_self_iff]
  constructor
  · intro h
    exact ⟨h.milliCPU_effective.symm.trans hpcpu, h.memory_effective.symm.trans hpmemory⟩
  · rintro ⟨hcpu, hmemory⟩
    have hcpu' := hpcpu.trans hcpu.symm
    have hmemory' := hpmemory.trans hmemory.symm
    exact ⟨hcpu'.trans hscpu.symm, hmemory'.trans hsmemory.symm, hcpu', hmemory'⟩

/-- A pod whose container asks for one CPU and whose init container asks for
two. -/
def initPod : PodSpec where
  containers := [(∅ : StringMap Quantity).insert "cpu" (.units 1)]
  initContainers := [(∅ : StringMap Quantity).insert "cpu" (.units 2)]

theorem not_totalsAgree_initPod : ¬ TotalsAgree initPod := by
  intro h
  have hcpu := h.milliCPU_eq
  revert hcpu
  decide

end KubeSafeScheduler.Safe
