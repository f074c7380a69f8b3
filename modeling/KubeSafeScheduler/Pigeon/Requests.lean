import KubeSafeScheduler.Pigeon.Adapter

/-!
What `getPodResourceRequested` of `pigeon/adapter.go` adds up.

* `getPodResourceRequested_milliCPU`, `_memory`, `_storage`: the sums over the
  containers, as numbers of 64 bits.
* `getPodResourceRequested_gpu`: the flag of `AsInt64` is read the wrong way
  round, so that the GPUs are always zero.
* `requestedRight_iff`: the totals are the sums exactly for pods whose GPU
  requests sum to zero.
-/

namespace KubeSafeScheduler.Pigeon

/-- The sum of an amount over the containers of a pod. -/
def Pod.sum (pod : Pod) (amount : ResourceList → ℤ) : ℤ := (pod.containers.map amount).sum

/-- A sum fits a number of 64 bits. -/
def InInt64 (x : ℤ) : Prop := -2 ^ 63 ≤ x ∧ x < 2 ^ 63

instance (x : ℤ) : Decidable (InInt64 x) := inferInstanceAs (Decidable (_ ∧ _))

/-! ### The totals -/

/-- A total that grows by an amount with every container is the sum. -/
lemma foldl_addContainer (total : ResourceRequested → ℤ) (amount : ResourceList → ℤ)
    (hstep : ∀ r c, total (addContainer r c) = toInt64 (total r + amount c))
    (containers : List ResourceList) {r : ResourceRequested} (hr : total r = 0) :
    total (containers.foldl addContainer r) = toInt64 (containers.map amount).sum := by
  have hhom : containers.foldl (fun s c => toInt64 (s + amount c)) (total r)
      = total (containers.foldl addContainer r) :=
    List.foldl_hom total fun r c => (hstep r c).symm
  rw [← hhom, foldl_toInt64_add _ _ (by rw [hr]; rfl), hr, zero_add]

lemma getPodResourceRequested_milliCPU (pod : Pod) :
    (getPodResourceRequested pod).milliCPU = toInt64 (pod.sum fun c => c.cpu.milliValue) :=
  foldl_addContainer ResourceRequested.milliCPU _ (fun _ _ => rfl) _ rfl

lemma getPodResourceRequested_memory (pod : Pod) :
    (getPodResourceRequested pod).memory = toInt64 (pod.sum fun c => c.memory.value) :=
  foldl_addContainer ResourceRequested.memory _ (fun _ _ => rfl) _ rfl

lemma getPodResourceRequested_storage (pod : Pod) :
    (getPodResourceRequested pod).storage = toInt64 (pod.sum fun c => c.storageEphemeral.value) :=
  foldl_addContainer ResourceRequested.storage _ (fun _ _ => rfl) _ rfl

/-- A request for GPUs is added when it is not an integer, and then it reads as
zero. -/
lemma gpu_foldl_addContainer {containers : List ResourceList} {r : ResourceRequested}
    (hr : r.gpu = 0)
    (hok : ∀ c ∈ containers, c.gpu.asInt64.2 = false → c.gpu.asInt64.1 = 0) :
    (containers.foldl addContainer r).gpu = 0 := by
  induction containers generalizing r with
  | nil => exact hr
  | cons c containers ih =>
      refine ih ?_ fun c' hc' => hok c' (List.mem_cons_of_mem _ hc')
      cases hflag : c.gpu.asInt64.2 with
      | false =>
          have h0 := hok c List.mem_cons_self hflag
          simp only [addContainer, hflag, h0, hr]
          rfl
      | true => simpa [addContainer, hflag] using hr

lemma getPodResourceRequested_gpu {pod : Pod}
    (hok : ∀ c ∈ pod.containers, c.gpu.asInt64.2 = false → c.gpu.asInt64.1 = 0) :
    (getPodResourceRequested pod).gpu = 0 :=
  gpu_foldl_addContainer rfl hok

/-! ### When they are the sums -/

/-- The totals of a pod are the sums over its containers. -/
structure RequestedRight (pod : Pod) : Prop where
  milliCPU_eq : (getPodResourceRequested pod).milliCPU = pod.sum fun c => c.cpu.milliValue
  memory_eq : (getPodResourceRequested pod).memory = pod.sum fun c => c.memory.value
  gpu_eq : (getPodResourceRequested pod).gpu = pod.sum fun c => c.gpu.value
  storage_eq : (getPodResourceRequested pod).storage = pod.sum fun c => c.storageEphemeral.value

/-- The sums of a pod fit numbers of 64 bits. -/
structure SumsInInt64 (pod : Pod) : Prop where
  milliCPU : InInt64 (pod.sum fun c => c.cpu.milliValue)
  memory : InInt64 (pod.sum fun c => c.memory.value)
  gpu : InInt64 (pod.sum fun c => c.gpu.value)
  storage : InInt64 (pod.sum fun c => c.storageEphemeral.value)

/-- The totals are the sums over the containers exactly when the requests for
GPUs sum to zero; where none is negative, when every container asks for none. -/
theorem requestedRight_iff {pod : Pod} (hsums : SumsInInt64 pod)
    (hok : ∀ c ∈ pod.containers, c.gpu.asInt64.2 = false → c.gpu.asInt64.1 = 0) :
    (RequestedRight pod ↔ (pod.sum fun c => c.gpu.value) = 0)
      ∧ ((∀ c ∈ pod.containers, 0 ≤ c.gpu.value) →
        (RequestedRight pod ↔ ∀ c ∈ pod.containers, c.gpu.value = 0)) := by
  have hgpu := getPodResourceRequested_gpu hok
  have hiff : RequestedRight pod ↔ (pod.sum fun c => c.gpu.value) = 0 := by
    constructor
    · intro h
      rw [← h.gpu_eq, hgpu]
    · intro h
      exact
        { milliCPU_eq := by
            rw [getPodResourceRequested_milliCPU,
              toInt64_of_range hsums.milliCPU.1 hsums.milliCPU.2]
          memory_eq := by
            rw [getPodResourceRequested_memory, toInt64_of_range hsums.memory.1 hsums.memory.2]
          gpu_eq := by rw [hgpu, h]
          storage_eq := by
            rw [getPodResourceRequested_storage, toInt64_of_range hsums.storage.1 hsums.storage.2] }
  refine ⟨hiff, fun hnonneg => hiff.trans ?_⟩
  constructor
  · intro hsum c hc
    refine List.all_zero_of_le_zero_le_of_sum_eq_zero (fun x hx => ?_) hsum
      (List.mem_map.mpr ⟨c, hc, rfl⟩)
    obtain ⟨c', hc', rfl⟩ := List.mem_map.mp hx
    exact hnonneg c' hc'
  · intro hzero
    rw [Pod.sum, List.map_congr_left hzero]
    exact List.sum_map_zero

/-- A pod with a container that asks for `n` GPUs and one that asks for none. -/
def gpuPod (n : ℤ) : Pod where
  uid := "pod"
  containers := [{ cpu := Quantity.units 1, gpu := Quantity.units n },
    { memory := Quantity.units (2 ^ 28) }]

theorem requestedRight_iff_gpuPod :
    SumsInInt64 (gpuPod 0) ∧ RequestedRight (gpuPod 0) := by
  have hsums : SumsInInt64 (gpuPod 0) := by
    constructor <;> decide
  exact ⟨hsums, (requestedRight_iff hsums (by decide)).1.mpr (by decide)⟩

/-- Two GPUs are not counted. -/
theorem not_requestedRight_gpuPod : ¬ RequestedRight (gpuPod 2) := by
  intro h
  have hgpu := h.gpu_eq
  revert hgpu
  decide

end KubeSafeScheduler.Pigeon
