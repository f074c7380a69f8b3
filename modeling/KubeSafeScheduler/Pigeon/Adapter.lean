import KubeSafeScheduler.Lib.Exact
import KubeSafeScheduler.Lib.StringMap
import KubeSafeScheduler.Pigeon.StateUpdater

/-!
`pigeon/adapter.go`: from Kubernetes objects to the numbers of the model.

A resource quantity is known by what the code reads of it, and a resource that
is not listed has the zero quantity. Numbers of the Go code are of 64 bits, and
`client.go` cuts them to 32 bits on the way to the C code.

* `parseInt`: `strconv.ParseInt` in base ten, its value also in case of error;
  `parseIntChecked`: the value or the error. Texts of digits are read
  (`parseIntChecked_toDigits`), and no others (`isDigit_of_parseIntChecked`).
* `getPodResourceRequested`, `makeNodeTemplate`, `createPodModel`.
* `fitTest`: the fit test on the PE and the LE that the C code makes of them.
* `fitTest_right_iff`: for which pods the fit test of the C code agrees, up to
  two units, with the amounts of the Kubernetes objects on every node.
-/

namespace KubeSafeScheduler.Pigeon

/-! ### Numbers in annotations -/

/-- The failures of `strconv.ParseUint`. -/
inductive NumError where
  | errSyntax
  | errRange
  deriving DecidableEq

/-- The loop of `strconv.ParseUint` in base ten: a number that leaves 64 bits is
out of range, whatever comes after. -/
def parseUintLoop (n : ℕ) : List Char → Except NumError ℕ
  | [] => .ok n
  | c :: cs =>
      if c.isDigit then
        let n := n * 10 + (c.toNat - '0'.toNat)
        if n < 2 ^ 64 then parseUintLoop n cs else .error .errRange
      else .error .errSyntax

/-- `strconv.ParseUint`: an empty string is a syntax error. -/
def parseUint (cs : List Char) : Except NumError ℕ :=
  if cs = [] then .error .errSyntax else parseUintLoop 0 cs

/-- The value of `strconv.ParseInt(s, 10, 64)`: zero after a syntax error, and
the nearest number of 64 bits when out of range. -/
def parseInt (s : String) : ℤ :=
  let (neg, digits) := match s.toList with
    | '-' :: cs => (true, cs)
    | '+' :: cs => (false, cs)
    | cs => (false, cs)
  let magnitude : Option ℕ := match parseUint digits with
    | .ok n => some n
    | .error .errRange => some (2 ^ 64 - 1)
    | .error .errSyntax => none
  match magnitude with
  | none => 0
  | some n =>
      if neg then if 2 ^ 63 < n then -2 ^ 63 else -n
      else if 2 ^ 63 ≤ n then 2 ^ 63 - 1 else n

/-- `strconv.ParseInt(s, 10, 64)` with its error. -/
def parseIntChecked (s : String) : Except NumError ℤ :=
  let (neg, digits) := match s.toList with
    | '-' :: cs => (true, cs)
    | '+' :: cs => (false, cs)
    | cs => (false, cs)
  match parseUint digits with
  | .error e => .error e
  | .ok n =>
      if neg then if 2 ^ 63 < n then .error .errRange else .ok (-n)
      else if 2 ^ 63 ≤ n then .error .errRange else .ok n

/-- Without an error, both readings of `strconv.ParseInt` agree. -/
lemma parseInt_eq_of_ok {s : String} {v : ℤ} (h : parseIntChecked s = .ok v) :
    parseInt s = v := by
  unfold parseIntChecked at h
  unfold parseInt
  split at h
  split at h
  · cases h
  · rename_i hn
    rw [hn]
    dsimp only
    split_ifs at h ⊢ <;> cases h <;> rfl

/-- A text of digits whose number has 64 bits is read as that number. -/
lemma parseUintLoop_digits {cs : List Char} (hcs : ∀ c ∈ cs, c.isDigit) (n : ℕ)
    (h : Nat.ofDigitChars 10 cs n < 2 ^ 64) :
    parseUintLoop n cs = .ok (Nat.ofDigitChars 10 cs n) := by
  induction cs generalizing n with
  | nil => rfl
  | cons c cs ih =>
      have hc : c.isDigit := hcs c List.mem_cons_self
      rw [Nat.ofDigitChars_cons, mul_comm 10] at h
      have hle : n * 10 + (c.toNat - '0'.toNat)
          ≤ Nat.ofDigitChars 10 cs (n * 10 + (c.toNat - '0'.toNat)) := by
        rw [Nat.ofDigitChars_eq_ofDigitChars_zero]
        have hpow : 1 ≤ 10 ^ cs.length := Nat.one_le_pow _ _ (by decide)
        calc n * 10 + (c.toNat - '0'.toNat)
            = 1 * (n * 10 + (c.toNat - '0'.toNat)) := (one_mul _).symm
          _ ≤ 10 ^ cs.length * (n * 10 + (c.toNat - '0'.toNat)) := Nat.mul_le_mul_right _ hpow
          _ ≤ 10 ^ cs.length * (n * 10 + (c.toNat - '0'.toNat)) + Nat.ofDigitChars 10 cs 0 :=
              Nat.le_add_right _ _
      rw [parseUintLoop, if_pos hc, if_pos (lt_of_le_of_lt hle h), Nat.ofDigitChars_cons,
        mul_comm 10]
      exact ih (fun c hc => hcs c (List.mem_cons_of_mem _ hc)) _ h

/-- Only digits are read without error. -/
lemma isDigit_of_parseUintLoop {cs : List Char} {n v : ℕ} (h : parseUintLoop n cs = .ok v) :
    ∀ c ∈ cs, c.isDigit := by
  induction cs generalizing n with
  | nil =>
      intro c hc
      cases hc
  | cons c cs ih =>
      unfold parseUintLoop at h
      by_cases hc : c.isDigit
      · rw [if_pos hc] at h
        dsimp only at h
        split_ifs at h with hlt
        intro c' hc'
        rcases List.mem_cons.mp hc' with rfl | hmem
        · exact hc
        · exact ih h c' hmem
      · rw [if_neg hc] at h
        cases h

/-- The decimal digits of a number of 64 bits. -/
lemma parseUint_toDigits {n : ℕ} (h : n < 2 ^ 64) : parseUint (Nat.toDigits 10 n) = .ok n := by
  have hdigits : ∀ c ∈ Nat.toDigits 10 n, c.isDigit := fun c hc =>
    Nat.isDigit_of_mem_toDigits (by decide) (by decide) hc
  have hvalue : Nat.ofDigitChars 10 (Nat.toDigits 10 n) 0 = n := Nat.ofDigitChars_ten_toDigits
  have hloop := parseUintLoop_digits hdigits 0 (by rwa [hvalue])
  rw [parseUint, if_neg Nat.toDigits_ne_nil, hloop, hvalue]

/-- Digits alone. -/
lemma parseIntChecked_toDigits {n : ℕ} (h : n < 2 ^ 63) :
    parseIntChecked (String.ofList (Nat.toDigits 10 n)) = .ok n := by
  have hread := parseUint_toDigits (n := n) (by omega)
  obtain ⟨c, cs, hcons⟩ := List.exists_cons_of_ne_nil (Nat.toDigits_ne_nil (n := n) (b := 10))
  have hc : c.isDigit := Nat.isDigit_of_mem_toDigits (n := n) (by decide : 0 < 10) (by decide)
    (by rw [hcons]; exact List.mem_cons_self)
  rw [parseIntChecked, String.toList_ofList]
  rw [hcons] at hread ⊢
  split
  rename_i neg digits heq
  split at heq
  · rename_i hminus
    obtain ⟨rfl, -⟩ := List.cons.inj hminus
    exact absurd hc (by decide)
  · rename_i hplus
    obtain ⟨rfl, -⟩ := List.cons.inj hplus
    exact absurd hc (by decide)
  · obtain ⟨rfl, rfl⟩ := Prod.mk.inj heq
    simpa [hread] using h

/-- Digits after a minus sign. -/
lemma parseIntChecked_neg_toDigits {n : ℕ} (h : n ≤ 2 ^ 63) :
    parseIntChecked (String.ofList ('-' :: Nat.toDigits 10 n)) = .ok (-n) := by
  have hread := parseUint_toDigits (n := n) (by omega)
  rw [parseIntChecked, String.toList_ofList]
  simpa [hread] using h

/-- A text that is read without error has digits after its first character. -/
lemma isDigit_of_parseIntChecked {s : String} {v : ℤ} (h : parseIntChecked s = .ok v) {c : Char}
    (hc : c ∈ s.toList) : c.isDigit ∨ c = '-' ∨ c = '+' := by
  have hdigits : ∀ {cs : List Char} {n : ℕ}, parseUint cs = .ok n → ∀ c ∈ cs, c.isDigit := by
    intro cs n hparse
    unfold parseUint at hparse
    split_ifs at hparse
    exact isDigit_of_parseUintLoop hparse
  unfold parseIntChecked at h
  split at h
  rename_i neg digits heq
  split at h
  · cases h
  · rename_i n hparse
    split at heq
    · rename_i hlist
      obtain ⟨-, rfl⟩ := Prod.mk.inj heq
      rw [hlist] at hc
      rcases List.mem_cons.mp hc with rfl | hmem
      · exact Or.inr (Or.inl rfl)
      · exact Or.inl (hdigits hparse c hmem)
    · rename_i hlist
      obtain ⟨-, rfl⟩ := Prod.mk.inj heq
      rw [hlist] at hc
      rcases List.mem_cons.mp hc with rfl | hmem
      · exact Or.inr (Or.inr rfl)
      · exact Or.inl (hdigits hparse c hmem)
    · obtain ⟨-, rfl⟩ := Prod.mk.inj heq
      exact Or.inl (hdigits hparse c hc)

example : parseInt "1500" = 1500 ∧ parseInt "" = 0 ∧ parseInt "12k" = 0 := by decide

/-! ### Kubernetes objects -/

/-- `resource.Quantity`, by its readings: rounded up to units and to thousandths,
and as an integer with a flag that tells whether it is one. -/
structure Quantity where
  value : ℤ
  milliValue : ℤ
  asInt64 : ℤ × Bool
  asInt64_ok : asInt64.2 = true → asInt64.1 = value

/-- The zero quantity. -/
def Quantity.zero : Quantity := ⟨0, 0, (0, true), fun _ => rfl⟩

/-- The integer quantity `n`. -/
def Quantity.units (n : ℤ) : Quantity := ⟨n, n * 1000, (n, true), fun _ => rfl⟩

/-- `v1.ResourceList`: the entries that the code reads. -/
structure ResourceList where
  cpu : Quantity := .zero
  memory : Quantity := .zero
  pods : Quantity := .zero
  gpu : Quantity := .zero
  storageEphemeral : Quantity := .zero

/-- `v1.Pod`: its identifier and the requests of its containers. -/
structure Pod where
  uid : String
  containers : List ResourceList

/-- `v1.Node`: its name, annotations and allocatable resources. -/
structure NodeObject where
  name : String
  annotations : StringMap String
  allocatable : ResourceList

/-- The number in an annotation of a node; a missing one reads as the empty
string. -/
def NodeObject.requested (node : NodeObject) (key : String) : ℤ :=
  parseInt ((node.annotations.get key).getD "")

/-- The keys of `default.go`, by resource. -/
def requestedKey : ℕ → String
  | 0 => "requested-cpu"
  | 1 => "requested-memory"
  | 2 => "requested-pods"
  | 3 => "requested-gpu"
  | _ => "requested-ephemeral-storage"

/-! ### The adapter -/

/-- `resourceRequested`. -/
structure ResourceRequested where
  milliCPU : ℤ
  memory : ℤ
  pod : ℤ
  gpu : ℤ
  storage : ℤ

/-- One round of the loop of `getPodResourceRequested`. What is read as GPUs is
added when it is not an integer. -/
def addContainer (result : ResourceRequested) (requests : ResourceList) : ResourceRequested :=
  { result with
    memory := toInt64 (result.memory + requests.memory.value)
    milliCPU := toInt64 (result.milliCPU + requests.cpu.milliValue)
    gpu := if !requests.gpu.asInt64.2 then toInt64 (result.gpu + requests.gpu.asInt64.1)
      else result.gpu
    storage := toInt64 (result.storage + requests.storageEphemeral.value) }

/-- `getPodResourceRequested`. -/
def getPodResourceRequested (pod : Pod) : ResourceRequested :=
  { pod.containers.foldl addContainer ⟨0, 0, 0, 0, 0⟩ with pod := 1 }

/-- `Node` of `client.go`. -/
structure Node (n : ℕ) where
  id : String
  resourceCapacity : Fin n → ℤ
  resourceOverflow : Fin n → Bool
  resourceUsage : Fin n → ℤ

/-- The capacities that `MakeNodeTemplate` sets, by resource: memory is counted
in MiB and storage in GiB, a GPU count that is not an integer is zero. -/
def NodeObject.capacity (node : NodeObject) : ℕ → ℤ
  | 0 => node.allocatable.cpu.milliValue
  | 1 => (node.allocatable.memory.value.tdiv 1024).tdiv 1024
  | 2 => node.allocatable.pods.value
  | 3 => if !node.allocatable.gpu.asInt64.2 then 0 else node.allocatable.gpu.asInt64.1
  | 4 => ((node.allocatable.storageEphemeral.value.tdiv 1024).tdiv 1024).tdiv 1024
  | _ => 0

/-- The usages that `MakeNodeTemplate` reads from the annotations, in the same
units. -/
def NodeObject.usage (node : NodeObject) : ℕ → ℤ
  | 0 => node.requested (requestedKey 0)
  | 1 => ((node.requested (requestedKey 1)).tdiv 1024).tdiv 1024
  | 2 => node.requested (requestedKey 2)
  | 3 => node.requested (requestedKey 3)
  | 4 => (((node.requested (requestedKey 4)).tdiv 1024).tdiv 1024).tdiv 1024
  | _ => 0

/-- `MakeNodeTemplate`. -/
def makeNodeTemplate (node : NodeObject) (n : ℕ) : Node n where
  id := node.name
  resourceCapacity := fun i => node.capacity i
  resourceOverflow := fun _ => false
  resourceUsage := fun i => node.usage i

/-- `PodRequest`. -/
structure PodRequest (n : ℕ) where
  id : String
  resourceDemand : Fin n → ℤ

/-- The demands that `CreatePodModel` sets, by resource: ten thousandths of a
CPU and 16 MiB are the least. -/
def ResourceRequested.demand (r : ResourceRequested) : ℕ → ℤ
  | 0 => if r.milliCPU = 0 then 10 else r.milliCPU
  | 1 =>
      let demandMemory := (r.memory.tdiv 1024).tdiv 1024
      if demandMemory = 0 then 16 else demandMemory
  | 2 => r.pod
  | 3 => r.gpu
  | 4 => r.storage
  | _ => 0

/-- `CreatePodModel`. -/
def createPodModel (pod : Pod) (n : ℕ) : PodRequest n where
  id := pod.uid
  resourceDemand := fun i => (getPodResourceRequested pod).demand i

/-! ### On the way to the C code -/

variable {n : ℕ}

/-- The PE that `StateUpdateNode` makes of a node that the model does not
know. -/
def Node.pe (node : Node n) : Pe n :=
  Pe.observed node.id (fun i => toInt32 (node.resourceCapacity i)) (some node.resourceOverflow)
    (some fun i => toInt32 (node.resourceUsage i))

/-- The demand vector that `GetPodRanks` passes on. -/
def PodRequest.demand (pr : PodRequest n) : Fin n → ℤ := fun i => toInt32 (pr.resourceDemand i)

/-- `pe_canplaceLE` for the LE of a pod and the PE of a node. -/
def fitTest (n : ℕ) (pod : Pod) (node : NodeObject) : Bool :=
  let (m, p) := (Memory.empty n).newPe (makeNodeTemplate node n).pe
  let (m, l) := m.newLe (Le.create pod.uid (createPodModel pod n).demand)
  Pe.canplaceLE m p l

lemma fitTest_iff (n : ℕ) (pod : Pod) (node : NodeObject) :
    fitTest n pod node = true ↔ ∀ i : Fin n,
      toInt32 ((getPodResourceRequested pod).demand i) ≤ toInt32 (node.capacity i)
        - (if 0 ≤ toInt32 (node.usage i) then toInt32 (node.usage i) else 0) := by
  have heq : fitTest n pod node
      = (makeNodeTemplate node n).pe.resource.canuse (createPodModel pod n).demand := by
    simp [fitTest, Memory.newPe, Memory.newLe, Pe.canplaceLE, Le.create]
  rw [heq, Resource.canuse_iff]
  refine forall_congr' fun i => ⟨fun h => ?_, Or.inr⟩
  rcases h with h | h
  · exact absurd h (by simp [Node.pe, Pe.observed, Pe.create, Resource.create, Resource.setusage,
      makeNodeTemplate])
  · exact h

/-! ### Amounts of the Kubernetes objects -/

/-- The raw total of a pod, by resource. -/
def ResourceRequested.total (r : ResourceRequested) : ℕ → ℤ
  | 0 => r.milliCPU
  | 1 => r.memory
  | 2 => r.pod
  | 3 => r.gpu
  | 4 => r.storage
  | _ => 0

/-- The allocatable amount of a node, by resource. -/
def NodeObject.allocatableAmount (node : NodeObject) : ℕ → ℤ
  | 0 => node.allocatable.cpu.milliValue
  | 1 => node.allocatable.memory.value
  | 2 => node.allocatable.pods.value
  | 3 => node.allocatable.gpu.value
  | 4 => node.allocatable.storageEphemeral.value
  | _ => 0

/-- The unit in which the model counts a resource: a thousandth of a CPU, a MiB,
a pod, a GPU, a GiB. -/
def resourceUnit : ℕ → ℤ
  | 1 => 2 ^ 20
  | 4 => 2 ^ 30
  | _ => 1

/-- An amount is not negative and below `2^31` units. -/
def InUnits (i : ℕ) (x : ℤ) : Prop := 0 ≤ x ∧ x < 2 ^ 31 * resourceUnit i

instance (i : ℕ) (x : ℤ) : Decidable (InUnits i x) := inferInstanceAs (Decidable (_ ∧ _))

/-- The totals of a pod are within `2^31` units. -/
def Pod.InRange (pod : Pod) (n : ℕ) : Prop :=
  ∀ i < n, InUnits i ((getPodResourceRequested pod).total i)

instance (pod : Pod) (n : ℕ) : Decidable (pod.InRange n) :=
  inferInstanceAs (Decidable (∀ i < n, _))

/-- The allocatable and the annotated amounts of a node are within `2^31`
units. -/
def NodeObject.InRange (node : NodeObject) (n : ℕ) : Prop :=
  ∀ i < n, InUnits i (node.allocatableAmount i) ∧ InUnits i (node.requested (requestedKey i))

instance (node : NodeObject) (n : ℕ) : Decidable (node.InRange n) :=
  inferInstanceAs (Decidable (∀ i < n, _))

/-- The fit test is right on a node: a pod that is accepted asks for less than
what the node has left plus two units, in every resource. -/
def FitTestRight (n : ℕ) (pod : Pod) (node : NodeObject) : Prop :=
  fitTest n pod node = true → ∀ i < n,
    (getPodResourceRequested pod).total i
      < node.allocatableAmount i - node.requested (requestedKey i) + 2 * resourceUnit i

instance (n : ℕ) (pod : Pod) (node : NodeObject) : Decidable (FitTestRight n pod node) :=
  inferInstanceAs (Decidable (fitTest n pod node = true → ∀ i < n, _))

lemma tdiv_kib_kib {x : ℤ} (h : 0 ≤ x) : (x.tdiv 1024).tdiv 1024 = x / 2 ^ 20 := by
  rw [Int.tdiv_eq_ediv_of_nonneg h, Int.tdiv_eq_ediv_of_nonneg (by omega)]
  omega

lemma tdiv_kib_kib_kib {x : ℤ} (h : 0 ≤ x) :
    ((x.tdiv 1024).tdiv 1024).tdiv 1024 = x / 2 ^ 30 := by
  rw [tdiv_kib_kib h, Int.tdiv_eq_ediv_of_nonneg (by omega)]
  omega

lemma resourceUnit_pos (i : ℕ) : 0 < resourceUnit i := by
  unfold resourceUnit
  split <;> norm_num

/-- The usages are the annotated amounts in units, rounded down. -/
lemma NodeObject.usage_eq (node : NodeObject) {i : ℕ} (hi : i < 5)
    (h0 : 0 ≤ node.requested (requestedKey i)) :
    node.usage i = node.requested (requestedKey i) / resourceUnit i := by
  interval_cases i
  · exact (Int.ediv_one _).symm
  · exact tdiv_kib_kib h0
  · exact (Int.ediv_one _).symm
  · exact (Int.ediv_one _).symm
  · exact tdiv_kib_kib_kib h0

/-- The capacities are at most the allocatable amounts in units, rounded
down. -/
lemma NodeObject.capacity_le (node : NodeObject) {i : ℕ} (hi : i < 5)
    (h0 : 0 ≤ node.allocatableAmount i) :
    0 ≤ node.capacity i ∧ node.capacity i ≤ node.allocatableAmount i / resourceUnit i := by
  interval_cases i
  · exact ⟨h0, (Int.ediv_one _).ge⟩
  · have heq : node.capacity 1 = node.allocatableAmount 1 / resourceUnit 1 := tdiv_kib_kib h0
    exact ⟨heq ▸ Int.ediv_nonneg h0 (resourceUnit_pos _).le, heq.le⟩
  · exact ⟨h0, (Int.ediv_one _).ge⟩
  · -- a count of GPUs that is not an integer counts as none
    have hdiv : node.allocatableAmount 3 / resourceUnit 3 = node.allocatable.gpu.value :=
      Int.ediv_one _
    rw [hdiv]
    cases hflag : node.allocatable.gpu.asInt64.2 with
    | false =>
        have hcap : node.capacity 3 = 0 := by simp [NodeObject.capacity, hflag]
        exact ⟨hcap.ge, hcap.le.trans h0⟩
    | true =>
        have hcap : node.capacity 3 = node.allocatable.gpu.value := by
          simp [NodeObject.capacity, hflag, node.allocatable.gpu.asInt64_ok hflag]
        exact ⟨hcap ▸ h0, hcap.le⟩
  · have heq : node.capacity 4 = node.allocatableAmount 4 / resourceUnit 4 :=
      tdiv_kib_kib_kib h0
    exact ⟨heq ▸ Int.ediv_nonneg h0 (resourceUnit_pos _).le, heq.le⟩

lemma InUnits.ediv {i : ℕ} {x : ℤ} (h : InUnits i x) :
    0 ≤ x / resourceUnit i ∧ x / resourceUnit i < 2 ^ 31 :=
  ⟨Int.ediv_nonneg h.1 (resourceUnit_pos i).le,
    Int.ediv_lt_of_lt_mul (resourceUnit_pos i) h.2⟩

/-- What the fit test compares, on a node in range: nothing but the demand can
be cut to 32 bits. -/
lemma fitTest_inRange {pod : Pod} {node : NodeObject} (hn : n ≤ 5) (hnode : node.InRange n)
    (hfit : fitTest n pod node = true) {i : ℕ} (hi : i < n) :
    toInt32 ((getPodResourceRequested pod).demand i)
      ≤ node.allocatableAmount i / resourceUnit i
        - node.requested (requestedKey i) / resourceUnit i := by
  have hi5 : i < 5 := by omega
  obtain ⟨ha, hr⟩ := hnode i hi
  have hcmp := (fitTest_iff n pod node).mp hfit ⟨i, hi⟩
  obtain ⟨hc0, hc1⟩ := node.capacity_le hi5 ha.1
  have hu := node.usage_eq hi5 hr.1
  have ha' := ha.ediv
  have hr' := hr.ediv
  simp only [hu] at hcmp
  rw [toInt32_of_range (by omega) (by omega : node.capacity i < 2 ^ 31),
    toInt32_of_range (by omega) hr'.2, if_pos hr'.1] at hcmp
  omega

/-! ### When the fit test is right -/

/-- The bounds of the demands of a pod in range, storage apart. -/
lemma demand_bounds {r : ResourceRequested} (hpod : r.pod = 1) {i : ℕ} (hi : i < 4)
    (h : InUnits i (r.total i)) : 0 ≤ r.demand i ∧ r.demand i < 2 ^ 31 := by
  obtain ⟨h0, h1⟩ := h
  interval_cases i
  · simp only [ResourceRequested.total, ResourceRequested.demand, resourceUnit] at *
    split_ifs <;> omega
  · simp only [ResourceRequested.total, ResourceRequested.demand, resourceUnit] at *
    rw [tdiv_kib_kib h0]
    split_ifs <;> omega
  · simp only [ResourceRequested.demand, hpod]
    omega
  · simp only [ResourceRequested.total, ResourceRequested.demand, resourceUnit] at *
    omega

/-- In every resource but storage the demand, as passed on, covers the total of
the pod up to one unit. -/
lemma total_le_demand {r : ResourceRequested} (hpod : r.pod = 1) {i : ℕ} (hi : i < 4)
    (h : InUnits i (r.total i)) :
    r.total i ≤ (toInt32 (r.demand i) + 1) * resourceUnit i := by
  obtain ⟨hd0, hd1⟩ := demand_bounds hpod hi h
  rw [toInt32_of_range (by omega) hd1]
  obtain ⟨h0, h1⟩ := h
  interval_cases i
  · simp only [ResourceRequested.total, ResourceRequested.demand, resourceUnit] at *
    split_ifs <;> omega
  · simp only [ResourceRequested.total, ResourceRequested.demand, resourceUnit] at *
    rw [tdiv_kib_kib h0]
    split_ifs <;> omega
  · simp only [ResourceRequested.total, ResourceRequested.demand, resourceUnit, hpod]
    omega
  · simp only [ResourceRequested.total, ResourceRequested.demand, resourceUnit] at *
    omega

/-- A pod whose demands, as passed on, cover its totals up to one unit is right
on every node. -/
lemma fitTestRight_of_le {pod : Pod} (hn : n ≤ 5)
    (hle : ∀ i < n, (getPodResourceRequested pod).total i
      ≤ (toInt32 ((getPodResourceRequested pod).demand i) + 1) * resourceUnit i)
    {node : NodeObject} (hnode : node.InRange n) : FitTestRight n pod node := by
  intro hfit i hi
  have hU := resourceUnit_pos i
  have hcmp := fitTest_inRange hn hnode hfit hi
  have hA := Int.ediv_mul_le (node.allocatableAmount i) hU.ne'
  have hR := Int.lt_ediv_add_one_mul_self (node.requested (requestedKey i)) hU
  set fa := node.allocatableAmount i / resourceUnit i
  set fr := node.requested (requestedKey i) / resourceUnit i
  calc (getPodResourceRequested pod).total i
      ≤ (toInt32 ((getPodResourceRequested pod).demand i) + 1) * resourceUnit i := hle i hi
    _ ≤ (fa - fr + 1) * resourceUnit i :=
        mul_le_mul_of_nonneg_right (by omega) hU.le
    _ < node.allocatableAmount i - node.requested (requestedKey i) + 2 * resourceUnit i := by
        linarith

/-- A node that has room for just what is passed on of the demand of a pod, with
almost a GiB of storage taken. -/
def tightNode (r : ResourceRequested) : NodeObject where
  name := "tight"
  annotations := (∅ : StringMap String).insert "requested-ephemeral-storage" "1073741823"
  allocatable :=
    { cpu := ⟨(r.demand 0 + 999) / 1000, r.demand 0, (0, false), by simp⟩
      memory := Quantity.units (r.demand 1 * 2 ^ 20)
      pods := Quantity.units 1
      gpu := Quantity.units r.gpu
      storageEphemeral := Quantity.units (max (toInt32 r.storage) 0 * 2 ^ 30) }

lemma tightNode_requested (r : ResourceRequested) :
    (tightNode r).requested (requestedKey 4) = 2 ^ 30 - 1
      ∧ ∀ i < 4, (tightNode r).requested (requestedKey i) = 0 := by
  have hparse : parseInt "1073741823" = 2 ^ 30 - 1 := by decide
  have hempty : parseInt "" = 0 := by decide
  refine ⟨?_, fun i hi => ?_⟩
  · simp only [NodeObject.requested, tightNode, requestedKey, StringMap.get_insert_self,
      Option.getD_some]
    exact hparse
  · have hne : requestedKey i ≠ "requested-ephemeral-storage" := by
      interval_cases i <;> decide
    simp only [NodeObject.requested, tightNode, StringMap.get_insert_of_ne _ _ hne,
      StringMap.get_empty, Option.getD_none]
    exact hempty

lemma inRange_tightNode {pod : Pod} (hpod : pod.InRange 5) :
    (tightNode (getPodResourceRequested pod)).InRange 5 := by
  set r := getPodResourceRequested pod with hr
  have hone : r.pod = 1 := rfl
  obtain ⟨hq4, hq⟩ := tightNode_requested r
  have hD := (toInt32_spec r.storage).2
  have hb : ∀ i < 4, 0 ≤ r.demand i ∧ r.demand i < 2 ^ 31 :=
    fun i hi => demand_bounds hone hi (hpod i (by omega))
  intro i hi
  constructor
  · -- what it offers
    have h0 := hb 0 (by omega)
    have h1 := hb 1 (by omega)
    have h3 := hb 3 (by omega)
    simp only [ResourceRequested.demand] at h3
    interval_cases i <;>
      simp only [InUnits, NodeObject.allocatableAmount, tightNode, Quantity.units, resourceUnit] <;>
      omega
  · -- what is taken of it
    have hU := resourceUnit_pos i
    by_cases h4 : i = 4
    · subst h4
      rw [hq4, InUnits, resourceUnit]
      norm_num
    · rw [hq i (by omega), InUnits]
      omega

/-- What is taken of the tight node is less than one unit. -/
lemma usage_tightNode {r : ResourceRequested} {i : ℕ} (hi : i < 5)
    (h : 0 ≤ (tightNode r).requested (requestedKey i)) : (tightNode r).usage i = 0 := by
  obtain ⟨hq4, hq⟩ := tightNode_requested r
  rw [(tightNode r).usage_eq hi h]
  by_cases h4 : i = 4
  · subst h4
    rw [hq4, resourceUnit]
    norm_num
  · rw [hq i (by omega), Int.zero_ediv]

/-- The tight node has the capacity that the demand is read as. -/
lemma le_capacity_tightNode {r : ResourceRequested} (hone : r.pod = 1) (hmemory : 0 ≤ r.demand 1)
    {i : ℕ} (hi : i < 5) : toInt32 (r.demand i) ≤ toInt32 ((tightNode r).capacity i) := by
  have hD := (toInt32_spec r.storage).2
  interval_cases i
  · exact le_refl _
  · have hmiB := tdiv_kib_kib (show 0 ≤ r.demand 1 * 2 ^ 20 by omega)
    rw [Int.mul_ediv_cancel _ (by norm_num)] at hmiB
    have hcap : (tightNode r).capacity 1 = r.demand 1 := hmiB
    rw [hcap]
  · show toInt32 r.pod ≤ toInt32 1
    rw [hone]
  · exact le_refl _
  · have hgiB := tdiv_kib_kib_kib (show 0 ≤ max (toInt32 r.storage) 0 * 2 ^ 30 by omega)
    rw [Int.mul_ediv_cancel _ (by norm_num)] at hgiB
    have hcap : (tightNode r).capacity 4 = max (toInt32 r.storage) 0 := hgiB
    have hstored := toInt32_of_range (x := max (toInt32 r.storage) 0) (by omega) (by omega)
    rw [hcap, hstored]
    exact le_max_left (toInt32 r.storage) 0

/-- The tight node is in range, and the pod it is made for passes its fit
test. -/
lemma tightNode_spec {pod : Pod} (hpod : pod.InRange 5) :
    (tightNode (getPodResourceRequested pod)).InRange 5
      ∧ fitTest 5 pod (tightNode (getPodResourceRequested pod)) = true := by
  have hrange := inRange_tightNode hpod
  refine ⟨hrange, (fitTest_iff _ _ _).mpr fun i => ?_⟩
  have huse := usage_tightNode i.isLt (hrange i i.isLt).2.1
  have hone : (getPodResourceRequested pod).pod = 1 := rfl
  have hmemory := (demand_bounds hone (i := 1) (by omega) (hpod 1 (by omega))).1
  have hzero : toInt32 0 = 0 := by decide
  simp only [huse, hzero, le_refl, if_true, sub_zero]
  exact le_capacity_tightNode hone hmemory i.isLt

/-- The pods for which the fit test is right on every node in range: with at
most four resources all of them, and with storage those whose storage total `S`
is at most `(S cut to 32 bits, plus one)` GiB. -/
theorem fitTest_right_iff (n : ℕ) (hn : n ≤ 5) (pod : Pod) (hpod : pod.InRange n) :
    (∀ node : NodeObject, node.InRange n → FitTestRight n pod node) ↔
      n ≤ 4 ∨ (getPodResourceRequested pod).storage
        ≤ (toInt32 (getPodResourceRequested pod).storage + 1) * 2 ^ 30 := by
  have hone : (getPodResourceRequested pod).pod = 1 := rfl
  constructor
  · intro hright
    by_contra hno
    rw [not_or, not_le, not_le] at hno
    obtain rfl : n = 5 := by omega
    obtain ⟨hrange, hfit⟩ := tightNode_spec hpod
    have hlt := hright _ hrange hfit 4 (by omega)
    have hS := hpod 4 (by omega)
    have hD := (toInt32_spec (getPodResourceRequested pod).storage).2
    rw [(tightNode_requested _).1] at hlt
    simp only [InUnits, ResourceRequested.total, NodeObject.allocatableAmount, tightNode,
      Quantity.units, resourceUnit] at hlt hS
    -- a total below `2^31` is not cut
    by_cases hsmall : (getPodResourceRequested pod).storage < 2 ^ 31
    · have hcut := toInt32_of_range (x := (getPodResourceRequested pod).storage) (by omega) hsmall
      omega
    · omega
  · rintro hcond node hnode
    refine fitTestRight_of_le hn (fun i hi => ?_) hnode
    by_cases h4 : i = 4
    · subst h4
      rcases hcond with hcond | hcond
      · omega
      · exact hcond
    · exact total_le_demand hone (by omega) (hpod i hi)

/-- A pod with one container that asks for half a CPU, 256 MiB and `bytes` of
storage. -/
def storagePod (bytes : ℤ) : Pod where
  uid := "pod"
  containers := [{ cpu := ⟨1, 500, (0, false), by simp⟩, memory := Quantity.units (2 ^ 28),
                   storageEphemeral := Quantity.units bytes }]

/-- A node with four CPUs, 8 GiB of memory, 110 pods and 1 GiB of storage, of
which nothing is requested yet. -/
def smallNode : NodeObject where
  name := "node"
  annotations := (((((∅ : StringMap String).insert "requested-cpu" "0").insert
    "requested-memory" "0").insert "requested-pods" "0").insert "requested-gpu" "0").insert
    "requested-ephemeral-storage" "0"
  allocatable :=
    { cpu := Quantity.units 4, memory := Quantity.units (2 ^ 33), pods := Quantity.units 110,
      storageEphemeral := Quantity.units (2 ^ 30) }

/-- A pod that asks for one byte of storage is accepted, and rightly. -/
theorem fitTest_right_iff_one_byte :
    smallNode.InRange 5 ∧ fitTest 5 (storagePod 1) smallNode = true
      ∧ ∀ i < 5, (getPodResourceRequested (storagePod 1)).total i
        < smallNode.allocatableAmount i - smallNode.requested (requestedKey i)
          + 2 * resourceUnit i := by
  have hnode : smallNode.InRange 5 := by decide
  have hfit : fitTest 5 (storagePod 1) smallNode = true := by decide
  have hright := (fitTest_right_iff 5 le_rfl (storagePod 1) (by decide)).mpr
    (Or.inr (by decide))
  exact ⟨hnode, hfit, hright smallNode hnode hfit⟩

/-- A pod that asks for 4 GiB of storage passes the fit test of a node that has
one. -/
theorem fitTest_wrong_on_smallNode :
    (storagePod (2 ^ 32)).InRange 5 ∧ smallNode.InRange 5
      ∧ ¬ FitTestRight 5 (storagePod (2 ^ 32)) smallNode := by
  decide

end KubeSafeScheduler.Pigeon
