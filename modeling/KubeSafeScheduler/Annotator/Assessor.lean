import Mathlib.Tactic
import KubeSafeScheduler.Lib.StringMap
import KubeSafeScheduler.Annotator.Quantity
import KubeSafeScheduler.Pigeon.Adapter

/-!
`k8s-assessor.py`: the agent that writes what is requested on each node, and what
is free there, into the annotations that the scheduler reads.

* `getNodeCapacity`, `getNodeAllocation`, `annotateNodes` and `assess`, one round of
  the loop of `main`.
* `requestsOn`: the requests of the running pods of a node, by resource.
* `getNodeAllocation_spec`: every sum of requests is kept as a running sum
  (`Allocated`).

The Kubernetes client is a parameter; what is printed is left out.
-/

namespace KubeSafeScheduler.Annotator

open Py

/-! ### Kubernetes objects -/

/-- The names of the resources. -/
def resName : Fin 5 → String := ![ "cpu", "memory", "pods", "gpu", "ephemeral-storage" ]

/-- The place of the memory among the resources. -/
abbrev memory : Fin 5 := 1

/-- `V1Container`: its requests, which may be missing. -/
structure V1Container where
  requests : Option (StringMap Quantity)

/-- `V1Pod`: where it runs, its phase and its containers. -/
structure V1Pod where
  nodeName : Option String
  phase : String
  containers : List V1Container

/-- `V1NodeCondition`. -/
structure V1NodeCondition where
  status : String
  type : String

/-- `V1Node`: its name, conditions and allocatable resources. -/
structure V1Node where
  name : String
  conditions : List V1NodeCondition
  allocatable : StringMap Quantity

/-- What the API server answers: the nodes, unless the call fails, the pods, and
whether it takes a patch of a node. -/
structure CoreV1Api where
  listNode : Option (List V1Node)
  listPodForAllNamespaces : List V1Pod
  patchNode : String → StringMap String → Bool

/-! ### The agent -/

/-- A number for each resource. -/
abbrev Row := Fin 5 → Number

/-- `[0] * len(resName)`. -/
def zeros : Row := fun _ => .int 0

/-- A loop over the resources that stops at the first exception. -/
def forEach {α : Type} : {n : ℕ} → (Fin n → Except Exn α) → Except Exn (Fin n → α)
  | 0, _ => .ok Fin.elim0
  | _ + 1, f => do
      let a ← f 0
      let rest ← forEach fun i => f i.succ
      .ok (Fin.cons a rest)

/-- `int(row[0] * 1000)` in the place of the CPU. -/
def toMilli (row : Row) : Except Exn Row := do
  let product ← (row 0).mul (.int 1000)
  let milli ← product.toInt
  .ok (Function.update row 0 (.int milli))

/-- `parse_quantity(alloc[name])`, zero for a resource that is not there. -/
def capacityOf : Option Quantity → Except Exn Number
  | none => .ok (.int 0)
  | some q => (parseQuantity q).map .decimal

/-- The capacity of a node, from its allocatable resources. -/
def nodeCapacity (alloc : StringMap Quantity) : Except Exn Row := do
  let capacity ← forEach fun i => capacityOf (alloc.get (resName i))
  toMilli capacity

/-- `d[key] = value` in a dictionary, which lists its keys in the order of their first
insertion. -/
def setItem {V : Type} (key : String) (value : V) : List (String × V) → List (String × V)
  | [] => [(key, value)]
  | (k, v) :: rest => if k = key then (key, value) :: rest else (k, v) :: setItem key value rest

/-- The round of `get_node_capacity` for one node: its capacity is set at each
condition that says that it is ready. -/
def addNode (nodeCap : List (String × Row)) (n : V1Node) : Except Exn (List (String × Row)) :=
  n.conditions.foldlM (fun nodeCap c =>
    if c.status = "True" ∧ c.type = "Ready" then
      (nodeCapacity n.allocatable).map fun capacity => setItem n.name capacity nodeCap
    else .ok nodeCap) nodeCap

/-- `get_node_capacity`: without an answer of the server there are no nodes. -/
def getNodeCapacity (client : CoreV1Api) : Except Exn (List (String × Row)) :=
  match client.listNode with
  | none => .ok []
  | some nodes => nodes.foldlM addNode []

/-- `alloc[i] += parse_quantity(req[name])`, if the resource is requested. -/
def addRequest (alloc : Number) : Option Quantity → Except Exn Number
  | none => .ok alloc
  | some q => do
      let d ← parseQuantity q
      alloc.add (.decimal d)

/-- The request of a container. -/
def V1Container.request (c : V1Container) (i : Fin 5) : Option Quantity :=
  c.requests.bind fun req => req.get (resName i)

/-- The round of the loop over the containers of a pod. -/
def addContainer (alloc : Row) (c : V1Container) : Except Exn Row :=
  match c.requests with
  | none => .ok alloc
  | some _ => forEach fun i => addRequest (alloc i) (c.request i)

/-- What a pod requests: CPU in thousandths, and one pod. -/
def podAllocation (pod : V1Pod) : Except Exn Row := do
  let alloc ← pod.containers.foldlM addContainer zeros
  let alloc ← toMilli alloc
  .ok (Function.update alloc 2 (.int 1))

/-- The pod runs on the node. -/
def V1Pod.runsOn (pod : V1Pod) (name : String) : Prop :=
  pod.nodeName = some name ∧ pod.phase = "Running"

instance (pod : V1Pod) (name : String) : Decidable (pod.runsOn name) :=
  inferInstanceAs (Decidable (_ ∧ _))

/-- The sums of a node, zeros before its first pod. -/
def row (nodeAlloc : StringMap Row) (name : String) : Row := (nodeAlloc.get name).getD zeros

/-- The round of `get_node_allocation` for one pod. -/
def addPod (nodeAlloc : StringMap Row) (pod : V1Pod) : Except Exn (StringMap Row) :=
  match pod.nodeName with
  | none => .ok nodeAlloc
  | some name =>
      if pod.phase = "Running" then do
        let alloc ← podAllocation pod
        let sums ← forEach fun i => (row nodeAlloc name i).add (alloc i)
        .ok (nodeAlloc.insert name sums)
      else .ok nodeAlloc

/-- `get_node_allocation`. -/
def getNodeAllocation (client : CoreV1Api) : Except Exn (StringMap Row) :=
  client.listPodForAllNamespaces.foldlM addPod ∅

/-- What is free: zero instead of less than zero. -/
def freeOf (cap alloc : Number) : Except Exn Number := do
  let free ← cap.sub alloc
  let negative ← free.isNegative
  .ok (if negative then .int 0 else free)

/-- The annotations of a node. -/
def nodeAnnotations (cap alloc : Row) : Except Exn (StringMap String) := do
  let free ← forEach fun i => freeOf (cap i) (alloc i)
  .ok ((List.finRange 5).foldl (fun annot i =>
    (annot.insert ("free-" ++ resName i) (free i).str).insert
      ("requested-" ++ resName i) (alloc i).str) ∅)

/-- `annotate_nodes`: the patches that the server takes, and the exception that ends
the round. A patch that is refused ends it too. -/
def annotateNodes (client : CoreV1Api) (nodeAlloc : StringMap Row) :
    List (String × Row) → List (String × StringMap String) × Option Exn
  | [] => ([], none)
  | (name, cap) :: rest =>
      match nodeAnnotations cap (row nodeAlloc name) with
      | .error e => ([], some e)
      | .ok annot =>
          if client.patchNode name annot then
            let (patches, raised) := annotateNodes client nodeAlloc rest
            ((name, annot) :: patches, raised)
          else ([], none)

/-- One round of the loop of `main`. -/
def assess (client : CoreV1Api) : List (String × StringMap String) × Option Exn :=
  match getNodeCapacity client with
  | .error e => ([], some e)
  | .ok nodeCap =>
      match getNodeAllocation client with
      | .error e => ([], some e)
      | .ok nodeAlloc => annotateNodes client nodeAlloc nodeCap

/-! ### Loops over the resources -/

lemma forEach_eq_ok {α : Type} {n : ℕ} {f : Fin n → Except Exn α} {g : Fin n → α}
    (h : ∀ i, f i = .ok (g i)) : forEach f = .ok g := by
  induction n with
  | zero =>
      rw [forEach]
      exact congrArg _ (Subsingleton.elim _ _)
  | succ n ih =>
      rw [forEach, h 0, ih fun i => h i.succ]
      exact congrArg _ (Fin.cons_self_tail g)

/-- A loop whose rounds all succeed succeeds. -/
lemma forEach_spec {α : Type} {n : ℕ} {f : Fin n → Except Exn α} {P : Fin n → α → Prop}
    (h : ∀ i, ∃ a, f i = .ok a ∧ P i a) : ∃ g, forEach f = .ok g ∧ ∀ i, P i (g i) := by
  choose g hg hP using h
  exact ⟨g, forEach_eq_ok hg, hP⟩

/-! ### The requests -/

/-- The exact sum of quantities. -/
def total (qs : List Quantity) : ℚ := (qs.map Quantity.amount).sum

/-- The sum of their magnitudes. -/
def size (qs : List Quantity) : ℚ := (qs.map fun q => |q.amount|).sum

/-- No quantity has a digit below the units. -/
def WholeUnits (qs : List Quantity) : Prop := ∀ q ∈ qs, 0 ≤ q.lastPlace

/-- The requests of the containers of a pod. -/
def V1Pod.requests (pod : V1Pod) (i : Fin 5) : List Quantity :=
  pod.containers.filterMap fun c => c.request i

/-- The requests of the pods that run on a node. -/
def requestsOn (pods : List V1Pod) (name : String) (i : Fin 5) : List Quantity :=
  (pods.filter fun pod => pod.runsOn name).flatMap fun pod => pod.requests i

lemma total_append (qs qs' : List Quantity) : total (qs ++ qs') = total qs + total qs' := by
  rw [total, List.map_append, List.sum_append]
  rfl

lemma size_append (qs qs' : List Quantity) : size (qs ++ qs') = size qs + size qs' := by
  rw [size, List.map_append, List.sum_append]
  rfl

lemma size_nonneg (qs : List Quantity) : 0 ≤ size qs :=
  List.sum_nonneg (by
    intro x hx
    obtain ⟨q, -, rfl⟩ := List.mem_map.mp hx
    exact abs_nonneg _)

lemma abs_total_le (qs : List Quantity) : |total qs| ≤ size qs := by
  induction qs with
  | nil => simp [total, size]
  | cons q qs ih =>
      have hhead := total_append [q] qs
      have hsize := size_append [q] qs
      rw [List.singleton_append] at hhead hsize
      rw [hhead, hsize]
      refine (abs_add_le _ _).trans (add_le_add ?_ ih)
      simp [total, size]

lemma wholeUnits_append (qs qs' : List Quantity) :
    WholeUnits (qs ++ qs') ↔ WholeUnits qs ∧ WholeUnits qs' := by
  simp only [WholeUnits, List.mem_append]
  exact ⟨fun h => ⟨fun q hq => h q (Or.inl hq), fun q hq => h q (Or.inr hq)⟩,
    fun h q hq => hq.elim (h.1 q) (h.2 q)⟩

lemma requestsOn_append (pods pods' : List V1Pod) (name : String) (i : Fin 5) :
    requestsOn (pods ++ pods') name i = requestsOn pods name i ++ requestsOn pods' name i := by
  rw [requestsOn, List.filter_append, List.flatMap_append]
  rfl

lemma requestsOn_singleton {pod : V1Pod} {name : String} (h : pod.runsOn name) (i : Fin 5) :
    requestsOn [pod] name i = pod.requests i := by
  simp [requestsOn, h]

lemma requestsOn_singleton_of_not {pod : V1Pod} {name : String} (h : ¬ pod.runsOn name)
    (i : Fin 5) : requestsOn [pod] name i = [] := by
  simp [requestsOn, h]

/-! ### Sums of requests -/

/-- A running sum that stands for the quantities `qs`, and is at most `k` times their
size. -/
def Sums (k : ℚ) (a : Number) (qs : List Quantity) : Prop :=
  a.Runs (total qs) (k * size qs) (WholeUnits qs)

lemma sums_zero (k : ℚ) : Sums k (.int 0) [] := by
  have hruns := Number.runs_int (n := 0) (B := 0) (by simp) (by norm_num)
  have hwhole : WholeUnits [] ↔ True := by simp [WholeUnits]
  simpa [Sums, total, size, hwhole] using hruns

/-- Adding what stands for further quantities. Each rounding may double what is
added. -/
lemma Sums.add {k c : ℚ} {a b : Number} {qs qs' : List Quantity} (ha : Sums k a qs)
    (hb : b.Tracks (total qs') (c * size qs') (WholeUnits qs')) (hk : 2 * c = k)
    (hbound : k * size (qs ++ qs') < 10 ^ 26) :
    ∃ r, a.add b = .ok r ∧ Sums k r (qs ++ qs') := by
  have hsize : k * size qs + 2 * (c * size qs') = k * size (qs ++ qs') := by
    rw [size_append, ← hk]
    ring
  obtain ⟨r, hadd, hr⟩ := Number.Runs.add ha hb (by rwa [hsize])
  refine ⟨r, hadd, ?_⟩
  rwa [Sums, total_append, ← hsize, wholeUnits_append]

/-- The step of the loop over the containers, for one resource. -/
lemma addRequest_spec {a : Number} {qs : List Quantity} (ha : Sums 4 a qs) {o : Option Quantity}
    (haccept : ∀ q ∈ o.toList, q.Accepted) (hbound : 4 * size (qs ++ o.toList) < 10 ^ 26) :
    ∃ r, addRequest a o = .ok r ∧ Sums 4 r (qs ++ o.toList) := by
  cases o with
  | none =>
      rw [Option.toList_none, List.append_nil]
      exact ⟨a, rfl, ha⟩
  | some q =>
      rw [Option.toList_some] at haccept hbound ⊢
      have hsmall : |q.amount| < 10 ^ 26 := by
        have hq : size [q] = |q.amount| := by simp [size]
        rw [size_append, hq] at hbound
        linarith [size_nonneg qs, abs_nonneg q.amount]
      obtain ⟨d, hparse, hd⟩ := parseQuantity_spec (haccept q (List.mem_singleton.mpr rfl)) hsmall
      have htracks :
          (Number.decimal (.fin d)).Tracks (total [q]) (2 * size [q]) (WholeUnits [q]) := by
        refine ⟨d, rfl, ?_⟩
        simpa [total, size, WholeUnits] using hd
      obtain ⟨r, hadd, hr⟩ := ha.add htracks (by norm_num) hbound
      refine ⟨r, ?_, hr⟩
      rw [addRequest, hparse]
      exact hadd

/-- The loop over the containers. -/
lemma addContainer_foldlM_spec (cs : List V1Container) (alloc : Row) (qs : Fin 5 → List Quantity)
    (halloc : ∀ i, Sums 4 (alloc i) (qs i))
    (haccept : ∀ i, ∀ q ∈ cs.filterMap fun c => c.request i, q.Accepted)
    (hbound : ∀ i, 4 * size (qs i ++ cs.filterMap fun c => c.request i) < 10 ^ 26) :
    ∃ r, cs.foldlM addContainer alloc = .ok r
      ∧ ∀ i, Sums 4 (r i) (qs i ++ cs.filterMap fun c => c.request i) := by
  induction cs generalizing alloc qs with
  | nil => exact ⟨alloc, rfl, by simpa using halloc⟩
  | cons c cs ih =>
      have hcons : ∀ i, (c :: cs).filterMap (fun c => c.request i)
          = (c.request i).toList ++ cs.filterMap fun c => c.request i := by
        intro i
        rw [List.filterMap_cons]
        cases c.request i <;> rfl
      simp only [hcons, ← List.append_assoc] at haccept hbound ⊢
      have hstep : ∃ r, addContainer alloc c = .ok r
          ∧ ∀ i, Sums 4 (r i) (qs i ++ (c.request i).toList) := by
        have hround : ∀ i, ∃ r, addRequest (alloc i) (c.request i) = .ok r
            ∧ Sums 4 r (qs i ++ (c.request i).toList) := by
          intro i
          refine addRequest_spec (halloc i) (fun q hq => haccept i q (by simp_all)) ?_
          have hi := hbound i
          rw [size_append] at hi
          linarith [size_nonneg (cs.filterMap fun c => c.request i)]
        cases hreq : c.requests with
        | none =>
            refine ⟨alloc, by rw [addContainer, hreq], fun i => ?_⟩
            have hnone : c.request i = none := by rw [V1Container.request, hreq]; rfl
            simpa [hnone] using halloc i
        | some req =>
            rw [addContainer, hreq]
            exact forEach_spec hround
      obtain ⟨r, hadd, hr⟩ := hstep
      obtain ⟨r', hfold, hr'⟩ :=
        ih r _ hr (fun i q hq => haccept i q (List.mem_append_right _ hq)) hbound
      refine ⟨r', ?_, hr'⟩
      rw [List.foldlM_cons, hadd]
      exact hfold

/-! ### The sums of the nodes -/

lemma Sums.exists_dec {k : ℚ} {a : Number} {qs : List Quantity} (h : Sums k a qs) :
    ∃ d, a.dec = some d ∧ |d.value| ≤ k * size qs := by
  obtain ⟨d, hd, hruns⟩ := h
  exact ⟨d, hd, hruns.abs_le⟩

lemma toMilli_spec {r : Row} {d : Dec} (h : (r 0).dec = some d) (hd : |d.value| < 10 ^ 22) :
    ∃ n, toMilli r = .ok (Function.update r 0 (.int n)) := by
  have hlt : |d.value * (Dec.ofInt 1000).value| < 10 ^ 26 := by
    rw [Dec.value_ofInt, abs_mul]
    norm_num at hd ⊢
    linarith
  obtain ⟨product, f, hmul, hf⟩ := Number.mul_finite h (Number.dec_int 1000) hlt
  obtain ⟨n, hn⟩ := Number.toInt_of_dec hf
  refine ⟨n, ?_⟩
  rw [toMilli, hmul]
  change (do let milli ← product.toInt; Except.ok (Function.update r 0 (Number.int milli))) = _
  rw [hn]
  rfl

/-- Quantities in range: all are accepted, and their magnitudes sum up to less than
`2 ^ 63`. -/
structure Bounded (qs : List Quantity) : Prop where
  accepted : ∀ q ∈ qs, q.Accepted
  size_lt : size qs < 2 ^ 63

lemma Bounded.of_append {qs qs' : List Quantity} (h : Bounded (qs ++ qs')) :
    Bounded qs ∧ Bounded qs' := by
  have hsize := h.size_lt
  rw [size_append] at hsize
  refine ⟨⟨fun q hq => h.accepted q (List.mem_append_left _ hq), ?_⟩,
    ⟨fun q hq => h.accepted q (List.mem_append_right _ hq), ?_⟩⟩
  · linarith [size_nonneg qs']
  · linarith [size_nonneg qs]

/-- What a pod adds to the sums of its node. -/
lemma podAllocation_spec {pod : V1Pod} (h : ∀ i, Bounded (pod.requests i)) :
    ∃ r n, podAllocation pod = .ok r ∧ r 0 = .int n ∧ r 2 = .int 1
      ∧ ∀ i, i ≠ 0 → i ≠ 2 → Sums 4 (r i) (pod.requests i) := by
  have hsmall : ∀ i, 4 * size (pod.requests i) < 10 ^ 22 := by
    intro i
    have hi := (h i).size_lt
    norm_num at hi ⊢
    linarith
  have hbound : ∀ i, 4 * size ([] ++ pod.requests i) < 10 ^ 26 := by
    intro i
    rw [List.nil_append]
    linarith [hsmall i]
  obtain ⟨alloc, hfold, halloc⟩ := addContainer_foldlM_spec pod.containers zeros (fun _ => [])
    (fun _ => sums_zero 4) (fun i => (h i).accepted) hbound
  obtain ⟨d, hd, hle⟩ := (halloc 0).exists_dec
  obtain ⟨n, hmilli⟩ := toMilli_spec hd (hle.trans_lt (hsmall 0))
  refine ⟨Function.update (Function.update alloc 0 (.int n)) 2 (.int 1), n, ?_, ?_, ?_, ?_⟩
  · rw [podAllocation, hfold]
    change (do let alloc ← toMilli alloc; Except.ok (Function.update alloc 2 (Number.int 1))) = _
    rw [hmilli]
    rfl
  · rw [Function.update_of_ne (by decide), Function.update_self]
  · rw [Function.update_self]
  · intro i h0 h2
    rw [Function.update_of_ne h2, Function.update_of_ne h0]
    exact halloc i

/-- The sums of every node after the pods: an integer of CPUs, the number of pods, and
for the other resources a running sum of the requests. -/
structure Allocated (nodeAlloc : StringMap Row) (pods : List V1Pod) : Prop where
  cpu : ∀ name, ∃ n, row nodeAlloc name 0 = .int n
  count : ∀ name, ∃ n : ℕ, n ≤ pods.length ∧ row nodeAlloc name 2 = .int n
  sums : ∀ name i, i ≠ 0 → i ≠ 2 → Sums 8 (row nodeAlloc name i) (requestsOn pods name i)

lemma allocated_empty : Allocated ∅ [] := by
  have hrow : ∀ name, row ∅ name = zeros := fun name => by rw [row, StringMap.get_empty]; rfl
  refine ⟨fun name => ⟨0, by rw [hrow]; rfl⟩, fun name => ⟨0, le_rfl, by rw [hrow]; rfl⟩, ?_⟩
  intro name i _ _
  rw [hrow]
  exact sums_zero 8

lemma row_insert_self (nodeAlloc : StringMap Row) (name : String) (sums : Row) :
    row (nodeAlloc.insert name sums) name = sums := by
  rw [row, StringMap.get_insert_self]
  rfl

lemma row_insert_of_ne (nodeAlloc : StringMap Row) {name name' : String} (sums : Row)
    (h : name' ≠ name) : row (nodeAlloc.insert name sums) name' = row nodeAlloc name' := by
  rw [row, StringMap.get_insert_of_ne _ _ h]
  rfl

/-- A pod that does not run on any node leaves the sums as they are. -/
lemma Allocated.of_not_runsOn {nodeAlloc : StringMap Row} {pods : List V1Pod} {pod : V1Pod}
    (h : Allocated nodeAlloc pods) (hpod : ∀ name, ¬ pod.runsOn name) :
    Allocated nodeAlloc (pods ++ [pod]) := by
  refine ⟨h.cpu, fun name => ?_, fun name i h0 h2 => ?_⟩
  · obtain ⟨n, hn, hrow⟩ := h.count name
    exact ⟨n, hn.trans (by simp), hrow⟩
  · rw [requestsOn_append, requestsOn_singleton_of_not (hpod name), List.append_nil]
    exact h.sums name i h0 h2

/-- Adding a pod to the sums of its node. -/
lemma Allocated.add_row {nodeAlloc : StringMap Row} {pods : List V1Pod}
    (h : Allocated nodeAlloc pods) {name : String} {alloc : Row} {m : ℤ}
    {qs : Fin 5 → List Quantity} (hcpu : alloc 0 = .int m) (hcount : alloc 2 = .int 1)
    (hsums : ∀ i, i ≠ 0 → i ≠ 2 → Sums 4 (alloc i) (qs i))
    (hbounded : ∀ i, Bounded (requestsOn pods name i ++ qs i)) :
    ∃ sums, forEach (fun i => (row nodeAlloc name i).add (alloc i)) = .ok sums
      ∧ (∃ n, sums 0 = .int n) ∧ (∃ n : ℕ, n ≤ pods.length + 1 ∧ sums 2 = .int n)
      ∧ ∀ i, i ≠ 0 → i ≠ 2 → Sums 8 (sums i) (requestsOn pods name i ++ qs i) := by
  obtain ⟨k, hk⟩ := h.cpu name
  obtain ⟨n, hn, hrow⟩ := h.count name
  have hround : ∀ i, ∃ a, (row nodeAlloc name i).add (alloc i) = .ok a
      ∧ (i = 0 → a = .int (k + m)) ∧ (i = 2 → a = .int ((n + 1 : ℕ) : ℤ))
      ∧ (i ≠ 0 → i ≠ 2 → Sums 8 a (requestsOn pods name i ++ qs i)) := by
    intro i
    by_cases h0 : i = 0
    · subst h0
      exact ⟨_, by rw [hk, hcpu]; rfl, fun _ => rfl, fun h => absurd h (by decide),
        fun h => absurd rfl h⟩
    · by_cases h2 : i = 2
      · subst h2
        exact ⟨_, by rw [hrow, hcount]; rfl, fun h => absurd h h0, fun _ => rfl,
          fun _ h => absurd rfl h⟩
      · have hbound : 8 * size (requestsOn pods name i ++ qs i) < 10 ^ 26 := by
          have hi := (hbounded i).size_lt
          norm_num at hi ⊢
          linarith
        obtain ⟨a, hadd, ha⟩ :=
          (h.sums name i h0 h2).add (hsums i h0 h2).tracks (by norm_num) hbound
        exact ⟨a, hadd, fun h => absurd h h0, fun h => absurd h h2, fun _ _ => ha⟩
  obtain ⟨sums, hadd, hsum⟩ := forEach_spec hround
  exact ⟨sums, hadd, ⟨k + m, (hsum 0).1 rfl⟩, ⟨n + 1, by omega, (hsum 2).2.1 rfl⟩,
    fun i h0 h2 => (hsum i).2.2 h0 h2⟩

/-- New sums for the node on which a pod runs. -/
lemma Allocated.insert {nodeAlloc : StringMap Row} {pods : List V1Pod} {pod : V1Pod}
    (h : Allocated nodeAlloc pods) {name : String} (hruns : pod.runsOn name) {sums : Row}
    (hcpu : ∃ n, sums 0 = .int n) (hcount : ∃ n : ℕ, n ≤ pods.length + 1 ∧ sums 2 = .int n)
    (hsums : ∀ i, i ≠ 0 → i ≠ 2 → Sums 8 (sums i) (requestsOn pods name i ++ pod.requests i)) :
    Allocated (nodeAlloc.insert name sums) (pods ++ [pod]) := by
  refine ⟨fun name' => ?_, fun name' => ?_, fun name' i hi0 hi2 => ?_⟩
  · by_cases heq : name' = name
    · subst heq
      rw [row_insert_self]
      exact hcpu
    · rw [row_insert_of_ne _ _ heq]
      exact h.cpu name'
  · by_cases heq : name' = name
    · subst heq
      rw [row_insert_self, List.length_append]
      exact hcount
    · obtain ⟨n, hn, hrow⟩ := h.count name'
      rw [row_insert_of_ne _ _ heq]
      exact ⟨n, hn.trans (by simp), hrow⟩
  · rw [requestsOn_append]
    by_cases heq : name' = name
    · subst heq
      rw [row_insert_self, requestsOn_singleton hruns]
      exact hsums i hi0 hi2
    · have hnot : ¬ pod.runsOn name' := by
        rintro ⟨hname', -⟩
        exact heq (Option.some.inj (hname'.symm.trans hruns.1))
      rw [row_insert_of_ne _ _ heq, requestsOn_singleton_of_not hnot, List.append_nil]
      exact h.sums name' i hi0 hi2

/-- The step of the loop over the pods. -/
lemma Allocated.addPod {nodeAlloc : StringMap Row} {pods : List V1Pod} {pod : V1Pod}
    (h : Allocated nodeAlloc pods)
    (hbounded : ∀ name i, Bounded (requestsOn (pods ++ [pod]) name i)) :
    ∃ nodeAlloc', Annotator.addPod nodeAlloc pod = .ok nodeAlloc'
      ∧ Allocated nodeAlloc' (pods ++ [pod]) := by
  cases hname : pod.nodeName with
  | none =>
      refine ⟨nodeAlloc, by rw [Annotator.addPod, hname], h.of_not_runsOn fun name hruns => ?_⟩
      rw [V1Pod.runsOn, hname] at hruns
      cases hruns.1
  | some name =>
      by_cases hphase : pod.phase = "Running"
      · have hruns : pod.runsOn name := ⟨hname, hphase⟩
        have hnode : ∀ i, Bounded (requestsOn pods name i ++ pod.requests i) := by
          intro i
          have hi := hbounded name i
          rwa [requestsOn_append, requestsOn_singleton hruns] at hi
        obtain ⟨alloc, m, halloc, hcpu, hcount, hsums⟩ :=
          podAllocation_spec fun i => (hnode i).of_append.2
        obtain ⟨sums, hadd, h0, h2, hrest⟩ := h.add_row hcpu hcount hsums hnode
        refine ⟨nodeAlloc.insert name sums, ?_, h.insert hruns h0 h2 hrest⟩
        rw [Annotator.addPod, hname]
        simp only [hphase, if_true, halloc, hadd, bind, Except.bind]
      · refine ⟨nodeAlloc, ?_, h.of_not_runsOn fun name' hruns => hphase hruns.2⟩
        rw [Annotator.addPod, hname]
        exact if_neg hphase

/-- The loop over the pods. -/
lemma Allocated.addPod_foldlM {pods : List V1Pod} {nodeAlloc : StringMap Row} {done : List V1Pod}
    (h : Allocated nodeAlloc done)
    (hbounded : ∀ name i, Bounded (requestsOn (done ++ pods) name i)) :
    ∃ nodeAlloc', pods.foldlM Annotator.addPod nodeAlloc = .ok nodeAlloc'
      ∧ Allocated nodeAlloc' (done ++ pods) := by
  induction pods generalizing nodeAlloc done with
  | nil => exact ⟨nodeAlloc, rfl, by rwa [List.append_nil]⟩
  | cons pod pods ih =>
      rw [List.append_cons] at hbounded ⊢
      obtain ⟨m, hstep, hm⟩ := h.addPod fun name i => by
        have hi := hbounded name i
        rw [requestsOn_append] at hi
        exact hi.of_append.1
      obtain ⟨m', hfold, hm'⟩ := ih hm hbounded
      refine ⟨m', ?_, hm'⟩
      rw [List.foldlM_cons, hstep]
      exact hfold

/-- When the sums of requests are bounded, the loop succeeds and keeps them. -/
theorem getNodeAllocation_spec {client : CoreV1Api}
    (hbounded : ∀ name i, Bounded (requestsOn client.listPodForAllNamespaces name i)) :
    ∃ nodeAlloc, getNodeAllocation client = .ok nodeAlloc
      ∧ Allocated nodeAlloc client.listPodForAllNamespaces :=
  allocated_empty.addPod_foldlM hbounded

end KubeSafeScheduler.Annotator
