import Mathlib.Tactic
import KubeSafeScheduler.Annotator.Assessor

/-!
From the assessor to the scheduler: the text of an annotation `requested-…` that
`assess` writes, and what `MakeNodeTemplate` reads in it.

* `parseIntChecked_str_iff`: the text of a running sum is read as the sum rounded
  down exactly when all that was added is in whole units.
* `assess_eq`, `exists_patch`: with quantities in range (`CoreV1Api.InRange`) a round
  raises nothing and patches every ready node.
* `requested_of_wholeUnits`: what `MakeNodeTemplate` then takes as requested.
* `requested_text_read_iff`: a node's annotation is read as the sum of its requests
  exactly when no request has a digit below the units.
-/

namespace KubeSafeScheduler.Annotator

open Py
open Pigeon (parseIntChecked requestedKey)

/-! ### The text of a sum -/

/-- A text with a point or an exponent is not an integer. -/
lemma parseIntChecked_ne_ok_of_exp_neg {d : Dec} (h : d.exp < 0) (v : ℤ) :
    parseIntChecked (String.ofList d.text) ≠ .ok v := by
  intro hok
  have hread : ∀ c ∈ d.text, c.isDigit ∨ c = '-' ∨ c = '+' := fun c hc =>
    Pigeon.isDigit_of_parseIntChecked hok (by rwa [String.toList_ofList])
  rcases Dec.mem_text_of_exp_neg h with hpoint | hE
  · exact absurd (hread _ hpoint) (by decide)
  · exact absurd (hread _ hE) (by decide)

/-- The text of an integer of 64 bits is read back. -/
lemma parseIntChecked_of_exp_zero {d : Dec} (h : d.exp = 0) (hd : |d.value| < 2 ^ 63) :
    parseIntChecked (String.ofList d.text) = .ok ⌊d.value⌋ := by
  have hcoeff : d.coeff < 2 ^ 63 := by
    rw [Dec.abs_value, h, zpow_zero, mul_one] at hd
    exact_mod_cast hd
  have hvalue : d.value = ((Dec.sign d.neg * d.coeff : ℤ) : ℚ) := by
    rw [Dec.value, h, zpow_zero, mul_one]
    push_cast
    rfl
  rw [hvalue, Int.floor_intCast, Dec.text_of_exp_zero h]
  cases d.neg with
  | false =>
      rw [Dec.signText, if_neg Bool.false_ne_true, List.nil_append,
        Pigeon.parseIntChecked_toDigits hcoeff, Dec.sign, if_neg Bool.false_ne_true, one_mul]
  | true =>
      rw [Dec.signText, if_pos rfl, List.singleton_append,
        Pigeon.parseIntChecked_neg_toDigits hcoeff.le, Dec.sign, if_pos rfl, neg_one_mul]

/-- A running sum is read as the exact sum rounded down, if it is one of whole units,
and is not read otherwise. -/
lemma parseIntChecked_str_iff {a : Number} {x b : ℚ} {whole : Prop} (h : a.Runs x b whole)
    (hx : |x| < 2 ^ 63) : parseIntChecked a.str = .ok ⌊x⌋ ↔ whole := by
  obtain ⟨d, hd, hruns⟩ := h
  rw [Number.str_of_dec hd]
  constructor
  · intro hok
    by_contra hwhole
    exact parseIntChecked_ne_ok_of_exp_neg (hruns.fraction hwhole) _ hok
  · intro hwhole
    obtain ⟨hexp, hvalue⟩ := hruns.exact_of_whole hwhole
    rw [← hvalue] at hx ⊢
    exact parseIntChecked_of_exp_zero (le_antisymm hruns.nonpos hexp) hx

/-! ### The annotations of a node -/

lemma requestedKey_eq (i : Fin 5) : requestedKey i = "requested-" ++ resName i := by
  fin_cases i <;> rfl

/-- The annotations hold the text of every sum. -/
lemma get_requested {cap alloc : Row} {annot : StringMap String}
    (h : nodeAnnotations cap alloc = .ok annot) (i : Fin 5) :
    annot.get (requestedKey i) = some (alloc i).str := by
  unfold nodeAnnotations at h
  cases hfree : forEach fun i => freeOf (cap i) (alloc i) with
  | error e =>
      rw [hfree] at h
      cases h
  | ok free =>
      rw [hfree] at h
      have hannot := Except.ok.inj h
      rw [← hannot, requestedKey_eq]
      have hrange : List.finRange 5 = [0, 1, 2, 3, 4] := rfl
      rw [hrange]
      fin_cases i <;> simp [StringMap.get_insert, resName]

/-- A finite number with room for further sums. -/
def Small (a : Number) : Prop := ∃ d, a.dec = some d ∧ |d.value| < 10 ^ 22

lemma freeOf_spec {cap alloc : Number} (hcap : Small cap) (halloc : Small alloc) :
    ∃ free, freeOf cap alloc = .ok free := by
  obtain ⟨d, hd, hdlt⟩ := hcap
  obtain ⟨e, he, helt⟩ := halloc
  obtain ⟨free, f, hsub, hf⟩ := Number.sub_finite hd he (by linarith)
  obtain ⟨negative, hneg⟩ := Number.isNegative_of_dec hf
  refine ⟨if negative then .int 0 else free, ?_⟩
  simp only [freeOf, hsub, hneg, bind, Except.bind]

/-! ### Capacities -/

/-- What is known of the capacity of a node: an integer of CPUs, and small numbers of the
other resources. -/
structure CapacityInRange (cap : Row) : Prop where
  cpu : ∃ n, cap 0 = .int n
  small : ∀ i, i ≠ 0 → Small (cap i)

/-- The capacity of a resource is small if it is accepted and below `2 ^ 63`. -/
lemma capacityOf_spec {o : Option Quantity} (h : ∀ q, o = some q → Bounded [q]) :
    ∃ a, capacityOf o = .ok a ∧ Small a := by
  cases o with
  | none => exact ⟨.int 0, rfl, _, Number.dec_int 0, by simp⟩
  | some q =>
      have hq := h q rfl
      have hamount : |q.amount| < 2 ^ 63 := by simpa [size] using hq.size_lt
      obtain ⟨e, hparse, htracks⟩ :=
        parseQuantity_spec (hq.accepted q (List.mem_singleton.mpr rfl))
          (hamount.trans (by norm_num))
      refine ⟨.decimal (.fin e), by rw [capacityOf, hparse]; rfl, e, rfl, ?_⟩
      norm_num at hamount ⊢
      linarith [htracks.abs_le]

lemma nodeCapacity_spec {alloc : StringMap Quantity}
    (h : ∀ i q, alloc.get (resName i) = some q → Bounded [q]) :
    ∃ cap, nodeCapacity alloc = .ok cap ∧ CapacityInRange cap := by
  obtain ⟨capacity, hloop, hcap⟩ := forEach_spec fun i => capacityOf_spec (h i)
  obtain ⟨e, he, hlt⟩ := hcap 0
  obtain ⟨n, hmilli⟩ := toMilli_spec he hlt
  refine ⟨Function.update capacity 0 (.int n), ?_, ⟨n, Function.update_self _ _ _⟩, fun i hi => ?_⟩
  · rw [nodeCapacity, hloop]
    exact hmilli
  · rw [Function.update_of_ne hi]
    exact hcap i

section Dictionary

variable {V : Type} {key k : String} {value v : V} {d : List (String × V)}

lemma mem_setItem_self (key : String) (value : V) (d : List (String × V)) :
    (key, value) ∈ setItem key value d := by
  induction d with
  | nil => exact List.mem_singleton.mpr rfl
  | cons e d ih =>
      obtain ⟨k, v⟩ := e
      rw [setItem]
      split_ifs with h
      · exact List.mem_cons_self
      · exact List.mem_cons_of_mem _ ih

lemma eq_or_mem_of_mem_setItem (h : (k, v) ∈ setItem key value d) :
    (k, v) = (key, value) ∨ (k, v) ∈ d := by
  induction d with
  | nil => exact Or.inl (List.mem_singleton.mp h)
  | cons e d ih =>
      obtain ⟨k', v'⟩ := e
      rw [setItem] at h
      split_ifs at h with heq
      · rcases List.mem_cons.mp h with h | h
        · exact Or.inl h
        · exact Or.inr (List.mem_cons_of_mem _ h)
      · rcases List.mem_cons.mp h with h | h
        · exact Or.inr (List.mem_cons.mpr (Or.inl h))
        · exact (ih h).imp id (List.mem_cons_of_mem _)

/-- A key that is there stays there. -/
lemma exists_mem_setItem (h : ∃ v, (k, v) ∈ d) : ∃ v, (k, v) ∈ setItem key value d := by
  by_cases hk : k = key
  · subst hk
    exact ⟨value, mem_setItem_self _ _ _⟩
  · obtain ⟨v, hv⟩ := h
    refine ⟨v, ?_⟩
    induction d with
    | nil => cases hv
    | cons e d ih =>
        obtain ⟨k', v'⟩ := e
        rw [setItem]
        rcases List.mem_cons.mp hv with heq | hmem
        · obtain ⟨rfl, rfl⟩ := Prod.mk.inj heq
          rw [if_neg hk]
          exact List.mem_cons_self
        · split_ifs with h
          · exact List.mem_cons_of_mem _ hmem
          · exact List.mem_cons_of_mem _ (ih hmem)

end Dictionary

/-- A condition that says that the node is ready. -/
def V1NodeCondition.Ready (c : V1NodeCondition) : Prop := c.status = "True" ∧ c.type = "Ready"

/-- What the capacities collected so far have in common. -/
def AllInRange (nodeCap : List (String × Row)) : Prop :=
  ∀ name cap, (name, cap) ∈ nodeCap → CapacityInRange cap

/-- The loop over the conditions of a node: the capacities stay in range, no node is
lost, and the node is there if it is ready. -/
lemma addNode_spec {n : V1Node} (h : ∀ i q, n.allocatable.get (resName i) = some q → Bounded [q])
    {nodeCap : List (String × Row)} (hcap : AllInRange nodeCap) :
    ∃ nodeCap', addNode nodeCap n = .ok nodeCap' ∧ AllInRange nodeCap'
      ∧ (∀ name, (∃ cap, (name, cap) ∈ nodeCap) → ∃ cap, (name, cap) ∈ nodeCap')
      ∧ ((∃ c ∈ n.conditions, c.Ready) → ∃ cap, (n.name, cap) ∈ nodeCap') := by
  obtain ⟨capacity, hcapacity, hrange⟩ := nodeCapacity_spec h
  unfold addNode
  simp only [hcapacity, Except.map]
  induction n.conditions generalizing nodeCap with
  | nil => exact ⟨nodeCap, rfl, hcap, fun _ h => h, fun ⟨c, hc, _⟩ => absurd hc List.not_mem_nil⟩
  | cons c cs ih =>
      by_cases hready : c.status = "True" ∧ c.type = "Ready"
      · have hset : AllInRange (setItem n.name capacity nodeCap) := by
          intro name cap hmem
          rcases eq_or_mem_of_mem_setItem hmem with heq | hmem
          · rw [(Prod.mk.inj heq).2]
            exact hrange
          · exact hcap name cap hmem
        obtain ⟨nodeCap', hfold, hrange', hkeep, -⟩ := ih hset
        refine ⟨nodeCap', ?_, hrange', fun name hname => hkeep name (exists_mem_setItem hname),
          fun _ => hkeep n.name ⟨capacity, mem_setItem_self _ _ _⟩⟩
        rw [List.foldlM_cons, if_pos hready]
        exact hfold
      · obtain ⟨nodeCap', hfold, hrange', hkeep, hthere⟩ := ih hcap
        refine ⟨nodeCap', ?_, hrange', hkeep, ?_⟩
        · rw [List.foldlM_cons, if_neg hready]
          exact hfold
        · rintro ⟨c', hc', hr⟩
          rcases List.mem_cons.mp hc' with rfl | hmem
          · exact absurd hr hready
          · exact hthere ⟨c', hmem, hr⟩

/-- The loop over the nodes. -/
lemma addNode_foldlM_spec {nodes : List V1Node}
    (h : ∀ n ∈ nodes, ∀ i q, n.allocatable.get (resName i) = some q → Bounded [q])
    {nodeCap : List (String × Row)} (hcap : AllInRange nodeCap) :
    ∃ nodeCap', nodes.foldlM addNode nodeCap = .ok nodeCap' ∧ AllInRange nodeCap'
      ∧ (∀ name, (∃ cap, (name, cap) ∈ nodeCap) → ∃ cap, (name, cap) ∈ nodeCap')
      ∧ ∀ n ∈ nodes, (∃ c ∈ n.conditions, c.Ready) → ∃ cap, (n.name, cap) ∈ nodeCap' := by
  induction nodes generalizing nodeCap with
  | nil => exact ⟨nodeCap, rfl, hcap, fun _ h => h, fun _ h => absurd h List.not_mem_nil⟩
  | cons n nodes ih =>
      obtain ⟨m, hstep, hrange, hkeep, hthere⟩ := addNode_spec (h n List.mem_cons_self) hcap
      obtain ⟨m', hfold, hrange', hkeep', hthere'⟩ :=
        ih (fun n hn => h n (List.mem_cons_of_mem _ hn)) hrange
      refine ⟨m', ?_, hrange', fun name hname => hkeep' name (hkeep name hname), ?_⟩
      · rw [List.foldlM_cons, hstep]
        exact hfold
      · intro n' hn' hready
        rcases List.mem_cons.mp hn' with rfl | hmem
        · exact hkeep' _ (hthere hready)
        · exact hthere' n' hmem hready

/-! ### The patches -/

/-- A patch carries the annotations of its node. -/
lemma nodeAnnotations_of_mem {client : CoreV1Api} {nodeAlloc : StringMap Row}
    {nodeCap : List (String × Row)} {name : String} {annot : StringMap String}
    (h : (name, annot) ∈ (annotateNodes client nodeAlloc nodeCap).1) :
    ∃ cap, nodeAnnotations cap (row nodeAlloc name) = .ok annot := by
  induction nodeCap with
  | nil => cases h
  | cons e rest ih =>
      obtain ⟨name', cap⟩ := e
      rw [annotateNodes] at h
      split at h
      · cases h
      · rename_i annot' hannot
        split_ifs at h
        · rcases List.mem_cons.mp h with heq | hmem
          · obtain ⟨rfl, rfl⟩ := Prod.mk.inj heq
            exact ⟨cap, hannot⟩
          · exact ih hmem
        · cases h

/-- The sums of a node are small numbers. -/
lemma Allocated.small {nodeAlloc : StringMap Row} {pods : List V1Pod}
    (h : Allocated nodeAlloc pods) (hcount : pods.length < 2 ^ 63)
    (hbounded : ∀ name i, Bounded (requestsOn pods name i)) (name : String) {i : Fin 5}
    (hi : i ≠ 0) : Small (row nodeAlloc name i) := by
  by_cases h2 : i = 2
  · subst h2
    obtain ⟨n, hn, hrow⟩ := h.count name
    have hlt : n < 10 ^ 22 := by omega
    refine ⟨Dec.ofInt n, by rw [hrow]; rfl, ?_⟩
    rw [Dec.value_ofInt, Int.cast_natCast, Nat.abs_cast]
    exact_mod_cast hlt
  · obtain ⟨d, hd, hle⟩ := (h.sums name i hi h2).exists_dec
    have hsize := (hbounded name i).size_lt
    refine ⟨d, hd, ?_⟩
    norm_num at hsize ⊢
    linarith

/-- Every node with a capacity is patched. -/
lemma exists_patch {client : CoreV1Api} (hpatch : ∀ name annot, client.patchNode name annot)
    {nodeAlloc : StringMap Row} (hcpu : ∀ name, ∃ n, row nodeAlloc name 0 = .int n)
    (hsmall : ∀ name i, i ≠ 0 → Small (row nodeAlloc name i)) {nodeCap : List (String × Row)}
    (hcap : AllInRange nodeCap) {name : String} {cap : Row} (h : (name, cap) ∈ nodeCap) :
    ∃ annot, (name, annot) ∈ (annotateNodes client nodeAlloc nodeCap).1 := by
  induction nodeCap with
  | nil => cases h
  | cons e rest ih =>
      obtain ⟨name', cap'⟩ := e
      have hrange := hcap name' cap' List.mem_cons_self
      have hround : ∀ i, ∃ free, freeOf (cap' i) (row nodeAlloc name' i) = .ok free ∧ True := by
        intro i
        by_cases hi : i = 0
        · obtain ⟨m, hm⟩ := hrange.cpu
          obtain ⟨n, hn⟩ := hcpu name'
          subst hi
          exact ⟨_, by rw [hm, hn]; rfl, trivial⟩
        · obtain ⟨free, hfree⟩ := freeOf_spec (hrange.small i hi) (hsmall name' i hi)
          exact ⟨free, hfree, trivial⟩
      obtain ⟨free, hfree, -⟩ := forEach_spec hround
      obtain ⟨annot', hannot⟩ : ∃ annot', nodeAnnotations cap' (row nodeAlloc name') = .ok annot' :=
        ⟨_, by rw [nodeAnnotations, hfree]; rfl⟩
      rw [annotateNodes, hannot]
      simp only [hpatch name' annot', if_true]
      rcases List.mem_cons.mp h with heq | hmem
      · exact ⟨annot', by rw [(Prod.mk.inj heq).1]; exact List.mem_cons_self⟩
      · obtain ⟨annot, hmem'⟩ := ih (fun n c hc => hcap n c (List.mem_cons_of_mem _ hc)) hmem
        exact ⟨annot, List.mem_cons_of_mem _ hmem'⟩

/-! ### What the scheduler reads -/

/-- The server answers with the nodes and takes every patch, and the quantities are in
range: all are accepted, the capacities are below `2 ^ 63`, and so are, on every node,
the sum of the requests of each resource and the number of pods. -/
structure CoreV1Api.InRange (client : CoreV1Api) (nodes : List V1Node) : Prop where
  listed : client.listNode = some nodes
  patched : ∀ name annot, client.patchNode name annot = true
  allocatable : ∀ n ∈ nodes, ∀ i q, n.allocatable.get (resName i) = some q → Bounded [q]
  requests : ∀ name i, Bounded (requestsOn client.listPodForAllNamespaces name i)
  count : client.listPodForAllNamespaces.length < 2 ^ 63

section Round

variable {client : CoreV1Api} {nodes : List V1Node} (h : client.InRange nodes)

include h in
/-- A round ends with the patches for the capacities and the sums that it collects. -/
lemma assess_eq : ∃ nodeCap nodeAlloc, assess client = annotateNodes client nodeAlloc nodeCap
    ∧ AllInRange nodeCap ∧ Allocated nodeAlloc client.listPodForAllNamespaces
    ∧ ∀ n ∈ nodes, (∃ c ∈ n.conditions, c.Ready) → ∃ cap, (n.name, cap) ∈ nodeCap := by
  obtain ⟨nodeCap, hnodeCap, hrange, -, hthere⟩ :=
    addNode_foldlM_spec h.allocatable (fun _ _ h => absurd h List.not_mem_nil)
  obtain ⟨nodeAlloc, hnodeAlloc, halloc⟩ := getNodeAllocation_spec h.requests
  refine ⟨nodeCap, nodeAlloc, ?_, hrange, halloc, hthere⟩
  have hcap : getNodeCapacity client = .ok nodeCap := by
    rw [getNodeCapacity, h.listed]
    exact hnodeCap
  rw [assess, hcap]
  simp only [hnodeAlloc]

include h in
/-- The text of a resource other than the CPU and the pods, in a patch of a round. -/
lemma text_of_mem_assess {name : String} {annot : StringMap String}
    (hmem : (name, annot) ∈ (assess client).1) {i : Fin 5} (hi : i = 1 ∨ i = 3 ∨ i = 4) :
    ∃ text, annot.get (requestedKey i) = some text
      ∧ (parseIntChecked text = .ok ⌊total (requestsOn client.listPodForAllNamespaces name i)⌋
        ↔ WholeUnits (requestsOn client.listPodForAllNamespaces name i)) := by
  obtain ⟨nodeCap, nodeAlloc, hassess, -, halloc, -⟩ := assess_eq h
  rw [hassess] at hmem
  obtain ⟨cap, hannot⟩ := nodeAnnotations_of_mem hmem
  have h0 : i ≠ 0 := by rintro rfl; revert hi; decide
  have h2 : i ≠ 2 := by rintro rfl; revert hi; decide
  have htotal : |total (requestsOn client.listPodForAllNamespaces name i)| < 2 ^ 63 :=
    (abs_total_le _).trans_lt (h.requests name i).size_lt
  exact ⟨_, get_requested hannot i, parseIntChecked_str_iff (halloc.sums name i h0 h2) htotal⟩

include h in
/-- The scheduler's reading of a node that carries the annotations of a round. -/
theorem requested_of_wholeUnits {node : Pigeon.NodeObject}
    (hmem : (node.name, node.annotations) ∈ (assess client).1) {i : Fin 5}
    (hi : i = 1 ∨ i = 3 ∨ i = 4)
    (hwhole : WholeUnits (requestsOn client.listPodForAllNamespaces node.name i)) :
    node.requested (requestedKey i)
      = ⌊total (requestsOn client.listPodForAllNamespaces node.name i)⌋ := by
  obtain ⟨text, hget, hiff⟩ := text_of_mem_assess h hmem hi
  rw [Pigeon.NodeObject.requested, hget]
  exact Pigeon.parseInt_eq_of_ok (hiff.mpr hwhole)

end Round

/-- Each round annotates every ready node. Of the memory, the GPUs and the ephemeral
storage, the scheduler reads the sum of the requests, rounded down, exactly when none of
these requests has a digit below the units. -/
theorem requested_text_read_iff {client : CoreV1Api} {nodes : List V1Node}
    (h : client.InRange nodes) {n : V1Node} (hn : n ∈ nodes)
    (hready : ∃ c ∈ n.conditions, c.Ready) :
    (∃ annot, (n.name, annot) ∈ (assess client).1)
      ∧ ∀ annot, (n.name, annot) ∈ (assess client).1 → ∀ i : Fin 5, i = 1 ∨ i = 3 ∨ i = 4 →
        ∃ text, annot.get (requestedKey i) = some text
          ∧ (parseIntChecked text
              = .ok ⌊total (requestsOn client.listPodForAllNamespaces n.name i)⌋
            ↔ WholeUnits (requestsOn client.listPodForAllNamespaces n.name i)) := by
  constructor
  · obtain ⟨nodeCap, nodeAlloc, hassess, hrange, halloc, hthere⟩ := assess_eq h
    obtain ⟨cap, hmem⟩ := hthere n hn hready
    rw [hassess]
    exact exists_patch h.patched halloc.cpu
      (fun name i hi => halloc.small h.count h.requests name hi) hrange hmem
  · intro annot hmem i hi
    exact text_of_mem_assess h hmem hi

/-- A ready node. -/
def readyNode : V1Node := ⟨"node1", [⟨"True", "Ready"⟩], ∅⟩

/-- A cluster of one ready node with one pod, which requests `memory`. -/
def onePod (memory : String) : CoreV1Api where
  listNode := some [readyNode]
  listPodForAllNamespaces :=
    [⟨some "node1", "Running", [⟨some ((∅ : StringMap Quantity).insert "memory" (.text memory))⟩]⟩]
  patchNode := fun _ _ => true

lemma requestsOn_onePod (memory : String) :
    requestsOn (onePod memory).listPodForAllNamespaces "node1" 1 = [.text memory] := by
  simp [requestsOn, onePod, V1Pod.runsOn, V1Pod.requests, V1Container.request, resName]

lemma onePod_inRange {memory : String} (h : Bounded [.text memory]) :
    (onePod memory).InRange [readyNode] where
  listed := rfl
  patched := fun _ _ => rfl
  allocatable := by
    intro n hn i q hq
    rw [List.mem_singleton.mp hn, readyNode, StringMap.get_empty] at hq
    cases hq
  requests := by
    intro name i
    have hnil : Bounded [] := ⟨fun _ h => absurd h List.not_mem_nil, by simp [size]⟩
    by_cases hname : name = "node1"
    · subst hname
      by_cases hi : i = 1
      · rw [hi, requestsOn_onePod]
        exact h
      · have hnone : requestsOn (onePod memory).listPodForAllNamespaces "node1" i = [] := by
          have hres : resName i ≠ "memory" := by
            revert hi
            fin_cases i <;> decide
          simp [requestsOn, onePod, V1Pod.runsOn, V1Pod.requests, V1Container.request,
            StringMap.get_insert, hres]
        rw [hnone]
        exact hnil
    · have hnone : requestsOn (onePod memory).listPodForAllNamespaces name i = [] := by
        simp [requestsOn, onePod, V1Pod.runsOn, Ne.symm hname]
      rw [hnone]
      exact hnil
  count := by simp [onePod]

/-- 64 MiB are read. -/
theorem requested_text_read_iff_mebibytes :
    ∃ annot text, ("node1", annot) ∈ (assess (onePod "64Mi")).1
      ∧ annot.get (requestedKey 1) = some text ∧ parseIntChecked text = .ok 67108864 := by
  have hread : (Quantity.text "64Mi").reading = some (⟨false, 64, 0⟩, some (.binary, 2)) := by
    decide
  have hparse : parseQuantity (.text "64Mi") = .ok (.fin ⟨false, 67108864, 0⟩) := by
    decide
  have hamount : (Quantity.text "64Mi").amount = (67108864 : ℤ) := by
    rw [Quantity.amount, hread]
    norm_num [Dec.value, Dec.sign, Base.toNat]
  have hbounded : Bounded [.text "64Mi"] := by
    refine ⟨fun q hq => ?_, ?_⟩
    · rw [List.mem_singleton.mp hq]
      exact ⟨_, hparse⟩
    · norm_num [size, hamount]
  obtain ⟨⟨annot, hmem⟩, hall⟩ := requested_text_read_iff (onePod_inRange hbounded)
    (List.mem_singleton.mpr rfl) ⟨_, List.mem_singleton.mpr rfl, rfl, rfl⟩
  obtain ⟨text, hget, hiff⟩ := hall annot hmem 1 (Or.inl rfl)
  have hwhole : WholeUnits [.text "64Mi"] := by
    intro q hq
    rw [List.mem_singleton.mp hq, Quantity.lastPlace, hread]
    decide
  have htotal : total [.text "64Mi"] = (67108864 : ℤ) := by simp [total, hamount]
  have hname : requestsOn (onePod "64Mi").listPodForAllNamespaces readyNode.name 1
      = [.text "64Mi"] := requestsOn_onePod _
  rw [hname, htotal, Int.floor_intCast] at hiff
  exact ⟨annot, text, hmem, hget, hiff.mpr hwhole⟩

/-- The same kind of request in thousandths, `128974848000m`: it is accepted and stands
for an integer, but its text has a point, and the scheduler reads no number. -/
theorem milli_memory_not_read :
    (onePod "128974848000m").InRange [readyNode]
      ∧ total (requestsOn (onePod "128974848000m").listPodForAllNamespaces "node1" 1) = 128974848
      ∧ (assess (onePod "128974848000m")).1.map (fun patch =>
          (patch.1, patch.2.get (requestedKey 1))) = [("node1", some "128974848.000")]
      ∧ parseIntChecked "128974848.000" = .error .errSyntax
      ∧ Pigeon.parseInt "128974848.000" = 0 := by
  have hread : (Quantity.text "128974848000m").reading
      = some (⟨false, 128974848000, 0⟩, some (.decimal, -1)) := by
    decide
  have hparse : parseQuantity (.text "128974848000m") = .ok (.fin ⟨false, 128974848000, -3⟩) := by
    decide
  have hamount : (Quantity.text "128974848000m").amount = 128974848 := by
    rw [Quantity.amount, hread]
    norm_num [Dec.value, Dec.sign, Base.toNat]
  have hbounded : Bounded [.text "128974848000m"] := by
    refine ⟨fun q hq => ?_, ?_⟩
    · rw [List.mem_singleton.mp hq]
      exact ⟨_, hparse⟩
    · norm_num [size, hamount]
  refine ⟨onePod_inRange hbounded, ?_, by decide, by decide, by decide⟩
  rw [requestsOn_onePod]
  simp [total, hamount]

end KubeSafeScheduler.Annotator
