import KubeSafeScheduler.Pigeon.Reader

/-!
The accesses `resource_getcapacity(r)[index]` and `resource_getusage(r)[index]`
of `lbfn_getsystemvalue` and `consfn_getsystemvalue`, from the configuration file
and the environment through any sequence of requests.

The index comes from the file and the number of resources from the environment,
and nothing compares them.

* `Access`, `Resource.policyAccesses`, `Objfn.accesses`: the accesses of one
  value; `policyUtilization_eq_ofReads` is the value in terms of what they read.
* `Evaluator.accesses`, `Agent.accesses`: the accesses of an evaluation, those of
  its trials, and of a sequence of requests.
* `accessesInBounds_iff`: the configurations under which every access of every
  sequence of requests is inside of its array.
-/

namespace KubeSafeScheduler.Pigeon

open Utils (Hashmap Rand)

variable {n : ℕ} {K : Type}

/-! ### The accesses of a value -/

/-- An access to the array of capacities or of usages of a resource. -/
structure Access (n : ℕ) where
  array : Fin n → ℤ
  index : ℤ

namespace Access

/-- The index is that of an entry. -/
def InBounds (a : Access n) : Prop := 0 ≤ a.index ∧ a.index < n

instance (a : Access n) : Decidable a.InBounds := inferInstanceAs (Decidable (_ ∧ _))

/-- What the access reads. -/
def read (a : Access n) : ℤ := readAt a.array a.index

end Access

namespace Resource

/-- The accesses of one round of the loops of `lbfn_getsystemvalue` and
`consfn_getsystemvalue`: the usage is read where there is a capacity. -/
def policyAccesses (resindex : ℤ) (r : Resource n) : List (Access n) :=
  ⟨r.capacity, resindex⟩ ::
    if 0 < readAt r.capacity resindex then [⟨r.usage, resindex⟩] else []

/-- The utilization from what was read. -/
def utilizationOfReads [Field K] : List ℤ → K
  | [cap, usage] => (usage : K) / cap
  | _ => 1

/-- The utilization is a function of what the accesses read. -/
lemma policyUtilization_eq_ofReads [Field K] (resindex : ℤ) (r : Resource n) :
    (policyUtilization resindex r : K)
      = utilizationOfReads ((r.policyAccesses resindex).map Access.read) := by
  rw [policyUtilization, policyAccesses]
  split_ifs
  · rfl
  · rfl

end Resource

/-- The accesses of `objfn_getvalue`: the third objective has no index. -/
def Objfn.accesses (cs : CloudSystem n K) (type : ObjectiveType) (resindex : ℤ) :
    List (Access n) :=
  match type with
  | .loadBalance => cs.resources.flatMap (Resource.policyAccesses resindex)
  | .consolidate => cs.resources.flatMap (Resource.policyAccesses resindex)
  | _ => []

lemma Objfn.accesses_of_usesStats (cs : CloudSystem n K) {type : ObjectiveType}
    (htype : type.usesStats = true) (resindex : ℤ) : Objfn.accesses cs type resindex = [] := by
  cases type with
  | loadBalance => cases htype
  | consolidate => cases htype
  | _ => rfl

lemma Objfn.accesses_of_not_usesStats (cs : CloudSystem n K) {type : ObjectiveType}
    (htype : type.usesStats = false) (resindex : ℤ) :
    Objfn.accesses cs type resindex = cs.resources.flatMap (Resource.policyAccesses resindex) := by
  cases type with
  | loadBalance => rfl
  | consolidate => rfl
  | _ => cases htype

/-- Every access is at the index of the objective. -/
lemma Objfn.index_of_mem_accesses {cs : CloudSystem n K} {type : ObjectiveType} {resindex : ℤ}
    {a : Access n} (ha : a ∈ Objfn.accesses cs type resindex) :
    a.index = resindex ∧ type.usesStats = false := by
  cases htype : type.usesStats with
  | true =>
      rw [accesses_of_usesStats cs htype] at ha
      cases ha
  | false =>
      rw [accesses_of_not_usesStats cs htype] at ha
      obtain ⟨r, -, har⟩ := List.mem_flatMap.mp ha
      rw [Resource.policyAccesses] at har
      refine ⟨?_, rfl⟩
      rcases List.mem_cons.mp har with rfl | har
      · rfl
      · split_ifs at har
        · rw [List.mem_singleton.mp har]
        · cases har

/-! ### The accesses of an evaluation -/

namespace Evaluator

variable [Field K] [LinearOrder K] [FloorRing K]

/-- The accesses of `evaluator_eval`. -/
def accesses (e : Evaluator n K) (l : LeRef) : List (Access n) :=
  (trials l e.cs.pes (noteDemand e.cs l)).flatMap fun placed =>
    Objfn.accesses placed e.policyobjective e.policyresourceindex

/-- Every access is at the policy resource index. -/
lemma index_of_mem_accesses {e : Evaluator n K} {l : LeRef} {a : Access n}
    (ha : a ∈ e.accesses l) :
    a.index = e.policyresourceindex ∧ e.policyobjective.usesStats = false := by
  obtain ⟨placed, -, hplaced⟩ := List.mem_flatMap.mp ha
  exact Objfn.index_of_mem_accesses hplaced

/-- Where the LE fits on the first PE, the capacity of that PE is accessed. -/
lemma exists_mem_accesses {e : Evaluator n K} {l : LeRef}
    (htype : e.policyobjective.usesStats = false) {p : PeRef} {rest : List PeRef}
    (hpes : e.cs.pes = p :: rest) (hfit : Pe.canplaceLE e.cs.mem p l = true) :
    ∃ a ∈ e.accesses l, a.index = e.policyresourceindex := by
  have hplace : Pe.canplaceLE (noteDemand e.cs l).mem p l = true := hfit
  rw [accesses, hpes, trials, if_pos hplace, List.flatMap_cons,
    Objfn.accesses_of_not_usesStats _ htype]
  -- the system of the first trial has the same PEs
  set placed : CloudSystem n K := { noteDemand e.cs l with
    mem := (Pe.placeLE (noteDemand e.cs l).mem p l true).2 } with hplaced
  have hp : p ∈ placed.pes := by
    show p ∈ e.cs.pes
    rw [hpes]
    exact List.mem_cons_self
  have hmem : (placed.mem.pe p).resource ∈ placed.resources := List.mem_map.mpr ⟨p, hp, rfl⟩
  refine ⟨⟨(placed.mem.pe p).resource.capacity, e.policyresourceindex⟩, ?_, rfl⟩
  exact List.mem_append_left _ (List.mem_flatMap.mpr ⟨_, hmem, List.mem_cons_self⟩)

end Evaluator

/-! ### The accesses of a sequence of requests -/

namespace Client

/-- The configuration that the client was made with. -/
def policy (c : Client n K) : ℤ × ObjectiveType :=
  (c.eval.policyresourceindex, c.eval.policyobjective)

lemma policy_updateNodes (c : Client n K) (nodes : List NodeObject) :
    (c.updateNodes nodes).policy = c.policy := by
  induction nodes generalizing c with
  | nil => rfl
  | cons node nodes ih =>
      have hnode : (c.stateUpdateNode (makeNodeTemplate node n)).2.policy = c.policy := by
        rw [stateUpdateNode]
        split_ifs
        · rfl
        · rfl
      exact (ih _).trans hnode

end Client

namespace Agent

lemma policy_updateState (o : Orders) (c : Client n K) (nodes : List NodeObject) :
    (updateState o c nodes).2.policy = c.policy := by
  cases hstart : (c.stateUpdateStart o.start).1 with
  | false =>
      simp only [updateState, hstart]
      rfl
  | true =>
      simp only [updateState, hstart]
      exact Client.policy_updateNodes _ nodes

variable [Field K] [LinearOrder K] [HasSqrt K] [FloorRing K]

/-- No request changes the configuration. -/
lemma policy_priorityFunc (o : Orders) (c : Client n K) (pod : Pod) (nodes : List NodeObject) :
    (priorityFunc o c pod nodes).2.policy = c.policy :=
  policy_updateState o c nodes

/-- The accesses of `PriorityFunc`: those of the evaluation after the update. -/
def requestAccesses (c : Client n K) (r : Request) : List (Access n) :=
  let c := (updateState r.orders c r.nodes).2
  let pr := createPodModel r.pod n
  (c.eval.createLE pr.id pr.demand).accesses c.eval.cs.mem.leCount

/-- The accesses of a sequence of requests. -/
def accesses (c : Client n K) : List Request → List (Access n)
  | [] => []
  | r :: history =>
      requestAccesses c r ++ accesses (priorityFunc r.orders c r.pod r.nodes).2 history

/-- Every access of every sequence of requests is at the index of the
configuration. -/
lemma index_of_mem_accesses {c : Client n K} {history : List Request} {a : Access n}
    (ha : a ∈ accesses c history) :
    a.index = c.policy.1 ∧ c.policy.2.usesStats = false := by
  induction history generalizing c with
  | nil => cases ha
  | cons r history ih =>
      rw [accesses] at ha
      rcases List.mem_append.mp ha with ha | ha
      · have hpolicy := policy_updateState r.orders c r.nodes
        have hindex := Evaluator.index_of_mem_accesses ha
        rw [← hpolicy]
        exact hindex
      · rw [← policy_priorityFunc r.orders c r.pod r.nodes]
        exact ih ha

/-! ### A request with an access -/

/-- A request for a pod without containers, with one node that has room for
it. -/
def roomyRequest : Request where
  orders := ⟨.stored, .stored, .stored, .stored, .stored⟩
  pod := { uid := "pod", containers := [] }
  nodes := [{ name := "node", annotations := ∅,
              allocatable := { cpu := .units 4, memory := .units (2 ^ 34), pods := .units 110 } }]

lemma valid_roomyRequest {n : ℕ} (hn : n ≤ 5) : roomyRequest.Valid n := by
  have hfive : ∀ node ∈ roomyRequest.nodes, node.Reportable 5 := by decide
  exact ⟨by decide, fun node hnode i hi => hfive node hnode i (hi.trans_le hn)⟩

/-- The pod fits on the node. -/
lemma canuse_roomyRequest {n : ℕ} (hn : n ≤ 5) {node : NodeObject}
    (hnode : node ∈ roomyRequest.nodes) :
    (node.resource n).canuse (createPodModel roomyRequest.pod n).demand = true := by
  have hfive : ∀ node ∈ roomyRequest.nodes, ∀ i < 5,
      toInt32 ((getPodResourceRequested roomyRequest.pod).demand i)
        ≤ node.capacity i - node.usage i := by decide
  exact (Resource.canuse_iff _ _).mpr fun i => Or.inr (hfive node hnode i (i.isLt.trans_le hn))

/-- A client without nodes that gets this request accesses the capacity of the
node at its index. -/
lemma exists_mem_accesses_roomyRequest {c : Client n K} (h : c.Tidy) (hn : n ≠ 0) (hn5 : n ≤ 5)
    (htype : c.policy.2.usesStats = false) :
    ∃ a ∈ accesses c [roomyRequest], a.index = c.policy.1 := by
  obtain ⟨u1, -, u3, u4, u5⟩ := updateState_spec h hn (valid_roomyRequest hn5)
  set c' := (updateState roomyRequest.orders c roomyRequest.nodes).2 with hc'
  have hwf : c'.eval.cs.WF := u1.podless.wf.cs
  -- the model shows the node of the request and no other
  have hshown := (u5 "node" _).mpr ⟨_, List.mem_singleton_self _, rfl, rfl⟩
  obtain ⟨p, hp, -, -⟩ := hwf.view_eq_some.mp hshown
  obtain ⟨q, rest, hpes⟩ := List.exists_cons_of_ne_nil (List.ne_nil_of_mem hp)
  have hq : q ∈ c'.eval.cs.pes := by
    rw [hpes]
    exact List.mem_cons_self
  obtain ⟨node, hnode, -, hres⟩ := (u5 _ _).mp (hwf.view_eq_some.mpr ⟨q, hq, rfl, rfl⟩)
  set pr := createPodModel roomyRequest.pod n with hpr
  have hfit : Pe.canplaceLE (c'.eval.createLE pr.id pr.demand).cs.mem q c'.eval.cs.mem.leCount
      = true := by
    have hdemand : ((c'.eval.createLE pr.id pr.demand).cs.mem.le c'.eval.cs.mem.leCount).demand
        = pr.demand := c'.evaluated_demand pr
    rw [Pe.canplaceLE, hdemand]
    show (c'.eval.cs.mem.pe q).resource.canuse pr.demand = true
    rw [← hres]
    exact canuse_roomyRequest hn5 hnode
  obtain ⟨a, ha, hindex⟩ := Evaluator.exists_mem_accesses
    (e := c'.eval.createLE pr.id pr.demand) (u3 ▸ htype) hpes hfit
  exact ⟨a, List.mem_append_left _ ha, hindex.trans u4⟩

end Agent

/-! ### The configurations without an access outside -/

variable (K) [Field K] [LinearOrder K]

/-- Every access of every sequence of requests to the client made with the file
and the environment is inside of its array. -/
def AccessesInBounds [HasSqrt K] [FloorRing K] (rand : Rand) (content : List UInt8)
    (numResourcesValue policyObjectiveValue : String) : Prop :=
  ∀ config, Reader.create rand content = some config → ∀ history : List Request,
    ∀ a ∈ Agent.accesses (Client.new (some config) (some policyObjectiveValue) :
      Client (numResourcesOf numResourcesValue) K) history, a.InBounds

/-- The text that names the objective in effect: that of the environment, or else
that of the file. -/
def objectiveText (p : Hashmap String) (policyObjectiveValue : String) : Option String :=
  if 0 < policyObjectiveValue.length then some policyObjectiveValue else p.get "policyObjective"

/-- What a new client is configured with. -/
lemma policy_new (p : Hashmap String) (policyObjectiveValue : String) :
    (Client.new (some (Properties.policyResourceIndex p, Properties.policyObjective p))
        (some policyObjectiveValue) : Client n K).policy
      = (Properties.policyResourceIndex p,
          objtypeFromstring (objectiveText p policyObjectiveValue)) := by
  have hfile : Properties.policyObjective p = objtypeFromstring (p.get "policyObjective") := by
    rw [Properties.policyObjective]
    cases p.get "policyObjective" with
    | none => rfl
    | some value => rfl
  by_cases hset : 0 < policyObjectiveValue.length
  · simp only [objectiveText, Client.new, Client.policy, hset, if_true]
    rfl
  · simp only [objectiveText, Client.new, Client.policy, hset, if_false]
    exact Prod.ext rfl hfile

/-- For a file that is read, every access is inside of its array, whatever
requests come, exactly when the objective in effect reads no single resource, or
the index of the file is that of a resource of the model. -/
theorem accessesInBounds_iff [HasSqrt K] [FloorRing K] (rand : Rand) (content : List UInt8)
    {p : Hashmap String} (hp : Properties.readfromfile rand content = some p)
    (numResourcesValue policyObjectiveValue : String) :
    AccessesInBounds K rand content numResourcesValue policyObjectiveValue ↔
      ¬ (objectiveText p policyObjectiveValue = some "LOAD_BALANCE"
          ∨ objectiveText p policyObjectiveValue = some "CONSOLIDATE")
        ∨ 0 ≤ Properties.policyResourceIndex p
          ∧ Properties.policyResourceIndex p < numResourcesOf numResourcesValue := by
  obtain ⟨hpos, hle⟩ := numResourcesOf_bounds numResourcesValue
  set n := numResourcesOf numResourcesValue with hn
  have hcreate : Reader.create rand content
      = some (Properties.policyResourceIndex p, Properties.policyObjective p) := by
    rw [Reader.create, hp, Option.map_some]
  have hpolicy := policy_new (n := n) K p policyObjectiveValue
  have htype := usesStats_objtypeFromstring (objectiveText p policyObjectiveValue)
  constructor
  · intro h
    by_contra hnot
    rw [not_or, not_not] at hnot
    obtain ⟨a, ha, hindex⟩ := Agent.exists_mem_accesses_roomyRequest
      (Agent.tidy_new (n := n) (K := K) (some _) (some policyObjectiveValue)) hpos.ne' hle
      (by rw [hpolicy]; exact htype.mpr hnot.1)
    rw [hpolicy] at hindex
    have hin := h _ hcreate [Agent.roomyRequest] a ha
    rw [Access.InBounds, hindex] at hin
    exact hnot.2 hin
  · intro h config hconfig history a ha
    obtain rfl := Option.some.inj (hcreate.symm.trans hconfig)
    obtain ⟨hindex, hstats⟩ := Agent.index_of_mem_accesses ha
    rw [hpolicy] at hindex hstats
    have hbounds := h.resolve_left (not_not.mpr (htype.mp hstats))
    rw [Access.InBounds, hindex]
    exact hbounds

/-- A file that sets the policy resource index to the given digit. -/
def indexFile (digit : String) : List UInt8 :=
  ("policyResourceIndex = " ++ digit ++ "\npolicyObjective = LOAD_BALANCE\n").toUTF8.toList

theorem accessesInBounds_iff_memory :
    (Properties.readfromfile (fun _ => 0) (indexFile "1")).isSome = true
      ∧ AccessesInBounds ℝ (fun _ => 0) (indexFile "1") "" "" := by
  have hread : (Properties.readfromfile (fun _ => 0) (indexFile "1")).map
      Properties.policyResourceIndex = some 1 := by decide +kernel
  obtain ⟨p, hp, hindex⟩ := Option.map_eq_some_iff.mp hread
  refine ⟨Option.isSome_iff_exists.mpr ⟨p, hp⟩, ?_⟩
  refine (accessesInBounds_iff ℝ _ _ hp "" "").mpr (Or.inr ?_)
  rw [hindex]
  decide

/-- The index of a sixth resource, with the two resources of the default. -/
theorem not_accessesInBounds_sixthResource :
    ¬ AccessesInBounds ℝ (fun _ => 0) (indexFile "5") "" "" := by
  intro h
  have hcreate : Reader.create (fun _ => 0) (indexFile "5") = some (5, .loadBalance) := by
    decide +kernel
  obtain ⟨a, ha, hindex⟩ := Agent.exists_mem_accesses_roomyRequest
    (Agent.tidy_new (n := numResourcesOf "") (K := ℝ) (some (5, .loadBalance)) (some ""))
    (by decide) (by decide) rfl
  have hin := h _ hcreate [Agent.roomyRequest] a ha
  have hfive : a.index = 5 := hindex
  rw [Access.InBounds, hfive] at hin
  exact absurd hin (by decide)

end KubeSafeScheduler.Pigeon
