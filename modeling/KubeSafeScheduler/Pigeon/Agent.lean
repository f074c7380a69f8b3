import KubeSafeScheduler.Pigeon.Adapter
import KubeSafeScheduler.Pigeon.Views

/-!
`pigeon/client.go`, `pigeon/agent.go` and `pigeon/priority.go`: the agent that
serves priority requests with one model of the cluster.

A request opens an update session, reports its nodes, closes the session, and
then evaluates its pod on the updated model. The orders in which maps are listed
on the way come with the request. A write past the end of the priority list,
which ends the request with a panic, is a result of `none`. The generation
number, which counts requests in 64 bits, is an integer.

* `Client.stateUpdateStart`, `stateUpdateNode`, `stateUpdateStop`,
  `getPodRanks`; `Agent.updateState`, `computeRank`, `priorityFunc`.
* `Client.Quiet`, `Client.Tidy`: what holds of the model between calls, and how
  each call changes the view.
* `Agent.updateState_spec`: after the update the model shows exactly the nodes of
  the request. `Client.Tidy.getPodRanks`: the evaluation leaves no trace but in
  the statistics.
* `Agent.priorityFunc_eq_fresh`: a request is answered as by a new agent.
-/

namespace KubeSafeScheduler.Pigeon

variable {n : ℕ} {K : Type}

/-! ### The client -/

/-- `Client`; the number of resources is the parameter `n`. -/
structure Client (n : ℕ) (K : Type) where
  eval : Evaluator n K
  genNum : ℤ

namespace Client

/-- Replace the updater. -/
def setUpdater (c : Client n K) (updater : StateUpdater n K) : Client n K :=
  { c with eval := { c.eval with updater := updater } }

/-- `NewClient`, from what the configuration file holds, if it can be read, and
the environment variable `POLICY_OBJECTIVE`, if it is set. -/
def new [Field K] [LinearOrder K] (config : Option (ℤ × ObjectiveType))
    (policyObjective : Option String) : Client n K :=
  let (policyresourceindex, policyobjective) := config.getD (0, .aBinpack)
  let eval := Evaluator.create policyresourceindex policyobjective
  { eval := match policyObjective with
      | some value => if 0 < value.length then eval.setpolicyobjective value else eval
      | none => eval
    genNum := 0 }

/-- `StateUpdateStart`. -/
def stateUpdateStart (ord : EnumOrder) (c : Client n K) : Bool × Client n K :=
  let (isStarted, updater) := c.eval.updater.start ord (c.genNum + 1)
  (isStarted, { c.setUpdater updater with genNum := c.genNum + 1 })

/-- `StateUpdateNode`: the template always has usages; without resources the
node is not passed on. -/
def stateUpdateNode (c : Client n K) (node : Node n) : Bool × Client n K :=
  if n = 0 then (false, c)
  else (true, c.setUpdater (c.eval.updater.updatePE node.id
    (fun i => toInt32 (node.resourceCapacity i)) (some node.resourceOverflow)
    (some fun i => toInt32 (node.resourceUsage i))))

/-- The loop of `UpdateState` in `agent.go`. -/
def updateNodes (c : Client n K) (nodes : List NodeObject) : Client n K :=
  nodes.foldl (fun c node => (c.stateUpdateNode (makeNodeTemplate node n)).2) c

/-- `StateUpdateStop`. -/
def stateUpdateStop (ord : EnumOrder) (c : Client n K) : Client n K :=
  c.setUpdater (c.eval.updater.stop ord)

variable [Field K] [LinearOrder K] [HasSqrt K] [FloorRing K]

/-- `GetPodRanks`: the values of the PEs, by name. -/
def getPodRanks (c : Client n K) (pr : PodRequest n) : StringMap (Option K) × Client n K :=
  let nameList := c.eval.cs.names
  let lec := c.eval.cs.mem.leCount
  let (cRanks, eval) := (c.eval.createLE pr.id pr.demand).eval lec
  (podRanks nameList cRanks, { c with eval := eval })

end Client

/-! ### The agent -/

/-- The orders in which the maps met by a request are listed: by `start` and
`stop`, by the two loops of `ComputeRank` and by that of `PriorityFunc`. -/
structure Orders where
  start : EnumOrder
  stop : EnumOrder
  scan : EnumOrder
  fill : EnumOrder
  write : EnumOrder

/-- `schedulerapi.HostPriority`. -/
structure HostPriority where
  host : String
  score : ℤ
  deriving DecidableEq, Repr

/-- The loop of `PriorityFunc` that writes the list: position by position, with
a panic past the end. -/
def writeList (priorityList : List HostPriority) (i : ℕ) :
    List (String × ℤ) → Option (List HostPriority)
  | [] => some priorityList
  | kv :: rest =>
      if i < priorityList.length then
        writeList (priorityList.set i { host := kv.1, score := kv.2 }) (i + 1) rest
      else none

namespace Agent

/-- `UpdateState`. -/
def updateState (o : Orders) (c : Client n K) (nodes : List NodeObject) : Bool × Client n K :=
  let (isStarted, c) := c.stateUpdateStart o.start
  if !isStarted then (false, c)
  else (true, (c.updateNodes nodes).stateUpdateStop o.stop)

variable [Field K] [LinearOrder K] [HasSqrt K] [FloorRing K]

/-- `ComputeRank`. -/
def computeRank (o : Orders) (c : Client n K) (pod : Pod) : StringMap ℤ × Client n K :=
  let (valueMap, c) := c.getPodRanks (createPodModel pod n)
  (Pigeon.computeRank o.scan o.fill valueMap, c)

/-- `PriorityFunc` with an agent: the list has one entry for each node, at first
without a host. -/
def priorityFunc (o : Orders) (c : Client n K) (pod : Pod) (nodes : List NodeObject) :
    Option (List HostPriority) × Client n K :=
  let c := (updateState o c nodes).2
  let (rankMap, c) := computeRank o c pod
  (writeList (List.replicate nodes.length { host := "", score := 0 }) 0
    (o.write.order rankMap.entries), c)

end Agent

/-- `PriorityFunc`: without an agent every node has score zero. -/
def priorityFunc [Field K] [LinearOrder K] [HasSqrt K] [FloorRing K] (o : Orders)
    (agent : Option (Client n K)) (pod : Pod) (nodes : List NodeObject) :
    Option (List HostPriority) × Option (Client n K) :=
  match agent with
  | none => (some (nodes.map fun node => { host := node.name, score := 0 }), none)
  | some c =>
      let (list, c) := Agent.priorityFunc o c pod nodes
      (list, some c)

/-! ### Writing the list -/

/-- Where there is room, the entries are written one after the other and the
rest of the list stays. -/
lemma writeList_eq (written rest : List HostPriority) (kvs : List (String × ℤ))
    (hlen : kvs.length ≤ rest.length) :
    writeList (written ++ rest) written.length kvs
      = some (written ++ kvs.map (fun kv => { host := kv.1, score := kv.2 })
          ++ rest.drop kvs.length) := by
  induction kvs generalizing written rest with
  | nil => simp [writeList]
  | cons kv kvs ih =>
      cases rest with
      | nil => simp at hlen
      | cons x rest =>
          have hset : (written ++ x :: rest).set written.length { host := kv.1, score := kv.2 }
              = (written ++ [{ host := kv.1, score := kv.2 }]) ++ rest := by simp
          have hrest := ih (written ++ [{ host := kv.1, score := kv.2 }]) rest (by simpa using hlen)
          rw [List.length_append, List.length_singleton] at hrest
          rw [writeList, if_pos (by simp), hset, hrest]
          simp

/-- More entries than the list has room for end in a panic. -/
lemma writeList_eq_none (l : List HostPriority) (i : ℕ) (kvs : List (String × ℤ))
    (hlen : l.length < i + kvs.length) (hne : kvs ≠ []) : writeList l i kvs = none := by
  induction kvs generalizing l i with
  | nil => exact absurd rfl hne
  | cons kv kvs ih =>
      rw [writeList]
      split_ifs with hi
      · refine ih _ _ ?_ ?_
        · rw [List.length_set]
          rw [List.length_cons] at hlen
          omega
        · rintro rfl
          simp at hlen
          omega
      · rfl

/-! ### The model between calls -/

/-- The resource of a node in the model. -/
def NodeObject.resource (node : NodeObject) (n : ℕ) : Resource n where
  capacity := fun i => node.capacity i
  usage := fun i => node.usage i
  allowoverflow := fun _ => false

/-- The numbers reported for a node are not negative and below `2^31`. -/
def NodeObject.Reportable (node : NodeObject) (n : ℕ) : Prop :=
  ∀ i < n, (0 ≤ node.capacity i ∧ node.capacity i < 2 ^ 31)
    ∧ 0 ≤ node.usage i ∧ node.usage i < 2 ^ 31

instance (node : NodeObject) (n : ℕ) : Decidable (node.Reportable n) :=
  inferInstanceAs (Decidable (∀ i < n, _))

namespace Client

/-- The updater knows no LE, and its generation is behind the counter. -/
structure Quiet (c : Client n K) : Prop where
  podless : c.eval.updater.Podless
  gen : c.eval.updater.gen ≤ c.genNum

/-- `StateUpdateStart` is always accepted. -/
lemma Quiet.stateUpdateStart {c : Client n K} (h : c.Quiet) (ord : EnumOrder) :
    (c.stateUpdateStart ord).1 = true ∧ (c.stateUpdateStart ord).2.Quiet
      ∧ (c.stateUpdateStart ord).2.eval.cs.view = c.eval.updater.viewOnStop
      ∧ (c.stateUpdateStart ord).2.eval.cs.ds = c.eval.cs.ds
      ∧ (c.stateUpdateStart ord).2.eval.updater.started = true
      ∧ (c.stateUpdateStart ord).2.eval.updater.observedPEs = ∅ := by
  have hgen : c.eval.updater.gen < c.genNum + 1 := Int.lt_add_one_of_le h.gen
  obtain ⟨h1, h2, h3, h4, h5, h6⟩ := h.podless.start ord hgen
  exact ⟨(StateUpdater.start_spec h.podless.wf ord hgen).1, ⟨h1, h4.le⟩, h2, h3, h5, h6⟩

lemma Quiet.stateUpdateStop {c : Client n K} (h : c.Quiet) (ord : EnumOrder) :
    (c.stateUpdateStop ord).Quiet
      ∧ (c.stateUpdateStop ord).eval.cs.view = c.eval.updater.viewOnStop
      ∧ (c.stateUpdateStop ord).eval.cs.ds = c.eval.cs.ds
      ∧ (c.stateUpdateStop ord).eval.updater.started = false := by
  obtain ⟨h1, h2, h3, h4, h5⟩ := h.podless.stop ord
  exact ⟨⟨h1, h4.le.trans h.gen⟩, h2, h3, h5⟩

/-- `StateUpdateNode` in an open session: the node is observed and shown, and
the others are as before. -/
lemma Quiet.stateUpdateNode {c : Client n K} (h : c.Quiet) (hn : n ≠ 0)
    (hst : c.eval.updater.started = true) (node : Node n) :
    (c.stateUpdateNode node).2.Quiet
      ∧ (c.stateUpdateNode node).2.eval.updater.started = true
      ∧ (c.stateUpdateNode node).2.eval.updater.observedPEs
          = insert node.id c.eval.updater.observedPEs
      ∧ (c.stateUpdateNode node).2.eval.cs.ds = c.eval.cs.ds
      ∧ (∀ name, name ≠ node.id →
          (c.stateUpdateNode node).2.eval.cs.view name = c.eval.cs.view name)
      ∧ ((c.stateUpdateNode node).2.eval.cs.view node.id).isSome = true := by
  rw [Client.stateUpdateNode, if_neg hn]
  obtain ⟨h1, hr, h3, h4⟩ := h.podless.updatePE hst node.id
    (fun i => toInt32 (node.resourceCapacity i)) (some node.resourceOverflow)
    (some fun i => toInt32 (node.resourceUsage i))
  exact ⟨⟨h1, hr.gen.le.trans h.gen⟩, hr.started.trans hst, hr.observedPEs, hr.ds, h3, h4⟩

/-- No resource shown may overflow, and no usage shown is negative. -/
structure Tidy (c : Client n K) : Prop extends Quiet c where
  allowoverflow : ∀ name r, c.eval.cs.view name = some r → r.allowoverflow = fun _ => false
  usage : ∀ name r, c.eval.cs.view name = some r → ∀ i, 0 ≤ r.usage i

/-- A view that is part of a tidy one is tidy. -/
lemma Tidy.of_view {c c' : Client n K} (h : c.Tidy) (hq : c'.Quiet)
    (hview : ∀ name r, c'.eval.cs.view name = some r → c.eval.cs.view name = some r) : c'.Tidy :=
  ⟨hq, fun name r hr => h.allowoverflow name r (hview name r hr),
    fun name r hr => h.usage name r (hview name r hr)⟩

/-- `StateUpdateNode` for a node with reportable numbers. -/
lemma Tidy.stateUpdateNode {c : Client n K} (h : c.Tidy) (hn : n ≠ 0)
    (hst : c.eval.updater.started = true) {node : NodeObject} (hnode : node.Reportable n) :
    (c.stateUpdateNode (makeNodeTemplate node n)).2.Tidy
      ∧ (c.stateUpdateNode (makeNodeTemplate node n)).2.eval.cs.view
          = Function.update c.eval.cs.view node.name (some (node.resource n)) := by
  obtain ⟨h1, -, -, -, h5, -⟩ := h.toQuiet.stateUpdateNode hn hst (makeNodeTemplate node n)
  have hcap : (fun i : Fin n => toInt32 (node.capacity i)) = fun i : Fin n => node.capacity i := by
    funext i
    obtain ⟨⟨h0, hlt⟩, -⟩ := hnode i i.isLt
    exact toInt32_of_range (by omega) hlt
  have husage : (fun i : Fin n => toInt32 (node.usage i)) = fun i : Fin n => node.usage i := by
    funext i
    obtain ⟨-, h0, hlt⟩ := hnode i i.isLt
    exact toInt32_of_range (by omega) hlt
  have hself : (c.stateUpdateNode (makeNodeTemplate node n)).2.eval.cs.view node.name
      = some (node.resource n) := by
    rw [Client.stateUpdateNode, if_neg hn]
    simp only [makeNodeTemplate, hcap, husage]
    exact h.podless.view_updatePE hst node.name (fun i => (hnode i i.isLt).1.1)
      (fun i => (hnode i i.isLt).2.1) h.allowoverflow
  have hview : (c.stateUpdateNode (makeNodeTemplate node n)).2.eval.cs.view
      = Function.update c.eval.cs.view node.name (some (node.resource n)) := by
    funext name
    by_cases hname : name = node.name
    · rw [hname, hself, Function.update_self]
    · rw [Function.update_of_ne hname]
      exact h5 name hname
  have hshown : ∀ name r,
      (c.stateUpdateNode (makeNodeTemplate node n)).2.eval.cs.view name = some r →
      r = node.resource n ∨ c.eval.cs.view name = some r := by
    intro name r hr
    rw [hview, Function.update_apply] at hr
    split_ifs at hr
    · exact Or.inl (Option.some.inj hr).symm
    · exact Or.inr hr
  refine ⟨⟨h1, fun name r hr => ?_, fun name r hr => ?_⟩, hview⟩
  · rcases hshown name r hr with rfl | hr
    · rfl
    · exact h.allowoverflow name r hr
  · rcases hshown name r hr with rfl | hr
    · exact fun i => (hnode i i.isLt).2.1
    · exact h.usage name r hr

/-- The loop of `UpdateState` over nodes with distinct names: afterwards each of
them is observed and shown as reported. -/
lemma Tidy.updateNodes {c : Client n K} (h : c.Tidy) (hn : n ≠ 0)
    (hst : c.eval.updater.started = true) (nodes : List NodeObject)
    (hnd : (nodes.map NodeObject.name).Nodup) (hnodes : ∀ node ∈ nodes, node.Reportable n) :
    (c.updateNodes nodes).Tidy
      ∧ (c.updateNodes nodes).eval.updater.started = true
      ∧ (c.updateNodes nodes).eval.cs.ds = c.eval.cs.ds
      ∧ (c.updateNodes nodes).eval.policyobjective = c.eval.policyobjective
      ∧ (c.updateNodes nodes).eval.policyresourceindex = c.eval.policyresourceindex
      ∧ (∀ name, name ∈ (c.updateNodes nodes).eval.updater.observedPEs ↔
          name ∈ c.eval.updater.observedPEs ∨ ∃ node ∈ nodes, node.name = name)
      ∧ (∀ name, (∀ node ∈ nodes, node.name ≠ name) →
          (c.updateNodes nodes).eval.cs.view name = c.eval.cs.view name)
      ∧ ∀ node ∈ nodes,
          (c.updateNodes nodes).eval.cs.view node.name = some (node.resource n) := by
  induction nodes generalizing c with
  | nil => exact ⟨h, hst, rfl, rfl, rfl, by simp [Client.updateNodes], fun _ _ => rfl, by simp⟩
  | cons node nodes ih =>
      rw [List.map_cons, List.nodup_cons] at hnd
      obtain ⟨s1, s2⟩ := h.stateUpdateNode hn hst (hnodes node List.mem_cons_self)
      obtain ⟨-, q2, q3, q4, -, -⟩ := h.toQuiet.stateUpdateNode hn hst (makeNodeTemplate node n)
      have hpolicy : (c.stateUpdateNode (makeNodeTemplate node n)).2.eval.policyobjective
            = c.eval.policyobjective
          ∧ (c.stateUpdateNode (makeNodeTemplate node n)).2.eval.policyresourceindex
            = c.eval.policyresourceindex := by
        rw [Client.stateUpdateNode, if_neg hn]
        exact ⟨rfl, rfl⟩
      obtain ⟨i1, i2, i3, i4, i5, i6, i7, i8⟩ := ih s1 q2 hnd.2 fun x hx =>
        hnodes x (List.mem_cons_of_mem _ hx)
      have hcons : c.updateNodes (node :: nodes)
          = (c.stateUpdateNode (makeNodeTemplate node n)).2.updateNodes nodes := rfl
      have hother : ∀ x ∈ nodes, x.name ≠ node.name := fun x hx hc =>
        hnd.1 (List.mem_map.mpr ⟨x, hx, hc⟩)
      rw [hcons]
      refine ⟨i1, i2, i3.trans q4, i4.trans hpolicy.1, i5.trans hpolicy.2, fun name => ?_,
        fun name hname => ?_, fun x hx => ?_⟩
      · rw [i6, q3, Finset.mem_insert]
        simp only [List.mem_cons, exists_eq_or_imp, makeNodeTemplate]
        tauto
      · rw [i7 name fun x hx => hname x (List.mem_cons_of_mem _ hx), s2,
          Function.update_of_ne (Ne.symm (hname node List.mem_cons_self))]
      · rcases List.mem_cons.mp hx with rfl | hx
        · -- later nodes have other names
          rw [i7 x.name hother, s2, Function.update_self]
        · exact i8 x hx

/-! ### Evaluation of a pod -/

variable [Field K] [LinearOrder K] [HasSqrt K] [FloorRing K]

/-- `GetPodRanks` leaves the names shown and the session as they are. -/
lemma Quiet.getPodRanks {c : Client n K} (h : c.Quiet) (pr : PodRequest n) :
    (c.getPodRanks pr).2.Quiet
      ∧ (c.getPodRanks pr).2.eval.cs.getPE = c.eval.cs.getPE
      ∧ (c.getPodRanks pr).2.eval.updater.started = c.eval.updater.started
      ∧ (c.getPodRanks pr).2.eval.updater.observedPEs = c.eval.updater.observedPEs
      ∧ (c.getPodRanks pr).2.eval.policyobjective = c.eval.policyobjective
      ∧ (c.getPodRanks pr).2.eval.policyresourceindex = c.eval.policyresourceindex := by
  have hwf := Evaluator.wf_createLE h.podless.wf pr.id pr.demand
  have hl := Evaluator.unhosted_createLE h.podless.wf.cs pr.id pr.demand
  obtain ⟨m, hm, hres⟩ := Evaluator.eval_sameShape _ hl
  have hwf' := Evaluator.wf_eval hwf hl
  have heval : (c.getPodRanks pr).2.eval
      = ((c.eval.createLE pr.id pr.demand).eval c.eval.cs.mem.leCount).2 := rfl
  refine ⟨⟨⟨heval ▸ hwf', fun l => ?_, fun id => ?_⟩, ?_⟩, ?_, ?_, ?_, ?_, ?_⟩
  · rw [heval, hres]
    show (m.le l).host = none
    rw [hm.le]
    exact h.podless.host_createLE _ _ l
  · rw [heval, hres]
    exact h.podless.lemap id
  · rw [heval, hres]
    exact h.gen
  all_goals rw [heval, hres]; rfl

/-- The keys of the map that `GetPodRanks` returns are the names shown. -/
lemma Quiet.mem_getPodRanks {c : Client n K} (h : c.Quiet) (pr : PodRequest n) (k : String) :
    (∃ v, (c.getPodRanks pr).1.get k = some v) ↔ k ∈ c.eval.cs.names := by
  have hnd : c.eval.cs.names.Nodup := h.podless.wf.cs.nodup_names
  have hlen := (c.eval.createLE pr.id pr.demand).length_eval c.eval.cs.mem.leCount
  have hzip : (c.eval.cs.names.zip
      ((c.eval.createLE pr.id pr.demand).eval c.eval.cs.mem.leCount).1).map Prod.fst
      = c.eval.cs.names :=
    List.map_fst_zip (by rw [hlen, CloudSystem.names, List.length_map]; rfl)
  rw [← hzip, List.mem_map]
  simp only [Client.getPodRanks, get_podRanks hnd, Prod.exists, exists_and_right, exists_eq_right]

/-- The system as `GetPodRanks` evaluates it: with the LE of the pod, and its
demand in the statistics. -/
def evaluated (c : Client n K) (pr : PodRequest n) : CloudSystem n K :=
  Evaluator.noteDemand (c.eval.createLE pr.id pr.demand).cs c.eval.cs.mem.leCount

omit [HasSqrt K] in
lemma evaluated_demand (c : Client n K) (pr : PodRequest n) :
    ((c.evaluated pr).mem.le c.eval.cs.mem.leCount).demand = pr.demand :=
  congrArg Le.demand (Memory.newLe_fst_le_self c.eval.cs.mem (Le.create pr.id pr.demand))

omit [HasSqrt K] in
lemma evaluated_ds (c : Client n K) (pr : PodRequest n) :
    (c.evaluated pr).ds = c.eval.cs.ds.map fun ds => ds.add pr.demand := by
  show c.eval.cs.ds.map (fun ds => ds.add ((c.evaluated pr).mem.le c.eval.cs.mem.leCount).demand)
    = _
  rw [evaluated_demand]

omit [HasSqrt K] in
lemma Quiet.wf_evaluated {c : Client n K} (h : c.Quiet) (pr : PodRequest n) :
    (c.evaluated pr).WF :=
  (Evaluator.wf_sameShape (Evaluator.wf_createLE h.podless.wf pr.id pr.demand)
    (Memory.SameShape.refl _) _).cs

/-- On usages that are not negative, `GetPodRanks` changes only the
statistics. -/
lemma Tidy.getPodRanks {c : Client n K} (h : c.Tidy) (pr : PodRequest n) :
    (c.getPodRanks pr).2.Tidy
      ∧ (c.getPodRanks pr).2.eval.cs.ds = c.eval.cs.ds.map (fun ds => ds.add pr.demand)
      ∧ ∀ p ∈ c.eval.cs.pes, (c.getPodRanks pr).1.get (c.eval.cs.mem.pe p).label
          = some (Evaluator.valueAt c.eval.policyobjective c.eval.policyresourceindex
              (c.evaluated pr) c.eval.cs.mem.leCount p) := by
  have hwf : c.eval.cs.WF := h.podless.wf.cs
  have hwf' := Evaluator.wf_createLE h.podless.wf pr.id pr.demand
  have hl := Evaluator.unhosted_createLE hwf pr.id pr.demand
  have hu : ∀ p ∈ c.eval.cs.pes, ∀ i, 0 ≤ (c.eval.cs.mem.pe p).resource.usage i := fun p hp =>
    h.usage _ _ (hwf.view_eq_some.mpr ⟨p, hp, rfl, rfl⟩)
  have heval := Evaluator.eval_eq (c.eval.createLE pr.id pr.demand) _ hl hu
  have hres : (c.getPodRanks pr).2.eval.cs = c.evaluated pr := by
    rw [Client.getPodRanks, heval]
    rfl
  refine ⟨h.of_view (h.toQuiet.getPodRanks pr).1 fun name r hr => ?_, ?_, fun p hp => ?_⟩
  · rw [hres] at hr
    exact hr
  · rw [hres, evaluated_ds]
  · exact Evaluator.get_podRanks_eval hwf'.cs (congrArg Prod.fst heval) hp

/-- Clients with one view and one policy, and with the same statistics if these
matter, return the same values. -/
lemma Tidy.getPodRanks_congr {c c' : Client n K} (h : c.Tidy) (h' : c'.Tidy)
    (hview : c.eval.cs.view = c'.eval.cs.view)
    (hobj : c.eval.policyobjective = c'.eval.policyobjective)
    (hindex : c.eval.policyresourceindex = c'.eval.policyresourceindex)
    (hds : c.eval.policyobjective.usesStats = true → c.eval.cs.ds = c'.eval.cs.ds)
    (pr : PodRequest n) (k : String) :
    (c.getPodRanks pr).1.get k = (c'.getPodRanks pr).1.get k := by
  have hwf : c.eval.cs.WF := h.podless.wf.cs
  have hwf' : c'.eval.cs.WF := h'.podless.wf.cs
  have hkeys := h.toQuiet.mem_getPodRanks pr k
  have hkeys' := h'.toQuiet.mem_getPodRanks pr k
  rw [hwf.mem_names] at hkeys
  rw [hwf'.mem_names, ← hview] at hkeys'
  cases hk : c.eval.cs.view k with
  | none =>
      -- the name is not shown, so neither map has it
      have hnone : ∀ m : StringMap (Option K), ((∃ v, m.get k = some v) ↔
          (c.eval.cs.view k).isSome = true) → m.get k = none := by
        intro m hm
        rw [hk] at hm
        by_contra hne
        exact absurd (hm.mp (Option.ne_none_iff_exists'.mp hne)) (by simp)
      rw [hnone _ hkeys, hnone _ hkeys']
  | some r =>
      obtain ⟨p, hp, hlabel, -⟩ := hwf.view_eq_some.mp hk
      obtain ⟨p', hp', hlabel', -⟩ := hwf'.view_eq_some.mp (hview ▸ hk)
      have hvalue := (h.getPodRanks pr).2.2 p hp
      have hvalue' := (h'.getPodRanks pr).2.2 p' hp'
      rw [hlabel] at hvalue
      rw [hlabel'] at hvalue'
      rw [hvalue, hvalue', ← hobj, ← hindex]
      refine congrArg some (Evaluator.valueAt_congr (h.wf_evaluated pr) (h'.wf_evaluated pr) hview _
        (fun htype => ?_) ?_ hp hp' (hlabel.trans hlabel'.symm) _)
      · rw [evaluated_ds, evaluated_ds, hds htype]
      · rw [evaluated_demand, evaluated_demand]

end Client

/-! ### Requests -/

/-- Maps of values that agree give maps of scores that agree. -/
lemma computeRank_congr [Field K] [LinearOrder K] [FloorRing K] {m m' : StringMap (Option K)}
    (h : ∀ k, m.get k = m'.get k) (scan fill scan' fill' : EnumOrder) (k : String) :
    (computeRank scan fill m).get k = (computeRank scan' fill' m').get k := by
  have hext : extremes (m.entries.map Prod.snd) = extremes (m'.entries.map Prod.snd) :=
    extremes_perm ((StringMap.entries_perm h).map _)
  rw [get_computeRank, get_computeRank, h, hext]

/-- A request to the agent: the pod and the nodes, and the orders in which the
maps are listed on the way. -/
structure Request where
  orders : Orders
  pod : Pod
  nodes : List NodeObject

/-- The nodes have distinct names and reportable numbers. -/
structure Request.Valid (r : Request) (n : ℕ) : Prop where
  nodup : (r.nodes.map NodeObject.name).Nodup
  reportable : ∀ node ∈ r.nodes, node.Reportable n

namespace Agent

/-- `UpdateState` leaves a model that shows the nodes and nothing else. -/
lemma updateState_spec {c : Client n K} (h : c.Tidy) (hn : n ≠ 0) {r : Request} (hr : r.Valid n) :
    (updateState r.orders c r.nodes).2.Tidy
      ∧ (updateState r.orders c r.nodes).2.eval.cs.ds = c.eval.cs.ds
      ∧ (updateState r.orders c r.nodes).2.eval.policyobjective = c.eval.policyobjective
      ∧ (updateState r.orders c r.nodes).2.eval.policyresourceindex
          = c.eval.policyresourceindex
      ∧ ∀ name x, (updateState r.orders c r.nodes).2.eval.cs.view name = some x ↔
          ∃ node ∈ r.nodes, node.name = name ∧ node.resource n = x := by
  obtain ⟨s0, s1, s2, s3, s4, s5⟩ := h.toQuiet.stateUpdateStart r.orders.start
  have htidy : (c.stateUpdateStart r.orders.start).2.Tidy := h.of_view s1 fun name x hx => by
    rw [s2] at hx
    exact (StateUpdater.viewOnStop_eq_some.mp hx).2
  obtain ⟨i1, i2, i3, i4, i5, i6, i7, i8⟩ :=
    htidy.updateNodes hn s4 r.nodes hr.nodup hr.reportable
  obtain ⟨t1, t2, t3, -⟩ := i1.toQuiet.stateUpdateStop r.orders.stop
  have hres : (updateState r.orders c r.nodes).2 = (((c.stateUpdateStart r.orders.start).2
      ).updateNodes r.nodes).stateUpdateStop r.orders.stop := by
    simp only [updateState, s0]
    rfl
  rw [hres]
  refine ⟨i1.of_view t1 fun name x hx => ?_, t3.trans (i3.trans s3), i4, i5, fun name x => ?_⟩
  · rw [t2] at hx
    exact (StateUpdater.viewOnStop_eq_some.mp hx).2
  · rw [t2, StateUpdater.viewOnStop_eq_some, i6, s5]
    constructor
    · rintro ⟨hobs, hx⟩
      obtain ⟨node, hnode, rfl⟩ := (hobs i2).resolve_left (Finset.notMem_empty name)
      have hshown := i8 node hnode
      exact ⟨node, hnode, rfl, Option.some.inj (hshown.symm.trans hx)⟩
    · rintro ⟨node, hnode, rfl, rfl⟩
      exact ⟨fun _ => Or.inr ⟨node, hnode, rfl⟩, i8 node hnode⟩

variable [Field K] [LinearOrder K] [HasSqrt K] [FloorRing K]

/-- The scores are those of the names shown. -/
lemma getkeys_computeRank {c : Client n K} (h : c.Quiet) (o : Orders) (pod : Pod) :
    (computeRank o c pod).1.getkeys.Perm c.eval.cs.names := by
  have hnd : c.eval.cs.names.Nodup := h.podless.wf.cs.nodup_names
  refine (List.perm_ext_iff_of_nodup (StringMap.nodup_getkeys _) hnd).mpr fun k => ?_
  rw [StringMap.mem_getkeys, ← h.mem_getPodRanks (createPodModel pod n) k]
  simp only [computeRank, get_computeRank, Option.map_eq_some_iff]
  exact ⟨fun ⟨_, v, hv, _⟩ => ⟨v, hv⟩, fun ⟨v, hv⟩ => ⟨_, v, hv, rfl⟩⟩

/-- `PriorityFunc` on a tidy model: no write falls outside of the list, which
has the nodes of the request as its hosts. -/
lemma priorityFunc_spec {c : Client n K} (h : c.Tidy) (hn : n ≠ 0) {r : Request}
    (hr : r.Valid n) :
    ∃ l, (priorityFunc r.orders c r.pod r.nodes).1 = some l
      ∧ l = (r.orders.write.order (computeRank r.orders
          (updateState r.orders c r.nodes).2 r.pod).1.entries).map
            (fun kv => { host := kv.1, score := kv.2 })
      ∧ (l.map HostPriority.host).Perm (r.nodes.map NodeObject.name) := by
  obtain ⟨u1, -, -, -, u5⟩ := updateState_spec h hn hr
  set rankMap := (computeRank r.orders (updateState r.orders c r.nodes).2 r.pod).1 with hmap
  have hwf : (updateState r.orders c r.nodes).2.eval.cs.WF := u1.podless.wf.cs
  have hnames : (updateState r.orders c r.nodes).2.eval.cs.names.Perm
      (r.nodes.map NodeObject.name) := by
    refine (List.perm_ext_iff_of_nodup hwf.nodup_names hr.nodup).mpr fun name => ?_
    rw [hwf.mem_names, Option.isSome_iff_exists, List.mem_map]
    simp only [u5]
    exact ⟨fun ⟨_, node, hnode, hname, _⟩ => ⟨node, hnode, hname⟩,
      fun ⟨node, hnode, hname⟩ => ⟨_, node, hnode, hname, rfl⟩⟩
  have hkeys := (getkeys_computeRank u1.toQuiet r.orders r.pod).trans hnames
  rw [← hmap, ← StringMap.map_fst_entries] at hkeys
  have hlen : (List.replicate r.nodes.length (⟨"", 0⟩ : HostPriority)).length
      = (r.orders.write.order rankMap.entries).length := by
    have hlen' := hkeys.length_eq
    rw [List.length_map, List.length_map] at hlen'
    rw [List.length_replicate, EnumOrder.length_order, hlen']
  have hwrite := writeList_eq [] (List.replicate r.nodes.length ⟨"", 0⟩) _ hlen.ge
  rw [List.drop_eq_nil_of_le hlen.le, List.append_nil, List.nil_append] at hwrite
  refine ⟨_, hwrite, rfl, ?_⟩
  rw [List.nil_append, List.map_map]
  exact (((r.orders.write.perm rankMap.entries).map _)).trans hkeys

/-- Tidy models with the same policy, and with the same statistics if these
matter, answer requests for one pod and the same nodes alike, whatever the order
of the nodes. -/
lemma priorityFunc_perm {c c' : Client n K} (h : c.Tidy) (h' : c'.Tidy) (hn : n ≠ 0)
    (hobj : c.eval.policyobjective = c'.eval.policyobjective)
    (hindex : c.eval.policyresourceindex = c'.eval.policyresourceindex)
    (hds : c.eval.policyobjective.usesStats = true → c.eval.cs.ds = c'.eval.cs.ds)
    {r r' : Request} (hr : r.Valid n) (hr' : r'.Valid n) (hpod : r.pod = r'.pod)
    (hnodes : r.nodes.Perm r'.nodes) {l : List HostPriority}
    (hl : (priorityFunc r.orders c r.pod r.nodes).1 = some l) :
    ∃ l', (priorityFunc r'.orders c' r'.pod r'.nodes).1 = some l' ∧ l.Perm l' := by
  obtain ⟨u1, u2, u3, u4, u5⟩ := updateState_spec h hn hr
  obtain ⟨v1, v2, v3, v4, v5⟩ := updateState_spec h' hn hr'
  obtain ⟨l₁, hl₁, heq, -⟩ := priorityFunc_spec h hn hr
  obtain ⟨l₂, hl₂, heq', -⟩ := priorityFunc_spec h' hn hr'
  have hview : (updateState r.orders c r.nodes).2.eval.cs.view
      = (updateState r'.orders c' r'.nodes).2.eval.cs.view := by
    funext name
    ext x
    rw [u5, v5]
    simp only [hnodes.mem_iff]
  have hvalues := u1.getPodRanks_congr v1 hview (u3.trans (hobj.trans v3.symm))
    (u4.trans (hindex.trans v4.symm))
    (fun htype => u2.trans ((hds (u3 ▸ htype)).trans v2.symm)) (createPodModel r.pod n)
  rw [hpod] at hvalues
  have hentries := StringMap.entries_perm
    (computeRank_congr hvalues r.orders.scan r.orders.fill r'.orders.scan r'.orders.fill)
  refine ⟨l₂, hl₂, ?_⟩
  rw [show l = l₁ from Option.some.inj (hl.symm.trans hl₁), heq, heq', hpod]
  exact ((r.orders.write.perm _).trans (hentries.trans (r'.orders.write.perm _).symm)).map _

/-- Tidy models with the same policy, and with the same statistics if these
matter, answer a request alike. -/
lemma priorityFunc_congr {c c' : Client n K} (h : c.Tidy) (h' : c'.Tidy) (hn : n ≠ 0)
    (hobj : c.eval.policyobjective = c'.eval.policyobjective)
    (hindex : c.eval.policyresourceindex = c'.eval.policyresourceindex)
    (hds : c.eval.policyobjective.usesStats = true → c.eval.cs.ds = c'.eval.cs.ds)
    {r : Request} (hr : r.Valid n) (o : Orders) {l : List HostPriority}
    (hl : (priorityFunc r.orders c r.pod r.nodes).1 = some l) :
    ∃ l', (priorityFunc o c' r.pod r.nodes).1 = some l' ∧ l.Perm l' := by
  have hr' : ({ r with orders := o } : Request).Valid n := ⟨hr.nodup, hr.reportable⟩
  exact priorityFunc_perm h h' hn hobj hindex hds hr hr' rfl (List.Perm.refl _) hl

/-- What a request leaves behind: a tidy model, and the demand of its pod in the
statistics. -/
lemma priorityFunc_snd {c : Client n K} (h : c.Tidy) (hn : n ≠ 0) {r : Request}
    (hr : r.Valid n) :
    (priorityFunc r.orders c r.pod r.nodes).2.Tidy
      ∧ (priorityFunc r.orders c r.pod r.nodes).2.eval.cs.ds
          = c.eval.cs.ds.map (fun ds => ds.add (createPodModel r.pod n).demand)
      ∧ (priorityFunc r.orders c r.pod r.nodes).2.eval.policyobjective = c.eval.policyobjective
      ∧ (priorityFunc r.orders c r.pod r.nodes).2.eval.policyresourceindex
          = c.eval.policyresourceindex := by
  obtain ⟨u1, u2, u3, u4, -⟩ := updateState_spec h hn hr
  obtain ⟨g1, g2, -⟩ := u1.getPodRanks (createPodModel r.pod n)
  obtain ⟨-, -, -, -, q5, q6⟩ := u1.toQuiet.getPodRanks (createPodModel r.pod n)
  exact ⟨g1, g2.trans (by rw [u2]), q5.trans u3, q6.trans u4⟩

/-- The agent after a sequence of requests, one at a time. -/
def serve (c : Client n K) (history : List Request) : Client n K :=
  history.foldl (fun c r => (priorityFunc r.orders c r.pod r.nodes).2) c

/-- A pod in the statistics, without a request. -/
def feed (c : Client n K) (pod : Pod) : Client n K :=
  { c with eval := c.eval.setCs { c.eval.cs with
      ds := c.eval.cs.ds.map fun ds => ds.add (createPodModel pod n).demand } }

/-- A sequence of requests keeps the model tidy, and what it leaves in the
statistics are its pods. -/
lemma serve_spec {c c' : Client n K} (h : c.Tidy) (hn : n ≠ 0)
    (hds : c.eval.cs.ds = c'.eval.cs.ds) (history : List Request)
    (hvalid : ∀ r ∈ history, r.Valid n) :
    (serve c history).Tidy
      ∧ (serve c history).eval.cs.ds = ((history.map Request.pod).foldl feed c').eval.cs.ds
      ∧ (serve c history).eval.policyobjective = c.eval.policyobjective
      ∧ (serve c history).eval.policyresourceindex = c.eval.policyresourceindex := by
  induction history generalizing c c' with
  | nil => exact ⟨h, hds, rfl, rfl⟩
  | cons r history ih =>
      obtain ⟨p1, p2, p3, p4⟩ := priorityFunc_snd h hn (hvalid r List.mem_cons_self)
      have hds' : (priorityFunc r.orders c r.pod r.nodes).2.eval.cs.ds
          = (feed c' r.pod).eval.cs.ds := by
        rw [p2, hds]
        rfl
      obtain ⟨i1, i2, i3, i4⟩ := ih p1 hds' fun x hx => hvalid x (List.mem_cons_of_mem _ hx)
      exact ⟨i1, i2, i3.trans p3, i4.trans p4⟩

omit [HasSqrt K] in
/-- Pods in the statistics keep the model tidy. -/
lemma feed_spec {c : Client n K} (h : c.Tidy) (pods : List Pod) :
    (pods.foldl feed c).Tidy
      ∧ (pods.foldl feed c).eval.policyobjective = c.eval.policyobjective
      ∧ (pods.foldl feed c).eval.policyresourceindex = c.eval.policyresourceindex := by
  induction pods generalizing c with
  | nil => exact ⟨h, rfl, rfl⟩
  | cons pod pods ih =>
      have hwf := Evaluator.wf_sameShape h.podless.wf (Memory.SameShape.refl _)
        (c.eval.cs.ds.map fun ds => ds.add (createPodModel pod n).demand)
      exact ih (h.of_view ⟨⟨hwf, h.podless.host, h.podless.lemap⟩, h.gen⟩ fun _ _ hr => hr)

omit [HasSqrt K] [FloorRing K] in
lemma updater_new (config : Option (ℤ × ObjectiveType)) (policyObjective : Option String) :
    (Client.new config policyObjective : Client n K).eval.updater
      = (Evaluator.create (config.getD (0, .aBinpack)).1
          (config.getD (0, .aBinpack)).2).updater := by
  simp only [Client.new]
  cases policyObjective with
  | none => rfl
  | some value =>
      simp only
      split_ifs <;> rfl

omit [HasSqrt K] [FloorRing K] in
lemma view_new (config : Option (ℤ × ObjectiveType)) (policyObjective : Option String)
    (name : String) :
    (Client.new config policyObjective : Client n K).eval.cs.view name = none := by
  by_contra hne
  obtain ⟨x, hx⟩ := Option.ne_none_iff_exists'.mp hne
  rw [Evaluator.cs, updater_new, (Evaluator.wf_create _ _).cs.view_eq_some] at hx
  obtain ⟨p, hp, -⟩ := hx
  exact List.not_mem_nil hp

omit [HasSqrt K] [FloorRing K] in
/-- A new client has an empty model. -/
lemma tidy_new (config : Option (ℤ × ObjectiveType)) (policyObjective : Option String) :
    (Client.new config policyObjective : Client n K).Tidy := by
  have hview : ∀ name x, (Client.new config policyObjective : Client n K).eval.cs.view name
      ≠ some x := by
    intro name x hx
    rw [view_new] at hx
    exact absurd hx (by simp)
  refine ⟨⟨⟨?_, fun l => ?_, fun id => ?_⟩, ?_⟩, fun name x hx => absurd hx (hview name x),
    fun name x hx => absurd hx (hview name x)⟩
  · rw [updater_new]
    exact Evaluator.wf_create _ _
  · rw [updater_new]
    rfl
  · rw [updater_new]
    rfl
  · rw [updater_new]
    show (-1 : ℤ) ≤ 0
    decide

/-- The agent serves any sequence of requests, whatever nodes appear, disappear
or change, and then one more. No write falls outside of the list; the list has
one entry for each node of the request and no other host; and, up to the order,
it is the list of a new agent whose statistics were fed the pods of the earlier
requests. Under `LOAD_BALANCE` and `CONSOLIDATE` it is the list of a new agent. -/
theorem priorityFunc_eq_fresh (config : Option (ℤ × ObjectiveType))
    (policyObjective : Option String)
    (hindex : 0 ≤ (Client.new config policyObjective : Client n K).eval.policyresourceindex
      ∧ (Client.new config policyObjective : Client n K).eval.policyresourceindex < n)
    (history : List Request) (hvalid : ∀ r ∈ history, r.Valid n) (last : Request)
    (hlast : last.Valid n) (o : Orders) :
    ∃ l, (priorityFunc last.orders (serve (Client.new config policyObjective : Client n K) history)
          last.pod last.nodes).1 = some l
      ∧ (l.map HostPriority.host).Perm (last.nodes.map NodeObject.name)
      ∧ (∃ l', (priorityFunc o ((history.map Request.pod).foldl feed
            (Client.new config policyObjective : Client n K)) last.pod last.nodes).1 = some l'
          ∧ l.Perm l')
      ∧ ((Client.new config policyObjective : Client n K).eval.policyobjective = .loadBalance
            ∨ (Client.new config policyObjective : Client n K).eval.policyobjective = .consolidate →
          ∃ l', (priorityFunc o (Client.new config policyObjective : Client n K) last.pod
              last.nodes).1 = some l'
            ∧ l.Perm l') := by
  have hn : n ≠ 0 := by
    rintro rfl
    have := hindex.1.trans_lt hindex.2
    simp at this
  have hnew := tidy_new (n := n) (K := K) config policyObjective
  set c := (Client.new config policyObjective : Client n K) with hc
  obtain ⟨s1, s2, s3, s4⟩ := serve_spec hnew hn rfl history hvalid
  obtain ⟨f1, f2, f3⟩ := feed_spec hnew (history.map Request.pod)
  obtain ⟨l, hl, -, hhosts⟩ := priorityFunc_spec s1 hn hlast
  refine ⟨l, hl, hhosts, ?_, fun htype => ?_⟩
  · exact priorityFunc_congr s1 f1 hn (s3.trans f2.symm) (s4.trans f3.symm) (fun _ => s2) hlast o hl
  · refine priorityFunc_congr s1 hnew hn s3 s4 (fun huse => ?_) hlast o hl
    rw [s3] at huse
    rcases htype with ht | ht <;> rw [ht] at huse <;> exact absurd huse (by decide)

/-- A request for a pod without containers, with nodes of the given names and
CPUs. -/
def emptyPodRequest (nodes : List (String × ℤ)) : Request where
  orders := ⟨.stored, .stored, .stored, .stored, .stored⟩
  pod := { uid := "pod", containers := [] }
  nodes := nodes.map fun x =>
    { name := x.1, annotations := ∅, allocatable := { cpu := .units x.2 } }

/-- One node goes, one changes and one comes. -/
theorem priorityFunc_eq_fresh_nodes_change :
    ∃ l, (priorityFunc (emptyPodRequest [("b", 8), ("c", 4)]).orders
        (serve (Client.new (some (0, .loadBalance)) none : Client 1 ℝ)
          [emptyPodRequest [("a", 4), ("b", 4)]])
        (emptyPodRequest [("b", 8), ("c", 4)]).pod
        (emptyPodRequest [("b", 8), ("c", 4)]).nodes).1 = some l
      ∧ (l.map HostPriority.host).Perm ["b", "c"] := by
  have hvalid : ∀ r ∈ [emptyPodRequest [("a", 4), ("b", 4)]], r.Valid 1 := by
    intro r hr
    rw [List.mem_singleton.mp hr]
    exact ⟨by decide, by decide⟩
  have hlast : (emptyPodRequest [("b", 8), ("c", 4)]).Valid 1 := ⟨by decide, by decide⟩
  obtain ⟨l, hl, hhosts, -⟩ := priorityFunc_eq_fresh (n := 1) (K := ℝ) (some (0, .loadBalance)) none
    ⟨le_refl 0, Int.one_pos⟩ _ hvalid _ hlast ⟨.stored, .stored, .stored, .stored, .stored⟩
  exact ⟨l, hl, hhosts⟩

end Agent

end KubeSafeScheduler.Pigeon
