import KubeSafeScheduler.Congestion.Priority
import KubeSafeScheduler.Safe.Overload
import KubeSafeScheduler.Safe.Requests
import KubeSafeScheduler.Server.Extender

/-!
The agents of the extender, `foo.go`, `congestion.go`, `safe.go` and `pigeon.go`, and what the
extender does with the arguments of a request, `predicate.go`, `prioritize.go` and `bind.go`.

* `ExtenderArgs`, `ExtenderFilterResult`; `Predicate.handler`, `Prioritize.handler`.
* `Predicate.handler_eq`: a node is kept, reported with its error, or left out.
* `AgentFile`, `AgentFile.init`: what each file adds to the router.
* `nodup_names`: no two files use one name, so that any choice of files starts.
-/

namespace KubeSafeScheduler.Server

open Httprouter (Panic colon star)
open Pigeon (NodeObject HostPriority ObjectiveType Orders Client)
open Safe (PodSpec)

/-! ### Arguments and results -/

/-- `ExtenderArgs`: pointers to the pod and to the list of nodes. -/
structure ExtenderArgs where
  pod : Option PodSpec
  nodes : Option (List NodeObject)

/-- `ExtenderFilterResult`. -/
structure ExtenderFilterResult where
  nodes : Option (List NodeObject)
  failedNodes : Option (StringMap String)
  error : String

/-- `ExtenderBindingArgs`. -/
structure ExtenderBindingArgs where
  podName : String
  podNamespace : String
  podUID : String
  node : String

variable {σ : Type}

namespace Predicate

/-- One round of the loop of `Handler`: the pod is read again for each node. -/
def handlerStep (p : Predicate PodSpec NodeObject) (pod : Option PodSpec)
    (st : List NodeObject × StringMap String) (node : NodeObject) :
    Except Panic (List NodeObject × StringMap String) :=
  match pod with
  | none => .error .nilPointer
  | some pod =>
      match p.func pod node with
      | (_, some err) => .ok (st.1, st.2.insert node.name err)
      | (true, none) => .ok (st.1 ++ [node], st.2)
      | (false, none) => .ok st

/-- `Handler`. -/
def handler (p : Predicate PodSpec NodeObject) (args : ExtenderArgs) :
    Except Panic ExtenderFilterResult :=
  match args.nodes with
  | none => .error .nilPointer
  | some nodes => do
      let (canSchedule, canNotSchedule) ← nodes.foldlM (p.handlerStep args.pod) ([], ∅)
      .ok { nodes := some canSchedule, failedNodes := some canNotSchedule, error := "" }

/-- The predicate accepts the node. -/
def accepts (p : Predicate PodSpec NodeObject) (pod : PodSpec) (node : NodeObject) : Bool :=
  p.func pod node == (true, none)

/-- The loop of `Handler`. -/
lemma foldlM_handlerStep (p : Predicate PodSpec NodeObject) (pod : PodSpec)
    (nodes : List NodeObject) (kept : List NodeObject) (failed : StringMap String) :
    ∃ failed', nodes.foldlM (p.handlerStep (some pod)) (kept, failed)
        = .ok (kept ++ nodes.filter (p.accepts pod), failed')
      ∧ (∀ name err, failed'.get name = some err → failed.get name = some err
        ∨ ∃ node ∈ nodes, node.name = name ∧ (p.func pod node).2 = some err)
      ∧ ∀ name, (failed'.get name).isSome ↔ (failed.get name).isSome
        ∨ ∃ node ∈ nodes, node.name = name ∧ (p.func pod node).2.isSome := by
  induction nodes generalizing kept failed with
  | nil =>
      refine ⟨failed, ?_, fun name err h => .inl h, fun name => ?_⟩
      · rw [List.foldlM_nil, List.filter_nil, List.append_nil]
        rfl
      · simp
  | cons node nodes ih =>
      simp only [List.foldlM_cons, List.mem_cons, exists_eq_or_imp]
      rcases hfunc : p.func pod node with ⟨result, _ | err⟩
      · cases result with
        | true =>
            obtain ⟨failed', hloop, hfrom, hsome⟩ := ih (kept ++ [node]) failed
            have haccept : p.accepts pod node = true := by
              rw [accepts, hfunc]
              rfl
            refine ⟨failed', ?_, fun name err h => (hfrom name err h).imp_right .inr, fun name => ?_⟩
            · rw [List.filter_cons_of_pos haccept, List.append_cons]
              simp only [handlerStep, hfunc]
              exact hloop
            · simp [hsome name]
        | false =>
            obtain ⟨failed', hloop, hfrom, hsome⟩ := ih kept failed
            have hreject : ¬p.accepts pod node = true := by
              rw [accepts, hfunc]
              exact Bool.false_ne_true
            refine ⟨failed', ?_, fun name err h => (hfrom name err h).imp_right .inr, fun name => ?_⟩
            · rw [List.filter_cons_of_neg hreject]
              simp only [handlerStep, hfunc]
              exact hloop
            · simp [hsome name]
      · obtain ⟨failed', hloop, hfrom, hsome⟩ := ih kept (failed.insert node.name err)
        refine ⟨failed', ?_, fun name err' h => ?_, fun name => ?_⟩
        · have hreject : ¬p.accepts pod node = true := by
            rw [accepts, hfunc]
            cases result <;> exact Bool.false_ne_true
          rw [List.filter_cons_of_neg hreject]
          simp only [handlerStep, hfunc]
          exact hloop
        · rcases hfrom name err' h with hold | hlater
          · rw [StringMap.get_insert] at hold
            split_ifs at hold with hname
            · exact .inr (.inl ⟨hname.symm, hold⟩)
            · exact .inl hold
          · exact .inr (.inr hlater)
        · rw [hsome, StringMap.get_insert]
          split_ifs with hname
          · simp [hname]
          · simp [Ne.symm hname]

/-- `Handler` keeps the accepted nodes in their order, and reports the names of those with an
error; a node that is refused without an error is left out without a word. -/
lemma handler_eq (p : Predicate PodSpec NodeObject) (pod : PodSpec) (nodes : List NodeObject) :
    ∃ failed, p.handler ⟨some pod, some nodes⟩
        = .ok ⟨some (nodes.filter (p.accepts pod)), some failed, ""⟩
      ∧ (∀ name err, failed.get name = some err →
        ∃ node ∈ nodes, node.name = name ∧ (p.func pod node).2 = some err)
      ∧ ∀ name, (failed.get name).isSome
        ↔ ∃ node ∈ nodes, node.name = name ∧ (p.func pod node).2.isSome := by
  obtain ⟨failed, hloop, hfrom, hsome⟩ := p.foldlM_handlerStep pod nodes [] ∅
  refine ⟨failed, ?_, fun name err h => ?_, fun name => ?_⟩
  · rw [handler]
    dsimp only
    rw [hloop]
    rfl
  · refine (hfrom name err h).resolve_left ?_
    rw [StringMap.get_empty]
    nofun
  · rw [hsome name, StringMap.get_empty]
    simp

/-- A function without errors has no failed nodes reported. -/
lemma handler_of_no_errors {p : Predicate PodSpec NodeObject}
    (hp : ∀ pod node, (p.func pod node).2 = none) (pod : PodSpec) (nodes : List NodeObject) :
    ∃ failed, p.handler ⟨some pod, some nodes⟩
        = .ok ⟨some (nodes.filter (p.accepts pod)), some failed, ""⟩
      ∧ ∀ name, failed.get name = none := by
  obtain ⟨failed, hhandler, -, hfailed⟩ := p.handler_eq pod nodes
  refine ⟨failed, hhandler, fun name => ?_⟩
  rw [← Option.not_isSome_iff_eq_none, hfailed]
  rintro ⟨node, -, -, hsome⟩
  rw [hp] at hsome
  cases hsome

/-- Without a pod there is a panic, unless there are no nodes. -/
lemma handler_of_no_pod (p : Predicate PodSpec NodeObject) {nodes : List NodeObject}
    (hne : nodes ≠ []) : p.handler ⟨none, some nodes⟩ = .error .nilPointer := by
  obtain ⟨node, nodes, rfl⟩ := List.exists_cons_of_ne_nil hne
  rfl

end Predicate

/-- `Handler`: both pointers are read. -/
def Prioritize.handler (p : Prioritize PodSpec NodeObject σ) (args : ExtenderArgs) (s : σ) :
    Except Panic (Except String (List HostPriority)) × σ :=
  match args.pod, args.nodes with
  | some pod, some nodes => p.func pod nodes s
  | _, _ => (.error .nilPointer, s)

/-! ### The agents -/

/-- What the agents find in their environment: the settings of each agent and the contents of
the configuration file, if it can be read. -/
structure Settings (K : Type) where
  version : String
  safe : Safe.Context K
  congestionFactorMax : String
  config : Option (ℤ × ObjectiveType)
  policyObjective : Option String

/-- The number of requests so far, and the variable `PigeonAgent`. -/
structure Agents (n : ℕ) (K : Type) where
  served : ℕ
  pigeon : Option (Client n K)

section Code

variable {n : ℕ} {K : Type}

lemma static_congestion : colon ∉ bytes "congestion" ∧ star ∉ bytes "congestion" := by decide

lemma static_safe_overload : colon ∉ bytes "safe-overload" ∧ star ∉ bytes "safe-overload" := by
  decide

lemma static_safe_balance : colon ∉ bytes "safe-balance" ∧ star ∉ bytes "safe-balance" := by
  decide

lemma static_pigeon_holing : colon ∉ bytes "pigeon-holing" ∧ star ∉ bytes "pigeon-holing" := by
  decide

/-- `fooPredicate`. -/
def fooPredicate : Predicate PodSpec NodeObject where
  name := ⟨bytes "foo", static_foo⟩
  func := fun _ _ => (true, none)

/-- `fooPriority`. -/
def fooPriority : Prioritize PodSpec NodeObject (Agents n K) where
  name := ⟨bytes "foo", static_foo⟩
  func := fun _ nodes s => (.ok (.ok (nodes.map fun node => { host := node.name, score := 1 })), s)

/-- `congestionPriority`. -/
def congestionPriority (c : Settings K) : Prioritize PodSpec NodeObject (Agents n K) where
  name := ⟨bytes "congestion", static_congestion⟩
  func := fun _ nodes s => (.ok (.ok (Congestion.priorityFunc c.congestionFactorMax nodes)), s)

variable [Field K] [LinearOrder K]

/-- `safeOverloadPredicate`. -/
def safeOverloadPredicate (c : Settings K) : Predicate PodSpec NodeObject where
  name := ⟨bytes "safe-overload", static_safe_overload⟩
  func := fun pod node => (c.safe.predicateFunc pod.safePod node, none)

variable [HasSqrt K] [FloorRing K]

/-- The priority list of the safe agent. -/
def safePriorityFunc (c : Settings K) (pod : PodSpec) (nodes : List NodeObject)
    (isBalance : Bool) : List HostPriority :=
  (c.safe.priorityFunc pod.safePod nodes isBalance).map fun p =>
    { host := p.host, score := p.score }

/-- The entry of a node in it. -/
def safeEntry (c : Settings K) (isBalance : Bool) (pod : PodSpec) (node : NodeObject) :
    HostPriority where
  host := node.name
  score := c.safe.nodeScore (Safe.getResourceRequest pod.safePod) isBalance node

lemma safePriorityFunc_eq (c : Settings K) (pod : PodSpec) (nodes : List NodeObject)
    (isBalance : Bool) :
    safePriorityFunc c pod nodes isBalance = nodes.map (safeEntry c isBalance pod) := List.map_map

/-- `safeBalancePriority`. -/
def safeBalancePriority (c : Settings K) : Prioritize PodSpec NodeObject (Agents n K) where
  name := ⟨bytes "safe-balance", static_safe_balance⟩
  func := fun pod nodes s => (.ok (.ok (safePriorityFunc c pod nodes true)), s)

/-- `safeOverloadPriority`. -/
def safeOverloadPriority (c : Settings K) : Prioritize PodSpec NodeObject (Agents n K) where
  name := ⟨bytes "safe-overload", static_safe_overload⟩
  func := fun pod nodes s => (.ok (.ok (safePriorityFunc c pod nodes false)), s)

/-- `PigeonPriority`. The orders in which the maps are listed are given, for each request. -/
def pigeonPriority (orders : ℕ → Orders) : Prioritize PodSpec NodeObject (Agents n K) where
  name := ⟨bytes "pigeon-holing", static_pigeon_holing⟩
  func := fun pod nodes s =>
    let (list, pigeon) := Pigeon.priorityFunc (orders s.served) s.pigeon pod.pigeonPod nodes
    (match list with
      | some list => .ok (.ok list)
      | none => .error .range, { s with pigeon })

/-- The files with an `init` function; all but `main.go` can be left out of a build. -/
inductive AgentFile where
  | congestion
  | foo
  | main
  | pigeon
  | safe
  deriving DecidableEq

/-- The `init` function of a file. -/
def AgentFile.init (c : Settings K) (orders : ℕ → Orders) :
    AgentFile → Init PodSpec NodeObject (Agents n K)
  | .congestion => .agent [] [congestionPriority c]
  | .foo => .agent [fooPredicate] [fooPriority]
  | .main => .main
  | .pigeon => .agent [] [pigeonPriority orders]
  | .safe => .agent [safeOverloadPredicate c] [safeBalancePriority c, safeOverloadPriority c]

end Code

/-! ### The names of the agents -/

section Names

variable {n : ℕ} {K : Type} [Field K] [LinearOrder K] [HasSqrt K] [FloorRing K]

/-- The predicates of a file, by their names. -/
def AgentFile.predicateNames : AgentFile → List Name
  | .foo => [⟨bytes "foo", static_foo⟩]
  | .safe => [⟨bytes "safe-overload", static_safe_overload⟩]
  | _ => []

/-- The priority functions of a file, by their names. -/
def AgentFile.priorityNames : AgentFile → List Name
  | .congestion => [⟨bytes "congestion", static_congestion⟩]
  | .foo => [⟨bytes "foo", static_foo⟩]
  | .main => []
  | .pigeon => [⟨bytes "pigeon-holing", static_pigeon_holing⟩]
  | .safe => [⟨bytes "safe-balance", static_safe_balance⟩,
      ⟨bytes "safe-overload", static_safe_overload⟩]

lemma map_name_predicates (c : Settings K) (orders : ℕ → Orders) (file : AgentFile) :
    (file.init c orders : Init PodSpec NodeObject (Agents n K)).predicates.map (·.name)
      = file.predicateNames := by
  cases file <;> rfl

lemma map_name_priorities (c : Settings K) (orders : ℕ → Orders) (file : AgentFile) :
    (file.init c orders : Init PodSpec NodeObject (Agents n K)).priorities.map (·.name)
      = file.priorityNames := by
  cases file <;> rfl

/-- No file uses a name twice. -/
lemma nodup_fileNames (file : AgentFile) :
    file.predicateNames.Nodup ∧ file.priorityNames.Nodup := by
  cases file <;> decide

/-- No two files use one name. -/
lemma names_disjoint {file file' : AgentFile} (hne : file ≠ file') :
    (∀ name ∈ file.predicateNames, name ∉ file'.predicateNames)
      ∧ ∀ name ∈ file.priorityNames, name ∉ file'.priorityNames := by
  revert hne
  cases file <;> cases file' <;> decide

/-- The names of any choice of files. -/
lemma nodup_names (c : Settings K) (orders : ℕ → Orders) {files : List AgentFile}
    (hnodup : files.Nodup) :
    let inits : List (Init PodSpec NodeObject (Agents n K)) := files.map (AgentFile.init c orders)
    ((allPredicates inits).map (·.name)).Nodup ∧ ((allPriorities inits).map (·.name)).Nodup := by
  intro inits
  have hpredicates : (allPredicates inits).map (·.name)
      = files.flatMap AgentFile.predicateNames := by
    rw [allPredicates, List.flatMap_map, List.map_flatMap]
    simp only [map_name_predicates]
  have hpriorities : (allPriorities inits).map (·.name)
      = files.flatMap AgentFile.priorityNames := by
    rw [allPriorities, List.flatMap_map, List.map_flatMap]
    simp only [map_name_priorities]
  rw [hpredicates, hpriorities, List.nodup_flatMap, List.nodup_flatMap]
  refine ⟨⟨fun file _ => (nodup_fileNames file).1, ?_⟩,
    fun file _ => (nodup_fileNames file).2, ?_⟩
  · exact hnodup.imp fun hne => (names_disjoint hne).1
  · exact hnodup.imp fun hne => (names_disjoint hne).2

end Names

end KubeSafeScheduler.Server
