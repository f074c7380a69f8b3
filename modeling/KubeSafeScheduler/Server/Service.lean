import KubeSafeScheduler.Pigeon.RequestOrder
import KubeSafeScheduler.Server.Agents

/-!
The extender as it serves: any choice of the agents, in any order of their files, and any
sequence of requests, one at a time.

* `HttpRequest`, `Reply`, `Endpoint.reply`, `answer`, `run`: the handlers of `routes.go` behind
  the router.
* `boot_ok`, `offers_iff`: every build starts, and what it offers.
* `answer_pigeon`, `run_pigeon`: of all requests, those for the pigeon agent that have a pod
  and nodes reach it, in their order, and nothing else changes it.
-/

namespace KubeSafeScheduler.Server

open Httprouter (Panic Router Served)
open Pigeon (NodeObject HostPriority Orders Client createPodModel)
open Safe (PodSpec)

/-! ### Requests and replies -/

/-- A request, with what `json.NewDecoder(body).Decode` makes of its body as arguments of the
extender and as arguments for binding. -/
structure HttpRequest where
  method : String
  path : List UInt8
  extenderArgs : Except String ExtenderArgs
  bindingArgs : Except String ExtenderBindingArgs

/-- What the client gets. A panic of the program or with an error ends the connection. -/
inductive Reply where
  | version (text : String)
  | filter (result : ExtenderFilterResult)
  | priorities (list : List HostPriority)
  | binding (error : String)
  | panicked (cause : Panic ⊕ String)
  | redirected (code : ℕ) (path : List UInt8)
  | notAllowed
  | notFound

/-- The error of `NoBind`. -/
def noBind : String :=
  "Extender doesn't support Bind: make 'BindVerb' be empty in your ExtenderConfig"

section Code

variable {n : ℕ} {K : Type}

/-- `VersionRoute`, `PredicateRoute`, `PrioritizeRoute` and `BindRoute`. -/
def Endpoint.reply (version : String) (req : HttpRequest) (s : Agents n K) :
    Endpoint PodSpec NodeObject (Agents n K) → Reply × Agents n K
  | .version => (.version version, s)
  | .predicate p =>
      match req.extenderArgs with
      | .error err => (.filter { nodes := none, failedNodes := none, error := err }, s)
      | .ok args =>
          match p.handler args with
          | .ok result => (.filter result, s)
          | .error e => (.panicked (.inl e), s)
  | .prioritize p =>
      match req.extenderArgs with
      | .error err => (.panicked (.inr err), s)
      | .ok args =>
          match p.handler args s with
          | (.ok (.ok list), s) => (.priorities list, s)
          | (.ok (.error err), s) => (.panicked (.inr err), s)
          | (.error e, s) => (.panicked (.inl e), s)
  | .bind =>
      match req.bindingArgs with
      | .error err => (.binding err, s)
      | .ok _ => (.binding noBind, s)

/-- The lookup of the router that is given. -/
abbrev FindPath (n : ℕ) (K : Type) : Type :=
  Httprouter.Node (Endpoint PodSpec NodeObject (Agents n K)) → List UInt8 → Option (List UInt8)

/-- One request. -/
def answer (router : Router (Endpoint PodSpec NodeObject (Agents n K))) (findPath : FindPath n K)
    (version : String) (s : Agents n K) (req : HttpRequest) : Reply × Agents n K :=
  let (reply, s) := match router.serveHTTP findPath req.method req.path with
    | .handled endpoint => endpoint.reply version req s
    | .redirected code path => (.redirected code path, s)
    | .notAllowed => (.notAllowed, s)
    | .notFound => (.notFound, s)
  (reply, { s with served := s.served + 1 })

/-- A sequence of requests. -/
def run (router : Router (Endpoint PodSpec NodeObject (Agents n K))) (findPath : FindPath n K)
    (version : String) (s : Agents n K) (history : List HttpRequest) : Agents n K :=
  history.foldl (fun s req => (answer router findPath version s req).2) s

variable [Field K] [LinearOrder K] [HasSqrt K] [FloorRing K]

/-- The files of a build, in the order of their `init` functions. -/
def inits (c : Settings K) (orders : ℕ → Orders) (files : List AgentFile) :
    List (Init PodSpec NodeObject (Agents n K)) :=
  files.map (AgentFile.init c orders)

/-- The start of a build. -/
def boot (c : Settings K) (orders : ℕ → Orders) (files : List AgentFile) :
    Except Panic (Router (Endpoint PodSpec NodeObject (Agents n K))) :=
  start (inits c orders files)

/-- The agents after the start: the `init` function of `pigeon.go` makes an agent. -/
def initial (c : Settings K) (files : List AgentFile) : Agents n K where
  served := 0
  pigeon := if .pigeon ∈ files then some (Client.new c.config c.policyObjective) else none

end Code

/-! ### What a build offers -/

section Offers

variable {n : ℕ} {K : Type} [Field K] [LinearOrder K] [HasSqrt K] [FloorRing K]
  {c : Settings K} {orders : ℕ → Orders} {files : List AgentFile}

lemma main_mem_inits (hmain : .main ∈ files) :
    (.main : Init PodSpec NodeObject (Agents n K)) ∈ inits c orders files :=
  List.mem_map.mpr ⟨.main, hmain, rfl⟩

/-- Every build starts. -/
lemma boot_ok (c : Settings K) (orders : ℕ → Orders) (hmain : .main ∈ files)
    (hnodup : files.Nodup) :
    ∃ router : Router (Endpoint PodSpec NodeObject (Agents n K)),
      boot c orders files = .ok router :=
  (start_ok_iff (main_mem_inits hmain)).mpr (nodup_names c orders hnodup)

/-- The functions of the agents. -/
inductive AgentFunction where
  | congestionPriority
  | fooPredicate
  | fooPriority
  | pigeonPriority
  | safeBalancePriority
  | safeOverloadPredicate
  | safeOverloadPriority
  deriving DecidableEq

namespace AgentFunction

/-- The file of a function. -/
def file : AgentFunction → AgentFile
  | congestionPriority => .congestion
  | fooPredicate => .foo
  | fooPriority => .foo
  | pigeonPriority => .pigeon
  | safeBalancePriority => .safe
  | safeOverloadPredicate => .safe
  | safeOverloadPriority => .safe

/-- The path of a function. -/
def path : AgentFunction → List UInt8
  | congestionPriority => bytes "/scheduler/priorities/" ++ bytes "congestion"
  | fooPredicate => bytes "/scheduler/predicates/" ++ bytes "foo"
  | fooPriority => bytes "/scheduler/priorities/" ++ bytes "foo"
  | pigeonPriority => bytes "/scheduler/priorities/" ++ bytes "pigeon-holing"
  | safeBalancePriority => bytes "/scheduler/priorities/" ++ bytes "safe-balance"
  | safeOverloadPredicate => bytes "/scheduler/predicates/" ++ bytes "safe-overload"
  | safeOverloadPriority => bytes "/scheduler/priorities/" ++ bytes "safe-overload"

/-- A function, with the settings. -/
def endpoint (c : Settings K) (orders : ℕ → Orders) :
    AgentFunction → Endpoint PodSpec NodeObject (Agents n K)
  | congestionPriority => .prioritize (Server.congestionPriority c)
  | fooPredicate => .predicate Server.fooPredicate
  | fooPriority => .prioritize Server.fooPriority
  | pigeonPriority => .prioritize (Server.pigeonPriority orders)
  | safeBalancePriority => .prioritize (Server.safeBalancePriority c)
  | safeOverloadPredicate => .predicate (Server.safeOverloadPredicate c)
  | safeOverloadPriority => .prioritize (Server.safeOverloadPriority c)

lemma path_injective {f f' : AgentFunction} (h : f.path = f'.path) : f = f' := by
  revert h
  cases f <;> cases f' <;> decide

lemma path_ne_bindPath (f : AgentFunction) : bytes "/scheduler/bind" ≠ f.path := by
  cases f <;> decide

end AgentFunction

/-- What is at a path of a build: the version, the refusal to bind, and the functions of its
files. -/
inductive BuildOffers (c : Settings K) (orders : ℕ → Orders) (files : List AgentFile) :
    String → List UInt8 → Endpoint PodSpec NodeObject (Agents n K) → Prop
  | version : BuildOffers c orders files "GET" (bytes "/version") .version
  | bind : BuildOffers c orders files "POST" (bytes "/scheduler/bind") .bind
  | function {f : AgentFunction} : f.file ∈ files →
      BuildOffers c orders files "POST" f.path (f.endpoint c orders)

/-- The functions of a file. -/
lemma buildOffers_of_mem {file : AgentFile} (hfile : file ∈ files) :
    (∀ p ∈ (file.init c orders : Init PodSpec NodeObject (Agents n K)).predicates,
        BuildOffers (n := n) c orders files "POST" (bytes "/scheduler/predicates/" ++ p.name.1)
          (.predicate p))
      ∧ ∀ p ∈ (file.init c orders : Init PodSpec NodeObject (Agents n K)).priorities,
        BuildOffers c orders files "POST" (bytes "/scheduler/priorities/" ++ p.name.1)
          (.prioritize p) := by
  have hoffers : ∀ f : AgentFunction, f.file = file →
      BuildOffers (n := n) c orders files "POST" f.path (f.endpoint c orders) := by
    rintro f rfl
    exact .function hfile
  cases file with
  | congestion =>
      exact ⟨nofun, List.forall_mem_singleton.mpr (hoffers .congestionPriority rfl)⟩
  | foo =>
      exact ⟨List.forall_mem_singleton.mpr (hoffers .fooPredicate rfl),
        List.forall_mem_singleton.mpr (hoffers .fooPriority rfl)⟩
  | main => exact ⟨nofun, nofun⟩
  | pigeon => exact ⟨nofun, List.forall_mem_singleton.mpr (hoffers .pigeonPriority rfl)⟩
  | safe =>
      exact ⟨List.forall_mem_singleton.mpr (hoffers .safeOverloadPredicate rfl),
        List.forall_mem_cons.mpr ⟨hoffers .safeBalancePriority rfl,
          List.forall_mem_singleton.mpr (hoffers .safeOverloadPriority rfl)⟩⟩

lemma mem_allPredicates {f : AgentFunction} (hfile : f.file ∈ files)
    {p : Predicate PodSpec NodeObject}
    (hp : p ∈ (f.file.init c orders : Init PodSpec NodeObject (Agents n K)).predicates) :
    p ∈ allPredicates (inits c orders files : List (Init PodSpec NodeObject (Agents n K))) :=
  List.mem_flatMap.mpr ⟨_, List.mem_map.mpr ⟨f.file, hfile, rfl⟩, hp⟩

lemma mem_allPriorities {f : AgentFunction} (hfile : f.file ∈ files)
    {p : Prioritize PodSpec NodeObject (Agents n K)} (hp : p ∈ (f.file.init c orders).priorities) :
    p ∈ allPriorities (inits c orders files) :=
  List.mem_flatMap.mpr ⟨_, List.mem_map.mpr ⟨f.file, hfile, rfl⟩, hp⟩

lemma offers_iff {method : String} {path : List UInt8}
    {endpoint : Endpoint PodSpec NodeObject (Agents n K)} :
    Offers (inits c orders files) method path endpoint
      ↔ BuildOffers c orders files method path endpoint := by
  constructor
  · intro hoffers
    cases hoffers with
    | version => exact .version
    | bind => exact .bind
    | predicate hp =>
        obtain ⟨i, hi, hp⟩ := List.mem_flatMap.mp hp
        obtain ⟨file, hfile, rfl⟩ := List.mem_map.mp hi
        exact (buildOffers_of_mem hfile).1 _ hp
    | prioritize hp =>
        obtain ⟨i, hi, hp⟩ := List.mem_flatMap.mp hp
        obtain ⟨file, hfile, rfl⟩ := List.mem_map.mp hi
        exact (buildOffers_of_mem hfile).2 _ hp
  · intro hoffers
    cases hoffers with
    | version => exact .version
    | bind => exact .bind
    | @function f hfile =>
        cases f with
        | congestionPriority =>
            exact .prioritize (mem_allPriorities hfile (List.mem_singleton_self _))
        | fooPredicate =>
            exact .predicate (mem_allPredicates (n := n) hfile (List.mem_singleton_self _))
        | fooPriority => exact .prioritize (mem_allPriorities hfile (List.mem_singleton_self _))
        | pigeonPriority => exact .prioritize (mem_allPriorities hfile (List.mem_singleton_self _))
        | safeBalancePriority => exact .prioritize (mem_allPriorities hfile List.mem_cons_self)
        | safeOverloadPredicate =>
            exact .predicate (mem_allPredicates (n := n) hfile (List.mem_singleton_self _))
        | safeOverloadPriority =>
            exact .prioritize (mem_allPriorities hfile (List.mem_cons_of_mem _ List.mem_cons_self))

/-- What a request reaches. -/
lemma serveHTTP_iff (hmain : .main ∈ files)
    {router : Router (Endpoint PodSpec NodeObject (Agents n K))}
    (hrouter : boot c orders files = .ok router) (findPath : FindPath n K) {method : String}
    {path : List UInt8} {endpoint : Endpoint PodSpec NodeObject (Agents n K)} :
    router.serveHTTP findPath method path = .handled endpoint
      ↔ BuildOffers c orders files method path endpoint :=
  (handled_iff (main_mem_inits hmain) hrouter findPath).trans offers_iff

end Offers

/-! ### The pigeon agent among the requests -/

/-- The pod and the nodes of a request for the pigeon agent. -/
def HttpRequest.pigeonArgs (req : HttpRequest) : Option (Pigeon.Pod × List NodeObject) :=
  if req.method = "POST" ∧ req.path = AgentFunction.pigeonPriority.path then
    match req.extenderArgs with
    | .ok ⟨some pod, some nodes⟩ => some (pod.pigeonPod, nodes)
    | _ => none
  else none

section Steps

variable {n : ℕ} {K : Type} {router : Router (Endpoint PodSpec NodeObject (Agents n K))}
  {findPath : FindPath n K} {version : String} {s : Agents n K} {req : HttpRequest}

lemma answer_handled {endpoint : Endpoint PodSpec NodeObject (Agents n K)}
    (h : router.serveHTTP findPath req.method req.path = .handled endpoint) :
    (answer router findPath version s req).1 = (endpoint.reply version req s).1
      ∧ (answer router findPath version s req).2.pigeon
        = (endpoint.reply version req s).2.pigeon := by
  rw [answer, h]
  exact ⟨rfl, rfl⟩

/-- The replies of the router itself. -/
def Reply.Unserved : Reply → Prop
  | .redirected _ _ | .notAllowed | .notFound => True
  | _ => False

lemma answer_unhandled
    (h : ∀ endpoint, router.serveHTTP findPath req.method req.path ≠ .handled endpoint) :
    (answer router findPath version s req).1.Unserved
      ∧ (answer router findPath version s req).2.pigeon = s.pigeon := by
  rw [answer]
  cases hserved : router.serveHTTP findPath req.method req.path with
  | handled endpoint => exact absurd hserved (h endpoint)
  | redirected code path => exact ⟨trivial, rfl⟩
  | notAllowed => exact ⟨trivial, rfl⟩
  | notFound => exact ⟨trivial, rfl⟩

lemma reply_predicate_snd (p : Predicate PodSpec NodeObject) :
    ((Endpoint.predicate p).reply version req s).2 = s := by
  rw [Endpoint.reply]
  cases req.extenderArgs with
  | error err => rfl
  | ok args =>
      dsimp only
      cases p.handler args <;> rfl

lemma reply_bind_snd : (Endpoint.bind.reply version req s).2 = s := by
  rw [Endpoint.reply]
  cases req.bindingArgs <;> rfl

lemma reply_prioritize_snd (p : Prioritize PodSpec NodeObject (Agents n K)) :
    ((Endpoint.prioritize p).reply version req s).2 = match req.extenderArgs with
      | .ok ⟨some pod, some nodes⟩ => (p.func pod nodes s).2
      | _ => s := by
  rw [Endpoint.reply]
  rcases req.extenderArgs with err | ⟨_ | pod, _ | nodes⟩
  · rfl
  · rfl
  · rfl
  · rfl
  · change (match p.func pod nodes s with
      | (.ok (.ok list), s) => (Reply.priorities list, s)
      | (.ok (.error err), s) => (.panicked (.inr err), s)
      | (.error e, s) => (.panicked (.inl e), s)).2 = (p.func pod nodes s).2
    rcases p.func pod nodes s with ⟨e | err | list, s'⟩ <;> rfl

/-- A priority function without a state. -/
lemma reply_prioritize_stateless {p : Prioritize PodSpec NodeObject (Agents n K)}
    (h : ∀ pod nodes s, (p.func pod nodes s).2 = s) :
    ((Endpoint.prioritize p).reply version req s).2 = s := by
  rw [reply_prioritize_snd]
  split
  · exact h _ _ _
  · rfl

variable [Field K] [LinearOrder K] [HasSqrt K] [FloorRing K]

/-- What a request for the pigeon agent leaves of it. -/
def stepPigeon (o : Orders) (pigeon : Option (Client n K)) :
    Option (Pigeon.Pod × List NodeObject) → Option (Client n K)
  | some (pod, nodes) => pigeon.map fun client => (Pigeon.Agent.priorityFunc o client pod nodes).2
  | none => pigeon

lemma priorityFunc_snd (o : Orders) (pigeon : Option (Client n K)) (pod : Pigeon.Pod)
    (nodes : List NodeObject) :
    (Pigeon.priorityFunc o pigeon pod nodes).2 = stepPigeon o pigeon (some (pod, nodes)) := by
  cases pigeon <;> rfl

/-- Only a request for the pigeon agent changes it. -/
lemma reply_function_pigeon (c : Settings K) (orders : ℕ → Orders) {f : AgentFunction}
    (hmethod : req.method = "POST") (hpath : req.path = f.path) :
    ((f.endpoint c orders).reply version req s).2.pigeon
      = stepPigeon (orders s.served) s.pigeon req.pigeonArgs := by
  have hargs : f ≠ .pigeonPriority → req.pigeonArgs = none := by
    intro hne
    refine if_neg fun hpigeon => hne (AgentFunction.path_injective ?_)
    rw [← hpath, hpigeon.2]
  cases f with
  | congestionPriority =>
      rw [hargs nofun]
      exact congrArg Agents.pigeon (reply_prioritize_stateless fun _ _ _ => rfl)
  | fooPredicate =>
      rw [hargs nofun]
      exact congrArg Agents.pigeon (reply_predicate_snd _)
  | fooPriority =>
      rw [hargs nofun]
      exact congrArg Agents.pigeon (reply_prioritize_stateless fun _ _ _ => rfl)
  | pigeonPriority =>
      rw [HttpRequest.pigeonArgs, if_pos ⟨hmethod, hpath⟩, AgentFunction.endpoint,
        reply_prioritize_snd]
      split
      · exact priorityFunc_snd _ _ _ _
      · rfl
  | safeBalancePriority =>
      rw [hargs nofun]
      exact congrArg Agents.pigeon (reply_prioritize_stateless fun _ _ _ => rfl)
  | safeOverloadPredicate =>
      rw [hargs nofun]
      exact congrArg Agents.pigeon (reply_predicate_snd _)
  | safeOverloadPriority =>
      rw [hargs nofun]
      exact congrArg Agents.pigeon (reply_prioritize_stateless fun _ _ _ => rfl)

variable {c : Settings K} {orders : ℕ → Orders} {files : List AgentFile} (findPath) (version)

/-- The pigeon agent after a request. -/
lemma answer_pigeon (hmain : .main ∈ files) (hrouter : boot c orders files = .ok router)
    (hfile : s.pigeon.isSome → .pigeon ∈ files) (req : HttpRequest) :
    (answer router findPath version s req).2.pigeon
      = stepPigeon (orders s.served) s.pigeon req.pigeonArgs := by
  by_cases hhandled : ∃ endpoint, router.serveHTTP findPath req.method req.path = .handled endpoint
  · obtain ⟨endpoint, hserve⟩ := hhandled
    rw [(answer_handled hserve).2]
    have hoffers := (serveHTTP_iff hmain hrouter findPath).mp hserve
    generalize hmethod : req.method = method at hoffers
    generalize hpath : req.path = path at hoffers
    cases hoffers with
    | version =>
        have hargs : req.pigeonArgs = none := by
          refine if_neg fun hpigeon => ?_
          rw [hmethod] at hpigeon
          exact absurd hpigeon.1 (by decide)
        rw [hargs]
        rfl
    | bind =>
        have hargs : req.pigeonArgs = none := by
          refine if_neg fun hpigeon => ?_
          rw [hpath] at hpigeon
          exact AgentFunction.path_ne_bindPath _ hpigeon.2
        rw [hargs]
        exact congrArg Agents.pigeon reply_bind_snd
    | function => exact reply_function_pigeon c orders hmethod hpath
  · rw [(answer_unhandled (not_exists.mp hhandled)).2]
    cases hargs : req.pigeonArgs with
    | none => rfl
    | some a =>
        cases hpigeon : s.pigeon with
        | none => rfl
        | some client =>
            -- the pigeon agent is there, so the router knows its path
            have hin : AgentFunction.pigeonPriority.file ∈ files := hfile (by rw [hpigeon]; rfl)
            have hroute : req.method = "POST" ∧ req.path = AgentFunction.pigeonPriority.path := by
              by_contra hne
              rw [HttpRequest.pigeonArgs, if_neg hne] at hargs
              cases hargs
            have hoffers : BuildOffers (n := n) c orders files req.method req.path
                (AgentFunction.pigeonPriority.endpoint c orders) := by
              rw [hroute.1, hroute.2]
              exact .function hin
            exact absurd ⟨_, (serveHTTP_iff hmain hrouter findPath).mpr hoffers⟩ hhandled

lemma isSome_stepPigeon (o : Orders) (pigeon : Option (Client n K))
    (args : Option (Pigeon.Pod × List NodeObject)) :
    (stepPigeon o pigeon args).isSome = pigeon.isSome := by
  cases args with
  | none => rfl
  | some a => exact Option.isSome_map

/-- Of a sequence of requests, the pigeon agent serves those that are for it. -/
lemma run_pigeon (hmain : .main ∈ files) (hrouter : boot c orders files = .ok router)
    (hfile : s.pigeon.isSome → .pigeon ∈ files) (history : List HttpRequest) :
    ∃ requests : List Pigeon.Request,
      requests.map (fun r => (r.pod, r.nodes)) = history.filterMap HttpRequest.pigeonArgs
        ∧ (run router findPath version s history).pigeon
          = s.pigeon.map fun client => Pigeon.Agent.serve client requests := by
  induction history generalizing s with
  | nil => exact ⟨[], rfl, Option.map_id'.symm⟩
  | cons req history ih =>
      have hstep := answer_pigeon findPath version hmain hrouter hfile req
      obtain ⟨requests, hrequests, hrun⟩ :=
        ih (s := (answer router findPath version s req).2) (by
          rw [hstep, isSome_stepPigeon]
          exact hfile)
      rw [hstep] at hrun
      have hcons : run router findPath version s (req :: history)
          = run router findPath version (answer router findPath version s req).2 history := rfl
      rw [hcons, hrun]
      cases hargs : req.pigeonArgs with
      | none => exact ⟨requests, by rw [List.filterMap_cons_none hargs, hrequests], rfl⟩
      | some a =>
          refine ⟨⟨orders s.served, a.1, a.2⟩ :: requests, ?_, ?_⟩
          · rw [List.filterMap_cons_some hargs, List.map_cons, hrequests]
          · rw [stepPigeon, Option.map_map]
            rfl

end Steps

end KubeSafeScheduler.Server
