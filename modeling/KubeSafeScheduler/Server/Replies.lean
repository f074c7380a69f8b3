import KubeSafeScheduler.Server.Service

/-!
What the replies of the extender do not depend on: the order in which the files of its agents
start, the order in which a request lists its nodes, and all earlier requests, except for the
demands of the pods that the pigeon agent has ranked.

* `HttpRequest.Alike`, `Reply.Alike`: requests and replies up to the order of the nodes.
* `predicate_alike`, `prioritize_alike`: one route.
* `run_alike`: two pigeon agents behind the router.
* `replies_unordered`: two builds, after two histories.
* `replies_complete`: a priority request is answered with each of its nodes.
-/

namespace KubeSafeScheduler.Server

open Httprouter (Panic Router)
open Pigeon (NodeObject HostPriority Orders Client createPodModel)
open Safe (PodSpec)

/-! ### Requests and replies up to order -/

/-- Arguments with the same nodes, in any order. -/
inductive ArgsAlike : Except String ExtenderArgs → Except String ExtenderArgs → Prop
  | undecoded (err : String) : ArgsAlike (.error err) (.error err)
  | noNodes (pod : Option PodSpec) : ArgsAlike (.ok ⟨pod, none⟩) (.ok ⟨pod, none⟩)
  | nodes (pod : Option PodSpec) {nodes nodes' : List NodeObject} : nodes.Perm nodes' →
      ArgsAlike (.ok ⟨pod, some nodes⟩) (.ok ⟨pod, some nodes'⟩)

/-- Requests with the same nodes, in any order. -/
structure HttpRequest.Alike (req req' : HttpRequest) : Prop where
  method : req.method = req'.method
  path : req.path = req'.path
  extenderArgs : ArgsAlike req.extenderArgs req'.extenderArgs
  bindingArgs : req.bindingArgs = req'.bindingArgs

/-- Replies with the same nodes, in any order; the router may refuse or redirect a request in
different ways. -/
inductive Reply.Alike : Reply → Reply → Prop
  | same (r : Reply) : Alike r r
  | filter {nodes nodes' : List NodeObject} {failed failed' : StringMap String} :
      nodes.Perm nodes' → (∀ name, failed.get name = failed'.get name) →
      Alike (.filter ⟨some nodes, some failed, ""⟩) (.filter ⟨some nodes', some failed', ""⟩)
  | priorities {list list' : List HostPriority} : list.Perm list' →
      Alike (.priorities list) (.priorities list')
  | unserved {r r' : Reply} : r.Unserved → r'.Unserved → Alike r r'

section Routes

variable {n : ℕ} {K : Type} {version : String} {req req' : HttpRequest} {s s' : Agents n K}

/-- The route of a predicate that gives no errors. -/
lemma predicate_alike {p : Predicate PodSpec NodeObject}
    (hp : ∀ pod node, (p.func pod node).2 = none) (h : ArgsAlike req.extenderArgs req'.extenderArgs) :
    ((Endpoint.predicate p).reply version req s).1.Alike
      ((Endpoint.predicate p).reply version req' s').1 := by
  simp only [Endpoint.reply]
  generalize req.extenderArgs = args at h
  generalize req'.extenderArgs = args' at h
  cases h with
  | undecoded err => exact .same _
  | noNodes pod => exact .same _
  | @nodes pod nodes nodes' hperm =>
      cases pod with
      | none =>
          rcases eq_or_ne nodes [] with rfl | hne
          · rw [List.nil_perm.mp hperm]
            exact .same _
          · have hne' : nodes' ≠ [] := by
              rintro rfl
              exact hne (List.perm_nil.mp hperm)
            dsimp only
            rw [p.handler_of_no_pod hne, p.handler_of_no_pod hne']
            exact .same _
      | some pod =>
          obtain ⟨failed, hhandler, hfailed⟩ := Predicate.handler_of_no_errors hp pod nodes
          obtain ⟨failed', hhandler', hfailed'⟩ := Predicate.handler_of_no_errors hp pod nodes'
          dsimp only
          rw [hhandler, hhandler']
          exact .filter (hperm.filter _) fun name => (hfailed name).trans (hfailed' name).symm

/-- The routes of two priority functions that give the same lists up to order. -/
lemma prioritize_alike {p p' : Prioritize PodSpec NodeObject (Agents n K)}
    (h : ArgsAlike req.extenderArgs req'.extenderArgs)
    (hlists : ∀ pod nodes nodes', req.extenderArgs = .ok ⟨some pod, some nodes⟩ →
      req'.extenderArgs = .ok ⟨some pod, some nodes'⟩ → nodes.Perm nodes' →
      ∃ list list', (p.func pod nodes s).1 = .ok (.ok list)
        ∧ (p'.func pod nodes' s').1 = .ok (.ok list') ∧ list.Perm list') :
    ((Endpoint.prioritize p).reply version req s).1.Alike
      ((Endpoint.prioritize p').reply version req' s').1 := by
  simp only [Endpoint.reply]
  generalize req.extenderArgs = args at h hlists
  generalize req'.extenderArgs = args' at h hlists
  cases h with
  | undecoded err => exact .same _
  | noNodes pod => cases pod <;> exact .same _
  | @nodes pod nodes nodes' hperm =>
      cases pod with
      | none => exact .same _
      | some pod =>
          obtain ⟨list, list', hlist, hlist', hperm⟩ := hlists pod nodes nodes' rfl rfl hperm
          have hhandler : p.handler ⟨some pod, some nodes⟩ s
              = (.ok (.ok list), (p.func pod nodes s).2) := Prod.ext hlist rfl
          have hhandler' : p'.handler ⟨some pod, some nodes'⟩ s'
              = (.ok (.ok list'), (p'.func pod nodes' s').2) := Prod.ext hlist' rfl
          dsimp only
          rw [hhandler, hhandler']
          exact .priorities hperm

/-- The route of a priority function that goes through the nodes one by one. -/
lemma prioritize_map_alike {p : Prioritize PodSpec NodeObject (Agents n K)}
    (entry : PodSpec → NodeObject → HostPriority)
    (hp : ∀ pod nodes s, (p.func pod nodes s).1 = .ok (.ok (nodes.map (entry pod))))
    (h : ArgsAlike req.extenderArgs req'.extenderArgs) :
    ((Endpoint.prioritize p).reply version req s).1.Alike
      ((Endpoint.prioritize p).reply version req' s').1 :=
  prioritize_alike h fun pod nodes nodes' _ _ hperm =>
    ⟨_, _, hp pod nodes s, hp pod nodes' s', hperm.map _⟩

end Routes

/-! ### Histories -/

/-- Nodes with distinct names and reportable numbers. -/
def ValidNodes (n : ℕ) (nodes : List NodeObject) : Prop :=
  (nodes.map NodeObject.name).Nodup ∧ ∀ node ∈ nodes, node.Reportable n

/-- If the request is for the pigeon agent, its nodes are valid. -/
def HttpRequest.Valid (req : HttpRequest) (n : ℕ) : Prop :=
  ∀ a, req.pigeonArgs = some a → ValidNodes n a.2

lemma HttpRequest.Valid.nodes {req : HttpRequest} {n : ℕ} (h : req.Valid n)
    (hmethod : req.method = "POST") (hpath : req.path = AgentFunction.pigeonPriority.path)
    {pod : PodSpec} {nodes : List NodeObject}
    (hargs : req.extenderArgs = .ok ⟨some pod, some nodes⟩) : ValidNodes n nodes := by
  refine h (pod.pigeonPod, nodes) ?_
  rw [HttpRequest.pigeonArgs, if_pos ⟨hmethod, hpath⟩, hargs]

/-- The demands of the pods that the pigeon agent is asked about. -/
def demandsOf (n : ℕ) (history : List HttpRequest) : List (Fin n → ℤ) :=
  (history.filterMap HttpRequest.pigeonArgs).map fun a => (createPodModel a.1 n).demand

section Runs

variable {n : ℕ} {K : Type} [Field K] [LinearOrder K] [HasSqrt K] [FloorRing K]
  [IsStrictOrderedRing K] {c : Settings K} {orders orders' : ℕ → Orders}
  {files files' : List AgentFile}
  {router router' : Router (Endpoint PodSpec NodeObject (Agents n K))}
  {history history' : List HttpRequest}

lemma valid_of_map_eq {requests : List Pigeon.Request} (hvalid : ∀ req ∈ history, req.Valid n)
    (hrequests : requests.map (fun r => (r.pod, r.nodes))
      = history.filterMap HttpRequest.pigeonArgs) :
    ∀ r ∈ requests, r.Valid n := by
  intro r hr
  have hargs : (r.pod, r.nodes) ∈ history.filterMap HttpRequest.pigeonArgs := by
    rw [← hrequests]
    exact List.mem_map.mpr ⟨r, hr, rfl⟩
  obtain ⟨req, hreq, hargs⟩ := List.mem_filterMap.mp hargs
  exact ⟨(hvalid req hreq _ hargs).1, (hvalid req hreq _ hargs).2⟩

lemma demands_of_map_eq {requests : List Pigeon.Request}
    (hrequests : requests.map (fun r => (r.pod, r.nodes))
      = history.filterMap HttpRequest.pigeonArgs) :
    requests.map (Pigeon.Request.demand n) = demandsOf n history := by
  rw [demandsOf, ← hrequests, List.map_map]
  rfl

/-- The pigeon agents of two builds, after histories with like demands. -/
lemma run_alike (hn : n ≠ 0) (hmain : .main ∈ files) (hmain' : .main ∈ files')
    (hpigeon : .pigeon ∈ files) (hpigeon' : .pigeon ∈ files')
    (hrouter : boot c orders files = .ok router) (hrouter' : boot c orders' files' = .ok router')
    (findPath findPath' : FindPath n K) (hvalid : ∀ req ∈ history, req.Valid n)
    (hvalid' : ∀ req ∈ history', req.Valid n)
    (hdemands : Pigeon.Agent.DemandsAlike (K := K) c.config c.policyObjective
      (demandsOf n history) (demandsOf n history')) :
    ∃ client client' : Client n K,
      (run router findPath c.version (initial c files) history).pigeon = some client
      ∧ (run router' findPath' c.version (initial c files') history').pigeon = some client'
      ∧ client.Tidy ∧ client'.Tidy
      ∧ client.eval.policyobjective = client'.eval.policyobjective
      ∧ client.eval.policyresourceindex = client'.eval.policyresourceindex
      ∧ (client.eval.policyobjective.usesStats = true →
        client.eval.cs.ds = client'.eval.cs.ds) := by
  obtain ⟨requests, hrequests, hrun⟩ := run_pigeon findPath c.version (s := initial c files)
    hmain hrouter (fun _ => hpigeon) history
  obtain ⟨requests', hrequests', hrun'⟩ := run_pigeon findPath' c.version
    (s := initial c files') hmain' hrouter' (fun _ => hpigeon') history'
  rw [← demands_of_map_eq hrequests, ← demands_of_map_eq hrequests'] at hdemands
  obtain ⟨client, client', rfl, rfl, h⟩ := Pigeon.Agent.serve_alike c.config c.policyObjective hn
    (valid_of_map_eq hvalid hrequests) (valid_of_map_eq hvalid' hrequests') hdemands
  refine ⟨_, _, ?_, ?_, h⟩
  · rw [hrun, initial, if_pos hpigeon]
    rfl
  · rw [hrun', initial, if_pos hpigeon']
    rfl

omit [IsStrictOrderedRing K] in
lemma pigeonPriority_func {s : Agents n K} {client : Client n K} (hs : s.pigeon = some client)
    (pod : PodSpec) (nodes : List NodeObject) {list : List HostPriority}
    (hlist : (Pigeon.Agent.priorityFunc (orders s.served) client pod.pigeonPod nodes).1
      = some list) :
    ((pigeonPriority orders).func pod nodes s).1 = .ok (.ok list) := by
  have hfst : (Pigeon.priorityFunc (orders s.served) s.pigeon pod.pigeonPod nodes).1
      = some list := by
    rw [hs]
    exact hlist
  simp only [pigeonPriority, hfst]

/-- The lists of the two pigeon agents for the same nodes. -/
lemma pigeonPriority_alike (hn : n ≠ 0) (hmain : .main ∈ files) (hmain' : .main ∈ files')
    (hpigeon : .pigeon ∈ files) (hpigeon' : .pigeon ∈ files')
    (hrouter : boot c orders files = .ok router) (hrouter' : boot c orders' files' = .ok router')
    (findPath findPath' : FindPath n K) (hvalid : ∀ req ∈ history, req.Valid n)
    (hvalid' : ∀ req ∈ history', req.Valid n)
    (hdemands : Pigeon.Agent.DemandsAlike (K := K) c.config c.policyObjective
      (demandsOf n history) (demandsOf n history'))
    (pod : PodSpec) {nodes nodes' : List NodeObject} (hnodes : ValidNodes n nodes)
    (hperm : nodes.Perm nodes') :
    ∃ list list',
      ((pigeonPriority orders).func pod nodes
        (run router findPath c.version (initial c files) history)).1 = .ok (.ok list)
      ∧ ((pigeonPriority orders').func pod nodes'
        (run router' findPath' c.version (initial c files') history')).1 = .ok (.ok list')
      ∧ list.Perm list' := by
  obtain ⟨client, client', hrun, hrun', htidy, htidy', hobj, hindex, hds⟩ :=
    run_alike hn hmain hmain' hpigeon hpigeon' hrouter hrouter' findPath findPath' hvalid hvalid'
      hdemands
  obtain ⟨list, hlist, -⟩ := Pigeon.Agent.priorityFunc_spec htidy hn
    (r := ⟨orders _, pod.pigeonPod, nodes⟩) ⟨hnodes.1, hnodes.2⟩
  have hnodes' : ∀ o, Pigeon.Request.Valid ⟨o, pod.pigeonPod, nodes'⟩ n := fun o =>
    ⟨(hperm.map _).nodup_iff.mp hnodes.1,
      fun node hnode => hnodes.2 node (hperm.mem_iff.mpr hnode)⟩
  obtain ⟨list', hlist', hlists⟩ := Pigeon.Agent.priorityFunc_perm htidy htidy' hn hobj hindex
    hds (r := ⟨orders _, pod.pigeonPod, nodes⟩) ⟨hnodes.1, hnodes.2⟩ (hnodes' (orders' _)) rfl
    hperm hlist
  exact ⟨list, list', pigeonPriority_func hrun pod nodes hlist,
    pigeonPriority_func hrun' pod nodes' hlist', hlists⟩

omit [IsStrictOrderedRing K] in
/-- The route of a function of an agent. -/
lemma function_alike (f : AgentFunction) {req req' : HttpRequest} {s s' : Agents n K}
    (h : ArgsAlike req.extenderArgs req'.extenderArgs)
    (hpigeon : f = .pigeonPriority → ∀ pod nodes nodes',
      req.extenderArgs = .ok ⟨some pod, some nodes⟩ → nodes.Perm nodes' →
      ∃ list list', ((pigeonPriority orders).func pod nodes s).1 = .ok (.ok list)
        ∧ ((pigeonPriority orders').func pod nodes' s').1 = .ok (.ok list') ∧ list.Perm list') :
    ((f.endpoint c orders).reply c.version req s).1.Alike
      ((f.endpoint c orders').reply c.version req' s').1 := by
  cases f with
  | congestionPriority => exact prioritize_map_alike _ (fun _ _ _ => rfl) h
  | fooPredicate => exact predicate_alike (fun _ _ => rfl) h
  | fooPriority => exact prioritize_map_alike _ (fun _ _ _ => rfl) h
  | pigeonPriority =>
      exact prioritize_alike h fun pod nodes nodes' hargs _ => hpigeon rfl pod nodes nodes' hargs
  | safeBalancePriority =>
      refine prioritize_map_alike (safeEntry c true) (fun pod nodes _ => ?_) h
      rw [← safePriorityFunc_eq c pod nodes true]
      rfl
  | safeOverloadPredicate => exact predicate_alike (fun _ _ => rfl) h
  | safeOverloadPriority =>
      refine prioritize_map_alike (safeEntry c false) (fun pod nodes _ => ?_) h
      rw [← safePriorityFunc_eq c pod nodes false]
      rfl

omit [IsStrictOrderedRing K] in
/-- A request for a function of the build is answered by its route. -/
lemma answer_of_offers (hmain : .main ∈ files) (hrouter : boot c orders files = .ok router)
    (findPath : FindPath n K) {s : Agents n K} {req : HttpRequest}
    {endpoint : Endpoint PodSpec NodeObject (Agents n K)}
    (hoffers : BuildOffers c orders files req.method req.path endpoint) :
    (answer router findPath c.version s req).1 = (endpoint.reply c.version req s).1 :=
  (answer_handled ((serveHTTP_iff hmain hrouter findPath).mpr hoffers)).1

omit [IsStrictOrderedRing K] in
/-- Builds with the same files offer the same functions. -/
lemma buildOffers_perm (hfiles : files.Perm files') {method : String} {path : List UInt8} :
    (∃ endpoint : Endpoint PodSpec NodeObject (Agents n K),
        BuildOffers c orders files method path endpoint)
      → ∃ endpoint : Endpoint PodSpec NodeObject (Agents n K),
        BuildOffers c orders' files' method path endpoint := by
  rintro ⟨endpoint, hoffers⟩
  cases hoffers with
  | version => exact ⟨_, .version⟩
  | bind => exact ⟨_, .bind⟩
  | function hfile => exact ⟨_, .function (hfiles.mem_iff.mp hfile)⟩

/-- Two builds with the same files, in any orders, start. After any histories of requests with
like demands for the pigeon agent they answer a request alike, also when it lists its nodes in
another order: whatever was asked before of other agents, at other paths or with other nodes,
and in whatever order the maps are listed. -/
theorem replies_unordered (hn : n ≠ 0) (c : Settings K) (orders orders' : ℕ → Orders)
    (files files' : List AgentFile) (hmain : .main ∈ files) (hnodup : files.Nodup)
    (hfiles : files.Perm files') :
    ∃ router router' : Router (Endpoint PodSpec NodeObject (Agents n K)),
      boot c orders files = .ok router ∧ boot c orders' files' = .ok router'
      ∧ ∀ (findPath findPath' : FindPath n K) (history history' : List HttpRequest),
        (∀ req ∈ history, req.Valid n) → (∀ req ∈ history', req.Valid n) →
        Pigeon.Agent.DemandsAlike (K := K) c.config c.policyObjective (demandsOf n history)
          (demandsOf n history') →
        ∀ req req' : HttpRequest, req.Alike req' → req.Valid n →
          (answer router findPath c.version
              (run router findPath c.version (initial c files) history) req).1.Alike
            (answer router' findPath' c.version
              (run router' findPath' c.version (initial c files') history') req').1 := by
  have hmain' : .main ∈ files' := hfiles.mem_iff.mp hmain
  obtain ⟨router, hrouter⟩ := boot_ok (n := n) c orders hmain hnodup
  obtain ⟨router', hrouter'⟩ := boot_ok (n := n) c orders' hmain' (hfiles.nodup_iff.mp hnodup)
  refine ⟨router, router', hrouter, hrouter', fun findPath findPath' history history' hvalid
    hvalid' hdemands req req' halike hreq => ?_⟩
  by_cases hoffered : ∃ endpoint : Endpoint PodSpec NodeObject (Agents n K),
      BuildOffers c orders files req.method req.path endpoint
  · obtain ⟨endpoint, hoffers⟩ := hoffered
    rw [answer_of_offers hmain hrouter findPath hoffers]
    have hargs := halike.extenderArgs
    generalize hmethod : req.method = method at hoffers
    generalize hpath : req.path = path at hoffers
    cases hoffers with
    | version =>
        have hoffers' : BuildOffers (n := n) c orders' files' req'.method req'.path .version := by
          rw [← halike.method, ← halike.path, hmethod, hpath]
          exact .version
        rw [answer_of_offers hmain' hrouter' findPath' hoffers']
        exact .same _
    | bind =>
        have hoffers' : BuildOffers (n := n) c orders' files' req'.method req'.path .bind := by
          rw [← halike.method, ← halike.path, hmethod, hpath]
          exact .bind
        rw [answer_of_offers hmain' hrouter' findPath' hoffers']
        simp only [Endpoint.reply, halike.bindingArgs]
        cases req'.bindingArgs <;> exact .same _
    | @function f hfile =>
        have hfile' : f.file ∈ files' := hfiles.mem_iff.mp hfile
        have hoffers' : BuildOffers c orders' files' req'.method req'.path
            (f.endpoint (n := n) c orders') := by
          rw [← halike.method, ← halike.path, hmethod, hpath]
          exact .function hfile'
        rw [answer_of_offers hmain' hrouter' findPath' hoffers']
        refine function_alike f hargs ?_
        rintro rfl pod nodes nodes' hdecoded hperm
        exact pigeonPriority_alike hn hmain hmain' hfile hfile' hrouter hrouter' findPath findPath'
          hvalid hvalid' hdemands pod (hreq.nodes hmethod hpath hdecoded) hperm
  · have hunserved : ∀ endpoint, router.serveHTTP findPath req.method req.path ≠ .handled endpoint :=
      fun endpoint hserve => hoffered ⟨_, (serveHTTP_iff hmain hrouter findPath).mp hserve⟩
    have hunserved' : ∀ endpoint,
        router'.serveHTTP findPath' req'.method req'.path ≠ .handled endpoint := by
      intro endpoint hserve
      have hoffers := (serveHTTP_iff hmain' hrouter' findPath').mp hserve
      rw [← halike.method, ← halike.path] at hoffers
      exact hoffered (buildOffers_perm hfiles.symm ⟨_, hoffers⟩)
    exact .unserved (answer_unhandled hunserved).1 (answer_unhandled hunserved').1

/-- A reply about all nodes of a request: those that are kept, in their order and without
failures, or an entry for each of them. -/
inductive Reply.About (nodes : List NodeObject) : Reply → Prop
  | filter {kept : List NodeObject} {failed : StringMap String} : kept.Sublist nodes →
      (∀ name, failed.get name = none) → About nodes (.filter ⟨some kept, some failed, ""⟩)
  | priorities {list : List HostPriority} :
      (list.map HostPriority.host).Perm (nodes.map NodeObject.name) → About nodes (.priorities list)

omit [Field K] [LinearOrder K] [HasSqrt K] [FloorRing K] [IsStrictOrderedRing K] in
lemma predicate_about {p : Predicate PodSpec NodeObject}
    (hp : ∀ pod node, (p.func pod node).2 = none) {version : String} {req : HttpRequest}
    {s : Agents n K} {pod : PodSpec} {nodes : List NodeObject}
    (hargs : req.extenderArgs = .ok ⟨some pod, some nodes⟩) :
    ((Endpoint.predicate p).reply version req s).1.About nodes := by
  obtain ⟨failed, hhandler, hfailed⟩ := Predicate.handler_of_no_errors hp pod nodes
  simp only [Endpoint.reply, hargs, hhandler]
  exact .filter List.filter_sublist hfailed

omit [Field K] [LinearOrder K] [HasSqrt K] [FloorRing K] [IsStrictOrderedRing K] in
lemma prioritize_about {p : Prioritize PodSpec NodeObject (Agents n K)} {version : String}
    {req : HttpRequest} {s : Agents n K} {pod : PodSpec} {nodes : List NodeObject}
    (hargs : req.extenderArgs = .ok ⟨some pod, some nodes⟩) {list : List HostPriority}
    (hlist : (p.func pod nodes s).1 = .ok (.ok list))
    (hhosts : (list.map HostPriority.host).Perm (nodes.map NodeObject.name)) :
    ((Endpoint.prioritize p).reply version req s).1.About nodes := by
  have hhandler : p.handler ⟨some pod, some nodes⟩ s = (.ok (.ok list), (p.func pod nodes s).2) :=
    Prod.ext hlist rfl
  simp only [Endpoint.reply, hargs, hhandler]
  exact .priorities hhosts

omit [Field K] [LinearOrder K] [HasSqrt K] [FloorRing K] [IsStrictOrderedRing K] in
lemma prioritize_map_about {p : Prioritize PodSpec NodeObject (Agents n K)} {version : String}
    {req : HttpRequest} {s : Agents n K} {pod : PodSpec} {nodes : List NodeObject}
    (hargs : req.extenderArgs = .ok ⟨some pod, some nodes⟩) (entry : NodeObject → HostPriority)
    (hentry : ∀ node, (entry node).host = node.name)
    (hlist : (p.func pod nodes s).1 = .ok (.ok (nodes.map entry))) :
    ((Endpoint.prioritize p).reply version req s).1.About nodes := by
  refine prioritize_about hargs hlist (List.Perm.of_eq ?_)
  rw [List.map_map]
  exact List.map_congr_left fun node _ => hentry node

/-- Every build starts, and after any history of requests it answers every request for one of
its functions that has a pod and nodes: a predicate keeps some of the nodes and reports no
failures, a priority function gives one entry for each of the nodes and no other host. -/
theorem replies_complete (hn : n ≠ 0) (c : Settings K) (orders : ℕ → Orders)
    (files : List AgentFile) (hmain : .main ∈ files) (hnodup : files.Nodup) :
    ∃ router : Router (Endpoint PodSpec NodeObject (Agents n K)),
      boot c orders files = .ok router
      ∧ ∀ (findPath : FindPath n K) (history : List HttpRequest), (∀ req ∈ history, req.Valid n) →
        ∀ (f : AgentFunction), f.file ∈ files → ∀ (req : HttpRequest) (pod : PodSpec)
          (nodes : List NodeObject), req.method = "POST" → req.path = f.path →
          req.extenderArgs = .ok ⟨some pod, some nodes⟩ → req.Valid n →
          (answer router findPath c.version
            (run router findPath c.version (initial c files) history) req).1.About nodes := by
  obtain ⟨router, hrouter⟩ := boot_ok (n := n) c orders hmain hnodup
  refine ⟨router, hrouter, fun findPath history hvalid f hfile req pod nodes hmethod hpath hargs
    hreq => ?_⟩
  have hoffers : BuildOffers c orders files req.method req.path (f.endpoint (n := n) c orders) := by
    rw [hmethod, hpath]
    exact .function hfile
  rw [answer_of_offers hmain hrouter findPath hoffers]
  cases f with
  | congestionPriority => exact prioritize_map_about hargs _ (fun _ => rfl) rfl
  | fooPredicate => exact predicate_about (fun _ _ => rfl) hargs
  | fooPriority => exact prioritize_map_about hargs _ (fun _ => rfl) rfl
  | pigeonPriority =>
      obtain ⟨client, -, hrun, -, htidy, -⟩ := run_alike hn hmain hmain hfile hfile hrouter hrouter
        findPath findPath hvalid hvalid fun _ => .inl rfl
      have hnodes : ValidNodes n nodes := hreq.nodes hmethod hpath hargs
      obtain ⟨list, hlist, -, hhosts⟩ := Pigeon.Agent.priorityFunc_spec htidy hn
        (r := ⟨orders _, pod.pigeonPod, nodes⟩) ⟨hnodes.1, hnodes.2⟩
      exact prioritize_about hargs (pigeonPriority_func hrun pod nodes hlist) hhosts
  | safeBalancePriority =>
      refine prioritize_map_about hargs (safeEntry c true pod) (fun _ => rfl) ?_
      rw [← safePriorityFunc_eq c pod nodes true]
      rfl
  | safeOverloadPredicate => exact predicate_about (fun _ _ => rfl) hargs
  | safeOverloadPriority =>
      refine prioritize_map_about hargs (safeEntry c false pod) (fun _ => rfl) ?_
      rw [← safePriorityFunc_eq c pod nodes false]
      rfl

end Runs

/-! ### A build -/

/-- Nodes of the given names and CPUs. -/
def cpuNodes (nodes : List (String × ℤ)) : List NodeObject :=
  nodes.map fun x => { name := x.1, annotations := ∅, allocatable := { cpu := .units x.2 } }

/-- A request for a pod without containers at the path of a function. -/
def functionRequest (f : AgentFunction) (nodes : List (String × ℤ)) : HttpRequest where
  method := "POST"
  path := f.path
  extenderArgs := .ok ⟨some ⟨"pod", [], []⟩, some (cpuNodes nodes)⟩
  bindingArgs := .error "no binding"

lemma pigeonArgs_functionRequest (nodes : List (String × ℤ)) :
    (functionRequest .pigeonPriority nodes).pigeonArgs = some (⟨"pod", []⟩, cpuNodes nodes) :=
  if_pos ⟨rfl, rfl⟩

lemma valid_functionRequest {n : ℕ} {nodes : List (String × ℤ)} (h : ValidNodes n (cpuNodes nodes)) :
    (functionRequest .pigeonPriority nodes).Valid n := by
  intro a ha
  rw [pigeonArgs_functionRequest] at ha
  obtain rfl := Option.some.inj ha
  exact h

/-- Settings without any variable set, for packing. -/
noncomputable def packingSettings : Settings ℝ where
  version := ""
  safe := Safe.constantContext
  congestionFactorMax := ""
  config := some (0, .aBinpack)
  policyObjective := none

/-- The maps are listed as they are stored. -/
def storedOrders : ℕ → Orders := fun _ => ⟨.stored, .stored, .stored, .stored, .stored⟩

lemma validNodes_ab : ValidNodes 1 (cpuNodes [("a", 4), ("b", 8)]) :=
  ⟨by decide, by decide +kernel⟩

lemma validNodes_c : ValidNodes 1 (cpuNodes [("c", 2)]) := ⟨by decide, by decide +kernel⟩

/-- One build has also served another agent, and its pod was ranked on other nodes. -/
theorem replies_unordered_foo :
    ∃ router router' : Router (Endpoint PodSpec NodeObject (Agents 1 ℝ)),
      boot packingSettings storedOrders [.foo, .main, .pigeon] = .ok router
      ∧ boot packingSettings storedOrders [.pigeon, .foo, .main] = .ok router'
      ∧ (answer router (fun _ _ => none) ""
          (run router (fun _ _ => none) "" (initial packingSettings [.foo, .main, .pigeon])
            [functionRequest .pigeonPriority [("c", 2)], functionRequest .fooPriority [("c", 2)]])
          (functionRequest .pigeonPriority [("a", 4), ("b", 8)])).1.Alike
        (answer router' (fun _ _ => none) ""
          (run router' (fun _ _ => none) "" (initial packingSettings [.pigeon, .foo, .main])
            [functionRequest .pigeonPriority [("a", 4), ("b", 8)]])
          (functionRequest .pigeonPriority [("b", 8), ("a", 4)])).1 := by
  have hfoo : (functionRequest .fooPriority [("c", 2)]).pigeonArgs = none :=
    if_neg fun h => absurd h.2 (by decide)
  obtain ⟨router, router', hrouter, hrouter', halike⟩ := replies_unordered (n := 1) (by decide)
    packingSettings storedOrders storedOrders [.foo, .main, .pigeon] [.pigeon, .foo, .main]
    (by decide) (by decide) (by decide)
  refine ⟨router, router', hrouter, hrouter', halike (fun _ _ => none) (fun _ _ => none) _ _ ?_ ?_
    (fun _ => .inl ?_) _ _ ⟨rfl, rfl, ?_, rfl⟩ (valid_functionRequest validNodes_ab)⟩
  · rintro req hreq
    rcases List.mem_pair.mp hreq with rfl | rfl
    · exact valid_functionRequest validNodes_c
    · intro a ha
      rw [hfoo] at ha
      cases ha
  · rintro req hreq
    rw [List.mem_singleton.mp hreq]
    exact valid_functionRequest validNodes_ab
  · simp only [demandsOf, List.filterMap_cons, pigeonArgs_functionRequest, hfoo]
    rfl
  · exact .nodes _ (List.Perm.swap _ _ _)

/-- The pigeon agent and the safe agent of one build. -/
theorem replies_complete_ab :
    ∃ router : Router (Endpoint PodSpec NodeObject (Agents 1 ℝ)),
      boot packingSettings storedOrders [.main, .pigeon] = .ok router
      ∧ (answer router (fun _ _ => none) ""
          (run router (fun _ _ => none) "" (initial packingSettings [.main, .pigeon])
            [functionRequest .pigeonPriority [("c", 2)]])
          (functionRequest .pigeonPriority [("a", 4), ("b", 8)])).1.About
        (cpuNodes [("a", 4), ("b", 8)]) := by
  obtain ⟨router, hrouter, habout⟩ := replies_complete (n := 1) (by decide) packingSettings
    storedOrders [.main, .pigeon] (by decide) (by decide)
  refine ⟨router, hrouter, habout (fun _ _ => none) _ ?_ .pigeonPriority (by decide) _ _ _ rfl rfl
    rfl (valid_functionRequest validNodes_ab)⟩
  rintro req hreq
  rw [List.mem_singleton.mp hreq]
  exact valid_functionRequest validNodes_c

end KubeSafeScheduler.Server
