import KubeSafeScheduler.Httprouter.Router
import KubeSafeScheduler.Pigeon.Agent

/-!
The extender of the scheduler: `main.go`, `routes.go`, `predicate.go`, `prioritize.go` and
`bind.go`. Every file of an agent has an `init` function, which adds its predicates and
priority functions to the router; which files there are is chosen at build time.

* `Predicate`, `Prioritize`, `Endpoint`: what stands behind a route.
* `Init`, `initMain`, `runInit`, `addBind`, `start`: the start of the program.
* `routesOf`, `start_eq`: the routes that are registered, in their order.
* `start_serves`: the program starts exactly if no two predicates and no two priority
  functions share a name, whatever the order of the files is; then each path leads to its
  own function.
-/

namespace KubeSafeScheduler.Server

open Httprouter (Panic Route Router slash colon star)
open Pigeon (HostPriority)

/-- The bytes of a text of the source. -/
def bytes (s : String) : List UInt8 := s.toList.map fun c => UInt8.ofNat c.toNat

/-- A name without the bytes that the router reads as wildcards. -/
abbrev Name := { name : List UInt8 // colon ∉ name ∧ star ∉ name }

variable {Pod Node σ : Type}

/-- `Predicate`. The function gives back a result and perhaps an error. -/
structure Predicate (Pod Node : Type) where
  name : Name
  func : Pod → Node → Bool × Option String

/-- `Prioritize`. The function may use the state of its agent; it stops with a panic, or
gives back a list or an error. -/
structure Prioritize (Pod Node σ : Type) where
  name : Name
  func : Pod → List Node → σ → Except Panic (Except String (List HostPriority)) × σ

/-- What is registered for a path. -/
inductive Endpoint (Pod Node σ : Type) where
  | version
  | predicate (p : Predicate Pod Node)
  | prioritize (p : Prioritize Pod Node σ)
  | bind

/-! ### Routes -/

/-- `versionPath`. -/
def versionPath : List UInt8 := bytes "/version"

/-- `bindPath`. -/
def bindPath : List UInt8 := bytes "/scheduler/bind"

/-- `predicatesPrefix`. -/
def predicatesPrefix : List UInt8 := bytes "/scheduler/predicates"

/-- `prioritiesPrefix`. -/
def prioritiesPrefix : List UInt8 := bytes "/scheduler/priorities"

lemma static_append {front : List UInt8} (hfront : colon ∉ front ∧ star ∉ front) (name : Name) :
    colon ∉ front ++ slash :: name.1 ∧ star ∉ front ++ slash :: name.1 := by
  simp only [List.mem_append, List.mem_cons, not_or]
  exact ⟨⟨hfront.1, by decide, name.2.1⟩, hfront.2, by decide, name.2.2⟩

lemma static_versionPath : colon ∉ versionPath ∧ star ∉ versionPath := by decide

lemma static_bindPath : colon ∉ bindPath ∧ star ∉ bindPath := by decide

lemma static_predicatesPrefix : colon ∉ predicatesPrefix ∧ star ∉ predicatesPrefix := by decide

lemma static_prioritiesPrefix : colon ∉ prioritiesPrefix ∧ star ∉ prioritiesPrefix := by decide

/-- The route of `AddVersion`. -/
def versionRoute : Route (Endpoint Pod Node σ) :=
  ⟨"GET", versionPath, static_versionPath, .version⟩

/-- The route of `AddBind`. -/
def bindRoute : Route (Endpoint Pod Node σ) :=
  ⟨"POST", bindPath, static_bindPath, .bind⟩

/-- The route of `AddPredicate`. -/
def predicateRoute (p : Predicate Pod Node) : Route (Endpoint Pod Node σ) :=
  ⟨"POST", predicatesPrefix ++ slash :: p.name.1, static_append static_predicatesPrefix p.name,
    .predicate p⟩

/-- The route of `AddPrioritize`. -/
def prioritizeRoute (p : Prioritize Pod Node σ) : Route (Endpoint Pod Node σ) :=
  ⟨"POST", prioritiesPrefix ++ slash :: p.name.1, static_append static_prioritiesPrefix p.name,
    .prioritize p⟩

/-! ### The start of the program -/

/-- The `init` function of a file: that of `main.go`, or that of an agent. -/
inductive Init (Pod Node σ : Type) where
  | main
  | agent (predicates : List (Predicate Pod Node)) (priorities : List (Prioritize Pod Node σ))

/-- The variables `initialized` and `router`. -/
structure Globals (Pod Node σ : Type) where
  initialized : Bool
  router : Option (Router (Endpoint Pod Node σ))

/-- A route is added to the router, which is there after `InitMain`. -/
def addRoute (g : Globals Pod Node σ) (route : Route (Endpoint Pod Node σ)) :
    Except Panic (Globals Pod Node σ) :=
  match g.router with
  | none => .error .nilPointer
  | some router => do
      let router ← router.handle route
      .ok { g with router := some router }

/-- `InitMain`. -/
def initMain (g : Globals Pod Node σ) : Except Panic (Globals Pod Node σ) :=
  if g.initialized then .ok g
  else do
    let g ← addRoute { g with router := some Router.new } versionRoute
    .ok { g with initialized := true }

/-- An `init` function: `InitMain`, `AddRouterPredicate` and `AddRouterPriority`. -/
def runInit (g : Globals Pod Node σ) : Init Pod Node σ → Except Panic (Globals Pod Node σ)
  | .main => initMain g
  | .agent predicates priorities => do
      let g ← initMain g
      let g ← predicates.foldlM (fun g p => addRoute g (predicateRoute p)) g
      priorities.foldlM (fun g p => addRoute g (prioritizeRoute p)) g

/-- `AddBind`, and the router that serves. -/
def addBind (g : Globals Pod Node σ) : Except Panic (Router (Endpoint Pod Node σ)) :=
  match g.router with
  | none => .error .nilPointer
  | some router =>
      if (router.lookup "POST" bindPath).1.isSome then .ok router
      else router.handle bindRoute

/-- The `init` functions in the order of their files, and `main`. -/
def start (inits : List (Init Pod Node σ)) : Except Panic (Router (Endpoint Pod Node σ)) := do
  let g ← inits.foldlM runInit ⟨false, none⟩
  addBind g

/-! ### The routes of the program -/

/-- The predicates of a file. -/
def Init.predicates : Init Pod Node σ → List (Predicate Pod Node)
  | .main => []
  | .agent predicates _ => predicates

/-- The priority functions of a file. -/
def Init.priorities : Init Pod Node σ → List (Prioritize Pod Node σ)
  | .main => []
  | .agent _ priorities => priorities

/-- The routes of a file. -/
def Init.routes (i : Init Pod Node σ) : List (Route (Endpoint Pod Node σ)) :=
  i.predicates.map predicateRoute ++ i.priorities.map prioritizeRoute

/-- The routes of the program. -/
def routesOf (inits : List (Init Pod Node σ)) : List (Route (Endpoint Pod Node σ)) :=
  versionRoute :: inits.flatMap Init.routes ++ [bindRoute]

/-- The variables when the router is there. -/
def ready (router : Router (Endpoint Pod Node σ)) : Globals Pod Node σ := ⟨true, some router⟩

lemma addRoute_some (b : Bool) (router : Router (Endpoint Pod Node σ))
    (route : Route (Endpoint Pod Node σ)) :
    addRoute ⟨b, some router⟩ route = (⟨b, some ·⟩) <$> router.handle route :=
  (map_eq_pure_bind _ _).symm

lemma register_append (r : Router (Endpoint Pod Node σ))
    (routes routes' : List (Route (Endpoint Pod Node σ))) :
    r.register (routes ++ routes') = r.register routes >>= (·.register routes') :=
  List.foldlM_append

/-- A list of routes is added to the router. -/
lemma foldlM_addRoute (routes : List (Route (Endpoint Pod Node σ)))
    (router : Router (Endpoint Pod Node σ)) :
    routes.foldlM addRoute (ready router) = ready <$> router.register routes := by
  induction routes generalizing router with
  | nil => rfl
  | cons route routes ih =>
      rw [List.foldlM_cons, ready, addRoute_some, bind_map_left]
      rw [Router.register, List.foldlM_cons, map_bind]
      exact bind_congr fun router => ih router

lemma runInit_ready (router : Router (Endpoint Pod Node σ)) (i : Init Pod Node σ) :
    runInit (ready router) i = ready <$> router.register i.routes := by
  cases i with
  | main => rfl
  | agent predicates priorities =>
      rw [← foldlM_addRoute, Init.routes, List.foldlM_append, List.foldlM_map]
      simp only [List.foldlM_map]
      rfl

lemma foldlM_runInit (inits : List (Init Pod Node σ)) (router : Router (Endpoint Pod Node σ)) :
    inits.foldlM runInit (ready router)
      = ready <$> router.register (inits.flatMap Init.routes) := by
  induction inits generalizing router with
  | nil => rfl
  | cons i inits ih =>
      rw [List.foldlM_cons, runInit_ready, bind_map_left, List.flatMap_cons, register_append,
        map_bind]
      exact bind_congr fun router => ih router

/-- The first `init` function makes the router. -/
lemma runInit_first (i : Init Pod Node σ) :
    runInit ⟨false, none⟩ i = ready <$> Router.new.register (versionRoute :: i.routes) := by
  have hmain : initMain (⟨false, none⟩ : Globals Pod Node σ)
      = ready <$> Router.new.handle versionRoute := by
    rw [initMain, if_neg Bool.false_ne_true, addRoute_some, bind_map_left]
    exact (map_eq_pure_bind _ _).symm
  have hrest : runInit ⟨false, none⟩ i
      = Router.new.handle versionRoute >>= fun router => runInit (ready router) i := by
    cases i with
    | main => exact hmain.trans (map_eq_pure_bind _ _)
    | agent predicates priorities =>
        rw [runInit, hmain, bind_map_left]
        rfl
  rw [hrest, Router.register, List.foldlM_cons, map_bind]
  exact bind_congr fun router => runInit_ready router i

/-- Any file may come first. -/
lemma foldlM_runInit_first {inits : List (Init Pod Node σ)} (hne : inits ≠ []) :
    inits.foldlM runInit ⟨false, none⟩
      = ready <$> Router.new.register (versionRoute :: inits.flatMap Init.routes) := by
  obtain ⟨i, inits, rfl⟩ := List.exists_cons_of_ne_nil hne
  rw [List.foldlM_cons, runInit_first, bind_map_left, List.flatMap_cons, ← List.cons_append,
    register_append, map_bind]
  exact bind_congr fun router => foldlM_runInit inits router

/-! ### Distinct routes -/

/-- The method and the path of a route. -/
def key (route : Route (Endpoint Pod Node σ)) : String × List UInt8 := (route.method, route.path)

lemma pairwise_differ_iff (routes : List (Route (Endpoint Pod Node σ))) :
    routes.Pairwise Router.Differ ↔ (routes.map key).Nodup := by
  rw [List.Nodup, List.pairwise_map]
  refine List.Pairwise.iff fun route route' => ?_
  simp only [Router.Differ, key, ne_eq, Prod.mk.injEq, not_and]

/-- The key of a predicate, by its name. -/
def predicateKey (name : Name) : String × List UInt8 := ("POST", predicatesPrefix ++ slash :: name.1)

/-- The key of a priority function, by its name. -/
def priorityKey (name : Name) : String × List UInt8 := ("POST", prioritiesPrefix ++ slash :: name.1)

lemma predicateKey_injective : Function.Injective predicateKey := by
  intro name name' h
  have hpath := List.append_cancel_left (Prod.mk.inj h).2
  exact Subtype.ext (List.cons.inj hpath).2

lemma priorityKey_injective : Function.Injective priorityKey := by
  intro name name' h
  have hpath := List.append_cancel_left (Prod.mk.inj h).2
  exact Subtype.ext (List.cons.inj hpath).2

lemma predicateKey_ne_priorityKey (name name' : Name) : predicateKey name ≠ priorityKey name' := by
  intro h
  have hfront := (List.append_inj (Prod.mk.inj h).2 (by decide)).1
  exact absurd hfront (by decide)

/-- No predicate or priority function is at the path for binding. -/
lemma bindKey_ne {front : List UInt8} (hfront : bindPath.length ≤ front.length) (name : Name) :
    bindPath ≠ front ++ slash :: name.1 := by
  intro h
  have hlen := congrArg List.length h
  rw [List.length_append, List.length_cons] at hlen
  omega

/-- All predicates of the program. -/
def allPredicates (inits : List (Init Pod Node σ)) : List (Predicate Pod Node) :=
  inits.flatMap Init.predicates

/-- All priority functions of the program. -/
def allPriorities (inits : List (Init Pod Node σ)) : List (Prioritize Pod Node σ) :=
  inits.flatMap Init.priorities

/-- The keys of the agents, the predicates first. -/
lemma keys_perm (inits : List (Init Pod Node σ)) :
    ((inits.flatMap Init.routes).map key).Perm
      ((allPredicates inits).map (predicateKey ·.name)
        ++ (allPriorities inits).map (priorityKey ·.name)) := by
  rw [allPredicates, allPriorities, List.map_flatMap, List.map_flatMap, List.map_flatMap]
  refine List.Perm.trans (List.Perm.of_eq ?_) (List.flatMap_append_perm _ _ _).symm
  simp only [Init.routes, List.map_append, List.map_map]
  rfl

/-- The routes of the program can be told apart if the names can. -/
lemma differ_routesOf_iff (inits : List (Init Pod Node σ)) :
    (routesOf inits).Pairwise Router.Differ ↔ ((allPredicates inits).map (·.name)).Nodup
      ∧ ((allPriorities inits).map (·.name)).Nodup := by
  have hperm : ((routesOf inits).map key).Perm (("GET", versionPath) :: ("POST", bindPath)
      :: ((allPredicates inits).map (predicateKey ·.name)
        ++ (allPriorities inits).map (priorityKey ·.name))) := by
    rw [routesOf, List.cons_append, List.map_cons, List.map_append, List.map_singleton]
    exact ((List.perm_append_singleton _ _).trans ((keys_perm inits).cons _)).cons _
  have hversion : ("GET", versionPath) ∉ ("POST", bindPath)
      :: ((allPredicates inits).map (predicateKey ·.name)
        ++ (allPriorities inits).map (priorityKey ·.name)) := by
    simp [predicateKey, priorityKey]
  have hbind : ("POST", bindPath) ∉ (allPredicates inits).map (predicateKey ·.name)
      ++ (allPriorities inits).map (priorityKey ·.name) := by
    rw [List.mem_append, List.mem_map, List.mem_map]
    rintro (⟨p, -, hp⟩ | ⟨p, -, hp⟩)
    · exact bindKey_ne (by decide) p.name (Prod.mk.inj hp).2.symm
    · exact bindKey_ne (by decide) p.name (Prod.mk.inj hp).2.symm
  have hcross : ∀ a ∈ (allPredicates inits).map (predicateKey ·.name),
      ∀ b ∈ (allPriorities inits).map (priorityKey ·.name), a ≠ b := by
    intro a ha b hb
    obtain ⟨p, -, rfl⟩ := List.mem_map.mp ha
    obtain ⟨q, -, rfl⟩ := List.mem_map.mp hb
    exact predicateKey_ne_priorityKey p.name q.name
  calc (routesOf inits).Pairwise Router.Differ
      ↔ ((routesOf inits).map key).Nodup := pairwise_differ_iff _
    _ ↔ ((allPredicates inits).map (predicateKey ·.name)
        ++ (allPriorities inits).map (priorityKey ·.name)).Nodup := by
        rw [hperm.nodup_iff, List.nodup_cons, List.nodup_cons, and_iff_right hversion,
          and_iff_right hbind]
    _ ↔ ((allPredicates inits).map (predicateKey ·.name)).Nodup
        ∧ ((allPriorities inits).map (priorityKey ·.name)).Nodup := by
        rw [List.nodup_append, and_iff_left hcross]
    _ ↔ ((allPredicates inits).map (·.name)).Nodup
        ∧ ((allPriorities inits).map (·.name)).Nodup := by
        rw [← List.nodup_map_iff predicateKey_injective, ← List.nodup_map_iff priorityKey_injective,
          List.map_map, List.map_map]
        exact Iff.rfl

/-! ### The service -/

/-- What is at a path: the version, the refusal to bind, and the functions of the files
under their names. -/
inductive Offers (inits : List (Init Pod Node σ)) :
    String → List UInt8 → Endpoint Pod Node σ → Prop
  | version : Offers inits "GET" (bytes "/version") .version
  | bind : Offers inits "POST" (bytes "/scheduler/bind") .bind
  | predicate {p : Predicate Pod Node} : p ∈ allPredicates inits →
      Offers inits "POST" (bytes "/scheduler/predicates/" ++ p.name.1) (.predicate p)
  | prioritize {p : Prioritize Pod Node σ} : p ∈ allPriorities inits →
      Offers inits "POST" (bytes "/scheduler/priorities/" ++ p.name.1) (.prioritize p)

lemma predicatesPath_eq (name : Name) :
    predicatesPrefix ++ slash :: name.1 = bytes "/scheduler/predicates/" ++ name.1 := by
  rw [← List.singleton_append, ← List.append_assoc]
  rfl

lemma prioritiesPath_eq (name : Name) :
    prioritiesPrefix ++ slash :: name.1 = bytes "/scheduler/priorities/" ++ name.1 := by
  rw [← List.singleton_append, ← List.append_assoc]
  rfl

lemma mem_routesOf {inits : List (Init Pod Node σ)} {i : Init Pod Node σ} (hi : i ∈ inits)
    {route : Route (Endpoint Pod Node σ)} (hroute : route ∈ i.routes) :
    route ∈ routesOf inits :=
  List.mem_append_left _ (List.mem_cons_of_mem _ (List.mem_flatMap.mpr ⟨i, hi, hroute⟩))

lemma lists_routesOf_iff (inits : List (Init Pod Node σ)) (method : String) (path : List UInt8)
    (endpoint : Endpoint Pod Node σ) :
    Router.Lists (routesOf inits) method path endpoint ↔ Offers inits method path endpoint := by
  constructor
  · rintro ⟨route, hroute, rfl, rfl, rfl⟩
    rw [routesOf, List.mem_append, List.mem_cons, List.mem_singleton, List.mem_flatMap] at hroute
    rcases hroute with (rfl | ⟨i, hi, hroute⟩) | rfl
    · exact .version
    · rw [Init.routes, List.mem_append, List.mem_map, List.mem_map] at hroute
      rcases hroute with ⟨p, hp, rfl⟩ | ⟨p, hp, rfl⟩
      · change Offers inits "POST" (predicatesPrefix ++ slash :: p.name.1) (.predicate p)
        rw [predicatesPath_eq]
        exact .predicate (List.mem_flatMap.mpr ⟨i, hi, hp⟩)
      · change Offers inits "POST" (prioritiesPrefix ++ slash :: p.name.1) (.prioritize p)
        rw [prioritiesPath_eq]
        exact .prioritize (List.mem_flatMap.mpr ⟨i, hi, hp⟩)
    · exact .bind
  · intro hoffers
    cases hoffers with
    | version => exact ⟨versionRoute, by simp [routesOf], rfl, rfl, rfl⟩
    | bind => exact ⟨bindRoute, by simp [routesOf], rfl, rfl, rfl⟩
    | @predicate p hp =>
        obtain ⟨i, hi, hp⟩ := List.mem_flatMap.mp hp
        refine ⟨predicateRoute p, mem_routesOf hi ?_, rfl, predicatesPath_eq p.name, rfl⟩
        exact List.mem_append_left _ (List.mem_map_of_mem hp)
    | @prioritize p hp =>
        obtain ⟨i, hi, hp⟩ := List.mem_flatMap.mp hp
        refine ⟨prioritizeRoute p, mem_routesOf hi ?_, rfl, prioritiesPath_eq p.name, rfl⟩
        exact List.mem_append_right _ (List.mem_map_of_mem hp)

/-- `AddBind` finds no other route at its path. -/
lemma addBind_eq {inits : List (Init Pod Node σ)} {router : Router (Endpoint Pod Node σ)}
    (h : Router.Has (versionRoute :: inits.flatMap Init.routes) router) :
    addBind (ready router) = router.handle bindRoute := by
  have hfree : ¬(router.lookup "POST" bindPath).1.isSome := by
    rw [Option.isSome_iff_exists]
    rintro ⟨endpoint, hlookup⟩
    obtain ⟨route, hroute, hmethod, hpath, -⟩ := h.lookup_iff.mp hlookup
    rcases List.mem_cons.mp hroute with rfl | hroute
    · have hget : "GET" = "POST" := hmethod
      exact absurd hget (by decide)
    · obtain ⟨i, -, hroute⟩ := List.mem_flatMap.mp hroute
      rcases List.mem_append.mp hroute with hroute | hroute
      · obtain ⟨p, -, rfl⟩ := List.mem_map.mp hroute
        exact bindKey_ne (by decide) p.name hpath.symm
      · obtain ⟨p, -, rfl⟩ := List.mem_map.mp hroute
        exact bindKey_ne (by decide) p.name hpath.symm
  rw [addBind, ready]
  exact if_neg hfree

/-- The routes of the program are registered one after the other. -/
lemma start_eq {inits : List (Init Pod Node σ)} (hne : inits ≠ []) :
    start inits = Router.new.register (routesOf inits) := by
  rw [start, foldlM_runInit_first hne, bind_map_left, routesOf, register_append]
  cases hrouter : Router.new.register (versionRoute :: inits.flatMap Init.routes) with
  | error e => rfl
  | ok router =>
      refine (addBind_eq (Router.has_of_register hrouter)).trans ?_
      exact (bind_pure _).symm

/-- When the program starts. -/
lemma start_ok_iff {inits : List (Init Pod Node σ)} (hmain : .main ∈ inits) :
    (∃ r, start inits = .ok r) ↔ ((allPredicates inits).map (·.name)).Nodup
      ∧ ((allPriorities inits).map (·.name)).Nodup := by
  rw [start_eq (List.ne_nil_of_mem hmain), Router.register_ok_iff, differ_routesOf_iff]
  refine and_iff_right fun route hroute => ?_
  obtain ⟨method, path, static, endpoint⟩ := route
  have hlists := (lists_routesOf_iff inits method path endpoint).mp ⟨_, hroute, rfl, rfl, rfl⟩
  cases hlists <;> rfl

/-- What a request reaches. -/
lemma handled_iff {inits : List (Init Pod Node σ)} (hmain : .main ∈ inits)
    {r : Router (Endpoint Pod Node σ)} (hr : start inits = .ok r)
    (findPath : Httprouter.Node (Endpoint Pod Node σ) → List UInt8 → Option (List UInt8))
    {method : String} {path : List UInt8} {endpoint : Endpoint Pod Node σ} :
    r.serveHTTP findPath method path = .handled endpoint ↔ Offers inits method path endpoint := by
  rw [start_eq (List.ne_nil_of_mem hmain)] at hr
  rw [← lists_routesOf_iff]
  exact (Router.has_of_register hr).serves findPath method path endpoint

/-- The program starts exactly if no two predicates share a name, and no two priority
functions, whatever the order of the files. Then a request reaches the function that is
offered for its method and path, and no other one. -/
theorem start_serves {inits : List (Init Pod Node σ)} (hmain : .main ∈ inits) :
    ((∃ r, start inits = .ok r) ↔ ((allPredicates inits).map (·.name)).Nodup
        ∧ ((allPriorities inits).map (·.name)).Nodup)
      ∧ ∀ r, start inits = .ok r → ∀ findPath method path endpoint,
        r.serveHTTP findPath method path = .handled endpoint
          ↔ Offers inits method path endpoint :=
  ⟨start_ok_iff hmain, fun _ hr findPath _ _ _ => handled_iff hmain hr findPath⟩

lemma static_foo : colon ∉ bytes "foo" ∧ star ∉ bytes "foo" := by decide

/-- A file whose predicate and priority function have one name, before `main.go`. -/
def namesakes : List (Init Unit Unit Unit) :=
  [.agent [⟨⟨bytes "foo", static_foo⟩, fun _ _ => (true, none)⟩]
    [⟨⟨bytes "foo", static_foo⟩, fun _ _ s => (.ok (.ok []), s)⟩], .main]

/-- A predicate and a priority function may share a name, but not two predicates. -/
theorem start_serves_namesakes :
    (∃ r, start namesakes = .ok r) ∧ ¬∃ r, start (namesakes ++ namesakes) = .ok r := by
  constructor
  · exact (start_serves (by simp [namesakes])).1.mpr
      ⟨List.nodup_singleton _, List.nodup_singleton _⟩
  · rw [(start_serves (by simp [namesakes])).1]
    rintro ⟨hnodup, -⟩
    exact (List.nodup_cons.mp hnodup).1 (List.mem_singleton_self _)

end KubeSafeScheduler.Server
