import KubeSafeScheduler.Lib.StringMap
import KubeSafeScheduler.Httprouter.Tree

/-!
`httprouter/router.go`: a tree of routes for each method, and what becomes of a request.

* `Router`, `handle`, `lookup`, `serveHTTP`.
* `Has`: the invariant, the trees of the router have the routes of a list.
* `handle_ends`, `register_ends`: what one registration keeps, and a list of them.
* `register_serves`: which lists of routes are registered, and that a request is handled
  exactly by the route with its method and path.
-/

namespace KubeSafeScheduler.Httprouter

/-- The byte `':'`. -/
def colon : UInt8 := 58

/-- The byte `'*'`. -/
def star : UInt8 := 42

/-- A route without wildcards. -/
structure Route (H : Type) where
  method : String
  path : List UInt8
  static : colon ∉ path ∧ star ∉ path
  handle : H

/-- `Router`, as `New` configures it. -/
structure Router (H : Type) where
  trees : StringMap (Node H)

/-- What becomes of a request. -/
inductive Served (H : Type) where
  | handled (handle : H)
  | redirected (code : ℕ) (path : List UInt8)
  | notAllowed
  | notFound

namespace Router

variable {H : Type}

/-- `New`. -/
def new : Router H := ⟨∅⟩

/-- `Handle`. -/
def handle (r : Router H) (route : Route H) : Except Panic (Router H) :=
  match route.path.head? with
  | none => .error .range
  | some c =>
      if c ≠ slash then .error (.relative route.path)
      else do
        let root := (r.trees.get route.method).getD Node.new
        let root ← root.addRoute route.path route.handle
        .ok { trees := r.trees.insert route.method root }

/-- `Lookup`. -/
def lookup (r : Router H) (method : String) (path : List UInt8) : Option H × Bool :=
  match r.trees.get method with
  | some root => root.getValue path
  | none => (none, false)

/-- The path of a redirection: a slash less, or a slash more. -/
def toggleSlash (path : List UInt8) : List UInt8 :=
  if 1 < path.length ∧ path.getLast? = some slash then path.dropLast else path ++ [slash]

/-- Where the method has no route: whether another one has. -/
def otherMethod (r : Router H) (method : String) (path : List UInt8) : Served H :=
  if r.trees.getkeys.any fun other => other ≠ method ∧ (r.lookup other path).1.isSome then
    .notAllowed
  else .notFound

/-- `ServeHTTP`. The lookup that cleans a path and does not look at upper and lower case,
`findCaseInsensitivePath`, is given. -/
def serveHTTP (r : Router H) (findPath : Node H → List UInt8 → Option (List UInt8))
    (method : String) (path : List UInt8) : Served H :=
  match r.trees.get method with
  | none => r.otherMethod method path
  | some root =>
      match root.getValue path with
      | (some handle, _) => .handled handle
      | (none, tsr) =>
          if method ≠ "CONNECT" ∧ path ≠ [slash] then
            let code := if method ≠ "GET" then 307 else 301
            if tsr then .redirected code (toggleSlash path)
            else match findPath root path with
              | some fixedPath => .redirected code fixedPath
              | none => r.otherMethod method path
          else r.otherMethod method path

/-- A list of routes is registered. -/
def register (r : Router H) (routes : List (Route H)) : Except Panic (Router H) :=
  routes.foldlM handle r

/-! ### The routes of a router -/

/-- The route with the method and the path is in the list. -/
def Lists (routes : List (Route H)) (method : String) (path : List UInt8) (handle : H) : Prop :=
  ∃ route ∈ routes, route.method = method ∧ route.path = path ∧ route.handle = handle

/-- Two routes can be told apart by their methods and paths. -/
def Differ (route route' : Route H) : Prop :=
  route.method = route'.method → route.path ≠ route'.path

/-- The trees have the routes of the list. -/
structure Has (routes : List (Route H)) (r : Router H) : Prop where
  wf : ∀ method root, r.trees.get method = some root → root.WF
  routes_iff : ∀ method root, r.trees.get method = some root → ∀ path handle,
    root.Routes path handle ↔ Lists routes method path handle
  missing : ∀ method, r.trees.get method = none → ∀ route ∈ routes, route.method ≠ method
  absolute : ∀ route ∈ routes, route.path.head? = some slash
  differ : routes.Pairwise Differ

lemma wf_new : (Node.new : Node H).WF := Node.wf_leaf

lemma not_routes_new (path : List UInt8) (handle : H) : ¬(Node.new : Node H).Routes path handle := by
  intro hroute
  obtain ⟨rest, -, ⟨-, hsome⟩ | ⟨child, hchild, -⟩⟩ := Node.routes_iff.mp hroute
  · cases hsome
  · cases hchild

/-- The tree of a method, before a route is added to it. -/
lemma Has.root {routes : List (Route H)} {r : Router H} (h : Has routes r) (method : String) :
    ((r.trees.get method).getD Node.new).WF
      ∧ ∀ path handle, ((r.trees.get method).getD Node.new).Routes path handle
        ↔ Lists routes method path handle := by
  cases htree : r.trees.get method with
  | some root => exact ⟨h.wf method root htree, h.routes_iff method root htree⟩
  | none =>
      refine ⟨wf_new, fun path handle => iff_of_false (not_routes_new path handle) ?_⟩
      rintro ⟨route, hroute, hmethod, -⟩
      exact h.missing method htree route hroute hmethod

/-- Why a route cannot be added to those of a list. -/
def Refuses (routes : List (Route H)) (route : Route H) (e : Panic) : Prop :=
  (e = .range ∧ route.path = [])
    ∨ (e = .relative route.path ∧ route.path.head? ≠ some slash)
    ∨ (e = .registered route.path ∧ ∃ route' ∈ routes, ¬Differ route' route)

lemma lists_append {routes : List (Route H)} {route : Route H} {method : String}
    {path : List UInt8} {handle : H} : Lists (routes ++ [route]) method path handle
      ↔ Lists routes method path handle
        ∨ route.method = method ∧ route.path = path ∧ route.handle = handle := by
  simp only [Lists, List.mem_append, List.mem_singleton, or_and_right, exists_or, exists_eq_left]

/-- One tree has got a route more. -/
lemma Has.append {routes : List (Route H)} {r : Router H} (h : Has routes r) {route : Route H}
    (habsolute : route.path.head? = some slash) {root : Node H}
    (hadded : Node.Added ((r.trees.get route.method).getD Node.new) root route.path route.handle) :
    Has (routes ++ [route]) ⟨r.trees.insert route.method root⟩ := by
  obtain ⟨-, hroutes⟩ := h.root route.method
  have hget := StringMap.get_insert r.trees route.method root
  refine ⟨fun method root' htree => ?_, fun method root' htree path handle => ?_,
    fun method htree route' hin => ?_, fun route' hin => ?_, ?_⟩
  · rw [hget] at htree
    split_ifs at htree with hmethod
    · obtain rfl : root = root' := Option.some.inj htree
      exact hadded.wf
    · exact h.wf method root' htree
  · rw [hget] at htree
    rw [lists_append]
    split_ifs at htree with hmethod
    · obtain rfl : root = root' := Option.some.inj htree
      rw [hadded.routes, hroutes, hmethod]
      refine or_congr_right ⟨?_, ?_⟩
      · rintro ⟨rfl, rfl⟩
        exact ⟨rfl, rfl, rfl⟩
      · rintro ⟨-, rfl, rfl⟩
        exact ⟨rfl, rfl⟩
    · rw [h.routes_iff method root' htree]
      exact (or_iff_left fun hnew => hmethod hnew.1.symm).symm
  · rw [hget] at htree
    split_ifs at htree with hmethod
    rcases List.mem_append.mp hin with hin | hin
    · exact h.missing method htree route' hin
    · obtain rfl := List.mem_singleton.mp hin
      exact fun heq => hmethod heq.symm
  · rcases List.mem_append.mp hin with hin | hin
    · exact h.absolute route' hin
    · rw [List.mem_singleton.mp hin]
      exact habsolute
  · refine List.pairwise_append.mpr ⟨h.differ, List.pairwise_singleton _ _, ?_⟩
    intro route' hin other hother hmethod hpath
    obtain rfl := List.mem_singleton.mp hother
    exact hadded.free route'.handle ((hroutes _ _).mpr ⟨route', hin, hmethod, hpath, rfl⟩)

/-- `Handle`. -/
lemma handle_ends {routes : List (Route H)} {r : Router H} (h : Has routes r) (route : Route H) :
    Ends (Has (routes ++ [route])) (Refuses routes route) (r.handle route) := by
  rw [handle]
  cases hhead : route.path.head? with
  | none => exact .inl ⟨rfl, List.head?_eq_none_iff.mp hhead⟩
  | some c =>
      dsimp only
      split_ifs with hslash
      · refine .inr (.inl ⟨rfl, ?_⟩)
        rw [hhead]
        simpa using hslash
      · obtain rfl : c = slash := not_not.mp hslash
        obtain ⟨hwf, hroutes⟩ := h.root route.method
        have hempty : ∀ handle', ¬((r.trees.get route.method).getD Node.new).Routes [] handle' := by
          intro handle' hroute
          obtain ⟨route', hin, -, hpath, -⟩ := (hroutes _ _).mp hroute
          have habsolute := h.absolute route' hin
          rw [hpath] at habsolute
          cases habsolute
        have hadd := Node.addRoute_spec hwf hempty route.path route.handle
        refine (hadd.mono (fun _ hr => hr) ?_).bind fun root hadded => ?_
        · rintro e ⟨he, handle', hroute⟩
          obtain ⟨route', hin, hmethod, hpath, -⟩ := (hroutes _ _).mp hroute
          exact .inr (.inr ⟨he, route', hin, fun hdiffer => hdiffer hmethod hpath⟩)
        · exact h.append hhead hadded

/-- A list of routes, one after the other. -/
lemma register_ends (routes : List (Route H)) :
    Ends (Has routes) (fun e => ∃ front route back, routes = front ++ route :: back
      ∧ Refuses front route e) (register new routes) := by
  refine Ends.foldlM_list Has (fun done route rest heq r h => ?_) ?_
  · exact (handle_ends h route).mono (fun _ hr => hr) fun e he => ⟨done, route, rest, heq, he⟩
  · exact ⟨nofun, nofun, fun _ _ => nofun, nofun, .nil⟩

/-- `Lookup` finds the routes of the list. -/
lemma Has.lookup_iff {routes : List (Route H)} {r : Router H} (h : Has routes r)
    {method : String} {path : List UInt8} {handle : H} :
    (r.lookup method path).1 = some handle ↔ Lists routes method path handle := by
  rw [lookup]
  cases htree : r.trees.get method with
  | none =>
      refine iff_of_false nofun ?_
      rintro ⟨route, hroute, hmethod, -⟩
      exact h.missing method htree route hroute hmethod
  | some root =>
      rw [← h.routes_iff method root htree]
      exact Node.getValue_eq_some_iff (h.wf method root htree)

lemma otherMethod_ne_handled (r : Router H) (method : String) (path : List UInt8) (handle : H) :
    r.otherMethod method path ≠ .handled handle := by
  rw [otherMethod]
  split_ifs <;> nofun

/-- A request is handled by the route with its method and path. -/
lemma Has.serves {routes : List (Route H)} {r : Router H} (h : Has routes r)
    (findPath : Node H → List UInt8 → Option (List UInt8)) (method : String)
    (path : List UInt8) (handle : H) :
    r.serveHTTP findPath method path = .handled handle ↔ Lists routes method path handle := by
  rw [serveHTTP]
  cases htree : r.trees.get method with
  | none =>
      refine iff_of_false (otherMethod_ne_handled r method path handle) ?_
      rintro ⟨route, hroute, hmethod, -⟩
      exact h.missing method htree route hroute hmethod
  | some root =>
      dsimp only
      rw [← h.routes_iff method root htree, ← Node.getValue_eq_some_iff (h.wf method root htree)]
      obtain ⟨found, tsr⟩ := root.getValue path
      cases found with
      | some other => simp
      | none =>
          refine iff_of_false ?_ nofun
          dsimp only
          by_cases hredirect : method ≠ "CONNECT" ∧ path ≠ [slash]
          · rw [if_pos hredirect]
            cases tsr with
            | true => simp
            | false =>
                rw [if_neg Bool.false_ne_true]
                cases findPath root path with
                | some fixedPath => nofun
                | none => exact otherMethod_ne_handled r method path handle
          · rw [if_neg hredirect]
            exact otherMethod_ne_handled r method path handle

/-- A request that only lacks a slash at its end is redirected. -/
lemma Has.redirects {routes : List (Route H)} {r : Router H} (h : Has routes r)
    (findPath : Node H → List UInt8 → Option (List UInt8)) {method : String}
    {path : List UInt8} {handle : H} (hlists : Lists routes method (path ++ [slash]) handle)
    (hfree : ∀ handle', ¬Lists routes method path handle') (hlast : path.getLast? ≠ some slash)
    (hconnect : method ≠ "CONNECT") : r.serveHTTP findPath method path
      = .redirected (if method ≠ "GET" then 307 else 301) (path ++ [slash]) := by
  have hroot : path ≠ [slash] := by
    rintro rfl
    exact hlast rfl
  rw [serveHTTP]
  cases htree : r.trees.get method with
  | none =>
      obtain ⟨route, hroute, hmethod, -⟩ := hlists
      exact absurd hmethod (h.missing method htree route hroute)
  | some root =>
      rw [← h.routes_iff method root htree] at hlists
      have hvalue : root.getValue path = (none, true) := by
        refine Node.lookup_redirects (h.wf method root htree) (by split_ifs <;> omega) hlists
          fun handle' hroute => ?_
        exact hfree handle' ((h.routes_iff method root htree _ _).mp hroute)
      have htoggle : toggleSlash path = path ++ [slash] := if_neg fun hlong => hlast hlong.2
      dsimp only
      rw [hvalue]
      dsimp only
      rw [if_pos ⟨hconnect, hroot⟩, htoggle]
      exact if_pos rfl

/-- Which lists of routes are registered: all paths begin with a slash, and no two routes
have the same method and path. -/
lemma register_ok_iff (routes : List (Route H)) :
    (∃ r, register new routes = .ok r)
      ↔ (∀ route ∈ routes, route.path.head? = some slash) ∧ routes.Pairwise Differ := by
  have hends := register_ends routes
  constructor
  · rintro ⟨r, hr⟩
    rw [hr] at hends
    exact ⟨hends.absolute, hends.differ⟩
  · rintro ⟨habsolute, hdiffer⟩
    cases hr : register new routes with
    | ok r => exact ⟨r, rfl⟩
    | error e =>
        rw [hr] at hends
        obtain ⟨front, route, back, rfl, hrefuses⟩ := hends
        have hhead := habsolute route (List.mem_append_right _ List.mem_cons_self)
        rcases hrefuses with ⟨-, hpath⟩ | ⟨-, hpath⟩ | ⟨-, other, hother, hsame⟩
        · rw [hpath] at hhead
          cases hhead
        · exact absurd hhead hpath
        · have hcross := (List.pairwise_append.mp hdiffer).2.2 other hother route List.mem_cons_self
          exact absurd hcross hsame

lemma has_of_register {routes : List (Route H)} {r : Router H}
    (hr : register new routes = .ok r) : Has routes r := by
  have hends := register_ends routes
  rw [hr] at hends
  exact hends

/-- A list of routes is registered exactly if all paths begin with a slash and no two
routes have the same method and path. Then a request is handled exactly by the route with
its method and path, and redirected if it only lacks a slash at the end. -/
theorem register_serves (routes : List (Route H)) :
    ((∃ r, register new routes = .ok r)
        ↔ (∀ route ∈ routes, route.path.head? = some slash) ∧ routes.Pairwise Differ)
      ∧ ∀ r, register new routes = .ok r → ∀ findPath method path,
        (∀ handle, r.serveHTTP findPath method path = .handled handle
          ↔ Lists routes method path handle)
        ∧ (∀ handle, Lists routes method (path ++ [slash]) handle →
          (∀ handle', ¬Lists routes method path handle') → path.getLast? ≠ some slash →
          method ≠ "CONNECT" → r.serveHTTP findPath method path
            = .redirected (if method ≠ "GET" then 307 else 301) (path ++ [slash])) := by
  refine ⟨register_ok_iff routes, fun r hr findPath method path => ?_⟩
  have hhas := has_of_register hr
  exact ⟨hhas.serves findPath method path, fun handle hlists hfree hlast hconnect =>
    hhas.redirects findPath hlists hfree hlast hconnect⟩

end Router

end KubeSafeScheduler.Httprouter
