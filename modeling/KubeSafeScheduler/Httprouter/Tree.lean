import KubeSafeScheduler.Lib.Buffer

/-!
`httprouter/tree.go`: the tree of the routes of one method, for paths without wildcards.
An edge has a part of a path, the edges below a node start with different bytes, and
adding a route moves the edges it passes to the front, by their priorities.

* `Node`, `addRoute` with `walk`, `split` and `incrementChildPrio`, and `getValue`.
* `Routes`: the paths of a tree with their handles, read off its nodes.
* `WF`: the invariant, the bytes in `indices` are the first ones of the children and all
  different.
* `walk_spec`, `addRoute_spec`: one more route, or a panic if the path has one.
* `getValue_eq_some_iff`: what is looked up is what the tree has.
-/

namespace KubeSafeScheduler.Httprouter

/-! ### The tree -/

/-- The byte `'/'`. -/
def slash : UInt8 := 47

/-- Why the program stops: a handle is already registered for the path, the path does not
begin with a slash, an index is out of range, a pointer is nil, or a loop does not end. -/
inductive Panic where
  | registered (fullPath : List UInt8)
  | relative (path : List UInt8)
  | range
  | nilPointer
  | running
  deriving DecidableEq

/-- `node`, in a tree without wildcards. -/
structure Node (H : Type) where
  path : List UInt8
  indices : List UInt8
  children : List (Node H)
  handle : Option H
  priority : ℕ

namespace Node

variable {H : Type}

/-- `new(node)`. -/
def new : Node H := ⟨[], [], [], none, 0⟩

/-- The length of the longest common prefix. -/
def commonPrefix : List UInt8 → List UInt8 → ℕ
  | a :: as, b :: bs => if a = b then commonPrefix as bs + 1 else 0
  | _, _ => 0

/-- Split edge. -/
def split (n : Node H) (i : ℕ) : Node H where
  path := n.path.take i
  indices := (n.path.drop i).take 1
  children := [{ n with path := n.path.drop i, priority := n.priority - 1 }]
  handle := none
  priority := n.priority

/-- The child at a position moves to the front, past those with a lower priority. -/
def moveFront (prio : ℕ) : ℕ → List (Node H) → ℕ × List (Node H)
  | 0, children => (0, children)
  | pos + 1, children =>
      match children[pos]?, children[pos + 1]? with
      | some a, some b =>
          if a.priority < prio then moveFront prio pos ((children.set pos b).set (pos + 1) a)
          else (pos + 1, children)
      | _, _ => (pos + 1, children)

/-- `incrementChildPrio`. -/
def incrementChildPrio (n : Node H) (pos : ℕ) : ℕ × Node H :=
  let children := n.children.modify pos fun child =>
    { child with priority := child.priority + 1 }
  let prio := (children[pos]?.map priority).getD 0
  let (newPos, children) := moveFront prio pos children
  let indices :=
    if newPos ≠ pos then
      n.indices.take newPos ++ (n.indices.drop pos).take 1
        ++ (n.indices.take pos).drop newPos ++ n.indices.drop (pos + 1)
    else n.indices
  (newPos, { n with children, indices })

/-- `insertChild`, of a path without wildcards. -/
def insertChild (n : Node H) (path : List UInt8) (handle : H) : Node H :=
  { n with path, handle := some handle }

/-- A new child for the path `c :: rest`, when no child starts with its first byte. -/
def newChild (n : Node H) (c : UInt8) (rest : List UInt8) (handle : H) : Node H :=
  let n := { n with indices := n.indices ++ [c], children := n.children ++ [new] }
  let (pos, n) := n.incrementChildPrio (n.indices.length - 1)
  { n with children := n.children.modify pos (·.insertChild (c :: rest) handle) }

/-- The loop `walk` of `addRoute`: every round goes to a child, and takes a byte of the
path unless it starts at a node without one. -/
def walk (fullPath : List UInt8) (handle : H) : ℕ → Node H → List UInt8 → Except Panic (Node H)
  | 0, _, _ => .error .running
  | fuel + 1, n, path =>
      let i := commonPrefix path n.path
      let n := if i < n.path.length then n.split i else n
      match path.drop i with
      | c :: rest =>
          match n.indices.idxOf? c with
          | some pos =>
              let (pos, n) := n.incrementChildPrio pos
              match n.children[pos]? with
              | some child => do
                  let child ← walk fullPath handle fuel child (c :: rest)
                  .ok { n with children := n.children.set pos child }
              | none => .error .range
          | none => .ok (n.newChild c rest handle)
      | [] =>
          if n.handle.isSome then .error (.registered fullPath)
          else .ok { n with handle := some handle }

/-- `addRoute`. -/
def addRoute (n : Node H) (path : List UInt8) (handle : H) : Except Panic (Node H) :=
  let n := { n with priority := n.priority + 1 }
  if 0 < n.path.length ∨ 0 < n.children.length then walk path handle (path.length + 2) n path
  else .ok (n.insertChild path handle)

/-- Where no route is found: whether there is one with a slash more. -/
def extraSlash (n : Node H) (path : List UInt8) : Bool :=
  path = [slash] ∨ (n.path = path ++ [slash] ∧ n.handle.isSome)

/-- The loop of `getValue`: the handle, and the recommendation to redirect. -/
def lookup : ℕ → Node H → List UInt8 → Option H × Bool
  | 0, _, _ => (none, false)
  | fuel + 1, n, path =>
      if n.path.length < path.length then
        if path.take n.path.length = n.path then
          match path.drop n.path.length with
          | c :: rest =>
              match n.indices.idxOf? c with
              | some i =>
                  match n.children[i]? with
                  | some child => lookup fuel child (c :: rest)
                  | none => (none, false)
              | none => (none, (c :: rest = [slash] ∧ n.handle.isSome : Bool))
          | [] => (none, false)
        else (none, n.extraSlash path)
      else if path = n.path then
        match n.handle with
        | some handle => (some handle, false)
        | none =>
            match (n.indices.idxOf? slash).bind (n.children[·]?) with
            | some child => (none, (child.path.length = 1 ∧ child.handle.isSome : Bool))
            | none => (none, false)
      else (none, n.extraSlash path)

/-- `getValue`. -/
def getValue (n : Node H) (path : List UInt8) : Option H × Bool := n.lookup (path.length + 2) path

/-! ### The routes of a tree -/

/-- The paths of a tree with their handles. -/
inductive Routes : Node H → List UInt8 → H → Prop
  | here {n : Node H} {handle : H} : n.handle = some handle → Routes n n.path handle
  | deeper {n child : Node H} {path : List UInt8} {handle : H} :
      child ∈ n.children → Routes child path handle → Routes n (n.path ++ path) handle

/-- The bytes in `indices` are the first ones of the children, and all different. -/
inductive WF : Node H → Prop
  | intro {n : Node H} : n.indices.map some = n.children.map (·.path.head?) → n.indices.Nodup →
      (∀ child ∈ n.children, WF child) → WF n

/-- What is below the path of a node. -/
def Inside (n : Node H) (path : List UInt8) (handle : H) : Prop :=
  path = [] ∧ n.handle = some handle ∨ ∃ child ∈ n.children, Routes child path handle

variable {n child : Node H} {path : List UInt8} {handle : H}

lemma routes_iff : Routes n path handle ↔ ∃ rest, path = n.path ++ rest ∧ Inside n rest handle := by
  constructor
  · intro h
    cases h with
    | here h => exact ⟨[], by simp, .inl ⟨rfl, h⟩⟩
    | deeper hchild h => exact ⟨_, rfl, .inr ⟨_, hchild, h⟩⟩
  · rintro ⟨rest, rfl, ⟨rfl, h⟩ | ⟨child, hchild, h⟩⟩
    · rw [List.append_nil]
      exact .here h
    · exact .deeper hchild h

lemma routes_append {rest : List UInt8} :
    Routes n (n.path ++ rest) handle ↔ Inside n rest handle := by
  rw [routes_iff]
  constructor
  · rintro ⟨rest', heq, h⟩
    rwa [List.append_cancel_left heq]
  · exact fun h => ⟨rest, rfl, h⟩

lemma Routes.isPrefix (h : Routes n path handle) : n.path <+: path := by
  obtain ⟨rest, rfl, -⟩ := routes_iff.mp h
  exact List.prefix_append _ _

namespace WF

lemma indices_eq (h : WF n) : n.indices.map some = n.children.map (·.path.head?) := by
  cases h with
  | intro heq _ _ => exact heq

lemma nodup (h : WF n) : n.indices.Nodup := by
  cases h with
  | intro _ hnodup _ => exact hnodup

lemma of_mem (h : WF n) (hchild : child ∈ n.children) : WF child := by
  cases h with
  | intro _ _ hall => exact hall child hchild

/-- Every child has its own first byte. -/
lemma head_of_mem (h : WF n) (hchild : child ∈ n.children) :
    ∃ c ∈ n.indices, child.path.head? = some c := by
  have hmem : child.path.head? ∈ n.indices.map some :=
    h.indices_eq ▸ List.mem_map_of_mem hchild
  obtain ⟨c, hc, heq⟩ := List.mem_map.mp hmem
  exact ⟨c, hc, heq.symm⟩

lemma length_eq (h : WF n) : n.indices.length = n.children.length := by
  simpa using congrArg List.length h.indices_eq

end WF

/-! ### Edges -/

/-- The bytes and the children of the edges before, at and after a position. -/
structure At (n : Node H) (pos : ℕ) (c : UInt8) (child : Node H) (before after : List UInt8)
    (front back : List (Node H)) : Prop where
  indices : n.indices = before ++ c :: after
  children : n.children = front ++ child :: back
  pos_eq : before.length = pos
  before_eq : before.map some = front.map (·.path.head?)
  after_eq : after.map some = back.map (·.path.head?)

lemma At.front_length {pos : ℕ} {c : UInt8} {before after : List UInt8}
    {front back : List (Node H)} (h : At n pos c child before after front back) :
    front.length = pos := by
  have hlen := congrArg List.length h.before_eq
  rw [List.length_map, List.length_map] at hlen
  rw [← hlen, h.pos_eq]

lemma exists_at (heq : n.indices.map some = n.children.map (·.path.head?)) {c : UInt8} {pos : ℕ}
    (hpos : n.indices.idxOf? c = some pos) :
    ∃ child before after front back, At n pos c child before after front back
      ∧ child.path.head? = some c := by
  obtain ⟨hlt, hc, -⟩ := List.idxOf?_eq_some_iff.mp hpos
  have hindices : n.indices = n.indices.take pos ++ c :: n.indices.drop (pos + 1) := by
    rw [← hc, List.getElem_cons_drop, List.take_append_drop]
  rw [hindices, List.map_append, List.map_cons] at heq
  obtain ⟨front, tail, hchildren, hfront, htail⟩ := List.map_eq_append_iff.mp heq.symm
  obtain ⟨child, back, rfl, hhead, hback⟩ := List.map_eq_cons_iff.mp htail
  exact ⟨child, _, _, front, back, ⟨hindices, hchildren, by simp; omega, hfront.symm,
    hback.symm⟩, hhead⟩

/-- The child moves to the front, and the others keep their order. -/
lemma moveFront_eq (prio : ℕ) (front : List (Node H)) (child : Node H) (back : List (Node H)) :
    ∃ k ≤ front.length, moveFront prio front.length (front ++ child :: back)
      = (k, front.take k ++ child :: (front.drop k ++ back)) := by
  induction front using List.reverseRecOn generalizing back with
  | nil => exact ⟨0, le_rfl, rfl⟩
  | append_singleton front a ih =>
      rw [List.length_append, List.length_singleton, moveFront]
      have ha : (front ++ [a] ++ child :: back)[front.length]? = some a := by simp
      have hchild : (front ++ [a] ++ child :: back)[front.length + 1]? = some child := by simp
      rw [ha, hchild]
      dsimp only
      split_ifs with hlt
      · obtain ⟨k, hk, heq⟩ := ih (a :: back)
        have hswap : ((front ++ [a] ++ child :: back).set front.length child).set
            (front.length + 1) a = front ++ child :: a :: back := by simp
        refine ⟨k, by omega, ?_⟩
        rw [hswap, heq, List.take_append_of_le_length hk, List.drop_append_of_le_length hk,
          List.append_assoc, List.singleton_append]
      · refine ⟨front.length + 1, le_rfl, ?_⟩
        rw [List.take_of_length_le (by simp), List.drop_of_length_le (by simp), List.nil_append]

lemma modify_append_cons {α : Type*} (f : α → α) (front : List α) (a : α) (back : List α) :
    (front ++ a :: back).modify front.length f = front ++ f a :: back := by
  induction front with
  | nil => rfl
  | cons b front ih =>
      rw [List.cons_append, List.length_cons, List.modify_succ_cons, ih, List.cons_append]

/-- The byte moves as the child does. -/
lemma moveIndex_eq {before : List UInt8} {k : ℕ} (hk : k ≤ before.length) (c : UInt8)
    (after : List UInt8) :
    (if k ≠ before.length then
      (before ++ c :: after).take k ++ ((before ++ c :: after).drop before.length).take 1
        ++ ((before ++ c :: after).take before.length).drop k
        ++ (before ++ c :: after).drop (before.length + 1)
    else before ++ c :: after) = before.take k ++ c :: (before.drop k ++ after) := by
  split_ifs with hmoved
  · have hlast : (before ++ c :: after).drop (before.length + 1) = after := by
      rw [← List.drop_drop, List.drop_left]
      rfl
    rw [hlast, List.take_append_of_le_length hk, List.drop_left, List.take_left]
    simp
  · rw [not_not.mp hmoved, List.take_length, List.drop_length, List.nil_append]

/-- `incrementChildPrio`: the edge moves to the front, and the others keep their order. -/
lemma incrementChildPrio_eq {pos : ℕ} {c : UInt8} {before after : List UInt8}
    {front back : List (Node H)} (h : At n pos c child before after front back) :
    ∃ k ≤ pos, n.incrementChildPrio pos = (k, { n with
      indices := before.take k ++ c :: (before.drop k ++ after)
      children := front.take k ++ { child with priority := child.priority + 1 }
        :: (front.drop k ++ back) }) := by
  have hfront := h.front_length
  have hbefore := h.pos_eq
  obtain ⟨k, hk, hmove⟩ := moveFront_eq (child.priority + 1) front
    { child with priority := child.priority + 1 } back
  have hmodify : n.children.modify pos (fun child => { child with priority := child.priority + 1 })
      = front ++ { child with priority := child.priority + 1 } :: back := by
    rw [h.children, ← hfront, modify_append_cons]
  have hprio : (n.children.modify pos fun child =>
      { child with priority := child.priority + 1 })[pos]?
      = some { child with priority := child.priority + 1 } := by
    rw [hmodify, ← hfront, List.getElem?_append_right le_rfl, Nat.sub_self, List.getElem?_cons_zero]
  refine ⟨k, hfront ▸ hk, ?_⟩
  rw [hfront] at hmove hk
  rw [incrementChildPrio, hprio, hmodify, Option.map_some, Option.getD_some, hmove]
  dsimp only
  rw [h.indices, ← hbefore, moveIndex_eq (hbefore.symm ▸ hk)]

/-! ### One more route -/

lemma inside_congr {m : Node H} (hchildren : m.children = n.children)
    (hhandle : m.handle = n.handle) : Inside m path handle ↔ Inside n path handle := by
  rw [Inside, Inside, hchildren, hhandle]

lemma routes_congr {m : Node H} (hpath : m.path = n.path) (hchildren : m.children = n.children)
    (hhandle : m.handle = n.handle) : Routes m path handle ↔ Routes n path handle := by
  rw [routes_iff, routes_iff, hpath]
  simp only [inside_congr hchildren hhandle]

/-- The priority does not matter. -/
lemma routes_priority (n : Node H) (prio : ℕ) :
    Routes { n with priority := prio } path handle ↔ Routes n path handle :=
  routes_congr rfl rfl rfl

lemma WF.congr {m : Node H} (h : WF n) (hindices : m.indices = n.indices)
    (hchildren : m.children = n.children) : WF m :=
  .intro (hindices ▸ hchildren ▸ h.indices_eq) (hindices ▸ h.nodup)
    fun _ hchild => h.of_mem (hchildren ▸ hchild)

/-- The common prefix, and two rests that start differently. -/
lemma commonPrefix_spec (path other : List UInt8) :
    ∃ shared rest rest', path = shared ++ rest ∧ other = shared ++ rest'
      ∧ shared.length = commonPrefix path other
      ∧ ∀ c, rest.head? = some c → rest'.head? ≠ some c := by
  induction path generalizing other with
  | nil => exact ⟨[], [], other, rfl, rfl, by simp [commonPrefix], by simp⟩
  | cons a path ih =>
      cases other with
      | nil => exact ⟨[], a :: path, [], rfl, rfl, by simp [commonPrefix], by simp⟩
      | cons b other =>
          rw [commonPrefix]
          split_ifs with hab
          · obtain ⟨shared, rest, rest', rfl, rfl, hlen, hne⟩ := ih other
            exact ⟨a :: shared, rest, rest', rfl, by rw [hab]; rfl, by rw [← hlen]; rfl, hne⟩
          · refine ⟨[], a :: path, b :: other, rfl, rfl, rfl, fun c hc => ?_⟩
            obtain rfl : a = c := by simpa using hc
            simpa using Ne.symm hab

/-- A split edge leads to the same routes. -/
lemma routes_split {shared rest : List UInt8} (hpath : n.path = shared ++ rest) :
    Routes (n.split shared.length) path handle ↔ Routes n path handle := by
  have hrest : n.path.drop shared.length = rest := by rw [hpath, List.drop_left]
  have hbelow : ∀ path, Inside (n.split shared.length) path handle
      ↔ ∃ tail, path = rest ++ tail ∧ Inside n tail handle := by
    intro path
    rw [Inside, split, hrest]
    simp only [reduceCtorEq, and_false, false_or, List.mem_singleton, exists_eq_left]
    rw [routes_iff]
    exact Iff.rfl
  have hshared : (n.split shared.length).path = shared := by rw [split, hpath, List.take_left]
  rw [routes_iff, routes_iff, hpath, hshared]
  simp only [hbelow]
  constructor
  · rintro ⟨_, rfl, tail, rfl, h⟩
    exact ⟨tail, by rw [List.append_assoc], h⟩
  · rintro ⟨tail, rfl, h⟩
    exact ⟨rest ++ tail, by rw [List.append_assoc], tail, rfl, h⟩

lemma WF.split (h : WF n) {shared : List UInt8} {c : UInt8} {rest : List UInt8}
    (hpath : n.path = shared ++ c :: rest) : WF (n.split shared.length) := by
  have hrest : n.path.drop shared.length = c :: rest := by rw [hpath, List.drop_left]
  refine .intro ?_ ?_ fun child hchild => ?_
  · simp [Node.split, hrest]
  · simp [Node.split, hrest]
  · rw [Node.split, List.mem_singleton] at hchild
    subst hchild
    exact h.congr rfl rfl

/-- The tree `n'` has one route more than `n`. -/
structure Added (n n' : Node H) (path : List UInt8) (handle : H) : Prop where
  wf : WF n'
  free : ∀ handle', ¬Routes n path handle'
  routes : ∀ path' handle', Routes n' path' handle'
    ↔ Routes n path' handle' ∨ path' = path ∧ handle' = handle
  head : ∀ c, path.head? = some c → n.path.head? = some c → n'.path.head? = some c

/-- A child gets a route more, or a new child is made, and the edges are put in another
order. -/
lemma wf_insert {n' : Node H} {c : UInt8} {before after : List UInt8} {child : Node H}
    {front back : List (Node H)} (hindices : n'.indices = before ++ c :: after)
    (hchildren : n'.children = front ++ child :: back)
    (hbefore : before.map some = front.map (·.path.head?))
    (hafter : after.map some = back.map (·.path.head?)) (hhead : child.path.head? = some c)
    (hnodup : (before ++ c :: after).Nodup) (hchild : WF child)
    (hall : ∀ other ∈ front ++ back, WF other) : WF n' := by
  refine .intro ?_ (hindices ▸ hnodup) fun other hother => ?_
  · rw [hindices, hchildren, List.map_append, List.map_append, List.map_cons, List.map_cons,
      hbefore, hafter, hhead]
  · rw [hchildren, List.mem_append, List.mem_cons] at hother
    rcases hother with hother | rfl | hother
    · exact hall other (List.mem_append_left _ hother)
    · exact hchild
    · exact hall other (List.mem_append_right _ hother)

/-- What is added below the path of a node. -/
lemma added_of_inside {n' : Node H} {rest : List UInt8} (hwf : WF n') (hpath : n'.path = n.path)
    (hfree : ∀ handle', ¬Inside n rest handle')
    (hinside : ∀ rest' handle', Inside n' rest' handle'
      ↔ Inside n rest' handle' ∨ rest' = rest ∧ handle' = handle) :
    Added n n' (n.path ++ rest) handle where
  wf := hwf
  free := fun handle' h => hfree handle' (routes_append.mp h)
  routes := by
    intro path' handle'
    rw [routes_iff, hpath]
    simp only [hinside]
    constructor
    · rintro ⟨rest', rfl, h | ⟨rfl, rfl⟩⟩
      · exact .inl (routes_append.mpr h)
      · exact .inr ⟨rfl, rfl⟩
    · rintro (h | ⟨rfl, rfl⟩)
      · obtain ⟨rest', rfl, hinside'⟩ := routes_iff.mp h
        exact ⟨rest', rfl, .inl hinside'⟩
      · exact ⟨rest, rfl, .inr ⟨rfl, rfl⟩⟩
  head := fun c _ hc => hpath ▸ hc

/-- No child has the empty path. -/
lemma inside_nil (h : WF n) : Inside n [] handle ↔ n.handle = some handle := by
  refine ⟨?_, fun hhandle => .inl ⟨rfl, hhandle⟩⟩
  rintro (⟨-, hhandle⟩ | ⟨child, hchild, hroute⟩)
  · exact hhandle
  · obtain ⟨c, -, hc⟩ := h.head_of_mem hchild
    rw [List.prefix_nil.mp hroute.isPrefix] at hc
    cases hc

lemma head_of_isPrefix {b c : UInt8} {rest : List UInt8} (h : path <+: c :: rest)
    (hb : path.head? = some b) : b = c := by
  cases path with
  | nil => cases hb
  | cons a path =>
      obtain rfl : a = b := by simpa using hb
      exact (List.cons_prefix_cons.mp h).1

/-- A child with its own first byte has the routes that start with it. -/
lemma inside_cons (h : WF n) {c : UInt8} {rest : List UInt8} :
    Inside n (c :: rest) handle
      ↔ ∃ child ∈ n.children, child.path.head? = some c ∧ Routes child (c :: rest) handle := by
  constructor
  · rintro (⟨hnil, -⟩ | ⟨child, hchild, hroute⟩)
    · cases hnil
    · obtain ⟨b, -, hb⟩ := h.head_of_mem hchild
      exact ⟨child, hchild, head_of_isPrefix hroute.isPrefix hb ▸ hb, hroute⟩
  · rintro ⟨child, hchild, -, hroute⟩
    exact .inr ⟨child, hchild, hroute⟩

/-- The handle of the node itself. -/
lemma added_handle (h : WF n) (hfree : n.handle = none) (handle : H) :
    Added n { n with handle := some handle } (n.path ++ []) handle := by
  refine added_of_inside (h.congr rfl rfl) rfl ?_ fun rest' handle' => ?_
  · intro handle' hinside
    rw [inside_nil h, hfree] at hinside
    cases hinside
  · rw [Inside, Inside, hfree]
    constructor
    · rintro (⟨rfl, hsome⟩ | hbelow)
      · exact .inr ⟨rfl, (Option.some.inj hsome).symm⟩
      · exact .inl (.inr hbelow)
    · rintro ((⟨-, hsome⟩ | hbelow) | ⟨rfl, rfl⟩)
      · cases hsome
      · exact .inr hbelow
      · exact .inl ⟨rfl, rfl⟩

/-- A new child. -/
lemma added_child (h : WF n) {c : UInt8} (hc : c ∉ n.indices) (rest : List UInt8) (handle : H)
    {n' child : Node H} {k : ℕ} (hpath : n'.path = n.path) (hhandle : n'.handle = n.handle)
    (hindices : n'.indices = n.indices.take k ++ c :: n.indices.drop k)
    (hchildren : n'.children = n.children.take k ++ child :: n.children.drop k)
    (hwf : WF child) (hhead : child.path.head? = some c)
    (hroutes : ∀ path' handle', Routes child path' handle'
      ↔ path' = c :: rest ∧ handle' = handle) :
    Added n n' (n.path ++ c :: rest) handle := by
  have htake : (n.indices.take k).map some = (n.children.take k).map (·.path.head?) := by
    rw [List.map_take, List.map_take, h.indices_eq]
  have hdrop : (n.indices.drop k).map some = (n.children.drop k).map (·.path.head?) := by
    rw [List.map_drop, List.map_drop, h.indices_eq]
  have hnodup : (n.indices.take k ++ c :: n.indices.drop k).Nodup := by
    rw [List.nodup_middle, List.take_append_drop]
    exact List.nodup_cons.mpr ⟨hc, h.nodup⟩
  have hmem : ∀ other, other ∈ n'.children ↔ other ∈ n.children ∨ other = child := by
    intro other
    conv_rhs => rw [← List.take_append_drop k n.children]
    rw [hchildren, List.mem_append, List.mem_append, List.mem_cons]
    tauto
  refine added_of_inside (wf_insert hindices hchildren htake hdrop hhead hnodup hwf ?_) hpath ?_
    fun rest' handle' => ?_
  · rw [List.take_append_drop]
    exact fun other hother => h.of_mem hother
  · rintro handle' hinside
    obtain ⟨other, hother, hhead', -⟩ := (inside_cons h).mp hinside
    obtain ⟨b, hb, hb'⟩ := h.head_of_mem hother
    obtain rfl : b = c := Option.some.inj (hb'.symm.trans hhead')
    exact hc hb
  · rw [Inside, Inside, hhandle]
    simp only [hmem]
    constructor
    · rintro (hhere | ⟨other, hother | rfl, hroute⟩)
      · exact .inl (.inl hhere)
      · exact .inl (.inr ⟨other, hother, hroute⟩)
      · exact .inr ((hroutes _ _).mp hroute)
    · rintro ((hhere | ⟨other, hother, hroute⟩) | hnew)
      · exact .inl hhere
      · exact .inr ⟨other, .inl hother, hroute⟩
      · exact .inr ⟨child, .inr rfl, (hroutes _ _).mpr hnew⟩

lemma At.nodup {pos : ℕ} {c : UInt8} {before after : List UInt8} {front back : List (Node H)}
    (hat : At n pos c child before after front back) (h : WF n) :
    (c :: (before ++ after)).Nodup := by
  rw [← List.nodup_middle, ← hat.indices]
  exact h.nodup

/-- No other child starts with the byte. -/
lemma At.head_ne {pos : ℕ} {c : UInt8} {before after : List UInt8} {front back : List (Node H)}
    (hat : At n pos c child before after front back) (h : WF n) {other : Node H}
    (hin : other ∈ front ++ back) : other.path.head? ≠ some c := by
  intro hhead
  have hmem : other.path.head? ∈ (before ++ after).map some := by
    rw [List.map_append, hat.before_eq, hat.after_eq, ← List.map_append]
    exact List.mem_map_of_mem hin
  obtain ⟨b, hb, hb'⟩ := List.mem_map.mp hmem
  obtain rfl : b = c := Option.some.inj (hb'.trans hhead)
  exact (List.nodup_cons.mp (hat.nodup h)).1 hb

/-- A child with a route more. -/
lemma added_below (h : WF n) {pos : ℕ} {c : UInt8} {before after : List UInt8}
    {front back : List (Node H)} (hat : At n pos c child before after front back) {k : ℕ}
    (rest : List UInt8) (handle : H) {n' child' : Node H} (hpath : n'.path = n.path)
    (hhandle : n'.handle = n.handle)
    (hindices : n'.indices = before.take k ++ c :: (before.drop k ++ after))
    (hchildren : n'.children = front.take k ++ child' :: (front.drop k ++ back))
    (hhead : child.path.head? = some c) (hadded : Added child child' (c :: rest) handle) :
    Added n n' (n.path ++ c :: rest) handle := by
  have htake : (before.take k).map some = (front.take k).map (·.path.head?) := by
    rw [List.map_take, List.map_take, hat.before_eq]
  have hdrop : (before.drop k ++ after).map some = (front.drop k ++ back).map (·.path.head?) := by
    rw [List.map_append, List.map_append, List.map_drop, List.map_drop, hat.before_eq,
      hat.after_eq]
  have hnodup : (before.take k ++ c :: (before.drop k ++ after)).Nodup := by
    rw [List.nodup_middle, ← List.append_assoc, List.take_append_drop]
    exact hat.nodup h
  have hmem : ∀ other, other ∈ n.children ↔ other ∈ front ++ back ∨ other = child := by
    intro other
    rw [hat.children, List.mem_append, List.mem_append, List.mem_cons]
    tauto
  have hmem' : ∀ other, other ∈ n'.children ↔ other ∈ front ++ back ∨ other = child' := by
    intro other
    conv_rhs => rw [← List.take_append_drop k front]
    simp only [hchildren, List.mem_append, List.mem_cons]
    tauto
  have hwf : ∀ other ∈ front.take k ++ (front.drop k ++ back), WF other := by
    intro other hother
    rw [← List.append_assoc, List.take_append_drop] at hother
    exact h.of_mem ((hmem other).mpr (.inl hother))
  have hother : ∀ other ∈ front ++ back, ∀ handle', ¬Routes other (c :: rest) handle' := by
    intro other hin handle' hroute
    obtain ⟨b, -, hb⟩ := h.head_of_mem ((hmem other).mpr (.inl hin))
    exact hat.head_ne h hin (head_of_isPrefix hroute.isPrefix hb ▸ hb)
  refine added_of_inside (wf_insert hindices hchildren htake hdrop
    (hadded.head c rfl hhead) hnodup hadded.wf hwf) hpath ?_ fun rest' handle' => ?_
  · rintro handle' (⟨hnil, -⟩ | ⟨other, hmem'', hroute⟩)
    · cases hnil
    · rcases (hmem other).mp hmem'' with hin | rfl
      · exact hother other hin handle' hroute
      · exact hadded.free handle' hroute
  · rw [Inside, Inside, hhandle]
    simp only [hmem, hmem']
    constructor
    · rintro (hhere | ⟨other, hin | rfl, hroute⟩)
      · exact .inl (.inl hhere)
      · exact .inl (.inr ⟨other, .inl hin, hroute⟩)
      · rcases (hadded.routes _ _).mp hroute with hold | hnew
        · exact .inl (.inr ⟨child, .inr rfl, hold⟩)
        · exact .inr hnew
    · rintro ((hhere | ⟨other, hin | rfl, hroute⟩) | hnew)
      · exact .inl hhere
      · exact .inr ⟨other, .inl hin, hroute⟩
      · exact .inr ⟨child', .inr rfl, (hadded.routes _ _).mpr (.inl hroute)⟩
      · exact .inr ⟨child', .inr rfl, (hadded.routes _ _).mpr (.inr hnew)⟩

/-- A node without children. -/
lemma routes_leaf {indices : List UInt8} {prio : ℕ} {path' : List UInt8} {handle' : H} :
    Routes ⟨path, indices, [], some handle, prio⟩ path' handle'
      ↔ path' = path ∧ handle' = handle := by
  rw [routes_iff]
  simp only [Inside, List.not_mem_nil, false_and, exists_false, or_false]
  constructor
  · rintro ⟨rest, rfl, rfl, hhandle⟩
    exact ⟨List.append_nil _, (Option.some.inj hhandle).symm⟩
  · rintro ⟨rfl, rfl⟩
    exact ⟨[], (List.append_nil _).symm, rfl, rfl⟩

lemma wf_leaf {handle : Option H} {prio : ℕ} : WF ⟨path, [], [], handle, prio⟩ :=
  .intro rfl List.nodup_nil (by simp)

/-- The new child has moved past those without a route. -/
lemma newChild_eq (h : WF n) (c : UInt8) (rest : List UInt8) (handle : H) :
    ∃ k, n.newChild c rest handle = { n with
      indices := n.indices.take k ++ c :: n.indices.drop k
      children := n.children.take k ++ ⟨c :: rest, [], [], some handle, 1⟩
        :: n.children.drop k } := by
  have hat : At { n with indices := n.indices ++ [c], children := n.children ++ [new] }
      n.indices.length c new n.indices [] n.children [] :=
    ⟨rfl, rfl, rfl, h.indices_eq, rfl⟩
  obtain ⟨k, hk, heq⟩ := incrementChildPrio_eq hat
  have hpos : (n.indices ++ [c]).length - 1 = n.indices.length := by simp
  have hlen : (n.children.take k).length = k := by
    rw [List.length_take, ← h.length_eq, Nat.min_eq_left hk]
  refine ⟨k, ?_⟩
  rw [newChild]
  dsimp only
  rw [hpos, heq]
  dsimp only
  have hmodify := modify_append_cons (·.insertChild (c :: rest) handle) (n.children.take k)
    { (new : Node H) with priority := 1 } (n.children.drop k)
  rw [hlen] at hmodify
  simp only [List.append_nil]
  exact congrArg (fun children => Node.mk n.path _ children n.handle n.priority) hmodify

lemma newChild_added (h : WF n) {c : UInt8} (hc : c ∉ n.indices) (rest : List UInt8)
    (handle : H) : Added n (n.newChild c rest handle) (n.path ++ c :: rest) handle := by
  obtain ⟨k, heq⟩ := newChild_eq h c rest handle
  rw [heq]
  exact added_child h hc rest handle rfl rfl rfl rfl wf_leaf rfl fun _ _ => routes_leaf

/-- Below a node whose path is a front of the path. -/
lemma Added.of_routes {m n' : Node H} (h : Added m n' path handle)
    (hroutes : ∀ path' handle', Routes m path' handle' ↔ Routes n path' handle')
    (hhead : ∀ c, path.head? = some c → n.path.head? = some c → m.path.head? = some c) :
    Added n n' path handle where
  wf := h.wf
  free := fun handle' hroute => h.free handle' ((hroutes _ _).mpr hroute)
  routes := fun path' handle' => by rw [h.routes, hroutes]
  head := fun c hc hn => h.head c hc (hhead c hc hn)

/-- What is added to a split edge. -/
lemma added_split {shared rest rest' : List UInt8} {b : UInt8} {n' : Node H}
    (hpath : n.path = shared ++ b :: rest') (hne : rest.head? ≠ some b)
    (h : Added (n.split shared.length) n' (shared ++ rest) handle) :
    Added n n' (shared ++ rest) handle := by
  refine h.of_routes (fun _ _ => routes_split hpath) fun c hc hn => ?_
  have hshared : (n.split shared.length).path = shared := by rw [split, hpath, List.take_left]
  rw [hshared]
  cases shared with
  | nil =>
      rw [hpath] at hn
      exact absurd (hc.trans hn.symm) hne
  | cons a shared => exact hc

/-- A round of the loop leaves enough for the others. -/
lemma fuel_below {c : UInt8} {rest : List UInt8} {fuel : ℕ} (hhead : child.path.head? = some c)
    (hfuel : (n.path ++ c :: rest).length + (if n.path = [] then 1 else 0) < fuel + 1) :
    (c :: rest).length + (if child.path = [] then 1 else 0) < fuel := by
  have hne : child.path ≠ [] := by
    rintro hnil
    rw [hnil] at hhead
    cases hhead
  rw [if_neg hne, add_zero]
  rw [List.length_append] at hfuel
  split_ifs at hfuel with hroot
  · omega
  · have hpos := List.length_pos_of_ne_nil hroot
    omega

/-- The loop goes on at a child. -/
lemma walk_below (h : WF n) {pos : ℕ} {c : UInt8} {before after : List UInt8}
    {front back : List (Node H)} (hat : At n pos c child before after front back)
    (hhead : child.path.head? = some c) {rest fullPath : List UInt8} {fuel : ℕ}
    (ih : Ends (fun n' => Added { child with priority := child.priority + 1 } n' (c :: rest) handle)
      (fun e => e = .registered fullPath
        ∧ ∃ handle', Routes { child with priority := child.priority + 1 } (c :: rest) handle')
      (walk fullPath handle fuel { child with priority := child.priority + 1 } (c :: rest))) :
    Ends (fun n' => Added n n' (n.path ++ c :: rest) handle)
      (fun e => e = .registered fullPath ∧ ∃ handle', Routes n (n.path ++ c :: rest) handle')
      (match n.incrementChildPrio pos with
        | (pos, n) =>
          match n.children[pos]? with
          | some child => do
              let child ← walk fullPath handle fuel child (c :: rest)
              .ok { n with children := n.children.set pos child }
          | none => .error .range) := by
  obtain ⟨k, hk, heq⟩ := incrementChildPrio_eq hat
  have hlen : (front.take k).length = k := by
    rw [List.length_take, hat.front_length, Nat.min_eq_left hk]
  rw [heq]
  dsimp only
  rw [List.getElem?_append_right hlen.le, hlen, Nat.sub_self, List.getElem?_cons_zero]
  have hmem : child ∈ n.children := by
    rw [hat.children]
    exact List.mem_append_right _ List.mem_cons_self
  refine (ih.mono (fun _ h => h) ?_).bind fun child' hadded => ?_
  · rintro e ⟨he, handle', hroute⟩
    exact ⟨he, handle', routes_append.mpr (.inr ⟨child, hmem,
      (routes_priority child _).mp hroute⟩)⟩
  · refine added_below h hat rest handle rfl rfl rfl ?_ hhead
      (hadded.of_routes (fun _ _ => routes_priority child _) fun _ _ hc => hc)
    dsimp only
    rw [List.set_append_right _ _ hlen.le, hlen, Nat.sub_self, List.set_cons_zero]

/-- The loop `walk`: the tree gets the route, or has it already. -/
lemma walk_spec (fullPath : List UInt8) (handle : H) {fuel : ℕ} (h : WF n)
    (hfuel : path.length + (if n.path = [] then 1 else 0) < fuel) :
    Ends (fun n' => Added n n' path handle)
      (fun e => e = .registered fullPath ∧ ∃ handle', Routes n path handle')
      (walk fullPath handle fuel n path) := by
  induction fuel generalizing n path with
  | zero => omega
  | succ fuel ih =>
      obtain ⟨shared, rest, rest', rfl, hpath, hlen, hne⟩ := commonPrefix_spec path n.path
      rw [walk]
      dsimp only
      rw [← hlen, List.drop_left]
      cases rest' with
      | nil =>
          rw [List.append_nil] at hpath
          subst hpath
          rw [if_neg (lt_irrefl _)]
          cases rest with
          | nil =>
              dsimp only
              split_ifs with hsome
              · obtain ⟨handle', hhandle⟩ := Option.isSome_iff_exists.mp hsome
                exact ⟨rfl, handle', routes_append.mpr (.inl ⟨rfl, hhandle⟩)⟩
              · exact added_handle h (Option.not_isSome_iff_eq_none.mp hsome) handle
          | cons c rest =>
              dsimp only
              cases hidx : n.indices.idxOf? c with
              | none => exact newChild_added h (List.idxOf?_eq_none_iff.mp hidx) rest handle
              | some pos =>
                  obtain ⟨child, before, after, front, back, hat, hhead⟩ :=
                    exists_at h.indices_eq hidx
                  have hmem : child ∈ n.children := by
                    rw [hat.children]
                    exact List.mem_append_right _ List.mem_cons_self
                  refine walk_below h hat hhead (ih ((h.of_mem hmem).congr rfl rfl) ?_)
                  exact fuel_below hhead hfuel
      | cons b rest' =>
          have hlong : shared.length < n.path.length := by
            rw [hpath, List.length_append, List.length_cons]
            omega
          have hsplit := h.split hpath
          have hshared : (n.split shared.length).path = shared := by
            rw [split, hpath, List.take_left]
          rw [if_pos hlong]
          cases rest with
          | nil =>
              have hpath' : shared ++ [] = (n.split shared.length).path ++ [] := by rw [hshared]
              refine added_split hpath (by simp) ?_
              rw [hpath']
              exact added_handle hsplit rfl handle
          | cons c rest =>
              have hcb : c ≠ b := fun heq => hne c rfl (by rw [heq]; rfl)
              have hc : c ∉ (n.split shared.length).indices := by
                simpa [split, hpath] using hcb
              have hpath' : shared ++ c :: rest = (n.split shared.length).path ++ c :: rest := by
                rw [hshared]
              dsimp only
              rw [List.idxOf?_eq_none_iff.mpr hc]
              refine added_split hpath (by simpa using hcb) ?_
              rw [hpath']
              exact newChild_added hsplit hc rest handle

/-- A tree without nodes. -/
lemma added_first (hchildren : n.children = []) (hindices : n.indices = [])
    (hhandle : n.handle = none) (path : List UInt8) (handle : H) :
    Added n (n.insertChild path handle) path handle := by
  have hnone : ∀ path' handle', ¬Routes n path' handle' := by
    intro path' handle' hroute
    obtain ⟨rest, -, ⟨-, hsome⟩ | ⟨child, hchild, -⟩⟩ := routes_iff.mp hroute
    · rw [hhandle] at hsome
      cases hsome
    · rw [hchildren] at hchild
      cases hchild
  rw [insertChild, hchildren, hindices]
  refine ⟨wf_leaf, hnone path, fun path' handle' => ?_, fun c hc _ => hc⟩
  rw [routes_leaf]
  exact (or_iff_right (hnone path' handle')).symm

/-- `addRoute`, in a tree where no route is empty. -/
lemma addRoute_spec (h : WF n) (hroot : ∀ handle', ¬Routes n [] handle') (path : List UInt8)
    (handle : H) :
    Ends (fun n' => Added n n' path handle)
      (fun e => e = .registered path ∧ ∃ handle', Routes n path handle')
      (n.addRoute path handle) := by
  have hwf : WF { n with priority := n.priority + 1 } := h.congr rfl rfl
  have hsame : ∀ path' handle', Routes { n with priority := n.priority + 1 } path' handle'
      ↔ Routes n path' handle' := fun _ _ => routes_priority n _
  rw [addRoute]
  dsimp only
  split_ifs with hsome
  · refine (walk_spec path handle hwf (by split_ifs <;> omega)).mono ?_ ?_
    · exact fun n' hadded => hadded.of_routes hsame fun _ _ hc => hc
    · rintro e ⟨he, handle', hroute⟩
      exact ⟨he, handle', (hsame _ _).mp hroute⟩
  · have hpath : n.path = [] := List.length_eq_zero_iff.mp (by omega)
    have hchildren : n.children = [] := List.length_eq_zero_iff.mp (by omega)
    have hindices : n.indices = [] := by
      rw [← List.length_eq_zero_iff, h.length_eq, hchildren, List.length_nil]
    have hhandle : n.handle = none := by
      rw [Option.eq_none_iff_forall_ne_some]
      intro handle' hsome
      have hroute := routes_append.mpr (.inl ⟨rfl, hsome⟩)
      rw [hpath] at hroute
      exact hroot handle' hroute
    have hfirst := added_first (n := { n with priority := n.priority + 1 }) hchildren hindices
      hhandle path handle
    exact hfirst.of_routes hsame fun _ _ hc => hc

/-! ### Lookup -/

/-- The byte in `indices` leads to the child. -/
lemma idxOf_of_mem (h : WF n) (hchild : child ∈ n.children) {c : UInt8}
    (hhead : child.path.head? = some c) :
    ∃ pos, n.indices.idxOf? c = some pos ∧ n.children[pos]? = some child := by
  obtain ⟨b, hb, hb'⟩ := h.head_of_mem hchild
  obtain rfl : b = c := Option.some.inj (hb'.symm.trans hhead)
  obtain ⟨pos, hpos⟩ : ∃ pos, n.indices.idxOf? b = some pos := by
    rw [← Option.isSome_iff_exists, List.isSome_idxOf?]
    exact hb
  obtain ⟨other, before, after, front, back, hat, -⟩ := exists_at h.indices_eq hpos
  refine ⟨pos, hpos, ?_⟩
  have hin := hchild
  rw [hat.children, List.mem_append, List.mem_cons] at hin
  rcases hin with hin | rfl | hin
  · exact absurd hhead (hat.head_ne h (List.mem_append_left _ hin))
  · rw [hat.children, ← hat.front_length, List.getElem?_append_right le_rfl, Nat.sub_self,
      List.getElem?_cons_zero]
  · exact absurd hhead (hat.head_ne h (List.mem_append_right _ hin))

/-- What is longer than the path of a node goes on below it. -/
lemma exists_rest (hlong : n.path.length < path.length)
    (hfront : path.take n.path.length = n.path) : ∃ c rest, path = n.path ++ c :: rest := by
  obtain ⟨c, rest, hdrop⟩ : ∃ c rest, path.drop n.path.length = c :: rest := by
    refine List.exists_cons_of_ne_nil fun hnil => ?_
    have hle := List.drop_eq_nil_iff.mp hnil
    omega
  refine ⟨c, rest, ?_⟩
  calc path = path.take n.path.length ++ path.drop n.path.length :=
        (List.take_append_drop _ _).symm
    _ = n.path ++ c :: rest := by rw [hfront, hdrop]

/-- What is looked up is what the tree has. -/
lemma lookup_eq_some_iff {fuel : ℕ} (h : WF n)
    (hfuel : path.length + (if n.path = [] then 1 else 0) < fuel) :
    (n.lookup fuel path).1 = some handle ↔ Routes n path handle := by
  induction fuel generalizing n path with
  | zero => omega
  | succ fuel ih =>
      rw [lookup]
      split_ifs with hlong hfront heq
      · obtain ⟨c, rest, rfl⟩ := exists_rest hlong hfront
        rw [List.drop_left, routes_append, inside_cons h]
        dsimp only
        cases hidx : n.indices.idxOf? c with
        | none =>
            refine iff_of_false (by simp) ?_
            rintro ⟨child, hchild, hhead, -⟩
            obtain ⟨pos, hpos, -⟩ := idxOf_of_mem h hchild hhead
            rw [hidx] at hpos
            cases hpos
        | some pos =>
            obtain ⟨child, before, after, front, back, hat, hhead⟩ := exists_at h.indices_eq hidx
            have hmem : child ∈ n.children := by
              rw [hat.children]
              exact List.mem_append_right _ List.mem_cons_self
            have hget : ∀ other ∈ n.children, other.path.head? = some c →
                n.children[pos]? = some other := by
              intro other hother hhead'
              obtain ⟨pos', hpos', hget'⟩ := idxOf_of_mem h hother hhead'
              obtain rfl : pos = pos' := Option.some.inj (hidx.symm.trans hpos')
              exact hget'
            dsimp only
            rw [hget child hmem hhead]
            refine (ih (h.of_mem hmem) (fuel_below hhead hfuel)).trans
              ⟨fun hroute => ⟨child, hmem, hhead, hroute⟩, ?_⟩
            rintro ⟨other, hother, hhead', hroute⟩
            obtain rfl : child = other :=
              Option.some.inj ((hget child hmem hhead).symm.trans (hget other hother hhead'))
            exact hroute
      · refine iff_of_false nofun fun hroute => hfront ?_
        exact List.prefix_iff_eq_take.mp hroute.isPrefix |>.symm
      · have hroutes : Routes n path handle ↔ n.handle = some handle := by
          rw [← inside_nil h, ← routes_append, List.append_nil, heq]
        rw [hroutes]
        cases n.handle with
        | some handle' => exact Iff.rfl
        | none =>
            dsimp only
            split <;> simp
      · refine iff_of_false nofun fun hroute => heq ?_
        have hle := hroute.isPrefix.length_le
        exact (hroute.isPrefix.eq_of_length (by omega)).symm

lemma getValue_eq_some_iff (h : WF n) :
    (n.getValue path).1 = some handle ↔ Routes n path handle :=
  lookup_eq_some_iff h (by split_ifs <;> omega)

/-- A path without a route is redirected to the one with a slash more. -/
lemma lookup_redirects {fuel : ℕ} (h : WF n)
    (hfuel : path.length + (if n.path = [] then 1 else 0) < fuel)
    (hroute : Routes n (path ++ [slash]) handle) (hfree : ∀ handle', ¬Routes n path handle') :
    n.lookup fuel path = (none, true) := by
  induction fuel generalizing n path with
  | zero => omega
  | succ fuel ih =>
      have hle := hroute.isPrefix.length_le
      rw [List.length_append, List.length_singleton] at hle
      rw [lookup]
      split_ifs with hlong hfront heq
      · obtain ⟨c, rest, rfl⟩ := exists_rest hlong hfront
        rw [List.append_assoc, routes_append, List.cons_append, inside_cons h] at hroute
        obtain ⟨child, hmem, hhead, hroute⟩ := hroute
        obtain ⟨pos, hpos, hget⟩ := idxOf_of_mem h hmem hhead
        rw [List.drop_left]
        dsimp only
        rw [hpos]
        dsimp only
        rw [hget]
        refine ih (h.of_mem hmem) (fuel_below hhead hfuel) hroute fun handle' hroute' => ?_
        exact hfree handle' (routes_append.mpr (.inr ⟨child, hmem, hroute'⟩))
      · refine absurd ?_ hfront
        have hshort : n.path <+: path :=
          List.prefix_of_prefix_length_le hroute.isPrefix (List.prefix_append _ _) hlong.le
        exact (List.prefix_iff_eq_take.mp hshort).symm
      · subst heq
        have hnone : n.handle = none := by
          rw [Option.eq_none_iff_forall_ne_some]
          intro handle' hsome
          refine hfree handle' ?_
          rw [← List.append_nil n.path]
          exact routes_append.mpr (.inl ⟨rfl, hsome⟩)
        rw [routes_append, inside_cons h] at hroute
        obtain ⟨child, hmem, hhead, hroute⟩ := hroute
        obtain ⟨pos, hpos, hget⟩ := idxOf_of_mem h hmem hhead
        have hchild : child.path = [slash] := by
          refine hroute.isPrefix.eq_of_length_le ?_
          cases hpath : child.path with
          | nil =>
              rw [hpath] at hhead
              cases hhead
          | cons a rest => simp
        have hhandle : child.handle = some handle := by
          rw [← inside_nil (h.of_mem hmem), ← routes_append, List.append_nil, hchild]
          exact hroute
        rw [hnone]
        dsimp only
        rw [hpos, Option.bind_some, hget]
        simp [hchild, hhandle]
      · have hpath : n.path = path ++ [slash] := by
          refine hroute.isPrefix.eq_of_length_le ?_
          rw [List.length_append, List.length_singleton]
          by_contra hshort
          have hsame : n.path = path :=
            (List.prefix_of_prefix_length_le hroute.isPrefix (List.prefix_append _ _)
              (by omega)).eq_of_length (by omega)
          exact heq hsame.symm
        have hhandle : n.handle = some handle := by
          rw [← inside_nil h, ← routes_append, List.append_nil, hpath]
          exact hroute
        simp [extraSlash, hpath, hhandle]

end Node

end KubeSafeScheduler.Httprouter
