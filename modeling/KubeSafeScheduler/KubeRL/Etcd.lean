import Mathlib

/-!
The keys API of etcd, as far as kubeRL uses it.

A key is a path: what counts are the names between its slashes. The service is
not part of the repository, so it is a parameter, with what its documentation
says of reading a key, writing a key and listing a directory.

* `keyPath`: the names in a key.
* `KeysAPI`: the two calls, and the texts at the paths that they act on.
* `pathStore`: a store that keeps every text that is written.
-/

namespace KubeSafeScheduler.KubeRL

/-! ### Keys -/

/-- A text without slashes. -/
def NoSlash (x : String) : Prop := '/' ∉ x.toList

instance (x : String) : Decidable (NoSlash x) := inferInstanceAs (Decidable (¬_))

/-- The names in a key. -/
def keyPath (key : String) : List String :=
  ((key.toList.splitOn '/').filter (· ≠ [])).map String.ofList

/-- A text without slashes as a part of a path. -/
def segment (x : String) : List String := if x = "" then [] else [x]

@[simp] lemma segment_empty : segment "" = [] := rfl

lemma segment_of_ne {x : String} (h : x ≠ "") : segment x = [x] := if_neg h

lemma segment_inj {x y : String} : segment x = segment y ↔ x = y := by
  unfold segment
  split_ifs with hx hy hy
  · simp [hx, hy]
  · simp [hx, Ne.symm hy]
  · simp [hx, hy]
  · simp

lemma segment_eq_filter (x : String) :
    segment x = ([x.toList].filter (· ≠ [])).map String.ofList := by
  by_cases h : x = ""
  · subst h
    rfl
  · have hne : x.toList ≠ [] := fun hnil => h (by rw [← String.ofList_toList (s := x), hnil])
    simp [segment, h, hne]

lemma keyPath_of_noSlash {x : String} (h : NoSlash x) : keyPath x = segment x := by
  have hsplit : x.toList.splitOn '/' = [x.toList] := List.splitOn_eq_singleton h
  rw [keyPath, hsplit, ← segment_eq_filter]

/-- A text without slashes, a slash, and the rest of the key. -/
lemma keyPath_slash {x : String} (h : NoSlash x) (y : String) :
    keyPath (x ++ "/" ++ y) = segment x ++ keyPath y := by
  have hlist : (x ++ "/" ++ y).toList = x.toList ++ '/' :: y.toList := by simp
  have hsplit : (x ++ "/" ++ y).toList.splitOn '/' = x.toList :: y.toList.splitOn '/' := by
    rw [hlist]
    exact List.splitOn_append_cons_self_of_not_mem h _
  rw [keyPath, hsplit, ← List.singleton_append, List.filter_append, List.map_append,
    ← segment_eq_filter, keyPath]

/-- What comes after the last slash of a key: `key[strings.LastIndex(key, "/")+1:]`. -/
def lastName (key : String) : String :=
  String.ofList (key.toList.reverse.takeWhile (· ≠ '/')).reverse

lemma lastName_slash (dir : String) {name : String} (h : NoSlash name) :
    lastName (dir ++ "/" ++ name) = name := by
  have hlist : (dir ++ "/" ++ name).toList.reverse
      = name.toList.reverse ++ '/' :: dir.toList.reverse := by simp
  have hall : ∀ c ∈ name.toList.reverse, decide (c ≠ '/') = true := by
    intro c hc
    rw [decide_eq_true_eq]
    rintro rfl
    exact h (List.mem_reverse.mp hc)
  rw [lastName, hlist, List.takeWhile_append_of_pos hall]
  simp

/-! ### The calls -/

/-- `client.Node`: its key and text, and the keys and texts of its children when
it is a directory. -/
structure EtcdNode where
  key : String
  value : String
  dir : Bool
  nodes : List (String × String)

/-- `client.KeysAPI`, as far as reads are answered: reading a key, with `none` for
a key that is not there, and writing a key, with the new state and whether it
succeeded. The field `file` gives the text at a path, empty when there is none. -/
structure KeysAPI where
  State : Type
  get : State → String → Option EtcdNode
  set : State → String → String → State × Bool
  file : State → List String → String
  /-- Reading gives the text at the path of the key; a directory has none. -/
  get_value : ∀ s key, ((get s key).map EtcdNode.value).getD "" = file s (keyPath key)
  /-- A write leaves the other paths alone; one that fails may leave its own. -/
  set_frame : ∀ s key text p, file (set s key text).1 p = file s p
    ∨ p = keyPath key ∧ file (set s key text).1 p = text
  /-- A write that succeeds sets the text. -/
  set_ok : ∀ s key text, (set s key text).2 = true →
    file (set s key text).1 (keyPath key) = text
  /-- The key of a child is that of the directory, a slash and its name. -/
  get_child : ∀ s key nd c, get s key = some nd → c ∈ nd.nodes →
    ∃ dir name, keyPath dir = keyPath key ∧ NoSlash name ∧ c.1 = dir ++ "/" ++ name
      ∧ c.2 = file s (keyPath key ++ [name])
  /-- A key with a text below it is a directory that lists it. -/
  get_dir : ∀ s key name, NoSlash name → file s (keyPath key ++ [name]) ≠ "" →
    ∃ nd, get s key = some nd ∧ nd.dir = true ∧ ∃ dir, keyPath dir = keyPath key
      ∧ (dir ++ "/" ++ name, file s (keyPath key ++ [name])) ∈ nd.nodes

/-- Nothing is stored. -/
def KeysAPI.Empty (api : KeysAPI) (s : api.State) : Prop := ∀ p, api.file s p = ""

lemma KeysAPI.file_set_of_ne (api : KeysAPI) {s : api.State} {key text : String}
    {p : List String} (h : p ≠ keyPath key) : api.file (api.set s key text).1 p = api.file s p :=
  (api.set_frame s key text p).resolve_right fun h' => h h'.1

/-! ### A store -/

/-- The children of a path in a list of writes, the newest first. -/
def childNames (writes : List (List String × String)) (p : List String) : List String :=
  writes.filterMap fun w => w.1.getLast?.bind fun name =>
    if w.1 = p ++ [name] ∧ NoSlash name then some name else none

lemma mem_childNames {writes : List (List String × String)} {p : List String} {name : String} :
    name ∈ childNames writes p ↔ NoSlash name ∧ ∃ w ∈ writes, w.1 = p ++ [name] := by
  simp only [childNames, List.mem_filterMap, Option.bind_eq_some_iff]
  constructor
  · rintro ⟨w, hw, name', -, hif⟩
    split_ifs at hif with h
    cases hif
    exact ⟨h.2, w, hw, h.1⟩
  · rintro ⟨hname, w, hw, heq⟩
    exact ⟨w, hw, name, by rw [heq, List.getLast?_concat], if_pos ⟨heq, hname⟩⟩

/-- The newest text at a path. -/
def newest (writes : List (List String × String)) (p : List String) : String :=
  (writes.lookup p).getD ""

lemma newest_ne_empty {writes : List (List String × String)} {p : List String}
    (h : newest writes p ≠ "") : ∃ w ∈ writes, w.1 = p := by
  by_contra hnone
  push Not at hnone
  refine h ?_
  have hlookup : writes.lookup p = none := by
    rw [List.lookup_eq_none_iff]
    intro w hw
    simpa using fun heq => hnone w hw heq.symm
  rw [newest, hlookup, Option.getD_none]

/-- A store that keeps every text that is written. -/
def pathStore : KeysAPI where
  State := List (List String × String)
  get writes key :=
    if newest writes (keyPath key) = "" ∧ childNames writes (keyPath key) = [] then none
    else some {
      key := key
      value := newest writes (keyPath key)
      dir := childNames writes (keyPath key) ≠ []
      nodes := (childNames writes (keyPath key)).map fun name =>
        (key ++ "/" ++ name, newest writes (keyPath key ++ [name])) }
  set writes key text := ((keyPath key, text) :: writes, true)
  file := newest
  get_value := by
    intro writes key
    split_ifs with h
    · exact h.1.symm
    · rfl
  set_frame := by
    intro writes key text p
    by_cases h : p = keyPath key
    · subst h
      exact .inr ⟨rfl, by simp [newest]⟩
    · exact .inl (by simp [newest, List.lookup, beq_false_of_ne h])
  set_ok := by
    intro writes key text _
    simp [newest]
  get_child := by
    intro writes key nd c hget hc
    split_ifs at hget
    cases hget
    obtain ⟨name, hname, rfl⟩ := List.mem_map.mp hc
    exact ⟨key, name, rfl, (mem_childNames.mp hname).1, rfl, rfl⟩
  get_dir := by
    intro writes key name hname hne
    have hmem : name ∈ childNames writes (keyPath key) :=
      mem_childNames.mpr ⟨hname, newest_ne_empty hne⟩
    have hchildren := List.ne_nil_of_mem hmem
    refine ⟨_, if_neg fun h => hchildren h.2, decide_eq_true hchildren, key, rfl, ?_⟩
    exact List.mem_map.mpr ⟨name, hmem, rfl⟩

end KubeSafeScheduler.KubeRL
