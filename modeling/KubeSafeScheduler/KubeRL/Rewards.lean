import KubeSafeScheduler.KubeRL.Monitor

/-!
The rewards in `pod_vals` after a run of the monitor on an empty etcd.

The table of a type is filled when the type is first seen, with the nodes known
by then. A node that is first seen later has no entry, and its first update
counts from zero instead of from the running reward.

* `StartsRunning`: which pairs of a type and a node start from the running
  reward, by the lists at the start and the updates.
* `Tallies`: the tables after a list of updates, with one lemma for the start and
  one for a further update.
* `reward_right_iff`: the value of a pair is the average of its rewards from the
  running reward on exactly when the pair starts there.
-/

namespace KubeSafeScheduler.KubeRL

variable {api : KeysAPI}

/-! ### Initial texts -/

/-- The text of the running reward. -/
def initialText : String := sprintf runningReward

lemma parseDecimal_initialText : parseDecimal initialText = some runningReward := by
  decide +kernel

/-- Some texts were set to that of the running reward. -/
def InitialWritten (s s' : api.State) : Prop :=
  ∀ p, api.file s' p = api.file s p ∨ api.file s' p = initialText

lemma InitialWritten.refl (s : api.State) : InitialWritten s s := fun _ => .inl rfl

lemma InitialWritten.trans {s s' s'' : api.State} (h : InitialWritten s s')
    (h' : InitialWritten s' s'') : InitialWritten s s'' := by
  intro p
  rcases h' p with h' | h'
  · rw [h']
    exact h p
  · exact .inr h'

/-- A path without text, or with that of the running reward. -/
def Unvisited (s : api.State) (p : List String) : Prop :=
  api.file s p = "" ∨ api.file s p = initialText

lemma Unvisited.mono {s s' : api.State} (h : InitialWritten s s') {p : List String}
    (hp : Unvisited s p) : Unvisited s' p := by
  rcases h p with h | h
  · rw [Unvisited, h]
    exact hp
  · exact .inr h

namespace Monitor

/-- The tables are the same and only initial texts were written. -/
structure Initialized (m m' : Monitor api) : Prop where
  nodeNameList : m'.nodeNameList = m.nodeNameList
  nodeVals : m'.nodeVals = m.nodeVals
  podVals : m'.podVals = m.podVals
  written : InitialWritten m.etcd m'.etcd

/-- A key that was not visited is initialized with the running reward. -/
lemma initIfNotExists_unvisited (m : Monitor api) {key : String}
    (h : Unvisited m.etcd (keyPath key)) :
    (m.initIfNotExists key runningReward).1 = runningReward
      ∧ Initialized m (m.initIfNotExists key runningReward).2 := by
  rcases m.initIfNotExists_cases key runningReward with ⟨hne, heq⟩ | ⟨-, heq⟩
  · have htext : api.file m.etcd (keyPath key) = initialText := h.resolve_left hne
    rw [heq, htext, parseDecimal_initialText]
    exact ⟨rfl, rfl, rfl, rfl, .refl _⟩
  · rw [heq]
    refine ⟨rfl, rfl, rfl, rfl, fun p => ?_⟩
    rcases api.set_frame m.etcd key initialText p with hframe | ⟨-, hset⟩
    · exact .inl hframe
    · exact .inr hset

/-- The table of `t` got entries with the running reward for some nodes, and
nothing else changed but texts of the running reward. -/
structure Filled (t : String) (nodes : List String) (m m' : Monitor api) : Prop where
  nodeNameList : m'.nodeNameList = m.nodeNameList
  nodeVals : m'.nodeVals = m.nodeVals
  other : ∀ t' ≠ t, m'.podVals.get t' = m.podVals.get t'
  podVal : ∀ n, m'.podVal t n = if n ∈ nodes then some runningReward else m.podVal t n
  isSome : (m.podVals.get t).isSome → (m'.podVals.get t).isSome
  written : InitialWritten m.etcd m'.etcd

lemma Filled.trans {t : String} {xs ys : List String} {m m' m'' : Monitor api}
    (h : Filled t xs m m') (h' : Filled t ys m' m'') : Filled t (xs ++ ys) m m'' where
  nodeNameList := h'.nodeNameList.trans h.nodeNameList
  nodeVals := h'.nodeVals.trans h.nodeVals
  other := fun t' ht' => (h'.other t' ht').trans (h.other t' ht')
  podVal := by
    intro n
    rw [h'.podVal, h.podVal]
    by_cases hx : n ∈ xs <;> by_cases hy : n ∈ ys <;> simp [hx, hy]
  isSome := fun hm => h'.isSome (h.isSome hm)
  written := h.written.trans h'.written

lemma initPodNode_filled (t n : String) (m : Monitor api)
    (h : Unvisited m.etcd (keyPath (podKey t n))) : Filled t [n] m (m.initPodNode t n) := by
  obtain ⟨hval, hinit⟩ := m.initIfNotExists_unvisited h
  have heq : m.initPodNode t n
      = (m.initIfNotExists (podKey t n) runningReward).2.setPodVal t n runningReward :=
    congrArg (setPodVal (m.initIfNotExists (podKey t n) runningReward).2 t n) hval
  rw [heq]
  exact
    { nodeNameList := hinit.nodeNameList
      nodeVals := hinit.nodeVals
      other := fun t' ht' => by rw [setPodVal_podVals_of_ne _ ht', hinit.podVals]
      podVal := fun n' => by
        rw [podVal_setPodVal, Monitor.podVal, hinit.podVals, Monitor.podVal]
        simp
      isSome := fun _ => by rw [setPodVal_podVals_self, Option.isSome_some]
      written := hinit.written }

/-- The loop of `init_new_pod`, for keys that were not visited. -/
lemma foldl_initPodNode_filled (t : String) (nodes : List String) (m : Monitor api)
    (h : ∀ n ∈ nodes, Unvisited m.etcd (keyPath (podKey t n))) :
    Filled t nodes m (nodes.foldl (initPodNode t) m) := by
  induction nodes generalizing m with
  | nil => exact ⟨rfl, rfl, fun _ _ => rfl, fun n => by simp, id, .refl _⟩
  | cons n nodes ih =>
      have hfirst := initPodNode_filled t n m (h n List.mem_cons_self)
      have hrest := ih (m.initPodNode t n) fun n' hn' =>
        (h n' (List.mem_cons_of_mem n hn')).mono hfirst.written
      exact hfirst.trans hrest

/-- `init_new_pod` of a type whose keys were not visited: the table has the given
nodes and `all`. -/
lemma initNewPod_filled (t : String) (nodes : List String) (m : Monitor api)
    (h : ∀ n ∈ "all" :: nodes, Unvisited m.etcd (keyPath (podKey t n))) :
    Filled t ("all" :: nodes) { m with podVals := m.podVals.insert t ∅ }
      (m.initNewPod t nodes) :=
  foldl_initPodNode_filled t ("all" :: nodes) { m with podVals := m.podVals.insert t ∅ } h

/-- The keys of `t` were not visited. -/
def FreshType (m : Monitor api) (t : String) : Prop :=
  ∀ n, NoSlash n → Unvisited m.etcd (keyPath (podKey t n))

/-! ### One update -/

/-- A node became known, and only its own text changed. -/
structure NodeKnown (n : String) (m m' : Monitor api) : Prop where
  mem : ∀ x, x ∈ m'.nodeNameList
    ↔ x ∈ m.nodeNameList ∨ x = n ∧ m.nodeVals.get n = none
  isSome : ∀ x, (m'.nodeVals.get x).isSome ↔ (m.nodeVals.get x).isSome ∨ x = n
  podVals : m'.podVals = m.podVals
  file : ∀ p, p ≠ keyPath (nodeKey n) → api.file m'.etcd p = api.file m.etcd p

lemma NodeKnown.trans {n : String} {m m' m'' : Monitor api} (h : NodeKnown n m m')
    (h' : NodeKnown n m' m'') : NodeKnown n m m'' where
  mem := by
    intro x
    have hsome : m'.nodeVals.get n ≠ none :=
      Option.isSome_iff_ne_none.mp ((h.isSome n).mpr (.inr rfl))
    rw [h'.mem, h.mem, or_iff_left fun hx => hsome hx.2]
  isSome := by
    intro x
    rw [h'.isSome, h.isSome, or_assoc, or_self]
  podVals := h'.podVals.trans h.podVals
  file := fun p hp => (h'.file p hp).trans (h.file p hp)

/-- Where the nodes with a value are those of the list, this stays so. -/
lemma NodeKnown.mem_iff {n : String} {m m' : Monitor api} (h : NodeKnown n m m')
    (hknown : ∀ x, (m.nodeVals.get x).isSome ↔ x ∈ m.nodeNameList) (x : String) :
    x ∈ m'.nodeNameList ↔ x ∈ m.nodeNameList ∨ x = n := by
  rw [h.mem]
  refine or_congr_right' fun hx => ⟨And.left, fun hxn => ⟨hxn, ?_⟩⟩
  rw [← Option.not_isSome_iff_eq_none, hknown, ← hxn]
  exact hx

/-- The key of a node is not among those of a type. -/
lemma NodeKnown.freshType {t n : String} {m m' : Monitor api} (h : NodeKnown n m m')
    (ht : NoSlash t) (hn : NoSlash n) (hfresh : m.FreshType t) : m'.FreshType t := by
  intro x hx
  have hkey : keyPath (podKey t x) ≠ keyPath (nodeKey n) := by
    rw [keyPath_podKey ht hx, keyPath_nodeKey hn]
    simp
  rw [Unvisited, h.file _ hkey]
  exact hfresh x hx

lemma knowNode_spec (m : Monitor api) (n : String) : NodeKnown n m (m.knowNode n) := by
  rcases m.knowNode_cases n with ⟨hsome, heq⟩ | ⟨hnone, heq⟩
  · rw [heq]
    refine ⟨fun x => ?_, fun x => ?_, rfl, fun _ _ => rfl⟩
    · have hne : m.nodeVals.get n ≠ none := Option.isSome_iff_ne_none.mp hsome
      simp [hne]
    · exact ⟨.inl, fun h => h.elim id fun hx => hx ▸ hsome⟩
  · rw [heq]
    obtain ⟨hlist, hnodes, hpods, hfile⟩ :=
      initIfNotExists_frame { m with nodeNameList := m.nodeNameList ++ [n] } (nodeKey n)
        runningReward
    refine ⟨fun x => ?_, fun x => ?_, hpods, hfile⟩
    · simp only [initNode, setNodeVal, hlist, List.mem_append, List.mem_singleton, hnone, and_true]
    · simp only [initNode, setNodeVal, hnodes, StringMap.get_insert]
      by_cases hx : x = n
      · simp [hx]
      · simp [hx]

lemma updateNodeVal_spec (m : Monitor api) {n : String} (h : (m.nodeVals.get n).isSome)
    (reward : ℚ) : NodeKnown n m (m.updateNodeVal n reward) := by
  have hne : m.nodeVals.get n ≠ none := Option.isSome_iff_ne_none.mp h
  refine ⟨fun x => ?_, fun x => ?_, rfl, fun p hp => api.file_set_of_ne hp⟩
  · simp [updateNodeVal, setNodeVal, hne]
  · simp only [updateNodeVal, setNodeVal, writeKeyValue_nodeVals, StringMap.get_insert]
    by_cases hx : x = n
    · simp [hx]
    · simp [hx]

/-- A type became known: if it was not, its table starts with the known nodes. -/
structure TypeKnown (t : String) (m m' : Monitor api) : Prop where
  nodeNameList : m'.nodeNameList = m.nodeNameList
  nodeVals : m'.nodeVals = m.nodeVals
  other : ∀ t' ≠ t, m'.podVals.get t' = m.podVals.get t'
  isSome : (m'.podVals.get t).isSome
  podVal : ∀ n, m'.podVal t n = if (m.podVals.get t).isSome then m.podVal t n
    else if n ∈ "all" :: m.nodeNameList then some runningReward else none
  written : InitialWritten m.etcd m'.etcd

lemma knowType_spec (m : Monitor api) {t : String} (hnames : ∀ n ∈ m.nodeNameList, NoSlash n)
    (hfresh : m.podVals.get t = none → m.FreshType t) : TypeKnown t m (m.knowType t) := by
  rcases m.knowType_cases t with ⟨hsome, heq⟩ | ⟨hnone, heq⟩
  · rw [heq]
    exact ⟨rfl, rfl, fun _ _ => rfl, hsome, fun n => by rw [if_pos hsome], .refl _⟩
  · rw [heq]
    have hkeys : ∀ n ∈ "all" :: m.nodeNameList, Unvisited m.etcd (keyPath (podKey t n)) := by
      intro n hn
      refine hfresh hnone n ?_
      rcases List.mem_cons.mp hn with rfl | hn
      · decide
      · exact hnames n hn
    have hfilled := initNewPod_filled t m.nodeNameList m hkeys
    exact
      { nodeNameList := hfilled.nodeNameList
        nodeVals := hfilled.nodeVals
        other := fun t' ht' => by
          rw [hfilled.other t' ht', StringMap.get_insert, if_neg ht']
        isSome := hfilled.isSome (by simp)
        podVal := fun n => by
          rw [hfilled.podVal]
          simp [hnone, Monitor.podVal]
        written := hfilled.written }

lemma updatePodVal_spec (m : Monitor api) (t n : String) (reward : ℚ) :
    (m.updatePodVal t n reward).nodeNameList = m.nodeNameList
      ∧ (m.updatePodVal t n reward).nodeVals = m.nodeVals
      ∧ (∀ t' ≠ t, (m.updatePodVal t n reward).podVals.get t' = m.podVals.get t')
      ∧ ((m.updatePodVal t n reward).podVals.get t).isSome
      ∧ (∀ n', (m.updatePodVal t n reward).podVal t n'
        = if n' = n then some (average ((m.podVal t n).getD 0) reward) else m.podVal t n')
      ∧ ∀ p, p ≠ keyPath (podKey t n) →
        api.file (m.updatePodVal t n reward).etcd p = api.file m.etcd p := by
  refine ⟨rfl, rfl, fun t' ht' => setPodVal_podVals_of_ne m ht' n _, ?_, fun n' => ?_,
    fun p hp => api.file_set_of_ne hp⟩
  · have hself := setPodVal_podVals_self m t n (average ((m.podVal t n).getD 0) reward)
    exact Option.isSome_iff_exists.mpr ⟨_, hself⟩
  · have hset := podVal_setPodVal m t n t n' (average ((m.podVal t n).getD 0) reward)
    simp only [true_and] at hset
    exact hset

/-- The keys of other types are not those of a node or of the type. -/
lemma podKey_ne {t t' n n' : String} (ht : NoSlash t) (ht' : NoSlash t') (hn : NoSlash n)
    (hn' : NoSlash n') (hne : t ≠ "") (hne' : t' ≠ "") (h : t' ≠ t) :
    keyPath (podKey t' n') ≠ keyPath (podKey t n)
      ∧ keyPath (podKey t' n') ≠ keyPath (nodeKey n) := by
  rw [keyPath_podKey ht hn, keyPath_podKey ht' hn', keyPath_nodeKey hn, segment_of_ne hne,
    segment_of_ne hne']
  simp [h]

/-- What one update does to the tables. -/
structure Updated (t n : String) (reward : ℚ) (m m' : Monitor api) : Prop where
  mem : ∀ x, x ∈ m'.nodeNameList ↔ x ∈ m.nodeNameList ∨ x = n
  known : ∀ x, (m'.nodeVals.get x).isSome ↔ x ∈ m'.nodeNameList
  isSome : ∀ t', (m'.podVals.get t').isSome ↔ (m.podVals.get t').isSome ∨ t' = t
  other : ∀ t' ≠ t, m'.podVals.get t' = m.podVals.get t'
  podVal : ∀ n' ≠ "all", m'.podVal t n' =
    let old := if (m.podVals.get t).isSome then m.podVal t n'
      else if n' ∈ m'.nodeNameList then some runningReward else none
    if n' = n then some (average (old.getD 0) reward) else old
  file : ∀ t' ≠ t, t' ≠ "" → NoSlash t' → ∀ n', NoSlash n' →
    api.file m'.etcd (keyPath (podKey t' n')) = api.file m.etcd (keyPath (podKey t' n'))
      ∨ api.file m'.etcd (keyPath (podKey t' n')) = initialText

lemma updatePodNodeReward_spec (m : Monitor api) {t n : String} (ht : NoSlash t) (hne : t ≠ "")
    (hn : NoSlash n) (reward : ℚ) (hnames : ∀ x ∈ m.nodeNameList, NoSlash x)
    (hknown : ∀ x, (m.nodeVals.get x).isSome ↔ x ∈ m.nodeNameList)
    (hfresh : m.podVals.get t = none → m.FreshType t) :
    Updated t n reward m (m.updatePodNodeReward t n reward) := by
  have hnode := m.knowNode_spec n
  have hval := hnode.trans
    ((m.knowNode n).updateNodeVal_spec ((hnode.isSome n).mpr (.inr rfl)) reward)
  -- the state before the second branch
  generalize hm₁ : (m.knowNode n).updateNodeVal n reward = m₁ at hval
  have hmem₁ := hval.mem_iff hknown
  have htype := m₁.knowType_spec (t := t) (fun x hx => ?_) fun hnone x hx => ?_
  · obtain ⟨hlist₂, hnodes₂, hother₂, hsome₂, hvals₂, hfile₂⟩ :=
      (m₁.knowType t).updatePodVal_spec t n reward
    obtain ⟨hlist₃, hnodes₃, hother₃, hsome₃, hvals₃, hfile₃⟩ :=
      ((m₁.knowType t).updatePodVal t n reward).updatePodVal_spec t "all" reward
    have heq : m.updatePodNodeReward t n reward
        = ((m₁.knowType t).updatePodVal t n reward).updatePodVal t "all" reward := by
      rw [← hm₁]
      rfl
    have hlist : (m.updatePodNodeReward t n reward).nodeNameList = m₁.nodeNameList := by
      rw [heq, hlist₃, hlist₂, htype.nodeNameList]
    have hother : ∀ t' ≠ t, (m.updatePodNodeReward t n reward).podVals.get t'
        = m.podVals.get t' := by
      intro t' ht'
      rw [heq, hother₃ t' ht', hother₂ t' ht', htype.other t' ht', hval.podVals]
    refine ⟨fun x => ?_, fun x => ?_, fun t' => ?_, hother, fun n' hn' => ?_, ?_⟩
    · rw [hlist, hmem₁]
    · rw [hlist, hmem₁, heq, hnodes₃, hnodes₂, htype.nodeVals, hval.isSome, hknown]
    · by_cases ht' : t' = t
      · subst ht'
        rw [heq]
        simp [hsome₃]
      · rw [hother t' ht']
        simp [ht']
    · have hold : (m₁.knowType t).podVal t n' = if (m.podVals.get t).isSome then m.podVal t n'
          else if n' ∈ m₁.nodeNameList then some runningReward else none := by
        rw [htype.podVal, hval.podVals]
        simp only [Monitor.podVal, hval.podVals, List.mem_cons, hn', false_or]
      rw [hlist, heq, hvals₃, if_neg hn', hvals₂]
      by_cases hnn : n' = n
      · subst hnn
        simp only [if_true, hold]
      · simp only [if_neg hnn, hold]
    · intro t' ht' hne' hslash n' hn'
      have hkey := podKey_ne ht hslash hn hn' hne hne' ht'
      have hall := podKey_ne ht hslash (n := "all") (by decide) hn' hne hne' ht'
      rw [heq, hfile₃ _ hall.1, hfile₂ _ hkey.1, ← hval.file _ hkey.2]
      exact htype.written _
  · rcases (hmem₁ x).mp hx with hx | rfl
    · exact hnames x hx
    · exact hn
  · exact hval.freshType ht hn (hfresh (hval.podVals ▸ hnone)) x hx

end Monitor

/-! ### Where a pair starts -/

/-- The rewards of the updates for a type on a node, in order. -/
def rewards (t n : String) (us : List Update) : List ℚ :=
  us.filterMap fun u => if u.podtype.val = t ∧ u.nodename.val = n then some u.reward else none

/-- The nodes of the updates up to the first one for a type. -/
def nodesUntil (t : String) : List Update → List String
  | [] => []
  | u :: us => u.nodename.val :: if u.podtype.val = t then [] else nodesUntil t us

/-- The nodes that are listed at the start. -/
def listedNodes (nodes : Option (List Name)) : List String := (nodes.getD []).map Subtype.val

/-- The types that are listed at the start; they are not, when the nodes could not
be listed. -/
def listedTypes (nodes : Option (List Name)) (pods : Option (List Pod)) : List String :=
  if nodes.isSome then (pods.getD []).map fun pod => (getPodtype pod).val else []

/-- The node is listed at the start, or the type is not and the node occurs in an
update no later than the type does. -/
def StartsRunning (nodes types : List String) (us : List Update) (t n : String) : Prop :=
  n ∈ nodes ∨ t ∉ types ∧ n ∈ nodesUntil t us

instance (nodes types : List String) (us : List Update) (t n : String) :
    Decidable (StartsRunning nodes types us t n) := inferInstanceAs (Decidable (_ ∨ _))

/-- The entry of a type and a node after a list of updates. -/
def tally (nodes types : List String) (us : List Update) (t n : String) : Option ℚ :=
  if t ∈ types ∨ t ∈ us.map fun u => u.podtype.val then
    if StartsRunning nodes types us t n then
      some ((rewards t n us).foldl Monitor.average runningReward)
    else if rewards t n us = [] then none
    else some ((rewards t n us).foldl Monitor.average 0)
  else none

lemma rewards_snoc (t n : String) (us : List Update) (u : Update) :
    rewards t n (us ++ [u])
      = rewards t n us ++ if u.podtype.val = t ∧ u.nodename.val = n then [u.reward] else [] := by
  rw [rewards, List.filterMap_append, rewards]
  by_cases h : u.podtype.val = t ∧ u.nodename.val = n <;> simp [h]

lemma rewards_eq_nil {t : String} {us : List Update} (h : t ∉ us.map fun u => u.podtype.val)
    (n : String) : rewards t n us = [] := by
  rw [rewards, List.filterMap_eq_nil_iff]
  intro u hu
  refine if_neg ?_
  rintro ⟨rfl, -⟩
  exact h (List.mem_map_of_mem hu)

/-- Once the type has occurred, later updates do not count. -/
lemma nodesUntil_append_of_mem {t : String} {us : List Update}
    (h : t ∈ us.map fun u => u.podtype.val) (vs : List Update) :
    nodesUntil t (us ++ vs) = nodesUntil t us := by
  induction us with
  | nil => cases h
  | cons u us ih =>
      rw [List.cons_append, nodesUntil, nodesUntil]
      by_cases hu : u.podtype.val = t
      · rw [if_pos hu, if_pos hu]
      · rw [if_neg hu, if_neg hu, ih]
        exact (List.mem_cons.mp h).resolve_left (Ne.symm hu)

/-- A type that has not occurred has all nodes so far before it. -/
lemma nodesUntil_snoc {t : String} {us : List Update} (h : t ∉ us.map fun u => u.podtype.val)
    (u : Update) : nodesUntil t (us ++ [u]) = (us ++ [u]).map fun u => u.nodename.val := by
  induction us with
  | nil =>
      rw [List.nil_append, nodesUntil]
      by_cases hu : u.podtype.val = t <;> simp [hu, nodesUntil]
  | cons v us ih =>
      rw [List.map_cons, List.mem_cons, not_or] at h
      rw [List.cons_append, nodesUntil, if_neg (Ne.symm h.1), ih h.2, List.map_cons]

/-- An update of another type does not change an entry. -/
lemma tally_snoc_of_ne {nodes types : List String} {us : List Update} {u : Update} {t : String}
    (h : t ≠ u.podtype.val) (n : String) :
    tally nodes types (us ++ [u]) t n = tally nodes types us t n := by
  have hrewards : rewards t n (us ++ [u]) = rewards t n us := by
    rw [rewards_snoc, if_neg fun heq => h heq.1.symm, List.append_nil]
  have hmem : t ∈ (us ++ [u]).map (fun u => u.podtype.val) ↔ t ∈ us.map fun u => u.podtype.val := by
    simp [h]
  unfold tally
  rw [hrewards]
  by_cases hseen : t ∈ types ∨ t ∈ us.map fun u => u.podtype.val
  · have hstart : StartsRunning nodes types (us ++ [u]) t n
        ↔ StartsRunning nodes types us t n := by
      refine or_congr_right (and_congr_right fun ht => ?_)
      rw [nodesUntil_append_of_mem (hseen.resolve_left ht)]
    simp only [hmem, hstart]
  · rw [if_neg hseen, if_neg fun hs => hseen (hs.imp_right hmem.mp)]

/-- The entries of a type after an update of it: a type that was not there starts
with the nodes that are known. -/
lemma tally_snoc_self (nodes types : List String) (us : List Update) (u : Update) (n : String) :
    tally nodes types (us ++ [u]) u.podtype.val n =
      let old := if u.podtype.val ∈ types ∨ u.podtype.val ∈ us.map fun u => u.podtype.val then
          tally nodes types us u.podtype.val n
        else if n ∈ nodes ∨ n ∈ (us ++ [u]).map (fun u => u.nodename.val) then some runningReward
        else none
      if n = u.nodename.val then some (Monitor.average (old.getD 0) u.reward) else old := by
  have hnow : u.podtype.val ∈ (us ++ [u]).map fun u => u.podtype.val := by simp
  have hrewards : rewards u.podtype.val n (us ++ [u])
      = rewards u.podtype.val n us ++ if n = u.nodename.val then [u.reward] else [] := by
    rw [rewards_snoc]
    simp [eq_comm]
  have hfold (x : ℚ) (rs : List ℚ) :
      (rs ++ [u.reward]).foldl Monitor.average x
        = Monitor.average (rs.foldl Monitor.average x) u.reward := by
    rw [List.foldl_append, List.foldl_cons, List.foldl_nil]
  rw [tally, if_pos (.inr hnow), hrewards]
  by_cases hseen : u.podtype.val ∈ types ∨ u.podtype.val ∈ us.map fun u => u.podtype.val
  · have hstart : StartsRunning nodes types (us ++ [u]) u.podtype.val n
        ↔ StartsRunning nodes types us u.podtype.val n := by
      refine or_congr_right (and_congr_right fun ht => ?_)
      rw [nodesUntil_append_of_mem (hseen.resolve_left ht)]
    simp only [if_pos hseen, hstart, tally]
    by_cases hn : n = u.nodename.val
    · by_cases hs : StartsRunning nodes types us u.podtype.val n
      · simp only [if_pos hn, if_pos hs, Option.getD_some, hfold]
      · cases hrs : rewards u.podtype.val n us with
        | nil => simp [if_pos hn, if_neg hs]
        | cons r rs =>
            simp only [if_pos hn, if_neg hs, reduceCtorEq, if_false, List.cons_append,
              Option.getD_some, ← hfold]
    · simp only [if_neg hn, List.append_nil]
  · have hstart : StartsRunning nodes types (us ++ [u]) u.podtype.val n
        ↔ n ∈ nodes ∨ n ∈ (us ++ [u]).map fun u => u.nodename.val := by
      rw [not_or] at hseen
      refine or_congr_right ?_
      rw [nodesUntil_snoc hseen.2]
      exact and_iff_right hseen.1
    have hnil : rewards u.podtype.val n us = [] := rewards_eq_nil (fun hs => hseen (.inr hs)) n
    simp only [if_neg hseen, hstart, hnil, List.nil_append]
    by_cases hn : n = u.nodename.val
    · simp [hn]
    · simp [hn]

/-! ### The tables after a list of updates -/

/-- The tables of a monitor that has listed `nodes` and `types` and then made the
updates `us`. -/
structure Tallies (nodes types : List String) (us : List Update) (m : Monitor api) : Prop where
  names : ∀ x ∈ m.nodeNameList, NoSlash x
  mem : ∀ x, x ∈ m.nodeNameList ↔ x ∈ nodes ∨ x ∈ us.map fun u => u.nodename.val
  known : ∀ x, (m.nodeVals.get x).isSome ↔ x ∈ m.nodeNameList
  isSome : ∀ t, (m.podVals.get t).isSome ↔ t ∈ types ∨ t ∈ us.map fun u => u.podtype.val
  podVal : ∀ t, ∀ n ≠ "all", m.podVal t n = tally nodes types us t n
  fresh : ∀ t, NoSlash t → t ≠ "" → m.podVals.get t = none → m.FreshType t

/-- The loop over the nodes of `init_rewards`, with nothing but initial texts in
etcd. -/
lemma Monitor.foldl_initNode_spec (nodes : List String) (m : Monitor api)
    (h : ∀ p, Unvisited m.etcd p) :
    (nodes.foldl initNode m).nodeNameList = m.nodeNameList
      ∧ (nodes.foldl initNode m).podVals = m.podVals
      ∧ (∀ x, ((nodes.foldl initNode m).nodeVals.get x).isSome
        ↔ (m.nodeVals.get x).isSome ∨ x ∈ nodes)
      ∧ ∀ p, Unvisited (nodes.foldl initNode m).etcd p := by
  induction nodes generalizing m with
  | nil => exact ⟨rfl, rfl, fun x => by simp, h⟩
  | cons n nodes ih =>
      obtain ⟨-, hinit⟩ := m.initIfNotExists_unvisited (h (keyPath (nodeKey n)))
      obtain ⟨hlist, hpods, hsome, hfiles⟩ := ih (m.initNode n) fun p => (h p).mono hinit.written
      refine ⟨hlist.trans hinit.nodeNameList, hpods.trans hinit.podVals, fun x => ?_, hfiles⟩
      have hvals : (m.initNode n).nodeVals
          = m.nodeVals.insert n (m.initIfNotExists (nodeKey n) runningReward).1 :=
        congrArg (fun vals => StringMap.insert vals n _) hinit.nodeVals
      rw [List.foldl_cons, hsome, hvals, StringMap.get_insert, List.mem_cons]
      by_cases hx : x = n <;> simp [hx]

/-- After `init_new_pod` for some types, with nothing but initial texts in etcd. -/
structure Listed (types : List String) (m : Monitor api) : Prop where
  isSome : ∀ t, (m.podVals.get t).isSome ↔ t ∈ types
  podVal : ∀ t n, m.podVal t n
    = if t ∈ types ∧ n ∈ "all" :: m.nodeNameList then some runningReward else none
  unvisited : ∀ p, Unvisited m.etcd p

lemma Listed.congr {types : List String} {m : Monitor api} (h : Listed types m)
    (types' : List String) (heq : ∀ t, t ∈ types' ↔ t ∈ types) : Listed types' m :=
  ⟨fun t => (h.isSome t).trans (heq t).symm, fun t n => by simp only [h.podVal, heq],
    h.unvisited⟩

lemma Listed.initNewPod {types : List String} {m : Monitor api} (h : Listed types m)
    (t : String) : Listed (t :: types) (m.initNewPod t m.nodeNameList) := by
  have hfilled := m.initNewPod_filled t m.nodeNameList fun n _ => h.unvisited _
  have hother (t' : String) (ht' : t' ≠ t) :
      (m.initNewPod t m.nodeNameList).podVals.get t' = m.podVals.get t' := by
    rw [hfilled.other t' ht', StringMap.get_insert, if_neg ht']
  refine ⟨fun t' => ?_, fun t' n => ?_, fun p => (h.unvisited p).mono hfilled.written⟩
  · by_cases ht' : t' = t
    · subst ht'
      simp [hfilled.isSome]
    · rw [hother t' ht', h.isSome, List.mem_cons, or_iff_right ht']
  · rw [hfilled.nodeNameList]
    by_cases ht' : t' = t
    · subst ht'
      rw [hfilled.podVal]
      simp [Monitor.podVal]
    · rw [Monitor.podVal, hother t' ht', ← Monitor.podVal, h.podVal]
      simp [ht']

/-- The loop over the pods of `init_rewards`. -/
lemma Listed.foldl_initNewPod (pods : List Pod) {types : List String} {m : Monitor api}
    (h : Listed types m) :
    let m' := pods.foldl (fun m pod => m.initNewPod (getPodtype pod).val m.nodeNameList) m
    m'.nodeNameList = m.nodeNameList ∧ m'.nodeVals = m.nodeVals
      ∧ Listed ((pods.map fun pod => (getPodtype pod).val).reverse ++ types) m' := by
  induction pods generalizing types m with
  | nil => exact ⟨rfl, rfl, h⟩
  | cons pod pods ih =>
      have hfilled := m.initNewPod_filled (getPodtype pod).val m.nodeNameList
        fun n _ => h.unvisited _
      obtain ⟨hlist, hnodes, hlisted⟩ := ih (h.initNewPod (getPodtype pod).val)
      refine ⟨hlist.trans hfilled.nodeNameList, hnodes.trans hfilled.nodeVals, ?_⟩
      simpa using hlisted

/-- The tables of `init_rewards` are a tally without updates. -/
lemma Listed.tallies {nodes types : List String} {m : Monitor api} (h : Listed types m)
    (hnodes : m.nodeNameList = nodes) (hnames : ∀ x ∈ nodes, NoSlash x)
    (hknown : ∀ x, (m.nodeVals.get x).isSome ↔ x ∈ nodes) : Tallies nodes types [] m where
  names := hnodes ▸ hnames
  mem := fun x => by simp [hnodes]
  known := fun x => by rw [hknown, hnodes]
  isSome := fun t => by simp [h.isSome]
  podVal := by
    intro t n hn
    rw [h.podVal, hnodes, tally]
    by_cases ht : t ∈ types
    · by_cases hx : n ∈ nodes <;> simp [ht, hx, hn, StartsRunning, rewards, nodesUntil]
    · simp [ht]
  fresh := fun t _ _ _ n _ => h.unvisited _

/-- `init_rewards` on an empty etcd. -/
lemma tallies_start {etcd : api.State} (h : api.Empty etcd) (failedWrites : ℕ)
    (nodes : Option (List Name)) (pods : Option (List Pod)) :
    Tallies (listedNodes nodes) (listedTypes nodes pods) []
      (Monitor.start etcd failedWrites nodes pods) := by
  have hunvisited : ∀ p, Unvisited etcd p := fun p => .inl (h p)
  cases nodes with
  | none =>
      have hlisted : Listed [] (⟨[], ∅, ∅, etcd, failedWrites⟩ : Monitor api) :=
        ⟨fun t => by simp, fun t n => by simp [Monitor.podVal], hunvisited⟩
      exact hlisted.tallies rfl (fun x hx => by cases hx) fun x => by simp [listedNodes]
  | some nodes =>
      have hnames : ∀ x ∈ nodes.map Subtype.val, NoSlash x := by
        intro x hx
        obtain ⟨n, -, rfl⟩ := List.mem_map.mp hx
        exact n.property
      simp only [Monitor.start, Monitor.initRewards, listedNodes, listedTypes, Option.getD_some,
        Option.isSome_some, if_true]
      generalize nodes.map Subtype.val = names at hnames ⊢
      obtain ⟨hlist, hpods, hsome, hfiles⟩ := Monitor.foldl_initNode_spec names
        (⟨names, ∅, ∅, etcd, failedWrites⟩ : Monitor api) hunvisited
      have hlisted := (⟨fun t => by simp [hpods], fun t n => by simp [Monitor.podVal, hpods],
        hfiles⟩ : Listed [] _)
      have hknown : ∀ x, ((names.foldl Monitor.initNode
          (⟨names, ∅, ∅, etcd, failedWrites⟩ : Monitor api)).nodeVals.get x).isSome
            ↔ x ∈ names := by
        intro x
        simp [hsome]
      cases pods with
      | none => exact hlisted.tallies hlist hnames hknown
      | some pods =>
          obtain ⟨hlist', hnodes', hlisted'⟩ := hlisted.foldl_initNewPod pods
          have htypes := hlisted'.congr (pods.map fun pod => (getPodtype pod).val) fun t => by simp
          exact htypes.tallies (hlist'.trans hlist) hnames (hnodes' ▸ hknown)

/-- A further update. -/
lemma Tallies.update {nodes types : List String} {us : List Update} {m : Monitor api}
    (h : Tallies nodes types us m) (u : Update) (hu : u.podtype.val ≠ "") :
    Tallies nodes types (us ++ [u])
      (m.updatePodNodeReward u.podtype.val u.nodename.val u.reward) := by
  have hup := m.updatePodNodeReward_spec u.podtype.property hu u.nodename.property u.reward
    h.names h.known (h.fresh u.podtype.val u.podtype.property hu)
  refine ⟨fun x hx => ?_, fun x => ?_, hup.known, fun t => ?_, fun t n hn => ?_,
    fun t ht hne hnone n hn => ?_⟩
  · rcases (hup.mem x).mp hx with hx | rfl
    · exact h.names x hx
    · exact u.nodename.property
  · rw [hup.mem, h.mem]
    simp [or_assoc]
  · rw [hup.isSome, h.isSome]
    simp [or_assoc]
  · by_cases ht : t = u.podtype.val
    · subst ht
      rw [hup.podVal n hn, tally_snoc_self]
      simp only [h.isSome, h.podVal _ n hn, hup.mem, h.mem, List.map_append, List.map_cons,
        List.map_nil, List.mem_append, List.mem_singleton, or_assoc]
    · rw [tally_snoc_of_ne ht, ← h.podVal t n hn, Monitor.podVal, hup.other t ht, Monitor.podVal]
  · have htt : t ≠ u.podtype.val := fun heq => by
      have hsome := (hup.isSome t).mpr (.inr heq)
      rw [hnone] at hsome
      cases hsome
    have hfresh := h.fresh t ht hne (by rw [← hup.other t htt, hnone]) n hn
    rcases hup.file t htt hne ht n hn with hfile | hfile
    · rw [Unvisited, hfile]
      exact hfresh
    · exact .inr hfile

/-! ### Runs -/

/-- Any number of events. -/
lemma Tallies.watch {nodes types : List String} {us : List Update} {m : Monitor api}
    (h : Tallies nodes types us m) (events : List WatchEvent) :
    Tallies nodes types (us ++ events.filterMap podUpdate) (events.foldl Monitor.watch m) := by
  induction events generalizing us m with
  | nil => simpa using h
  | cons e events ih =>
      rw [List.foldl_cons, Monitor.watch]
      cases hu : podUpdate e with
      | none =>
          rw [List.filterMap_cons_none hu]
          exact ih h
      | some u =>
          rw [List.filterMap_cons_some hu, ← List.singleton_append, ← List.append_assoc]
          exact ih (h.update u (podUpdate_spec hu).1)

/-- Averages from different starting values stay apart. -/
lemma foldl_average_sub (rs : List ℚ) (x y : ℚ) :
    rs.foldl Monitor.average x - rs.foldl Monitor.average y
      = (1 - weight) ^ rs.length * (x - y) := by
  induction rs generalizing x y with
  | nil => simp
  | cons r rs ih =>
      rw [List.foldl_cons, List.foldl_cons, ih, List.length_cons, Monitor.average,
        Monitor.average]
      ring

/-- After any events, on an etcd that was empty at the start, the entry of a type
and a node is the average of their rewards from the running reward on exactly
when the node was listed at the start, or the type was not and the node occurs in
an update no later than the type does. -/
theorem reward_right_iff {etcd : api.State} (hempty : api.Empty etcd)
    (nodes : Option (List Name)) (pods : Option (List Pod)) (events : List WatchEvent) (t n : Name)
    (hn : n.val ≠ "all")
    (hoccurs : ∃ u ∈ events.filterMap podUpdate, u.podtype = t ∧ u.nodename = n) :
    (events.foldl Monitor.watch (Monitor.start etcd 0 nodes pods)).podVal t.val n.val
        = some ((rewards t.val n.val (events.filterMap podUpdate)).foldl Monitor.average
          runningReward)
      ↔ StartsRunning (listedNodes nodes) (listedTypes nodes pods) (events.filterMap podUpdate)
        t.val n.val := by
  have htallies := (tallies_start hempty 0 nodes pods).watch events
  rw [List.nil_append] at htallies
  obtain ⟨u, hu, rfl, rfl⟩ := hoccurs
  rw [htallies.podVal _ _ hn, tally, if_pos (.inr (List.mem_map_of_mem hu))]
  generalize events.filterMap podUpdate = us at hu ⊢
  by_cases hstart : StartsRunning (listedNodes nodes) (listedTypes nodes pods) us u.podtype.val
      u.nodename.val
  · rw [if_pos hstart]
    exact iff_of_true rfl hstart
  · have hne : rewards u.podtype.val u.nodename.val us ≠ [] := by
      refine List.ne_nil_of_mem (a := u.reward) (List.mem_filterMap.mpr ⟨u, hu, ?_⟩)
      exact if_pos ⟨rfl, rfl⟩
    rw [if_neg hstart, if_neg hne]
    refine iff_of_false (fun heq => ?_) hstart
    have hsub := foldl_average_sub (rewards u.podtype.val u.nodename.val us) 0 runningReward
    rw [Option.some.inj heq, sub_self] at hsub
    have hpow : (1 - weight) ^ (rewards u.podtype.val u.nodename.val us).length ≠ 0 :=
      pow_ne_zero _ (by norm_num [weight])
    exact mul_ne_zero hpow (by norm_num [runningReward]) hsub.symm

/-- A pod fails on the first node, which is listed, and a pod of the same type
runs on the second one, which is not. -/
def twoNodeEvents : List WatchEvent :=
  [.pod .modified (deploymentPod nodeOne .failed),
    .pod .modified (deploymentPod ⟨"node-2", by decide⟩ .running)]

theorem reward_right_iff_node_one :
    (twoNodeEvents.foldl Monitor.watch oneNodeStart).podVal "web" "node-1"
      = some ((rewards "web" "node-1" (twoNodeEvents.filterMap podUpdate)).foldl Monitor.average
        runningReward) := by
  have hempty : pathStore.Empty ([] : pathStore.State) := fun _ => rfl
  refine (reward_right_iff hempty (some [nodeOne]) (some []) twoNodeEvents
    ⟨"web", by decide⟩ nodeOne (by decide) ?_).mpr ?_
  · exact ⟨_, List.mem_cons_self, rfl, rfl⟩
  · decide +kernel

/-- The second node starts from zero. -/
theorem node_two_starts_from_zero :
    pathStore.Empty ([] : pathStore.State)
      ∧ (twoNodeEvents.foldl Monitor.watch oneNodeStart).podVal "web" "node-2" = some (1 / 10)
      ∧ (rewards "web" "node-2" (twoNodeEvents.filterMap podUpdate)).foldl Monitor.average
        runningReward = 1 := by
  refine ⟨fun p => rfl, ?_, ?_⟩
  · decide +kernel
  · decide +kernel

end KubeSafeScheduler.KubeRL
