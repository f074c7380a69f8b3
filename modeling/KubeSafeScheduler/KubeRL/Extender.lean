import KubeSafeScheduler.KubeRL.Monitor
import KubeSafeScheduler.Safe.Overload

/-!
`kubeRL/rl-scheduler-extender/rl-priority.go`, and the monitor and the extender
together: what the monitor keeps in memory is what the extender reads from etcd,
rounded to six decimals.

* `getKeyDirectory`, `rlPriorityFunc`: the extender.
* `sixDecimals`: a value after its way through a text.
* `Synced`: memory and etcd agree. Every operation of the monitor keeps it, as
  long as no write fails.
* `scores_follow_memory`: in every run with restarts, values are between zero and
  one, etcd has their texts, and the scores are those of the values in memory.
-/

namespace KubeSafeScheduler.KubeRL

open Safe (HostPriority maxPriority)

variable {api : KeysAPI}

/-! ### The extender -/

/-- `get_key_directory`. -/
def getKeyDirectory (etcd : api.State) (key : String) : StringMap ℚ :=
  match api.get etcd key with
  | none => ∅
  | some node =>
      if node.dir then
        node.nodes.foldl (fun obj c => obj.insert (lastName c.1) ((parseDecimal c.2).getD 0)) ∅
      else ∅

/-- `RLPriorityFunc`. -/
def rlPriorityFunc (etcd : api.State) (pod : Pod) (nodes : List Name) : List HostPriority :=
  let podObj := getKeyDirectory etcd ("/pods/" ++ (getPodtype pod).val)
  nodes.map fun node =>
    let score := (podObj.get node.val).getD 0 * maxPriority
    ⟨node.val, (GoFloat.fin score).toInt⟩

/-! ### Six decimals -/

/-- A number between zero and one, as its text shows it. -/
def sixDecimals (v : ℚ) : ℚ := roundHalfEven (v * 10 ^ 6) / 10 ^ 6

lemma sixDecimals_mem {v : ℚ} (h0 : 0 ≤ v) (h1 : v ≤ 1) :
    0 ≤ sixDecimals v ∧ sixDecimals v ≤ 1 := by
  have hnonneg : 0 ≤ roundHalfEven (v * 10 ^ 6) := roundHalfEven_nonneg (by positivity)
  have hle : roundHalfEven (v * 10 ^ 6) ≤ 10 ^ 6 := by
    refine roundHalfEven_le ?_
    push_cast
    linarith
  have hnonneg' : (0 : ℚ) ≤ roundHalfEven (v * 10 ^ 6) := Int.cast_nonneg hnonneg
  have hle' : (roundHalfEven (v * 10 ^ 6) : ℚ) ≤ 10 ^ 6 := by exact_mod_cast hle
  exact ⟨div_nonneg hnonneg' (by norm_num), (div_le_one (by norm_num)).mpr hle'⟩

lemma sprintf_of_nonneg {v : ℚ} (h : 0 ≤ v) :
    sprintf v = formatFixed 6 (roundHalfEven (v * 10 ^ 6)).toNat := by
  rw [sprintf, if_neg (not_lt.mpr h), abs_of_nonneg h]
  exact String.empty_append

/-- A text gives the value to six decimals. -/
lemma parseDecimal_sprintf {v : ℚ} (h : 0 ≤ v) :
    parseDecimal (sprintf v) = some (sixDecimals v) := by
  have hnonneg : 0 ≤ roundHalfEven (v * 10 ^ 6) := roundHalfEven_nonneg (by positivity)
  have hcast : (((roundHalfEven (v * 10 ^ 6)).toNat : ℕ) : ℚ) = roundHalfEven (v * 10 ^ 6) := by
    exact_mod_cast Int.toNat_of_nonneg hnonneg
  rw [sprintf_of_nonneg h, parseDecimal_formatFixed, hcast, sixDecimals]

/-- Six decimals have the text that they were read from. -/
lemma sprintf_sixDecimals {v : ℚ} (h0 : 0 ≤ v) (h1 : v ≤ 1) :
    sprintf (sixDecimals v) = sprintf v := by
  have hscale : sixDecimals v * 10 ^ 6 = roundHalfEven (v * 10 ^ 6) := by
    rw [sixDecimals, div_mul_cancel₀ _ (by norm_num)]
  rw [sprintf_of_nonneg (sixDecimals_mem h0 h1).1, sprintf_of_nonneg h0, hscale,
    roundHalfEven_intCast]

/-! ### Memory and etcd -/

/-- The name of a node. -/
def IsNodeName (x : String) : Prop := NoSlash x ∧ x ≠ ""

instance (x : String) : Decidable (IsNodeName x) := inferInstanceAs (Decidable (_ ∧ _))

lemma keyPath_nodeKey_inj {n n' : String} (hn : NoSlash n) (hn' : NoSlash n') :
    keyPath (nodeKey n) = keyPath (nodeKey n') ↔ n = n' := by
  rw [keyPath_nodeKey hn, keyPath_nodeKey hn', List.cons.injEq, segment_inj, and_iff_right rfl]

lemma keyPath_podKey_inj {t t' n n' : String} (ht : NoSlash t) (ht' : NoSlash t')
    (hn : IsNodeName n) (hn' : IsNodeName n') :
    keyPath (podKey t n) = keyPath (podKey t' n') ↔ t = t' ∧ n = n' := by
  rw [keyPath_podKey ht hn.1, keyPath_podKey ht' hn'.1, segment_of_ne hn.2, segment_of_ne hn'.2,
    List.cons.injEq, and_iff_right rfl]
  constructor
  · intro h
    obtain ⟨htype, hnode⟩ := List.append_inj' h rfl
    exact ⟨segment_inj.mp htype, List.singleton_inj.mp hnode⟩
  · rintro ⟨rfl, rfl⟩
    rfl

lemma keyPath_nodeKey_ne_podKey {t n n' : String} (ht : NoSlash t) (hn : NoSlash n)
    (hn' : NoSlash n') : keyPath (nodeKey n') ≠ keyPath (podKey t n) := by
  rw [keyPath_podKey ht hn, keyPath_nodeKey hn']
  simp

/-- The text at a path is that of a value between zero and one. -/
def Rendered (s : api.State) (p : List String) (v : ℚ) : Prop :=
  0 ≤ v ∧ v ≤ 1 ∧ api.file s p = sprintf v

/-- Every entry in memory is between zero and one and has its text in etcd, where
there are no other texts than such. -/
structure Synced (m : Monitor api) : Prop where
  nodeNames : ∀ n v, m.nodeVals.get n = some v → IsNodeName n
  podNames : ∀ t n v, m.podVal t n = some v → NoSlash t ∧ IsNodeName n
  nodeVals : ∀ n v, m.nodeVals.get n = some v → Rendered m.etcd (keyPath (nodeKey n)) v
  podVals : ∀ t n v, m.podVal t n = some v → Rendered m.etcd (keyPath (podKey t n)) v
  files : ∀ p, api.file m.etcd p = "" ∨ ∃ v, Rendered m.etcd p v

/-- As long as no write has failed, memory and etcd agree. -/
structure SyncedUnlessFailed (m : Monitor api) : Prop where
  names : ∀ x ∈ m.nodeNameList, IsNodeName x
  synced : m.failedWrites = 0 → Synced m

namespace Monitor

/-- A write after which none has failed. -/
lemma writeKeyValue_ok {m : Monitor api} {key val : String}
    (h : (m.writeKeyValue key val).failedWrites = 0) :
    m.failedWrites = 0 ∧ api.file (m.writeKeyValue key val).etcd (keyPath key) = val := by
  have hok : (api.set m.etcd key val).2 = true := by
    by_contra hfalse
    simp [writeKeyValue, hfalse] at h
  refine ⟨?_, api.set_ok m.etcd key val hok⟩
  simpa [writeKeyValue, hok] using h

/-- `init_if_not_exists` gives a value between zero and one with its text in
etcd. -/
lemma initIfNotExists_rendered {m : Monitor api} (h : SyncedUnlessFailed m) {key : String}
    (hok : (m.initIfNotExists key runningReward).2.failedWrites = 0) :
    Synced m ∧ Rendered (m.initIfNotExists key runningReward).2.etcd (keyPath key)
      (m.initIfNotExists key runningReward).1 := by
  rcases m.initIfNotExists_cases key runningReward with ⟨hne, heq⟩ | ⟨-, heq⟩
  · rw [heq] at hok ⊢
    obtain ⟨v, hv0, hv1, hfile⟩ := ((h.synced hok).files (keyPath key)).resolve_left hne
    obtain ⟨h0, h1⟩ := sixDecimals_mem hv0 hv1
    rw [hfile, parseDecimal_sprintf hv0]
    exact ⟨h.synced hok, h0, h1, hfile.trans (sprintf_sixDecimals hv0 hv1).symm⟩
  · rw [heq] at hok ⊢
    obtain ⟨hm, hfile⟩ := writeKeyValue_ok hok
    exact ⟨h.synced hm, by norm_num [runningReward], by norm_num [runningReward], hfile⟩

end Monitor

/-- One path got a new text, and the entry of that path the value of the text. -/
lemma Synced.set_node {m m' : Monitor api} (h : Synced m) {n : String} {v : ℚ}
    (hn : IsNodeName n) (hv : Rendered m'.etcd (keyPath (nodeKey n)) v)
    (hfile : ∀ p, p ≠ keyPath (nodeKey n) → api.file m'.etcd p = api.file m.etcd p)
    (hnodes : m'.nodeVals = m.nodeVals.insert n v) (hpods : m'.podVals = m.podVals) :
    Synced m' := by
  have hpodVal (t x : String) : m'.podVal t x = m.podVal t x := by
    rw [Monitor.podVal, hpods, Monitor.podVal]
  have hrendered {p : List String} {w : ℚ} (hp : p ≠ keyPath (nodeKey n))
      (hw : Rendered m.etcd p w) : Rendered m'.etcd p w :=
    ⟨hw.1, hw.2.1, (hfile p hp).trans hw.2.2⟩
  refine ⟨fun x w hx => ?_, fun t x w hx => ?_, fun x w hx => ?_, fun t x w hx => ?_,
    fun p => ?_⟩
  · rw [hnodes, StringMap.get_insert] at hx
    split_ifs at hx with hxn
    · exact hxn ▸ hn
    · exact h.nodeNames x w hx
  · exact h.podNames t x w (hpodVal t x ▸ hx)
  · rw [hnodes, StringMap.get_insert] at hx
    split_ifs at hx with hxn
    · cases hx
      exact hxn ▸ hv
    · have hne : keyPath (nodeKey x) ≠ keyPath (nodeKey n) :=
        mt (keyPath_nodeKey_inj (h.nodeNames x w hx).1 hn.1).mp hxn
      exact hrendered hne (h.nodeVals x w hx)
  · rw [hpodVal] at hx
    obtain ⟨ht, hx'⟩ := h.podNames t x w hx
    exact hrendered (keyPath_nodeKey_ne_podKey ht hx'.1 hn.1).symm (h.podVals t x w hx)
  · by_cases hp : p = keyPath (nodeKey n)
    · exact .inr ⟨v, hp ▸ hv⟩
    · rw [hfile p hp]
      rcases h.files p with hempty | ⟨w, hw⟩
      · exact .inl hempty
      · exact .inr ⟨w, hrendered hp hw⟩

lemma Synced.set_pod {m m' : Monitor api} (h : Synced m) {t n : String} {v : ℚ} (ht : NoSlash t)
    (hn : IsNodeName n) (hv : Rendered m'.etcd (keyPath (podKey t n)) v)
    (hfile : ∀ p, p ≠ keyPath (podKey t n) → api.file m'.etcd p = api.file m.etcd p)
    (hnodes : m'.nodeVals = m.nodeVals)
    (hpods : ∀ t' n', m'.podVal t' n' = if t' = t ∧ n' = n then some v else m.podVal t' n') :
    Synced m' := by
  have hrendered {p : List String} {w : ℚ} (hp : p ≠ keyPath (podKey t n))
      (hw : Rendered m.etcd p w) : Rendered m'.etcd p w :=
    ⟨hw.1, hw.2.1, (hfile p hp).trans hw.2.2⟩
  refine ⟨hnodes ▸ h.nodeNames, fun t' x w hx => ?_, fun x w hx => ?_,
    fun t' x w hx => ?_, fun p => ?_⟩
  · rw [hpods] at hx
    split_ifs at hx with htx
    · exact ⟨htx.1 ▸ ht, htx.2 ▸ hn⟩
    · exact h.podNames t' x w hx
  · rw [hnodes] at hx
    exact hrendered (keyPath_nodeKey_ne_podKey ht hn.1 (h.nodeNames x w hx).1) (h.nodeVals x w hx)
  · rw [hpods] at hx
    split_ifs at hx with htx
    · cases hx
      exact htx.1 ▸ htx.2 ▸ hv
    · obtain ⟨ht', hx'⟩ := h.podNames t' x w hx
      exact hrendered (mt (keyPath_podKey_inj ht' ht hx' hn).mp htx) (h.podVals t' x w hx)
  · by_cases hp : p = keyPath (podKey t n)
    · exact .inr ⟨v, hp ▸ hv⟩
    · rw [hfile p hp]
      rcases h.files p with hempty | ⟨w, hw⟩
      · exact .inl hempty
      · exact .inr ⟨w, hrendered hp hw⟩

/-! ### Every operation keeps memory and etcd in agreement -/

lemma average_mem {v r : ℚ} (hv : 0 ≤ v ∧ v ≤ 1) (hr : 0 ≤ r ∧ r ≤ 1) :
    0 ≤ Monitor.average v r ∧ Monitor.average v r ≤ 1 := by
  norm_num [Monitor.average, weight]
  constructor <;> linarith [hv.1, hv.2, hr.1, hr.2]

namespace SyncedUnlessFailed

variable {m : Monitor api}

lemma initNode (h : SyncedUnlessFailed m) {n : String} (hn : IsNodeName n) :
    SyncedUnlessFailed (m.initNode n) := by
  obtain ⟨hlist, hnodes, hpods, hfile⟩ := m.initIfNotExists_frame (nodeKey n) runningReward
  refine ⟨fun x hx => h.names x (hlist ▸ hx), fun hok => ?_⟩
  obtain ⟨hsynced, hv⟩ := Monitor.initIfNotExists_rendered h hok
  exact hsynced.set_node hn hv hfile (congrArg (StringMap.insert · n _) hnodes) hpods

lemma initPodNode (h : SyncedUnlessFailed m) {t n : String} (ht : NoSlash t)
    (hn : IsNodeName n) : SyncedUnlessFailed (m.initPodNode t n) := by
  obtain ⟨hlist, hnodes, hpods, hfile⟩ := m.initIfNotExists_frame (podKey t n) runningReward
  refine ⟨fun x hx => h.names x (hlist ▸ hx), fun hok => ?_⟩
  obtain ⟨hsynced, hv⟩ := Monitor.initIfNotExists_rendered h hok
  refine hsynced.set_pod ht hn hv hfile hnodes fun t' n' => ?_
  have hpodVal :
      (m.initIfNotExists (podKey t n) runningReward).2.podVal t' n' = m.podVal t' n' := by
    rw [Monitor.podVal, hpods, Monitor.podVal]
  rw [← hpodVal]
  exact Monitor.podVal_setPodVal _ t n t' n' _

lemma foldl_initPodNode (h : SyncedUnlessFailed m) {t : String} (ht : NoSlash t)
    {nodes : List String} (hnodes : ∀ x ∈ nodes, IsNodeName x) :
    SyncedUnlessFailed (nodes.foldl (Monitor.initPodNode t) m) := by
  induction nodes generalizing m with
  | nil => exact h
  | cons n nodes ih =>
      exact ih (h.initPodNode ht (hnodes n List.mem_cons_self)) fun x hx =>
        hnodes x (List.mem_cons_of_mem n hx)

lemma initNewPod (h : SyncedUnlessFailed m) {t : String} (ht : NoSlash t) {nodes : List String}
    (hnodes : ∀ x ∈ nodes, IsNodeName x) : SyncedUnlessFailed (m.initNewPod t nodes) := by
  -- the table of the type is emptied first
  have hsub {t' n : String} {v : ℚ}
      (hv : Monitor.podVal { m with podVals := m.podVals.insert t ∅ } t' n = some v) :
      m.podVal t' n = some v := by
    simp only [Monitor.podVal, StringMap.get_insert] at hv
    split_ifs at hv with htt
    · simp at hv
    · exact hv
  have hcleared : SyncedUnlessFailed { m with podVals := m.podVals.insert t ∅ } := by
    refine ⟨h.names, fun hok => ?_⟩
    have hsynced := h.synced hok
    exact ⟨hsynced.nodeNames, fun t' n v hv => hsynced.podNames t' n v (hsub hv),
      hsynced.nodeVals, fun t' n v hv => hsynced.podVals t' n v (hsub hv), hsynced.files⟩
  exact (hcleared.initPodNode ht (by decide)).foldl_initPodNode ht hnodes

lemma knowNode (h : SyncedUnlessFailed m) {n : String} (hn : IsNodeName n) :
    SyncedUnlessFailed (m.knowNode n) := by
  rcases m.knowNode_cases n with ⟨-, heq⟩ | ⟨-, heq⟩
  · rw [heq]
    exact h
  · rw [heq]
    refine initNode ⟨fun x hx => ?_, fun hok => ?_⟩ hn
    · rcases List.mem_append.mp hx with hx | hx
      · exact h.names x hx
      · exact List.mem_singleton.mp hx ▸ hn
    · have hsynced := h.synced hok
      exact ⟨hsynced.nodeNames, hsynced.podNames, hsynced.nodeVals, hsynced.podVals,
        hsynced.files⟩

lemma knowType (h : SyncedUnlessFailed m) {t : String} (ht : NoSlash t) :
    SyncedUnlessFailed (m.knowType t) := by
  rcases m.knowType_cases t with ⟨-, heq⟩ | ⟨-, heq⟩
  · rw [heq]
    exact h
  · rw [heq]
    exact h.initNewPod ht h.names

lemma updateNodeVal (h : SyncedUnlessFailed m) {n : String} (hn : IsNodeName n) {r : ℚ}
    (hr : 0 ≤ r ∧ r ≤ 1) : SyncedUnlessFailed (m.updateNodeVal n r) := by
  rw [Monitor.updateNodeVal_eq]
  refine ⟨h.names, fun hok => ?_⟩
  obtain ⟨hm, hfile⟩ := Monitor.writeKeyValue_ok hok
  have hsynced := h.synced hm
  have hold : 0 ≤ (m.nodeVals.get n).getD 0 ∧ (m.nodeVals.get n).getD 0 ≤ 1 := by
    cases hget : m.nodeVals.get n with
    | none => simp
    | some v => exact ⟨(hsynced.nodeVals n v hget).1, (hsynced.nodeVals n v hget).2.1⟩
  have hnew := average_mem hold hr
  exact hsynced.set_node hn ⟨hnew.1, hnew.2, hfile⟩ (fun p hp => api.file_set_of_ne hp) rfl rfl

lemma updatePodVal (h : SyncedUnlessFailed m) {t n : String} (ht : NoSlash t)
    (hn : IsNodeName n) {r : ℚ} (hr : 0 ≤ r ∧ r ≤ 1) :
    SyncedUnlessFailed (m.updatePodVal t n r) := by
  rw [Monitor.updatePodVal_eq]
  refine ⟨h.names, fun hok => ?_⟩
  obtain ⟨hm, hfile⟩ := Monitor.writeKeyValue_ok hok
  have hsynced := h.synced hm
  have hold : 0 ≤ (m.podVal t n).getD 0 ∧ (m.podVal t n).getD 0 ≤ 1 := by
    cases hget : m.podVal t n with
    | none => simp
    | some v => exact ⟨(hsynced.podVals t n v hget).1, (hsynced.podVals t n v hget).2.1⟩
  have hnew := average_mem hold hr
  exact hsynced.set_pod ht hn ⟨hnew.1, hnew.2, hfile⟩ (fun p hp => api.file_set_of_ne hp) rfl
    fun t' n' => Monitor.podVal_setPodVal m t n t' n' _

/-- One event, of a pod that is bound to a node if it makes an update. -/
lemma watch (h : SyncedUnlessFailed m) {e : WatchEvent}
    (he : ∀ u, podUpdate e = some u → u.nodename.val ≠ "") : SyncedUnlessFailed (m.watch e) := by
  rw [Monitor.watch]
  cases hu : podUpdate e with
  | none => exact h
  | some u =>
      have hn : IsNodeName u.nodename.val := ⟨u.nodename.property, he u hu⟩
      have ht := u.podtype.property
      have hr := (podUpdate_spec hu).2.1
      exact ((((h.knowNode hn).updateNodeVal hn hr).knowType ht).updatePodVal ht hn hr).updatePodVal
        ht (by decide) hr

lemma foldl_initNode (h : SyncedUnlessFailed m) {nodes : List String}
    (hnodes : ∀ x ∈ nodes, IsNodeName x) :
    SyncedUnlessFailed (nodes.foldl Monitor.initNode m) := by
  induction nodes generalizing m with
  | nil => exact h
  | cons n nodes ih =>
      exact ih (h.initNode (hnodes n List.mem_cons_self)) fun x hx =>
        hnodes x (List.mem_cons_of_mem n hx)

lemma foldl_initNewPod (h : SyncedUnlessFailed m) (pods : List Pod) :
    SyncedUnlessFailed (pods.foldl
      (fun m pod => m.initNewPod (getPodtype pod).val m.nodeNameList) m) := by
  induction pods generalizing m with
  | nil => exact h
  | cons pod pods ih => exact ih (h.initNewPod (getPodtype pod).property h.names)

/-- A new process, whatever the lists that it gets. -/
lemma start {etcd : api.State} {failedWrites : ℕ}
    (h : failedWrites = 0 → ∀ p, api.file etcd p = "" ∨ ∃ v, Rendered etcd p v)
    {nodes : Option (List Name)} (hnodes : ∀ n ∈ nodes.getD [], n.val ≠ "")
    (pods : Option (List Pod)) :
    SyncedUnlessFailed (Monitor.start etcd failedWrites nodes pods) := by
  have hempty (names : List String) (hnames : ∀ x ∈ names, IsNodeName x) :
      SyncedUnlessFailed (⟨names, ∅, ∅, etcd, failedWrites⟩ : Monitor api) := by
    refine ⟨hnames, fun hok => ⟨?_, ?_, ?_, ?_, h hok⟩⟩
    all_goals simp [Monitor.podVal]
  cases nodes with
  | none => exact hempty [] (by simp)
  | some nodes =>
      have hnames : ∀ x ∈ nodes.map Subtype.val, IsNodeName x := by
        intro x hx
        obtain ⟨n, hn, rfl⟩ := List.mem_map.mp hx
        exact ⟨n.property, hnodes n hn⟩
      have hlisted := (hempty _ hnames).foldl_initNode hnames
      cases pods with
      | none => exact hlisted
      | some pods => exact hlisted.foldl_initNewPod pods

end SyncedUnlessFailed

/-! ### Runs -/

/-- What happens to the monitor: an event, or a restart with the nodes and pods
that are listed then. -/
inductive Input where
  | event (e : WatchEvent)
  | restart (nodes : Option (List Name)) (pods : Option (List Pod))

/-- Pods that an update is made for are bound to a node, and nodes that are listed
have names. -/
def Input.Bound : Input → Prop
  | .event e => ∀ u, podUpdate e = some u → u.nodename.val ≠ ""
  | .restart nodes _ => ∀ n ∈ nodes.getD [], n.val ≠ ""

lemma Input.bound_event {type : EventType} {pod : Pod} (h : pod.nodeName.val ≠ "") :
    (Input.event (.pod type pod)).Bound := by
  intro u hu
  obtain ⟨-, -, _, _, heq, hnode⟩ := podUpdate_spec hu
  cases heq
  rw [hnode]
  exact h

/-- One step of the monitor. -/
def Monitor.step (m : Monitor api) : Input → Monitor api
  | .event e => m.watch e
  | .restart nodes pods => m.restart nodes pods

lemma SyncedUnlessFailed.step {m : Monitor api} (h : SyncedUnlessFailed m) {i : Input}
    (hi : i.Bound) : SyncedUnlessFailed (m.step i) := by
  cases i with
  | restart nodes pods => exact start (fun hok => (h.synced hok).files) hi pods
  | event e => exact h.watch hi

/-- Any number of steps. -/
lemma SyncedUnlessFailed.run {m : Monitor api} (h : SyncedUnlessFailed m) {inputs : List Input}
    (hinputs : ∀ i ∈ inputs, i.Bound) : SyncedUnlessFailed (inputs.foldl Monitor.step m) := by
  induction inputs generalizing m with
  | nil => exact h
  | cons i inputs ih =>
      exact ih (h.step (hinputs i List.mem_cons_self)) fun j hj =>
        hinputs j (List.mem_cons_of_mem i hj)

/-! ### Scores -/

/-- What the extender reads of a directory: the values of the texts below it. -/
lemma getKeyDirectory_get (etcd : api.State) (key : String) {name : String}
    (hname : NoSlash name) :
    ((getKeyDirectory etcd key).get name).getD 0
      = (parseDecimal (api.file etcd (keyPath key ++ [name]))).getD 0 := by
  have hempty : (parseDecimal "").getD 0 = 0 := by decide +kernel
  -- a directory without children has no text below it
  have hmissing (h : ∀ nd, api.get etcd key = some nd → nd.dir = false) :
      api.file etcd (keyPath key ++ [name]) = "" := by
    by_contra hne
    obtain ⟨nd, hget, hdir, -⟩ := api.get_dir etcd key name hname hne
    rw [h nd hget] at hdir
    cases hdir
  unfold getKeyDirectory
  cases hget : api.get etcd key with
  | none => simp [hmissing (by simp [hget]), hempty]
  | some nd =>
      cases hdir : nd.dir with
      | false =>
          rw [hmissing (by simp [hget, hdir]), hempty]
          simp [hdir]
      | true =>
          have hchild : ∀ c ∈ nd.nodes,
              c.2 = api.file etcd (keyPath key ++ [lastName c.1]) := by
            intro c hc
            obtain ⟨dir, x, -, hx, hkey, hvalue⟩ := api.get_child etcd key nd c hget hc
            rw [hvalue, hkey, lastName_slash dir hx]
          have hfold := StringMap.get_foldl_insert (fun c : String × String => lastName c.1)
            (fun c => (parseDecimal c.2).getD 0) nd.nodes ∅
            (fun a ha b hb hab => by rw [hchild a ha, hchild b hb, hab]) name
          simp only [hdir, if_true]
          by_cases hlisted : ∃ c ∈ nd.nodes, lastName c.1 = name
          · obtain ⟨c, hc, rfl⟩ := hlisted
            rw [(hfold _).mpr (.inl ⟨c, hc, rfl, rfl⟩), hchild c hc, Option.getD_some]
          · have hnone : api.file etcd (keyPath key ++ [name]) = "" := by
              by_contra hne
              obtain ⟨nd', hget', -, dir, -, hc⟩ := api.get_dir etcd key name hname hne
              obtain rfl : nd = nd' := Option.some.inj (hget.symm.trans hget')
              exact hlisted ⟨_, hc, lastName_slash dir hname⟩
            have hget : (nd.nodes.foldl (fun obj c => StringMap.insert obj (lastName c.1)
                ((parseDecimal c.2).getD 0)) ∅).get name = none := by
              rw [Option.eq_none_iff_forall_ne_some]
              intro v hv
              rcases (hfold v).mp hv with ⟨c, hc, hkey, -⟩ | ⟨-, hv⟩
              · exact hlisted ⟨c, hc, hkey⟩
              · simp at hv
            rw [hget, hnone, hempty, Option.getD_none]

/-- The score of a node, by the text below the directory of the type. -/
lemma rlPriorityFunc_getElem? {etcd : api.State} {pod : Pod} {n : Name} {v : ℚ} (h0 : 0 ≤ v)
    (h1 : v ≤ 1)
    (hv : (parseDecimal (api.file etcd
      (keyPath ("/pods/" ++ (getPodtype pod).val) ++ [n.val]))).getD 0 = v)
    {candidates : List Name} {i : ℕ} (hi : candidates[i]? = some n) :
    (rlPriorityFunc etcd pod candidates)[i]? = some ⟨n.val, ⌊v * maxPriority⌋⟩
      ∧ 0 ≤ ⌊v * maxPriority⌋ ∧ ⌊v * maxPriority⌋ ≤ maxPriority := by
  have hmax : ((maxPriority : ℤ) : ℚ) = 10 := by norm_num [maxPriority]
  have hle : v * maxPriority < maxPriority + 1 := by
    rw [hmax]
    linarith
  obtain ⟨hint, hrange⟩ := GoFloat.toInt_fin (mul_nonneg h0 (by rw [hmax]; norm_num)) hle
    (by decide)
  refine ⟨?_, hrange⟩
  simp only [rlPriorityFunc, List.getElem?_map, hi, Option.map_some,
    getKeyDirectory_get etcd _ n.property, hv, hint]

lemma keyPath_podKey_eq_append {t n : String} (ht : NoSlash t) (hn : IsNodeName n) :
    keyPath (podKey t n) = keyPath ("/pods/" ++ t) ++ [n] := by
  have hassoc : "/pods/" ++ t = "" ++ "/" ++ ("pods" ++ "/" ++ t) := by
    simp [← String.append_assoc]
  rw [keyPath_podKey ht hn.1, hassoc, keyPath_slash (by decide), keyPath_slash (by decide),
    keyPath_of_noSlash ht, segment_of_ne hn.2]
  rfl

/-- In every run of the monitor on an etcd that was empty at the start, with any
events of pods that are bound to a node and any restarts, as long as no write has
failed: every value in memory is between zero and one, etcd has its text, and the
scores of the extender are between zero and the largest priority, and those of
the values in memory to six decimals, rounded down. -/
theorem scores_follow_memory {etcd : api.State} (hempty : api.Empty etcd)
    (nodes : Option (List Name)) (hnodes : ∀ n ∈ nodes.getD [], n.val ≠ "")
    (pods : Option (List Pod)) (inputs : List Input) (hinputs : ∀ i ∈ inputs, i.Bound)
    (hwrites : (inputs.foldl Monitor.step (Monitor.start etcd 0 nodes pods)).failedWrites = 0) :
    let m := inputs.foldl Monitor.step (Monitor.start etcd 0 nodes pods)
    (∀ n v, m.nodeVals.get n = some v →
        0 ≤ v ∧ v ≤ 1 ∧ m.getKeyValue (nodeKey n) = sprintf v)
      ∧ (∀ t n v, m.podVal t n = some v →
        0 ≤ v ∧ v ≤ 1 ∧ m.getKeyValue (podKey t n) = sprintf v)
      ∧ ∀ (pod : Pod) (candidates : List Name) (i : ℕ) (n : Name), candidates[i]? = some n →
        ∃ score, (rlPriorityFunc m.etcd pod candidates)[i]? = some ⟨n.val, score⟩
          ∧ 0 ≤ score ∧ score ≤ maxPriority
          ∧ ∀ v, m.podVal (getPodtype pod).val n.val = some v →
            score = ⌊sixDecimals v * maxPriority⌋ := by
  intro m
  have hstart : SyncedUnlessFailed (Monitor.start etcd 0 nodes pods) :=
    .start (fun _ p => .inl (hempty p)) hnodes pods
  have hsynced : Synced m := (hstart.run hinputs).synced hwrites
  refine ⟨fun n v hv => ?_, fun t n v hv => ?_, fun pod candidates i n hi => ?_⟩
  · rw [Monitor.getKeyValue_eq]
    exact hsynced.nodeVals n v hv
  · rw [Monitor.getKeyValue_eq]
    exact hsynced.podVals t n v hv
  · -- the text below the directory of the type, if there is one
    generalize hp : keyPath ("/pods/" ++ (getPodtype pod).val) ++ [n.val] = p
    have hvalue : ∃ w, 0 ≤ w ∧ w ≤ 1 ∧ (parseDecimal (api.file m.etcd p)).getD 0 = w := by
      rcases hsynced.files p with hnone | ⟨v, hv0, hv1, hfile⟩
      · exact ⟨0, le_rfl, zero_le_one, by rw [hnone]; decide +kernel⟩
      · obtain ⟨hw0, hw1⟩ := sixDecimals_mem hv0 hv1
        exact ⟨sixDecimals v, hw0, hw1, by rw [hfile, parseDecimal_sprintf hv0, Option.getD_some]⟩
    obtain ⟨w, hw0, hw1, hw⟩ := hvalue
    obtain ⟨hscore, hrange⟩ := rlPriorityFunc_getElem? hw0 hw1 (hp ▸ hw) hi
    refine ⟨_, hscore, hrange.1, hrange.2, fun v hv => ?_⟩
    obtain ⟨ht, hn⟩ := hsynced.podNames _ _ v hv
    obtain ⟨hv0, -, hfile⟩ := hsynced.podVals _ _ v hv
    rw [keyPath_podKey_eq_append ht hn, hp] at hfile
    rw [hfile, parseDecimal_sprintf hv0, Option.getD_some] at hw
    rw [hw]

/-- A pod fails on a node that is listed, and the monitor is started again. -/
def failureAndRestart : List Input :=
  [.event (.pod .modified (deploymentPod nodeOne .failed)),
    .restart (some [nodeOne]) (some [deploymentPod nodeOne .failed])]

theorem scores_follow_memory_restart :
    (rlPriorityFunc (failureAndRestart.foldl Monitor.step oneNodeStart).etcd
        (deploymentPod ⟨"", by decide⟩ .pending) [nodeOne])[0]?
      = some ⟨"node-1", ⌊sixDecimals (9 / 10) * maxPriority⌋⟩ := by
  have hempty : pathStore.Empty ([] : pathStore.State) := fun _ => rfl
  have hname : "node-1" ≠ "" := by decide
  have hbound : ∀ i ∈ failureAndRestart, i.Bound := by
    intro i hi
    simp only [failureAndRestart, List.mem_cons, List.not_mem_nil, or_false] at hi
    rcases hi with rfl | rfl
    · exact Input.bound_event hname
    · intro n hn
      rw [List.mem_singleton.mp hn]
      exact hname
  obtain ⟨-, -, hscores⟩ := scores_follow_memory hempty (some [nodeOne])
    (by decide) (some []) failureAndRestart hbound (by decide +kernel)
  obtain ⟨score, hscore, -, -, hvalue⟩ := hscores (deploymentPod ⟨"", by decide⟩ .pending)
    [nodeOne] 0 nodeOne rfl
  have hnine := hvalue (9 / 10) (by decide +kernel)
  subst hnine
  exact hscore

end KubeSafeScheduler.KubeRL
