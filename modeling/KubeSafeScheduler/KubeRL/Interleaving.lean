import KubeSafeScheduler.KubeRL.Extender

/-!
What a reader of etcd can see while the monitor works, and what a crash leaves.

The extender is a process of its own: it reads a directory of etcd between any
two writes of the monitor. The monitor can die between any two writes as well,
and a new process starts from what etcd holds then.

* `KeysAPI.logged`: the service with the states that it has been in; the program
  of the monitor is run over it, and `moments` are the states of etcd in between.
* `Reachable`: runs of the monitor with crashes at any moment, and writes that
  fail.
* `Bounded`: every text is that of a value between zero and one, at any moment;
  this needs no write to succeed.
* `Untouched`, `Settled`: a key gets the first value, if it has none, and then its
  new value at most once (`settled_watch`, `Untouched.start`).
* `scores_at_every_moment`: what this means for the scores.
-/

namespace KubeSafeScheduler.KubeRL

open Safe (HostPriority maxPriority)

variable {api : KeysAPI}

/-! ### The moments of a step -/

/-- The service with the states that it has been in, the latest first. -/
def KeysAPI.logged (api : KeysAPI) : KeysAPI where
  State := api.State × List api.State
  get s key := api.get s.1 key
  set s key text := (((api.set s.1 key text).1, s.1 :: s.2), (api.set s.1 key text).2)
  file s := api.file s.1
  get_value s := api.get_value s.1
  set_frame s := api.set_frame s.1
  set_ok s := api.set_ok s.1
  get_child s := api.get_child s.1
  get_dir s := api.get_dir s.1

namespace Monitor

/-- The monitor over the service that keeps its states. -/
def logged (m : Monitor api) : Monitor api.logged :=
  ⟨m.nodeNameList, m.nodeVals, m.podVals, (m.etcd, []), m.failedWrites⟩

/-- The monitor without the states that are kept. -/
def forget (m : Monitor api.logged) : Monitor api :=
  ⟨m.nodeNameList, m.nodeVals, m.podVals, m.etcd.1, m.failedWrites⟩

/-- The states that etcd has been in. -/
def seen (m : Monitor api.logged) : List api.State := m.etcd.1 :: m.etcd.2

/-- The states of etcd while the monitor makes a step: before it, after every
write, and after it. -/
def moments (m : Monitor api) (i : Input) : List api.State := (m.logged.step i).seen

/-- A process that has just been started. -/
def fresh (etcd : api.State) : Monitor api := ⟨[], ∅, ∅, etcd, 0⟩

/-! ### The program does not depend on what is kept -/

section Forget

variable (m : Monitor api.logged)

@[simp] lemma forget_logged (m : Monitor api) : m.logged.forget = m := rfl

@[simp] lemma forget_writeKeyValue (key val : String) :
    (m.writeKeyValue key val).forget = m.forget.writeKeyValue key val := rfl

lemma forget_initIfNotExists (key : String) (reward : ℚ) :
    (m.initIfNotExists key reward).1 = (m.forget.initIfNotExists key reward).1
      ∧ (m.initIfNotExists key reward).2.forget = (m.forget.initIfNotExists key reward).2 := by
  have hread : m.forget.getKeyValue key = m.getKeyValue key := rfl
  rw [initIfNotExists, initIfNotExists, hread]
  split_ifs <;> exact ⟨rfl, rfl⟩

@[simp] lemma forget_initNode (n : String) : (m.initNode n).forget = m.forget.initNode n := by
  obtain ⟨hval, hstate⟩ := m.forget_initIfNotExists (nodeKey n) runningReward
  rw [initNode, initNode]
  dsimp only
  rw [← hval, ← hstate]
  rfl

@[simp] lemma forget_initPodNode (t n : String) :
    (m.initPodNode t n).forget = m.forget.initPodNode t n := by
  obtain ⟨hval, hstate⟩ := m.forget_initIfNotExists (podKey t n) runningReward
  rw [initPodNode, initPodNode]
  dsimp only
  rw [← hval, ← hstate]
  rfl

lemma forget_foldl_initPodNode (t : String) (nodes : List String) :
    (nodes.foldl (initPodNode t) m).forget = nodes.foldl (initPodNode t) m.forget := by
  induction nodes generalizing m with
  | nil => rfl
  | cons n nodes ih => rw [List.foldl_cons, ih, forget_initPodNode, List.foldl_cons]

@[simp] lemma forget_initNewPod (t : String) (nodes : List String) :
    (m.initNewPod t nodes).forget = m.forget.initNewPod t nodes := by
  rw [initNewPod, initNewPod, forget_foldl_initPodNode, forget_initPodNode]
  rfl

@[simp] lemma forget_watch (e : WatchEvent) : (m.watch e).forget = m.forget.watch e := by
  have hnode (n : String) : (m.knowNode n).forget = m.forget.knowNode n := by
    rw [knowNode, knowNode]
    split_ifs with hnew hnew' hnew'
    · exact forget_initNode _ n
    · exact absurd hnew hnew'
    · exact absurd hnew' hnew
    · rfl
  have htype (m : Monitor api.logged) (t : String) :
      (m.knowType t).forget = m.forget.knowType t := by
    rw [knowType, knowType]
    split_ifs with hnew hnew' hnew'
    · exact m.forget_initNewPod t m.nodeNameList
    · exact absurd hnew hnew'
    · exact absurd hnew' hnew
    · rfl
  rw [watch, watch]
  cases podUpdate e with
  | none => rfl
  | some u =>
      have hvals (m : Monitor api.logged) (t n : String) (r : ℚ) :
          (m.updatePodVal t n r).forget = m.forget.updatePodVal t n r := rfl
      simp only [updatePodNodeReward]
      rw [hvals, hvals, htype, ← hnode]
      rfl

@[simp] lemma forget_start (s : api.logged.State) (failedWrites : ℕ) (nodes : Option (List Name))
    (pods : Option (List Pod)) :
    (start s failedWrites nodes pods).forget = start s.1 failedWrites nodes pods := by
  have hnodes (m : Monitor api.logged) (names : List String) :
      (names.foldl initNode m).forget = names.foldl initNode m.forget := by
    induction names generalizing m with
    | nil => rfl
    | cons n names ih => rw [List.foldl_cons, ih, forget_initNode, List.foldl_cons]
  have hpods (m : Monitor api.logged) (pods : List Pod) :
      (pods.foldl (fun m pod => m.initNewPod (getPodtype pod).val m.nodeNameList) m).forget
        = pods.foldl (fun m pod => m.initNewPod (getPodtype pod).val m.nodeNameList) m.forget := by
    induction pods generalizing m with
    | nil => rfl
    | cons pod pods ih =>
        rw [List.foldl_cons, ih, forget_initNewPod, List.foldl_cons]
        rfl
  cases nodes with
  | none => rfl
  | some nodes =>
      cases pods with
      | none => exact hnodes _ _
      | some pods =>
          refine (hpods _ _).trans ?_
          rw [hnodes]
          rfl

/-- The program makes the same step, whether or not the states are kept. -/
lemma forget_step (i : Input) : (m.step i).forget = m.forget.step i := by
  cases i with
  | event e => exact m.forget_watch e
  | restart nodes pods => exact forget_start m.etcd m.failedWrites nodes pods

end Forget

/-- The last moment of a step is the state after it. -/
lemma etcd_mem_moments (m : Monitor api) (i : Input) : (m.step i).etcd ∈ m.moments i := by
  rw [← m.forget_logged, ← forget_step]
  exact List.mem_cons_self

end Monitor

/-! ### Every text is that of a value between zero and one -/

/-- Values in memory are between zero and one, and at every moment so far etcd had
no other texts than those of such values. -/
structure Bounded (m : Monitor api.logged) : Prop where
  nodeVals : ∀ n v, m.nodeVals.get n = some v → 0 ≤ v ∧ v ≤ 1
  podVals : ∀ t n v, m.podVal t n = some v → 0 ≤ v ∧ v ≤ 1
  files : ∀ s ∈ m.seen, ∀ p, api.file s p = "" ∨ ∃ v, Rendered s p v

namespace Bounded

variable {m : Monitor api.logged}

/-- A write, whether or not it succeeds. -/
lemma writeKeyValue (h : Bounded m) (key : String) {v : ℚ} (hv : 0 ≤ v ∧ v ≤ 1) :
    Bounded (m.writeKeyValue key (sprintf v)) := by
  refine ⟨h.nodeVals, h.podVals, fun s hs p => ?_⟩
  rcases List.mem_cons.mp hs with rfl | hs
  · rcases api.set_frame m.etcd.1 key (sprintf v) p with hkept | ⟨-, hset⟩
    · rcases h.files _ List.mem_cons_self p with hnone | ⟨w, h0, h1, hw⟩
      · exact .inl (hkept.trans hnone)
      · exact .inr ⟨w, h0, h1, hkept.trans hw⟩
    · exact .inr ⟨v, hv.1, hv.2, hset⟩
  · exact h.files s hs p

lemma initIfNotExists (h : Bounded m) (key : String) :
    Bounded (m.initIfNotExists key runningReward).2
      ∧ 0 ≤ (m.initIfNotExists key runningReward).1
      ∧ (m.initIfNotExists key runningReward).1 ≤ 1 := by
  have hfirst : 0 ≤ runningReward ∧ runningReward ≤ 1 := by norm_num [runningReward]
  rcases m.initIfNotExists_cases key runningReward with ⟨hne, heq⟩ | ⟨-, heq⟩
  · obtain ⟨v, h0, h1, hv⟩ := (h.files _ List.mem_cons_self (keyPath key)).resolve_left hne
    have hread : api.logged.file m.etcd (keyPath key) = sprintf v := hv
    rw [heq, hread, parseDecimal_sprintf h0]
    exact ⟨h, sixDecimals_mem h0 h1⟩
  · rw [heq]
    exact ⟨h.writeKeyValue key hfirst, hfirst⟩

lemma setNodeVal (h : Bounded m) (n : String) {v : ℚ} (hv : 0 ≤ v ∧ v ≤ 1) :
    Bounded (m.setNodeVal n v) := by
  refine ⟨fun x w hx => ?_, h.podVals, h.files⟩
  rw [Monitor.setNodeVal, StringMap.get_insert] at hx
  split_ifs at hx
  · exact Option.some.inj hx ▸ hv
  · exact h.nodeVals x w hx

lemma setPodVal (h : Bounded m) (t n : String) {v : ℚ} (hv : 0 ≤ v ∧ v ≤ 1) :
    Bounded (m.setPodVal t n v) := by
  refine ⟨h.nodeVals, fun t' x w hx => ?_, h.files⟩
  rw [Monitor.podVal_setPodVal] at hx
  split_ifs at hx
  · exact Option.some.inj hx ▸ hv
  · exact h.podVals t' x w hx

lemma initNode (h : Bounded m) (n : String) : Bounded (m.initNode n) :=
  (h.initIfNotExists (nodeKey n)).1.setNodeVal n (h.initIfNotExists (nodeKey n)).2

lemma initPodNode (h : Bounded m) (t n : String) : Bounded (m.initPodNode t n) :=
  (h.initIfNotExists (podKey t n)).1.setPodVal t n (h.initIfNotExists (podKey t n)).2

lemma foldl_initPodNode (h : Bounded m) (t : String) (nodes : List String) :
    Bounded (nodes.foldl (Monitor.initPodNode t) m) := by
  induction nodes generalizing m with
  | nil => exact h
  | cons n nodes ih => exact ih (h.initPodNode t n)

lemma initNewPod (h : Bounded m) (t : String) (nodes : List String) :
    Bounded (m.initNewPod t nodes) := by
  have hcleared : Bounded { m with podVals := m.podVals.insert t ∅ } := by
    refine ⟨h.nodeVals, fun t' n v hv => ?_, h.files⟩
    simp only [Monitor.podVal, StringMap.get_insert] at hv
    split_ifs at hv
    · simp at hv
    · exact h.podVals t' n v hv
  exact (hcleared.initPodNode t "all").foldl_initPodNode t nodes

lemma knowNode (h : Bounded m) (n : String) : Bounded (m.knowNode n) := by
  rcases m.knowNode_cases n with ⟨-, heq⟩ | ⟨-, heq⟩
  · rwa [heq]
  · have hlisted : Bounded { m with nodeNameList := m.nodeNameList ++ [n] } :=
      ⟨h.nodeVals, h.podVals, h.files⟩
    rw [heq]
    exact hlisted.initNode n

lemma knowType (h : Bounded m) (t : String) : Bounded (m.knowType t) := by
  rcases m.knowType_cases t with ⟨-, heq⟩ | ⟨-, heq⟩
  · rwa [heq]
  · rw [heq]
    exact h.initNewPod t m.nodeNameList

/-- A value that is not there counts as zero. -/
lemma getD_mem {o : Option ℚ} (h : ∀ v, o = some v → 0 ≤ v ∧ v ≤ 1) :
    0 ≤ o.getD 0 ∧ o.getD 0 ≤ 1 := by
  cases o with
  | none => simp
  | some v => exact h v rfl

lemma updateNodeVal (h : Bounded m) (n : String) {r : ℚ} (hr : 0 ≤ r ∧ r ≤ 1) :
    Bounded (m.updateNodeVal n r) := by
  have hnew := average_mem (getD_mem (h.nodeVals n)) hr
  rw [Monitor.updateNodeVal_eq]
  exact (h.setNodeVal n hnew).writeKeyValue _ hnew

lemma updatePodVal (h : Bounded m) (t n : String) {r : ℚ} (hr : 0 ≤ r ∧ r ≤ 1) :
    Bounded (m.updatePodVal t n r) := by
  have hnew := average_mem (getD_mem (h.podVals t n)) hr
  rw [Monitor.updatePodVal_eq]
  exact (h.setPodVal t n hnew).writeKeyValue _ hnew

lemma watch (h : Bounded m) (e : WatchEvent) : Bounded (m.watch e) := by
  rw [Monitor.watch]
  cases hu : podUpdate e with
  | none => exact h
  | some u =>
      have hr := (podUpdate_spec hu).2.1
      exact ((((h.knowNode _).updateNodeVal _ hr).knowType _).updatePodVal _ _ hr).updatePodVal _ _
        hr

lemma foldl_initNode (h : Bounded m) (nodes : List String) :
    Bounded (nodes.foldl Monitor.initNode m) := by
  induction nodes generalizing m with
  | nil => exact h
  | cons n nodes ih => exact ih (h.initNode n)

lemma foldl_initNewPod (h : Bounded m) (pods : List Pod) :
    Bounded (pods.foldl (fun m pod => m.initNewPod (getPodtype pod).val m.nodeNameList) m) := by
  induction pods generalizing m with
  | nil => exact h
  | cons pod pods ih => exact ih (h.initNewPod (getPodtype pod).val m.nodeNameList)

/-- A new process on an etcd that has been in states with such texts only. -/
lemma start {s : api.logged.State}
    (h : ∀ s' ∈ s.1 :: s.2, ∀ p, api.file s' p = "" ∨ ∃ v, Rendered s' p v) (failedWrites : ℕ)
    (nodes : Option (List Name)) (pods : Option (List Pod)) :
    Bounded (Monitor.start s failedWrites nodes pods) := by
  have hempty (names : List String) :
      Bounded (⟨names, ∅, ∅, s, failedWrites⟩ : Monitor api.logged) :=
    ⟨by simp, by simp [Monitor.podVal], h⟩
  cases nodes with
  | none => exact hempty []
  | some nodes =>
      cases pods with
      | none => exact (hempty _).foldl_initNode _
      | some pods => exact ((hempty _).foldl_initNode _).foldl_initNewPod pods

lemma step (h : Bounded m) (i : Input) : Bounded (m.step i) := by
  cases i with
  | event e => exact h.watch e
  | restart nodes pods => exact start h.files m.failedWrites nodes pods

end Bounded

/-! ### Every key is written with its new value once -/

section Settling

variable {b : String} {p : List String} {m : Monitor api.logged}

/-- The text at the path is `b`, or the first value where `b` is none. -/
def First (b : String) (p : List String) (s : api.State) : Prop :=
  api.file s p = b ∨ b = "" ∧ api.file s p = sprintf runningReward

/-- The path has not got a new value yet. -/
def Untouched (b : String) (p : List String) (m : Monitor api.logged) : Prop :=
  ∀ s ∈ m.seen, First b p s

/-- At every moment so far the path had no new value yet, or the text that it has
now. -/
def Settled (b : String) (p : List String) (m : Monitor api.logged) : Prop :=
  ∀ s ∈ m.seen, First b p s ∨ api.file s p = api.file m.etcd.1 p

lemma Untouched.settled (h : Untouched b p m) : Settled b p m := fun s hs => .inl (h s hs)

/-- A write to another path. -/
lemma Untouched.writeKeyValue_of_ne (h : Untouched b p m) {key : String} (hp : p ≠ keyPath key)
    (text : String) : Untouched b p (m.writeKeyValue key text) := by
  intro s hs
  rcases List.mem_cons.mp hs with rfl | hs
  · have hkept : api.file (api.set m.etcd.1 key text).1 p = api.file m.etcd.1 p :=
      api.file_set_of_ne hp
    exact (h _ List.mem_cons_self).imp hkept.trans fun hf => ⟨hf.1, hkept.trans hf.2⟩
  · exact h s hs

/-- The write of a new value, whether or not it succeeds. -/
lemma Untouched.writeKeyValue (h : Untouched b p m) (key text : String) :
    Settled b p (m.writeKeyValue key text) := by
  intro s hs
  rcases List.mem_cons.mp hs with rfl | hs
  · exact .inr rfl
  · exact .inl (h s hs)

/-- Other paths are settled for good. -/
lemma Settled.writeKeyValue_of_ne (h : Settled b p m) {key : String} (hp : p ≠ keyPath key)
    (text : String) : Settled b p (m.writeKeyValue key text) := by
  intro s hs
  rcases List.mem_cons.mp hs with rfl | hs
  · exact .inr rfl
  · have hkept : api.file (api.set m.etcd.1 key text).1 p = api.file m.etcd.1 p :=
      api.file_set_of_ne hp
    exact (h s hs).imp_right fun hf => hf.trans hkept.symm

/-- A key without a text gets the first value. -/
lemma Untouched.initIfNotExists (h : Untouched b p m) (key : String) :
    Untouched b p (m.initIfNotExists key runningReward).2 := by
  rcases m.initIfNotExists_cases key runningReward with ⟨-, heq⟩ | ⟨hnone, heq⟩
  · rwa [heq]
  · rw [heq]
    by_cases hp : p = keyPath key
    · intro s hs
      rcases List.mem_cons.mp hs with rfl | hs
      · -- the path had no text, so it had none at the start
        have hread : api.file m.etcd.1 p = "" := hp ▸ hnone
        have hb : b = "" := by
          rcases h _ List.mem_cons_self with hf | hf
          · exact hf.symm.trans hread
          · exact hf.1
        rcases api.set_frame m.etcd.1 key (sprintf runningReward) p with hkept | ⟨-, hset⟩
        · exact .inl ((hkept.trans hread).trans hb.symm)
        · exact .inr ⟨hb, hset⟩
      · exact h s hs
    · exact h.writeKeyValue_of_ne hp _

lemma Settled.initIfNotExists_of_ne (h : Settled b p m) {key : String} (hp : p ≠ keyPath key) :
    Settled b p (m.initIfNotExists key runningReward).2 := by
  rcases m.initIfNotExists_cases key runningReward with ⟨-, heq⟩ | ⟨-, heq⟩
  · rwa [heq]
  · rw [heq]
    exact h.writeKeyValue_of_ne hp _

lemma Untouched.initPodNode (h : Untouched b p m) (t n : String) :
    Untouched b p (m.initPodNode t n) := h.initIfNotExists (podKey t n)

lemma Settled.initPodNode_of_ne (h : Settled b p m) {t n : String}
    (hp : p ≠ keyPath (podKey t n)) : Settled b p (m.initPodNode t n) :=
  h.initIfNotExists_of_ne hp

lemma Untouched.foldl_initPodNode (h : Untouched b p m) (t : String) (nodes : List String) :
    Untouched b p (nodes.foldl (Monitor.initPodNode t) m) := by
  induction nodes generalizing m with
  | nil => exact h
  | cons n nodes ih => exact ih (h.initPodNode t n)

lemma Untouched.initNewPod (h : Untouched b p m) (t : String) (nodes : List String) :
    Untouched b p (m.initNewPod t nodes) := by
  have hcleared : Untouched b p { m with podVals := m.podVals.insert t ∅ } := h
  exact (hcleared.initPodNode t "all").foldl_initPodNode t nodes

lemma Settled.foldl_initPodNode (h : Settled b p m) (t : String) {nodes : List String}
    (hp : ∀ n ∈ nodes, p ≠ keyPath (podKey t n)) :
    Settled b p (nodes.foldl (Monitor.initPodNode t) m) := by
  induction nodes generalizing m with
  | nil => exact h
  | cons n nodes ih =>
      exact ih (h.initPodNode_of_ne (hp n List.mem_cons_self)) fun x hx =>
        hp x (List.mem_cons_of_mem n hx)

lemma Untouched.knowNode (h : Untouched b p m) (n : String) : Untouched b p (m.knowNode n) := by
  rcases m.knowNode_cases n with ⟨-, heq⟩ | ⟨-, heq⟩
  · rwa [heq]
  · have hlisted : Untouched b p { m with nodeNameList := m.nodeNameList ++ [n] } := h
    rw [heq]
    exact hlisted.initIfNotExists (nodeKey n)

lemma Untouched.knowType (h : Untouched b p m) (t : String) : Untouched b p (m.knowType t) := by
  rcases m.knowType_cases t with ⟨-, heq⟩ | ⟨-, heq⟩
  · rwa [heq]
  · rw [heq]
    exact h.initNewPod t m.nodeNameList

lemma Settled.knowType (h : Settled b p m) (t : String) (hall : p ≠ keyPath (podKey t "all"))
    (hp : ∀ n ∈ m.nodeNameList, p ≠ keyPath (podKey t n)) : Settled b p (m.knowType t) := by
  rcases m.knowType_cases t with ⟨-, heq⟩ | ⟨-, heq⟩
  · rwa [heq]
  · have hcleared : Settled b p { m with podVals := m.podVals.insert t ∅ } := h
    rw [heq]
    exact (hcleared.initPodNode_of_ne hall).foldl_initPodNode t hp

lemma Untouched.updateNodeVal (h : Untouched b p m) (n : String) (r : ℚ) :
    Settled b p (m.updateNodeVal n r) := by
  rw [Monitor.updateNodeVal_eq]
  exact Untouched.writeKeyValue (m := m.setNodeVal n _) h _ _

lemma Untouched.updateNodeVal_of_ne (h : Untouched b p m) {n : String}
    (hp : p ≠ keyPath (nodeKey n)) (r : ℚ) : Untouched b p (m.updateNodeVal n r) := by
  rw [Monitor.updateNodeVal_eq]
  exact Untouched.writeKeyValue_of_ne (m := m.setNodeVal n _) h hp _

lemma Untouched.updatePodVal (h : Untouched b p m) (t n : String) (r : ℚ) :
    Settled b p (m.updatePodVal t n r) := by
  rw [Monitor.updatePodVal_eq]
  exact Untouched.writeKeyValue (m := m.setPodVal t n _) h _ _

lemma Untouched.updatePodVal_of_ne (h : Untouched b p m) {t n : String}
    (hp : p ≠ keyPath (podKey t n)) (r : ℚ) : Untouched b p (m.updatePodVal t n r) := by
  rw [Monitor.updatePodVal_eq]
  exact Untouched.writeKeyValue_of_ne (m := m.setPodVal t n _) h hp _

lemma Settled.updatePodVal_of_ne (h : Settled b p m) {t n : String}
    (hp : p ≠ keyPath (podKey t n)) (r : ℚ) : Settled b p (m.updatePodVal t n r) := by
  rw [Monitor.updatePodVal_eq]
  exact Settled.writeKeyValue_of_ne (m := m.setPodVal t n _) h hp _

/-- The nodes that are known after the first branch of `update_pod_node_reward`. -/
lemma mem_nodeNameList_knowNode {n x : String} (hx : x ∈ (m.knowNode n).nodeNameList) :
    x ∈ m.nodeNameList ∨ x = n := by
  rcases m.knowNode_cases n with ⟨-, heq⟩ | ⟨-, heq⟩
  · exact .inl (heq ▸ hx)
  · have hlist := (Monitor.initIfNotExists_frame
      { m with nodeNameList := m.nodeNameList ++ [n] } (nodeKey n) runningReward).1
    rw [heq] at hx
    rcases List.mem_append.mp (hlist ▸ hx) with hx | hx
    · exact .inl hx
    · exact .inr (List.mem_singleton.mp hx)

/-- An event writes new values to three keys, each once, unless the node has the
name of the entry for all nodes. -/
lemma settled_watch (h : Untouched b p m) (hnames : ∀ x ∈ m.nodeNameList, NoSlash x)
    {e : WatchEvent} (he : ∀ u, podUpdate e = some u → IsNodeName u.nodename.val
      ∧ u.nodename.val ≠ "all") : Settled b p (m.watch e) := by
  rw [Monitor.watch]
  cases hu : podUpdate e with
  | none => exact h.settled
  | some u =>
      obtain ⟨hn, hall⟩ := he u hu
      have ht := u.podtype.property
      have hknown := h.knowNode u.nodename.val
      by_cases hnode : p = keyPath (nodeKey u.nodename.val)
      · -- the key of the node is written first, and the others are keys of the type
        have hne : ∀ x, NoSlash x → p ≠ keyPath (podKey u.podtype.val x) := fun x hx =>
          hnode ▸ keyPath_nodeKey_ne_podKey ht hx hn.1
        have hwritten := (hknown.updateNodeVal u.nodename.val u.reward).knowType u.podtype.val
          (hne "all" (by decide)) fun x hx => hne x <| by
            rcases mem_nodeNameList_knowNode hx with hx | rfl
            · exact hnames x hx
            · exact hn.1
        exact (hwritten.updatePodVal_of_ne (hne _ hn.1) u.reward).updatePodVal_of_ne
          (hne "all" (by decide)) u.reward
      · have hother := (hknown.updateNodeVal_of_ne hnode u.reward).knowType u.podtype.val
        by_cases hpod : p = keyPath (podKey u.podtype.val u.nodename.val)
        · have hne : p ≠ keyPath (podKey u.podtype.val "all") := by
            rw [hpod, Ne, keyPath_podKey_inj ht ht hn (by decide)]
            exact fun hc => hall hc.2
          exact (hother.updatePodVal _ _ u.reward).updatePodVal_of_ne hne u.reward
        · exact (hother.updatePodVal_of_ne hpod u.reward).updatePodVal _ _ u.reward

/-- A start writes first values only. -/
lemma Untouched.start {s : api.logged.State} (h : ∀ s' ∈ s.1 :: s.2, First b p s')
    (failedWrites : ℕ) (nodes : Option (List Name)) (pods : Option (List Pod)) :
    Untouched b p (Monitor.start s failedWrites nodes pods) := by
  have hnodes (m : Monitor api.logged) (hm : Untouched b p m) (names : List String) :
      Untouched b p (names.foldl Monitor.initNode m) := by
    induction names generalizing m with
    | nil => exact hm
    | cons n names ih => exact ih _ (hm.initIfNotExists (nodeKey n))
  have hpods (m : Monitor api.logged) (hm : Untouched b p m) (pods : List Pod) :
      Untouched b p
        (pods.foldl (fun m pod => m.initNewPod (getPodtype pod).val m.nodeNameList) m) := by
    induction pods generalizing m with
    | nil => exact hm
    | cons pod pods ih => exact ih _ (hm.initNewPod (getPodtype pod).val m.nodeNameList)
  have hempty (names : List String) :
      Untouched b p (⟨names, ∅, ∅, s, failedWrites⟩ : Monitor api.logged) := h
  cases nodes with
  | none => exact hempty []
  | some nodes =>
      cases pods with
      | none => exact hnodes _ (hempty _) _
      | some pods => exact hpods _ (hnodes _ (hempty _) _) pods

end Settling

/-- The events are on nodes that do not have the name of the entry for all
nodes. -/
def Input.SparesAll : Input → Prop
  | .event (.pod _ pod) => pod.nodeName.val ≠ "all"
  | .event .other => True
  | .restart _ _ => True

/-- At every moment of a step a text is that before the step or that after it, or
the first value where there was none. -/
lemma file_of_mem_moments {m : Monitor api} (hnames : ∀ x ∈ m.nodeNameList, NoSlash x) {i : Input}
    (hbound : i.Bound) (hall : i.SparesAll) {s : api.State} (hs : s ∈ m.moments i)
    (p : List String) : api.file s p = api.file m.etcd p
      ∨ api.file s p = api.file (m.step i).etcd p
      ∨ api.file m.etcd p = "" ∧ api.file s p = sprintf runningReward := by
  have hbefore : Untouched (api.file m.etcd p) p m.logged := by
    intro s' hs'
    rw [List.mem_singleton.mp hs']
    exact .inl rfl
  have hsettled : Settled (api.file m.etcd p) p (m.logged.step i) := by
    cases i with
    | restart nodes pods => exact (Untouched.start hbefore _ nodes pods).settled
    | event e =>
        refine settled_watch hbefore hnames fun u hu => ?_
        obtain ⟨-, -, type, pod, rfl, hnode⟩ := podUpdate_spec hu
        exact ⟨⟨u.nodename.property, hbound u hu⟩, by rw [hnode]; exact hall⟩
  have hlast : (m.logged.step i).etcd.1 = (m.step i).etcd :=
    congrArg Monitor.etcd (m.logged.forget_step i)
  rw [← hlast]
  rcases hsettled s hs with (hf | hf) | hf
  · exact .inl hf
  · exact .inr (.inr hf)
  · exact .inr (.inl hf)

/-! ### Runs with crashes -/

/-- The states of the monitor in its runs: a process makes steps, some of whose
writes may fail, and may die at any moment of a step, after which there is a new
process. -/
inductive Reachable (etcd : api.State) : Monitor api → Prop
  | fresh : Reachable etcd (Monitor.fresh etcd)
  | step {m : Monitor api} {i : Input} (h : Reachable etcd m) (hi : i.Bound) :
      Reachable etcd (m.step i)
  | crash {m : Monitor api} {i : Input} {s : api.State} (h : Reachable etcd m) (hi : i.Bound)
      (hs : s ∈ m.moments i) : Reachable etcd (Monitor.fresh s)

/-- An etcd with no other texts than those of values between zero and one. -/
def AllRendered (s : api.State) : Prop := ∀ p, api.file s p = "" ∨ ∃ v, Rendered s p v

lemma AllRendered.fresh {s : api.State} (h : AllRendered s) :
    Bounded (Monitor.fresh s).logged ∧ SyncedUnlessFailed (Monitor.fresh s) := by
  refine ⟨⟨by simp [Monitor.logged, Monitor.fresh], by simp [Monitor.logged, Monitor.fresh,
    Monitor.podVal], fun s' hs' => ?_⟩, ?_⟩
  · rw [List.mem_singleton.mp hs']
    exact h
  · have hnodes : ∀ n ∈ (none : Option (List Name)).getD [], n.val ≠ "" := by simp
    exact SyncedUnlessFailed.start (fun _ => h) hnodes none

/-- Whatever fails and whenever the monitor dies, values are between zero and one;
and memory and etcd agree as long as no write of the process has failed. -/
lemma Reachable.sound {etcd : api.State} (hempty : api.Empty etcd) {m : Monitor api}
    (h : Reachable etcd m) : Bounded m.logged ∧ SyncedUnlessFailed m := by
  induction h with
  | fresh => exact AllRendered.fresh fun p => .inl (hempty p)
  | @step m i _ hi ih =>
      have hbounded := ih.1.step i
      have hforget : (m.logged.step i).forget = m.step i := m.logged.forget_step i
      refine ⟨?_, ih.2.step hi⟩
      rw [← hforget]
      refine ⟨hbounded.nodeVals, hbounded.podVals, fun s hs => hbounded.files s ?_⟩
      exact List.mem_singleton.mp hs ▸ List.mem_cons_self
  | @crash m i s _ hi hs ih => exact AllRendered.fresh ((ih.1.step i).files s hs)

/-! ### Scores -/

/-- The score that the extender makes of a text. -/
def textScore (text : String) : ℤ := ⌊(parseDecimal text).getD 0 * maxPriority⌋

/-- The text that counts for a pod on a node. -/
def scorePath (pod : Pod) (n : Name) : List String :=
  keyPath ("/pods/" ++ (getPodtype pod).val) ++ [n.val]

lemma AllRendered.score {s : api.State} (h : AllRendered s) (pod : Pod) {n : Name}
    {candidates : List Name} {j : ℕ} (hj : candidates[j]? = some n) :
    (rlPriorityFunc s pod candidates)[j]?
        = some ⟨n.val, textScore (api.file s (scorePath pod n))⟩
      ∧ 0 ≤ textScore (api.file s (scorePath pod n))
      ∧ textScore (api.file s (scorePath pod n)) ≤ maxPriority := by
  have hvalue : 0 ≤ (parseDecimal (api.file s (scorePath pod n))).getD 0
      ∧ (parseDecimal (api.file s (scorePath pod n))).getD 0 ≤ 1 := by
    rcases h (scorePath pod n) with hnone | ⟨v, h0, h1, hv⟩
    · rw [hnone]
      decide +kernel
    · rw [hv, parseDecimal_sprintf h0]
      exact sixDecimals_mem h0 h1
  exact rlPriorityFunc_getElem? hvalue.1 hvalue.2 rfl hj

/-- The monitor has been started on an etcd that was empty; writes may fail, and it
may die between any two writes and be started again. At every moment of its next
step the scores of the extender are between zero and the largest priority. Each
is the score before the step, that after it, or the largest priority of a first
value where there was no value, unless an event is on a node with the name of the
entry for all nodes; and as long as no write of the process has failed, the
scores before a step are those of the values in memory. -/
theorem scores_at_every_moment {etcd : api.State} (hempty : api.Empty etcd) {m : Monitor api}
    (hm : Reachable etcd m) {i : Input} (hi : i.Bound) {s : api.State} (hs : s ∈ m.moments i)
    (pod : Pod) (candidates : List Name) (j : ℕ) (n : Name) (hj : candidates[j]? = some n) :
    ∃ score before after, (rlPriorityFunc s pod candidates)[j]? = some ⟨n.val, score⟩
      ∧ (rlPriorityFunc m.etcd pod candidates)[j]? = some ⟨n.val, before⟩
      ∧ (rlPriorityFunc (m.step i).etcd pod candidates)[j]? = some ⟨n.val, after⟩
      ∧ 0 ≤ score ∧ score ≤ maxPriority
      ∧ (i.SparesAll → score = before ∨ score = after ∨ before = 0 ∧ score = maxPriority)
      ∧ (m.failedWrites = 0 → ∀ v, m.podVal (getPodtype pod).val n.val = some v →
          before = ⌊sixDecimals v * maxPriority⌋) := by
  obtain ⟨hbounded, hsynced⟩ := hm.sound hempty
  have hrendered : AllRendered s := (hbounded.step i).files s hs
  have hbefore : AllRendered m.etcd := hbounded.files _ List.mem_cons_self
  have hafter : AllRendered (m.step i).etcd :=
    (hbounded.step i).files _ (m.etcd_mem_moments i)
  refine ⟨_, _, _, (hrendered.score pod hj).1, (hbefore.score pod hj).1, (hafter.score pod hj).1,
    (hrendered.score pod hj).2.1, (hrendered.score pod hj).2.2, fun hall => ?_, fun hok v hv => ?_⟩
  · rcases file_of_mem_moments (fun x hx => (hsynced.names x hx).1) hi hall hs (scorePath pod n)
      with hf | hf | ⟨hnone, hf⟩
    · exact .inl (congrArg textScore hf)
    · exact .inr (.inl (congrArg textScore hf))
    · refine .inr (.inr ⟨?_, ?_⟩)
      · rw [hnone]
        decide +kernel
      · rw [hf]
        decide +kernel
  · obtain ⟨ht, hn⟩ := (hsynced.synced hok).podNames _ _ v hv
    obtain ⟨h0, -, hfile⟩ := (hsynced.synced hok).podVals _ _ v hv
    rw [keyPath_podKey_eq_append ht hn] at hfile
    have htext : api.file m.etcd (scorePath pod n) = sprintf v := hfile
    rw [htext, textScore, parseDecimal_sprintf h0, Option.getD_some]

/-- A pod fails on the first node. -/
def failure : Input := .event (.pod .modified (deploymentPod nodeOne .failed))

/-- The moment before the last `k` writes of a step. -/
def Monitor.moment (m : Monitor api) (i : Input) (k : ℕ) : api.State :=
  (m.moments i).getD k (m.step i).etcd

lemma Monitor.moment_mem (m : Monitor api) (i : Input) (k : ℕ) : m.moment i k ∈ m.moments i := by
  rw [moment, List.getD_eq_getElem?_getD, List.getD_getElem?]
  split_ifs with hk
  · exact List.getElem_mem hk
  · exact m.etcd_mem_moments i

/-- A process for the first node that has died before its last write for a failure,
and has been started again. -/
def afterCrash : Monitor pathStore :=
  (Monitor.fresh (oneNodeStart.moment failure 1)).step (.restart (some [nodeOne]) (some []))

/-- The pod fails once more: the score is that of one failure until the new value is
written. -/
theorem scores_at_every_moment_crash :
    ∃ score after, (rlPriorityFunc (afterCrash.moment failure 2) (deploymentPod nodeOne .pending)
        [nodeOne])[0]? = some ⟨"node-1", score⟩
      ∧ (rlPriorityFunc (afterCrash.step failure).etcd (deploymentPod nodeOne .pending)
        [nodeOne])[0]? = some ⟨"node-1", after⟩
      ∧ (score = 9 ∨ score = after) := by
  have hname : nodeOne.val ≠ "" := by decide
  have hempty : pathStore.Empty ([] : pathStore.State) := fun _ => rfl
  have hbound : (Input.restart (some [nodeOne]) (some [])).Bound := by
    intro n hn
    rw [List.mem_singleton.mp hn]
    exact hname
  have hstart : Reachable ([] : pathStore.State) oneNodeStart := Reachable.fresh.step hbound
  have hcrash : Reachable ([] : pathStore.State) afterCrash :=
    (Reachable.crash hstart (i := failure) (Input.bound_event hname)
      (oneNodeStart.moment_mem failure 1)).step hbound
  obtain ⟨score, before, after, h1, h2, h3, -, -, h4, -⟩ := scores_at_every_moment hempty hcrash
    (i := failure) (Input.bound_event hname) (afterCrash.moment_mem failure 2)
    (deploymentPod nodeOne .pending) [nodeOne] 0 nodeOne rfl
  have hscore : (rlPriorityFunc afterCrash.etcd (deploymentPod nodeOne .pending) [nodeOne])[0]?
      = some ⟨"node-1", 9⟩ := by decide +kernel
  have hbefore : before = 9 :=
    congrArg HostPriority.score (Option.some.inj (h2.symm.trans hscore))
  subst hbefore
  refine ⟨score, after, h1, h3, ?_⟩
  rcases h4 (by decide : nodeOne.val ≠ "all") with h | h | h
  · exact .inl h
  · exact .inr h
  · exact absurd h.1 (by decide)

end KubeSafeScheduler.KubeRL
