import KubeSafeScheduler.KubeRL.Etcd
import KubeSafeScheduler.Lib.DecimalText
import KubeSafeScheduler.Lib.StringMap

/-!
`kubeRL/rl-monitor/main.go`: rewards for nodes and for pairs of a pod type and a
node, kept in memory and in etcd.

Numbers of type `float64` are read exactly. Names of Kubernetes objects and the
values of labels have no slashes. Writing to etcd may fail, and then only the log
says so; a counter stands for it.

* `getPodtype`, `getContainerRestartingReward`, `podUpdate`: the update that an
  event asks for.
* `Monitor.initIfNotExists`, `initNewPod`, `initRewards`, `updatePodNodeReward`:
  the operations on the tables.
* `Monitor.start`, `restart`, `watch`: runs of the program.
-/

namespace KubeSafeScheduler.KubeRL

/-! ### Kubernetes objects -/

/-- A name of a Kubernetes object or the value of a label. -/
abbrev Name : Type := { x : String // NoSlash x }

/-- The time of a termination, in seconds. -/
abbrev Seconds := ℤ

/-- `v1.ContainerStatus`: whether the container runs, when it was started if it
has terminated, and when it finished before. -/
structure ContainerStatus where
  running : Bool
  terminated : Option Seconds
  lastTerminated : Option Seconds

/-- `v1.PodPhase`. -/
inductive PodPhase where
  | pending
  | running
  | succeeded
  | failed
  | unknown
  | unset
  deriving DecidableEq

/-- `v1.Pod`: what the monitor reads of it. -/
structure Pod where
  name : Name
  labels : StringMap Name
  nodeName : Name
  phase : PodPhase
  containerStatuses : List ContainerStatus

/-- `watch.EventType`. -/
inductive EventType where
  | added
  | modified
  | deleted
  | bookmark
  | error
  deriving DecidableEq

/-- `watch.Event`: its object is a pod or something else. -/
inductive WatchEvent where
  | pod (type : EventType) (pod : Pod)
  | other

/-- `get_podtype`: the label `podtype`, `app` or `name`, else the name. -/
def getPodtype (pod : Pod) : Name :=
  match pod.labels.get "podtype" with
  | some podtype => podtype
  | none =>
      match pod.labels.get "app" with
      | some podtype => podtype
      | none =>
          match pod.labels.get "name" with
          | some podtype => podtype
          | none => pod.name

/-! ### Rewards -/

def weight : ℚ := 1 / 10

def runningReward : ℚ := 1

def unseenReward : ℚ := 1 / 2

def failedReward : ℚ := 0

/-- `MTTF`. -/
def mttf : ℤ := 600

/-- `Time.Second`: the second within the minute. -/
def second (t : Seconds) : ℤ := t % 60

/-- One round of the loop of `get_container_restarting_reward`. -/
def containerRound (acc : Bool × ℚ) (cst : ContainerStatus) : Bool × ℚ :=
  if cst.running && cst.lastTerminated.isNone then acc
  else
    match cst.terminated with
    | some startedAt =>
        match cst.lastTerminated with
        | some finishedAt =>
            if mttf < second startedAt - second finishedAt then (true, unseenReward)
            else (true, failedReward)
        | none => (true, unseenReward)
    | none => (false, acc.2)

/-- `get_container_restarting_reward`. -/
def getContainerRestartingReward (pod : Pod) : Bool × ℚ :=
  pod.containerStatuses.foldl containerRound (true, runningReward)

/-- The arguments of a call of `update_pod_node_reward`. -/
structure Update where
  podtype : Name
  nodename : Name
  reward : ℚ

/-- The call that `watch_pod_rewards` makes for an event. -/
def podUpdate : WatchEvent → Option Update
  | .other => none
  | .pod type pod =>
      if (getPodtype pod).val ≠ "" ∧ type ≠ .deleted then
        match pod.phase with
        | .failed => some ⟨getPodtype pod, pod.nodeName, failedReward⟩
        | .running =>
            let (updates, containerRestartReward) := getContainerRestartingReward pod
            if updates then some ⟨getPodtype pod, pod.nodeName, containerRestartReward⟩ else none
        | .unknown => some ⟨getPodtype pod, pod.nodeName, failedReward⟩
        | .succeeded | .pending | .unset => none
      else none

/-- Every reward of a container is between zero and one. -/
lemma containerRound_mem {acc : Bool × ℚ} (h : 0 ≤ acc.2 ∧ acc.2 ≤ 1) (cst : ContainerStatus) :
    0 ≤ (containerRound acc cst).2 ∧ (containerRound acc cst).2 ≤ 1 := by
  unfold containerRound
  split_ifs
  · exact h
  · split
    · split
      · split_ifs <;> norm_num [unseenReward, failedReward]
      · norm_num [unseenReward]
    · exact h

lemma getContainerRestartingReward_mem (pod : Pod) :
    0 ≤ (getContainerRestartingReward pod).2 ∧ (getContainerRestartingReward pod).2 ≤ 1 := by
  unfold getContainerRestartingReward
  generalize hacc : (true, runningReward) = acc
  have h : 0 ≤ acc.2 ∧ acc.2 ≤ 1 := by
    rw [← hacc]
    norm_num [runningReward]
  clear hacc
  induction pod.containerStatuses generalizing acc with
  | nil => exact h
  | cons cst csts ih => exact ih _ (containerRound_mem h cst)

/-- An update is for a type with a name, with a reward between zero and one, on
the node of the pod. -/
lemma podUpdate_spec {e : WatchEvent} {u : Update} (h : podUpdate e = some u) :
    u.podtype.val ≠ "" ∧ (0 ≤ u.reward ∧ u.reward ≤ 1)
      ∧ ∃ type pod, e = .pod type pod ∧ u.nodename = pod.nodeName := by
  cases e with
  | other => cases h
  | pod type pod =>
      have hreward := getContainerRestartingReward_mem pod
      have hfailed : 0 ≤ failedReward ∧ failedReward ≤ 1 := by norm_num [failedReward]
      rw [podUpdate] at h
      by_cases htype : (getPodtype pod).val ≠ "" ∧ type ≠ .deleted
      · rw [if_pos htype] at h
        cases hphase : pod.phase with
        | failed =>
            rw [hphase] at h
            cases h
            exact ⟨htype.1, hfailed, type, pod, rfl, rfl⟩
        | unknown =>
            rw [hphase] at h
            cases h
            exact ⟨htype.1, hfailed, type, pod, rfl, rfl⟩
        | running =>
            rw [hphase] at h
            dsimp only at h
            split_ifs at h
            cases h
            exact ⟨htype.1, hreward, type, pod, rfl, rfl⟩
        | succeeded | pending | unset =>
            rw [hphase] at h
            cases h
      · rw [if_neg htype] at h
        cases h

/-! ### The tables -/

/-- `fmt.Sprintf("%f", val)`. -/
def sprintf (val : ℚ) : String :=
  (if val < 0 then "-" else "") ++ formatFixed 6 (roundHalfEven (|val| * 10 ^ 6)).toNat

/-- The key of the reward of a node. -/
def nodeKey (nodename : String) : String := "/nodes/" ++ nodename

/-- The key of the reward of a type on a node. -/
def podKey (podtype nodename : String) : String := "/pods/" ++ podtype ++ "/" ++ nodename

lemma keyPath_slash_slash {x y : String} (hx : NoSlash x) (hy : NoSlash y) :
    keyPath ("/" ++ x ++ "/" ++ y) = segment x ++ segment y := by
  have hassoc : "/" ++ x ++ "/" ++ y = "" ++ "/" ++ (x ++ "/" ++ y) := by
    simp [String.append_assoc]
  rw [hassoc, keyPath_slash (by decide), keyPath_slash hx, keyPath_of_noSlash hy, segment_empty,
    List.nil_append]

lemma keyPath_nodeKey {nodename : String} (h : NoSlash nodename) :
    keyPath (nodeKey nodename) = "nodes" :: segment nodename :=
  keyPath_slash_slash (x := "nodes") (by decide) h

lemma keyPath_podKey {podtype nodename : String} (ht : NoSlash podtype) (hn : NoSlash nodename) :
    keyPath (podKey podtype nodename) = "pods" :: (segment podtype ++ segment nodename) := by
  have hassoc : podKey podtype nodename
      = "" ++ "/" ++ ("pods" ++ "/" ++ (podtype ++ "/" ++ nodename)) := by
    simp [podKey, ← String.append_assoc]
  rw [hassoc, keyPath_slash (by decide), keyPath_slash (by decide), keyPath_slash ht,
    keyPath_of_noSlash hn]
  rfl

/-- The state of the program: its tables, and etcd with the number of writes that
have failed. -/
structure Monitor (api : KeysAPI) where
  nodeNameList : List String
  nodeVals : StringMap ℚ
  podVals : StringMap (StringMap ℚ)
  etcd : api.State
  failedWrites : ℕ

namespace Monitor

variable {api : KeysAPI}

/-- `get_key_value`: the empty text when there is an error. -/
def getKeyValue (m : Monitor api) (key : String) : String :=
  match api.get m.etcd key with
  | none => ""
  | some node => node.value

/-- `write_key_value`. -/
def writeKeyValue (m : Monitor api) (key val : String) : Monitor api :=
  let (etcd, ok) := api.set m.etcd key val
  { m with etcd := etcd, failedWrites := if ok then m.failedWrites else m.failedWrites + 1 }

/-- `init_if_not_exists`. -/
def initIfNotExists (m : Monitor api) (key : String) (reward : ℚ) : ℚ × Monitor api :=
  let etcdVal := m.getKeyValue key
  if etcdVal ≠ "" then ((parseDecimal etcdVal).getD 0, m)
  else (reward, m.writeKeyValue key (sprintf reward))

/-- `node_vals[nodename] = val`. -/
def setNodeVal (m : Monitor api) (nodename : String) (val : ℚ) : Monitor api :=
  { m with nodeVals := m.nodeVals.insert nodename val }

/-- `pod_vals[podtype][nodename]`, if there. -/
def podVal (m : Monitor api) (podtype nodename : String) : Option ℚ :=
  (m.podVals.get podtype).bind (·.get nodename)

/-- `pod_vals[podtype][nodename] = val`. -/
def setPodVal (m : Monitor api) (podtype nodename : String) (val : ℚ) : Monitor api :=
  { m with podVals :=
      m.podVals.insert podtype (((m.podVals.get podtype).getD ∅).insert nodename val) }

/-- `node_vals[nodename] = init_if_not_exists(...)`. -/
def initNode (m : Monitor api) (nodename : String) : Monitor api :=
  let (val, m) := m.initIfNotExists (nodeKey nodename) runningReward
  m.setNodeVal nodename val

/-- `pod_vals[podtype][nodename] = init_if_not_exists(...)`. -/
def initPodNode (podtype : String) (m : Monitor api) (nodename : String) : Monitor api :=
  let (val, m) := m.initIfNotExists (podKey podtype nodename) runningReward
  m.setPodVal podtype nodename val

/-- `init_new_pod`. -/
def initNewPod (m : Monitor api) (podtype : String) (nodeNameList : List String) : Monitor api :=
  let m := { m with podVals := m.podVals.insert podtype ∅ }
  let m := m.initPodNode podtype "all"
  nodeNameList.foldl (initPodNode podtype) m

/-- `init_rewards`, on the nodes and the pods that are listed; a list that could
not be had ends it. -/
def initRewards (m : Monitor api) (nodes : Option (List Name)) (pods : Option (List Pod)) :
    Monitor api :=
  match nodes with
  | none => m
  | some nodes =>
      let m := { m with nodeNameList := nodes.map Subtype.val }
      let m := (nodes.map Subtype.val).foldl initNode m
      match pods with
      | none => m
      | some pods => pods.foldl (fun m pod => m.initNewPod (getPodtype pod).val m.nodeNameList) m

/-- One step of the average. -/
def average (val reward : ℚ) : ℚ := (1 - weight) * val + weight * reward

/-- The first branch of `update_pod_node_reward`: a node that is not known. -/
def knowNode (m : Monitor api) (nodename : String) : Monitor api :=
  if (m.nodeVals.get nodename).isNone then
    { m with nodeNameList := m.nodeNameList ++ [nodename] }.initNode nodename
  else m

/-- The second branch of `update_pod_node_reward`: a type that is not known. -/
def knowType (m : Monitor api) (podtype : String) : Monitor api :=
  if (m.podVals.get podtype).isNone then m.initNewPod podtype m.nodeNameList else m

/-- A new value of a node, in memory and in etcd. -/
def updateNodeVal (m : Monitor api) (nodename : String) (reward : ℚ) : Monitor api :=
  let m := m.setNodeVal nodename (average ((m.nodeVals.get nodename).getD 0) reward)
  m.writeKeyValue (nodeKey nodename) (sprintf ((m.nodeVals.get nodename).getD 0))

/-- A new value of a type on a node, in memory and in etcd; a value that is not
there counts as zero. -/
def updatePodVal (m : Monitor api) (podtype nodename : String) (reward : ℚ) : Monitor api :=
  let m := m.setPodVal podtype nodename (average ((m.podVal podtype nodename).getD 0) reward)
  m.writeKeyValue (podKey podtype nodename) (sprintf ((m.podVal podtype nodename).getD 0))

/-- `update_pod_node_reward`. -/
def updatePodNodeReward (m : Monitor api) (podtype nodename : String) (reward : ℚ) :
    Monitor api :=
  let m := m.knowNode nodename
  let m := m.updateNodeVal nodename reward
  let m := m.knowType podtype
  let m := m.updatePodVal podtype nodename reward
  m.updatePodVal podtype "all" reward

/-! ### Runs -/

/-- `init_rewards` on tables that are empty. -/
def start (etcd : api.State) (failedWrites : ℕ) (nodes : Option (List Name))
    (pods : Option (List Pod)) : Monitor api :=
  initRewards ⟨[], ∅, ∅, etcd, failedWrites⟩ nodes pods

/-- A new process on the same etcd. -/
def restart (m : Monitor api) (nodes : Option (List Name)) (pods : Option (List Pod)) :
    Monitor api :=
  start m.etcd m.failedWrites nodes pods

/-- One round of the loop of `watch_pod_rewards`. -/
def watch (m : Monitor api) (e : WatchEvent) : Monitor api :=
  match podUpdate e with
  | none => m
  | some u => m.updatePodNodeReward u.podtype.val u.nodename.val u.reward

/-! ### Reading the tables -/

lemma getKeyValue_eq (m : Monitor api) (key : String) :
    m.getKeyValue key = api.file m.etcd (keyPath key) := by
  rw [← api.get_value, getKeyValue]
  cases api.get m.etcd key <;> rfl

@[simp] lemma writeKeyValue_nodeNameList (m : Monitor api) (key val : String) :
    (m.writeKeyValue key val).nodeNameList = m.nodeNameList := rfl

@[simp] lemma writeKeyValue_nodeVals (m : Monitor api) (key val : String) :
    (m.writeKeyValue key val).nodeVals = m.nodeVals := rfl

@[simp] lemma writeKeyValue_podVals (m : Monitor api) (key val : String) :
    (m.writeKeyValue key val).podVals = m.podVals := rfl

/-- What `init_if_not_exists` does: it reads the text of the key, or writes that
of the reward. -/
lemma initIfNotExists_cases (m : Monitor api) (key : String) (reward : ℚ) :
    api.file m.etcd (keyPath key) ≠ ""
        ∧ m.initIfNotExists key reward
          = ((parseDecimal (api.file m.etcd (keyPath key))).getD 0, m)
      ∨ api.file m.etcd (keyPath key) = ""
        ∧ m.initIfNotExists key reward = (reward, m.writeKeyValue key (sprintf reward)) := by
  rw [initIfNotExists, getKeyValue_eq]
  by_cases h : api.file m.etcd (keyPath key) = ""
  · exact .inr ⟨h, if_neg (not_not.mpr h)⟩
  · exact .inl ⟨h, if_pos h⟩

/-- `init_if_not_exists` leaves the tables and the other keys alone. -/
lemma initIfNotExists_frame (m : Monitor api) (key : String) (reward : ℚ) :
    (m.initIfNotExists key reward).2.nodeNameList = m.nodeNameList
      ∧ (m.initIfNotExists key reward).2.nodeVals = m.nodeVals
      ∧ (m.initIfNotExists key reward).2.podVals = m.podVals
      ∧ ∀ p, p ≠ keyPath key →
        api.file (m.initIfNotExists key reward).2.etcd p = api.file m.etcd p := by
  rcases m.initIfNotExists_cases key reward with ⟨-, heq⟩ | ⟨-, heq⟩
  · rw [heq]
    exact ⟨rfl, rfl, rfl, fun _ _ => rfl⟩
  · rw [heq]
    exact ⟨rfl, rfl, rfl, fun p hp => api.file_set_of_ne hp⟩

/-- What `update_pod_node_reward` knows of nodes after its first branch. -/
lemma knowNode_cases (m : Monitor api) (n : String) :
    (m.nodeVals.get n).isSome ∧ m.knowNode n = m
      ∨ m.nodeVals.get n = none
        ∧ m.knowNode n = { m with nodeNameList := m.nodeNameList ++ [n] }.initNode n := by
  cases h : m.nodeVals.get n with
  | none => exact .inr ⟨rfl, by simp [knowNode, h]⟩
  | some v => exact .inl ⟨rfl, by simp [knowNode, h]⟩

/-- What `update_pod_node_reward` knows of types after its second branch. -/
lemma knowType_cases (m : Monitor api) (t : String) :
    (m.podVals.get t).isSome ∧ m.knowType t = m
      ∨ m.podVals.get t = none ∧ m.knowType t = m.initNewPod t m.nodeNameList := by
  cases h : m.podVals.get t with
  | none => exact .inr ⟨rfl, by simp [knowType, h]⟩
  | some v => exact .inl ⟨rfl, by simp [knowType, h]⟩

@[simp] lemma setPodVal_nodeNameList (m : Monitor api) (t n : String) (v : ℚ) :
    (m.setPodVal t n v).nodeNameList = m.nodeNameList := rfl

@[simp] lemma setPodVal_nodeVals (m : Monitor api) (t n : String) (v : ℚ) :
    (m.setPodVal t n v).nodeVals = m.nodeVals := rfl

@[simp] lemma setPodVal_etcd (m : Monitor api) (t n : String) (v : ℚ) :
    (m.setPodVal t n v).etcd = m.etcd := rfl

lemma setPodVal_podVals_of_ne (m : Monitor api) {t t' : String} (h : t' ≠ t) (n : String)
    (v : ℚ) : (m.setPodVal t n v).podVals.get t' = m.podVals.get t' := by
  rw [setPodVal, StringMap.get_insert, if_neg h]

lemma setPodVal_podVals_self (m : Monitor api) (t n : String) (v : ℚ) :
    (m.setPodVal t n v).podVals.get t = some (((m.podVals.get t).getD ∅).insert n v) := by
  rw [setPodVal, StringMap.get_insert_self]

lemma podVal_setPodVal (m : Monitor api) (t n t' n' : String) (v : ℚ) :
    (m.setPodVal t n v).podVal t' n' = if t' = t ∧ n' = n then some v else m.podVal t' n' := by
  by_cases ht : t' = t
  · subst ht
    rw [podVal, setPodVal_podVals_self, Option.bind_some, StringMap.get_insert]
    by_cases hn : n' = n
    · simp [hn]
    · rw [if_neg hn, if_neg fun h => hn h.2, podVal]
      cases m.podVals.get t' <;> simp
  · rw [podVal, setPodVal_podVals_of_ne m ht, if_neg fun h => ht h.1, podVal]

/-- The text of a new value is that of the value. -/
lemma updateNodeVal_eq (m : Monitor api) (n : String) (r : ℚ) :
    m.updateNodeVal n r = (m.setNodeVal n (average ((m.nodeVals.get n).getD 0) r)).writeKeyValue
      (nodeKey n) (sprintf (average ((m.nodeVals.get n).getD 0) r)) := by
  simp [updateNodeVal, setNodeVal]

lemma updatePodVal_eq (m : Monitor api) (t n : String) (r : ℚ) :
    m.updatePodVal t n r = (m.setPodVal t n (average ((m.podVal t n).getD 0) r)).writeKeyValue
      (podKey t n) (sprintf (average ((m.podVal t n).getD 0) r)) := by
  simp [updatePodVal, podVal_setPodVal]

end Monitor

/-- A pod of a deployment, on a node and in a phase. -/
def deploymentPod (nodename : Name) (phase : PodPhase) : Pod where
  name := ⟨"web-1", by decide⟩
  labels := (∅ : StringMap Name).insert "app" ⟨"web", by decide⟩
  nodeName := nodename
  phase := phase
  containerStatuses := [⟨true, none, none⟩]

/-- The name of the first node. -/
def nodeOne : Name := ⟨"node-1", by decide⟩

/-- The first node is listed, and there are no pods yet. -/
def oneNodeStart : Monitor pathStore :=
  Monitor.start ([] : pathStore.State) 0 (some [nodeOne]) (some [])

end KubeSafeScheduler.KubeRL
