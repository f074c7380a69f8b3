import Mathlib.Tactic
import KubeSafeScheduler.KubeRL.Monitor
import KubeSafeScheduler.Lib.Overwrite

/-!
`get_container_restarting_reward`: what the statuses of a pod come to.

* `StatusKind`, `statusKind`: the three branches of the loop that write the
  result; a container that runs and never terminated takes none of them.
* `containerRound_eq`: each branch overwrites what the containers before it
  left. A second termination is a failure however late it comes, since
  `Second` gives the second within the minute (`second_sub_le_mttf`).
* `orderFree_iff`: so the reward is free of the order of the containers exactly
  when they all take the same branch.
* `restartReward_iff`: and a single restarted container gets the reward of its
  time up only within `mttf`.
-/

namespace KubeSafeScheduler.KubeRL

/-! ### The branches of the loop -/

/-- The branches of the loop that write: no termination yet of a container that
is not just running, a first termination, a termination after another. -/
inductive StatusKind where
  | waiting
  | first
  | again
  deriving DecidableEq

/-- The branch that a container takes. -/
def statusKind (cst : ContainerStatus) : Option StatusKind :=
  if cst.running && cst.lastTerminated.isNone then none
  else
    match cst.terminated, cst.lastTerminated with
    | some _, some _ => some .again
    | some _, none => some .first
    | none, _ => some .waiting

/-- What a branch leaves. -/
def StatusKind.write : StatusKind → Bool × ℚ → Bool × ℚ
  | .waiting, acc => (false, acc.2)
  | .first, _ => (true, unseenReward)
  | .again, _ => (true, failedReward)

lemma StatusKind.write_write (k : StatusKind) (acc : Bool × ℚ) :
    k.write (k.write acc) = k.write acc := by
  cases k <;> rfl

/-- The result tells which branch wrote it last. -/
lemma StatusKind.write_inj {k k' : StatusKind} {acc acc' : Bool × ℚ}
    (h : k.write acc = k'.write acc') : k = k' := by
  cases k <;> cases k' <;> simp [StatusKind.write, unseenReward, failedReward] at h ⊢

/-- The seconds of two times differ by less than a minute. -/
lemma second_sub_le_mttf (t t' : Seconds) : second t - second t' ≤ mttf := by
  unfold second mttf
  omega

lemma containerRound_eq (acc : Bool × ℚ) (cst : ContainerStatus) :
    containerRound acc cst = overwrite statusKind StatusKind.write acc cst := by
  unfold containerRound overwrite statusKind
  split_ifs with hrun
  · rfl
  · cases hterminated : cst.terminated with
    | none => rfl
    | some startedAt =>
        cases hlast : cst.lastTerminated with
        | none => rfl
        | some finishedAt => exact if_neg (not_lt.mpr (second_sub_le_mttf startedAt finishedAt))

lemma getContainerRestartingReward_eq (pod : Pod) :
    getContainerRestartingReward pod
      = pod.containerStatuses.foldl (overwrite statusKind StatusKind.write)
          (true, runningReward) := by
  rw [getContainerRestartingReward]
  congr 1
  funext acc cst
  exact containerRound_eq acc cst

/-! ### The order of the containers -/

/-- A container that terminated again within `mttf` of its termination before. -/
def RestartedWithin (cst : ContainerStatus) : Prop :=
  ∃ startedAt finishedAt, cst.terminated = some startedAt
    ∧ cst.lastTerminated = some finishedAt ∧ startedAt - finishedAt ≤ mttf

/-- The reward does not depend on the order of the containers, and one that
terminated again soon makes it an update with the failed reward. -/
def OrderFree (pod : Pod) : Prop :=
  (∀ csts, pod.containerStatuses.Perm csts →
      getContainerRestartingReward { pod with containerStatuses := csts }
        = getContainerRestartingReward pod)
    ∧ ((∃ cst ∈ pod.containerStatuses, RestartedWithin cst) →
        getContainerRestartingReward pod = (true, failedReward))

lemma statusKind_of_restartedWithin {cst : ContainerStatus} (h : RestartedWithin cst) :
    statusKind cst = some .again := by
  obtain ⟨startedAt, finishedAt, hterminated, hlast, -⟩ := h
  simp [statusKind, hterminated, hlast]

/-- The reward is free of the order exactly when no two containers take
different branches. -/
theorem orderFree_iff (pod : Pod) :
    OrderFree pod ↔ ∀ cst ∈ pod.containerStatuses, ∀ cst' ∈ pod.containerStatuses,
      ∀ k k', statusKind cst = some k → statusKind cst' = some k' → k = k' := by
  have hperm : (∀ csts, pod.containerStatuses.Perm csts →
      csts.foldl (overwrite statusKind StatusKind.write) (true, runningReward)
        = pod.containerStatuses.foldl (overwrite statusKind StatusKind.write) (true, runningReward))
      ↔ _ := foldl_overwrite_perm_iff StatusKind.write_write
    (fun _ _ _ _ => StatusKind.write_inj) pod.containerStatuses (true, runningReward)
  simp only [OrderFree, getContainerRestartingReward_eq]
  rw [hperm]
  refine and_iff_left_of_imp fun h => ?_
  rintro ⟨cst, hmem, hrestart⟩
  have hkind := statusKind_of_restartedWithin hrestart
  have honly : ∀ c ∈ pod.containerStatuses, statusKind c = none ∨ statusKind c = some .again := by
    intro c hc
    rcases hc' : statusKind c with _ | k
    · exact Or.inl rfl
    · rw [h c hc cst hmem k .again hc' hkind]
      exact Or.inr rfl
  rw [foldl_overwrite (StatusKind.write_write .again) honly ⟨cst, hmem, hkind⟩]
  rfl

/-- A running pod with these containers. -/
def statusPod (csts : List ContainerStatus) : Pod :=
  { name := ⟨"cache-1", by decide⟩, labels := .empty, nodeName := nodeOne,
    phase := .running, containerStatuses := csts }

/-- A container that terminated for the first time hides one before it that
restarted after a minute. -/
theorem first_termination_hides_restart :
    ¬OrderFree (statusPod [⟨false, some 60, some 0⟩, ⟨false, some 60, none⟩]) := by
  intro h
  have hrestart := h.2 ⟨_, List.mem_cons_self, 60, 0, rfl, rfl, by decide⟩
  revert hrestart
  decide +kernel

/-! ### One container -/

/-- The reward that the time from a termination to the start that followed calls
for. -/
def restartReward (startedAt finishedAt : Seconds) : ℚ :=
  if mttf < startedAt - finishedAt then unseenReward else failedReward

lemma getContainerRestartingReward_again (pod : Pod) (startedAt finishedAt : Seconds) :
    getContainerRestartingReward
        { pod with containerStatuses := [⟨false, some startedAt, some finishedAt⟩] }
      = (true, failedReward) := by
  rw [getContainerRestartingReward_eq]
  rfl

/-- A container that terminated again gets the reward of the time it was up
exactly when this time is at most `mttf`. -/
theorem restartReward_iff (pod : Pod) (startedAt finishedAt : Seconds) :
    getContainerRestartingReward
        { pod with containerStatuses := [⟨false, some startedAt, some finishedAt⟩] }
      = (true, restartReward startedAt finishedAt) ↔ startedAt - finishedAt ≤ mttf := by
  rw [getContainerRestartingReward_again, Prod.mk.injEq, and_iff_right rfl, restartReward]
  split_ifs with hlong
  · refine iff_of_false ?_ (not_le.mpr hlong)
    norm_num [failedReward, unseenReward]
  · exact iff_of_true rfl (not_lt.mp hlong)

/-- After an hour the container counts as failed. -/
theorem hour_counts_as_failed :
    getContainerRestartingReward (statusPod [⟨false, some 3600, some 0⟩])
      ≠ (true, restartReward 3600 0) := by
  decide +kernel

end KubeSafeScheduler.KubeRL
