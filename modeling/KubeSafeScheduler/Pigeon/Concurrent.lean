import KubeSafeScheduler.Pigeon.Agent

/-!
Concurrent calls of `PriorityFunc` on the shared agent.

The router serves every call in its own goroutine, and neither the agent nor the
client takes a lock. A call is cut into its `StateUpdateStart`, its
`StateUpdateNode`s, its `StateUpdateStop` and its `GetPodRanks`; each is one
step, and the steps of the calls are taken in any order.

* `Shared.step`, `Shared.run`: the steps of the calls; `Shared.run_alone`: a call
  that is not disturbed is `Agent.priorityFunc`.
* `Ledger`, `Board`: the same calls, reduced to the names of nodes. A name is in
  force when it was reported in the last session that was closed, or since in
  the one that is open.
* `Agrees`, `agrees_run`: in every order of the steps the agent shows the names
  that are in force.
* `call_right_iff`: which calls return the right list; `undisturbed_call_right`:
  those that no other call interrupts do.
-/

namespace KubeSafeScheduler.Pigeon

variable {ι : Type} [DecidableEq ι] {n : ℕ} {K : Type}

/-! ### The steps of the calls -/

/-- How far a call of `PriorityFunc` has come. -/
inductive Progress where
  | entered
  | updating (nodes : List NodeObject)
  | ranking
  | returned (result : Option (List HostPriority))

/-- The shared client, and the calls. -/
structure Shared (ι : Type) (n : ℕ) (K : Type) where
  client : Client n K
  progress : ι → Progress

namespace Shared

variable [Field K] [LinearOrder K] [HasSqrt K] [FloorRing K]

/-- The next step of a call. The list is written after `GetPodRanks`, without
another look at the agent. -/
def step (calls : ι → Request) (s : Shared ι n K) (i : ι) : Shared ι n K :=
  match s.progress i with
  | .entered =>
      let (isStarted, c) := s.client.stateUpdateStart (calls i).orders.start
      { client := c
        progress := Function.update s.progress i
          (if isStarted then .updating (calls i).nodes else .ranking) }
  | .updating (node :: nodes) =>
      { client := (s.client.stateUpdateNode (makeNodeTemplate node n)).2
        progress := Function.update s.progress i (.updating nodes) }
  | .updating [] =>
      { client := s.client.stateUpdateStop (calls i).orders.stop
        progress := Function.update s.progress i .ranking }
  | .ranking =>
      let (rankMap, c) := Agent.computeRank (calls i).orders s.client (calls i).pod
      { client := c
        progress := Function.update s.progress i (.returned (writeList
          (List.replicate (calls i).nodes.length { host := "", score := 0 }) 0
          ((calls i).orders.write.order rankMap.entries))) }
  | .returned _ => s

/-- The steps of the calls in the order of a schedule. -/
def run (calls : ι → Request) (s : Shared ι n K) (schedule : List ι) : Shared ι n K :=
  schedule.foldl (step calls) s

/-- All calls have just entered. -/
def init (c : Client n K) : Shared ι n K := { client := c, progress := fun _ => .entered }

lemma run_append (calls : ι → Request) (s : Shared ι n K) (l l' : List ι) :
    s.run calls (l ++ l') = (s.run calls l).run calls l' := List.foldl_append

/-- A call that has returned takes no more steps. -/
lemma run_returned (calls : ι → Request) {s : Shared ι n K} {i : ι}
    {result : Option (List HostPriority)} (h : s.progress i = .returned result) (k : ℕ) :
    s.run calls (List.replicate k i) = s := by
  induction k with
  | zero => rfl
  | succ k ih =>
      have hstep : s.step calls i = s := by rw [step, h]
      rw [List.replicate_succ]
      show (s.step calls i).run calls (List.replicate k i) = s
      rw [hstep, ih]

/-- The loop over the nodes, if no other call comes in between. -/
lemma run_updating (calls : ι → Request) {s : Shared ι n K} {i : ι} (nodes : List NodeObject)
    (h : s.progress i = .updating nodes) :
    (s.run calls (List.replicate nodes.length i)).client = s.client.updateNodes nodes
      ∧ (s.run calls (List.replicate nodes.length i)).progress i = .updating [] := by
  induction nodes generalizing s with
  | nil => exact ⟨rfl, h⟩
  | cons node nodes ih =>
      have hstep : s.step calls i =
          { client := (s.client.stateUpdateNode (makeNodeTemplate node n)).2
            progress := Function.update s.progress i (.updating nodes) } := by rw [step, h]
      rw [List.length_cons, List.replicate_succ]
      show ((s.step calls i).run calls (List.replicate nodes.length i)).client = _ ∧
        ((s.step calls i).run calls (List.replicate nodes.length i)).progress i = _
      rw [hstep]
      exact ih (Function.update_self ..)

lemma step_ranking (calls : ι → Request) {s : Shared ι n K} {i : ι} (h : s.progress i = .ranking) :
    (s.step calls i).client = (Agent.computeRank (calls i).orders s.client (calls i).pod).2
      ∧ (s.step calls i).progress i = .returned (writeList
          (List.replicate (calls i).nodes.length { host := "", score := 0 }) 0
          ((calls i).orders.write.order
            (Agent.computeRank (calls i).orders s.client (calls i).pod).1.entries)) := by
  rw [step, h]
  exact ⟨rfl, Function.update_self ..⟩

lemma step_updating_nil (calls : ι → Request) {s : Shared ι n K} {i : ι}
    (h : s.progress i = .updating []) :
    (s.step calls i).client = s.client.stateUpdateStop (calls i).orders.stop
      ∧ (s.step calls i).progress i = .ranking := by
  rw [step, h]
  exact ⟨rfl, Function.update_self ..⟩

lemma step_entered (calls : ι → Request) {s : Shared ι n K} {i : ι} (h : s.progress i = .entered) :
    (s.step calls i).client = (s.client.stateUpdateStart (calls i).orders.start).2
      ∧ (s.step calls i).progress i
        = if (s.client.stateUpdateStart (calls i).orders.start).1
          then .updating (calls i).nodes else .ranking := by
  rw [step, h]
  exact ⟨rfl, Function.update_self ..⟩

/-- The nodes are reported, or the session is refused: either way the call comes to rank
the pod, on the model that `updateState` leaves. -/
lemma exists_ranking (calls : ι → Request) {s : Shared ι n K} {i : ι}
    (h : s.progress i = .entered) :
    ∃ (t : Shared ι n K) (k : ℕ),
      s.run calls (List.replicate ((calls i).nodes.length + 3) i)
          = (t.step calls i).run calls (List.replicate k i)
        ∧ t.progress i = .ranking
        ∧ t.client = (Agent.updateState (calls i).orders s.client (calls i).nodes).2 := by
  obtain ⟨hclient, hprogress⟩ := step_entered calls h
  cases hst : (s.client.stateUpdateStart (calls i).orders.start).1 with
  | false =>
      -- a refused session: the pod is ranked on the model as it is
      refine ⟨s.step calls i, (calls i).nodes.length + 1, rfl, ?_, ?_⟩
      · rw [hprogress, hst, if_neg Bool.false_ne_true]
      · simp only [Agent.updateState, hst, hclient]
        rfl
  | true =>
      have hupdating : (s.step calls i).progress i = .updating (calls i).nodes := by
        rw [hprogress, hst, if_pos rfl]
      obtain ⟨u1, u2⟩ := run_updating calls _ hupdating
      obtain ⟨v1, v2⟩ := step_updating_nil calls u2
      refine ⟨_, 0, ?_, v2, ?_⟩
      · rw [List.replicate_succ, List.replicate_add]
        show (s.step calls i).run calls (List.replicate (calls i).nodes.length i ++ [i, i]) = _
        rw [run_append]
        rfl
      · simp only [Agent.updateState, hst, v1, u1, hclient]
        rfl

/-- A call that is not disturbed is `PriorityFunc`. -/
theorem run_alone (calls : ι → Request) {s : Shared ι n K} {i : ι} (h : s.progress i = .entered) :
    (s.run calls (List.replicate ((calls i).nodes.length + 3) i)).client
        = (Agent.priorityFunc (calls i).orders s.client (calls i).pod (calls i).nodes).2
      ∧ (s.run calls (List.replicate ((calls i).nodes.length + 3) i)).progress i
        = .returned (Agent.priorityFunc (calls i).orders s.client (calls i).pod
            (calls i).nodes).1 := by
  obtain ⟨t, k, hrun, hrank, hclient⟩ := exists_ranking calls h
  obtain ⟨h1, h2⟩ := step_ranking calls hrank
  rw [hrun, run_returned calls h2, h1, h2, hclient, Agent.priorityFunc]
  exact ⟨rfl, rfl⟩

end Shared

/-- The call has returned a list with one entry for each of its nodes and no
other host. -/
def Progress.Right (r : Request) : Progress → Prop
  | .returned (some l) => (l.map HostPriority.host).Perm (r.nodes.map NodeObject.name)
  | _ => False

/-! ### The names in force -/

/-- An update session, by names: what is in force, and what was reported since
the session was opened. -/
structure Ledger where
  inForce : Finset String
  reported : Finset String
  isOpen : Bool
  deriving DecidableEq

namespace Ledger

/-- Close the session, if one is open: what was reported is in force. -/
def close (L : Ledger) : Ledger :=
  if L.isOpen then { L with inForce := L.reported, isOpen := false } else L

/-- Open a session; one that is open is closed first. -/
def start (L : Ledger) : Ledger := { L.close with reported := ∅, isOpen := true }

/-- Report a name; without a session nothing happens. -/
def report (L : Ledger) (name : String) : Ledger :=
  if L.isOpen then
    { L with inForce := insert name L.inForce, reported := insert name L.reported }
  else L

end Ledger

/-- How far a call has come, by names; at the end, what was in force when it
ranked its pod. -/
inductive Stage where
  | entered
  | updating (names : List String)
  | ranking
  | returned (inForce : Finset String)
  deriving DecidableEq

/-- The session, and the calls, by names. -/
structure Board (ι : Type) where
  ledger : Ledger
  stage : ι → Stage

namespace Board

/-- The next step of a call with the given names. -/
def step (names : ι → List String) (b : Board ι) (i : ι) : Board ι :=
  match b.stage i with
  | .entered =>
      { ledger := b.ledger.start, stage := Function.update b.stage i (.updating (names i)) }
  | .updating (name :: rest) =>
      { ledger := b.ledger.report name, stage := Function.update b.stage i (.updating rest) }
  | .updating [] =>
      { ledger := b.ledger.close, stage := Function.update b.stage i .ranking }
  | .ranking =>
      { b with stage := Function.update b.stage i (.returned b.ledger.inForce) }
  | .returned _ => b

/-- The steps of the calls in the order of a schedule. -/
def run (names : ι → List String) (b : Board ι) (schedule : List ι) : Board ι :=
  schedule.foldl (step names) b

/-- Nothing is in force and all calls have just entered. -/
def init : Board ι where
  ledger := { inForce := ∅, reported := ∅, isOpen := false }
  stage := fun _ => .entered

variable (names : ι → List String)

lemma run_append (b : Board ι) (l l' : List ι) :
    b.run names (l ++ l') = (b.run names l).run names l' := List.foldl_append

/-- The steps of the other calls do not move a call. -/
lemma step_stage_of_ne (b : Board ι) {i j : ι} (h : j ≠ i) :
    (b.step names i).stage j = b.stage j := by
  rw [step]
  split <;> simp [h]

lemma run_stage_of_notMem (b : Board ι) {i : ι} {schedule : List ι} (h : i ∉ schedule) :
    (b.run names schedule).stage i = b.stage i := by
  induction schedule generalizing b with
  | nil => rfl
  | cons j schedule ih =>
      obtain ⟨hj, hrest⟩ := not_or.mp (List.mem_cons.not.mp h)
      exact (ih _ hrest).trans (b.step_stage_of_ne names hj)

/-- A call that has returned does not change. -/
lemma run_stage_of_returned {b : Board ι} {i : ι} {F : Finset String}
    (h : b.stage i = .returned F) (schedule : List ι) :
    (b.run names schedule).stage i = .returned F := by
  induction schedule generalizing b with
  | nil => exact h
  | cons j schedule ih =>
      refine ih ?_
      by_cases hj : i = j
      · subst hj
        rw [step, h]
        exact h
      · rw [b.step_stage_of_ne names hj, h]

/-- The reports of a call, if no other call comes in between. -/
lemma run_updating {b : Board ι} {i : ι} (rest : List String) (h : b.stage i = .updating rest)
    (hopen : b.ledger.isOpen = true) :
    (b.run names (List.replicate rest.length i)).stage i = .updating []
      ∧ (b.run names (List.replicate rest.length i)).ledger.isOpen = true
      ∧ (b.run names (List.replicate rest.length i)).ledger.reported
          = b.ledger.reported ∪ rest.toFinset := by
  induction rest generalizing b with
  | nil => exact ⟨h, hopen, by simp [run]⟩
  | cons name rest ih =>
      have hstep : b.step names i =
          { ledger := b.ledger.report name
            stage := Function.update b.stage i (.updating rest) } := by rw [step, h]
      have hreport : b.ledger.report name = { b.ledger with
          inForce := insert name b.ledger.inForce
          reported := insert name b.ledger.reported } := by rw [Ledger.report, if_pos hopen]
      obtain ⟨i1, i2, i3⟩ := ih (b := b.step names i) (by rw [hstep]; exact Function.update_self ..)
        (by rw [hstep, hreport]; exact hopen)
      refine ⟨i1, i2, i3.trans ?_⟩
      rw [hstep, hreport, List.toFinset_cons, Finset.union_insert, Finset.insert_union]

/-- A call that is not disturbed finds its own names in force. -/
lemma run_alone {b : Board ι} {i : ι} (h : b.stage i = .entered) :
    (b.run names (List.replicate ((names i).length + 3) i)).stage i
      = .returned (names i).toFinset := by
  have hstart : b.step names i =
      { ledger := b.ledger.start
        stage := Function.update b.stage i (.updating (names i)) } := by rw [step, h]
  obtain ⟨u1, u2, u3⟩ := run_updating names (b := b.step names i) (names i)
    (by rw [hstart]; exact Function.update_self ..) (by rw [hstart]; rfl)
  have hempty : (b.step names i).ledger.reported = ∅ := by rw [hstart]; rfl
  set t := (b.step names i).run names (List.replicate (names i).length i) with ht
  have hstop : t.step names i =
      { ledger := t.ledger.close, stage := Function.update t.stage i .ranking } := by
    rw [step, u1]
  have hrank : ((t.step names i).step names i).stage i
      = .returned (t.step names i).ledger.inForce := by
    have hstage : (t.step names i).stage i = .ranking := by
      rw [hstop]
      exact Function.update_self ..
    rw [step, hstage]
    exact Function.update_self ..
  have hrun : b.run names (List.replicate ((names i).length + 3) i)
      = (t.step names i).step names i := by
    rw [List.replicate_succ, List.replicate_add]
    show (b.step names i).run names (List.replicate (names i).length i ++ [i, i]) = _
    rw [run_append]
    rfl
  rw [hrun, hrank, hstop, Ledger.close, if_pos u2, u3, hempty, Finset.empty_union]

end Board

/-! ### The agent follows the ledger -/

/-- The client shows the names in force, and its session is that of the
ledger. -/
structure Client.Tracks (c : Client n K) (L : Ledger) : Prop where
  quiet : c.Quiet
  shown : ∀ name, (c.eval.cs.view name).isSome = true ↔ name ∈ L.inForce
  started : c.eval.updater.started = L.isOpen
  observed : L.isOpen = true → c.eval.updater.observedPEs = L.reported

namespace Client.Tracks

variable {c : Client n K} {L : Ledger}

lemma viewOnStop (h : c.Tracks L) (name : String) :
    (c.eval.updater.viewOnStop name).isSome = true ↔ name ∈ L.close.inForce := by
  have hobserved : L.isOpen = true → name ∈ L.reported → name ∈ L.inForce := by
    intro hopen hname
    rw [← h.observed hopen] at hname
    obtain ⟨p, hp, hl⟩ :=
      (h.quiet.podless.wf.session (h.started.trans hopen)).observed name hname
    refine (h.shown name).mp (Option.isSome_iff_exists.mpr ?_)
    exact ⟨_, h.quiet.podless.wf.cs.view_eq_some.mpr ⟨p, hp, hl, rfl⟩⟩
  have hview : (c.eval.updater.viewOnStop name).isSome = true ↔
      (L.isOpen = true → name ∈ c.eval.updater.observedPEs) ∧ name ∈ L.inForce := by
    rw [← h.shown, ← h.started]
    simp only [Option.isSome_iff_exists, StateUpdater.viewOnStop_eq_some, exists_and_left]
    rfl
  rw [hview, Ledger.close]
  cases hopen : L.isOpen with
  | false => simp
  | true =>
      simp only [if_true, forall_const, h.observed hopen]
      exact ⟨fun hname => hname.1, fun hname => ⟨hname, hobserved hopen hname⟩⟩

lemma stateUpdateStart (h : c.Tracks L) (ord : EnumOrder) :
    (c.stateUpdateStart ord).1 = true ∧ (c.stateUpdateStart ord).2.Tracks L.start := by
  obtain ⟨s0, s1, s2, -, s4, s5⟩ := h.quiet.stateUpdateStart ord
  refine ⟨s0, s1, fun name => ?_, s4, fun _ => s5⟩
  rw [s2]
  exact h.viewOnStop name

lemma stateUpdateStop (h : c.Tracks L) (ord : EnumOrder) :
    (c.stateUpdateStop ord).Tracks L.close := by
  obtain ⟨s1, s2, -, s4⟩ := h.quiet.stateUpdateStop ord
  have hclosed : L.close.isOpen = false := by
    rw [Ledger.close]
    cases hopen : L.isOpen <;> simp [hopen]
  refine ⟨s1, fun name => ?_, s4.trans hclosed.symm, fun hopen => ?_⟩
  · rw [s2]
    exact h.viewOnStop name
  · rw [hclosed] at hopen
    exact absurd hopen (by decide)

lemma stateUpdateNode (h : c.Tracks L) (hn : n ≠ 0) (node : Node n) :
    (c.stateUpdateNode node).2.Tracks (L.report node.id) := by
  rw [Ledger.report]
  split_ifs with hopen
  · have hst : c.eval.updater.started = true := h.started.trans hopen
    obtain ⟨s1, s2, s3, -, s5, s6⟩ := h.quiet.stateUpdateNode hn hst node
    refine ⟨s1, fun name => ?_, s2.trans hopen.symm, fun _ => ?_⟩
    · rw [Finset.mem_insert]
      by_cases hname : name = node.id
      · rw [hname]
        exact ⟨fun _ => Or.inl rfl, fun _ => s6⟩
      · rw [s5 name hname, h.shown]
        exact ⟨Or.inr, fun hc => hc.resolve_left hname⟩
    · rw [s3, h.observed hopen]
  · -- without a session the report is dropped
    have hst : ¬ c.eval.updater.started = true := fun hst => hopen (h.started.symm.trans hst)
    have hsame : (c.stateUpdateNode node).2 = c := by
      rw [Client.stateUpdateNode, if_neg hn, StateUpdater.updatePE, if_neg hst]
      rfl
    rw [hsame]
    exact h

lemma getPodRanks [Field K] [LinearOrder K] [HasSqrt K] [FloorRing K] (h : c.Tracks L)
    (pr : PodRequest n) : (c.getPodRanks pr).2.Tracks L := by
  obtain ⟨s1, s2, s3, s4, -, -⟩ := h.quiet.getPodRanks pr
  refine ⟨s1, fun name => ?_, s3.trans h.started, fun hopen => s4.trans (h.observed hopen)⟩
  rw [← h.shown, CloudSystem.view, CloudSystem.view, s2, Option.isSome_map, Option.isSome_map]

/-- The scores are those of the names in force. -/
lemma mem_computeRank [Field K] [LinearOrder K] [HasSqrt K] [FloorRing K] (h : c.Tracks L)
    (o : Orders) (pod : Pod) (name : String) :
    name ∈ (Agent.computeRank o c pod).1.entries.map Prod.fst ↔ name ∈ L.inForce := by
  have hwf : c.eval.cs.WF := h.quiet.podless.wf.cs
  rw [StringMap.map_fst_entries, (Agent.getkeys_computeRank h.quiet o pod).mem_iff,
    hwf.mem_names, h.shown]

end Client.Tracks

/-! ### Every order of the steps -/

/-- What a call returns when the names in `F` are in force: the list written from
scores of these names. -/
def Request.Returns (r : Request) (F : Finset String) (result : Option (List HostPriority)) :
    Prop :=
  ∃ kvs : List (String × ℤ), (kvs.map Prod.fst).Nodup
    ∧ (∀ name, name ∈ kvs.map Prod.fst ↔ name ∈ F)
    ∧ result = writeList (List.replicate r.nodes.length { host := "", score := 0 }) 0 kvs

/-- A call and its reduction to names stand at the same point. -/
inductive Request.Matches (r : Request) : Progress → Stage → Prop
  | entered : Matches r .entered .entered
  | updating (nodes : List NodeObject) :
      Matches r (.updating nodes) (.updating (nodes.map NodeObject.name))
  | ranking : Matches r .ranking .ranking
  | returned {F : Finset String} {result : Option (List HostPriority)}
      (h : r.Returns F result) : Matches r (.returned result) (.returned F)

/-- The calls and their reduction to names. -/
structure Agrees (calls : ι → Request) (s : Shared ι n K) (b : Board ι) : Prop where
  tracks : s.client.Tracks b.ledger
  calls : ∀ i, (calls i).Matches (s.progress i) (b.stage i)

/-- Updating one call on both sides. -/
lemma matches_update {calls : ι → Request} {progress : ι → Progress} {stage : ι → Stage}
    (h : ∀ i, (calls i).Matches (progress i) (stage i)) {i : ι} {x : Progress} {y : Stage}
    (hi : (calls i).Matches x y) (j : ι) :
    (calls j).Matches (Function.update progress i x j) (Function.update stage i y j) := by
  by_cases hj : j = i
  · subst hj
    rw [Function.update_self, Function.update_self]
    exact hi
  · rw [Function.update_of_ne hj, Function.update_of_ne hj]
    exact h j

section Run

variable [Field K] [LinearOrder K] [HasSqrt K] [FloorRing K]

/-- A step keeps the agreement. -/
lemma Agrees.step {calls : ι → Request} {s : Shared ι n K} {b : Board ι} (h : Agrees calls s b)
    (hn : n ≠ 0) (i : ι) :
    Agrees calls (s.step calls i)
      (b.step (fun i => (calls i).nodes.map NodeObject.name) i) := by
  have hi := h.calls i
  rw [Shared.step, Board.step]
  generalize hx : s.progress i = x at hi
  generalize hy : b.stage i = y at hi
  cases hi with
  | entered =>
      obtain ⟨h1, h2⟩ := h.tracks.stateUpdateStart (calls i).orders.start
      simp only [h1, if_true]
      exact ⟨h2, matches_update h.calls (.updating _)⟩
  | updating nodes =>
      cases nodes with
      | nil =>
          exact ⟨h.tracks.stateUpdateStop _, matches_update h.calls .ranking⟩
      | cons node nodes =>
          exact ⟨h.tracks.stateUpdateNode hn (makeNodeTemplate node n),
            matches_update h.calls (.updating nodes)⟩
  | ranking =>
      refine ⟨h.tracks.getPodRanks _, matches_update h.calls (.returned ⟨_, ?_, ?_, rfl⟩)⟩
      · have hperm := ((calls i).orders.write.perm (Agent.computeRank (calls i).orders s.client
          (calls i).pod).1.entries).map Prod.fst
        rw [hperm.nodup_iff, StringMap.map_fst_entries]
        exact StringMap.nodup_getkeys _
      · intro name
        have hperm := ((calls i).orders.write.perm (Agent.computeRank (calls i).orders s.client
          (calls i).pod).1.entries).map Prod.fst
        rw [hperm.mem_iff]
        exact h.tracks.mem_computeRank _ _ name
  | returned => exact h

/-- Every order of the steps keeps the agreement. -/
lemma agrees_run {calls : ι → Request} {s : Shared ι n K} {b : Board ι} (h : Agrees calls s b)
    (hn : n ≠ 0) (schedule : List ι) :
    Agrees calls (s.run calls schedule)
      (b.run (fun i => (calls i).nodes.map NodeObject.name) schedule) := by
  induction schedule generalizing s b with
  | nil => exact h
  | cons i schedule ih => exact ih (h.step hn i)

omit [DecidableEq ι] [HasSqrt K] [FloorRing K] in
lemma agrees_init (calls : ι → Request) (config : Option (ℤ × ObjectiveType))
    (policyObjective : Option String) :
    Agrees calls (Shared.init (Client.new config policyObjective) : Shared ι n K) Board.init := by
  refine ⟨⟨(Agent.tidy_new config policyObjective).toQuiet, fun name => ?_, ?_, fun hopen => ?_⟩,
    fun i => .entered⟩
  · have hview := Agent.view_new (n := n) (K := K) config policyObjective name
    simp [Shared.init, Board.init, hview]
  · show (Client.new config policyObjective : Client n K).eval.updater.started = false
    rw [Agent.updater_new]
    rfl
  · exact absurd hopen (by simp [Board.init])

end Run

/-! ### The calls that return the right list -/

/-- The names of the nodes are distinct and not empty. -/
structure Request.Named (r : Request) : Prop where
  nodup : (r.nodes.map NodeObject.name).Nodup
  ne_empty : "" ∉ r.nodes.map NodeObject.name

/-- A list written from scores of other names than those of the nodes is not
right: with more names the write falls outside of the list, with fewer an entry
without host remains. -/
lemma Request.Named.right_iff {r : Request} (h : r.Named) {F : Finset String}
    {result : Option (List HostPriority)} (hret : r.Returns F result) :
    (Progress.returned result).Right r ↔ F = (r.nodes.map NodeObject.name).toFinset := by
  obtain ⟨kvs, hnd, hF, rfl⟩ := hret
  have hperm : F = (r.nodes.map NodeObject.name).toFinset ↔
      (kvs.map Prod.fst).Perm (r.nodes.map NodeObject.name) := by
    rw [List.perm_ext_iff_of_nodup hnd h.nodup, Finset.ext_iff]
    exact forall_congr' fun name => by rw [hF, List.mem_toFinset]
  rw [hperm]
  by_cases hlen : kvs.length ≤ r.nodes.length
  · have hwrite := writeList_eq [] (List.replicate r.nodes.length ⟨"", 0⟩) kvs
      (by rwa [List.length_replicate])
    rw [List.nil_append, List.nil_append, List.length_nil, List.drop_replicate] at hwrite
    rw [hwrite, Progress.Right, List.map_append, List.map_map, List.map_replicate]
    show ((kvs.map Prod.fst) ++ List.replicate (r.nodes.length - kvs.length) "").Perm _ ↔ _
    constructor
    · intro hp
      -- no host is empty, so nothing is left over
      have hzero : r.nodes.length - kvs.length = 0 := by
        by_contra hne
        refine h.ne_empty (hp.mem_iff.mp (List.mem_append_right _ ?_))
        exact List.mem_replicate.mpr ⟨hne, rfl⟩
      rwa [hzero, List.replicate_zero, List.append_nil] at hp
    · intro hp
      have hzero : r.nodes.length - kvs.length = 0 := by
        have := hp.length_eq
        rw [List.length_map, List.length_map] at this
        omega
      rwa [hzero, List.replicate_zero, List.append_nil]
  · have hne : kvs ≠ [] := by
      rintro rfl
      simp at hlen
    rw [writeList_eq_none _ _ _ (by rw [List.length_replicate]; omega) hne]
    refine ⟨False.elim, fun hp => hlen ?_⟩
    have := hp.length_eq
    rw [List.length_map, List.length_map] at this
    exact this.le

/-- More names in force than the call has nodes end in a panic. -/
lemma Request.Returns.eq_none {r : Request} {F : Finset String}
    {result : Option (List HostPriority)} (h : r.Returns F result)
    (hlt : r.nodes.length < F.card) : result = none := by
  obtain ⟨kvs, hnd, hF, rfl⟩ := h
  have hcard : F.card = kvs.length := by
    rw [← List.length_map (f := Prod.fst), ← List.toFinset_card_of_nodup hnd]
    congr 1
    ext name
    rw [List.mem_toFinset, hF]
  refine writeList_eq_none _ _ _ (by rw [List.length_replicate]; omega) ?_
  rintro rfl
  rw [List.length_nil] at hcard
  omega

omit [DecidableEq ι] in
/-- A call is right when it has returned, and the names in force were its own. -/
lemma Agrees.right_iff {calls : ι → Request} {s : Shared ι n K} {b : Board ι}
    (h : Agrees calls s b) {i : ι} (hnamed : (calls i).Named) :
    (s.progress i).Right (calls i)
      ↔ b.stage i = .returned ((calls i).nodes.map NodeObject.name).toFinset := by
  have hi := h.calls i
  generalize s.progress i = x at hi ⊢
  generalize b.stage i = y at hi ⊢
  cases hi with
  | entered => simp [Progress.Right]
  | updating => simp [Progress.Right]
  | ranking => simp [Progress.Right]
  | returned hret => rw [hnamed.right_iff hret, Stage.returned.injEq]

/-- Any number of calls on one agent, with their steps in any order: a call
returns exactly one entry for each of its nodes and no other host, without a
write outside of the list, if and only if the names in force when it ranks its
pod are those of its own nodes. -/
theorem call_right_iff [Field K] [LinearOrder K] [HasSqrt K] [FloorRing K]
    (config : Option (ℤ × ObjectiveType)) (policyObjective : Option String) (hn : n ≠ 0)
    (calls : ι → Request) (hnamed : ∀ i, (calls i).Named) (schedule : List ι) (i : ι) :
    (((Shared.init (Client.new config policyObjective) : Shared ι n K).run calls
        schedule).progress i).Right (calls i)
      ↔ (Board.init.run (fun i => (calls i).nodes.map NodeObject.name) schedule).stage i
          = .returned ((calls i).nodes.map NodeObject.name).toFinset :=
  (agrees_run (agrees_init calls config policyObjective) hn schedule).right_iff (hnamed i)

/-- In particular a call whose steps no other call interrupts is right, whatever
the calls before it have left. -/
theorem undisturbed_call_right [Field K] [LinearOrder K] [HasSqrt K] [FloorRing K]
    (config : Option (ℤ × ObjectiveType)) (policyObjective : Option String) (hn : n ≠ 0)
    (calls : ι → Request) {i : ι} (hnamed : (calls i).Named) {before after : List ι}
    (hbefore : i ∉ before) :
    (((Shared.init (Client.new config policyObjective) : Shared ι n K).run calls
        (before ++ (List.replicate ((calls i).nodes.length + 3) i ++ after))).progress i).Right
      (calls i) := by
  set names := fun i => (calls i).nodes.map NodeObject.name with hnames
  refine ((agrees_run (agrees_init calls config policyObjective) hn _).right_iff hnamed).mpr ?_
  have hentered := Board.init.run_stage_of_notMem names hbefore
  have halone := Board.run_alone names hentered
  rw [hnames, List.length_map] at halone
  rw [Board.run_append, Board.run_append]
  exact Board.run_stage_of_returned names halone after

/-- Two calls with one node each, under different names. -/
def twoCalls (i : Bool) : Request := Agent.emptyPodRequest [(if i then "b" else "a", 4)]

lemma twoCalls_named (i : Bool) : (twoCalls i).Named := by
  cases i <;> exact ⟨by decide, by decide⟩

/-- One call after the other. -/
theorem call_right_iff_one_after_the_other :
    (((Shared.init (Client.new none none) : Shared Bool 1 ℝ).run twoCalls
        [false, false, false, false, true, true, true, true]).progress true).Right
      (twoCalls true) := by
  have hstage : (Board.init.run (fun i => (twoCalls i).nodes.map NodeObject.name)
      [false, false, false, false, true, true, true, true]).stage true
        = .returned ((twoCalls true).nodes.map NodeObject.name).toFinset := by decide +kernel
  have hiff := call_right_iff (n := 1) (K := ℝ) none none one_ne_zero twoCalls twoCalls_named
    [false, false, false, false, true, true, true, true] true
  rw [hiff]
  exact hstage

/-- The second call opens its session within that of the first, and both report
their node before the first call closes the session: it finds two nodes where it
has room for one. -/
theorem overlapping_call_panics :
    ((Shared.init (Client.new none none) : Shared Bool 1 ℝ).run twoCalls
        [false, true, false, true, false, false, true, true]).progress false
      = .returned none := by
  have hagree := (agrees_run (agrees_init (n := 1) (K := ℝ) twoCalls none none) one_ne_zero
    [false, true, false, true, false, false, true, true]).calls false
  have hstage : (Board.init.run (fun i => (twoCalls i).nodes.map NodeObject.name)
      [false, true, false, true, false, false, true, true]).stage false
        = .returned {"b", "a"} := by decide +kernel
  rw [hstage] at hagree
  generalize ((Shared.init (Client.new none none) : Shared Bool 1 ℝ).run twoCalls
    [false, true, false, true, false, false, true, true]).progress false = x at hagree ⊢
  cases hagree with
  | returned hret => rw [hret.eq_none (by decide)]

end KubeSafeScheduler.Pigeon
