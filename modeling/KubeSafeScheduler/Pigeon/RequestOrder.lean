import KubeSafeScheduler.Pigeon.Agent

/-!
What the scores of `PriorityFunc` do not depend on: the order in which a request
lists its nodes, and the nodes of earlier requests. Of the earlier pods only the
demands matter, and only to an objective that reads the statistics; until the
running averages of `demandstats_add` start to forget, at `countmax` samples,
their order does not matter either.

* `Agent.ds_serve`: the statistics after a history are those of its demands.
* `DemandStats.countmax_create_zero`: the count at which an agent starts to
  forget.
* `Agent.serve_alike`: two agents after histories with like demands.
* `Agent.priorityFunc_unordered`: two agents that met the same demands answer
  alike.
-/

namespace KubeSafeScheduler.Pigeon

variable {n : ℕ} {K : Type} [Field K] [LinearOrder K]

/-- The demand of the pod of a request. -/
def Request.demand (n : ℕ) (r : Request) : Fin n → ℤ := (createPodModel r.pod n).demand

namespace DemandStats

variable [FloorRing K] [IsStrictOrderedRing K]

/-- An agent counts up to a hundred pods. -/
lemma countmax_create_zero : (create 0 : DemandStats n K).countmax = 100 := by
  have hfactor : (create 0 : DemandStats n K).smoothingfactor = 1 / 100 := if_neg (lt_irrefl 0)
  have hfloor : ⌊(1 : K) / (1 / 100)⌋ = 100 := by
    rw [one_div_one_div]
    exact_mod_cast Int.floor_intCast (R := K) 100
  rw [countmax, hfactor, hfloor]
  rfl

end DemandStats

namespace Agent

/-- A new agent has empty statistics or none. -/
lemma ds_new (config : Option (ℤ × ObjectiveType)) (policyObjective : Option String) :
    (Client.new config policyObjective : Client n K).eval.cs.ds = none
      ∨ (Client.new config policyObjective : Client n K).eval.cs.ds
          = some (DemandStats.create 0) := by
  rw [Evaluator.cs, updater_new]
  simp only [Evaluator.create, StateUpdater.create]
  split_ifs
  · exact Or.inr rfl
  · exact Or.inl rfl

variable [HasSqrt K] [FloorRing K]

omit [HasSqrt K] in
lemma ds_feed (c : Client n K) (history : List Request) :
    ((history.map Request.pod).foldl feed c).eval.cs.ds
      = c.eval.cs.ds.map fun ds => ds.addAll (history.map (Request.demand n)) := by
  induction history generalizing c with
  | nil => exact Option.map_id'.symm
  | cons r history ih =>
      have hfeed : (feed c r.pod).eval.cs.ds
          = c.eval.cs.ds.map fun ds => ds.add (r.demand n) := rfl
      rw [List.map_cons, List.foldl_cons, ih, hfeed, Option.map_map]
      rfl

/-- A history leaves its demands in the statistics, and nothing else. -/
lemma ds_serve {c : Client n K} (h : c.Tidy) (hn : n ≠ 0) (history : List Request)
    (hvalid : ∀ r ∈ history, r.Valid n) :
    (serve c history).eval.cs.ds
      = c.eval.cs.ds.map fun ds => ds.addAll (history.map (Request.demand n)) :=
  (serve_spec h hn rfl history hvalid).2.1.trans (ds_feed c history)

variable [IsStrictOrderedRing K]

/-- The demands of two histories are alike for an agent: if its objective reads the
statistics, they are the same in the same order, or in any order when there are at most a
hundred. -/
def DemandsAlike (config : Option (ℤ × ObjectiveType)) (policyObjective : Option String)
    (demands demands' : List (Fin n → ℤ)) : Prop :=
  (Client.new config policyObjective : Client n K).eval.policyobjective.usesStats = true →
    demands = demands' ∨ demands.length ≤ 100 ∧ demands.Perm demands'

/-- Two agents of one configuration after histories with like demands. -/
lemma serve_alike (config : Option (ℤ × ObjectiveType)) (policyObjective : Option String)
    (hn : n ≠ 0) {history history' : List Request} (hvalid : ∀ r ∈ history, r.Valid n)
    (hvalid' : ∀ r ∈ history', r.Valid n)
    (hdemands : DemandsAlike (K := K) config policyObjective (history.map (Request.demand n))
      (history'.map (Request.demand n))) :
    ∃ c c' : Client n K, c = serve (Client.new config policyObjective) history
      ∧ c' = serve (Client.new config policyObjective) history'
      ∧ c.Tidy ∧ c'.Tidy ∧ c.eval.policyobjective = c'.eval.policyobjective
      ∧ c.eval.policyresourceindex = c'.eval.policyresourceindex
      ∧ (c.eval.policyobjective.usesStats = true → c.eval.cs.ds = c'.eval.cs.ds) := by
  have hnew := tidy_new (n := n) (K := K) config policyObjective
  have hds := ds_new (n := n) (K := K) config policyObjective
  obtain ⟨s1, -, s3, s4⟩ := serve_spec hnew hn rfl history hvalid
  obtain ⟨t1, -, t3, t4⟩ := serve_spec hnew hn rfl history' hvalid'
  refine ⟨_, _, rfl, rfl, s1, t1, s3.trans t3.symm, s4.trans t4.symm, fun huse => ?_⟩
  rw [s3] at huse
  rw [ds_serve hnew hn history hvalid, ds_serve hnew hn history' hvalid']
  rcases hdemands huse with heq | ⟨hlen, hperm⟩
  · rw [heq]
  · rcases hds with hds | hds
    · rw [hds]
      rfl
    · have hlen' : (history.map (Request.demand n)).length
          ≤ (DemandStats.create 0 : DemandStats n K).countmax := by
        rw [DemandStats.countmax_create_zero]
        exact hlen
      rw [hds, Option.map_some, Option.map_some, DemandStats.addAll_perm 0 hperm hlen']

/-- Two agents of one configuration serve histories with any nodes. If the
objective reads the statistics, the pods of both histories have the same demands
in the same order, or in any order when there are at most a hundred. Then
requests for one pod that list the same nodes, each in its own order, get the
same scores. -/
theorem priorityFunc_unordered (config : Option (ℤ × ObjectiveType))
    (policyObjective : Option String)
    (hindex : 0 ≤ (Client.new config policyObjective : Client n K).eval.policyresourceindex
      ∧ (Client.new config policyObjective : Client n K).eval.policyresourceindex < n)
    (history history' : List Request) (hvalid : ∀ r ∈ history, r.Valid n)
    (hvalid' : ∀ r ∈ history', r.Valid n)
    (hdemands : (Client.new config policyObjective : Client n K).eval.policyobjective.usesStats
        = true →
      history.map (Request.demand n) = history'.map (Request.demand n)
        ∨ history.length ≤ 100
          ∧ (history.map (Request.demand n)).Perm (history'.map (Request.demand n)))
    (last last' : Request) (hlast : last.Valid n) (hlast' : last'.Valid n)
    (hpod : last.pod = last'.pod) (hnodes : last.nodes.Perm last'.nodes) :
    ∃ l l', (priorityFunc last.orders (serve (Client.new config policyObjective : Client n K)
          history) last.pod last.nodes).1 = some l
      ∧ (priorityFunc last'.orders (serve (Client.new config policyObjective : Client n K)
          history') last'.pod last'.nodes).1 = some l'
      ∧ l.Perm l' := by
  have hn : n ≠ 0 := by
    rintro rfl
    have := hindex.1.trans_lt hindex.2
    simp at this
  have halike : DemandsAlike (K := K) config policyObjective (history.map (Request.demand n))
      (history'.map (Request.demand n)) := by
    intro huse
    rw [List.length_map]
    exact hdemands huse
  obtain ⟨c, c', rfl, rfl, h1, h1', hobj, hpolicy, hds⟩ :=
    serve_alike config policyObjective hn hvalid hvalid' halike
  obtain ⟨l, hl, -⟩ := priorityFunc_spec h1 hn hlast
  obtain ⟨l', hl', hperm⟩ :=
    priorityFunc_perm h1 h1' hn hobj hpolicy hds hlast hlast' hpod hnodes hl
  exact ⟨l, l', hl, hl', hperm⟩

/-- A request for a pod with one container, on nodes of the given names and
CPUs. -/
def cpuRequest (cpus : ℕ) (nodes : List (String × ℤ)) : Request where
  orders := ⟨.stored, .stored, .stored, .stored, .stored⟩
  pod := { uid := "pod", containers := [{ cpu := .units cpus }] }
  nodes := nodes.map fun x =>
    { name := x.1, annotations := ∅, allocatable := { cpu := .units x.2 } }

/-- Two pods in either order, on other nodes, before a request that lists its
nodes in either order. -/
theorem priorityFunc_unordered_two :
    ∃ l l', (priorityFunc (cpuRequest 3 [("a", 4), ("b", 8)]).orders
          (serve (Client.new (some (0, .aBinpack)) none : Client 1 ℝ)
            [cpuRequest 1 [("a", 4)], cpuRequest 2 [("b", 8)]])
          (cpuRequest 3 [("a", 4), ("b", 8)]).pod (cpuRequest 3 [("a", 4), ("b", 8)]).nodes).1
        = some l
      ∧ (priorityFunc (cpuRequest 3 [("b", 8), ("a", 4)]).orders
          (serve (Client.new (some (0, .aBinpack)) none : Client 1 ℝ)
            [cpuRequest 2 [("c", 2)], cpuRequest 1 []])
          (cpuRequest 3 [("b", 8), ("a", 4)]).pod (cpuRequest 3 [("b", 8), ("a", 4)]).nodes).1
        = some l'
      ∧ l.Perm l' := by
  have hvalid : ∀ r ∈ [cpuRequest 1 [("a", 4)], cpuRequest 2 [("b", 8)]], r.Valid 1 := by
    intro r hr
    rcases List.mem_pair.mp hr with rfl | rfl
    all_goals exact ⟨by decide, by decide⟩
  have hvalid' : ∀ r ∈ [cpuRequest 2 [("c", 2)], cpuRequest 1 []], r.Valid 1 := by
    intro r hr
    rcases List.mem_pair.mp hr with rfl | rfl
    all_goals exact ⟨by decide, by decide⟩
  exact priorityFunc_unordered (n := 1) (K := ℝ) (some (0, .aBinpack)) none
    ⟨le_refl 0, Int.one_pos⟩ _ _ hvalid hvalid'
    (fun _ => Or.inr ⟨by decide, List.Perm.swap _ _ _⟩) _ _ ⟨by decide, by decide⟩
    ⟨by decide, by decide⟩ rfl (List.Perm.swap _ _ _)

end Agent

end KubeSafeScheduler.Pigeon
