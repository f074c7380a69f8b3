import KubeSafeScheduler.Pigeon.Sessions

/-!
A `stateupdater_start` that is refused.

A generation number that is not above the last one is refused, but the branch
also clears the flag of the session. Without an open session that changes
nothing (`refused_eq`). With one, the session is cut: its reports and its `stop`
do nothing any more, so an LE that was taken off its host to be placed later
stays unhosted (`pod_lost`).

* `exists_report`: in an open session some report changes the system, so the cut
  can be seen in the system and not in the flag only.
* `Uncut`: whenever a start is refused on the way, no session is open.
  `follows_uncut`, `hosted_of_uncut`: then a session ends with its LEs hosted
  where they were last reported.
* `refused_start_iff`: when a refused start has no effect.
-/

namespace KubeSafeScheduler.Pigeon

variable {n : ℕ} {K : Type}

namespace StateUpdater

lemma start_refused_iff {s : StateUpdater n K} (ord : EnumOrder) (generation : ℤ) :
    (s.start ord generation).1 = false ↔ generation ≤ s.gen := by
  rw [start]
  split_ifs with hgen
  · exact ⟨fun _ => hgen, fun _ => rfl⟩
  · exact ⟨fun h => absurd h (by simp), fun h => absurd h hgen⟩

/-- Without an open session a refused start changes nothing. -/
lemma refused_eq {s : StateUpdater n K} (ord : EnumOrder) {generation : ℤ}
    (hgen : generation ≤ s.gen) (hst : s.started = false) : (s.start ord generation).2 = s := by
  rw [start, if_pos hgen, ← hst]

/-- In an open session a PE of a new name can be reported, which adds it. -/
lemma exists_report {s : StateUpdater n K} (h : s.cs.WF) (hst : s.started = true) :
    ∃ r : Report n, (s.report r).cs ≠ s.cs := by
  obtain ⟨name, hname⟩ := Infinite.exists_notMem_finset
    (s.cs.pes.map fun p => (s.cs.mem.pe p).label).toFinset
  have hget : s.cs.getPE name = none := by
    refine h.getPE_eq_none.mpr fun p hp hl => hname ?_
    exact List.mem_toFinset.mpr (List.mem_map.mpr ⟨p, hp, hl⟩)
  refine ⟨.pe name (fun _ => 0) none none, fun heq => ?_⟩
  have hpes := congrArg CloudSystem.pes heq
  rw [report, updatePE_of_new hst hget] at hpes
  exact absurd (congrArg List.length hpes) (by simp)

/-- Reports keep the generation number. -/
lemma gen_report {s : StateUpdater n K} (h : s.WF) (hst : s.started = true) (r : Report n) :
    (s.report r).gen = s.gen := by
  cases r with
  | pe id capacity ovf usage => exact (updatePE_spec h.cs hst id capacity ovf usage).gen
  | le id hostID demand => exact (updateLE_spec h hst id hostID demand).gen

/-- Reports keep the LEs that the session knows. -/
lemma lemap_report {s : StateUpdater n K} (h : s.WF) (hst : s.started = true) (r : Report n)
    {name : String} {l : LeRef} (hl : s.lemap.get name = some l) :
    (s.report r).lemap.get name = some l := by
  cases r with
  | pe id capacity ovf usage =>
      rw [report, (updatePE_spec h.cs hst id capacity ovf usage).lemap]
      exact hl
  | le id hostID demand =>
      rw [report, updateLE, if_pos hst]
      cases hid : s.lemap.get id with
      | some k =>
          cases hk : (s.cs.mem.le k).host with
          | none =>
              simp only [hid, hk]
              exact hl
          | some p =>
              simp only [hid, hk]
              split_ifs <;> exact hl
      | none =>
          have hne : name ≠ id := by
            rintro rfl
            rw [hid] at hl
            exact absurd hl (by simp)
          simp only [hid]
          rw [StringMap.get_insert_of_ne _ _ hne]
          exact hl

end StateUpdater

/-- The observations among the events. -/
def reportsOf : List (Event n) → List (Report n)
  | [] => []
  | .report r :: evs => r :: reportsOf evs
  | _ :: evs => reportsOf evs

namespace Evaluator

variable [Field K] [LinearOrder K] [HasSqrt K] [FloorRing K]

/-- Whenever a start is refused on the way, no session is open. -/
def Uncut (e : Evaluator n K) : List (Event n) → Prop
  | [] => True
  | ev :: evs => (∀ ord generation, ev = .start ord generation → generation ≤ e.updater.gen →
      e.updater.started = false) ∧ Uncut (e.step ev).2 evs

/-- The calls within one session: observations, and starts that are refused. -/
def Within (generation : ℤ) (ev : Event n) : Prop :=
  (∃ r, ev = .report r) ∨ ∃ ord stale, ev = .start ord stale ∧ stale ≤ generation

/-- A session that is not cut follows its reports, and keeps the LEs it knows. -/
lemma follows_uncut (evs : List (Event n)) {e : Evaluator n K} {reports : List (Report n)}
    {generation : ℤ} (h : StateUpdater.Follows reports e.updater)
    (hgen : e.updater.gen = generation) (hevs : ∀ ev ∈ evs, Within generation ev)
    (huncut : e.Uncut evs) :
    StateUpdater.Follows (reports ++ reportsOf evs) (e.run evs).2.updater
      ∧ ∀ name l, e.updater.lemap.get name = some l →
          (e.run evs).2.updater.lemap.get name = some l := by
  induction evs generalizing e reports with
  | nil =>
      rw [reportsOf, List.append_nil]
      exact ⟨h, fun _ _ hl => hl⟩
  | cons ev evs ih =>
      obtain ⟨hcut, hrest⟩ := huncut
      rcases hevs ev List.mem_cons_self with ⟨r, rfl⟩ | ⟨ord, stale, rfl, hstale⟩
      · obtain ⟨i1, i2⟩ := ih (e := (e.step (.report r)).2) (h.report r)
          ((StateUpdater.gen_report h.wf h.started r).trans hgen)
          (fun ev hev => hevs ev (List.mem_cons_of_mem _ hev)) hrest
        refine ⟨?_, fun name l hl => i2 name l (StateUpdater.lemap_report h.wf h.started r hl)⟩
        rw [reportsOf, List.append_cons]
        exact i1
      · -- the session is open, so no start may be refused here
        have := hcut ord stale rfl (hgen ▸ hstale)
        rw [h.started] at this
        exact absurd this (by simp)

/-- After a session that is not cut, every LE that was hosted before it and was
last reported on a PE that was reported too is hosted there. -/
lemma hosted_of_uncut {e : Evaluator n K} (h : e.updater.WF) {generation : ℤ}
    (hgen : e.updater.gen < generation) (ord ord' : EnumOrder) (evs : List (Event n))
    (hevs : ∀ ev ∈ evs, Within generation ev)
    (huncut : (e.step (.start ord generation)).2.Uncut evs) {l : LeRef} {host : String}
    (hl : ((e.step (.start ord generation)).2.cs.mem.le l).host ≠ none)
    (hlast : lastHost (reportsOf evs) ((e.step (.start ord generation)).2.cs.mem.le l).label
      = some host)
    (hreported : lastCapacity (reportsOf evs) host ≠ none) :
    ∃ p, (((((e.step (.start ord generation)).2.run evs).2.updater.stop ord').cs.mem.le l).host
        = some p)
      ∧ ((((e.step (.start ord generation)).2.run evs).2.updater.stop ord').cs.mem.pe p).label
          = host := by
  set e₁ := (e.step (.start ord generation)).2 with he₁
  have hf := StateUpdater.follows_start h ord hgen
  obtain ⟨f1, f2⟩ := follows_uncut (e := e₁) evs hf
    (StateUpdater.start_spec h ord hgen).2.gen hevs huncut
  rw [List.nil_append] at f1
  -- the session knows the LE, and under this name
  set s := (e₁.run evs).2.updater with hs
  have hknown : s.lemap.get (e₁.cs.mem.le l).label = some l :=
    f2 _ l ((hf.wf.session hf.started).hosted l hl)
  have hlabel : (s.cs.mem.le l).label = (e₁.cs.mem.le l).label :=
    ((f1.wf.session f1.started).lemap _ l hknown).1
  obtain ⟨p, hp, hplabel⟩ := (f1.wf.session f1.started).observed host
    ((f1.observedPEs host).mpr hreported)
  have hget : s.cs.getPE host = some p := f1.wf.cs.getPE_eq_some.mpr ⟨hp, hplabel⟩
  have hclosed := StateUpdater.stop_spec f1.wf f1.started ord'
  refine ⟨p, ?_, (hclosed.kept.label p).trans hplabel⟩
  rw [hclosed.host, f1.hostAfter_eq, hlabel, if_pos hknown, hlast, Option.bind_some,
    if_pos hreported, hget]

omit [LinearOrder K] [HasSqrt K] [FloorRing K] [Field K] in
/-- An updater put in the place of the same one. -/
lemma eq_of_updater {e : Evaluator n K} {s : StateUpdater n K} (h : s = e.updater) :
    { e with updater := s } = e := by
  rw [h]

/-- A start that is refused in a reachable state has no effect, on whatever comes
after it, if and only if no session is open; and this is so even if only the
cloud system is looked at. In a session during which no start is refused, no LE
is lost. -/
theorem refused_start_iff (resindex : ℤ) (type : ObjectiveType) (evs : List (Event n))
    (ord : EnumOrder) (generation : ℤ) :
    let e := ((create resindex type : Evaluator n K).run evs).2
    ((e.updater.start ord generation).1 = false →
      ((∀ evs', (e.step (.start ord generation)).2.run evs' = e.run evs')
          ↔ e.updater.started = false)
        ∧ ((∀ evs', ((e.step (.start ord generation)).2.run evs').2.cs = (e.run evs').2.cs)
          ↔ e.updater.started = false))
      ∧ (e.updater.gen < generation → ∀ ord' evs', (∀ ev ∈ evs', Within generation ev) →
          (e.step (.start ord generation)).2.Uncut evs' →
          ∀ l host, ((e.step (.start ord generation)).2.cs.mem.le l).host ≠ none →
            lastHost (reportsOf evs') ((e.step (.start ord generation)).2.cs.mem.le l).label
              = some host →
            lastCapacity (reportsOf evs') host ≠ none →
            ∃ p, ((((e.step (.start ord generation)).2.run evs').2.updater.stop ord').cs.mem.le
                l).host = some p
              ∧ ((((e.step (.start ord generation)).2.run evs').2.updater.stop ord').cs.mem.pe
                p).label = host) := by
  intro e
  have hwf : e.updater.WF := wf_run (wf_create resindex type) evs
  refine ⟨fun hrefused => ?_, fun hgen ord' evs' hevs huncut l host hl hlast hreported =>
    hosted_of_uncut hwf hgen ord ord' evs' hevs huncut hl hlast hreported⟩
  have hgen := (StateUpdater.start_refused_iff ord generation).mp hrefused
  have hsame : e.updater.started = false → (e.step (.start ord generation)).2 = e :=
    fun hst => eq_of_updater (StateUpdater.refused_eq ord hgen hst)
  have hcut : (∀ evs', ((e.step (.start ord generation)).2.run evs').2.cs = (e.run evs').2.cs) →
      e.updater.started = false := by
    intro hall
    by_contra hst
    obtain ⟨r, hr⟩ := StateUpdater.exists_report hwf.cs (by simpa using hst)
    -- the report changes the system, but not after the session was cut
    have hafter : ((e.step (.start ord generation)).2.step (.report r)).2.cs = e.cs := by
      show ((e.updater.start ord generation).2.report r).cs = e.updater.cs
      rw [StateUpdater.start, if_pos hgen]
      cases r with
      | pe id capacity ovf usage =>
          rw [StateUpdater.report, StateUpdater.updatePE_of_not_started rfl]
      | le id hostID demand =>
          rw [StateUpdater.report, StateUpdater.updateLE_of_not_started rfl]
    exact hr ((hall [.report r]).symm.trans hafter)
  refine ⟨⟨fun hall => hcut fun evs' => by rw [hall], fun hst evs' => by rw [hsame hst]⟩,
    hcut, fun hst evs' => by rw [hsame hst]⟩

/-- A pod on one of two nodes, and a session that has reported its move to the
other one, but is not closed yet. -/
def movingPod : List (Event 1) :=
  [.start EnumOrder.stored 1, .report (.pe "node1" (fun _ => 5) none none),
    .report (.pe "node2" (fun _ => 5) none none), .report (.le "pod" "node1" fun _ => 2),
    .stop EnumOrder.stored, .start EnumOrder.stored 2,
    .report (.pe "node1" (fun _ => 5) none none), .report (.pe "node2" (fun _ => 5) none none),
    .report (.le "pod" "node2" fun _ => 2)]

/-- A start with the number of the open session is refused and loses the pod: it
was on the first node before the session, and closing the session would put it
on the second. -/
theorem pod_lost :
    let e := ((create 0 .loadBalance : Evaluator 1 ℝ).run movingPod).2
    (e.updater.start EnumOrder.stored 2).1 = false
      ∧ ((((create 0 .loadBalance : Evaluator 1 ℝ).run (movingPod.take 5)).2.cs.mem.le 0).host
          = some 0)
      ∧ ((e.run [.stop EnumOrder.stored]).2.cs.mem.le 0).host = some 1
      ∧ (((e.step (.start EnumOrder.stored 2)).2.run [.stop EnumOrder.stored]).2.cs.mem.le 0).host
          = none
      ∧ ¬ ∀ evs', ((e.step (.start EnumOrder.stored 2)).2.run evs').2.cs = (e.run evs').2.cs := by
  have hafter : (((((create 0 .loadBalance : Evaluator 1 ℝ).run movingPod).2.step
      (.start EnumOrder.stored 2)).2.run [.stop EnumOrder.stored]).2.cs.mem.le 0).host = none := by
    decide
  have hwithout : (((((create 0 .loadBalance : Evaluator 1 ℝ).run movingPod).2.run
      [.stop EnumOrder.stored]).2.cs.mem.le 0).host = some 1) := by decide
  refine ⟨by decide, by decide, hwithout, hafter, fun hall => ?_⟩
  rw [hall, hwithout] at hafter
  exact absurd hafter (by simp)

/-- After the first session is closed, a start with its number is refused
without effect. -/
theorem refused_start_iff_movingPod :
    let e := ((create 0 .loadBalance : Evaluator 1 ℝ).run (movingPod.take 5)).2
    (e.updater.start EnumOrder.stored 1).1 = false ∧ e.updater.started = false
      ∧ ∀ evs', (e.step (.start EnumOrder.stored 1)).2.run evs' = e.run evs' := by
  intro e
  have hrefused : (e.updater.start EnumOrder.stored 1).1 = false := by decide
  have hst : e.updater.started = false := by decide
  exact ⟨hrefused, hst,
    ((refused_start_iff 0 .loadBalance (movingPod.take 5) EnumOrder.stored 1).1 hrefused).1.mpr hst⟩

end Evaluator

end KubeSafeScheduler.Pigeon
