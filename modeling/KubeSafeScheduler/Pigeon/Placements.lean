import KubeSafeScheduler.Pigeon.Sessions
import KubeSafeScheduler.Pigeon.Accounting

/-!
The placements that `stateupdater_stop` makes at its end.

Placements are deferred to the end of a session so that no resource overflows
while LEs move between PEs. What carries this is that the usage of a PE is at
most the sum of the demands it hosts (`CloudSystem.Counted` of `≤`), and that at
every point of the last loop a PE hosts only LEs whose last reported host it is.
The first part needs more than a session without usages: a usage that an earlier
session reported stays (`usage_left_over`).

* `placedAfter`, `placementResult`: the system after some rounds of the last
  loop, and what the `pe_placeLE` call of the next round returns.
* `host_placedAfter`: an LE hosted on the way is where `stop` leaves it.
* `hostedDemand_placedAfter_le`: what a PE hosts on the way is part of what is
  reported on it.
* `placements_fit`: the placements all fit, in whatever order they are made.
-/

namespace KubeSafeScheduler.Pigeon

variable {n : ℕ} {K : Type}

namespace StateUpdater

/-- The system after the first rounds of the last loop of `stateupdater_stop`. -/
def placedAfter (s : StateUpdater n K) (ord : EnumOrder) (rounds : List String) :
    CloudSystem n K :=
  rounds.foldl (s.removePEs.deleteLEs ord).effectPlacement (s.removePEs.deleteLEs ord).cs

/-- What the call of `pe_placeLE` in a round of the last loop of
`stateupdater_stop` returns, if there is one. -/
def placementResult (s : StateUpdater n K) (cs : CloudSystem n K) (leID : String) : Option Bool :=
  match s.lemap.get leID with
  | none => none
  | some l =>
      match (s.newplacements.get leID).bind cs.getPE with
      | none => none
      | some p => some (Pe.placeLE cs.mem p l true).1

/-- The demands of the LEs of the session whose last reported host is the given
one, summed for a resource. -/
def totalDemand (s : StateUpdater n K) (reports : List (Report n)) (host : String) (i : Fin n) :
    ℤ :=
  ((s.lemap.entries.filter fun e => lastHost reports e.1 = some host).map fun e =>
    (s.cs.mem.le e.2).demand i).sum

/-- All rounds together are the last phase of `stateupdater_stop`. -/
lemma placedAfter_all {s : StateUpdater n K} (hst : s.started = true) (ord : EnumOrder) :
    s.placedAfter ord (ord.order s.newplacements.getkeys) = (s.stop ord).cs := by
  rw [stop, if_pos hst]
  rfl

section Rounds

variable {s : StateUpdater n K} (h : s.WF) (hst : s.started = true) {ord : EnumOrder}
  {done rest : List String} (hrounds : ord.order s.newplacements.getkeys = done ++ rest)

include h hst hrounds

/-- After some rounds: names, capacities and demands are as before, the LEs of
the rounds done are placed, and the PEs are those that were observed. -/
lemma placedAfter_spec :
    Rehosts s.Known s.cs (s.placedAfter ord done) (fun l =>
        if (s.cs.mem.le l).label ∈ done ∧ s.lemap.get (s.cs.mem.le l).label = some l then
          (s.newplacements.get (s.cs.mem.le l).label).bind s.removePEs.cs.getPE
        else ((s.removePEs.deleteLEs ord).cs.mem.le l).host)
      ∧ (s.placedAfter ord done).pemap = s.removePEs.cs.pemap := by
  have b1 := deleteLEs_spec h hst ord
  have hready := ready_deleteLEs h hst ord
  have hnd : (done ++ rest).Nodup := by
    rw [← hrounds]
    exact ord.nodup_order.mpr s.newplacements.nodup_getkeys
  obtain ⟨c1, -, c3, -⟩ := foldl_effectPlacement (s.removePEs.deleteLEs ord) done b1.wf
    hnd.of_append_left hready.lemap hready.hosted fun id hid => hready.pending id
      (ord.mem_order.mp (hrounds ▸ List.mem_append_left rest hid))
  refine ⟨⟨c1.wf, b1.moves.trans c1.moves, b1.kept.trans c1.kept, c1.ds.trans b1.ds, fun l => ?_⟩,
    c3⟩
  rw [placedAfter, c1.host, b1.kept.leLabel]
  rfl

/-- The LE of a round that is still to come is not hosted. -/
lemma host_placedAfter_of_rest {id : String} (hid : id ∈ rest) {l : LeRef}
    (hl : s.lemap.get id = some l) : ((s.placedAfter ord done).mem.le l).host = none := by
  have hready := ready_deleteLEs h hst ord
  have hnd : (done ++ rest).Nodup := by
    rw [← hrounds]
    exact ord.nodup_order.mpr s.newplacements.nodup_getkeys
  have hlabel : (s.cs.mem.le l).label = id := ((h.session hst).lemap id l hl).1
  rw [(placedAfter_spec h hst hrounds).1.host, if_neg]
  · exact hready.pending id (ord.mem_order.mp (hrounds ▸ List.mem_append_right done hid)) l hl
  · rintro ⟨hdone, -⟩
    exact (List.disjoint_of_nodup_append hnd) (hlabel ▸ hdone) hid

/-- An LE that is hosted on the way is where `stateupdater_stop` leaves it. -/
lemma host_placedAfter {l : LeRef} {p : PeRef}
    (hl : ((s.placedAfter ord done).mem.le l).host = some p) :
    ((s.stop ord).cs.mem.le l).host = some p := by
  have hall : ord.order s.newplacements.getkeys = (done ++ rest) ++ [] := by simp [hrounds]
  have hspec := placedAfter_spec h hst hrounds
  rw [← placedAfter_all hst, hrounds, (placedAfter_spec h hst hall).1.host]
  by_cases hlater : (s.cs.mem.le l).label ∈ rest ∧ s.lemap.get (s.cs.mem.le l).label = some l
  · -- an LE of a later round would not be hosted yet
    rw [host_placedAfter_of_rest h hst hrounds hlater.1 hlater.2] at hl
    exact absurd hl (by simp)
  · have hiff : ((s.cs.mem.le l).label ∈ done ++ rest
        ∧ s.lemap.get (s.cs.mem.le l).label = some l)
        ↔ (s.cs.mem.le l).label ∈ done ∧ s.lemap.get (s.cs.mem.le l).label = some l := by
      rw [List.mem_append]
      tauto
    simp only [hiff]
    rw [hspec.1.host] at hl
    exact hl

end Rounds

/-! ### What a PE hosts on the way -/

section Fit

variable {s : StateUpdater n K} {reports : List (Report n)} (hf : Follows reports s)
  {ord : EnumOrder} {done rest : List String}
  (hrounds : ord.order s.newplacements.getkeys = done ++ rest)

include hf hrounds

/-- An LE that is hosted on the way is known to the session, and its host is the
one it was last reported on. -/
lemma lastHost_placedAfter {l : LeRef} {p : PeRef}
    (hl : ((s.placedAfter ord done).mem.le l).host = some p) :
    s.lemap.get (s.cs.mem.le l).label = some l
      ∧ lastHost reports (s.cs.mem.le l).label = some (s.cs.mem.pe p).label
      ∧ lastCapacity reports (s.cs.mem.pe p).label ≠ none := by
  have hstop := host_placedAfter hf.wf hf.started hrounds hl
  rw [(stop_spec hf.wf hf.started ord).host, hf.hostAfter_eq] at hstop
  split_ifs at hstop with hknown
  obtain ⟨host, hlast, hget⟩ := Option.bind_eq_some_iff.mp hstop
  split_ifs at hget with hreported
  have hlabel := (hf.wf.cs.getPE_eq_some.mp hget).2
  exact ⟨hknown, by rw [hlast, hlabel], by rw [hlabel]; exact hreported⟩

/-- What a PE hosts on the way is part of what is reported on it. -/
lemma hostedDemand_placedAfter_le (hdem : ∀ l, s.Known l → ∀ i, 0 ≤ (s.cs.mem.le l).demand i)
    {p : PeRef} (hp : p ∈ (s.placedAfter ord done).pes) (i : Fin n) :
    CloudSystem.hostedDemand (s.placedAfter ord done).mem p i
      ≤ s.totalDemand reports (s.cs.mem.pe p).label i := by
  obtain ⟨hspec, -⟩ := placedAfter_spec hf.wf hf.started hrounds
  set cs := s.placedAfter ord done with hcs
  have hhost : ∀ l ∈ (cs.mem.pe p).hostedLE, (cs.mem.le l).host = some p := fun l hl =>
    (hspec.wf.host_iff l p).mpr ⟨hp, hl⟩
  -- the hosted LEs, with their names, are entries of the map of the session
  set es := s.lemap.entries.filter fun e =>
    lastHost reports e.1 = some (s.cs.mem.pe p).label with hes
  have hsub : ((cs.mem.pe p).hostedLE.map fun l => ((s.cs.mem.le l).label, l)).Subperm es := by
    refine List.subperm_of_subset ?_ fun e he => ?_
    · exact (hspec.wf.hosted_nodup p hp).map fun a b hab => (Prod.mk.inj hab).2
    · obtain ⟨l, hl, rfl⟩ := List.mem_map.mp he
      obtain ⟨hknown, hlast, -⟩ := lastHost_placedAfter hf hrounds (hhost l hl)
      exact List.mem_filter.mpr ⟨StringMap.mem_entries.mpr hknown, by simpa using hlast⟩
  obtain ⟨es', hperm, hsub'⟩ := hsub
  have hpos : ∀ x ∈ es.map fun e => (s.cs.mem.le e.2).demand i, 0 ≤ x := by
    intro x hx
    obtain ⟨e, he, rfl⟩ := List.mem_map.mp hx
    exact hdem e.2 ⟨e.1, StringMap.mem_entries.mp (List.mem_filter.mp he).1⟩ i
  calc CloudSystem.hostedDemand cs.mem p i
      = (((cs.mem.pe p).hostedLE.map fun l => ((s.cs.mem.le l).label, l)).map
          fun e => (s.cs.mem.le e.2).demand i).sum := by
        rw [CloudSystem.hostedDemand, List.map_map]
        exact congrArg List.sum (List.map_congr_left fun l _ => by rw [hspec.kept.demand]; rfl)
    _ = (es'.map fun e => (s.cs.mem.le e.2).demand i).sum := (hperm.map _).symm.sum_eq
    _ ≤ (es.map fun e => (s.cs.mem.le e.2).demand i).sum :=
        (hsub'.map _).sum_le_sum hpos

/-- After some rounds no usage is above its capacity, if what is reported on
every PE fits. -/
lemma usage_placedAfter_le (hb : s.Books (· ≤ ·)) (hc : HoldsCapacities reports s)
    (hfit : ∀ host c, lastCapacity reports host = some c → ∀ i, s.totalDemand reports host i ≤ c i)
    {p : PeRef} (hp : p ∈ (s.placedAfter ord done).pes) (i : Fin n) :
    ((s.placedAfter ord done).mem.pe p).resource.usage i
      ≤ ((s.placedAfter ord done).mem.pe p).resource.capacity i := by
  have hdem := hb.known hf.started
  obtain ⟨hspec, hpemap⟩ := placedAfter_spec hf.wf hf.started hrounds
  have hcounted := CloudSystem.counted_of_moves CloudSystem.settles_le hspec.moves hb.counted hdem
  have hget := (hspec.wf.getPE_eq_some).mpr ⟨hp, rfl⟩
  rw [hspec.kept.label, CloudSystem.getPE, hpemap] at hget
  have hobs := getPE_removePEs hf.wf.cs (s.cs.mem.pe p).label
  rw [CloudSystem.getPE, hget] at hobs
  split_ifs at hobs with hmem
  obtain ⟨c, hlast⟩ := Option.ne_none_iff_exists'.mp ((hf.observedPEs _).mp hmem)
  -- the last capacity is not negative, since what is reported there fits
  have hpos : ∀ k, 0 ≤ c k := by
    intro k
    refine le_trans (List.sum_nonneg fun x hx => ?_) (hfit _ c hlast k)
    obtain ⟨e, he, rfl⟩ := List.mem_map.mp hx
    exact hdem e.2 ⟨e.1, StringMap.mem_entries.mp (List.mem_filter.mp he).1⟩ k
  obtain ⟨q, hq, hqc⟩ := hc _ c hlast hpos
  have hqp : p = q := Option.some.inj (hobs.trans hq)
  calc ((s.placedAfter ord done).mem.pe p).resource.usage i
      ≤ CloudSystem.hostedDemand (s.placedAfter ord done).mem p i := hcounted.usage p hp i
    _ ≤ s.totalDemand reports (s.cs.mem.pe p).label i :=
        hostedDemand_placedAfter_le hf hrounds hdem hp i
    _ ≤ c i := hfit _ c hlast i
    _ = ((s.placedAfter ord done).mem.pe p).resource.capacity i := by
        rw [hspec.kept.capacity, hqp, hqc]

end Fit

/-- The call of `pe_placeLE` in a round returns whether the usages after the round
are within the capacities. -/
lemma placementResult_of_fits {s : StateUpdater n K} {cs : CloudSystem n K} (hwf : cs.WF)
    {id : String} (hfree : ∀ l, s.lemap.get id = some l → (cs.mem.le l).host = none)
    (hfits : ∀ p ∈ (s.effectPlacement cs id).pes, ∀ i,
      ((s.effectPlacement cs id).mem.pe p).resource.usage i
        ≤ ((s.effectPlacement cs id).mem.pe p).resource.capacity i) :
    s.placementResult cs id ≠ some false := by
  rw [effectPlacement] at hfits
  rw [placementResult]
  cases hlook : s.lemap.get id with
  | none => simp
  | some l =>
      cases hbind : (s.newplacements.get id).bind cs.getPE with
      | none => simp
      | some p =>
          obtain ⟨host, -, hget⟩ := Option.bind_eq_some_iff.mp hbind
          have hp := (hwf.getPE_eq_some.mp hget).1
          have hnot := hwf.notMem_of_host_eq_none (hfree l hlook) hp
          simp only [hlook, hbind] at hfits
          have hle := hfits p hp
          simp only [Pe.placeLE_usage hnot, (Pe.frame_placeLE cs.mem p l).capacity] at hle
          simp [Pe.placeLE, hnot, Resource.use, hle]

end StateUpdater

namespace Evaluator

variable [Field K] [LinearOrder K] [HasSqrt K] [FloorRing K]

/-- From every reachable state in which no usage is above the sum of the demands
hosted there, a session that reports no usages and no negative demands, and on
every PE it reports no more than fits its last capacity, makes its placements
without overflow: at every point of the last loop of `stateupdater_stop`, from
its beginning to the end of the session, no usage is above its capacity, and
every `pe_placeLE` call returns `true`, in whatever order the calls come. -/
theorem placements_fit (resindex : ℤ) (type : ObjectiveType) (evs : List (Event n))
    (generation : ℤ) (ord ord' : EnumOrder) (reports : List (Report n))
    (hgen : ((create resindex type : Evaluator n K).run evs).2.updater.gen < generation)
    (hcounted : ((((create resindex type : Evaluator n K).run evs).2.step
      (.start ord generation)).2.cs).Counted (· ≤ ·))
    (hplain : ∀ r ∈ reports, (Event.report r).Plain) :
    let e := ((create resindex type : Evaluator n K).run evs).2
    let s := reports.foldl StateUpdater.report (e.updater.start ord generation).2
    (∀ host c, lastCapacity reports host = some c → ∀ i, s.totalDemand reports host i ≤ c i) →
    s.placedAfter ord' [] = (s.removePEs.deleteLEs ord').cs
      ∧ s.placedAfter ord' (ord'.order s.newplacements.getkeys) = (s.stop ord').cs
      ∧ ∀ done rest, ord'.order s.newplacements.getkeys = done ++ rest →
          (∀ p ∈ (s.placedAfter ord' done).pes, ∀ i,
              ((s.placedAfter ord' done).mem.pe p).resource.usage i
                ≤ ((s.placedAfter ord' done).mem.pe p).resource.capacity i)
            ∧ ∀ id rest', rest = id :: rest' →
                s.placementResult (s.placedAfter ord' done) id ≠ some false := by
  intro e s hfit
  have hwf : e.updater.WF := wf_run (wf_create resindex type) evs
  have hopened := (StateUpdater.start_spec hwf ord hgen).2
  obtain ⟨hf, hc⟩ := StateUpdater.follows_reports
    (StateUpdater.follows_start hwf ord hgen) reports
  have hbooks : s.Books (· ≤ ·) := by
    have hstart : ((e.updater.start ord generation).2).Books (· ≤ ·) :=
      StateUpdater.Books.of_opened (hwf.stop ord).cs hopened hcounted
    exact hstart.reports CloudSystem.settles_le reports hplain
  have hfits : ∀ done rest, ord'.order s.newplacements.getkeys = done ++ rest →
      ∀ p ∈ (s.placedAfter ord' done).pes, ∀ i,
        ((s.placedAfter ord' done).mem.pe p).resource.usage i
          ≤ ((s.placedAfter ord' done).mem.pe p).resource.capacity i :=
    fun done rest hrounds p hp i =>
      StateUpdater.usage_placedAfter_le hf hrounds hbooks hc hfit hp i
  refine ⟨rfl, StateUpdater.placedAfter_all hf.started ord', fun done rest hrounds =>
    ⟨hfits done rest hrounds, ?_⟩⟩
  rintro id rest' rfl
  have hspec := (StateUpdater.placedAfter_spec hf.wf hf.started hrounds).1
  refine StateUpdater.placementResult_of_fits hspec.wf (fun l hl =>
    StateUpdater.host_placedAfter_of_rest hf.wf hf.started hrounds List.mem_cons_self hl) ?_
  -- the system after this round is the one of the next point of the loop
  have hnext := hfits (done ++ [id]) rest' (by simp [hrounds])
  rw [StateUpdater.placedAfter, List.foldl_append] at hnext
  exact hnext

/-- In a run that reports no usages and no negative demands every state is such
that no usage is above the sum of the demands. -/
lemma counted_of_plain (resindex : ℤ) (type : ObjectiveType) (evs : List (Event n))
    (hevs : ∀ ev ∈ evs, ev.Plain) (ord : EnumOrder) (generation : ℤ) :
    ((((create resindex type : Evaluator n K).run evs).2.step
      (.start ord generation)).2.cs).Counted (· ≤ ·) := by
  have hcreate : (create resindex type : Evaluator n K).updater.Accounts :=
    accounts_create resindex type
  have hplain : (Event.start ord generation : Event n).Plain := trivial
  have h := accounts_step (accounts_run hcreate evs hevs) hplain
  exact ⟨fun p hp i => (h.balanced.usage p hp i).le, h.balanced.demand⟩

/-- Two nodes with no room to spare swap their pods. -/
def swapSession : List (Event 1) :=
  [.start EnumOrder.stored 1, .report (.pe "node1" (fun _ => 5) none none),
    .report (.pe "node2" (fun _ => 5) none none), .report (.le "pod1" "node1" fun _ => 5),
    .report (.le "pod2" "node2" fun _ => 5), .stop EnumOrder.stored]

/-- The reports of the session in which they swap them. -/
def swapReports : List (Report 1) :=
  [.pe "node1" (fun _ => 5) none none, .pe "node2" (fun _ => 5) none none,
    .le "pod1" "node2" fun _ => 5, .le "pod2" "node1" fun _ => 5]

theorem placements_fit_swap :
    let e := ((create 0 .loadBalance : Evaluator 1 ℝ).run swapSession).2
    let s := swapReports.foldl StateUpdater.report (e.updater.start EnumOrder.stored 2).2
    EnumOrder.stored.order s.newplacements.getkeys = ["pod2", "pod1"]
      ∧ s.placementResult (s.placedAfter EnumOrder.stored ["pod2"]) "pod1" ≠ some false := by
  intro e s
  have hrounds : EnumOrder.stored.order s.newplacements.getkeys = ["pod2"] ++ ["pod1"] := by
    decide
  have hfit : ∀ host c, lastCapacity swapReports host = some c →
      ∀ i, s.totalDemand swapReports host i ≤ c i := by
    intro host c hc i
    obtain ⟨capacity, ovf, usage, hmem⟩ := lastCapacity_ne_none.mp (hc ▸ Option.some_ne_none c)
    have hhost : host = "node1" ∨ host = "node2" := by
      simp only [swapReports, List.mem_cons, Report.pe.injEq, reduceCtorEq, List.not_mem_nil,
        or_false] at hmem
      exact hmem.imp And.left And.left
    rcases hhost with rfl | rfl
    · obtain rfl : (fun _ => 5) = c := Option.some.inj hc
      have hload : ∀ i, s.totalDemand swapReports "node1" i = 5 := by decide
      exact (hload i).le
    · obtain rfl : (fun _ => 5) = c := Option.some.inj hc
      have hload : ∀ i, s.totalDemand swapReports "node2" i = 5 := by decide
      exact (hload i).le
  have h := placements_fit (K := ℝ) 0 .loadBalance swapSession 2 EnumOrder.stored EnumOrder.stored
    swapReports (show (1 : ℤ) < 2 by decide)
    (counted_of_plain 0 .loadBalance swapSession (by simp [swapSession, Event.Plain]) _ _)
    (by simp [swapReports, Event.Plain]) hfit
  exact ⟨hrounds, (h.2.2 ["pod2"] ["pod1"] hrounds).2 "pod1" [] rfl⟩

/-- An earlier session reports a usage of eight on a node, and a later one
without usages a pod of demand five there, which is within its capacity of ten:
the usage stays, and the placement of the pod overflows. -/
theorem usage_left_over :
    let e := ((create 0 .loadBalance : Evaluator 1 ℝ).run
      [.start EnumOrder.stored 1, .report (.pe "node" (fun _ => 10) none (some fun _ => 8)),
        .stop EnumOrder.stored]).2
    let reports : List (Report 1) :=
      [.pe "node" (fun _ => 10) none none, .le "pod" "node" fun _ => 5]
    let s := reports.foldl StateUpdater.report (e.updater.start EnumOrder.stored 2).2
    (∀ r ∈ reports, (Event.report r).Plain)
      ∧ (∀ host c, lastCapacity reports host = some c → ∀ i, s.totalDemand reports host i ≤ c i)
      ∧ EnumOrder.stored.order s.newplacements.getkeys = ["pod"]
      ∧ s.placementResult (s.placedAfter EnumOrder.stored []) "pod" = some false
      ∧ ¬ ∀ p ∈ (s.stop EnumOrder.stored).cs.pes, ∀ i,
          ((s.stop EnumOrder.stored).cs.mem.pe p).resource.usage i
            ≤ ((s.stop EnumOrder.stored).cs.mem.pe p).resource.capacity i := by
  intro e reports s
  refine ⟨by simp [reports, Event.Plain], fun host c hc i => ?_, by decide,
    by decide, fun hall => ?_⟩
  · obtain ⟨capacity, ovf, usage, hmem⟩ := lastCapacity_ne_none.mp (hc ▸ Option.some_ne_none c)
    obtain rfl : host = "node" := by
      simp only [reports, List.mem_cons, Report.pe.injEq, reduceCtorEq, List.not_mem_nil,
        or_false] at hmem
      exact hmem.1
    obtain rfl : (fun _ => 10) = c := Option.some.inj hc
    have hload : ∀ i, s.totalDemand reports "node" i = 5 := by decide
    rw [hload i]
    norm_num
  · have hover : ((s.stop EnumOrder.stored).cs.mem.pe 0).resource.usage 0 = 13
        ∧ ((s.stop EnumOrder.stored).cs.mem.pe 0).resource.capacity 0 = 10
        ∧ 0 ∈ (s.stop EnumOrder.stored).cs.pes := by decide
    have hle := hall 0 hover.2.2 0
    rw [hover.1, hover.2.1] at hle
    norm_num at hle

end Evaluator

end KubeSafeScheduler.Pigeon
