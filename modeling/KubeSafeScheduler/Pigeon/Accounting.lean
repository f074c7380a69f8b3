import KubeSafeScheduler.Pigeon.Evaluator

/-!
The accounting of resources: when PEs are reported without usages, the usage of
a PE is at all times the sum of the demands of the LEs it hosts.

The clamp at zero of `resource_release` never acts in such runs, since what is
released is a term of the sum and the other terms are not negative.

* `CloudSystem.Balanced`: the sums are right and no hosted demand is negative;
  `CloudSystem.Counted`: the same for any relation of usages to sums that using
  and releasing keep (`Settles`), such as equality and `≤`.
* `Move.counted`: each change made by `stop` keeps it; `StateUpdater.Books` is
  the invariant of the updater, `StateUpdater.Accounts` its case of equality and
  `accounts_step` the step lemma.
* `usage_eq_sum_of_run`: the four invariants in every state of a run.
-/

namespace KubeSafeScheduler.Pigeon

variable {n : ℕ} {K : Type}

namespace CloudSystem

/-- The demands of the LEs in the list of a PE, summed for a resource. -/
def hostedDemand (m : Memory n) (p : PeRef) (i : Fin n) : ℤ :=
  ((m.pe p).hostedLE.map fun l => (m.le l).demand i).sum

/-- The usage of every PE is the sum of the demands it hosts, none of them
negative. -/
structure Balanced (cs : CloudSystem n K) : Prop where
  usage : ∀ p ∈ cs.pes, ∀ i, (cs.mem.pe p).resource.usage i = hostedDemand cs.mem p i
  demand : ∀ p ∈ cs.pes, ∀ l ∈ (cs.mem.pe p).hostedLE, ∀ i, 0 ≤ (cs.mem.le l).demand i

/-- A relation of usages to sums that `resource_use` and `resource_release` keep. -/
structure Settles (R : ℤ → ℤ → Prop) : Prop where
  zero : R 0 0
  use : ∀ {u v : ℤ} (d : ℤ), R u v → R (u + d) (v + d)
  release : ∀ {u v d : ℤ}, R u v → d ≤ v → R (if u - d < 0 then 0 else u - d) (v - d)

lemma settles_eq : Settles (· = ·) where
  zero := rfl
  use d h := by rw [h]
  release h hd := by
    rw [h, if_neg (by omega)]

lemma settles_le : Settles (· ≤ ·) where
  zero := le_refl _
  use d h := by omega
  release h hd := by
    split_ifs <;> omega

/-- The usage of every PE is related to the sum of the demands it hosts, none of
them negative. -/
structure Counted (R : ℤ → ℤ → Prop) (cs : CloudSystem n K) : Prop where
  usage : ∀ p ∈ cs.pes, ∀ i, R ((cs.mem.pe p).resource.usage i) (hostedDemand cs.mem p i)
  demand : ∀ p ∈ cs.pes, ∀ l ∈ (cs.mem.pe p).hostedLE, ∀ i, 0 ≤ (cs.mem.le l).demand i

lemma balanced_iff {cs : CloudSystem n K} : cs.Balanced ↔ cs.Counted (· = ·) :=
  ⟨fun h => ⟨h.usage, h.demand⟩, fun h => ⟨h.usage, h.demand⟩⟩

lemma hostedDemand_nonneg {m : Memory n} {p : PeRef}
    (h : ∀ l ∈ (m.pe p).hostedLE, ∀ i, 0 ≤ (m.le l).demand i) (i : Fin n) :
    0 ≤ hostedDemand m p i := by
  refine List.sum_nonneg fun x hx => ?_
  obtain ⟨l, hl, rfl⟩ := List.mem_map.mp hx
  exact h l hl i

lemma Balanced.usage_nonneg {cs : CloudSystem n K} (h : cs.Balanced) {p : PeRef} (hp : p ∈ cs.pes)
    (i : Fin n) : 0 ≤ (cs.mem.pe p).resource.usage i := by
  rw [h.usage p hp]
  exact hostedDemand_nonneg (h.demand p hp) i

/-- The sum depends on the list of the PE and the demands of its LEs only. -/
lemma hostedDemand_congr {m m' : Memory n} {p : PeRef}
    (hlist : (m'.pe p).hostedLE = (m.pe p).hostedLE)
    (hdem : ∀ l ∈ (m.pe p).hostedLE, (m'.le l).demand = (m.le l).demand) (i : Fin n) :
    hostedDemand m' p i = hostedDemand m p i := by
  rw [hostedDemand, hostedDemand, hlist]
  exact congrArg List.sum (List.map_congr_left fun l hl => by rw [hdem l hl])

namespace Counted

variable {R : ℤ → ℤ → Prop} {cs cs' : CloudSystem n K}

/-- A change that keeps the lists, the usages and the hosted demands of the PEs
that stay, and brings in empty PEs at most. -/
lemma of_same (h : cs.Counted R) (hR : Settles R)
    (hsame : ∀ p ∈ cs'.pes, (p ∈ cs.pes ∧ (cs'.mem.pe p).hostedLE = (cs.mem.pe p).hostedLE
        ∧ (cs'.mem.pe p).resource.usage = (cs.mem.pe p).resource.usage
        ∧ ∀ l ∈ (cs.mem.pe p).hostedLE, (cs'.mem.le l).demand = (cs.mem.le l).demand)
      ∨ ((cs'.mem.pe p).hostedLE = [] ∧ ∀ i, (cs'.mem.pe p).resource.usage i = 0)) :
    cs'.Counted R := by
  refine ⟨fun p hp i => ?_, fun p hp l hl i => ?_⟩
  · rcases hsame p hp with ⟨hp', hlist, huse, hdem⟩ | ⟨hlist, huse⟩
    · rw [huse, hostedDemand_congr hlist hdem]
      exact h.usage p hp' i
    · rw [huse, hostedDemand, hlist]
      exact hR.zero
  · rcases hsame p hp with ⟨hp', hlist, -, hdem⟩ | ⟨hlist, -⟩
    · rw [hlist] at hl
      rw [hdem l hl]
      exact h.demand p hp' l hl i
    · rw [hlist] at hl
      exact absurd hl List.not_mem_nil

/-- Removing an LE: its demand is a term of the sum. -/
lemma removeLE (h : cs.Counted R) (hR : Settles R) {p : PeRef} (hp : p ∈ cs.pes) (l : LeRef) :
    Counted R { cs with mem := (Pe.removeLE cs.mem p l true).2 } := by
  by_cases hl : l ∈ (cs.mem.pe p).hostedLE
  swap
  · rw [Pe.removeLE_of_notMem hl]; exact h
  have hf := Pe.frame_removeLE cs.mem p l
  have hlist := Pe.removeLE_hostedLE cs.mem p l
  have hrest : ∀ k ∈ ((Pe.removeLE cs.mem p l true).2.pe p).hostedLE,
      ∀ i, 0 ≤ ((Pe.removeLE cs.mem p l true).2.le k).demand i := by
    intro k hk i
    rw [hlist] at hk
    rw [hf.demand]
    exact h.demand p hp k (List.mem_of_mem_erase hk) i
  have hsum : ∀ i, hostedDemand cs.mem p i
      = (cs.mem.le l).demand i + hostedDemand (Pe.removeLE cs.mem p l true).2 p i := by
    intro i
    simp only [hostedDemand, hlist, hf.demand]
    exact ((List.perm_cons_erase hl).map _).sum_eq
  refine ⟨fun q hq i => ?_, fun q hq k hk i => ?_⟩
  · by_cases hqp : q = p
    · subst hqp
      have hpos := hostedDemand_nonneg hrest i
      have hthis := hsum i
      have hrel := hR.release (d := (cs.mem.le l).demand i) (h.usage q hp i) (by omega)
      show R (((Pe.removeLE cs.mem q l true).2.pe q).resource.usage i) _
      simp only [Pe.removeLE_usage hl, Resource.release]
      rwa [hthis, add_sub_cancel_left] at hrel
    · show R (((Pe.removeLE cs.mem p l true).2.pe q).resource.usage i) _
      rw [Pe.removeLE_pe_of_ne hqp,
        hostedDemand_congr (by rw [Pe.removeLE_pe_of_ne hqp]) (fun k _ => hf.demand k)]
      exact h.usage q hq i
  · by_cases hqp : q = p
    · subst hqp
      exact hrest k hk i
    · rw [Pe.removeLE_pe_of_ne hqp] at hk
      rw [hf.demand]
      exact h.demand q hq k hk i

/-- Placing an LE that is not hosted and whose demand is not negative. -/
lemma placeLE (h : cs.Counted R) (hR : Settles R) (hwf : cs.WF) {p : PeRef}
    {l : LeRef} (hp : p ∈ cs.pes) (hl : (cs.mem.le l).host = none)
    (hd : ∀ i, 0 ≤ (cs.mem.le l).demand i) :
    Counted R { cs with mem := (Pe.placeLE cs.mem p l true).2 } := by
  have hnot := hwf.notMem_of_host_eq_none hl hp
  have hf := Pe.frame_placeLE cs.mem p l
  refine ⟨fun q hq i => ?_, fun q hq k hk i => ?_⟩
  · by_cases hqp : q = p
    · subst hqp
      show R (((Pe.placeLE cs.mem q l true).2.pe q).resource.usage i) _
      simp only [Pe.placeLE_usage hnot, hostedDemand, Pe.placeLE_hostedLE hnot,
        hf.demand, List.map_append, List.sum_append, List.map_cons, List.map_nil,
        List.sum_singleton]
      exact hR.use _ (h.usage q hp i)
    · show R (((Pe.placeLE cs.mem p l true).2.pe q).resource.usage i) _
      rw [Pe.placeLE_pe_of_ne hqp,
        hostedDemand_congr (by rw [Pe.placeLE_pe_of_ne hqp]) (fun k _ => hf.demand k)]
      exact h.usage q hq i
  · rw [hf.demand]
    by_cases hqp : q = p
    · subst hqp
      rw [Pe.placeLE_hostedLE hnot, List.mem_append, List.mem_singleton] at hk
      rcases hk with hk | rfl
      · exact h.demand q hp k hk i
      · exact hd i
    · rw [Pe.placeLE_pe_of_ne hqp] at hk
      exact h.demand q hq k hk i

end Counted

/-- A move keeps the demands. -/
lemma Move.demand {known : LeRef → Prop} {cs cs' : CloudSystem n K} (h : Move known cs cs')
    (l : LeRef) : (cs'.mem.le l).demand = (cs.mem.le l).demand := by
  cases h with
  | removePE h peid =>
      rw [CloudSystem.removePE]
      cases cs.pemap.get peid with
      | none => rfl
      | some p => exact (Pe.frame_clear cs.mem p).demand l
  | resetpes h => rw [(resetpes_frame cs h.pes_nodup).2.2.2.1]
  | removeLE h hp k => exact (Pe.frame_removeLE _ _ _).demand l
  | placeLE h hp hl hk => exact (Pe.frame_placeLE _ _ _).demand l

/-- A move keeps the relation, when the demands of the LEs it may place are not
negative. -/
lemma Move.counted {R : ℤ → ℤ → Prop} (hR : Settles R) {known : LeRef → Prop}
    {cs cs' : CloudSystem n K} (h : Move known cs cs') (hb : cs.Counted R)
    (hknown : ∀ l, known l → ∀ i, 0 ≤ (cs.mem.le l).demand i) : cs'.Counted R := by
  cases h with
  | removePE h peid =>
      rw [CloudSystem.removePE]
      cases hlook : cs.pemap.get peid with
      | none => exact hb
      | some p =>
          obtain ⟨-, hother, -⟩ := Pe.clear_spec cs.mem p
          refine hb.of_same hR fun q hq => Or.inl ?_
          obtain ⟨hqp, hq'⟩ := h.pes_nodup.mem_erase_iff.mp hq
          exact ⟨hq', by rw [hother q hqp], by rw [hother q hqp],
            fun l _ => (Pe.frame_clear cs.mem p).demand l⟩
  | resetpes h =>
      obtain ⟨r1, -, -, r4, -, -, r7⟩ := resetpes_frame cs h.pes_nodup
      refine hb.of_same hR fun q hq =>
        Or.inl ⟨r1 ▸ hq, (r7 q).2.2, by rw [(r7 q).2.1], fun l _ => ?_⟩
      rw [r4]
  | removeLE h hp l => exact hb.removeLE hR hp l
  | placeLE h hp hl hk => exact hb.placeLE hR h hp hl (hknown _ hk)

/-- A sequence of moves keeps the relation. -/
lemma counted_of_moves {R : ℤ → ℤ → Prop} (hR : Settles R) {known : LeRef → Prop}
    {cs cs' : CloudSystem n K} (h : Relation.ReflTransGen (Move known) cs cs')
    (hb : cs.Counted R) (hknown : ∀ l, known l → ∀ i, 0 ≤ (cs.mem.le l).demand i) :
    cs'.Counted R := by
  have key : cs'.Counted R ∧ ∀ l, (cs'.mem.le l).demand = (cs.mem.le l).demand := by
    induction h with
    | refl => exact ⟨hb, fun _ => rfl⟩
    | tail hpath hmove ih =>
        refine ⟨hmove.counted hR ih.1 fun l hl i => ?_, fun l => (hmove.demand l).trans (ih.2 l)⟩
        rw [ih.2 l]
        exact hknown l hl i
  exact key.1

end CloudSystem

/-! ### The updater -/

/-- The accounting invariant of the updater: the sums are right, and the LEs
that an open session knows have demands that are not negative. -/
structure StateUpdater.Accounts (s : StateUpdater n K) : Prop where
  wf : s.WF
  balanced : s.cs.Balanced
  known : s.started = true → ∀ l, s.Known l → ∀ i, 0 ≤ (s.cs.mem.le l).demand i

/-- The same, for any relation of usages to sums. -/
structure StateUpdater.Books (R : ℤ → ℤ → Prop) (s : StateUpdater n K) : Prop where
  wf : s.WF
  counted : s.cs.Counted R
  known : s.started = true → ∀ l, s.Known l → ∀ i, 0 ≤ (s.cs.mem.le l).demand i

lemma StateUpdater.accounts_iff {s : StateUpdater n K} : s.Accounts ↔ s.Books (· = ·) :=
  ⟨fun h => ⟨h.wf, CloudSystem.balanced_iff.mp h.balanced, h.known⟩,
    fun h => ⟨h.wf, CloudSystem.balanced_iff.mpr h.counted, h.known⟩⟩

namespace StateUpdater.Books

open CloudSystem

variable {R : ℤ → ℤ → Prop} {s : StateUpdater n K}

lemma stop (h : s.Books R) (hR : Settles R) (ord : EnumOrder) : (s.stop ord).Books R := by
  cases hst : s.started with
  | false => rwa [stop_of_not_started hst]
  | true =>
      have hc := stop_spec h.wf hst ord
      refine ⟨h.wf.stop ord, counted_of_moves hR hc.moves h.counted (h.known hst), ?_⟩
      rw [hc.started]
      simp

/-- A new session knows the hosted LEs. -/
lemma of_opened {r : StateUpdater n K} {generation : ℤ} (hwf : s.cs.WF)
    (h : Opened s r generation) (hc : r.cs.Counted R) : r.Books R := by
  refine ⟨h.wf hwf, hc, fun _ l hl i => ?_⟩
  obtain ⟨id, hid⟩ := hl
  obtain ⟨hhost, -⟩ := (h.lemap id l).mp hid
  obtain ⟨p, hp⟩ := Option.ne_none_iff_exists'.mp hhost
  obtain ⟨hp, hlp⟩ := (hwf.host_iff l p).mp hp
  rw [← h.cs] at hp hlp
  exact hc.demand p hp l hlp i

lemma start (h : s.Books R) (hR : Settles R) (ord : EnumOrder) (generation : ℤ) :
    (s.start ord generation).2.Books R := by
  by_cases hgen : generation ≤ s.gen
  · refine ⟨h.wf.start ord generation, ?_, ?_⟩
    · rw [StateUpdater.start, if_pos hgen]
      exact h.counted
    · rw [StateUpdater.start, if_pos hgen]
      simp
  · have ho := (start_spec h.wf ord (not_le.mp hgen)).2
    refine of_opened (h.wf.stop ord).cs ho ?_
    rw [ho.cs]
    exact (h.stop hR ord).counted

lemma updatePE (h : s.Books R) (hR : Settles R) (id : String) (capacity : Fin n → ℤ)
    (ovf : Option (Fin n → Bool)) : (s.updatePE id capacity ovf none).Books R := by
  cases hst : s.started with
  | false => rwa [updatePE_of_not_started hst]
  | true =>
      have hr := updatePE_spec h.wf.cs hst id capacity ovf none
      refine ⟨h.wf.updatePE id capacity ovf none, h.counted.of_same hR fun p hp => ?_,
        fun _ l hl i => ?_⟩
      · by_cases hold : p ∈ s.cs.pes
        · exact Or.inl ⟨hold, hr.hostedLE p hold, hr.usage_none rfl p hold,
            fun l _ => by rw [hr.le]⟩
        · rw [hr.added p hp hold]
          exact Or.inr ⟨rfl, fun i => rfl⟩
      · rw [Known, hr.lemap] at hl
        rw [hr.le]
        exact h.known hst l hl i

/-- Allocating an LE, whatever its demand, keeps the relation. -/
lemma counted_newLe (hR : Settles R) (hwf : s.cs.WF) (hb : s.cs.Counted R) (x : Le n) :
    CloudSystem.Counted R { s.cs with mem := (s.cs.mem.newLe x).1 } := by
  refine hb.of_same hR fun p hp => Or.inl ⟨hp, rfl, rfl, fun l hl => ?_⟩
  have hlt := hwf.host_lt l (by rw [(hwf.host_iff l p).mpr ⟨hp, hl⟩]; simp)
  exact congrArg Le.demand (Memory.newLe_fst_le_of_ne _ _ hlt.ne)

lemma updateLE (h : s.Books R) (hR : Settles R) (id hostID : String) {demand : Fin n → ℤ}
    (hd : ∀ i, 0 ≤ demand i) : (s.updateLE id hostID demand).Books R := by
  cases hst : s.started with
  | false => rwa [updateLE_of_not_started hst]
  | true =>
      have hknown := h.known hst
      refine ⟨h.wf.updateLE id hostID demand, ?_, fun _ l hl i => ?_⟩
      · rcases updateLE_cases s id hostID demand with ⟨hcs, -⟩ | ⟨p, l, hl, hcs, -⟩ | ⟨hcs, -⟩
        · rw [hcs]; exact h.counted
        · rw [hcs]; exact h.counted.removeLE hR ((h.wf.cs.host_iff l p).mp hl).1 l
        · rw [hcs]; exact counted_newLe hR h.wf.cs h.counted _
      · rcases updateLE_cases s id hostID demand with ⟨hcs, hmap⟩ | ⟨p, k, hk, hcs, hmap⟩
          | ⟨hcs, hmap⟩
        · rw [hcs]
          rw [Known, hmap] at hl
          exact hknown l hl i
        · rw [hcs]
          rw [Known, hmap] at hl
          show 0 ≤ ((Pe.removeLE s.cs.mem p k true).2.le l).demand i
          rw [(Pe.frame_removeLE _ _ _).demand]
          exact hknown l hl i
        · rw [hcs]
          rw [Known, hmap] at hl
          obtain ⟨name, hname⟩ := hl
          rw [StringMap.get_insert] at hname
          split_ifs at hname with hc
          · rw [← Option.some.inj hname]
            show 0 ≤ ((s.cs.mem.newLe (Le.create id demand)).1.le s.cs.mem.leCount).demand i
            rw [Memory.newLe_fst_le_self]
            exact hd i
          · have hlt := ((h.wf.session hst).lemap name l hname).2
            show 0 ≤ ((s.cs.mem.newLe (Le.create id demand)).1.le l).demand i
            rw [Memory.newLe_fst_le_of_ne _ _ hlt.ne]
            exact hknown l ⟨name, hname⟩ i

end StateUpdater.Books

/-! ### Runs -/

/-- PEs are reported without usage, and LEs with a demand that is not
negative. -/
def Event.Plain : Event n → Prop
  | .report (.pe _ _ _ usage) => usage = none
  | .report (.le _ _ demand) => ∀ i, 0 ≤ demand i
  | _ => True

/-- A plain report keeps the books. -/
lemma StateUpdater.Books.report {R : ℤ → ℤ → Prop} {s : StateUpdater n K} (h : s.Books R)
    (hR : CloudSystem.Settles R) {r : Report n} (hr : (Event.report r).Plain) :
    (s.report r).Books R := by
  cases r with
  | pe id capacity ovf usage =>
      simp only [Event.Plain] at hr
      subst hr
      exact h.updatePE hR id capacity ovf
  | le id hostID demand => exact h.updateLE hR id hostID hr

/-- Plain reports keep the books. -/
lemma StateUpdater.Books.reports {R : ℤ → ℤ → Prop} {s : StateUpdater n K} (h : s.Books R)
    (hR : CloudSystem.Settles R) (reports : List (Report n))
    (hreports : ∀ r ∈ reports, (Event.report r).Plain) :
    (reports.foldl StateUpdater.report s).Books R := by
  induction reports generalizing s with
  | nil => exact h
  | cons r reports ih =>
      exact ih (h.report hR (hreports r List.mem_cons_self))
        fun x hx => hreports x (List.mem_cons_of_mem _ hx)

namespace Evaluator

variable [Field K] [LinearOrder K] [HasSqrt K] [FloorRing K]

/-- Every event keeps the accounts: an evaluation undoes its trials exactly,
since no usage is negative. -/
lemma accounts_step {e : Evaluator n K} (h : e.updater.Accounts) {ev : Event n} (hev : ev.Plain) :
    (e.step ev).2.updater.Accounts := by
  have hb := StateUpdater.accounts_iff.mp h
  cases ev with
  | start ord generation =>
      exact StateUpdater.accounts_iff.mpr (hb.start CloudSystem.settles_eq ord generation)
  | stop ord => exact StateUpdater.accounts_iff.mpr (hb.stop CloudSystem.settles_eq ord)
  | report r => exact StateUpdater.accounts_iff.mpr (hb.report CloudSystem.settles_eq hev)
  | eval id demand =>
      have hb := CloudSystem.balanced_iff.mpr (StateUpdater.Books.counted_newLe
        CloudSystem.settles_eq h.wf.cs hb.counted (Le.create id demand))
      have heq := eval_eq (e.createLE id demand) e.cs.mem.leCount
        (unhosted_createLE h.wf.cs id demand) fun p hp i => hb.usage_nonneg hp i
      have hwf := wf_step h.wf (.eval id demand)
      rw [step] at hwf ⊢
      rw [heq] at hwf ⊢
      refine ⟨hwf, ⟨hb.usage, hb.demand⟩, fun hst l hl i => ?_⟩
      obtain ⟨name, hname⟩ := hl
      have hlt := ((h.wf.session hst).lemap name l hname).2
      show 0 ≤ ((e.updater.cs.mem.newLe (Le.create id demand)).1.le l).demand i
      rw [Memory.newLe_fst_le_of_ne _ _ hlt.ne]
      exact h.known hst l ⟨name, hname⟩ i

lemma accounts_run {e : Evaluator n K} (h : e.updater.Accounts) (evs : List (Event n))
    (hevs : ∀ ev ∈ evs, ev.Plain) : (e.run evs).2.updater.Accounts := by
  induction evs generalizing e with
  | nil => exact h
  | cons ev evs ih =>
      exact ih (accounts_step h (hevs ev List.mem_cons_self))
        fun x hx => hevs x (List.mem_cons_of_mem _ hx)

omit [HasSqrt K] [FloorRing K] in
lemma accounts_create (resindex : ℤ) (type : ObjectiveType) :
    (create resindex type : Evaluator n K).updater.Accounts := by
  refine ⟨wf_create resindex type, ⟨?_, ?_⟩, ?_⟩
  · intro p hp
    exact absurd hp List.not_mem_nil
  · intro p hp
    exact absurd hp List.not_mem_nil
  · simp [create, StateUpdater.create]

/-- In every state of every run with plain reports: the usage of every PE in the
system is the sum of the demands of the LEs in its list, hosts and lists agree,
no LE is in two lists or twice in one, and no two hosted LEs have one name. -/
theorem usage_eq_sum_of_run (resindex : ℤ) (type : ObjectiveType) (evs : List (Event n))
    (hevs : ∀ ev ∈ evs, ev.Plain) :
    let cs := ((create resindex type : Evaluator n K).run evs).2.cs
    (∀ p ∈ cs.pes, ∀ i, (cs.mem.pe p).resource.usage i
        = ((cs.mem.pe p).hostedLE.map fun l => (cs.mem.le l).demand i).sum)
      ∧ (∀ l p, (cs.mem.le l).host = some p ↔ p ∈ cs.pes ∧ l ∈ (cs.mem.pe p).hostedLE)
      ∧ (∀ l, ∀ p ∈ cs.pes, ∀ q ∈ cs.pes, l ∈ (cs.mem.pe p).hostedLE →
          l ∈ (cs.mem.pe q).hostedLE → p = q)
      ∧ (∀ p ∈ cs.pes, (cs.mem.pe p).hostedLE.Nodup)
      ∧ ∀ l k, (cs.mem.le l).host ≠ none → (cs.mem.le k).host ≠ none →
          (cs.mem.le l).label = (cs.mem.le k).label → l = k := by
  intro cs
  have h := accounts_run (accounts_create resindex type : (create resindex type :
    Evaluator n K).updater.Accounts) evs hevs
  exact ⟨h.balanced.usage, h.wf.cs.host_iff,
    fun l p hp q hq hlp hlq => h.wf.cs.eq_of_mem_hosted hp hq hlp hlq, h.wf.cs.hosted_nodup,
    h.wf.cs.name_inj⟩

/-- A session that places a pod, a second one that is refused while it is open,
and an evaluation. -/
def refusedSession : List (Event 1) :=
  [.start EnumOrder.stored 1, .report (.pe "node" (fun _ => 5) none none),
    .report (.le "pod" "node" fun _ => 2), .stop EnumOrder.stored, .start EnumOrder.stored 2,
    .report (.le "pod" "gone" fun _ => 2), .start EnumOrder.stored 1, .eval "new" fun _ => -3]

theorem usage_eq_sum_of_run_refusedSession :
    let cs := ((create 0 .loadBalance : Evaluator 1 ℝ).run refusedSession).2.cs
    ∀ p ∈ cs.pes, ∀ i, (cs.mem.pe p).resource.usage i
      = ((cs.mem.pe p).hostedLE.map fun l => (cs.mem.le l).demand i).sum :=
  (usage_eq_sum_of_run 0 .loadBalance refusedSession
    (by simp [refusedSession, Event.Plain])).1

end Evaluator

end KubeSafeScheduler.Pigeon
