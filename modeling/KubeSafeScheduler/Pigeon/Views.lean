import KubeSafeScheduler.Pigeon.Policies

/-!
Views of the cloud system: which PEs it shows, and with which resources.

The agent reports nodes and never pods, so its model is used only through the
view. This file says how each call of a session changes the view when no LE is
known, and that values depend on the view alone.

* `CloudSystem.view`; `shown_perm`: systems with one view list the same PEs, up
  to the order.
* `StateUpdater.Podless`: no LE is hosted and none is known. `Podless.start`,
  `Podless.stop`, `Podless.updatePE`: the view after each call.
* `Evaluator.valueAt_congr`: equal views give equal values.
-/

namespace KubeSafeScheduler.Pigeon

variable {n : ℕ} {K : Type}

/-! ### The view -/

namespace CloudSystem

/-- The resource of the PE of a name. -/
def view (cs : CloudSystem n K) (name : String) : Option (Resource n) :=
  (cs.getPE name).map fun p => (cs.mem.pe p).resource

/-- The names and resources of the PEs, in vector order. -/
def shown (cs : CloudSystem n K) : List (String × Resource n) :=
  cs.pes.map fun p => ((cs.mem.pe p).label, (cs.mem.pe p).resource)

lemma WF.view_eq_some {cs : CloudSystem n K} (h : cs.WF) {name : String} {r : Resource n} :
    cs.view name = some r ↔
      ∃ p ∈ cs.pes, (cs.mem.pe p).label = name ∧ (cs.mem.pe p).resource = r := by
  simp only [view, Option.map_eq_some_iff, h.getPE_eq_some, and_assoc]

lemma WF.mem_shown {cs : CloudSystem n K} (h : cs.WF) {name : String} {r : Resource n} :
    (name, r) ∈ cs.shown ↔ cs.view name = some r := by
  simp only [shown, List.mem_map, Prod.mk.injEq, h.view_eq_some]

lemma WF.mem_names {cs : CloudSystem n K} (h : cs.WF) {name : String} :
    name ∈ cs.names ↔ (cs.view name).isSome = true := by
  simp only [names, List.mem_map, Option.isSome_iff_exists, h.view_eq_some]
  constructor
  · rintro ⟨p, hp, hl⟩
    exact ⟨_, p, hp, hl, rfl⟩
  · rintro ⟨r, p, hp, hl, -⟩
    exact ⟨p, hp, hl⟩

lemma WF.nodup_shown {cs : CloudSystem n K} (h : cs.WF) : cs.shown.Nodup :=
  h.pes_nodup.map_on fun _ hp _ hq hpq => h.label_inj hp hq (congrArg Prod.fst hpq)

/-- Systems with one view list the same PEs. -/
lemma shown_perm {cs cs' : CloudSystem n K} (h : cs.WF) (h' : cs'.WF) (hview : cs.view = cs'.view) :
    cs.shown.Perm cs'.shown := by
  refine (List.perm_ext_iff_of_nodup h.nodup_shown h'.nodup_shown).mpr ?_
  rintro ⟨name, r⟩
  rw [h.mem_shown, h'.mem_shown, hview]

/-- The resources with an LE placed are a function of the list of what is
shown. -/
lemma WF.resources_withPlaced_eq {cs : CloudSystem n K} (h : cs.WF) {p : PeRef} (hp : p ∈ cs.pes)
    (l : LeRef) :
    (cs.withPlaced p l).resources = cs.shown.map fun x =>
      if x.1 = (cs.mem.pe p).label then (x.2.use (cs.mem.le l).demand).2 else x.2 := by
  rw [shown, List.map_map]
  refine List.map_congr_left fun k hk => ?_
  rw [withPlaced_resource]
  by_cases hkp : k = p
  · simp [hkp]
  · have hlabel : (cs.mem.pe k).label ≠ (cs.mem.pe p).label := fun hc =>
      hkp (h.label_inj hk hp hc)
    simp [hkp, hlabel]

end CloudSystem

/-- The value of a PE depends on its name, the view, the demand and, if the
objective uses them, the statistics. -/
lemma Evaluator.valueAt_congr [Field K] [LinearOrder K] [HasSqrt K] {cs cs' : CloudSystem n K}
    (h : cs.WF) (h' : cs'.WF) (hview : cs.view = cs'.view) (type : ObjectiveType)
    (hds : type.usesStats = true → cs.ds = cs'.ds) {l l' : LeRef}
    (hdemand : (cs.mem.le l).demand = (cs'.mem.le l').demand) {p p' : PeRef} (hp : p ∈ cs.pes)
    (hp' : p' ∈ cs'.pes) (hlabel : (cs.mem.pe p).label = (cs'.mem.pe p').label)
    (resindex : ℤ) :
    valueAt type resindex cs l p = valueAt type resindex cs' l' p' := by
  have hres : (cs.mem.pe p).resource = (cs'.mem.pe p').resource := by
    have h1 := h.view_eq_some.mpr ⟨p, hp, rfl, rfl⟩
    have h2 := h'.view_eq_some.mpr ⟨p', hp', rfl, rfl⟩
    rw [hview, hlabel, h2] at h1
    exact (Option.some.inj h1).symm
  have hfit : Pe.canplaceLE cs.mem p l = Pe.canplaceLE cs'.mem p' l' := by
    rw [Pe.canplaceLE, Pe.canplaceLE, hres, hdemand]
  have hperm : (cs.withPlaced p l).resources.Perm (cs'.withPlaced p' l').resources := by
    rw [h.resources_withPlaced_eq hp, h'.resources_withPlaced_eq hp', hlabel, hdemand]
    exact (CloudSystem.shown_perm h h' hview).map _
  have hvalue : Objfn.getvalue (cs.withPlaced p l) type resindex
      = Objfn.getvalue (cs'.withPlaced p' l') type resindex :=
    Objfn.getvalue_congr hperm type hds resindex
  rw [valueAt, valueAt, hfit, hvalue]

/-! ### Sessions without LEs -/

namespace StateUpdater

/-- No LE is hosted and the session knows none. -/
structure Podless (s : StateUpdater n K) : Prop where
  wf : s.WF
  host : ∀ l, (s.cs.mem.le l).host = none
  lemap : ∀ id, s.lemap.get id = none

/-- The view after the session, if one is open, is closed. -/
def viewOnStop (s : StateUpdater n K) (name : String) : Option (Resource n) :=
  if s.started = true ∧ name ∉ s.observedPEs then none else s.cs.view name

lemma viewOnStop_eq_some {s : StateUpdater n K} {name : String} {r : Resource n} :
    s.viewOnStop name = some r ↔
      (s.started = true → name ∈ s.observedPEs) ∧ s.cs.view name = some r := by
  rw [viewOnStop]
  by_cases hc : s.started = true ∧ name ∉ s.observedPEs
  · rw [if_pos hc]
    simp [hc.1, hc.2]
  · rw [if_neg hc]
    have hobs : s.started = true → name ∈ s.observedPEs := by
      intro hst
      by_contra hname
      exact hc ⟨hst, hname⟩
    exact ⟨fun hr => ⟨hobs, hr⟩, fun hr => hr.2⟩

/-- Without LEs `stateupdater_stop` only removes PEs. -/
lemma Podless.stop_cs {s : StateUpdater n K} (h : s.Podless) (hst : s.started = true)
    (ord : EnumOrder) : (s.stop ord).cs = s.removePEs.cs := by
  have hvalues : s.lemap.getvalues = [] := by
    refine List.eq_nil_iff_forall_not_mem.mpr fun l hl => ?_
    obtain ⟨id, hid⟩ := StringMap.mem_getvalues.mp hl
    exact Option.some_ne_none l (hid.symm.trans (h.lemap id))
  have hkeys : s.newplacements.getkeys = [] := by
    refine List.eq_nil_iff_forall_not_mem.mpr fun id hid => ?_
    obtain ⟨host, hhost⟩ := StringMap.mem_getkeys.mp hid
    obtain ⟨-, l, hl, -⟩ := (h.wf.session hst).pending id host hhost
    exact Option.some_ne_none l (hl.symm.trans (h.lemap id))
  have hdelete : (s.removePEs.deleteLEs ord).cs = s.removePEs.cs := by
    rw [deleteLEs, show s.removePEs.lemap = s.lemap from rfl, hvalues, EnumOrder.order_nil]
    rfl
  rw [stop, if_pos hst]
  show ((s.removePEs.deleteLEs ord).placeLEs ord).cs = _
  rw [placeLEs, show (s.removePEs.deleteLEs ord).newplacements = s.newplacements from rfl, hkeys,
    EnumOrder.order_nil, List.foldl_nil, hdelete]

/-- `stateupdater_stop` leaves the PEs that were reported, with their
resources. -/
lemma Podless.stop {s : StateUpdater n K} (h : s.Podless) (ord : EnumOrder) :
    (s.stop ord).Podless ∧ (s.stop ord).cs.view = s.viewOnStop ∧ (s.stop ord).cs.ds = s.cs.ds
      ∧ (s.stop ord).gen = s.gen ∧ (s.stop ord).started = false := by
  cases hst : s.started with
  | false =>
      have hview : s.viewOnStop = s.cs.view := by
        funext name
        rw [viewOnStop, if_neg fun hc => absurd hc.1 (by simp [hst])]
      rw [stop_of_not_started hst, hview]
      exact ⟨h, rfl, rfl, rfl, hst⟩
  | true =>
      have hc := stop_spec h.wf hst ord
      have hempty : (s.stop ord).lemap = ∅ := by rw [StateUpdater.stop, if_pos hst]
      obtain ⟨r1, -, r3, r4⟩ := removePEs_spec s.Known h.wf.cs
      refine ⟨⟨h.wf.stop ord, fun l => ?_, fun id => by rw [hempty, StringMap.get_empty]⟩, ?_,
        hc.ds, hc.gen, hc.started⟩
      · rw [hc.host, hostAfter, h.lemap, if_neg (by simp)]
      · funext name
        ext r
        rw [h.stop_cs hst, r1.wf.view_eq_some, r3, viewOnStop]
        simp only [List.mem_filter, decide_eq_true_eq, r1.kept.label]
        by_cases hname : name ∈ s.observedPEs
        · rw [if_neg fun hc => hc.2 hname, h.wf.cs.view_eq_some]
          constructor
          · rintro ⟨p, ⟨hp, hobs⟩, hl, hr⟩
            exact ⟨p, hp, hl, by rw [← (r4 p hobs).1, hr]⟩
          · rintro ⟨p, hp, hl, hr⟩
            have hobs : (s.cs.mem.pe p).label ∈ s.observedPEs := hl ▸ hname
            exact ⟨p, ⟨hp, hobs⟩, hl, by rw [(r4 p hobs).1, hr]⟩
        · rw [if_pos ⟨hst, hname⟩]
          simp only [reduceCtorEq, iff_false]
          rintro ⟨p, ⟨-, hobs⟩, hl, -⟩
          exact hname (hl ▸ hobs)

/-- An accepted `stateupdater_start` closes the session that is open, if any. -/
lemma Podless.start {s : StateUpdater n K} (h : s.Podless) (ord : EnumOrder) {generation : ℤ}
    (hgen : s.gen < generation) :
    (s.start ord generation).2.Podless ∧ (s.start ord generation).2.cs.view = s.viewOnStop
      ∧ (s.start ord generation).2.cs.ds = s.cs.ds
      ∧ (s.start ord generation).2.gen = generation
      ∧ (s.start ord generation).2.started = true
      ∧ (s.start ord generation).2.observedPEs = ∅ := by
  obtain ⟨h1, h2, h3, -, -⟩ := h.stop ord
  obtain ⟨-, ho⟩ := start_spec h.wf ord hgen
  refine ⟨⟨h.wf.start ord generation, fun l => ?_, fun id => ?_⟩, ?_, ?_, ho.gen, ho.started,
    ho.observedPEs⟩
  · rw [ho.cs, h1.host]
  · by_contra hne
    obtain ⟨l, hl⟩ := Option.ne_none_iff_exists'.mp hne
    exact ((ho.lemap id l).mp hl).1 (h1.host l)
  · rw [ho.cs, h2]
  · rw [ho.cs, h3]

/-- `stateupdater_updatePE` in an open session: the name is shown, and the
others are as before. -/
lemma Podless.updatePE {s : StateUpdater n K} (h : s.Podless) (hst : s.started = true) (id : String)
    (capacity : Fin n → ℤ) (ovf : Option (Fin n → Bool)) (usage : Option (Fin n → ℤ)) :
    (s.updatePE id capacity ovf usage).Podless
      ∧ PeReported s (s.updatePE id capacity ovf usage) id capacity ovf usage
      ∧ (∀ name, name ≠ id →
          (s.updatePE id capacity ovf usage).cs.view name = s.cs.view name)
      ∧ ((s.updatePE id capacity ovf usage).cs.view id).isSome = true := by
  have hr := updatePE_spec h.wf.cs hst id capacity ovf usage
  refine ⟨⟨h.wf.updatePE id capacity ovf usage, fun l => by rw [hr.le, h.host],
    fun name => by rw [hr.lemap, h.lemap]⟩, hr, fun name hname => ?_, ?_⟩
  · rw [CloudSystem.view, hr.getPE_ne name hname, CloudSystem.view]
    cases hget : s.cs.getPE name with
    | none => rfl
    | some p =>
        obtain ⟨hp, hl⟩ := h.wf.cs.getPE_eq_some.mp hget
        rw [Option.map_some, Option.map_some, hr.resource_ne p hp (hl ▸ hname)]
  · obtain ⟨p, hp, -⟩ := hr.reported
    rw [CloudSystem.view, hp]
    rfl

/-- A report without negative numbers, when no resource shown may overflow and
the reported one may not either, is shown as it is. -/
lemma Podless.view_updatePE {s : StateUpdater n K} (h : s.Podless) (hst : s.started = true)
    (id : String) {capacity usage : Fin n → ℤ} (hcap : ∀ i, 0 ≤ capacity i)
    (husage : ∀ i, 0 ≤ usage i)
    (hovf : ∀ name r, s.cs.view name = some r → r.allowoverflow = fun _ => false) :
    (s.updatePE id capacity (some fun _ => false) (some usage)).cs.view id
      = some { capacity := capacity, usage := usage, allowoverflow := fun _ => false } := by
  obtain ⟨-, hr, -, -⟩ := h.updatePE hst id capacity (some fun _ => false) (some usage)
  obtain ⟨p, hget, hc, hu⟩ := hr.reported
  have hflags : (((s.updatePE id capacity (some fun _ => false) (some usage)).cs.mem.pe
      p).resource).allowoverflow = fun _ => false := by
    by_cases hp : p ∈ s.cs.pes
    · rw [hr.allowoverflow p hp]
      exact hovf _ _ (h.wf.cs.view_eq_some.mpr ⟨p, hp, rfl, rfl⟩)
    · rw [hr.added p (hr.wf.getPE_eq_some.mp hget).1 hp]
      rfl
  rw [CloudSystem.view, hget, Option.map_some]
  exact congrArg some (Resource.ext (hc hcap) (hu usage rfl husage) hflags)

end StateUpdater

/-- An LE made for an evaluation leaves the updater without hosted LEs. -/
lemma StateUpdater.Podless.host_createLE {e : Evaluator n K} (h : e.updater.Podless) (id : String)
    (demand : Fin n → ℤ) (l : LeRef) : ((e.createLE id demand).cs.mem.le l).host = none := by
  show ((e.cs.mem.newLe (Le.create id demand)).1.le l).host = none
  by_cases hl : l = e.cs.mem.leCount
  · rw [hl, Memory.newLe_fst_le_self]
    rfl
  · rw [Memory.newLe_fst_le_of_ne _ _ hl]
    exact h.host l

/-- A new evaluator knows no LE and shows no PE. -/
lemma Evaluator.podless_create [Field K] [LinearOrder K] (resindex : ℤ) (type : ObjectiveType) :
    (create resindex type : Evaluator n K).updater.Podless
      ∧ (create resindex type : Evaluator n K).updater.gen < 1
      ∧ ∀ name, (create resindex type : Evaluator n K).cs.view name = none := by
  have hwf := wf_create (n := n) (K := K) resindex type
  refine ⟨⟨hwf, fun _ => rfl, fun _ => rfl⟩, show (-1 : ℤ) < 1 by decide, fun name => ?_⟩
  by_contra hne
  obtain ⟨r, hr⟩ := Option.ne_none_iff_exists'.mp hne
  obtain ⟨p, hp, -⟩ := hwf.cs.view_eq_some.mp hr
  exact List.not_mem_nil hp

end KubeSafeScheduler.Pigeon
