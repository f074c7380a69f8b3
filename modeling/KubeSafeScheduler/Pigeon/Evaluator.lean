import KubeSafeScheduler.Pigeon.Objective
import KubeSafeScheduler.Pigeon.StateUpdater

/-!
`evaluator.c`: the value of every PE as a host of an LE, found by placing the
LE on each PE in turn and taking it off again.

* `Evaluator.create`, `eval`, `setpolicyobjective`.
* `evalLoop_eq`: with usages that are not negative, every trial is undone
  exactly, so all trials see the same system; `eval_values_and_frame` is what
  one evaluation returns and leaves behind. `evalLoop_fst`: the values alone,
  when every trial is undone as far as the objective looks at a resource.
* `Event`, `step`, `run`: a run of update sessions and evaluations in any
  order. `wf_run`: the updater is well-formed in every state of a run.
-/

namespace KubeSafeScheduler.Pigeon

/-- `s_evaluator`; the cloud system is the one of the updater. -/
structure Evaluator (n : ℕ) (K : Type) where
  updater : StateUpdater n K
  policyresourceindex : ℤ
  policyobjective : ObjectiveType

namespace Evaluator

variable {n : ℕ} {K : Type} [Field K] [LinearOrder K]

/-- `evaluator_create`: statistics of the demands are collected for `A_BINPACK`
only. -/
def create (policyresourceindex : ℤ) (policyobjective : ObjectiveType) : Evaluator n K where
  updater := StateUpdater.create { CloudSystem.create n K with
    ds := if policyobjective = .aBinpack then some (DemandStats.create 0) else none }
  policyresourceindex := policyresourceindex
  policyobjective := policyobjective

/-- `evaluator_setpolicyobjective`. -/
def setpolicyobjective (e : Evaluator n K) (policyobjective : String) : Evaluator n K :=
  { e with policyobjective := objtypeFromstring (some policyobjective) }

/-- The cloud system of the evaluator. -/
def cs (e : Evaluator n K) : CloudSystem n K := e.updater.cs

/-- Replace the cloud system. -/
def setCs (e : Evaluator n K) (cs : CloudSystem n K) : Evaluator n K :=
  { e with updater := { e.updater with cs := cs } }

variable [HasSqrt K]

/-- The loop of `evaluator_eval` over the hosts: the LE is placed where it fits,
the objective is read, and the LE is removed; `none` is `NAN`. -/
def evalLoop (type : ObjectiveType) (resindex : ℤ) (l : LeRef) :
    List PeRef → CloudSystem n K → List (Option K) × CloudSystem n K
  | [], cs => ([], cs)
  | p :: hosts, cs =>
      if Pe.canplaceLE cs.mem p l then
        let placed := { cs with mem := (Pe.placeLE cs.mem p l true).2 }
        let value := Objfn.getvalue placed type resindex
        let removed := { placed with mem := (Pe.removeLE placed.mem p l true).2 }
        let (vals, cs) := evalLoop type resindex l hosts removed
        (some value :: vals, cs)
      else
        let (vals, cs) := evalLoop type resindex l hosts cs
        (none :: vals, cs)

variable [FloorRing K]

/-- The system as `evaluator_eval` evaluates it: the demand of the LE is in the
statistics, if there are any. -/
def noteDemand (cs : CloudSystem n K) (l : LeRef) : CloudSystem n K :=
  { cs with ds := cs.ds.map fun dstats => dstats.add (cs.mem.le l).demand }

/-- `evaluator_eval`. -/
def eval (e : Evaluator n K) (l : LeRef) : List (Option K) × Evaluator n K :=
  let cs := noteDemand e.cs l
  let (vals, cs) := evalLoop e.policyobjective e.policyresourceindex l cs.pes cs
  (vals, e.setCs cs)

end Evaluator

/-! ### One evaluation -/

/-- The system that differs from the given one in the LE `l` being placed on
the PE `p`, and in nothing else. -/
def CloudSystem.withPlaced {n : ℕ} {K : Type} (cs : CloudSystem n K) (p : PeRef) (l : LeRef) :
    CloudSystem n K :=
  { cs with
    mem := { cs.mem with
      pe := Function.update cs.mem.pe p { cs.mem.pe p with
        resource := { (cs.mem.pe p).resource with
          usage := fun i => (cs.mem.pe p).resource.usage i + (cs.mem.le l).demand i }
        hostedLE := (cs.mem.pe p).hostedLE ++ [l] }
      le := Function.update cs.mem.le l { cs.mem.le l with host := some p } } }

lemma withPlaced_resource {n : ℕ} {K : Type} (cs : CloudSystem n K) (p : PeRef) (l : LeRef)
    (k : PeRef) :
    ((cs.withPlaced p l).mem.pe k).resource = if k = p then
        ((cs.mem.pe p).resource.use (cs.mem.le l).demand).2
      else (cs.mem.pe k).resource := by
  by_cases hk : k = p
  · subst hk; simp [CloudSystem.withPlaced, Resource.use]
  · simp [CloudSystem.withPlaced, hk]

namespace Evaluator

variable {n : ℕ} {K : Type}

/-- An LE that is not hosted: it has no host and is in no list. -/
structure Unhosted (cs : CloudSystem n K) (l : LeRef) : Prop where
  host : (cs.mem.le l).host = none
  notMem : ∀ p ∈ cs.pes, l ∉ (cs.mem.pe p).hostedLE

lemma withPlaced_eq {cs : CloudSystem n K} {p : PeRef} {l : LeRef}
    (hl : l ∉ (cs.mem.pe p).hostedLE) :
    { cs with mem := (Pe.placeLE cs.mem p l true).2 } = cs.withPlaced p l := by
  rw [Pe.placeLE_of_notMem hl]
  rfl

/-- The systems whose value the loop of `evaluator_eval` reads: one for each host
on which the LE fits, with the LE placed there. -/
def trials (l : LeRef) : List PeRef → CloudSystem n K → List (CloudSystem n K)
  | [], _ => []
  | p :: hosts, cs =>
      if Pe.canplaceLE cs.mem p l then
        let placed := { cs with mem := (Pe.placeLE cs.mem p l true).2 }
        placed :: trials l hosts { placed with mem := (Pe.removeLE placed.mem p l true).2 }
      else trials l hosts cs

/-- A trial changes usages and hosts only. -/
lemma of_mem_trials {l : LeRef} {hosts : List PeRef} {cs placed : CloudSystem n K}
    (h : placed ∈ trials l hosts cs) :
    placed.pes = cs.pes ∧ placed.ds = cs.ds
      ∧ ∀ q, (placed.mem.pe q).resource.capacity = (cs.mem.pe q).resource.capacity := by
  induction hosts generalizing cs with
  | nil => cases h
  | cons p hosts ih =>
      have hplace := (Pe.frame_placeLE cs.mem p l).capacity
      rw [trials] at h
      split_ifs at h
      · rcases List.mem_cons.mp h with rfl | h
        · exact ⟨rfl, rfl, hplace⟩
        · obtain ⟨hpes, hds, hcap⟩ := ih h
          exact ⟨hpes, hds, fun q => (hcap q).trans
            (((Pe.frame_removeLE _ p l).capacity q).trans (hplace q))⟩
      · exact ih h

variable [Field K] [LinearOrder K] [HasSqrt K]

/-- The numbers that the loop returns are the values of its trials. -/
lemma filterMap_evalLoop (type : ObjectiveType) (resindex : ℤ) (l : LeRef) (hosts : List PeRef)
    (cs : CloudSystem n K) : (evalLoop type resindex l hosts cs).1.filterMap id
      = (trials l hosts cs).map fun placed => Objfn.getvalue placed type resindex := by
  induction hosts generalizing cs with
  | nil => rfl
  | cons p hosts ih =>
      rw [evalLoop, trials]
      split_ifs
      · rw [List.map_cons, ← ih]
        rfl
      · rw [← ih]
        rfl

/-- The entry of a PE in the vector of values. -/
def valueAt (type : ObjectiveType) (resindex : ℤ) (cs : CloudSystem n K) (l : LeRef) (p : PeRef) :
    Option K :=
  if Pe.canplaceLE cs.mem p l then some (Objfn.getvalue (cs.withPlaced p l) type resindex)
  else none

/-- With usages that are not negative every trial of the loop is undone
exactly, so each value is that of the system the loop started from. -/
lemma evalLoop_eq (type : ObjectiveType) (resindex : ℤ) {cs : CloudSystem n K} {l : LeRef}
    (hl : Unhosted cs l) (hosts : List PeRef) (hsub : ∀ p ∈ hosts, p ∈ cs.pes)
    (hu : ∀ p ∈ cs.pes, ∀ i, 0 ≤ (cs.mem.pe p).resource.usage i) :
    evalLoop type resindex l hosts cs = (hosts.map (valueAt type resindex cs l), cs) := by
  induction hosts with
  | nil => rfl
  | cons p hosts ih =>
      have hp := hsub p List.mem_cons_self
      have ih' := ih fun q hq => hsub q (List.mem_cons_of_mem _ hq)
      have hback := Pe.removeLE_placeLE (hl.notMem p hp) hl.host (hu p hp)
      rw [evalLoop, List.map_cons, valueAt]
      split_ifs with hfit
      · simp only [hback, withPlaced_eq (hl.notMem p hp)]
        show (some _ :: (evalLoop type resindex l hosts cs).1,
          (evalLoop type resindex l hosts cs).2) = _
        rw [ih']
      · rw [ih']

/-- The systems that the loop goes through: what differs from the first one are
the resources of PEs already tried, and not in what `view` shows of them. -/
structure Retried {α : Type} (view : Resource n → α) (hosts : List PeRef)
    (cs cs' : CloudSystem n K) : Prop where
  pes : cs'.pes = cs.pes
  ds : cs'.ds = cs.ds
  le : cs'.mem.le = cs.mem.le
  hosted : ∀ p, (cs'.mem.pe p).hostedLE = (cs.mem.pe p).hostedLE
  resource : ∀ p ∈ hosts, (cs'.mem.pe p).resource = (cs.mem.pe p).resource
  view : ∀ p, view (cs'.mem.pe p).resource = view (cs.mem.pe p).resource

section Views

variable {α : Type} {view : Resource n → α} {cs cs' : CloudSystem n K} {p : PeRef}
  {hosts : List PeRef} {l : LeRef}

omit [Field K] [LinearOrder K] [HasSqrt K] in
/-- A trial on the next host, undone as far as `view` goes. -/
lemma Retried.undone (h : Retried view (p :: hosts) cs cs') (hnd : (p :: hosts).Nodup)
    (hl : l ∉ (cs.mem.pe p).hostedLE) (hhost : (cs.mem.le l).host = none)
    (hback : view ((((cs.mem.pe p).resource.use (cs.mem.le l).demand).2.release
      (cs.mem.le l).demand).2) = view (cs.mem.pe p).resource) :
    Retried view hosts cs { cs' with
      mem := (Pe.removeLE (Pe.placeLE cs'.mem p l true).2 p l true).2 } := by
  have hres : (cs'.mem.pe p).resource = (cs.mem.pe p).resource := h.resource p List.mem_cons_self
  have hmem := Pe.removeLE_placeLE_eq (m := cs'.mem) (p := p) (l := l)
    (by rw [h.hosted]; exact hl) (by rw [h.le]; exact hhost)
  rw [h.le, hres] at hmem
  refine ⟨h.pes, h.ds, by rw [hmem]; exact h.le, fun q => ?_, fun q hq => ?_, fun q => ?_⟩
  · rw [hmem]
    by_cases hqp : q = p
    · subst hqp
      rw [Memory.setPe_pe_self]
      exact h.hosted q
    · rw [Memory.setPe_pe_of_ne _ _ hqp]
      exact h.hosted q
  · have hqp : q ≠ p := by
      rintro rfl
      exact (List.nodup_cons.mp hnd).1 hq
    rw [hmem, Memory.setPe_pe_of_ne _ _ hqp]
    exact h.resource q (List.mem_cons_of_mem _ hq)
  · rw [hmem]
    by_cases hqp : q = p
    · subst hqp
      rw [Memory.setPe_pe_self]
      exact hback
    · rw [Memory.setPe_pe_of_ne _ _ hqp]
      exact h.view q

omit [Field K] [LinearOrder K] [HasSqrt K] in
/-- The trial itself shows what the trial in the first system would. -/
lemma Retried.map_view_withPlaced (h : Retried view (p :: hosts) cs cs') :
    (cs'.withPlaced p l).resources.map view = (cs.withPlaced p l).resources.map view := by
  have hpes : (cs'.withPlaced p l).pes = (cs.withPlaced p l).pes := h.pes
  rw [CloudSystem.resources, CloudSystem.resources, List.map_map, List.map_map, hpes]
  refine List.map_congr_left fun q _ => ?_
  rw [Function.comp_apply, Function.comp_apply, withPlaced_resource, withPlaced_resource, h.le,
    h.resource p List.mem_cons_self]
  split_ifs
  · rfl
  · exact h.view q

/-- The values of the loop, when the objective reads `view` of the resources and
`view` shows every trial undone: each is that of the system the loop started
from. -/
lemma evalLoop_fst {type : ObjectiveType} {resindex : ℤ}
    (hvalue : ∀ cs cs' : CloudSystem n K, cs.ds = cs'.ds →
      cs.resources.map view = cs'.resources.map view →
        Objfn.getvalue cs type resindex = Objfn.getvalue cs' type resindex)
    (hl : Unhosted cs l) (hsub : ∀ p ∈ hosts, p ∈ cs.pes) (hnd : hosts.Nodup)
    (hback : ∀ p ∈ cs.pes, view ((((cs.mem.pe p).resource.use (cs.mem.le l).demand).2.release
      (cs.mem.le l).demand).2) = view (cs.mem.pe p).resource)
    (h : Retried view hosts cs cs') :
    (evalLoop type resindex l hosts cs').1 = hosts.map (valueAt type resindex cs l) := by
  induction hosts generalizing cs' with
  | nil => rfl
  | cons p hosts ih =>
      have hp := hsub p List.mem_cons_self
      have hsub' : ∀ q ∈ hosts, q ∈ cs.pes := fun q hq => hsub q (List.mem_cons_of_mem _ hq)
      have hnd' := (List.nodup_cons.mp hnd).2
      have hcan : Pe.canplaceLE cs'.mem p l = Pe.canplaceLE cs.mem p l := by
        rw [Pe.canplaceLE, Pe.canplaceLE, h.le, h.resource p List.mem_cons_self]
      have hl' : l ∉ (cs'.mem.pe p).hostedLE := by
        rw [h.hosted]
        exact hl.notMem p hp
      have hplaced := withPlaced_eq hl'
      rw [evalLoop, List.map_cons, valueAt, hcan]
      split_ifs with hfit
      · refine congrArg₂ List.cons ?_ (ih hsub' hnd'
          (h.undone hnd (hl.notMem p hp) hl.host (hback p hp)))
        rw [hplaced]
        exact congrArg some (hvalue _ _ h.ds h.map_view_withPlaced)
      · exact congrArg (List.cons none) (ih hsub' hnd' ⟨h.pes, h.ds, h.le, h.hosted,
          fun q hq => h.resource q (List.mem_cons_of_mem _ hq), h.view⟩)

end Views

/-- Without any condition on the usages the loop keeps the shape of the
system. -/
lemma evalLoop_sameShape (type : ObjectiveType) (resindex : ℤ) {cs : CloudSystem n K} {l : LeRef}
    (hl : Unhosted cs l) (hosts : List PeRef) (hsub : ∀ p ∈ hosts, p ∈ cs.pes) :
    ∃ m, cs.mem.SameShape m ∧ (evalLoop type resindex l hosts cs).2 = { cs with mem := m } := by
  induction hosts generalizing cs with
  | nil => exact ⟨cs.mem, Memory.SameShape.refl _, rfl⟩
  | cons p hosts ih =>
      have hp := hsub p List.mem_cons_self
      have hsub' : ∀ q ∈ hosts, q ∈ cs.pes := fun q hq => hsub q (List.mem_cons_of_mem _ hq)
      have htrial := Pe.sameShape_removeLE_placeLE (hl.notMem p hp) hl.host
      rw [evalLoop]
      split_ifs with hfit
      · have hl' : Unhosted { cs with
            mem := (Pe.removeLE (Pe.placeLE cs.mem p l true).2 p l true).2 } l :=
          ⟨by rw [htrial.le]; exact hl.host, fun q hq => by
            rw [htrial.hosted]; exact hl.notMem q hq⟩
        obtain ⟨m, hm, heq⟩ := ih hl' hsub'
        exact ⟨m, htrial.trans hm, heq⟩
      · exact ih hl hsub'

/-- There is one value for each host. -/
lemma length_evalLoop (type : ObjectiveType) (resindex : ℤ) (l : LeRef) (hosts : List PeRef)
    (cs : CloudSystem n K) : (evalLoop type resindex l hosts cs).1.length = hosts.length := by
  induction hosts generalizing cs with
  | nil => rfl
  | cons p hosts ih =>
      rw [evalLoop]
      split_ifs
      · simp [ih]
      · simp [ih]

omit [Field K] [LinearOrder K] [HasSqrt K] in
lemma length_trials_le (l : LeRef) (hosts : List PeRef) (cs : CloudSystem n K) :
    (trials l hosts cs).length ≤ hosts.length := by
  induction hosts generalizing cs with
  | nil => exact le_refl _
  | cons p hosts ih =>
      rw [trials]
      split_ifs
      · exact Nat.succ_le_succ (ih _)
      · exact Nat.le_succ_of_le (ih _)

lemma evalLoop_fst_of_trials (type : ObjectiveType) (resindex : ℤ) (l : LeRef)
    (hosts : List PeRef) (cs : CloudSystem n K)
    (hfits : (trials l hosts cs).length = hosts.length) :
    (evalLoop type resindex l hosts cs).1
      = (trials l hosts cs).map fun placed => some (Objfn.getvalue placed type resindex) := by
  induction hosts generalizing cs with
  | nil => rfl
  | cons p hosts ih =>
      rw [trials] at hfits ⊢
      rw [evalLoop]
      split_ifs at hfits ⊢ with hfit
      · exact congrArg (List.cons _) (ih _ (Nat.succ_injective hfits))
      · have hle := length_trials_le l hosts cs
        rw [hfits, List.length_cons] at hle
        omega

variable [FloorRing K]

lemma length_eval (e : Evaluator n K) (l : LeRef) : (e.eval l).1.length = e.cs.pes.length :=
  length_evalLoop _ _ _ _ _

/-- The values of an evaluation, when the objective reads `view` of the resources
and `view` shows every trial undone. -/
lemma eval_fst {α : Type} (view : Resource n → α) (e : Evaluator n K) {l : LeRef}
    (hvalue : ∀ cs cs' : CloudSystem n K, cs.ds = cs'.ds →
      cs.resources.map view = cs'.resources.map view →
        Objfn.getvalue cs e.policyobjective e.policyresourceindex
          = Objfn.getvalue cs' e.policyobjective e.policyresourceindex)
    (hl : Unhosted e.cs l) (hnd : e.cs.pes.Nodup)
    (hback : ∀ p ∈ e.cs.pes,
      view ((((e.cs.mem.pe p).resource.use (e.cs.mem.le l).demand).2.release
        (e.cs.mem.le l).demand).2) = view (e.cs.mem.pe p).resource) :
    (e.eval l).1 = e.cs.pes.map (valueAt e.policyobjective e.policyresourceindex
      (noteDemand e.cs l) l) := by
  have hl' : Unhosted (noteDemand e.cs l) l := ⟨hl.host, hl.notMem⟩
  exact evalLoop_fst hvalue hl' (fun p hp => hp) hnd hback
    ⟨rfl, rfl, rfl, fun _ => rfl, fun _ _ => rfl, fun _ => rfl⟩

lemma eval_eq (e : Evaluator n K) (l : LeRef) (hl : Unhosted e.cs l)
    (hu : ∀ p ∈ e.cs.pes, ∀ i, 0 ≤ (e.cs.mem.pe p).resource.usage i) :
    e.eval l = (e.cs.pes.map (valueAt e.policyobjective e.policyresourceindex
      (noteDemand e.cs l) l), e.setCs (noteDemand e.cs l)) := by
  have hl' : Unhosted (noteDemand e.cs l) l := ⟨hl.host, hl.notMem⟩
  have hloop := evalLoop_eq e.policyobjective e.policyresourceindex hl' (noteDemand e.cs l).pes
    (fun p hp => hp) hu
  rw [eval, hloop]
  rfl

/-- Where the LE fits on every PE in its turn, the values are those of the
trials. -/
lemma eval_fst_of_trials (e : Evaluator n K) (l : LeRef)
    (hfits : (trials l e.cs.pes (noteDemand e.cs l)).length = e.cs.pes.length) :
    (e.eval l).1 = (trials l e.cs.pes (noteDemand e.cs l)).map fun placed =>
      some (Objfn.getvalue placed e.policyobjective e.policyresourceindex) :=
  evalLoop_fst_of_trials _ _ _ _ _ hfits

/-- One evaluation of an LE that is not hosted, on usages that are not
negative: entry by entry the vector is `NAN` exactly where the demand exceeds
what is left of a resource that may not overflow, and otherwise the objective
value of the system with the LE placed there; afterwards only the demand
statistics differ. -/
theorem eval_values_and_frame (e : Evaluator n K) (l : LeRef) (hl : Unhosted e.cs l)
    (hu : ∀ p ∈ e.cs.pes, ∀ i, 0 ≤ (e.cs.mem.pe p).resource.usage i) :
    (e.eval l).1.length = e.cs.pes.length
      ∧ (∀ (i : ℕ) p, e.cs.pes[i]? = some p →
          ((e.eval l).1[i]? = some none ↔
              ∃ k, (e.cs.mem.pe p).resource.allowoverflow k = false
                ∧ (e.cs.mem.pe p).resource.capacity k - (e.cs.mem.pe p).resource.usage k
                    < (e.cs.mem.le l).demand k)
            ∧ ((e.eval l).1[i]? ≠ some none → (e.eval l).1[i]?
                = some (some (Objfn.getvalue ((noteDemand e.cs l).withPlaced p l)
                    e.policyobjective e.policyresourceindex))))
      ∧ (e.eval l).2 = e.setCs { e.cs with
          ds := e.cs.ds.map fun dstats => dstats.add (e.cs.mem.le l).demand } := by
  rw [eval_eq e l hl hu]
  refine ⟨by simp, fun i p hp => ?_, rfl⟩
  have hcan : Pe.canplaceLE (noteDemand e.cs l).mem p l = false ↔
      ∃ k, (e.cs.mem.pe p).resource.allowoverflow k = false
        ∧ (e.cs.mem.pe p).resource.capacity k - (e.cs.mem.pe p).resource.usage k
            < (e.cs.mem.le l).demand k :=
    Resource.canuse_eq_false_iff _ _
  rw [List.getElem?_map, hp, ← hcan]
  by_cases hfit : Pe.canplaceLE (noteDemand e.cs l).mem p l = true
  · simp [valueAt, hfit]
  · simp [valueAt, hfit]

/-- Two nodes of ten units of two resources, of which the second node has one
unit of the second resource left, and an LE that asks for four of each. -/
noncomputable def fullNode (type : ObjectiveType) : Evaluator 2 ℝ where
  updater := StateUpdater.create
    { mem :=
        { pe := fun p =>
            { label := if p = 0 then "a" else "b"
              resource := { capacity := fun _ => 10,
                            usage := fun j => if p = 1 ∧ j = 1 then 9 else 3,
                            allowoverflow := fun _ => false }
              hostedLE := []
              indexinsystem := p }
          le := fun _ => Le.create "pod" fun _ => 4
          peCount := 2
          leCount := 1 }
      pes := [0, 1]
      pemap := ((∅ : StringMap PeRef).insert "a" 0).insert "b" 1
      ds := some (DemandStats.create 0)
      ismodified := false }
  policyresourceindex := 0
  policyobjective := type

lemma fullNode_usage_nonneg (type : ObjectiveType) (p : PeRef) (i : Fin 2) :
    0 ≤ ((fullNode type).cs.mem.pe p).resource.usage i := by
  show (0 : ℤ) ≤ if p = 1 ∧ i = 1 then 9 else 3
  split_ifs <;> decide

/-- The LE fits on the first node only. -/
theorem eval_values_and_frame_fullNode :
    ((fullNode .aBinpack).eval 0).1
        = [some (Objfn.getvalue ((noteDemand (fullNode .aBinpack).cs 0).withPlaced 0 0)
            .aBinpack 0), none]
      ∧ ((fullNode .aBinpack).eval 0).2 = (fullNode .aBinpack).setCs { (fullNode .aBinpack).cs with
          ds := some ((DemandStats.create 0).add fun _ => 4) } := by
  obtain ⟨hlen, hvalue, hframe⟩ := eval_values_and_frame (fullNode .aBinpack) 0
    ⟨rfl, fun _ _ => List.not_mem_nil⟩ fun p _ i => fullNode_usage_nonneg .aBinpack p i
  obtain ⟨v, w, hvw⟩ := List.length_eq_two.mp hlen
  rw [hvw] at hvalue
  obtain ⟨hnan, hnum⟩ := hvalue 0 0 rfl
  have hfit : ¬ (∃ k : Fin 2, ((fullNode .aBinpack).cs.mem.pe 0).resource.allowoverflow k = false
      ∧ ((fullNode .aBinpack).cs.mem.pe 0).resource.capacity k
          - ((fullNode .aBinpack).cs.mem.pe 0).resource.usage k
        < ((fullNode .aBinpack).cs.mem.le 0).demand k) := by decide
  have hfull := (hvalue 1 1 rfl).1.mpr ⟨1, rfl, by decide⟩
  refine ⟨?_, hframe⟩
  rw [hvw, Option.some.inj (hnum fun h => hfit (hnan.mp h)), Option.some.inj hfull]
  rfl

/-! ### Runs -/

end Evaluator

/-- What can happen to an evaluator: the calls of an update session, and the
evaluation of an LE made for it. The order in which the hash tables of the
session list their entries comes with the calls that list them. -/
inductive Event (n : ℕ) where
  | start (ord : EnumOrder) (generation : ℤ)
  | report (r : Report n)
  | stop (ord : EnumOrder)
  | eval (id : String) (demand : Fin n → ℤ)

namespace Evaluator

variable {n : ℕ} {K : Type}

/-- `le_create` for an evaluation. -/
def createLE (e : Evaluator n K) (id : String) (demand : Fin n → ℤ) : Evaluator n K :=
  e.setCs { e.cs with mem := (e.cs.mem.newLe (Le.create id demand)).1 }

/-- An LE made for an evaluation is not hosted. -/
lemma unhosted_createLE {e : Evaluator n K} (h : e.cs.WF) (id : String) (demand : Fin n → ℤ) :
    Unhosted (e.createLE id demand).cs e.cs.mem.leCount := by
  have hfree : (e.cs.mem.le e.cs.mem.leCount).host = none := by
    by_contra hne
    exact absurd (h.host_lt _ hne) (lt_irrefl _)
  refine ⟨?_, fun p hp => h.notMem_of_host_eq_none hfree hp⟩
  show ((e.cs.mem.newLe (Le.create id demand)).1.le e.cs.mem.leCount).host = none
  rw [Memory.newLe_fst_le_self]
  rfl

/-- An evaluation of a new LE keeps the updater well-formed. -/
lemma wf_createLE {e : Evaluator n K} (h : e.updater.WF) (id : String) (demand : Fin n → ℤ) :
    (e.createLE id demand).updater.WF := by
  refine ⟨h.cs.newLe id demand, fun hst => ?_⟩
  have hs := h.session hst
  have hold : ∀ k, k < e.cs.mem.leCount →
      (e.cs.mem.newLe (Le.create id demand)).1.le k = e.cs.mem.le k :=
    fun k hk => Memory.newLe_fst_le_of_ne _ _ hk.ne
  have hself := Memory.newLe_fst_le_self e.cs.mem (Le.create id demand)
  refine ⟨hs.observed, fun name l hl => ?_, fun l hl => ?_, fun name host hn => ?_⟩
  · obtain ⟨hlabel, hlt⟩ := hs.lemap name l hl
    exact ⟨by rw [← hlabel]; exact congrArg Le.label (hold l hlt), Nat.lt_succ_of_lt hlt⟩
  · have hne : l ≠ e.cs.mem.leCount := by
      rintro rfl
      exact hl (by rw [createLE, setCs, hself]; rfl)
    have hle : ((e.createLE id demand).updater.cs.mem.le l) = e.cs.mem.le l :=
      Memory.newLe_fst_le_of_ne _ _ hne
    rw [hle] at hl ⊢
    exact hs.hosted l hl
  · obtain ⟨hobs, l, hl, hl0⟩ := hs.pending name host hn
    refine ⟨hobs, l, hl, ?_⟩
    have hle : ((e.createLE id demand).updater.cs.mem.le l) = e.cs.mem.le l :=
      hold l (hs.lemap name l hl).2
    rw [hle]
    exact hl0

/-- A change of resources keeps the updater well-formed. -/
lemma wf_sameShape {s : StateUpdater n K} (h : s.WF) {m : Memory n} (hm : s.cs.mem.SameShape m)
    (ds : Option (DemandStats n K)) :
    StateUpdater.WF { s with cs := { s.cs with mem := m, ds := ds } } := by
  have hcs := h.cs.sameShape hm
  refine ⟨⟨hcs.pes_nodup, hcs.pes_lt, hcs.get_iff, hcs.host_iff, hcs.hosted_nodup, hcs.host_lt,
    hcs.name_inj, hcs.index⟩, fun hst => ?_⟩
  obtain ⟨h1, h2, h3, h4⟩ := h.session hst
  exact ⟨by simpa [hm.label] using h1, by simpa [hm.le, hm.leCount] using h2,
    by simpa [hm.le] using h3, by simpa [hm.le] using h4⟩

variable [Field K] [LinearOrder K] [HasSqrt K] [FloorRing K]

/-- One event; an evaluation returns its values. -/
def step (e : Evaluator n K) : Event n → Option (List (Option K)) × Evaluator n K
  | .start ord generation => (none, { e with updater := (e.updater.start ord generation).2 })
  | .report r => (none, { e with updater := e.updater.report r })
  | .stop ord => (none, { e with updater := e.updater.stop ord })
  | .eval id demand =>
      let (vals, e') := (e.createLE id demand).eval e.cs.mem.leCount
      (some vals, e')

/-- A run: the values of its evaluations, and the last state. -/
def run (e : Evaluator n K) : List (Event n) → List (List (Option K)) × Evaluator n K
  | [] => ([], e)
  | ev :: evs =>
      let (out, e) := e.step ev
      let (outs, e) := e.run evs
      (out.toList ++ outs, e)

/-- No event changes the objective. -/
lemma step_policyobjective (e : Evaluator n K) (ev : Event n) :
    (e.step ev).2.policyobjective = e.policyobjective := by
  cases ev <;> rfl

lemma run_policyobjective (e : Evaluator n K) (evs : List (Event n)) :
    (e.run evs).2.policyobjective = e.policyobjective := by
  induction evs generalizing e with
  | nil => rfl
  | cons ev evs ih => exact (ih _).trans (e.step_policyobjective ev)

/-- Evaluating an LE that is not hosted keeps the shape of the system. -/
lemma eval_sameShape (e : Evaluator n K) {l : LeRef} (hl : Unhosted e.cs l) :
    ∃ m, e.cs.mem.SameShape m ∧ (e.eval l).2 = e.setCs { noteDemand e.cs l with mem := m } := by
  have hl' : Unhosted (noteDemand e.cs l) l := ⟨hl.host, hl.notMem⟩
  obtain ⟨m, hm, heq⟩ := evalLoop_sameShape e.policyobjective e.policyresourceindex hl'
    (noteDemand e.cs l).pes fun p hp => hp
  exact ⟨m, hm, by rw [eval, ← heq]⟩

/-- Evaluating an LE that is not hosted keeps the updater well-formed. -/
lemma wf_eval {e : Evaluator n K} (h : e.updater.WF) {l : LeRef} (hl : Unhosted e.cs l) :
    (e.eval l).2.updater.WF := by
  obtain ⟨m, hm, hres⟩ := e.eval_sameShape hl
  rw [hres]
  exact wf_sameShape h hm _

/-- Every event keeps the updater well-formed. -/
lemma wf_step {e : Evaluator n K} (h : e.updater.WF) (ev : Event n) : (e.step ev).2.updater.WF := by
  cases ev with
  | start ord generation => exact h.start ord generation
  | report r => exact h.report r
  | stop ord => exact h.stop ord
  | eval id demand => exact wf_eval (wf_createLE h id demand) (unhosted_createLE h.cs id demand)

/-- Every run keeps the updater well-formed. -/
theorem wf_run {e : Evaluator n K} (h : e.updater.WF) (evs : List (Event n)) :
    (e.run evs).2.updater.WF := by
  induction evs generalizing e with
  | nil => exact h
  | cons ev evs ih => exact ih (wf_step h ev)

omit [HasSqrt K] [FloorRing K] in
lemma wf_create (resindex : ℤ) (type : ObjectiveType) :
    (create resindex type : Evaluator n K).updater.WF := by
  have h := CloudSystem.wf_create n K
  exact StateUpdater.wf_create ⟨h.pes_nodup, h.pes_lt, h.get_iff, h.host_iff, h.hosted_nodup,
    h.host_lt, h.name_inj, h.index⟩

end Evaluator

end KubeSafeScheduler.Pigeon
