import KubeSafeScheduler.Pigeon.Entities
import KubeSafeScheduler.Utils.Vector

/-!
`system/pe.c` over the vectors of `utils/vector.c`: the hosted lists of the PEs stand
in blocks of memory that grow, and `pe_clear` walks over a copy.

* `VectorMemory.placeLE`, `removeLE`, `clear`; `Call`, `step`, `run`.
* `VectorMemory.Refines`: the PEs with the lists that their vectors hold. Each function
  ends in what it makes of the lists, or stops on a request for memory that is refused
  (`Refines.placeLE_ends`, `removeLE_ends`, `clear_ends`).
* `Memory.Hosting`: every PE hosts LEs of a given set, each once.
* `run_ends`: with at most `maxSize` LEs a run stops only if memory runs out; no
  capacity leaves the range of `int`.
-/

namespace KubeSafeScheduler.Pigeon

open Utils

variable {n : ℕ}

/-- What a memory has apart from the hosted lists. -/
def Memory.withoutLists (m : Memory n) : Memory n :=
  { m with pe := fun p => { m.pe p with hostedLE := [] } }

/-- The PEs and LEs, with the vector `hostedLE` of each PE. -/
structure VectorMemory (n : ℕ) where
  mem : Memory n
  hosted : PeRef → Vector LeRef

namespace VectorMemory

/-- `pe_placeLE`. -/
def placeLE (alloc : Allocator LeRef) (s : VectorMemory n) (p : PeRef) (l : LeRef)
    (updateResource : Bool) : Except Stop (Bool × VectorMemory n) := do
  if ← (s.hosted p).contains (some l) then .ok (true, s)
  else do
    let load := if updateResource then (s.mem.pe p).resource.use (s.mem.le l).demand
      else ((s.mem.pe p).resource.isnormalload, (s.mem.pe p).resource)
    let (v, _) ← (s.hosted p).append alloc (some l)
    .ok (load.1, {
      mem := (s.mem.setPe p { s.mem.pe p with resource := load.2 }).sethost l (some p)
      hosted := Function.update s.hosted p v })

/-- `pe_removeLE`, where the LE can be `NULL`; its demand cannot be read then. -/
def removeLE (s : VectorMemory n) (p : PeRef) (l : Option LeRef) (updateResource : Bool) :
    Except Stop (Bool × VectorMemory n) := do
  let index ← (s.hosted p).getindex l
  if index < 0 then .ok (true, s)
  else match l with
    | none => .error .outOfBounds
    | some l => do
        let load := if updateResource then (s.mem.pe p).resource.release (s.mem.le l).demand
          else ((s.mem.pe p).resource.isnormalload, (s.mem.pe p).resource)
        let (v, _) ← (s.hosted p).remove index
        .ok (load.1, {
          mem := (s.mem.setPe p { s.mem.pe p with resource := load.2 }).sethost l none
          hosted := Function.update s.hosted p v })

/-- The round `i` of the loop of `pe_clear`. -/
def clearRound (temp : Vector LeRef) (p : PeRef) (updateResource : Bool) (s : VectorMemory n)
    (i : ℕ) : Except Stop (VectorMemory n) := do
  let lei ← temp.get i
  let (_, s) ← s.removeLE p lei updateResource
  .ok s

/-- `pe_clear`: the vector of the PE is appended to a new one, which the loop walks
over. -/
def clear (alloc : Allocator LeRef) (s : VectorMemory n) (p : PeRef) (updateResource : Bool) :
    Except Stop (VectorMemory n) := do
  let temp ← Vector.create alloc
  let copied ← Vector.appendall alloc (fun isTemp => if isTemp then temp else s.hosted p) true false
  (List.range (copied true).getsize.toNat).foldlM (clearRound (copied true) p updateResource) s

/-- A call on the PE `p`. -/
inductive Op where
  | placeLE (p : PeRef) (l : LeRef) (updateResource : Bool)
  | removeLE (p : PeRef) (l : LeRef) (updateResource : Bool)
  | clear (p : PeRef) (updateResource : Bool)

/-- A call, and the allocator meanwhile. -/
structure Call where
  op : Op
  alloc : Allocator LeRef

/-- The memory after a call. -/
def step (s : VectorMemory n) (c : Call) : Except Stop (VectorMemory n) :=
  match c.op with
  | .placeLE p l u => (s.placeLE c.alloc p l u).map Prod.snd
  | .removeLE p l u => (s.removeLE p (some l) u).map Prod.snd
  | .clear p u => s.clear c.alloc p u

/-- The same call on the lists. -/
def Op.onLists (m : Memory n) : Op → Memory n
  | .placeLE p l u => (Pe.placeLE m p l u).2
  | .removeLE p l u => (Pe.removeLE m p l u).2
  | .clear p u => Pe.clear m p u

/-! ### The lists behind the vectors -/

/-- The memory whose hosted lists the vectors hold. -/
structure Refines (s : VectorMemory n) (m : Memory n) : Prop where
  mem : s.mem = m.withoutLists
  hosted : ∀ p, (s.hosted p).Holds ((m.pe p).hostedLE.map some)

/-- A PE and an LE are written to, and one vector. -/
lemma withoutLists_setPe_sethost (m : Memory n) (p : PeRef) (x : Pe n) (l : LeRef)
    (host : Option PeRef) :
    ((m.setPe p x).sethost l host).withoutLists
      = (m.withoutLists.setPe p { x with hostedLE := [] }).sethost l host := by
  refine Memory.ext ?_ rfl rfl rfl
  funext q
  by_cases hq : q = p
  · subst hq
    simp [Memory.withoutLists]
  · simp [Memory.withoutLists, Memory.setPe_pe_of_ne, hq]

namespace Refines

variable {s : VectorMemory n} {m : Memory n}

lemma resource_eq (h : s.Refines m) (p : PeRef) : (s.mem.pe p).resource = (m.pe p).resource := by
  rw [h.mem]
  rfl

lemma le_eq (h : s.Refines m) : s.mem.le = m.le := by
  rw [h.mem]
  rfl

/-- A PE gets another resource and another list, and an LE another host. -/
lemma update (h : s.Refines m) (p : PeRef) (r : Resource n) {v : Vector LeRef} {ls : List LeRef}
    (hv : v.Holds (ls.map some)) (l : LeRef) (host : Option PeRef) :
    Refines
      { mem := (s.mem.setPe p { s.mem.pe p with resource := r }).sethost l host
        hosted := Function.update s.hosted p v }
      ((m.setPe p { m.pe p with resource := r, hostedLE := ls }).sethost l host) where
  mem := by
    rw [withoutLists_setPe_sethost, h.mem]
    rfl
  hosted q := by
    by_cases hq : q = p
    · subst hq
      show (Function.update s.hosted q v q).Holds _
      rw [Function.update_self, Memory.sethost_pe, Memory.setPe_pe_self]
      exact hv
    · show (Function.update s.hosted p v q).Holds _
      rw [Function.update_of_ne hq, Memory.sethost_pe, Memory.setPe_pe_of_ne _ _ hq]
      exact h.hosted q

/-- `pe_placeLE` appends an LE to a list that does not have it. -/
lemma placeLE_ends (h : s.Refines m) (alloc : Allocator LeRef) (p : PeRef) (l : LeRef) (u : Bool) :
    Ends (fun r => r.1 = (Pe.placeLE m p l u).1 ∧ r.2.Refines (Pe.placeLE m p l u).2)
      (Refused alloc ((Pe.placeLE m p l u).2.pe p).hostedLE.length) (s.placeLE alloc p l u) := by
  refine Ends.of_ok (Vector.contains_eq (h.hosted p).toShows (some l)) ?_
  by_cases hmem : l ∈ (m.pe p).hostedLE
  · rw [decide_eq_true (List.mem_map_of_mem hmem), Pe.placeLE, if_pos hmem]
    exact ⟨rfl, h⟩
  · have habs : some l ∉ (m.pe p).hostedLE.map some := by simpa using hmem
    have happend := Vector.append_ends alloc (h.hosted p) (some l)
    rw [decide_eq_false habs, Pe.placeLE, if_neg hmem]
    refine (happend.mono (fun _ hr => hr) (Refused.mono ?_)).bind fun r hr => ?_
    · rw [Memory.sethost_pe, Memory.setPe_pe_self, List.length_append, List.length_map,
        List.length_singleton]
    · have hv : r.1.Holds (((m.pe p).hostedLE ++ [l]).map some) := by
        rw [List.map_append]
        exact hr.1
      rw [h.resource_eq, h.le_eq]
      exact ⟨rfl, h.update p _ hv l (some p)⟩

/-- `pe_removeLE` takes the first occurrence of an LE out of a list. -/
lemma removeLE_ends (h : s.Refines m) (p : PeRef) (l : LeRef) (u : Bool) :
    Ends (fun r => r.1 = (Pe.removeLE m p l u).1 ∧ r.2.Refines (Pe.removeLE m p l u).2)
      (fun _ => False) (s.removeLE p (some l) u) := by
  refine Ends.of_ok (Vector.getindex_eq (h.hosted p).toShows (some l)) ?_
  have hsome := Vector.findIdx?_isSome_iff (l := (m.pe p).hostedLE.map some) (some l)
  cases hfind : ((m.pe p).hostedLE.map some).findIdx? fun x => x = some l with
  | none =>
      have habs : l ∉ (m.pe p).hostedLE := by simpa [hfind] using hsome
      rw [Pe.removeLE, if_pos habs]
      exact ⟨rfl, h⟩
  | some k =>
      have hmem : l ∈ (m.pe p).hostedLE := by simpa [hfind] using hsome
      have hremove := Vector.remove_found_ends (h.hosted p) hfind
      rw [← List.map_erase (Option.some_injective _)] at hremove
      rw [Pe.removeLE, if_neg (not_not_intro hmem)]
      refine Ends.bind hremove fun r hr => ?_
      rw [h.resource_eq, h.le_eq]
      exact ⟨rfl, h.update p _ hr.1 l none⟩

/-- The copy of a vector has all its elements, since none is `NULL`. -/
lemma copy_ends (alloc : Allocator LeRef) {temp v : Vector LeRef} {ls : List LeRef}
    (htemp : temp.Holds []) (hv : v.Holds (ls.map some)) :
    Ends (fun copied => (copied true).Holds (ls.map some)) (Refused alloc ls.length)
      (Vector.appendall alloc (fun isTemp => if isTemp then temp else v) true false) := by
  have hstore : ∀ isTemp : Bool, (if isTemp then temp else v).Holds
      (if isTemp then [] else ls.map some) := by
    rintro (- | -)
    · exact hv
    · exact htemp
  have hall : (ls.map some).filter Option.isSome = ls.map some :=
    List.filter_eq_self.mpr (by simp)
  have hcopy := Vector.appendall_ends alloc hstore true false
  refine hcopy.mono (fun copied hcopied => ?_) (Refused.mono ?_)
  · have hlist := hcopied true
    rw [Vector.appendedAll, Function.update_self] at hlist
    simpa [hall] using hlist
  · simp [hall]

/-- A round of the loop of `pe_clear`. -/
lemma clearRound_ends {temp : Vector LeRef} {ls : List LeRef} (htemp : temp.Holds (ls.map some))
    (p : PeRef) (u : Bool) {k : ℕ} (hk : k < ls.length)
    (h : s.Refines ((ls.take k).foldl (fun m l => (Pe.removeLE m p l u).2) m)) :
    Ends (fun s' => s'.Refines ((ls.take (k + 1)).foldl (fun m l => (Pe.removeLE m p l u).2) m))
      (fun _ => False) (s.clearRound temp p u k) := by
  have hget : temp.get k = .ok (some ls[k]) := by
    rw [Vector.get_eq htemp.toShows, if_neg (by omega), Int.toNat_natCast, List.getElem?_map,
      List.getElem?_eq_getElem hk]
    rfl
  rw [← List.take_append_getElem hk, List.foldl_append]
  refine Ends.of_ok hget ((h.removeLE_ends p ls[k] u).bind fun r hr => ?_)
  exact hr.2

/-- `pe_clear` removes every LE of the list. -/
lemma clear_ends (h : s.Refines m) (alloc : Allocator LeRef) (p : PeRef) (u : Bool) :
    Ends (fun s' => s'.Refines (Pe.clear m p u)) (Refused alloc (m.pe p).hostedLE.length)
      (s.clear alloc p u) := by
  refine ((Vector.create_ends alloc).mono (fun _ htemp => htemp)
    (Refused.mono (Nat.zero_le _))).bind fun temp htemp => ?_
  refine (copy_ends alloc htemp (h.hosted p)).bind fun copied hcopied => ?_
  have hn : (copied true).getsize.toNat = (m.pe p).hostedLE.length := by
    rw [Vector.getsize, hcopied.size_eq, Int.toNat_natCast, List.length_map]
  -- before a round the LEs in front of it are removed
  have hloop := Ends.foldlM_range
    (fun k (s : VectorMemory n) => s.Refines
      (((m.pe p).hostedLE.take k).foldl (fun m l => (Pe.removeLE m p l u).2) m)) h
    fun k hk s hs => clearRound_ends hcopied p u hk hs
  rw [List.take_length] at hloop
  rw [hn]
  exact hloop.of_never

end Refines

end VectorMemory

/-! ### The number of hosted LEs -/

/-- Every PE hosts LEs of the set, each once. -/
def Memory.Hosting (les : Finset LeRef) (m : Memory n) : Prop :=
  ∀ p, (m.pe p).hostedLE.Nodup ∧ ∀ l ∈ (m.pe p).hostedLE, l ∈ les

namespace Memory.Hosting

variable {les : Finset LeRef} {m : Memory n}

lemma length_le (h : m.Hosting les) (p : PeRef) : (m.pe p).hostedLE.length ≤ les.card := by
  rw [← List.toFinset_card_of_nodup (h p).1]
  exact Finset.card_le_card fun l hl => (h p).2 l (List.mem_toFinset.mp hl)

/-- Another list for one PE. -/
lemma update (h : m.Hosting les) (p : PeRef) (r : Resource n) {ls : List LeRef} (hnd : ls.Nodup)
    (hls : ∀ l ∈ ls, l ∈ les) (l : LeRef) (host : Option PeRef) :
    ((m.setPe p { m.pe p with resource := r, hostedLE := ls }).sethost l host).Hosting les := by
  intro q
  rw [sethost_pe]
  by_cases hq : q = p
  · subst hq
    rw [setPe_pe_self]
    exact ⟨hnd, hls⟩
  · rw [setPe_pe_of_ne _ _ hq]
    exact h q

lemma placeLE (h : m.Hosting les) (p : PeRef) {l : LeRef} (hl : l ∈ les) (u : Bool) :
    (Pe.placeLE m p l u).2.Hosting les := by
  by_cases hmem : l ∈ (m.pe p).hostedLE
  · rw [Pe.placeLE, if_pos hmem]
    exact h
  · rw [Pe.placeLE, if_neg hmem]
    refine h.update p _ ?_ ?_ l (some p)
    · exact List.nodup_append_comm.mp (List.nodup_cons.mpr ⟨hmem, (h p).1⟩)
    · intro k hk
      rcases List.mem_append.mp hk with hk | hk
      · exact (h p).2 k hk
      · rw [List.mem_singleton.mp hk]
        exact hl

lemma removeLE (h : m.Hosting les) (p : PeRef) (l : LeRef) (u : Bool) :
    (Pe.removeLE m p l u).2.Hosting les := by
  by_cases habs : l ∉ (m.pe p).hostedLE
  · rw [Pe.removeLE, if_pos habs]
    exact h
  · rw [Pe.removeLE, if_neg habs]
    exact h.update p _ ((h p).1.erase l) (fun k hk => (h p).2 k (List.mem_of_mem_erase hk)) l none

lemma clear (h : m.Hosting les) (p : PeRef) (u : Bool) : (Pe.clear m p u).Hosting les := by
  rw [Pe.clear]
  generalize (m.pe p).hostedLE = ls
  induction ls generalizing m with
  | nil => exact h
  | cons l ls ih => exact ih (h.removeLE p l u)

end Memory.Hosting

namespace VectorMemory

/-- What the call places is in the set. -/
def Op.Within (les : Finset LeRef) : Op → Prop
  | .placeLE _ l _ => l ∈ les
  | .removeLE _ _ _ => True
  | .clear _ _ => True

variable {les : Finset LeRef} {s : VectorMemory n} {m : Memory n}

lemma hosting_onLists (h : m.Hosting les) {op : Op} (hop : op.Within les) :
    (op.onLists m).Hosting les := by
  cases op with
  | placeLE p l u => exact h.placeLE p hop u
  | removeLE p l u => exact h.removeLE p l u
  | clear p u => exact h.clear p u

/-- A call that places LEs of the set is refused no memory because of its size. -/
lemma step_ends (h : s.Refines m) (hm : m.Hosting les) {c : Call} (hc : c.op.Within les) :
    Ends (fun s' => s'.Refines (c.op.onLists m)) (Refused c.alloc les.card) (s.step c) := by
  have hnext := hosting_onLists hm hc
  obtain ⟨op, alloc⟩ := c
  cases op with
  | placeLE p l u =>
      exact ((h.placeLE_ends alloc p l u).mono (fun _ hr => hr)
        (Refused.mono (hnext.length_le p))).bind fun r hr => hr.2
  | removeLE p l u => exact (h.removeLE_ends p l u).of_never.bind fun r hr => hr.2
  | clear p u =>
      exact (h.clear_ends alloc p u).mono (fun _ hr => hr) (Refused.mono (hm.length_le p))

/-- The memory after some calls. -/
def run (s : VectorMemory n) (calls : List Call) : Except Stop (VectorMemory n) :=
  calls.foldlM step s

lemma run_ends_of_refines (hles : les.card ≤ maxSize) {calls : List Call}
    (hcalls : ∀ c ∈ calls, c.op.Within les) (h : s.Refines m) (hm : m.Hosting les) :
    Ends (fun s' => s'.Refines (calls.foldl (fun m c => c.op.onLists m) m)) OutOfMemory
      (s.run calls) := by
  induction calls generalizing s m with
  | nil => exact h
  | cons c calls ih =>
      have hc : c.op.Within les := hcalls c List.mem_cons_self
      rw [run, List.foldlM_cons]
      refine ((step_ends h hm hc).mono (fun _ hs => hs) (Refused.outOfMemory hles)).bind
        fun s' hs' => ?_
      exact ih (fun d hd => hcalls d (List.mem_cons_of_mem c hd)) hs' (hosting_onLists hm hc)

/-- In a run that starts with new vectors and places at most `maxSize` LEs, the vectors
hold the hosted lists, unless memory runs out. -/
theorem run_ends (hles : les.card ≤ maxSize) {calls : List Call}
    (hcalls : ∀ c ∈ calls, c.op.Within les) (hmem : s.mem = m.withoutLists)
    (hnew : ∀ p, ∃ alloc, Vector.create alloc = .ok (s.hosted p))
    (hempty : ∀ p, (m.pe p).hostedLE = []) :
    Ends (fun s' => s'.Refines (calls.foldl (fun m c => c.op.onLists m) m)) OutOfMemory
      (s.run calls) := by
  refine run_ends_of_refines hles hcalls ⟨hmem, fun p => ?_⟩ fun p => ?_
  · obtain ⟨alloc, hcreate⟩ := hnew p
    rw [hempty]
    exact Vector.holds_of_create hcreate
  · rw [hempty]
    exact ⟨List.nodup_nil, fun l hl => absurd hl List.not_mem_nil⟩

/-- Two LEs on one PE: the first is removed, and the PE is cleared. -/
theorem run_ends_cleared : ∃ hosted : PeRef → Vector LeRef,
    let calls := [⟨.placeLE 0 0 true, .generous LeRef⟩, ⟨.placeLE 0 1 true, .generous LeRef⟩,
      ⟨.removeLE 0 0 true, .generous LeRef⟩, ⟨.clear 0 true, .generous LeRef⟩]
    Ends (fun s' => s'.Refines (calls.foldl (fun m c => c.op.onLists m) (Memory.empty 1)))
      OutOfMemory (run { mem := (Memory.empty 1).withoutLists, hosted := hosted } calls) := by
  obtain ⟨hosted, hnew⟩ := Vector.exists_created (ι := PeRef) (α := LeRef)
  have hles : ({0, 1} : Finset LeRef).card ≤ maxSize := by
    rw [maxSize]
    exact Finset.card_le_two.trans (by norm_num)
  refine ⟨hosted, run_ends hles (fun c hc => ?_) rfl hnew fun p => rfl⟩
  simp only [List.mem_cons, List.not_mem_nil, or_false] at hc
  rcases hc with rfl | rfl | rfl | rfl <;> simp [Op.Within]

end VectorMemory

end KubeSafeScheduler.Pigeon
