import Mathlib.Tactic
import Mathlib.Data.Fin.VecNotation

/-!
`system/resource.c`, `system/le.c` and `system/pe.c` of `pigeon_c`: the
resources of a node, the logical entities (LEs, the pods) and the physical
entities (PEs, the nodes).

PEs and LEs are shared through pointers in the C code (a hosted list holds LE
pointers, an LE holds the pointer of its host), so they live here in a
`Memory`, addressed by `PeRef` and `LeRef`. The resource of a PE and its hosted
list are owned by it alone and are stored in it by value. The number `n` of
resources is a parameter of the types: every capacity, usage and demand array
has that length. Integers are exact.

* `Resource`: `canuse`, `use`, `release`, `setcapacity`, `setusage`.
* `Memory`, `Pe`, `Le`: `Pe.canplaceLE`, `Pe.placeLE`, `Pe.removeLE`,
  `Pe.clear`, `Pe.update`.
* `Memory.Kept`, `Memory.Frame`: what placing and removing LEs never touches,
  labels, capacities, overflow flags, demands and positions (`frame_placeLE`,
  `frame_removeLE`, `frame_clear`).
* `removeLE_placeLE`: a trial placement of an LE that is not hosted, undone at
  once, restores the memory, provided the usage was not negative.
-/

namespace KubeSafeScheduler.Pigeon

variable {n : ℕ}

/-! ### Resources -/

/-- `s_resource`: the capacity, the amount used and the overflow permission of
each of the `n` resource types. -/
@[ext]
structure Resource (n : ℕ) where
  capacity : Fin n → ℤ
  usage : Fin n → ℤ
  allowoverflow : Fin n → Bool
  deriving DecidableEq

namespace Resource

/-- `resource_create`: nothing is used yet, and no overflow is allowed when the
flags are `NULL`. -/
def create (capacity : Fin n → ℤ) (allowoverflow : Option (Fin n → Bool)) : Resource n where
  capacity := capacity
  usage := fun _ => 0
  allowoverflow := allowoverflow.getD fun _ => false

/-- `resource_canuse`: the demand is within what is left of every resource
that may not overflow. -/
def canuse (r : Resource n) (demand : Fin n → ℤ) : Bool :=
  decide (∀ i, r.allowoverflow i = true ∨ demand i ≤ r.capacity i - r.usage i)

/-- `resource_use`: add the demand to the usage; the flag is `false` when some
usage is now above its capacity. -/
def use (r : Resource n) (demand : Fin n → ℤ) : Bool × Resource n :=
  (decide (∀ i, r.usage i + demand i ≤ r.capacity i),
    { r with usage := fun i => r.usage i + demand i })

/-- `resource_release`: subtract the demand from the usage, which is set to
zero when it would become negative; the flag is `false` in that case. -/
def release (r : Resource n) (demand : Fin n → ℤ) : Bool × Resource n :=
  (decide (∀ i, 0 ≤ r.usage i - demand i),
    { r with usage := fun i => if r.usage i - demand i < 0 then 0 else r.usage i - demand i })

/-- `resource_isnormalload`: no usage is above its capacity. -/
def isnormalload (r : Resource n) : Bool := decide (∀ i, r.usage i ≤ r.capacity i)

/-- `resource_setcapacity`: negative entries are read as zero. -/
def setcapacity (r : Resource n) (capacity : Fin n → ℤ) : Resource n :=
  { r with capacity := fun i => if 0 ≤ capacity i then capacity i else 0 }

/-- `resource_setusage`: negative entries are read as zero. -/
def setusage (r : Resource n) (usage : Fin n → ℤ) : Resource n :=
  { r with usage := fun i => if 0 ≤ usage i then usage i else 0 }

lemma canuse_iff (r : Resource n) (d : Fin n → ℤ) :
    r.canuse d = true ↔ ∀ i, r.allowoverflow i = true ∨ d i ≤ r.capacity i - r.usage i := by
  simp [canuse]

lemma canuse_eq_false_iff (r : Resource n) (d : Fin n → ℤ) :
    r.canuse d = false ↔
      ∃ i, r.allowoverflow i = false ∧ r.capacity i - r.usage i < d i := by
  simp [canuse]

/-- Releasing what was just taken restores the resource: the clamp at zero is
not reached when the usage was not negative. -/
lemma release_use (r : Resource n) (d : Fin n → ℤ) (h : ∀ i, 0 ≤ r.usage i) :
    ((r.use d).2.release d).2 = r := by
  ext i
  · rfl
  · have hi := h i
    simp only [use, release, add_sub_cancel_right]
    split <;> omega
  · rfl

lemma setcapacity_of_nonneg (r : Resource n) {c : Fin n → ℤ} (h : ∀ i, 0 ≤ c i) :
    (r.setcapacity c).capacity = c := by
  funext i
  simp [setcapacity, h i]

lemma setusage_of_nonneg (r : Resource n) {u : Fin n → ℤ} (h : ∀ i, 0 ≤ u i) :
    (r.setusage u).usage = u := by
  funext i
  simp [setusage, h i]

end Resource

/-! ### Entities in memory -/

/-- The address of a PE. -/
abbrev PeRef := ℕ

/-- The address of an LE. -/
abbrev LeRef := ℕ

/-- `s_le`: a logical entity, with the address of its host (`none` for
`NULL`). -/
@[ext]
structure Le (n : ℕ) where
  label : String
  demand : Fin n → ℤ
  host : Option PeRef

/-- `s_pe`: a physical entity, with the addresses of the LEs it hosts. -/
@[ext]
structure Pe (n : ℕ) where
  label : String
  resource : Resource n
  hostedLE : List LeRef
  indexinsystem : ℤ

/-- The PEs and LEs allocated so far; the addresses below the two counts are
in use. -/
@[ext]
structure Memory (n : ℕ) where
  pe : PeRef → Pe n
  le : LeRef → Le n
  peCount : ℕ
  leCount : ℕ

/-- `pe_create`: a PE that hosts nothing and has no position yet. -/
def Pe.create (label : String) (resource : Resource n) : Pe n where
  label := label
  resource := resource
  hostedLE := []
  indexinsystem := -1

/-- `le_create`: an LE that is not hosted. -/
def Le.create (label : String) (demand : Fin n → ℤ) : Le n where
  label := label
  demand := demand
  host := none

namespace Memory

/-- The memory before anything is allocated. -/
def empty (n : ℕ) : Memory n where
  pe := fun _ => Pe.create "" (Resource.create (fun _ => 0) none)
  le := fun _ => Le.create "" fun _ => 0
  peCount := 0
  leCount := 0

/-- Store a PE at an address. -/
def setPe (m : Memory n) (p : PeRef) (x : Pe n) : Memory n :=
  { m with pe := Function.update m.pe p x }

/-- `le_sethost`. -/
def sethost (m : Memory n) (l : LeRef) (host : Option PeRef) : Memory n :=
  { m with le := Function.update m.le l { m.le l with host := host } }

/-- Allocate a PE. -/
def newPe (m : Memory n) (x : Pe n) : Memory n × PeRef :=
  ({ m with pe := Function.update m.pe m.peCount x, peCount := m.peCount + 1 }, m.peCount)

/-- Allocate an LE. -/
def newLe (m : Memory n) (x : Le n) : Memory n × LeRef :=
  ({ m with le := Function.update m.le m.leCount x, leCount := m.leCount + 1 }, m.leCount)

end Memory

namespace Pe

/-- `pe_canplaceLE`. -/
def canplaceLE (m : Memory n) (p : PeRef) (l : LeRef) : Bool :=
  (m.pe p).resource.canuse (m.le l).demand

/-- `pe_placeLE`: nothing happens when the LE is already in the hosted list;
otherwise the usage is updated (on request), the LE is appended to the list
and its host is set. -/
def placeLE (m : Memory n) (p : PeRef) (l : LeRef) (updateResource : Bool) : Bool × Memory n :=
  if l ∈ (m.pe p).hostedLE then (true, m)
  else
    let load := if updateResource then (m.pe p).resource.use (m.le l).demand
      else ((m.pe p).resource.isnormalload, (m.pe p).resource)
    (load.1, (m.setPe p { m.pe p with
      resource := load.2, hostedLE := (m.pe p).hostedLE ++ [l] }).sethost l (some p))

/-- `pe_removeLE`: nothing happens when the LE is not in the hosted list;
otherwise the usage is updated (on request), the first occurrence of the LE in
the list is deleted and its host is set to `NULL`. -/
def removeLE (m : Memory n) (p : PeRef) (l : LeRef) (updateResource : Bool) : Bool × Memory n :=
  if l ∉ (m.pe p).hostedLE then (true, m)
  else
    let load := if updateResource then (m.pe p).resource.release (m.le l).demand
      else ((m.pe p).resource.isnormalload, (m.pe p).resource)
    (load.1, (m.setPe p { m.pe p with
      resource := load.2, hostedLE := (m.pe p).hostedLE.erase l }).sethost l none)

/-- `pe_clear`: remove every LE of a copy of the hosted list. -/
def clear (m : Memory n) (p : PeRef) (updateResource : Bool) : Memory n :=
  (m.pe p).hostedLE.foldl (fun m l => (removeLE m p l updateResource).2) m

/-- `pe_update`: set the capacity and the usage, each unless it is `NULL`. -/
def update (x : Pe n) (capacity usage : Option (Fin n → ℤ)) : Pe n :=
  let r := match capacity with
    | some c => x.resource.setcapacity c
    | none => x.resource
  { x with resource := match usage with
    | some u => r.setusage u
    | none => r }

end Pe

/-! ### What the memory operations read back -/

namespace Memory

variable (m : Memory n)

@[simp] lemma setPe_pe_self (p : PeRef) (x : Pe n) : (m.setPe p x).pe p = x := by
  simp [setPe]

lemma setPe_pe_of_ne {p q : PeRef} (x : Pe n) (h : q ≠ p) : (m.setPe p x).pe q = m.pe q := by
  simp [setPe, h]

/-- What a new PE shares with the one it replaces is the same at every address. -/
lemma setPe_congr {α : Type} (f : Pe n → α) {p : PeRef} {x : Pe n} (h : f x = f (m.pe p))
    (q : PeRef) : f ((m.setPe p x).pe q) = f (m.pe q) := by
  by_cases hq : q = p
  · rw [hq, setPe_pe_self, h]
  · rw [setPe_pe_of_ne m x hq]

@[simp] lemma setPe_le (p : PeRef) (x : Pe n) : (m.setPe p x).le = m.le := rfl

@[simp] lemma setPe_peCount (p : PeRef) (x : Pe n) : (m.setPe p x).peCount = m.peCount := rfl

@[simp] lemma setPe_leCount (p : PeRef) (x : Pe n) : (m.setPe p x).leCount = m.leCount := rfl

@[simp] lemma sethost_pe (l : LeRef) (h : Option PeRef) : (m.sethost l h).pe = m.pe := rfl

@[simp] lemma sethost_peCount (l : LeRef) (h : Option PeRef) :
    (m.sethost l h).peCount = m.peCount := rfl

@[simp] lemma sethost_leCount (l : LeRef) (h : Option PeRef) :
    (m.sethost l h).leCount = m.leCount := rfl

lemma sethost_host (l k : LeRef) (h : Option PeRef) :
    ((m.sethost l h).le k).host = if k = l then h else (m.le k).host := by
  by_cases hk : k = l
  · subst hk; simp [sethost]
  · simp [sethost, hk]

@[simp] lemma sethost_label (l k : LeRef) (h : Option PeRef) :
    ((m.sethost l h).le k).label = (m.le k).label := by
  by_cases hk : k = l
  · subst hk; simp [sethost]
  · simp [sethost, hk]

@[simp] lemma sethost_demand (l k : LeRef) (h : Option PeRef) :
    ((m.sethost l h).le k).demand = (m.le k).demand := by
  by_cases hk : k = l
  · subst hk; simp [sethost]
  · simp [sethost, hk]

@[simp] lemma newPe_fst_le (x : Pe n) : (m.newPe x).1.le = m.le := rfl

@[simp] lemma newPe_fst_pe_self (x : Pe n) : (m.newPe x).1.pe m.peCount = x := by
  simp [newPe]

lemma newPe_fst_pe_of_lt (x : Pe n) {p : PeRef} (h : p < m.peCount) :
    (m.newPe x).1.pe p = m.pe p := by
  simp [newPe, h.ne]

@[simp] lemma newLe_fst_pe (x : Le n) : (m.newLe x).1.pe = m.pe := rfl

@[simp] lemma newLe_fst_le_self (x : Le n) : (m.newLe x).1.le m.leCount = x := by
  simp [newLe]

lemma newLe_fst_le_of_ne (x : Le n) {l : LeRef} (h : l ≠ m.leCount) :
    (m.newLe x).1.le l = m.le l := by
  simp [newLe, h]

end Memory

/-! ### The frame of placing and removing -/

/-- What no phase of an update session but the reports themselves touches:
labels, capacities and overflow flags of the PEs, labels and demands of the
LEs, and the two counts. -/
structure Memory.Kept (m m' : Memory n) : Prop where
  label : ∀ p, (m'.pe p).label = (m.pe p).label
  capacity : ∀ p, (m'.pe p).resource.capacity = (m.pe p).resource.capacity
  allowoverflow : ∀ p, (m'.pe p).resource.allowoverflow = (m.pe p).resource.allowoverflow
  leLabel : ∀ l, (m'.le l).label = (m.le l).label
  demand : ∀ l, (m'.le l).demand = (m.le l).demand
  peCount : m'.peCount = m.peCount
  leCount : m'.leCount = m.leCount

/-- The frame of placing and removing LEs: positions are kept too. -/
structure Memory.Frame (m m' : Memory n) : Prop extends m.Kept m' where
  index : ∀ p, (m'.pe p).indexinsystem = (m.pe p).indexinsystem

lemma Memory.Kept.refl (m : Memory n) : m.Kept m :=
  ⟨fun _ => rfl, fun _ => rfl, fun _ => rfl, fun _ => rfl, fun _ => rfl, rfl, rfl⟩

lemma Memory.Kept.trans {m₁ m₂ m₃ : Memory n} (h : m₁.Kept m₂) (h' : m₂.Kept m₃) :
    m₁.Kept m₃ where
  label p := (h'.label p).trans (h.label p)
  capacity p := (h'.capacity p).trans (h.capacity p)
  allowoverflow p := (h'.allowoverflow p).trans (h.allowoverflow p)
  leLabel l := (h'.leLabel l).trans (h.leLabel l)
  demand l := (h'.demand l).trans (h.demand l)
  peCount := h'.peCount.trans h.peCount
  leCount := h'.leCount.trans h.leCount

namespace Memory.Frame

lemma refl (m : Memory n) : m.Frame m := ⟨Memory.Kept.refl m, fun _ => rfl⟩

lemma trans {m₁ m₂ m₃ : Memory n} (h : m₁.Frame m₂) (h' : m₂.Frame m₃) : m₁.Frame m₃ :=
  ⟨h.toKept.trans h'.toKept, fun p => (h'.index p).trans (h.index p)⟩

/-- Rewriting one PE keeps the frame as soon as its own label, capacity, flags
and position are kept; the host of an LE is outside the frame. -/
lemma setPe_sethost {m : Memory n} {p : PeRef} {x : Pe n} (l : LeRef) (h : Option PeRef)
    (hlabel : x.label = (m.pe p).label)
    (hcap : x.resource.capacity = (m.pe p).resource.capacity)
    (hovf : x.resource.allowoverflow = (m.pe p).resource.allowoverflow)
    (hidx : x.indexinsystem = (m.pe p).indexinsystem) :
    m.Frame ((m.setPe p x).sethost l h) := by
  refine ⟨⟨fun q => ?_, fun q => ?_, fun q => ?_, fun k => ?_, fun k => ?_, rfl, rfl⟩, fun q => ?_⟩
  · exact m.setPe_congr Pe.label hlabel q
  · exact m.setPe_congr (fun y => y.resource.capacity) hcap q
  · exact m.setPe_congr (fun y => y.resource.allowoverflow) hovf q
  · rw [sethost_label, setPe_le]
  · rw [sethost_demand, setPe_le]
  · exact m.setPe_congr Pe.indexinsystem hidx q

end Memory.Frame

/-- Two memories of one shape: they differ in the resources of the PEs at
most. -/
structure Memory.SameShape (m m' : Memory n) : Prop where
  label : ∀ p, (m'.pe p).label = (m.pe p).label
  hosted : ∀ p, (m'.pe p).hostedLE = (m.pe p).hostedLE
  index : ∀ p, (m'.pe p).indexinsystem = (m.pe p).indexinsystem
  le : m'.le = m.le
  peCount : m'.peCount = m.peCount
  leCount : m'.leCount = m.leCount

lemma Memory.SameShape.refl (m : Memory n) : m.SameShape m :=
  ⟨fun _ => rfl, fun _ => rfl, fun _ => rfl, rfl, rfl, rfl⟩

lemma Memory.SameShape.trans {m₁ m₂ m₃ : Memory n} (h : m₁.SameShape m₂) (h' : m₂.SameShape m₃) :
    m₁.SameShape m₃ where
  label p := (h'.label p).trans (h.label p)
  hosted p := (h'.hosted p).trans (h.hosted p)
  index p := (h'.index p).trans (h.index p)
  le := h'.le.trans h.le
  peCount := h'.peCount.trans h.peCount
  leCount := h'.leCount.trans h.leCount

/-- Setting the resource of a PE keeps the shape. -/
lemma Memory.sameShape_setPe (m : Memory n) (p : PeRef) (r : Resource n) :
    m.SameShape (m.setPe p { m.pe p with resource := r }) where
  label := m.setPe_congr Pe.label rfl
  hosted := m.setPe_congr Pe.hostedLE rfl
  index := m.setPe_congr Pe.indexinsystem rfl
  le := rfl
  peCount := rfl
  leCount := rfl

namespace Pe

variable {m : Memory n} {p : PeRef} {l : LeRef}

lemma placeLE_of_notMem (h : l ∉ (m.pe p).hostedLE) :
    (placeLE m p l true).2 = (m.setPe p { m.pe p with
      resource := ((m.pe p).resource.use (m.le l).demand).2,
      hostedLE := (m.pe p).hostedLE ++ [l] }).sethost l (some p) := by
  simp [placeLE, h]

lemma removeLE_of_mem (h : l ∈ (m.pe p).hostedLE) :
    (removeLE m p l true).2 = (m.setPe p { m.pe p with
      resource := ((m.pe p).resource.release (m.le l).demand).2,
      hostedLE := (m.pe p).hostedLE.erase l }).sethost l none := by
  simp [removeLE, h]

lemma removeLE_of_notMem (h : l ∉ (m.pe p).hostedLE) (u : Bool) : (removeLE m p l u).2 = m := by
  simp [removeLE, h]

lemma frame_placeLE (m : Memory n) (p : PeRef) (l : LeRef) : m.Frame (placeLE m p l true).2 := by
  by_cases h : l ∈ (m.pe p).hostedLE
  · simpa [placeLE, h] using Memory.Frame.refl m
  · rw [placeLE_of_notMem h]
    exact Memory.Frame.setPe_sethost l _ rfl rfl rfl rfl

lemma frame_removeLE (m : Memory n) (p : PeRef) (l : LeRef) : m.Frame (removeLE m p l true).2 := by
  by_cases h : l ∈ (m.pe p).hostedLE
  · rw [removeLE_of_mem h]
    exact Memory.Frame.setPe_sethost l _ rfl rfl rfl rfl
  · rw [removeLE_of_notMem h]
    exact Memory.Frame.refl m

lemma frame_clear (m : Memory n) (p : PeRef) : m.Frame (clear m p true) := by
  rw [clear]
  generalize (m.pe p).hostedLE = ls
  induction ls generalizing m with
  | nil => exact Memory.Frame.refl m
  | cons l ls ih => exact (frame_removeLE m p l).trans (ih _)

/-! ### Hosted lists and hosts after placing and removing -/

lemma placeLE_pe_of_ne {q : PeRef} (hq : q ≠ p) : (placeLE m p l true).2.pe q = m.pe q := by
  by_cases h : l ∈ (m.pe p).hostedLE
  · simp [placeLE, h]
  · rw [placeLE_of_notMem h]
    simp [Memory.setPe_pe_of_ne, hq]

lemma removeLE_pe_of_ne {q : PeRef} (hq : q ≠ p) : (removeLE m p l true).2.pe q = m.pe q := by
  by_cases h : l ∈ (m.pe p).hostedLE
  · rw [removeLE_of_mem h]
    simp [Memory.setPe_pe_of_ne, hq]
  · rw [removeLE_of_notMem h]

lemma placeLE_hostedLE (h : l ∉ (m.pe p).hostedLE) :
    ((placeLE m p l true).2.pe p).hostedLE = (m.pe p).hostedLE ++ [l] := by
  rw [placeLE_of_notMem h]
  simp

lemma placeLE_host (h : l ∉ (m.pe p).hostedLE) (k : LeRef) :
    ((placeLE m p l true).2.le k).host = if k = l then some p else (m.le k).host := by
  rw [placeLE_of_notMem h, Memory.sethost_host]
  simp

lemma placeLE_usage (h : l ∉ (m.pe p).hostedLE) :
    ((placeLE m p l true).2.pe p).resource.usage
      = fun i => (m.pe p).resource.usage i + (m.le l).demand i := by
  rw [placeLE_of_notMem h]
  simp [Resource.use]

lemma removeLE_hostedLE (m : Memory n) (p : PeRef) (l : LeRef) :
    ((removeLE m p l true).2.pe p).hostedLE = (m.pe p).hostedLE.erase l := by
  by_cases h : l ∈ (m.pe p).hostedLE
  · rw [removeLE_of_mem h]
    simp
  · rw [removeLE_of_notMem h, List.erase_of_not_mem h]

lemma removeLE_host (h : l ∈ (m.pe p).hostedLE) (k : LeRef) :
    ((removeLE m p l true).2.le k).host = if k = l then none else (m.le k).host := by
  rw [removeLE_of_mem h, Memory.sethost_host]
  simp

lemma removeLE_usage (h : l ∈ (m.pe p).hostedLE) :
    ((removeLE m p l true).2.pe p).resource.usage
      = ((m.pe p).resource.release (m.le l).demand).2.usage := by
  rw [removeLE_of_mem h]
  simp

/-- `pe_clear` empties the hosted list, takes the host from the LEs that were
in it and touches no other PE. -/
lemma clear_spec (m : Memory n) (p : PeRef) :
    ((clear m p true).pe p).hostedLE = []
      ∧ (∀ q, q ≠ p → (clear m p true).pe q = m.pe q)
      ∧ ∀ k, ((clear m p true).le k).host
          = if k ∈ (m.pe p).hostedLE then none else (m.le k).host := by
  -- the list still to be removed is always the hosted list itself
  have key : ∀ (ls : List LeRef) (m : Memory n), (m.pe p).hostedLE = ls →
      ((ls.foldl (fun m l => (removeLE m p l true).2) m).pe p).hostedLE = []
        ∧ (∀ q, q ≠ p → (ls.foldl (fun m l => (removeLE m p l true).2) m).pe q = m.pe q)
        ∧ ∀ k, ((ls.foldl (fun m l => (removeLE m p l true).2) m).le k).host
            = if k ∈ ls then none else (m.le k).host := by
    intro ls
    induction ls with
    | nil => intro m hm; simp [hm]
    | cons l ls ih =>
        intro m hm
        have hmem : l ∈ (m.pe p).hostedLE := by simp [hm]
        have hrest : ((removeLE m p l true).2.pe p).hostedLE = ls := by
          rw [removeLE_hostedLE, hm, List.erase_cons_head]
        obtain ⟨h1, h2, h3⟩ := ih _ hrest
        refine ⟨h1, fun q hq => ?_, fun k => ?_⟩
        · rw [List.foldl_cons, h2 q hq, removeLE_pe_of_ne hq]
        · rw [List.foldl_cons, h3 k, removeLE_host hmem]
          by_cases hk : k = l <;> simp [hk]
  exact key _ m rfl

/-! ### Trial placements -/

/-- A trial placement of an LE that is not hosted, undone at once, leaves only
the resource of the PE to be looked at. -/
lemma removeLE_placeLE_eq (hl : l ∉ (m.pe p).hostedLE) (hhost : (m.le l).host = none) :
    (removeLE (placeLE m p l true).2 p l true).2 = m.setPe p { m.pe p with
      resource := (((m.pe p).resource.use (m.le l).demand).2.release (m.le l).demand).2 } := by
  have hmem : l ∈ ((placeLE m p l true).2.pe p).hostedLE := by
    rw [placeLE_hostedLE hl]; simp
  have hframe := frame_placeLE m p l
  rw [removeLE_of_mem hmem, hframe.demand]
  ext1
  · funext q
    rw [Memory.sethost_pe]
    by_cases hq : q = p
    · subst hq
      have hres : ((placeLE m q l true).2.pe q).resource
          = ((m.pe q).resource.use (m.le l).demand).2 := by
        rw [placeLE_of_notMem hl]; simp
      rw [Memory.setPe_pe_self, Memory.setPe_pe_self]
      ext1
      · exact hframe.label q
      · rw [hres]
      · rw [placeLE_hostedLE hl]
        simp [List.erase_append, hl]
      · exact hframe.index q
    · rw [Memory.setPe_pe_of_ne _ _ hq, Memory.setPe_pe_of_ne _ _ hq, placeLE_pe_of_ne hq]
  · funext k
    ext1
    · simp [hframe.leLabel]
    · simp [hframe.demand]
    · rw [Memory.sethost_host]
      by_cases hk : k = l
      · subst hk; simp [hhost]
      · simp [hk, placeLE_host hl]
  · simpa using hframe.peCount
  · simpa using hframe.leCount

/-- A trial placement undone at once leaves the memory as it was: the usage
cannot be clamped, since it was not negative before the trial. -/
lemma removeLE_placeLE (hl : l ∉ (m.pe p).hostedLE) (hhost : (m.le l).host = none)
    (hu : ∀ i, 0 ≤ (m.pe p).resource.usage i) :
    (removeLE (placeLE m p l true).2 p l true).2 = m := by
  rw [removeLE_placeLE_eq hl hhost, Resource.release_use _ _ hu]
  simp [Memory.setPe]

/-- A trial placement undone at once keeps the shape, whatever the usage. -/
lemma sameShape_removeLE_placeLE (hl : l ∉ (m.pe p).hostedLE) (hhost : (m.le l).host = none) :
    m.SameShape (removeLE (placeLE m p l true).2 p l true).2 := by
  rw [removeLE_placeLE_eq hl hhost]
  exact Memory.sameShape_setPe m p _

end Pe

end KubeSafeScheduler.Pigeon
