import KubeSafeScheduler.Pigeon.CloudSystem

/-!
`objective/`: the objective functions of the evaluator, in exact arithmetic.

A value is a function of the resources of the PEs, in vector order, and of the
demand statistics (`getvalue_congr`); the order does not matter. An average
capacity of zero divides to zero here, where floating point leaves the finite
numbers, and a read outside an array, which is undefined in C, gives zero.

* `mathhelperStddev`, `unbalanceScaled`: balance and unbalance of a list of
  utilizations.
* `Lbfn.getsystemvalue`, `Consfn.getsystemvalue`, `Abpfn.getsystemvalue`: the
  three objectives, and `Objfn.getvalue`, which picks one.
* `ObjectiveType`, `objtypeFromstring`: `system/defs.c`.
-/

namespace KubeSafeScheduler.Pigeon

/-! ### Names of the objectives -/

/-- `objective_type`. -/
inductive ObjectiveType where
  | loadBalance
  | consolidate
  | maxLevelReturn
  | zeroSystem
  | zeroBalance
  | resTopology
  | multiBalance
  | aBinpack
  | fitPack
  | fitSpread
  | fitPackBalance
  | fitSpreadBalance
  | network
  | loadBalanceNetwork
  deriving DecidableEq, Repr

/-- The objective reads the statistics of the demands. -/
def ObjectiveType.usesStats : ObjectiveType → Bool
  | .loadBalance => false
  | .consolidate => false
  | _ => true

/-- `defs_objtypeFromstring`, with `none` for `NULL`. -/
def objtypeFromstring : Option String → ObjectiveType
  | none => .aBinpack
  | some s =>
      if s = "LOAD_BALANCE" then .loadBalance
      else if s = "CONSOLIDATE" then .consolidate
      else if s = "A_BINPACK" then .aBinpack
      else .aBinpack

/-- The two objectives that do not read the statistics, by their names. -/
lemma usesStats_objtypeFromstring (s : Option String) :
    (objtypeFromstring s).usesStats = false ↔
      s = some "LOAD_BALANCE" ∨ s = some "CONSOLIDATE" := by
  cases s with
  | none => simp [objtypeFromstring, ObjectiveType.usesStats]
  | some s =>
      rw [objtypeFromstring, Option.some.injEq, Option.some.injEq]
      split_ifs with h1 h2
      · simp [h1, ObjectiveType.usesStats]
      · simp [h2, ObjectiveType.usesStats]
      all_goals simp [h1, h2, ObjectiveType.usesStats]

variable {n : ℕ} {K : Type} [Field K] [LinearOrder K]

/-! ### Balance of a list of utilizations -/

/-- `mathhelper_average`. -/
def mathhelperAverage (x : List K) : K := if 0 < x.length then x.sum / x.length else 0

/-- `unbalance_scaled`: the distances from the average, scaled by the room on
their side, in quadratic mean, subtracted from one. The first test of the loop
asks for two bounds that exclude each other. -/
def unbalanceScaled [HasSqrt K] (x : List K) : K :=
  let avg := mathhelperAverage x
  if avg ≤ 0 ∨ 1 ≤ avg then 0
  else
    let square (xi : K) : K :=
      if xi ≤ 0 ∧ 1 ≤ xi then 1
      else
        let term :=
          if xi < avg then (avg - xi) / avg
          else if avg < xi then (xi - avg) / (1 - avg)
          else 0
        term * term
    1 - HasSqrt.sqrt ((x.map square).sum / x.length)

/-- `commonobj_unbalance` with `UNBALANCE_SCALED`. -/
def commonobjUnbalance [HasSqrt K] (x : List K) : K :=
  if x.length = 0 then 0 else unbalanceScaled x

/-- `mathhelper_stddev`. -/
def mathhelperStddev [HasSqrt K] (x : List K) : K :=
  if x.length = 0 then 0
  else
    let mean := x.sum / x.length
    let mean2 := (x.map fun xi => xi * xi).sum / x.length
    HasSqrt.sqrt (max (mean2 - mean * mean) 0)

/-- `commonobj_balance`. -/
def commonobjBalance [HasSqrt K] (x : List K) : K := mathhelperStddev x

/-! ### Readings of a resource -/

/-- The entry of an array at an index of type `int`. -/
def readAt (x : Fin n → ℤ) (i : ℤ) : ℤ :=
  if h : 0 ≤ i ∧ i < n then x ⟨i.toNat, by omega⟩ else 0

lemma readAt_natCast (x : Fin n → ℤ) (i : Fin n) : readAt x ((i : ℕ) : ℤ) = x i := by
  have hi : 0 ≤ ((i : ℕ) : ℤ) ∧ ((i : ℕ) : ℤ) < n := ⟨by omega, by exact_mod_cast i.isLt⟩
  rw [readAt, dif_pos hi]
  rfl

namespace Resource

/-- `u[i]` of `lbfn_getsystemvalue` and `consfn_getsystemvalue`: the used share
of the policy resource, one without capacity. -/
def policyUtilization (resindex : ℤ) (r : Resource n) : K :=
  let cap := readAt r.capacity resindex
  if 0 < cap then (readAt r.usage resindex : K) / cap else 1

/-- `resource_getutilization`: the used shares, kept between zero and one. -/
def getutilization (r : Resource n) (i : Fin n) : K :=
  if r.capacity i = 0 then if r.usage i = 0 then 0 else 1
  else
    let u : K := (r.usage i : K) / r.capacity i
    let u := if 1 < u then 1 else u
    if u < 0 then 0 else u

end Resource

/-- `cloudsystem_getaveragecapacity`: the average over the PEs that have the
resource, zero when there is none; `NULL` without resources. -/
def CloudSystem.getaveragecapacity (cs : CloudSystem n K) : Option (Fin n → K) :=
  if cs.getnumresources = 0 then none
  else some fun j =>
    let caps := (cs.resources.map fun r => r.capacity j).filter fun c => 0 < c
    if 0 < caps.length then (caps.map fun c : ℤ => (c : K)).sum / caps.length else 0

/-! ### The three objectives -/

/-- `lbfn_getsystemvalue`. -/
def Lbfn.getsystemvalue [HasSqrt K] (cs : CloudSystem n K) (resindex : ℤ) : K :=
  commonobjBalance (cs.resources.map (Resource.policyUtilization resindex))

/-- `consfn_getsystemvalue`. -/
def Consfn.getsystemvalue [HasSqrt K] (cs : CloudSystem n K) (resindex : ℤ) : K :=
  commonobjUnbalance (cs.resources.map (Resource.policyUtilization resindex))

namespace Abpfn

/-- The matrix `sysM` of `abpnf_getvariation_system`: the utilization of each
resource on each PE. -/
def systemMatrix (rs : List (Resource n)) : Matrix (Fin n) (Fin rs.length) K :=
  Matrix.of fun j i => (rs.get i).getutilization j

/-- `abpnf_getvariation_system`: covariance and average of the utilizations. -/
def getvariationSystem (cs : CloudSystem n K) :
    Option (Matrix (Fin n) (Fin n) K × (Fin n → K)) :=
  if cs.pes.length = 0 ∨ cs.getnumresources = 0 then none
  else
    let sysM : Matrix (Fin n) (Fin cs.resources.length) K := systemMatrix cs.resources
    some (matrixCovariance sysM, matrixAverage sysM)

/-- `abpnf_getvariation_demand_history`: covariance and average of the demands
seen, relative to the average capacity. -/
def getvariationDemandHistory (cs : CloudSystem n K) :
    Option (Matrix (Fin n) (Fin n) K × (Fin n → K)) := do
  let dstats ← cs.ds
  let mu ← dstats.moments
  let avgcap ← cs.getaveragecapacity
  let munorm : Fin n → K := fun i => if 0 < avgcap i then mu.avg i / avgcap i else mu.avg i
  let mu2norm : Matrix (Fin n) (Fin n) K := Matrix.of fun i j =>
    if 0 < avgcap i then mu.avg2 i j / (avgcap i * avgcap j) else mu.avg2 i j
  let cov ← covarianceFromStats mu2norm munorm
  pure (cov, munorm)

/-- `abpfn_diffvalue` in its scalar form (`ABPN_COMPARE_SCALAR`): the distance
of the two coefficients of variation. -/
def diffvalue [HasSqrt K] (sys dem : Matrix (Fin n) (Fin n) K × (Fin n → K)) : K :=
  let covS := coefficientVariationFromStats sys.1 sys.2 .albertZhang
  let covD := coefficientVariationFromStats dem.1 dem.2 .albertZhang
  let diff := covS - covD
  if 0 ≤ diff then diff else -diff

/-- `abpfn_getsystemvalue` with the statistics of the demand history
(`ABPN_USE_STATISTICS`). -/
def getsystemvalue [HasSqrt K] (cs : CloudSystem n K) : K :=
  match getvariationSystem cs with
  | none => 0
  | some sys =>
      match getvariationDemandHistory cs with
      | none => 0
      | some dem => diffvalue sys dem

end Abpfn

/-- `objfn_getvalue` of the function made by `objfn_create`: every type but the
first two is read as `A_BINPACK`. -/
def Objfn.getvalue [HasSqrt K] (cs : CloudSystem n K) (type : ObjectiveType) (resindex : ℤ) : K :=
  match type with
  | .loadBalance => Lbfn.getsystemvalue cs resindex
  | .consolidate => Consfn.getsystemvalue cs resindex
  | .aBinpack => Abpfn.getsystemvalue cs
  | _ => Abpfn.getsystemvalue cs

/-! ### What a value depends on -/

section Symmetry

omit [LinearOrder K] in
lemma mathhelperAverage_perm {x y : List K} (h : x.Perm y) :
    mathhelperAverage x = mathhelperAverage y := by
  rw [mathhelperAverage, mathhelperAverage, h.sum_eq, h.length_eq]

lemma commonobjUnbalance_perm [HasSqrt K] {x y : List K} (h : x.Perm y) :
    commonobjUnbalance x = commonobjUnbalance y := by
  simp only [commonobjUnbalance, unbalanceScaled, mathhelperAverage_perm h, h.length_eq,
    (h.map _).sum_eq]

lemma commonobjBalance_perm [HasSqrt K] {x y : List K} (h : x.Perm y) :
    commonobjBalance x = commonobjBalance y := by
  simp only [commonobjBalance, mathhelperStddev, h.length_eq, h.sum_eq, (h.map _).sum_eq]

/-- A sum over the columns of the system matrix is a sum over the PEs. -/
lemma sum_systemMatrix (rs : List (Resource n)) (f : (Fin n → K) → K) :
    ∑ i, f (fun j => Abpfn.systemMatrix rs j i)
      = (rs.map fun r => f fun j => r.getutilization j).sum := by
  rw [← List.sum_ofFn]
  congr 1
  refine List.ext_get (by simp) fun i h1 h2 => ?_
  simp [Abpfn.systemMatrix]

lemma matrixAverage_systemMatrix (rs : List (Resource n)) (j : Fin n) :
    matrixAverage (Abpfn.systemMatrix rs : Matrix (Fin n) _ K) j
      = if rs.length = 0 then 0
        else (rs.map fun r => (r.getutilization j : K)).sum / rs.length := by
  rw [matrixAverage]
  split_ifs
  · rfl
  · exact congrArg (· / (rs.length : K)) (sum_systemMatrix rs fun u => u j)

lemma matrixCovariance_systemMatrix (rs : List (Resource n)) (j k : Fin n) :
    matrixCovariance (Abpfn.systemMatrix rs : Matrix (Fin n) _ K) j k
      = if rs.length = 0 then 0
        else (rs.map fun r => (r.getutilization j * r.getutilization k : K)).sum / rs.length
          - (rs.map fun r => (r.getutilization j : K)).sum / rs.length
            * ((rs.map fun r => (r.getutilization k : K)).sum / rs.length) := by
  have hprod := fun j k : Fin n => sum_systemMatrix rs fun u : Fin n → K => u j * u k
  rw [matrixCovariance]
  split_ifs with h
  · rfl
  · simp only [Matrix.of_apply, matrixAverage_systemMatrix, if_neg h, hprod]
    split_ifs
    · rfl
    · -- the upper triangle is a copy of the lower one
      simp only [mul_comm]

lemma matrixAverage_perm {rs rs' : List (Resource n)} (h : rs.Perm rs') :
    matrixAverage (Abpfn.systemMatrix rs : Matrix (Fin n) _ K)
      = matrixAverage (Abpfn.systemMatrix rs') := by
  funext j
  simp only [matrixAverage_systemMatrix, h.length_eq, (h.map _).sum_eq]

lemma matrixCovariance_perm {rs rs' : List (Resource n)} (h : rs.Perm rs') :
    matrixCovariance (Abpfn.systemMatrix rs : Matrix (Fin n) _ K)
      = matrixCovariance (Abpfn.systemMatrix rs') := by
  ext j k
  simp only [matrixCovariance_systemMatrix, h.length_eq, (h.map _).sum_eq]

omit [Field K] [LinearOrder K] in
lemma getnumresources_perm {cs cs' : CloudSystem n K} (h : cs.pes.length = cs'.pes.length) :
    cs.getnumresources = cs'.getnumresources := by
  have : cs.pes = [] ↔ cs'.pes = [] := by
    rw [← List.length_eq_zero_iff, ← List.length_eq_zero_iff, h]
  simp only [CloudSystem.getnumresources, this]

omit [LinearOrder K] in
lemma getaveragecapacity_perm {cs cs' : CloudSystem n K}
    (h : cs.resources.Perm cs'.resources) :
    cs.getaveragecapacity = cs'.getaveragecapacity := by
  have hlen : cs.pes.length = cs'.pes.length := by
    simpa [CloudSystem.resources] using h.length_eq
  have hcaps := fun j : Fin n =>
    (h.map fun r : Resource n => r.capacity j).filter fun c => decide (0 < c)
  simp only [CloudSystem.getaveragecapacity, getnumresources_perm hlen, (hcaps _).length_eq,
    ((hcaps _).map _).sum_eq]

lemma Abpfn.getvariationSystem_perm {cs cs' : CloudSystem n K}
    (h : cs.resources.Perm cs'.resources) :
    Abpfn.getvariationSystem cs = Abpfn.getvariationSystem cs' := by
  have hlen : cs.pes.length = cs'.pes.length := by
    simpa [CloudSystem.resources] using h.length_eq
  simp only [Abpfn.getvariationSystem, hlen, getnumresources_perm hlen, matrixAverage_perm h,
    matrixCovariance_perm h]

/-- The value depends on the resources of the PEs, in any order, and on the
demand statistics if the objective uses them, and on nothing else in the
system. -/
theorem Objfn.getvalue_congr [HasSqrt K] {cs cs' : CloudSystem n K}
    (h : cs.resources.Perm cs'.resources) (type : ObjectiveType)
    (hds : type.usesStats = true → cs.ds = cs'.ds) (resindex : ℤ) :
    Objfn.getvalue cs type resindex = Objfn.getvalue cs' type resindex := by
  have hlb : Lbfn.getsystemvalue cs resindex = Lbfn.getsystemvalue cs' resindex :=
    commonobjBalance_perm (h.map _)
  have hcons : Consfn.getsystemvalue cs resindex = Consfn.getsystemvalue cs' resindex :=
    commonobjUnbalance_perm (h.map _)
  have habp : cs.ds = cs'.ds → Abpfn.getsystemvalue cs = Abpfn.getsystemvalue cs' := by
    intro hds
    simp only [Abpfn.getsystemvalue, Abpfn.getvariationSystem_perm h,
      Abpfn.getvariationDemandHistory, hds, getaveragecapacity_perm h]
  cases type with
  | loadBalance => exact hlb
  | consolidate => exact hcons
  | _ => exact habp (hds rfl)

end Symmetry

end KubeSafeScheduler.Pigeon
