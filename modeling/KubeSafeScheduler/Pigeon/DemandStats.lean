import KubeSafeScheduler.Lib.Moments
import KubeSafeScheduler.Pigeon.Matrix
import Mathlib.Algebra.Order.Floor.Ring

/-!
`stats/demandstats.c`: the running average and second moment of the demands
seen so far, in exact arithmetic.

The first sample is stored with products formed in the integer type of the
demands, the later ones are mixed in with weight `1/demandcount`, the count
being held at `countmax`. `DemandStats.addWith` takes the integer product as an
argument; `DemandStats.add` is the reading with exact integers.

* `Summarizes`: what holds after a run, one sample (`Summarizes.add`) and all
  samples (`summarizes_addAll`); `addAll_weighted`: both moments are those of one
  weighting of the samples.
* `FirstSampleExact`, `firstSampleExact_iff`: when the products of the first
  sample fit the integer type.
-/

namespace KubeSafeScheduler.Pigeon

open scoped Matrix

variable {n : ℕ} {K : Type} [Field K] [LinearOrder K]

/-- `demandavg` and `demandavg2`, which are allocated together. -/
@[ext]
structure DemandMoments (n : ℕ) (K : Type) where
  avg : Fin n → K
  avg2 : Matrix (Fin n) (Fin n) K

/-- `s_demandstats`; `moments` is `none` while the two pointers are `NULL`. -/
structure DemandStats (n : ℕ) (K : Type) where
  smoothingfactor : K
  moments : Option (DemandMoments n K)
  demandcount : ℕ

namespace DemandStats

/-- `demandstats_create`: a factor that is not positive is replaced by
`DEMAND_STATS_SMOOTHING_FACTOR`. -/
def create (smoothingfactor : K) : DemandStats n K where
  smoothingfactor := if 0 < smoothingfactor then smoothingfactor else 1 / 100
  moments := none
  demandcount := 0

variable [FloorRing K]

/-- `countmax` of `demandstats_add`: the largest count, at least one. -/
def countmax (ds : DemandStats n K) : ℕ :=
  let c := ⌊1 / ds.smoothingfactor⌋
  if c ≤ 0 then 1 else c.toNat

/-- `demandstats_add`, with `imul` the product of the integer type of the
demands. The second moment is computed above the diagonal and mirrored. -/
def addWith (imul : ℤ → ℤ → ℤ) (ds : DemandStats n K) (d : Fin n → ℤ) : DemandStats n K :=
  let demandcount := if ds.demandcount < ds.countmax then ds.demandcount + 1 else ds.demandcount
  let factor : K := 1 / demandcount
  { ds with
    demandcount := demandcount
    moments := some (match ds.moments with
      | none =>
          { avg := fun j => (d j : K)
            avg2 := Matrix.of fun j k => (imul (d (min j k)) (d (max j k)) : K) }
      | some m =>
          { avg := fun j => (1 - factor) * m.avg j + factor * d j
            avg2 := Matrix.of fun j k => (1 - factor) * m.avg2 (min j k) (max j k)
              + factor * d (min j k) * d (max j k) }) }

/-- `demandstats_add` with exact integers. -/
def add (ds : DemandStats n K) (d : Fin n → ℤ) : DemandStats n K := ds.addWith (· * ·) d

/-- `demandstats_add` for one sample after the other. -/
def addAll (ds : DemandStats n K) (samples : List (Fin n → ℤ)) : DemandStats n K :=
  samples.foldl add ds

/-! ### The weights of the samples -/

lemma countmax_pos (ds : DemandStats n K) : 1 ≤ ds.countmax := by
  simp only [countmax]
  split_ifs <;> omega

lemma countmax_congr {ds ds' : DemandStats n K} (h : ds'.smoothingfactor = ds.smoothingfactor) :
    ds'.countmax = ds.countmax := by
  rw [countmax, countmax, h]

/-- The factor with which the `k`-th sample enters. -/
def sampleFactor (K : Type) [Field K] (countmax k : ℕ) : K := 1 / ((min k countmax : ℕ) : K)

/-- The weight of sample `i` among `n` samples. -/
def sampleWeight (K : Type) [Field K] (countmax n i : ℕ) : K :=
  runningWeight (sampleFactor K countmax) n i

/-- The demands of a sample as numbers. -/
def demandVector (K : Type) [Field K] (d : Fin n → ℤ) : Fin n → K := fun j => (d j : K)

/-- The moments of a run: those of its samples under their weights. -/
def momentsOf (countmax : ℕ) {N : ℕ} (d : Fin N → Fin n → ℤ) : DemandMoments n K where
  avg := weightedMean (fun i : Fin N => sampleWeight K countmax N i) fun i => demandVector K (d i)
  avg2 := weightedMoment (fun i : Fin N => sampleWeight K countmax N i)
    fun i => demandVector K (d i)

/-- What holds of the statistics after a run. -/
structure Summarizes (ds : DemandStats n K) (smoothingfactor : K) (countmax : ℕ) {N : ℕ}
    (d : Fin N → Fin n → ℤ) : Prop where
  factor_eq : ds.smoothingfactor = smoothingfactor
  count_eq : ds.demandcount = min N countmax
  moments_eq : ds.moments = if N = 0 then none else some (momentsOf countmax d)

omit [LinearOrder K] [FloorRing K] in
lemma momentsOf_avg_succ (c : ℕ) {N : ℕ} (d : Fin (N + 1) → Fin n → ℤ) (j : Fin n) :
    (momentsOf (K := K) c d).avg j
      = (1 - sampleFactor K c (N + 1)) * (momentsOf c fun i : Fin N => d i.castSucc).avg j
        + sampleFactor K c (N + 1) * d (Fin.last N) j :=
  sum_runningWeight_succ _ fun i => (d i j : K)

omit [LinearOrder K] [FloorRing K] in
lemma momentsOf_avg2_succ (c : ℕ) {N : ℕ} (d : Fin (N + 1) → Fin n → ℤ) (j k : Fin n) :
    (momentsOf (K := K) c d).avg2 j k
      = (1 - sampleFactor K c (N + 1)) * (momentsOf c fun i : Fin N => d i.castSucc).avg2 j k
        + sampleFactor K c (N + 1) * d (Fin.last N) j * d (Fin.last N) k := by
  simp only [momentsOf, weightedMoment_apply, mul_assoc]
  exact sum_runningWeight_succ _ fun i => (d i j : K) * d i k

omit [LinearOrder K] [FloorRing K] in
/-- The mirrored entries are those of the whole matrix. -/
lemma momentsOf_avg2_min_max (c : ℕ) {N : ℕ} (d : Fin N → Fin n → ℤ) (j k : Fin n) :
    (momentsOf (K := K) c d).avg2 (min j k) (max j k) = (momentsOf c d).avg2 j k := by
  rcases le_total j k with hjk | hjk
  · rw [min_eq_left hjk, max_eq_right hjk]
  · rw [min_eq_right hjk, max_eq_left hjk]
    simp only [momentsOf, (weightedMoment_isSymm _ _).apply j k]

omit [LinearOrder K] [FloorRing K] in
lemma sampleFactor_one {c : ℕ} (hc : 1 ≤ c) : sampleFactor K c 1 = 1 := by
  rw [sampleFactor, min_eq_left hc, Nat.cast_one, div_one]

/-- The invariant of a run: one more sample. -/
lemma Summarizes.add {ds : DemandStats n K} {sf : K} {N : ℕ} {d : Fin (N + 1) → Fin n → ℤ}
    (h : ds.Summarizes sf ds.countmax fun i : Fin N => d i.castSucc) :
    (ds.add (d (Fin.last N))).Summarizes sf ds.countmax d := by
  have hc := ds.countmax_pos
  have hcount : (if ds.demandcount < ds.countmax then ds.demandcount + 1 else ds.demandcount)
      = min (N + 1) ds.countmax := by
    rw [h.count_eq]
    split_ifs <;> omega
  refine ⟨h.factor_eq, hcount, ?_⟩
  rw [if_neg (Nat.succ_ne_zero N)]
  have hfactor : (1 : K) / ((min (N + 1) ds.countmax : ℕ) : K)
      = sampleFactor K ds.countmax (N + 1) := rfl
  simp only [DemandStats.add, addWith, hcount, hfactor]
  congr 1
  rcases Nat.eq_zero_or_pos N with rfl | hN
  · -- the first sample enters with factor one
    have hmoments : ds.moments = none := h.moments_eq
    simp only [hmoments]
    ext j k
    · rw [momentsOf_avg_succ, sampleFactor_one hc]
      ring
    · rw [← momentsOf_avg2_min_max, momentsOf_avg2_succ, sampleFactor_one hc]
      simp only [Matrix.of_apply, Int.cast_mul]
      ring
  · have hmoments := h.moments_eq
    rw [if_neg hN.ne'] at hmoments
    simp only [hmoments]
    ext j k
    · rw [momentsOf_avg_succ]
    · rw [← momentsOf_avg2_min_max ds.countmax d, momentsOf_avg2_succ]
      rfl

/-- What holds after every run on a fresh collector. -/
lemma summarizes_addAll (smoothingfactor : K) {N : ℕ} (d : Fin N → Fin n → ℤ) :
    ((create smoothingfactor).addAll (List.ofFn d)).Summarizes
      (create (n := n) smoothingfactor).smoothingfactor
      (create (n := n) smoothingfactor).countmax d := by
  induction N with
  | zero => exact ⟨rfl, by simp [addAll, create], rfl⟩
  | succ N ih =>
      have h := ih fun i => d i.castSucc
      rw [addAll, List.ofFn_succ_last, List.foldl_append]
      rw [← countmax_congr h.factor_eq] at h ⊢
      exact h.add

/-- While the count grows, a weighted sum over the samples is an average. -/
lemma sum_sampleWeight_of_le {c : ℕ} (samples : List (Fin n → ℤ)) (hne : samples ≠ [])
    (hlen : samples.length ≤ c) (f : (Fin n → ℤ) → K) :
    ∑ i : Fin samples.length, sampleWeight K c samples.length i * f (samples.get i)
      = (samples.map f).sum / samples.length := by
  have hpos := List.length_pos_of_ne_nil hne
  have hweight : ∀ i : Fin samples.length,
      sampleWeight K c samples.length i = 1 / (samples.length : K) := fun i =>
    runningWeight_uniform (fun k hk => by rw [sampleFactor, min_eq_left (by omega)]) i.isLt
  calc ∑ i : Fin samples.length, sampleWeight K c samples.length i * f (samples.get i)
      = ∑ i : Fin samples.length, f (samples.get i) / samples.length :=
        Finset.sum_congr rfl fun i _ => by rw [hweight, one_div, inv_mul_eq_div]
    _ = (∑ i : Fin samples.length, f (samples.get i)) / samples.length :=
        (Finset.sum_div _ _ _).symm
    _ = (samples.map f).sum / samples.length := by
        rw [← List.sum_ofFn]
        congr 2
        exact List.ext_get (by simp) fun i h1 h2 => by simp

/-- Up to `countmax` samples the moments are plain averages. -/
lemma moments_addAll_of_le (smoothingfactor : K) (samples : List (Fin n → ℤ))
    (hne : samples ≠ [])
    (hlen : samples.length ≤ (create smoothingfactor : DemandStats n K).countmax) :
    ((create smoothingfactor).addAll samples).moments = some
      { avg := fun j => (samples.map fun d => (d j : K)).sum / samples.length
        avg2 := Matrix.of fun j k =>
          (samples.map fun d => (d j : K) * d k).sum / samples.length } := by
  have h := (summarizes_addAll smoothingfactor samples.get).moments_eq
  rw [List.ofFn_get, if_neg (List.length_pos_of_ne_nil hne).ne'] at h
  rw [h]
  congr 1
  ext j k
  · exact sum_sampleWeight_of_le samples hne hlen fun d => (d j : K)
  · simp only [momentsOf, weightedMoment_apply, demandVector, Matrix.of_apply]
    exact sum_sampleWeight_of_le samples hne hlen fun d => (d j : K) * d k

/-- Up to `countmax` samples their order does not matter. -/
lemma addAll_perm (smoothingfactor : K) {samples samples' : List (Fin n → ℤ)}
    (h : samples.Perm samples')
    (hlen : samples.length ≤ (create smoothingfactor : DemandStats n K).countmax) :
    (create smoothingfactor).addAll samples = (create smoothingfactor).addAll samples' := by
  have hs := summarizes_addAll smoothingfactor samples.get
  have hs' := summarizes_addAll smoothingfactor samples'.get
  rw [List.ofFn_get] at hs hs'
  have hmoments : ((create smoothingfactor).addAll samples).moments
      = ((create smoothingfactor).addAll samples').moments := by
    by_cases hne : samples = []
    · rw [hne, List.nil_perm.mp (hne ▸ h : [].Perm samples')]
    · have hne' : samples' ≠ [] := fun hc => hne (List.perm_nil.mp (hc ▸ h))
      rw [moments_addAll_of_le _ _ hne hlen, moments_addAll_of_le _ _ hne' (h.length_eq ▸ hlen)]
      simp only [h.length_eq, (h.map _).sum_eq]
  have hfactor := hs.factor_eq.trans hs'.factor_eq.symm
  have hcount := hs.count_eq.trans (h.length_eq ▸ hs'.count_eq.symm)
  cases hds : (create smoothingfactor).addAll samples
  cases hds' : (create smoothingfactor).addAll samples'
  rw [hds, hds'] at hmoments hfactor hcount
  exact congr (congr (congrArg DemandStats.mk hfactor) hmoments) hcount

section Order

variable [IsStrictOrderedRing K]

omit [FloorRing K] in
lemma sampleFactor_mem {c : ℕ} (hc : 1 ≤ c) (k : ℕ) :
    0 ≤ sampleFactor K c (k + 1) ∧ sampleFactor K c (k + 1) ≤ 1 := by
  have hmin : 1 ≤ min (k + 1) c := le_min (by omega) hc
  have hcast : (1 : K) ≤ ((min (k + 1) c : ℕ) : K) := by exact_mod_cast hmin
  exact ⟨div_nonneg zero_le_one (zero_le_one.trans hcast),
    (div_le_one (zero_lt_one.trans_le hcast)).mpr hcast⟩

omit [FloorRing K] in
/-- The weights are those of an average, and equal while the count grows. -/
lemma sampleWeight_spec {c : ℕ} (hc : 1 ≤ c) (N : ℕ) :
    (∀ i, 0 ≤ sampleWeight K c (N + 1) i)
      ∧ ∑ i : Fin (N + 1), sampleWeight K c (N + 1) i = 1
      ∧ (N + 1 ≤ c → ∀ i : Fin (N + 1), sampleWeight K c (N + 1) i = 1 / ((N + 1 : ℕ) : K)) := by
  refine ⟨runningWeight_nonneg (sampleFactor_mem hc) (N + 1),
    sum_runningWeight (sampleFactor_one hc) N, fun hN i => ?_⟩
  refine runningWeight_uniform (fun k hk => ?_) i.isLt
  rw [sampleFactor, min_eq_left (by omega)]

/-- After every non-empty run the average and the second moment are those of the
samples under one weighting, which depends only on the number of samples and on
`countmax`; so the covariance `matrix_covariance_from_stats` forms is symmetric
and positive semi-definite. -/
theorem addAll_weighted (smoothingfactor : K) {N : ℕ} (d : Fin (N + 1) → Fin n → ℤ) :
    1 ≤ (create smoothingfactor : DemandStats n K).countmax
      ∧ ∃ w : Fin (N + 1) → K,
        (∀ i, w i = sampleWeight K (create smoothingfactor : DemandStats n K).countmax (N + 1) i)
        ∧ (∀ i, 0 ≤ w i) ∧ ∑ i, w i = 1
        ∧ (N + 1 ≤ (create smoothingfactor : DemandStats n K).countmax →
            ∀ i, w i = 1 / ((N + 1 : ℕ) : K))
        ∧ ∃ m, ((create smoothingfactor).addAll (List.ofFn d)).moments = some m
          ∧ (∀ j, m.avg j = ∑ i, w i * d i j)
          ∧ (∀ j k, m.avg2 j k = ∑ i, w i * (d i j * d i k))
          ∧ (m.avg2 - Matrix.vecMulVec m.avg m.avg).IsSymm
          ∧ (∀ x, 0 ≤ x ⬝ᵥ ((m.avg2 - Matrix.vecMulVec m.avg m.avg).mulVec x))
          ∧ ∀ sigma, covarianceFromStats m.avg2 m.avg = some sigma →
              sigma = m.avg2 - Matrix.vecMulVec m.avg m.avg := by
  set c := (create smoothingfactor : DemandStats n K).countmax with hcdef
  have hc : 1 ≤ c := countmax_pos _
  obtain ⟨hnonneg, hsum, huniform⟩ := sampleWeight_spec (K := K) hc N
  have hmoments := (summarizes_addAll smoothingfactor d).moments_eq
  rw [if_neg (Nat.succ_ne_zero N)] at hmoments
  set w : Fin (N + 1) → K := fun i => sampleWeight K c (N + 1) i with hw
  have hsymm := weightedCovariance_isSymm w fun i => demandVector K (d i)
  refine ⟨hc, w, fun i => rfl, fun i => hnonneg i, hsum, huniform, momentsOf c d, hmoments,
    fun j => rfl, weightedMoment_apply w fun i => demandVector K (d i), hsymm, fun x => ?_,
    fun sigma hsigma => ?_⟩
  · exact dotProduct_weightedCovariance_nonneg hsum (fun i => hnonneg i) _ x
  · -- the copied triangle is the one computed
    simp only [covarianceFromStats, Option.ite_none_left_eq_some, Option.some.injEq] at hsigma
    rw [← hsigma.2]
    ext j k
    rw [Matrix.of_apply]
    split_ifs
    · rfl
    · exact hsymm.apply j k

end Order

/-- Three samples with a count held at two: the last has weight one half. -/
theorem addAll_weighted_three :
    ∃ m, ((create (1 / 2 : ℚ)).addAll (List.ofFn ![![2, 1], ![4, 1], ![6, 3]])).moments = some m
      ∧ m.avg = ![9 / 2, 2] ∧ ∀ x, 0 ≤ x ⬝ᵥ ((m.avg2 - Matrix.vecMulVec m.avg m.avg).mulVec x) := by
  obtain ⟨-, w, hw, -, -, -, m, hm, havg, -, -, hpsd, -⟩ :=
    addAll_weighted (1 / 2 : ℚ) ![![2, 1], ![4, 1], ![6, 3]]
  refine ⟨m, hm, ?_, hpsd⟩
  funext j
  rw [havg j]
  simp only [hw]
  revert j
  decide +kernel

/-! ### The integer product of the first sample -/

/-- The product of two numbers of type `int`. -/
def int32Mul (x y : ℤ) : ℤ := toInt32 (x * y)

/-- The branch of `demandstats_add` for later samples, with its factor. -/
def mix (factor : K) (m : DemandMoments n K) (d : Fin n → ℤ) : DemandMoments n K where
  avg := fun j => (1 - factor) * m.avg j + factor * d j
  avg2 := Matrix.of fun j k => (1 - factor) * m.avg2 (min j k) (max j k)
    + factor * d (min j k) * d (max j k)

/-- The first sample is stored with the integer products. -/
lemma moments_addWith_create (imul : ℤ → ℤ → ℤ) (smoothingfactor : K) (d : Fin n → ℤ) :
    ((create smoothingfactor).addWith imul d).moments
      = some { avg := fun j => (d j : K)
               avg2 := Matrix.of fun j k => (imul (d (min j k)) (d (max j k)) : K) } := rfl

/-- The first sample on a fresh collector is stored as it would be with exact
products, and as the branch for later samples would store it with factor one. -/
def FirstSampleExact (smoothingfactor : K) (d : Fin n → ℤ) : Prop :=
  ∃ m, ((create smoothingfactor).addWith int32Mul d).moments = some m
    ∧ (∀ j k, m.avg2 j k = d j * d k) ∧ ∀ m₀, (mix 1 m₀ d).avg2 = m.avg2

/-- An `int` product of one number with itself is exact up to `46340`. -/
lemma int32Mul_self_eq {x : ℤ} (h : int32Mul x x = x * x) : x ≤ 46340 := by
  have hlt := (toInt32_spec (x * x)).2.2
  rw [← int32Mul, h] at hlt
  by_contra hx
  nlinarith

lemma int32Mul_eq {x y : ℤ} (hx : 0 ≤ x) (hx' : x ≤ 46340) (hy : 0 ≤ y) (hy' : y ≤ 46340) :
    int32Mul x y = x * y :=
  toInt32_of_range (by nlinarith) (by nlinarith)

/-- The first sample is stored exactly when no demand exceeds `46340`. -/
theorem firstSampleExact_iff [IsStrictOrderedRing K] (smoothingfactor : K) {d : Fin n → ℤ}
    (hd : ∀ j, 0 ≤ d j ∧ d j < 2 ^ 31) :
    FirstSampleExact smoothingfactor d ↔ ∀ j, d j ≤ 46340 := by
  rw [FirstSampleExact, moments_addWith_create]
  simp only [Option.some.injEq, exists_eq_left', Matrix.of_apply]
  constructor
  · rintro ⟨hexact, -⟩ j
    have h := hexact j j
    rw [min_self, max_self] at h
    exact int32Mul_self_eq (by exact_mod_cast h)
  · intro hle
    have hmul : ∀ j k, int32Mul (d (min j k)) (d (max j k)) = d j * d k := fun j k => by
      rw [int32Mul_eq (hd _).1 (hle _) (hd _).1 (hle _), fn_min_mul_fn_max]
    refine ⟨fun j k => by rw [hmul]; push_cast; ring, fun m₀ => ?_⟩
    ext j k
    have hcast : ((d (min j k) : K)) * d (max j k) = d j * d k :=
      fn_min_mul_fn_max (fun j => (d j : K)) j k
    simp only [mix, Matrix.of_apply, hmul, Int.cast_mul]
    rw [← hcast]
    ring

theorem firstSampleExact_iff_small :
    (∀ j, 0 ≤ (![1000, 46340] : Fin 2 → ℤ) j ∧ (![1000, 46340] : Fin 2 → ℤ) j < 2 ^ 31)
      ∧ FirstSampleExact (1 / 100 : ℚ) ![1000, 46340] := by
  have hd : ∀ j, 0 ≤ (![1000, 46340] : Fin 2 → ℤ) j ∧ (![1000, 46340] : Fin 2 → ℤ) j < 2 ^ 31 := by
    decide
  exact ⟨hd, (firstSampleExact_iff _ hd).mpr (by decide)⟩

/-- A pod of 64 GiB: its demand for memory, in MiB, squares to zero. -/
theorem not_firstSampleExact : ¬ FirstSampleExact (1 / 100 : ℚ) ![1000, 65536] := by
  rintro ⟨m, hm, hexact, -⟩
  rw [moments_addWith_create, Option.some.injEq] at hm
  have h := hexact 1 1
  rw [← hm] at h
  have hzero : int32Mul 65536 65536 = 0 := by decide
  norm_num [hzero] at h

end DemandStats

end KubeSafeScheduler.Pigeon
