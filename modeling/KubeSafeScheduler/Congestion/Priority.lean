import KubeSafeScheduler.Lib.BinaryRounding
import KubeSafeScheduler.Lib.GoFloat
import KubeSafeScheduler.Pigeon.Agent

/-!
`congestion/priority.go`: the score of a node from its congestion factor, computed in
numbers of type `float64`.

* `float64`, `roundToInt32`, `congestionFactorMax`, `congestionFactor`, `priorityFunc`.
* `shareScore`: the score of a share of the largest factor, between zero and one. It is
  between zero and ten, and a larger share has no larger score.
* `shareScore_eq`: no rounding changes the score, as long as the largest factor has at most
  46 bits.
* `priorityFunc_scores`: the scores of a list of nodes.
-/

namespace KubeSafeScheduler.Congestion

open Pigeon (NodeObject HostPriority parseIntChecked)

/-! ### The priority function -/

/-- Rounding to `float64`; no number here is near the ends of the exponents. -/
def float64 (x : ℚ) : ℚ := roundBits 53 x

/-- `integer.RoundToInt32`. -/
def roundToInt32 (a : ℚ) : ℤ :=
  if a < 0 then toInt32 (GoFloat.trunc (float64 (a - 1 / 2)))
  else toInt32 (GoFloat.trunc (float64 (a + 1 / 2)))

/-- `schedulerapi.MaxPriority`. -/
def maxPriority : ℚ := 10

/-- `DefaultCongestionFactorMax`. -/
def defaultCongestionFactorMax : ℤ := 100

/-- The largest factor, from the environment variable `CONGESTION_FACTOR_MAX`. -/
def congestionFactorMax (maxValue : String) : ℤ :=
  if 0 < maxValue.length then
    match parseIntChecked maxValue with
    | .ok mv => if 0 < mv then mv else defaultCongestionFactorMax
    | .error _ => defaultCongestionFactorMax
  else defaultCongestionFactorMax

/-- The factor of a node, `cf`. -/
def congestionFactor (max : ℤ) (node : NodeObject) : ℚ :=
  let cfValue := (node.annotations.get "congestion-factor").getD ""
  if 0 < cfValue.length then
    match parseIntChecked cfValue with
    | .ok v => if 0 < v then float64 (min v max : ℤ) else 0
    | .error _ => 0
  else 0

/-- The score of a node. -/
def score (max : ℤ) (node : NodeObject) : ℤ :=
  let cf := congestionFactor max node
  roundToInt32 (float64 (maxPriority * float64 (1 - float64 (cf / float64 max))))

/-- `PriorityFunc`. -/
def priorityFunc (maxValue : String) (nodes : List NodeObject) : List HostPriority :=
  let max := congestionFactorMax maxValue
  nodes.map fun node => { host := node.name, score := score max node }

/-! ### The score of a share -/

lemma float64_nonneg {x : ℚ} (h : 0 ≤ x) : 0 ≤ float64 x := roundBits_nonneg h

lemma float64_mono {x y : ℚ} (hx : 0 ≤ x) (hxy : x ≤ y) : float64 x ≤ float64 y :=
  roundBits_mono (by decide) hx hxy

@[simp] lemma float64_zero : float64 0 = 0 := roundBits_zero 53

/-- An integer of at most 53 bits is a number of type `float64`. -/
lemma float64_natCast {m : ℕ} (h : m < 2 ^ 53) : float64 m = m :=
  roundBits_of_lt h (by rw [zpow_zero, mul_one])

lemma float64_one : float64 1 = 1 := by
  exact_mod_cast float64_natCast (m := 1) (by decide)

lemma float64_ten : float64 10 = 10 := by
  exact_mod_cast float64_natCast (m := 10) (by decide)

/-- The halves of small integers are numbers of type `float64`. -/
lemma float64_half {m : ℕ} (h : m < 2 ^ 53) : float64 (m / 2) = m / 2 := by
  refine roundBits_of_lt (e := -1) h ?_
  rw [zpow_neg_one, div_eq_mul_inv]

/-- What a share of the largest factor leaves of one. -/
def shareRest (x : ℚ) : ℚ := float64 (1 - float64 x)

/-- The score of a share before it is rounded to an integer. -/
def shareProduct (x : ℚ) : ℚ := float64 (maxPriority * shareRest x)

/-- The sum that `roundToInt32` cuts to an integer. -/
def shareSum (x : ℚ) : ℚ := float64 (shareProduct x + 1 / 2)

/-- The score of a share of the largest factor. -/
def shareScore (x : ℚ) : ℤ := ⌊shareSum x⌋

variable {x y : ℚ}

lemma float64_mem (h0 : 0 ≤ x) (h1 : x ≤ 1) : 0 ≤ float64 x ∧ float64 x ≤ 1 := by
  refine ⟨float64_nonneg h0, ?_⟩
  rw [← float64_one]
  exact float64_mono h0 h1

lemma shareRest_mem (h0 : 0 ≤ x) (h1 : x ≤ 1) : 0 ≤ shareRest x ∧ shareRest x ≤ 1 := by
  obtain ⟨hq0, hq1⟩ := float64_mem h0 h1
  exact float64_mem (by linarith) (by linarith)

lemma shareProduct_mem (h0 : 0 ≤ x) (h1 : x ≤ 1) :
    0 ≤ shareProduct x ∧ shareProduct x ≤ 10 := by
  obtain ⟨hd0, hd1⟩ := shareRest_mem h0 h1
  have hnonneg : 0 ≤ maxPriority * shareRest x := mul_nonneg (by norm_num [maxPriority]) hd0
  refine ⟨float64_nonneg hnonneg, ?_⟩
  rw [← float64_ten]
  exact float64_mono hnonneg (by norm_num [maxPriority]; linarith)

lemma shareSum_mem (h0 : 0 ≤ x) (h1 : x ≤ 1) : 1 / 2 ≤ shareSum x ∧ shareSum x ≤ 21 / 2 := by
  obtain ⟨hp0, hp10⟩ := shareProduct_mem h0 h1
  have hlow : float64 (1 / 2) = 1 / 2 := by exact_mod_cast float64_half (m := 1) (by decide)
  have hhigh : float64 (21 / 2) = 21 / 2 := by exact_mod_cast float64_half (m := 21) (by decide)
  constructor
  · rw [← hlow]
    exact float64_mono (by norm_num) (by linarith)
  · rw [← hhigh]
    exact float64_mono (by linarith) (by linarith)

/-- The scores are between zero and ten. -/
lemma shareScore_mem (h0 : 0 ≤ x) (h1 : x ≤ 1) : 0 ≤ shareScore x ∧ shareScore x ≤ 10 := by
  obtain ⟨hs0, hs1⟩ := shareSum_mem h0 h1
  refine ⟨Int.floor_nonneg.mpr (by linarith), Int.floor_le_iff.mpr ?_⟩
  norm_num
  linarith

/-- A larger share has no larger score. -/
lemma shareScore_anti (h0 : 0 ≤ x) (hxy : x ≤ y) (h1 : y ≤ 1) : shareScore y ≤ shareScore x := by
  have hquotient := float64_mono h0 hxy
  obtain ⟨-, hq1⟩ := float64_mem (h0.trans hxy) h1
  obtain ⟨hd0, -⟩ := shareRest_mem (h0.trans hxy) h1
  obtain ⟨hp0, -⟩ := shareProduct_mem (h0.trans hxy) h1
  have hrest : shareRest y ≤ shareRest x := float64_mono (by linarith) (by linarith)
  have hproduct : shareProduct y ≤ shareProduct x :=
    float64_mono (mul_nonneg (by norm_num [maxPriority]) hd0)
      (mul_le_mul_of_nonneg_left hrest (by norm_num [maxPriority]))
  exact Int.floor_mono (float64_mono (by linarith) (by linarith))

/-- `integer.RoundToInt32` cuts the sum to an integer. -/
lemma roundToInt32_shareProduct (h0 : 0 ≤ x) (h1 : x ≤ 1) :
    roundToInt32 (shareProduct x) = shareScore x := by
  obtain ⟨hp0, -⟩ := shareProduct_mem h0 h1
  obtain ⟨hs0, -⟩ := shareSum_mem h0 h1
  obtain ⟨hscore0, hscore1⟩ := shareScore_mem h0 h1
  have htrunc : GoFloat.trunc (float64 (shareProduct x + 1 / 2)) = shareScore x :=
    if_pos (by exact le_trans (by norm_num) hs0)
  rw [roundToInt32, if_neg (not_lt.mpr hp0), htrunc]
  exact toInt32_of_range (by linarith) (by linarith)

lemma shareScore_zero : shareScore 0 = 10 := by
  have hhalf : float64 (21 / 2) = 21 / 2 := by exact_mod_cast float64_half (m := 21) (by decide)
  have hsum : (10 : ℚ) + 1 / 2 = 21 / 2 := by norm_num
  rw [shareScore, shareSum, shareProduct, shareRest, float64_zero, sub_zero, float64_one,
    maxPriority, mul_one, float64_ten, hsum, hhalf]
  norm_num

lemma shareScore_one : shareScore 1 = 0 := by
  have hhalf : float64 (1 / 2) = 1 / 2 := by exact_mod_cast float64_half (m := 1) (by decide)
  rw [shareScore, shareSum, shareProduct, shareRest, float64_one, sub_self, float64_zero, mul_zero,
    float64_zero, zero_add, hhalf]
  norm_num

/-! ### Exact scores -/

/-- The relative error of one operation, for numbers up to a bound. -/
lemma abs_float64_sub_le {b : ℚ} (h0 : 0 ≤ x) (hb : x ≤ b) : |float64 x - x| ≤ b / 2 ^ 53 :=
  (abs_roundBits_sub_le h0).trans (div_le_div_of_nonneg_right hb (by positivity))

/-- The error of all operations. -/
lemma abs_shareSum_sub_le (h0 : 0 ≤ x) (h1 : x ≤ 1) :
    |shareSum x - (maxPriority * (1 - x) + 1 / 2)| ≤ 41 / 2 ^ 53 := by
  obtain ⟨hq0, hq1⟩ := float64_mem h0 h1
  obtain ⟨hd0, hd1⟩ := shareRest_mem h0 h1
  obtain ⟨hp0, hp1⟩ := shareProduct_mem h0 h1
  have hquotient := abs_le.mp (abs_float64_sub_le h0 h1)
  have hrest : |shareRest x - (1 - float64 x)| ≤ 1 / 2 ^ 53 :=
    abs_float64_sub_le (by linarith) (by linarith)
  have hproduct : |shareProduct x - 10 * shareRest x| ≤ 10 / 2 ^ 53 := by
    rw [shareProduct, maxPriority]
    exact abs_float64_sub_le (by linarith) (by linarith)
  have hsum : |shareSum x - (shareProduct x + 1 / 2)| ≤ 11 / 2 ^ 53 :=
    abs_float64_sub_le (by linarith) (by linarith)
  rw [abs_le] at hrest hproduct hsum ⊢
  rw [maxPriority]
  constructor <;> linarith

/-- Where the exact result is a half, nothing is lost. -/
lemma shareScore_half (k : ℤ) (h1 : 1 ≤ k) (h10 : k ≤ 10) :
    shareScore ((21 - 2 * k : ℤ) / 20) = k := by
  interval_cases k <;> decide +kernel

/-- The score is the exact one, rounded to the nearest integer, halves up. -/
lemma shareScore_eq {v m : ℤ} (h0 : 0 ≤ v) (hv : v ≤ m) (hpos : 0 < m) (hm : m ≤ 2 ^ 46) :
    shareScore (v / m) = (20 * (m - v) + m) / (2 * m) := by
  have hm' : (0 : ℚ) < m := by exact_mod_cast hpos
  have hx0 : (0 : ℚ) ≤ v / m := div_nonneg (by exact_mod_cast h0) hm'.le
  have hx1 : (v : ℚ) / m ≤ 1 := by
    rw [div_le_one hm']
    exact_mod_cast hv
  set k := (20 * (m - v) + m) / (2 * m) with hk
  set r := (20 * (m - v) + m) % (2 * m) with hr
  have hsplit : 2 * m * k + r = 20 * (m - v) + m := Int.mul_ediv_add_emod _ _
  have hr0 : 0 ≤ r := Int.emod_nonneg _ (by omega)
  have hrlt : r < 2 * m := Int.emod_lt_of_pos _ (by omega)
  have hexact : maxPriority * (1 - (v : ℚ) / m) + 1 / 2 = k + r / (2 * m) := by
    have hcast : 2 * (m : ℚ) * k + r = 20 * (m - v) + m := by exact_mod_cast hsplit
    rw [maxPriority]
    field_simp
    linarith
  rcases hr0.eq_or_lt with hzero | hlt
  · -- a half: the share is one of ten numbers
    have hshare : (v : ℚ) / m = ((21 - 2 * k : ℤ) : ℚ) / 20 := by
      have hcast : 2 * (m : ℚ) * k = 20 * (m - v) + m := by exact_mod_cast (by omega)
      rw [div_eq_div_iff hm'.ne' (by norm_num)]
      push_cast
      linarith
    have hk1 : 1 ≤ k := by
      by_contra hlow
      nlinarith
    have hk10 : k ≤ 10 := by
      by_contra hhigh
      nlinarith
    rw [hshare]
    exact shareScore_half k hk1 hk10
  · -- the distance to the integers is more than the error
    have hm46 : (m : ℚ) ≤ 2 ^ 46 := by exact_mod_cast hm
    have hstep : 41 / 2 ^ 53 < 1 / (2 * (m : ℚ)) := by
      rw [div_lt_div_iff₀ (by norm_num) (by positivity)]
      norm_num
      linarith
    have hlow : 1 / (2 * (m : ℚ)) ≤ r / (2 * m) :=
      div_le_div_of_nonneg_right (by exact_mod_cast hlt) (by positivity)
    have hhigh : (r : ℚ) / (2 * m) ≤ 1 - 1 / (2 * m) := by
      have hnext : (r : ℚ) + 1 ≤ 2 * m := by exact_mod_cast hrlt
      have hone : (1 : ℚ) - 1 / (2 * m) = (2 * m - 1) / (2 * m) := by
        rw [sub_div, div_self (by positivity)]
      rw [hone]
      exact div_le_div_of_nonneg_right (by linarith) (by positivity)
    have herror := abs_le.mp (abs_shareSum_sub_le hx0 hx1)
    rw [hexact] at herror
    rw [shareScore, Int.floor_eq_iff]
    constructor <;> linarith

/-! ### The scores of the nodes -/

lemma congestionFactorMax_pos (maxValue : String) : 0 < congestionFactorMax maxValue := by
  unfold congestionFactorMax
  repeat' split
  all_goals first | assumption | decide

/-- The factor that the annotation of a node gives: zero unless it is a positive integer. -/
def givenFactor (node : NodeObject) : ℤ :=
  match parseIntChecked ((node.annotations.get "congestion-factor").getD "") with
  | .ok v => max v 0
  | .error _ => 0

lemma givenFactor_nonneg (node : NodeObject) : 0 ≤ givenFactor node := by
  unfold givenFactor
  split
  · exact le_max_right _ _
  · exact le_rfl

/-- A text without characters is no number. -/
lemma parseIntChecked_empty {s : String} (h : ¬0 < s.length) :
    parseIntChecked s = .error .errSyntax := by
  have hempty : s = "" := by
    rw [← String.length_eq_zero_iff]
    omega
  rw [hempty]
  rfl

lemma congestionFactor_eq {max : ℤ} (hmax : 0 < max) (node : NodeObject) :
    congestionFactor max node = float64 (min (givenFactor node) max : ℤ) := by
  have hzero : float64 (min 0 max : ℤ) = 0 := by
    rw [min_eq_left hmax.le, Int.cast_zero, float64_zero]
  unfold congestionFactor givenFactor
  extract_lets cfValue
  split_ifs with hlen
  · cases hparse : parseIntChecked cfValue with
    | error e => exact hzero.symm
    | ok v =>
        dsimp only
        split_ifs with hpos
        · rw [max_eq_left hpos.le]
        · rw [max_eq_right (not_lt.mp hpos), hzero]
  · rw [parseIntChecked_empty hlen]
    exact hzero.symm

/-- The share of the largest factor, as it is computed. -/
def nodeShare (max : ℤ) (node : NodeObject) : ℚ :=
  float64 (min (givenFactor node) max : ℤ) / float64 max

lemma float64_max_pos {max : ℤ} (hmax : 0 < max) : 0 < float64 max := by
  have hone : (1 : ℚ) ≤ max := by exact_mod_cast hmax
  have hmono := float64_mono (by norm_num) hone
  rw [float64_one] at hmono
  linarith

lemma nodeShare_mono {max : ℤ} (hmax : 0 < max) {node node' : NodeObject}
    (h : givenFactor node ≤ givenFactor node') : nodeShare max node ≤ nodeShare max node' := by
  refine div_le_div_of_nonneg_right (float64_mono ?_ ?_) (float64_max_pos hmax).le
  · exact_mod_cast le_min (givenFactor_nonneg node) hmax.le
  · exact_mod_cast min_le_min_right max h

lemma nodeShare_mem {max : ℤ} (hmax : 0 < max) (node : NodeObject) :
    0 ≤ nodeShare max node ∧ nodeShare max node ≤ 1 := by
  have hnonneg : (0 : ℚ) ≤ (min (givenFactor node) max : ℤ) := by
    exact_mod_cast le_min (givenFactor_nonneg node) hmax.le
  refine ⟨div_nonneg (float64_nonneg hnonneg) (float64_max_pos hmax).le, ?_⟩
  rw [nodeShare, div_le_one (float64_max_pos hmax)]
  exact float64_mono hnonneg (by exact_mod_cast min_le_right _ _)

lemma score_eq {max : ℤ} (hmax : 0 < max) (node : NodeObject) :
    score max node = shareScore (nodeShare max node) := by
  obtain ⟨h0, h1⟩ := nodeShare_mem hmax node
  rw [← roundToInt32_shareProduct h0 h1, nodeShare, ← congestionFactor_eq hmax]
  rfl

/-- The score of a node with a largest factor of at most 46 bits. -/
lemma score_exact {max : ℤ} (hmax : 0 < max) (hbits : max ≤ 2 ^ 46) (node : NodeObject) :
    score max node
      = (20 * (max - min (givenFactor node) max) + max) / (2 * max) := by
  have hcast : ∀ z : ℤ, 0 ≤ z → z ≤ max → float64 z = z := by
    intro z h0 hz
    obtain ⟨n, rfl⟩ := Int.eq_ofNat_of_zero_le h0
    rw [Int.cast_natCast]
    exact float64_natCast (by omega)
  have hnonneg : 0 ≤ min (givenFactor node) max := le_min (givenFactor_nonneg node) hmax.le
  have hle : min (givenFactor node) max ≤ max := min_le_right _ _
  rw [score_eq hmax, nodeShare, hcast _ hnonneg hle, hcast _ hmax.le le_rfl]
  exact shareScore_eq hnonneg hle hmax hbits

/-- The list has one entry for each node, in the order of the nodes. Every score is between
zero and ten, ten for a node without a positive factor and zero from the largest factor on,
and a node with a larger factor has no larger score. If the largest factor has at most 46
bits then the score is the exact one, rounded to the nearest integer, halves up: no rounding
of the computation shows. -/
theorem priorityFunc_scores (maxValue : String) (nodes : List NodeObject) :
    (priorityFunc maxValue nodes).map HostPriority.host = nodes.map NodeObject.name
      ∧ ∀ (i : ℕ) node, nodes[i]? = some node → ∃ s,
        (priorityFunc maxValue nodes)[i]? = some { host := node.name, score := s }
        ∧ 0 ≤ s ∧ s ≤ 10
        ∧ (givenFactor node = 0 → s = 10)
        ∧ (congestionFactorMax maxValue ≤ givenFactor node → s = 0)
        ∧ (congestionFactorMax maxValue ≤ 2 ^ 46 →
            s = (20 * (congestionFactorMax maxValue
                  - min (givenFactor node) (congestionFactorMax maxValue))
                + congestionFactorMax maxValue) / (2 * congestionFactorMax maxValue))
        ∧ ∀ (j : ℕ) node' s', nodes[j]? = some node' →
            (priorityFunc maxValue nodes)[j]? = some { host := node'.name, score := s' } →
            givenFactor node ≤ givenFactor node' → s' ≤ s := by
  set max := congestionFactorMax maxValue with hmaxdef
  have hmax : 0 < max := congestionFactorMax_pos maxValue
  have hget : ∀ (i : ℕ) node, nodes[i]? = some node →
      (priorityFunc maxValue nodes)[i]? = some { host := node.name, score := score max node } := by
    intro i node hi
    rw [priorityFunc, List.getElem?_map, hi]
    rfl
  refine ⟨by rw [priorityFunc, List.map_map]; rfl, fun i node hi => ?_⟩
  obtain ⟨hx0, hx1⟩ := nodeShare_mem hmax node
  obtain ⟨hs0, hs1⟩ := shareScore_mem hx0 hx1
  refine ⟨score max node, hget i node hi, ?_, ?_, fun hnone => ?_, fun hfull => ?_,
    fun hbits => score_exact hmax hbits node, fun j node' s' hj hs' hle => ?_⟩
  · rw [score_eq hmax]
    exact hs0
  · rw [score_eq hmax]
    exact hs1
  · have hshare : nodeShare max node = 0 := by
      rw [nodeShare, hnone, min_eq_left hmax.le, Int.cast_zero, float64_zero, zero_div]
    rw [score_eq hmax, hshare, shareScore_zero]
  · have hshare : nodeShare max node = 1 := by
      rw [nodeShare, min_eq_right hfull, div_self (float64_max_pos hmax).ne']
    rw [score_eq hmax, hshare, shareScore_one]
  · have hentry := Option.some.inj ((hget j node' hj).symm.trans hs')
    have hscore : score max node' = s' := congrArg HostPriority.score hentry
    rw [← hscore, score_eq hmax, score_eq hmax]
    exact shareScore_anti hx0 (nodeShare_mono hmax hle) (nodeShare_mem hmax node').2

end KubeSafeScheduler.Congestion
