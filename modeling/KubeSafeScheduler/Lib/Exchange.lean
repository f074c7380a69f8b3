import Mathlib.Analysis.Convex.Mul
import Mathlib.Tactic

/-!
Exchange arguments for sums of a convex function.

Moving an increment from the larger of two arguments to the smaller one does
not increase the sum of a convex function, and leaves the sum of the arguments
as it was.

* `convexOn_exchange`: the inequality for two arguments, over a linearly ordered
  field.
* `convexOn_twoSided`: the squared distance from a point, scaled differently on
  its two sides, is convex.
* `exists_perm_pair`: two entries of a list without repetition brought to the
  front.
-/

namespace KubeSafeScheduler

section Convex

variable {K : Type*} [Field K] [LinearOrder K] [IsStrictOrderedRing K]

/-- The increment `d` does less to a convex function at the smaller of two
arguments. -/
lemma convexOn_exchange {f : K → K} (hf : ConvexOn K Set.univ f) {a b d : K} (hab : a ≤ b)
    (hd : 0 ≤ d) : f (a + d) + f b ≤ f a + f (b + d) := by
  rcases eq_or_lt_of_le (add_nonneg (sub_nonneg.mpr hab) hd) with h0 | hpos
  · -- both gaps are zero
    have hd0 : d = 0 := by linarith [sub_nonneg.mpr hab]
    have hba : b = a := by linarith [sub_nonneg.mpr hab]
    rw [hd0, hba, add_zero]
  · -- both inner points divide the segment from `a` to `b + d` in the same ratio
    set w := b - a + d with hw
    have hs : 0 ≤ (b - a) / w := div_nonneg (sub_nonneg.mpr hab) hpos.le
    have ht : 0 ≤ d / w := div_nonneg hd hpos.le
    have hst : (b - a) / w + d / w = 1 := by
      rw [← add_div, ← hw, div_self hpos.ne']
    have h1 : f (a + d) ≤ (b - a) / w * f a + d / w * f (b + d) := by
      have := hf.2 (Set.mem_univ a) (Set.mem_univ (b + d)) hs ht hst
      have hpt : (b - a) / w * a + d / w * (b + d) = a + d := by
        field_simp
        rw [hw]; ring
      simpa only [smul_eq_mul, hpt] using this
    have h2 : f b ≤ d / w * f a + (b - a) / w * f (b + d) := by
      have := hf.2 (Set.mem_univ a) (Set.mem_univ (b + d)) ht hs (by rw [add_comm]; exact hst)
      have hpt : d / w * a + (b - a) / w * (b + d) = b := by
        field_simp
        rw [hw]; ring
      simpa only [smul_eq_mul, hpt] using this
    calc f (a + d) + f b
        ≤ ((b - a) / w * f a + d / w * f (b + d)) + (d / w * f a + (b - a) / w * f (b + d)) :=
          add_le_add h1 h2
      _ = ((b - a) / w + d / w) * (f a + f (b + d)) := by ring
      _ = f a + f (b + d) := by rw [hst, one_mul]

omit [IsStrictOrderedRing K] in
/-- An affine function is convex. -/
lemma convexOn_affine (c e : K) : ConvexOn K Set.univ fun x : K => c * x + e := by
  refine ⟨convex_univ, fun x _ y _ s t _ _ hst => le_of_eq ?_⟩
  simp only [smul_eq_mul]
  calc c * (s * x + t * y) + e
      = c * (s * x + t * y) + (s + t) * e := by rw [hst, one_mul]
    _ = s * (c * x + e) + t * (c * y + e) := by ring

/-- The square of the positive part of an affine function is convex. -/
lemma convexOn_sq_posPart (c e : K) :
    ConvexOn K Set.univ fun x : K => max (c * x + e) 0 ^ 2 := by
  have hmax : ConvexOn K Set.univ fun x : K => max (c * x + e) 0 :=
    (convexOn_affine c e).sup (convexOn_const 0 convex_univ)
  exact hmax.pow (fun x _ => le_max_right _ _) 2

/-- The squared distance from `m`, scaled by `l` below and by `r` above. -/
def twoSided (m l r x : K) : K := max ((m - x) / l) 0 ^ 2 + max ((x - m) / r) 0 ^ 2

lemma convexOn_twoSided (m l r : K) : ConvexOn K Set.univ (twoSided m l r) := by
  have hleft := convexOn_sq_posPart (-1 / l) (m / l)
  have hright := convexOn_sq_posPart (1 / r) (-m / r)
  refine (hleft.add hright).congr fun x _ => ?_
  simp only [Pi.add_apply, twoSided]
  congr 3
  · ring
  · ring

end Convex

/-- Two entries of a list without repetition, brought to the front. -/
lemma exists_perm_pair {α : Type*} [DecidableEq α] {ps : List α} (hnd : ps.Nodup) {p q : α}
    (hp : p ∈ ps) (hq : q ∈ ps) (hpq : p ≠ q) :
    ∃ rest, ps.Perm (p :: q :: rest) ∧ p ∉ rest ∧ q ∉ rest := by
  have hq' : q ∈ ps.erase p := (List.mem_erase_of_ne (Ne.symm hpq)).mpr hq
  have hnd' := hnd.erase p
  refine ⟨(ps.erase p).erase q, ?_, fun h => ?_, fun h => ?_⟩
  · exact (List.perm_cons_erase hp).trans ((List.perm_cons_erase hq').cons p)
  · exact hnd.not_mem_erase (List.mem_of_mem_erase h)
  · exact hnd'.not_mem_erase h

end KubeSafeScheduler
