import Mathlib.Tactic
import Mathlib.Order.Fin.Basic
import Mathlib.Data.List.Sort
import Mathlib.Data.Matrix.Basic

/-!
Counted loops that can fail: `for (i = 0; i < n; ++i)` as a monadic fold over
`List.finRange n`.

* `foldlM_finRange`: a loop whose state before round `k` is known, round by round.
* `foldlM_flatMap`: the loops over the items of each item are one loop.
* `foldlM_finRange_skip`: a loop whose body is skipped at one index `p` is a
  shorter loop over `p.succAbove`.
* `filledTo`: a matrix that is being written row by row, with the cell that comes
  next and the ends of a row and of the matrix.
-/

namespace KubeSafeScheduler

variable {σ : Type*}

/-- A loop passes through the states `S 0, ..., S n` if each round goes from one
to the next. -/
lemma foldlM_finRange {n : ℕ} {step : σ → Fin n → Option σ} (S : ℕ → σ)
    (h : ∀ k : Fin n, step (S k) k = some (S (k + 1))) :
    (List.finRange n).foldlM step (S 0) = some (S n) := by
  induction n generalizing S with
  | zero => rfl
  | succ n ih =>
      have hzero : step (S 0) 0 = some (S 1) := h 0
      have hrest : (List.finRange n).foldlM (fun s k => step s k.succ) (S 1) = some (S (n + 1)) :=
        ih (fun k => S (k + 1)) fun k => h k.succ
      rw [List.finRange_succ, List.foldlM_cons, hzero, Option.bind_eq_bind, Option.bind_some,
        List.foldlM_map]
      exact hrest

/-- Two nested loops are one over the items of the inner ones. -/
lemma foldlM_flatMap {ι κ : Type*} (items : ι → List κ) (step : σ → κ → Option σ) (l : List ι)
    (s : σ) :
    (l.flatMap items).foldlM step s = l.foldlM (fun s i => (items i).foldlM step s) s := by
  induction l generalizing s with
  | nil => rfl
  | cons i l ih =>
      rw [List.flatMap_cons, List.foldlM_append, List.foldlM_cons]
      simp only [ih]

/-- The indices other than `p`, in order. -/
lemma finRange_filter_ne {n : ℕ} (p : Fin (n + 1)) :
    (List.finRange (n + 1)).filter (fun i => decide (i ≠ p))
      = (List.finRange n).map p.succAbove := by
  refine List.SortedLT.eq_of_mem_iff ?_ ?_ fun i => ?_
  · exact ((List.sortedLT_finRange _).pairwise.filter _).sortedLT
  · exact ((List.sortedLT_finRange n).pairwise.map _
      fun _ _ hlt => Fin.strictMono_succAbove p hlt).sortedLT
  · simp only [List.mem_filter, List.mem_finRange, true_and, decide_eq_true_eq, List.mem_map,
      ← Fin.exists_succAbove_eq_iff]

/-- Skipping one index shortens the loop. -/
lemma foldlM_finRange_skip {n : ℕ} (p : Fin (n + 1)) (step : σ → Fin (n + 1) → Option σ) (s : σ) :
    (List.finRange (n + 1)).foldlM (fun s i => if i ≠ p then step s i else some s) s
      = (List.finRange n).foldlM (fun s i => step s (p.succAbove i)) s := by
  rw [← List.foldlM_map, ← finRange_filter_ne]
  induction List.finRange (n + 1) generalizing s with
  | nil => rfl
  | cons i l ih =>
      rw [List.foldlM_cons]
      by_cases hi : i ≠ p
      · rw [if_pos hi, List.filter_cons, if_pos (decide_eq_true hi), List.foldlM_cons]
        simp only [ih]
      · rw [if_neg hi, List.filter_cons, if_neg (by simpa using hi)]
        exact ih s

/-! ### Filling a matrix -/

section Filling

open Matrix

variable {α : Type*} {n m : ℕ}

/-- The matrix `init` with its entries before row `r` and column `c`, row by row, those
of `w`. -/
def filledTo (w init : Matrix (Fin n) (Fin m) α) (r c : ℕ) : Matrix (Fin n) (Fin m) α :=
  of fun i j => if (i : ℕ) < r ∨ (i : ℕ) = r ∧ (j : ℕ) < c then w i j else init i j

/-- Writing the next cell. -/
lemma updateRow_filledTo (w init : Matrix (Fin n) (Fin m) α) (r : Fin n) (c : Fin m) :
    (filledTo w init r c).updateRow r (Function.update (filledTo w init r c r) c (w r c))
      = filledTo w init r (c + 1) := by
  ext i j
  rw [updateRow_apply, Function.update_apply]
  simp only [filledTo, of_apply]
  by_cases hi : i = r
  · subst hi
    by_cases hj : j = c
    · rw [if_pos rfl, if_pos hj, if_pos (by omega), hj]
    · have hj' : (j : ℕ) ≠ c := fun h => hj (Fin.ext h)
      have hiff : (j : ℕ) < c + 1 ↔ (j : ℕ) < c := by omega
      simp only [if_true, if_neg hj, hiff]
  · have hi' : (i : ℕ) ≠ r := fun h => hi (Fin.ext h)
    simp only [if_neg hi, hi', false_and]

/-- Behind the end of a row the next one begins. -/
lemma filledTo_row_end (w init : Matrix (Fin n) (Fin m) α) (r : ℕ) :
    filledTo w init r m = filledTo w init (r + 1) 0 := by
  ext i j
  have hiff : (i : ℕ) < r ∨ (i : ℕ) = r ∧ (j : ℕ) < m
      ↔ (i : ℕ) < r + 1 ∨ (i : ℕ) = r + 1 ∧ (j : ℕ) < 0 := by omega
  simp only [filledTo, of_apply, hiff]

lemma filledTo_zero (w init : Matrix (Fin n) (Fin m) α) : filledTo w init 0 0 = init := by
  ext i j
  simp [filledTo]

lemma filledTo_end (w init : Matrix (Fin n) (Fin m) α) : filledTo w init n 0 = w := by
  ext i j
  simp [filledTo]

end Filling

end KubeSafeScheduler
