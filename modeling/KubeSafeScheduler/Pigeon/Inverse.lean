import Mathlib.Tactic
import Mathlib.LinearAlgebra.Matrix.Adjugate
import KubeSafeScheduler.Pigeon.Matrix
import KubeSafeScheduler.Lib.CountedLoop

/-!
`utils/matrix.c`: determinant, adjoint and inverse as its loops compute them, over
any field.

* `CofactorState`, `matrixCofactorLoop`: the counters of `matrix_cofactor`, which
  fill the smaller matrix row by row; a write past its end fails.
* `matrixCofactorLoop_eq`: the counters never leave the matrix and come to the
  submatrix without row `p` and column `q`.
* `matrixDeterminantLoop`, `matrixAdjointLoop`, `matrixInverseLoop`: the functions on
  top of it, with the sign that alternates from column to column.
* `matrixDeterminant_eq_det`, `matrixAdjoint_eq_adjugate`: they are the determinant and
  the adjugate; `matrixInverse_spec`: so the inverse is one, and missing only for a
  singular matrix.
-/

namespace KubeSafeScheduler.Pigeon

open Matrix

variable {K : Type} [Field K]

/-! ### The cofactor matrix -/

/-- The variables `row`, `col` and `y` of `matrix_cofactor`. -/
structure CofactorState (K : Type) (m : ℕ) where
  row : ℕ
  col : ℕ
  y : Matrix (Fin m) (Fin m) K

/-- The body of its loops: the entry `v` goes to the cell of the counters. -/
def CofactorState.write {m : ℕ} (s : CofactorState K m) (v : K) : Option (CofactorState K m) :=
  if h : s.row < m ∧ s.col < m then
    let y := s.y.updateRow ⟨s.row, h.1⟩ (Function.update (s.y ⟨s.row, h.1⟩) ⟨s.col, h.2⟩ v)
    if s.col + 1 = m then some ⟨s.row + 1, 0, y⟩ else some ⟨s.row, s.col + 1, y⟩
  else none

/-- The loops of `matrix_cofactor`. -/
def cofactorRows {n m : ℕ} (x : Matrix (Fin n) (Fin n) K) (p q : Fin n) :
    Option (CofactorState K m) :=
  (List.finRange n).foldlM (fun s i =>
    (List.finRange n).foldlM (fun s j =>
      if i ≠ p ∧ j ≠ q then s.write (x i j) else some s) s) ⟨0, 0, 0⟩

/-- `matrix_cofactor`: `NULL` for a matrix of one row. -/
def matrixCofactorLoop {n : ℕ} (x : Matrix (Fin n) (Fin n) K) (p q : Fin n) :
    Option (Matrix (Fin (n - 1)) (Fin (n - 1)) K) :=
  if n ≤ 1 then none else (cofactorRows x p q).map CofactorState.y

/-- The state after `r` rows and `c` columns of the next one, when the entries
are those of `w`. -/
def CofactorState.filled {m : ℕ} (w : Matrix (Fin m) (Fin m) K) (r c : ℕ) : CofactorState K m :=
  if c = m then ⟨r + 1, 0, filledTo w 0 r c⟩ else ⟨r, c, filledTo w 0 r c⟩

lemma CofactorState.write_filled {m : ℕ} (w : Matrix (Fin m) (Fin m) K) (r c : Fin m) :
    (filled w r c).write (w r c) = some (filled w r (c + 1)) := by
  have hc : (c : ℕ) ≠ m := c.isLt.ne
  have hlt : (r : ℕ) < m ∧ (c : ℕ) < m := ⟨r.isLt, c.isLt⟩
  rw [filled, if_neg hc, CofactorState.write, dif_pos hlt, filled]
  simp only [Fin.eta, updateRow_filledTo, apply_ite some]

lemma CofactorState.filled_zero {m : ℕ} (hm : m ≠ 0) (w : Matrix (Fin m) (Fin m) K) :
    filled w 0 0 = ⟨0, 0, 0⟩ := by
  rw [filled, if_neg hm.symm, filledTo_zero]

lemma CofactorState.filled_row_end {m : ℕ} (hm : m ≠ 0) (w : Matrix (Fin m) (Fin m) K) (r : ℕ) :
    filled w r m = filled w (r + 1) 0 := by
  rw [filled, if_pos rfl, filled, if_neg hm.symm, filledTo_row_end]

lemma CofactorState.y_filled {m : ℕ} (hm : m ≠ 0) (w : Matrix (Fin m) (Fin m) K) :
    (filled w m 0).y = w := by
  rw [filled, if_neg hm.symm, filledTo_end]

/-- One row of entries. -/
lemma CofactorState.foldlM_row {m : ℕ} (w : Matrix (Fin m) (Fin m) K) (r : Fin m) :
    (List.finRange m).foldlM (fun s c => s.write (w r c)) (filled w r 0)
      = some (filled w (r + 1) 0) := by
  have hm : m ≠ 0 := (Nat.zero_lt_of_lt r.isLt).ne'
  rw [← filled_row_end hm]
  exact foldlM_finRange _ (write_filled w r)

/-- All rows. -/
lemma CofactorState.foldlM_rows {m : ℕ} (w : Matrix (Fin m) (Fin m) K) :
    (List.finRange m).foldlM (fun s r => (List.finRange m).foldlM
        (fun s c => s.write (w r c)) s) (filled w 0 0)
      = some (filled w m 0) :=
  foldlM_finRange (fun r => filled w r 0) (foldlM_row w)

lemma cofactorRows_eq {n : ℕ} (x : Matrix (Fin (n + 2)) (Fin (n + 2)) K) (p q : Fin (n + 2)) :
    cofactorRows x p q = some (CofactorState.filled (matrixCofactor x p q) (n + 1) 0) := by
  have hrow : ∀ (s : CofactorState K (n + 1)) (i : Fin (n + 2)),
      (List.finRange (n + 2)).foldlM (fun s j =>
          if i ≠ p ∧ j ≠ q then s.write (x i j) else some s) s
        = if i ≠ p then (List.finRange (n + 1)).foldlM
            (fun s j => s.write (x i (q.succAbove j))) s else some s := by
    intro s i
    by_cases hi : i ≠ p
    · simp only [hi, ne_eq, not_false_eq_true, true_and, if_true]
      exact foldlM_finRange_skip q (fun s j => s.write (x i j)) s
    · simp only [hi, false_and, if_false]
      exact foldlM_finRange (fun _ => s) fun _ => rfl
  have hloop := CofactorState.foldlM_rows (matrixCofactor x p q)
  rw [cofactorRows]
  simp only [hrow]
  rw [foldlM_finRange_skip p, ← hloop, CofactorState.filled_zero (Nat.succ_ne_zero n)]
  rfl

/-- The counters come to the matrix without row `p` and column `q`. -/
theorem matrixCofactorLoop_eq {n : ℕ} (x : Matrix (Fin (n + 2)) (Fin (n + 2)) K)
    (p q : Fin (n + 2)) : matrixCofactorLoop x p q = some (matrixCofactor x p q) := by
  rw [matrixCofactorLoop, if_neg (by omega)]
  change (cofactorRows (m := n + 1) x p q).map CofactorState.y = _
  rw [cofactorRows_eq, Option.map_some, CofactorState.y_filled (Nat.succ_ne_zero n)]

/-! ### Determinant, adjoint and inverse -/

/-- `matrix_determinant`. -/
def matrixDeterminantLoop : ∀ {n : ℕ}, Matrix (Fin n) (Fin n) K → K
  | 0, _ => 0
  | 1, x => x ⟨0, Nat.one_pos⟩ ⟨0, Nat.one_pos⟩
  | n + 1 + 1, x =>
      -- the variables `d` and `sign`
      ((List.finRange (n + 1 + 1)).foldl (fun (s : K × K) j =>
        (matrixCofactorLoop x 0 j).elim s fun cof =>
          (s.1 + s.2 * x 0 j * matrixDeterminantLoop cof, -s.2)) (0, 1)).1

/-- `matrix_adjoint`. -/
def matrixAdjointLoop : ∀ {n : ℕ}, Matrix (Fin n) (Fin n) K → Matrix (Fin n) (Fin n) K
  | 0, _ => 0
  | 1, _ => of fun _ _ => 1
  | _ + 2, x => of fun j i =>
      (matrixCofactorLoop x i j).elim 0 fun cof =>
        (if ((i : ℕ) + j) % 2 = 0 then 1 else -1) * matrixDeterminantLoop cof

/-- `matrix_multiply` of square matrices. -/
def matrixMultiply {n : ℕ} (x y : Matrix (Fin n) (Fin n) K) : Matrix (Fin n) (Fin n) K :=
  of fun i j => (List.finRange n).foldl (fun z l => z + x i l * y l j) 0

/-- `matrix_scale`. -/
def matrixScale {n : ℕ} (x : Matrix (Fin n) (Fin n) K) (f : K) : Matrix (Fin n) (Fin n) K :=
  of fun i j => x i j * f

/-- `matrix_inverse`. -/
def matrixInverseLoop [DecidableEq K] {n : ℕ} (x : Matrix (Fin n) (Fin n) K) :
    Option (Matrix (Fin n) (Fin n) K) :=
  if matrixDeterminantLoop x = 0 then none
  else some (matrixScale (matrixAdjointLoop x) (1 / matrixDeterminantLoop x))

lemma matrixMultiply_eq_mul {n : ℕ} (x y : Matrix (Fin n) (Fin n) K) :
    matrixMultiply x y = x * y := by
  ext i j
  rw [matrixMultiply, of_apply, mul_apply, ← List.foldl_map (f := fun l => x i l * y l j),
    ← List.sum_eq_foldl, ← Fin.sum_univ_def]

/-! ### The loops and the closed forms -/

/-- The loop with the alternating sign is the alternating sum. -/
lemma foldl_alternating {n : ℕ} (f : Fin n → K) (s : K × K) :
    ((List.finRange n).foldl (fun s j => (s.1 + s.2 * f j, -s.2)) s).1
      = s.1 + s.2 * ∑ j : Fin n, (-1) ^ (j : ℕ) * f j := by
  induction n generalizing s with
  | zero => simp
  | succ n ih =>
      rw [List.finRange_succ, List.foldl_cons, List.foldl_map, ih fun j => f j.succ,
        Fin.sum_univ_succ, mul_add, Finset.mul_sum, Finset.mul_sum, add_assoc]
      congr 2
      · simp
      · refine Finset.sum_congr rfl fun j _ => ?_
        rw [Fin.val_succ, pow_succ]
        ring

theorem matrixDeterminantLoop_eq {n : ℕ} (x : Matrix (Fin n) (Fin n) K) :
    matrixDeterminantLoop x = matrixDeterminant x := by
  induction n using Nat.twoStepInduction with
  | zero => rfl
  | one => rfl
  | more n _ ih =>
      have hstep : ∀ (s : K × K) (j : Fin (n + 2)),
          (matrixCofactorLoop x 0 j).elim s (fun cof =>
              (s.1 + s.2 * x 0 j * matrixDeterminantLoop cof, -s.2))
            = (s.1 + s.2 * (x 0 j * matrixDeterminant (matrixCofactor x 0 j)), -s.2) := by
        intro s j
        rw [matrixCofactorLoop_eq, Option.elim_some, mul_assoc]
        congr 4
        exact ih _
      rw [matrixDeterminantLoop, matrixDeterminant]
      simp only [hstep]
      rw [foldl_alternating, zero_add, one_mul]
      exact Finset.sum_congr rfl fun j _ => (mul_assoc _ _ _).symm

theorem matrixAdjointLoop_eq {n : ℕ} (hn : n ≠ 0) (x : Matrix (Fin n) (Fin n) K) :
    matrixAdjointLoop x = matrixAdjoint x := by
  obtain _ | _ | n := n
  · exact absurd rfl hn
  · rfl
  · ext i j
    rw [matrixAdjointLoop, matrixAdjoint, of_apply, of_apply, matrixCofactorLoop_eq,
      Option.elim_some]
    congr 1
    exact matrixDeterminantLoop_eq (matrixCofactor x j i)

/-! ### The inverse -/

/-- The Laplace expansion is the determinant. -/
lemma matrixDeterminant_eq_det {n : ℕ} (hn : n ≠ 0) (x : Matrix (Fin n) (Fin n) K) :
    matrixDeterminant x = x.det := by
  induction n using Nat.twoStepInduction with
  | zero => exact absurd rfl hn
  | one => rw [det_fin_one, matrixDeterminant]
  | more n _ ih =>
      rw [matrixDeterminant, det_succ_row_zero]
      refine Finset.sum_congr rfl fun j _ => ?_
      rw [ih (Nat.succ_ne_zero n), ← Fin.succAbove_zero]
      rfl

/-- The transposed signed cofactors are the adjugate. -/
lemma matrixAdjoint_eq_adjugate {n : ℕ} (hn : n ≠ 0) (x : Matrix (Fin n) (Fin n) K) :
    matrixAdjoint x = x.adjugate := by
  obtain _ | _ | n := n
  · exact absurd rfl hn
  · rw [adjugate_fin_one]
    ext i j
    have hij : i = j := Fin.ext (by omega)
    rw [hij, one_apply_eq]
    rfl
  · ext j i
    rw [adjugate_fin_succ_eq_det_submatrix, matrixAdjoint, of_apply,
      matrixDeterminant_eq_det (Nat.succ_ne_zero n)]
    congr 1
    rcases Nat.even_or_odd ((i : ℕ) + j) with h | h
    · rw [if_pos (Nat.even_iff.mp h), h.neg_one_pow]
    · rw [if_neg (by rw [Nat.odd_iff.mp h]; exact one_ne_zero), h.neg_one_pow]

/-- The loops compute the determinant and the adjugate, and the inverse exactly
when there is one. -/
theorem matrixInverse_spec [DecidableEq K] {n : ℕ} (hn : 1 ≤ n) (x : Matrix (Fin n) (Fin n) K) :
    matrixDeterminantLoop x = x.det
      ∧ matrixMultiply x (matrixAdjointLoop x) = x.det • (1 : Matrix (Fin n) (Fin n) K)
      ∧ (matrixInverseLoop x = none ↔ x.det = 0)
      ∧ (x.det ≠ 0 → ∃ y, matrixInverseLoop x = some y
          ∧ matrixMultiply x y = 1 ∧ matrixMultiply y x = 1) := by
  have hn0 : n ≠ 0 := by omega
  have hdet : matrixDeterminantLoop x = x.det := by
    rw [matrixDeterminantLoop_eq, matrixDeterminant_eq_det hn0]
  have hadj : matrixAdjointLoop x = x.adjugate := by
    rw [matrixAdjointLoop_eq hn0, matrixAdjoint_eq_adjugate hn0]
  have hscale : matrixScale x.adjugate (1 / x.det) = x.det⁻¹ • x.adjugate := by
    ext i j
    rw [matrixScale, of_apply, Matrix.smul_apply, smul_eq_mul, one_div, mul_comm]
  rw [matrixInverseLoop, hdet, hadj, matrixMultiply_eq_mul, mul_adjugate, hscale]
  refine ⟨rfl, rfl, ?_, fun hne => ⟨x.det⁻¹ • x.adjugate, if_neg hne, ?_, ?_⟩⟩
  · split_ifs with h <;> simp [h]
  · calc matrixMultiply x (x.det⁻¹ • x.adjugate)
        = x.det⁻¹ • (x * x.adjugate) := by rw [matrixMultiply_eq_mul, Matrix.mul_smul]
      _ = x.det⁻¹ • x.det • 1 := by rw [mul_adjugate]
      _ = 1 := by rw [smul_smul, inv_mul_cancel₀ hne, one_smul]
  · calc matrixMultiply (x.det⁻¹ • x.adjugate) x
        = x.det⁻¹ • (x.adjugate * x) := by rw [matrixMultiply_eq_mul, Matrix.smul_mul]
      _ = x.det⁻¹ • x.det • 1 := by rw [adjugate_mul]
      _ = 1 := by rw [smul_smul, inv_mul_cancel₀ hne, one_smul]

theorem matrixInverse_two :
    ∃ y, matrixInverseLoop !![(2 : ℚ), 1; 5, 3] = some y
      ∧ matrixMultiply !![(2 : ℚ), 1; 5, 3] y = 1 ∧ matrixMultiply y !![(2 : ℚ), 1; 5, 3] = 1 :=
  (matrixInverse_spec (by omega) !![(2 : ℚ), 1; 5, 3]).2.2.2 (by norm_num [det_fin_two])

/-- The inverse that the coefficient of variation takes is this one. -/
theorem matrixInverseLoop_eq {K : Type} [Field K] [LinearOrder K] {n : ℕ} (hn : n ≠ 0)
    (x : Matrix (Fin n) (Fin n) K) : matrixInverseLoop x = matrixInverse x := by
  rw [matrixInverseLoop, matrixInverse, matrixDeterminantLoop_eq, matrixAdjointLoop_eq hn]
  rfl

end KubeSafeScheduler.Pigeon
