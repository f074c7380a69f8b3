import Mathlib.Tactic

/-!
Folds whose elements overwrite the state: an element of class `some g` puts `out g`
over it, one of class `none` leaves it.

* `overwrite`: one step; `foldl_overwrite`: where only one class occurs, the fold
  is that class put over the start once.
* `foldl_overwrite_perm_iff`: the fold gives the same for every order of the list
  exactly when no two different classes occur in it.
-/

namespace KubeSafeScheduler

variable {α γ σ : Type*} (cls : α → Option γ) (out : γ → σ → σ)

/-- One element over the state. -/
def overwrite (s : σ) (x : α) : σ := (cls x).elim s fun g => out g s

variable {cls out}

lemma overwrite_of_none {s : σ} {x : α} (h : cls x = none) : overwrite cls out s x = s := by
  rw [overwrite, h, Option.elim_none]

lemma overwrite_of_some {s : σ} {x : α} {g : γ} (h : cls x = some g) :
    overwrite cls out s x = out g s := by
  rw [overwrite, h, Option.elim_some]

lemma foldl_overwrite_of_none {l : List α} (h : ∀ x ∈ l, cls x = none) (s : σ) :
    l.foldl (overwrite cls out) s = s := by
  induction l with
  | nil => rfl
  | cons x l ih =>
      rw [List.foldl_cons, overwrite_of_none (h x List.mem_cons_self)]
      exact ih fun y hy => h y (List.mem_cons_of_mem x hy)

/-- One class over the state once is that class over it any number of times. -/
lemma foldl_overwrite {l : List α} {g : γ} (hidem : ∀ s, out g (out g s) = out g s)
    (honly : ∀ x ∈ l, cls x = none ∨ cls x = some g) (hmem : ∃ x ∈ l, cls x = some g) (s : σ) :
    l.foldl (overwrite cls out) s = out g s := by
  induction l generalizing s with
  | nil => simp at hmem
  | cons x l ih =>
      have hrest : ∀ y ∈ l, cls y = none ∨ cls y = some g :=
        fun y hy => honly y (List.mem_cons_of_mem x hy)
      rw [List.foldl_cons]
      by_cases hl : ∃ y ∈ l, cls y = some g
      · rw [ih hrest hl]
        rcases honly x List.mem_cons_self with hx | hx
        · rw [overwrite_of_none hx]
        · rw [overwrite_of_some hx, hidem]
      · have hnone : ∀ y ∈ l, cls y = none :=
          fun y hy => (hrest y hy).resolve_right fun hg => hl ⟨y, hy, hg⟩
        obtain ⟨y, hy, hg⟩ := hmem
        rcases List.mem_cons.mp hy with rfl | hy'
        · rw [overwrite_of_some hg, foldl_overwrite_of_none hnone]
        · exact absurd ⟨y, hy', hg⟩ hl

/-- A list can be ordered so that any of its elements comes last. -/
lemma exists_perm_append_singleton {l : List α} {x : α} (hx : x ∈ l) :
    ∃ r, l.Perm (r ++ [x]) := by
  obtain ⟨s, t, rfl⟩ := List.append_of_mem hx
  exact ⟨s ++ t, (List.perm_middle).trans (List.perm_append_singleton x _).symm⟩

/-- The order does not matter exactly when no two classes occur. -/
theorem foldl_overwrite_perm_iff (hidem : ∀ g s, out g (out g s) = out g s)
    (hsep : ∀ g g' s s', out g s = out g' s' → g = g') (l : List α) (s : σ) :
    (∀ l', l.Perm l' → l'.foldl (overwrite cls out) s = l.foldl (overwrite cls out) s)
      ↔ ∀ x ∈ l, ∀ y ∈ l, ∀ g g', cls x = some g → cls y = some g' → g = g' := by
  constructor
  · intro h x hx y hy g g' hg hg'
    obtain ⟨r, hr⟩ := exists_perm_append_singleton hx
    obtain ⟨r', hr'⟩ := exists_perm_append_singleton hy
    have heq := (h _ hr).trans (h _ hr').symm
    rw [List.foldl_append, List.foldl_append, List.foldl_cons, List.foldl_cons, List.foldl_nil,
      List.foldl_nil, overwrite_of_some hg, overwrite_of_some hg'] at heq
    exact hsep g g' _ _ heq
  · intro h l' hperm
    by_cases hsome : ∃ x ∈ l, ∃ g, cls x = some g
    · obtain ⟨x, hx, g, hg⟩ := hsome
      have honly : ∀ y ∈ l, cls y = none ∨ cls y = some g := by
        intro y hy
        rcases hy' : cls y with _ | g'
        · exact Or.inl rfl
        · rw [h y hy x hx g' g hy' hg]
          exact Or.inr rfl
      rw [foldl_overwrite (hidem g) honly ⟨x, hx, hg⟩,
        foldl_overwrite (hidem g) (fun y hy => honly y (hperm.mem_iff.mpr hy))
          ⟨x, hperm.mem_iff.mp hx, hg⟩]
    · have hnone : ∀ y ∈ l, cls y = none := by
        intro y hy
        rcases hy' : cls y with _ | g'
        · rfl
        · exact absurd ⟨y, hy, g', hy'⟩ hsome
      rw [foldl_overwrite_of_none hnone,
        foldl_overwrite_of_none fun y hy => hnone y (hperm.mem_iff.mpr hy)]

end KubeSafeScheduler
