import Mathlib.Algebra.BigOperators.Group.Finset.Basic
import Mathlib.Algebra.BigOperators.Group.Finset.Piecewise

theorem sum_update {ι α : Type*} [Fintype ι] [DecidableEq ι] (f : α → Nat) (w : ι → α) (i : ι)
    (x : α) : ∑ j, f (Function.update w i x j) + f (w i) = ∑ j, f (w j) + f x := by
  have h := Finset.sum_update_of_mem (Finset.mem_univ i) (f ∘ w) (f x)
  have h' := Finset.sum_sdiff (f := f ∘ w) <| Finset.subset_univ {i}
  simp only [← Function.comp_update, Function.comp_apply, Finset.sum_singleton] at h h'
  omega
