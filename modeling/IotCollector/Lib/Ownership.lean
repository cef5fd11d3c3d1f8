import Mathlib.Data.List.Perm.Basic
import Mathlib.Data.List.Nodup
import Mathlib.Data.List.Range
import Mathlib.Logic.Function.Basic

-- Blocks of a heap that are handed from one owner to another. A block in use holds the number of its
-- allocation, and `gone` lists the numbers of the blocks that have been freed.
structure Ownership {κ : Type*} (heap : κ → Option Nat) (owned : List κ) (gone : List Nat)
    (n : Nat) : Prop where
  nodup    : owned.Nodup
  mem_iff  : ∀ p, p ∈ owned ↔ (heap p).isSome
  conserve : (owned.filterMap heap ++ gone).Perm (List.range n)

namespace Ownership

variable {κ : Type*} {heap : κ → Option Nat} {owned owned' : List κ} {gone gone' : List Nat}
variable {n i : Nat} {p : κ}

theorem empty : Ownership (fun _ : κ => none) [] [] 0 where
  nodup    := .nil
  mem_iff  := by simp
  conserve := .refl _

theorem exists_of_mem (o : Ownership heap owned gone n) (h : p ∈ owned) : ∃ i, heap p = some i :=
  Option.isSome_iff_exists.mp <| (o.mem_iff p).mp h

theorem count_add_count (o : Ownership heap owned gone n) (h : i < n) :
    (owned.filterMap heap).count i + gone.count i = 1 := by
  rw [← List.count_append, o.conserve.count_eq]
  exact List.count_eq_one_of_mem List.nodup_range <| List.mem_range.mpr h

theorem move (o : Ownership heap owned gone n) (hp : owned'.Perm owned) (hg : gone'.Perm gone) :
    Ownership heap owned' gone' n where
  nodup     := hp.nodup_iff.mpr o.nodup
  mem_iff q := hp.mem_iff.trans <| o.mem_iff q
  conserve  := (hp.filterMap heap |>.append hg).trans o.conserve

variable [DecidableEq κ]

theorem filterMap_update {x : Option Nat} (h : p ∉ owned) :
    owned.filterMap (Function.update heap p x) = owned.filterMap heap := by
  refine List.filterMap_congr fun q hq => Function.update_of_ne ?_ ..
  rintro rfl
  exact h hq

theorem alloc (o : Ownership heap owned gone n) (h : heap p = none) :
    Ownership (Function.update heap p (some n)) (p :: owned) gone (n + 1) := by
  have hp : p ∉ owned := fun hm => by simpa [h] using (o.mem_iff p).mp hm
  refine ⟨List.nodup_cons.mpr ⟨hp, o.nodup⟩, fun q => ?_, ?_⟩
  · by_cases hq : q = p
    case pos => simp [hq]
    case neg => simpa [hq] using o.mem_iff q
  · rw [List.filterMap_cons_some (Function.update_self ..), filterMap_update hp, List.range_succ]
    exact (o.conserve.cons n).trans <| List.perm_append_singleton n _ |>.symm

theorem free (o : Ownership heap (p :: owned) gone n) (h : heap p = some i) :
    Ownership (Function.update heap p none) owned (i :: gone) n := by
  have ⟨hp, hn⟩ := List.nodup_cons.mp o.nodup
  refine ⟨hn, fun q => ?_, ?_⟩
  · by_cases hq : q = p
    case pos => simp [hq, hp]
    case neg => simpa [hq] using o.mem_iff q
  · rw [filterMap_update hp]
    have hc := o.conserve
    rw [List.filterMap_cons_some h] at hc
    exact List.perm_middle.trans hc

end Ownership

namespace List

variable {α β : Type*} {l : List α} {i : Nat} {x y : α}

theorem filterMap_cons_eq (f : α → Option β) :
    (x :: l).filterMap f = (f x).toList ++ l.filterMap f := by
  cases h : f x <;> simp [h]

theorem filterMap_set_perm (f : α → Option β) (h : l[i]? = some x) :
    ((l.set i y).filterMap f ++ (f x).toList).Perm (l.filterMap f ++ (f y).toList) := by
  induction l generalizing i
  case nil => simp at h
  case cons z l hi =>
    cases i
    case zero =>
      obtain rfl : z = x := by simpa using h
      rw [set_cons_zero, filterMap_cons_eq, filterMap_cons_eq]
      exact perm_append_comm.trans <| (perm_append_comm.append_left _).trans <|
        .of_eq (append_assoc ..).symm
    case succ i =>
      rw [set_cons_succ, filterMap_cons_eq, filterMap_cons_eq, append_assoc, append_assoc]
      exact (hi <| by simpa using h).append_left _

theorem perm_cons_eraseP {p : α → Bool} (h : l.find? p = some x) : l.Perm (x :: l.eraseP p) := by
  induction l
  case nil => simp at h
  case cons z l hi =>
    cases hz : p z
    case true  => simp_all
    case false =>
      simp only [List.find?_cons, hz] at h
      rw [List.eraseP_cons_of_neg (by simp [hz])]
      exact ((hi h).cons z).trans <| .swap ..

theorem filter_eraseP_not (l : List α) (p : α → Bool) : (l.eraseP (!p ·)).filter p = l.filter p := by
  induction l
  case nil => rfl
  case cons a l hi => cases ha : p a <;> simp [ha, hi]

end List
