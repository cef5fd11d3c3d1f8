import Mathlib.Data.List.Basic
import Mathlib.Logic.Function.Basic

-- A memory without bounds, into which a program writes from some place on.
namespace Memory

variable {β : Type*} {m : Nat → β} {o k : Nat} {l l₁ l₂ : List β}

def blit (m : Nat → β) (o : Nat) : List β → Nat → β
  | []     => m
  | b :: l => blit (Function.update m o b) (o + 1) l

theorem blit_append : blit m o (l₁ ++ l₂) = blit (blit m o l₁) (o + l₁.length) l₂ := by
  induction l₁ generalizing m o
  case nil => rfl
  case cons b l hi =>
    rw [List.cons_append, blit, hi, blit, List.length_cons, Nat.add_assoc, Nat.add_comm 1]

theorem blit_of_lt (h : k < o) : blit m o l k = m k := by
  induction l generalizing m o
  case nil          => rfl
  case cons b l hi => rw [blit, hi (by omega), Function.update_of_ne (by omega)]

theorem blit_of_le (h : o + l.length ≤ k) : blit m o l k = m k := by
  induction l generalizing m o
  case nil => rfl
  case cons b l hi =>
    rw [List.length_cons] at h
    rw [blit, hi (by omega), Function.update_of_ne (by omega)]

theorem map_blit : (List.range l.length).map (fun k => blit m o l (o + k)) = l := by
  induction l generalizing m o
  case nil => rfl
  case cons b l hi =>
    have h₀ : blit (Function.update m o b) (o + 1) l o = b := by
      rw [blit_of_lt (by omega), Function.update_self]
    rw [List.length_cons, List.range_succ_eq_map, List.map_cons, List.map_map]
    refine congrArg₂ List.cons h₀ <| (List.map_congr_left fun k _ => ?_).trans <|
      hi (m := Function.update m o b) (o := o + 1)
    rw [Function.comp_apply, Nat.succ_eq_add_one, Nat.add_assoc, Nat.add_comm 1]
    rfl

end Memory
