import Mathlib.Data.List.Rotate
import Mathlib.Data.Nat.ModEq
import Mathlib.Tactic.Common

-- Circular buffers. The contents are a prefix of the buffer rotated to its tail, which turns index
-- arithmetic modulo the length into plain indices.
namespace Circular

variable {α : Type*} {l : List α} {a : α} {i j n t : Nat}

theorem index_inj (hi : i < n) (hj : j < n) : (t + i) % n = (t + j) % n ↔ i = j := by
  refine ⟨fun h => ?_, fun h => h ▸ rfl⟩
  have h := Nat.ModEq.add_left_cancel' t h
  rwa [Nat.ModEq, Nat.mod_eq_of_lt hi, Nat.mod_eq_of_lt hj] at h

theorem getElem_rotate_eq {k : Nat} (hk : k < l.length) (h : k = (t + i) % l.length)
    (hi : i < (l.rotate t).length) : (l.rotate t)[i] = l[k] := by
  subst h
  simp only [List.getElem_rotate, Nat.add_comm]

theorem rotate_set (hi : i < l.length) :
    (l.set ((t + i) % l.length) a).rotate t = (l.rotate t).set i a := by
  apply List.ext_getElem
  case hl => simp
  case h =>
    intro j _ hj
    have hj : j < l.length := by simpa using hj
    simp [List.getElem_rotate, List.getElem_set, Nat.add_comm j, index_inj hi hj]

theorem take_succ_set (h : n < l.length) : (l.set n a).take (n + 1) = l.take n ++ [a] := by
  rw [List.take_add_one, List.getElem?_set_self h, List.take_set_of_le (Nat.le_refl n)]
  rfl

theorem take_rotate (h : i + n ≤ l.length) : (l.rotate i).take n = (l.take (i + n)).drop i := by
  rw [List.rotate_eq_drop_append_take (by omega), List.take_append_of_le_length (by simp; omega),
    List.take_drop]

-- Closing the gap at `j` by moving the elements behind it one slot to the front.
def shiftDown (l : List α) (n : Nat) (j : Nat) : List α :=
  if h : j + 1 < n ∧ j + 1 < l.length
  then shiftDown (l.set j l[j + 1]) n (j + 1)
  else l
termination_by n - j

theorem shiftDown_of_lt (hn : j + 1 < n) (hl : j + 1 < l.length) :
    shiftDown l n j = shiftDown (l.set j l[j + 1]) n (j + 1) := by
  rw [shiftDown, dif_pos ⟨hn, hl⟩]

theorem shiftDown_of_le (h : n ≤ j + 1) : shiftDown l n j = l := by
  rw [shiftDown, dif_neg (by omega)]

theorem take_shiftDown (hj : j < n) (hn : n ≤ l.length) :
    (shiftDown l n j).take (n - 1) = (l.take n).eraseIdx j := by
  induction h : n - j generalizing l j
  case zero => omega
  case succ m hi =>
    by_cases hs : j + 1 < n
    case neg =>
      obtain rfl : n = j + 1 := by omega
      rw [shiftDown_of_le (Nat.le_refl _), List.eraseIdx_eq_take_drop_succ]
      simp [List.take_take]
    case pos =>
      have hl : j + 1 < l.length := by omega
      rw [shiftDown_of_lt hs hl, hi hs (by simpa using hn) (by omega)]
      apply List.ext_getElem?
      intro k
      simp only [List.getElem?_eraseIdx, List.getElem?_take, List.getElem?_set]
      grind

end Circular
