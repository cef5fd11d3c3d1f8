import Mathlib.Data.List.Basic
import Mathlib.Logic.Function.Basic
import Mathlib.Tactic.Common

-- Files as POSIX has them: byte strings that are read and written at an offset.
namespace Posix

abbrev Path := List UInt8

-- Two paths may name the same file, which is why the files are not keyed by their paths.
structure FileSystem where
  node : Path → Nat
  data : Nat → Option (List UInt8)

namespace FileSystem

def lookup (fs : FileSystem) (path : Path) : Option (List UInt8) :=
  fs.data (fs.node path)

def content (fs : FileSystem) (n : Nat) : List UInt8 :=
  (fs.data n).getD []

def store (fs : FileSystem) (n : Nat) (bytes : List UInt8) : FileSystem :=
  { fs with data := Function.update fs.data n (some bytes) }

variable {fs : FileSystem} {n m : Nat} {bytes : List UInt8}

@[simp]
theorem node_store (fs : FileSystem) (n : Nat) (bytes : List UInt8) :
    (fs.store n bytes).node = fs.node :=
  rfl

@[simp]
theorem content_store_self : (fs.store n bytes).content n = bytes := by
  simp [store, content]

theorem content_store_of_ne (h : m ≠ n) : (fs.store n bytes).content m = fs.content m := by
  simp [store, content, h]

@[simp]
theorem content_store_content (fs : FileSystem) (n m : Nat) :
    (fs.store n (fs.content n)).content m = fs.content m := by
  by_cases h : m = n
  case pos => rw [h, content_store_self]
  case neg => exact content_store_of_ne h

@[simp]
theorem store_store (fs : FileSystem) (n : Nat) (b₁ b₂ : List UInt8) :
    (fs.store n b₁).store n b₂ = fs.store n b₂ := by
  simp [store]

theorem content_of_data (h : fs.data n = some bytes) : fs.content n = bytes := by
  simp [content, h]

theorem lookup_store_of_ne {path : Path} (h : fs.node path ≠ n) :
    (fs.store n bytes).lookup path = fs.lookup path := by
  simp [store, lookup, h]

theorem node_ne_of_lookup {p₁ p₂ : Path} (h₁ : fs.lookup p₁ = some bytes)
    (h₂ : fs.lookup p₂ = none) : fs.node p₁ ≠ fs.node p₂ := by
  intro he
  simp [lookup, he] at h₁ h₂
  simp [h₁] at h₂

end FileSystem

-- The result is shorter than `n` at the end of the file.
def readAt (b : List UInt8) (offset n : Nat) : List UInt8 :=
  (b.drop offset).take n

-- An offset behind the end of the file leaves a hole, which reads as zeros.
def writeAt (b : List UInt8) (offset : Nat) (d : List UInt8) : List UInt8 :=
  b.take offset ++ List.replicate (offset - b.length) 0 ++ d ++ b.drop (offset + d.length)

variable {b b₁ b₂ d : List UInt8} {offset n : Nat}

theorem length_readAt : (readAt b offset n).length = min n (b.length - offset) := by
  simp [readAt]

theorem length_writeAt : (writeAt b offset d).length = max b.length (offset + d.length) := by
  simp [writeAt]
  omega

theorem writeAt_length : writeAt b b.length d = b ++ d := by
  simp [writeAt]

theorem readAt_append (b₁ d b₂ : List UInt8) :
    readAt (b₁ ++ d ++ b₂) b₁.length d.length = d := by
  simp [readAt]

theorem readAt_writeAt (b d : List UInt8) (offset : Nat) :
    readAt (writeAt b offset d) offset d.length = d := by
  have hl : (b.take offset ++ List.replicate (offset - b.length) 0).length = offset := by
    simp
    omega
  rw [readAt, writeAt, List.append_assoc (_ ++ _), List.drop_left' hl, List.take_left' rfl]

theorem getElem?_readAt (b : List UInt8) (offset n i : Nat) :
    (readAt b offset n)[i]? = if i < n then b[offset + i]? else none := by
  simp [readAt, List.getElem?_take]

theorem getElem?_writeAt (b d : List UInt8) (offset i : Nat) :
    (writeAt b offset d)[i]? =
    if i < offset then some (b[i]?.getD 0)
    else if i < offset + d.length then d[i - offset]? else b[i]? := by
  have hl : (b.take offset ++ List.replicate (offset - b.length) 0).length = offset := by
    simp
    omega
  rw [writeAt, List.append_assoc (_ ++ _)]
  split
  case isTrue h =>
    rw [List.getElem?_append_left (hl.symm ▸ h)]
    by_cases hb : i < b.length
    case pos => rw [List.getElem?_append_left (by simp; omega), List.getElem?_take_of_lt h,
      List.getElem?_eq_getElem hb, Option.getD_some]
    case neg =>
      have hr : i - min offset b.length < offset - b.length := by omega
      have hm : ¬i < min offset b.length := by omega
      simp [List.getElem?_append, hb, hr, hm]
  case isFalse h =>
    rw [List.getElem?_append_right (hl.symm ▸ Nat.not_lt.mp h), hl]
    split
    case isTrue hd  => rw [List.getElem?_append_left (by omega)]
    case isFalse hd =>
      rw [List.getElem?_append_right (by omega), List.getElem?_drop]
      exact congrArg (b[·]?) <| by omega

-- After `d` is written at the offset, its bytes stand at `p`: those in front of the offset and those
-- behind the written ones have stood there before, and those among the written ones are repeated.
def Overlaid (b d : List UInt8) (offset p : Nat) : Prop :=
  ∀ i < d.length, d[i]? =
    if p + i < offset then some (b[p + i]?.getD 0)
    else if p + i < offset + d.length then d[p + i - offset]? else b[p + i]?

instance (b d : List UInt8) (offset p : Nat) : Decidable (Overlaid b d offset p) :=
  inferInstanceAs (Decidable (∀ i < _, _))

theorem readAt_writeAt_iff {p : Nat} :
    readAt (writeAt b offset d) p d.length = d ↔ Overlaid b d offset p := by
  simp only [List.ext_getElem?_iff, getElem?_readAt, getElem?_writeAt, Overlaid]
  refine forall_congr' fun i => ?_
  split
  case isTrue hi  => simp only [hi, true_imp_iff, eq_comm]
  case isFalse hi =>
    simp only [hi, false_imp_iff, iff_true]
    exact (List.getElem?_eq_none <| Nat.not_lt.mp hi).symm

theorem readAt_drop (b : List UInt8) (s p n : Nat) : readAt (b.drop s) p n = readAt b (s + p) n := by
  rw [readAt, readAt, List.drop_drop]

theorem readAt_writeAt_of_le {p : Nat} (h : p + n ≤ offset) (hb : p + n ≤ b.length) :
    readAt (writeAt b offset d) p n = readAt b p n := by
  refine List.ext_getElem? fun i => ?_
  rw [getElem?_readAt, getElem?_readAt, getElem?_writeAt]
  split
  case isFalse => rfl
  case isTrue hi =>
    rw [if_pos (by omega), List.getElem?_eq_getElem (by omega), Option.getD_some]

theorem drop_writeAt (b d : List UInt8) (offset : Nat) :
    (writeAt b offset d).drop (offset + d.length) = b.drop (offset + d.length) := by
  refine List.ext_getElem? fun i => ?_
  rw [List.getElem?_drop, List.getElem?_drop, getElem?_writeAt, if_neg (by omega), if_neg (by omega)]

theorem readAt_add (b : List UInt8) (p m n : Nat) :
    readAt b p (m + n) = readAt b p m ++ readAt b (p + m) n := by
  rw [readAt, List.take_add, List.drop_drop, readAt, readAt]

theorem offset_eq_of_readAt {p q : Nat} (hn : 0 < n)
    (h : ∀ x, readAt (writeAt b q (List.replicate n x)) p n = List.replicate n x) : p = q := by
  have hx i (hi : i < n) (x : UInt8) : (writeAt b q (List.replicate n x))[p + i]? = some x := by
    have h := congrArg (·[i]?) <| h x
    simpa [getElem?_readAt, hi] using h
  rcases Nat.lt_trichotomy p q with hlt | rfl | hgt
  case inr.inl => rfl
  case inl =>
    have h₀ := hx 0 hn 0
    have h₁ := hx 0 hn 1
    rw [Nat.add_zero, getElem?_writeAt, if_pos hlt] at h₀ h₁
    exact absurd (h₀.symm.trans h₁) (by decide)
  case inr.inr =>
    have h₀ := hx (n - 1) (by omega) 0
    have h₁ := hx (n - 1) (by omega) 1
    rw [getElem?_writeAt, List.length_replicate, if_neg (by omega), if_neg (by omega)] at h₀ h₁
    exact absurd (h₀.symm.trans h₁) (by decide)

end Posix
