import Mathlib.Algebra.Order.Ring.Nat
import Mathlib.Data.List.Basic
import Mathlib.Tactic.Common

-- Machine words as little-endian bytes.
namespace Bytes

def le16 (x : UInt16) : List UInt8 :=
  [x.toUInt8, UInt8.ofNat (x.toNat / 256)]

def ofLe16 (b₀ b₁ : UInt8) : UInt16 :=
  UInt16.ofNat (b₀.toNat + 256 * b₁.toNat)

def le32 (x : UInt32) : List UInt8 :=
  [x.toUInt8, UInt8.ofNat (x.toNat / 256), UInt8.ofNat (x.toNat / 65536),
   UInt8.ofNat (x.toNat / 16777216)]

def ofLe32 (b₀ b₁ b₂ b₃ : UInt8) : UInt32 :=
  UInt32.ofNat (b₀.toNat + 256 * b₁.toNat + 65536 * b₂.toNat + 16777216 * b₃.toNat)

@[simp]
theorem ofLe16_le16 (x : UInt16) :
    ofLe16 x.toUInt8 (UInt8.ofNat (x.toNat / 256)) = x := by
  have := x.toNat_lt
  simp [ofLe16, ← UInt16.toNat_inj]
  omega

@[simp]
theorem le16_ofLe16 (b₀ b₁ : UInt8) : le16 (ofLe16 b₀ b₁) = [b₀, b₁] := by
  have h₀ := b₀.toNat_lt
  have h₁ := b₁.toNat_lt
  simp [le16, ofLe16, ← UInt8.toNat_inj]
  omega

@[simp]
theorem ofLe32_le32 (x : UInt32) :
    ofLe32 x.toUInt8 (UInt8.ofNat (x.toNat / 256)) (UInt8.ofNat (x.toNat / 65536))
      (UInt8.ofNat (x.toNat / 16777216)) = x := by
  have := x.toNat_lt
  simp [ofLe32, ← UInt32.toNat_inj]
  omega

@[simp]
theorem le32_ofLe32 (b₀ b₁ b₂ b₃ : UInt8) :
    le32 (ofLe32 b₀ b₁ b₂ b₃) = [b₀, b₁, b₂, b₃] := by
  have h₀ := b₀.toNat_lt
  have h₁ := b₁.toNat_lt
  have h₂ := b₂.toNat_lt
  have h₃ := b₃.toNat_lt
  simp [le32, ofLe32, ← UInt8.toNat_inj]
  omega

def le64 (x : Int64) : List UInt8 :=
  (List.range 8).map fun i => UInt8.ofNat (x.toUInt64.toNat / 256 ^ i)

def ofLe64 (b : List UInt8) : Int64 :=
  (UInt64.ofNat <| ((List.range 8).map fun i => (b.getD i 0).toNat * 256 ^ i).sum).toInt64

theorem le64_length (x : Int64) : (le64 x).length = 8 :=
  rfl

theorem sum_digits (x k : Nat) :
    ((List.range k).map fun i => x / 256 ^ i % 256 * 256 ^ i).sum = x % 256 ^ k := by
  induction k
  case zero => simp [Nat.mod_one]
  case succ k hi =>
    rw [List.range_succ, List.map_append, List.sum_append, hi, Nat.mod_pow_succ]
    simp [Nat.mul_comm]

@[simp]
theorem ofLe64_le64 (x : Int64) : ofLe64 (le64 x) = x := by
  have h : x.toUInt64.toNat < 256 ^ 8 := x.toUInt64.toNat_lt
  have hd : ((List.range 8).map fun i => ((le64 x).getD i 0).toNat * 256 ^ i) =
      (List.range 8).map fun i => x.toUInt64.toNat / 256 ^ i % 256 * 256 ^ i := by
    refine List.map_congr_left fun i hi => ?_
    rw [List.mem_range] at hi
    simp [le64, List.getD_eq_getElem?_getD, hi]
  rw [ofLe64, hd, sum_digits, Nat.mod_eq_of_lt h]
  simp

-- The byte order reversal that `htons` and `ntohs` perform on a little-endian host.
def swap16 (x : UInt16) : UInt16 :=
  ofLe16 (UInt8.ofNat (x.toNat / 256)) x.toUInt8

def swap32 (x : UInt32) : UInt32 :=
  ofLe32 (UInt8.ofNat (x.toNat / 16777216)) (UInt8.ofNat (x.toNat / 65536))
    (UInt8.ofNat (x.toNat / 256)) x.toUInt8

theorem swap16_ofLe16 (b₀ b₁ : UInt8) : swap16 (ofLe16 b₀ b₁) = ofLe16 b₁ b₀ := by
  have h := le16_ofLe16 b₀ b₁
  simp only [le16, List.cons.injEq, and_true] at h
  simp only [swap16, h]

theorem swap32_ofLe32 (b₀ b₁ b₂ b₃ : UInt8) :
    swap32 (ofLe32 b₀ b₁ b₂ b₃) = ofLe32 b₃ b₂ b₁ b₀ := by
  have h := le32_ofLe32 b₀ b₁ b₂ b₃
  simp only [le32, List.cons.injEq, and_true] at h
  simp only [swap32, h]

@[simp]
theorem swap16_swap16 (x : UInt16) : swap16 (swap16 x) = x := by
  rw [swap16.eq_1 x, swap16_ofLe16, ofLe16_le16]

@[simp]
theorem swap32_swap32 (x : UInt32) : swap32 (swap32 x) = x := by
  rw [swap32.eq_1 x, swap32_ofLe32, ofLe32_le32]

theorem swap16_inj {x y : UInt16} : swap16 x = swap16 y ↔ x = y :=
  (Function.LeftInverse.injective swap16_swap16).eq_iff

theorem take_eq_map_getD {α : Type*} {l : List α} {n : Nat} (d : α) (h : n ≤ l.length) :
    l.take n = (List.range n).map (l.getD · d) := by
  apply List.ext_getElem
  case hl => simp [h]
  case h =>
    intro i _ hi
    have hi : i < l.length := by simp at hi; omega
    simp [hi]

end Bytes
