import Mathlib.Data.List.Basic

-- The encoding of bytes by 64 letters, in groups of four that stand for three bytes, where the last
-- group is padded.
namespace Base64

def alphabet : List UInt8 :=
  "ABCDEFGHIJKLMNOPQRSTUVWXYZabcdefghijklmnopqrstuvwxyz0123456789+/".toList.map
    fun c => UInt8.ofNat c.toNat

def pad : UInt8 := 61

def letter (k : Nat) : UInt8 :=
  alphabet.getD (k % 64) 0

def value (c : UInt8) : Option Nat :=
  alphabet.idxOf? c

theorem value_letter (k : Nat) : value (letter k) = some (k % 64) :=
  (by decide +kernel : ∀ i < 64, value (alphabet.getD i 0) = some i) _ <| Nat.mod_lt k (by decide)

theorem letter_ne_pad (k : Nat) : letter k ≠ pad :=
  (by decide +kernel : ∀ i < 64, alphabet.getD i 0 ≠ pad) _ <| Nat.mod_lt k (by decide)

theorem letter_of_mod {k : Nat} (h : k % 64 = 0) : letter k = letter 0 := by
  rw [letter, h]
  rfl

def bits (a b c : UInt8) : Nat :=
  a.toNat * 65536 + b.toNat * 256 + c.toNat

def encode : List UInt8 → List UInt8
  | []  => []
  | [a] =>
    let v := bits a 0 0
    [letter (v / 262144), letter (v / 4096), pad, pad]
  | [a, b] =>
    let v := bits a b 0
    [letter (v / 262144), letter (v / 4096), letter (v / 64), pad]
  | a :: b :: c :: l =>
    let v := bits a b c
    [letter (v / 262144), letter (v / 4096), letter (v / 64), letter v] ++ encode l

def unbits (v : Nat) : List UInt8 :=
  [UInt8.ofNat (v / 65536), UInt8.ofNat (v / 256), UInt8.ofNat v]

def decodeGroup (c₀ c₁ c₂ c₃ : UInt8) : Option (List UInt8) := do
  let s₀ ← value c₀
  let s₁ ← value c₁
  let s₂ ← value c₂
  let s₃ ← value c₃
  some <| unbits <| s₀ * 262144 + s₁ * 4096 + s₂ * 64 + s₃

-- A text which is not made up of groups, or has another byte in it, is not decoded.
def decode : List UInt8 → Option (List UInt8)
  | []                       => some []
  | c₀ :: c₁ :: c₂ :: c₃ :: l =>
    if c₃ = pad ∧ l = [] then
      if c₂ = pad
      then (decodeGroup c₀ c₁ (letter 0) (letter 0)).map (List.take 1)
      else (decodeGroup c₀ c₁ c₂ (letter 0)).map (List.take 2)
    else do
      let g ← decodeGroup c₀ c₁ c₂ c₃
      let r ← decode l
      some (g ++ r)
  | _ => none

theorem unbits_bits (a b c : UInt8) : unbits (bits a b c) = [a, b, c] := by
  have ha := a.toNat_lt
  have hb := b.toNat_lt
  have hc := c.toNat_lt
  simp only [unbits, bits, List.cons.injEq, ← UInt8.toNat_inj, UInt8.toNat_ofNat', and_true]
  omega

theorem decodeGroup_letters {v : Nat} (h : v < 16777216) :
    decodeGroup (letter (v / 262144)) (letter (v / 4096)) (letter (v / 64)) (letter v) =
    some (unbits v) := by
  have hv : v / 262144 % 64 * 262144 + v / 4096 % 64 * 4096 + v / 64 % 64 * 64 + v % 64 = v := by
    omega
  simp only [decodeGroup, value_letter, Option.bind_eq_bind, Option.bind_some, hv]

theorem bits_lt (a b c : UInt8) : bits a b c < 16777216 := by
  have ha := a.toNat_lt
  have hb := b.toNat_lt
  have hc := c.toNat_lt
  simp only [bits]
  omega

theorem decode_encode (l : List UInt8) : decode (encode l) = some l := by
  induction l using encode.induct
  case case1 => rfl
  case case2 a =>
    have h := decodeGroup_letters (bits_lt a 0 0)
    have h₂ : letter (bits a 0 0 / 64) = letter 0 := letter_of_mod (by simp [bits]; omega)
    have h₃ : letter (bits a 0 0) = letter 0 := letter_of_mod (by simp [bits]; omega)
    rw [unbits_bits, h₂, h₃] at h
    simp [encode, decode, h]
  case case3 a b =>
    have h := decodeGroup_letters (bits_lt a b 0)
    have h₃ : letter (bits a b 0) = letter 0 := letter_of_mod (by simp [bits]; omega)
    rw [unbits_bits, h₃] at h
    simp [encode, decode, letter_ne_pad, h]
  case case4 a b c l hi =>
    have h := decodeGroup_letters (bits_lt a b c)
    rw [unbits_bits] at h
    simp [encode, decode, letter_ne_pad, h, hi]

theorem encode_length (l : List UInt8) : (encode l).length = 4 * ((l.length + 2) / 3) := by
  induction l using encode.induct
  case case1            => rfl
  case case2 a          => simp [encode]
  case case3 a b        => simp [encode]
  case case4 a b c l hi =>
    simp only [encode, List.length_append, List.length_cons, List.length_nil, hi]
    omega

end Base64
