import IotCollector.Lib.Base64
import IotCollector.Lib.Memory
import IotCollector.Tools.Upload

namespace IotCollector

open Memory

variable {outCap o : Nat} {a b c : UInt8} {input : List UInt8} {out : Nat → UInt8}

theorem b64Bits_toNat (a b c : UInt8) :
    ((a.toUInt32 <<< 16) ||| (b.toUInt32 <<< 8) ||| c.toUInt32).toNat = Base64.bits a b c := by
  have ha := a.toNat_lt
  have hb := b.toNat_lt
  have hc := c.toNat_lt
  have h₁ : 2 ^ 16 * a.toNat + b.toNat * 256 = 2 ^ 16 * a.toNat ||| b.toNat * 256 :=
    Nat.two_pow_add_eq_or_of_lt (by omega) _
  have h₂ : 2 ^ 8 * (a.toNat * 256 + b.toNat) + c.toNat =
      2 ^ 8 * (a.toNat * 256 + b.toNat) ||| c.toNat :=
    Nat.two_pow_add_eq_or_of_lt (by omega) _
  have h₃ : (a.toUInt32 <<< 16).toNat = 2 ^ 16 * a.toNat := by
    simp [Nat.shiftLeft_eq]
    omega
  have h₄ : (b.toUInt32 <<< 8).toNat = b.toNat * 256 := by
    simp [Nat.shiftLeft_eq]
    omega
  have h₅ : 2 ^ 16 * a.toNat + b.toNat * 256 = 2 ^ 8 * (a.toNat * 256 + b.toNat) := by omega
  rw [UInt32.toNat_or, UInt32.toNat_or, h₃, h₄, ← h₁, h₅, UInt8.toNat_toUInt32, ← h₂, Base64.bits]
  omega

theorem b64Tbl_getD (k : UInt32) : b64Tbl.getD (k &&& 63).toNat 0 = Base64.letter k.toNat := by
  have hk : (k &&& 63).toNat = k.toNat % 64 := Nat.and_two_pow_sub_one_eq_mod k.toNat 6
  rw [hk]
  rfl

theorem b64Loop_nil : b64Loop outCap [] o out = (some o, out) := by
  rw [b64Loop, dif_neg (by simp)]

def b64Group (input : List UInt8) : List UInt8 :=
  let v := Base64.bits (input.getD 0 0) (input.getD 1 0) (input.getD 2 0)
  [Base64.letter (v / 262144), Base64.letter (v / 4096),
    if input.length > 1 then Base64.letter (v / 64) else Base64.pad,
    if input.length > 2 then Base64.letter v else Base64.pad]

theorem b64Group_append (h : input ≠ []) :
    b64Group input ++ Base64.encode (input.drop 3) = Base64.encode input := by
  match input with
  | []               => contradiction
  | [a]              => simp [b64Group, Base64.encode]
  | [a, b]           => simp [b64Group, Base64.encode]
  | a :: b :: c :: l => simp [b64Group, Base64.encode]

theorem b64Loop_of_ne_nil (h : input ≠ []) (outCap o : Nat) (out : Nat → UInt8) :
    b64Loop outCap input o out =
    if o + 4 ≥ outCap
    then (none, out)
    else b64Loop outCap (input.drop 3) (o + 4) (blit out o (b64Group input)) := by
  have hb (k : Nat) : (if input.length > k then (input.getD k 0).toUInt32 else 0) =
      (input.getD k 0).toUInt32 := by
    split
    case isTrue     => rfl
    case isFalse hk => simp [List.getD_eq_getElem?_getD, Nat.not_lt.mp hk]
  have hd : (if input.length ≤ 3 then [] else
      input.drop (if input.length > 3 then 3 else input.length)) = input.drop 3 := by
    split
    case isTrue hl  => rw [List.drop_eq_nil_of_le hl]
    case isFalse hl => rw [if_pos (Nat.not_le.mp hl)]
  have hs (v : UInt32) (i : UInt32) : b64Tbl.getD ((v >>> i) &&& 63).toNat 0 =
      Base64.letter (v.toNat / 2 ^ (i.toNat % 32)) := by
    rw [b64Tbl_getD, UInt32.toNat_shiftRight, Nat.shiftRight_eq_div_pow]
  rw [b64Loop, dif_pos (List.length_pos_iff.mpr h)]
  simp only [hb, hd, hs, b64Tbl_getD, b64Bits_toNat]
  rfl

theorem b64Loop_spec (outCap : Nat) (input : List UInt8) (o : Nat) (out : Nat → UInt8) :
    (o + (Base64.encode input).length < outCap ∨ input = [] →
      b64Loop outCap input o out =
        (some (o + (Base64.encode input).length), blit out o (Base64.encode input))) ∧
    (outCap ≤ o + (Base64.encode input).length → input ≠ [] →
      ∃ l, b64Loop outCap input o out = (none, blit out o l) ∧ (l = [] ∨ o + l.length < outCap)) := by
  by_cases hn : input = []
  case pos =>
    subst hn
    exact ⟨fun _ => b64Loop_nil, fun _ h => absurd rfl h⟩
  case neg =>
    have hi := b64Loop_spec outCap (input.drop 3) (o + 4) (blit out o (b64Group input))
    have hg : (b64Group input).length = 4 := rfl
    have he := b64Group_append hn
    have ha (l : List UInt8) : blit out o (b64Group input ++ l) =
        blit (blit out o (b64Group input)) (o + 4) l := blit_append
    rw [b64Loop_of_ne_nil hn, ← he, List.length_append, hg, ← Nat.add_assoc]
    refine ⟨fun hc => ?_, fun hc _ => ?_⟩
    · have hc := hc.resolve_right hn
      rw [if_neg (by omega), hi.left (.inl hc), ha]
    · by_cases ho : o + 4 ≥ outCap
      case pos => exact ⟨[], if_pos ho, .inl rfl⟩
      case neg =>
        have hr : input.drop 3 ≠ [] := by
          intro hr
          rw [hr, Base64.encode, List.length_nil] at hc
          omega
        obtain ⟨l, hl, hb⟩ := hi.right hc hr
        refine ⟨b64Group input ++ l, by rw [if_neg ho, hl, ha], .inr ?_⟩
        rw [List.length_append, hg]
        rcases hb with rfl | hb
        · simp only [List.length_nil]
          omega
        · omega
termination_by input.length
decreasing_by
  have := List.length_pos_iff.mpr hn
  rw [List.length_drop]
  omega

theorem b64Encode_of_lt (h : 4 * ((input.length + 2) / 3) < outCap) (out : Nat → UInt8) :
    b64Encode input out outCap =
    (Int32.ofNat (4 * ((input.length + 2) / 3)),
      Function.update (blit out 0 (Base64.encode input)) (4 * ((input.length + 2) / 3)) 0) := by
  have hl := (b64Loop_spec outCap input 0 out).left
  rw [Nat.zero_add, Base64.encode_length] at hl
  rw [b64Encode, hl (.inl h)]

theorem b64Encode_of_le (h : input ≠ []) (hc : outCap ≤ 4 * ((input.length + 2) / 3))
    (out : Nat → UInt8) :
    ∃ l, b64Encode input out outCap = (-1, blit out 0 l) ∧ (l = [] ∨ l.length < outCap) := by
  have ⟨l, hl, hb⟩ := (b64Loop_spec outCap input 0 out).right
    (by rwa [Nat.zero_add, Base64.encode_length]) h
  rw [Nat.zero_add] at hb
  exact ⟨l, by rw [b64Encode, hl], hb⟩

-- Where the capacity does not exceed the length of the text, the call fails. Where it does, the text
-- and its terminator are written. The bytes behind the capacity stay as they are.
theorem b64Encode_spec (h : input ≠ []) (out : Nat → UInt8) (outCap : Nat) :
    let n := 4 * ((input.length + 2) / 3)
    let r := b64Encode input out outCap
    (outCap ≤ n → r.fst = -1) ∧
    (n < outCap → r.fst = Int32.ofNat n ∧ (List.range n).map r.snd = Base64.encode input ∧
      r.snd n = 0) ∧
    Base64.decode (Base64.encode input) = some input ∧
    ∀ k, outCap ≤ k → r.snd k = out k := by
  dsimp only
  by_cases hc : 4 * ((input.length + 2) / 3) < outCap
  case pos =>
    have hm := map_blit (m := out) (o := 0) (l := Base64.encode input)
    rw [Base64.encode_length] at hm
    simp only [Nat.zero_add] at hm
    rw [b64Encode_of_lt hc]
    refine ⟨fun hl => absurd hc <| Nat.not_lt.mpr hl, fun _ => ⟨rfl, ?_, ?_⟩,
      Base64.decode_encode _, ?_⟩
    · refine (List.map_congr_left fun k hk => ?_).trans hm
      exact Function.update_of_ne (Nat.ne_of_lt <| List.mem_range.mp hk) _ _
    · exact Function.update_self ..
    · intro k hk
      have hl : 0 + (Base64.encode input).length ≤ k := by
        rw [Base64.encode_length]
        omega
      exact (Function.update_of_ne (by omega) _ _).trans <| blit_of_le hl
  case neg =>
    have hc := Nat.not_lt.mp hc
    have ⟨l, he, hb⟩ := b64Encode_of_le h hc out
    rw [he]
    refine ⟨fun _ => rfl, fun hl => absurd hc <| Nat.not_le.mpr hl, Base64.decode_encode _, ?_⟩
    intro k hk
    rcases hb with rfl | hb
    · rfl
    · exact blit_of_le (by omega)

theorem b64Encode_spec_user :
    (List.range 8).map (b64Encode [117, 115, 101, 114, 58] (fun _ => 0) 760).snd =
    Base64.encode [117, 115, 101, 114, 58] :=
  (@b64Encode_spec [117, 115, 101, 114, 58] (by decide) (fun _ => 0) 760).right.left (by decide)
    |>.right.left

end IotCollector
