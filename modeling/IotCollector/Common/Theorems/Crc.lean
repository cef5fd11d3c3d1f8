import IotCollector.Common.Theorems.Proto
import IotCollector.Lib.Crc

namespace IotCollector

open Bytes

def byteBits (b : UInt8) : List Bool :=
  (List.range 8).map b.toBitVec.getMsbD

def bits (bs : List UInt8) : List Bool :=
  bs.flatMap byteBits

def crcPoly : BitVec 16 :=
  0x1021

variable {bs cs : List UInt8} {b c : UInt8} {s : UInt16}

@[simp]
theorem byteBits_length (b : UInt8) : (byteBits b).length = 8 := by
  simp [byteBits]

@[simp]
theorem bits_length (bs : List UInt8) : (bits bs).length = 8 * bs.length := by
  simp [bits, List.length_flatMap, Nat.mul_comm]

theorem byteBits_xor (b c : UInt8) : byteBits (b ^^^ c) = (byteBits b).zipWith xor (byteBits c) := by
  simp [byteBits, List.zipWith_map_left, List.zipWith_map_right, List.zipWith_self]

theorem bits_zipWith (h : bs.length = cs.length) :
    bits (bs.zipWith (· ^^^ ·) cs) = (bits bs).zipWith xor (bits cs) := by
  induction bs generalizing cs
  case nil => cases cs <;> simp_all [bits]
  case cons b bs hi =>
    cases cs
    case nil => simp at h
    case cons c cs =>
      have hi := hi <| Nat.succ.inj h
      simp only [bits, List.flatMap_cons, List.zipWith_cons_cons] at *
      rw [List.zipWith_append (by simp), hi, byteBits_xor]

theorem crcBit_toBitVec (s : UInt16) : (crcBit s).toBitVec = Crc.shift crcPoly s.toBitVec := by
  have h₁ : (0x8000 : UInt16).toBitVec = BitVec.twoPow 16 15 := rfl
  have ha : (s &&& 0x8000).toBitVec = if s.toBitVec.msb then BitVec.twoPow 16 15 else 0#16 := by
    rw [UInt16.toBitVec_and, h₁, BitVec.and_twoPow, BitVec.msb_eq_getLsbD_last]
  have hm : s &&& 0x8000 ≠ 0 ↔ s.toBitVec.msb = true := by
    rw [Ne, ← UInt16.toBitVec_inj, ha]
    cases s.toBitVec.msb <;> decide
  rw [crcBit, Crc.shift, apply_ite UInt16.toBitVec]
  simp only [hm]
  rfl

theorem iterate_crcBit_toBitVec (s : UInt16) (n : Nat) :
    (crcBit^[n] s).toBitVec = (Crc.shift crcPoly)^[n] s.toBitVec :=
  Function.Semiconj.iterate_right crcBit_toBitVec n s

theorem pack_byteBits (b : UInt8) : Crc.pack (byteBits b) = b.toBitVec.setWidth 16 <<< 8 := by
  have h : ∀ b : BitVec 8, Crc.pack ((List.range 8).map b.getMsbD) = b.setWidth 16 <<< 8 := by
    decide +kernel
  exact h b.toBitVec

theorem crcByte_toBitVec (s : UInt16) (b : UInt8) :
    (crcByte s b).toBitVec = Crc.run crcPoly s.toBitVec (byteBits b) := by
  rw [Crc.run_eq_pack (by simp), byteBits_length, pack_byteBits, crcByte, iterate_crcBit_toBitVec]
  rfl

theorem foldl_crcByte_toBitVec (s : UInt16) (bs : List UInt8) :
    (bs.foldl crcByte s).toBitVec = Crc.run crcPoly s.toBitVec (bits bs) := by
  induction bs generalizing s
  case nil => rfl
  case cons b bs hi =>
    rw [List.foldl_cons, hi, crcByte_toBitVec, ← Crc.run_append]
    rfl

theorem pack_bits (b c : UInt8) : Crc.pack (bits [b, c]) = (ofLe16 c b).toBitVec := by
  have hb : bits [b, c] = byteBits b ++ byteBits c := by simp [bits]
  have ho : (ofLe16 c b).toBitVec = b.toBitVec ++ c.toBitVec := by
    have h₁ := b.toNat_lt
    have h₂ := c.toNat_lt
    refine BitVec.eq_of_toNat_eq ?_
    rw [BitVec.toNat_append, ← Nat.shiftLeft_add_eq_or_of_lt c.toBitVec.isLt, Nat.shiftLeft_eq]
    simp [ofLe16]
    omega
  rw [hb, ho]
  refine BitVec.eq_of_getMsbD_eq fun i hi => ?_
  rw [Crc.getMsbD_pack _ (Nat.le_of_lt_succ hi), BitVec.getMsbD_append]
  by_cases h : i < 8
  case pos => simp [byteBits, h, List.getElem?_append, Nat.not_le.mpr h]
  case neg =>
    have h' : i - 8 < 8 := by omega
    simp [byteBits, h, h', List.getElem?_append, Nat.not_lt.mp h]

-- The check over a whole frame. Its last two bytes are the remainder of the others.
theorem frameDecode_isOk_iff {b : List UInt8} (h : b.length = envFrameWireSize) :
    (∃ g, frameDecode b = .ok g) ↔
    (EnvFrame.ofBytes b).magic = (frameMagic₀, frameMagic₁) ∧
    Crc.run crcPoly 0xffff (bits b) = 0#16 := by
  have hd : b = b.take 26 ++ [b.getD 26 0, b.getD 27 0] := by
    have hl : 26 ≤ b.length := h ▸ by decide
    conv_lhs => rw [← List.take_of_length_le h.le, take_eq_map_getD 0 h.ge]
    rw [take_eq_map_getD 0 hl]
    rfl
  have hc : frameCrc (EnvFrame.ofBytes b) = crc16Ccitt (b.take 26) := by
    rw [frameCrc_eq, EnvFrame.bytes_ofBytes h.ge, List.take_take]
    rfl
  have hf : ntohs (EnvFrame.ofBytes b).crc16 = ofLe16 (b.getD 27 0) (b.getD 26 0) :=
    swap16_ofLe16 ..
  have hr : Crc.run crcPoly 0xffff (bits b) = 0#16 ↔
      (crc16Ccitt (b.take 26)).toBitVec = Crc.pack (bits [b.getD 26 0, b.getD 27 0]) := by
    have hb : bits b = bits (b.take 26) ++ bits [b.getD 26 0, b.getD 27 0] := by
      conv_lhs => rw [hd]
      exact List.flatMap_append
    rw [hb, Crc.run_append, Crc.run_eq_zero_iff rfl (by simp), crc16Ccitt, foldl_crcByte_toBitVec]
    rfl
  rw [hr, pack_bits, UInt16.toBitVec_inj, ← hc, ← hf, ← frameCrcOk_iff]
  simp [frameDecode_eq_ok_iff, h]

theorem iterate_shift_lead {n : Nat} (h₀ : 0 < n) (h : n < 8 * envFrameWireSize) :
    (Crc.shift crcPoly)^[n] (Crc.lead true) ≠ Crc.lead true := by
  have hf : ∀ n : Fin 224, 0 < n.val → (Crc.shift crcPoly)^[n.val] (Crc.lead true) ≠ Crc.lead true := by
    decide +kernel
  exact hf ⟨n, h⟩ h₀

-- An odd number of wrong bits, two of them, or some within sixteen that follow one another.
def Detectable (es : List Bool) : Prop :=
  es.count true % 2 = 1 ∨ es.count true = 2 ∨
  true ∈ es ∧ ∃ k, ∀ i, es[i]? = some true → k ≤ i ∧ i < k + 16

theorem run_ne_zero_of_detectable {es : List Bool} (hl : es.length = 8 * envFrameWireSize)
    (h : Detectable es) : Crc.run crcPoly 0#16 es ≠ 0#16 := by
  rcases h with h | h | ⟨h, k, hk⟩
  case inl => exact Crc.run_ne_zero_of_odd (by decide) h
  case inr.inl =>
    exact Crc.run_ne_zero_of_two rfl h fun n h₀ hn => iterate_shift_lead h₀ (hl ▸ hn)
  case inr.inr => exact Crc.run_ne_zero_of_burst rfl h k hk

theorem frameDecode_corrupted (w e : List UInt8) (g : EnvFrame) (hw : w.length = envFrameWireSize)
    (he : e.length = envFrameWireSize) (hd : frameDecode w = .ok g) (h : Detectable (bits e)) :
    ∃ err, frameDecode (w.zipWith (· ^^^ ·) e) = .error err := by
  cases hc : frameDecode (w.zipWith (· ^^^ ·) e)
  case error err => exact ⟨err, rfl⟩
  case ok g' =>
    have hl : (w.zipWith (· ^^^ ·) e).length = envFrameWireSize := by simp [hw, he]
    have h₁ := (frameDecode_isOk_iff hw).mp ⟨g, hd⟩ |>.right
    have h₂ := (frameDecode_isOk_iff hl).mp ⟨g', hc⟩ |>.right
    have hb : (bits w).length = (bits e).length := by simp [hw, he]
    have hx := Crc.run_zipWith crcPoly 0xffff 0#16 hb
    rw [BitVec.xor_zero, ← bits_zipWith (hw.trans he.symm), h₁, h₂, BitVec.zero_xor] at hx
    exact absurd hx.symm <| run_ne_zero_of_detectable (by simp [he]) h

-- Two bits of the temperature, and a burst from the noise level into the CRC.
theorem frameDecode_corrupted_zero :
    (∃ err, frameDecode ((frameFillCrc EnvFrame.zero.stamped).bytes.zipWith (· ^^^ ·)
      (List.replicate 14 0 ++ [0x41] ++ List.replicate 13 0)) = .error err) ∧
    ∃ err, frameDecode ((frameFillCrc EnvFrame.zero.stamped).bytes.zipWith (· ^^^ ·)
      (List.replicate 25 0 ++ [0x07, 0x80, 0])) = .error err := by
  refine ⟨frameDecode_corrupted _ _ _ rfl rfl (frameDecode_frameFillCrc _) (.inr <| .inl (by decide)),
    frameDecode_corrupted _ _ _ rfl rfl (frameDecode_frameFillCrc _) (.inr <| .inr ⟨by decide, 205, ?_⟩)⟩
  intro i hi
  have hl := (List.getElem?_eq_some_iff.mp hi).fst
  have hb : ∀ i < 224, (bits (List.replicate 25 0 ++ [0x07, 0x80, 0]))[i]? = some true →
      205 ≤ i ∧ i < 205 + 16 := by decide +kernel
  exact hb i (by simpa using hl) hi

end IotCollector
