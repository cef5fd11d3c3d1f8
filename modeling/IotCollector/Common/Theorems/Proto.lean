import IotCollector.Common.Proto

namespace IotCollector

open Bytes

@[simp]
theorem frameNtoh_frameHton (f : EnvFrame) : frameNtoh (frameHton f) = f := by
  simp [frameNtoh, frameHton]

@[simp]
theorem frameHton_frameNtoh (f : EnvFrame) : frameHton (frameNtoh f) = f := by
  simp [frameNtoh, frameHton]

theorem frameMagicOk_iff {b : List UInt8} (h : envFrameWireSize ≤ b.length) :
    frameMagicOk b ↔ (EnvFrame.ofBytes b).magic = (frameMagic₀, frameMagic₁) := by
  simp [frameMagicOk, EnvFrame.ofBytes, Nat.not_lt.mpr h]

theorem frameCrcOk_iff {f : EnvFrame} :
    frameCrcOk f ↔ f.magic = (frameMagic₀, frameMagic₁) ∧ frameCrc f = ntohs f.crc16 := by
  rw [frameCrcOk, Prod.ext_iff]
  split
  case isTrue h =>
    have hn : ¬(f.magic.1 = frameMagic₀ ∧ f.magic.2 = frameMagic₁) := not_and_or.mpr h
    simp only [hn, false_and, Bool.false_eq_true]
  case isFalse h =>
    have ⟨h₀, h₁⟩ := not_or.mp h
    simp only [not_not.mp h₀, not_not.mp h₁, and_self, true_and, beq_iff_eq]

theorem take_bytes_crc16 (f : EnvFrame) (c : UInt16) :
    { f with crc16 := c }.bytes.take envFrameCrcSize = f.bytes.take envFrameCrcSize := by
  simp [EnvFrame.bytes, envFrameCrcSize, le16, le32]

theorem frameCrc_eq (f : EnvFrame) : frameCrc f = crc16Ccitt (f.bytes.take envFrameCrcSize) := by
  rw [frameCrc, take_bytes_crc16]

theorem frameCrc_crc16 (f : EnvFrame) (c : UInt16) :
    frameCrc { f with crc16 := c } = frameCrc f := by
  rw [frameCrc, frameCrc]

theorem frameCrcOk_frameFillCrc {f : EnvFrame} (h : f.magic = (frameMagic₀, frameMagic₁)) :
    frameCrcOk (frameFillCrc f) := by
  rw [frameFillCrc, frameCrcOk_iff, frameCrc_crc16 f (htons (frameCrc f))]
  exact ⟨h, (swap16_swap16 _).symm⟩

theorem frameDecode_eq_ok_iff {b : List UInt8} {g : EnvFrame} :
    frameDecode b = .ok g ↔
    envFrameWireSize ≤ b.length ∧ frameCrcOk (EnvFrame.ofBytes b) ∧
    g = frameNtoh (EnvFrame.ofBytes b) := by
  rw [frameDecode]
  split
  case isTrue h => simp [Nat.not_le.mpr h]
  case isFalse h =>
    have hl : envFrameWireSize ≤ b.length := Nat.not_lt.mp h
    by_cases hc : frameCrcOk (EnvFrame.ofBytes b)
    case pos =>
      have hm := (frameMagicOk_iff hl).mpr (frameCrcOk_iff.mp hc).left
      simp [hc, hm, hl, eq_comm]
    case neg => simp [hc]

theorem frameDecode_bytes_eq_ok_iff {f g : EnvFrame} :
    frameDecode f.bytes = .ok g ↔ frameCrcOk f ∧ g = frameNtoh f := by
  simp [frameDecode_eq_ok_iff]

-- The header fields that `frame_encode` fills in.
def EnvFrame.stamped (f : EnvFrame) : EnvFrame :=
  { f with
    magic   := (frameMagic₀, frameMagic₁)
    version := if f.version = 0 then 1 else f.version }

theorem frameEncode_eq {f : EnvFrame} {n : Nat} (h : envFrameWireSize ≤ n) :
    frameEncode f n = some (frameFillCrc f.stamped).bytes := by
  rw [frameEncode, if_neg (Nat.not_lt.mpr h)]
  by_cases hv : f.version = 0 <;> simp [EnvFrame.stamped, hv]

theorem frameDecode_frameFillCrc (f : EnvFrame) :
    frameDecode (frameFillCrc f.stamped).bytes = .ok (frameNtoh (frameFillCrc f.stamped)) :=
  frameDecode_bytes_eq_ok_iff.mpr ⟨frameCrcOk_frameFillCrc rfl, rfl⟩

theorem frameFillCrc_stamped {f : EnvFrame} (h : frameCrcOk f) (hv : f.version ≠ 0) :
    frameFillCrc f.stamped = f := by
  have ⟨hm, hc⟩ := frameCrcOk_iff.mp h
  have hs : f.stamped = f := by simp [EnvFrame.stamped, hv, ← hm]
  rw [hs, frameFillCrc, hc, htons, ntohs, swap16_swap16]

theorem frameEncode_of_frameDecode {b : List UInt8} {g : EnvFrame} {n : Nat}
    (h : frameDecode b = .ok g) (hv : b.getD 2 0 ≠ 0) (hn : envFrameWireSize ≤ n) :
    frameEncode (frameHton g) n = some (b.take envFrameWireSize) := by
  have ⟨hl, hc, hg⟩ := frameDecode_eq_ok_iff.mp h
  rw [frameEncode_eq hn, hg, frameHton_frameNtoh, frameFillCrc_stamped hc hv,
    EnvFrame.bytes_ofBytes hl]

end IotCollector
