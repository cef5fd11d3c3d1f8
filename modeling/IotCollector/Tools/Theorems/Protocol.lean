import IotCollector.Common.Theorems.Proto
import IotCollector.Tools.FrameDecoder
import IotCollector.Tools.StationSim

namespace IotCollector

open Bytes

-- The fields which the decoding of the collector gives. It leaves the CRC in network order.
def decodedOf (f : EnvFrame) : DecodedFrame where
  version   := f.version
  frameType := f.frameType
  sid       := f.stationId
  tsS       := f.timestampSec
  tsMs      := f.timestampMs
  temp      := f.temperature
  hum       := f.humidity
  pm25      := f.pm25
  pm10      := f.pm10
  co        := f.coPpb
  noise     := f.noiseDb
  crcR      := ntohs f.crc16
  crcCalc   := ntohs f.crc16

theorem frameCrc_ofBytes {raw : List UInt8} (h : envFrameWireSize ≤ raw.length) :
    frameCrc (.ofBytes raw) = crc16Ccitt (raw.take envFrameCrcSize) := by
  rw [frameCrc_eq, EnvFrame.bytes_ofBytes h, List.take_take]
  rfl

theorem decodeFrame_spec {raw : List UInt8} (c : DecoderCounts) (h : envFrameWireSize ≤ raw.length) :
    (∃ f, frameDecode raw = .ok f ∧ (decodeFrame c raw).fst.crcOk = c.crcOk + 1 ∧
      (decodeFrame c raw).snd = some (decodedOf f)) ∨
    (∀ f, frameDecode raw ≠ .ok f) ∧ (decodeFrame c raw).fst.crcOk = c.crcOk := by
  simp only [ne_eq, frameDecode_eq_ok_iff, h, true_and, not_and]
  rw [frameCrcOk_iff, frameCrc_ofBytes h, Prod.ext_iff, decodeFrame, if_neg (Nat.not_lt.mpr h)]
  by_cases hm : (EnvFrame.ofBytes raw).magic.1 ≠ frameMagic₀ ∨
      (EnvFrame.ofBytes raw).magic.2 ≠ frameMagic₁
  case pos =>
    refine .inr ⟨fun f hf => absurd hf.left <| not_and_or.mpr hm, ?_⟩
    simp only [if_pos hm]
  case neg =>
    have ⟨h₀, h₁⟩ := not_or.mp hm
    simp only [if_neg hm]
    by_cases hc : crc16Ccitt (raw.take envFrameCrcSize) = ntohs (EnvFrame.ofBytes raw).crc16
    case pos =>
      refine .inl ⟨_, ⟨⟨⟨not_not.mp h₀, not_not.mp h₁⟩, hc⟩, rfl⟩, ?_, ?_⟩
      · simp only [if_pos hc]
      · rw [hc]
        rfl
    case neg => exact .inr ⟨fun f hf => absurd hf.right hc, by simp only [if_neg hc]⟩

theorem decodeFrame_crcOk_iff {raw : List UInt8} (c : DecoderCounts)
    (h : envFrameWireSize ≤ raw.length) :
    (decodeFrame c raw).fst.crcOk = c.crcOk + 1 ↔ ∃ f, frameDecode raw = .ok f := by
  rcases decodeFrame_spec c h with ⟨f, hf, hc, _⟩ | ⟨hn, hc⟩
  case inl => exact iff_of_true hc ⟨f, hf⟩
  case inr => exact iff_of_false (by simp [hc]) fun ⟨f, hf⟩ => hn f hf

theorem simFillCrc_eq (f : EnvFrame) : simFillCrc f = frameFillCrc f := by
  rw [simFillCrc, frameFillCrc, frameCrc_eq]

def hostFrame (p : StationProfile) (s : Sample) (ftype : UInt8) : EnvFrame where
  magic        := (frameMagic₀, frameMagic₁)
  version      := 1
  frameType    := ftype
  stationId    := p.stationId
  timestampSec := .ofInt s.ts.tvSec
  timestampMs  := .ofInt (s.ts.tvNsec.tdiv 1000000)
  temperature  := s.temp
  humidity     := s.hum
  pm25         := clampedAdd p.basePm25  (s.pm25 % 20 - 10 : Int) 999
  pm10         := clampedAdd p.basePm10  (s.pm10 % 30 - 15 : Int) 999
  coPpb        := clampedAdd p.baseCo    (s.co % 50 - 25 : Int) 5000
  noiseDb      := clampedAdd p.baseNoise (s.noise % 40 - 20 : Int) 1500
  crc16        := 0

inductive Anomaly
  | overflow (field : Nat)
  | spike
  | duplicate
  | late

def anomaly (r field : Nat) : Option Anomaly :=
  if r % 100 < 90      then none
  else if r % 100 < 93 then some (.overflow (field % 5))
  else if r % 100 < 96 then some .spike
  else if r % 100 < 98 then some .duplicate
  else some .late

def Anomaly.apply (p : StationProfile) (f : EnvFrame) : Anomaly → EnvFrame
  | .overflow 0 => { f with pm25        := 65535 }
  | .overflow 1 => { f with pm10        := 65535 }
  | .overflow 2 => { f with temperature := -999 }
  | .overflow 3 => { f with humidity    := 65535 }
  | .overflow _ => { f with noiseDb     := 65535 }
  | .spike      => { f with pm25        := if p.basePm25 + 500 > 999 then 999 else p.basePm25 + 500 }
  | .late       => { f with timestampSec := f.timestampSec + 20 }
  | .duplicate  =>
    if p.hasLastFrame then
      let last := frameNtoh p.lastFrame
      { f with timestampSec := last.timestampSec, timestampMs := last.timestampMs }
    else
      f

theorem fillNormalFrame_eq (p : StationProfile) (s : Sample) (ftype : UInt8) :
    (fillNormalFrame p s ftype).fst = frameFillCrc (frameHton (hostFrame p s ftype)) := by
  rw [fillNormalFrame, simFillCrc_eq]
  rfl

theorem frameFillCrc_congr {f g : EnvFrame} (h : { f with crc16 := 0 } = { g with crc16 := 0 }) :
    frameFillCrc f = frameFillCrc g :=
  calc
    frameFillCrc f = frameFillCrc { f with crc16 := 0 } := rfl
    _              = frameFillCrc { g with crc16 := 0 } := congrArg _ h
    _              = frameFillCrc g                     := rfl

theorem autoInject_eq (f : EnvFrame) (p : StationProfile) (r field : Nat) :
    autoInject (frameFillCrc (frameHton f)) p r field =
    frameFillCrc (frameHton ((anomaly r field).elim f (·.apply p f))) := by
  simp only [autoInject, anomaly, simFillCrc_eq]
  split
  case isTrue => rfl
  case isFalse =>
    refine frameFillCrc_congr ?_
    split
    case isTrue =>
      rcases field % 5 with _ | _ | _ | _ | n <;> rfl
    case isFalse =>
      split
      case isTrue =>
        simp only [Option.elim_some, Anomaly.apply, frameHton, frameFillCrc]
      case isFalse =>
        split
        case isTrue =>
          simp only [Option.elim_some, Anomaly.apply]
          split
          case isTrue  => simp [frameFillCrc, frameHton, frameNtoh]
          case isFalse => rfl
        case isFalse => simp [frameFillCrc, frameHton, Anomaly.apply]

def nextHostFrame (p : StationProfile) (s : Sample) (ftype : UInt8) (r field : Nat) : EnvFrame :=
  let f := hostFrame p s ftype
  if ftype = frameNormal
  then (anomaly r field).elim f (·.apply (fillNormalFrame p s ftype).snd f)
  else f

theorem nextFrame_eq (p : StationProfile) (s : Sample) (ftype : UInt8) (r field : Nat) :
    (nextFrame p s ftype r field).fst =
    frameFillCrc (frameHton (nextHostFrame p s ftype r field)) := by
  have hf := fillNormalFrame_eq p s ftype
  simp only [nextFrame, nextHostFrame]
  split
  case isTrue  => rw [hf, autoInject_eq]
  case isFalse => exact hf

theorem Anomaly.apply_header (p : StationProfile) (f : EnvFrame) (a : Anomaly) :
    (a.apply p f).magic = f.magic ∧ (a.apply p f).version = f.version := by
  unfold Anomaly.apply
  split
  case h_8 => split <;> exact ⟨rfl, rfl⟩
  all_goals exact ⟨rfl, rfl⟩

theorem nextHostFrame_header (p : StationProfile) (s : Sample) (ftype : UInt8) (r field : Nat) :
    (nextHostFrame p s ftype r field).magic = (frameMagic₀, frameMagic₁) ∧
    (nextHostFrame p s ftype r field).version = 1 := by
  simp only [nextHostFrame]
  split
  case isFalse => exact ⟨rfl, rfl⟩
  case isTrue =>
    cases anomaly r field
    case none   => exact ⟨rfl, rfl⟩
    case some a => exact a.apply_header _ _

theorem nextHostFrame_stamped (p : StationProfile) (s : Sample) (ftype : UInt8) (r field : Nat) :
    (frameHton (nextHostFrame p s ftype r field)).stamped =
    frameHton (nextHostFrame p s ftype r field) := by
  have ⟨hm, hv⟩ := nextHostFrame_header p s ftype r field
  have hn : (1 : UInt8) ≠ 0 := by decide
  simp only [EnvFrame.stamped, frameHton, hv, if_neg hn, ← hm]

theorem frameNtoh_frameFillCrc (f : EnvFrame) :
    frameNtoh (frameFillCrc (frameHton f)) =
    { f with crc16 := (frameFillCrc (frameHton f)).crc16 } := by
  simp [frameNtoh, frameFillCrc, frameHton]

-- The diagnostic tool takes for sound what the collector decodes, and reads the same fields. The
-- simulator sends what the collector would encode, which the collector decodes.
theorem protocol_copies_agree :
    (∀ (c : DecoderCounts) (raw : List UInt8), envFrameWireSize ≤ raw.length →
      ((decodeFrame c raw).fst.crcOk = c.crcOk + 1 ↔ ∃ f, frameDecode raw = .ok f) ∧
      ∀ f, frameDecode raw = .ok f → (decodeFrame c raw).snd = some (decodedOf f)) ∧
    ∀ (p : StationProfile) (s : Sample) (ftype : UInt8) (r field n : Nat), envFrameWireSize ≤ n →
      let f := (nextFrame p s ftype r field).fst
      let h := nextHostFrame p s ftype r field
      frameEncode (frameHton h) n = some f.bytes ∧
      frameDecode f.bytes = .ok { h with crc16 := f.crc16 } := by
  refine ⟨fun c raw h => ⟨decodeFrame_crcOk_iff c h, fun f hf => ?_⟩, fun p s ftype r field n h => ?_⟩
  · rcases decodeFrame_spec c h with ⟨g, hg, _, hd⟩ | ⟨hn, _⟩
    case inl => cases hf.symm.trans hg; exact hd
    case inr => exact absurd hf (hn f)
  · have hs := nextHostFrame_stamped p s ftype r field
    dsimp only
    rw [frameEncode_eq h, hs, nextFrame_eq]
    have hd := frameDecode_frameFillCrc (frameHton (nextHostFrame p s ftype r field))
    rw [hs] at hd
    exact ⟨rfl, hd.trans <| congrArg Except.ok <| frameNtoh_frameFillCrc _⟩

-- A station whose temperature is out of range, in a buffer of the size of a frame.
theorem protocol_copies_agree_overflow :
    frameEncode (frameHton <| nextHostFrame (profileInit 7) ⟨⟨5, 0⟩, 215, 480, 3, 4, 5, 6⟩
      frameNormal 92 2) envFrameWireSize =
    some (nextFrame (profileInit 7) ⟨⟨5, 0⟩, 215, 480, 3, 4, 5, 6⟩ frameNormal 92 2).fst.bytes :=
  (protocol_copies_agree.right (profileInit 7) ⟨⟨5, 0⟩, 215, 480, 3, 4, 5, 6⟩ frameNormal 92 2
    envFrameWireSize (Nat.le_refl _)).left

end IotCollector
