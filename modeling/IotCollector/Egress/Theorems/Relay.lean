import IotCollector.Common.Theorems.Proto
import IotCollector.Egress.Dispatcher

namespace IotCollector

open Bytes Dispatcher

namespace Dispatcher

variable {f : EnvFrame} {w : List UInt8} {cfg : DispatcherCfg} {d : Dispatcher} {io : DispatchIo}

theorem dispatchOneSends_snd : (d.dispatchOneSends cfg f io).snd = d.dispatchOne cfg f io := by
  unfold dispatchOneSends dispatchOne
  split
  case h_1 => rfl
  case h_2 =>
    by_cases hf : d.mcastFd ≥ 0
    case neg => simp only [hf, if_false, false_and]; split <;> rfl
    case pos => simp only [hf, if_true, true_and]; split <;> split <;> rfl

def relayed (cfg : DispatcherCfg) (d : Dispatcher) (w : List UInt8) : List Outgoing :=
  (if 0 ≤ d.mcastFd then [.mcast d.mcastFd w] else []) ++
  (if cfg.platformIp ≠ none ∧ 0 ≤ d.unicastFd ∧ d.link.online then [.unicast d.unicastFd w] else [])

theorem dispatchOneSends_fst (h : frameEncode (frameHton f) envFrameWireSize = some w)
    (hw : w.length = envFrameWireSize) :
    (d.dispatchOneSends cfg f io).fst = d.relayed cfg w := by
  have hn : w.length ≠ 0 := by rw [hw]; decide
  have hm (hf : 0 ≤ d.mcastFd) : mcastSends d.mcastFd w = [.mcast d.mcastFd w] :=
    if_neg <| not_or.mpr ⟨Int.not_lt.mpr hf, hn⟩
  have hu (hf : 0 ≤ d.unicastFd) : unicastSends d.unicastFd w = [.unicast d.unicastFd w] :=
    if_neg <| not_or.mpr ⟨Int.not_lt.mpr hf, hn⟩
  have hd : (d.dispatchOneSends cfg f io).fst =
      (if 0 ≤ d.mcastFd then mcastSends d.mcastFd w else []) ++
      (if cfg.platformIp ≠ none ∧ 0 ≤ d.unicastFd ∧ d.link.online then unicastSends d.unicastFd w
       else []) := by
    simp only [dispatchOneSends, h, ge_iff_le]
    cases cfg.platformIp <;> by_cases hf : 0 ≤ d.mcastFd <;>
      by_cases hs : mcastSenderSend d.mcastFd w io = .ok <;> simp [hf, hs]
  rw [hd, relayed]
  split <;> split <;> simp_all

end Dispatcher

-- Encoder and decoder are inverse to each other, up to the fields that the encoder fills in.
theorem frame_codec :
    (∀ f n, envFrameWireSize ≤ n → ∃ w g,
      frameEncode (frameHton f) n = some w ∧ w.length = envFrameWireSize ∧ frameDecode w = .ok g ∧
      g = { f with
            magic   := (frameMagic₀, frameMagic₁)
            version := if f.version = 0 then 1 else f.version
            crc16   := g.crc16 }) ∧
    (∀ b g, frameDecode b = .ok g → b.getD 2 0 ≠ 0 →
      frameEncode (frameHton g) envFrameWireSize = some (b.take envFrameWireSize) ∧
      ∀ cfg (d : Dispatcher) (io : DispatchIo),
        d.dispatchOneSends cfg g io =
        (d.relayed cfg (b.take envFrameWireSize), d.dispatchOne cfg g io)) ∧
    (∀ w, w.length = envFrameWireSize →
      ((∃ g, frameDecode w = .ok g) ∧ w.getD 2 0 ≠ 0 ↔
       ∃ f, frameEncode (frameHton f) envFrameWireSize = some w)) := by
  refine ⟨fun f n hn => ?decode, fun b g h hv => ?encode, fun w hl => ?image⟩
  case decode =>
    refine ⟨_, _, frameEncode_eq hn, rfl, frameDecode_frameFillCrc _, ?_⟩
    simp [frameNtoh, frameFillCrc, EnvFrame.stamped, frameHton]
    rfl
  case encode =>
    have he := frameEncode_of_frameDecode h hv (Nat.le_refl _)
    refine ⟨he, fun cfg d io => Prod.ext ?_ dispatchOneSends_snd⟩
    refine dispatchOneSends_fst he ?_
    rw [frameEncode_eq (Nat.le_refl _)] at he
    exact Option.some.inj he ▸ EnvFrame.bytes_length _
  case image =>
    constructor
    case mp =>
      rintro ⟨⟨g, h⟩, hv⟩
      refine ⟨g, ?_⟩
      rw [frameEncode_of_frameDecode h hv (Nat.le_refl _), List.take_of_length_le hl.le]
    case mpr =>
      rintro ⟨f, h⟩
      rw [frameEncode_eq (Nat.le_refl _)] at h
      cases h
      refine ⟨⟨_, frameDecode_frameFillCrc _⟩, ?_⟩
      change (frameHton f).stamped.version ≠ 0
      simp only [EnvFrame.stamped]
      split
      case isTrue  => decide
      case isFalse => assumption

theorem frame_codec_zero :
    ∃ w g, frameEncode (frameHton EnvFrame.zero) envFrameWireSize = some w ∧
      frameDecode w = .ok g ∧ g.version = 1 :=
  have ⟨w, g, hw, _, hg, he⟩ := frame_codec.left EnvFrame.zero _ (Nat.le_refl _)
  ⟨w, g, hw, hg, by rw [he]; rfl⟩

end IotCollector
