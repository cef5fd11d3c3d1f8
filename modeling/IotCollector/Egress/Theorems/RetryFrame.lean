import IotCollector.Common.Theorems.Proto
import IotCollector.Egress.Dispatcher
import IotCollector.Egress.Theorems.Replay

namespace IotCollector

open Posix Bytes CacheWriter

namespace EnvFrame

def SameReading (f g : EnvFrame) : Prop :=
  f.stationId = g.stationId ∧ f.timestampSec = g.timestampSec ∧ f.timestampMs = g.timestampMs ∧
  f.temperature = g.temperature ∧ f.humidity = g.humidity ∧ f.pm25 = g.pm25 ∧ f.pm10 = g.pm10 ∧
  f.coPpb = g.coPpb ∧ f.noiseDb = g.noiseDb

end EnvFrame

-- The bytes are a frame of the protocol, which is a replay of the given one.
def RetryOf (f : EnvFrame) (wire : List UInt8) : Prop :=
  ∃ g, frameDecode wire = .ok g ∧ g.SameReading f ∧ g.frameType = frameRetry

-- The frame has the magic, its checksum is that of the marked frame, and its numbers are the same in
-- both byte orders.
structure Palindromic (f : EnvFrame) : Prop where
  magic : f.magic = (frameMagic₀, frameMagic₁)
  crc   : f.crc16 = htons (frameCrc (markRetry f))
  same  : (frameNtoh f).SameReading f

variable {f : EnvFrame}

theorem frameNtoh_markRetry (f : EnvFrame) : frameNtoh (markRetry f) = markRetry (frameNtoh f) :=
  rfl

theorem sameReading_markRetry {g : EnvFrame} : (markRetry g).SameReading f ↔ g.SameReading f :=
  .rfl

theorem retryOf_retryBytes_iff : RetryOf f (retryBytes f) ↔ Palindromic f := by
  have hc : frameCrc (markRetry f) = ntohs f.crc16 ↔ f.crc16 = htons (frameCrc (markRetry f)) := by
    rw [← swap16_inj (y := ntohs f.crc16), swap16_swap16, eq_comm]
  simp only [RetryOf, retryBytes, frameDecode_bytes_eq_ok_iff, frameNtoh_markRetry, frameCrcOk_iff]
  constructor
  case mp =>
    rintro ⟨_, ⟨⟨hm, hk⟩, rfl⟩, hs, _⟩
    exact ⟨hm, hc.mp hk, sameReading_markRetry.mp hs⟩
  case mpr =>
    intro h
    exact ⟨_, ⟨⟨h.magic, hc.mpr h.crc⟩, rfl⟩, sameReading_markRetry.mpr h.same, rfl⟩

theorem dispatchUnicast_cache (cfg : DispatcherCfg) (d : Dispatcher) (f : EnvFrame)
    (wire : List UInt8) (io : DispatchIo) :
    (d.dispatchUnicast cfg f wire io).cache = d.cache ∨
    (d.dispatchUnicast cfg f wire io).cache = (d.cache.cacheWriterAppend f io.written).snd := by
  unfold Dispatcher.dispatchUnicast
  extract_lets r d'
  split
  case isTrue => exact .inl rfl
  case isFalse =>
    split
    case isTrue  => exact .inr rfl
    case isFalse => exact .inl rfl

theorem dispatchOne_cache (cfg : DispatcherCfg) (d : Dispatcher) (f : EnvFrame) (io : DispatchIo) :
    (d.dispatchOne cfg f io).cache = d.cache ∨
    (d.dispatchOne cfg f io).cache = (d.cache.cacheWriterAppend f io.written).snd := by
  unfold Dispatcher.dispatchOne
  split
  case h_1 => exact .inl rfl
  case h_2 wire _ =>
    extract_lets d'
    have hd : d'.cache = d.cache := by simp only [d']; split <;> rfl
    split
    case isTrue  => exact hd ▸ dispatchUnicast_cache cfg d' f wire io
    case isFalse => exact .inl hd

theorem send_log (w : Wire) (b : List UInt8) : w.log <+: (wireIo.send w b).snd.log :=
  List.prefix_append ..

theorem replayLoop_log (c : CacheWriter) (w : Wire) :
    w.log <+: (replayLoop wireIo c w).snd.log := by
  induction c, w using replayLoop.induct wireIo <;> rw [replayLoop]
  case case1 hp _ hr                          => rw [if_pos hp, if_pos hr]
  case case2 hp _ hr _ _ hs                   =>
    rw [if_pos hp, if_neg hr, if_pos hs]
    exact send_log ..
  case case3 w hp _ _ hr frm _ hs _ _ hi      =>
    rw [if_pos hp, if_neg hr, if_neg hs]
    exact (send_log w frm.bytes).trans hi
  case case4 hp                               => rw [if_neg hp]

theorem replayLoop_sends {c : CacheWriter} {fd : CacheFd} (h : c.Replaying fd) (w : Wire) :
    ∃ sent, (replayLoop wireIo c w).snd.log = w.log ++ sent ∧
      ∀ i o wire, sent[i]? = some (o, wire) →
        wire = retryBytes (EnvFrame.ofBytes (c.recordAt fd i)) := by
  induction hn : (c.writeCursor - c.readCursor).toNat using Nat.strong_induction_on
    generalizing c fd w
  case _ n hi =>
  by_cases hp : c.readCursor < c.writeCursor
  case neg => exact ⟨[], by rw [replayLoop, if_neg hp]; simp, nofun⟩
  case pos =>
    by_cases hl : (c.recordAt fd 0).length = envFrameWireSize
    case neg =>
      refine ⟨[], ?_, nofun⟩
      rw [replayLoop, if_pos hp]
      simp [CacheWriter.read, h.cacheFd, h.read_eq, hl]
    case pos =>
      rw [replayLoop_of_record h.cacheFd hp (h.read_bytes hl)]
      extract_lets c₁ sent c₂
      have hs : sent.snd.log = w.log ++ [(sent.fst, retryBytes (.ofBytes (c.recordAt fd 0)))] := rfl
      split
      case isTrue =>
        refine ⟨_, hs, fun i o wire he => ?_⟩
        cases i <;> cases he
        rfl
      case isFalse =>
        have hd : ((c.sentOne fd (wireIo.save sent.snd).fst).writeCursor -
            (c.sentOne fd (wireIo.save sent.snd).fst).readCursor).toNat < n := by
          obtain ⟨hr, hw, _⟩ := c.sentOne_cursors fd (wireIo.save sent.snd).fst
          rw [hr, hw, ← hn]
          simp only [envFrameWireSize]
          omega
        obtain ⟨rest, hl, hm⟩ := hi _ hd h.sentOne (wireIo.save sent.snd).snd rfl
        refine ⟨(sent.fst, retryBytes (.ofBytes (c.recordAt fd 0))) :: rest, ?_, ?_⟩
        · calc
            _ = sent.snd.log ++ rest := hl
            _ = _ := by rw [hs, List.append_assoc, List.singleton_append]
        · intro i o wire he
          cases i
          case zero   => cases he; rfl
          case succ i => rw [hm i o wire he, h.recordAt_sentOne]

theorem cacheReplayStart_log {c : CacheWriter} {fd : CacheFd} (h : c.cacheFd = some fd)
    (h₀ : 0 ≤ c.readCursor) (hp : c.readCursor < c.writeCursor)
    (hr : readAt (c.fs.content fd.node) c.readCursor.toNat envFrameWireSize = f.bytes) (w : Wire) :
    ∃ o rest, (cacheReplayStart wireIo c w).snd.snd.log = w.log ++ (o, retryBytes f) :: rest := by
  let c' := { c with cacheFd := some { fd with offset := c.readCursor.toNat } }
  let o  := w.sends.headD .errIo
  have hl : w.log ++ [(o, retryBytes f)] <+: (replayLoop wireIo c' w).snd.log := by
    rw [replayLoop_of_record (c := c') rfl hp hr]
    extract_lets c₁ sent c₂
    split
    case isTrue  => exact List.prefix_refl _
    case isFalse => exact replayLoop_log _ (wireIo.save sent.snd).snd
  have ⟨rest, hl⟩ := hl
  refine ⟨o, rest, ?_⟩
  rw [cacheReplayStart_of_pending h h₀ hp]
  simpa using hl.symm

theorem cacheReplayStart_sends {c : CacheWriter} {fd : CacheFd} (h : c.cacheFd = some fd)
    (h₀ : 0 ≤ c.readCursor) (ha : fd.node ≠ c.fs.node (cursorPath cacheDat)) (w : Wire) :
    ∃ sent, (cacheReplayStart wireIo c w).snd.snd.log = w.log ++ sent ∧
      ∀ i o wire, sent[i]? = some (o, wire) →
        wire = retryBytes (EnvFrame.ofBytes (c.recordAt fd i)) := by
  by_cases hp : c.readCursor < c.writeCursor
  case neg =>
    have hn : c.cacheFd.isNone ∨ c.readCursor ≥ c.writeCursor := .inr <| Int.not_lt.mp hp
    exact ⟨[], by rw [cacheReplayStart, if_pos hn, List.append_nil], nofun⟩
  case pos =>
    let fd' := { fd with offset := c.readCursor.toNat }
    have hr : { c with cacheFd := some fd' }.Replaying fd' := ⟨rfl, h₀, rfl, ha⟩
    rw [cacheReplayStart_of_pending h h₀ hp]
    exact replayLoop_sends hr w

-- What the cache receives is the frame as the dispatcher has it, and what a replay sends of its
-- record is a frame of the protocol only by accident.
theorem replay_retryOf_iff {c : CacheWriter} {fd : CacheFd} (h : c.cacheFd = some fd)
    (h₀ : 0 ≤ c.readCursor) (ha : fd.node ≠ c.fs.node (cursorPath cacheDat)) (f : EnvFrame)
    (w : Wire) :
    (∀ cfg d io, (Dispatcher.dispatchOne cfg d f io).cache = d.cache ∨
      (d.dispatchOne cfg f io).cache = (d.cache.cacheWriterAppend f io.written).snd) ∧
    ∃ sent, (cacheReplayStart wireIo c w).snd.snd.log = w.log ++ sent ∧
      (c.readCursor < c.writeCursor → c.recordAt fd 0 = f.bytes → sent ≠ []) ∧
      ∀ i o wire, sent[i]? = some (o, wire) → c.recordAt fd i = f.bytes →
        (RetryOf f wire ↔ Palindromic f) := by
  refine ⟨fun cfg d io => dispatchOne_cache cfg d f io, ?_⟩
  have ⟨sent, hl, hs⟩ := cacheReplayStart_sends h h₀ ha w
  refine ⟨sent, hl, fun hp hr he => ?_, fun i o wire hi hr => ?_⟩
  · have ⟨_, _, hl'⟩ := cacheReplayStart_log h h₀ hp hr w
    simp [hl, he] at hl'
  · rw [hs i o wire hi, hr, EnvFrame.ofBytes_bytes]
    exact retryOf_retryBytes_iff

-- A frame of station 1, as `frame_decode` returns it.
def sampleFrame : EnvFrame :=
  { EnvFrame.zero with
    magic     := (frameMagic₀, frameMagic₁)
    version   := 1
    stationId := 1
    crc16     := (frameFillCrc (frameHton { EnvFrame.zero with
      magic     := (frameMagic₀, frameMagic₁)
      version   := 1
      stationId := 1 })).crc16 }

theorem sampleFrame_decoded : ∃ wire, frameDecode wire = .ok sampleFrame :=
  ⟨(frameHton sampleFrame).bytes, by decide +kernel⟩

theorem replay_retryOf_iff_sample :
    ∃ (c : CacheWriter) (fd : CacheFd) (w : Wire) (sent : List (IotStatus × List UInt8)),
      (cacheReplayStart wireIo c w).snd.snd.log = w.log ++ sent ∧ sent ≠ [] ∧
      ∀ i o wire, sent[i]? = some (o, wire) → c.recordAt fd i = sampleFrame.bytes →
        (RetryOf sampleFrame wire ↔ Palindromic sampleFrame) := by
  have ⟨h₁, h₂⟩ := sampleCache_lookup
  have hs := (start_holds h₁ h₂ h₂).append (f := sampleFrame) rfl
  have ⟨h₀, hp, hr⟩ := hs.pending
  have ⟨_, sent, hl, hn, hi⟩ := replay_retryOf_iff hs.cacheFd h₀ hs.apart sampleFrame
    { sends := [], saves := [], log := [] }
  refine ⟨_, _, _, sent, hl, hn hp ?_, hi⟩
  rw [recordAt, hr]
  exact hs.readAt

theorem sampleFrame_not_palindromic : ¬Palindromic sampleFrame :=
  fun h => absurd h.same.left (by decide)

-- The replay of a frame with a station number that is not the same in both byte orders.
theorem replay_retryOf_false :
    ¬∀ (f : EnvFrame) (c : CacheWriter) (fd : CacheFd) (w : Wire),
      (∃ received, frameDecode received = .ok f) → c.cacheFd = some fd →
      0 ≤ c.readCursor → c.readCursor < c.writeCursor →
      readAt (c.fs.content fd.node) c.readCursor.toNat envFrameWireSize = f.bytes →
      ∃ o wire rest, (cacheReplayStart wireIo c w).snd.snd.log = w.log ++ (o, wire) :: rest ∧
        RetryOf f wire := by
  intro h
  have ⟨h₁, h₂⟩ := sampleCache_lookup
  have hs := (start_holds h₁ h₂ h₂).append (f := sampleFrame) rfl
  have ⟨h₀, hp, hr⟩ := hs.pending
  have ⟨o, wire, rest, hl, hv⟩ :=
    h sampleFrame _ _ { sends := [], saves := [], log := [] } sampleFrame_decoded hs.cacheFd h₀ hp
      (hr ▸ hs.readAt)
  have ⟨_, _, hl'⟩ := cacheReplayStart_log hs.cacheFd h₀ hp (hr ▸ hs.readAt)
    { sends := [], saves := [], log := [] }
  obtain ⟨hw, _⟩ := List.cons_eq_cons.mp <| List.append_cancel_left <| hl.symm.trans hl'
  obtain ⟨_, rfl⟩ := Prod.mk.inj hw
  exact sampleFrame_not_palindromic <| retryOf_retryBytes_iff.mp hv

end IotCollector
