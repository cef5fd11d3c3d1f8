import IotCollector.Common.Theorems.Proto
import IotCollector.Egress.Outcome
import IotCollector.Egress.Theorems.ReadBack
import IotCollector.Egress.Theorems.Reconnect

namespace IotCollector

open Posix

namespace CacheWriter

variable {c : CacheWriter} {fd : CacheFd} {f : EnvFrame} {written : Option Nat}

theorem cachePendingFrames_append_iff (h : c.cacheFd = some fd) (f : EnvFrame) :
    (c.cacheWriterAppend f (some envFrameWireSize)).snd.cachePendingFrames =
      c.cachePendingFrames + 1 ↔ c.readCursor ≤ c.writeCursor := by
  rw [cacheWriterAppend_of_cacheFd h]
  have hs : envFrameWireSize = 28 := rfl
  simp only [cachePendingFrames, hs]
  constructor
  case mp  => intro he; split at he <;> split at he <;> omega
  case mpr => intro he; split <;> split <;> omega

theorem cachePendingFrames_congr {c' : CacheWriter} (hr : c'.readCursor = c.readCursor)
    (hw : c'.writeCursor = c.writeCursor) : c'.cachePendingFrames = c.cachePendingFrames := by
  simp only [cachePendingFrames, hr, hw]

theorem pendingFrames_lt_slots (h : c.readCursor ≤ c.writeCursor) (fd' : Option CacheFd)
    (fs : FileSystem) :
    c.cachePendingFrames <
    { c with fs := fs, cacheFd := fd', writeCursor := c.writeCursor + envFrameWireSize }.slots := by
  simp only [cachePendingFrames, slots, envFrameWireSize]
  split <;> omega

theorem getElem?_readBack_append_iff (h : c.cacheFd = some fd) (hc : c.readCursor ≤ c.writeCursor) :
    (c.cacheWriterAppend f (some envFrameWireSize)).snd.readBack[c.cachePendingFrames]? = some f ↔
    fd.offset = c.nextRecord fd ∨
    Overlaid (c.fs.content fd.node) f.bytes fd.offset (c.nextRecord fd) := by
  have hp : fd.offset = c.nextRecord fd ∨
      Overlaid (c.fs.content fd.node) f.bytes fd.offset (c.nextRecord fd) ↔
      readAt (writeAt (c.fs.content fd.node) fd.offset f.bytes) (c.nextRecord fd)
        envFrameWireSize = f.bytes := by
    rw [← readAt_writeAt_iff, EnvFrame.bytes_length]
    refine or_iff_right_of_imp fun he => ?_
    have hw := readAt_writeAt (c.fs.content fd.node) f.bytes fd.offset
    rw [EnvFrame.bytes_length] at hw
    rwa [← he]
  have hs := pendingFrames_lt_slots hc (some { fd with offset := fd.offset + envFrameWireSize })
    (c.fs.store fd.node <| writeAt (c.fs.content fd.node) fd.offset f.bytes)
  rw [cacheWriterAppend_of_cacheFd h, hp, nextRecord]
  let c' : CacheWriter := { c with
    fs          := c.fs.store fd.node (writeAt (c.fs.content fd.node) fd.offset f.bytes)
    cacheFd     := some { fd with offset := fd.offset + envFrameWireSize }
    writeCursor := c.writeCursor + envFrameWireSize }
  change c'.readBack[_]? = _ ↔ _
  by_cases h₀ : c.readCursor < 0
  case pos =>
    have hb : c'.readBack = _ := readBack_of_neg rfl h₀
    rw [hb, List.getElem?_take_of_lt hs, getElem?_toFrames_iff, readAt_drop,
      FileSystem.content_store_self, if_pos h₀]
  case neg =>
    have hb : c'.readBack = _ := readBack_of_nonneg rfl (Int.not_lt.mp h₀)
    rw [hb, List.getElem?_take_of_lt hs, getElem?_toFrames_iff, readAt_drop,
      FileSystem.content_store_self, if_neg h₀]

theorem caches_append_iff :
    c.Caches (c.cacheWriterAppend f written).snd f ↔ c.CanAppend f written := by
  by_cases h : c.cacheFd.isSome ∧ ∃ n, written = some n ∧ envFrameWireSize ≤ n
  case neg =>
    have ⟨_, hr, hw⟩ := cacheWriterAppend_incomplete (f := f) h
    constructor
    case mp  =>
      rintro ⟨hp, -⟩
      rw [cachePendingFrames_congr hr hw] at hp
      exact absurd hp.symm <| Nat.succ_ne_self _
    case mpr => exact fun hc => absurd ⟨hc.opened, hc.written⟩ h
  case pos =>
    obtain ⟨hc, n, rfl, hn⟩ := h
    have ⟨fd, hfd⟩ := Option.isSome_iff_exists.mp hc
    rw [cacheWriterAppend_complete hfd hn, Caches, cachePendingFrames_append_iff hfd]
    constructor
    case mp  =>
      rintro ⟨hl, hb⟩
      refine ⟨hc, ⟨n, rfl, hn⟩, hl, fun fd' hf => ?_⟩
      exact Option.some.inj (hfd.symm.trans hf) ▸ (getElem?_readBack_append_iff hfd hl).mp hb
    case mpr =>
      exact fun h => ⟨h.cursors, (getElem?_readBack_append_iff hfd h.cursors).mpr <| h.place fd hfd⟩

end CacheWriter

namespace Dispatcher

variable {cfg : DispatcherCfg} {d d' : Dispatcher} {f : EnvFrame} {io : DispatchIo}

theorem sends_iff :
    d.Sends f io ↔
    0 ≤ d.unicastFd ∧ d.link.online ∧ io.unicast (frameFillCrc (frameHton f).stamped).bytes = .ok := by
  rw [Sends, frameEncode_eq (Nat.le_refl envFrameWireSize), Option.map_some, Option.some_inj]

inductive Unicast (cfg : DispatcherCfg) (d : Dispatcher) (f : EnvFrame) (io : DispatchIo)
    (d' : Dispatcher) : Prop
  | sent :
      d.Sends f io → d'.cache = d.cache → d'.stats.unicastOk = d.stats.unicastOk + 1 →
      d'.stats.droppedTotal = d.stats.droppedTotal → Unicast cfg d f io d'
  | cached :
      ¬d.Sends f io → cfg.cachePath ≠ none →
      d'.cache = (d.cache.cacheWriterAppend f io.written).snd →
      d'.stats.unicastOk = d.stats.unicastOk → d'.stats.droppedTotal = d.stats.droppedTotal →
      Unicast cfg d f io d'
  | dropped :
      ¬d.Sends f io → cfg.cachePath = none → d'.cache = d.cache →
      d'.stats.unicastOk = d.stats.unicastOk →
      d'.stats.droppedTotal = d.stats.droppedTotal + 1 → Unicast cfg d f io d'

theorem dispatchUnicast_outcome (cfg : DispatcherCfg) (d : Dispatcher) (f : EnvFrame)
    (io : DispatchIo) :
    Unicast cfg d f io
      (d.dispatchUnicast cfg f (frameFillCrc (frameHton f).stamped).bytes io) := by
  unfold dispatchUnicast
  extract_lets r d'
  have hs : r.fst = .ok ↔ d.Sends f io := by
    simp only [r, sends_iff, Link.unicastSenderSend]
    by_cases hg : d.unicastFd ≥ 0 ∧ d.link.online
    case neg => rw [if_neg hg]; simp only [ge_iff_le] at hg; tauto
    case pos =>
      have hn : ¬(d.unicastFd < 0 ∨ (frameFillCrc (frameHton f).stamped).bytes.length = 0) := by
        simp [envFrameWireSize, hg.left]
      rw [if_pos hg, if_neg hn]
      tauto
  split
  case isTrue h => exact .sent (hs.mp h) rfl rfl rfl
  case isFalse h =>
    split
    case isTrue hc  => exact .cached (h ∘ hs.mpr) (Option.isSome_iff_ne_none.mp hc) rfl rfl rfl
    case isFalse hc => exact .dropped (h ∘ hs.mpr) (by simpa using hc) rfl rfl rfl

-- With a platform, a frame reaches the unicast exit. The encoder does not fail, and the multicast exit
-- counts in a field of its own.
theorem dispatchOne_outcome (hp : cfg.platformIp.isSome) (d : Dispatcher) (f : EnvFrame)
    (io : DispatchIo) : Unicast cfg d f io (d.dispatchOne cfg f io) := by
  unfold dispatchOne
  have he := frameEncode_eq (f := frameHton f) (Nat.le_refl envFrameWireSize)
  split
  case h_1 hn => cases hn.symm.trans he
  case h_2 wire hw =>
  cases hw.symm.trans he
  extract_lets d₁
  have h₁ : d₁ = { d with stats := d₁.stats } ∧ d₁.stats.unicastOk = d.stats.unicastOk ∧
      d₁.stats.droppedTotal = d.stats.droppedTotal := by
    simp only [d₁]
    split <;> simp [IotStats.onEgress]
  obtain ⟨he, hu, hd⟩ := h₁
  have hs : d₁.Sends f io ↔ d.Sends f io := by rw [he]; rfl
  have hc : d₁.cache = d.cache := by rw [he]
  rw [if_pos hp]
  cases dispatchUnicast_outcome cfg d₁ f io
  case sent h₁ h₂ h₃ h₄ => exact .sent (hs.mp h₁) (h₂.trans hc) (hu ▸ h₃) (hd ▸ h₄)
  case cached h₁ h₂ h₃ h₄ h₅ =>
    exact .cached (h₁ ∘ hs.mpr) h₂ (hc ▸ h₃) (h₄.trans hu) (h₅.trans hd)
  case dropped h₁ h₂ h₃ h₄ h₅ =>
    exact .dropped (h₁ ∘ hs.mpr) h₂ (h₃.trans hc) (h₄.trans hu) (hd ▸ h₅)

theorem not_reported (h : d'.stats.unicastOk = d.stats.unicastOk) : ¬d.Reported d' := by
  simp [Reported, h]

theorem not_dropped (h : d'.stats.droppedTotal = d.stats.droppedTotal) : ¬d.Dropped d' := by
  simp [Dropped, h]

theorem not_cached (h : d'.cache = d.cache) : ¬d.Cached d' f := by
  rintro ⟨hp, -⟩
  rw [h] at hp
  exact absurd hp.symm <| Nat.succ_ne_self _

-- A frame is recorded exactly once, unless the cache is to take it and does not.
theorem dispatchOne_recorded_iff (hp : cfg.platformIp.isSome) (d : Dispatcher) (f : EnvFrame)
    (io : DispatchIo) :
    d.RecordedOnce (d.dispatchOne cfg f io) f ↔
    d.Sends f io ∨ cfg.cachePath = none ∨ d.cache.CanAppend f io.written := by
  cases dispatchOne_outcome hp d f io
  case sent h₁ h₂ h₃ h₄ =>
    exact iff_of_true (.inl ⟨h₃, not_cached h₂, not_dropped h₄⟩) (.inl h₁)
  case dropped h₁ h₂ h₃ h₄ h₅ =>
    exact iff_of_true (.inr <| .inr ⟨not_reported h₄, not_cached h₃, h₅⟩) (.inr <| .inl h₂)
  case cached h₁ h₂ h₃ h₄ h₅ =>
    have hc : d.Cached (d.dispatchOne cfg f io) f ↔ d.cache.CanAppend f io.written := by
      rw [Cached, h₃, CacheWriter.caches_append_iff]
    simp only [RecordedOnce, not_reported h₄, not_dropped h₅, hc, h₁, h₂]
    simp

theorem loses_iff (cfg : DispatcherCfg) (d : Dispatcher) (f : EnvFrame) (io : DispatchIo) :
    d.Loses cfg f io ↔ ¬d.Delivers cfg f io := by
  by_cases hp : cfg.platformIp = none
  case pos => simp [Loses, Delivers, hp]
  case neg =>
    cases dispatchOne_outcome (Option.isSome_iff_ne_none.mpr hp) d f io
    case sent hs _ _ _          => simp [Loses, Delivers, hs]
    case cached hs hc he _ _    => simp [Loses, Delivers, hp, hs, hc, he, CacheWriter.caches_append_iff]
    case dropped hs hc he hu hd =>
      have hn : ¬d.cache.Caches (d.dispatchOne cfg f io).cache f := not_cached he
      simp [Loses, Delivers, hp, hs, hc, hn]

-- An offline dispatcher with an empty cache, on a disk that is full.
def offlineCfg : DispatcherCfg :=
  { sampleCfg with cachePath := some cacheDat }

def offline : Dispatcher :=
  { sampleDispatcher with cache := (CacheRun.start (sampleCache cacheDat) cacheDat).cache }

def fullDisk : DispatchIo where
  mcast _   := .errIo
  unicast _ := .errIo
  written   := none

def freeDisk : DispatchIo :=
  { fullDisk with written := some envFrameWireSize }

theorem dispatchOne_recorded_iff_offline :
    (offline.RecordedOnce (offline.dispatchOne offlineCfg .zero freeDisk) .zero ↔
      offline.Sends .zero freeDisk ∨ offlineCfg.cachePath = none ∨
      offline.cache.CanAppend .zero freeDisk.written) ∧
    offline.RecordedOnce (offline.dispatchOne offlineCfg .zero freeDisk) .zero :=
  have h := dispatchOne_recorded_iff rfl offline .zero freeDisk
  have hc : offline.cache.CanAppend .zero freeDisk.written :=
    ⟨rfl, ⟨_, rfl, Nat.le_refl _⟩, by decide, fun fd hf => .inl <| by
      obtain rfl := Option.some.inj hf
      decide⟩
  ⟨h, h.mpr <| .inr <| .inr hc⟩

-- The frame is neither sent nor stored nor counted.
theorem dispatchOne_recorded_false :
    ¬∀ cfg d f io, DispatcherCfg.platformIp cfg |>.isSome →
      RecordedOnce d (d.dispatchOne cfg f io) f := by
  intro h
  have hn := (dispatchOne_recorded_iff rfl _ _ _).mp <| h offlineCfg offline .zero fullDisk rfl
  rcases hn with ⟨hf, -⟩ | hp | ⟨-, ⟨_, hw, -⟩, -⟩
  · exact absurd hf (by decide)
  · exact nomatch hp
  · exact nomatch hw

end Dispatcher
end IotCollector
