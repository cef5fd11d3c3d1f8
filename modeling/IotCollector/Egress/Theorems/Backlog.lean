import IotCollector.Common.Theorems.Tbf
import IotCollector.Egress.Start
import IotCollector.Egress.Theorems.Replay

namespace IotCollector

open Posix CacheWriter

namespace Exit

variable {x : Exit} {fd : Int} {write : List UInt8 → IotStatus} {b : List UInt8} {n : Nat}

structure Ready (x : Exit) (n : Nat) : Prop where
  bucket : ∃ t, x.bucket = some t ∧ t.Refilled x.ticks
  enough : n ≤ x.ticks.length
  awake  : x.asleep = false

theorem send_of_ready (hf : 0 ≤ fd) (hw : ∀ b, write b = .ok) (hb : b.length = envFrameWireSize)
    (h : x.Ready (envFrameWireSize + n)) :
    ((exitIo fd write).send x b).fst = .ok ∧
    ((exitIo fd write).send x b).snd.wire = x.wire ++ [b] ∧
    ((exitIo fd write).send x b).snd.Ready n := by
  obtain ⟨⟨t, ht, hr⟩, hl, ha⟩ := h
  have hn : b ≠ [] := by rintro rfl; cases hb
  have hd : ¬(fd < 0 ∨ b.length = 0) := by
    rw [hb]
    simpa [envFrameWireSize] using hf
  have hm : min b.length tbfMaxFetchPerOp = b.length := by rw [hb]; rfl
  have hs : (b.length.toUInt64).toNat = envFrameWireSize := by rw [hb]; rfl
  have hc := t.clamp_toNat b.length.toUInt64
  have hw₀ : b.length.toUInt64 ≠ 0 := by rw [hb]; decide
  obtain ⟨t', ticks', he, hr', hl'⟩ := hr.fetch hw₀ (by omega) false
  have hx : x.unicastWriteThrottled write b =
      some (.ok, { x with bucket := some t', ticks := ticks', wire := x.wire ++ [b] }) := by
    rw [unicastWriteThrottled, ht]
    simp only [dif_neg hn, hm, he, hw, if_true, List.take_length, List.drop_length]
    rw [unicastWriteThrottled]
    rfl
  simp only [exitIo, unicastSenderSendWithBucket, if_neg hd, hx, Option.map_some, Option.getD_some]
  exact ⟨trivial, trivial, ⟨t', rfl, hr'⟩, by simp only; omega, ha⟩

theorem drain_of_ready (hf : 0 ≤ fd) (hw : ∀ b, write b = .ok) {pend : List EnvFrame}
    (h : x.Ready (envFrameWireSize * pend.length)) :
    (drain (exitIo fd write) x pend).fst = pend ∧
    (drain (exitIo fd write) x pend).snd.wire = x.wire ++ pend.map retryBytes ∧
    (drain (exitIo fd write) x pend).snd.asleep = false := by
  induction pend generalizing x
  case nil => exact ⟨rfl, (List.append_nil _).symm, h.awake⟩
  case cons f pend hi =>
    rw [List.length_cons, Nat.mul_succ, Nat.add_comm] at h
    have ⟨h₁, h₂, h₃⟩ := send_of_ready hf hw (markRetry f).bytes_length h
    have hs : ((exitIo fd write).save ((exitIo fd write).send x (markRetry f).bytes).snd).snd.Ready
        (envFrameWireSize * pend.length) := ⟨h₃.bucket, h₃.enough, h₃.awake⟩
    have ⟨h₄, h₅, h₆⟩ := hi hs
    simp only [drain, h₁, ne_eq, not_true_eq_false, if_false, h₄, h₆, h₅, true_and, and_true]
    change ((exitIo fd write).send x (markRetry f).bytes).snd.wire ++ _ = _
    rw [h₂, List.append_assoc]
    rfl

theorem send_of_no_bucket (fd : Int) (write : List UInt8 → IotStatus) (hb : x.bucket = none)
    (b : List UInt8) :
    ((exitIo fd write).send x b).fst = .errGeneric ∧
    ((exitIo fd write).send x b).snd.wire = x.wire := by
  simp only [exitIo, unicastSenderSendWithBucket]
  split
  case isTrue  => exact ⟨rfl, rfl⟩
  case isFalse =>
    rw [unicastWriteThrottled, hb]
    exact ⟨rfl, rfl⟩

theorem drain_of_no_bucket (hb : x.bucket = none) (pend : List EnvFrame) :
    (drain (exitIo fd write) x pend).snd.wire = x.wire := by
  cases pend
  case nil => rfl
  case cons f pend =>
    have ⟨h₁, h₂⟩ := send_of_no_bucket fd write hb (markRetry f).bytes
    simp only [drain, h₁, ne_eq, reduceCtorEq, not_false_eq_true, if_true, h₂]

end Exit

namespace CacheWriter

variable {σ : Type*} {c : CacheWriter} {fd : CacheFd} {done pend : List EnvFrame}

theorem Holds.cachePendingFrames (h : c.Holds fd done pend) :
    c.cachePendingFrames = pend.length := by
  cases pend
  case nil => simp [CacheWriter.cachePendingFrames, h.read, h.write]
  case cons f pend =>
    rw [CacheWriter.cachePendingFrames, if_pos h.pending.right.left, h.read, h.write]
    simp only [envFrameWireSize]
    omega

theorem Holds.replay (h : c.Holds fd done pend) (io : ReplayIo σ) (s : σ) :
    ∃ fd' rest, pend = (drain io s pend).fst ++ rest ∧
      (cacheReplayStart io c s).snd.fst.Holds fd' (done ++ (drain io s pend).fst) rest ∧
      (cacheReplayStart io c s).snd.snd = (drain io s pend).snd := by
  cases pend
  case nil =>
    have hn : c.cacheFd.isNone ∨ c.readCursor ≥ c.writeCursor := by simp [h.read, h.write]
    rw [cacheReplayStart, if_pos hn]
    exact ⟨fd, [], rfl, by simpa [drain] using h, rfl⟩
  case cons f pend =>
    obtain ⟨h₀, hp, hr⟩ := h.pending
    rw [cacheReplayStart_of_pending h.cacheFd h₀ hp, hr]
    obtain ⟨fd', rest, _, h₁, h₂, _, _, h₃⟩ := replayLoop_holds (h.seek _) rfl s
    exact ⟨fd', rest, h₁, h₂, h₃⟩

end CacheWriter

namespace Egress

variable {e s : Egress}

theorem createBucket_retryBucket {alloc : Bool} (h : e.createBucket alloc = .ok s) :
    s.retryBucket = e.retryBucket := by
  unfold createBucket at h
  split at h
  case h_1 => cases h; rfl
  case h_2 =>
    split at h
    case h_1 => cases h
    case h_2 => cases h; rfl

theorem startThreads_retryBucket (workers : Nat) (monitor : Bool) :
    (e.startThreads workers monitor).snd.retryBucket = e.retryBucket := by
  simp only [startThreads]
  split <;> rfl

theorem dispatcherStart_retryBucket (cfg : DispatcherOpts) (cfgSet running : Bool) (io : StartIo)
    (e : Egress) :
    (e.dispatcherStart cfg cfgSet running io).snd.retryBucket = e.retryBucket := by
  unfold dispatcherStart
  split
  case isTrue => rfl
  case isFalse =>
    dsimp only
    split
    case h_1 => rfl
    case h_2 g _ =>
      split
      case h_1 => rfl
      case h_2 e' he =>
        have hm (m : Int) (b : Bool) (c : Except IotError Nat) (e : Egress) :
            (((e.openMcast m).openCache b).connect c).retryBucket = e.retryBucket := by
          unfold openMcast openCache connect
          split <;> split <;> rfl
        have hc := createBucket_retryBucket he
        rw [startThreads_retryBucket, hm]
        exact hc

-- A replay on the connected descriptor sends the pending frames, each of them once and in their
-- order, and leaves none, provided that the connection accepts every write, and that the ticks bring
-- the retry bucket as many tokens as the frames have bytes.
def Drains (s : Egress) (pend : List EnvFrame) : Prop :=
  ∀ (write : List UInt8 → IotStatus) (ticks : List UInt64) (saves : List SaveOutcome),
    (∀ b, write b = .ok) →
    (∀ t, s.retryBucket = some t →
      t.Refilled ticks ∧ envFrameWireSize * pend.length ≤ ticks.length) →
    let r := cacheReplayStart (exitIo s.dispatcher.unicastFd write) s.dispatcher.cache
      (s.exit ticks saves)
    r.snd.snd.asleep = false ∧ r.snd.snd.wire = pend.map retryBytes ∧
    r.snd.fst.cachePendingFrames = 0

variable {fd : CacheFd} {done pend : List EnvFrame}

theorem drains_nil (h : s.dispatcher.cache.Holds fd done []) : s.Drains [] := by
  intro write ticks saves _ _
  have ⟨_, rest, hp, hh, he⟩ := h.replay (exitIo s.dispatcher.unicastFd write) (s.exit ticks saves)
  refine ⟨he ▸ rfl, he ▸ rfl, ?_⟩
  rw [hh.cachePendingFrames, List.append_eq_nil_iff.mp hp.symm |>.right, List.length_nil]

theorem drains_of_bucket {t : Tbf} (hb : s.retryBucket = some t) (hf : 0 ≤ s.dispatcher.unicastFd)
    (h : s.dispatcher.cache.Holds fd done pend) : s.Drains pend := by
  intro write ticks saves hw ht
  have ⟨hr, hl⟩ := ht t hb
  have hx : (s.exit ticks saves).Ready (envFrameWireSize * pend.length) := ⟨⟨t, hb, hr⟩, hl, rfl⟩
  have ⟨h₁, h₂, h₃⟩ := Exit.drain_of_ready hf hw hx
  have ⟨_, rest, hp, hh, he⟩ := h.replay (exitIo s.dispatcher.unicastFd write) (s.exit ticks saves)
  rw [h₁, List.self_eq_append_right] at hp
  refine ⟨he ▸ h₃, he ▸ h₂, ?_⟩
  rw [hh.cachePendingFrames, hp, List.length_nil]

theorem not_drains_of_no_bucket (hb : s.retryBucket = none)
    (h : s.dispatcher.cache.Holds fd done pend) (hp : pend ≠ []) : ¬s.Drains pend := by
  intro hd
  have ⟨_, hw, _⟩ := hd (fun _ => .ok) [] [] (fun _ => rfl) fun t ht => by cases hb.symm.trans ht
  have ⟨_, _, _, _, he⟩ := h.replay (exitIo s.dispatcher.unicastFd fun _ => .ok) (s.exit [] [])
  have hx : (s.exit [] []).bucket = none := hb
  rw [he, Exit.drain_of_no_bucket hx] at hw
  exact hp <| List.map_eq_nil_iff.mp hw.symm

end Egress

-- After the start, a backlog is sent exactly if there is none, or if someone else has created the
-- retry bucket before.
theorem dispatcherStart_drains_iff {e s : Egress} {cfg : DispatcherOpts} {cfgSet running : Bool}
    {io : StartIo} {fd : CacheFd} {done pend : List EnvFrame}
    (hs : e.dispatcherStart cfg cfgSet running io = (.ok, s)) (hf : 0 ≤ s.dispatcher.unicastFd)
    (h : s.dispatcher.cache.Holds fd done pend) :
    s.Drains pend ↔ pend = [] ∨ e.retryBucket ≠ none := by
  have hb : s.retryBucket = e.retryBucket := by
    rw [← e.dispatcherStart_retryBucket cfg cfgSet running io, hs]
  constructor
  case mp =>
    intro hd
    by_contra hn
    have ⟨hp, hr⟩ := not_or.mp hn
    exact Egress.not_drains_of_no_bucket (hb.trans <| not_not.mp hr) h hp hd
  case mpr =>
    intro hc
    cases hc
    case inl hp =>
      subst hp
      exact Egress.drains_nil h
    case inr hr =>
      have ⟨t, ht⟩ := Option.ne_none_iff_exists'.mp hr
      exact Egress.drains_of_bucket (hb.trans ht) hf h

def backlogOpts : DispatcherOpts where
  platformIp   := some (cstr "10.0.0.1")
  platformPort := 9000
  cachePath    := some cacheDat
  q2           := true
  workerNum    := 2
  mcastGroup   := none
  mcastPort    := 0
  mcastIfname  := none
  mcastTtl     := 0

-- The process before its start, with one frame in the cache file that an earlier one has left there.
def backlog (retry : Option Tbf) : Egress where
  cfg            := { backlogOpts with q2 := false, platformIp := none, cachePath := none }
  outboundBucket := none
  retryBucket    := retry
  ownBucket      := false
  started        := false
  stop           := false
  tickStop       := false
  tickStarted    := false
  monStarted     := false
  workerNum      := 0
  dispatcher     := {
    mcastFd   := -1
    unicastFd := -1
    link      := .initial
    stats     := {}
    cache     := {
      sampleCache cacheDat with
      fs := (sampleCache cacheDat).fs.store 0 (records [.zero]) } }

def backlogIo : StartIo where
  alloc   := true
  ticker  := true
  mcast   := -1
  opens   := true
  connect := .ok 5
  workers := 2
  monitor := true

def backlogStart (retry : Option Tbf) : Egress :=
  ((backlog retry).dispatcherStart backlogOpts true true backlogIo).snd

theorem backlogStart_ok (retry : Option Tbf) :
    (backlog retry).dispatcherStart backlogOpts true true backlogIo = (.ok, backlogStart retry) :=
  rfl

theorem backlogStart_holds (retry : Option Tbf) :
    (backlogStart retry).dispatcher.cache.Holds { node := 0, offset := envFrameWireSize } []
      [.zero] where
  cacheFd := rfl
  content := rfl
  apart   := (by decide : (0 : Nat) ≠ (sampleCache cacheDat).fs.node (cursorPath cacheDat))
  read    := rfl
  write   := rfl

theorem dispatcherStart_drains_iff_backlog :
    (backlogStart (some ⟨tbfDefaultCps, tbfDefaultBurst, 0, false, 0⟩)).Drains [.zero] :=
  have hf : 0 ≤ (backlogStart (some _)).dispatcher.unicastFd := Int.natCast_nonneg 5
  (dispatcherStart_drains_iff (backlogStart_ok _) hf (backlogStart_holds _)).mpr <| .inr <|
    Option.some_ne_none _

-- As the process is shipped, nothing sets the retry bucket up.
theorem dispatcherStart_drains_false :
    ¬∀ (e s : Egress) (cfg : DispatcherOpts) (io : StartIo) (fd : CacheFd)
      (done pend : List EnvFrame), e.outboundBucket = none → e.retryBucket = none →
      cfg.platformIp.isSome → cfg.cachePath.isSome →
      e.dispatcherStart cfg true true io = (.ok, s) → 0 ≤ s.dispatcher.unicastFd →
      s.dispatcher.cache.Holds fd done pend → s.Drains pend := by
  intro h
  have hf : 0 ≤ (backlogStart none).dispatcher.unicastFd := Int.natCast_nonneg 5
  have hd := h _ _ _ _ _ _ _ rfl rfl rfl rfl (backlogStart_ok none) hf (backlogStart_holds none)
  exact Egress.not_drains_of_no_bucket rfl (backlogStart_holds none) (List.cons_ne_nil _ _) hd

end IotCollector
