import IotCollector.Lib.Transition
import IotCollector.Egress.Theorems.CacheWriter

namespace IotCollector

open Posix CacheWriter

-- The outcomes which a replay is to meet, and the sends it has made so far.
structure Wire where
  sends : List IotStatus
  saves : List SaveOutcome
  log   : List (IotStatus × List UInt8)

def wireIo : ReplayIo Wire where
  send w b :=
    let o := w.sends.headD .errIo
    (o, { w with sends := w.sends.tail, log := w.log ++ [(o, b)] })
  save w := (w.saves.headD .saved, { w with saves := w.saves.tail })

def Wire.sent (w : Wire) : List (List UInt8) :=
  w.log.filter (·.fst = .ok) |>.map Prod.snd

def retryBytes (f : EnvFrame) : List UInt8 :=
  (markRetry f).bytes

inductive CacheOp
  | append (frame : EnvFrame)
  | replay (sends : List IotStatus) (saves : List SaveOutcome)

-- The cache, the frames whose append has succeeded, and the bytes which replays have sent.
structure CacheRun where
  cache    : CacheWriter
  appended : List EnvFrame
  sent     : List (List UInt8)

-- Every write is complete.
def cacheStep : Transition CacheRun CacheOp
  | s, .append frame =>
    let r := s.cache.cacheWriterAppend frame (some envFrameWireSize)
    some { s with
      cache    := r.snd
      appended := if r.fst = .ok then s.appended ++ [frame] else s.appended }
  | s, .replay sends saves =>
    let r := cacheReplayStart wireIo s.cache { sends, saves, log := [] }
    some { s with
      cache := r.snd.fst
      sent  := s.sent ++ r.snd.snd.sent }

def CacheRun.start (c : CacheWriter) (path : Path) : CacheRun where
  cache    := (c.cacheWriterOpen path true).snd
  appended := []
  sent     := []

-- The frames sent, without their mark, and the frames stored are the frames appended.
def CacheRun.NoLoss (s : CacheRun) : Prop :=
  ∃ done, s.appended = done ++ s.cache.stored ∧ s.sent = done.map retryBytes

def AtWriteCursor (s : CacheRun) : CacheOp → Prop
  | .append _   => ∃ fd, s.cache.cacheFd = some fd ∧ fd.offset = s.cache.writeCursor
  | .replay _ _ => True

variable {w : Wire}

theorem sent_of_ok {b : List UInt8} (h : (wireIo.send w b).fst = .ok) :
    (wireIo.send w b).snd.sent = w.sent ++ [b] := by
  have h : w.sends.headD .errIo = .ok := h
  simp only [wireIo, Wire.sent, h]
  simp

theorem sent_of_not_ok {b : List UInt8} (h : (wireIo.send w b).fst ≠ .ok) :
    (wireIo.send w b).snd.sent = w.sent := by
  have h : w.sends.headD .errIo ≠ .ok := h
  simp only [wireIo, Wire.sent, List.filter_append, List.filter_cons, h]
  simp

theorem drain_sent (w : Wire) (pend : List EnvFrame) :
    (drain wireIo w pend).snd.sent = w.sent ++ (drain wireIo w pend).fst.map retryBytes := by
  induction pend generalizing w
  case nil => simp [drain]
  case cons f pend hi =>
    rw [drain]
    by_cases hs : (wireIo.send w (markRetry f).bytes).fst = .ok
    case neg => simp only [ne_eq, hs, not_false_eq_true, if_true, sent_of_not_ok hs]; simp
    case pos =>
      have hw : ∀ w : Wire, (wireIo.save w).snd.sent = w.sent := fun _ => rfl
      simp only [hs, ne_eq, not_true_eq_false, if_false, hi, hw, sent_of_ok hs, List.append_assoc]
      rfl

-- The invariant. The offset is at some record, but not necessarily behind the last one.
structure CacheRun.Kept (s : CacheRun) : Prop where
  holds : ∃ fd done pend k, s.cache.Holds fd done pend ∧ fd.offset = envFrameWireSize * k ∧
    k ≤ done.length + pend.length ∧ s.appended = done ++ pend ∧ s.sent = done.map retryBytes

variable {s s' : CacheRun} {op : CacheOp}

theorem CacheRun.Kept.noLoss (h : s.Kept) : s.NoLoss := by
  have ⟨_, done, _, _, h, _, _, ha, hs⟩ := h
  exact ⟨done, h.stored_eq ▸ ha, hs⟩

theorem cacheStep_kept (h : s.Kept) (ho : AtWriteCursor s op) (hs : cacheStep s op = some s') :
    s'.Kept := by
  have ⟨fd, done, pend, k, h, hk, hl, ha, hd⟩ := h
  cases op
  case append f =>
    have ⟨fd', hf, ho⟩ := ho
    obtain rfl : fd = fd' := Option.some.inj <| h.cacheFd.symm.trans hf
    have hst := cacheWriterAppend_of_cacheFd h.cacheFd f
    have happ := h.append ho (f := f)
    simp only [cacheStep, Option.some.injEq] at hs
    subst hs
    refine ⟨_, done, pend ++ [f], k + 1, happ, ?_, ?_, ?_, hd⟩
    · simp only [hk, Nat.mul_succ]
    · simp only [List.length_append, List.length_singleton]
      omega
    · simp only [hst, if_true, ha, List.append_assoc]
  case replay sends saves =>
    have ⟨fd', rest, k', h₁, h₂, h₃, h₄, h₅⟩ :=
      cacheReplayStart_holds wireIo h hk hl { sends, saves, log := [] }
    simp only [cacheStep, Option.some.injEq] at hs
    subst hs
    refine ⟨fd', _, rest, k', h₂, h₃, ?_, ?_, ?_⟩
    · have := congrArg List.length h₁
      simp only [List.length_append] at this ⊢
      omega
    · rw [List.append_assoc, ← h₁, ha]
    · simp only [h₅, drain_sent, hd, List.map_append]
      rfl

theorem append_loss {f : EnvFrame} (h : s.Kept) (ho : ¬AtWriteCursor s (.append f))
    (hs : cacheStep s (.append f) = some s') : ¬s'.NoLoss := by
  have ⟨fd, done, pend, k, h, hk, hl, ha, hd⟩ := h
  have hk' : k < done.length + pend.length := by
    refine Nat.lt_of_le_of_ne hl fun he => ho ⟨fd, h.cacheFd, ?_⟩
    rw [hk, he, h.write]
    simp only [envFrameWireSize]
    omega
  simp only [cacheStep, cacheWriterAppend_of_cacheFd h.cacheFd, if_true, Option.some.injEq] at hs
  subst hs
  rintro ⟨done', ha', hd'⟩
  have hda := congrArg List.length ha
  have hdl := congrArg List.length (hd'.symm.trans hd)
  have hal := congrArg List.length ha'
  simp only [List.length_append] at hal
  rw [length_stored rfl] at hal
  simp only [FileSystem.content_store_self, length_writeAt, h.content, records_length,
    EnvFrame.bytes_length, h.read, h.write, hk, List.length_append, List.length_map,
    List.length_singleton, envFrameWireSize] at hda hdl hal
  omega

variable {c : CacheWriter} {path : Path}

theorem start_holds (h : c.fs.lookup path = some []) (hc : c.fs.lookup (cursorPath path) = none)
    (hd : c.fs.lookup (cursorPath cacheDat) = none) :
    (CacheRun.start c path).cache.Holds { node := c.fs.node path, offset := 0 } [] [] := by
  have hn := FileSystem.node_ne_of_lookup h hc
  have hb : c.fs.content (c.fs.node path) = [] := FileSystem.content_of_data h
  have hl : (c.fs.store (c.fs.node path) []).lookup (cursorPath path) = none :=
    FileSystem.lookup_store_of_ne hn.symm ▸ hc
  have hs : (CacheRun.start c path).cache =
      { fs          := c.fs.store (c.fs.node path) []
        cacheFd     := some { node := c.fs.node path, offset := 0 }
        writeCursor := 0
        readCursor  := 0 } := by
    simp [CacheRun.start, cacheWriterOpen, loadCursor, hb, hl]
  rw [hs]
  exact ⟨rfl, by simp [records], FileSystem.node_ne_of_lookup h hd, rfl, rfl⟩

theorem always_noLoss_iff (h : s.Kept) (ops : List CacheOp) :
    cacheStep.Always s ops CacheRun.NoLoss ↔ cacheStep.Guarded s ops AtWriteCursor := by
  refine Transition.always_iff_guarded h CacheRun.Kept.noLoss cacheStep_kept fun {s op s'} hk hs hp => ?_
  cases op
  case append f => by_contra ho; exact append_loss hk ho hs hp
  case replay   => trivial

theorem start_kept (h : c.fs.lookup path = some []) (hc : c.fs.lookup (cursorPath path) = none)
    (hd : c.fs.lookup (cursorPath cacheDat) = none) : (CacheRun.start c path).Kept :=
  ⟨_, [], [], 0, start_holds h hc hd, rfl, Nat.zero_le _, rfl, rfl⟩

-- Along a run, nothing is lost exactly if every append finds the offset at the write cursor.
theorem cache_noLoss_iff (h : c.fs.lookup path = some [])
    (hc : c.fs.lookup (cursorPath path) = none) (hd : c.fs.lookup (cursorPath cacheDat) = none)
    (ops : List CacheOp) :
    cacheStep.Always (.start c path) ops CacheRun.NoLoss ↔
    cacheStep.Guarded (.start c path) ops AtWriteCursor :=
  always_noLoss_iff (start_kept h hc hd) ops

def sampleCache (path : Path) : CacheWriter where
  fs          := { node := fun p => if p = path then 0 else 1
                   data := fun n => if n = 0 then some [] else none }
  cacheFd     := none
  writeCursor := 0
  readCursor  := 0

theorem sampleCache_lookup :
    (sampleCache cacheDat).fs.lookup cacheDat = some [] ∧
    (sampleCache cacheDat).fs.lookup (cursorPath cacheDat) = none := by
  constructor <;> decide

theorem cache_noLoss_iff_sample :
    (sampleCache cacheDat).fs.lookup cacheDat = some [] ∧
    (sampleCache cacheDat).fs.lookup (cursorPath cacheDat) = none ∧
    (cacheStep.Always (.start (sampleCache cacheDat) cacheDat) [.append .zero] CacheRun.NoLoss ↔
     cacheStep.Guarded (.start (sampleCache cacheDat) cacheDat) [.append .zero] AtWriteCursor) :=
  have ⟨h, hc⟩ := sampleCache_lookup
  ⟨h, hc, cache_noLoss_iff h hc hc [.append .zero]⟩

-- Two appended frames, a replay whose first send fails, and a third frame.
theorem cache_noLoss_false :
    ¬∀ (c : CacheWriter) (path : Path), c.fs.lookup path = some [] →
      c.fs.lookup (cursorPath path) = none → c.fs.lookup (cursorPath cacheDat) = none →
      ∀ ops, cacheStep.Always (.start c path) ops CacheRun.NoLoss := by
  intro h
  have ⟨h₁, h₂⟩ := sampleCache_lookup
  let s : CacheRun := .start (sampleCache cacheDat) cacheDat
  have hs : s.cache.Holds _ [] [] := start_holds h₁ h₂ h₂
  have ha := (hs.append (f := .zero) rfl).append (f := .zero) rfl
  have hr := cacheReplayStart_of_failed_send wireIo { sends := [.errIo], saves := [], log := [] }
    ha (by decide)
  have hg := (always_noLoss_iff (start_kept h₁ h₂ h₂) _).mp <| h _ _ h₁ h₂ h₂
    [.append .zero, .append .zero, .replay [.errIo] [], .append .zero]
  have ⟨fd, hf, ho⟩ := hg [.append .zero, .append .zero, .replay [.errIo] []] (.append .zero) _ _
    (List.prefix_refl _) rfl rfl
  rw [hr] at hf ho
  obtain rfl := Option.some.inj hf
  exact absurd ho (by decide)

end IotCollector
