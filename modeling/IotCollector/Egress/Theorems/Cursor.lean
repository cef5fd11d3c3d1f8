import IotCollector.Egress.Theorems.Replay

namespace IotCollector

open Posix CacheWriter

-- The value that `load_cursor` gets out of a file with the given bytes.
def cursorOf (b : List UInt8) : Int :=
  if b.length < 8 then 0 else (Bytes.ofLe64 b).toInt

@[simp]
theorem cursorOf_le64 (x : Int64) : cursorOf (Bytes.le64 x) = x.toInt := by
  simp [cursorOf, Bytes.le64_length]

-- The cursor on the disk for a cache of the given path. It is 0 when there is no file.
def diskCursor (fs : FileSystem) (path : Path) : Int :=
  cursorOf <| fs.content <| fs.node <| cursorPath path

-- The calls of the cache module after `cache_writer_open`, with everything that the calls inside
-- them return.
inductive CursorOp
  | append (frame : EnvFrame) (written : Option Nat)
  | replay (sends : List IotStatus) (saves : List SaveOutcome)

def cursorStep : Transition CacheWriter CursorOp
  | c, .append frame written => some (c.cacheWriterAppend frame written).snd
  | c, .replay sends saves   =>
    some (cacheReplayStart wireIo c { sends, saves, log := [] }).snd.fst

namespace CacheWriter

variable {c c' : CacheWriter} {path : Path} {w : Wire} {op : CursorOp}

theorem loadCursor_eq (c : CacheWriter) (path : Path) :
    c.loadCursor path = { c with readCursor := diskCursor c.fs path } := by
  unfold loadCursor diskCursor FileSystem.content FileSystem.lookup
  cases c.fs.data (c.fs.node (cursorPath path))
  case none   => simp [cursorOf]
  case some b => simp only [Option.getD_some, cursorOf]; split <;> rfl

-- The state after a successful `cache_writer_open`.
def opened (c : CacheWriter) (path : Path) : CacheWriter :=
  (c.cacheWriterOpen path true).snd

theorem opened_eq (c : CacheWriter) (path : Path) :
    c.opened path =
    { fs          := c.fs.store (c.fs.node path) (c.fs.content (c.fs.node path))
      cacheFd     := some { node   := c.fs.node path
                            offset := (c.fs.content (c.fs.node path)).length }
      writeCursor := (c.fs.content (c.fs.node path)).length
      readCursor  := diskCursor c.fs path } := by
  simp only [opened, cacheWriterOpen, loadCursor_eq, diskCursor,
    FileSystem.content_store_content]
  rfl

structure CursorsSound (c : CacheWriter) : Prop where
  nonneg : 0 ≤ c.readCursor
  le     : c.readCursor ≤ c.writeCursor
  read   : (envFrameWireSize : Int) ∣ c.readCursor
  write  : (envFrameWireSize : Int) ∣ c.writeCursor

-- A frame that is appended is one more pending frame, and a frame that is replayed one less.
def Counts (c : CacheWriter) : CursorOp → Prop
  | .append frame written =>
    let r := c.cacheWriterAppend frame written
    r.snd.cachePendingFrames = c.cachePendingFrames + if r.fst = .ok then 1 else 0
  | .replay sends saves   =>
    let r := cacheReplayStart wireIo c { sends, saves, log := [] }
    r.snd.fst.cachePendingFrames + r.snd.snd.sent.length = c.cachePendingFrames

theorem CursorsSound.pending (h : c.CursorsSound) :
    (envFrameWireSize : Int) * c.cachePendingFrames = c.writeCursor - c.readCursor := by
  have ⟨m, hm⟩ := h.read
  have ⟨k, hk⟩ := h.write
  have := h.le
  rw [cachePendingFrames]
  simp only [envFrameWireSize] at *
  split <;> omega

theorem cacheWriterAppend_cursors (c : CacheWriter) (f : EnvFrame) (written : Option Nat) :
    let r := c.cacheWriterAppend f written
    r.snd.readCursor = c.readCursor ∧
    r.snd.writeCursor = c.writeCursor + if r.fst = .ok then (envFrameWireSize : Int) else 0 := by
  by_cases h : c.cacheFd.isSome ∧ ∃ n, written = some n ∧ envFrameWireSize ≤ n
  case neg =>
    have ⟨he, hr, hw⟩ := cacheWriterAppend_incomplete (f := f) h
    simp [he, hr, hw]
  case pos =>
    obtain ⟨hc, n, rfl, hn⟩ := h
    have ⟨fd, hfd⟩ := Option.isSome_iff_exists.mp hc
    rw [cacheWriterAppend_complete hfd hn, cacheWriterAppend_of_cacheFd hfd]
    simp

theorem cursorsSound_append (h : c.CursorsSound) (f : EnvFrame) (written : Option Nat) :
    (c.cacheWriterAppend f written).snd.CursorsSound := by
  have ⟨hr, hw⟩ := c.cacheWriterAppend_cursors f written
  refine ⟨hr ▸ h.nonneg, ?_, hr ▸ h.read, ?_⟩
  · rw [hr, hw]
    split
    case isTrue  => exact Int.le_trans h.le <| Int.le_add_of_nonneg_right <| Int.natCast_nonneg _
    case isFalse => simpa using h.le
  · rw [hw]
    split
    case isTrue  => exact Int.dvd_add h.write (Int.dvd_refl _)
    case isFalse => simpa using h.write

theorem CursorsSound.counts_append (h : c.CursorsSound) (f : EnvFrame) (written : Option Nat) :
    c.Counts (.append f written) := by
  have ⟨hr, hw⟩ := c.cacheWriterAppend_cursors f written
  have h₁ := h.pending
  have h₂ := (cursorsSound_append h f written).pending
  simp only [Counts]
  rw [hr, hw] at h₂
  split at h₂ <;> simp only [envFrameWireSize, if_true, if_false, *] at * <;> omega

theorem replayLoop_cursors (c : CacheWriter) (w : Wire) :
    ∃ n : Nat, (replayLoop wireIo c w).fst.readCursor = c.readCursor + envFrameWireSize * n ∧
      (replayLoop wireIo c w).fst.writeCursor = c.writeCursor ∧
      (replayLoop wireIo c w).snd.sent.length = w.sent.length + n ∧
      ((envFrameWireSize : Int) ∣ c.writeCursor - c.readCursor → c.readCursor ≤ c.writeCursor →
        (replayLoop wireIo c w).fst.readCursor ≤ c.writeCursor) := by
  induction c, w using replayLoop.induct wireIo <;> rw [replayLoop]
  case case1 c w hp _ hr =>
    obtain ⟨h₁, h₂⟩ := c.read_cursors envFrameWireSize
    rw [if_pos hp, if_pos hr]
    exact ⟨0, by simpa using h₁, h₂, rfl, fun _ hl => h₁ ▸ hl⟩
  case case2 c w hp _ hr _ _ hs =>
    obtain ⟨h₁, h₂⟩ := c.read_cursors envFrameWireSize
    rw [if_pos hp, if_neg hr, if_pos hs]
    exact ⟨0, by simpa using h₁, h₂, congrArg _ <| sent_of_not_ok hs, fun _ hl => h₁ ▸ hl⟩
  case case3 c w hp _ _ hr frm sent hs c₁ saved hi =>
    obtain ⟨h₁, h₂⟩ := c.read_cursors envFrameWireSize
    obtain ⟨h₃, h₄, _⟩ := c₁.saveCursor_cursors cacheDat saved.fst
    have hr₁ : (c₁.saveCursor cacheDat saved.fst).snd.readCursor = c.readCursor + envFrameWireSize :=
      h₃.trans <| congrArg (· + _) h₁
    have hw₁ : (c₁.saveCursor cacheDat saved.fst).snd.writeCursor = c.writeCursor := h₄.trans h₂
    have hl : saved.snd.sent.length = w.sent.length + 1 := by
      have hl : sent.snd.sent = w.sent ++ [frm.bytes] := sent_of_ok (not_not.mp hs)
      have hl : saved.snd.sent = w.sent ++ [frm.bytes] := hl
      simp [hl]
    obtain ⟨n, hi₁, hi₂, hi₃, hi₄⟩ := hi
    rw [if_pos hp, if_neg hr, if_neg hs]
    rw [hr₁, hw₁] at hi₄
    refine ⟨n + 1, ?_, hi₂.trans hw₁, ?_, fun hd hl => ?_⟩
    · refine hi₁.trans ?_
      rw [hr₁]
      simp only [envFrameWireSize]
      omega
    · refine hi₃.trans ?_
      omega
    · refine hi₄ ?_ ?_ <;> simp only [envFrameWireSize] at * <;> omega
  case case4 c w hp =>
    rw [if_neg hp]
    exact ⟨0, by simp, rfl, rfl, fun _ hl => hl⟩

theorem cacheReplayStart_cursors (c : CacheWriter) (w : Wire) :
    ∃ n : Nat,
      (cacheReplayStart wireIo c w).snd.fst.readCursor = c.readCursor + envFrameWireSize * n ∧
      (cacheReplayStart wireIo c w).snd.fst.writeCursor = c.writeCursor ∧
      (cacheReplayStart wireIo c w).snd.snd.sent.length = w.sent.length + n ∧
      ((envFrameWireSize : Int) ∣ c.writeCursor - c.readCursor → c.readCursor ≤ c.writeCursor →
        (cacheReplayStart wireIo c w).snd.fst.readCursor ≤ c.writeCursor) := by
  unfold cacheReplayStart
  split
  case isTrue  => exact ⟨0, by simp, rfl, rfl, fun _ hl => hl⟩
  case isFalse =>
    have hl : (c.lseek c.readCursor).readCursor = c.readCursor ∧
        (c.lseek c.readCursor).writeCursor = c.writeCursor := by
      unfold lseek
      split <;> exact ⟨rfl, rfl⟩
    have h := replayLoop_cursors (c.lseek c.readCursor) w
    rwa [hl.left, hl.right] at h

theorem CursorsSound.replay (h : c.CursorsSound) (w : Wire) :
    (cacheReplayStart wireIo c w).snd.fst.CursorsSound := by
  have ⟨n, hr, hw, _, hl⟩ := cacheReplayStart_cursors c w
  refine ⟨?_, ?_, ?_, hw ▸ h.write⟩
  · rw [hr]
    exact Int.add_nonneg h.nonneg <| Int.mul_nonneg (Int.natCast_nonneg _) (Int.natCast_nonneg _)
  · rw [hw]
    exact hl (Int.dvd_sub h.write h.read) h.le
  · rw [hr]
    exact Int.dvd_add h.read (Int.dvd_mul_right ..)

theorem CursorsSound.counts_replay (h : c.CursorsSound) (sends : List IotStatus)
    (saves : List SaveOutcome) : c.Counts (.replay sends saves) := by
  have ⟨n, hr, hw, hs, _⟩ := cacheReplayStart_cursors c { sends, saves, log := [] }
  have h₁ := h.pending
  have h₂ := (h.replay { sends, saves, log := [] }).pending
  have h₀ : ({ sends, saves, log := [] } : Wire).sent.length = 0 := rfl
  rw [hr, hw] at h₂
  rw [h₀] at hs
  show _ + _ = _
  rw [hs]
  simp only [envFrameWireSize] at *
  omega

theorem CursorsSound.counts (h : c.CursorsSound) (op : CursorOp) : c.Counts op := by
  cases op
  case append f written   => exact h.counts_append f written
  case replay sends saves => exact h.counts_replay sends saves

theorem cursorStep_sound (h : c.CursorsSound) (hs : cursorStep c op = some c') :
    c'.CursorsSound := by
  cases op
  case append f written   => exact Option.some.inj hs ▸ cursorsSound_append h f written
  case replay sends saves => exact Option.some.inj hs ▸ h.replay _

-- The cache file holds whole records, and the cursor is the place of one of them or their end.
structure SoundOnDisk (fs : FileSystem) (path : Path) : Prop where
  file   : envFrameWireSize ∣ (fs.content (fs.node path)).length
  nonneg : 0 ≤ diskCursor fs path
  le     : diskCursor fs path ≤ (fs.content (fs.node path)).length
  cursor : (envFrameWireSize : Int) ∣ diskCursor fs path

theorem opened_sound_iff : (c.opened path).CursorsSound ↔ SoundOnDisk c.fs path := by
  rw [opened_eq]
  constructor
  case mp  => exact fun h => ⟨Int.natCast_dvd_natCast.mp h.write, h.nonneg, h.le, h.read⟩
  case mpr => exact fun h => ⟨h.nonneg, h.le, h.cursor, Int.natCast_dvd_natCast.mpr h.file⟩

end CacheWriter

-- Nothing checks what is on the disk, and no call repairs it.
theorem cursors_sound_iff (c : CacheWriter) (path : Path) (ops : List CursorOp) :
    cursorStep.Always (c.opened path) ops (fun c => c.CursorsSound ∧ ∀ op, c.Counts op) ↔
    SoundOnDisk c.fs path := by
  rw [← opened_sound_iff]
  constructor
  case mp  => exact fun h => (h [] _ List.nil_prefix rfl).left
  case mpr =>
    intro h bs c' hp hs
    have h' := Transition.always_of_preserved h cursorStep_sound ops bs c' hp hs
    exact ⟨h', h'.counts⟩

-- Two records, of which the first one has been replayed.
example : SoundOnDisk
    (((sampleCache cacheDat).fs.store 0 (records [.zero, .zero])).store 1 (Bytes.le64 28)) cacheDat := by
  constructor <;> decide

-- A cache file with the first bytes of a record, which a full disk has cut off.
def tornCache : CacheWriter :=
  { sampleCache cacheDat with
    fs := (sampleCache cacheDat).fs.store 0 (EnvFrame.zero.bytes.take 10) }

theorem cursors_sound_false :
    ¬∀ (c : CacheWriter) (path : Path) (ops : List CursorOp),
      cursorStep.Always (c.opened path) ops CursorsSound := by
  intro h
  have hs := opened_sound_iff.mp <| h tornCache cacheDat [] [] _ List.nil_prefix rfl
  exact absurd hs.file (by decide)

end IotCollector
