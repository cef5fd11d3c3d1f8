import IotCollector.Egress.Crash
import IotCollector.Egress.Theorems.Restart

namespace IotCollector

open Posix CacheWriter

namespace Replay

def Sent (s : Replay) : Prop :=
  match s.pc with
  | .idle | .looping | .sending _ => False
  | _                             => True

def before (s : Replay) : Int :=
  match s.pc with
  | .idle | .looping | .sending _ => s.cache.readCursor
  | _                             => s.cache.readCursor - envFrameWireSize

-- The file of the cursor has been truncated, and the new cursor is not in it.
def Gap (s : Replay) : Prop :=
  (s.pc = .opened ∨ s.pc = .buffered) ∧ s.before ≠ 0 ∧ s.before + envFrameWireSize ≠ 0

-- After a crash the module opens the cache in front of the frame in flight, or behind it where it
-- has been sent.
def Recovers (s : Replay) : Prop :=
  let r := (s.cache.crash.opened cacheDat).readCursor
  r = s.before ∨ s.Sent ∧ r = s.before + envFrameWireSize

def disk (s : Replay) : Int :=
  match s.pc with
  | .opened | .buffered => 0
  | .flushed | .synced  => s.before + envFrameWireSize
  | _                   => s.before

-- The cache is not the file of its cursor, no operation on that file fails, and the cursor is an
-- `off_t`.
def Works (s : Replay) (a : ReplayAct) : Prop :=
  s.cache.fs.node cacheDat ≠ s.cache.fs.node (cursorPath cacheDat) ∧
  match a with
  | .fopen ok | .fwrite ok => ok = true
  | .fflush ok             => ok = true ∧ s.cache.readCursor < 2 ^ 63
  | _                      => True

structure Tracked (s : Replay) : Prop where
  cacheFd : s.cache.cacheFd.map CacheFd.node = some (s.cache.fs.node cacheDat)
  range   : -2 ^ 63 ≤ s.before
  disk    : diskCursor s.cache.fs cacheDat = s.disk

instance (s : Replay) (a : ReplayAct) : Decidable (s.Works a) :=
  match a with
  | .fopen ok | .fwrite ok => inferInstanceAs <| Decidable <| _ ∧ ok = true
  | .fflush ok             => inferInstanceAs <| Decidable <| _ ∧ ok = true ∧ _
  | .append _ _ | .call | .read | .send _ | .fsync | .fclose =>
    inferInstanceAs <| Decidable <| _ ∧ True

variable {s s' : Replay} {a : ReplayAct}

theorem recovers_iff_diskCursor :
    s.Recovers ↔
    diskCursor s.cache.fs cacheDat = s.before ∨
    s.Sent ∧ diskCursor s.cache.fs cacheDat = s.before + envFrameWireSize := by
  rw [Recovers, opened_eq]
  rfl

theorem Tracked.recovers_iff (h : s.Tracked) : s.Recovers ↔ ¬s.Gap := by
  rw [recovers_iff_diskCursor, h.disk, Gap, Sent, Replay.disk]
  cases s.pc <;> simp <;> omega

theorem opened_tracked (c : CacheWriter) : Tracked ⟨c.opened cacheDat, .idle⟩ := by
  have h := opened_persisted c cacheDat
  have hr : -2 ^ 63 ≤ (c.opened cacheDat).readCursor := h.disk ▸ neg_le_diskCursor ..
  exact ⟨h.cacheFd, hr, h.disk⟩

theorem Tracked.congr {c c' : CacheWriter} {pc pc' : ReplayPc} (h : Tracked ⟨c, pc⟩) {n : Nat}
    (hk : KeepsBut n c c') (hb : before ⟨c, pc⟩ ≤ before ⟨c', pc'⟩)
    (hd : diskCursor c'.fs cacheDat = Replay.disk ⟨c', pc'⟩) : Tracked ⟨c', pc'⟩ where
  cacheFd := hk.cacheFd.trans <| h.cacheFd.trans <| congrArg some <| congrFun hk.node.symm _
  range   := h.range.trans hb
  disk    := hd

theorem replayStep_tracked (h : s.Tracked) (hw : s.Works a) (hs : replayStep s a = some s') :
    s'.Tracked := by
  unfold replayStep at hs
  split at hs
  case h_1 c f written =>
    cases hs
    have ⟨fd, hc, hn⟩ := Option.map_eq_some_iff.mp h.cacheFd
    have hk := keepsBut_append hc f written
    have hr := (c.cacheWriterAppend_cursors f written).left
    exact h.congr hk hr.ge <| (hk.diskCursor (hn ▸ hw.left.symm)).trans <| h.disk.trans hr.symm
  case h_2 c =>
    have ⟨hr, _, hd⟩ := c.lseek_cursors c.readCursor
    split at hs <;> cases hs
    case isTrue  => exact h
    case isFalse => exact h.congr (keepsBut_lseek 0 ..) hr.ge <| hd ▸ h.disk.trans hr.symm
  case h_3 c =>
    have hk := keepsBut_read 0 envFrameWireSize c
    have hr := (c.read_cursors envFrameWireSize).left
    have hd := (congrArg (diskCursor · cacheDat) (c.read_fs envFrameWireSize)).trans <|
      h.disk.trans hr.symm
    split at hs
    case isFalse => cases hs; exact ⟨h.cacheFd, h.range, h.disk⟩
    case isTrue  => dsimp only at hs; split at hs <;> cases hs <;> exact h.congr hk hr.ge hd
  case h_4 c frm sent =>
    split at hs <;> cases hs
    case isTrue  => exact ⟨h.cacheFd, h.range, h.disk⟩
    case isFalse =>
      have hb : c.readCursor + envFrameWireSize - envFrameWireSize = c.readCursor :=
        Int.add_sub_cancel ..
      exact h.congr (n := 0) ⟨rfl, fun _ _ => rfl, rfl⟩ hb.ge <| h.disk.trans hb.symm
  case h_5 c ok =>
    rw [hw.right, if_pos rfl] at hs
    cases hs
    refine h.congr ⟨rfl, fun _ hm => FileSystem.content_store_of_ne hm, rfl⟩ (le_refl _) ?_
    simp [diskCursor, cursorOf, disk]
  case h_6 c ok =>
    rw [hw.right, if_pos rfl] at hs
    cases hs
    exact ⟨h.cacheFd, h.range, h.disk⟩
  case h_7 c ok =>
    have hr : c.readCursor - envFrameWireSize + envFrameWireSize = c.readCursor :=
      Int.sub_add_cancel ..
    have hl : -2 ^ 63 ≤ c.readCursor := by
      have hl : -2 ^ 63 ≤ c.readCursor - envFrameWireSize := h.range
      simp only [envFrameWireSize] at hl
      omega
    rw [hw.right.left, if_pos rfl] at hs
    cases hs
    refine h.congr ⟨rfl, fun _ hm => FileSystem.content_store_of_ne hm, rfl⟩ (le_refl _) ?_
    simpa [diskCursor, disk, before] using Int64.toInt_ofInt_of_le hl hw.right.right
  case h_8 =>
    cases hs
    exact ⟨h.cacheFd, h.range, h.disk⟩
  case h_9 c =>
    have hb : c.readCursor - envFrameWireSize ≤ c.readCursor :=
      Int.sub_le_self _ <| Int.natCast_nonneg _
    cases hs
    exact ⟨h.cacheFd, h.range.trans hb, h.disk.trans <| Int.sub_add_cancel ..⟩
  case h_10 => cases hs

end Replay

-- A crash is repaired but between the truncation of the file of the cursor and the flush.
theorem crash_recovers_iff (c : CacheWriter) (as : List ReplayAct)
    (g : replayStep.Guarded ⟨c.opened cacheDat, .idle⟩ as Replay.Works) :
    replayStep.Always ⟨c.opened cacheDat, .idle⟩ as fun s => s.Recovers ↔ ¬s.Gap := by
  intro bs s hp hs
  have h : s.Tracked := Transition.invariant_of_guarded (Replay.opened_tracked c)
    Replay.replayStep_tracked (g.of_prefix hp) hs
  exact h.recovers_iff

-- Two frames are appended, the first one is replayed, and the file of the cursor is opened for the
-- second one.
def tornReplay : List ReplayAct :=
  [.append .zero (some envFrameWireSize), .append .zero (some envFrameWireSize), .call, .read,
    .send .ok, .fopen true, .fwrite true, .fflush true, .fsync, .fclose, .read, .send .ok,
    .fopen true]

theorem tornReplay_works :
    replayStep.Guarded ⟨(sampleCache cacheDat).opened cacheDat, .idle⟩ tornReplay Replay.Works :=
  .of_check <| by decide

theorem crash_recovers_iff_torn :
    replayStep.Guarded ⟨(sampleCache cacheDat).opened cacheDat, .idle⟩ tornReplay Replay.Works ∧
    replayStep.Always ⟨(sampleCache cacheDat).opened cacheDat, .idle⟩ tornReplay
      fun s => s.Recovers ↔ ¬s.Gap :=
  ⟨tornReplay_works, crash_recovers_iff _ _ tornReplay_works⟩

theorem crash_recovers_false :
    ¬∀ (c : CacheWriter) (as : List ReplayAct),
      replayStep.Always ⟨c.opened cacheDat, .idle⟩ as Replay.Recovers := by
  intro h
  have h := h (sampleCache cacheDat) tornReplay _ _ List.prefix_rfl rfl
  have ht := Transition.invariant_of_guarded (Replay.opened_tracked _) Replay.replayStep_tracked
    tornReplay_works rfl
  exact ht.recovers_iff.mp h (by simp only [Replay.Gap]; decide)

end IotCollector
