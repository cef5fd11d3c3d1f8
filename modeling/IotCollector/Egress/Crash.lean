import IotCollector.Lib.Transition
import IotCollector.Egress.CacheWriter

namespace IotCollector

open Posix

-- Where a call of `cache_replay_start` stands. From `saving` on it is in `save_cursor`.
inductive ReplayPc
  | idle
  | looping
  | sending (frm : EnvFrame)
  | saving
  | opened
  | buffered
  | flushed
  | synced
  deriving DecidableEq

-- The operations on the files and on the socket, with their outcomes. The bytes of `fwrite` stay in
-- a buffer of the process, and the flag of `fflush` is whether they get to the file.
inductive ReplayAct
  | append (frame : EnvFrame) (written : Option Nat)
  | call
  | read
  | send (sent : IotStatus)
  | fopen (ok : Bool)
  | fwrite (ok : Bool)
  | fflush (ok : Bool)
  | fsync
  | fclose

structure Replay where
  cache : CacheWriter
  pc    : ReplayPc

-- No append comes between the steps of a replay, which holds `cache_lock`.
def replayStep : Transition Replay ReplayAct
  | ⟨c, .idle⟩, .append frame written =>
    some ⟨(c.cacheWriterAppend frame written).snd, .idle⟩
  | ⟨c, .idle⟩, .call =>
    if c.cacheFd.isNone ∨ c.readCursor ≥ c.writeCursor
    then some ⟨c, .idle⟩
    else some ⟨c.lseek c.readCursor, .looping⟩
  | ⟨c, .looping⟩, .read =>
    if c.readCursor < c.writeCursor then
      let r := c.read envFrameWireSize
      if r.fst.length ≠ envFrameWireSize
      then some ⟨r.snd, .idle⟩
      else some ⟨r.snd, .sending <| markRetry <| .ofBytes r.fst⟩
    else
      some ⟨c, .idle⟩
  | ⟨c, .sending _⟩, .send sent =>
    if sent ≠ .ok
    then some ⟨c, .idle⟩
    else some ⟨{ c with readCursor := c.readCursor + envFrameWireSize }, .saving⟩
  | ⟨c, .saving⟩, .fopen ok =>
    if ok
    then some ⟨{ c with fs := c.fs.store (c.fs.node <| cursorPath cacheDat) [] }, .opened⟩
    else some ⟨c, .looping⟩
  | ⟨c, .opened⟩, .fwrite ok =>
    if ok
    then some ⟨c, .buffered⟩
    else some ⟨c, .looping⟩
  | ⟨c, .buffered⟩, .fflush ok =>
    if ok
    then
      let b := Bytes.le64 <| .ofInt c.readCursor
      some ⟨{ c with fs := c.fs.store (c.fs.node <| cursorPath cacheDat) b }, .flushed⟩
    else
      some ⟨c, .flushed⟩
  | ⟨c, .flushed⟩, .fsync => some ⟨c, .synced⟩
  | ⟨c, .synced⟩, .fclose => some ⟨c, .looping⟩
  | _, _ => none

-- The process dies. Its memory is lost, and the files stay as they are.
def CacheWriter.crash (c : CacheWriter) : CacheWriter where
  fs          := c.fs
  cacheFd     := none
  writeCursor := 0
  readCursor  := 0

-- The operations that make up one call of `save_cursor`.
def saveActs : SaveOutcome → List ReplayAct
  | .openFails  => [.fopen false]
  | .writeFails => [.fopen true, .fwrite false]
  | .saved      => [.fopen true, .fwrite true, .fflush true, .fsync, .fclose]

namespace CacheWriter

variable {σ : Type*} (io : ReplayIo σ)

theorem exec_saveActs (c : CacheWriter) (o : SaveOutcome) :
    replayStep.exec ⟨c, .saving⟩ (saveActs o) = some ⟨(c.saveCursor cacheDat o).snd, .looping⟩ := by
  cases o
  case openFails  => rfl
  case writeFails => rfl
  case saved      => simp [saveActs, saveCursor, replayStep]

theorem replayStep_short {c : CacheWriter} (hp : c.readCursor < c.writeCursor)
    (hr : (c.read envFrameWireSize).fst.length ≠ envFrameWireSize) :
    replayStep ⟨c, .looping⟩ .read = some ⟨(c.read envFrameWireSize).snd, .idle⟩ :=
  (if_pos hp).trans <| if_pos hr

theorem replayStep_read {c : CacheWriter} (hp : c.readCursor < c.writeCursor)
    (hr : ¬(c.read envFrameWireSize).fst.length ≠ envFrameWireSize) :
    replayStep ⟨c, .looping⟩ .read =
    some ⟨(c.read envFrameWireSize).snd,
      .sending <| markRetry <| .ofBytes (c.read envFrameWireSize).fst⟩ :=
  (if_pos hp).trans <| if_neg hr

theorem exec_replayLoop (c : CacheWriter) (s : σ) :
    ∃ as, replayStep.exec ⟨c, .looping⟩ as = some ⟨(replayLoop io c s).fst, .idle⟩ := by
  induction c, s using replayLoop.induct io <;> rw [replayLoop]
  case case1 c s hp _ hr =>
    rw [if_pos hp, if_pos hr]
    exact ⟨[.read], by rw [Transition.exec_cons, replayStep_short hp hr]; rfl⟩
  case case2 c s hp _ hr frm sent hs =>
    have hf : replayStep ⟨(c.read envFrameWireSize).snd, .sending frm⟩ (.send sent.fst) =
      some ⟨(c.read envFrameWireSize).snd, .idle⟩ := if_pos hs
    rw [if_pos hp, if_neg hr, if_pos hs]
    refine ⟨[.read, .send sent.fst], ?_⟩
    rw [Transition.exec_cons, replayStep_read hp hr, Option.bind_some, Transition.exec_cons, hf]
    rfl
  case case3 c s hp _ _ hr frm sent hs c₁ saved hi =>
    have ⟨as, hi⟩ := hi
    have hf : replayStep ⟨(c.read envFrameWireSize).snd, .sending frm⟩ (.send sent.fst) =
      some ⟨c₁, .saving⟩ := if_neg hs
    rw [if_pos hp, if_neg hr, if_neg hs]
    refine ⟨.read :: .send sent.fst :: (saveActs saved.fst ++ as), ?_⟩
    rw [Transition.exec_cons, replayStep_read hp hr, Option.bind_some, Transition.exec_cons, hf,
      Option.bind_some, Transition.exec_append, exec_saveActs]
    exact hi
  case case4 c s hp =>
    have hl : replayStep ⟨c, .looping⟩ .read = some ⟨c, .idle⟩ := if_neg hp
    rw [if_neg hp]
    exact ⟨[.read], by rw [Transition.exec_cons, hl]; rfl⟩

theorem exec_cacheReplayStart (c : CacheWriter) (s : σ) :
    ∃ as, replayStep.exec ⟨c, .idle⟩ as = some ⟨(cacheReplayStart io c s).snd.fst, .idle⟩ := by
  unfold cacheReplayStart
  split
  case isTrue h =>
    have hc : replayStep ⟨c, .idle⟩ .call = some ⟨c, .idle⟩ := if_pos h
    exact ⟨[.call], by rw [Transition.exec_cons, hc]; rfl⟩
  case isFalse h =>
    have ⟨as, ha⟩ := exec_replayLoop io (c.lseek c.readCursor) s
    refine ⟨.call :: as, ?_⟩
    have hc : replayStep ⟨c, .idle⟩ .call = some ⟨c.lseek c.readCursor, .looping⟩ := if_neg h
    rw [Transition.exec_cons, hc]
    exact ha

end CacheWriter
end IotCollector
