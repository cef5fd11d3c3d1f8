import IotCollector.Lib.File
import IotCollector.Common.Frame

namespace IotCollector

open Posix

def cstr (s : String) : Path :=
  s.toList.map fun c => UInt8.ofNat c.toNat

-- What `snprintf` leaves in a buffer of 256 bytes.
def cursorPath (path : Path) : Path :=
  (path ++ cstr ".cursor").take 255

-- The path which `cache_replay_start` hands to `save_cursor`.
def cacheDat : Path :=
  cstr "./cache.dat"

structure CacheFd where
  node   : Nat
  offset : Nat

-- The variables of the module, where `none` stands for the descriptor -1, and the file system.
structure CacheWriter where
  fs          : FileSystem
  cacheFd     : Option CacheFd
  writeCursor : Int
  readCursor  : Int

-- The outcomes of `fopen` and `fwrite` in `save_cursor`.
inductive SaveOutcome
  | openFails
  | writeFails
  | saved
  deriving DecidableEq

namespace CacheWriter

variable (c : CacheWriter)

-- `read`, `write` and `lseek` on `cache_fd`, which act on its one offset.
def read (n : Nat) : List UInt8 × CacheWriter :=
  match c.cacheFd with
  | none    => ([], c)
  | some fd =>
    let b := readAt (c.fs.content fd.node) fd.offset n
    (b, { c with cacheFd := some { fd with offset := fd.offset + b.length } })

def write (b : List UInt8) : CacheWriter :=
  match c.cacheFd with
  | none    => c
  | some fd =>
    if b = [] then
      c
    else
      { c with
        fs      := c.fs.store fd.node (writeAt (c.fs.content fd.node) fd.offset b)
        cacheFd := some { fd with offset := fd.offset + b.length } }

def lseek (offset : Int) : CacheWriter :=
  if offset < 0
  then c
  else { c with cacheFd := c.cacheFd.map ({ · with offset := offset.toNat }) }

-- A file of the cursor that is there can be opened and read.
def loadCursor (path : Path) : CacheWriter :=
  match c.fs.lookup (cursorPath path) with
  | none   => { c with readCursor := 0 }
  | some b =>
    if b.length < 8
    then { c with readCursor := 0 }
    else { c with readCursor := (Bytes.ofLe64 b).toInt }

def saveCursor (path : Path) : SaveOutcome → IotStatus × CacheWriter
  | .openFails  => (.errIo, c)
  | .writeFails => (.errIo, { c with fs := c.fs.store (c.fs.node <| cursorPath path) [] })
  | .saved      =>
    (.ok, { c with
            fs := c.fs.store (c.fs.node <| cursorPath path) (Bytes.le64 <| .ofInt c.readCursor) })

-- The flag `opens` is the outcome of `open`, which creates the file where there is none.
def cacheWriterOpen (path : Option Path) (opens : Bool) : IotStatus × CacheWriter :=
  match path with
  | none      => (.errGeneric, c)
  | some path =>
    if !opens then
      (.errIo, { c with cacheFd := none })
    else
      let n := c.fs.node path
      let c := { c with fs := c.fs.store n (c.fs.content n) }
      let c := { c with
        cacheFd     := some { node := n, offset := (c.fs.content n).length }
        writeCursor := (c.fs.content n).length }
      (.ok, c.loadCursor path)

-- The number `written` is what `write` returns, and `none` stands for -1.
def cacheWriterAppend (frame : EnvFrame) (written : Option Nat) : IotStatus × CacheWriter :=
  if c.cacheFd.isNone then
    (.errIo, c)
  else
    match written with
    | none   => (.errIo, c)
    | some n =>
      let c := c.write (frame.bytes.take n)
      if (frame.bytes.take n).length ≠ envFrameWireSize
      then (.errIo, c)
      else (.ok, { c with writeCursor := c.writeCursor + envFrameWireSize })

def cacheWriterClose : CacheWriter :=
  { c with cacheFd := none }

def cachePendingFrames : Nat :=
  if c.writeCursor > c.readCursor
  then (c.writeCursor - c.readCursor).toNat / envFrameWireSize
  else 0

end CacheWriter

-- The world outside of a replay: the socket and the file of the cursor.
structure ReplayIo (σ : Type*) where
  send : σ → List UInt8 → IotStatus × σ
  save : σ → SaveOutcome × σ

-- The frame that a record holds, with the mark of a replay.
def markRetry (frm : EnvFrame) : EnvFrame :=
  { frm with frameType := frameRetry }

namespace CacheWriter

variable {σ : Type*} (io : ReplayIo σ)

theorem read_cursors (c : CacheWriter) (n : Nat) :
    (c.read n).snd.readCursor = c.readCursor ∧ (c.read n).snd.writeCursor = c.writeCursor := by
  unfold read
  split <;> simp

theorem saveCursor_cursors (c : CacheWriter) (path : Path) (o : SaveOutcome) :
    (c.saveCursor path o).snd.readCursor = c.readCursor ∧
    (c.saveCursor path o).snd.writeCursor = c.writeCursor ∧
    (c.saveCursor path o).snd.cacheFd = c.cacheFd := by
  cases o <;> simp [saveCursor]

-- The loop of `cache_replay_start`.
def replayLoop (c : CacheWriter) (s : σ) : CacheWriter × σ :=
  if c.readCursor < c.writeCursor then
    let r := c.read envFrameWireSize
    let c := r.snd
    if r.fst.length ≠ envFrameWireSize then
      (c, s)
    else
      let frm := markRetry (EnvFrame.ofBytes r.fst)
      let sent := io.send s frm.bytes
      if sent.fst ≠ .ok then
        (c, sent.snd)
      else
        let c := { c with readCursor := c.readCursor + envFrameWireSize }
        let saved := io.save sent.snd
        replayLoop (c.saveCursor cacheDat saved.fst).snd saved.snd
  else
    (c, s)
termination_by (c.writeCursor - c.readCursor).toNat
decreasing_by
  simp only [saveCursor_cursors, read_cursors, envFrameWireSize] at *
  omega

def cacheReplayStart (c : CacheWriter) (s : σ) : IotStatus × CacheWriter × σ :=
  if c.cacheFd.isNone ∨ c.readCursor ≥ c.writeCursor
  then (.ok, c, s)
  else (.ok, replayLoop io (c.lseek c.readCursor) s)

end CacheWriter
end IotCollector
