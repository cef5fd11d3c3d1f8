import IotCollector.Egress.Dispatcher
import IotCollector.Egress.ReadBack

namespace IotCollector

-- The frame is the record that a replay reads behind those which were pending before.
def CacheWriter.Caches (c c' : CacheWriter) (f : EnvFrame) : Prop :=
  c'.cachePendingFrames = c.cachePendingFrames + 1 ∧ c'.readBack[c.cachePendingFrames]? = some f

instance (c c' : CacheWriter) (f : EnvFrame) : Decidable (c.Caches c' f) :=
  inferInstanceAs (Decidable (_ ∧ _))

-- The place of the record behind the pending ones, as a replay counts after the append of a frame. With
-- a cursor below zero, the replay begins at the offset.
def CacheWriter.nextRecord (c : CacheWriter) (fd : CacheFd) : Nat :=
  (if c.readCursor < 0 then fd.offset + envFrameWireSize else c.readCursor.toNat) +
    envFrameWireSize * c.cachePendingFrames

-- The cache is open and takes the whole frame, the read cursor is not ahead of the write cursor, and
-- the offset is at that place, or the bytes of the frame are there anyway.
structure CacheWriter.CanAppend (c : CacheWriter) (f : EnvFrame) (written : Option Nat) : Prop where
  opened  : c.cacheFd.isSome
  written : ∃ n, written = some n ∧ envFrameWireSize ≤ n
  cursors : c.readCursor ≤ c.writeCursor
  place   : ∀ fd, c.cacheFd = some fd → fd.offset = c.nextRecord fd ∨
    Posix.Overlaid (c.fs.content fd.node) f.bytes fd.offset (c.nextRecord fd)

namespace Dispatcher

variable (cfg : DispatcherCfg) (d d' : Dispatcher) (f : EnvFrame) (io : DispatchIo)

def Sends : Prop :=
  0 ≤ d.unicastFd ∧ d.link.online ∧
  (frameEncode (frameHton f) envFrameWireSize).map io.unicast = some .ok

instance : Decidable (d.Sends f io) :=
  inferInstanceAs (Decidable (_ ∧ _))

def Reported : Prop :=
  d'.stats.unicastOk = d.stats.unicastOk + 1

def Cached : Prop :=
  d.cache.Caches d'.cache f

def Dropped : Prop :=
  d'.stats.droppedTotal = d.stats.droppedTotal + 1

def RecordedOnce : Prop :=
  (d.Reported d' ∧ ¬d.Cached d' f ∧ ¬d.Dropped d') ∨
  (¬d.Reported d' ∧ d.Cached d' f ∧ ¬d.Dropped d') ∨
  (¬d.Reported d' ∧ ¬d.Cached d' f ∧ d.Dropped d')

-- The platform does not get the frame, neither now nor out of the cache.
def Loses : Prop :=
  cfg.platformIp ≠ none ∧ ¬d.Sends f io ∧ ¬d.cache.Caches (d.dispatchOne cfg f io).cache f

instance : Decidable (d.Loses cfg f io) :=
  inferInstanceAs (Decidable (_ ∧ _ ∧ _))

def Delivers : Prop :=
  cfg.platformIp = none ∨ d.Sends f io ∨ cfg.cachePath ≠ none ∧ d.cache.CanAppend f io.written

end Dispatcher
end IotCollector
