import IotCollector.Egress.CacheWriter

namespace IotCollector

open Posix

def records (frames : List EnvFrame) : List UInt8 :=
  frames.flatMap EnvFrame.bytes

-- The frames in a piece of the cache file. An incomplete record at its end is no frame.
def toFrames (b : List UInt8) : List EnvFrame :=
  if envFrameWireSize ≤ b.length
  then EnvFrame.ofBytes b :: toFrames (b.drop envFrameWireSize)
  else []
termination_by b.length
decreasing_by
  simp only [List.length_drop, envFrameWireSize] at *
  omega

namespace CacheWriter

variable (c : CacheWriter)

-- The rounds of a replay that the cursors allow for.
def slots : Nat :=
  ((c.writeCursor - c.readCursor + 27) / envFrameWireSize).toNat

-- The frames that the loop of a replay can read.
def loopFrames : List EnvFrame :=
  match c.cacheFd with
  | none    => []
  | some fd => (toFrames <| (c.fs.content fd.node).drop fd.offset).take c.slots

-- And those that are read back by a replay in which no send fails.
def readBack : List EnvFrame :=
  (c.lseek c.readCursor).loopFrames

end CacheWriter
end IotCollector
