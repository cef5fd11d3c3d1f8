import Mathlib.Logic.Function.Basic
import IotCollector.Common.Stats
import IotCollector.Pipeline.StationCtx

namespace IotCollector

abbrev Stamp := UInt32 × UInt32

def Stamp.Before (a b : Stamp) : Prop :=
  a.fst < b.fst ∨ a.fst = b.fst ∧ a.snd < b.snd

instance : DecidableRel Stamp.Before :=
  fun a b => inferInstanceAs (Decidable (a.fst < b.fst ∨ a.fst = b.fst ∧ a.snd < b.snd))

def EnvFrame.stamp (f : EnvFrame) : Stamp :=
  (f.timestampSec, f.timestampMs)

abbrev reorderCap : Nat := 5

-- The fields `last_valid_timestamp_sec` and `last_valid_timestamp_ms` are one stamp here.
structure StationInternalCtx where
  base               : StationCtx
  lastValidTimestamp : Stamp
  reorderBuf         : Vector EnvFrame reorderCap
  reorderCount       : Nat
  hasValidTimestamp  : Bool
  bounded            : reorderCount ≤ reorderCap

inductive CleanResult
  | pass
  | drop
  | alarm
  deriving DecidableEq

structure Cleaner where
  ctxs  : UInt16 → Option StationInternalCtx
  stats : IotStats

namespace StationInternalCtx

-- What `calloc` and `station_ctx_reset` leave behind.
def fresh (stationId : UInt16) : StationInternalCtx where
  base               := stationCtxReset stationId
  lastValidTimestamp := (0, 0)
  reorderBuf         := .replicate _ .zero
  reorderCount       := 0
  hasValidTimestamp  := false
  bounded            := Nat.zero_le _

variable (ctx : StationInternalCtx)

-- The test for frames that are repeated or late.
def IsStale (frame : EnvFrame) : Prop :=
  ctx.hasValidTimestamp ∧
  (frame.timestampSec < ctx.lastValidTimestamp.fst ∨
   frame.timestampSec = ctx.lastValidTimestamp.fst ∧
   frame.timestampMs ≤ ctx.lastValidTimestamp.snd)

instance (frame : EnvFrame) : Decidable (ctx.IsStale frame) :=
  inferInstanceAs (Decidable (_ ∧ (_ ∨ _ ∧ _)))

-- The test for frames that are more than ten seconds ahead, in 32 bits.
def IsJump (frame : EnvFrame) : Prop :=
  ctx.hasValidTimestamp ∧ frame.timestampSec > ctx.lastValidTimestamp.fst + 10

instance (frame : EnvFrame) : Decidable (ctx.IsJump frame) :=
  inferInstanceAs (Decidable (_ ∧ _))

def buffer (frame : EnvFrame) (h : ctx.reorderCount < reorderCap) : StationInternalCtx :=
  { ctx with
    reorderBuf   := ctx.reorderBuf.set ctx.reorderCount frame
    reorderCount := ctx.reorderCount + 1
    bounded      := h }

-- The loop that looks for the oldest frame of a full buffer.
def minIdx : Fin reorderCap :=
  [1, 2, 3, 4].foldl
    (fun (m i : Fin reorderCap) =>
      if ctx.reorderBuf[i.val].stamp.Before ctx.reorderBuf[m.val].stamp then i else m)
    0

def oldest : EnvFrame :=
  ctx.reorderBuf[ctx.minIdx.val]

def swap (frame : EnvFrame) : StationInternalCtx :=
  { ctx with reorderBuf := ctx.reorderBuf.set ctx.minIdx frame }

def accept (frame : EnvFrame) : StationInternalCtx :=
  { ctx with
    base               := ctx.base.push frame
    lastValidTimestamp := frame.stamp
    hasValidTimestamp  := true }

end StationInternalCtx

namespace Cleaner

def cleanerInit (stats : IotStats) : Cleaner where
  ctxs  := fun _ => none
  stats := stats

variable (c : Cleaner)

-- The flag `alloc` tells whether `calloc` succeeds.
def getInternalCtx (stationId : UInt16) (alloc : Bool) : Option StationInternalCtx :=
  match c.ctxs stationId with
  | some ctx => some ctx
  | none     => if alloc then some (.fresh stationId) else none

def put (stationId : UInt16) (ctx : StationInternalCtx) : Cleaner :=
  { c with ctxs := Function.update c.ctxs stationId ctx }

def count (kind : Nat) : Cleaner :=
  { c with stats := c.stats.onClean kind 1 }

variable (D : Type*) [DoubleArith D]

def processValidFrame (stationId : UInt16) (ctx : StationInternalCtx) (frame : EnvFrame) :
    CleanResult × Cleaner :=
  if frame.pm25 > 1000 ∨ frame.pm10 > 1000 then
    (.drop, (c.put stationId ctx).count 2)
  else if frame.temperature < -400 ∨ frame.temperature > 800 then
    (.drop, (c.put stationId ctx).count 2)
  else if frame.humidity > 1000 then
    (.drop, (c.put stationId ctx).count 2)
  else if frame.coPpb > 50000 then
    (.drop, (c.put stationId ctx).count 2)
  else if frame.noiseDb > 1500 then
    (.drop, (c.put stationId ctx).count 2)
  else if ctx.base.anomalyDetectAll D frame then
    (.drop, (c.put stationId ctx).count 1)
  else
    (.pass, c.put stationId (ctx.accept frame))

-- The frame in the result is what the call leaves in `*frame`.
def cleanerProcess (frame : EnvFrame) (alloc : Bool) : CleanResult × EnvFrame × Cleaner :=
  if frame.IsAlarm then
    (.alarm, frame, c)
  else if frame.frameType = frameHeart then
    (.drop, frame, c.count 4)
  else
    match c.getInternalCtx frame.stationId alloc with
    | none     => (.drop, frame, c)
    | some ctx =>
      if ctx.IsStale frame then
        (.drop, frame, (c.put frame.stationId ctx).count 3)
      else if ctx.IsJump frame then
        if h : ctx.reorderCount < reorderCap then
          (.drop, frame, c.put frame.stationId (ctx.buffer frame h))
        else
          let r := c.processValidFrame D frame.stationId (ctx.swap frame) ctx.oldest
          (r.fst, ctx.oldest, r.snd)
      else
        let r := c.processValidFrame D frame.stationId ctx frame
        (r.fst, frame, r.snd)

end Cleaner
end IotCollector
