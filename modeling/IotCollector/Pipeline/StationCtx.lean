import IotCollector.Common.Frame

namespace IotCollector

-- The arithmetic of `double`, of which the cleaner uses these operations and constants.
class DoubleArith (D : Type*) extends Zero D, Add D, Sub D, Mul D, Div D where
  ofInt   : Int → D
  sqrt    : D → D
  fabs    : D → D
  lt      : D → D → Bool
  -- 0.001
  epsilon : D
  -- 3.0, which is `ANOMALY_SIGMA`
  sigma   : D

instance : DoubleArith Float where
  zero    := 0.0
  ofInt   := Float.ofInt
  sqrt    := Float.sqrt
  fabs    := Float.abs
  lt x y  := x < y
  epsilon := 0.001
  sigma   := 3.0

def windowSize : Nat := 16

-- The six measurements, in the order of `window_stats_all`.
inductive Param
  | pm25
  | pm10
  | temp
  | hum
  | co
  | noise
  deriving DecidableEq

def Param.all : List Param :=
  [.pm25, .pm10, .temp, .hum, .co, .noise]

-- The value that goes into the window. All but the temperature are converted to `int16_t`.
def EnvFrame.param (f : EnvFrame) : Param → Int16
  | .pm25  => f.pm25.toInt16
  | .pm10  => f.pm10.toInt16
  | .temp  => f.temperature
  | .hum   => f.humidity.toInt16
  | .co    => f.coPpb.toInt16
  | .noise => f.noiseDb.toInt16

structure StationCtx where
  stationId : UInt16
  window    : Param → Vector Int16 windowSize
  wIdx      : Fin windowSize
  wCount    : Nat
  bounded   : wCount ≤ windowSize

def stationCtxReset (stationId : UInt16) : StationCtx where
  stationId := stationId
  window    := fun _ => .replicate _ 0
  wIdx      := ⟨0, by decide⟩
  wCount    := 0
  bounded   := Nat.zero_le _

namespace StationCtx

variable {D : Type*} [DoubleArith D]

open DoubleArith

def windowStats (w : Vector Int16 windowSize) (count : Nat) : D × D :=
  if count = 0 then
    (0, 0)
  else
    let xs     := w.toList.take count
    let sum    := xs.foldl (fun s x => s + ofInt x.toInt) 0
    let mean   := sum / ofInt count
    let varSum := xs.foldl (fun s x => s + (ofInt x.toInt - mean) * (ofInt x.toInt - mean)) (0 : D)
    (mean, sqrt (varSum / ofInt count))

def windowStatsAll (ctx : StationCtx) (p : Param) : D × D :=
  windowStats (ctx.window p) ctx.wCount

variable (D) in
def anomalyDetectAll (ctx : StationCtx) (frame : EnvFrame) : Bool :=
  if ctx.wCount < windowSize then
    false
  else
    Param.all.any fun p =>
      let (mean, sigma) : D × D := ctx.windowStatsAll p
      !lt sigma epsilon && lt (DoubleArith.sigma * sigma) (fabs (ofInt (frame.param p).toInt - mean))

def push (ctx : StationCtx) (frame : EnvFrame) : StationCtx where
  stationId := ctx.stationId
  window    := fun p => (ctx.window p).set ctx.wIdx (frame.param p)
  wIdx      := ⟨(ctx.wIdx + 1) % windowSize, Nat.mod_lt _ (by decide)⟩
  wCount    := if ctx.wCount < windowSize then ctx.wCount + 1 else ctx.wCount
  bounded   := by have := ctx.bounded; split <;> omega

end StationCtx
end IotCollector
