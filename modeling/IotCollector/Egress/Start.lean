import IotCollector.Egress.Dispatcher
import IotCollector.Egress.Shutdown
import IotCollector.Egress.Throttle

namespace IotCollector

def poolMaxWorkers : Nat := 16

-- The flag `q2` tells whether the pointer is set.
structure DispatcherOpts extends DispatcherCfg where
  q2          : Bool
  workerNum   : Nat
  mcastGroup  : Option (List UInt8)
  mcastPort   : UInt16
  mcastIfname : Option (List UInt8)
  mcastTtl    : UInt8

-- The variables of `dispatcher.c` and the two buckets of `tbf.c`, where `none` stands for NULL.
structure Egress where
  cfg            : DispatcherOpts
  outboundBucket : Option Tbf
  retryBucket    : Option Tbf
  ownBucket      : Bool
  started        : Bool
  stop           : Bool
  tickStop       : Bool
  tickStarted    : Bool
  monStarted     : Bool
  workerNum      : Nat
  dispatcher     : Dispatcher

-- What the calls of `dispatcher_start` return. Of the threads for the workers, `workers` can be
-- created.
structure StartIo where
  alloc   : Bool
  ticker  : Bool
  mcast   : Int
  opens   : Bool
  connect : Except IotError Nat
  workers : Nat
  monitor : Bool

-- The result is `none` where the string does not fit.
def copyOptStr (cap : Nat) (src : Option (List UInt8)) : Option (Option (List UInt8)) :=
  match src with
  | none     => some none
  | some src => if src.length ≥ cap then none else some (some src)

theorem copyOptStr_eq_some_iff {cap : Nat} {src dst : Option (List UInt8)} :
    copyOptStr cap src = some dst ↔ dst = src ∧ ∀ s ∈ src, s.length < cap := by
  cases src
  case none   => simp [copyOptStr, eq_comm]
  case some s => simp [copyOptStr, eq_comm, and_comm]

namespace DispatcherOpts

variable (cfg : DispatcherOpts)

-- `g_cfg` before the strings are copied.
def copyNumbers : DispatcherOpts :=
  { cfg with
    workerNum   := min (if cfg.workerNum = 0 then poolMinWorkers else cfg.workerNum) poolMaxWorkers
    mcastGroup  := none
    mcastIfname := none
    platformIp  := none
    cachePath   := none }

def copyStrings (g : DispatcherOpts) : Option DispatcherOpts := do
  let mcastGroup  ← copyOptStr 64 cfg.mcastGroup
  let mcastIfname ← copyOptStr 16 cfg.mcastIfname
  let platformIp  ← copyOptStr 64 cfg.platformIp
  let cachePath   ← copyOptStr 256 cfg.cachePath
  some { g with mcastGroup, mcastIfname, platformIp, cachePath }

end DispatcherOpts

namespace Egress

variable (e : Egress)

-- The outbound bucket is created unless it is there. The retry bucket is not.
def createBucket (alloc : Bool) : Except IotStatus Egress :=
  match e.outboundBucket with
  | some _ => .ok e
  | none   =>
    match tbfInit tbfDefaultCps tbfDefaultBurst alloc with
    | .error _ => .error .errNomem
    | .ok t    => .ok { e with outboundBucket := some t, ownBucket := true }

def openMcast (mcast : Int) : Egress :=
  if e.cfg.mcastGroup.isSome
  then { e with dispatcher.mcastFd := mcast }
  else e

def openCache (opens : Bool) : Egress :=
  if e.cfg.cachePath.isSome
  then { e with dispatcher.cache := (e.dispatcher.cache.cacheWriterOpen e.cfg.cachePath opens).snd }
  else e

def connect (connect : Except IotError Nat) : Egress :=
  { e with dispatcher := e.dispatcher.dispatcherConnect e.cfg.toDispatcherCfg connect }

def closeExits : Egress :=
  { e with
    dispatcher.link      := e.dispatcher.link.unicastSenderClose e.dispatcher.unicastFd
    dispatcher.unicastFd := -1
    dispatcher.mcastFd   := -1 }

def startThreads (workers : Nat) (monitor : Bool) : IotStatus × Egress :=
  let e := { e with cfg.workerNum := min e.cfg.workerNum workers }
  if e.cfg.workerNum = 0 then
    (.errGeneric, e.closeExits)
  else
    (.ok, { e with
      workerNum  := e.cfg.workerNum
      monStarted := if e.cfg.platformIp.isSome then monitor else e.monStarted
      started    := true })

-- The flags `cfgSet` and `running` tell whether the pointers are set.
def dispatcherStart (cfg : DispatcherOpts) (cfgSet running : Bool) (io : StartIo) :
    IotStatus × Egress :=
  if !cfgSet ∨ !cfg.q2 ∨ !running ∨ e.started then
    (.errGeneric, e)
  else
    let e := { e with cfg := cfg.copyNumbers }
    match cfg.copyStrings e.cfg with
    | none   => (.errGeneric, e)
    | some g =>
      let e := { e with
        cfg                  := g
        stop                 := false
        tickStop             := false
        dispatcher.mcastFd   := -1
        dispatcher.unicastFd := -1 }
      match e.createBucket io.alloc with
      | .error rc => (rc, e)
      | .ok e     =>
        let e := { e with tickStarted := io.ticker }
        ((e.openMcast io.mcast).openCache io.opens).connect io.connect |>.startThreads
          io.workers io.monitor

def exit (ticks : List UInt64) (saves : List SaveOutcome) : Exit where
  bucket := e.retryBucket
  ticks  := ticks
  link   := e.dispatcher.link
  saves  := saves
  wire   := []
  asleep := false

end Egress
end IotCollector
