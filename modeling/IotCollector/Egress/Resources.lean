import IotCollector.Egress.Start

namespace IotCollector

inductive Resource
  | bucket
  | ticker
  | mcast   (fd : Int)
  | cache
  | unicast (fd : Int)
  | worker  (i : Nat)
  | monitor
  deriving DecidableEq

-- A running call of `dispatcher_start`, with what it has taken and not given back.
structure StartRun where
  egress : Egress
  held   : List Resource

namespace StartRun

variable (r : StartRun)

def createBucket (alloc : Bool) : Except IotStatus StartRun :=
  match r.egress.createBucket alloc with
  | .error rc  => .error rc
  | .ok egress =>
    let held := if r.egress.outboundBucket.isNone then [.bucket] else []
    .ok { egress, held := r.held ++ held }

def createTicker (ticker : Bool) : StartRun where
  egress := { r.egress with tickStarted := ticker }
  held   := r.held ++ if ticker then [.ticker] else []

def openMcast (mcast : Int) : StartRun where
  egress := r.egress.openMcast mcast
  held   := r.held ++ if r.egress.cfg.mcastGroup.isSome ∧ 0 ≤ mcast then [.mcast mcast] else []

def openCache (opens : Bool) : StartRun where
  egress := r.egress.openCache opens
  held   := r.held ++ if r.egress.cfg.cachePath.isSome ∧ opens then [.cache] else []

def connect (connect : Except IotError Nat) : StartRun :=
  let e  := r.egress.connect connect
  let fd := e.dispatcher.unicastFd
  { egress := e
    held   := r.held ++ if e.cfg.platformIp.isSome ∧ 0 ≤ fd then [.unicast fd] else [] }

def exitsClosed : List Resource :=
  let unicast := .unicast r.egress.dispatcher.unicastFd
  let mcast   := .mcast r.egress.dispatcher.mcastFd
  r.held.filter (fun x => x ≠ unicast ∧ x ≠ mcast)

def startThreads (workers : Nat) (monitor : Bool) : IotStatus × StartRun :=
  let (rc, egress) := r.egress.startThreads workers monitor
  let n := min r.egress.cfg.workerNum workers
  if n = 0 then
    (rc, { egress, held := r.exitsClosed })
  else
    let monitor := if r.egress.cfg.platformIp.isSome ∧ monitor then [.monitor] else []
    (rc, { egress, held := r.held ++ (List.range n).map .worker ++ monitor })

end StartRun

-- `dispatcher_start` with its resources.
def Egress.startRun (e : Egress) (cfg : DispatcherOpts) (cfgSet running : Bool) (io : StartIo) :
    IotStatus × StartRun :=
  if !cfgSet ∨ !cfg.q2 ∨ !running ∨ e.started then
    (.errGeneric, ⟨e, []⟩)
  else
    let e := { e with cfg := cfg.copyNumbers }
    match cfg.copyStrings e.cfg with
    | none   => (.errGeneric, ⟨e, []⟩)
    | some g =>
      let r : StartRun := {
        egress := { e with
          cfg                  := g
          stop                 := false
          tickStop             := false
          dispatcher.mcastFd   := -1
          dispatcher.unicastFd := -1 }
        held   := [] }
      match r.createBucket io.alloc with
      | .error rc => (rc, r)
      | .ok r     =>
        let r := (((r.createTicker io.ticker).openMcast io.mcast).openCache io.opens)
        (r.connect io.connect).startThreads io.workers io.monitor

end IotCollector
