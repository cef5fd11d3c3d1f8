import IotCollector.Egress.Outcome
import IotCollector.Main.Pipeline

namespace IotCollector

-- `g_stats` with the fields that a snapshot fills in.
structure Snapshot extends IotStats where
  q1Count      : UInt32 := 0
  q1Cap        : UInt32 := 0
  q2Count      : UInt32 := 0
  q2Cap        : UInt32 := 0
  cachePending : UInt64 := 0

def RingQueue.ringCount (q : RingQueue) : UInt32 :=
  q.count

-- The queues are those of `stats_bind_queues`, which may be NULL.
def statsSnapshot (g : Snapshot) (q1 q2 : Option RingQueue) (cachePending : UInt64) : Snapshot :=
  let g :=
    match q1 with
    | none    => g
    | some q1 => { g with
        q1Count      := q1.ringCount
        q1Cap        := q1.capacity
        droppedTotal := (q1.dropped + (q2.map RingQueue.dropped).getD 0).toUInt64 }
  let g :=
    match q2 with
    | none    => g
    | some q2 => { g with q2Count := q2.ringCount, q2Cap := q2.capacity }
  { g with cachePending }

-- The pipeline with its egress. The counters of `g_stats` are those of the pipeline, and `shown` is
-- the result of the last snapshot. The number is that of the frames which `dispatch_one` has lost, as
-- they are missing at the platform and in the cache, whether a counter says so or not.
structure Monitored (n : Nat) where
  pipeline    : Pipeline n
  dispatcher  : Dispatcher
  shown       : Snapshot
  egressDrops : Nat

-- A call of `dispatch_one` has its outcomes in `io`. What a replay makes of the cache is left open.
inductive MonitoredAct (n : Nat)
  | call      (a : PipelineAct n) (io : DispatchIo)
  | heartbeat (write : IotStatus)
  | reconnect (connect : Except IotError Nat)
  | replay    (fd : Int) (buf : List UInt8) (write : List UInt8 → IotStatus) (cache : CacheWriter)
  | snapshot

-- The frame that a step of a worker hands to `dispatch_one`.
def Pipeline.dispatched {n : Nat} (s : Pipeline n) : PipelineAct n → Option EnvFrame
  | .worker i =>
    match s.workers i with
    | .dispatching (f :: _) => some f
    | _                     => none
  | _ => none

namespace Monitored

variable {n : Nat}

def initial (n : Nat) (q1 q2 : RingQueue) (dispatcher : Dispatcher) : Monitored n where
  pipeline    := .initial n q1 q2
  dispatcher  := dispatcher
  shown       := {}
  egressDrops := 0

variable (s : Monitored n)

def snapshot : Snapshot :=
  statsSnapshot { s.shown with toIotStats := s.pipeline.cleaner.stats } (some s.pipeline.q1.queue)
    (some s.pipeline.q2.queue) (UInt64.ofNat s.dispatcher.cache.cachePendingFrames)

def dispatch (cfg : DispatcherCfg) (f : EnvFrame) (io : DispatchIo) : Monitored n :=
  let d  := { s.dispatcher with stats := s.pipeline.cleaner.stats }
  let d' := d.dispatchOne cfg f io
  { s with
    pipeline    := s.pipeline.setStats d'.stats
    dispatcher  := d'
    egressDrops := if d.Loses cfg f io then s.egressDrops + 1 else s.egressDrops }

end Monitored

def monitoredStep (D : Type*) [DoubleArith D] (cfg : DispatcherCfg) {n : Nat} :
    Transition (Monitored n) (MonitoredAct n)
  | s, .call a io =>
    (pipelineStep D s.pipeline a).map fun p =>
      let s' := { s with pipeline := p }
      match s.pipeline.dispatched a with
      | none   => s'
      | some f => s'.dispatch cfg f io
  | s, .heartbeat write   => (s.dispatcher.monitorHeartbeat write).map ({ s with dispatcher := · })
  | s, .reconnect connect => (s.dispatcher.monitorReconnect cfg connect).map ({ s with dispatcher := · })
  | s, .replay fd buf write cache =>
    some { s with dispatcher := { s.dispatcher.replaySend fd buf write with cache } }
  | s, .snapshot =>
    some { s with shown := s.snapshot, pipeline := s.pipeline.setStats s.snapshot.toIotStats }

end IotCollector
