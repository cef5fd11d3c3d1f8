import Mathlib.Data.Fintype.Basic
import Mathlib.Logic.Function.Basic
import IotCollector.Common.Tbf
import IotCollector.Lib.Transition

namespace IotCollector

def ringqBatchMax : Nat := 256

def ringqDefaultCap : Nat := 4096

def poolMinWorkers : Nat := 2

-- Where `dispatch_worker` stands. The number counts the frames of its batch which `dispatch_one`
-- has not been called on.
inductive WorkerPc
  | popping
  | batch    (k : Nat)
  | locked   (k : Nat)
  | fetching (k : Nat) (counted : Bool)
  | waiting  (k : Nat)
  | fetched  (k : Nat)
  | exited
  deriving DecidableEq

-- Where `cleaner_thread` stands.
inductive CleanerPc
  | top
  | popping
  | cleaning (k : Nat)
  | exited
  deriving DecidableEq

-- Where `dispatch_ticker` stands.
inductive TickerPc
  | top
  | sleeping
  | exited
  deriving DecidableEq

-- Where `main` stands: in its loop, in the join of the cleaner, and from there on in
-- `dispatcher_stop` and `dispatcher_join`.
inductive MainPc
  | running
  | joinCleaner
  | stopping
  | joining (i : Nat)
  | closing
  | joinTicker
  | done
  deriving DecidableEq

-- The flags `g_running`, `g_stop` and `g_tick_stop`, the outbound bucket, the number of frames in Q2,
-- and the threads, of which one may hold `g_unicast_lock`.
structure Collector (n : Nat) where
  running     : Bool
  stop        : Bool
  tickStop    : Bool
  bucket      : Tbf
  q2          : Nat
  unicastLock : Option (Fin n)
  workers     : Fin n → WorkerPc
  cleaner     : CleanerPc
  ticker      : TickerPc
  main        : MainPc

-- The environment decides how many frames a pop from Q1 finds, whether a frame passes the cleaner
-- and finds room in Q2, whether the link is online, and how long the ticker sleeps. A thread in
-- `pthread_cond_wait` may also wake up for no reason.
inductive CollectorAct (n : Nat)
  | signal
  | cleaner (frames : Nat) (pushed : Bool)
  | ticker  (elapsedMs : UInt64)
  | worker  (i : Fin n) (online : Bool)
  | wakeup  (i : Fin n)
  | main

def WorkerPc.woken : WorkerPc → WorkerPc
  | .waiting k => .fetching k true
  | pc         => pc

namespace Collector

variable {n : Nat}

def initial (n : Nat) (bucket : Tbf) : Collector n where
  running     := true
  stop        := false
  tickStop    := false
  bucket      := bucket
  q2          := 0
  unicastLock := none
  workers     := fun _ => .popping
  cleaner     := .top
  ticker      := .top
  main        := .running

variable (s : Collector n)

def broadcast : Collector n :=
  { s with workers := fun i => (s.workers i).woken }

def setWorker (i : Fin n) (pc : WorkerPc) : Collector n :=
  { s with workers := Function.update s.workers i pc }

@[simp]
theorem setWorker_q2 (i : Fin n) (pc : WorkerPc) : (s.setWorker i pc).q2 = s.q2 :=
  rfl

-- The call of `ring_pop_batch` waits while Q1 is empty and the process runs.
def cleanerStep (frames : Nat) (pushed : Bool) : Option (Collector n) :=
  match s.cleaner with
  | .top            => some { s with cleaner := if s.running then .popping else .exited }
  | .popping        =>
    if frames = 0 then
      if s.running then none else some { s with cleaner := .exited }
    else if frames ≤ ringqBatchMax then
      some { s with cleaner := .cleaning frames }
    else
      none
  | .cleaning 0       => some { s with cleaner := .top }
  | .cleaning (k + 1) =>
    if pushed then
      if s.q2 < ringqDefaultCap
      then some { s with q2 := s.q2 + 1, cleaner := .cleaning k }
      else none
    else
      some { s with cleaner := .cleaning k }
  | .exited         => none

def tickerStep (elapsedMs : UInt64) : Option (Collector n) :=
  match s.ticker with
  | .top      => some { s with ticker := if !s.tickStop ∧ s.running then .sleeping else .exited }
  | .sleeping =>
    if elapsedMs = 0
    then some { s with ticker := .top }
    else some { s.broadcast with ticker := .top, bucket := s.bucket.tbfTick elapsedMs }
  | .exited   => none

-- A frame is shorter than `TBF_MAX_FETCH_PER_OP`, so that one request pays for it. The locks that
-- a worker takes while it holds `g_unicast_lock` are not part of these steps, and neither is what
-- becomes of a frame after its request.
def workerStep (i : Fin n) (online : Bool) : Option (Collector n) :=
  match s.workers i with
  | .popping =>
    if s.q2 = 0 then
      if s.running then none else some (s.setWorker i .exited)
    else
      let k := min s.q2 ringqBatchMax
      some { s.setWorker i (.batch k) with q2 := s.q2 - k }
  | .batch 0       => some (s.setWorker i .popping)
  | .batch (k + 1) =>
    if s.unicastLock = none
    then some { s.setWorker i (.locked k) with unicastLock := some i }
    else none
  | .locked k      =>
    if online
    then some (s.setWorker i (.fetching k false))
    else some { s.setWorker i (.batch k) with unicastLock := none }
  | .fetching k counted =>
    match s.bucket.tbfFetchPass envFrameWireSize.toUInt64 counted with
    | .returns _ bucket => some { s.setWorker i (.fetched k) with bucket := bucket }
    | .waits bucket     => some { s.setWorker i (.waiting k) with bucket := bucket }
  | .waiting _     => none
  | .fetched k     => some { s.setWorker i (.batch k) with unicastLock := none }
  | .exited        => none

def mainStep : Option (Collector n) :=
  match s.main with
  | .running     => if s.running then none else some { s with main := .joinCleaner }
  | .joinCleaner => if s.cleaner = .exited then some { s with main := .stopping } else none
  | .stopping    => some { s with stop := true, main := .joining 0 }
  | .joining i   =>
    if h : i < n then
      if s.workers ⟨i, h⟩ = .exited then some { s with main := .joining (i + 1) } else none
    else
      some { s with tickStop := true, main := .closing }
  | .closing     => some { s.broadcast with bucket := s.bucket.tbfShutdown, main := .joinTicker }
  | .joinTicker  => if s.ticker = .exited then some { s with main := .done } else none
  | .done        => none

end Collector

def collectorStep {n : Nat} : Transition (Collector n) (CollectorAct n)
  | s, .signal                => some { s with running := false }
  | s, .cleaner frames pushed => s.cleanerStep frames pushed
  | s, .ticker elapsedMs      => s.tickerStep elapsedMs
  | s, .worker i online       => s.workerStep i online
  | s, .wakeup i              =>
    match s.workers i with
    | .waiting k => some (s.setWorker i (.fetching k true))
    | _          => none
  | s, .main                  => s.mainStep

end IotCollector
