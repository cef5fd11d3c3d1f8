import Mathlib.Data.Fintype.Basic
import Mathlib.Logic.Function.Basic
import IotCollector.Pipeline.Cleaner
import IotCollector.Pipeline.RingHistory

namespace IotCollector

-- `RINGQ_BATCH_MAX`, as an argument of `ring_pop_batch`.
def ringqBatch : UInt32 := 256

-- Where `cleaner_thread` stands: before a call of `cleaner_process` for the first frame of the rest
-- of its batch, or before the push of the frame that this call has let through.
inductive CleaningPc
  | top
  | popping
  | cleaning (batch : List EnvFrame)
  | pushing  (frame : EnvFrame) (batch : List EnvFrame)
  | exited
  deriving DecidableEq

-- Where `dispatch_worker` stands.
inductive DispatchPc
  | popping
  | dispatching (batch : List EnvFrame)
  | exited
  deriving DecidableEq

-- Where `main` stands: in its loop, in the joins of the ingress threads and of the cleaner, in
-- `dispatcher_stop`, and in `dispatcher_join` until it returns.
inductive ExitPc
  | running
  | joinIngress
  | joinCleaner
  | stopping
  | joining (i : Nat)
  | joined
  deriving DecidableEq

-- The flags `g_running` and `g_stop`, the queues with their history, what the cleaner knows, and the
-- threads.
structure Pipeline (n : Nat) where
  running  : Bool
  stop     : Bool
  q1       : RingHistory
  q2       : RingHistory
  cleaner  : Cleaner
  cleaning : CleaningPc
  workers  : Fin n → DispatchPc
  main     : ExitPc

-- An ingress thread comes with a frame and its channel, and the cleaner with the outcome of an
-- allocation.
inductive PipelineAct (n : Nat)
  | signal
  | ingress (proto : Nat) (frame : EnvFrame)
  | cleaner (alloc : Bool)
  | worker  (i : Fin n)
  | main

namespace Pipeline

variable {n : Nat}

def initial (n : Nat) (q1 q2 : RingQueue) : Pipeline n where
  running  := true
  stop     := false
  q1       := .init q1
  q2       := .init q2
  cleaner  := .cleanerInit {}
  cleaning := .top
  workers  := fun _ => .popping
  main     := .running

variable (s : Pipeline n)

def setStats (stats : IotStats) : Pipeline n :=
  { s with cleaner.stats := stats }

-- The ingress threads are gone when `main` has joined them.
def ingressStep (proto : Nat) (frame : EnvFrame) : Option (Pipeline n) :=
  if s.main = .running ∨ s.main = .joinIngress then
    let r := s.q1.pushTry frame
    let stats := if r.fst = .ok then s.cleaner.stats.onIngress proto 1 else s.cleaner.stats.onDrop 1
    some { s.setStats stats with q1 := r.snd }
  else
    none

def cleanerStep (D : Type*) [DoubleArith D] (alloc : Bool) : Option (Pipeline n) :=
  match s.cleaning with
  | .top     => some { s with cleaning := if s.running then .popping else .exited }
  | .popping =>
    (s.q1.popBatch s.running ringqBatch).map fun r =>
      match r.fst with
      | []    => { s with q1 := r.snd, cleaning := if s.running then .top else .exited }
      | batch => { s with q1 := r.snd, cleaning := .cleaning batch }
  | .cleaning []        => some { s with cleaning := .top }
  | .cleaning (f :: fs) =>
    let r := s.cleaner.cleanerProcess D f alloc
    match r.fst with
    | .pass  => some { s with cleaner := r.snd.snd.count 0, cleaning := .pushing r.snd.fst fs }
    | .alarm => some { s with cleaner := r.snd.snd.count 1, cleaning := .pushing r.snd.fst fs }
    | .drop  => some { s with cleaner := r.snd.snd, cleaning := .cleaning fs }
  | .pushing f fs =>
    let r := s.q2.pushTry f
    let stats := if r.fst = .ok then s.cleaner.stats else s.cleaner.stats.onDrop 1
    some { s.setStats stats with q2 := r.snd, cleaning := .cleaning fs }
  | .exited => none

def setWorker (i : Fin n) (pc : DispatchPc) : Pipeline n :=
  { s with workers := Function.update s.workers i pc }

-- What `dispatch_one` does with a frame does not touch the queues or the flags.
def workerStep (i : Fin n) : Option (Pipeline n) :=
  match s.workers i with
  | .popping =>
    (s.q2.popBatch s.running ringqBatch).map fun r =>
      match r.fst with
      | []    => { s.setWorker i (if s.stop ∨ ¬s.running then .exited else .popping) with q2 := r.snd }
      | batch => { s.setWorker i (.dispatching batch) with q2 := r.snd }
  | .dispatching []       => some (s.setWorker i .popping)
  | .dispatching (_ :: fs) => some (s.setWorker i (.dispatching fs))
  | .exited               => none

def mainStep : Option (Pipeline n) :=
  match s.main with
  | .running     => if s.running then none else some { s with main := .joinIngress }
  | .joinIngress => some { s with main := .joinCleaner }
  | .joinCleaner => if s.cleaning = .exited then some { s with main := .stopping } else none
  | .stopping    => some { s with stop := true, main := .joining 0 }
  | .joining i   =>
    if h : i < n then
      if s.workers ⟨i, h⟩ = .exited then some { s with main := .joining (i + 1) } else none
    else
      some { s with main := .joined }
  | .joined      => none

end Pipeline

def pipelineStep (D : Type*) [DoubleArith D] {n : Nat} : Transition (Pipeline n) (PipelineAct n)
  | s, .signal              => some { s with running := false }
  | s, .ingress proto frame => s.ingressStep proto frame
  | s, .cleaner alloc       => s.cleanerStep D alloc
  | s, .worker i            => s.workerStep i
  | s, .main                => s.mainStep

end IotCollector
