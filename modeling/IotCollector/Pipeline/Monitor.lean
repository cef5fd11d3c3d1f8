import IotCollector.Lib.CondVar
import IotCollector.Lib.Transition
import IotCollector.Pipeline.RingQueue

namespace IotCollector

-- A queue with its condition variables, while `g_running` is 1. The producers wait on `not_full` with
-- their frame, and the consumers on `not_empty` with their `max_n`. A thread that has been woken runs
-- the loop of its call again as soon as it gets the lock.
structure RingMonitor (n m : Nat) where
  queue    : RingQueue
  notFull  : CondVar (Fin n) EnvFrame
  notEmpty : CondVar (Fin m) UInt32

-- What happens between two releases of the lock. A push comes with the consumer that its signal
-- wakes, and `ring_push` with the outcome of `pthread_cond_wait`.
inductive MonitorAct (n m : Nat)
  | push     (p : Fin n) (frame : EnvFrame) (wait : Bool) (wakes : Option (Fin m))
  | resume   (p : Fin n) (wait : Bool) (wakes : Option (Fin m))
  | pushTry  (p : Fin n) (frame : EnvFrame) (wakes : Option (Fin m))
  | popBatch (c : Fin m) (maxN : UInt32)
  | repop    (c : Fin m)
  | spurious (thread : Fin n ⊕ Fin m)
  | wakeAll

namespace RingMonitor

variable {n m : Nat}

def initial (n m : Nat) (q : RingQueue) : RingMonitor n m where
  queue    := q
  notFull  := fun _ => .ready
  notEmpty := fun _ => .ready

variable (s : RingMonitor n m)

-- The thread has written its frame, signals `not_empty` and returns.
def wrote (p : Fin n) (q : RingQueue) (wakes : Option (Fin m)) : Option (RingMonitor n m) :=
  (s.notEmpty.signal wakes).map fun notEmpty => { queue := q, notFull := s.notFull.leave p, notEmpty }

def push (p : Fin n) (frame : EnvFrame) (wait : Bool) (wakes : Option (Fin m)) :
    Option (RingMonitor n m) :=
  match ringPush s.queue frame with
  | none   => some { s with notFull := if wait then s.notFull.wait p frame else s.notFull.leave p }
  | some q => s.wrote p q wakes

def pushTry (p : Fin n) (frame : EnvFrame) (wakes : Option (Fin m)) : Option (RingMonitor n m) :=
  let r := ringPushTry s.queue frame
  if r.fst = .ok
  then s.wrote p r.snd wakes
  else some { s with queue := r.snd, notFull := s.notFull.leave p }

def popBatch (c : Fin m) (maxN : UInt32) : RingMonitor n m :=
  match ringPopBatch true s.queue maxN with
  | none        => { s with notEmpty := s.notEmpty.wait c maxN }
  | some (_, q) => { queue := q, notFull := s.notFull.broadcast, notEmpty := s.notEmpty.leave c }

-- The call of a consumer while `g_running` is 0. It returns early if the queue is empty.
def exitBatch (c : Fin m) (maxN : UInt32) : RingMonitor n m :=
  match ringPopBatch false s.queue maxN with
  | none        => { s with notEmpty := s.notEmpty.wait c maxN }
  | some (_, q) =>
    { queue    := q
      notFull  := if s.queue.count = 0 then s.notFull else s.notFull.broadcast
      notEmpty := s.notEmpty.leave c }

def wakeAll : RingMonitor n m :=
  { s with notFull := s.notFull.broadcast, notEmpty := s.notEmpty.broadcast }

end RingMonitor

def ringMonitorStep {n m : Nat} : Transition (RingMonitor n m) (MonitorAct n m)
  | s, .push p frame wait wakes =>
    match s.notFull p with
    | .ready => s.push p frame wait wakes
    | _      => none
  | s, .resume p wait wakes =>
    match s.notFull p with
    | .woken frame => s.push p frame wait wakes
    | _            => none
  | s, .pushTry p frame wakes =>
    match s.notFull p with
    | .ready => s.pushTry p frame wakes
    | _      => none
  | s, .popBatch c maxN =>
    match s.notEmpty c with
    | .ready => some (s.popBatch c maxN)
    | _      => none
  | s, .repop c =>
    match s.notEmpty c with
    | .woken maxN => some (s.popBatch c maxN)
    | _           => none
  | s, .spurious (.inl p) => some { s with notFull := s.notFull.wake p }
  | s, .spurious (.inr c) => some { s with notEmpty := s.notEmpty.wake c }
  | s, .wakeAll           => some s.wakeAll

-- The turns of the threads that have been woken, while `g_running` is 0. The producers do not look at
-- this flag.
def exitStep {n m : Nat} : Transition (RingMonitor n m) (MonitorAct n m)
  | s, .resume p wait wakes => ringMonitorStep s (.resume p wait wakes)
  | s, .repop c =>
    match s.notEmpty c with
    | .woken maxN => some (s.exitBatch c maxN)
    | _           => none
  | _, _ => none

end IotCollector
