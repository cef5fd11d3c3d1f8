import IotCollector.Lib.Transition
import IotCollector.Pipeline.RingQueue

namespace IotCollector

-- A frame that `ring_push_try` has not taken, and the queue as it was then.
structure Refusal where
  frame : EnvFrame
  queue : RingQueue

structure RingHistory where
  queue    : RingQueue
  accepted : List EnvFrame
  popped   : List EnvFrame
  evicted  : List EnvFrame
  refused  : List Refusal

-- The frame that `drop_oldest_normal` removes when `f` arrives.
def RingQueue.victim (q : RingQueue) (f : EnvFrame) : Option EnvFrame :=
  if q.IsFull ∧ f.IsAlarm then q.contents.find? (¬·.IsAlarm) else none

namespace RingHistory

def init (q : RingQueue) : RingHistory where
  queue    := q
  accepted := []
  popped   := []
  evicted  := []
  refused  := []

def pushed (h : RingHistory) (f : EnvFrame) (r : IotStatus × RingQueue) : RingHistory where
  queue    := r.snd
  accepted := if r.fst = .ok then h.accepted ++ [f] else h.accepted
  popped   := h.popped
  evicted  := h.evicted ++ (h.queue.victim f).toList
  refused  := if r.fst = .ok then h.refused else h.refused ++ [⟨f, h.queue⟩]

def pushTry (h : RingHistory) (f : EnvFrame) : IotStatus × RingHistory :=
  let r := ringPushTry h.queue f
  (r.fst, h.pushed f r)

def popBatch (h : RingHistory) (running : Bool) (maxN : UInt32) :
    Option (List EnvFrame × RingHistory) :=
  (ringPopBatch running h.queue maxN).map fun r =>
    (r.fst, { h with queue := r.snd, popped := h.popped ++ r.fst })

def refusedNormal (h : RingHistory) : List Refusal :=
  h.refused.filter (¬·.frame.IsAlarm)

end RingHistory

-- The calls which the pipeline makes on `g_q1` and `g_q2`.
inductive RingCall
  | pushTry  (frame : EnvFrame)
  | popBatch (running : Bool) (maxN : UInt32)

def ringCall (h : RingHistory) : RingCall → Option RingHistory
  | .pushTry frame         => some (h.pushTry frame).snd
  | .popBatch running maxN => Prod.snd <$> h.popBatch running maxN

end IotCollector
