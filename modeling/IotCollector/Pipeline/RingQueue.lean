import Mathlib.Data.List.Basic
import IotCollector.Common.Frame

namespace IotCollector

-- The fields `head` and `tail` are indices of the buffer in every state. What `count` says about
-- them is not part of the type, since `ringPush` may get it wrong.
structure RingQueue where
  buf      : List EnvFrame
  capacity : UInt32
  head     : UInt32
  tail     : UInt32
  count    : UInt32
  dropped  : UInt32
  pow      : capacity.toNat.isPowerOfTwo
  size     : buf.length = capacity.toNat
  headLt   : head < capacity
  tailLt   : tail < capacity

namespace RingQueue

@[ext]
theorem ext {q₁ q₂ : RingQueue} (buf : q₁.buf = q₂.buf) (capacity : q₁.capacity = q₂.capacity)
    (head : q₁.head = q₂.head) (tail : q₁.tail = q₂.tail) (count : q₁.count = q₂.count)
    (dropped : q₁.dropped = q₂.dropped) : q₁ = q₂ := by
  cases q₁
  cases q₂
  simp_all

variable (q : RingQueue)

theorem capacity_pos : 0 < q.capacity.toNat :=
  Nat.pos_of_isPowerOfTwo q.pow

theorem masked_toNat (i : UInt32) : (i &&& (q.capacity - 1)).toNat = i.toNat % q.capacity.toNat := by
  have ⟨k, hk⟩ := q.pow
  have h₁ : (1 : UInt32) ≤ q.capacity := UInt32.le_iff_toNat_le.mpr q.capacity_pos
  rw [UInt32.toNat_and, UInt32.toNat_sub_of_le _ _ h₁, hk]
  exact Nat.and_two_pow_sub_one_eq_mod ..

theorem masked_lt (i : UInt32) : i &&& (q.capacity - 1) < q.capacity := by
  rw [UInt32.lt_iff_toNat_lt, masked_toNat]
  exact Nat.mod_lt _ q.capacity_pos

theorem index_lt {i : UInt32} (h : i < q.capacity) : i.toNat < q.buf.length :=
  q.size ▸ UInt32.lt_iff_toNat_lt.mp h

-- `buf[i & (capacity - 1)]`.
def get (i : UInt32) : EnvFrame :=
  q.buf.get ⟨_, q.index_lt <| q.masked_lt i⟩

def IsFull : Prop :=
  q.count = q.capacity

instance : Decidable q.IsFull :=
  inferInstanceAs (Decidable (q.count = q.capacity))

-- The frames at `(tail + i) & (capacity - 1)` for `i < count`.
def contents : List EnvFrame :=
  (List.range q.count.toNat).map fun i => q.get (q.tail + UInt32.ofNat i)

-- The copy of one frame over another. The buffer keeps its size.
def put (i : UInt32) (f : EnvFrame) : RingQueue :=
  { q with
    buf  := q.buf.set (i &&& (q.capacity - 1)).toNat f
    size := by simp [q.size] }

-- The inner loop of `drop_oldest_normal`.
def shift (q : RingQueue) (j : UInt32) : RingQueue :=
  if j + 1 < q.count
  then shift (q.put (q.tail + j) <| q.get (q.tail + j + 1)) (j + 1)
  else q
termination_by q.count.toNat - (j + 1).toNat
decreasing_by
  have h : j + 1 < q.count := ‹_›
  simp only [put, UInt32.lt_iff_toNat_lt, UInt32.toNat_add] at *
  have := q.count.toNat_lt
  simp at *
  omega

-- The frames behind the one at `i` move up, and `head` steps back.
def removeAt (i : UInt32) : RingQueue :=
  let r := q.shift i
  { r with
    head    := (r.head - 1) &&& (r.capacity - 1)
    count   := r.count - 1
    dropped := r.dropped + 1
    headLt  := r.masked_lt _ }

-- The outer loop of `drop_oldest_normal`.
def dropOldestNormalFrom (q : RingQueue) (i : UInt32) : RingQueue :=
  if i < q.count then
    if ¬(q.get (q.tail + i)).IsAlarm
    then q.removeAt i
    else dropOldestNormalFrom q (i + 1)
  else
    q
termination_by q.count.toNat - i.toNat
decreasing_by
  have h : i < q.count := ‹_›
  simp only [UInt32.lt_iff_toNat_lt, UInt32.toNat_add] at *
  have := q.count.toNat_lt
  simp at *
  omega

def dropOldestNormal : RingQueue :=
  q.dropOldestNormalFrom 0

def write (f : EnvFrame) : RingQueue :=
  { q with
    buf    := q.buf.set q.head.toNat f
    head   := (q.head + 1) &&& (q.capacity - 1)
    count  := q.count + 1
    size   := by simp [q.size]
    headLt := q.masked_lt _ }

def read : EnvFrame × RingQueue :=
  (q.buf.get ⟨_, q.index_lt q.tailLt⟩,
   { q with
     tail   := (q.tail + 1) &&& (q.capacity - 1)
     tailLt := q.masked_lt _ })

-- The loop of `ring_pop_batch`.
def readN (q : RingQueue) : Nat → List EnvFrame × RingQueue
  | 0     => ([], q)
  | n + 1 =>
    let r := q.read.snd.readN n
    (q.read.fst :: r.fst, r.snd)

end RingQueue

open RingQueue

-- The result `none` stands for the return value -1, and `alloc` tells whether `calloc` succeeds.
def ringInit (cap : UInt32) (alloc : Bool) : Option RingQueue :=
  if h : cap = 0 ∨ cap &&& (cap - 1) ≠ 0 then
    none
  else if !alloc then
    none
  else
    have hp : cap.toNat.isPowerOfTwo := by
      have ⟨h₀, h₁⟩ := not_or.mp h
      have h₀ : cap.toNat ≠ 0 := fun hz => h₀ <| UInt32.toNat_inj.mp hz
      have hs : (1 : UInt32) ≤ cap := UInt32.le_iff_toNat_le.mpr <| Nat.pos_of_ne_zero h₀
      have h₁ := congrArg UInt32.toNat <| not_not.mp h₁
      rw [UInt32.toNat_and, UInt32.toNat_sub_of_le _ _ hs] at h₁
      exact (Nat.and_sub_one_eq_zero_iff_isPowerOfTwo h₀).mp h₁
    have hc : 0 < cap := UInt32.lt_iff_toNat_lt.mpr <| Nat.pos_of_isPowerOfTwo hp
    some {
      buf      := List.replicate cap.toNat EnvFrame.zero
      capacity := cap
      head     := 0
      tail     := 0
      count    := 0
      dropped  := 0
      pow      := hp
      size     := List.length_replicate
      headLt   := hc
      tailLt   := hc }

-- The result `none` stands for a producer that waits on `not_full`. After a wake-up it runs the loop
-- again, with the queue as it then is.
def ringPush (q : RingQueue) (frame : EnvFrame) : Option RingQueue :=
  if q.IsFull then
    if frame.IsAlarm
    then some (q.dropOldestNormal.write frame)
    else none
  else
    some (q.write frame)

def ringPushTry (q : RingQueue) (frame : EnvFrame) : IotStatus × RingQueue :=
  if q.IsFull then
    if frame.IsAlarm then
      if q.dropOldestNormal.IsFull
      then (.errFull, q.dropOldestNormal)
      else (.ok, q.dropOldestNormal.write frame)
    else
      (.errFull, { q with dropped := q.dropped + 1 })
  else
    (.ok, q.write frame)

-- The result `none` stands for a consumer that waits on `not_empty`, and `running` for `g_running`.
def ringPopBatch (running : Bool) (q : RingQueue) (maxN : UInt32) :
    Option (List EnvFrame × RingQueue) :=
  if q.count = 0 then
    if running then none else some ([], q)
  else
    let n := if q.count < maxN then q.count else maxN
    let r := q.readN n.toNat
    some (r.fst, { r.snd with count := r.snd.count - n })

-- The sanctioned ways of using a queue: a producer which does not block, and a consumer.
inductive RingOp
  | push     (frame : EnvFrame)
  | pushTry  (frame : EnvFrame)
  | popBatch (running : Bool) (maxN : UInt32)

def ringStep (q : RingQueue) : RingOp → Option RingQueue
  | .push frame            => ringPush q frame
  | .pushTry frame         => some (ringPushTry q frame).snd
  | .popBatch running maxN => Prod.snd <$> ringPopBatch running q maxN

end IotCollector
