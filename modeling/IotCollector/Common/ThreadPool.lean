import Mathlib.Logic.Function.Basic
import IotCollector.Lib.Transition
import IotCollector.Pipeline.RingQueue

namespace IotCollector

def poolCmdScaleUp   : UInt16 := 1
def poolCmdScaleDown : UInt16 := 2

def waterHighThreshold : UInt32 := 3

-- The pointer takes the place of the two timestamps.
def tpPackTask (t : UInt64) : EnvFrame :=
  { EnvFrame.zero with
    frameType    := frameData
    timestampSec := t.toUInt32
    timestampMs  := (t >>> 32).toUInt32 }

def tpUnpackTask (ef : EnvFrame) : UInt64 :=
  ef.timestampMs.toUInt64 <<< 32 ||| ef.timestampSec.toUInt64

-- What the water level callbacks push.
def commandFrame (cmd : UInt16) : EnvFrame :=
  { EnvFrame.zero with
    frameType := frameAlarm
    stationId := cmd }

-- The dequeue in the loop of `tp_worker`, and `none` where it waits for a second instead.
def tpWorkerDequeue (q : RingQueue) : Option (EnvFrame × RingQueue) :=
  if q.count > 0 then
    let r := q.read
    some (r.fst, { r.snd with count := r.snd.count - 1 })
  else
    none

-- The dequeue in the last loop of `tp_destroy`, and `none` where that loop ends.
def tpDestroyDequeue (q : RingQueue) : Option (EnvFrame × RingQueue) :=
  if q.count > 0 then
    let r := q.read
    some (r.fst, { r.snd with count := r.snd.count - 1 })
  else
    none

-- The fields of `thread_pool_t`, where `workers` names the nodes of the list by their threads, and
-- the variables `g_min_workers` and `g_water_high_count`. The callbacks are the default ones.
structure ThreadPool where
  workers        : List Nat
  workerNum      : UInt32
  maxWorkers     : UInt32
  taskQueue      : RingQueue
  shutdown       : Bool
  minWorkers     : UInt32
  waterHighCount : UInt32

namespace ThreadPool

variable (tp : ThreadPool)

-- The result `none` stands for the return value -1, and `created` tells whether the allocations and
-- `pthread_create` succeed.
def tpSpawnLocked (thread : Nat) (created : Bool) : Option ThreadPool :=
  if tp.workerNum ≥ tp.maxWorkers ∨ !created
  then none
  else some { tp with workers := thread :: tp.workers, workerNum := tp.workerNum + 1 }

def tpUnlinkLocked (self : Nat) : ThreadPool :=
  { tp with workers := tp.workers.erase self, workerNum := tp.workerNum - 1 }

-- The water level that `tp_submit` reads, in percent.
def water : UInt32 :=
  (tp.taskQueue.count.toUInt64 * 100 / tp.taskQueue.capacity.toUInt64).toUInt32

-- The third step of `tp_submit`. The flag is its variable `trigger`.
def countWater (water : UInt32) : Bool × ThreadPool :=
  if water > 80 then
    if tp.waterHighCount + 1 ≥ waterHighThreshold
    then (true, { tp with waterHighCount := 0 })
    else (false, { tp with waterHighCount := tp.waterHighCount + 1 })
  else
    (false, { tp with waterHighCount := 0 })

end ThreadPool

-- Where a thread of the pool stands in `tp_worker`.
inductive TpWorkerPc
  | checking
  | fetching
  | idle
  | lowering
  | got (ef : EnvFrame)
  | ran (t : UInt64)
  | leaving
  | exited
  deriving DecidableEq

-- Where a call of `tp_submit` stands that has got the memory for its task.
inductive TpSubmitPc
  | pushing (t : UInt64)
  | sampling
  | counting (water : UInt32)
  | alerting
  | returned
  deriving DecidableEq

-- Where the call of `tp_destroy` stands.
inductive TpDestroyPc
  | uncalled
  | waiting
  | draining
  | done
  deriving DecidableEq

-- The threads of a pool, the calls that use it, and the memory of the tasks. A task has the number of
-- its call. The lists record which tasks have been executed, freed by a worker and freed by
-- `tp_destroy`, and which frames have given way to a command. A fault is the use of a pointer that
-- does not point to a task.
structure PoolRun where
  pool      : ThreadPool
  threads   : List TpWorkerPc
  submits   : List TpSubmitPc
  destroy   : TpDestroyPc
  heap      : UInt64 → Option Nat
  executed  : List Nat
  freed     : List Nat
  destroyed : List Nat
  evicted   : List EnvFrame
  fault     : Bool

-- A call of `tp_submit` with the pointer that `calloc` returns. Calls without a function or without
-- memory return at once. The flag of a worker is what happens to it from outside: that it has been
-- idle for long enough, or that the thread it starts can be created.
inductive PoolAct
  | call    (t : UInt64)
  | submit  (i : Nat)
  | worker  (w : Nat) (flag : Bool)
  | destroy

namespace PoolRun

variable (r : PoolRun)

def setQueue (q : RingQueue) : PoolRun :=
  { r with pool.taskQueue := q }

def setThread (w : Nat) (pc : TpWorkerPc) : PoolRun :=
  { r with threads := r.threads.set w pc }

def setSubmit (i : Nat) (pc : TpSubmitPc) : PoolRun :=
  { r with submits := r.submits.set i pc }

-- The call of a water level callback.
def pushCommand (cmd : UInt16) : Option PoolRun :=
  let q := r.pool.taskQueue
  (ringPush q (commandFrame cmd)).map fun q' =>
    { r.setQueue q' with
      evicted := r.evicted ++ if q.IsFull then (q.contents.find? (¬·.IsAlarm)).toList else [] }

-- `t->fn(t->arg)`.
def execute (t : UInt64) : PoolRun :=
  { r with
    executed := r.executed ++ (r.heap t).toList
    fault    := r.fault || (r.heap t).isNone }

-- `free(t)`.
def release (t : UInt64) : PoolRun :=
  { r with
    heap  := Function.update r.heap t none
    fault := r.fault || (r.heap t).isNone }

def spawn (created : Bool) : Option PoolRun :=
  (r.pool.tpSpawnLocked r.threads.length created).map fun tp =>
    { r with pool := tp, threads := r.threads ++ [.checking] }

def call (t : UInt64) : Option PoolRun :=
  if r.destroy = .uncalled ∧ t ≠ 0 ∧ r.heap t = none then
    some { r with
      heap    := Function.update r.heap t (some r.submits.length)
      submits := r.submits ++ [.pushing t] }
  else
    none

def submitStep (i : Nat) : Option PoolRun :=
  match r.submits[i]? with
  | some (.pushing t)      =>
    (ringPush r.pool.taskQueue (tpPackTask t)).map fun q => (r.setQueue q).setSubmit i .sampling
  | some .sampling         => some (r.setSubmit i (.counting r.pool.water))
  | some (.counting water) =>
    let c := r.pool.countWater water
    some ({ r with pool := c.snd }.setSubmit i (if c.fst then .alerting else .returned))
  | some .alerting         =>
    (r.pushCommand poolCmdScaleUp).map (·.setSubmit i .returned)
  | some .returned | none  => none

def dispatch (w : Nat) (ef : EnvFrame) (created : Bool) : PoolRun :=
  let r' := r.setThread w .checking
  if ef.frameType = frameData then
    let t := tpUnpackTask ef
    if t = 0 then r' else (r.execute t).setThread w (.ran t)
  else if ef.frameType = frameAlarm then
    let cmd := ef.stationId.toUInt8.toUInt16
    if cmd = poolCmdScaleUp then
      (r'.spawn created).getD r'
    else if cmd = poolCmdScaleDown ∧ r.pool.workerNum > r.pool.minWorkers then
      { r with pool := r.pool.tpUnlinkLocked w }.setThread w .exited
    else
      r'
  else
    r'

def workerStep (w : Nat) (flag : Bool) : Option PoolRun :=
  match r.threads[w]? with
  | some .checking => some (r.setThread w (if r.pool.shutdown then .leaving else .fetching))
  | some .fetching =>
    match tpWorkerDequeue r.pool.taskQueue with
    | some (ef, q) => some ((r.setQueue q).setThread w (.got ef))
    | none         => some (r.setThread w .idle)
  | some .idle     =>
    if flag ∧ r.pool.workerNum > r.pool.minWorkers
    then some (r.setThread w .lowering)
    else some (r.setThread w .checking)
  | some .lowering => (r.pushCommand poolCmdScaleDown).map (·.setThread w .checking)
  | some (.got ef) => some (r.dispatch w ef flag)
  | some (.ran t)  =>
    some ({ r.release t with freed := r.freed ++ (r.heap t).toList }.setThread w .checking)
  | some .leaving  => some ({ r with pool := r.pool.tpUnlinkLocked w }.setThread w .exited)
  | some .exited | none => none

-- The last call: `tp_submit` is not called any more, and its calls have returned.
def destroyStep : Option PoolRun :=
  match r.destroy with
  | .uncalled =>
    if ∀ pc ∈ r.submits, pc = .returned
    then some { r with pool.shutdown := true, destroy := .waiting }
    else none
  | .waiting  => if r.pool.workerNum = 0 then some { r with destroy := .draining } else none
  | .draining =>
    match tpDestroyDequeue r.pool.taskQueue with
    | some (ef, q) =>
      let r' := r.setQueue q
      let t := tpUnpackTask ef
      if ef.frameType = frameData ∧ t ≠ 0
      then some { r'.release t with destroyed := r.destroyed ++ (r.heap t).toList }
      else some r'
    | none => some { r with destroy := .done }
  | .done     => none

end PoolRun

def poolStep : Transition PoolRun PoolAct
  | r, .call t        => r.call t
  | r, .submit i      => r.submitStep i
  | r, .worker w flag => r.workerStep w flag
  | r, .destroy       => r.destroyStep

-- The same threads where the calls come in any order: `tp_destroy` at any time, and `tp_submit` until
-- the queue is freed.
def loosePoolStep : Transition PoolRun PoolAct
  | r, .call t =>
    if r.destroy ≠ .done ∧ t ≠ 0 ∧ r.heap t = none then
      some { r with
        heap    := Function.update r.heap t (some r.submits.length)
        submits := r.submits ++ [.pushing t] }
    else
      none
  | r, .submit i      => if r.destroy = .done then none else r.submitStep i
  | r, .worker w flag => r.workerStep w flag
  | r, .destroy       =>
    if r.destroy = .uncalled
    then some { r with pool.shutdown := true, destroy := .waiting }
    else r.destroyStep

-- The loop which starts the first threads. It ends early when one of them cannot be created.
def tpPrestart (r : PoolRun) : List Bool → PoolRun
  | []            => r
  | created :: cs =>
    match r.spawn created with
    | none    => r
    | some r' => tpPrestart r' cs

-- The list tells which of the `min_w` threads can be created.
def tpInit (minW maxW qcap : UInt32) (alloc : Bool) (created : Nat → Bool) : Option PoolRun :=
  if minW = 0 ∨ maxW < minW ∨ qcap = 0 ∨ qcap &&& (qcap - 1) ≠ 0 then
    none
  else
    (ringInit qcap alloc).bind fun q =>
      let tp : ThreadPool := {
        workers        := []
        workerNum      := 0
        maxWorkers     := maxW
        taskQueue      := q
        shutdown       := false
        minWorkers     := minW
        waterHighCount := 0 }
      let r := tpPrestart {
        pool      := tp
        threads   := []
        submits   := []
        destroy   := .uncalled
        heap      := fun _ => none
        executed  := []
        freed     := []
        destroyed := []
        evicted   := []
        fault     := false } ((List.range minW.toNat).map created)
      if r.pool.workerNum = 0 then none else some r

end IotCollector
