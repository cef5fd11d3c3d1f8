import IotCollector.Common.Clock
import IotCollector.Common.TbfRun

namespace IotCollector

-- A call of `pthread_cond_timedwait`, in a call of `tbf_fetch_token` which began at the time `entered`.
structure Timedwait (ι : Type*) where
  caller    : ι
  entered   : Timespec
  timeoutMs : Int32
  deadline  : Timespec

structure FetchClock (ι : Type*) where
  run        : TbfRun ι
  entered    : ι → Timespec
  timedwaits : List (Timedwait ι)

namespace FetchClock

variable {ι : Type*} [DecidableEq ι]

def init (bucket : Tbf) (now : Timespec) : FetchClock ι where
  run        := .init bucket
  entered    := fun _ => now
  timedwaits := []

variable (r : FetchClock ι)

-- The deadline of a sleeper who has just read the clock.
def timedwait (i : ι) (now : Timespec) : List (Timedwait ι) :=
  match r.run.callers i with
  | .waiting _ timeoutMs =>
    if timeoutMs < 0 then [] else [⟨i, r.entered i, timeoutMs, now.after timeoutMs⟩]
  | _ => []

def isOver (i : ι) (now : Timespec) : Bool :=
  (r.timedwaits.filter (·.caller = i)).getLast?.any (·.deadline.toNs ≤ now.toNs)

end FetchClock

def fetchClockStep {ι : Type*} [DecidableEq ι] : Transition (FetchClock ι) (TbfAct ι × Timespec)
  | r, (a, now) =>
    match tbfStep r.run a with
    | none     => none
    | some run =>
      let r := { r with run }
      match a with
      | .fetch i _ _ => some { r with entered := Function.update r.entered i now }
      | .pass i      => some { r with timedwaits := r.timedwaits ++ r.timedwait i now }
      | .timeout i   => if r.isOver i now then some r else none
      | _            => some r

end IotCollector
