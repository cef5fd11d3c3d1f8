import Mathlib.Logic.Function.Basic
import IotCollector.Common.Tbf
import IotCollector.Lib.Transition

namespace IotCollector

-- Where a caller of `tbf_fetch_token` stands: outside of it, before a pass of its loop, or asleep on
-- the condition variable of the bucket.
inductive FetchPc
  | outside
  | passing (want : UInt64) (timeoutMs : Int32) (counted : Bool)
  | waiting (want : UInt64) (timeoutMs : Int32)
  deriving DecidableEq

structure FetchReturn (ι : Type*) where
  caller : ι
  want   : UInt64
  rc     : IotStatus

-- A bucket with its callers, and what `tbf_fetch_token` has returned to them.
structure TbfRun (ι : Type*) where
  bucket  : Tbf
  callers : ι → FetchPc
  returns : List (FetchReturn ι)

-- A caller in `pthread_cond_wait` may wake up at any time, and one in `pthread_cond_timedwait` may
-- also find that its time is over.
inductive TbfAct (ι : Type*)
  | tick     (elapsedMs : UInt64)
  | shutdown
  | fetch    (i : ι) (want : UInt64) (timeoutMs : Int32)
  | pass     (i : ι)
  | wakeup   (i : ι)
  | timeout  (i : ι)

namespace TbfRun

variable {ι : Type*} [DecidableEq ι]

def init (bucket : Tbf) : TbfRun ι where
  bucket  := bucket
  callers := fun _ => .outside
  returns := []

variable (r : TbfRun ι)

def setCaller (i : ι) (pc : FetchPc) : TbfRun ι :=
  { r with callers := Function.update r.callers i pc }

def giveBack (i : ι) (want : UInt64) (rc : IotStatus) : TbfRun ι :=
  { r.setCaller i .outside with returns := r.returns ++ [⟨i, want, rc⟩] }

def fetchStep (i : ι) (want : UInt64) (timeoutMs : Int32) : Option (TbfRun ι) :=
  match r.callers i with
  | .outside =>
    if want = 0
    then some (r.giveBack i want .errGeneric)
    else some (r.setCaller i (.passing want timeoutMs false))
  | _ => none

def passStep (i : ι) : Option (TbfRun ι) :=
  match r.callers i with
  | .passing want timeoutMs counted =>
    match r.bucket.tbfFetchPass want counted with
    | .returns rc bucket => some ({ r with bucket }.giveBack i want rc)
    | .waits bucket      => some ({ r with bucket }.setCaller i (.waiting want timeoutMs))
  | _ => none

def wakeupStep (i : ι) : Option (TbfRun ι) :=
  match r.callers i with
  | .waiting want timeoutMs => some (r.setCaller i (.passing want timeoutMs true))
  | _                       => none

def timeoutStep (i : ι) : Option (TbfRun ι) :=
  match r.callers i with
  | .waiting want timeoutMs => if timeoutMs < 0 then none else some (r.giveBack i want .errTimeout)
  | _                       => none

end TbfRun

def tbfStep {ι : Type*} [DecidableEq ι] : Transition (TbfRun ι) (TbfAct ι)
  | r, .tick elapsedMs         => some { r with bucket := r.bucket.tbfTick elapsedMs }
  | r, .shutdown               => some { r with bucket := r.bucket.tbfShutdown }
  | r, .fetch i want timeoutMs => r.fetchStep i want timeoutMs
  | r, .pass i                 => r.passStep i
  | r, .wakeup i               => r.wakeupStep i
  | r, .timeout i              => r.timeoutStep i

end IotCollector
