import Mathlib.Logic.Function.Basic
import IotCollector.Egress.Throttle
import IotCollector.Lib.Transition

namespace IotCollector

-- The two loops that take tokens for a slice before they send it.
inductive SendCall
  | unicastWriteThrottled
  | throttledSend
  deriving DecidableEq

-- Where a sender stands, with what remains of its buffer: before a pass of the loop in
-- `tbf_fetch_token`, asleep in it, or about to send the slice.
inductive SendPc
  | idle
  | fetching (call : SendCall) (remain : Nat) (counted : Bool)
  | waiting  (call : SendCall) (remain : Nat)
  | sending  (call : SendCall) (remain : Nat)
  deriving DecidableEq

-- A bucket with its senders. For each of them, `paid` counts the tokens that have been taken from the
-- bucket for it, and `sent` the bytes that the socket has got.
structure SendRun (ι : Type*) where
  bucket  : Tbf
  senders : ι → SendPc
  paid    : ι → Nat
  sent    : ι → Nat

-- A write comes with the number of bytes that are accepted before it returns, or fails. While
-- `unicast_write_all` deals with `EINTR` itself, `throttled_send` fetches once more.
inductive SendAct (ι : Type*)
  | tick      (elapsedMs : UInt64)
  | shutdown
  | call      (i : ι) (call : SendCall) (len : Nat)
  | pass      (i : ι)
  | wakeup    (i : ι)
  | write     (i : ι) (n : Nat)
  | interrupt (i : ι)

def slice (remain : Nat) : Nat :=
  min remain tbfMaxFetchPerOp

def SendPc.loop (call : SendCall) (remain : Nat) : SendPc :=
  if remain = 0 then .idle else .fetching call remain false

namespace SendRun

variable {ι : Type*}

def init (bucket : Tbf) : SendRun ι where
  bucket  := bucket
  senders := fun _ => .idle
  paid    := fun _ => 0
  sent    := fun _ => 0

variable [DecidableEq ι] (r : SendRun ι)

def setSender (i : ι) (pc : SendPc) : SendRun ι :=
  { r with senders := Function.update r.senders i pc }

def pay (i : ι) (n : Nat) : SendRun ι :=
  { r with paid := Function.update r.paid i (r.paid i + n) }

def hand (i : ι) (n : Nat) : SendRun ι :=
  { r with sent := Function.update r.sent i (r.sent i + n) }

def passStep (i : ι) : Option (SendRun ι) :=
  match r.senders i with
  | .fetching call remain counted =>
    match r.bucket.tbfFetchPass (slice remain).toUInt64 counted with
    | .returns .ok bucket          =>
      let r' := r.pay i (r.bucket.tokens.toNat - bucket.tokens.toNat)
      some ({ r' with bucket }.setSender i (.sending call remain))
    | .returns .errShutdown bucket => some ({ r with bucket }.setSender i .idle)
    | .returns _ bucket            => some ({ r with bucket }.setSender i (.loop call remain))
    | .waits bucket                => some ({ r with bucket }.setSender i (.waiting call remain))
  | _ => none

def writeStep (i : ι) (n : Nat) : Option (SendRun ι) :=
  match r.senders i with
  | .sending call remain =>
    if n < slice remain then
      some ((r.hand i n).setSender i .idle)
    else if n = slice remain then
      some ((r.hand i n).setSender i (.loop call (remain - slice remain)))
    else
      none
  | _ => none

end SendRun

def sendStep {ι : Type*} [DecidableEq ι] : Transition (SendRun ι) (SendAct ι)
  | r, .tick elapsedMs   => some { r with bucket := r.bucket.tbfTick elapsedMs }
  | r, .shutdown         => some { r with bucket := r.bucket.tbfShutdown }
  | r, .call i call len  =>
    match r.senders i with
    | .idle => some (r.setSender i (.loop call len))
    | _     => none
  | r, .pass i           => r.passStep i
  | r, .wakeup i         =>
    match r.senders i with
    | .waiting call remain => some (r.setSender i (.fetching call remain true))
    | _                    => none
  | r, .write i n        => r.writeStep i n
  | r, .interrupt i      =>
    match r.senders i with
    | .sending .throttledSend remain => some (r.setSender i (.loop .throttledSend remain))
    | _                              => none

end IotCollector
