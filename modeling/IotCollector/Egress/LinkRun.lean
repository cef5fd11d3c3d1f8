import IotCollector.Lib.Transition
import IotCollector.Egress.Throttle

namespace IotCollector

-- The failures that a caller of `unicast_mark_result` reports: of a connect or a send of the
-- socket, or of a bucket which is missing or has been shut down.
inductive Failure
  | socket
  | bucket
  deriving DecidableEq

inductive Verdict
  | unmarked
  | success
  | failure (f : Failure)

-- What happens to the link. A send is one of a worker or of a replay, with the bucket that it finds
-- and the ticks that come while it waits. The flag `shut` is whether the bucket is shut down when
-- there are no more of them.
inductive LinkAct
  | connect   (ip : Option (List UInt8)) (port : UInt16) (result : Except IotError Nat)
  | send      (fd : Int) (buf : List UInt8) (bucket : Option Tbf) (ticks : List UInt64) (shut : Bool)
              (write : List UInt8 → IotStatus)
  | heartbeat (fd : Int) (write : IotStatus)
  | close     (fd : Int)

-- The failures are those since the last success.
structure LinkRun where
  link     : Link
  failures : List Failure

def Verdict.note : Verdict → List Failure → List Failure
  | .unmarked,  failures => failures
  | .success,   _        => []
  | .failure f, failures => failures ++ [f]

-- The verdict on a result of `unicast_write_throttled`, where only `unicast_write_all` fails with
-- `IOT_ERR_IO`.
def sendVerdict : IotStatus → Verdict
  | .ok    => .success
  | .errIo => .failure .socket
  | _      => .failure .bucket

namespace LinkAct

-- A send whose thread sleeps for ever is no step.
def run (l : Link) : LinkAct → Option (Verdict × Link)
  | .connect ip port result =>
    let l := (l.unicastSenderInit ip port result).snd
    if ip.isNone ∨ port = 0 then
      some (.unmarked, l)
    else
      match result with
      | .error _ => some (.failure .socket, l)
      | .ok _    => some (.success, l)
  | .send fd buf bucket ticks shut write =>
    let x : Exit := { bucket, ticks, link := l, saves := [], wire := [], asleep := false }
    match x.unicastSenderSendWithBucket fd write buf with
    | some r => some (if fd < 0 ∨ buf.length = 0 then .unmarked else sendVerdict r.fst, r.snd.link)
    | none   =>
      if shut
      then some (sendVerdict .errShutdown, l.markResult false)
      else none
  | .heartbeat fd write =>
    let l := (l.unicastSenderHeartbeat fd write).snd
    if fd < 0 then
      some (.unmarked, l)
    else if write = .ok then
      some (.success, l)
    else
      some (.failure .socket, l)
  | .close fd => some (.unmarked, l.unicastSenderClose fd)

end LinkAct

def LinkRun.initial : LinkRun where
  link     := .initial
  failures := []

def linkRunStep : Transition LinkRun LinkAct
  | s, a => (a.run s.link).map fun r => { link := r.snd, failures := r.fst.note s.failures }

end IotCollector
