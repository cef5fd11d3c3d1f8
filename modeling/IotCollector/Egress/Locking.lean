import Mathlib.Data.Fintype.Sum
import Mathlib.Tactic.DeriveFintype
import IotCollector.Lib.LockProgram

namespace IotCollector

inductive Mutex
  | stats
  | cache
  | send
  | bucket
  | unicast
  | link
  deriving DecidableEq

-- The functions of the egress layer, as far as they use these locks. The locks of the queues are
-- left out: no other lock is asked for while one of them is held. The outbound bucket is the only
-- one, since nothing sets `g_retry_bucket`.
namespace Locking

open LockProgram

abbrev Code := LockProgram Mutex

def statsOnDrop : Code :=
  locked .stats skip

def statsOnEgress : Code :=
  locked .stats skip

def statsOnThrottled : Code :=
  locked .stats skip

def cacheWriterAppend : Code :=
  locked .cache skip

def cachePendingFrames : Code :=
  locked .cache skip

def unicastMarkResult : Code :=
  locked .link skip

def unicastLinkOnline : Code :=
  locked .link skip

def unicastSenderClose : Code :=
  locked .link skip

def unicastSenderInit : Code :=
  unicastMarkResult

-- The wait gives up the lock and takes it again.
def condWait : Code :=
  seq (unlock .bucket) (lock .bucket)

-- The first pass of the loop either returns or counts the request. The passes after a wait do not
-- count it again.
def tbfFetchToken : Code :=
  seq (lock .bucket) <|
  seq (alt skip <| seq statsOnThrottled <| seq condWait <| loop condWait) <|
  unlock .bucket

-- Without a bucket, the function returns at once. A frame takes one request.
def unicastWriteThrottled (bucket : Bool) : Code :=
  if bucket then tbfFetchToken else skip

def unicastSenderSendWithBucket (bucket : Bool) : Code :=
  locked .send <| seq (unicastWriteThrottled bucket) unicastMarkResult

def unicastSenderSend : Code :=
  unicastSenderSendWithBucket true

def unicastSenderHeartbeat : Code :=
  locked .send unicastMarkResult

def cacheReplayStart : Code :=
  locked .cache <| alt skip <| loop <| alt skip <| unicastSenderSendWithBucket false

def dispatchOne : Code :=
  alt statsOnDrop <|
  seq (alt skip <| alt skip statsOnEgress) <|
  alt skip <|
  seq (locked .unicast <| alt skip <| seq unicastLinkOnline <| alt skip unicastSenderSend) <|
  alt statsOnEgress <| alt cacheWriterAppend statsOnDrop

def dispatchWorker : Code :=
  loop dispatchOne

def monitorHeartbeat : Code :=
  seq unicastLinkOnline <|
  alt skip <| locked .unicast <| alt skip unicastSenderHeartbeat

def monitorReconnect : Code :=
  seq unicastLinkOnline <|
  alt skip <| seq unicastSenderInit <| locked .unicast <| alt skip unicastSenderClose

def monitorReplay : Code :=
  alt skip <|
  seq unicastLinkOnline <|
  alt skip <|
  seq cachePendingFrames <|
  alt skip <|
  seq (locked .unicast skip) <|
  alt skip <| seq cachePendingFrames <| seq cacheReplayStart cachePendingFrames

def dispatchMonitor : Code :=
  loop <| alt skip <| seq monitorHeartbeat <| seq monitorReconnect monitorReplay

def statsSnapshot : Code :=
  locked .stats cachePendingFrames

def statsReport : Code :=
  statsSnapshot

def statsThreadFn : Code :=
  loop statsReport

inductive ThreadId (n : Nat)
  | worker (i : Fin n)
  | monitor
  | stats
  deriving DecidableEq, Fintype

def code {n : Nat} : ThreadId n → Code
  | .worker _ => dispatchWorker
  | .monitor  => dispatchMonitor
  | .stats    => statsThreadFn

end Locking
end IotCollector
