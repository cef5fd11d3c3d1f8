import Mathlib.Logic.Function.Basic
import IotCollector.Lib.Transition
import IotCollector.Egress.Dispatcher

namespace IotCollector

-- The threads that write to the connection.
inductive Sender (ι : Type*)
  | worker (i : ι)
  | monitor
  deriving DecidableEq

-- Where a thread stands. From `holding` on it holds `g_unicast_lock`, and from `fetching` on it
-- holds `g_send_lock`, too. The bytes are those that it has yet to write. The monitor is `checked`
-- when it has found the link online, and `swapping` when it has tried to connect.
inductive SenderPc
  | idle
  | checked  (wire : List UInt8)
  | holding  (wire : List UInt8)
  | sending  (wire : List UInt8)
  | fetching (wire : List UInt8)
  | writing  (rest : List UInt8)
  | marking  (ok : Bool)
  | swapping (fd : Int)
  deriving DecidableEq

-- The variables that the threads share, and the bytes that the connection under `g_unicast_fd` has
-- accepted so far.
structure Connection (ι : Type*) where
  unicastFd   : Int
  link        : Link
  unicastLock : Option (Sender ι)
  sendLock    : Option (Sender ι)
  stream      : List UInt8
  pcs         : Sender ι → SenderPc

-- In a `send`, the number is what the call returns, and `none` stands for an error or for 0. One
-- that `EINTR` ends is no step. A token is not fetched where there is no bucket or it is shut down.
inductive ConnectionAct (ι : Type*)
  | dispatch  (i : ι) (frame : EnvFrame)
  | heartbeat (t : UInt32)
  | lock
  | check     (who : Sender ι)
  | lockSend  (who : Sender ι)
  | fetch     (who : Sender ι) (ok : Bool)
  | send      (who : Sender ι) (accepted : Option Nat)
  | mark      (who : Sender ι)
  | connect   (connect : Except IotError Nat)
  | swap

-- The frame of `unicast_sender_heartbeat`.
def heartFrame (t : UInt32) : EnvFrame :=
  { EnvFrame.zero with version := 1, frameType := frameHeart, timestampSec := t }

namespace Connection

variable {ι : Type*} [DecidableEq ι] (s : Connection ι)

def setPc (who : Sender ι) (pc : SenderPc) : Connection ι :=
  { s with pcs := Function.update s.pcs who pc }

-- The connection that `dispatcher_start` makes.
def start (cfg : DispatcherCfg) (connect : Except IotError Nat) : Connection ι :=
  let r := Link.initial.unicastSenderInit cfg.platformIp cfg.platformPort connect
  { unicastFd   := r.fst
    link        := r.snd
    unicastLock := none
    sendLock    := none
    stream      := []
    pcs         := fun _ => .idle }

-- A worker looks at the link in `dispatch_one`, and the monitor only at the descriptor.
def Usable : Sender ι → Prop
  | .worker _ => s.unicastFd ≥ 0 ∧ s.link.online
  | .monitor  => s.unicastFd ≥ 0

instance (who : Sender ι) : Decidable (s.Usable who) :=
  match who with
  | .worker _ => inferInstanceAs <| Decidable <| s.unicastFd ≥ 0 ∧ s.link.online
  | .monitor  => inferInstanceAs <| Decidable <| s.unicastFd ≥ 0

def afterLock : Sender ι → List UInt8 → SenderPc
  | .worker _, wire => .fetching wire
  | .monitor,  wire => .writing wire

-- What `unicast_write_all` does after a `send` of the given bytes.
def afterSend (who : Sender ι) (rest : List UInt8) : Option Nat → Option (Connection ι)
  | none   => some <| s.setPc who (.marking false)
  | some k =>
    if 0 < k ∧ k ≤ rest.length then
      let s := { s with stream := s.stream ++ rest.take k }
      if rest.drop k = []
      then some <| s.setPc who (.marking true)
      else some <| s.setPc who (.writing <| rest.drop k)
    else
      none

def swap (fd : Int) : Connection ι :=
  { s with
    unicastFd := if fd ≥ 0 then fd else -1
    link      := if s.unicastFd ≥ 0 then s.link.unicastSenderClose s.unicastFd else s.link
    stream    := [] }

end Connection

open Connection

variable {ι : Type*} [DecidableEq ι]

-- A thread that waits for a lock has no step.
def connectionStep (cfg : DispatcherCfg) : Transition (Connection ι) (ConnectionAct ι)
  | s, .dispatch i frame =>
    match s.pcs (.worker i), s.unicastLock, frameEncode (frameHton frame) envFrameWireSize with
    | .idle, none, some wire =>
      some { s.setPc (.worker i) (.holding wire) with unicastLock := some (.worker i) }
    | _, _, _ => none
  | s, .heartbeat t =>
    match s.pcs .monitor, frameEncode (frameHton <| heartFrame t) envFrameWireSize with
    | .idle, some wire => if s.link.online then some <| s.setPc .monitor (.checked wire) else none
    | _, _ => none
  | s, .lock =>
    match s.pcs .monitor, s.unicastLock with
    | .checked wire, none =>
      some { s.setPc .monitor (.holding wire) with unicastLock := some .monitor }
    | _, _ => none
  | s, .check who =>
    match s.pcs who with
    | .holding wire =>
      if s.Usable who
      then some <| s.setPc who (.sending wire)
      else some { s.setPc who .idle with unicastLock := none }
    | _ => none
  | s, .lockSend who =>
    match s.pcs who, s.sendLock with
    | .sending wire, none => some { s.setPc who (afterLock who wire) with sendLock := some who }
    | _, _ => none
  | s, .fetch who ok =>
    match s.pcs who with
    | .fetching wire => some <| s.setPc who (if ok then .writing wire else .marking false)
    | _ => none
  | s, .send who accepted =>
    match s.pcs who with
    | .writing rest => s.afterSend who rest accepted
    | _ => none
  | s, .mark who =>
    match s.pcs who with
    | .marking ok =>
      some { s.setPc who .idle with
        link := s.link.markResult ok, unicastLock := none, sendLock := none }
    | _ => none
  | s, .connect connect =>
    match s.pcs .monitor with
    | .idle =>
      if s.link.online then
        none
      else
        let r := s.link.unicastSenderInit cfg.platformIp cfg.platformPort connect
        some { s.setPc .monitor (.swapping r.fst) with link := r.snd }
    | _ => none
  | s, .swap =>
    match s.pcs .monitor, s.unicastLock with
    | .swapping fd, none => some <| (s.swap fd).setPc .monitor .idle
    | _, _ => none

end IotCollector
