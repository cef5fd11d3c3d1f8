import IotCollector.Common.Proto
import IotCollector.Common.Stats
import IotCollector.Egress.CacheWriter
import IotCollector.Egress.UnicastSender

namespace IotCollector

open Posix

structure DispatcherCfg where
  platformIp   : Option (List UInt8)
  platformPort : UInt16
  cachePath    : Option Path

structure Dispatcher where
  mcastFd   : Int
  unicastFd : Int
  link      : Link
  cache     : CacheWriter
  stats     : IotStats

-- What the calls return that one frame causes: the sends as functions of the bytes on the wire, and
-- the `write` to the cache file.
structure DispatchIo where
  mcast   : List UInt8 → IotStatus
  unicast : List UInt8 → IotStatus
  written : Option Nat

-- The bytes that `mcast_sender_send` and `unicast_sender_send` hand over to the network.
inductive Outgoing
  | mcast   (fd : Int) (buf : List UInt8)
  | unicast (fd : Int) (buf : List UInt8)
  deriving DecidableEq

namespace Dispatcher

def mcastSends (fd : Int) (buf : List UInt8) : List Outgoing :=
  if fd < 0 ∨ buf.length = 0 then [] else [.mcast fd buf]

def unicastSends (fd : Int) (buf : List UInt8) : List Outgoing :=
  if fd < 0 ∨ buf.length = 0 then [] else [.unicast fd buf]

variable (cfg : DispatcherCfg) (d : Dispatcher)

def mcastSenderSend (fd : Int) (buf : List UInt8) (io : DispatchIo) : IotStatus :=
  if fd < 0 ∨ buf.length = 0
  then .errGeneric
  else io.mcast buf

-- The part of `dispatch_one` for the unicast exit.
def dispatchUnicast (frame : EnvFrame) (wire : List UInt8) (io : DispatchIo) : Dispatcher :=
  let r :=
    if d.unicastFd ≥ 0 ∧ d.link.online
    then d.link.unicastSenderSend d.unicastFd wire io.unicast
    else (.errIo, d.link)
  let d := { d with link := r.snd }
  if r.fst = .ok then
    { d with stats := d.stats.onEgress 1 1 }
  else if cfg.cachePath.isSome then
    { d with cache := (d.cache.cacheWriterAppend frame io.written).snd }
  else
    { d with stats := d.stats.onDrop 1 }

def dispatchOne (frame : EnvFrame) (io : DispatchIo) : Dispatcher :=
  match frameEncode (frameHton frame) envFrameWireSize with
  | none      => { d with stats := d.stats.onDrop 1 }
  | some wire =>
    let d :=
      if d.mcastFd ≥ 0 ∧ mcastSenderSend d.mcastFd wire io = .ok
      then { d with stats := d.stats.onEgress 0 1 }
      else d
    if cfg.platformIp.isSome
    then d.dispatchUnicast cfg frame wire io
    else d

-- The sends of `dispatch_one`, which are those that get as far as the network, in front of what it does
-- otherwise.
def dispatchOneSends (frame : EnvFrame) (io : DispatchIo) : List Outgoing × Dispatcher :=
  match frameEncode (frameHton frame) envFrameWireSize with
  | none      => ([], { d with stats := d.stats.onDrop 1 })
  | some wire =>
    let r :=
      if d.mcastFd ≥ 0 then
        let sent := mcastSends d.mcastFd wire
        if mcastSenderSend d.mcastFd wire io = .ok
        then (sent, { d with stats := d.stats.onEgress 0 1 })
        else (sent, d)
      else
        ([], d)
    let d := r.snd
    if cfg.platformIp.isSome then
      let sent := if d.unicastFd ≥ 0 ∧ d.link.online then unicastSends d.unicastFd wire else []
      (r.fst ++ sent, d.dispatchUnicast cfg frame wire io)
    else
      r

-- The steps of `dispatch_monitor`. In each of them, the guard is the test in front of it. Its timers
-- may run out at any moment.
def monitorHeartbeat (write : IotStatus) : Option Dispatcher :=
  if d.link.online then
    if d.unicastFd ≥ 0
    then some { d with link := (d.link.unicastSenderHeartbeat d.unicastFd write).snd }
    else some d
  else
    none

def reconnect (connect : Except IotError Nat) : Dispatcher :=
  let r := d.link.unicastSenderInit cfg.platformIp cfg.platformPort connect
  { d with
    unicastFd := if r.fst ≥ 0 then r.fst else -1
    link      := if d.unicastFd ≥ 0 then r.snd.unicastSenderClose d.unicastFd else r.snd }

def monitorReconnect (connect : Except IotError Nat) : Option Dispatcher :=
  if d.link.online
  then none
  else some (d.reconnect cfg connect)

-- One send of a replay. The monitor has read the descriptor before, and does not look at the link
-- again until the replay is over.
def replaySend (fd : Int) (buf : List UInt8) (write : List UInt8 → IotStatus) : Dispatcher :=
  { d with link := (d.link.unicastSenderSend fd buf write).snd }

-- The connection that `dispatcher_start` makes.
def dispatcherConnect (connect : Except IotError Nat) : Dispatcher :=
  if cfg.platformIp.isSome then
    let r := d.link.unicastSenderInit cfg.platformIp cfg.platformPort connect
    { d with unicastFd := r.fst, link := r.snd }
  else
    d

end Dispatcher
end IotCollector
