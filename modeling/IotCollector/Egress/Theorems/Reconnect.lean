import IotCollector.Lib.Transition
import IotCollector.Egress.Dispatcher

namespace IotCollector

open Dispatcher

-- What happens to the link between the start of the dispatcher and its end. The sends of a worker
-- are those of `dispatchOne`, and the sends of a replay those of `replaySend`.
inductive LinkOp
  | dispatch   (frame : EnvFrame) (io : DispatchIo)
  | heartbeat  (write : IotStatus)
  | replaySend (fd : Int) (buf : List UInt8) (write : List UInt8 → IotStatus)
  | reconnect  (connect : Except IotError Nat)

def linkStep (cfg : DispatcherCfg) : Transition Dispatcher LinkOp
  | d, .dispatch frame io          => some (d.dispatchOne cfg frame io)
  | d, .heartbeat write            => d.monitorHeartbeat write
  | d, .replaySend fd buf write    => some (d.replaySend fd buf write)
  | d, .reconnect connect          => d.monitorReconnect cfg connect

def newFd (cfg : DispatcherCfg) (d : Dispatcher) (connect : Except IotError Nat) : Int :=
  (d.link.unicastSenderInit cfg.platformIp cfg.platformPort connect).fst

def Restored (cfg : DispatcherCfg) (d : Dispatcher) : LinkOp → Prop
  | .reconnect connect => 0 ≤ newFd cfg d connect →
    (d.reconnect cfg connect).unicastFd = newFd cfg d connect ∧
    (d.reconnect cfg connect).link.online
  | _                  => True

def NoOldFd (cfg : DispatcherCfg) (d : Dispatcher) : LinkOp → Prop
  | .reconnect connect => 0 ≤ newFd cfg d connect → d.unicastFd < 0
  | _                  => True

variable {cfg : DispatcherCfg} {d : Dispatcher}

theorem reconnect_of_success {connect : Except IotError Nat} (h : 0 ≤ newFd cfg d connect) :
    (d.reconnect cfg connect).unicastFd = newFd cfg d connect ∧
    ((d.reconnect cfg connect).link.online ↔ d.unicastFd < 0) := by
  have hl := Link.unicastSenderInit_of_nonneg h
  refine ⟨if_pos h, ?_⟩
  simp only [reconnect, hl, Link.unicastSenderClose]
  by_cases ho : 0 ≤ d.unicastFd
  case pos => simp [ho, Int.not_lt.mpr ho]
  case neg => simp [ho, Int.not_le.mp ho]

theorem restored_iff (op : LinkOp) : Restored cfg d op ↔ NoOldFd cfg d op := by
  cases op
  case reconnect connect =>
    refine forall_congr' fun h => ?_
    have ⟨hf, ho⟩ := reconnect_of_success h
    rw [hf, ho]
    simp
  all_goals rfl

-- Along a run, every reconnection restores the link exactly if none of them finds an old descriptor.
theorem reconnect_restores_iff (cfg : DispatcherCfg) (d : Dispatcher)
    (connect : Except IotError Nat) (ops : List LinkOp) :
    (linkStep cfg).Guarded (d.dispatcherConnect cfg connect) ops (Restored cfg) ↔
    (linkStep cfg).Guarded (d.dispatcherConnect cfg connect) ops (NoOldFd cfg) := by
  simp only [Transition.Guarded, restored_iff]

def sampleCfg : DispatcherCfg where
  platformIp   := some []
  platformPort := 9000
  cachePath    := none

def sampleDispatcher : Dispatcher where
  mcastFd   := -1
  unicastFd := -1
  link      := .initial
  cache     := { fs := { node := fun _ => 0, data := fun _ => none }, cacheFd := none
                 writeCursor := 0, readCursor := 0 }
  stats     := {}

-- After three lost heartbeats, a successful reconnection takes the link down again.
theorem reconnect_restores_false :
    ¬∀ cfg d connect ops,
      (linkStep cfg).Guarded (Dispatcher.dispatcherConnect cfg d connect) ops (Restored cfg) := by
  intro h
  have hr := h sampleCfg sampleDispatcher (.ok 4)
    [.heartbeat .errIo, .heartbeat .errIo, .heartbeat .errIo, .reconnect (.ok 5)]
    [.heartbeat .errIo, .heartbeat .errIo, .heartbeat .errIo] (.reconnect (.ok 5)) _ _
    (List.prefix_refl _) rfl rfl
  exact absurd (hr (by decide)).right (by decide)

end IotCollector
