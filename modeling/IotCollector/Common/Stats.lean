namespace IotCollector

-- The counters which the modelled functions add to.
structure IotStats where
  ingressTotal   : UInt64 := 0
  udpUcastFrames : UInt64 := 0
  udpMcastFrames : UInt64 := 0
  tcpFrames      : UInt64 := 0
  simFrames      : UInt64 := 0
  cleanedFrames  : UInt64 := 0
  anomalyFrames  : UInt64 := 0
  rangeDrop      : UInt64 := 0
  dupDrop        : UInt64 := 0
  reorderDrop    : UInt64 := 0
  droppedTotal   : UInt64 := 0
  mcastOk        : UInt64 := 0
  unicastOk      : UInt64 := 0

namespace IotStats

variable (s : IotStats)

def onIngress (proto : Nat) (n : UInt32) : IotStats :=
  let s := { s with ingressTotal := s.ingressTotal + n.toUInt64 }
  match proto with
  | 0 => { s with udpUcastFrames := s.udpUcastFrames + n.toUInt64 }
  | 1 => { s with udpMcastFrames := s.udpMcastFrames + n.toUInt64 }
  | 2 => { s with tcpFrames      := s.tcpFrames      + n.toUInt64 }
  | 3 => { s with simFrames      := s.simFrames      + n.toUInt64 }
  | _ => s

def onClean (kind : Nat) (n : UInt32) : IotStats :=
  match kind with
  | 0 => { s with cleanedFrames := s.cleanedFrames + n.toUInt64 }
  | 1 => { s with anomalyFrames := s.anomalyFrames + n.toUInt64 }
  | 2 => { s with rangeDrop     := s.rangeDrop     + n.toUInt64 }
  | 3 => { s with dupDrop       := s.dupDrop       + n.toUInt64 }
  | 4 => { s with reorderDrop   := s.reorderDrop   + n.toUInt64 }
  | _ => s

def onDrop (n : UInt32) : IotStats :=
  { s with droppedTotal := s.droppedTotal + n.toUInt64 }

def onEgress (channel : Nat) (n : UInt32) : IotStats :=
  if channel = 0
  then { s with mcastOk   := s.mcastOk   + n.toUInt64 }
  else { s with unicastOk := s.unicastOk + n.toUInt64 }

end IotStats
end IotCollector
