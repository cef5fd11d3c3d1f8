import IotCollector.Common.Frame

namespace IotCollector

-- The value of the status in C.
def IotStatus.code : IotStatus → Int
  | .ok          =>  0
  | .errGeneric  => -1
  | .errAgain    => -2
  | .errFull     => -3
  | .errEmpty    => -4
  | .errNomem    => -5
  | .errProto    => -6
  | .errIo       => -7
  | .errTimeout  => -8
  | .errShutdown => -9

abbrev IotError := { e : IotStatus // e ≠ .ok }

theorem IotError.code_neg (e : IotError) : e.val.code < 0 := by
  have ⟨e, h⟩ := e
  cases e <;> first | contradiction | simp [IotStatus.code]

def heartbeatLostLimit : Nat := 3

-- The variables `g_link_online` and `g_fail_streak`.
structure Link where
  online     : Bool
  failStreak : Nat
  deriving DecidableEq

namespace Link

def initial : Link where
  online     := false
  failStreak := 0

variable (l : Link)

-- `unicast_mark_result`.
def markResult (ok : Bool) : Link :=
  if ok then
    { online := true, failStreak := 0 }
  else if l.failStreak + 1 ≥ heartbeatLostLimit then
    { online := false, failStreak := l.failStreak + 1 }
  else
    { l with failStreak := l.failStreak + 1 }

-- The argument `connect` is the result of `tcp_connect_timeout`.
def unicastSenderInit (ip : Option (List UInt8)) (port : UInt16) (connect : Except IotError Nat) :
    Int × Link :=
  if ip.isNone ∨ port = 0 then
    (IotStatus.errGeneric.code, l)
  else
    match connect with
    | .error e => (e.val.code, l.markResult false)
    | .ok fd   => (fd, l.markResult true)

-- The argument `write` is the result of `unicast_write_throttled` on the bytes.
def unicastSenderSend (fd : Int) (buf : List UInt8) (write : List UInt8 → IotStatus) :
    IotStatus × Link :=
  if fd < 0 ∨ buf.length = 0
  then (.errGeneric, l)
  else (write buf, l.markResult (write buf = .ok))

-- The argument `write` is the result of `unicast_write_all` on the heartbeat frame.
def unicastSenderHeartbeat (fd : Int) (write : IotStatus) : IotStatus × Link :=
  if fd < 0
  then (.errGeneric, l)
  else (write, l.markResult (write = .ok))

def unicastSenderClose (fd : Int) : Link :=
  if fd < 0
  then l
  else { online := false, failStreak := 0 }

variable {l}

theorem unicastSenderInit_of_nonneg {ip : Option (List UInt8)} {port : UInt16}
    {connect : Except IotError Nat} (h : 0 ≤ (l.unicastSenderInit ip port connect).fst) :
    (l.unicastSenderInit ip port connect).snd = { online := true, failStreak := 0 } := by
  unfold unicastSenderInit at *
  split at h
  case isTrue => contradiction
  case isFalse hp =>
    rw [if_neg hp]
    cases connect
    case error e => exact absurd h (Int.not_le.mpr e.code_neg)
    case ok fd   => rfl

end Link
end IotCollector
