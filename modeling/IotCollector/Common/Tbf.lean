import IotCollector.Common.Frame

namespace IotCollector

def tbfDefaultCps : UInt64 := 512 * 1024

def tbfDefaultBurst : UInt64 := 1024 * 1024

def tbfTickMs : UInt64 := 10

-- The fields of `tbf_t` but its lock and its condition variable.
structure Tbf where
  cps            : UInt64
  burst          : UInt64
  tokens         : UInt64
  shutdown       : Bool
  throttledBytes : UInt64
  deriving DecidableEq

-- The argument `alloc` tells whether `calloc` succeeds.
def tbfInit (cps burst : UInt64) (alloc : Bool) : Except IotStatus Tbf :=
  if cps = 0 ∨ burst = 0 then
    .error .errGeneric
  else if !alloc then
    .error .errNomem
  else
    .ok {
      cps            := cps
      burst          := burst
      tokens         := burst
      shutdown       := false
      throttledBytes := 0 }

-- One pass of the loop in `tbf_fetch_token` either returns or goes to sleep on the condition
-- variable of the bucket.
inductive FetchPass
  | returns (rc : IotStatus) (bucket : Tbf)
  | waits (bucket : Tbf)

namespace Tbf

variable (t : Tbf)

def tbfTick (elapsedMs : UInt64) : Tbf :=
  if elapsedMs = 0 then
    t
  else
    let elapsedMs := if elapsedMs > 60000 then 60000 else elapsedMs
    let tokens := t.tokens + t.cps * elapsedMs / 1000
    { t with tokens := if tokens > t.burst then t.burst else tokens }

def clamp (want : UInt64) : UInt64 :=
  if want > t.burst then t.burst else want

def tbfFetchPass (want : UInt64) (counted : Bool) : FetchPass :=
  let want := t.clamp want
  if t.shutdown then
    .returns .errShutdown t
  else if t.tokens ≥ want then
    .returns .ok { t with tokens := t.tokens - want }
  else if counted then
    .waits t
  else
    .waits { t with throttledBytes := t.throttledBytes + want }

-- The whole of `tbf_fetch_token` without a timeout, where `ticks` come while the caller sleeps. With
-- no more of them to come, it sleeps for ever.
def tbfFetchToken (t : Tbf) (want : UInt64) (counted : Bool) (ticks : List UInt64) :
    Option (IotStatus × Tbf × List UInt64) :=
  if want = 0 then
    some (.errGeneric, t, ticks)
  else
    match t.tbfFetchPass want counted with
    | .returns rc t => some (rc, t, ticks)
    | .waits t      =>
      match ticks with
      | []                 => none
      | elapsedMs :: ticks => (t.tbfTick elapsedMs).tbfFetchToken want true ticks

def tbfShutdown : Tbf :=
  { t with shutdown := true }

variable {t} {want : UInt64}

theorem toNat_fetched (h : t.clamp want ≤ t.tokens) :
    (t.tokens - t.clamp want).toNat = t.tokens.toNat - (t.clamp want).toNat :=
  UInt64.toNat_sub_of_le _ _ h

theorem tbfFetchPass_cases (t : Tbf) (want : UInt64) (counted : Bool) :
    (t.shutdown = true ∧ t.tbfFetchPass want counted = .returns .errShutdown t) ∨
    (t.shutdown = false ∧ t.clamp want ≤ t.tokens ∧
      t.tbfFetchPass want counted = .returns .ok { t with tokens := t.tokens - t.clamp want }) ∨
    (t.shutdown = false ∧ t.tokens < t.clamp want ∧
      ∃ n, t.tbfFetchPass want counted = .waits { t with throttledBytes := n }) := by
  unfold tbfFetchPass
  by_cases hs : t.shutdown
  case pos => exact .inl ⟨hs, if_pos hs⟩
  case neg =>
    rw [if_neg hs]
    have hs := Bool.eq_false_of_not_eq_true hs
    by_cases ht : t.clamp want ≤ t.tokens
    case pos => exact .inr <| .inl ⟨hs, ht, if_pos ht⟩
    case neg =>
      rw [if_neg ht]
      have hw := UInt64.not_le.mp ht
      cases counted
      case true  => exact .inr <| .inr ⟨hs, hw, t.throttledBytes, rfl⟩
      case false => exact .inr <| .inr ⟨hs, hw, _, rfl⟩

theorem tbfFetchPass_of_le (counted : Bool) (h : t.clamp want ≤ t.tokens) :
    ∃ rc t', t.tbfFetchPass want counted = .returns rc t' ∧ t'.burst = t.burst ∧
      t.tokens.toNat ≤ t'.tokens.toNat + (t.clamp want).toNat := by
  rcases t.tbfFetchPass_cases want counted with ⟨_, he⟩ | ⟨_, _, he⟩ | ⟨_, hw, _⟩
  case inl     => exact ⟨.errShutdown, t, he, rfl, Nat.le_add_right ..⟩
  case inr.inr => exact absurd h <| UInt64.not_le.mpr hw
  case inr.inl =>
    refine ⟨.ok, _, he, rfl, ?_⟩
    rw [toNat_fetched h]
    omega

end Tbf
end IotCollector
