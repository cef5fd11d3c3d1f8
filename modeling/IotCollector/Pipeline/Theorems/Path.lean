import IotCollector.Pipeline.Theorems.Effect

namespace IotCollector

open Cleaner StationInternalCtx

-- The paths through `cleaner_process`, up to the call of `process_valid_frame` or the reorder buffer.
inductive Path
  | alarm
  | heart
  | noCtx
  | stale   (ctx : StationInternalCtx)
  | reorder (ctx : StationInternalCtx)
  | direct  (ctx : StationInternalCtx)

namespace Cleaner

def path (c : Cleaner) (f : EnvFrame) (alloc : Bool) : Path :=
  if f.IsAlarm then
    .alarm
  else if f.frameType = frameHeart then
    .heart
  else
    match c.getInternalCtx f.stationId alloc with
    | none     => .noCtx
    | some ctx =>
      if ctx.IsStale f then .stale ctx else if ctx.IsJump f then .reorder ctx else .direct ctx

end Cleaner

def Path.route (f : EnvFrame) : Path → Route
  | .alarm       => .alarm
  | .heart       => .heart
  | .noCtx       => .noCtx
  | .stale ctx   => .stale ctx
  | .direct ctx  => .handed ctx f
  | .reorder ctx =>
    if h : ctx.reorderCount < reorderCap
    then .waits (ctx.buffer f h)
    else .handed (ctx.swap f) ctx.oldest

namespace Cleaner

variable {c : Cleaner} {ctx : StationInternalCtx} {f : EnvFrame} {alloc : Bool}

theorem route_eq_path (c : Cleaner) (f : EnvFrame) (alloc : Bool) :
    c.route f alloc = (c.path f alloc).route f := by
  unfold route path
  cases c.getInternalCtx f.stationId alloc <;>
  simp only [apply_ite (Path.route f)] <;>
  rfl

theorem path_of_data (hd : f.IsData) (hg : c.getInternalCtx f.stationId alloc = some ctx) :
    c.path f alloc =
    if ctx.IsStale f then .stale ctx else if ctx.IsJump f then .reorder ctx else .direct ctx := by
  simp only [path, if_neg hd.left, if_neg hd.right, hg]

theorem getInternalCtx_eq (c : Cleaner) (st : UInt16) :
    c.getInternalCtx st true = some (c.ctxOf st) := by
  obtain ⟨ctx, h⟩ := getInternalCtx_true c st
  rw [h, getInternalCtx_eq_ctxOf h]

theorem cleanerProcess_of_direct {D : Type*} [DoubleArith D] (hd : f.IsData)
    (hs : ¬(c.ctxOf f.stationId).IsStale f) (hj : ¬(c.ctxOf f.stationId).IsJump f)
    (ha : (c.ctxOf f.stationId).Admits D f) :
    c.cleanerProcess D f true =
    (.pass, f, c.put f.stationId ((c.ctxOf f.stationId).accept f)) := by
  rw [cleanerProcess_eq, route_eq_path, path_of_data hd (getInternalCtx_eq ..), if_neg hs, if_neg hj,
    Path.route, follow, processValidFrame_of_admits _ _ _ ha]

end Cleaner

namespace StationInternalCtx

variable {ctx : StationInternalCtx} {f : EnvFrame}

def Ahead (ctx : StationInternalCtx) (f : EnvFrame) : Prop :=
  ctx.lastValidTimestamp.fst.toNat + 10 < f.timestampSec.toNat

theorem not_isStale_of_before (h : ctx.lastValidTimestamp.Before f.stamp) : ¬ctx.IsStale f := by
  rw [not_isStale_iff, lastValid]
  split
  case isTrue  => simpa using h
  case isFalse => simp

theorem Ahead.before (h : ctx.Ahead f) : ctx.lastValidTimestamp.Before f.stamp := by
  refine .inl <| UInt32.lt_iff_toNat_lt.mpr ?_
  simp only [Ahead, EnvFrame.stamp] at *
  omega

theorem isJump_iff (hv : ctx.hasValidTimestamp) :
    ctx.IsJump f ↔ (ctx.lastValidTimestamp.fst.toNat + 10) % 2 ^ 32 < f.timestampSec.toNat := by
  simp [IsJump, hv, UInt32.lt_iff_toNat_lt, UInt32.toNat_add]

theorem Ahead.isJump (h : ctx.Ahead f) (hv : ctx.hasValidTimestamp) : ctx.IsJump f := by
  rw [isJump_iff hv]
  exact lt_of_le_of_lt (Nat.mod_le ..) h

-- Where the sum does not fit, every later frame is taken for one that is ahead, and none is.
theorem isJump_iff_ahead (hv : ctx.hasValidTimestamp)
    (hl : ctx.lastValidTimestamp.Before f.stamp) :
    (ctx.IsJump f ↔ ctx.Ahead f) ↔ ctx.lastValidTimestamp.fst.toNat + 10 < 2 ^ 32 := by
  have hs : ctx.lastValidTimestamp.fst.toNat ≤ f.timestampSec.toNat := by
    simp only [Stamp.Before, EnvFrame.stamp, UInt32.lt_iff_toNat_lt, ← UInt32.toNat_inj] at hl
    omega
  have := f.timestampSec.toNat_lt
  rw [isJump_iff hv, Ahead]
  omega

end StationInternalCtx

-- A frame with a later timestamp than the last one that has passed.
theorem jump_exact_iff (D : Type*) [DoubleArith D] (c : Cleaner) (f : EnvFrame) (alloc : Bool)
    (ctx : StationInternalCtx) (hd : f.IsData) (hg : c.getInternalCtx f.stationId alloc = some ctx)
    (hv : ctx.hasValidTimestamp) (hl : ctx.lastValidTimestamp.Before f.stamp) :
    c.cleanerProcess D f alloc = c.follow D f ((c.path f alloc).route f) ∧
    c.route f alloc = (c.path f alloc).route f ∧
    ((c.path f alloc = .reorder ctx ↔ ctx.Ahead f) ∧
      (¬ctx.Ahead f → c.path f alloc = .direct ctx) ↔
     ctx.lastValidTimestamp.fst.toNat + 10 < 2 ^ 32) := by
  have hr := route_eq_path c f alloc
  refine ⟨hr ▸ cleanerProcess_eq c D f alloc, hr, ?_⟩
  rw [← isJump_iff_ahead hv hl, path_of_data hd hg, if_neg (not_isStale_of_before hl)]
  by_cases hj : ctx.IsJump f <;> simp [hj]

def stationAt (sec : UInt32) : Cleaner :=
  (cleanerInit {}).put 1 ((fresh 1).accept (frameAt sec))

theorem jump_exact_iff_sample :
    (stationAt 100).cleanerProcess Float (frameAt 111) true =
      (stationAt 100).follow Float (frameAt 111)
        (((stationAt 100).path (frameAt 111) true).route (frameAt 111)) ∧
    (stationAt 100).route (frameAt 111) true =
      ((stationAt 100).path (frameAt 111) true).route (frameAt 111) ∧
    (((stationAt 100).path (frameAt 111) true = .reorder ((fresh 1).accept (frameAt 100)) ↔
        ((fresh 1).accept (frameAt 100)).Ahead (frameAt 111)) ∧
      (¬((fresh 1).accept (frameAt 100)).Ahead (frameAt 111) →
        (stationAt 100).path (frameAt 111) true = .direct ((fresh 1).accept (frameAt 100))) ↔
     100 + 10 < 2 ^ 32) :=
  jump_exact_iff Float (stationAt 100) (frameAt 111) true ((fresh 1).accept (frameAt 100))
    (by decide) rfl rfl (by decide)

-- One second after a frame that stands near the end of the 32 bits.
theorem jump_exact_false :
    ¬∀ (c : Cleaner) (f : EnvFrame) (alloc : Bool) (ctx : StationInternalCtx), f.IsData →
      c.getInternalCtx f.stationId alloc = some ctx → ctx.hasValidTimestamp →
      ctx.lastValidTimestamp.Before f.stamp →
      (c.path f alloc = .reorder ctx ↔ ctx.Ahead f) := by
  intro h
  have h := h (stationAt 4294967290) (frameAt 4294967291) true
    ((fresh 1).accept (frameAt 4294967290)) (by decide) rfl rfl (by decide)
  rw [path_of_data (by decide) rfl, if_neg (by decide), if_pos (by decide)] at h
  exact absurd (h.mp rfl) (by simp [Ahead, accept, frameAt, EnvFrame.stamp])

end IotCollector
