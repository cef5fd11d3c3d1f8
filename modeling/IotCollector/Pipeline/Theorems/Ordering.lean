import Mathlib.Data.List.Chain
import IotCollector.Lib.Transition
import IotCollector.Pipeline.Theorems.Cleaner

namespace IotCollector

open Cleaner

def EnvFrame.Before (f g : EnvFrame) : Prop :=
  f.stamp.Before g.stamp

instance : DecidableRel EnvFrame.Before :=
  fun f g => inferInstanceAs (Decidable (f.stamp.Before g.stamp))

instance : Trans EnvFrame.Before EnvFrame.Before EnvFrame.Before where
  trans := Stamp.Before.trans

-- The cleaner, and the frames that have left it with `CLEAN_PASS`.
structure CleanRun where
  cleaner : Cleaner
  passed  : List EnvFrame

-- A frame comes with the outcome of the allocation that it may cause.
abbrev CleanOp := EnvFrame × Bool

def cleanStep (D : Type*) [DoubleArith D] : Transition CleanRun CleanOp :=
  fun s op =>
    let r := s.cleaner.cleanerProcess D op.fst op.snd
    some { cleaner := r.snd.snd
           passed  := if r.fst = .pass then s.passed ++ [r.snd.fst] else s.passed }

namespace CleanRun

def init (stats : IotStats) : CleanRun where
  cleaner := cleanerInit stats
  passed  := []

def passedOf (s : CleanRun) (st : UInt16) : List EnvFrame :=
  s.passed.filter (·.stationId = st)

def Ordered (s : CleanRun) : Prop :=
  ∀ st, (s.passedOf st).Pairwise EnvFrame.Before

end CleanRun

-- A full reorder buffer gives away a frame which is not later than the last one that passed, and
-- the frame is in range and no outlier.
def ReleasesStale (D : Type*) [DoubleArith D] (s : CleanRun) (op : CleanOp) : Prop :=
  ∃ ctx, s.cleaner.Fresh op.fst op.snd ctx ∧ ctx.IsJump op.fst ∧ ¬ctx.reorderCount < reorderCap ∧
    ¬ctx.lastValidTimestamp.Before ctx.oldest.stamp ∧ ctx.Admits D ctx.oldest

namespace CleanRun

-- The invariant. The cleaner knows the time of the last frame that has passed, and buffers a frame
-- under its own station.
structure Tracked (s : CleanRun) : Prop where
  ordered  : s.Ordered
  last     : ∀ st, s.cleaner.lastValid st = (s.passedOf st).getLast?.map (·.stamp)
  buffered : ∀ st, ∀ g ∈ s.cleaner.buffered st, g.stationId = st

end CleanRun

variable {D : Type*} [DoubleArith D] {s s' : CleanRun} {op : CleanOp}

theorem pairwise_concat_iff {l : List EnvFrame} {g : EnvFrame} (h : l.Pairwise EnvFrame.Before) :
    (l ++ [g]).Pairwise EnvFrame.Before ↔
    ∀ t ∈ l.getLast?.map EnvFrame.stamp, Stamp.Before t g.stamp := by
  simp only [← List.isChain_iff_pairwise] at *
  simp [List.isChain_append, h, EnvFrame.Before]

theorem passedOf_concat (cleaner : Cleaner) (g : EnvFrame) (st : UInt16) :
    CleanRun.passedOf { cleaner, passed := s.passed ++ [g] } st =
    if g.stationId = st then s.passedOf st ++ [g] else s.passedOf st := by
  by_cases h : g.stationId = st <;> simp [CleanRun.passedOf, h]

namespace CleanRun

theorem Tracked.keep (h : s.Tracked) {c : Cleaner}
    (hl : ∀ st, c.lastValid st = s.cleaner.lastValid st)
    (hb : ∀ st, ∀ g ∈ c.buffered st, g.stationId = st) :
    Tracked { cleaner := c, passed := s.passed } where
  ordered  := h.ordered
  last st  := (hl st).trans (h.last st)
  buffered := hb

theorem Tracked.count {c : Cleaner} {passed : List EnvFrame}
    (h : Tracked { cleaner := c, passed }) (kind : Nat) :
    Tracked { cleaner := c.count kind, passed } :=
  h.keep (fun _ => rfl) h.buffered

theorem Tracked.pass (h : s.Tracked) {ctx : StationInternalCtx} {g : EnvFrame} {st : UInt16}
    (hg : g.stationId = st) (ht : ∀ t ∈ s.cleaner.lastValid st, t.Before g.stamp)
    (hl : ctx.lastValid = some g.stamp) (hb : ∀ g ∈ ctx.buffered, g.stationId = st) :
    Tracked { cleaner := s.cleaner.put st ctx, passed := s.passed ++ [g] } := by
  subst hg
  refine ⟨fun st => ?_, fun st => ?_, fun st f hf => ?_⟩
  · rw [passedOf_concat]
    split
    case isTrue he  =>
      exact (pairwise_concat_iff <| h.ordered st).mpr <| h.last st ▸ he ▸ ht
    case isFalse he => exact h.ordered st
  · rw [passedOf_concat, lastValid_put]
    by_cases he : g.stationId = st
    case pos => simp [he, hl]
    case neg => simp [he, Ne.symm he, h.last st]
  · rw [buffered_put] at hf
    split at hf
    case isTrue he  => exact he ▸ hb f hf
    case isFalse he => exact h.buffered st f hf

theorem Tracked.station (h : s.Tracked) {f : EnvFrame} {alloc : Bool} {ctx : StationInternalCtx}
    (hf : s.cleaner.getInternalCtx f.stationId alloc = some ctx) :
    ∀ g ∈ ctx.buffered, g.stationId = f.stationId := by
  have ⟨_, hb⟩ := getInternalCtx_eq_some hf
  exact hb ▸ h.buffered f.stationId

theorem Tracked.put (h : s.Tracked) {f : EnvFrame} {alloc : Bool} {ctx ctx' : StationInternalCtx}
    (hf : s.cleaner.getInternalCtx f.stationId alloc = some ctx)
    (hl : ctx'.lastValid = ctx.lastValid) (hb : ∀ g ∈ ctx'.buffered, g ∈ ctx.buffered ∨ g = f) :
    Tracked { cleaner := s.cleaner.put f.stationId ctx', passed := s.passed } := by
  refine h.keep (fun st => ?_) (fun st g hg => ?_)
  · rw [lastValid_put]
    split
    case isTrue he  => rw [he, hl, (getInternalCtx_eq_some hf).left]
    case isFalse he => rfl
  · rw [buffered_put] at hg
    split at hg
    case isFalse he => exact h.buffered st g hg
    case isTrue he  =>
      cases hb g hg
      case inl hg => exact he ▸ h.station hf g hg
      case inr hg => exact hg ▸ he.symm

end CleanRun

theorem lastValid_of_isJump {ctx : StationInternalCtx} {f : EnvFrame} (h : ctx.IsJump f) :
    ctx.lastValid = some ctx.lastValidTimestamp := by
  simp [StationInternalCtx.lastValid, h.left]

theorem cleanStep_tracked (h : s.Tracked) (ho : ¬ReleasesStale D s op)
    (hs : cleanStep D s op = some s') : s'.Tracked := by
  obtain ⟨f, alloc⟩ := op
  cases hs
  have hp := cleanerProcess_processed D s.cleaner f alloc
  generalize s.cleaner.cleanerProcess D f alloc = r at hp ⊢
  cases hp
  case alarm => exact h
  case heart => exact h.count 4
  case noCtx => exact h
  case stale ctx hg _ =>
    exact (h.put hg rfl fun _ => .inl).count 3
  case buffered ctx hc hf _ =>
    refine h.put hf.found rfl fun g hg => ?_
    simpa [StationInternalCtx.buffered_buffer] using hg
  case notReleased ctx kind hf _ _ _ =>
    have hb := fun g => StationInternalCtx.mem_buffered_swap ctx (f := f) (g := g)
    have hp : CleanRun.Tracked ⟨s.cleaner.put f.stationId (ctx.swap f), s.passed⟩ :=
      h.put hf.found rfl hb
    exact hp.count kind
  case notPassed ctx kind hf _ _ =>
    exact (h.put hf.found rfl fun _ => .inl).count kind
  case passed ctx hf _ _ =>
    have hl := (getInternalCtx_eq_some hf.found).left
    have ht := StationInternalCtx.not_isStale_iff.mp hf.notStale
    have hb := h.station hf.found
    exact h.pass rfl (hl ▸ ht) rfl hb
  case released ctx hf hj hc ha =>
    have hl := (getInternalCtx_eq_some hf.found).left
    have ht : ctx.lastValidTimestamp.Before ctx.oldest.stamp := by
      by_contra hn
      exact ho ⟨ctx, hf, hj, hc, hn, ha⟩
    refine h.pass (h.station hf.found _ <| StationInternalCtx.oldest_mem_buffered hc) ?_ rfl ?_
    · rw [← hl, lastValid_of_isJump hj]
      simpa using ht
    · intro g hg
      cases StationInternalCtx.mem_buffered_swap ctx hg
      case inl hg => exact h.station hf.found g hg
      case inr hg => exact hg ▸ rfl

theorem cleanStep_releasesStale (h : s.Tracked) (ho : ReleasesStale D s op)
    (hs : cleanStep D s op = some s') : ¬s'.Ordered := by
  obtain ⟨f, alloc⟩ := op
  have ⟨ctx, hf, hj, hc, hn, ha⟩ := ho
  cases hs
  have ⟨hl, _⟩ := getInternalCtx_eq_some hf.found
  have hg := h.station hf.found _ <| StationInternalCtx.oldest_mem_buffered hc
  intro hd
  have hd := hd f.stationId
  simp only [cleanerProcess_released hf hj hc ha, if_true, passedOf_concat, hg,
    pairwise_concat_iff (h.ordered f.stationId), ← h.last, ← hl, lastValid_of_isJump hj] at hd
  exact hn (hd _ rfl)

theorem init_tracked (stats : IotStats) : (CleanRun.init stats).Tracked where
  ordered _  := List.Pairwise.nil
  last _     := rfl
  buffered _ := List.forall_mem_nil _

-- The frames that pass are ordered along a run exactly if no frame is released too late.
theorem cleaner_ordered_iff (D : Type*) [DoubleArith D] (stats : IotStats) (ops : List CleanOp) :
    (cleanStep D).Always (.init stats) ops CleanRun.Ordered ↔
    (cleanStep D).Guarded (.init stats) ops (fun s op => ¬ReleasesStale D s op) :=
  Transition.always_iff_guarded (init_tracked stats) CleanRun.Tracked.ordered cleanStep_tracked
    fun h hs hd ho => cleanStep_releasesStale h ho hs hd

def frameAt (sec : UInt32) : EnvFrame :=
  { EnvFrame.zero with stationId := 1, timestampSec := sec }

-- Five frames ahead of the station fill the buffer. When a sixth one comes, the station has passed
-- the first of them.
def lateRelease : List CleanOp :=
  [100, 111, 112, 113, 114, 115, 110, 120, 131].map fun sec => (frameAt sec, true)

theorem exec_lateRelease (D : Type*) [DoubleArith D] :
    ∃ s, (cleanStep D).exec (.init {}) lateRelease = some s ∧
      s.passed = [100, 110, 120, 111].map frameAt :=
  ⟨_, rfl, rfl⟩

-- Whatever the doubles are: the window is not full, so that none is computed.
theorem cleaner_ordered_false :
    ¬∃ (D : Type) (_ : DoubleArith D),
      ∀ stats ops, (cleanStep D).Always (.init stats) ops CleanRun.Ordered := by
  rintro ⟨D, _, h⟩
  have ⟨s, hs, hp⟩ := exec_lateRelease D
  have ho := h {} lateRelease lateRelease s (List.prefix_refl _) hs 1
  rw [CleanRun.passedOf, hp] at ho
  exact absurd ho (by decide)

end IotCollector
