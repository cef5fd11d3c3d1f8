import IotCollector.Lib.Circular
import IotCollector.Pipeline.Cleaner

namespace IotCollector

namespace Stamp

theorem Before.trans {a b c : Stamp} (h₁ : a.Before b) (h₂ : b.Before c) : a.Before c := by
  simp only [Before, UInt32.lt_iff_toNat_lt, ← UInt32.toNat_inj] at *
  omega

instance : Trans Before Before Before where
  trans := Before.trans

end Stamp

def EnvFrame.InRange (f : EnvFrame) : Prop :=
  f.pm25 ≤ 1000 ∧ f.pm10 ≤ 1000 ∧ -400 ≤ f.temperature ∧ f.temperature ≤ 800 ∧ f.humidity ≤ 1000 ∧
  f.coPpb ≤ 50000 ∧ f.noiseDb ≤ 1500

instance : DecidablePred EnvFrame.InRange :=
  fun _ => inferInstanceAs (Decidable (_ ∧ _ ∧ _ ∧ _ ∧ _ ∧ _ ∧ _))

variable (D : Type*) [DoubleArith D]

namespace StationInternalCtx

variable (ctx : StationInternalCtx) {f : EnvFrame}

def Admits (f : EnvFrame) : Prop :=
  f.InRange ∧ ctx.base.anomalyDetectAll D f = false

def lastValid : Option Stamp :=
  if ctx.hasValidTimestamp then some ctx.lastValidTimestamp else none

def buffered : List EnvFrame :=
  ctx.reorderBuf.toList.take ctx.reorderCount

variable {ctx}

theorem not_isStale_iff : ¬ctx.IsStale f ↔ ∀ t ∈ ctx.lastValid, t.Before f.stamp := by
  simp only [IsStale, lastValid, Stamp.Before, EnvFrame.stamp]
  cases ctx.hasValidTimestamp
  case false => simp
  case true =>
    simp only [UInt32.lt_iff_toNat_lt, UInt32.le_iff_toNat_le, ← UInt32.toNat_inj, true_and, if_true,
      Option.mem_some_iff, forall_eq']
    omega

theorem buffered_buffer (h : ctx.reorderCount < reorderCap) :
    (ctx.buffer f h).buffered = ctx.buffered ++ [f] := by
  simp only [buffered, buffer, Vector.toList_set]
  exact Circular.take_succ_set (by simpa using h)

variable (ctx) in
theorem mem_buffered_swap {g : EnvFrame} (hg : g ∈ (ctx.swap f).buffered) :
    g ∈ ctx.buffered ∨ g = f := by
  simp only [buffered, swap, Vector.toList_set, List.take_set] at hg
  exact List.mem_or_eq_of_mem_set hg

theorem oldest_mem_buffered (h : ¬ctx.reorderCount < reorderCap) : ctx.oldest ∈ ctx.buffered := by
  have hc : ctx.reorderCount = reorderCap := Nat.le_antisymm ctx.bounded (Nat.not_lt.mp h)
  rw [buffered, hc, List.take_of_length_le (by simp), oldest]
  exact Vector.mem_toList_iff.mpr <| Vector.getElem_mem _

end StationInternalCtx

namespace Cleaner

variable {D} {c : Cleaner} {ctx : StationInternalCtx} {f : EnvFrame} {st : UInt16} {alloc : Bool}

def lastValid (c : Cleaner) (st : UInt16) : Option Stamp :=
  (c.ctxs st).bind (·.lastValid)

def buffered (c : Cleaner) (st : UInt16) : List EnvFrame :=
  ((c.ctxs st).map (·.buffered)).getD []

theorem getInternalCtx_eq_some (h : c.getInternalCtx st alloc = some ctx) :
    ctx.lastValid = c.lastValid st ∧ ctx.buffered = c.buffered st := by
  unfold getInternalCtx at h
  split at h
  case h_1 hc => cases h; simp [lastValid, buffered, hc]
  case h_2 hc =>
    split at h <;> cases h
    simp [lastValid, buffered, hc, StationInternalCtx.fresh, StationInternalCtx.lastValid,
      StationInternalCtx.buffered]

theorem getInternalCtx_true (c : Cleaner) (st : UInt16) :
    ∃ ctx, c.getInternalCtx st true = some ctx := by
  cases h : c.ctxs st <;> simp [getInternalCtx, h]

@[simp]
theorem lastValid_put (c : Cleaner) (st st' : UInt16) (ctx : StationInternalCtx) :
    (c.put st ctx).lastValid st' = if st' = st then ctx.lastValid else c.lastValid st' := by
  by_cases h : st' = st <;> simp [lastValid, put, h]

@[simp]
theorem buffered_put (c : Cleaner) (st st' : UInt16) (ctx : StationInternalCtx) :
    (c.put st ctx).buffered st' = if st' = st then ctx.buffered else c.buffered st' := by
  by_cases h : st' = st <;> simp [buffered, put, h]

theorem inRange_iff : f.InRange ↔
    ¬(f.pm25 > 1000 ∨ f.pm10 > 1000) ∧ ¬(f.temperature < -400 ∨ f.temperature > 800) ∧
    ¬f.humidity > 1000 ∧ ¬f.coPpb > 50000 ∧ ¬f.noiseDb > 1500 := by
  simp [EnvFrame.InRange, and_assoc]

variable (c ctx st) in
theorem processValidFrame_of_admits (h : ctx.Admits D f) :
    c.processValidFrame D st ctx f = (.pass, c.put st (ctx.accept f)) := by
  have ⟨hr, ha⟩ := h
  have ⟨h₁, h₂, h₃, h₄, h₅⟩ := inRange_iff.mp hr
  rw [processValidFrame, if_neg h₁, if_neg h₂, if_neg h₃, if_neg h₄, if_neg h₅, ha]
  rfl

variable (c ctx st) in
theorem processValidFrame_of_not_admits (h : ¬ctx.Admits D f) :
    ∃ kind, (kind = 1 ∨ kind = 2) ∧
      c.processValidFrame D st ctx f = (.drop, (c.put st ctx).count kind) := by
  unfold processValidFrame
  by_cases h₁ : f.pm25 > 1000 ∨ f.pm10 > 1000
  case pos => exact ⟨2, .inr rfl, if_pos h₁⟩
  by_cases h₂ : f.temperature < -400 ∨ f.temperature > 800
  case pos => exact ⟨2, .inr rfl, by rw [if_neg h₁, if_pos h₂]⟩
  by_cases h₃ : f.humidity > 1000
  case pos => exact ⟨2, .inr rfl, by rw [if_neg h₁, if_neg h₂, if_pos h₃]⟩
  by_cases h₄ : f.coPpb > 50000
  case pos => exact ⟨2, .inr rfl, by rw [if_neg h₁, if_neg h₂, if_neg h₃, if_pos h₄]⟩
  by_cases h₅ : f.noiseDb > 1500
  case pos => exact ⟨2, .inr rfl, by rw [if_neg h₁, if_neg h₂, if_neg h₃, if_neg h₄, if_pos h₅]⟩
  have ha : ctx.base.anomalyDetectAll D f = true := by
    by_contra hn
    exact h ⟨inRange_iff.mpr ⟨h₁, h₂, h₃, h₄, h₅⟩, Bool.not_eq_true _ ▸ hn⟩
  refine ⟨1, .inl rfl, ?_⟩
  rw [if_neg h₁, if_neg h₂, if_neg h₃, if_neg h₄, if_neg h₅, if_pos ha]

-- What becomes of a frame in `process_valid_frame` depends on the context of its station, and the
-- reorder buffer stays as it is.
theorem processValidFrame_ctxs (ctx : StationInternalCtx) (f : EnvFrame) (st : UInt16) :
    ∃ result ctx', ctx'.buffered = ctx.buffered ∧ ∀ c : Cleaner,
      (c.processValidFrame D st ctx f).fst = result ∧
      (c.processValidFrame D st ctx f).snd.ctxs = (c.put st ctx').ctxs := by
  by_cases h : ctx.Admits D f
  case pos =>
    refine ⟨.pass, ctx.accept f, rfl, fun c => ?_⟩
    rw [processValidFrame_of_admits c ctx st h]
    exact ⟨rfl, rfl⟩
  case neg =>
    refine ⟨.drop, ctx, rfl, fun c => ?_⟩
    have ⟨_, _, hp⟩ := processValidFrame_of_not_admits c ctx st h
    rw [hp]
    exact ⟨rfl, rfl⟩

structure Fresh (c : Cleaner) (f : EnvFrame) (alloc : Bool) (ctx : StationInternalCtx) : Prop where
  data     : ¬f.IsAlarm ∧ f.frameType ≠ frameHeart
  found    : c.getInternalCtx f.stationId alloc = some ctx
  notStale : ¬ctx.IsStale f

inductive Processed (D : Type*) [DoubleArith D] (c : Cleaner) (f : EnvFrame) (alloc : Bool) :
    CleanResult × EnvFrame × Cleaner → Prop
  | alarm : f.IsAlarm → Processed D c f alloc (.alarm, f, c)
  | heart : f.frameType = frameHeart → Processed D c f alloc (.drop, f, c.count 4)
  | noCtx : c.getInternalCtx f.stationId alloc = none → Processed D c f alloc (.drop, f, c)
  | stale (ctx : StationInternalCtx) :
      c.getInternalCtx f.stationId alloc = some ctx → ctx.IsStale f →
      Processed D c f alloc (.drop, f, (c.put f.stationId ctx).count 3)
  | buffered (ctx : StationInternalCtx) (h : ctx.reorderCount < reorderCap) :
      c.Fresh f alloc ctx → ctx.IsJump f →
      Processed D c f alloc (.drop, f, c.put f.stationId (ctx.buffer f h))
  | released (ctx : StationInternalCtx) :
      c.Fresh f alloc ctx → ctx.IsJump f → ¬ctx.reorderCount < reorderCap →
      ctx.Admits D ctx.oldest →
      Processed D c f alloc
        (.pass, ctx.oldest, c.put f.stationId ((ctx.swap f).accept ctx.oldest))
  | notReleased (ctx : StationInternalCtx) (kind : Nat) :
      c.Fresh f alloc ctx → ctx.IsJump f → ¬ctx.reorderCount < reorderCap →
      ¬ctx.Admits D ctx.oldest →
      Processed D c f alloc (.drop, ctx.oldest, (c.put f.stationId (ctx.swap f)).count kind)
  | passed (ctx : StationInternalCtx) :
      c.Fresh f alloc ctx → ¬ctx.IsJump f → ctx.Admits D f →
      Processed D c f alloc (.pass, f, c.put f.stationId (ctx.accept f))
  | notPassed (ctx : StationInternalCtx) (kind : Nat) :
      c.Fresh f alloc ctx → ¬ctx.IsJump f → ¬ctx.Admits D f →
      Processed D c f alloc (.drop, f, (c.put f.stationId ctx).count kind)

variable (D c f alloc) in
theorem cleanerProcess_processed : Processed D c f alloc (c.cleanerProcess D f alloc) := by
  unfold cleanerProcess
  split
  case isTrue ha => exact .alarm ha
  case isFalse ha =>
    split
    case isTrue hh => exact .heart hh
    case isFalse hh =>
      split
      case h_1 hg => exact .noCtx hg
      case h_2 ctx hg =>
        by_cases hs : ctx.IsStale f
        case pos => rw [if_pos hs]; exact .stale _ hg hs
        case neg =>
          rw [if_neg hs]
          by_cases hj : ctx.IsJump f
          case pos =>
            rw [if_pos hj]
            by_cases hc : ctx.reorderCount < reorderCap
            case pos => rw [dif_pos hc]; exact .buffered _ hc ⟨⟨ha, hh⟩, hg, hs⟩ hj
            case neg =>
              rw [dif_neg hc]
              by_cases hd : ctx.Admits D ctx.oldest
              case pos =>
                have hp := processValidFrame_of_admits c (ctx.swap f) f.stationId hd
                rw [hp]
                exact .released _ ⟨⟨ha, hh⟩, hg, hs⟩ hj hc hd
              case neg =>
                have ⟨_, _, hp⟩ := processValidFrame_of_not_admits c (ctx.swap f) f.stationId hd
                rw [hp]
                exact .notReleased _ _ ⟨⟨ha, hh⟩, hg, hs⟩ hj hc hd
          case neg =>
            rw [if_neg hj]
            by_cases hd : ctx.Admits D f
            case pos =>
              rw [processValidFrame_of_admits c ctx f.stationId hd]
              exact .passed _ ⟨⟨ha, hh⟩, hg, hs⟩ hj hd
            case neg =>
              have ⟨_, _, hp⟩ := processValidFrame_of_not_admits c ctx f.stationId hd
              rw [hp]
              exact .notPassed _ _ ⟨⟨ha, hh⟩, hg, hs⟩ hj hd

theorem cleanerProcess_released (hf : c.Fresh f alloc ctx) (hj : ctx.IsJump f)
    (hc : ¬ctx.reorderCount < reorderCap) (ha : ctx.Admits D ctx.oldest) :
    c.cleanerProcess D f alloc =
    (.pass, ctx.oldest, c.put f.stationId ((ctx.swap f).accept ctx.oldest)) := by
  have hp := processValidFrame_of_admits c (ctx.swap f) f.stationId ha
  simp only [cleanerProcess, if_neg hf.data.left, if_neg hf.data.right, hf.found,
    if_neg hf.notStale, if_pos hj, dif_neg hc, hp]

end Cleaner
end IotCollector
