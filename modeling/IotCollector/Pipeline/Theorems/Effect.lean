import IotCollector.Pipeline.Theorems.Stations

namespace IotCollector

open Cleaner StationInternalCtx

namespace StationInternalCtx

def replace (ctx : StationInternalCtx) (i : Fin reorderCap) (f : EnvFrame) : StationInternalCtx :=
  { ctx with reorderBuf := ctx.reorderBuf.set i.val f i.isLt }

inductive OnlyBuffers (f : EnvFrame) (ctx : StationInternalCtx) : StationInternalCtx → Prop
  | same : OnlyBuffers f ctx ctx
  | appended (h : ctx.reorderCount < reorderCap) : OnlyBuffers f ctx (ctx.buffer f h)
  | replaced (i : Fin reorderCap) (h : ¬ctx.reorderCount < reorderCap) :
      OnlyBuffers f ctx (ctx.replace i f)

-- What a frame that passes does to it, where `g` is the frame that comes out.
structure Accepts (D : Type*) [DoubleArith D] (g : EnvFrame) (ctx ctx' : StationInternalCtx) :
    Prop where
  inRange   : g.InRange
  noOutlier : ctx.base.anomalyDetectAll D g = false
  window    : ∀ p, ∀ i ≠ ctx.base.wIdx, (ctx'.base.window p).get i = (ctx.base.window p).get i
  lastValid : ctx'.lastValid = some g.stamp

variable {D : Type*} [DoubleArith D] {ctx ctx' : StationInternalCtx} {f g : EnvFrame}

theorem OnlyBuffers.keeps (h : OnlyBuffers f ctx ctx') :
    ctx'.base = ctx.base ∧ ctx'.lastValidTimestamp = ctx.lastValidTimestamp ∧
    ctx'.hasValidTimestamp = ctx.hasValidTimestamp := by
  cases h <;> exact ⟨rfl, rfl, rfl⟩

theorem OnlyBuffers.mem (h : OnlyBuffers f ctx ctx') (hg : g ∈ ctx'.buffered) :
    g ∈ ctx.buffered ∨ g = f := by
  cases h
  case same          => exact .inl hg
  case appended hc   => simpa [buffered_buffer hc] using hg
  case replaced i hc =>
    simp only [buffered, replace, Vector.toList_set, List.take_set] at hg
    exact List.mem_or_eq_of_mem_set hg

theorem accepts_of_admits (h : ctx.Admits D g) (hb : ctx'.base = ctx.base) :
    Accepts D g ctx (ctx'.accept g) := by
  have ⟨hr, ha⟩ := h
  refine ⟨hr, ha, fun p i hi => ?_, rfl⟩
  simp only [accept, StationCtx.push, hb]
  exact Vector.getElem_set_ne _ _ <| Fin.val_ne_of_ne hi.symm

end StationInternalCtx

namespace Cleaner

variable {D : Type*} [DoubleArith D] {c : Cleaner} {f : EnvFrame} {alloc : Bool} {st st' : UInt16}

-- A station without a context stands where a fresh one puts it.
def ctxOf (c : Cleaner) (st : UInt16) : StationInternalCtx :=
  (c.ctxs st).getD (.fresh st)

theorem getInternalCtx_eq_ctxOf {ctx : StationInternalCtx}
    (h : c.getInternalCtx st alloc = some ctx) : ctx = c.ctxOf st := by
  unfold getInternalCtx at h
  split at h
  case h_1 hc => cases h; simp [ctxOf, hc]
  case h_2 hc => split at h <;> cases h; simp [ctxOf, hc]

theorem ctxOf_put (c : Cleaner) (ctx : StationInternalCtx) :
    (c.put st ctx).ctxOf st = ctx := by
  simp [ctxOf, put]

@[simp]
theorem ctxOf_count (c : Cleaner) (kind : Nat) : (c.count kind).ctxOf st = c.ctxOf st :=
  rfl

inductive Effect (D : Type*) [DoubleArith D] (f : EnvFrame) (ctx : StationInternalCtx) :
    CleanResult → EnvFrame → StationInternalCtx → Prop
  | keeps {result : CleanResult} {ctx' : StationInternalCtx} (g : EnvFrame) :
      result ≠ .pass → OnlyBuffers f ctx ctx' → Effect D f ctx result g ctx'
  | passes {ctx' : StationInternalCtx} (g : EnvFrame) : g = f ∨ g ∈ ctx.buffered →
      ctx.Admits D g → OnlyBuffers f ctx ctx' → Effect D f ctx .pass g (ctx'.accept g)

variable (D c f alloc) in
theorem cleanerProcess_effect :
    Effect D f (c.ctxOf f.stationId) (c.cleanerProcess D f alloc).fst
      (c.cleanerProcess D f alloc).snd.fst
      ((c.cleanerProcess D f alloc).snd.snd.ctxOf f.stationId) := by
  have hp := cleanerProcess_processed D c f alloc
  generalize c.cleanerProcess D f alloc = r at hp ⊢
  cases hp
  case alarm => exact .keeps f (by simp) .same
  case heart => exact .keeps f (by simp) .same
  case noCtx => exact .keeps f (by simp) .same
  case stale ctx hg _ =>
    rw [ctxOf_count, ctxOf_put, getInternalCtx_eq_ctxOf hg]
    exact .keeps f (by simp) .same
  case buffered ctx hc hf _ =>
    obtain rfl := getInternalCtx_eq_ctxOf hf.found
    rw [ctxOf_put]
    exact .keeps f (by simp) <| .appended hc
  case released ctx hf _ hc ha =>
    obtain rfl := getInternalCtx_eq_ctxOf hf.found
    rw [ctxOf_put]
    exact .passes _ (.inr <| oldest_mem_buffered hc) ha <| .replaced _ hc
  case notReleased ctx kind hf _ hc _ =>
    obtain rfl := getInternalCtx_eq_ctxOf hf.found
    rw [ctxOf_count, ctxOf_put]
    exact .keeps _ (by simp) <| .replaced _ hc
  case passed ctx hf _ ha =>
    obtain rfl := getInternalCtx_eq_ctxOf hf.found
    rw [ctxOf_put]
    exact .passes _ (.inl rfl) ha .same
  case notPassed ctx kind hf _ _ =>
    obtain rfl := getInternalCtx_eq_ctxOf hf.found
    rw [ctxOf_count, ctxOf_put]
    exact .keeps f (by simp) .same

section Cases

variable {ctx ctx' : StationInternalCtx} {result : CleanResult} {g : EnvFrame}

theorem Effect.of_ne (h : Effect D f ctx result g ctx') (hn : result ≠ .pass) :
    OnlyBuffers f ctx ctx' := by
  cases h
  case keeps hb => exact hb
  case passes   => exact absurd rfl hn

theorem Effect.of_pass (h : Effect D f ctx result g ctx') (hp : result = .pass) :
    ∃ ctx₁, (g = f ∨ g ∈ ctx.buffered) ∧ ctx.Admits D g ∧ OnlyBuffers f ctx ctx₁ ∧
      ctx' = ctx₁.accept g := by
  cases h
  case keeps hn _           => exact absurd hp hn
  case passes ctx₁ hb hg ha => exact ⟨ctx₁, hg, ha, hb, rfl⟩

end Cases
end Cleaner

-- Whatever comes in, and whatever the contexts of the stations are.
theorem cleanerProcess_changes (D : Type*) [DoubleArith D] (c : Cleaner) (f : EnvFrame)
    (alloc : Bool) :
    let r := c.cleanerProcess D f alloc
    (∀ st, st ≠ f.stationId → r.snd.snd.ctxs st = c.ctxs st) ∧
    (r.fst ≠ .pass →
      OnlyBuffers f (c.ctxOf f.stationId) (r.snd.snd.ctxOf f.stationId) ∧
      ∀ st, (r.snd.snd.ctxOf st).base = (c.ctxOf st).base ∧
        (r.snd.snd.ctxOf st).lastValidTimestamp = (c.ctxOf st).lastValidTimestamp ∧
        (r.snd.snd.ctxOf st).hasValidTimestamp = (c.ctxOf st).hasValidTimestamp) ∧
    (r.fst = .pass →
      Accepts D r.snd.fst (c.ctxOf f.stationId) (r.snd.snd.ctxOf f.stationId)) := by
  intro r
  have ho : ∀ st, st ≠ f.stationId → r.snd.snd.ctxs st = c.ctxs st :=
    fun _ => cleanerProcess_ctxs_of_ne alloc
  have he : Effect D f (c.ctxOf f.stationId) r.fst r.snd.fst (r.snd.snd.ctxOf f.stationId) :=
    cleanerProcess_effect D c f alloc
  refine ⟨ho, fun hn => ?_, fun hp => ?_⟩
  · have hb := he.of_ne hn
    refine ⟨hb, fun st => ?_⟩
    by_cases hs : st = f.stationId
    case pos => exact hs ▸ hb.keeps
    case neg => simp only [ctxOf, ho st hs, and_self]
  · obtain ⟨ctx, _, ha, hb, hc⟩ := he.of_pass hp
    exact hc ▸ accepts_of_admits ha hb.keeps.left

end IotCollector
