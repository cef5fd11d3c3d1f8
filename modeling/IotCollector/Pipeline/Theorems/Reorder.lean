import IotCollector.Lib.Ownership
import IotCollector.Pipeline.Route
import IotCollector.Pipeline.Theorems.Ordering

namespace IotCollector

open Cleaner

def ofStation (st : UInt16) (fs : List EnvFrame) : List EnvFrame :=
  fs.filter (·.stationId = st)

def EnvFrame.IsData (f : EnvFrame) : Prop :=
  ¬f.IsAlarm ∧ f.frameType ≠ frameHeart

instance : DecidablePred EnvFrame.IsData :=
  fun f => inferInstanceAs (Decidable (¬f.IsAlarm ∧ f.frameType ≠ frameHeart))

variable {D : Type*} [DoubleArith D] {c : Cleaner} {ctx : StationInternalCtx} {f g : EnvFrame}
variable {st : UInt16} {s : RouteRun} {fs : List EnvFrame}

theorem ofStation_append {t : UInt16} {gs : List EnvFrame} (h : ∀ g ∈ gs, g.stationId = t)
    (st : UInt16) (fs : List EnvFrame) :
    ofStation st (fs ++ gs) = if st = t then ofStation st fs ++ gs else ofStation st fs := by
  have hf : ofStation st gs = if st = t then gs else [] := by
    split
    case isTrue he  => exact List.filter_eq_self.mpr fun g hg => by simp [h g hg, he]
    case isFalse he => exact List.filter_eq_nil_iff.mpr fun g hg => by simp [h g hg, Ne.symm he]
  rw [ofStation, List.filter_append, ← ofStation, ← ofStation, hf]
  split <;> simp

namespace StationInternalCtx

theorem buffered_swap_perm (ctx : StationInternalCtx) (f : EnvFrame)
    (h : ¬ctx.reorderCount < reorderCap) :
    ((ctx.swap f).buffered ++ [ctx.oldest]).Perm (ctx.buffered ++ [f]) := by
  have hc : ctx.reorderCount = reorderCap := Nat.le_antisymm ctx.bounded (Nat.not_lt.mp h)
  have ho : ctx.reorderBuf.toList[ctx.minIdx.val]? = some ctx.oldest := by
    simp [oldest, ctx.minIdx.isLt]
  simpa [buffered, swap, hc, Vector.toList_set, List.take_of_length_le] using
    List.filterMap_set_perm (y := f) some ho

end StationInternalCtx

theorem processValidFrame_buffered (c : Cleaner) (ctx : StationInternalCtx) (g : EnvFrame)
    (st st' : UInt16) :
    (c.processValidFrame D st ctx g).snd.buffered st' = (c.put st ctx).buffered st' := by
  have ⟨_, ctx', hb, hp⟩ := processValidFrame_ctxs (D := D) ctx g st
  rw [buffered, (hp c).right, ← buffered, buffered_put, buffered_put, hb]

namespace Cleaner

inductive Routed (f : EnvFrame) (ctx : StationInternalCtx) : Route → Prop
  | stale : ctx.IsStale f → Routed f ctx (.stale ctx)
  | waits (h : ctx.reorderCount < reorderCap) : Routed f ctx (.waits (ctx.buffer f h))
  | swapped : ¬ctx.reorderCount < reorderCap → Routed f ctx (.handed (ctx.swap f) ctx.oldest)
  | direct : Routed f ctx (.handed ctx f)

theorem route_routed {alloc : Bool} (hd : f.IsData)
    (hg : c.getInternalCtx f.stationId alloc = some ctx) : Routed f ctx (c.route f alloc) := by
  simp only [route, if_neg hd.left, if_neg hd.right, hg]
  by_cases hs : ctx.IsStale f
  case pos => rw [if_pos hs]; exact .stale hs
  case neg =>
    rw [if_neg hs]
    by_cases hj : ctx.IsJump f
    case neg => rw [if_neg hj]; exact .direct
    case pos =>
      rw [if_pos hj]
      by_cases hc : ctx.reorderCount < reorderCap
      case pos => rw [dif_pos hc]; exact .waits hc
      case neg => rw [dif_neg hc]; exact .swapped hc

end Cleaner

namespace RouteRun

structure Balanced (fs : List EnvFrame) (s : RouteRun) : Prop where
  station : ∀ st, ∀ g ∈ s.cleaner.buffered st, g.stationId = st
  balance : ∀ st, (ofStation st fs).Perm
    (ofStation st s.stale ++ ofStation st s.handed ++ s.cleaner.buffered st)

theorem init_balanced (stats : IotStats) : Balanced [] (init stats) where
  station _ := List.forall_mem_nil _
  balance _ := .refl _

theorem Balanced.put (b : Balanced fs s) {alloc : Bool} (c' : Cleaner) (ctx' : StationInternalCtx)
    (out₁ out₂ : List EnvFrame) (hg : s.cleaner.getInternalCtx f.stationId alloc = some ctx)
    (hc : ∀ st, c'.buffered st = (s.cleaner.put f.stationId ctx').buffered st)
    (hp : (out₁ ++ out₂ ++ ctx'.buffered).Perm (ctx.buffered ++ [f])) :
    Balanced (fs ++ [f]) ⟨c', s.stale ++ out₁, s.handed ++ out₂⟩ := by
  have ⟨_, hb⟩ := getInternalCtx_eq_some hg
  have hm : ∀ g ∈ out₁ ++ out₂ ++ ctx'.buffered, g.stationId = f.stationId := by
    intro g hg
    cases List.mem_append.mp <| hp.mem_iff.mp hg
    case inl hg => exact b.station _ g <| hb ▸ hg
    case inr hg => exact List.mem_singleton.mp hg ▸ rfl
  have ⟨h₁₂, h₃⟩ := List.forall_mem_append.mp hm
  have ⟨h₁, h₂⟩ := List.forall_mem_append.mp h₁₂
  refine ⟨fun st g hgm => ?_, fun st => ?_⟩
  · rw [hc, buffered_put] at hgm
    split at hgm
    case isTrue he  => exact he ▸ h₃ g hgm
    case isFalse he => exact b.station st g hgm
  · have hbal := b.balance st
    simp only [hc, buffered_put, ofStation_append h₁, ofStation_append h₂,
      ofStation_append (List.forall_mem_singleton.mpr rfl : ∀ g ∈ [f], g.stationId = f.stationId)]
    split
    case isFalse he => exact hbal
    case isTrue he  =>
      subst he
      refine List.perm_iff_count.mpr fun g => ?_
      have := hbal.count_eq g
      have := hp.count_eq g
      simp only [List.count_append, hb] at *
      omega

theorem Balanced.process (b : Balanced fs s) (hd : f.IsData) :
    Balanced (fs ++ [f]) (s.process D f) := by
  have ⟨ctx, hg⟩ := getInternalCtx_true s.cleaner f.stationId
  rw [RouteRun.process, cleanerProcess_eq]
  have hr := route_routed hd hg
  generalize s.cleaner.route f true = r at hr ⊢
  cases hr
  case stale _ =>
    have := b.put ((s.cleaner.put f.stationId ctx).count 3) ctx [f] [] hg (fun _ => rfl)
      List.perm_append_comm
    simpa [record, follow]
  case waits hc =>
    have := b.put _ (ctx.buffer f hc) [] [] hg (fun _ => rfl) (by simp [ctx.buffered_buffer hc])
    simpa [record, follow]
  case swapped hc =>
    have hb := processValidFrame_buffered (D := D) s.cleaner (ctx.swap f) ctx.oldest f.stationId
    have := b.put _ (ctx.swap f) [] [ctx.oldest] hg hb
      (List.perm_append_comm.trans <| ctx.buffered_swap_perm f hc)
    simpa [record, follow]
  case direct =>
    have hb := processValidFrame_buffered (D := D) s.cleaner ctx f f.stationId
    have := b.put _ ctx [] [f] hg hb List.perm_append_comm
    simpa [record, follow]

end RouteRun

theorem cleaner_conserves (D : Type*) [DoubleArith D] (stats : IotStats) (frames : List EnvFrame)
    (hd : ∀ f ∈ frames, f.IsData) (st : UInt16) :
    let s := frames.foldl (RouteRun.process D) (.init stats)
    (∀ (c : Cleaner) f, c.cleanerProcess D f true = c.follow D f (c.route f true)) ∧
    (ofStation st frames).Perm
      (ofStation st s.stale ++ ofStation st s.handed ++ s.cleaner.buffered st) ∧
    ∀ ctx, s.cleaner.ctxs st = some ctx → ctx.reorderCount ≤ 5 := by
  have b : RouteRun.Balanced frames (frames.foldl (RouteRun.process D) (.init stats)) := by
    induction frames using List.reverseRecOn
    case nil => exact RouteRun.init_balanced stats
    case append_singleton fs f hi =>
      have ⟨hd, hf⟩ := List.forall_mem_append.mp hd
      rw [List.foldl_concat]
      exact (hi hd).process <| hf f <| List.mem_singleton_self f
  exact ⟨fun c f => cleanerProcess_eq c D f true, b.balance st, fun ctx _ => ctx.bounded⟩

theorem cleaner_conserves_late :
    let frames := lateRelease.map (·.fst)
    let s := frames.foldl (RouteRun.process Float) (.init {})
    (∀ (c : Cleaner) f, c.cleanerProcess Float f true = c.follow Float f (c.route f true)) ∧
    (ofStation 1 frames).Perm
      (ofStation 1 s.stale ++ ofStation 1 s.handed ++ s.cleaner.buffered 1) ∧
    ∀ ctx, s.cleaner.ctxs 1 = some ctx → ctx.reorderCount ≤ 5 :=
  cleaner_conserves Float {} _ (by decide) 1

end IotCollector
