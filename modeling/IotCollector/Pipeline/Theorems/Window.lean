import IotCollector.Pipeline.Theorems.Path

namespace IotCollector

open Cleaner StationInternalCtx

namespace StationCtx

-- The windows of a station of which the given frames have passed. The slots hold the last 16 of them,
-- where the k-th most recent one stands k + 1 slots behind the write position.
structure Windowed (ctx : StationCtx) (passed : List EnvFrame) : Prop where
  wIdx   : ctx.wIdx.val = passed.length % windowSize
  wCount : ctx.wCount = min passed.length windowSize
  slot   : ∀ p, ∀ k < min passed.length windowSize,
    (ctx.window p)[(passed.length - 1 - k) % windowSize]? = passed.reverse[k]?.map (·.param p)

variable {ctx : StationCtx} {passed : List EnvFrame}

theorem reset_windowed (st : UInt16) : (stationCtxReset st).Windowed [] where
  wIdx   := rfl
  wCount := rfl
  slot   := nofun

theorem Windowed.push (h : ctx.Windowed passed) (f : EnvFrame) :
    (ctx.push f).Windowed (passed ++ [f]) := by
  have hw : windowSize = 16 := rfl
  refine ⟨?_, ?_, fun p k hk => ?_⟩
  · simp [StationCtx.push, h.wIdx]
  · simp only [StationCtx.push, h.wCount, List.length_append, List.length_singleton]
    split <;> omega
  · simp only [List.length_append, List.length_singleton] at hk
    have hi : (passed ++ [f]).length - 1 - k = passed.length - k := by simp
    simp only [StationCtx.push, hi, List.reverse_append, List.reverse_singleton,
      List.singleton_append]
    cases k
    case zero =>
      have hs : ctx.wIdx.val = (passed.length - 0) % windowSize := h.wIdx
      rw [← hs, Vector.getElem?_set_self, List.getElem?_cons_zero, Option.map_some]
    case succ k =>
      have hs : ctx.wIdx.val ≠ (passed.length - (k + 1)) % windowSize := by
        rw [h.wIdx, hw] at *
        omega
      have hk : k < min passed.length windowSize := by omega
      rw [Vector.getElem?_set_ne _ hs, List.getElem?_cons_succ, ← h.slot p k hk, Nat.sub_sub,
        Nat.add_comm 1 k]

end StationCtx

namespace CleanRun

structure Windows (s : CleanRun) : Prop where
  window   : ∀ st, (s.cleaner.ctxOf st).base.Windowed (s.passedOf st)
  buffered : ∀ st, ∀ g ∈ (s.cleaner.ctxOf st).buffered, g.stationId = st

variable {D : Type*} [DoubleArith D] {s s' : CleanRun} {op : CleanOp}

theorem init_windows (stats : IotStats) : (CleanRun.init stats).Windows where
  window st   := StationCtx.reset_windowed st
  buffered _  := List.forall_mem_nil _

theorem cleanStep_windows (h : s.Windows) (hs : cleanStep D s op = some s') : s'.Windows := by
  obtain ⟨f, alloc⟩ := op
  cases hs
  have ho {st} (hn : st ≠ f.stationId) :
      (s.cleaner.cleanerProcess D f alloc).snd.snd.ctxOf st = s.cleaner.ctxOf st := by
    rw [ctxOf, cleanerProcess_ctxs_of_ne alloc hn, ctxOf]
  have he := cleanerProcess_effect D s.cleaner f alloc
  by_cases hp : (s.cleaner.cleanerProcess D f alloc).fst = .pass
  case neg =>
    have hb := he.of_ne hp
    refine ⟨fun st => ?_, fun st g hg => ?_⟩ <;> simp only [if_neg hp] at * <;>
    by_cases hn : st = f.stationId
    · exact hn ▸ hb.keeps.left ▸ h.window f.stationId
    · exact ho hn ▸ h.window st
    · subst hn
      cases hb.mem hg
      case inl hg => exact h.buffered _ g hg
      case inr hg => exact hg ▸ rfl
    · exact h.buffered st g <| ho hn ▸ hg
  case pos =>
    obtain ⟨ctx, hm, _, hb, hc⟩ := he.of_pass hp
    generalize (s.cleaner.cleanerProcess D f alloc).snd.fst = g at *
    have hst : g.stationId = f.stationId := by
      cases hm
      case inl hg => exact hg ▸ rfl
      case inr hg => exact h.buffered _ g hg
    refine ⟨fun st => ?_, fun st g' hg => ?_⟩ <;> simp only [if_pos hp] at * <;>
    by_cases hn : st = f.stationId
    · subst hn
      rw [passedOf_concat, if_pos hst, hc]
      have hw : ctx.base.Windowed (s.passedOf f.stationId) :=
        hb.keeps.left ▸ h.window f.stationId
      exact hw.push g
    · rw [passedOf_concat, if_neg (hst.trans_ne <| Ne.symm hn), ho hn]
      exact h.window st
    · subst hn
      rw [hc] at hg
      cases OnlyBuffers.mem hb hg
      case inl hg => exact h.buffered _ g' hg
      case inr hg => exact hg ▸ rfl
    · exact h.buffered st g' <| ho hn ▸ hg

theorem windows_of_exec {stats : IotStats} {ops : List CleanOp} {s : CleanRun}
    (hs : (cleanStep D).exec (.init stats) ops = some s) : s.Windows :=
  Transition.always_of_preserved (init_windows stats) cleanStep_windows ops ops s List.prefix_rfl hs

end CleanRun

theorem cleaner_windows (D : Type*) [DoubleArith D] (stats : IotStats) (ops : List CleanOp) :
    (cleanStep D).Always (.init stats) ops fun s =>
      (∀ st, (s.cleaner.ctxOf st).base.Windowed (s.passedOf st)) ∧
      ∀ f alloc, (s.cleaner.cleanerProcess D f alloc).fst ≠ .pass → ∀ st,
        ((s.cleaner.cleanerProcess D f alloc).snd.snd.ctxOf st).base = (s.cleaner.ctxOf st).base := by
  intro _ s _ hs
  have h := CleanRun.windows_of_exec hs
  refine ⟨h.window, fun f alloc hn st => ?_⟩
  by_cases hst : st = f.stationId
  case pos => exact hst ▸ ((cleanerProcess_effect D s.cleaner f alloc).of_ne hn).keeps.left
  case neg => rw [ctxOf, cleanerProcess_ctxs_of_ne alloc hst, ctxOf]

-- A frame that comes within ten seconds after another one, in the 32 bits of the code.
def FollowsUp (f g : EnvFrame) : Prop :=
  f.Before g ∧ ¬g.timestampSec > f.timestampSec + 10

instance : DecidableRel FollowsUp :=
  fun f g => inferInstanceAs (Decidable (f.Before g ∧ ¬_))

theorem not_isStale_of_followsUp {ctx : StationInternalCtx} {last : Option EnvFrame} {f : EnvFrame}
    (ht : ctx.lastValid = last.map (·.stamp)) (hf : ∀ g ∈ last, FollowsUp g f) :
    ¬ctx.IsStale f ∧ ¬ctx.IsJump f := by
  constructor
  · rw [not_isStale_iff, ht]
    simp only [Option.mem_def, Option.map_eq_some_iff]
    rintro _ ⟨g, hg, rfl⟩
    exact (hf g hg).left
  · rintro ⟨hv, hj⟩
    rw [StationInternalCtx.lastValid, if_pos hv, eq_comm, Option.map_eq_some_iff] at ht
    obtain ⟨g, hg, he⟩ := ht
    rw [← he] at hj
    exact (hf g hg).right hj

theorem cleanStep_of_direct {D : Type*} [DoubleArith D] {s : CleanRun} {f : EnvFrame} (hd : f.IsData)
    (hs : ¬(s.cleaner.ctxOf f.stationId).IsStale f) (hj : ¬(s.cleaner.ctxOf f.stationId).IsJump f)
    (ha : (s.cleaner.ctxOf f.stationId).Admits D f) :
    cleanStep D s (f, true) =
    some ⟨s.cleaner.put f.stationId ((s.cleaner.ctxOf f.stationId).accept f), s.passed ++ [f]⟩ := by
  simp only [cleanStep, cleanerProcess_of_direct hd hs hj ha, if_true]

theorem exec_warmUp (D : Type*) [DoubleArith D] (st : UInt16) (fs : List EnvFrame)
    (hf : ∀ f ∈ fs, f.stationId = st ∧ f.IsData ∧ f.InRange) (hc : fs.IsChain FollowsUp)
    (hl : fs.length ≤ windowSize) :
    ∃ s, (cleanStep D).exec (.init {}) (fs.map (·, true)) = some s ∧ s.passed = fs ∧
      (s.cleaner.ctxOf st).lastValid = fs.getLast?.map (·.stamp) ∧
      (s.cleaner.ctxOf st).reorderCount = 0 := by
  induction fs using List.reverseRecOn
  case nil => exact ⟨_, rfl, rfl, rfl, rfl⟩
  case append_singleton fs f hi =>
    obtain ⟨hf, hg⟩ := List.forall_mem_append.mp hf
    obtain ⟨rfl, hd, hr⟩ := List.forall_mem_singleton.mp hg
    obtain ⟨hc, _, hj⟩ := List.isChain_append.mp hc
    rw [List.length_append, List.length_singleton] at hl
    obtain ⟨s, hs, hp, ht, hb⟩ := hi hf hc (by omega)
    have hw := CleanRun.windows_of_exec hs
    have hq : s.passedOf f.stationId = fs := by
      rw [CleanRun.passedOf, hp]
      exact List.filter_eq_self.mpr fun g hg => by simp [(hf g hg).left]
    have hn : (s.cleaner.ctxOf f.stationId).base.wCount < windowSize := by
      rw [(hw.window _).wCount, hq]
      omega
    obtain ⟨hns, hnj⟩ := not_isStale_of_followsUp ht fun g hg => hj g hg f (by simp)
    have ha : (s.cleaner.ctxOf f.stationId).Admits D f := ⟨hr, if_pos hn⟩
    have he := Transition.exec_concat_iff.mpr ⟨s, hs, cleanStep_of_direct hd hns hnj ha⟩
    refine ⟨_, by simpa using he, by rw [hp], ?_⟩
    rw [ctxOf_put]
    exact ⟨by simp [StationInternalCtx.lastValid, accept], hb⟩

end IotCollector
