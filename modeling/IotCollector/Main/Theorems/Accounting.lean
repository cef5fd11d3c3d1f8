import Mathlib.Data.FinEnum
import IotCollector.Lib.Family
import IotCollector.Main.Theorems.Steps
import IotCollector.Pipeline.Theorems.Reorder
import IotCollector.Pipeline.Theorems.RingHistory

namespace IotCollector

def IotStats.handled (t : IotStats) : UInt64 :=
  t.cleanedFrames + t.anomalyFrames + t.rangeDrop + t.dupDrop + t.reorderDrop

namespace IotStats

variable {t : IotStats}

theorem handled_onClean {kind : Nat} (h : kind ≤ 4) : (t.onClean kind 1).handled = t.handled + 1 := by
  have h₁ : (1 : UInt32).toUInt64 = 1 := rfl
  unfold handled onClean
  match kind, h with
  | 0, _ | 1, _ | 2, _ | 3, _ | 4, _ => simp only [h₁]; ac_rfl

theorem ingressTotal_onClean (kind : Nat) : (t.onClean kind 1).ingressTotal = t.ingressTotal := by
  unfold onClean
  split <;> rfl

theorem ingressTotal_onIngress (proto : Nat) :
    (t.onIngress proto 1).ingressTotal = t.ingressTotal + 1 := by
  unfold onIngress
  dsimp only
  split <;> rfl

theorem handled_onIngress (proto : Nat) : (t.onIngress proto 1).handled = t.handled := by
  unfold onIngress handled
  dsimp only
  split <;> rfl

end IotStats

namespace Cleaner

variable {D : Type*} [DoubleArith D] {c : Cleaner} {ctx : StationInternalCtx} {st : UInt16}

def reorderCount (c : Cleaner) (st : UInt16) : Nat :=
  ((c.ctxs st).map (·.reorderCount)).getD 0

def waiting (c : Cleaner) : Nat :=
  ∑ st, c.reorderCount st

theorem waiting_congr {c' : Cleaner} (h : c'.ctxs = c.ctxs) : c'.waiting = c.waiting := by
  simp only [waiting, reorderCount, h]

theorem waiting_put (c : Cleaner) (st : UInt16) (ctx : StationInternalCtx) :
    (c.put st ctx).waiting + c.reorderCount st = c.waiting + ctx.reorderCount := by
  have h := sum_update (fun o : Option StationInternalCtx => (o.map (·.reorderCount)).getD 0) c.ctxs st
    (some ctx)
  simp only [waiting, reorderCount, put]
  exact h

theorem waiting_cleanerInit (stats : IotStats) : (cleanerInit stats).waiting = 0 := by
  simp [waiting, reorderCount, cleanerInit]

-- A sum with so many members had better not be unfolded any more.
attribute [irreducible] waiting

def taken (c : Cleaner) : UInt64 :=
  c.stats.handled + UInt64.ofNat c.waiting

theorem taken_congr {c' : Cleaner} (h : c'.ctxs = c.ctxs) (hs : c'.stats.handled = c.stats.handled) :
    c'.taken = c.taken := by
  rw [taken, taken, waiting_congr h, hs]

theorem taken_put_add (k : Nat) (h : ctx.reorderCount = c.reorderCount st + k) :
    (c.put st ctx).taken = c.taken + UInt64.ofNat k := by
  have := waiting_put c st ctx
  have hw : (c.put st ctx).waiting = c.waiting + k := by omega
  have hs : (c.put st ctx).stats = c.stats := rfl
  rw [taken, taken, hw, hs, UInt64.ofNat_add, UInt64.add_assoc]

theorem taken_put (h : ctx.reorderCount = c.reorderCount st) : (c.put st ctx).taken = c.taken := by
  simpa using taken_put_add 0 h

theorem taken_count {kind : Nat} (h : kind ≤ 4) : (c.count kind).taken = c.taken + 1 := by
  have hw : (c.count kind).waiting = c.waiting := waiting_congr rfl
  have hs : (c.count kind).stats.handled = c.stats.handled + 1 := IotStats.handled_onClean h
  rw [taken, taken, hw, hs, UInt64.add_assoc, UInt64.add_comm 1, UInt64.add_assoc]

theorem reorderCount_of_getInternalCtx {alloc : Bool} (h : c.getInternalCtx st alloc = some ctx) :
    ctx.reorderCount = c.reorderCount st := by
  unfold getInternalCtx at h
  split at h
  case h_1 hc => cases h; simp [reorderCount, hc]
  case h_2 hc => split at h <;> cases h; simp [reorderCount, hc, StationInternalCtx.fresh]

-- One frame is counted or held more, except that a frame which passes is counted by the caller.
structure Counts (c : Cleaner) (r : CleanResult × EnvFrame × Cleaner) : Prop where
  taken   : r.snd.snd.taken + (if r.fst = .drop then 0 else 1) = c.taken + 1
  ingress : r.snd.snd.stats.ingressTotal = c.stats.ingressTotal

theorem counts_processValidFrame (g : EnvFrame) (h : ctx.reorderCount = c.reorderCount st) :
    let r := c.processValidFrame D st ctx g
    c.Counts (r.fst, g, r.snd) := by
  by_cases ha : ctx.Admits D g
  case pos =>
    rw [processValidFrame_of_admits c ctx st ha]
    exact ⟨congrArg (· + 1) <| taken_put h, rfl⟩
  case neg =>
    obtain ⟨kind, hk, hp⟩ := processValidFrame_of_not_admits c ctx st ha
    rw [hp]
    refine ⟨?_, IotStats.ingressTotal_onClean kind⟩
    simp [taken_count (by omega : kind ≤ 4), taken_put h]

theorem counts_cleanerProcess (c : Cleaner) (f : EnvFrame) :
    c.Counts (c.cleanerProcess D f true) := by
  by_cases ha : f.IsAlarm
  case pos =>
    rw [cleanerProcess, if_pos ha]
    exact ⟨rfl, rfl⟩
  case neg =>
    by_cases hh : f.frameType = frameHeart
    case pos =>
      rw [cleanerProcess, if_neg ha, if_pos hh]
      exact ⟨by simp [taken_count], IotStats.ingressTotal_onClean 4⟩
    case neg =>
      obtain ⟨ctx, hg⟩ := getInternalCtx_true c f.stationId
      have hc := reorderCount_of_getInternalCtx hg
      have hr := route_routed ⟨ha, hh⟩ hg
      rw [cleanerProcess_eq]
      generalize c.route f true = r at hr ⊢
      cases hr
      case stale _ =>
        exact ⟨by simp [follow, taken_count, taken_put hc], IotStats.ingressTotal_onClean 3⟩
      case waits hl =>
        have hb : (ctx.buffer f hl).reorderCount = c.reorderCount f.stationId + 1 :=
          congrArg (· + 1) hc
        exact ⟨by simp [follow, taken_put_add 1 hb], rfl⟩
      case swapped _ => exact counts_processValidFrame ctx.oldest hc
      case direct => exact counts_processValidFrame f hc

end Cleaner

def CleaningPc.inHand : CleaningPc → List EnvFrame
  | .cleaning fs | .pushing _ fs => fs
  | _                            => []

def CleaningPc.AtBoundary : CleaningPc → Prop
  | .cleaning _ | .pushing _ _ => False
  | _                          => True

def PipelineAct.AllocSucceeds {n : Nat} : PipelineAct n → Prop
  | .cleaner alloc => alloc = true
  | _              => True

namespace Pipeline

open Cleaner

variable {D : Type*} [DoubleArith D] {n : Nat} {s s' : Pipeline n} {a : PipelineAct n}
variable {q1 q2 : RingQueue}

-- The invariant. Every frame that was taken out of Q1 is counted, or held back, or still in hand.
structure Accounted (s : Pipeline n) : Prop where
  lawful  : s.q1.Lawful
  ingress : s.cleaner.stats.ingressTotal = UInt64.ofNat s.q1.accepted.length
  taken   : s.cleaner.taken + UInt64.ofNat s.cleaning.inHand.length =
    UInt64.ofNat s.q1.popped.length

theorem Accounted.congr (k : s.Accounted) (hq : s'.q1 = s.q1) (hc : s'.cleaner = s.cleaner)
    (hp : s'.cleaning.inHand = s.cleaning.inHand) : s'.Accounted :=
  ⟨hq ▸ k.lawful, hq ▸ hc ▸ k.ingress, by rw [hq, hc, hp, k.taken]⟩

theorem Accounted.restat (k : s.Accounted) (hq : s'.q1 = s.q1)
    (hc : s'.cleaner.ctxs = s.cleaner.ctxs)
    (hh : s'.cleaner.stats.handled = s.cleaner.stats.handled)
    (hi : s'.cleaner.stats.ingressTotal = s.cleaner.stats.ingressTotal)
    (hp : s'.cleaning.inHand = s.cleaning.inHand) : s'.Accounted :=
  ⟨hq ▸ k.lawful, by rw [hi, hq, k.ingress], by rw [taken_congr hc hh, hp, hq, k.taken]⟩

theorem setStats_taken (s : Pipeline n) (stats : IotStats)
    (h : stats.handled = s.cleaner.stats.handled) :
    (s.setStats stats).cleaner.taken = s.cleaner.taken :=
  taken_congr rfl h

theorem Accounted.ingressStep {proto : Nat} {f : EnvFrame} (k : s.Accounted)
    (h : s.ingressStep proto f = some s') : s'.Accounted := by
  have hl := k.lawful.pushTry f
  unfold Pipeline.ingressStep at h
  split at h <;> cases h
  by_cases hr : (s.q1.pushTry f).fst = .ok
  case pos =>
    have ha : (s.q1.pushTry f).snd.accepted = s.q1.accepted ++ [f] := if_pos hr
    have hi : (s.cleaner.stats.onIngress proto 1).ingressTotal =
        UInt64.ofNat (s.q1.pushTry f).snd.accepted.length := by
      rw [ha, IotStats.ingressTotal_onIngress, k.ingress, List.length_append, UInt64.ofNat_add]
      rfl
    have ht := s.setStats_taken _ <| IotStats.handled_onIngress proto
    simp only [hr, if_true]
    exact ⟨hl, hi, (congrArg (· + _) ht).trans k.taken⟩
  case neg =>
    have ha : (s.q1.pushTry f).snd.accepted = s.q1.accepted := if_neg hr
    have ht := s.setStats_taken (s.cleaner.stats.onDrop 1) rfl
    simp only [hr, if_false]
    exact ⟨hl, ha ▸ k.ingress, (congrArg (· + _) ht).trans k.taken⟩

theorem Accounted.popping {r : List EnvFrame × RingHistory} (k : s.Accounted) (m : UInt32)
    (hc : s.cleaning = .popping) (hr : s.q1.popBatch s.running m = some r)
    (hq : s'.q1 = r.snd) (hcl : s'.cleaner = s.cleaner) (hp : s'.cleaning.inHand = r.fst) :
    s'.Accounted := by
  have ⟨h₁, h₂⟩ := RingHistory.popBatch_lists hr
  have ht := k.taken
  rw [hc, show UInt64.ofNat (CleaningPc.inHand .popping).length = 0 from rfl, UInt64.add_zero] at ht
  refine ⟨hq ▸ k.lawful.popBatch hr, by rw [hq, hcl, h₂, k.ingress], ?_⟩
  rw [hq, hcl, hp, h₁, ht, List.length_append, UInt64.ofNat_add]

theorem Accounted.cleaning {f : EnvFrame} {fs : List EnvFrame} (k : s.Accounted)
    (hc : s.cleaning = .cleaning (f :: fs)) (hq : s'.q1 = s.q1)
    (ht : s'.cleaner.taken = s.cleaner.taken + 1)
    (hi : s'.cleaner.stats.ingressTotal = s.cleaner.stats.ingressTotal)
    (hp : s'.cleaning.inHand = fs) : s'.Accounted := by
  have hs := k.taken
  simp only [hc, CleaningPc.inHand, List.length_cons, UInt64.ofNat_add] at hs
  refine ⟨hq ▸ k.lawful, by rw [hi, hq, k.ingress], ?_⟩
  rw [ht, hq, hp, ← hs, UInt64.add_assoc, UInt64.add_comm 1]
  rfl

theorem Accounted.cleanerStep (k : s.Accounted) (h : s.cleanerStep D true = some s') :
    s'.Accounted := by
  unfold Pipeline.cleanerStep at h
  split at h
  case h_1 hc => cases h; exact k.congr rfl rfl (by simp only [hc]; split <;> rfl)
  case h_2 hc =>
    obtain ⟨r, hr, rfl⟩ := Option.map_eq_some_iff.mp h
    split
    case h_1 ho => exact k.popping _ hc hr rfl rfl (by rw [ho]; dsimp only; split <;> rfl)
    case h_2 ho => exact k.popping _ hc hr rfl rfl rfl
  case h_3 hc => cases h; exact k.congr rfl rfl (by simp [hc, CleaningPc.inHand])
  case h_4 f fs hc =>
    have ⟨ht, hi⟩ := counts_cleanerProcess (D := D) s.cleaner f
    dsimp only at h
    split at h
    case h_1 hr =>
      cases h
      exact k.cleaning hc rfl (by simp [taken_count, ← ht, hr])
        ((IotStats.ingressTotal_onClean 0).trans hi) rfl
    case h_2 hr =>
      cases h
      exact k.cleaning hc rfl (by simp [taken_count, ← ht, hr])
        ((IotStats.ingressTotal_onClean 1).trans hi) rfl
    case h_3 hr =>
      cases h
      exact k.cleaning hc rfl (by simp [← ht, hr]) hi rfl
  case h_5 f fs hc =>
    cases h
    by_cases hr : (s.q2.pushTry f).fst = .ok
    all_goals
      simp only [hr, if_true, if_false]
      exact k.restat rfl rfl rfl rfl (by rw [hc]; rfl)
  case h_6 => cases h

theorem Accounted.step (k : s.Accounted) (ha : a.AllocSucceeds) (h : pipelineStep D s a = some s') :
    s'.Accounted := by
  cases a
  case signal => cases h; exact k.congr rfl rfl rfl
  case ingress proto f => exact k.ingressStep h
  case cleaner alloc => exact k.cleanerStep (D := D) (ha ▸ h)
  case worker i =>
    obtain ⟨_, _, rfl, _⟩ := workerStep_frame h
    exact k.congr rfl rfl rfl
  case main =>
    obtain ⟨_, _, rfl⟩ := mainStep_frame h
    exact k.congr rfl rfl rfl

theorem initial_accounted {cap : UInt32} {alloc : Bool} (h : ringInit cap alloc = some q1) :
    (initial n q1 q2).Accounted := by
  refine ⟨RingHistory.init_lawful h, rfl, ?_⟩
  have hw : (initial n q1 q2).cleaner.waiting = 0 := waiting_cleanerInit {}
  rw [taken, hw]
  rfl

-- Every frame that has come in is in Q1, has been evicted from it, has been counted by the cleaner,
-- or waits in a reorder buffer.
def Balances (s : Pipeline n) : Prop :=
  let t := s.cleaner.stats
  t.ingressTotal = s.q1.queue.count.toUInt64 + UInt64.ofNat s.q1.evicted.length +
    t.cleanedFrames + t.anomalyFrames + t.rangeDrop + t.dupDrop + t.reorderDrop +
    UInt64.ofNat (∑ st, s.cleaner.reorderCount st)

theorem Accounted.balances (k : s.Accounted) (hb : s.cleaning.AtBoundary) : s.Balances := by
  have hi : s.cleaning.inHand = [] := by
    cases hc : s.cleaning <;> simp_all [CleaningPc.inHand, CleaningPc.AtBoundary]
  have hp := k.taken
  have hn : s.q1.accepted.length =
      s.q1.popped.length + s.q1.queue.count.toNat + s.q1.evicted.length := by
    simpa using k.lawful.law.balance
  have hw : s.cleaner.waiting = ∑ st, s.cleaner.reorderCount st := by rw [waiting]
  have hz : UInt64.ofNat ([] : List EnvFrame).length = 0 := rfl
  rw [hi, hz, UInt64.add_zero, Cleaner.taken, IotStats.handled, hw] at hp
  unfold Balances
  generalize UInt64.ofNat (∑ st, s.cleaner.reorderCount st) = w at hp ⊢
  simp only [k.ingress, hn, UInt64.ofNat_add, ← hp, UInt64.ofNat_uInt32ToNat]
  ac_rfl

end Pipeline

theorem pipeline_balances (D : Type*) [DoubleArith D] {n : Nat} {q1 q2 : RingQueue} {cap : UInt32}
    {alloc : Bool} (hq : ringInit cap alloc = some q1) (as : List (PipelineAct n))
    (ha : ∀ a ∈ as, a.AllocSucceeds) :
    (pipelineStep D).Always (.initial n q1 q2) as fun s => s.cleaning.AtBoundary → s.Balances :=
  fun bs s hp hs => Pipeline.Accounted.balances <|
    Transition.always_of_guarded (Pipeline.initial_accounted hq) Pipeline.Accounted.step
      (.of_forall fun a h _ => ha a h) bs s hp hs

-- An alarm takes the place of a frame in Q1. Of the frames after it, one passes, one comes again, and one
-- is too far ahead.
def mixedActs : List (PipelineAct 2) :=
  [.ingress 0 (frameAt 90), .ingress 0 sampleAlarm] ++ List.replicate 5 (.cleaner true) ++
  [.ingress 1 (frameAt 100)] ++ List.replicate 5 (.cleaner true) ++
  [.ingress 1 (frameAt 100)] ++ List.replicate 4 (.cleaner true) ++
  [.ingress 2 (frameAt 120)] ++ List.replicate 4 (.cleaner true)

theorem exec_mixedActs :
    ((pipelineStep Float).exec (.initial 2 sampleRing sampleRing) mixedActs).map
      (fun s => (s.cleaning, s.q1.evicted.length, s.cleaner.stats.cleanedFrames,
        s.cleaner.stats.dupDrop, s.cleaner.reorderCount 1)) = some (.top, 1, 1, 1, 1) := by
  decide +kernel

theorem pipeline_balances_one :
    ∃ s, (pipelineStep Float).exec (.initial 2 sampleRing sampleRing) mixedActs = some s ∧
      s.q1.evicted.length = 1 ∧ s.cleaner.stats.cleanedFrames = 1 ∧ s.cleaner.stats.dupDrop = 1 ∧
      s.cleaner.reorderCount 1 = 1 ∧ s.Balances := by
  obtain ⟨s, hs, hf⟩ := Option.map_eq_some_iff.mp exec_mixedActs
  simp only [Prod.mk.injEq] at hf
  obtain ⟨hc, h₁, h₂, h₃, h₄⟩ := hf
  have hb : s.cleaning.AtBoundary := hc ▸ trivial
  exact ⟨s, hs, h₁, h₂, h₃, h₄, pipeline_balances Float ringInit_one mixedActs
    (by simp [mixedActs, PipelineAct.AllocSucceeds]) _ s List.prefix_rfl hs hb⟩

end IotCollector
