import IotCollector.Pipeline.Theorems.Reorder

namespace IotCollector

open Cleaner

variable {D : Type*} [DoubleArith D] {c c' : Cleaner} {f : EnvFrame} {st : UInt16}

theorem route_congr (alloc : Bool) (h : c.ctxs f.stationId = c'.ctxs f.stationId) :
    c.route f alloc = c'.route f alloc := by
  simp only [route, getInternalCtx, h]

theorem cleanerProcess_ctxs_of_ne (alloc : Bool) (h : st ≠ f.stationId) :
    (c.cleanerProcess D f alloc).snd.snd.ctxs st = c.ctxs st := by
  rw [cleanerProcess_eq]
  cases c.route f alloc
  case alarm => rfl
  case heart => rfl
  case noCtx => rfl
  case stale ctx => exact Function.update_of_ne h ..
  case waits ctx => exact Function.update_of_ne h ..
  case handed ctx g =>
    have ⟨_, _, _, hp⟩ := processValidFrame_ctxs (D := D) ctx g f.stationId
    rw [follow, (hp c).right]
    exact Function.update_of_ne h ..

theorem cleanerProcess_congr (alloc : Bool) (h : c.ctxs f.stationId = c'.ctxs f.stationId) :
    let r := c.cleanerProcess D f alloc
    let r' := c'.cleanerProcess D f alloc
    r.fst = r'.fst ∧ r.snd.fst = r'.snd.fst ∧
    r.snd.snd.ctxs f.stationId = r'.snd.snd.ctxs f.stationId := by
  rw [cleanerProcess_eq, cleanerProcess_eq, route_congr alloc h]
  cases c'.route f alloc
  case alarm => exact ⟨rfl, rfl, h⟩
  case heart => exact ⟨rfl, rfl, h⟩
  case noCtx => exact ⟨rfl, rfl, h⟩
  case stale ctx => simp [follow, put, count]
  case waits ctx => simp [follow, put]
  case handed ctx g =>
    obtain ⟨_, _, _, hp⟩ := processValidFrame_ctxs (D := D) ctx g f.stationId
    simp [follow, hp, put]

theorem cleanAll_filter (h : c.ctxs st = c'.ctxs st) (fs : List EnvFrame) :
    (cleanAll D c fs).fst.filter (·.frame.stationId = st) = (cleanAll D c' (ofStation st fs)).fst ∧
    (cleanAll D c fs).snd.ctxs st = (cleanAll D c' (ofStation st fs)).snd.ctxs st := by
  induction fs generalizing c c'
  case nil => exact ⟨rfl, h⟩
  case cons f fs hi =>
    by_cases hf : f.stationId = st
    case pos =>
      subst hf
      obtain ⟨h₁, h₂, h₃⟩ := cleanerProcess_congr (D := D) true h
      obtain ⟨hl, hc⟩ := hi h₃
      simp only [ofStation, List.filter_cons, cleanAll, decide_true, if_true] at *
      exact ⟨by rw [hl, h₁, h₂], hc⟩
    case neg =>
      obtain ⟨hl, hc⟩ := hi <| (cleanerProcess_ctxs_of_ne (D := D) true <| Ne.symm hf).trans h
      simp only [ofStation, List.filter_cons, cleanAll, hf, decide_false] at *
      exact ⟨hl, hc⟩

-- A station is served as if there were no other one.
theorem cleanAll_station (D : Type*) [DoubleArith D] (stats stats' : IotStats) (fs : List EnvFrame)
    (st : UInt16) :
    let mixed := cleanAll D (cleanerInit stats) fs
    let alone := cleanAll D (cleanerInit stats') (ofStation st fs)
    mixed.fst.filter (·.frame.stationId = st) = alone.fst ∧
    mixed.snd.ctxs st = alone.snd.ctxs st := by
  have h : (cleanerInit stats).ctxs st = (cleanerInit stats').ctxs st := rfl
  exact cleanAll_filter h fs

end IotCollector
