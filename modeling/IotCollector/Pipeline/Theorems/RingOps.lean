import IotCollector.Common.ThreadPool
import IotCollector.Pipeline.Theorems.RingQueue

namespace IotCollector

open RingQueue

variable {q : RingQueue} {f : EnvFrame}

theorem ringPush_of_not_full (h : ¬q.IsFull) : ringPush q f = some (q.write f) :=
  if_neg h

theorem ringPush_blocks (h : q.IsFull) (hf : ¬f.IsAlarm) : ringPush q f = none := by
  rw [ringPush, if_pos h, if_neg hf]

theorem ringPush_alarm (h : q.IsFull) (hf : f.IsAlarm) :
    ringPush q f = some (q.dropOldestNormal.write f) := by
  rw [ringPush, if_pos h, if_pos hf]

theorem ringPushTry_of_not_full (h : ¬q.IsFull) : ringPushTry q f = (.ok, q.write f) :=
  if_neg h

theorem ringPushTry_normal (h : q.IsFull) (hf : ¬f.IsAlarm) :
    ringPushTry q f = (.errFull, { q with dropped := q.dropped + 1 }) := by
  rw [ringPushTry, if_pos h, if_neg hf]

theorem ringPushTry_evict (wf : q.WellFormed) (h : q.IsFull) (hf : f.IsAlarm)
    (hn : ∃ g ∈ q.contents, ¬g.IsAlarm) :
    ringPushTry q f = (.ok, q.dropOldestNormal.write f) := by
  have he := dropOldestNormal_evicted wf hn |>.not_isFull h
  rw [ringPushTry, if_pos h, if_pos hf, if_neg he]

theorem ringPushTry_alarms (h : q.IsFull) (hf : f.IsAlarm) (ha : ∀ g ∈ q.contents, g.IsAlarm) :
    ringPushTry q f = (.errFull, q) := by
  rw [ringPushTry, if_pos h, if_pos hf, dropOldestNormal_of_alarms ha, if_pos h]

theorem evict_write (wf : q.WellFormed) (h : q.IsFull) (hn : ∃ g ∈ q.contents, ¬g.IsAlarm) :
    (q.dropOldestNormal.write f).WellFormed ∧
    (q.dropOldestNormal.write f).contents = q.contents.eraseP (¬·.IsAlarm) ++ [f] ∧
    (q.dropOldestNormal.write f).capacity = q.capacity ∧
    (q.dropOldestNormal.write f).dropped = q.dropped + 1 := by
  have e := dropOldestNormal_evicted wf hn
  have w := write_written (f := f) e.wellFormed (e.not_isFull h)
  exact ⟨w.wellFormed, by rw [w.contents, e.contents], w.capacity.trans e.capacity,
    w.dropped.trans e.dropped⟩

theorem ringPopBatch_of_count_pos (running : Bool) (maxN : UInt32) (wf : q.WellFormed)
    (h : q.contents ≠ []) :
    ∃ q', ringPopBatch running q maxN =
        some (q.contents.take (min q.count.toNat maxN.toNat), q') ∧
      q.Popped q' (min q.count.toNat maxN.toNat) := by
  have hc : q.count ≠ 0 := by
    rintro hz
    simp [contents, hz] at h
  let n := if q.count < maxN then q.count else maxN
  have hn : n.toNat = min q.count.toNat maxN.toNat := by
    simp only [n, UInt32.lt_iff_toNat_lt]
    split <;> omega
  obtain ⟨hr, hp⟩ := popped_of_readN (n := n) wf (by omega)
  rw [← hn, ringPopBatch, if_neg hc, ← hr]
  exact ⟨_, rfl, hp⟩

theorem ringPushTry_contents_ne_nil (wf : q.WellFormed) (f : EnvFrame) :
    (ringPushTry q f).snd.contents ≠ [] := by
  by_cases h : q.IsFull
  case neg => simp [ringPushTry_of_not_full h, (write_written wf h).contents]
  case pos =>
    have hc : q.contents ≠ [] := by
      rw [← List.length_pos_iff, contents_length, isFull_iff.mp h]
      exact q.capacity_pos
    by_cases hf : f.IsAlarm
    case neg => exact ringPushTry_normal h hf ▸ hc
    case pos =>
      by_cases hn : ∃ g ∈ q.contents, ¬g.IsAlarm
      case pos => simp [ringPushTry_evict wf h hf hn, evict_write wf h hn]
      case neg => exact ringPushTry_alarms h hf (by simpa using hn) ▸ hc

theorem ringPopBatch_popped {running : Bool} {maxN : UInt32} {out : List EnvFrame} {q' : RingQueue}
    (wf : q.WellFormed) (h : ringPopBatch running q maxN = some (out, q')) :
    out = q.contents.take (min q.count.toNat maxN.toNat) ∧
    q.Popped q' (min q.count.toNat maxN.toNat) := by
  by_cases hc : q.count = 0
  case pos =>
    rw [ringPopBatch, if_pos hc] at h
    cases running <;> cases h
    have hn : min q.count.toNat maxN.toNat = 0 := by simp [hc]
    rw [hn]
    exact ⟨rfl, wf, rfl, rfl, rfl⟩
  case neg =>
    have hn : q.contents ≠ [] := by
      rw [← List.length_pos_iff, contents_length]
      exact UInt32.lt_iff_toNat_lt.mp <| UInt32.pos_iff_ne_zero.mpr hc
    obtain ⟨_, he, hp⟩ := ringPopBatch_of_count_pos running maxN wf hn
    cases h ▸ he
    exact ⟨rfl, hp⟩

theorem ringPopBatch_one (q : RingQueue) :
    ringPopBatch true q 1 = (tpWorkerDequeue q).map fun r => ([r.fst], r.snd) := by
  by_cases h : q.count = 0
  case pos => simp [ringPopBatch, tpWorkerDequeue, h]
  case neg =>
    have hp : 0 < q.count := UInt32.pos_iff_ne_zero.mpr h
    have h₁ : (if q.count < 1 then q.count else 1) = 1 :=
      if_neg (by simpa using h)
    simp only [ringPopBatch, if_neg h, h₁, tpWorkerDequeue, gt_iff_lt, if_pos hp]
    rfl

-- The queue refines the list of its contents, as far as the operations go that respect the capacity.
theorem ring_refines_contents (q : RingQueue) (wf : q.WellFormed) :
    (∀ f, ¬q.IsFull → ∃ q', ringPushTry q f = (.ok, q') ∧ q'.WellFormed ∧
      q'.contents = q.contents ++ [f] ∧ q'.capacity = q.capacity ∧ q'.dropped = q.dropped) ∧
    (∀ f, q.IsFull → f.IsAlarm → (∃ g ∈ q.contents, ¬g.IsAlarm) →
      ∃ q', ringPushTry q f = (.ok, q') ∧ q'.WellFormed ∧
        q'.contents = q.contents.eraseP (¬·.IsAlarm) ++ [f] ∧ q'.capacity = q.capacity ∧
        q'.dropped = q.dropped + 1) ∧
    (∀ f, q.IsFull → f.IsAlarm → (∀ g ∈ q.contents, g.IsAlarm) →
      ringPushTry q f = (.errFull, q)) ∧
    (∀ f, q.IsFull → ¬f.IsAlarm → ∃ q', ringPushTry q f = (.errFull, q') ∧ q'.WellFormed ∧
      q' = { q with dropped := q.dropped + 1 } ∧ q'.contents = q.contents) ∧
    (∀ running maxN, q.contents ≠ [] →
      ∃ q', ringPopBatch running q maxN =
          some (q.contents.take (min q.count.toNat maxN.toNat), q') ∧ q'.WellFormed ∧
        q'.contents = q.contents.drop (min q.count.toNat maxN.toNat) ∧
        q'.capacity = q.capacity ∧ q'.dropped = q.dropped) ∧
    (ringPopBatch true q 1 = (tpWorkerDequeue q).map fun r => ([r.fst], r.snd)) ∧
    (ringPopBatch true q 1 = (tpDestroyDequeue q).map fun r => ([r.fst], r.snd)) := by
  refine ⟨?append, ?evict, fun f => ringPushTry_alarms, ?refuse, ?pop, ringPopBatch_one q,
    ringPopBatch_one q⟩
  case append =>
    intro f h
    have w := write_written (f := f) wf h
    exact ⟨_, ringPushTry_of_not_full h, w.wellFormed, w.contents, w.capacity, w.dropped⟩
  case evict =>
    intro f h hf hn
    exact ⟨_, ringPushTry_evict wf h hf hn, evict_write wf h hn⟩
  case refuse =>
    intro f h hf
    exact ⟨_, ringPushTry_normal h hf, ⟨wf.count_le, wf.tail_lt, wf.head_lt, wf.head_eq⟩, rfl, rfl⟩
  case pop =>
    intro running maxN h
    have ⟨q', hq, hp⟩ := ringPopBatch_of_count_pos running maxN wf h
    exact ⟨q', hq, hp.wellFormed, hp.contents, hp.capacity, hp.dropped⟩

def sampleAlarm : EnvFrame :=
  { EnvFrame.zero with frameType := frameAlarm }

-- A full queue that wraps around: the alarm in the last slot is the oldest frame.
def wrappedRing : RingQueue where
  buf      := [EnvFrame.zero, sampleAlarm]
  capacity := 2
  head     := 1
  tail     := 1
  count    := 2
  dropped  := 0
  pow      := ⟨1, rfl⟩
  size     := rfl
  headLt   := by decide
  tailLt   := by decide

theorem ring_refines_contents_wrapped :
    wrappedRing.WellFormed ∧
    ∃ q', ringPushTry wrappedRing sampleAlarm = (.ok, q') ∧ q'.contents = [sampleAlarm, sampleAlarm] :=
  have wf : wrappedRing.WellFormed := by constructor <;> decide
  have ⟨q', h, _, hc, _⟩ :=
    (ring_refines_contents wrappedRing wf).right.left sampleAlarm (by decide) (by decide) (by decide)
  ⟨wf, q', h, hc⟩

end IotCollector
