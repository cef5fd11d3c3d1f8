import IotCollector.Lib.Transition
import IotCollector.Pipeline.Theorems.RingOps

namespace IotCollector

open RingQueue

variable {q q' : RingQueue} {op : RingOp}

-- A blocking push of an alarm does not find a frame to evict, and writes nevertheless.
def RingOp.Overruns (q : RingQueue) : RingOp → Prop
  | .push frame => q.IsFull ∧ frame.IsAlarm ∧ ∀ g ∈ q.contents, g.IsAlarm
  | _           => False

theorem ringInit_wellFormed {cap : UInt32} {alloc : Bool} (h : ringInit cap alloc = some q) :
    q.WellFormed := by
  unfold ringInit at h
  split at h <;> try contradiction
  split at h <;> try contradiction
  cases h
  refine .mk' ?_ ?_ <;> simp

theorem ringInit_contents {cap : UInt32} {alloc : Bool} (h : ringInit cap alloc = some q) :
    q.contents = [] := by
  unfold ringInit at h
  split at h <;> try contradiction
  split at h <;> try contradiction
  cases h
  rfl

theorem ringPushTry_wellFormed {f : EnvFrame} (wf : q.WellFormed) :
    (ringPushTry q f).snd.WellFormed := by
  by_cases h : q.IsFull
  case neg => exact ringPushTry_of_not_full h ▸ (write_written wf h).wellFormed
  case pos =>
    by_cases hf : f.IsAlarm
    case neg =>
      rw [ringPushTry_normal h hf]
      exact ⟨wf.count_le, wf.tail_lt, wf.head_lt, wf.head_eq⟩
    case pos =>
      by_cases hn : ∃ g ∈ q.contents, ¬g.IsAlarm
      case pos => exact ringPushTry_evict wf h hf hn ▸ (evict_write wf h hn).left
      case neg => exact ringPushTry_alarms h hf (by simpa using hn) ▸ wf

theorem ringPopBatch_wellFormed {running : Bool} {maxN : UInt32} {out : List EnvFrame}
    (wf : q.WellFormed) (h : ringPopBatch running q maxN = some (out, q')) : q'.WellFormed :=
  (ringPopBatch_popped wf h).right.wellFormed

theorem ringStep_wellFormed (wf : q.WellFormed) (ho : ¬op.Overruns q)
    (h : ringStep q op = some q') : q'.WellFormed := by
  cases op
  case push f =>
    have h : ringPush q f = some q' := h
    by_cases hq : q.IsFull
    case neg =>
      cases ringPush_of_not_full hq ▸ h
      exact (write_written wf hq).wellFormed
    case pos =>
      by_cases hf : f.IsAlarm
      case neg => cases ringPush_blocks hq hf ▸ h
      case pos =>
        cases ringPush_alarm hq hf ▸ h
        have hn : ∃ g ∈ q.contents, ¬g.IsAlarm := by
          simpa [RingOp.Overruns, hq, hf] using ho
        exact (evict_write wf hq hn).left
  case pushTry f =>
    cases h
    exact ringPushTry_wellFormed wf
  case popBatch running maxN =>
    have ⟨r, hr, he⟩ := Option.map_eq_some_iff.mp h
    exact he ▸ ringPopBatch_wellFormed wf hr

theorem ringStep_overruns (wf : q.WellFormed) (ho : op.Overruns q) (h : ringStep q op = some q') :
    ¬q'.WellFormed := by
  cases op
  case push f =>
    have ⟨hq, hf, ha⟩ := ho
    have h : ringPush q f = some q' := h
    cases ringPush_alarm hq hf ▸ h
    intro wf'
    have := wf'.count_toNat_le
    rw [dropOldestNormal_of_alarms ha, write_count_toNat wf.count_toNat_le, isFull_iff.mp hq] at this
    exact Nat.not_succ_le_self _ this
  all_goals cases ho

-- The invariant survives a run exactly if no alarm overruns the queue.
theorem ring_wellFormed_iff {cap : UInt32} {alloc : Bool} (hq : ringInit cap alloc = some q)
    (ops : List RingOp) :
    Transition.Always ringStep q ops WellFormed ↔
    Transition.Guarded ringStep q ops (fun q op => ¬op.Overruns q) :=
  Transition.always_iff_guarded (ringInit_wellFormed hq) id ringStep_wellFormed
    fun wf h wf' ho => ringStep_overruns wf ho h wf'

def sampleRing : RingQueue where
  buf      := [EnvFrame.zero]
  capacity := 1
  head     := 0
  tail     := 0
  count    := 0
  dropped  := 0
  pow      := ⟨0, rfl⟩
  size     := rfl
  headLt   := by decide
  tailLt   := by decide

theorem ringInit_one : ringInit 1 true = some sampleRing :=
  rfl

theorem ring_wellFormed_iff_one :
    ringInit 1 true = some sampleRing ∧
    (Transition.Always ringStep sampleRing [.push sampleAlarm] WellFormed ↔
     Transition.Guarded ringStep sampleRing [.push sampleAlarm] (fun q op => ¬op.Overruns q)) :=
  ⟨ringInit_one, ring_wellFormed_iff ringInit_one [.push sampleAlarm]⟩

-- Two alarms in a queue for one frame.
theorem ring_wellFormed_false :
    ¬∀ cap alloc q, ringInit cap alloc = some q →
      ∀ ops, Transition.Always ringStep q ops WellFormed := by
  intro h
  have hs := h 1 true sampleRing ringInit_one [.push sampleAlarm, .push sampleAlarm]
  have wf := hs [.push sampleAlarm] _ ⟨[.push sampleAlarm], rfl⟩ rfl
  have ho : (RingOp.push sampleAlarm).Overruns (sampleRing.write sampleAlarm) := by
    refine ⟨?_, ?_, ?_⟩ <;> decide
  have hp : ringPush (sampleRing.write sampleAlarm) sampleAlarm = _ :=
    ringPush_alarm ho.left ho.right.left
  exact ringStep_overruns wf ho hp <| hs _ _ (List.prefix_refl _) hp

end IotCollector
