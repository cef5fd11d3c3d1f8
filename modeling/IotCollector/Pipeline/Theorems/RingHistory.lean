import IotCollector.Lib.Ownership
import IotCollector.Pipeline.RingHistory
import IotCollector.Pipeline.Theorems.RingInvariant

namespace IotCollector

open RingQueue

namespace RingHistory

variable {h h' : RingHistory} {f : EnvFrame} {out : List EnvFrame} {running : Bool} {maxN : UInt32}

structure Law (h : RingHistory) : Prop where
  order   : (h.popped ++ h.queue.contents).Sublist h.accepted
  alarms  : (h.popped ++ h.queue.contents).filter (·.IsAlarm) = h.accepted.filter (·.IsAlarm)
  balance : h.accepted.length = h.popped.length + h.queue.contents.length + h.evicted.length
  dropped : h.queue.dropped.toNat = (h.evicted.length + h.refusedNormal.length) % 2 ^ 32
  refused : ∀ r ∈ h.refused, r.frame.IsAlarm →
    r.queue.contents.length = r.queue.capacity.toNat ∧ ∀ g ∈ r.queue.contents, g.IsAlarm

-- The invariant. What has been popped and what is still there are the accepted frames without the
-- evicted ones.
structure Lawful (h : RingHistory) : Prop where
  wellFormed : h.queue.WellFormed
  order      : (h.popped ++ h.queue.contents).Sublist h.accepted
  alarms     : (h.popped ++ h.queue.contents).filter (·.IsAlarm) = h.accepted.filter (·.IsAlarm)
  conserve   : h.accepted.Perm (h.popped ++ h.queue.contents ++ h.evicted)
  dropped    : h.queue.dropped = UInt32.ofNat (h.evicted.length + h.refusedNormal.length)
  refused    : ∀ r ∈ h.refused, r.frame.IsAlarm →
    r.queue.contents.length = r.queue.capacity.toNat ∧ ∀ g ∈ r.queue.contents, g.IsAlarm

theorem Lawful.law (w : h.Lawful) : h.Law where
  order   := w.order
  alarms  := w.alarms
  balance := by simpa [Nat.add_assoc] using w.conserve.length_eq
  dropped := by rw [w.dropped, UInt32.toNat_ofNat']
  refused := w.refused

theorem init_lawful {q : RingQueue} {cap : UInt32} {alloc : Bool} (hq : ringInit cap alloc = some q) :
    (init q).Lawful := by
  have hw := ringInit_wellFormed hq
  unfold ringInit at hq
  split at hq <;> try contradiction
  split at hq <;> try contradiction
  cases hq
  constructor <;> simp_all [init, contents, refusedNormal]

theorem victim_of_not_full {q : RingQueue} (hf : ¬q.IsFull) : q.victim f = none :=
  if_neg fun h => hf h.left

theorem victim_of_normal {q : RingQueue} (hf : ¬f.IsAlarm) : q.victim f = none :=
  if_neg fun h => hf h.right

theorem victim_of_alarm {q : RingQueue} (hq : q.IsFull) (hf : f.IsAlarm) :
    q.victim f = q.contents.find? (¬·.IsAlarm) :=
  if_pos ⟨hq, hf⟩

theorem Lawful.append (w : h.Lawful) (hq : ¬h.queue.IsFull) : (h.pushTry f).snd.Lawful := by
  have hw := write_written (f := f) w.wellFormed hq
  simp only [pushTry, ringPushTry_of_not_full hq, pushed, victim_of_not_full hq]
  constructor
  case wellFormed => exact hw.wellFormed
  case order => simpa [hw.contents] using w.order.append (.refl [f])
  case alarms => simpa [hw.contents] using congrArg (· ++ [f].filter (·.IsAlarm)) w.alarms
  case conserve =>
    refine List.perm_iff_count.mpr fun g => ?_
    have := w.conserve.count_eq g
    simp only [hw.contents, if_true, Option.toList_none, List.append_nil, List.count_append] at *
    omega
  case dropped => simpa [refusedNormal] using hw.dropped.trans w.dropped
  case refused => simpa using w.refused

theorem Lawful.evict (w : h.Lawful) (hq : h.queue.IsFull) (hf : f.IsAlarm)
    (hn : ∃ g ∈ h.queue.contents, ¬g.IsAlarm) : (h.pushTry f).snd.Lawful := by
  have ⟨hw, hc, _, hd⟩ := evict_write (f := f) w.wellFormed hq hn
  have ⟨v, hv⟩ : ∃ v, h.queue.contents.find? (¬·.IsAlarm) = some v :=
    Option.isSome_iff_exists.mp <| List.find?_isSome.mpr <| by simpa using hn
  simp only [pushTry, ringPushTry_evict w.wellFormed hq hf hn, pushed, victim_of_alarm hq hf, hv]
  constructor
  case wellFormed => exact hw
  case order =>
    have hs : (h.popped ++ h.queue.contents.eraseP (¬·.IsAlarm)).Sublist h.accepted :=
      List.eraseP_sublist.append_left _ |>.trans w.order
    simpa [hc] using hs.append (.refl [f])
  case alarms =>
    have he := h.queue.contents.filter_eraseP_not (·.IsAlarm)
    have := congrArg (· ++ [f].filter (·.IsAlarm)) w.alarms
    simp_all
  case conserve =>
    refine List.perm_iff_count.mpr fun g => ?_
    have := w.conserve.count_eq g
    have := (List.perm_cons_eraseP hv).count_eq g
    simp only [hc, if_true, Option.toList_some, List.count_append, List.count_cons,
      List.count_nil] at *
    omega
  case dropped =>
    rw [hd, w.dropped]
    simp [refusedNormal, UInt32.add_assoc, UInt32.add_comm 1]
  case refused => simpa using w.refused

theorem Lawful.refuseAlarm (w : h.Lawful) (hq : h.queue.IsFull) (hf : f.IsAlarm)
    (ha : ∀ g ∈ h.queue.contents, g.IsAlarm) : (h.pushTry f).snd.Lawful := by
  have hv : h.queue.contents.find? (¬·.IsAlarm) = none := by simpa using ha
  simp only [pushTry, ringPushTry_alarms hq hf ha, pushed, victim_of_alarm hq hf, hv]
  refine ⟨w.wellFormed, w.order, w.alarms, by simpa using w.conserve, ?_, ?_⟩
  · simpa [refusedNormal, hf] using w.dropped
  · intro r hr hfr
    cases List.mem_append.mp hr
    case inl hr => exact w.refused r hr hfr
    case inr hr =>
      cases List.mem_singleton.mp hr
      exact ⟨(contents_length _).trans <| isFull_iff.mp hq, ha⟩

theorem Lawful.refuseNormal (w : h.Lawful) (hq : h.queue.IsFull) (hf : ¬f.IsAlarm) :
    (h.pushTry f).snd.Lawful := by
  simp only [pushTry, ringPushTry_normal hq hf, pushed, victim_of_normal hf]
  have hw := w.wellFormed
  rw [if_neg (by simp), if_neg (by simp), Option.toList_none, List.append_nil]
  refine ⟨⟨hw.count_le, hw.tail_lt, hw.head_lt, hw.head_eq⟩, w.order, w.alarms, w.conserve, ?_, ?_⟩
  · simp [refusedNormal, hf, w.dropped, UInt32.add_assoc]
  · intro r hr hfr
    cases List.mem_append.mp hr
    case inl hr => exact w.refused r hr hfr
    case inr hr =>
      cases List.mem_singleton.mp hr
      contradiction

theorem Lawful.pushTry (w : h.Lawful) (f : EnvFrame) : (h.pushTry f).snd.Lawful := by
  by_cases hq : h.queue.IsFull
  case neg => exact w.append hq
  case pos =>
    by_cases hf : f.IsAlarm
    case neg => exact w.refuseNormal hq hf
    case pos =>
      by_cases hn : ∃ g ∈ h.queue.contents, ¬g.IsAlarm
      case pos => exact w.evict hq hf hn
      case neg => exact w.refuseAlarm hq hf (by simpa using hn)

theorem Lawful.popBatch (w : h.Lawful) (hp : h.popBatch running maxN = some (out, h')) :
    h'.Lawful := by
  obtain ⟨r, hr, he⟩ := Option.map_eq_some_iff.mp hp
  cases he
  have ⟨ho, hp⟩ := ringPopBatch_popped w.wellFormed hr
  have hs : h.popped ++ r.fst ++ r.snd.contents = h.popped ++ h.queue.contents := by
    rw [ho, hp.contents, List.append_assoc, List.take_append_drop]
  exact ⟨hp.wellFormed, hs ▸ w.order, hs ▸ w.alarms, hs ▸ w.conserve, hp.dropped.trans w.dropped,
    w.refused⟩

theorem popBatch_lists (hp : h.popBatch running maxN = some (out, h')) :
    h'.popped = h.popped ++ out ∧ h'.accepted = h.accepted := by
  obtain ⟨r, -, he⟩ := Option.map_eq_some_iff.mp hp
  cases he
  exact ⟨rfl, rfl⟩

def HoldsAlarm (h : RingHistory) : Prop :=
  ∃ g ∈ h.queue.contents, g.IsAlarm

theorem Lawful.pushTry_alarms (w : h.Lawful) (f : EnvFrame) :
    (h.pushTry f).snd.queue.contents.filter (·.IsAlarm) = h.queue.contents.filter (·.IsAlarm) ++
      (if (h.pushTry f).fst = .ok then [f] else []).filter (·.IsAlarm) := by
  have ha : (h.pushTry f).snd.accepted =
      h.accepted ++ if (h.pushTry f).fst = .ok then [f] else [] := by
    simp only [RingHistory.pushTry, pushed]
    split <;> simp_all
  have hs := (w.pushTry f).alarms
  rw [ha, List.filter_append, List.filter_append, ← w.alarms, List.filter_append,
    List.append_assoc] at hs
  exact List.append_cancel_left hs

theorem holdsAlarm_iff : h.HoldsAlarm ↔ h.queue.contents.filter (·.IsAlarm) ≠ [] := by
  simp [HoldsAlarm]

theorem Lawful.holdsAlarm_pushTry (w : h.Lawful) (f : EnvFrame) (ha : h.HoldsAlarm) :
    (h.pushTry f).snd.HoldsAlarm := by
  rw [holdsAlarm_iff] at *
  rw [w.pushTry_alarms]
  exact List.append_ne_nil_of_left_ne_nil ha _

theorem Lawful.holdsAlarm_pushTry_iff (w : h.Lawful) (f : EnvFrame) :
    (h.pushTry f).snd.HoldsAlarm ↔ h.HoldsAlarm ∨ f.IsAlarm := by
  refine ⟨fun ha => ?_, fun ho => ?_⟩
  case refine_1 =>
    rw [holdsAlarm_iff, w.pushTry_alarms] at ha
    by_contra hn
    have ⟨hn, hf⟩ := not_or.mp hn
    rw [holdsAlarm_iff, not_not] at hn
    refine ha ?_
    rw [hn]
    split <;> simp [hf]
  case refine_2 =>
    cases ho
    case inl ha => exact w.holdsAlarm_pushTry f ha
    case inr hf =>
      by_cases hr : (h.pushTry f).fst = .ok
      case pos =>
        rw [holdsAlarm_iff, w.pushTry_alarms, if_pos hr]
        simp [hf]
      case neg =>
        have hm : ⟨f, h.queue⟩ ∈ (h.pushTry f).snd.refused := by
          have he : (h.pushTry f).snd.refused = h.refused ++ [⟨f, h.queue⟩] := if_neg hr
          simp [he]
        have ⟨hl, ha⟩ := (w.pushTry f).refused _ hm hf
        have ⟨g, hg⟩ := List.exists_mem_of_length_pos <| hl ▸ h.queue.capacity_pos
        exact w.holdsAlarm_pushTry f ⟨g, hg, ha g hg⟩

theorem popBatch_nil {maxN : UInt32} (wf : h.queue.WellFormed) (hm : 0 < maxN)
    (hp : h.popBatch running maxN = some ([], h')) : h'.queue.contents = [] := by
  obtain ⟨⟨out, q'⟩, hr, he⟩ := Option.map_eq_some_iff.mp hp
  cases he
  have ⟨ho, hp⟩ := ringPopBatch_popped wf hr
  have hl := congrArg List.length ho
  have := UInt32.lt_iff_toNat_lt.mp hm
  simp only [List.length_nil, List.length_take, contents_length, UInt32.toNat_zero] at *
  rw [hp.contents, List.drop_eq_nil_iff, contents_length]
  omega

end RingHistory

open RingHistory

variable {h h' : RingHistory} {c : RingCall}

theorem ringCall_lawful (w : h.Lawful) (hc : ringCall h c = some h') : h'.Lawful := by
  cases c
  case pushTry f => exact Option.some.inj hc ▸ w.pushTry f
  case popBatch running maxN =>
    have ⟨r, hr, he⟩ := Option.map_eq_some_iff.mp hc
    exact he ▸ w.popBatch hr

theorem ringCalls_law {cap : UInt32} {alloc : Bool} {q : RingQueue}
    (hq : ringInit cap alloc = some q) (calls : List RingCall) :
    Transition.Always ringCall (init q) calls Law :=
  fun cs h hcs hr =>
    Transition.always_of_preserved (init_lawful hq) ringCall_lawful calls cs h hcs hr |>.law

theorem ringCalls_law_one :
    ringInit 1 true = some sampleRing ∧
    Transition.Always ringCall (init sampleRing)
      [.pushTry EnvFrame.zero, .pushTry sampleAlarm, .popBatch true 1] Law :=
  ⟨ringInit_one, ringCalls_law ringInit_one _⟩

end IotCollector
