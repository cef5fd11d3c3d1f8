import IotCollector.Egress.Theorems.Outcome
import IotCollector.Main.Snapshot
import IotCollector.Main.Theorems.Steps
import IotCollector.Pipeline.Theorems.RingHistory

namespace IotCollector

def RingQueue.RefusesAlarm (q : RingQueue) (f : EnvFrame) : Prop :=
  q.IsFull ∧ f.IsAlarm ∧ ∀ g ∈ q.contents, g.IsAlarm

namespace RingHistory

variable {h h' : RingHistory} {f : EnvFrame} {out : List EnvFrame} {running : Bool} {maxN : UInt32}

def lost (h : RingHistory) : Nat :=
  h.evicted.length + h.refused.length

def unseen (h : RingHistory) : Nat :=
  (h.refused.filter (·.frame.IsAlarm)).length

def seen (h : RingHistory) : Nat :=
  h.evicted.length + h.refusedNormal.length

theorem lost_eq (h : RingHistory) : h.lost = h.seen + h.unseen := by
  have hl := List.length_eq_length_filter_add (l := h.refused) (fun r => decide r.frame.IsAlarm)
  simp only [lost, seen, unseen, refusedNormal, decide_not]
  omega

theorem popBatch_losses (hp : h.popBatch running maxN = some (out, h')) :
    h'.seen = h.seen ∧ h'.unseen = h.unseen := by
  obtain ⟨r, -, he⟩ := Option.map_eq_some_iff.mp hp
  cases he
  exact ⟨rfl, rfl⟩

inductive Losses (h : RingHistory) (f : EnvFrame) (h' : RingHistory) : Prop
  | hidden :
      h.queue.RefusesAlarm f → h'.seen = h.seen → h'.unseen = h.unseen + 1 → Losses h f h'
  | counted :
      ¬h.queue.RefusesAlarm f → h.seen ≤ h'.seen → h'.seen ≤ h.seen + 1 → h'.unseen = h.unseen →
      Losses h f h'

theorem pushTry_losses (w : h.Lawful) (f : EnvFrame) : Losses h f (h.pushTry f).snd := by
  by_cases hq : h.queue.IsFull
  case neg =>
    have hn : ¬h.queue.RefusesAlarm f := fun hr => hq hr.left
    simp only [pushTry, ringPushTry_of_not_full hq, pushed, victim_of_not_full hq]
    exact .counted hn (by simp [seen, refusedNormal]) (by simp [seen, refusedNormal])
      (by simp [unseen])
  case pos =>
    by_cases hf : f.IsAlarm
    case neg =>
      have hn : ¬h.queue.RefusesAlarm f := fun hr => hf hr.right.left
      simp only [pushTry, ringPushTry_normal hq hf, pushed, victim_of_normal hf]
      exact .counted hn (by simp [seen, refusedNormal, hf])
        (by simp [seen, refusedNormal, hf, Nat.add_assoc]) (by simp [unseen, hf])
    case pos =>
      by_cases hg : ∃ g ∈ h.queue.contents, ¬g.IsAlarm
      case pos =>
        have hn : ¬h.queue.RefusesAlarm f := by
          obtain ⟨g, hm, ha⟩ := hg
          exact fun hr => ha <| hr.right.right g hm
        obtain ⟨v, hv⟩ : ∃ v, h.queue.contents.find? (¬·.IsAlarm) = some v :=
          Option.isSome_iff_exists.mp <| List.find?_isSome.mpr <| by simpa using hg
        simp only [pushTry, ringPushTry_evict w.wellFormed hq hf hg, pushed,
          victim_of_alarm hq hf, hv]
        exact .counted hn (by simp [seen, refusedNormal]) (by simp [seen, refusedNormal]; omega)
          (by simp [unseen])
      case neg =>
        have ha : ∀ g ∈ h.queue.contents, g.IsAlarm := by simpa using hg
        have hv : h.queue.contents.find? (¬·.IsAlarm) = none := by simpa using ha
        simp only [pushTry, ringPushTry_alarms hq hf ha, pushed, victim_of_alarm hq hf, hv]
        exact .hidden ⟨hq, hf, ha⟩ (by simp [seen, refusedNormal, hf]) (by simp [unseen, hf])

end RingHistory

namespace Pipeline

variable {D : Type*} [DoubleArith D] {n : Nat} {s s' : Pipeline n} {a : PipelineAct n}

def seen (s : Pipeline n) : Nat :=
  s.q1.seen + s.q2.seen

def unseen (s : Pipeline n) : Nat :=
  s.q1.unseen + s.q2.unseen

def RefusesAlarm (s : Pipeline n) : PipelineAct n → Prop
  | .ingress _ f => s.q1.queue.RefusesAlarm f
  | .cleaner _   =>
    match s.cleaning with
    | .pushing f _ => s.q2.queue.RefusesAlarm f
    | _            => False
  | _ => False

structure Lawful (s : Pipeline n) : Prop where
  q1 : s.q1.Lawful
  q2 : s.q2.Lawful

inductive Losses (s : Pipeline n) (a : PipelineAct n) (s' : Pipeline n) : Prop
  | hidden :
      s.RefusesAlarm a → s'.seen = s.seen → s'.unseen = s.unseen + 1 → Losses s a s'
  | counted :
      ¬s.RefusesAlarm a → s.seen ≤ s'.seen → s'.seen ≤ s.seen + 1 → s'.unseen = s.unseen →
      Losses s a s'

theorem Losses.keep (hn : ¬s.RefusesAlarm a)
    (h₁ : s'.q1.seen = s.q1.seen ∧ s'.q1.unseen = s.q1.unseen)
    (h₂ : s'.q2.seen = s.q2.seen ∧ s'.q2.unseen = s.q2.unseen) : Losses s a s' :=
  have hs : s'.seen = s.seen := by rw [seen, seen, h₁.left, h₂.left]
  .counted hn hs.ge (hs ▸ Nat.le_succ _) (by rw [unseen, unseen, h₁.right, h₂.right])

theorem Losses.pushQ1 {f : EnvFrame} (hr : s.RefusesAlarm a ↔ s.q1.queue.RefusesAlarm f)
    (h : s.q1.Losses f s'.q1) (h₂ : s'.q2 = s.q2) : Losses s a s' := by
  cases h
  case hidden h hs hu =>
    exact .hidden (hr.mpr h) (by rw [seen, seen, h₂, hs]) (by rw [unseen, unseen, h₂, hu]; omega)
  case counted h hs ht hu =>
    exact .counted (mt hr.mp h) (by rw [seen, seen, h₂]; omega) (by rw [seen, seen, h₂]; omega)
      (by rw [unseen, unseen, h₂, hu])

theorem Losses.pushQ2 {f : EnvFrame} (hr : s.RefusesAlarm a ↔ s.q2.queue.RefusesAlarm f)
    (h : s.q2.Losses f s'.q2) (h₁ : s'.q1 = s.q1) : Losses s a s' := by
  cases h
  case hidden h hs hu =>
    exact .hidden (hr.mpr h) (by rw [seen, seen, h₁, hs]) (by rw [unseen, unseen, h₁, hu]; omega)
  case counted h hs ht hu =>
    exact .counted (mt hr.mp h) (by rw [seen, seen, h₁]; omega) (by rw [seen, seen, h₁]; omega)
      (by rw [unseen, unseen, h₁, hu])

theorem cleanerStep_losses (w : s.Lawful) {alloc : Bool} (h : s.cleanerStep D alloc = some s') :
    s'.Lawful ∧ Losses s (.cleaner alloc) s' := by
  have hr : s.RefusesAlarm (.cleaner alloc) ↔
      ∃ f fs, s.cleaning = .pushing f fs ∧ s.q2.queue.RefusesAlarm f := by
    simp only [RefusesAlarm]
    split <;> simp_all
  unfold Pipeline.cleanerStep at h
  split at h
  case h_1 hc =>
    cases h
    exact ⟨⟨w.q1, w.q2⟩, .keep (by simp [hr, hc]) ⟨rfl, rfl⟩ ⟨rfl, rfl⟩⟩
  case h_2 hc =>
    obtain ⟨r, hp, rfl⟩ := Option.map_eq_some_iff.mp h
    have hl := RingHistory.popBatch_losses hp
    split <;>
      exact ⟨⟨w.q1.popBatch hp, w.q2⟩, .keep (by simp [hr, hc]) hl ⟨rfl, rfl⟩⟩
  case h_3 hc =>
    cases h
    exact ⟨⟨w.q1, w.q2⟩, .keep (by simp [hr, hc]) ⟨rfl, rfl⟩ ⟨rfl, rfl⟩⟩
  case h_4 f fs hc =>
    dsimp only at h
    split at h <;> cases h <;>
      exact ⟨⟨w.q1, w.q2⟩, .keep (by simp [hr, hc]) ⟨rfl, rfl⟩ ⟨rfl, rfl⟩⟩
  case h_5 f fs hc =>
    cases h
    have hf : s.RefusesAlarm (.cleaner alloc) ↔ s.q2.queue.RefusesAlarm f := by simp [hr, hc]
    exact ⟨⟨w.q1, w.q2.pushTry f⟩, .pushQ2 hf (RingHistory.pushTry_losses w.q2 f) rfl⟩
  case h_6 => cases h

theorem pipelineStep_losses (w : s.Lawful) (h : pipelineStep D s a = some s') :
    s'.Lawful ∧ Losses s a s' := by
  cases a
  case signal =>
    cases h
    exact ⟨⟨w.q1, w.q2⟩, .keep id ⟨rfl, rfl⟩ ⟨rfl, rfl⟩⟩
  case ingress proto f =>
    obtain ⟨_, rfl⟩ := ingressStep_frame h
    exact ⟨⟨w.q1.pushTry f, w.q2⟩, .pushQ1 .rfl (RingHistory.pushTry_losses w.q1 f) rfl⟩
  case cleaner alloc => exact cleanerStep_losses w h
  case worker i =>
    obtain ⟨_, q2, rfl, hq⟩ := workerStep_frame h
    cases hq
    case inl hq => exact ⟨⟨w.q1, hq ▸ w.q2⟩, .keep id ⟨rfl, rfl⟩ (hq ▸ ⟨rfl, rfl⟩)⟩
    case inr hq =>
      obtain ⟨_, hp⟩ := hq
      exact ⟨⟨w.q1, w.q2.popBatch hp⟩, .keep id ⟨rfl, rfl⟩ (RingHistory.popBatch_losses hp)⟩
  case main =>
    obtain ⟨_, _, rfl⟩ := mainStep_frame h
    exact ⟨⟨w.q1, w.q2⟩, .keep id ⟨rfl, rfl⟩ ⟨rfl, rfl⟩⟩

end Pipeline

namespace Monitored

variable {D : Type*} [DoubleArith D] {cfg : DispatcherCfg} {n : Nat} {s s' : Monitored n}
variable {a : MonitoredAct n}

def seen (s : Monitored n) : Nat :=
  s.pipeline.seen

def unseen (s : Monitored n) : Nat :=
  s.pipeline.unseen + s.egressDrops

def lost (s : Monitored n) : Nat :=
  s.pipeline.q1.lost + s.pipeline.q2.lost + s.egressDrops

theorem lost_eq (s : Monitored n) : s.lost = s.seen + s.unseen := by
  simp only [lost, seen, unseen, Pipeline.seen, Pipeline.unseen, RingHistory.lost_eq]
  omega

-- A snapshot reports all frames that are lost, and no fewer than the snapshot before it.
def Reports (s : Monitored n) : Prop :=
  s.snapshot.droppedTotal.toNat = s.lost ∧ s.shown.droppedTotal ≤ s.snapshot.droppedTotal

def Visible (cfg : DispatcherCfg) (s : Monitored n) : MonitoredAct n → Prop
  | .call a io =>
    ¬s.pipeline.RefusesAlarm a ∧ ∀ f, s.pipeline.dispatched a = some f → s.dispatcher.Delivers cfg f io
  | _ => True

structure Sound (s : Monitored n) : Prop where
  lawful : s.pipeline.Lawful
  shown  : s.shown.droppedTotal.toNat ≤ s.seen

theorem Sound.snapshot_droppedTotal (w : s.Sound) (hl : s.lost < 2 ^ 32) :
    s.snapshot.droppedTotal.toNat = s.seen := by
  have he := s.lost_eq
  have hd : s.snapshot.droppedTotal =
    (s.pipeline.q1.queue.dropped + s.pipeline.q2.queue.dropped).toUInt64 := rfl
  have h₁ := w.lawful.q1.dropped
  have h₂ := w.lawful.q2.dropped
  rw [hd, h₁, h₂, ← UInt32.ofNat_add, UInt32.toNat_toUInt64, UInt32.toNat_ofNat']
  exact Nat.mod_eq_of_lt <| (le_of_add_le_left he.ge).trans_lt hl

theorem Sound.reports_iff (w : s.Sound) (hl : s.lost < 2 ^ 32) : s.Reports ↔ s.unseen = 0 := by
  have hs := w.snapshot_droppedTotal hl
  have he := s.lost_eq
  have hle : s.shown.droppedTotal ≤ s.snapshot.droppedTotal :=
    UInt64.le_iff_toNat_le.mpr <| hs ▸ w.shown
  simp only [Reports, hle, and_true, hs]
  omega

theorem dispatch_unseen (cfg : DispatcherCfg) (f : EnvFrame) (io : DispatchIo) :
    (s.dispatcher.Delivers cfg f io → (s.dispatch cfg f io).unseen = s.unseen) ∧
    (¬s.dispatcher.Delivers cfg f io → (s.dispatch cfg f io).unseen = s.unseen + 1) := by
  have hd := Dispatcher.loses_iff cfg { s.dispatcher with stats := s.pipeline.cleaner.stats } f io
  constructor
  · exact fun hok => congrArg (s.pipeline.unseen + ·) <| if_neg <| mt hd.mp <| not_not.mpr hok
  · exact fun hok => congrArg (s.pipeline.unseen + ·) <| if_pos <| hd.mpr hok

-- A step loses a frame at the most in a queue, and one in `dispatch_one`.
theorem monitoredStep_lawful (w : s.pipeline.Lawful) (h : monitoredStep D cfg s a = some s') :
    s'.pipeline.Lawful ∧ s'.lost ≤ s.lost + 2 := by
  cases a
  case snapshot => cases h; exact ⟨⟨w.q1, w.q2⟩, Nat.le_add_right ..⟩
  case replay   => cases h; exact ⟨w, Nat.le_add_right ..⟩
  case heartbeat write =>
    obtain ⟨d, -, rfl⟩ := Option.map_eq_some_iff.mp h
    exact ⟨w, Nat.le_add_right ..⟩
  case reconnect connect =>
    obtain ⟨d, -, rfl⟩ := Option.map_eq_some_iff.mp h
    exact ⟨w, Nat.le_add_right ..⟩
  case call a io =>
    obtain ⟨p, hp, rfl⟩ := Option.map_eq_some_iff.mp h
    have ⟨hw, hc⟩ := Pipeline.pipelineStep_losses w hp
    have hle : p.seen + p.unseen ≤ s.pipeline.seen + s.pipeline.unseen + 1 := by cases hc <;> omega
    have hlost : ({ s with pipeline := p } : Monitored n).lost ≤ s.lost + 1 := by
      simp only [lost_eq, seen, unseen]
      omega
    split
    case h_1   => exact ⟨hw, hlost.trans <| Nat.le_succ _⟩
    case h_2 f _ =>
      have ⟨h₁, h₂⟩ := { s with pipeline := p }.dispatch_unseen cfg f io
      have hs : (dispatch { s with pipeline := p } cfg f io).seen = p.seen := rfl
      have hu : ({ s with pipeline := p } : Monitored n).seen = p.seen := rfl
      rw [lost_eq, hu] at hlost
      refine ⟨⟨hw.q1, hw.q2⟩, ?_⟩
      rw [lost_eq, hs]
      by_cases hok : s.dispatcher.Delivers cfg f io
      case pos => rw [h₁ hok]; omega
      case neg => rw [h₂ hok]; omega

theorem initial_lawful {q1 q2 : RingQueue} {cap₁ cap₂ : UInt32} {alloc₁ alloc₂ : Bool}
    (h₁ : ringInit cap₁ alloc₁ = some q1) (h₂ : ringInit cap₂ alloc₂ = some q2) (d : Dispatcher) :
    (initial n q1 q2 d).pipeline.Lawful :=
  ⟨RingHistory.init_lawful h₁, RingHistory.init_lawful h₂⟩

theorem lost_le_length (w : s.pipeline.Lawful) (h₀ : s.lost = 0) {as : List (MonitoredAct n)}
    (h : (monitoredStep D cfg).exec s as = some s') :
    s'.pipeline.Lawful ∧ s'.lost ≤ 2 * as.length := by
  induction as using List.reverseRecOn generalizing s'
  case nil =>
    cases h
    exact ⟨w, h₀.le⟩
  case append_singleton as a hi =>
    have ⟨m, hm, hs⟩ := Transition.exec_concat_iff.mp h
    have ⟨hw, hl⟩ := hi hm
    have ⟨hw', hl'⟩ := monitoredStep_lawful hw hs
    refine ⟨hw', ?_⟩
    rw [List.length_append, List.length_singleton]
    omega

theorem always_lost_lt (w : s.pipeline.Lawful) (h₀ : s.lost = 0) {as : List (MonitoredAct n)}
    (hn : as.length < 2 ^ 31) : (monitoredStep D cfg).Always s as fun s => s.lost < 2 ^ 32 := by
  intro bs s' hp hs
  have hl := (lost_le_length w h₀ hs).right
  have hp := hp.length_le
  omega

structure Step (cfg : DispatcherCfg) (s : Monitored n) (a : MonitoredAct n) (s' : Monitored n) :
    Prop where
  sound   : s'.Sound
  visible : s.Visible cfg a → s'.unseen = s.unseen
  hidden  : ¬s.Visible cfg a → s.unseen < s'.unseen

theorem monitoredStep_step (w : s.Sound) (hl : s.lost < 2 ^ 32)
    (h : monitoredStep D cfg s a = some s') : Step cfg s a s' := by
  cases a
  case snapshot =>
    cases h
    exact ⟨⟨⟨w.lawful.q1, w.lawful.q2⟩, (w.snapshot_droppedTotal hl).le⟩, fun _ => rfl,
      fun hv => absurd trivial hv⟩
  case heartbeat write =>
    obtain ⟨d, -, rfl⟩ := Option.map_eq_some_iff.mp h
    exact ⟨⟨w.lawful, w.shown⟩, fun _ => rfl, fun hv => absurd trivial hv⟩
  case reconnect connect =>
    obtain ⟨d, -, rfl⟩ := Option.map_eq_some_iff.mp h
    exact ⟨⟨w.lawful, w.shown⟩, fun _ => rfl, fun hv => absurd trivial hv⟩
  case replay fd buf write cache =>
    cases h
    exact ⟨⟨w.lawful, w.shown⟩, fun _ => rfl, fun hv => absurd trivial hv⟩
  case call a io =>
    obtain ⟨p, hp, rfl⟩ := Option.map_eq_some_iff.mp h
    have ⟨hw, hc⟩ := Pipeline.pipelineStep_losses w.lawful hp
    have hs : s.pipeline.seen ≤ p.seen := by cases hc <;> omega
    cases hd : s.pipeline.dispatched a
    case none =>
      refine ⟨⟨hw, w.shown.trans hs⟩, ?_, ?_⟩ <;> simp only [Visible, hd, unseen] <;>
        cases hc <;> simp_all
    case some f =>
      have ⟨h₁, h₂⟩ := { s with pipeline := p }.dispatch_unseen cfg f io
      have hp : ({ s with pipeline := p } : Monitored n).unseen = p.unseen + s.egressDrops := rfl
      refine ⟨⟨⟨hw.q1, hw.q2⟩, w.shown.trans hs⟩, ?_, ?_⟩ <;>
        simp only [Visible, hd, Option.some.injEq, forall_eq']
      · rintro ⟨hr, hok⟩
        rw [h₁ hok, hp]
        cases hc
        case hidden h _ _  => exact absurd h hr
        case counted _ _ _ h => rw [h, unseen]
      · intro hv
        have hge : s.pipeline.unseen ≤ p.unseen := by cases hc <;> omega
        by_cases hok : s.dispatcher.Delivers cfg f io
        case neg => rw [h₂ hok, hp, unseen]; omega
        case pos =>
          rw [h₁ hok, hp, unseen]
          cases hc
          case hidden _ _ h  => omega
          case counted h _ _ _ => exact absurd ⟨h, hok⟩ hv

theorem always_sound {q1 q2 : RingQueue} {cap₁ cap₂ : UInt32} {alloc₁ alloc₂ : Bool}
    (h₁ : ringInit cap₁ alloc₁ = some q1) (h₂ : ringInit cap₂ alloc₂ = some q2) {d : Dispatcher}
    {as : List (MonitoredAct n)}
    (hl : (monitoredStep D cfg).Always (.initial n q1 q2 d) as fun s => s.lost < 2 ^ 32) :
    (monitoredStep D cfg).Always (.initial n q1 q2 d) as Sound :=
  Transition.always_of_guarded ⟨initial_lawful h₁ h₂ d, le_refl _⟩
    (fun w hl h => (monitoredStep_step w hl h).sound) hl.guarded

end Monitored

-- A snapshot overwrites what `stats_on_drop` has counted.
theorem snapshot_reports_iff (D : Type*) [DoubleArith D] (cfg : DispatcherCfg) {n : Nat}
    {q1 q2 : RingQueue} {cap₁ cap₂ : UInt32} {alloc₁ alloc₂ : Bool}
    (h₁ : ringInit cap₁ alloc₁ = some q1) (h₂ : ringInit cap₂ alloc₂ = some q2) (d : Dispatcher)
    (as : List (MonitoredAct n))
    (hl : (monitoredStep D cfg).Always (.initial n q1 q2 d) as fun s => s.lost < 2 ^ 32) :
    (monitoredStep D cfg).Always (.initial n q1 q2 d) as Monitored.Reports ↔
    (monitoredStep D cfg).Guarded (.initial n q1 q2 d) as (Monitored.Visible cfg) := by
  have hs := Monitored.always_sound h₁ h₂ hl
  refine Transition.always_iff_guarded_of (I := fun s => s.unseen = 0) (hs.and hl) rfl ?_ ?_ ?_
  · exact fun hu hR => (hR.left.reports_iff hR.right).mpr hu
  · intro s a s' hu hR hv h
    exact ((Monitored.monitoredStep_step hR.left hR.right h).visible hv).trans hu
  · intro s a s' hu hR hR' h hr
    by_contra hv
    have hlt := (Monitored.monitoredStep_step hR.left hR.right h).hidden hv
    exact absurd ((hR'.left.reports_iff hR'.right).mp hr) (Nat.ne_zero_of_lt hlt)

def alarmTwice : List (MonitoredAct 2) :=
  [.call (.ingress 0 sampleAlarm) Dispatcher.fullDisk,
   .call (.ingress 0 sampleAlarm) Dispatcher.fullDisk]

def alarmOnce : List (MonitoredAct 2) :=
  [.call (.ingress 0 sampleAlarm) Dispatcher.fullDisk, .snapshot]

theorem sample_lost (d : Dispatcher) {as : List (MonitoredAct 2)} (h : as.length < 2 ^ 31) :
    (monitoredStep Float sampleCfg).Always (.initial 2 sampleRing sampleRing d) as
      fun s => s.lost < 2 ^ 32 :=
  Monitored.always_lost_lt (Monitored.initial_lawful ringInit_one ringInit_one d) rfl h

theorem snapshot_reports_iff_twice :
    (monitoredStep Float sampleCfg).Always (.initial 2 sampleRing sampleRing sampleDispatcher)
      alarmOnce Monitored.Reports ∧
    ((monitoredStep Float sampleCfg).Always (.initial 2 sampleRing sampleRing sampleDispatcher)
      alarmTwice Monitored.Reports ↔
     (monitoredStep Float sampleCfg).Guarded (.initial 2 sampleRing sampleRing sampleDispatcher)
      alarmTwice (Monitored.Visible sampleCfg)) := by
  refine ⟨(snapshot_reports_iff Float sampleCfg ringInit_one ringInit_one sampleDispatcher alarmOnce
      (sample_lost _ <| by decide)).mpr ?_,
    snapshot_reports_iff Float sampleCfg ringInit_one ringInit_one sampleDispatcher alarmTwice
      (sample_lost _ <| by decide)⟩
  refine .cons ⟨?_, fun f hf => by cases hf⟩ rfl <| .cons trivial rfl .nil
  simp only [Pipeline.RefusesAlarm, RingQueue.RefusesAlarm]
  decide

theorem snapshot_reports_false :
    ¬∀ (cfg : DispatcherCfg) (q1 q2 : RingQueue) (d : Dispatcher) (as : List (MonitoredAct 2)),
      ringInit 1 true = some q1 → ringInit 1 true = some q2 →
      (monitoredStep Float cfg).Always (.initial 2 q1 q2 d) as (fun s => s.lost < 2 ^ 32) →
      (monitoredStep Float cfg).Always (.initial 2 q1 q2 d) as Monitored.Reports := by
  intro h
  have hl : (monitoredStep Float sampleCfg).Always _ alarmTwice _ :=
    sample_lost sampleDispatcher <| by decide
  have hr := h sampleCfg _ _ sampleDispatcher alarmTwice ringInit_one ringInit_one hl
  have hs := Monitored.always_sound ringInit_one ringInit_one hl
  have hp : [.call (.ingress 0 sampleAlarm) Dispatcher.fullDisk] <+: alarmTwice :=
    List.prefix_append ..
  have hq : (ringPushTry sampleRing sampleAlarm).snd.RefusesAlarm sampleAlarm := by
    simp only [RingQueue.RefusesAlarm]
    decide
  have hu := (Monitored.monitoredStep_step (hs _ _ hp rfl) (hl _ _ hp rfl) <|
    show monitoredStep Float sampleCfg _ (.call (.ingress 0 sampleAlarm) Dispatcher.fullDisk) = some _
    from rfl).hidden fun hv => hv.left hq
  have hw := hs _ _ List.prefix_rfl rfl
  have h₀ := (hw.reports_iff (hl _ _ List.prefix_rfl rfl)).mp <| hr _ _ List.prefix_rfl rfl
  exact absurd h₀ (Nat.ne_zero_of_lt hu)

end IotCollector
