import IotCollector.Pipeline.Monitor
import IotCollector.Pipeline.Theorems.RingInvariant

namespace IotCollector

namespace RingQueue

variable {q q' : RingQueue} {f : EnvFrame}

structure Grown (q q' : RingQueue) : Prop where
  capacity : q'.capacity = q.capacity
  count    : q'.count = q.count ∨ q'.count = q.count + 1
  free     : ¬q.IsFull → q'.count = q.count + 1

theorem dropOldestNormal_cases (q : RingQueue) :
    q.dropOldestNormal = q ∨ ∃ i, q.dropOldestNormal = q.removeAt i := by
  rw [dropOldestNormal, dropOldestNormalFrom_eq (by simp)]
  split
  case h_1 => exact .inl rfl
  case h_2 => exact .inr ⟨_, rfl⟩

theorem dropOldestNormal_capacity (q : RingQueue) : q.dropOldestNormal.capacity = q.capacity := by
  cases q.dropOldestNormal_cases
  case inl h => rw [h]
  case inr h =>
    obtain ⟨_, h⟩ := h
    rw [h, removeAt_capacity]

theorem ringPush_grown (h : ringPush q f = some q') : q.Grown q' := by
  unfold ringPush at h
  split at h
  case isFalse hq => cases h; exact ⟨rfl, .inr rfl, fun _ => rfl⟩
  case isTrue hq =>
    split at h <;> cases h
    refine ⟨q.dropOldestNormal_capacity, ?_, absurd hq⟩
    cases q.dropOldestNormal_cases
    case inl h => exact .inr <| by rw [h]; rfl
    case inr h =>
      obtain ⟨i, h⟩ := h
      have hc : (q.removeAt i).count = q.count - 1 := by simp only [removeAt, q.shift_fields i]
      exact .inl <| by simp [h, write, hc]

theorem ringPush_isFull (h : ringPush q f = none) : q.IsFull := by
  by_contra hq
  cases ringPush_of_not_full hq ▸ h

theorem ringPushTry_grown (h : (ringPushTry q f).fst = .ok) : q.Grown (ringPushTry q f).snd := by
  by_cases hq : q.IsFull
  case neg => exact ringPush_grown <| by rw [ringPush_of_not_full hq, ringPushTry_of_not_full hq]
  case pos =>
    by_cases hf : f.IsAlarm
    case neg => simp [ringPushTry_normal hq hf] at h
    case pos =>
      refine ringPush_grown <| (ringPush_alarm hq hf).trans ?_
      unfold ringPushTry at h ⊢
      simp only [hq, hf, if_true] at h ⊢
      split at h <;> simp_all

theorem ringPushTry_refused (h : (ringPushTry q f).fst ≠ .ok) :
    q.IsFull ∧ (ringPushTry q f).snd.count = q.count ∧
    (ringPushTry q f).snd.capacity = q.capacity := by
  by_cases hq : q.IsFull
  case neg => simp [ringPushTry_of_not_full hq] at h
  case pos =>
    refine ⟨hq, ?_⟩
    unfold ringPushTry at h ⊢
    simp only [hq, if_true] at h ⊢
    split
    case isFalse => exact ⟨rfl, rfl⟩
    case isTrue hf =>
      have hc := q.dropOldestNormal_capacity
      split
      case isTrue hd => exact ⟨hd.trans <| hc.trans hq.symm, hc⟩
      case isFalse hd => simp [hf, hd] at h

end RingQueue

open RingQueue

def MonitorAct.IsPush {n m : Nat} : MonitorAct n m → Prop
  | .push .. | .resume .. | .pushTry .. => True
  | _                                   => False

namespace RingMonitor

variable {n m : Nat} {s s' : RingMonitor n m} {a : MonitorAct n m}

-- Nobody sleeps on although there is something to do: some consumer is awake while the queue is not
-- empty, and all producers are while it is not full.
structure NoLostWakeup (s : RingMonitor n m) : Prop where
  notEmpty : 0 < s.queue.count → s.notEmpty.SomeAwake
  notFull  : s.queue.count < s.queue.capacity → s.notFull.AllAwake

-- A push makes `count` wrap around, in a queue that has been overrun while a producer sleeps.
def Wraps (s : RingMonitor n m) (a : MonitorAct n m) : Prop :=
  a.IsPush ∧ s.queue.count = 0xFFFFFFFF ∧ ¬s.notFull.AllAwake

inductive Moved (s : RingMonitor n m) (a : MonitorAct n m) (s' : RingMonitor n m) : Prop
  | wrote (p : Fin n) (wakes : Option (Fin m)) :
      a.IsPush → ¬(s.notFull p).IsAsleep → s.queue.Grown s'.queue → s'.notFull = s.notFull.leave p →
      s.notEmpty.signal wakes = some s'.notEmpty → Moved s a s'
  | refused (p : Fin n) :
      s.queue.IsFull → s'.queue.count = s.queue.count → s'.queue.capacity = s.queue.capacity →
      s'.notFull = s.notFull.leave p → s'.notEmpty = s.notEmpty → Moved s a s'
  | waits :
      s.queue.IsFull → s'.queue = s.queue → s'.notEmpty = s.notEmpty → Moved s a s'
  | popped (c : Fin m) :
      ¬a.IsPush → s'.notFull = s.notFull.broadcast → s'.notEmpty = s.notEmpty.leave c → Moved s a s'
  | empty :
      ¬a.IsPush → s.queue.count = 0 → s'.queue = s.queue → s'.notFull = s.notFull → Moved s a s'
  | wakeProducer (p : Fin n) :
      ¬a.IsPush → s'.queue = s.queue → s'.notFull = s.notFull.wake p → s'.notEmpty = s.notEmpty →
      Moved s a s'
  | wakeConsumer (c : Fin m) :
      ¬a.IsPush → s'.queue = s.queue → s'.notFull = s.notFull → s'.notEmpty = s.notEmpty.wake c →
      Moved s a s'
  | wakeAll :
      ¬a.IsPush → s'.notFull = s.notFull.broadcast → s'.notEmpty = s.notEmpty.broadcast → Moved s a s'

theorem moved_wrote {p : Fin n} {q : RingQueue} {wakes : Option (Fin m)} (ha : a.IsPush)
    (hp : ¬(s.notFull p).IsAsleep) (hg : s.queue.Grown q) (h : s.wrote p q wakes = some s') :
    Moved s a s' := by
  obtain ⟨cv, hw, rfl⟩ := Option.map_eq_some_iff.mp h
  exact .wrote p wakes ha hp hg rfl hw

theorem moved_push {p : Fin n} {f : EnvFrame} {wait : Bool} {wakes : Option (Fin m)}
    (ha : a.IsPush) (hp : ¬(s.notFull p).IsAsleep) (h : s.push p f wait wakes = some s') :
    Moved s a s' := by
  unfold push at h
  split at h
  case h_2 q hq => exact moved_wrote ha hp (ringPush_grown hq) h
  case h_1 hq =>
    cases h
    cases wait
    case true => exact .waits (ringPush_isFull hq) rfl rfl
    case false => exact .refused p (ringPush_isFull hq) rfl rfl rfl rfl

theorem moved_pushTry {p : Fin n} {f : EnvFrame} {wakes : Option (Fin m)} (ha : a.IsPush)
    (hp : ¬(s.notFull p).IsAsleep) (h : s.pushTry p f wakes = some s') : Moved s a s' := by
  unfold pushTry at h
  dsimp only at h
  split at h
  case isTrue hr => exact moved_wrote ha hp (ringPushTry_grown hr) h
  case isFalse hr =>
    cases h
    have ⟨hq, hc, hcap⟩ := ringPushTry_refused hr
    exact .refused p hq hc hcap rfl rfl

theorem moved_popBatch (c : Fin m) (k : UInt32) (ha : ¬a.IsPush) : Moved s a (s.popBatch c k) := by
  unfold popBatch
  split
  case h_2 => exact .popped c ha rfl rfl
  case h_1 h =>
    refine .empty ha ?_ rfl rfl
    by_contra hc
    simp [ringPopBatch, hc] at h

theorem moved (h : ringMonitorStep s a = some s') : Moved s a s' := by
  cases a
  case push p f wait wakes =>
    simp only [ringMonitorStep] at h
    split at h
    case h_1 hp => exact moved_push trivial (by simp [hp, Waiter.IsAsleep]) h
    case h_2 => cases h
  case resume p wait wakes =>
    simp only [ringMonitorStep] at h
    split at h
    case h_1 f hp => exact moved_push trivial (by simp [hp, Waiter.IsAsleep]) h
    case h_2 => cases h
  case pushTry p f wakes =>
    simp only [ringMonitorStep] at h
    split at h
    case h_1 hp => exact moved_pushTry trivial (by simp [hp, Waiter.IsAsleep]) h
    case h_2 => cases h
  case popBatch c k =>
    simp only [ringMonitorStep] at h
    split at h <;> cases h
    exact moved_popBatch c k id
  case repop c =>
    simp only [ringMonitorStep] at h
    split at h <;> cases h
    exact moved_popBatch c _ id
  case spurious t =>
    cases t
    case inl p => cases h; exact .wakeProducer p id rfl rfl rfl
    case inr c => cases h; exact .wakeConsumer c id rfl rfl rfl
  case wakeAll => cases h; exact .wakeAll id rfl rfl

theorem step_notEmpty (hm : 0 < m) (hi : 0 < s.queue.count → s.notEmpty.SomeAwake)
    (h : ringMonitorStep s a = some s') : 0 < s'.queue.count → s'.notEmpty.SomeAwake := by
  have : Nonempty (Fin m) := ⟨⟨0, hm⟩⟩
  cases moved h
  case wrote hw => exact fun _ => CondVar.signal_someAwake hw
  case refused hc _ _ he => exact hc ▸ he ▸ hi
  case waits hq he => exact hq ▸ he ▸ hi
  case popped he => exact fun _ => he ▸ CondVar.leave_someAwake
  case empty hz hq _ => exact fun hc => absurd (hq ▸ hc) (by simp [hz])
  case wakeProducer hq _ he => exact hq ▸ he ▸ hi
  case wakeConsumer he => exact fun _ => he ▸ CondVar.wake_someAwake
  case wakeAll he => exact fun _ => he ▸ CondVar.broadcast_allAwake.someAwake

theorem not_lt_of_isFull {q : RingQueue} (h : q.IsFull) : ¬q.count < q.capacity := by
  rw [show q.count = q.capacity from h]
  exact UInt32.lt_irrefl _

theorem not_isFull_of_max {q : RingQueue} (h : q.count = 0xFFFFFFFF) : ¬q.IsFull := by
  intro hq
  have := q.capacity_le
  rw [← isFull_iff.mp hq, h] at this
  exact absurd this (by decide)

-- While a producer sleeps, `count` is not below the capacity. It gets there by a pop, which wakes
-- everybody, or by wrapping around.
theorem step_notFull (hi : s.queue.count < s.queue.capacity → s.notFull.AllAwake)
    (ha : ¬s.Wraps a) (h : ringMonitorStep s a = some s') :
    s'.queue.count < s'.queue.capacity → s'.notFull.AllAwake := by
  cases moved h
  case wrote p wakes hpush _ hg hf _ =>
    intro hl
    refine hf ▸ CondVar.AllAwake.leave ?_ p
    by_contra hn
    have hw : s.queue.count ≠ 0xFFFFFFFF := fun hc => ha ⟨hpush, hc, hn⟩
    have hs : s.queue.count.toNat ≠ 2 ^ 32 - 1 := fun hc => hw <| UInt32.toNat_inj.mp hc
    refine hn <| hi ?_
    rw [hg.capacity] at hl
    cases hg.count
    case inl hc => exact hc ▸ hl
    case inr hc =>
      rw [hc] at hl
      have := s.queue.count.toNat_lt
      simp only [UInt32.lt_iff_toNat_lt, UInt32.toNat_add, UInt32.toNat_one] at hl ⊢
      omega
  case refused p hq hc hcap hf _ => exact fun hl => absurd (hc ▸ hcap ▸ hl) (not_lt_of_isFull hq)
  case waits hq he _ => exact fun hl => absurd (he ▸ hl) (not_lt_of_isFull hq)
  case popped hf _ => exact fun _ => hf ▸ CondVar.broadcast_allAwake
  case empty hq hf => exact hq ▸ hf ▸ hi
  case wakeProducer p _ hq hf _ => exact fun hl => hf ▸ (hi <| hq ▸ hl).wake p
  case wakeConsumer hq hf _ => exact hq ▸ hf ▸ hi
  case wakeAll hf _ => exact fun _ => hf ▸ CondVar.broadcast_allAwake

theorem wraps_lost (hw : s.Wraps a) (h : ringMonitorStep s a = some s') :
    s'.queue.count < s'.queue.capacity ∧ ¬s'.notFull.AllAwake := by
  have ⟨hpush, hc, hn⟩ := hw
  have hq := not_isFull_of_max hc
  cases moved h
  case wrote p wakes _ hp hg hf _ =>
    refine ⟨?_, fun ha => hn <| (hf ▸ ha).of_leave hp⟩
    rw [hg.free hq, hc, UInt32.lt_iff_toNat_lt]
    exact s'.queue.capacity_pos
  all_goals contradiction

theorem initial_allAwake (q : RingQueue) :
    (initial n m q).notEmpty.AllAwake ∧ (initial n m q).notFull.AllAwake :=
  ⟨fun _ => id, fun _ => id⟩

theorem always_notEmpty (hm : 0 < m) (q : RingQueue) (as : List (MonitorAct n m)) :
    ringMonitorStep.Always (initial n m q) as fun s => 0 < s.queue.count → s.notEmpty.SomeAwake :=
  have : Nonempty (Fin m) := ⟨⟨0, hm⟩⟩
  Transition.always_of_preserved (fun _ => (initial_allAwake q).left.someAwake) (step_notEmpty hm) as

end RingMonitor

open RingMonitor

-- No wake-up is lost exactly as long as `count` does not wrap around while a producer sleeps.
theorem no_lost_wakeup_iff {n m : Nat} (hm : 0 < m) (q : RingQueue) (as : List (MonitorAct n m)) :
    ringMonitorStep.Always (.initial n m q) as NoLostWakeup ↔
    ringMonitorStep.Guarded (.initial n m q) as (¬·.Wraps ·) :=
  Transition.always_iff_guarded_of (always_notEmpty hm q as)
    (I := fun s => s.queue.count < s.queue.capacity → s.notFull.AllAwake)
    (fun _ => (initial_allAwake q).right) (fun hi hk => ⟨hk, hi⟩)
    (fun hi _ ha h => step_notFull hi ha h)
    (fun _ _ _ h hp hw => have ⟨hl, hn⟩ := wraps_lost hw h; hn <| hp.notFull hl)

-- A consumer waits until a frame comes, and a producer until the consumer has taken that frame.
def handOver {n m : Nat} (p w : Fin n) (c : Fin m) : List (MonitorAct n m) :=
  [.popBatch c 1, .push p .zero true (some c), .push w .zero true none, .repop c, .resume w true none]

theorem no_lost_wakeup_iff_one :
    (ringMonitorStep.Always (.initial 2 1 sampleRing) (handOver 0 1 0) NoLostWakeup ↔
      ringMonitorStep.Guarded (.initial 2 1 sampleRing) (handOver 0 1 0) (¬·.Wraps ·)) ∧
    ringMonitorStep.Always (.initial 2 1 sampleRing) (handOver 0 1 0) NoLostWakeup :=
  have h := no_lost_wakeup_iff (by decide) sampleRing (handOver 0 1 0)
  have hc {q : RingQueue} (h : q.count ≠ 0xFFFFFFFF) {s : RingMonitor 2 1} (hs : s.queue = q) a :
      ¬s.Wraps a := fun hw => h <| hs ▸ hw.right.left
  ⟨h, h.mpr <| .cons (hc (by decide) rfl _) rfl <| .cons (hc (by decide) rfl _) rfl <|
    .cons (hc (by decide) rfl _) rfl <| .cons (hc (by decide) rfl _) rfl <|
    .cons (hc (by decide) rfl _) rfl .nil⟩

namespace RingMonitor

variable {n m : Nat} {s : RingMonitor n m}

theorem step_push_free {p : Fin n} {f : EnvFrame} {wait : Bool} (hp : s.notFull p = .ready)
    (he : s.notEmpty.AllAwake) (hq : ¬s.queue.IsFull) :
    ringMonitorStep s (.push p f wait none) = some { s with queue := s.queue.write f } := by
  simp only [ringMonitorStep, hp, push, ringPush_of_not_full hq, wrote, he.signal_none,
    CondVar.leave_of_ready hp, Option.map_some]

theorem exec_pushes {p : Fin n} {f : EnvFrame} (hp : s.notFull p = .ready)
    (he : s.notEmpty.AllAwake) (hc : s.queue.capacity.toNat < s.queue.count.toNat) (k : Nat)
    (hk : s.queue.count.toNat + k ≤ 2 ^ 32) :
    ∃ q, ringMonitorStep.exec s (List.replicate k (.push p f true none)) =
        some { s with queue := q } ∧
      q.capacity = s.queue.capacity ∧ q.count.toNat = (s.queue.count.toNat + k) % 2 ^ 32 := by
  induction k
  case zero => exact ⟨_, rfl, rfl, (Nat.mod_eq_of_lt s.queue.count.toNat_lt).symm⟩
  case succ k hi =>
    obtain ⟨q, hq, hcap, hn⟩ := hi (by omega)
    rw [Nat.mod_eq_of_lt (by omega)] at hn
    have hf : ¬q.IsFull := by
      rw [isFull_iff, hcap, hn]
      omega
    refine ⟨q.write f, ?_, hcap, ?_⟩
    · rw [List.replicate_succ', Transition.exec_concat_iff]
      exact ⟨_, hq, step_push_free hp he hf⟩
    · simp [write, UInt32.toNat_add, hn, Nat.add_assoc]

-- A queue for one frame that has been overrun while the producer `w` waits with a normal frame.
def overrun (m : Nat) (w : Fin n) : RingMonitor n m where
  queue    := (sampleRing.write sampleAlarm).write sampleAlarm
  notFull  := CondVar.wait (fun _ => .ready) w EnvFrame.zero
  notEmpty := fun _ => .ready

-- The producer `p` comes with alarms all the time.
def alarmRun (m : Nat) (p w : Fin n) (k : Nat) : List (MonitorAct n m) :=
  [.push p sampleAlarm true none, .push w EnvFrame.zero true none, .push p sampleAlarm true none] ++
    List.replicate k (.push p sampleAlarm true none)

theorem overrun_ready {p w : Fin n} (h : p ≠ w) : (overrun m w).notFull p = .ready := by
  simp [overrun, CondVar.wait, h]

theorem exec_overrun {p w : Fin n} (h : p ≠ w) :
    ringMonitorStep.exec (initial n m sampleRing) (alarmRun m p w 0) = some (overrun m w) := by
  have hf : (sampleRing.write sampleAlarm).IsFull := by decide
  have ha : ∀ g ∈ (sampleRing.write sampleAlarm).contents, g.IsAlarm := by decide
  have h₁ : ringMonitorStep (initial n m sampleRing) (.push p sampleAlarm true none) =
      some { initial n m sampleRing with queue := sampleRing.write sampleAlarm } :=
    step_push_free rfl (fun _ => id) (show ¬sampleRing.IsFull by decide)
  have h₂ : ringPush (sampleRing.write sampleAlarm) EnvFrame.zero = none :=
    ringPush_blocks hf (by decide)
  have h₃ : ringPush (sampleRing.write sampleAlarm) sampleAlarm =
      some ((sampleRing.write sampleAlarm).write sampleAlarm) := by
    rw [ringPush_alarm hf (by decide), dropOldestNormal_of_alarms ha]
  have hr : CondVar.wait (fun _ => .ready) w EnvFrame.zero p = .ready := overrun_ready (m := m) h
  have hs : CondVar.AllAwake (fun _ : Fin m => (.ready : Waiter UInt32)) := fun _ => id
  rw [alarmRun, List.replicate_zero, List.append_nil, Transition.exec_cons, h₁, Option.bind_some]
  simp only [Transition.exec, ringMonitorStep, initial, push, h₂, h₃, hr, wrote, if_true,
    Option.bind_some, CondVar.leave_of_ready hr, hs.signal_none, Option.map_some]
  rfl

theorem exec_alarmRun {p w : Fin n} (h : p ≠ w) (k : Nat) (hk : k ≤ 2 ^ 32 - 2) :
    ∃ s, ringMonitorStep.exec (initial n m sampleRing) (alarmRun m p w k) = some s ∧
      s.queue.capacity = 1 ∧ s.queue.count.toNat = (2 + k) % 2 ^ 32 ∧ ¬s.notFull.AllAwake := by
  have hc : (overrun m w).queue.count.toNat = 2 := rfl
  have ⟨q, hq, hcap, hn⟩ := exec_pushes (f := sampleAlarm) (overrun_ready (m := m) h) (fun _ => id)
    (show 1 < 2 by decide) k (by omega)
  refine ⟨{ overrun m w with queue := q }, ?_, hcap, hc ▸ hn, fun ha => ha w ?_⟩
  · have ho := exec_overrun (m := m) h
    rw [alarmRun, List.replicate_zero, List.append_nil] at ho
    rw [alarmRun, Transition.exec_append, ho, Option.bind_some]
    exact hq
  · simp [overrun, CondVar.wait, Waiter.IsAsleep]

theorem no_lost_wakeup_false :
    ¬∀ (n m : Nat), 0 < m → ∀ cap alloc q, ringInit cap alloc = some q →
      ∀ as : List (MonitorAct n m), ringMonitorStep.Always (.initial n m q) as NoLostWakeup := by
  intro h
  have ⟨s, hs, hcap, hn, ha⟩ :=
    exec_alarmRun (n := 2) (m := 1) (p := 0) (w := 1) (by decide) (2 ^ 32 - 2) le_rfl
  have hl := h 2 1 (by decide) 1 true sampleRing ringInit_one _ _ s List.prefix_rfl hs
  refine ha <| hl.notFull ?_
  rw [UInt32.lt_iff_toNat_lt, hn, hcap]
  decide

end RingMonitor

end IotCollector
