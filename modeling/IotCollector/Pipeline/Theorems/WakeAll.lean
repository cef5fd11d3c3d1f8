import Mathlib.Algebra.BigOperators.Group.Finset.Basic
import IotCollector.Pipeline.Theorems.Wakeup

namespace IotCollector

open RingQueue RingMonitor

-- How many frames can be written until the queue is full, after `k` have been taken out. Where `count`
-- exceeds the capacity, it has to wrap around first.
def RingQueue.roomAfter (q : RingQueue) (k : Nat) : Nat :=
  (q.capacity.toNat + 2 ^ 32 - (q.count.toNat - k)) % 2 ^ 32

namespace RingQueue

variable {q q' : RingQueue}

theorem ringPopBatch_exit (q : RingQueue) (maxN : UInt32) :
    ∃ out q', ringPopBatch false q maxN = some (out, q') ∧ q'.capacity = q.capacity ∧
      q'.count.toNat = q.count.toNat - maxN.toNat := by
  unfold ringPopBatch
  by_cases hc : q.count = 0
  case pos => exact ⟨[], q, by simp [hc], rfl, by simp [hc]⟩
  case neg =>
    let k := if q.count < maxN then q.count else maxN
    have hk : k.toNat = min q.count.toNat maxN.toNat := by
      simp only [k, UInt32.lt_iff_toNat_lt]
      split <;> omega
    have ⟨_, hcap, _, hcount, _⟩ := q.readN_fields k.toNat
    rw [if_neg hc]
    refine ⟨_, _, rfl, hcap, ?_⟩
    have hle : k ≤ q.count := UInt32.le_iff_toNat_le.mpr <| by omega
    have he : ((q.readN k.toNat).snd.count - k).toNat = q.count.toNat - k.toNat := by
      rw [hcount, UInt32.toNat_sub_of_le _ _ hle]
    exact he.trans <| by omega

theorem roomAfter_eq_zero_iff : q.roomAfter 0 = 0 ↔ q.IsFull := by
  have := q.count.toNat_lt
  have := q.capacity_le
  rw [isFull_iff, roomAfter]
  omega

theorem roomAfter_write {k r : Nat} (hc : q'.capacity = q.capacity) (hn : q'.count = q.count + 1)
    (h₀ : r + 1 ≤ q.roomAfter 0) (h : r + 1 ≤ q.roomAfter k) : r ≤ q'.roomAfter k := by
  have := q.count.toNat_lt
  have := q.capacity_le
  simp only [roomAfter, hc, hn, UInt32.toNat_add, UInt32.reduceToNat] at *
  omega

theorem roomAfter_write_zero {r : Nat} {f : EnvFrame} (h : q.roomAfter 0 = r + 1) :
    (q.write f).roomAfter 0 = r := by
  have := q.count.toNat_lt
  have := q.capacity_le
  simp only [roomAfter, write, UInt32.toNat_add, UInt32.reduceToNat] at *
  omega

theorem roomAfter_pop {k l : Nat} (hc : q'.capacity = q.capacity)
    (hn : q'.count.toNat = q.count.toNat - l) : q'.roomAfter k = q.roomAfter (l + k) := by
  rw [roomAfter, roomAfter, hc, hn, Nat.sub_sub]

end RingQueue

namespace RingMonitor

variable {n m : Nat} {s s' : RingMonitor n m} {a : MonitorAct n m} {q q' : RingQueue}

def demand (s : RingMonitor n m) (c : Fin m) : Nat :=
  match s.notEmpty c with
  | .ready                     => 0
  | .asleep maxN | .woken maxN => maxN.toNat

def WaitsNormal (s : RingMonitor n m) : Prop :=
  s.notFull.Calls (¬·.IsAlarm)

def Released (s : RingMonitor n m) : Prop :=
  s.notFull.AllAwake ∧ s.notEmpty.AllAwake

def Roomy (s : RingMonitor n m) : Prop :=
  ∀ C : Finset (Fin m),
    s.notFull.blocked.card ≤ s.queue.roomAfter (∑ c ∈ C, s.demand c)

structure Awaited (s : RingMonitor n m) : Prop where
  roomy    : s.Roomy
  released : s.Released

inductive Turn (s : RingMonitor n m) : MonitorAct n m → RingMonitor n m → Prop
  | producer {p f wait wakes s'} :
      s.notFull p = .woken f → s.push p f wait wakes = some s' →
      Turn s (.resume p wait wakes) s'
  | consumer {c maxN} :
      s.notEmpty c = .woken maxN → Turn s (.repop c) (s.exitBatch c maxN)

theorem turn (h : exitStep s a = some s') : Turn s a s' := by
  cases a <;> simp only [exitStep, ringMonitorStep] at h
  case resume p wait wakes =>
    split at h
    case h_1 hp => exact .producer hp h
    case h_2    => cases h
  case repop c =>
    split at h
    case h_1 hc => cases h; exact .consumer hc
    case h_2    => cases h
  all_goals cases h

theorem exitBatch_cases (s : RingMonitor n m) (c : Fin m) (maxN : UInt32) :
    (s.exitBatch c maxN).queue.capacity = s.queue.capacity ∧
    (s.exitBatch c maxN).queue.count.toNat = s.queue.count.toNat - maxN.toNat ∧
    ((s.exitBatch c maxN).notFull = s.notFull ∨
     (s.exitBatch c maxN).notFull = s.notFull.broadcast) ∧
    (s.exitBatch c maxN).notEmpty = s.notEmpty.leave c := by
  have ⟨out, q', hq, hcap, hn⟩ := s.queue.ringPopBatch_exit maxN
  simp only [exitBatch, hq]
  exact ⟨hcap, hn, by split <;> tauto, trivial⟩

theorem push_of_not_full {p : Fin n} {f : EnvFrame} {wait : Bool} {wakes : Option (Fin m)}
    (hq : ¬s.queue.IsFull) (h : s.push p f wait wakes = some s') (hr : s.notEmpty.AllAwake) :
    s'.queue = s.queue.write f ∧ s'.notFull = s.notFull.leave p ∧ s'.notEmpty = s.notEmpty := by
  rw [push, ringPush_of_not_full hq] at h
  obtain ⟨cv, hw, rfl⟩ := Option.map_eq_some_iff.mp h
  refine ⟨rfl, rfl, ?_⟩
  cases wakes
  case none   => exact (Option.some.inj <| hr.signal_none.symm.trans hw).symm
  case some c => exact absurd (Option.ite_none_right_eq_some.mp hw).left (hr c)

theorem demand_congr (h : s'.notEmpty = s.notEmpty) : s'.demand = s.demand := by
  funext c
  rw [demand, demand, h]

theorem sum_demand_leave {c : Fin m} {maxN : UInt32} (hc : s.notEmpty c = .woken maxN)
    (h : s'.notEmpty = s.notEmpty.leave c) (C : Finset (Fin m)) :
    maxN.toNat + ∑ i ∈ C, s'.demand i = ∑ i ∈ insert c C, s.demand i := by
  have hz : s'.demand c = 0 := by simp [demand, h, CondVar.leave]
  have hs : ∑ i ∈ C.erase c, s'.demand i = ∑ i ∈ C.erase c, s.demand i := by
    refine Finset.sum_congr rfl fun i hi => ?_
    simp [demand, h, CondVar.leave, Finset.ne_of_mem_erase hi]
  rw [← Finset.sum_erase C hz, hs, ← Finset.insert_erase (Finset.mem_insert_self c C),
    Finset.sum_insert (Finset.notMem_erase _ _), Finset.erase_insert_eq_erase, demand, hc]

theorem Awaited.step (hi : s.Awaited) (h : exitStep s a = some s') : s'.Awaited := by
  obtain ⟨hr, hf, he⟩ := hi
  cases turn h
  case producer p f wait wakes hp h =>
    have hb : s.notFull p ≠ .ready := by simp [hp]
    have hc := CondVar.card_blocked_leave hb
    have hq : ¬s.queue.IsFull := by
      have h₀ := hr ∅
      rw [Finset.sum_empty, ← hc] at h₀
      rw [← roomAfter_eq_zero_iff]
      omega
    obtain ⟨h₁, h₂, h₃⟩ := push_of_not_full hq h he
    refine ⟨fun C => ?_, h₂ ▸ hf.leave p, h₃ ▸ he⟩
    rw [h₁, h₂, demand_congr h₃]
    exact roomAfter_write (q := s.queue) rfl rfl (hc ▸ hr ∅) (hc ▸ hr C)
  case consumer c maxN hc =>
    obtain ⟨h₁, h₂, h₃, h₄⟩ := s.exitBatch_cases c maxN
    have hb : (s.exitBatch c maxN).notFull = s.notFull := by
      cases h₃
      case inl h₃ => exact h₃
      case inr h₃ => rw [h₃, hf.broadcast_eq]
    refine ⟨fun C => ?_, hb ▸ hf, h₄ ▸ he.leave c⟩
    -- The consumer has run first: it belongs to those that run before the producers.
    rw [hb, roomAfter_pop h₁ h₂, sum_demand_leave hc h₄]
    exact hr _

def Safe (s : RingMonitor n m) : Prop :=
  ∀ as, exitStep.Always s as Released

theorem Safe.step (h : s.Safe) (hs : exitStep s a = some s') : s'.Safe :=
  fun as => (h <| a :: as).tail hs

theorem Awaited.safe (h : s.Awaited) : s.Safe := by
  intro as bs s' hp hs
  have hi : s'.Awaited := Transition.always_of_preserved h Awaited.step as bs s' hp hs
  exact hi.released

theorem Safe.notFull_woken {p : Fin n} (h : s.Safe) (hp : s.notFull p ≠ .ready) :
    ∃ f, s.notFull p = .woken f := by
  have hr := (h []).head.left p
  cases hf : s.notFull p
  case ready    => exact absurd hf hp
  case asleep f => simp [hf, Waiter.IsAsleep] at hr
  case woken f  => exact ⟨f, rfl⟩

theorem Safe.card_le {r : Nat} (h : s.Safe) (hn : s.WaitsNormal) (hr : s.queue.roomAfter 0 = r) :
    s.notFull.blocked.card ≤ r := by
  induction r generalizing s
  case zero =>
    rw [Nat.le_zero, Finset.card_eq_zero, Finset.eq_empty_iff_forall_notMem]
    intro p hp
    have ⟨f, hf⟩ := h.notFull_woken <| CondVar.mem_blocked.mp hp
    have hb := ringPush_blocks (roomAfter_eq_zero_iff.mp hr) <| hn p f <| .inr hf
    have hs : exitStep s (.resume p true none) =
        some { s with notFull := s.notFull.wait p f } := by
      simp [exitStep, ringMonitorStep, hf, push, hb]
    have ha := ((h.step hs) []).head.left p
    simp [CondVar.wait, Waiter.IsAsleep] at ha
  case succ r hi =>
    by_cases he : ∃ p, s.notFull p ≠ .ready
    case neg =>
      have hb : s.notFull.blocked = ∅ := by
        simpa [Finset.eq_empty_iff_forall_notMem, CondVar.mem_blocked] using he
      simp [hb]
    case pos =>
      obtain ⟨p, hp⟩ := he
      obtain ⟨f, hf⟩ := h.notFull_woken hp
      have hq : ¬s.queue.IsFull := by
        rw [← roomAfter_eq_zero_iff, hr]
        exact Nat.succ_ne_zero r
      have hs : exitStep s (.resume p true none) =
          some { s with queue := s.queue.write f, notFull := s.notFull.leave p } := by
        simp [exitStep, ringMonitorStep, hf, push, wrote, ringPush_of_not_full hq,
          (h []).head.right.signal_none]
      rw [← CondVar.card_blocked_leave hp]
      exact Nat.succ_le_succ <| hi (h.step hs) (hn.leave p) <| roomAfter_write_zero hr

theorem Safe.consumers (h : s.Safe) (C : Finset (Fin m)) :
    ∃ s' : RingMonitor n m, s'.Safe ∧ s'.notFull = s.notFull ∧ s'.queue.capacity = s.queue.capacity ∧
      s'.queue.count.toNat = s.queue.count.toNat - ∑ c ∈ C, s.demand c ∧
      ∀ c ∉ C, s'.notEmpty c = s.notEmpty c := by
  induction C using Finset.induction_on
  case empty => exact ⟨s, h, rfl, rfl, by simp, fun _ _ => rfl⟩
  case insert c C hc hi =>
    obtain ⟨s', h, hf, hcap, hn, he⟩ := hi
    have hec := he c hc
    have hd : ∀ {s₁ : RingMonitor n m}, (∀ i, i ≠ c → s₁.notEmpty i = s'.notEmpty i) →
        ∀ i ∉ insert c C, s₁.notEmpty i = s.notEmpty i := by
      intro s₁ h₁ i hi
      rw [Finset.mem_insert, not_or] at hi
      exact (h₁ i hi.left).trans (he i hi.right)
    rw [Finset.sum_insert hc]
    cases hw : s.notEmpty c
    case ready =>
      have hz : s.demand c = 0 := by simp [demand, hw]
      exact ⟨s', h, hf, hcap, by rw [hn, hz, Nat.zero_add], hd fun _ _ => rfl⟩
    case asleep maxN =>
      have ha := (h []).head.right c
      simp [hec, hw, Waiter.IsAsleep] at ha
    case woken maxN =>
      obtain ⟨h₁, h₂, h₃, h₄⟩ := s'.exitBatch_cases c maxN
      have hs : exitStep s' (.repop c) = some (s'.exitBatch c maxN) := by
        simp [exitStep, hec, hw]
      have hz : s.demand c = maxN.toNat := by simp [demand, hw]
      refine ⟨_, h.step hs, ?_, h₁.trans hcap, by omega, hd fun i hi => ?_⟩
      · cases h₃
        case inl h₃ => exact h₃.trans hf
        case inr h₃ => rw [h₃, (h []).head.left.broadcast_eq, hf]
      · simp [h₄, CondVar.leave, hi]

theorem safe_iff (hn : s.WaitsNormal) (hr : s.Released) : s.Safe ↔ s.Roomy := by
  refine ⟨fun h C => ?_, fun h => Awaited.safe ⟨h, hr⟩⟩
  obtain ⟨s', h, hf, hcap, hc, _⟩ := h.consumers C
  have hr := roomAfter_pop (k := 0) hcap hc
  rw [Nat.add_zero] at hr
  exact hf ▸ h.card_le (by rwa [WaitsNormal, hf]) hr

theorem roomy_wakeAll : s.wakeAll.Roomy ↔ s.Roomy := by
  have hd : s.wakeAll.demand = s.demand := by
    funext c
    simp only [demand, wakeAll, CondVar.broadcast]
    cases s.notEmpty c <;> rfl
  have hb : s.wakeAll.notFull.blocked = s.notFull.blocked := CondVar.blocked_broadcast
  rw [Roomy, hd, hb]
  rfl

theorem roomy_iff (hc : s.queue.count ≤ s.queue.capacity) :
    s.Roomy ↔ s.notFull.blocked.card ≤ s.queue.capacity.toNat - s.queue.count.toNat := by
  have := s.queue.capacity_le
  rw [UInt32.le_iff_toNat_le] at hc
  refine ⟨fun h => ?_, fun h C => ?_⟩
  · have h := h ∅
    simp only [Finset.sum_empty, roomAfter] at h
    omega
  · rw [roomAfter]
    omega

theorem push_waitsNormal {p : Fin n} {f : EnvFrame} {wait : Bool} {wakes : Option (Fin m)}
    (hn : s.WaitsNormal) (h : s.push p f wait wakes = some s') : s'.WaitsNormal := by
  unfold push at h
  split at h
  case h_2 q hq =>
    obtain ⟨_, _, rfl⟩ := Option.map_eq_some_iff.mp h
    exact hn.leave p
  case h_1 hq =>
    have hf : ¬f.IsAlarm := by
      intro hf
      rw [ringPush_alarm (ringPush_isFull hq) hf] at hq
      contradiction
    cases h
    cases wait
    case true  => exact CondVar.Calls.wait hn p hf
    case false => exact hn.leave p

theorem popBatch_waitsNormal {c : Fin m} {k : UInt32} (hn : s.WaitsNormal) :
    (s.popBatch c k).WaitsNormal := by
  unfold popBatch
  split
  case h_1 => exact hn
  case h_2 => exact hn.broadcast

theorem step_waitsNormal (hn : s.WaitsNormal) (h : ringMonitorStep s a = some s') :
    s'.WaitsNormal := by
  cases a <;> simp only [ringMonitorStep] at h
  case push p f wait wakes =>
    split at h
    case h_1 => exact push_waitsNormal hn h
    case h_2 => cases h
  case resume p wait wakes =>
    split at h
    case h_1 => exact push_waitsNormal hn h
    case h_2 => cases h
  case pushTry p f wakes =>
    split at h
    case h_2 => cases h
    case h_1 =>
      simp only [pushTry] at h
      split at h
      case isFalse => cases h; exact hn.leave p
      case isTrue  =>
        obtain ⟨_, _, rfl⟩ := Option.map_eq_some_iff.mp h
        exact hn.leave p
  case popBatch c k =>
    split at h <;> cases h
    exact popBatch_waitsNormal hn
  case repop c =>
    split at h <;> cases h
    exact popBatch_waitsNormal hn
  case spurious t =>
    cases t <;> cases h
    case inl p => exact hn.wake p
    case inr c => exact hn
  case wakeAll => cases h; exact hn.broadcast

theorem always_waitsNormal (q : RingQueue) (as : List (MonitorAct n m)) :
    ringMonitorStep.Always (initial n m q) as WaitsNormal :=
  Transition.always_of_preserved (by simp [WaitsNormal, CondVar.Calls, initial]) step_waitsNormal as

end RingMonitor

-- No thread goes back to sleep after `ring_wake_all`, in whichever order they run, exactly if there is
-- room for the frames of all producers that are blocked.
theorem wake_all_releases_iff {n m : Nat} (s : RingMonitor n m) (hn : s.WaitsNormal) :
    ((∀ as, exitStep.Always s.wakeAll as Released) ↔ s.Roomy) ∧
    (s.queue.count ≤ s.queue.capacity →
      ((∀ as, exitStep.Always s.wakeAll as Released) ↔
        s.notFull.blocked.card ≤ s.queue.capacity.toNat - s.queue.count.toNat)) := by
  have hs : (∀ as, exitStep.Always s.wakeAll as Released) ↔ s.Roomy := by
    have hr : s.wakeAll.Released := ⟨CondVar.broadcast_allAwake, CondVar.broadcast_allAwake⟩
    exact (safe_iff (s := s.wakeAll) hn.broadcast hr).trans roomy_wakeAll
  exact ⟨hs, fun hc => hs.trans <| roomy_iff hc⟩

-- A producer has written a frame, and is blocked with a second one.
def blockedProducer : RingMonitor 1 0 where
  queue    := sampleRing.write .zero
  notFull  := ((initial 1 0 sampleRing).notFull.leave <| .last 0).wait (.last 0) .zero
  notEmpty := (initial 1 0 sampleRing).notEmpty

theorem exec_blockedProducer :
    ringMonitorStep.exec (initial 1 0 sampleRing)
      [.push 0 .zero true none, .push 0 .zero true none] = some blockedProducer :=
  rfl

theorem wake_all_releases_iff_blocked :
    (∀ as, exitStep.Always blockedProducer.wakeAll as Released) ↔
    blockedProducer.notFull.blocked.card ≤ 1 - 1 :=
  have h := wake_all_releases_iff blockedProducer <|
    always_waitsNormal sampleRing _ _ _ List.prefix_rfl exec_blockedProducer
  h.right <| by decide

-- The producer does not look at `g_running`, and waits once more.
theorem wake_all_releases_false :
    ¬∀ (n m : Nat) (cap : UInt32) (alloc : Bool) (q : RingQueue), ringInit cap alloc = some q →
      ∀ (bs : List (MonitorAct n m)) (s : RingMonitor n m),
        ringMonitorStep.exec (.initial n m q) bs = some s →
        ∀ as, exitStep.Always s.wakeAll as Released := by
  intro h
  have h := h 1 0 1 true sampleRing ringInit_one _ blockedProducer exec_blockedProducer
    [.resume 0 true none] _ _ List.prefix_rfl rfl
  have ha := h.left 0
  simp [CondVar.wait, Waiter.IsAsleep] at ha

end IotCollector
