import IotCollector.Main.Theorems.Steps
import IotCollector.Pipeline.Theorems.Ordering
import IotCollector.Pipeline.Theorems.RingHistory

namespace IotCollector.Pipeline

variable {D : Type*} [DoubleArith D] {n : Nat} {s s' : Pipeline n} {a : PipelineAct n}
variable {q1 q2 : RingQueue}

def AllExited (s : Pipeline n) : Prop :=
  ∀ i, s.workers i = .exited

def Flushed (s : Pipeline n) : Prop :=
  s.q2.queue.contents = []

def Stranded (s : Pipeline n) : Prop :=
  s.AllExited ∧ ¬s.Flushed

def PushesLate (s : Pipeline n) : PipelineAct n → Prop
  | .cleaner _ => (∃ f fs, s.cleaning = .pushing f fs) ∧ s.AllExited
  | _          => False

inductive OnQ2 (s : Pipeline n) (a : PipelineAct n) (s' : Pipeline n) : Prop
  | quiet :
      s'.q2 = s.q2 → s'.workers = s.workers → s'.main = s.main → ¬s.PushesLate a → OnQ2 s a s'
  | push (f : EnvFrame) :
      s'.q2 = (s.q2.pushTry f).snd → s'.workers = s.workers → s'.main = s.main →
      (s.AllExited → s.PushesLate a) → OnQ2 s a s'
  | pop (i : Fin n) (out : List EnvFrame) (pc : DispatchPc) :
      s.workers i ≠ .exited → s.q2.popBatch s.running ringqBatch = some (out, s'.q2) →
      s'.workers = Function.update s.workers i pc → (pc = .exited → out = []) →
      s'.main = s.main → ¬s.PushesLate a → OnQ2 s a s'
  | move (i : Fin n) (pc : DispatchPc) :
      s.workers i ≠ .exited → pc ≠ .exited → s'.q2 = s.q2 →
      s'.workers = Function.update s.workers i pc → s'.main = s.main → ¬s.PushesLate a → OnQ2 s a s'
  | main :
      s'.q2 = s.q2 → s'.workers = s.workers → s.mainStep = some s' → ¬s.PushesLate a → OnQ2 s a s'

theorem onQ2 (h : pipelineStep D s a = some s') : OnQ2 s a s' := by
  cases a
  case signal =>
    cases h
    exact .quiet rfl rfl rfl id
  case ingress proto f =>
    obtain ⟨_, rfl⟩ := ingressStep_frame h
    exact .quiet rfl rfl rfl id
  case cleaner alloc =>
    have h : s.cleanerStep D alloc = some s' := h
    unfold cleanerStep at h
    split at h
    case h_1 hc => cases h; exact .quiet rfl rfl rfl (by simp [PushesLate, hc])
    case h_2 hc =>
      obtain ⟨r, -, rfl⟩ := Option.map_eq_some_iff.mp h
      split <;> exact .quiet rfl rfl rfl (by simp [PushesLate, hc])
    case h_3 hc => cases h; exact .quiet rfl rfl rfl (by simp [PushesLate, hc])
    case h_4 hc =>
      dsimp only at h
      split at h <;> cases h <;> exact .quiet rfl rfl rfl (by simp [PushesLate, hc])
    case h_5 f fs hc => cases h; exact .push f rfl rfl rfl fun he => ⟨⟨f, fs, hc⟩, he⟩
    case h_6 => cases h
  case worker i =>
    have h : s.workerStep i = some s' := h
    unfold workerStep at h
    split at h
    case h_1 hw =>
      obtain ⟨r, hr, rfl⟩ := Option.map_eq_some_iff.mp h
      have hl : s.workers i ≠ .exited := by simp [hw]
      split
      case h_1 out ho => exact .pop i r.fst _ hl hr rfl (fun _ => ho) rfl id
      case h_2 out ho => exact .pop i r.fst _ hl hr rfl nofun rfl id
    case h_2 hw => cases h; exact .move i .popping (by simp [hw]) nofun rfl rfl rfl id
    case h_3 fs hw => cases h; exact .move i (.dispatching fs) (by simp [hw]) nofun rfl rfl rfl id
    case h_4 => cases h
  case main =>
    obtain ⟨_, _, hs⟩ := mainStep_frame h
    exact .main (hs ▸ rfl) (hs ▸ rfl) h id

theorem allExited_congr (h : s'.workers = s.workers) : s'.AllExited ↔ s.AllExited := by
  rw [AllExited, AllExited, h]

theorem not_allExited {i : Fin n} (h : s.workers i ≠ .exited) : ¬s.AllExited :=
  fun he => h (he i)

structure Joins (s : Pipeline n) : Prop where
  lawful  : s.q2.Lawful
  joining : ∀ k, s.main = .joining k → ∀ i : Fin n, i < k → s.workers i = .exited
  joined  : s.main = .joined → s.AllExited

theorem Joins.of_workers (j : s.Joins) {i : Fin n} {pc : DispatchPc} (hl : s'.q2.Lawful)
    (hi : s.workers i ≠ .exited) (hw : s'.workers = Function.update s.workers i pc)
    (hm : s'.main = s.main) : s'.Joins where
  lawful := hl
  joining k hk l hlk := by
    have he := j.joining k (hm ▸ hk) l hlk
    rw [hw, Function.update_of_ne, he]
    rintro rfl
    exact hi he
  joined hj := absurd (j.joined (hm ▸ hj) i) hi

theorem Joins.main (j : s.Joins) (h : s.mainStep = some s') (hq : s'.q2 = s.q2)
    (hw : s'.workers = s.workers) : s'.Joins := by
  have hl : s'.q2.Lawful := hq ▸ j.lawful
  unfold mainStep at h
  split at h
  case h_4 hm =>
    cases h
    refine ⟨hl, fun k hk i hi => ?_, nofun⟩
    cases hk
    exact absurd hi (Nat.not_lt_zero _)
  case h_5 k hm =>
    split at h
    case isTrue hk =>
      split at h <;> cases h
      case isTrue he =>
      refine ⟨hl, fun k' hk' i hi => ?_, nofun⟩
      cases hk'
      cases Nat.lt_succ_iff_lt_or_eq.mp hi
      case inl hi => exact j.joining k hm i hi
      case inr hi => simpa [← hi] using he
    case isFalse hk =>
      cases h
      exact ⟨hl, nofun, fun _ i => j.joining k hm i <| Nat.lt_of_lt_of_le i.isLt <| Nat.not_lt.mp hk⟩
  all_goals
    (try split at h) <;> cases h <;> exact ⟨hl, nofun, nofun⟩

theorem Joins.step (j : s.Joins) (h : pipelineStep D s a = some s') : s'.Joins := by
  cases onQ2 h
  case quiet hq hw hm _ =>
    exact ⟨hq ▸ j.lawful, hm ▸ hw ▸ j.joining, fun hj => (allExited_congr hw).mpr <| j.joined (hm ▸ hj)⟩
  case push f hq hw hm _ =>
    exact ⟨hq ▸ j.lawful.pushTry f, hm ▸ hw ▸ j.joining,
      fun hj => (allExited_congr hw).mpr <| j.joined (hm ▸ hj)⟩
  case pop i out pc hi hp hw _ hm _ => exact j.of_workers (j.lawful.popBatch hp) hi hw hm
  case move i pc hi _ hq hw hm _ => exact j.of_workers (hq ▸ j.lawful) hi hw hm
  case main hq hw hm _ => exact j.main hm hq hw

theorem initial_joins {cap : UInt32} {alloc : Bool} (h : ringInit cap alloc = some q2) :
    (initial n q1 q2).Joins :=
  ⟨RingHistory.init_lawful h, nofun, nofun⟩

theorem Joins.strands (j : s.Joins) (hp : s.PushesLate a) (h : pipelineStep D s a = some s') :
    s'.Stranded := by
  cases onQ2 h
  case push f hq hw _ _ =>
    have he : s.AllExited := by
      cases a <;> first | exact hp.right | exact hp.elim
    rw [Stranded, Flushed, hq, allExited_congr hw]
    exact ⟨he, ringPushTry_contents_ne_nil j.lawful.wellFormed f⟩
  all_goals contradiction

theorem Joins.not_stranded (j : s.Joins) (hs : ¬s.Stranded) (hp : ¬s.PushesLate a)
    (h : pipelineStep D s a = some s') : ¬s'.Stranded := by
  rintro ⟨he, hf⟩
  cases onQ2 h
  case quiet hq hw _ _ => exact hs ⟨(allExited_congr hw).mp he, by simpa [Flushed, hq] using hf⟩
  case main hq hw _ _ => exact hs ⟨(allExited_congr hw).mp he, by simpa [Flushed, hq] using hf⟩
  case push f _ hw _ hl => exact hp <| hl <| (allExited_congr hw).mp he
  case move i pc _ hpc _ hw _ _ =>
    have := he i
    rw [hw, Function.update_self] at this
    exact hpc this
  case pop i out pc _ hq hw ho _ _ =>
    have hpc := he i
    rw [hw, Function.update_self] at hpc
    exact hf <| RingHistory.popBatch_nil j.lawful.wellFormed (by decide) (ho hpc ▸ hq)

theorem Joins.stranded (j : s.Joins) (hs : s.Stranded) (h : pipelineStep D s a = some s') :
    s'.Stranded := by
  have ⟨he, hf⟩ := hs
  cases onQ2 h
  case quiet hq hw _ _ => exact ⟨(allExited_congr hw).mpr he, by simpa [Flushed, hq] using hf⟩
  case main hq hw _ _ => exact ⟨(allExited_congr hw).mpr he, by simpa [Flushed, hq] using hf⟩
  case push f _ _ _ hl => exact j.strands (hl he) h
  case move i _ hi _ _ _ _ _ => exact absurd he <| not_allExited hi
  case pop i _ _ hi _ _ _ _ _ => exact absurd he <| not_allExited hi

theorem initial_not_stranded {cap : UInt32} {alloc : Bool} (h : ringInit cap alloc = some q2) :
    ¬(initial n q1 q2).Stranded :=
  fun hs => hs.right <| ringInit_contents h

section Run

variable {cap : UInt32} {alloc : Bool} {as : List (PipelineAct n)}

theorem exec_joins (hq : ringInit cap alloc = some q2)
    (hs : (pipelineStep D).exec (initial n q1 q2) as = some s) : s.Joins :=
  Transition.always_of_preserved (initial_joins hq) Joins.step as as s List.prefix_rfl hs

theorem never_stranded_iff (hq : ringInit cap alloc = some q2) (as : List (PipelineAct n)) :
    (pipelineStep D).Always (initial n q1 q2) as (¬·.Stranded) ↔
    (pipelineStep D).Guarded (initial n q1 q2) as (¬·.PushesLate ·) :=
  Transition.always_iff_guarded (I := fun s => s.Joins ∧ ¬s.Stranded)
    ⟨initial_joins hq, initial_not_stranded hq⟩ And.right
    (fun i hp h => ⟨i.left.step h, i.left.not_stranded i.right hp h⟩)
    (fun i h hn hp => hn <| i.left.strands hp h)

theorem never_stranded_iff_last (hq : ringInit cap alloc = some q2)
    (hs : (pipelineStep D).exec (initial n q1 q2) as = some s) :
    (pipelineStep D).Always (initial n q1 q2) as (¬·.Stranded) ↔ ¬s.Stranded :=
  Transition.never_iff_last (initial_joins hq) Joins.step Joins.stranded hs

end Run

-- When `dispatcher_join` has returned, Q2 is empty exactly if the cleaner was in time all along.
theorem flushed_iff (D : Type*) [DoubleArith D] {n : Nat} {q1 q2 : RingQueue} {cap : UInt32}
    {alloc : Bool} (hq : ringInit cap alloc = some q2) {as : List (PipelineAct n)} {s : Pipeline n}
    (hs : (pipelineStep D).exec (initial n q1 q2) as = some s) (hj : s.main = .joined) :
    (s.Flushed ∧ s.q2.accepted.Perm (s.q2.popped ++ s.q2.evicted)) ↔
    (pipelineStep D).Guarded (initial n q1 q2) as (¬·.PushesLate ·) := by
  have j := exec_joins hq hs
  rw [← never_stranded_iff hq, never_stranded_iff_last hq hs]
  constructor
  case mp  => exact fun hf hst => hst.right hf.left
  case mpr =>
    intro hn
    have hf : s.Flushed := not_not.mp fun hf => hn ⟨j.joined hj, hf⟩
    have hc := j.lawful.conserve
    rw [show s.q2.queue.contents = [] from hf, List.append_nil] at hc
    exact ⟨hf, hc⟩

def defaultRing : RingQueue :=
  (ringInit 4096 true).get (by decide)

theorem ringInit_default : ringInit 4096 true = some defaultRing :=
  (Option.some_get _).symm

-- The signal comes while the cleaner has the only frame in its hands. Both workers find Q2 empty and
-- leave, and then the cleaner pushes the frame.
def lateFlush : List (PipelineAct 2) :=
  [.ingress 0 (frameAt 100), .cleaner true, .cleaner true, .signal, .worker 0, .worker 1,
   .cleaner true, .cleaner true, .cleaner true, .cleaner true] ++ List.replicate 7 .main

theorem exec_lateFlush (D : Type*) [DoubleArith D] :
    ∃ s, (pipelineStep D).exec (initial 2 defaultRing defaultRing) lateFlush = some s ∧
      s.main = .joined ∧ s.q2.queue.count = 1 :=
  ⟨_, rfl, rfl, rfl⟩

theorem flushed_iff_late :
    ∃ s, (pipelineStep Float).exec (initial 2 defaultRing defaultRing) lateFlush = some s ∧
      ((s.Flushed ∧ s.q2.accepted.Perm (s.q2.popped ++ s.q2.evicted)) ↔
       (pipelineStep Float).Guarded (initial 2 defaultRing defaultRing) lateFlush
         (¬·.PushesLate ·)) :=
  have ⟨s, hs, hj, _⟩ := exec_lateFlush Float
  ⟨s, hs, flushed_iff Float ringInit_default hs hj⟩

theorem flushed_false :
    ¬∃ (D : Type) (_ : DoubleArith D), ∀ (n : Nat) (cap₁ cap₂ : UInt32) (q1 q2 : RingQueue),
      ringInit cap₁ true = some q1 → ringInit cap₂ true = some q2 →
      ∀ as s, (pipelineStep D).exec (initial n q1 q2) as = some s → s.main = .joined →
        s.Flushed := by
  rintro ⟨D, _, h⟩
  have ⟨s, hs, hj, hc⟩ := exec_lateFlush D
  have hf := h 2 4096 4096 _ _ ringInit_default ringInit_default lateFlush s hs hj
  have hl := congrArg List.length (show s.q2.queue.contents = [] from hf)
  rw [RingQueue.contents_length, hc] at hl
  exact absurd hl (by decide)

end IotCollector.Pipeline
