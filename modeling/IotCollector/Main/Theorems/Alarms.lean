import IotCollector.Main.Theorems.Accounting
import IotCollector.Main.Theorems.Flush

namespace IotCollector.Pipeline

variable {D : Type*} [DoubleArith D] {n : Nat} {s s' : Pipeline n} {a : PipelineAct n}
variable {q1 q2 : RingQueue}

def given (s : Pipeline n) : PipelineAct n → List EnvFrame
  | .cleaner _ =>
    match s.cleaning with
    | .cleaning (f :: _) => [f]
    | _                  => []
  | _ => []

def Abandoned (s : Pipeline n) : Prop :=
  s.cleaning = .exited ∧ s.q1.HoldsAlarm

-- The cleaner finds the flag down when it comes back for the next batch, with an alarm in Q1, or an
-- ingress thread comes with an alarm when the cleaner is gone.
def Abandons (s : Pipeline n) : PipelineAct n → Prop
  | .cleaner _   => s.cleaning = .top ∧ ¬s.running ∧ s.q1.HoldsAlarm
  | .ingress _ f => s.cleaning = .exited ∧ f.IsAlarm
  | _            => False

inductive OnQ1 (s : Pipeline n) (a : PipelineAct n) (s' : Pipeline n) : Prop
  | quiet :
      s'.q1 = s.q1 → s'.cleaning = s.cleaning → s'.main = s.main → ¬s.Abandons a → OnQ1 s a s'
  | push (f : EnvFrame) :
      s'.q1 = (s.q1.pushTry f).snd → s'.cleaning = s.cleaning → s'.main = s.main →
      (s.Abandons a ↔ s.cleaning = .exited ∧ f.IsAlarm) → OnQ1 s a s'
  | leave :
      s.cleaning = .top → s'.cleaning = .exited → s'.q1 = s.q1 → s'.main = s.main →
      (s.Abandons a ↔ s.q1.HoldsAlarm) → OnQ1 s a s'
  | pop (out : List EnvFrame) :
      s.cleaning = .popping → s.q1.popBatch s.running ringqBatch = some (out, s'.q1) →
      (s'.cleaning = .exited → out = []) → s'.main = s.main → ¬s.Abandons a → OnQ1 s a s'
  | work :
      s.cleaning ≠ .exited → s'.cleaning ≠ .exited → s'.q1 = s.q1 → s'.main = s.main →
      ¬s.Abandons a → OnQ1 s a s'
  | main :
      s'.q1 = s.q1 → s'.cleaning = s.cleaning → s.mainStep = some s' → ¬s.Abandons a → OnQ1 s a s'

theorem onQ1 (h : pipelineStep D s a = some s') : OnQ1 s a s' := by
  cases a
  case signal =>
    cases h
    exact .quiet rfl rfl rfl id
  case ingress proto f =>
    obtain ⟨_, rfl⟩ := ingressStep_frame h
    exact .push f rfl rfl rfl .rfl
  case cleaner alloc =>
    have h : s.cleanerStep D alloc = some s' := h
    unfold cleanerStep at h
    split at h
    case h_1 hc =>
      cases h
      by_cases hr : s.running
      case pos => exact .work (by simp [hc]) (by simp [hr]) rfl rfl (by simp [Abandons, hr])
      case neg => exact .leave hc (by simp [hr]) rfl rfl (by simp [Abandons, hc, hr])
    case h_2 hc =>
      have hn : ¬s.Abandons (.cleaner alloc) := by simp [Abandons, hc]
      obtain ⟨r, hr, rfl⟩ := Option.map_eq_some_iff.mp h
      split
      case h_1 ho => exact .pop r.fst hc hr (fun _ => ho) rfl hn
      case h_2 ho => exact .pop r.fst hc hr (by simp) rfl hn
    case h_3 hc => cases h; exact .work (by simp [hc]) (by simp) rfl rfl (by simp [Abandons, hc])
    case h_4 hc =>
      dsimp only at h
      split at h <;> cases h <;>
        exact .work (by simp [hc]) (by simp) rfl rfl (by simp [Abandons, hc])
    case h_5 hc => cases h; exact .work (by simp [hc]) (by simp) rfl rfl (by simp [Abandons, hc])
    case h_6 => cases h
  case worker i =>
    obtain ⟨_, _, rfl, _⟩ := workerStep_frame h
    exact .quiet rfl rfl rfl id
  case main =>
    obtain ⟨_, _, hs⟩ := mainStep_frame h
    exact .main (hs ▸ rfl) (hs ▸ rfl) h id

-- The unconditional part of the invariant. Behind the join of the cleaner, the cleaner is gone.
structure Winds (s : Pipeline n) : Prop where
  lawful : s.q1.Lawful
  joined : s.main = .running ∨ s.main = .joinIngress ∨ s.main = .joinCleaner ∨ s.cleaning = .exited

theorem Winds.main (w : s.Winds) (h : s.mainStep = some s') (hq : s'.q1 = s.q1)
    (hc : s'.cleaning = s.cleaning) : s'.Winds := by
  have hj := w.joined
  refine ⟨hq ▸ w.lawful, ?_⟩
  rw [hc]
  unfold mainStep at h
  split at h <;> (try split at h) <;> (try split at h) <;> cases h <;> simp_all

theorem Winds.step (w : s.Winds) (h : pipelineStep D s a = some s') : s'.Winds := by
  cases onQ1 h
  case quiet hq hc hm _ => exact ⟨hq ▸ w.lawful, hm ▸ hc ▸ w.joined⟩
  case push f hq hc hm _ => exact ⟨hq ▸ w.lawful.pushTry f, hm ▸ hc ▸ w.joined⟩
  case leave hc hq _ _ => exact ⟨hq ▸ w.lawful, by simp [hc]⟩
  case pop out hc hp _ hm _ =>
    have hj := w.joined
    exact ⟨w.lawful.popBatch hp, by grind⟩
  case work hc _ hq hm _ =>
    have hj := w.joined
    exact ⟨hq ▸ w.lawful, by grind⟩
  case main hq hc hm _ => exact w.main hm hq hc

theorem initial_winds {cap : UInt32} {alloc : Bool} (h : ringInit cap alloc = some q1) :
    (initial n q1 q2).Winds :=
  ⟨RingHistory.init_lawful h, .inl rfl⟩

theorem initial_not_abandoned : ¬(initial n q1 q2).Abandoned :=
  nofun

theorem Winds.abandons (w : s.Winds) (ha : s.Abandons a) (h : pipelineStep D s a = some s') :
    s'.Abandoned := by
  cases onQ1 h
  case push f hq hc _ hi =>
    have ⟨he, hf⟩ := hi.mp ha
    refine ⟨hc.trans he, ?_⟩
    rw [hq]
    exact w.lawful.holdsAlarm_pushTry_iff f |>.mpr <| .inr hf
  case leave hc hq _ hi =>
    refine ⟨hc, ?_⟩
    rw [hq]
    exact hi.mp ha
  all_goals contradiction

theorem Winds.not_abandoned (w : s.Winds) (hn : ¬s.Abandoned) (ha : ¬s.Abandons a)
    (h : pipelineStep D s a = some s') : ¬s'.Abandoned := by
  rintro ⟨he, hl⟩
  cases onQ1 h
  case quiet hq hc _ _ => exact hn ⟨hc ▸ he, hq ▸ hl⟩
  case main hq hc _ _ => exact hn ⟨hc ▸ he, hq ▸ hl⟩
  case push f hq hc _ hi =>
    have he : s.cleaning = .exited := hc ▸ he
    cases w.lawful.holdsAlarm_pushTry_iff f |>.mp (hq ▸ hl)
    case inl hl => exact hn ⟨he, hl⟩
    case inr hf => exact ha <| hi.mpr ⟨he, hf⟩
  case leave _ hq _ hi => exact ha <| hi.mpr <| hq ▸ hl
  case work hc _ _ _ => exact hc he
  case pop out _ hp ho _ _ =>
    have ⟨g, hg, _⟩ := hl
    have hz := RingHistory.popBatch_nil w.lawful.wellFormed (by decide) (ho he ▸ hp)
    simp [hz] at hg

theorem Winds.abandoned (w : s.Winds) (hb : s.Abandoned) (h : pipelineStep D s a = some s') :
    s'.Abandoned := by
  have ⟨he, hl⟩ := hb
  cases onQ1 h
  case quiet hq hc _ _ => exact ⟨hc.trans he, hq.symm ▸ hl⟩
  case main hq hc _ _ => exact ⟨hc.trans he, hq.symm ▸ hl⟩
  case push f hq hc _ _ => exact ⟨hc.trans he, hq.symm ▸ w.lawful.holdsAlarm_pushTry f hl⟩
  case leave hc _ _ _ _ => cases hc.symm.trans he
  case pop hc _ _ _ _ => cases hc.symm.trans he
  case work hc _ _ _ _ => exact absurd he hc

-- What the cleaner has been given, and what it has in hand, is what it has taken out of Q1.
def Gives (s : Pipeline n) (fs : List EnvFrame) : Prop :=
  fs ++ s.cleaning.inHand = s.q1.popped

variable {fs : List EnvFrame}

theorem Gives.congr (g : s.Gives fs) (hg : s.given a = []) (hq : s'.q1.popped = s.q1.popped)
    (hc : s'.cleaning.inHand = s.cleaning.inHand) : s'.Gives (fs ++ s.given a) := by
  rw [Gives, hg, List.append_nil, hq, hc]
  exact g

theorem Gives.cleanerStep {alloc : Bool} (g : s.Gives fs) (h : s.cleanerStep D alloc = some s') :
    s'.Gives (fs ++ s.given (.cleaner alloc)) := by
  unfold Pipeline.cleanerStep at h
  split at h
  case h_1 hc =>
    cases h
    refine g.congr (by simp [given, hc]) rfl ?_
    rw [hc]
    dsimp only
    split <;> rfl
  case h_2 hc =>
    obtain ⟨⟨out, q⟩, hr, rfl⟩ := Option.map_eq_some_iff.mp h
    have hp : q.popped = s.q1.popped ++ out := RingHistory.popBatch_lists hr |>.left
    have hi : fs = s.q1.popped := by simpa [Gives, hc, CleaningPc.inHand] using g
    cases out
    case nil =>
      simp only [Gives, given, hc, hp, hi]
      split <;> simp [CleaningPc.inHand]
    case cons => simp [Gives, given, hc, hp, hi, CleaningPc.inHand]
  case h_3 hc => cases h; exact g.congr (by simp [given, hc]) rfl (by simp [hc, CleaningPc.inHand])
  case h_4 hc =>
    dsimp only at h
    split at h <;> cases h <;> simpa [Gives, given, hc, CleaningPc.inHand] using g
  case h_5 hc =>
    cases h
    exact g.congr (by simp [given, hc]) rfl (by simp [hc, CleaningPc.inHand])
  case h_6 => cases h

theorem Gives.step (g : s.Gives fs) (h : pipelineStep D s a = some s') :
    s'.Gives (fs ++ s.given a) := by
  cases a
  case signal => cases h; exact g.congr rfl rfl rfl
  case ingress proto f =>
    obtain ⟨_, rfl⟩ := ingressStep_frame h
    exact g.congr rfl rfl rfl
  case cleaner alloc => exact g.cleanerStep h
  case worker i =>
    obtain ⟨_, _, rfl, _⟩ := workerStep_frame h
    exact g.congr rfl rfl rfl
  case main =>
    obtain ⟨_, _, rfl⟩ := mainStep_frame h
    exact g.congr rfl rfl rfl

section Run

variable {cap : UInt32} {alloc : Bool} {as : List (PipelineAct n)}

theorem exec_winds (hq : ringInit cap alloc = some q1)
    (hs : (pipelineStep D).exec (initial n q1 q2) as = some s) : s.Winds :=
  Transition.always_of_preserved (initial_winds hq) Winds.step as as s List.prefix_rfl hs

theorem never_abandoned_iff (hq : ringInit cap alloc = some q1) (as : List (PipelineAct n)) :
    (pipelineStep D).Always (initial n q1 q2) as (¬·.Abandoned) ↔
    (pipelineStep D).Guarded (initial n q1 q2) as (¬·.Abandons ·) :=
  Transition.always_iff_guarded (I := fun s => s.Winds ∧ ¬s.Abandoned)
    ⟨initial_winds hq, initial_not_abandoned⟩ And.right
    (fun i ha h => ⟨i.left.step h, i.left.not_abandoned i.right ha h⟩)
    (fun i h hn ha => hn <| i.left.abandons ha h)

theorem never_abandoned_iff_last (hq : ringInit cap alloc = some q1)
    (hs : (pipelineStep D).exec (initial n q1 q2) as = some s) :
    (pipelineStep D).Always (initial n q1 q2) as (¬·.Abandoned) ↔ ¬s.Abandoned :=
  Transition.never_iff_last (initial_winds hq) Winds.step Winds.abandoned hs

theorem collect_gives (hs : (pipelineStep D).exec (initial n q1 q2) as = some s) :
    s.Gives <| (pipelineStep D).collect given (initial n q1 q2) as :=
  Transition.collected_of_preserved (I := fun fs s => s.Gives fs) rfl Gives.step hs

theorem given_alarms_iff (hq : ringInit cap alloc = some q1)
    (hs : (pipelineStep D).exec (initial n q1 q2) as = some s) (he : s.cleaning = .exited) :
    ((pipelineStep D).collect given (initial n q1 q2) as).filter (·.IsAlarm) =
      s.q1.accepted.filter (·.IsAlarm) ↔ ¬s.q1.HoldsAlarm := by
  have hg := collect_gives hs
  simp only [Gives, he, CleaningPc.inHand, List.append_nil] at hg
  rw [hg, ← (exec_winds hq hs).lawful.alarms, List.filter_append, RingHistory.holdsAlarm_iff, not_not]
  exact List.self_eq_append_right

end Run

-- When `main` comes to destroy the queues, the cleaner has been given the alarms that Q1 has accepted
-- exactly if none was left behind at any point.
theorem alarms_given_iff (D : Type*) [DoubleArith D] {n : Nat} {q1 q2 : RingQueue} {cap : UInt32}
    {alloc : Bool} (hq : ringInit cap alloc = some q1) {as : List (PipelineAct n)} {s : Pipeline n}
    (hs : (pipelineStep D).exec (initial n q1 q2) as = some s) (hj : s.main = .joined) :
    (¬s.q1.HoldsAlarm ∧ ((pipelineStep D).collect given (initial n q1 q2) as).filter (·.IsAlarm) =
      s.q1.accepted.filter (·.IsAlarm)) ↔
    (pipelineStep D).Guarded (initial n q1 q2) as (¬·.Abandons ·) := by
  have he : s.cleaning = .exited := by simpa [hj] using (exec_winds hq hs).joined
  have ha : s.Abandoned ↔ s.q1.HoldsAlarm := and_iff_right he
  rw [given_alarms_iff hq hs he, and_self, ← never_abandoned_iff hq,
    never_abandoned_iff_last hq hs, ha]

-- The signal comes between the arrival of an alarm and the cleaner's next look at the flag.
def leftBehind : List (PipelineAct 2) :=
  [.ingress 0 sampleAlarm, .signal, .cleaner true] ++ (List.finRange 2).map .worker ++
    List.replicate 7 .main

theorem exec_leftBehind (D : Type*) [DoubleArith D] :
    ∃ s, (pipelineStep D).exec (initial 2 sampleRing sampleRing) leftBehind = some s ∧
      s.main = .joined ∧ s.q1.queue.contents = [sampleAlarm] :=
  ⟨_, rfl, rfl, rfl⟩

theorem alarms_given_iff_left :
    ∃ s, (pipelineStep Float).exec (initial 2 sampleRing sampleRing) leftBehind = some s ∧
      ((¬s.q1.HoldsAlarm ∧
        ((pipelineStep Float).collect given (initial 2 sampleRing sampleRing) leftBehind).filter
          (·.IsAlarm) = s.q1.accepted.filter (·.IsAlarm)) ↔
       (pipelineStep Float).Guarded (initial 2 sampleRing sampleRing) leftBehind (¬·.Abandons ·)) :=
  have ⟨s, hs, hj, _⟩ := exec_leftBehind Float
  ⟨s, hs, alarms_given_iff Float ringInit_one hs hj⟩

theorem alarms_given_false :
    ¬∃ (D : Type) (_ : DoubleArith D), ∀ (n : Nat) (cap₁ cap₂ : UInt32) (q1 q2 : RingQueue),
      ringInit cap₁ true = some q1 → ringInit cap₂ true = some q2 →
      ∀ as s, (pipelineStep D).exec (initial n q1 q2) as = some s → s.main = .joined →
        ¬s.q1.HoldsAlarm ∧ ((pipelineStep D).collect given (initial n q1 q2) as).filter (·.IsAlarm) =
          s.q1.accepted.filter (·.IsAlarm) := by
  rintro ⟨D, _, h⟩
  have ⟨s, hs, hj, hc⟩ := exec_leftBehind D
  have ⟨hn, _⟩ := h 2 1 1 _ _ ringInit_one ringInit_one leftBehind s hs hj
  refine hn ⟨sampleAlarm, ?_, rfl⟩
  simp [hc]

end IotCollector.Pipeline
