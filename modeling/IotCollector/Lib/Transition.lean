import Mathlib.Data.List.Basic
import Mathlib.Data.List.Infix
import Mathlib.Data.List.Induction

-- A labelled transition system whose steps are computed. The result is `none` where the action is
-- not enabled.
abbrev Transition (σ α : Type*) := σ → α → Option σ

namespace Transition

variable {σ α : Type*} {step : Transition σ α} {s s₀ s' : σ} {a : α} {as bs : List α}

def exec (step : Transition σ α) : σ → List α → Option σ
  | s, []      => some s
  | s, a :: as => (step s a).bind (exec step · as)

@[simp]
theorem exec_nil : step.exec s [] = some s :=
  rfl

@[simp]
theorem exec_cons : step.exec s (a :: as) = (step s a).bind (step.exec · as) :=
  rfl

theorem exec_append : step.exec s (as ++ bs) = (step.exec s as).bind (step.exec · bs) := by
  induction as generalizing s
  case nil => rfl
  case cons a as hi =>
    cases h : step s a <;> simp [h, hi]

theorem exec_concat_iff :
    step.exec s (as ++ [a]) = some s' ↔ ∃ m, step.exec s as = some m ∧ step m a = some s' := by
  simp [exec_append, Option.bind_eq_some_iff]

def Reachable (step : Transition σ α) (s₀ s : σ) : Prop :=
  ∃ as, step.exec s₀ as = some s

def Always (step : Transition σ α) (s₀ : σ) (as : List α) (P : σ → Prop) : Prop :=
  ∀ bs s, bs <+: as → step.exec s₀ bs = some s → P s

-- Every step that `as` takes is taken in a state, and by an action, that meet `ok`.
def Guarded (step : Transition σ α) (s₀ : σ) (as : List α) (ok : σ → α → Prop) : Prop :=
  ∀ bs a s s', bs ++ [a] <+: as → step.exec s₀ bs = some s → step s a = some s' → ok s a

theorem Guarded.of_prefix {ok : σ → α → Prop} (g : step.Guarded s₀ as ok) (h : bs <+: as) :
    step.Guarded s₀ bs ok :=
  fun cs a s s' hp => g cs a s s' (hp.trans h)

theorem Guarded.and {ok₁ ok₂ : σ → α → Prop} (g₁ : step.Guarded s₀ as ok₁)
    (g₂ : step.Guarded s₀ as ok₂) : step.Guarded s₀ as fun s a => ok₁ s a ∧ ok₂ s a :=
  fun bs a s s' hp hs ha => ⟨g₁ bs a s s' hp hs ha, g₂ bs a s s' hp hs ha⟩

theorem Guarded.of_forall {ok : σ → α → Prop} (h : ∀ a ∈ as, ∀ s, ok s a) :
    step.Guarded s₀ as ok :=
  fun _ a s _ hp _ _ => h a (hp.subset <| by simp) s

theorem Guarded.cons {ok : σ → α → Prop} (h : ok s₀ a) (hs : step s₀ a = some s)
    (g : step.Guarded s as ok) : step.Guarded s₀ (a :: as) ok := by
  intro bs b m m' hp hm hb
  cases bs
  case nil =>
    obtain ⟨rfl, -⟩ := List.cons_prefix_cons.mp hp
    exact Option.some.inj hm ▸ h
  case cons c cs =>
    have ⟨hc, hp⟩ := List.cons_prefix_cons.mp hp
    rw [hc, exec_cons, hs, Option.bind_some] at hm
    exact g cs b m m' hp hm hb

theorem Guarded.nil {ok : σ → α → Prop} : step.Guarded s₀ [] ok :=
  .of_forall nofun

def check (step : Transition σ α) (ok : σ → α → Prop) [∀ s a, Decidable (ok s a)] :
    σ → List α → Bool
  | _, []      => true
  | s, a :: as =>
    match step s a with
    | none    => true
    | some s' => decide (ok s a) && check step ok s' as

theorem Guarded.of_check {ok : σ → α → Prop} [∀ s a, Decidable (ok s a)]
    (h : step.check ok s₀ as = true) : step.Guarded s₀ as ok := by
  induction as generalizing s₀
  case nil => exact .nil
  case cons a as hi =>
    cases hs : step s₀ a
    case none =>
      intro bs b m m' hp hm hb
      cases bs
      case nil =>
        obtain ⟨rfl, -⟩ := List.cons_prefix_cons.mp hp
        cases hm
        cases hs ▸ hb
      case cons c cs =>
        obtain ⟨rfl, -⟩ := List.cons_prefix_cons.mp hp
        simp [hs] at hm
    case some s₁ =>
      simp only [check, hs, Bool.and_eq_true, decide_eq_true_eq] at h
      exact .cons h.left hs <| hi h.right

theorem Always.of_prefix {P : σ → Prop} (h : step.Always s₀ as P) (hp : bs <+: as) :
    step.Always s₀ bs P :=
  fun cs s hc => h cs s (hc.trans hp)

theorem Always.head {P : σ → Prop} (h : step.Always s₀ as P) : P s₀ :=
  h [] s₀ (List.nil_prefix ..) rfl

theorem Always.tail {P : σ → Prop} (h : step.Always s₀ (a :: as) P) (hs : step s₀ a = some s) :
    step.Always s as P :=
  fun bs s' hp hb => h (a :: bs) s' (List.prefix_cons_inj a |>.mpr hp) <| by simp [hs, hb]

theorem Always.and {P Q : σ → Prop} (h₁ : step.Always s₀ as P) (h₂ : step.Always s₀ as Q) :
    step.Always s₀ as fun s => P s ∧ Q s :=
  fun bs s hp hs => ⟨h₁ bs s hp hs, h₂ bs s hp hs⟩

theorem Always.guarded {P : σ → Prop} (h : step.Always s₀ as P) :
    step.Guarded s₀ as fun s _ => P s :=
  fun bs _ s _ hp hs _ => h bs s ((List.prefix_append ..).trans hp) hs

-- The induction over a run: the induction hypothesis is about the state before the last step.
theorem invariant_of_guarded {ok : σ → α → Prop} {I : σ → Prop} (init : I s₀)
    (preserved : ∀ {s a s'}, I s → ok s a → step s a = some s' → I s')
    (g : step.Guarded s₀ as ok) (h : step.exec s₀ as = some s) : I s := by
  induction as using List.reverseRecOn generalizing s
  case nil => exact Option.some.inj h ▸ init
  case append_singleton as a hi =>
    obtain ⟨m, hm, hs⟩ := exec_concat_iff.mp h
    have hI : I m := hi (g.of_prefix <| List.prefix_append ..) hm
    exact preserved hI (g as a m s List.prefix_rfl hm hs) hs

theorem always_of_guarded {ok : σ → α → Prop} {I : σ → Prop} (init : I s₀)
    (preserved : ∀ {s a s'}, I s → ok s a → step s a = some s' → I s')
    (g : step.Guarded s₀ as ok) : step.Always s₀ as I :=
  fun _ _ hp h => invariant_of_guarded init preserved (g.of_prefix hp) h

theorem guarded_congr {ok₁ ok₂ : σ → α → Prop} {I : σ → Prop} (h : step.Always s₀ as I)
    (hi : ∀ {s a s'}, I s → step s a = some s' → (ok₁ s a ↔ ok₂ s a)) :
    step.Guarded s₀ as ok₁ ↔ step.Guarded s₀ as ok₂ := by
  refine forall₄_congr fun bs a s s' => forall₃_congr fun hp hs ha => hi ?_ ha
  exact h bs s ((List.prefix_append ..).trans hp) hs

theorem always_of_preserved {I : σ → Prop} (init : I s₀)
    (preserved : ∀ {s a s'}, I s → step s a = some s' → I s') (as : List α) :
    step.Always s₀ as I :=
  always_of_guarded init (fun hI (_ : True) hs => preserved hI hs) <| .of_forall fun _ _ _ => trivial

theorem never_iff_last {I Q : σ → Prop} (init : I s₀)
    (preserved : ∀ {s a s'}, I s → step s a = some s' → I s')
    (stays : ∀ {s a s'}, I s → Q s → step s a = some s' → Q s') (h : step.exec s₀ as = some s) :
    step.Always s₀ as (¬Q ·) ↔ ¬Q s := by
  refine ⟨fun hn => hn as s List.prefix_rfl h, ?_⟩
  rintro hn bs t ⟨cs, rfl⟩ ht hQ
  rw [exec_append, ht, Option.bind_some] at h
  have hI : I t := always_of_preserved init preserved bs bs t List.prefix_rfl ht
  have hc : step.Always t cs fun s => I s ∧ Q s :=
    always_of_preserved ⟨hI, hQ⟩ (fun i h => ⟨preserved i.left h, stays i.left i.right h⟩) cs
  exact hn (hc cs s List.prefix_rfl h).right

def collect {β : Type*} (step : Transition σ α) (out : σ → α → List β) : σ → List α → List β
  | _, []      => []
  | s, a :: as =>
    match step s a with
    | none    => []
    | some s' => out s a ++ collect step out s' as

theorem collect_concat {β : Type*} {out : σ → α → List β} {m : σ} (h : step.exec s as = some m)
    (ha : step m a = some s') :
    step.collect out s (as ++ [a]) = step.collect out s as ++ out m a := by
  induction as generalizing s
  case nil =>
    cases h
    simp [collect, ha]
  case cons b as hi =>
    obtain ⟨t, hb, ht⟩ := Option.bind_eq_some_iff.mp h
    simp only [List.cons_append, collect, hb, hi ht, List.append_assoc]

theorem collected_of_preserved {β : Type*} {out : σ → α → List β} {I : List β → σ → Prop}
    (init : I [] s₀)
    (preserved : ∀ {l s a s'}, I l s → step s a = some s' → I (l ++ out s a) s')
    (h : step.exec s₀ as = some s) : I (step.collect out s₀ as) s := by
  induction as using List.reverseRecOn generalizing s
  case nil => exact Option.some.inj h ▸ init
  case append_singleton as a hi =>
    obtain ⟨m, hm, ha⟩ := exec_concat_iff.mp h
    rw [collect_concat hm ha]
    exact preserved (hi hm) ha

-- Where `ok` is exactly what a step needs to keep the invariant, and a step without it breaks the
-- property at once, the property holds along a run iff all of its steps meet `ok`. The predicate `R`
-- is what is known of the states of the run anyway.
theorem always_iff_guarded_of {ok : σ → α → Prop} {I P R : σ → Prop} (known : step.Always s₀ as R)
    (init : I s₀) (sound : ∀ {s}, I s → R s → P s)
    (preserved : ∀ {s a s'}, I s → R s → ok s a → step s a = some s' → I s')
    (broken : ∀ {s a s'}, I s → R s → R s' → step s a = some s' → P s' → ok s a) :
    step.Always s₀ as P ↔ step.Guarded s₀ as ok := by
  have run {bs s} (hp : bs <+: as) (g : step.Guarded s₀ bs ok) (h : step.exec s₀ bs = some s) :
      I s := by
    have g := ((known.of_prefix hp).guarded).and g
    exact invariant_of_guarded init (fun hI hok => preserved hI hok.left hok.right) g h
  refine ⟨fun h => ?_, fun g bs s hp hs => sound (run hp (g.of_prefix hp) hs) (known bs s hp hs)⟩
  induction as using List.reverseRecOn
  case nil =>
    intro bs a s s' hp
    simp at hp
  case append_singleton as a hi =>
    have hpre : as <+: as ++ [a] := List.prefix_append ..
    have g := hi (known.of_prefix hpre) (fun hp => run <| hp.trans hpre) <| h.of_prefix hpre
    intro bs b s s' hp hs hb
    cases List.prefix_concat_iff.mp hp
    case inr hp => exact g bs b s s' hp hs hb
    case inl he =>
      have hs' := exec_concat_iff.mpr ⟨s, hs, hb⟩
      have ⟨h₁, _⟩ := List.append_inj' he rfl
      have hbs : bs <+: as ++ [a] := h₁ ▸ hpre
      exact broken (run hbs (h₁ ▸ g) hs) (known bs s hbs hs) (known _ s' hp hs') hb (h _ s' hp hs')

theorem always_iff_guarded {ok : σ → α → Prop} {I P : σ → Prop} (init : I s₀)
    (sound : ∀ {s}, I s → P s)
    (preserved : ∀ {s a s'}, I s → ok s a → step s a = some s' → I s')
    (broken : ∀ {s a s'}, I s → step s a = some s' → P s' → ok s a) :
    step.Always s₀ as P ↔ step.Guarded s₀ as ok :=
  always_iff_guarded_of (R := fun _ => True) (fun _ _ _ _ => trivial) init (fun hI _ => sound hI)
    (fun hI _ => preserved hI) (fun hI _ _ => broken hI)

end Transition
