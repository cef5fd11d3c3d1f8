import Mathlib.Data.Fintype.Basic
import Mathlib.Logic.Function.Basic
import Mathlib.Logic.Relation
import IotCollector.Lib.Transition

-- What a program does with locks. The scheduler decides its branches and ends its loops.
inductive LockProgram (L : Type*)
  | skip
  | lock (l : L)
  | unlock (l : L)
  | seq (p q : LockProgram L)
  | alt (p q : LockProgram L)
  | loop (p : LockProgram L)

namespace LockProgram

variable {L : Type*}

-- A program in front of what is to be done after it. This resolves `skip` and `seq`.
def push : LockProgram L → List (LockProgram L) → List (LockProgram L)
  | skip, k     => k
  | lock l, k   => lock l :: k
  | unlock l, k => unlock l :: k
  | seq p q, k  => p.push (q.push k)
  | alt p q, k  => alt p q :: k
  | loop p, k   => loop p :: k

def locked (l : L) (p : LockProgram L) : LockProgram L :=
  seq (lock l) <| seq p <| unlock l

-- A set of locks that is held where another lock is asked for.
abbrev Site (L : Type*) := List L × L

variable [DecidableEq L]

def after : LockProgram L → List L → List L
  | skip, h     => h
  | lock l, h   => l :: h
  | unlock l, h => h.erase l
  | seq p q, h  => q.after (p.after h)
  | alt p _, h  => p.after h
  | loop _, h   => h

def sites : LockProgram L → List L → List (Site L)
  | skip, _     => []
  | lock l, h   => [(h, l)]
  | unlock _, _ => []
  | seq p q, h  => p.sites h ++ q.sites (p.after h)
  | alt p q, h  => p.sites h ++ q.sites h
  | loop p, h   => p.sites h

-- Both branches leave the same locks, and a loop those that it began with.
def Balanced : LockProgram L → List L → Prop
  | seq p q, h => p.Balanced h ∧ q.Balanced (p.after h)
  | alt p q, h => p.Balanced h ∧ q.Balanced h ∧ q.after h = p.after h
  | loop p, h  => p.Balanced h ∧ p.after h = h
  | _, _       => True

def decBalanced : (p : LockProgram L) → (h : List L) → Decidable (p.Balanced h)
  | skip, _ | lock _, _ | unlock _, _ => inferInstanceAs (Decidable True)
  | seq p q, h =>
    have := p.decBalanced h
    have := q.decBalanced (p.after h)
    inferInstanceAs (Decidable (_ ∧ _))
  | alt p q, h =>
    have := p.decBalanced h
    have := q.decBalanced h
    inferInstanceAs (Decidable (_ ∧ _ ∧ _))
  | loop p, h  =>
    have := p.decBalanced h
    inferInstanceAs (Decidable (_ ∧ _))

instance (p : LockProgram L) (h : List L) : Decidable (p.Balanced h) :=
  p.decBalanced h

def Fits (S : List (Site L)) : List (LockProgram L) → List L → Prop
  | [], _     => True
  | p :: k, h => p.Balanced h ∧ p.sites h ⊆ S ∧ Fits S k (p.after h)

variable {S : List (Site L)} {h : List L} {k : List (LockProgram L)}

theorem fits_push_iff {p : LockProgram L} :
    Fits S (p.push k) h ↔ p.Balanced h ∧ p.sites h ⊆ S ∧ Fits S k (p.after h) := by
  induction p generalizing h k
  case seq p q hp hq =>
    rw [push, hp, hq, Balanced, sites, after, List.append_subset]
    tauto
  all_goals simp [push, Fits, Balanced, sites, after]

end LockProgram

open LockProgram

structure LockThread (L : Type*) where
  held : List L
  todo : List (LockProgram L)

namespace LockThread

variable {L : Type*} [DecidableEq L]

def start (p : LockProgram L) : LockThread L where
  held := []
  todo := p.push []

def wants (t : LockThread L) : Option L :=
  match t.todo with
  | lock l :: _ => some l
  | _           => none

def site (t : LockThread L) : Option (Site L) :=
  t.wants.map (t.held, ·)

def advance (t : LockThread L) (choice : Bool) : Option (LockThread L) :=
  match t.todo with
  | []            => none
  | skip :: k     => some { t with todo := k }
  | lock l :: k   => some { held := l :: t.held, todo := k }
  | unlock l :: k => some { held := t.held.erase l, todo := k }
  | seq p q :: k  => some { t with todo := p.push (q.push k) }
  | alt p q :: k  => some { t with todo := if choice then p.push k else q.push k }
  | loop p :: k   => some { t with todo := if choice then p.push (loop p :: k) else k }

def Fits (S : List (Site L)) (t : LockThread L) : Prop :=
  LockProgram.Fits S t.todo t.held

variable {S : List (Site L)} {t t' : LockThread L} {choice : Bool} {l : L}

theorem Fits.start {p : LockProgram L} (h : p.Balanced []) : (start p).Fits (p.sites []) :=
  fits_push_iff.mpr ⟨h, List.Subset.refl _, trivial⟩

theorem Fits.site (f : t.Fits S) {x : Site L} (h : t.site = some x) : x ∈ S := by
  unfold LockThread.Fits at f
  unfold LockThread.site wants at h
  split at h <;> cases h
  case h_1 hk =>
    rw [hk] at f
    exact f.right.left <| by simp [sites]

theorem Fits.advance (f : t.Fits S) (h : t.advance choice = some t') : t'.Fits S := by
  unfold LockThread.Fits at *
  unfold LockThread.advance at h
  split at h <;> cases h
  case h_2 hk | h_3 hk | h_4 hk =>
    rw [hk] at f
    exact f.right.right
  case h_5 hk =>
    rw [hk] at f
    have ⟨⟨hp, hq⟩, hs, hk⟩ := f
    have ⟨hs, hs'⟩ := List.append_subset.mp hs
    exact fits_push_iff.mpr ⟨hp, hs, fits_push_iff.mpr ⟨hq, hs', hk⟩⟩
  case h_6 hk =>
    rw [hk] at f
    have ⟨⟨hp, hq, he⟩, hs, hk⟩ := f
    have ⟨hs, hs'⟩ := List.append_subset.mp hs
    cases choice
    case false => exact fits_push_iff.mpr ⟨hq, hs', he ▸ hk⟩
    case true  => exact fits_push_iff.mpr ⟨hp, hs, hk⟩
  case h_7 hk =>
    rw [hk] at f
    have ⟨⟨hp, he⟩, hs, hk⟩ := f
    cases choice
    case false => exact hk
    case true  => exact fits_push_iff.mpr ⟨hp, hs, he.symm ▸ ⟨⟨hp, he⟩, hs, hk⟩⟩

end LockThread

namespace Relation.TransGen

variable {α : Type*} {r : α → α → Prop} {a b : α}

theorem exists_pred (h : TransGen r a a) : ∃ b, r b a ∧ TransGen r b b :=
  have ⟨b, hb, hr⟩ := TransGen.tail'_iff.mp h
  ⟨b, hr, .head' hr hb⟩

theorem exists_descent (f : α → Nat) (h : TransGen r a a) :
    ∃ b c, r b c ∧ TransGen r c c ∧ f c ≤ f b := by
  by_contra hn
  simp only [not_exists, not_and, Nat.not_le] at hn
  have hlt : ∀ b, ReflTransGen r b a → TransGen r a b → f a < f b := by
    intro b hb hab
    induction hab
    case single b hr => exact hn _ _ hr (.tail' hb hr)
    case tail b c hab hr hi =>
      have hc := hb.head hr
      exact (hi hc).trans <| hn _ _ hr <| .tail' (hb.trans hab.to_reflTransGen) hr
  exact absurd (hlt a .refl h) (Nat.lt_irrefl _)

end Relation.TransGen

abbrev LockSystem (τ L : Type*) := τ → LockThread L

namespace LockSystem

section

variable {τ L : Type*}

def start (prog : τ → LockProgram L) : LockSystem τ L :=
  fun t => .start (prog t)

def Waits (s : LockSystem τ L) (t u : τ) : Prop :=
  ∃ l ∈ (s t).wants, l ∈ (s u).held

def WaitCycle (s : LockSystem τ L) : Prop :=
  ∃ t, Relation.TransGen s.Waits t t

variable {s : LockSystem τ L} {t u : τ}

theorem waits_iff : s.Waits t u ↔ ∃ x, (s t).site = some x ∧ x.snd ∈ (s u).held := by
  simp [Waits, LockThread.site]

theorem site_of_cycle (h : Relation.TransGen s.Waits t t) : ∃ x, (s t).site = some x :=
  have ⟨_, hw, _⟩ := Relation.TransGen.head'_iff.mp h
  have ⟨x, hx, _⟩ := waits_iff.mp hw
  ⟨x, hx⟩

theorem pred_of_cycle (h : Relation.TransGen s.Waits t t) :
    ∃ u x, Relation.TransGen s.Waits u u ∧ (s u).site = some x ∧ x.snd ∈ (s t).held :=
  have ⟨u, hw, hu⟩ := h.exists_pred
  have ⟨x, hx, hm⟩ := waits_iff.mp hw
  ⟨u, x, hu, hx, hm⟩

end

variable {τ L : Type*} [DecidableEq L]

def Fits (prog : τ → LockProgram L) (s : LockSystem τ L) : Prop :=
  ∀ t, (s t).Fits ((prog t).sites [])

theorem Fits.start {prog : τ → LockProgram L} (h : ∀ t, (prog t).Balanced []) :
    (start prog).Fits prog :=
  fun t => .start (h t)

variable [DecidableEq τ] [Fintype τ]

instance (s : LockSystem τ L) (t u : τ) : Decidable (s.Waits t u) :=
  inferInstanceAs (Decidable (∃ l ∈ (s t).wants, l ∈ (s u).held))

-- The action names the thread that takes a step, and the choice it makes at a branch. A thread that
-- asks for a lock proceeds only when nobody holds it, not even the thread itself.
def step : Transition (LockSystem τ L) (τ × Bool)
  | s, (t, choice) =>
    if ∃ u, s.Waits t u
    then none
    else ((s t).advance choice).map (Function.update s t)

variable {prog : τ → LockProgram L} {s s' : LockSystem τ L} {t : τ} {choice : Bool}

theorem step_eq (h : step s (t, choice) = some s') :
    ∃ t', (s t).advance choice = some t' ∧ s' = Function.update s t t' := by
  simp only [step] at h
  split at h
  case isTrue  => cases h
  case isFalse =>
    have ⟨t', ha, he⟩ := Option.map_eq_some_iff.mp h
    exact ⟨t', ha, he.symm⟩

theorem Fits.step (f : s.Fits prog) (h : step s (t, choice) = some s') : s'.Fits prog := by
  obtain ⟨t', ha, rfl⟩ := step_eq h
  intro u
  by_cases hu : u = t
  case pos =>
    subst hu
    simpa using (f u).advance ha
  case neg => simpa [hu] using f u

end LockSystem
