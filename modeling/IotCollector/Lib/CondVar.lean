import Mathlib.Data.Fintype.Basic
import Mathlib.Data.Finset.Card
import Mathlib.Logic.Function.Basic

-- A thread as a condition variable sees it. A thread that waits keeps the call it waits in. It is
-- woken from its wake-up on until it has the lock again.
inductive Waiter (κ : Type*)
  | ready
  | asleep (call : κ)
  | woken  (call : κ)
  deriving DecidableEq

namespace Waiter

variable {κ : Type*}

def IsAsleep : Waiter κ → Prop
  | asleep _ => True
  | _        => False

instance : DecidablePred (IsAsleep (κ := κ))
  | asleep _        => .isTrue trivial
  | ready | woken _ => .isFalse id

def wake : Waiter κ → Waiter κ
  | asleep k => woken k
  | w        => w

theorem not_isAsleep_wake (w : Waiter κ) : ¬w.wake.IsAsleep := by
  cases w <;> exact id

end Waiter

abbrev CondVar (ι κ : Type*) := ι → Waiter κ

namespace CondVar

variable {ι κ : Type*}

section Operations

variable (cv : CondVar ι κ)

def SomeAwake : Prop :=
  ∃ i, ¬(cv i).IsAsleep

def AllAwake : Prop :=
  ∀ i, ¬(cv i).IsAsleep

def broadcast : CondVar ι κ :=
  fun i => (cv i).wake

def blocked [Fintype ι] [DecidableEq κ] : Finset ι :=
  Finset.univ.filter (cv · ≠ .ready)

def Calls (P : κ → Prop) : Prop :=
  ∀ i call, cv i = .asleep call ∨ cv i = .woken call → P call

variable [DecidableEq ι]

def wait (i : ι) (call : κ) : CondVar ι κ :=
  Function.update cv i (.asleep call)

def leave (i : ι) : CondVar ι κ :=
  Function.update cv i .ready

def wake (i : ι) : CondVar ι κ :=
  Function.update cv i (cv i).wake

-- A signal wakes one thread that sleeps, and it is open which one. The result is `none` where the
-- choice is not possible.
def signal [Fintype ι] : Option ι → Option (CondVar ι κ)
  | none   => if ∀ i, ¬(cv i).IsAsleep then some cv else none
  | some i => if (cv i).IsAsleep then some (cv.wake i) else none

end Operations

variable {cv cv' : CondVar ι κ} {i : ι} {call : κ}

theorem AllAwake.someAwake [Nonempty ι] (h : cv.AllAwake) : cv.SomeAwake :=
  ⟨Classical.arbitrary ι, h _⟩

theorem broadcast_allAwake : cv.broadcast.AllAwake :=
  fun i => (cv i).not_isAsleep_wake

theorem AllAwake.broadcast_eq (h : cv.AllAwake) : cv.broadcast = cv := by
  funext j
  have := h j
  cases hj : cv j <;> simp_all [broadcast, Waiter.wake, Waiter.IsAsleep]

theorem mem_blocked [Fintype ι] [DecidableEq κ] : i ∈ cv.blocked ↔ cv i ≠ .ready := by
  simp [blocked]

theorem blocked_broadcast [Fintype ι] [DecidableEq κ] : cv.broadcast.blocked = cv.blocked := by
  ext j
  rw [mem_blocked, mem_blocked, broadcast]
  cases cv j <;> simp [Waiter.wake]

theorem Calls.broadcast {P : κ → Prop} (h : cv.Calls P) : cv.broadcast.Calls P := by
  intro j call hj
  refine h j call ?_
  cases hc : cv j <;> simp_all [CondVar.broadcast, Waiter.wake]

variable [DecidableEq ι]

theorem leave_someAwake : (cv.leave i).SomeAwake :=
  ⟨i, by simp [leave, Waiter.IsAsleep]⟩

theorem wake_someAwake : (cv.wake i).SomeAwake :=
  ⟨i, by simp [wake, Waiter.not_isAsleep_wake]⟩

theorem leave_of_ready (h : cv i = .ready) : cv.leave i = cv := by
  rw [leave, ← h, Function.update_eq_self]

theorem AllAwake.signal_none [Fintype ι] (h : cv.AllAwake) : cv.signal none = some cv :=
  if_pos h

theorem signal_someAwake [Fintype ι] [Nonempty ι] {c : Option ι} (h : cv.signal c = some cv') :
    cv'.SomeAwake := by
  cases c
  case none =>
    have ⟨ha, he⟩ := Option.ite_none_right_eq_some.mp h
    exact Option.some.inj he ▸ AllAwake.someAwake ha
  case some i =>
    have ⟨_, he⟩ := Option.ite_none_right_eq_some.mp h
    exact Option.some.inj he ▸ wake_someAwake

theorem AllAwake.leave (h : cv.AllAwake) (i : ι) : (cv.leave i).AllAwake := by
  intro j
  by_cases hj : j = i
  case pos => simp [hj, CondVar.leave, Waiter.IsAsleep]
  case neg => simpa [CondVar.leave, hj] using h j

theorem AllAwake.wake (h : cv.AllAwake) (i : ι) : (cv.wake i).AllAwake := by
  intro j
  by_cases hj : j = i
  case pos => simp [hj, CondVar.wake, Waiter.not_isAsleep_wake]
  case neg => simpa [CondVar.wake, hj] using h j

theorem AllAwake.of_leave (hi : ¬(cv i).IsAsleep) (h : (cv.leave i).AllAwake) : cv.AllAwake := by
  intro j
  by_cases hj : j = i
  case pos => exact hj ▸ hi
  case neg => simpa [CondVar.leave, hj] using h j

theorem Calls.update {P : κ → Prop} {w : Waiter κ} (h : cv.Calls P)
    (hw : ∀ call, w = .asleep call ∨ w = .woken call → P call) :
    Calls (Function.update cv i w) P := by
  intro j call hj
  by_cases hi : j = i
  case pos => exact hw call <| by simpa [hi] using hj
  case neg => exact h j call <| by simpa [hi] using hj

theorem Calls.leave {P : κ → Prop} (h : cv.Calls P) (i : ι) : (cv.leave i).Calls P :=
  h.update <| by simp

theorem Calls.wait {P : κ → Prop} (h : cv.Calls P) (i : ι) (hc : P call) :
    (cv.wait i call).Calls P :=
  h.update <| by simp [hc]

theorem Calls.wake {P : κ → Prop} (h : cv.Calls P) (i : ι) : (cv.wake i).Calls P := by
  refine h.update fun call hc => h i call ?_
  cases hi : cv i <;> simp_all [Waiter.wake]

theorem blocked_leave [Fintype ι] [DecidableEq κ] : (cv.leave i).blocked = cv.blocked.erase i := by
  ext j
  rw [mem_blocked, Finset.mem_erase, mem_blocked]
  by_cases hj : j = i <;> simp [leave, hj]

theorem card_blocked_leave [Fintype ι] [DecidableEq κ] (h : cv i ≠ .ready) :
    (cv.leave i).blocked.card + 1 = cv.blocked.card := by
  rw [blocked_leave, Finset.card_erase_add_one <| mem_blocked.mpr h]

end CondVar
