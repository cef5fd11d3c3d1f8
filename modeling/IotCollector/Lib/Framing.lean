import Mathlib.Data.List.Basic
import Mathlib.Data.List.Infix
import Mathlib.Tactic.Common

-- A framing says which pieces of a stream are records. All records have the same size.
structure Framing (α : Type*) where
  size      : Nat
  pos       : 0 < size
  IsRecord  : List α → Prop
  length_eq : ∀ {r}, IsRecord r → r.length = size

namespace Framing

variable {α : Type*} {F : Framing α} {s r a b : List α}

def Whole (F : Framing α) (s : List α) : Prop :=
  ∃ (records : List (List α)) (rest : List α),
    s = records.flatten ++ rest ∧ (∀ r ∈ records, F.IsRecord r) ∧
    (rest = [] ∨ ∃ r, F.IsRecord r ∧ rest <+: r ∧ rest ≠ r)

-- The stream consists of records, but for the beginning of one that `r` completes.
def Part (F : Framing α) (s r : List α) : Prop :=
  ∃ (records : List (List α)) (rest : List α),
    s = records.flatten ++ rest ∧ (∀ r ∈ records, F.IsRecord r) ∧
    F.IsRecord (rest ++ r)

theorem length_flatten {records : List (List α)} (h : ∀ r ∈ records, F.IsRecord r) :
    records.flatten.length = F.size * records.length := by
  induction records
  case nil => rfl
  case cons r records hi =>
    have ⟨hr, h⟩ := List.forall_mem_cons.mp h
    rw [List.flatten_cons, List.length_append, F.length_eq hr, hi h, List.length_cons, Nat.mul_succ,
      Nat.add_comm]

theorem Whole.nil : F.Whole [] :=
  ⟨[], [], rfl, nofun, .inl rfl⟩

theorem Whole.of_dvd (h : F.Whole s) (hd : F.size ∣ s.length) :
    ∃ records : List (List α), s = records.flatten ∧ ∀ r ∈ records, F.IsRecord r := by
  obtain ⟨records, rest, rfl, hr, rfl | ⟨r, hw, hp, hn⟩⟩ := h
  case inl => exact ⟨records, List.append_nil _, hr⟩
  case inr =>
    rw [List.length_append, length_flatten hr, Nat.dvd_add_right (Nat.dvd_mul_right ..)] at hd
    have hl : rest.length < F.size := by
      refine Nat.lt_of_le_of_ne (F.length_eq hw ▸ hp.length_le) fun he => hn ?_
      exact hp.eq_of_length <| he.trans (F.length_eq hw).symm
    have h₀ : rest = [] := List.eq_nil_of_length_eq_zero <| Nat.eq_zero_of_dvd_of_lt hd hl
    exact ⟨records, by rw [h₀, List.append_nil], hr⟩

theorem Whole.take (h : F.Whole s) (hl : F.size ≤ s.length) : F.IsRecord (s.take F.size) := by
  obtain ⟨records, rest, rfl, hr, hw⟩ := h
  cases records
  case cons r records =>
    have hs : r.length = F.size := F.length_eq <| hr r (by simp)
    rw [List.flatten_cons, List.append_assoc, List.take_left' hs]
    exact hr r (by simp)
  case nil =>
    rw [List.flatten_nil, List.nil_append] at hl ⊢
    obtain rfl | ⟨r, hr, hp, hn⟩ := hw
    case inl => exact absurd hl <| Nat.not_le.mpr F.pos
    case inr => exact absurd (hp.eq_of_length_le <| F.length_eq hr ▸ hl) hn

theorem Whole.part (h : F.Whole s) (hd : F.size ∣ s.length) (hr : F.IsRecord r) : F.Part s r := by
  have ⟨records, hs, h⟩ := h.of_dvd hd
  exact ⟨records, [], hs.trans (List.append_nil _).symm, h, hr⟩

theorem Part.append (h : F.Part s (a ++ b)) : F.Part (s ++ a) b := by
  obtain ⟨records, rest, rfl, h, hr⟩ := h
  exact ⟨records, rest ++ a, List.append_assoc .., h, List.append_assoc .. ▸ hr⟩

theorem Part.whole (h : F.Part s r) : F.Whole s := by
  obtain ⟨records, rest, rfl, h, hr⟩ := h
  by_cases hn : r = []
  case pos =>
    rw [hn, List.append_nil] at hr
    refine ⟨records ++ [rest], [], by simp, ?_, .inl rfl⟩
    simpa using fun x hx => hx.elim (h x) (· ▸ hr)
  case neg =>
    exact ⟨records, rest, rfl, h, .inr ⟨_, hr, List.prefix_append .., by simpa using Ne.symm hn⟩⟩

end Framing
