import Mathlib.Data.List.Infix

-- Names which get a suffix, and are cut where they do not fit.
namespace Suffix

variable {α : Type*} {cap : Nat} {a : α} {s p q : List α}

def suffixed (cap : Nat) (s p : List α) : List α :=
  (p ++ s).take cap

def Fills (cap : Nat) (s p q : List α) : Prop :=
  q.length = cap ∧ ∃ k, q = p ++ s.take k

theorem suffixed_eq_append (h : p.length ≤ cap) :
    suffixed cap s p = p ++ s.take (cap - p.length) := by
  rw [suffixed, List.take_append, List.take_of_length_le h]

theorem suffixed_eq_iff :
    suffixed cap s p = p ++ s ↔ p.length + s.length ≤ cap := by
  rw [suffixed, List.take_eq_self_iff, List.length_append]

theorem suffixed_ne_iff (h : p.length ≤ cap) (hs : s ≠ []) :
    suffixed cap s p ≠ p ↔ p.length < cap := by
  rw [suffixed_eq_append h, ne_eq, List.append_right_eq_self, List.take_eq_nil_iff]
  simp only [hs, or_false]
  omega

theorem Fills.suffixed_eq (hf : Fills cap s p q) :
    suffixed cap s p = suffixed cap s q := by
  obtain ⟨hl, k, rfl⟩ := hf
  have hp : p ++ s.take k <+: p ++ s := List.prefix_append_right_inj p |>.mpr <| List.take_prefix ..
  calc
    suffixed cap s p = p ++ s.take k                := by
      rw [suffixed, ← hl, ← List.prefix_iff_eq_take.mp hp]
    _                = suffixed cap s (p ++ s.take k) := by rw [suffixed, ← hl, List.take_left]

-- A name which is longer than another one with the same result fills the place, for the suffix begins
-- with what does not occur in it again.
theorem fills_of_suffixed_eq (ha : a ∉ s) (hl : p.length < q.length) (hq : q.length ≤ cap)
    (h : suffixed cap (a :: s) p = suffixed cap (a :: s) q) : Fills cap (a :: s) p q := by
  rw [suffixed_eq_append (hl.le.trans hq), suffixed_eq_append hq] at h
  have hp : p <+: q ++ (a :: s).take (cap - q.length) := h ▸ List.prefix_append ..
  obtain ⟨t, rfl⟩ := List.prefix_of_prefix_length_le hp (List.prefix_append ..) hl.le
  rw [List.append_assoc, List.append_cancel_left_eq] at h
  have ht : t <+: a :: s := (h ▸ List.prefix_append ..).trans <| List.take_prefix ..
  refine ⟨?_, t.length, by rw [← List.prefix_iff_eq_take.mp ht]⟩
  by_contra hn
  -- The suffix begins a second time.
  obtain ⟨n, hn⟩ : ∃ n, cap - (p ++ t).length = n + 1 := Nat.exists_eq_add_one.mpr (by omega)
  obtain ⟨m, hm⟩ : ∃ m, cap - p.length = m + 1 := Nat.exists_eq_add_one.mpr (by omega)
  rw [hn, hm, List.take_succ_cons, List.take_succ_cons] at h
  obtain _ | ⟨b, t⟩ := t
  · simp at hl
  · have ⟨_, hs⟩ := List.cons.inj h
    exact ha <| List.take_subset m s <| hs ▸ List.mem_append_right t List.mem_cons_self

theorem suffixed_inj_iff (ha : a ∉ s) (hp : p.length ≤ cap) (hq : q.length ≤ cap) (hn : p ≠ q) :
    suffixed cap (a :: s) p = suffixed cap (a :: s) q ↔
    Fills cap (a :: s) p q ∨ Fills cap (a :: s) q p := by
  constructor
  case mpr =>
    rintro (h | h)
    · exact h.suffixed_eq
    · exact h.suffixed_eq.symm
  case mp =>
    intro h
    rcases Nat.lt_trichotomy p.length q.length with hl | hl | hl
    · exact .inl <| fills_of_suffixed_eq ha hl hq h
    · rw [suffixed_eq_append hp, suffixed_eq_append hq] at h
      exact absurd (List.append_inj_left h hl) hn
    · exact .inr <| fills_of_suffixed_eq ha hl hp h.symm

end Suffix
