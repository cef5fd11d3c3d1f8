import Mathlib.Data.Int.GCD

-- A circle of `N` places, on which steps of length `a` are taken.
namespace Residue

variable {N a d t w : ℕ}

theorem exists_mul_mod_eq (hN : 0 < N) (h : a.gcd N ∣ d) : ∃ k, k * a % N = d % N := by
  obtain ⟨q, rfl⟩ := h
  by_cases hg : a.gcd N < N
  case pos =>
    have ⟨m, _, hm⟩ := Nat.exists_mul_mod_eq_gcd hg
    exists q * m
    calc q * m * a % N
      _ = a * m % N * q % N := by rw [Nat.mod_mul_mod, Nat.mul_assoc, Nat.mul_comm, Nat.mul_comm m]
      _ = a.gcd N * q % N   := by rw [hm]
  case neg =>
    have he : a.gcd N = N := le_antisymm (Nat.gcd_le_right _ hN) (Nat.not_lt.mp hg)
    exact ⟨0, by rw [he, Nat.zero_mul, Nat.zero_mod, Nat.mul_mod_right]⟩

theorem le_of_mod_eq {g y : ℕ} (hg : g ∣ N) (hy : y < N) (h : y % g = t % g) :
    y ≤ N - g + t % g := by
  have hp : g ≤ N := Nat.le_of_dvd (Nat.zero_lt_of_lt hy) hg
  have hd : y - y % g ≤ N - g := by
    refine Nat.le_of_lt_add_of_dvd ?_ (Nat.dvd_sub_mod y) <| Nat.dvd_sub hg dvd_rfl
    omega
  have := Nat.mod_le y g
  omega

theorem exists_le_add_mul_mod_iff (ht : t < N) :
    (∃ k, w ≤ (t + k * a) % N) ↔ w ≤ N - a.gcd N + t % a.gcd N := by
  have hN : 0 < N := Nat.zero_lt_of_lt ht
  have hg : 0 < a.gcd N := Nat.gcd_pos_of_pos_right _ hN
  have hr : t % a.gcd N < a.gcd N := Nat.mod_lt _ hg
  have hl : a.gcd N ≤ N := Nat.gcd_le_right _ hN
  constructor
  case mp =>
    intro ⟨k, hk⟩
    refine hk.trans <| le_of_mod_eq (Nat.gcd_dvd_right a N) (Nat.mod_lt _ hN) ?_
    have hm : a.gcd N ∣ k * a := Dvd.dvd.mul_left (Nat.gcd_dvd_left a N) k
    rw [Nat.mod_mod_of_dvd _ (Nat.gcd_dvd_right a N), Nat.add_mod, Nat.mod_eq_zero_of_dvd hm,
      Nat.add_zero, Nat.mod_mod]
  case mpr =>
    intro hw
    have hle : t ≤ N - a.gcd N + t % a.gcd N := le_of_mod_eq (Nat.gcd_dvd_right a N) ht rfl
    have hd : a.gcd N ∣ N - a.gcd N + t % a.gcd N - t := by
      have he : N - a.gcd N + t % a.gcd N - t = N - a.gcd N - (t - t % a.gcd N) := by
        have := Nat.mod_le t (a.gcd N)
        omega
      rw [he]
      exact Nat.dvd_sub (Nat.dvd_sub (Nat.gcd_dvd_right a N) dvd_rfl) <| Nat.dvd_sub_mod t
    have ⟨k, hk⟩ := exists_mul_mod_eq hN hd
    exists k
    rwa [Nat.add_mod, hk, ← Nat.add_mod, Nat.add_sub_cancel' hle, Nat.mod_eq_of_lt (by omega)]

end Residue
