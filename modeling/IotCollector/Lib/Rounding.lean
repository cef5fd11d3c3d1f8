import Mathlib.Analysis.Real.Sqrt
import Mathlib.Tactic.FieldSimp
import Mathlib.Tactic.Linarith
import Mathlib.Tactic.NormNum
import Mathlib.Tactic.Positivity
import Mathlib.Tactic.Ring

-- Numbers with a fixed point, and what a rounding to 53 significant bits does to a number.
namespace Rounding

variable {i j a b k : ℕ} {n d : ℤ} {x y s t : ℝ}

-- A multiple of `1 / 2 ^ j`, of which the numerator is at most `b`.
def Grid (j b : ℕ) (x : ℝ) : Prop :=
  ∃ n : ℤ, |n| ≤ b ∧ x = n / 2 ^ j

-- The number `y` is `x` rounded. Numbers with few bits stay as they are.
structure Near (x y : ℝ) : Prop where
  close : |y - x| ≤ |x| / 2 ^ 53
  exact : ∀ j ≤ 64, Grid j (2 ^ 53) x → y = x

-- What is neither too large nor too small for a rounding with a bounded exponent.
def Moderate (x : ℝ) : Prop :=
  x = 0 ∨ 1 / 2 ^ 100 ≤ |x| ∧ |x| ≤ 2 ^ 100

theorem Near.refl (x : ℝ) : Near x x where
  close         := by simp; positivity
  exact _ _ _ := rfl

namespace Grid

theorem ofInt (h : |n| ≤ b) : Grid 0 b n :=
  ⟨n, h, by simp⟩

theorem zero : Grid j b 0 :=
  ⟨0, by simp, by simp⟩

theorem mono (h : Grid j a x) (hb : a ≤ b) : Grid j b x := by
  obtain ⟨n, hn, rfl⟩ := h
  exact ⟨n, hn.trans <| by exact_mod_cast hb, rfl⟩

theorem add (hx : Grid j a x) (hy : Grid j b y) : Grid j (a + b) (x + y) := by
  obtain ⟨m, hm, rfl⟩ := hx
  obtain ⟨n, hn, rfl⟩ := hy
  refine ⟨m + n, (abs_add_le m n).trans ?_, ?_⟩
  · push_cast
    exact add_le_add hm hn
  · push_cast
    ring

theorem moderate (h : Grid j b x) (hj : j ≤ 64) (hb : b ≤ 2 ^ 53) : Moderate x := by
  obtain ⟨n, hn, rfl⟩ := h
  by_cases hz : n = 0
  case pos => exact .inl <| by simp [hz]
  case neg =>
    have h₁ : (1 : ℝ) ≤ |(n : ℝ)| := by exact_mod_cast Int.one_le_abs hz
    have h₂ : |(n : ℝ)| ≤ 2 ^ 53 := by exact_mod_cast hn.trans <| by exact_mod_cast hb
    have hp : (2 : ℝ) ^ j ≤ 2 ^ 64 := pow_le_pow_right₀ one_le_two hj
    have hq : (1 : ℝ) ≤ 2 ^ j := one_le_pow₀ one_le_two
    refine .inr ⟨?_, ?_⟩ <;> rw [abs_div, abs_of_pos (by positivity : (0 : ℝ) < 2 ^ j)]
    · rw [div_le_div_iff₀ (by positivity) (by positivity)]
      nlinarith
    · rw [div_le_iff₀ (by positivity)]
      nlinarith

end Grid

theorem Near.eq (h : Near x y) (hg : Grid j b x) (hj : j ≤ 64) (hb : b ≤ 2 ^ 53) : y = x :=
  h.exact j hj <| hg.mono hb

theorem Near.bounds (h : Near x y) (hx : 0 ≤ x) :
    x * (1 - 1 / 2 ^ 53) ≤ y ∧ y ≤ x * (1 + 1 / 2 ^ 53) := by
  have hc := h.close
  rw [abs_of_nonneg hx] at hc
  have ⟨h₁, h₂⟩ := abs_le.mp hc
  constructor <;> linarith

theorem moderate_of_bounds (h₁ : 1 / 2 ^ 64 ≤ x) (h₂ : x ≤ 2 ^ 64) : Moderate x := by
  have h₀ : 0 ≤ x := le_trans (by positivity) h₁
  refine .inr ⟨?_, ?_⟩ <;> rw [abs_of_nonneg h₀] <;> norm_num at * <;> linarith

theorem Near.eq_zero (h : Near 0 y) : y = 0 :=
  h.exact 0 (by norm_num) .zero

theorem Near.moderate_mul (h : Near x s) (hx : x = 0 ∨ 1 / 2 ^ 32 ≤ x ∧ x ≤ 2 ^ 32) (hk : 0 < k)
    (hb : k ≤ 2 ^ 16) : Moderate (k * s) := by
  rcases hx with rfl | ⟨h₁, h₂⟩
  case inl => exact .inl <| by rw [h.eq_zero, mul_zero]
  case inr =>
    have ⟨hs₁, hs₂⟩ := h.bounds <| le_trans (by positivity) h₁
    have hk₁ : (1 : ℝ) ≤ k := by exact_mod_cast hk
    have hk₂ : (k : ℝ) ≤ 2 ^ 16 := by exact_mod_cast hb
    have h₁ : 1 / 2 ^ 33 ≤ s := by norm_num at *; linarith
    have h₂ : s ≤ 2 ^ 33 := by norm_num at *; linarith
    have h₀ : 0 ≤ s := le_trans (by positivity) h₁
    refine moderate_of_bounds ?_ ?_
    · exact le_trans (by norm_num) <| h₁.trans <| le_mul_of_one_le_left h₀ hk₁
    · exact (mul_le_mul hk₂ h₂ h₀ <| by positivity).trans <| by norm_num

-- A multiple of a square root is rounded twice: the root to `s`, and the multiple of that to `t`.
section RoundedRoot

variable (hi : i ≤ 64) (hk : 0 < k) (hd : 0 ≤ d) (hn : 0 ≤ n) (hb : k ^ 2 * n ≤ 2 ^ 50)
variable (hs : Near (√n / 2 ^ i) s) (ht : Near (k * s) t)

include hn in
theorem sq_mul_sqrt : (k * √n) ^ 2 = (k : ℝ) ^ 2 * n := by
  rw [mul_pow, Real.sq_sqrt (by exact_mod_cast hn)]

include hs ht

theorem near_bounds : k * √n / 2 ^ i * (1 - 1 / 2 ^ 53) ^ 2 ≤ t ∧
    t ≤ k * √n / 2 ^ i * (1 + 1 / 2 ^ 53) ^ 2 := by
  have ⟨hs₁, hs₂⟩ := hs.bounds (by positivity)
  have hs₀ : 0 ≤ s := le_trans (mul_nonneg (by positivity) (by norm_num)) hs₁
  have ⟨ht₁, ht₂⟩ := ht.bounds (by positivity)
  constructor
  · calc
      _ = k * (√n / 2 ^ i * (1 - 1 / 2 ^ 53)) * (1 - 1 / 2 ^ 53) := by ring
      _ ≤ k * s * (1 - 1 / 2 ^ 53) := by gcongr
      _ ≤ t := ht₁
  · calc
      t ≤ k * s * (1 + 1 / 2 ^ 53) := ht₂
      _ ≤ k * (√n / 2 ^ i * (1 + 1 / 2 ^ 53)) * (1 + 1 / 2 ^ 53) := by gcongr
      _ = k * √n / 2 ^ i * (1 + 1 / 2 ^ 53) ^ 2 := by ring

include hi hk hd hb in
theorem near_eq_of_sq_eq (he : d ^ 2 = k ^ 2 * n) : t = d / 2 ^ i := by
  have ⟨m, hm⟩ : (k : ℤ) ∣ d := by
    rw [← Int.pow_dvd_pow_iff two_ne_zero, he]
    exact Int.dvd_mul_right ..
  have hkz : (1 : ℤ) ≤ k := by exact_mod_cast hk
  have hmn : n = m ^ 2 := by
    refine mul_left_cancel₀ (show (k : ℤ) ^ 2 ≠ 0 by positivity) ?_
    rw [← he, hm, mul_pow]
  have hm₀ : 0 ≤ m := nonneg_of_mul_nonneg_right (hm ▸ hd) hkz
  have hroot : √(n : ℝ) = m := by
    rw [hmn, Int.cast_pow]
    exact Real.sqrt_sq <| by exact_mod_cast hm₀
  have hkm : (k : ℤ) * m ≤ 2 ^ 53 := by
    refine (abs_le_of_sq_le_sq' ?_ <| by norm_num).right
    rw [mul_pow, ← hmn]
    exact hb.trans <| by norm_num
  have hse : s = m / 2 ^ i := by
    rw [hroot] at hs
    refine hs.exact i hi ⟨m, ?_, rfl⟩
    rw [abs_of_nonneg hm₀]
    push_cast
    nlinarith
  have hg : (k : ℝ) * s = d / 2 ^ i := by
    rw [hse, hm]
    push_cast
    ring
  rw [hg] at ht
  refine ht.exact i hi ⟨d, ?_, rfl⟩
  rw [abs_of_nonneg hd, hm]
  exact_mod_cast hkm

include hn hb in
theorem le_near_of_sq_lt (hl : d ^ 2 < k ^ 2 * n) : d / 2 ^ i ≤ t := by
  have hbr : (k : ℝ) ^ 2 * n ≤ 2 ^ 50 := by exact_mod_cast hb
  have hl : (d : ℝ) ^ 2 ≤ k ^ 2 * n - 1 := by exact_mod_cast Int.le_sub_one_of_lt hl
  have hroot : (d : ℝ) ≤ k * √n * (1 - 1 / 2 ^ 53) ^ 2 := by
    refine le_of_sq_le_sq ?_ (by positivity)
    rw [mul_pow, sq_mul_sqrt hn]
    norm_num at *
    nlinarith
  refine le_trans ?_ (near_bounds hs ht).left
  rw [div_mul_eq_mul_div]
  gcongr

include hd hn hb in
theorem near_lt_of_lt_sq (hl : k ^ 2 * n < d ^ 2) : t < d / 2 ^ i := by
  have hbr : (k : ℝ) ^ 2 * n ≤ 2 ^ 50 := by exact_mod_cast hb
  have hnr : (0 : ℝ) ≤ k ^ 2 * n := by positivity
  have hl : (k : ℝ) ^ 2 * n + 1 ≤ (d : ℝ) ^ 2 := by exact_mod_cast hl
  have hroot : k * √n * (1 + 1 / 2 ^ 53) ^ 2 < d := by
    refine lt_of_pow_lt_pow_left₀ 2 (by exact_mod_cast hd) ?_
    rw [mul_pow, sq_mul_sqrt hn]
    norm_num at *
    nlinarith
  refine lt_of_le_of_lt (near_bounds hs ht).right ?_
  rw [div_mul_eq_mul_div]
  gcongr

include hi hk hd hn hb in
-- The result lies strictly below a fixed-point number exactly if the multiple itself does: the gap
-- between the two is wider than the error.
theorem near_lt_iff : t < d / 2 ^ i ↔ k ^ 2 * n < d ^ 2 := by
  refine ⟨fun h => ?_, near_lt_of_lt_sq hd hn hb hs ht⟩
  by_contra hle
  cases eq_or_lt_of_le (Int.not_lt.mp hle)
  case inl he => exact h.ne (near_eq_of_sq_eq hi hk hd hb hs ht he)
  case inr hl => exact h.not_ge (le_near_of_sq_lt hn hb hs ht hl)

end RoundedRoot
end Rounding
