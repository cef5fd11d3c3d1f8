import Mathlib.Algebra.BigOperators.Group.List.Basic
import Mathlib.Algebra.Order.BigOperators.Group.List
import Mathlib.Analysis.Real.Sqrt
import Mathlib.Tactic.FieldSimp
import Mathlib.Tactic.Linarith
import Mathlib.Tactic.Positivity
import Mathlib.Tactic.Ring

-- The mean and the standard deviation of integers, and tests of them that need integers only.
namespace Deviation

def sumSq (xs : List ℤ) : ℤ :=
  (xs.map (· ^ 2)).sum

def spread (xs : List ℤ) : ℤ :=
  xs.length * sumSq xs - xs.sum ^ 2

noncomputable def mean (xs : List ℤ) : ℝ :=
  xs.sum / xs.length

noncomputable def variance (xs : List ℤ) : ℝ :=
  (xs.map fun (x : ℤ) => (x - mean xs) ^ 2).sum / xs.length

noncomputable def deviation (xs : List ℤ) : ℝ :=
  √(variance xs)

def IsOutlier (k : ℕ) (xs : List ℤ) (x : ℤ) : Prop :=
  0 < deviation xs ∧ k * deviation xs < |x - mean xs|

variable {xs ys : List ℤ} {k : ℕ} {x : ℤ}

theorem sum_map_sq_sub (a b : ℤ) (xs : List ℤ) :
    (xs.map fun x => (a * x - b) ^ 2).sum =
    a ^ 2 * sumSq xs - 2 * a * b * xs.sum + xs.length * b ^ 2 := by
  induction xs
  case nil => simp [sumSq]
  case cons x xs hi =>
    simp only [sumSq, List.map_cons, List.sum_cons, List.length_cons] at *
    rw [hi]
    push_cast
    ring

theorem sum_sq_deviations (xs : List ℤ) :
    (xs.map fun x => (xs.length * x - xs.sum) ^ 2).sum = xs.length * spread xs := by
  rw [sum_map_sq_sub, spread]
  ring

theorem spread_nonneg (xs : List ℤ) : 0 ≤ spread xs := by
  cases xs
  case nil => simp [spread]
  case cons x xs =>
    have h : 0 ≤ ((x :: xs).length : ℤ) * spread (x :: xs) := by
      rw [← sum_sq_deviations]
      refine List.sum_nonneg fun y hy => ?_
      obtain ⟨z, _, rfl⟩ := List.mem_map.mp hy
      positivity
    exact nonneg_of_mul_nonneg_right h <| by simp only [List.length_cons]; positivity

theorem spread_eq_zero_iff : spread xs = 0 ↔ ∀ x ∈ xs, ∀ y ∈ xs, x = y := by
  constructor
  case mp =>
    intro h
    have hs := sum_sq_deviations xs
    rw [h, mul_zero] at hs
    have hz : ∀ x ∈ xs, xs.length * x = xs.sum := by
      intro x hx
      have hn : ∀ z ∈ xs.map fun x => (xs.length * x - xs.sum) ^ 2, 0 ≤ z := by
        intro z hz
        obtain ⟨y, _, rfl⟩ := List.mem_map.mp hz
        positivity
      have h₀ := List.single_le_sum hn _ <| List.mem_map_of_mem hx
      rw [hs] at h₀
      exact sub_eq_zero.mp <| pow_eq_zero_iff two_ne_zero |>.mp <| le_antisymm h₀ <| sq_nonneg _
    intro x hx y hy
    have hl : (xs.length : ℤ) ≠ 0 := by
      exact_mod_cast (List.length_pos_of_mem hx).ne'
    exact mul_left_cancel₀ hl <| (hz x hx).trans (hz y hy).symm
  case mpr =>
    intro h
    cases xs
    case nil => simp [spread]
    case cons x xs =>
      have hr : x :: xs = List.replicate (xs.length + 1) x :=
        List.eq_replicate_iff.mpr ⟨rfl, fun y hy => h y hy x List.mem_cons_self⟩
      rw [hr, spread, sumSq]
      simp only [List.length_replicate, List.map_replicate, List.sum_replicate, nsmul_eq_mul]
      push_cast
      ring

theorem variance_nonneg (xs : List ℤ) : 0 ≤ variance xs := by
  refine div_nonneg (List.sum_nonneg fun y hy => ?_) (by positivity)
  obtain ⟨x, _, rfl⟩ := List.mem_map.mp hy
  positivity

theorem variance_eq (h : xs ≠ []) : variance xs = spread xs / (xs.length : ℝ) ^ 2 := by
  have hl : (xs.length : ℝ) ≠ 0 := by
    exact_mod_cast List.length_pos_iff.mpr h |>.ne'
  have hs := congrArg (Int.cast (R := ℝ)) <| sum_sq_deviations xs
  have hm : (xs.map fun (x : ℤ) => (x - mean xs) ^ 2).sum =
      (xs.map fun (x : ℤ) => ((xs.length : ℝ) * x - xs.sum) ^ 2).sum / (xs.length : ℝ) ^ 2 := by
    rw [div_eq_mul_inv, ← List.sum_map_mul_right]
    congr 1
    refine List.map_congr_left fun x _ => ?_
    rw [mean]
    field_simp
  rw [variance, hm]
  simp only [Int.cast_list_sum, List.map_map, Function.comp_def, Int.cast_pow, Int.cast_sub,
    Int.cast_mul, Int.cast_natCast] at hs ⊢
  rw [hs]
  field_simp

theorem deviation_eq (h : xs ≠ []) : deviation xs = √(spread xs) / xs.length := by
  rw [deviation, variance_eq h, Real.sqrt_div' _ (by positivity), Real.sqrt_sq (by positivity)]

theorem isOutlier_iff (h : xs ≠ []) :
    IsOutlier k xs x ↔
    spread xs ≠ 0 ∧ k ^ 2 * spread xs < (xs.length * x - xs.sum) ^ 2 := by
  have hl : (0 : ℝ) < xs.length := by exact_mod_cast List.length_pos_iff.mpr h
  have hn : (0 : ℝ) ≤ spread xs := by exact_mod_cast spread_nonneg xs
  have hp : 0 < deviation xs ↔ spread xs ≠ 0 := by
    rw [deviation_eq h, div_pos_iff_of_pos_right hl, Real.sqrt_pos, lt_iff_le_and_ne]
    simp only [hn, true_and, ne_eq, eq_comm, Int.cast_eq_zero]
  have hd : |(x : ℝ) - mean xs| = |(xs.length : ℝ) * x - xs.sum| / xs.length := by
    rw [mean, ← abs_of_pos hl, ← abs_div, abs_of_pos hl]
    congr 1
    field_simp
  rw [IsOutlier, hp, hd, deviation_eq h, ← mul_div_assoc, div_lt_div_iff_of_pos_right hl]
  refine and_congr_right fun _ => ?_
  rw [← abs_of_nonneg (show (0 : ℝ) ≤ k * √(spread xs) by positivity), ← sq_lt_sq, mul_pow,
    Real.sq_sqrt hn]
  exact_mod_cast Iff.rfl

theorem sumSq_perm (h : xs.Perm ys) : sumSq xs = sumSq ys :=
  (h.map _).sum_eq

theorem spread_perm (h : xs.Perm ys) : spread xs = spread ys := by
  rw [spread, spread, h.length_eq, sumSq_perm h, h.sum_eq]

theorem isOutlier_perm (h : xs.Perm ys) : IsOutlier k xs x ↔ IsOutlier k ys x := by
  by_cases hx : xs = []
  case pos =>
    subst hx
    rw [List.nil_perm.mp h]
  case neg =>
    have hy : ys ≠ [] := fun hy => hx <| List.perm_nil.mp <| hy ▸ h
    rw [isOutlier_iff hx, isOutlier_iff hy, spread_perm h, h.length_eq, h.sum_eq]

theorem isOutlier_map_add (c : ℤ) : IsOutlier k (xs.map (· + c)) (x + c) ↔ IsOutlier k xs x := by
  by_cases hx : xs = []
  case pos => simp [hx, IsOutlier, deviation, variance]
  case neg =>
    have hs : (xs.map (· + c)).sum = xs.sum + xs.length * c := by
      simp [List.sum_map_add]
    have hq : sumSq (xs.map (· + c)) = sumSq xs + 2 * c * xs.sum + xs.length * c ^ 2 := by
      have h := sum_map_sq_sub 1 (-c) xs
      rw [sumSq, List.map_map]
      simp only [one_mul, sub_neg_eq_add] at h
      simp only [Function.comp_def, h]
      ring
    have hp : spread (xs.map (· + c)) = spread xs := by
      rw [spread, spread, hs, hq, List.length_map]
      ring
    rw [isOutlier_iff hx, isOutlier_iff (by simpa using hx), hp, hs, List.length_map]
    ring_nf

end Deviation
