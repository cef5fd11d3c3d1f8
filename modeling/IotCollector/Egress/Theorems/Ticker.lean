import Mathlib.Algebra.Order.BigOperators.Group.List
import Mathlib.Algebra.Order.Ring.Int
import IotCollector.Egress.Ticker

namespace IotCollector

variable {last now t₀ : Timespec} {readings : List Timespec}

def intervals (last : Timespec) : List Timespec → List ℤ
  | []              => []
  | now :: readings => (now.toNs - last.toNs) :: intervals now readings

theorem intervals_sum : (intervals last readings).sum = (readings.getLastD last).toNs - last.toNs := by
  induction readings generalizing last
  case nil              => simp [intervals]
  case cons now rest hi =>
    rw [intervals, List.sum_cons, hi, List.getLastD_cons]
    omega

theorem intervals_nonneg (h : (last :: readings).IsChain fun a b => a.toNs ≤ b.toNs) :
    ∀ d ∈ intervals last readings, 0 ≤ d := by
  induction readings generalizing last
  case nil              => simp [intervals]
  case cons now rest hi =>
    have ⟨hn, h⟩ := List.isChain_cons_cons.mp h
    intro d hd
    cases List.mem_cons.mp hd
    case inl hd => exact hd ▸ Int.sub_nonneg_of_le hn
    case inr hd => exact hi h d hd

-- The nanoseconds for which a pass brings tokens after an interval of `d`.
def credited (d : ℤ) : ℤ :=
  max 0 (d.bmod (2 ^ 64)) / 1000000 * 1000000

theorem credited_of_lt {d : ℤ} (h₀ : 0 ≤ d) (h : d < 2 ^ 63) : d - credited d = d % 1000000 := by
  rw [credited, Int.bmod_def]
  split_ifs <;> omega

theorem credited_of_le {d : ℤ} (h : 2 ^ 63 ≤ d) : 1000000 ≤ d - credited d := by
  rw [credited, Int.bmod_def]
  split_ifs <;> omega

theorem credited_le {d : ℤ} (h₀ : 0 ≤ d) : 0 ≤ d - credited d := by
  by_cases h : d < 2 ^ 63
  case pos => exact credited_of_lt h₀ h ▸ Int.emod_nonneg d (by decide)
  case neg => exact (by decide : (0 : ℤ) ≤ 1000000).trans <| credited_of_le <| Int.not_lt.mp h

theorem pass_sum : ((dispatchTickerPass last now).toList.map UInt64.toNat).sum * (1000000 : ℤ) =
    credited (now.toNs - last.toNs) := by
  have hd : (now.tvSec - last.tvSec) * 1000000000 + (now.tvNsec - last.tvNsec) =
      now.toNs - last.toNs := by
    simp only [Timespec.toNs]
    omega
  rw [dispatchTickerPass, hd, credited]
  have hx : (Int64.ofInt (now.toNs - last.toNs)).toInt = (now.toNs - last.toNs).bmod (2 ^ 64) :=
    Int64.toInt_ofInt
  generalize Int64.ofInt _ = x at hx
  have h₀ : x ≤ 0 ↔ x.toInt ≤ 0 := by rw [Int64.le_iff_toInt_le, Int64.toInt_zero]
  rw [← hx]
  split
  case isTrue h => simp [max_eq_left <| h₀.mp h]
  case isFalse h =>
    rw [h₀] at h
    have hn : (x.toUInt64 / 1000000).toNat = x.toInt.toNat / 1000000 := by
      rw [UInt64.toNat_div, Int64.toNat_toUInt64_of_le]
      · rfl
      · rw [Int64.le_iff_toInt_le, Int64.toInt_zero]
        omega
    dsimp only
    split
    case isTrue hz =>
      have : x.toInt.toNat / 1000000 = 0 := by rw [← hn, hz]; rfl
      simp only [Option.toList_none, List.map_nil, List.sum_nil]
      omega
    case isFalse =>
      simp only [Option.toList_some, List.map_singleton, List.sum_singleton, hn]
      omega

theorem ticker_sum : ((dispatchTicker last readings).map UInt64.toNat).sum * (1000000 : ℤ) =
    ((intervals last readings).map credited).sum := by
  induction readings generalizing last
  case nil              => simp [dispatchTicker, intervals]
  case cons now rest hi =>
    rw [dispatchTicker, List.map_append, List.sum_append, Nat.cast_add, add_mul, pass_sum, hi,
      intervals, List.map_cons, List.sum_cons]

theorem lost_lt_iff {ds : List ℤ} (h : ∀ d ∈ ds, 0 ≤ d) :
    (ds.map fun d => d - credited d).sum < 1000000 ↔
    (∀ d ∈ ds, d < 2 ^ 63) ∧ (ds.map (· % 1000000)).sum < 1000000 := by
  by_cases hd : ∀ d ∈ ds, d < 2 ^ 63
  case pos =>
    rw [and_iff_right hd, List.map_congr_left fun d hm => credited_of_lt (h d hm) (hd d hm)]
  case neg =>
    refine iff_of_false (fun hl => ?_) (hd ·.left)
    push Not at hd
    have ⟨d, hm, hd⟩ := hd
    have hs := List.single_le_sum (l := ds.map fun d => d - credited d)
      (by simpa using fun d hm => Int.sub_nonneg.mp <| credited_le <| h d hm)
      (d - credited d) (List.mem_map_of_mem hm)
    exact absurd (credited_of_le hd) (by omega)

-- The times which are given to `tbf_tick` add up to the time that passes, up to a millisecond, exactly
-- if the parts of milliseconds that are cut off do not add up to one.
theorem elapsed_near_iff (h : (t₀ :: readings).IsChain fun a b => a.toNs ≤ b.toNs) :
    |((dispatchTicker t₀ readings).map UInt64.toNat).sum * (1000000 : ℤ) -
      ((readings.getLastD t₀).toNs - t₀.toNs)| < 1000000 ↔
    (∀ d ∈ intervals t₀ readings, d < 2 ^ 63) ∧
      ((intervals t₀ readings).map (· % 1000000)).sum < 1000000 := by
  have hn := intervals_nonneg h
  have hs : ((intervals t₀ readings).map fun d => d - credited d).sum =
      (intervals t₀ readings).sum - ((intervals t₀ readings).map credited).sum := by
    rw [eq_sub_iff_add_eq, ← List.sum_map_add]
    simp
  have h₀ : 0 ≤ ((intervals t₀ readings).map fun d => d - credited d).sum :=
    List.sum_nonneg <| by simpa using fun d hm => Int.sub_nonneg.mp <| credited_le <| hn d hm
  rw [ticker_sum, ← intervals_sum, ← lost_lt_iff hn, abs_sub_comm, ← hs, abs_of_nonneg h₀]

-- The ticker wakes up after 10 ms, and then after 10 ms and 0.9 ms more.
theorem elapsed_near_iff_late :
    |((dispatchTicker ⟨7, 985000000⟩ [⟨7, 995000000⟩, ⟨8, 5900000⟩]).map UInt64.toNat).sum *
      (1000000 : ℤ) - 20900000| < 1000000 :=
  (@elapsed_near_iff ⟨7, 985000000⟩ [⟨7, 995000000⟩, ⟨8, 5900000⟩] (by decide)).mpr (by decide)

-- The ticker wakes up after 10.6 ms each time. Of the 21.2 ms, the buckets get 20.
theorem elapsed_near_false :
    ¬∀ (t₀ : Timespec) (readings : List Timespec),
      (t₀ :: readings).IsChain (fun a b => a.toNs ≤ b.toNs) →
      |((dispatchTicker t₀ readings).map UInt64.toNat).sum * (1000000 : ℤ) -
        ((readings.getLastD t₀).toNs - t₀.toNs)| < 1000000 :=
  fun h => absurd (h ⟨7, 0⟩ [⟨7, 10600000⟩, ⟨7, 21200000⟩] (by decide)) (by decide)

end IotCollector
