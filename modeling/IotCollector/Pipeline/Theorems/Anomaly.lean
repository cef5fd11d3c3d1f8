import IotCollector.Lib.Deviation
import IotCollector.Pipeline.Double

namespace IotCollector

open Rounding Deviation DoubleArith RoundedArith

theorem Param.mem_all (p : Param) : p ∈ Param.all := by
  cases p <;> decide

namespace StationCtx

variable {D : Type*} [RoundedArith D] {ctx : StationCtx} {f : EnvFrame}

def ints (w : Vector Int16 windowSize) : List ℤ :=
  w.toList.map Int16.toInt

variable {w : Vector Int16 windowSize}

@[simp]
theorem ints_length : (ints w).length = 16 :=
  (List.length_map ..).trans Vector.length_toList

theorem ints_ne_nil : ints w ≠ [] := by
  rw [← List.length_pos_iff, ints_length]
  norm_num

theorem abs_toInt_le (x : Int16) : |x.toInt| ≤ (2 ^ 15 : ℕ) := by
  have := x.le_toInt
  have := x.toInt_lt
  rw [abs_le]
  push_cast
  omega

theorem toInt_grid (x : Int16) : Grid 0 (2 ^ 15) x.toInt :=
  .ofInt <| abs_toInt_le x

theorem ofInt_toInt_value (x : Int16) : HasValue (ofInt x.toInt : D) x.toInt :=
  ofInt_value <| (abs_toInt_le x).trans <| by norm_num

theorem abs_sum_le : |(ints w).sum| ≤ 2 ^ 19 := by
  have h : ∀ l : List Int16, |(l.map Int16.toInt).sum| ≤ l.length * 2 ^ 15 := by
    intro l
    induction l
    case nil => simp
    case cons x l hi =>
      have := abs_toInt_le x
      have := abs_add_le x.toInt (l.map Int16.toInt).sum
      simp only [List.map_cons, List.sum_cons, List.length_cons]
      push_cast at *
      linarith
  refine (h w.toList).trans ?_
  rw [Vector.length_toList, windowSize]
  norm_num

theorem sumSq_le : sumSq (ints w) ≤ 2 ^ 34 := by
  have h : ∀ l : List Int16, sumSq (l.map Int16.toInt) ≤ l.length * 2 ^ 30 := by
    intro l
    induction l
    case nil => simp [sumSq]
    case cons x l hi =>
      have hx : x.toInt ^ 2 ≤ 2 ^ 30 := by
        have := sq_le_sq' (abs_le.mp (abs_toInt_le x)).left (abs_le.mp (abs_toInt_le x)).right
        simpa using this
      simp only [sumSq, List.map_cons, List.sum_cons, List.length_cons] at *
      push_cast
      linarith
  refine (h w.toList).trans ?_
  rw [Vector.length_toList, windowSize]
  norm_num

theorem spread_le : spread (ints w) ≤ 2 ^ 38 := by
  have := sumSq_le (w := w)
  have := sq_nonneg (ints w).sum
  rw [spread, ints_length]
  push_cast
  linarith

theorem sub_mean_eq (x : Int16) :
    (x.toInt : ℝ) - mean (ints w) = (16 * x.toInt - (ints w).sum : ℤ) / 2 ^ 4 := by
  rw [mean, ints_length]
  push_cast
  ring

theorem abs_sub_sum_le (x : Int16) : |16 * x.toInt - (ints w).sum| ≤ (2 ^ 20 : ℕ) := by
  have := abs_le.mp <| abs_toInt_le x
  have := abs_le.mp <| abs_sum_le (w := w)
  rw [abs_le]
  push_cast at *
  omega

theorem sub_mean_grid (x : Int16) : Grid 4 (2 ^ 20) (x.toInt - mean (ints w)) :=
  ⟨_, abs_sub_sum_le x, sub_mean_eq x⟩

theorem sq_sub_mean_grid (x : Int16) :
    Grid 8 (2 ^ 40) ((x.toInt - mean (ints w)) * (x.toInt - mean (ints w))) := by
  refine ⟨(16 * x.toInt - (ints w).sum) ^ 2, ?_, ?_⟩
  · have := sq_le_sq' (abs_le.mp (abs_sub_sum_le (w := w) x)).left
      (abs_le.mp (abs_sub_sum_le (w := w) x)).right
    rw [abs_of_nonneg (sq_nonneg _)]
    exact this.trans <| by norm_num
  · rw [sub_mean_eq]
    push_cast
    ring

theorem sum_value :
    HasValue (w.toList.foldl (fun s x => s + ofInt x.toInt) (0 : D)) (ints w).sum := by
  have hl : w.toList.length = 16 := Vector.length_toList
  have h := (foldl_exact (D := D) (i := 0) (n := 0) (by norm_num) w.toList
    (fun x _ => ⟨ofInt_toInt_value x, toInt_grid x⟩) zero_value .zero (by norm_num [hl])).left
  rw [zero_add] at h
  rw [ints, Int.cast_list_sum, List.map_map]
  exact h

theorem count_value : HasValue (ofInt (windowSize : ℕ) : D) 16 := by
  simpa [windowSize] using ofInt_value (D := D) (n := 16) (by norm_num)

theorem mean_value : HasValue (windowStats (D := D) w windowSize).fst (mean (ints w)) := by
  have ht : w.toList.take windowSize = w.toList := List.take_of_length_le (by simp)
  have hm : ((ints w).sum : ℝ) / 16 = mean (ints w) := by
    rw [mean, ints_length]
    norm_num
  have hg : Grid 4 (2 ^ 19) (((ints w).sum : ℝ) / 16) :=
    ⟨(ints w).sum, abs_sum_le.trans <| by norm_num, by norm_num⟩
  rw [windowStats, if_neg (by decide), ht, ← hm]
  exact div_exact sum_value count_value (by norm_num) hg (by norm_num) (by norm_num)

theorem deviation_eq_root : deviation (ints w) = √(spread (ints w)) / 2 ^ 4 := by
  rw [deviation_eq ints_ne_nil, ints_length]
  norm_num

theorem root_bounds : √(spread (ints w)) / 2 ^ 4 = 0 ∨
    1 / 2 ^ 32 ≤ √(spread (ints w)) / 2 ^ 4 ∧ √(spread (ints w)) / 2 ^ 4 ≤ 2 ^ 32 := by
  cases eq_or_lt_of_le <| spread_nonneg (ints w)
  case inl h => exact .inl <| by simp [← h]
  case inr h =>
    have h₁ : (1 : ℝ) ≤ √(spread (ints w)) := Real.one_le_sqrt.mpr <| by exact_mod_cast h
    have h₂ : √(spread (ints w)) ≤ 2 ^ 19 := by
      refine Real.sqrt_le_iff.mpr ⟨by norm_num, ?_⟩
      have : ((spread (ints w) : ℤ) : ℝ) ≤ 2 ^ 38 := by exact_mod_cast spread_le
      exact this.trans <| by norm_num
    refine .inr ⟨?_, ?_⟩ <;> linarith

theorem moderate_deviation : Moderate (deviation (ints w)) := by
  rw [deviation_eq_root]
  rcases root_bounds (w := w) with h | ⟨h₁, h₂⟩
  case inl => exact .inl h
  case inr => exact moderate_of_bounds (le_trans (by norm_num) h₁) (le_trans h₂ <| by norm_num)

theorem sigma_value_near : ∃ s, HasValue (windowStats (D := D) w windowSize).snd s ∧
    Near (√(spread (ints w)) / 2 ^ 4) s := by
  have ht : w.toList.take windowSize = w.toList := List.take_of_length_le (by simp)
  have hl : w.toList.length = 16 := Vector.length_toList
  have hm := mean_value (D := D) (w := w)
  simp only [windowStats, if_neg (by decide : windowSize ≠ 0), ht] at hm ⊢
  have hd (x : Int16) := sub_exact (ofInt_toInt_value x) hm (sub_mean_grid (w := w) x) (by norm_num)
    (by norm_num)
  have hq (x : Int16) := mul_exact (hd x) (hd x) (sq_sub_mean_grid x) (by norm_num) (by norm_num)
  obtain ⟨hv, hg⟩ := foldl_exact (i := 8) (n := 0) (by norm_num) w.toList
    (fun x _ => ⟨hq x, sq_sub_mean_grid x⟩) zero_value .zero (by norm_num [hl])
  have hr : (0 + (w.toList.map fun x => (x.toInt - mean (ints w)) * (x.toInt - mean (ints w))).sum)
      / 16 = variance (ints w) := by
    rw [variance, ints_length, ints, List.map_map, zero_add]
    simp only [Function.comp_def, sq]
    norm_num
  have hg : Grid 12 (2 ^ 44) (variance (ints w)) := by
    obtain ⟨n, hn, he⟩ := hg
    refine ⟨n, hn.trans <| by norm_num [hl], ?_⟩
    rw [← hr, he]
    ring
  have hv := div_exact hv count_value (by norm_num) (hr ▸ hg) (by norm_num) (by norm_num)
  rw [hr] at hv
  obtain ⟨s, hs, hn⟩ := sqrt_value hv (variance_nonneg _) moderate_deviation
  rw [← deviation, deviation_eq_root] at hn
  exact ⟨s, hs, hn⟩

theorem lt_epsilon_iff :
    lt (windowStats (D := D) w windowSize).snd epsilon = true ↔ spread (ints w) = 0 := by
  have ⟨s, hs, hn⟩ := sigma_value_near (D := D) (w := w)
  have ⟨e, he, hne⟩ := epsilon_value (D := D)
  have ⟨he₁, he₂⟩ := hne.bounds (by norm_num)
  rw [lt_iff hs he]
  cases eq_or_lt_of_le <| spread_nonneg (ints w)
  case inl h =>
    rw [← h] at hn
    have hz : s = 0 := Near.eq_zero <| by simpa using hn
    simp only [← h, iff_true, hz]
    exact lt_of_lt_of_le (by norm_num) he₁
  case inr h =>
    have hr : (1 : ℝ) ≤ √(spread (ints w)) := Real.one_le_sqrt.mpr <| by exact_mod_cast h
    have ⟨hs₁, _⟩ := hn.bounds (by positivity)
    simp only [h.ne', iff_false, not_lt]
    norm_num at hs₁ he₂
    linarith

theorem lt_abs_iff (x : Int16) :
    lt (sigma * (windowStats w windowSize).snd : D)
      (fabs (ofInt x.toInt - (windowStats w windowSize).fst)) = true ↔
    9 * spread (ints w) < (16 * x.toInt - (ints w).sum) ^ 2 := by
  have ⟨s, hs, hn⟩ := sigma_value_near (D := D) (w := w)
  have hd := fabs_value <| sub_exact (ofInt_toInt_value (D := D) x) mean_value (sub_mean_grid (w := w) x)
    (by norm_num) (by norm_num)
  have hm : Moderate ((3 : ℕ) * s) := hn.moderate_mul root_bounds (by norm_num) (by norm_num)
  have ⟨t, ht, hnt⟩ := mul_value sigma_value hs hm
  have hb : (3 : ℕ) ^ 2 * spread (ints w) ≤ 2 ^ 50 := by
    have := spread_le (w := w)
    norm_num at *
    linarith
  have h := near_lt_iff (i := 4) (k := 3) (by norm_num) (by norm_num)
    (abs_nonneg (16 * x.toInt - (ints w).sum)) (spread_nonneg _) hb hn hnt
  rw [lt_iff ht hd, sub_mean_eq, abs_div, abs_of_pos (by norm_num : (0 : ℝ) < 2 ^ 4), ← Int.cast_abs,
    h, sq_abs]
  norm_num

def Deviates (w : Vector Int16 windowSize) (x : ℤ) : Prop :=
  let xs := ints w
  16 * sumSq xs - xs.sum ^ 2 ≠ 0 ∧ 9 * (16 * sumSq xs - xs.sum ^ 2) < (16 * x - xs.sum) ^ 2

instance (w : Vector Int16 windowSize) (x : ℤ) : Decidable (Deviates w x) :=
  inferInstanceAs (Decidable (_ ≠ _ ∧ _ < _))

theorem spread_ints : spread (ints w) = 16 * sumSq (ints w) - (ints w).sum ^ 2 := by
  rw [spread, ints_length]
  rfl

theorem deviates_iff_isOutlier {x : ℤ} : Deviates w x ↔ IsOutlier 3 (ints w) x := by
  rw [isOutlier_iff ints_ne_nil, spread_ints, ints_length]
  exact .rfl

theorem deviates_perm {w' : Vector Int16 windowSize} (h : w'.toList.Perm w.toList) (x : ℤ) :
    Deviates w' x ↔ Deviates w x := by
  have h : (ints w').Perm (ints w) := h.map _
  rw [Deviates, Deviates, sumSq_perm h, h.sum_eq]

variable (D) in
theorem anomalyDetectAll_iff (hc : ctx.wCount = windowSize) (f : EnvFrame) :
    ctx.anomalyDetectAll D f = true ↔ ∃ p, Deviates (ctx.window p) (f.param p).toInt := by
  rw [anomalyDetectAll, if_neg (Nat.not_lt.mpr hc.ge), List.any_eq_true]
  refine exists_congr fun p => ?_
  simp only [p.mem_all, true_and, windowStatsAll, hc, Bool.and_eq_true, Bool.not_eq_true', lt_abs_iff,
    Bool.eq_false_iff, ne_eq, lt_epsilon_iff, Deviates, spread_ints]

theorem ints_eq_iff : (∀ x ∈ ints w, ∀ y ∈ ints w, x = y) ↔ ∀ i j : Fin windowSize, w[i] = w[j] := by
  simp only [ints, List.forall_mem_map, Vector.mem_toList_iff, Int16.toInt_inj]
  constructor
  case mp  => exact fun h i j => h _ (Vector.getElem_mem _) _ (Vector.getElem_mem _)
  case mpr =>
    intro h x hx y hy
    obtain ⟨i, hi, rfl⟩ := Vector.getElem_of_mem hx
    obtain ⟨j, hj, rfl⟩ := Vector.getElem_of_mem hy
    exact h ⟨i, hi⟩ ⟨j, hj⟩

end StationCtx

open StationCtx

-- The test in exact reals. The guard leaves out the windows without any deviation.
theorem anomaly_integer_iff (ctx : StationCtx) (hc : ctx.wCount = 16) (f : EnvFrame) :
    (ctx.anomalyDetectAll ℝ f = true ↔ ∃ p, Deviates (ctx.window p) (f.param p).toInt) ∧
    (∀ p, lt (ctx.windowStatsAll (D := ℝ) p).snd epsilon = true ↔
      ∀ i j : Fin windowSize, (ctx.window p)[i] = (ctx.window p)[j]) ∧
    ∀ ctx' : StationCtx, ctx'.wCount = 16 →
      (∀ p, (ctx'.window p).toList.Perm (ctx.window p).toList) →
      ctx'.anomalyDetectAll ℝ f = ctx.anomalyDetectAll ℝ f := by
  refine ⟨anomalyDetectAll_iff ℝ hc f, fun p => ?_, fun ctx' hc' hp => ?_⟩
  · have hg := lt_epsilon_iff (D := ℝ) (w := ctx.window p)
    rw [spread_eq_zero_iff, ints_eq_iff] at hg
    rw [windowStatsAll, hc]
    exact hg
  · rw [Bool.eq_iff_iff, anomalyDetectAll_iff ℝ hc, anomalyDetectAll_iff ℝ hc']
    exact exists_congr fun p => deviates_perm (hp p) _

-- A full context, in which each measurement has been 0 and 1 in turn.
def restlessCtx : StationCtx where
  stationId := 1
  window    := fun _ => .ofFn fun i => if i.val % 2 = 0 then 0 else 1
  wIdx      := ⟨0, Nat.zero_lt_succ _⟩
  wCount    := windowSize
  bounded   := Nat.le_refl _

theorem anomaly_integer_iff_restless :
    restlessCtx.wCount = 16 ∧
    restlessCtx.anomalyDetectAll ℝ { EnvFrame.zero with temperature := 100 } = true :=
  have h := anomaly_integer_iff restlessCtx rfl { EnvFrame.zero with temperature := 100 }
  ⟨rfl, h.left.mpr ⟨.temp, by decide⟩⟩

end IotCollector
