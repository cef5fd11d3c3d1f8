import IotCollector.Pipeline.Theorems.Anomaly
import IotCollector.Pipeline.Theorems.Window

namespace IotCollector

open Cleaner Deviation StationCtx

def EnvFrame.value (f : EnvFrame) : Param → ℤ
  | .pm25  => f.pm25.toNat
  | .pm10  => f.pm10.toNat
  | .temp  => f.temperature.toInt
  | .hum   => f.humidity.toNat
  | .co    => f.coPpb.toNat
  | .noise => f.noiseDb.toNat

def narrow (v : ℤ) : ℤ :=
  if v < 2 ^ 15 then v else v - 2 ^ 16

def OutlierOf (last : List EnvFrame) (f : EnvFrame) (p : Param) : Prop :=
  IsOutlier 3 (last.map (·.value p)) (f.value p)

def NarrowOutlierOf (last : List EnvFrame) (f : EnvFrame) (p : Param) : Prop :=
  IsOutlier 3 (last.map fun g => narrow (g.value p)) (narrow (f.value p))

-- The measurements of CO lie on one side of the largest value that a slot of a window can hold.
def OneSided (last : List EnvFrame) (f : EnvFrame) : Prop :=
  (∀ g ∈ f :: last, g.value .co < 2 ^ 15) ∨ ∀ g ∈ f :: last, 2 ^ 15 ≤ g.value .co

-- Another measurement is an outlier, or the test of CO has the same outcome in 16 bits.
def Harmless (last : List EnvFrame) (f : EnvFrame) : Prop :=
  (∃ p, p ≠ .co ∧ OutlierOf last f p) ∨ (NarrowOutlierOf last f .co ↔ OutlierOf last f .co)

def CleanRun.lastPassed (s : CleanRun) (st : UInt16) : List EnvFrame :=
  (s.passedOf st).drop ((s.passedOf st).length - windowSize)

variable {f : EnvFrame} {p : Param} {last passed : List EnvFrame} {ctx : StationCtx}

theorem toInt_toInt16 (x : UInt16) : x.toInt16.toInt = narrow x.toNat := by
  have h : x.toInt16.toInt = (x.toNat : ℤ).bmod (2 ^ 16) := BitVec.toInt_eq_toNat_bmod x.toBitVec
  have := x.toNat_lt
  rw [h, narrow, Int.bmod]
  split <;> split <;> omega

theorem narrow_of_lt {v : ℤ} (h : v < 2 ^ 15) : narrow v = v :=
  if_pos h

theorem narrow_of_le {v : ℤ} (h : 2 ^ 15 ≤ v) : narrow v = v + -2 ^ 16 :=
  if_neg <| Int.not_lt.mpr h

theorem toInt_param (f : EnvFrame) (p : Param) : (f.param p).toInt = narrow (f.value p) := by
  cases p
  case temp =>
    have h : narrow (f.value .temp) = f.value .temp := narrow_of_lt f.temperature.toInt_lt
    exact h.symm
  all_goals exact toInt_toInt16 _

theorem EnvFrame.InRange.narrow_eq (h : f.InRange) (hp : p ≠ .co) :
    narrow (f.value p) = f.value p := by
  obtain ⟨h₁, h₂, _, _, h₅, _, h₇⟩ := h
  simp only [UInt16.le_iff_toNat_le, UInt16.reduceToNat] at h₁ h₂ h₅ h₇
  refine narrow_of_lt ?_
  cases p
  case co   => exact absurd rfl hp
  case temp => exact f.temperature.toInt_lt
  all_goals
    simp only [EnvFrame.value]
    omega

theorem narrowOutlierOf_iff (hl : ∀ g ∈ last, g.InRange) (hf : f.InRange) (hp : p ≠ .co) :
    NarrowOutlierOf last f p ↔ OutlierOf last f p := by
  have hm : (last.map fun g => narrow (g.value p)) = last.map (·.value p) :=
    List.map_congr_left fun g hg => (hl g hg).narrow_eq hp
  rw [NarrowOutlierOf, OutlierOf, hm, hf.narrow_eq hp]

theorem OneSided.harmless (h : OneSided last f) : Harmless last f := by
  refine .inr ?_
  unfold NarrowOutlierOf OutlierOf
  cases h
  case inl h =>
    have ⟨hf, hl⟩ := List.forall_mem_cons.mp h
    rw [narrow_of_lt hf, List.map_congr_left fun g hg => narrow_of_lt (hl g hg)]
  case inr h =>
    have ⟨hf, hl⟩ := List.forall_mem_cons.mp h
    have hm : IsOutlier 3 ((last.map (·.value .co)).map (· + -2 ^ 16)) (f.value .co + -2 ^ 16) ↔
        IsOutlier 3 (last.map (·.value .co)) (f.value .co) := isOutlier_map_add _
    rw [List.map_map] at hm
    rw [narrow_of_le hf, List.map_congr_left fun g hg => narrow_of_le (hl g hg)]
    exact hm

namespace StationCtx

theorem Windowed.rotate_eq (h : ctx.Windowed passed) (hn : windowSize ≤ passed.length) (p : Param) :
    (ctx.window p).toList.rotate passed.length =
    (passed.drop (passed.length - windowSize)).map (·.param p) := by
  have hw : windowSize = 16 := rfl
  have hl : (ctx.window p).toList.length = windowSize := Vector.length_toList
  refine List.ext_getElem? fun i => ?_
  by_cases hi : i < windowSize
  case neg =>
    rw [List.getElem?_eq_none, List.getElem?_eq_none] <;> simp <;> omega
  case pos =>
    have hk : windowSize - 1 - i < min passed.length windowSize := by omega
    have hs := h.slot p _ hk
    have hr : passed.length - 1 - (windowSize - 1 - i) = passed.length - windowSize + i := by omega
    have hm : (passed.length - windowSize + i) % windowSize = (i + passed.length) % windowSize := by
      rw [hw] at *
      omega
    rw [List.getElem?_reverse (by omega), hr, hm] at hs
    rw [List.getElem?_rotate (hi.trans_eq hl.symm), hl, List.getElem?_map, List.getElem?_drop, ← hs,
      Vector.getElem?_toList]

theorem Windowed.ints_perm (h : ctx.Windowed passed) (hn : windowSize ≤ passed.length) (p : Param) :
    (ints (ctx.window p)).Perm
      ((passed.drop (passed.length - windowSize)).map fun g => narrow (g.value p)) := by
  have hr := congrArg (List.map Int16.toInt) <| h.rotate_eq hn p
  simp only [List.map_map, Function.comp_def, toInt_param] at hr
  rw [ints, ← hr]
  exact (List.rotate_perm ..).symm.map _

theorem Windowed.anomaly_iff (h : ctx.Windowed passed) (hn : windowSize ≤ passed.length)
    (D : Type*) [RoundedArith D] (f : EnvFrame) :
    ctx.anomalyDetectAll D f = true ↔
    ∃ p, NarrowOutlierOf (passed.drop (passed.length - windowSize)) f p := by
  have hc : ctx.wCount = windowSize := h.wCount.trans <| Nat.min_eq_right hn
  rw [anomalyDetectAll_iff D hc]
  refine exists_congr fun p => ?_
  rw [deviates_iff_isOutlier, toInt_param, isOutlier_perm (h.ints_perm hn p), NarrowOutlierOf]

end StationCtx

theorem exists_narrow_iff (hl : ∀ g ∈ last, g.InRange) (hf : f.InRange) :
    ((∃ p, NarrowOutlierOf last f p) ↔ ∃ p, OutlierOf last f p) ↔ Harmless last f := by
  have hn : ∀ q, q ≠ .co → (NarrowOutlierOf last f q ↔ OutlierOf last f q) :=
    fun _ => narrowOutlierOf_iff hl hf
  by_cases ho : ∃ p, p ≠ .co ∧ OutlierOf last f p
  case pos =>
    obtain ⟨p, hp, ho⟩ := ho
    exact iff_of_true (iff_of_true ⟨p, (hn p hp).mpr ho⟩ ⟨p, ho⟩) <| .inl ⟨p, hp, ho⟩
  case neg =>
    have h₁ : (∃ p, OutlierOf last f p) ↔ OutlierOf last f .co := by
      refine ⟨fun ⟨p, h⟩ => ?_, fun h => ⟨_, h⟩⟩
      by_cases hp : p = .co
      case pos => exact hp ▸ h
      case neg => exact absurd ⟨p, hp, h⟩ ho
    have h₂ : (∃ p, NarrowOutlierOf last f p) ↔ NarrowOutlierOf last f .co := by
      refine ⟨fun ⟨p, h⟩ => ?_, fun h => ⟨_, h⟩⟩
      by_cases hp : p = .co
      case pos => exact hp ▸ h
      case neg => exact absurd ⟨p, hp, (hn p hp).mp h⟩ ho
    rw [h₁, h₂, Harmless]
    simp only [ho, false_or]

namespace CleanRun

variable {D : Type*} [DoubleArith D] {s s' : CleanRun} {op : CleanOp}

theorem cleanStep_inRange (h : ∀ g ∈ s.passed, g.InRange) (hs : cleanStep D s op = some s') :
    ∀ g ∈ s'.passed, g.InRange := by
  obtain ⟨f, alloc⟩ := op
  cases hs
  by_cases hp : (s.cleaner.cleanerProcess D f alloc).fst = .pass
  case neg => simpa only [if_neg hp]
  case pos =>
    have ⟨_, _, ha, _⟩ := (cleanerProcess_effect D s.cleaner f alloc).of_pass hp
    simp only [if_pos hp]
    exact List.forall_mem_append.mpr ⟨h, List.forall_mem_singleton.mpr ha.left⟩

end CleanRun

-- The verdict of a station of which at least 16 frames have passed is the test on the measurements
-- exactly where the conversion to 16 bits does no harm.
theorem verdict_exact_iff (D : Type*) [RoundedArith D] (stats : IotStats) (ops : List CleanOp) :
    (cleanStep D).Always (.init stats) ops fun s =>
      ∀ st f, windowSize ≤ (s.passedOf st).length → f.InRange →
        (((s.cleaner.ctxOf st).base.anomalyDetectAll D f = true ↔
          ∃ p, OutlierOf (s.lastPassed st) f p) ↔ Harmless (s.lastPassed st) f) ∧
        (OneSided (s.lastPassed st) f → Harmless (s.lastPassed st) f) := by
  intro bs s hp hs st f hn hf
  have hw := CleanRun.windows_of_exec hs
  have hr : ∀ g ∈ s.passed, g.InRange :=
    Transition.always_of_preserved (List.forall_mem_nil _) CleanRun.cleanStep_inRange ops bs s hp hs
  have hl : ∀ g ∈ s.lastPassed st, g.InRange :=
    fun g hg => hr g <| List.mem_of_mem_filter <| List.mem_of_mem_drop hg
  refine ⟨?_, OneSided.harmless⟩
  rw [(hw.window st).anomaly_iff hn D f]
  exact exists_narrow_iff hl hf

def coFrame (sec : UInt32) (co : UInt16) : EnvFrame :=
  { frameAt sec with coPpb := co }

-- Sixteen frames with CO on both sides of the largest value that a slot can hold.
def coFrames : List EnvFrame :=
  [1, 3, 5, 7, 9, 11, 13, 15].flatMap fun sec => [coFrame sec 32000, coFrame (sec + 1) 33000]

-- In 16 bits the window spans the whole range, so that a frame without CO is no outlier in it.
theorem verdict_exact_false :
    ¬∃ (D : Type) (_ : RoundedArith D), ∀ (stats : IotStats) (ops : List CleanOp),
      (cleanStep D).Always (.init stats) ops fun s =>
        ∀ st f, windowSize ≤ (s.passedOf st).length → f.InRange →
          ((s.cleaner.ctxOf st).base.anomalyDetectAll D f = true ↔
            ∃ p, OutlierOf (s.lastPassed st) f p) := by
  rintro ⟨D, _, h⟩
  obtain ⟨s, hs, hp, _⟩ := exec_warmUp D 1 coFrames (by decide) (by decide) (by decide)
  have hw := CleanRun.windows_of_exec hs
  have hd : s.passedOf 1 = coFrames := by
    rw [CleanRun.passedOf, hp]
    decide
  have hn : windowSize ≤ (s.passedOf 1).length := by rw [hd]; decide
  have hv := h {} _ _ s (List.prefix_refl _) hs 1 (coFrame 20 0) hn (by decide)
  rw [(hw.window 1).anomaly_iff hn D, CleanRun.lastPassed, hd] at hv
  have ho : OutlierOf coFrames (coFrame 20 0) .co := (isOutlier_iff (by decide)).mpr <| by decide
  obtain ⟨p, hc⟩ := hv.mpr ⟨.co, ho⟩
  have hl : coFrames.drop (coFrames.length - windowSize) = coFrames := by decide
  rw [hl, NarrowOutlierOf, isOutlier_iff (by simp [coFrames])] at hc
  revert hc
  cases p <;> decide

end IotCollector
