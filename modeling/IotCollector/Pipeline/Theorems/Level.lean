import IotCollector.Pipeline.Theorems.Verdict

namespace IotCollector

open Cleaner Deviation StationInternalCtx

def EnvFrame.Carries (f : EnvFrame) (v : Param → ℤ) : Prop :=
  ∀ p, f.value p = v p

theorem EnvFrame.carries_iff {f : EnvFrame} {v : Param → ℤ} :
    (∀ p ∈ Param.all, f.value p = v p) ↔ f.Carries v :=
  forall_congr' fun p => forall_prop_of_true p.mem_all

instance (f : EnvFrame) (v : Param → ℤ) : Decidable (f.Carries v) :=
  decidable_of_iff _ EnvFrame.carries_iff

-- The frames of a station that goes on sending the same measurements, one second apart. The seconds
-- start anew where their 32 bits end.
structure Sends (st : UInt16) (v : Param → ℤ) (frames : Nat → EnvFrame) : Prop where
  station k : (frames k).stationId = st
  data    k : (frames k).IsData
  inRange k : (frames k).InRange
  carries k : (frames k).Carries v
  sec     k : (frames (k + 1)).timestampSec = (frames k).timestampSec + 1
  ms      k : (frames (k + 1)).timestampMs = (frames k).timestampMs

namespace StationInternalCtx

structure Behind (v : Param → ℤ) (ctx : StationInternalCtx) (f : EnvFrame) : Prop where
  lastValid : ∀ t ∈ ctx.lastValid, t.Before f.stamp
  buffered  : ∀ g ∈ ctx.buffered, ¬g.Carries v → g.Before f

end StationInternalCtx

-- How many frames it takes at most until one with the measurements `v` comes out of a buffer.
def lag (v : Param → ℤ) (buffered : List EnvFrame) : Nat :=
  reorderCap - buffered.length + buffered.countP (¬·.Carries v)

namespace Cleaner

variable (D : Type*) [DoubleArith D] (c : Cleaner) (f : EnvFrame) (v : Param → ℤ)

def Hands : Prop :=
  ∃ ctx g, c.route f true = .handed ctx g ∧ g.Carries v

def Passes : Prop :=
  let r := c.cleanerProcess D f true
  r.fst = .pass ∧ r.snd.fst.Carries v

def after (frames : Nat → EnvFrame) : Nat → Cleaner
  | 0     => c
  | k + 1 => ((after frames k).cleanerProcess D (frames k) true).snd.snd

end Cleaner

variable {D : Type*} [DoubleArith D] {c : Cleaner} {ctx ctx₀ : StationInternalCtx} {f g : EnvFrame}
  {v : Param → ℤ} {st : UInt16} {frames : Nat → EnvFrame}

namespace EnvFrame

theorem Carries.param_eq (hf : f.Carries v) (hg : g.Carries v) (p : Param) :
    f.param p = g.param p := by
  rw [← Int16.toInt_inj, toInt_param, toInt_param, hf p, hg p]

theorem Carries.inRange (hf : f.Carries v) (hg : g.Carries v) (h : f.InRange) : g.InRange := by
  have he p : g.value p = f.value p := (hg p).trans (hf p).symm
  have h₁ := he .pm25
  have h₂ := he .pm10
  have h₃ := he .temp
  have h₄ := he .hum
  have h₅ := he .co
  have h₆ := he .noise
  simp only [value, Nat.cast_inj, UInt16.toNat_inj, Int16.toInt_inj] at h₁ h₂ h₃ h₄ h₅ h₆
  rwa [InRange, h₁, h₂, h₃, h₄, h₅, h₆]

end EnvFrame

theorem anomalyDetectAll_congr (ctx : StationCtx) (hf : f.Carries v) (hg : g.Carries v) :
    ctx.anomalyDetectAll D f = ctx.anomalyDetectAll D g := by
  simp only [StationCtx.anomalyDetectAll, hf.param_eq hg]

namespace Cleaner

theorem buffered_ctxOf (c : Cleaner) (st : UInt16) : (c.ctxOf st).buffered = c.buffered st :=
  (getInternalCtx_eq_some <| getInternalCtx_eq c st).right

@[simp]
theorem buffered_count (c : Cleaner) (kind : Nat) : (c.count kind).buffered st = c.buffered st :=
  rfl

theorem routed (hd : f.IsData) : Routed f (c.ctxOf f.stationId) (c.route f true) :=
  route_routed hd <| getInternalCtx_eq ..

theorem lag_step (hd : f.IsData) (hf : f.Carries v) (hn : ¬c.Hands f v) :
    let c' := (c.cleanerProcess D f true).snd.snd
    lag v (c'.ctxOf f.stationId).buffered ≤ lag v (c.ctxOf f.stationId).buffered ∧
    (¬(c.ctxOf f.stationId).IsStale f →
      lag v (c'.ctxOf f.stationId).buffered < lag v (c.ctxOf f.stationId).buffered) := by
  have hr := routed (c := c) hd
  simp only [buffered_ctxOf, cleanerProcess_eq]
  rw [← buffered_ctxOf c]
  generalize hc : c.route f true = r at hr
  cases hr
  case direct   => exact absurd ⟨_, _, hc, hf⟩ hn
  case stale hs => exact ⟨by simp [follow], (absurd hs ·)⟩
  case waits h  =>
    have hl : (c.ctxOf f.stationId).buffered.length < reorderCap := by
      rw [StationInternalCtx.buffered, List.length_take]
      omega
    have hw : lag v ((c.ctxOf f.stationId).buffer f h).buffered <
        lag v (c.ctxOf f.stationId).buffered := by
      simp [buffered_buffer, lag, hf]
      omega
    simpa [follow] using ⟨hw.le, fun _ => hw⟩
  case swapped h =>
    have ho : ¬(c.ctxOf f.stationId).oldest.Carries v := fun ho => hn ⟨_, _, hc, ho⟩
    have hp := (c.ctxOf f.stationId).buffered_swap_perm f h
    have hs : lag v ((c.ctxOf f.stationId).swap f).buffered <
        lag v (c.ctxOf f.stationId).buffered := by
      have hl := hp.length_eq
      have hm := hp.countP_eq (¬·.Carries v)
      simp [hf, ho] at hl hm
      simp only [lag, decide_not]
      omega
    simpa [follow, processValidFrame_buffered] using ⟨hs.le, fun _ => hs⟩

theorem passes_iff (hd : f.IsData) (hr : f.InRange) (hf : f.Carries v) :
    c.Passes D f v ↔
    c.Hands f v ∧ (c.ctxOf f.stationId).base.anomalyDetectAll D f = false := by
  have ht {ctx g} (hc : c.route f true = .handed ctx g)
      (hb : ctx.base = (c.ctxOf f.stationId).base) :
      c.Passes D f v ↔
      c.Hands f v ∧ (c.ctxOf f.stationId).base.anomalyDetectAll D f = false := by
    have hh : c.Hands f v ↔ g.Carries v := by
      simp [Hands, hc]
    rw [Passes, cleanerProcess_eq, hc, follow, hh, and_comm]
    refine and_congr_right fun hg => ?_
    rw [anomalyDetectAll_congr _ hf hg, ← hb]
    by_cases ha : ctx.Admits D g
    case pos => simp [processValidFrame_of_admits _ _ _ ha, ha.right]
    case neg =>
      obtain ⟨_, _, hp⟩ := processValidFrame_of_not_admits c ctx f.stationId ha
      simpa [hp] using fun h => ha ⟨hf.inRange hg hr, h⟩
  have hr := routed (c := c) hd
  generalize hc : c.route f true = r at hr
  cases hr
  case stale    => simp [Passes, Hands, cleanerProcess_eq, hc, follow]
  case waits    => simp [Passes, Hands, cleanerProcess_eq, hc, follow]
  case swapped  => exact ht hc rfl
  case direct   => exact ht hc rfl

end Cleaner

-- What has passed, or waits with other measurements, stood in the context from the start.
structure Since (v : Param → ℤ) (ctx₀ ctx : StationInternalCtx) : Prop where
  lastValid : ∀ t ∈ ctx.lastValid,
    t ∈ ctx₀.lastValid ∨ ∃ g ∈ ctx₀.buffered, ¬g.Carries v ∧ g.stamp = t
  buffered  : ∀ g ∈ ctx.buffered, ¬g.Carries v → g ∈ ctx₀.buffered

theorem Since.refl (v : Param → ℤ) (ctx : StationInternalCtx) : Since v ctx ctx where
  lastValid _ ht  := .inl ht
  buffered _ hg _ := hg

theorem Since.step (h : Since v ctx₀ (c.ctxOf f.stationId)) (hf : f.Carries v)
    (hn : ¬c.Passes D f v) :
    Since v ctx₀ ((c.cleanerProcess D f true).snd.snd.ctxOf f.stationId) := by
  have he := cleanerProcess_effect D c f true
  have hm {ctx} (hb : OnlyBuffers f (c.ctxOf f.stationId) ctx) :
      ∀ g ∈ ctx.buffered, ¬g.Carries v → g ∈ ctx₀.buffered := by
    intro g hg hv
    cases hb.mem hg
    case inl hg => exact h.buffered g hg hv
    case inr hg => exact absurd (hg ▸ hf) hv
  by_cases hp : (c.cleanerProcess D f true).fst = .pass
  case neg =>
    have hb := he.of_ne hp
    refine ⟨?_, hm hb⟩
    have ⟨_, ht, hv⟩ := hb.keeps
    rw [StationInternalCtx.lastValid, ht, hv]
    exact h.lastValid
  case pos =>
    obtain ⟨ctx, hg, _, hb, hc⟩ := he.of_pass hp
    have hv : ¬(c.cleanerProcess D f true).snd.fst.Carries v := fun hv => hn ⟨hp, hv⟩
    rw [hc]
    refine ⟨fun t ht => .inr ⟨_, ?_, hv, Option.some.inj ht⟩, fun g hg => hm hb g hg⟩
    cases hg
    case inl hg => exact absurd (by rwa [hg]) hv
    case inr hg => exact h.buffered _ hg hv

theorem Since.not_isStale (h : Since v ctx₀ ctx) (hb : ctx₀.Behind v f) : ¬ctx.IsStale f := by
  rw [not_isStale_iff]
  intro t ht
  cases h.lastValid t ht
  case inl ht => exact hb.lastValid t ht
  case inr ht =>
    obtain ⟨g, hg, hv, rfl⟩ := ht
    exact hb.buffered g hg hv

namespace Sends

theorem sec_add (h : Sends st v frames) (k n : Nat) :
    (frames (k + n)).timestampSec.toNat = ((frames k).timestampSec.toNat + n) % 2 ^ 32 := by
  induction n
  case zero => exact (Nat.mod_eq_of_lt (UInt32.toNat_lt _)).symm
  case succ n hi =>
    simp only [← Nat.add_assoc, h.sec, UInt32.toNat_add, hi, UInt32.reduceToNat]
    omega

theorem ms_add (h : Sends st v frames) (k n : Nat) :
    (frames (k + n)).timestampMs = (frames k).timestampMs := by
  induction n
  case zero      => rfl
  case succ n hi => rw [← Nat.add_assoc, h.ms, hi]

theorem stamp_add (h : Sends st v frames) (k n : Nat) :
    (frames (k + n * 2 ^ 32)).stamp = (frames k).stamp := by
  refine Prod.ext (UInt32.toNat_inj.mp ?_) (h.ms_add k _)
  have := (frames k).timestampSec.toNat_lt
  simp only [EnvFrame.stamp, h.sec_add]
  omega

theorem since (h : Sends st v frames) (k : Nat)
    (hn : ∀ j < k, ¬(c.after D frames j).Passes D (frames j) v) :
    Since v (c.ctxOf st) ((c.after D frames k).ctxOf st) := by
  induction k
  case zero      => exact .refl ..
  case succ k hi =>
    have hs := hi fun j hj => hn j <| Nat.lt_succ_of_lt hj
    rw [← h.station k] at hs ⊢
    exact hs.step (h.carries k) <| hn k <| Nat.lt_succ_self k

theorem behind_add (h : Sends st v frames) {i : Nat} (hb : ctx₀.Behind v (frames i)) (n : Nat) :
    ctx₀.Behind v (frames (i + n * 2 ^ 32)) := by
  have hs := h.stamp_add i n
  refine ⟨fun t ht => hs ▸ hb.lastValid t ht, fun g hg hv => ?_⟩
  rw [EnvFrame.Before, hs]
  exact hb.buffered g hg hv

-- As long as no frame with the measurements `v` passes, there is another one that is put to the test:
-- the lag cannot get smaller for ever.
theorem exists_hands (h : Sends st v frames) {i : Nat} (hb : (c.ctxOf st).Behind v (frames i))
    (k : Nat) (hn : ∀ j < k, ¬(c.after D frames j).Passes D (frames j) v) :
    ∃ j ≥ k, (c.after D frames j).Hands (frames j) v := by
  by_contra hc
  simp only [not_exists, not_and] at hc
  have hp : ∀ j, ¬(c.after D frames j).Passes D (frames j) v := by
    intro j hj
    by_cases hk : j < k
    case pos => exact hn j hk hj
    case neg =>
      have hh := (passes_iff (h.data j) (h.inRange j) (h.carries j)).mp hj
      exact hc j (Nat.not_lt.mp hk) hh.left
  let lagAt j := lag v ((c.after D frames j).ctxOf st).buffered
  have hl : ∀ j ≥ k, lagAt (j + 1) ≤ lagAt j ∧
      (¬((c.after D frames j).ctxOf st).IsStale (frames j) → lagAt (j + 1) < lagAt j) := by
    intro j hj
    have hs := lag_step (D := D) (h.data j) (h.carries j) (hc j hj)
    rwa [h.station] at hs
  have ⟨n, he⟩ := WellFoundedLT.antitone_chain_condition <|
    antitone_add_nat_of_succ_le fun j hj => (hl j hj).left
  let j := i + (n + k) * 2 ^ 32
  have hj : j ≥ k := by omega
  have hs := (h.since j fun l _ => hp l).not_isStale <| h.behind_add hb (n + k)
  have h₁ := he (j - k) (by omega)
  have h₂ := he (j + 1 - k) (by omega)
  rw [Nat.sub_add_cancel (by omega)] at h₁ h₂
  exact ((hl j hj).right hs).ne <| h₂.symm.trans h₁

theorem unchanged (h : Sends st v frames) (hb : ∀ g ∈ (c.ctxOf st).buffered, g.Carries v) (k : Nat)
    (hn : ∀ j < k, ¬(c.after D frames j).Passes D (frames j) v) :
    ((c.after D frames k).ctxOf st).base = (c.ctxOf st).base ∧
    ((c.after D frames k).ctxOf st).lastValid = (c.ctxOf st).lastValid := by
  induction k
  case zero => exact ⟨rfl, rfl⟩
  case succ k hi =>
    have hl : ∀ j < k, ¬(c.after D frames j).Passes D (frames j) v :=
      fun j hj => hn j <| Nat.lt_succ_of_lt hj
    have hs := h.since k hl
    have he := cleanerProcess_effect D (c.after D frames k) (frames k) true
    rw [h.station k] at he
    have hp : ((c.after D frames k).cleanerProcess D (frames k) true).fst ≠ .pass := by
      intro hp
      obtain ⟨_, hg, _⟩ := he.of_pass hp
      refine hn k (Nat.lt_succ_self k) ⟨hp, ?_⟩
      cases hg
      case inl hg => rw [hg]; exact h.carries k
      case inr hg =>
        by_contra hv
        exact hv <| hb _ <| hs.buffered _ hg hv
    have ⟨h₁, h₂, h₃⟩ := (he.of_ne hp).keeps
    simp only [after, StationInternalCtx.lastValid, h₁, h₂, h₃]
    exact hi hl

theorem exists_passes_iff (h : Sends st v frames) (hb : ∀ g ∈ (c.ctxOf st).buffered, g.Carries v)
    (hl : ∀ t ∈ (c.ctxOf st).lastValid, t.Before (frames 0).stamp) :
    (∃ k, (c.after D frames k).Passes D (frames k) v) ↔
    (c.ctxOf st).base.anomalyDetectAll D (frames 0) = false := by
  have hv {k} (hn : ∀ j < k, ¬(c.after D frames j).Passes D (frames j) v) :
      ((c.after D frames k).ctxOf (frames k).stationId).base.anomalyDetectAll D (frames k) =
      (c.ctxOf st).base.anomalyDetectAll D (frames 0) := by
    rw [h.station, (h.unchanged hb k hn).left, anomalyDetectAll_congr _ (h.carries k) (h.carries 0)]
  constructor
  · intro he
    classical
    have hf := (passes_iff (h.data _) (h.inRange _) (h.carries _)).mp <| Nat.find_spec he
    rw [← hv fun _ => Nat.find_min he]
    exact hf.right
  · intro ha
    by_contra hn
    rw [not_exists] at hn
    have ⟨j, _, hh⟩ := h.exists_hands (D := D) ⟨hl, fun g hg hg' => absurd (hb g hg) hg'⟩ 0 nofun
    refine hn j <| (passes_iff (h.data j) (h.inRange j) (h.carries j)).mpr ⟨hh, ?_⟩
    rw [hv fun j _ => hn j, ha]

end Sends

-- A frame with the measurements `v` passes when the test finds no outlier in it, and such frames are
-- put to the test again and again until one passes. If only such frames wait, it is the first verdict
-- that counts, and the windows stay as they are for ever if it is an outlier.
theorem level_change_iff (D : Type*) [DoubleArith D] (c : Cleaner) (st : UInt16) (v : Param → ℤ)
    (frames : Nat → EnvFrame) (hs : Sends st v frames)
    (hl : ∀ t ∈ (c.ctxOf st).lastValid, t.Before (frames 0).stamp) :
    let s := c.after D frames
    (∀ k, (s k).Passes D (frames k) v ↔
      (s k).Hands (frames k) v ∧
      ((s k).ctxOf st).base.anomalyDetectAll D (frames k) = false) ∧
    ((∃ i, (c.ctxOf st).Behind v (frames i)) →
      ∀ k, (∃ j < k, (s j).Passes D (frames j) v) ∨ ∃ j ≥ k, (s j).Hands (frames j) v) ∧
    ((∀ g ∈ (c.ctxOf st).buffered, g.Carries v) →
      ((∃ k, (s k).Passes D (frames k) v) ↔
        (c.ctxOf st).base.anomalyDetectAll D (frames 0) = false) ∧
      ((c.ctxOf st).base.anomalyDetectAll D (frames 0) = true → ∀ k,
        ((s k).ctxOf st).base = (c.ctxOf st).base ∧
        ((s k).ctxOf st).lastValid = (c.ctxOf st).lastValid)) := by
  intro s
  refine ⟨fun k => ?_, fun hi k => ?_, fun hb => ⟨hs.exists_passes_iff hb hl, fun ha k => ?_⟩⟩
  · rw [passes_iff (hs.data k) (hs.inRange k) (hs.carries k), hs.station]
  · obtain ⟨i, hi⟩ := hi
    by_cases hn : ∃ j < k, (s j).Passes D (frames j) v
    case pos => exact .inl hn
    case neg => exact .inr <| hs.exists_hands hi k fun j hj hp => hn ⟨j, hj, hp⟩
  · refine hs.unchanged hb k fun j _ hp => ?_
    rw [(hs.exists_passes_iff hb hl).mp ⟨j, hp⟩] at ha
    contradiction

def tempFrame (sec : UInt32) (temperature : Int16) : EnvFrame :=
  { frameAt sec with temperature := temperature }

-- Sixteen frames in which the temperature goes up and down by a tenth of a degree.
def tempFrames : List EnvFrame :=
  [1, 3, 5, 7, 9, 11, 13, 15].flatMap fun sec => [tempFrame sec 0, tempFrame (sec + 1) 1]

def warmFrames (k : Nat) : EnvFrame :=
  tempFrame (17 + .ofNat k) 100

theorem warmFrames_sends : Sends 1 (warmFrames 0).value warmFrames where
  station _ := rfl
  data _    := (by decide : (warmFrames 0).IsData)
  inRange _ := (by decide : (warmFrames 0).InRange)
  carries _ := fun p => by cases p <;> rfl
  sec k     := by simp [warmFrames, tempFrame, frameAt, UInt32.ofNat_add, UInt32.add_assoc]
  ms _      := rfl

theorem exec_tempFrames (D : Type*) [RoundedArith D] :
    ∃ s, (cleanStep D).exec (.init {}) (tempFrames.map (·, true)) = some s ∧ s.passed = tempFrames ∧
      (∀ t ∈ (s.cleaner.ctxOf 1).lastValid, t.Before (warmFrames 0).stamp) ∧
      (∀ g ∈ (s.cleaner.ctxOf 1).buffered, g.Carries (warmFrames 0).value) ∧
      (s.cleaner.ctxOf 1).base.anomalyDetectAll D (warmFrames 0) = true := by
  obtain ⟨s, hs, hp, ht, hb⟩ := exec_warmUp D 1 tempFrames (by decide) (by decide) (by decide)
  have hw := CleanRun.windows_of_exec hs
  have hd : s.passedOf 1 = tempFrames := by
    rw [CleanRun.passedOf, hp]
    decide
  refine ⟨s, hs, hp, fun t hm => ?_, by simp [StationInternalCtx.buffered, hb], ?_⟩
  · obtain rfl := Option.mem_some_iff.mp (ht ▸ hm)
    decide
  · rw [(hw.window 1).anomaly_iff (by rw [hd]; decide) D, hd]
    exact ⟨.temp, (isOutlier_iff (by decide)).mpr <| by decide⟩

-- No frame of the station passes any more, and its windows stay as they are.
theorem level_change_iff_warm :
    ∃ s, (cleanStep ℝ).exec (.init {}) (tempFrames.map (·, true)) = some s ∧ s.passed = tempFrames ∧
      (¬∃ k, (s.cleaner.after ℝ warmFrames k).Passes ℝ (warmFrames k) (warmFrames 0).value) ∧
      ∀ k, ((s.cleaner.after ℝ warmFrames k).ctxOf 1).base = (s.cleaner.ctxOf 1).base := by
  obtain ⟨s, hs, hp, hl, hb, ha⟩ := exec_tempFrames ℝ
  have h := level_change_iff ℝ s.cleaner 1 _ warmFrames warmFrames_sends hl
  refine ⟨s, hs, hp, fun hk => ?_, fun k => ((h.right.right hb).right ha k).left⟩
  rw [(h.right.right hb).left.mp hk] at ha
  contradiction

-- The station that has got warmer is never heard of again.
theorem level_change_false :
    ¬∃ (D : Type) (_ : RoundedArith D), ∀ (stats : IotStats) (ops : List CleanOp) (s : CleanRun),
      (cleanStep D).exec (.init stats) ops = some s →
      ∀ st v frames, Sends st v frames →
        (∀ t ∈ (s.cleaner.ctxOf st).lastValid, t.Before (frames 0).stamp) →
        ∃ k, (s.cleaner.after D frames k).Passes D (frames k) v := by
  rintro ⟨D, _, h⟩
  obtain ⟨s, hs, _, hl, hb, ha⟩ := exec_tempFrames D
  have hv := (warmFrames_sends.exists_passes_iff hb hl).mp <| h {} _ s hs 1 _ _ warmFrames_sends hl
  rw [hv] at ha
  contradiction

end IotCollector
