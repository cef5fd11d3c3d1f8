import Mathlib.Data.Nat.Prime.Basic
import IotCollector.Lib.Residue
import IotCollector.Common.Theorems.Tbf

namespace IotCollector

theorem tbfInit_pos {cps burst : UInt64} {alloc : Bool} {t : Tbf}
    (h : tbfInit cps burst alloc = .ok t) : cps ≠ 0 ∧ burst ≠ 0 := by
  unfold tbfInit at h
  split at h
  case isTrue     => cases h
  case isFalse hn => exact not_or.mp hn

namespace Tbf

variable {t t' : Tbf} {want elapsedMs : UInt64} {counted : Bool}

def wrappedRefill (cps elapsedMs : UInt64) : Nat :=
  cps.toNat * min elapsedMs.toNat 60000 % 2 ^ 64 / 1000

def RefillsExactly (t : Tbf) (elapsedMs : UInt64) : Prop :=
  (t.tbfTick elapsedMs).tokens.toNat = min (t.tokens.toNat + refill t.cps elapsedMs) t.burst.toNat

-- The sum does not leave the 64 bits. Neither does the product, unless the bucket gets full anyway.
def NoWrap (t : Tbf) (elapsedMs : UInt64) : Prop :=
  t.tokens.toNat + wrappedRefill t.cps elapsedMs < 2 ^ 64 ∧
  (t.cps.toNat * min elapsedMs.toNat 60000 < 2 ^ 64 ∨
   t.burst.toNat ≤ t.tokens.toNat + wrappedRefill t.cps elapsedMs)

theorem tbfTick_tokens_mod (h : t.tokens ≤ t.burst) (elapsedMs : UInt64) :
    (t.tbfTick elapsedMs).tokens.toNat =
    min ((t.tokens.toNat + wrappedRefill t.cps elapsedMs) % 2 ^ 64) t.burst.toNat := by
  have hm : (if elapsedMs > 60000 then 60000 else elapsedMs).toNat = min elapsedMs.toNat 60000 :=
    toNat_cap elapsedMs 60000
  by_cases he : elapsedMs = 0
  case pos =>
    have := t.tokens.toNat_lt
    rw [UInt64.le_iff_toNat_le] at h
    simp only [he, tbfTick, if_true, wrappedRefill, UInt64.toNat_zero, Nat.zero_min, Nat.mul_zero,
      Nat.zero_mod, Nat.zero_div, Nat.add_zero, Nat.mod_eq_of_lt this, Nat.min_eq_left h]
  case neg =>
    rw [tbfTick, if_neg he, toNat_cap, UInt64.toNat_add, UInt64.toNat_div, UInt64.toNat_mul, hm]
    rfl

theorem refillsExactly_iff (h : t.tokens ≤ t.burst) (elapsedMs : UInt64) :
    t.RefillsExactly elapsedMs ↔ t.NoWrap elapsedMs := by
  have := t.burst.toNat_lt
  rw [UInt64.le_iff_toNat_le] at h
  rw [RefillsExactly, NoWrap, tbfTick_tokens_mod h, refill, wrappedRefill]
  generalize t.cps.toNat * min elapsedMs.toNat 60000 = p
  generalize ha : p % 2 ^ 64 / 1000 = a
  -- A product that wraps brings less.
  have h₁ : p < 2 ^ 64 → a = p / 1000 := by omega
  have h₂ : 2 ^ 64 ≤ p → a < p / 1000 := by omega
  have h₃ : a < 2 ^ 64 := by omega
  clear ha
  simp only [Nat.min_def]
  split_ifs <;> omega

def ServedIn (t : Tbf) (want : UInt64) (counted : Bool) (n : Nat) : Prop :=
  ∃ t' ticks, t.tbfFetchToken want counted (List.replicate n tbfTickMs) = some (.ok, t', ticks)

def IsServed (t : Tbf) (want : UInt64) : Prop :=
  ∃ n, t.ServedIn want false n

theorem servedIn_of_le (hw : want ≠ 0) (hs : t.shutdown = false) (h : t.clamp want ≤ t.tokens)
    (n : Nat) : t.ServedIn want counted n := by
  refine ⟨{ t with tokens := t.tokens - t.clamp want }, List.replicate n tbfTickMs, ?_⟩
  rw [tbfFetchToken.eq_def, if_neg hw, tbfFetchPass, if_neg (by simp [hs]), if_pos h]

theorem servedIn_of_lt
    (hw : want ≠ 0) (hs : t.shutdown = false) (h : t.tokens < t.clamp want) (counted : Bool) :
    ¬t.ServedIn want counted 0 ∧ ∃ b, ∀ n, t.ServedIn want counted (n + 1) ↔
      ({ t with throttledBytes := b }.tbfTick tbfTickMs).ServedIn want true n := by
  rcases t.tbfFetchPass_cases want counted with ⟨hd, _⟩ | ⟨_, hl, _⟩ | ⟨_, _, b, he⟩
  case inl     => cases hs.symm.trans hd
  case inr.inl => exact absurd hl <| UInt64.not_le.mpr h
  case inr.inr =>
    refine ⟨?_, b, fun n => ?_⟩
    · simp [ServedIn, tbfFetchToken.eq_def, hw, he]
    · simp only [ServedIn, List.replicate_succ]
      rw [tbfFetchToken, if_neg hw, he]

-- The tokens go round the 64 bits until they get to the wanted amount, or to the burst above it.
theorem exists_le_orbit_succ {T B a w n : Nat} (ht : T < w) (hw : w ≤ B) (hb : B < 2 ^ 64) :
    (∃ k ≤ n + 1, w ≤ (T + k * a) % 2 ^ 64) ↔
    ∃ k ≤ n, w ≤ (min ((T + a) % 2 ^ 64) B + k * a) % 2 ^ 64 := by
  have hk k : T + (k + 1) * a = T + a + k * a := by rw [Nat.succ_mul, Nat.add_assoc, Nat.add_comm a]
  by_cases hc : (T + a) % 2 ^ 64 ≤ B
  case pos =>
    rw [Nat.min_eq_left hc]
    constructor
    case mpr =>
      intro ⟨k, hn, h⟩
      exact ⟨k + 1, Nat.succ_le_succ hn, by rwa [hk, ← Nat.mod_add_mod]⟩
    case mp =>
      intro ⟨k, hn, h⟩
      cases k
      case zero   => omega
      case succ k => exact ⟨k, Nat.le_of_succ_le_succ hn, by rwa [hk, ← Nat.mod_add_mod] at h⟩
  case neg =>
    rw [Nat.min_eq_right (by omega)]
    refine iff_of_true ⟨1, by omega, by omega⟩ ⟨0, Nat.zero_le _, ?_⟩
    rwa [Nat.zero_mul, Nat.add_zero, Nat.mod_eq_of_lt hb]

theorem servedIn_iff {t : Tbf} {counted : Bool} (h : t.tokens ≤ t.burst) (hw : want ≠ 0)
    (hs : t.shutdown = false) (n : Nat) :
    t.ServedIn want counted n ↔
    ∃ k ≤ n, (t.clamp want).toNat ≤
      (t.tokens.toNat + k * wrappedRefill t.cps tbfTickMs) % 2 ^ 64 := by
  by_cases hl : t.clamp want ≤ t.tokens
  case pos =>
    refine iff_of_true (servedIn_of_le hw hs hl n) ⟨0, Nat.zero_le _, ?_⟩
    rwa [Nat.zero_mul, Nat.add_zero, Nat.mod_eq_of_lt t.tokens.toNat_lt, ← UInt64.le_iff_toNat_le]
  case neg =>
    have hl := UInt64.not_le.mp hl
    have ⟨hz, b, hb⟩ := servedIn_of_lt hw hs hl counted
    cases n
    case zero =>
      refine iff_of_false hz fun ⟨k, hk, h⟩ => ?_
      rw [Nat.le_zero.mp hk, Nat.zero_mul, Nat.add_zero, Nat.mod_eq_of_lt t.tokens.toNat_lt] at h
      exact absurd hl <| UInt64.not_lt.mpr h
    case succ n =>
      let t₁ : Tbf := { t with throttledBytes := b }
      have ⟨h₁, h₂, h₃⟩ := t₁.tbfTick_fields tbfTickMs
      have ht := tbfTick_tokens_mod (t := t₁) h tbfTickMs
      have hc : (t₁.tbfTick tbfTickMs).clamp want = t.clamp want := by rw [clamp, h₂, clamp]
      have hle : (t₁.tbfTick tbfTickMs).tokens ≤ (t₁.tbfTick tbfTickMs).burst := by
        rw [UInt64.le_iff_toNat_le, ht, h₂]
        exact Nat.min_le_right ..
      have hm : (t.clamp want).toNat ≤ t.burst.toNat := by
        rw [clamp_toNat]
        exact Nat.min_le_right ..
      rw [hb, servedIn_iff hle hw (h₃.trans hs) n, hc, h₁, ht]
      exact (exists_le_orbit_succ (UInt64.lt_iff_toNat_lt.mp hl) hm t.burst.toNat_lt).symm
termination_by n

theorem isServed_iff (h : t.tokens ≤ t.burst) (hw : want ≠ 0) (hs : t.shutdown = false) :
    t.IsServed want ↔
    (t.clamp want).toNat ≤ 2 ^ 64 - (wrappedRefill t.cps tbfTickMs).gcd (2 ^ 64) +
      t.tokens.toNat % (wrappedRefill t.cps tbfTickMs).gcd (2 ^ 64) := by
  rw [← Residue.exists_le_add_mul_mod_iff t.tokens.toNat_lt]
  simp only [IsServed, servedIn_iff h hw hs]
  exact ⟨fun ⟨_, k, _, hk⟩ => ⟨k, hk⟩, fun ⟨k, hk⟩ => ⟨k, k, Nat.le_refl _, hk⟩⟩

theorem wrappedRefill_tick {cps : UInt64} (h : cps.toNat * tbfTickMs.toNat < 2 ^ 64) :
    wrappedRefill cps tbfTickMs = cps.toNat / 100 := by
  have hm : min tbfTickMs.toNat 60000 = 10 := rfl
  have hn : tbfTickMs.toNat = 10 := rfl
  rw [hn] at h
  rw [wrappedRefill, hm, Nat.mod_eq_of_lt h]
  omega

theorem gcd_le {a : Nat} (h₀ : 0 < a) (h : a < 2 ^ 55) : a.gcd (2 ^ 64) ≤ 2 ^ 54 := by
  have ⟨k, _, hk⟩ := (Nat.dvd_prime_pow Nat.prime_two).mp <| Nat.gcd_dvd_right a (2 ^ 64)
  have hl : 2 ^ k < 2 ^ 55 := hk ▸ (Nat.gcd_le_left _ h₀).trans_lt h
  rw [hk]
  exact Nat.pow_le_pow_right (by decide) <|
    Nat.le_of_lt_succ <| Nat.pow_lt_pow_iff_right (by decide) |>.mp hl

end Tbf

namespace TbfRun

variable {ι : Type*} {cps burst : UInt64} {r r' : TbfRun ι} {a : TbfAct ι}

theorem Capped.step [DecidableEq ι] (h : Capped cps burst r) (hs : tbfStep r a = some r') :
    Capped cps burst r' := by
  have ⟨_, _, hs⟩ := stepped hs
  cases hs.tokens h
  case inl he =>
    obtain ⟨e, rfl, hb, _⟩ := he
    obtain ⟨rfl, rfl, ht⟩ := h
    have ⟨h₁, h₂, _⟩ := r.bucket.tbfTick_fields e
    refine ⟨hb ▸ h₁, hb ▸ h₂, ?_⟩
    rw [hb, UInt64.le_iff_toNat_le, Tbf.tbfTick_tokens_mod ht]
    exact Nat.min_le_right ..
  case inr he =>
    obtain ⟨h₁, h₂, he⟩ := he
    have := UInt64.le_iff_toNat_le.mp h.tokens_le
    exact ⟨h₁, h₂, UInt64.le_iff_toNat_le.mpr <| by omega⟩

theorem capped_of_exec [DecidableEq ι] {alloc : Bool} {bucket : Tbf} {as : List (TbfAct ι)}
    (hi : tbfInit cps burst alloc = .ok bucket) (hs : tbfStep.exec (.init bucket) as = some r) :
    Capped cps burst r :=
  Transition.always_of_preserved (capped_init hi) Capped.step as as r List.prefix_rfl hs

theorem exec_drain [DecidableEq ι] {alloc : Bool} {bucket : Tbf}
    (hi : tbfInit cps burst alloc = .ok bucket) (i : ι) :
    ∃ s, tbfStep.exec (.init bucket) [.fetch i burst (-1), .pass i] = some s ∧
      s.bucket = { bucket with tokens := 0 } := by
  have ⟨hb, ht, hs⟩ := tbfInit_fields hi
  have hn := (tbfInit_pos hi).right
  have hc : bucket.clamp burst = burst := by simp [Tbf.clamp, hb]
  have hp : bucket.tbfFetchPass burst false = .returns .ok { bucket with tokens := 0 } := by
    simp [Tbf.tbfFetchPass, hc, hs, ht]
  refine ⟨_, by
    simp [tbfStep, init, fetchStep, hn, setCaller, passStep, hp, giveBack]
    rfl, ?_⟩
  simp

end TbfRun

-- A tick does what it does in unbounded arithmetic exactly if the 64 bits are not exceeded. For a
-- rate at which no product exceeds them, all ticks do so in all states exactly if the sum of the burst
-- and of 60 seconds' tokens does not.
theorem tick_exact_iff {ι : Type*} [DecidableEq ι] {cps burst : UInt64} {alloc : Bool} {bucket : Tbf}
    (hi : tbfInit cps burst alloc = .ok bucket) :
    (∀ (as : List (TbfAct ι)) s, tbfStep.exec (.init bucket) as = some s → ∀ elapsedMs,
      s.bucket.RefillsExactly elapsedMs ↔ s.bucket.NoWrap elapsedMs) ∧
    (cps.toNat * 60000 < 2 ^ 64 →
      ((∀ (as : List (TbfAct ι)) s, tbfStep.exec (.init bucket) as = some s → ∀ elapsedMs,
        s.bucket.RefillsExactly elapsedMs) ↔ burst.toNat + 60 * cps.toNat < 2 ^ 64)) := by
  have hc {as : List (TbfAct ι)} {s} (hs : tbfStep.exec (.init bucket) as = some s) :=
    TbfRun.capped_of_exec hi hs
  have he {as : List (TbfAct ι)} {s} (hs : tbfStep.exec (.init bucket) as = some s) elapsedMs :=
    s.bucket.refillsExactly_iff (hc hs).tokens_le_burst elapsedMs
  refine ⟨fun as s hs => he hs, fun hp => ⟨fun h => ?_, fun h as s hs elapsedMs => ?_⟩⟩
  · have ⟨hb, ht, _⟩ := tbfInit_fields hi
    have hn := ((@he [] _ rfl 60000).mp <| h [] _ rfl 60000).left
    have hw : Tbf.wrappedRefill cps 60000 = 60 * cps.toNat := by
      have hm : cps.toNat * min (60000 : UInt64).toNat 60000 = cps.toNat * 60000 := rfl
      rw [Tbf.wrappedRefill, hm, Nat.mod_eq_of_lt hp]
      omega
    rwa [(@hc [] _ rfl).cps_eq, hw, TbfRun.init, ht] at hn
  · have ⟨h₁, _, h₂⟩ := hc hs
    have hl : cps.toNat * min elapsedMs.toNat 60000 < 2 ^ 64 :=
      (Nat.mul_le_mul_left _ <| Nat.min_le_right ..).trans_lt hp
    have hr := Tbf.refill_le cps elapsedMs
    rw [UInt64.le_iff_toNat_le] at h₂
    refine (he hs elapsedMs).mpr ⟨?_, .inl <| h₁.symm ▸ hl⟩
    rw [h₁, Tbf.wrappedRefill, Nat.mod_eq_of_lt hl, ← Tbf.refill]
    omega

theorem tick_exact_iff_default :
    Tbf.RefillsExactly ⟨524288, 1048576, 1048576, false, 0⟩ 1000 :=
  have hi : tbfInit 524288 1048576 true = .ok ⟨524288, 1048576, 1048576, false, 0⟩ := rfl
  (tick_exact_iff hi).right (by simp) |>.mpr (by simp) ([] : List (TbfAct Nat)) _ rfl 1000

-- A bucket which is as large as can be, and full.
theorem tick_exact_false :
    ¬∀ (cps burst : UInt64) (alloc : Bool) (bucket : Tbf), tbfInit cps burst alloc = .ok bucket →
      ∀ (as : List (TbfAct Nat)) s, tbfStep.exec (.init bucket) as = some s →
        ∀ elapsedMs, s.bucket.RefillsExactly elapsedMs := by
  intro h
  let full : UInt64 := 18446744073709551615
  have h := h 1000 full true ⟨1000, full, full, false, 0⟩ rfl [] _ rfl 1000
  revert h
  rw [Tbf.RefillsExactly, imp_false]
  decide +kernel

-- The ticks bring the tokens to `2 ^ 64 - g + tokens % g` at best, where `g` is the greatest common
-- divisor of a tick's tokens and `2 ^ 64`: nowhere if a tick brings none. In a bucket in which nothing
-- can wrap, every request is served exactly if a tick brings a token.
theorem served_iff {ι : Type*} [DecidableEq ι] [Inhabited ι] {cps burst : UInt64} {alloc : Bool}
    {bucket : Tbf} (hi : tbfInit cps burst alloc = .ok bucket) :
    (∀ (as : List (TbfAct ι)) s, tbfStep.exec (.init bucket) as = some s →
      s.bucket.shutdown = false → ∀ want ≠ 0,
        let g := (Tbf.wrappedRefill cps tbfTickMs).gcd (2 ^ 64)
        (s.bucket.IsServed want ↔
          min want.toNat burst.toNat ≤ 2 ^ 64 - g + s.bucket.tokens.toNat % g)) ∧
    (cps.toNat * tbfTickMs.toNat < 2 ^ 64 → burst.toNat ≤ 2 ^ 64 - 2 ^ 54 →
      ((∀ (as : List (TbfAct ι)) s, tbfStep.exec (.init bucket) as = some s →
        s.bucket.shutdown = false → ∀ want ≠ 0, s.bucket.IsServed want) ↔ 100 ≤ cps)) := by
  have hc {as : List (TbfAct ι)} {s} (hs : tbfStep.exec (.init bucket) as = some s) :=
    TbfRun.capped_of_exec hi hs
  have he {as : List (TbfAct ι)} {s} (hs : tbfStep.exec (.init bucket) as = some s)
      (hd : s.bucket.shutdown = false) want (hw : want ≠ 0) :=
    s.bucket.isServed_iff (hc hs).tokens_le_burst hw hd
  refine ⟨fun as s hs hd want hw => ?_, fun hp hb => ⟨fun h => ?_, fun h as s hs hd want hw => ?_⟩⟩
  · rw [he hs hd want hw, Tbf.clamp_toNat, (hc hs).cps_eq, (hc hs).burst_eq]
  · by_contra hl
    have ⟨s, hs, ht⟩ := TbfRun.exec_drain hi (default : ι)
    have hd : s.bucket.shutdown = false := ht ▸ (tbfInit_fields hi).right.right
    have hw := (he hs hd 1 (by decide)).mp <| h _ s hs hd 1 (by decide)
    have hr : Tbf.wrappedRefill s.bucket.cps tbfTickMs = 0 := by
      rw [(hc hs).cps_eq, Tbf.wrappedRefill_tick hp]
      exact Nat.div_eq_of_lt <| UInt64.lt_iff_toNat_lt.mp <| UInt64.not_le.mp hl
    have hn : burst.toNat ≠ 0 := fun h => (tbfInit_pos hi).right <| UInt64.toNat_inj.mp h
    rw [hr, Nat.gcd_zero_left, Tbf.clamp_toNat, (hc hs).burst_eq, ht] at hw
    simp only [UInt64.toNat_one, UInt64.toNat_zero] at hw
    omega
  · rw [he hs hd want hw, Tbf.clamp_toNat, (hc hs).cps_eq, (hc hs).burst_eq,
      Tbf.wrappedRefill_tick hp]
    have hr : 100 ≤ cps.toNat := h
    have := cps.toNat_lt
    have hp : cps.toNat * 10 < 2 ^ 64 := hp
    have := Tbf.gcd_le (a := cps.toNat / 100) (by omega) (by omega)
    omega

-- A caller takes all of the tokens, and another one waits for a frame's worth of them.
def drainAndWait : List (TbfAct Nat) :=
  [.fetch 0 1048576 (-1), .pass 0, .fetch 1 28 (-1), .pass 1]

theorem served_iff_default :
    ∃ s, tbfStep.exec (.init ⟨524288, 1048576, 1048576, false, 0⟩) drainAndWait = some s ∧
      s.bucket.tokens = 0 ∧ s.callers 1 = .waiting 28 (-1) ∧ s.bucket.IsServed 28 :=
  have hi : tbfInit 524288 1048576 true = .ok ⟨524288, 1048576, 1048576, false, 0⟩ := rfl
  ⟨_, rfl, rfl, rfl, (served_iff hi).right (by simp [tbfTickMs]) (by simp) |>.mpr (by decide)
    drainAndWait _ rfl rfl 28 (by decide)⟩

-- With 99 bytes a second, a tick brings nothing.
theorem served_false :
    ¬∀ (cps burst : UInt64) (alloc : Bool) (bucket : Tbf), tbfInit cps burst alloc = .ok bucket →
      ∀ (as : List (TbfAct Nat)) s, tbfStep.exec (.init bucket) as = some s →
        s.bucket.shutdown = false → ∀ want ≠ 0, s.bucket.IsServed want := by
  intro h
  have hi : tbfInit 99 1 true = .ok ⟨99, 1, 1, false, 0⟩ := rfl
  have ⟨s, hs, ht⟩ := TbfRun.exec_drain hi 0
  have hd : s.bucket.shutdown = false := by rw [ht]
  have hc := TbfRun.capped_of_exec hi hs
  have h := (s.bucket.isServed_iff hc.tokens_le_burst (by decide) hd).mp <|
    h 99 1 true _ hi _ s hs hd 1 (by decide)
  rw [ht] at h
  exact absurd h (by decide +kernel)

end IotCollector
