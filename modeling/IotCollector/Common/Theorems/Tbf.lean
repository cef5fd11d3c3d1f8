import Mathlib.Algebra.BigOperators.Group.List.Basic
import IotCollector.Common.TbfRun

namespace IotCollector

theorem tbfInit_fields {cps burst : UInt64} {alloc : Bool} {t : Tbf}
    (h : tbfInit cps burst alloc = .ok t) :
    t.burst = burst ∧ t.tokens = burst ∧ t.shutdown = false := by
  unfold tbfInit at h
  split at h
  case isTrue => cases h
  case isFalse =>
    split at h <;> cases h
    exact ⟨rfl, rfl, rfl⟩

namespace Tbf

def refill (cps elapsedMs : UInt64) : Nat :=
  cps.toNat * min elapsedMs.toNat 60000 / 1000

variable {t : Tbf}

theorem toNat_cap (a b : UInt64) : (if a > b then b else a).toNat = min a.toNat b.toNat := by
  split
  case isTrue h  => exact (Nat.min_eq_right <| Nat.le_of_lt h).symm
  case isFalse h => exact (Nat.min_eq_left <| Nat.not_lt.mp h).symm

theorem clamp_toNat (want : UInt64) : (t.clamp want).toNat = min want.toNat t.burst.toNat :=
  toNat_cap want t.burst

theorem refill_toNat (h : t.cps.toNat * 60000 < 2 ^ 64) (elapsedMs : UInt64) :
    (t.cps * (if elapsedMs > 60000 then 60000 else elapsedMs) / 1000).toNat =
    refill t.cps elapsedMs := by
  have hp : t.cps.toNat * min elapsedMs.toNat 60000 < 2 ^ 64 :=
    Nat.lt_of_le_of_lt (Nat.mul_le_mul_left _ <| Nat.min_le_right ..) h
  have hm : (if elapsedMs > 60000 then 60000 else elapsedMs).toNat = min elapsedMs.toNat 60000 :=
    toNat_cap elapsedMs 60000
  rw [UInt64.toNat_div, UInt64.toNat_mul, hm, Nat.mod_eq_of_lt hp]
  rfl

theorem refill_le (cps elapsedMs : UInt64) : refill cps elapsedMs ≤ 60 * cps.toNat := by
  have : cps.toNat * min elapsedMs.toNat 60000 ≤ cps.toNat * 60000 :=
    Nat.mul_le_mul_left _ <| Nat.min_le_right ..
  unfold refill
  omega

theorem tbfTick_tokens (hc : t.cps.toNat * 60000 < 2 ^ 64)
    (hb : t.burst.toNat + 60 * t.cps.toNat < 2 ^ 64) (ht : t.tokens.toNat ≤ t.burst.toNat)
    (elapsedMs : UInt64) :
    (t.tbfTick elapsedMs).tokens.toNat =
    min (t.tokens.toNat + refill t.cps elapsedMs) t.burst.toNat := by
  by_cases he : elapsedMs = 0
  case pos =>
    simp [tbfTick, he, refill, ht]
  case neg =>
    have hr := refill_le t.cps elapsedMs
    have hs : (t.tokens + t.cps * (if elapsedMs > 60000 then 60000 else elapsedMs) / 1000).toNat =
        t.tokens.toNat + refill t.cps elapsedMs := by
      rw [UInt64.toNat_add, refill_toNat hc, Nat.mod_eq_of_lt (by omega)]
    rw [← hs, ← toNat_cap, tbfTick, if_neg he]

theorem tbfTick_fields (t : Tbf) (elapsedMs : UInt64) :
    (t.tbfTick elapsedMs).cps = t.cps ∧ (t.tbfTick elapsedMs).burst = t.burst ∧
    (t.tbfTick elapsedMs).shutdown = t.shutdown := by
  unfold tbfTick
  split <;> exact ⟨rfl, rfl, rfl⟩

structure Refilled (t : Tbf) (ticks : List UInt64) : Prop where
  running : t.shutdown = false
  tokens  : t.tokens.toNat ≤ t.burst.toNat
  cps     : t.cps.toNat * 60000 < 2 ^ 64
  burst   : t.burst.toNat + 60 * t.cps.toNat < 2 ^ 64
  brings  : ∀ elapsedMs ∈ ticks, 0 < refill t.cps elapsedMs

namespace Refilled

variable {ticks : List UInt64} {want elapsedMs : UInt64}

theorem tick (h : t.Refilled (elapsedMs :: ticks)) : (t.tbfTick elapsedMs).Refilled ticks := by
  have ⟨hc, hb, hs⟩ := t.tbfTick_fields elapsedMs
  refine ⟨hs ▸ h.running, ?_, hc ▸ h.cps, ?_, ?_⟩
  · rw [tbfTick_tokens h.cps h.burst h.tokens, hb]
    exact Nat.min_le_right ..
  · rw [hb, hc]
    exact h.burst
  · rw [hc]
    exact fun e he => h.brings e <| List.mem_cons_of_mem _ he

theorem fetch_of_le (h : t.Refilled ticks) (hw : want ≠ 0) (hl : t.clamp want ≤ t.tokens)
    (counted : Bool) :
    ∃ t', t.tbfFetchToken want counted ticks = some (.ok, t', ticks) ∧ t'.Refilled ticks := by
  refine ⟨{ t with tokens := t.tokens - t.clamp want }, ?_, h.running, ?_, h.cps, h.burst, h.brings⟩
  · rw [tbfFetchToken.eq_def, if_neg hw]
    rcases t.tbfFetchPass_cases want counted with ⟨hs, _⟩ | ⟨_, _, he⟩ | ⟨_, hn, _⟩
    case inl     => cases hs.symm.trans h.running
    case inr.inl => rw [he]
    case inr.inr => exact absurd hl <| UInt64.not_le.mpr hn
  · exact (toNat_fetched hl).trans_le <| Nat.sub_le .. |>.trans h.tokens

theorem fetch (h : t.Refilled ticks) (hw : want ≠ 0)
    (hl : (t.clamp want).toNat ≤ t.tokens.toNat + ticks.length) (counted : Bool) :
    ∃ t' ticks', t.tbfFetchToken want counted ticks = some (.ok, t', ticks') ∧
      t'.Refilled ticks' ∧
      ticks.length ≤ ticks'.length + ((t.clamp want).toNat - t.tokens.toNat) := by
  induction ticks generalizing t counted
  case nil =>
    have ⟨t', he, h'⟩ := h.fetch_of_le hw (UInt64.le_iff_toNat_le.mpr hl) counted
    exact ⟨t', [], he, h', Nat.zero_le _⟩
  case cons e ticks hi =>
    by_cases ht : t.clamp want ≤ t.tokens
    case pos =>
      have ⟨t', he, h'⟩ := h.fetch_of_le hw ht counted
      exact ⟨t', _, he, h', Nat.le_add_right ..⟩
    case neg =>
      have ⟨n, he⟩ : ∃ n, t.tbfFetchPass want counted = .waits { t with throttledBytes := n } := by
        rcases t.tbfFetchPass_cases want counted with ⟨hs, _⟩ | ⟨_, hl, _⟩ | ⟨_, _, he⟩
        case inl     => cases hs.symm.trans h.running
        case inr.inl => exact absurd hl ht
        case inr.inr => exact he
      let t₁ : Tbf := { t with throttledBytes := n }
      have h₁ : t₁.Refilled (e :: ticks) := ⟨h.running, h.tokens, h.cps, h.burst, h.brings⟩
      have hc : (t₁.tbfTick e).clamp want = t.clamp want := by
        rw [clamp, (t₁.tbfTick_fields e).right.left, clamp]
      have hb : 0 < refill t.cps e := h.brings e List.mem_cons_self
      have hk : (t₁.tbfTick e).tokens.toNat = min (t.tokens.toNat + refill t.cps e) t.burst.toNat :=
        tbfTick_tokens h₁.cps h₁.burst h₁.tokens e
      have hn : t.tokens.toNat < (t.clamp want).toNat := UInt64.not_le.mp ht
      have hm := t.clamp_toNat want
      rw [List.length_cons] at hl
      obtain ⟨t', ticks', he', h', hl'⟩ := hi h₁.tick (by rw [hc, hk]; omega) true
      rw [hc, hk] at hl'
      refine ⟨t', ticks', ?_, h', ?_⟩
      · rw [tbfFetchToken, if_neg hw, he]
        exact he'
      · rw [List.length_cons]
        omega

end Refilled
end Tbf

namespace TbfRun

variable {ι : Type*}

-- What the fetches took: a fetch which returned something else than `IOT_OK` counts for nothing.
def granted (burst : UInt64) (returns : List (FetchReturn ι)) : Nat :=
  (returns.map fun r => if r.rc = .ok then min r.want.toNat burst.toNat else 0).sum

def refilled (cps : UInt64) (as : List (TbfAct ι)) : Nat :=
  (as.map fun
    | .tick elapsedMs => Tbf.refill cps elapsedMs
    | _               => 0).sum

theorem granted_append (burst : UInt64) (l l' : List (FetchReturn ι)) :
    granted burst (l ++ l') = granted burst l + granted burst l' := by
  simp [granted]

theorem granted_singleton (burst : UInt64) (f : FetchReturn ι) :
    granted burst [f] = if f.rc = .ok then min f.want.toNat burst.toNat else 0 := by
  simp [granted]

variable {r r' : TbfRun ι} {a : TbfAct ι} {as : List (TbfAct ι)} {cps burst : UInt64}

inductive Stepped (r : TbfRun ι) : TbfAct ι → Tbf → List (FetchReturn ι) → Prop
  | tick (elapsedMs : UInt64) : Stepped r (.tick elapsedMs) (r.bucket.tbfTick elapsedMs) []
  | shutdown : Stepped r .shutdown r.bucket.tbfShutdown []
  | quiet {a : TbfAct ι} (n : UInt64) : a ≠ .shutdown →
    Stepped r a { r.bucket with throttledBytes := n } []
  | refused {a : TbfAct ι} {f : FetchReturn ι} : a ≠ .shutdown → f.rc ≠ .ok →
    Stepped r a r.bucket [f]
  | granted {a : TbfAct ι} {f : FetchReturn ι} : a ≠ .shutdown → f.rc = .ok →
    r.bucket.shutdown = false → r.bucket.clamp f.want ≤ r.bucket.tokens →
    Stepped r a { r.bucket with tokens := r.bucket.tokens - r.bucket.clamp f.want } [f]

section

variable [DecidableEq ι]

theorem passStep_stepped {i : ι} (h : r.passStep i = some r') :
    ∃ l, r'.returns = r.returns ++ l ∧ Stepped r (.pass i) r'.bucket l := by
  unfold passStep at h
  split at h
  case h_2 => cases h
  case h_1 want timeoutMs counted _ =>
    have ho := r.bucket.tbfFetchPass_cases want counted
    rcases ho with ⟨_, he⟩ | ⟨hs, ht, he⟩ | ⟨_, _, n, he⟩ <;> rw [he] at h <;> cases h
    case inl     => exact ⟨[⟨i, want, .errShutdown⟩], rfl, .refused nofun (by simp)⟩
    case inr.inl => exact ⟨[⟨i, want, .ok⟩], rfl, .granted (f := ⟨i, want, .ok⟩) nofun rfl hs ht⟩
    case inr.inr => exact ⟨[], (List.append_nil _).symm, .quiet n nofun⟩

theorem stepped (h : tbfStep r a = some r') :
    ∃ l, r'.returns = r.returns ++ l ∧ Stepped r a r'.bucket l := by
  have hn : r.returns = r.returns ++ [] := (List.append_nil _).symm
  cases a
  case tick e   => cases h; exact ⟨[], hn, .tick e⟩
  case shutdown => cases h; exact ⟨[], hn, .shutdown⟩
  case pass i   => exact passStep_stepped h
  case fetch i want timeoutMs =>
    simp only [tbfStep, fetchStep] at h
    split at h
    case h_2 => cases h
    case h_1 =>
      split_ifs at h <;> cases h
      case pos => exact ⟨[⟨i, want, .errGeneric⟩], rfl, .refused nofun (by simp)⟩
      case neg => exact ⟨[], hn, .quiet r.bucket.throttledBytes nofun⟩
  case wakeup i =>
    simp only [tbfStep, wakeupStep] at h
    split at h <;> cases h
    exact ⟨[], hn, .quiet r.bucket.throttledBytes nofun⟩
  case timeout i =>
    simp only [tbfStep, timeoutStep] at h
    split at h
    case h_2 => cases h
    case h_1 want timeoutMs _ =>
      split_ifs at h
      cases h
      exact ⟨[⟨i, want, .errTimeout⟩], rfl, .refused nofun (by simp)⟩

end

structure Capped (cps burst : UInt64) (r : TbfRun ι) : Prop where
  cps_eq    : r.bucket.cps = cps
  burst_eq  : r.bucket.burst = burst
  tokens_le : r.bucket.tokens ≤ burst

theorem Capped.tokens_le_burst (h : Capped cps burst r) : r.bucket.tokens ≤ r.bucket.burst :=
  h.burst_eq.symm ▸ h.tokens_le

theorem Stepped.tokens {b : Tbf} {l : List (FetchReturn ι)} (h : Stepped r a b l)
    (hc : Capped cps burst r) :
    (∃ elapsedMs, a = .tick elapsedMs ∧ b = r.bucket.tbfTick elapsedMs ∧ l = []) ∨
    b.cps = cps ∧ b.burst = burst ∧
      b.tokens.toNat + TbfRun.granted burst l = r.bucket.tokens.toNat := by
  obtain ⟨rfl, rfl, _⟩ := hc
  cases h
  case tick e             => exact .inl ⟨e, rfl, rfl, rfl⟩
  case shutdown           => exact .inr ⟨rfl, rfl, rfl⟩
  case quiet              => exact .inr ⟨rfl, rfl, rfl⟩
  case refused f hr _     => exact .inr ⟨rfl, rfl, by rw [granted_singleton, if_neg hr, Nat.add_zero]⟩
  case granted f hr _ ht _ =>
    refine .inr ⟨rfl, rfl, ?_⟩
    have : (r.bucket.clamp f.want).toNat ≤ r.bucket.tokens.toNat := ht
    rw [granted_singleton, if_pos hr, Tbf.toNat_fetched ht, ← Tbf.clamp_toNat]
    omega

theorem Stepped.amounts {b : Tbf} {l : List (FetchReturn ι)} (h : Stepped r a b l)
    (hc : cps.toNat * 60000 < 2 ^ 64) (hb : burst.toNat + 60 * cps.toNat < 2 ^ 64)
    (hr : Capped cps burst r) :
    b.cps = cps ∧ b.burst = burst ∧ b.tokens ≤ burst ∧
    b.tokens.toNat + TbfRun.granted burst l ≤ r.bucket.tokens.toNat + refilled cps [a] := by
  have hl := hr.tokens_le
  cases h.tokens hr
  case inl he =>
    obtain ⟨elapsedMs, rfl, rfl, rfl⟩ := he
    obtain ⟨rfl, rfl, _⟩ := hr
    have ht := Tbf.tbfTick_tokens hc hb hl elapsedMs
    refine ⟨?_, ?_, ?_, ?_⟩
    · unfold Tbf.tbfTick; split <;> rfl
    · unfold Tbf.tbfTick; split <;> rfl
    · exact UInt64.le_iff_toNat_le.mpr <| ht ▸ Nat.min_le_right ..
    · simp only [ht, refilled, List.map_nil, List.sum_nil, List.map_cons, List.sum_cons, Nat.add_zero]
      exact Nat.min_le_left ..
  case inr he =>
    have ⟨h₁, h₂, h₃⟩ := he
    have hl : r.bucket.tokens.toNat ≤ burst.toNat := hl
    exact ⟨h₁, h₂, UInt64.le_iff_toNat_le.mpr (by omega), by omega⟩

theorem Stepped.shutdown_of {b : Tbf} {l : List (FetchReturn ι)} (h : Stepped r a b l)
    (hs : r.bucket.shutdown = true) : b.shutdown = true ∧ ∀ f ∈ l, f.rc ≠ .ok := by
  cases h
  case tick e =>
    refine ⟨?_, nofun⟩
    unfold Tbf.tbfTick
    split <;> exact hs
  case shutdown            => exact ⟨rfl, nofun⟩
  case quiet               => exact ⟨hs, nofun⟩
  case refused f hr _      => exact ⟨hs, by simpa using hr⟩
  case granted f _ hf _ _  => cases hs.symm.trans hf

theorem capped_init {alloc : Bool} {bucket : Tbf} (h : tbfInit cps burst alloc = .ok bucket) :
    Capped cps burst (init bucket : TbfRun ι) := by
  unfold tbfInit at h
  split_ifs at h
  cases h
  exact ⟨rfl, rfl, UInt64.le_refl _⟩

variable [DecidableEq ι]

theorem stretch {bs : List (TbfAct ι)} (hc : cps.toNat * 60000 < 2 ^ 64)
    (hb : burst.toNat + 60 * cps.toNat < 2 ^ 64) (hr : Capped cps burst r)
    (h : tbfStep.exec r bs = some r') :
    ∃ l, r'.returns = r.returns ++ l ∧ Capped cps burst r' ∧
      r'.bucket.tokens.toNat + granted burst l ≤ r.bucket.tokens.toNat + refilled cps bs ∧
      (r.bucket.shutdown = true → r'.bucket.shutdown = true ∧ ∀ f ∈ l, f.rc ≠ .ok) := by
  induction bs generalizing r
  case nil =>
    cases h
    exact ⟨[], (List.append_nil _).symm, hr, Nat.le_refl _, fun hs => ⟨hs, nofun⟩⟩
  case cons a bs hi =>
    have ⟨m, hm, h⟩ := Option.bind_eq_some_iff.mp h
    have ⟨l₁, hl₁, hs⟩ := stepped hm
    have ⟨h₁, h₂, h₃, h₄⟩ := hs.amounts hc hb hr
    have ⟨l₂, hl₂, hr', h₅, h₆⟩ := hi ⟨h₁, h₂, h₃⟩ h
    refine ⟨l₁ ++ l₂, by rw [hl₂, hl₁, List.append_assoc], hr', ?_, fun hd => ?_⟩
    · simp only [refilled, List.map_cons, List.sum_cons, List.map_nil, List.sum_nil] at *
      rw [granted_append]
      omega
    · have ⟨hd', hn⟩ := hs.shutdown_of hd
      have ⟨hd'', hn'⟩ := h₆ hd'
      exact ⟨hd'', List.forall_mem_append.mpr ⟨hn, hn'⟩⟩

theorem shutdown_of_mem {b : Tbf} (hc : cps.toNat * 60000 < 2 ^ 64)
    (hb : burst.toNat + 60 * cps.toNat < 2 ^ 64) (hi : Capped cps burst (init b : TbfRun ι))
    (h : tbfStep.exec (init b) as = some r) (ha : .shutdown ∈ as) : r.bucket.shutdown = true := by
  obtain ⟨pre, post, rfl⟩ := List.append_of_mem ha
  rw [Transition.exec_append] at h
  have ⟨m, hm, h⟩ := Option.bind_eq_some_iff.mp h
  have ⟨_, _, hr, _⟩ := stretch hc hb hi hm
  have hd : Capped cps burst { m with bucket := m.bucket.tbfShutdown } :=
    ⟨hr.cps_eq, hr.burst_eq, hr.tokens_le⟩
  have ⟨_, _, _, _, hs⟩ := stretch hc hb hd h
  exact hs rfl |>.left

end TbfRun

-- `s` is any state of a run and `bs` the stretch that follows. Every step but a tick lowers the
-- tokens by what it grants, so a fetch that fails takes nothing.
theorem tbf_rate {ι : Type*} [DecidableEq ι] {cps burst : UInt64} {alloc : Bool} {bucket : Tbf}
    (hc : cps.toNat * 60000 < 2 ^ 64) (hb : burst.toNat + 60 * cps.toNat < 2 ^ 64)
    (hi : tbfInit cps burst alloc = .ok bucket) {as : List (TbfAct ι)} {s : TbfRun ι}
    (hs : tbfStep.exec (.init bucket) as = some s) :
    s.bucket.tokens ≤ burst ∧
    (∀ a s', tbfStep s a = some s' → (∃ elapsedMs, a = .tick elapsedMs) ∨
      ∃ l, s'.returns = s.returns ++ l ∧
        s'.bucket.tokens.toNat + TbfRun.granted burst l = s.bucket.tokens.toNat) ∧
    (∀ bs s', tbfStep.exec s bs = some s' → ∃ l, s'.returns = s.returns ++ l ∧
      TbfRun.granted burst l ≤ burst.toNat + TbfRun.refilled cps bs ∧
      (.shutdown ∈ as → ∀ f ∈ l, f.rc ≠ .ok)) := by
  have hr := TbfRun.capped_init (ι := ι) hi
  have ⟨_, _, hr', _⟩ := TbfRun.stretch hc hb hr hs
  refine ⟨hr'.tokens_le, fun a s' ha => ?_, fun bs s' h => ?_⟩
  · have ⟨l, hl, hst⟩ := TbfRun.stepped ha
    cases hst.tokens hr'
    case inl he => exact .inl ⟨he.choose, he.choose_spec.left⟩
    case inr he => exact .inr ⟨l, hl, he.right.right⟩
  · have ⟨l, hl, _, ht, hd⟩ := TbfRun.stretch hc hb hr' h
    have hle : s.bucket.tokens.toNat ≤ burst.toNat := hr'.tokens_le
    exact ⟨l, hl, by omega, fun ha => hd (TbfRun.shutdown_of_mem hc hb hr hs ha) |>.right⟩

theorem tbf_rate_two :
    ∃ s s' : TbfRun Bool,
      tbfStep.exec (.init ⟨1000, 100, 100, false, 0⟩) [.fetch true 60 (-1), .pass true] = some s ∧
      tbfStep.exec s [.fetch false 80 (-1), .pass false, .tick 50, .wakeup false, .pass false] =
        some s' ∧
      s'.returns.map (·.rc) = [.ok, .ok] ∧ s.bucket.tokens ≤ 100 ∧
      ∃ l, s'.returns = s.returns ++ l ∧ TbfRun.granted 100 l ≤ 100 + 50 :=
  have hi : tbfInit 1000 100 true = .ok ⟨1000, 100, 100, false, 0⟩ := rfl
  have h := @tbf_rate Bool _ 1000 100 true _ (by decide) (by decide) hi
    [.fetch true 60 (-1), .pass true] _ rfl
  have ⟨l, hl, hg, _⟩ :=
    h.right.right [.fetch false 80 (-1), .pass false, .tick 50, .wakeup false, .pass false] _ rfl
  ⟨_, _, rfl, rfl, rfl, h.left, l, hl, hg.trans (by decide)⟩

end IotCollector
