import IotCollector.Common.Theorems.Tbf
import IotCollector.Egress.ThrottleRun

namespace IotCollector

def SendAct.Within {ι : Type*} (len : Nat) : SendAct ι → Prop
  | .call _ _ n => n ≤ len
  | _           => True

namespace SendPc

def remain : SendPc → Nat
  | .idle                                            => 0
  | .fetching _ n _ | .waiting _ n | .sending _ n => n

def due : SendPc → Nat
  | .sending _ n => slice n
  | _            => 0

theorem remain_loop (call : SendCall) (n : Nat) : (loop call n).remain = n := by
  unfold loop
  split <;> simp_all [remain]

theorem due_loop (call : SendCall) (n : Nat) : (loop call n).due = 0 := by
  unfold loop
  split <;> rfl

end SendPc

namespace SendRun

variable {ι : Type*} {r r' : SendRun ι} {len : Nat} {i : ι}

def Paid (r : SendRun ι) : Prop :=
  ∀ i, r.sent i ≤ r.paid i

structure Covered (len : Nat) (r : SendRun ι) : Prop where
  burst  : slice len ≤ r.bucket.burst.toNat
  remain : ∀ i, (r.senders i).remain ≤ len
  paid   : ∀ i, r.sent i + (r.senders i).due ≤ r.paid i

theorem init_covered {t : Tbf} (h : slice len ≤ t.burst.toNat) :
    Covered len (init t : SendRun ι) where
  burst    := h
  remain _ := Nat.zero_le _
  paid _   := Nat.le_refl _

theorem Covered.isPaid (h : r.Covered len) : r.Paid :=
  fun i => (Nat.le_add_right ..).trans (h.paid i)

variable [DecidableEq ι]

theorem Covered.update (h : r.Covered len) {pc : SendPc} (hb : r'.bucket.burst = r.bucket.burst)
    (hs : r'.senders = Function.update r.senders i pc) (hr : pc.remain ≤ len)
    (hp : ∀ j ≠ i, r'.paid j = r.paid j) (ht : ∀ j ≠ i, r'.sent j = r.sent j)
    (hi : r'.sent i + pc.due ≤ r'.paid i) : r'.Covered len := by
  refine ⟨hb ▸ h.burst, fun j => ?_, fun j => ?_⟩ <;> rw [hs] <;> by_cases hj : j = i
  · simpa [hj] using hr
  · simpa [hj] using h.remain j
  · simpa [hj] using hi
  · simpa [hj, hp, ht] using h.paid j

theorem slice_mono {m n : Nat} (h : m ≤ n) : slice m ≤ slice n :=
  min_le_min_right _ h

theorem toNat_slice (n : Nat) : (slice n).toUInt64.toNat = slice n := by
  have : slice n ≤ tbfMaxFetchPerOp := Nat.min_le_right ..
  rw [Nat.toUInt64_eq, UInt64.toNat_ofNat', Nat.mod_eq_of_lt]
  simp only [tbfMaxFetchPerOp] at this
  omega

theorem Covered.passStep (h : r.Covered len) (hs : r.passStep i = some r') : r'.Covered len := by
  unfold SendRun.passStep at hs
  split at hs
  case h_2 => cases hs
  case h_1 call remain counted hi =>
    have hr : remain ≤ len := by simpa [hi, SendPc.remain] using h.remain i
    have hp : r.sent i ≤ r.paid i := h.isPaid i
    rcases r.bucket.tbfFetchPass_cases (slice remain).toUInt64 counted with
      ⟨_, he⟩ | ⟨_, hc, he⟩ | ⟨_, _, n, he⟩ <;>
    rw [he] at hs <;> cases hs
    case inl     => exact h.update rfl rfl (Nat.zero_le _) (fun _ _ => rfl) (fun _ _ => rfl) hp
    case inr.inr => exact h.update rfl rfl hr (fun _ _ => rfl) (fun _ _ => rfl) hp
    case inr.inl =>
      refine h.update rfl rfl hr (fun j hj => ?_) (fun _ _ => rfl) ?_
      · simp [setSender, pay, hj]
      · have hw := r.bucket.clamp_toNat (slice remain).toUInt64
        have hl := (slice_mono hr).trans h.burst
        have ht := Tbf.toNat_fetched hc
        rw [UInt64.le_iff_toNat_le] at hc
        rw [toNat_slice] at hw
        simp only [setSender, pay, Function.update_self, SendPc.due, ht]
        omega

theorem Covered.writeStep {n : Nat} (h : r.Covered len) (hs : r.writeStep i n = some r') :
    r'.Covered len := by
  unfold SendRun.writeStep at hs
  split at hs
  case h_2 => cases hs
  case h_1 call remain hi =>
    have hr : remain ≤ len := by simpa [hi, SendPc.remain] using h.remain i
    have hp : r.sent i + slice remain ≤ r.paid i := by simpa [hi, SendPc.due] using h.paid i
    have ho : ∀ j ≠ i, (r.hand i n).sent j = r.sent j := fun j hj => by simp [hand, hj]
    have ht : (r.hand i n).sent i = r.sent i + n := by simp [hand]
    split at hs
    case isTrue hn =>
      cases hs
      refine h.update rfl rfl (Nat.zero_le _) (fun _ _ => rfl) ho ?_
      exact ht.trans_le <| (Nat.add_le_add_left hn.le _).trans hp
    case isFalse =>
      split at hs
      case isFalse   => cases hs
      case isTrue hn =>
        cases hs
        refine h.update rfl rfl ?_ (fun _ _ => rfl) ho ?_
        · rw [SendPc.remain_loop]
          omega
        · rw [SendPc.due_loop]
          exact ht.trans_le <| hn ▸ hp

theorem Covered.step {a : SendAct ι} (h : r.Covered len) (ha : a.Within len)
    (hs : sendStep r a = some r') : r'.Covered len := by
  have hp i : r.sent i ≤ r.paid i := h.isPaid i
  cases a <;> simp only [sendStep] at hs
  case tick e    => cases hs; exact ⟨(r.bucket.tbfTick_fields e).right.left ▸ h.burst, h.remain, h.paid⟩
  case shutdown  => cases hs; exact ⟨h.burst, h.remain, h.paid⟩
  case pass i    => exact h.passStep hs
  case write i n => exact h.writeStep hs
  case call i call n =>
    split at hs <;> cases hs
    refine h.update rfl rfl ?_ (fun _ _ => rfl) (fun _ _ => rfl) ?_
    · rw [SendPc.remain_loop]
      exact ha
    · rw [SendPc.due_loop]
      exact hp i
  case wakeup i =>
    split at hs <;> cases hs
    case h_1 call n hi =>
      refine h.update rfl rfl ?_ (fun _ _ => rfl) (fun _ _ => rfl) (hp i)
      simpa [hi, SendPc.remain] using h.remain i
  case interrupt i =>
    split at hs <;> cases hs
    case h_1 n hi =>
      refine h.update rfl rfl ?_ (fun _ _ => rfl) (fun _ _ => rfl) ?_
      · rw [SendPc.remain_loop]
        simpa [hi, SendPc.remain] using h.remain i
      · rw [SendPc.due_loop]
        exact hp i

end SendRun

open SendRun

theorem exec_slice {ι : Type*} [DecidableEq ι] {t : Tbf} (len : Nat) (i : ι) (call : SendCall)
    (hs : t.shutdown = false) (ht : t.tokens = t.burst) (hl : t.burst.toNat < slice len) :
    ∃ r, sendStep.exec (init t) [.call i call len, .pass i, .write i (slice len)] = some r ∧
      r.paid i = t.burst.toNat ∧ r.sent i = slice len := by
  have hn : len ≠ 0 := by
    rintro rfl
    simp [slice] at hl
  have hc : t.clamp (slice len).toUInt64 = t.burst := by
    rw [← UInt64.toNat_inj, t.clamp_toNat, toNat_slice]
    omega
  have hp : t.tbfFetchPass (slice len).toUInt64 false = .returns .ok { t with tokens := 0 } := by
    simp [Tbf.tbfFetchPass, hc, hs, ht]
  refine ⟨_, by
    simp [sendStep, init, SendPc.loop, hn, setSender, SendRun.passStep, hp, SendRun.writeStep, pay, hand]
    rfl, ?_, ?_⟩
  · simp [ht]
  · simp

-- What is sent has been paid for, whoever sends it, exactly if no slice is larger than the bucket.
theorem sent_le_paid_iff {ι : Type*} [DecidableEq ι] [Inhabited ι] {cps burst : UInt64}
    {alloc : Bool} {t : Tbf} (h : tbfInit cps burst alloc = .ok t) (len : Nat) :
    (∀ as : List (SendAct ι), (∀ a ∈ as, a.Within len) → sendStep.Always (.init t) as Paid) ↔
    min len tbfMaxFetchPerOp ≤ burst.toNat := by
  obtain ⟨hb, ht, hs⟩ := tbfInit_fields h
  rw [← hb] at ht ⊢
  constructor
  · intro hp
    by_contra hl
    obtain ⟨r, hr, h₁, h₂⟩ :=
      exec_slice len (default : ι) .unicastWriteThrottled hs ht <| Nat.not_le.mp hl
    have hd := hp _ (by simp [SendAct.Within]) _ r List.prefix_rfl hr default
    rw [h₁, h₂] at hd
    exact hl hd
  · intro hl as ha bs r hp hr
    have hg : sendStep.Guarded (init t) as fun _ a => a.Within len :=
      .of_forall fun a ham _ => ha a ham
    exact (Transition.always_of_guarded (init_covered hl) Covered.step hg bs r hp hr).isPaid

-- The bucket of the dispatcher, and the frames of the protocol.
theorem sent_le_paid_iff_frames :
    (∀ as : List (SendAct Nat), (∀ a ∈ as, a.Within envFrameWireSize) →
      sendStep.Always (.init ⟨524288, 1048576, 1048576, false, 0⟩) as Paid) ↔
    min envFrameWireSize tbfMaxFetchPerOp ≤ 1048576 :=
  have hi : tbfInit 524288 1048576 true = .ok ⟨524288, 1048576, 1048576, false, 0⟩ := rfl
  sent_le_paid_iff hi envFrameWireSize

-- Two bytes for one token.
theorem sent_le_paid_false :
    ¬∀ (cps burst : UInt64) (alloc : Bool) (t : Tbf), tbfInit cps burst alloc = .ok t →
      ∀ as : List (SendAct Nat), sendStep.Always (.init t) as Paid := by
  intro h
  obtain ⟨r, hr, h₁, h₂⟩ := exec_slice (t := ⟨1, 1, 1, false, 0⟩) 2 0 .throttledSend rfl rfl (by decide)
  have hp := h 1 1 true _ rfl _ _ r List.prefix_rfl hr 0
  rw [h₁, h₂] at hp
  contradiction

end IotCollector
