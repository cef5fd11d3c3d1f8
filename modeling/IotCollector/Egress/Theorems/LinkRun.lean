import IotCollector.Common.Theorems.Tbf
import IotCollector.Egress.LinkRun

namespace IotCollector

namespace Exit

variable {x x' : Exit} {write : List UInt8 → IotStatus} {buf : List UInt8} {rc : IotStatus}

theorem unicastWriteThrottled_link (h : x.unicastWriteThrottled write buf = some (rc, x')) :
    x'.link = x.link := by
  induction buf, x using unicastWriteThrottled.induct write <;> rw [unicastWriteThrottled] at h
  case case1 buf x hb =>
    rw [hb] at h
    cases h
    rfl
  case case2 x t hb =>
    simp only [hb, dif_pos] at h
    cases h
    rfl
  case case3 buf x t hb hn want t' ticks hf _ hw hi =>
    simp only [want] at hf hw
    simp only [hb, dif_neg hn, hf, hw, if_true] at h
    exact hi h
  case case4 buf x t hb hn want t' ticks hf hw =>
    simp only [want] at hf hw
    simp only [hb, dif_neg hn, hf, hw, if_false] at h
    cases h
    rfl
  case case5 buf x t hb hn want t' ticks hf =>
    simp only [want] at hf
    simp only [hb, dif_neg hn, hf] at h
    cases h
    rfl
  case case6 buf x t hb hn _ hf₁ hf₂ =>
    simp only [hb, dif_neg hn] at h
    split at h
    case h_1 hf => exact (hf₁ _ _ hf).elim
    case h_2 hf => exact (hf₂ _ _ hf).elim
    case h_3    => cases h

theorem unicastSenderSendWithBucket_link {fd : Int}
    (h : x.unicastSenderSendWithBucket fd write buf = some (rc, x')) :
    x'.link = if fd < 0 ∨ buf.length = 0 then x.link else x.link.markResult (rc = .ok) := by
  unfold unicastSenderSendWithBucket at h
  split at h
  case isTrue hd =>
    cases h
    rw [if_pos hd]
  case isFalse hd =>
    have ⟨r, hr, he⟩ := Option.map_eq_some_iff.mp h
    cases he
    rw [if_neg hd, ← unicastWriteThrottled_link hr]

end Exit

namespace LinkAct

variable {l l' : Link} {a : LinkAct} {v : Verdict}

inductive Effect (l : Link) : LinkAct → Verdict → Link → Prop
  | close   (fd : Int)                    : Effect l (.close fd) .unmarked (l.unicastSenderClose fd)
  | none    (a : LinkAct)                 : Effect l a .unmarked l
  | success (a : LinkAct)                 : Effect l a .success (l.markResult true)
  | failure (a : LinkAct) (f : Failure)   : Effect l a (.failure f) (l.markResult false)

theorem sendVerdict_effect (l : Link) (a : LinkAct) (rc : IotStatus) :
    Effect l a (sendVerdict rc) (l.markResult (rc = .ok)) := by
  cases rc <;> constructor

theorem run_effect (h : a.run l = some (v, l')) : Effect l a v l' := by
  cases a <;> simp only [run] at h
  case connect ip port result =>
    simp only [Link.unicastSenderInit] at h
    split at h
    case isTrue  => cases h; exact .none _
    case isFalse => cases result <;> cases h <;> constructor
  case heartbeat fd write =>
    simp only [Link.unicastSenderHeartbeat] at h
    split at h
    case isTrue  => cases h; exact .none _
    case isFalse hd =>
      split at h <;> cases h
      case isTrue hw  => simpa [hw] using Effect.success (l := l) (.heartbeat fd write)
      case isFalse hw => simpa [hw] using Effect.failure (l := l) (.heartbeat fd write) .socket
  case close fd => cases h; exact .close fd
  case send fd buf bucket ticks shut write =>
    split at h
    case h_1 r hr =>
      have hl := Exit.unicastSenderSendWithBucket_link hr
      cases h
      rw [hl]
      split
      case isTrue  => exact .none _
      case isFalse => exact sendVerdict_effect ..
    case h_2 =>
      split at h <;> cases h
      exact .failure _ _

end LinkAct

namespace LinkRun

variable {s s' : LinkRun} {a : LinkAct} {f : Failure}

def socketFailures (s : LinkRun) : Nat :=
  s.failures.count .socket

-- The link goes down at a close, or at a failure of the socket that is the last one of the limit.
def Justified (s : LinkRun) (a : LinkAct) : Prop :=
  ∀ s', linkRunStep s a = some s' → s.link.online → ¬s'.link.online →
    (∃ fd, a = .close fd) ∨
    s'.failures.getLast? = some .socket ∧ s'.socketFailures = heartbeatLostLimit

-- None of the failures that fill the limit is one of a bucket.
def Genuine (s : LinkRun) (a : LinkAct) : Prop :=
  ∀ f l, a.run s.link = some (.failure f, l) → s.link.online →
    s.failures.length + 1 = heartbeatLostLimit → .bucket ∉ s.failures ++ [f]

def Streak (s : LinkRun) : Prop :=
  s.link.online → s.link.failStreak = s.failures.length ∧ s.link.failStreak < heartbeatLostLimit

theorem markResult_false_online (l : Link) :
    (l.markResult false).online ↔ l.online ∧ l.failStreak + 1 < heartbeatLostLimit := by
  simp only [Link.markResult, Bool.false_eq_true, if_false]
  split <;> simp <;> omega

theorem markResult_false_failStreak (l : Link) :
    (l.markResult false).failStreak = l.failStreak + 1 := by
  simp only [Link.markResult, Bool.false_eq_true, if_false]
  split <;> rfl

theorem linkRunStep_streak (h : s.Streak) (hs : linkRunStep s a = some s') : s'.Streak := by
  have ⟨⟨v, l⟩, hr, he⟩ := Option.map_eq_some_iff.mp hs
  subst he
  cases LinkAct.run_effect hr
  case close fd =>
    simp only [Streak, Link.unicastSenderClose, Verdict.note]
    split
    case isTrue  => exact h
    case isFalse => simp
  case none    => exact h
  case success => exact fun _ => ⟨rfl, Nat.zero_lt_succ _⟩
  case failure f =>
    intro ho
    have ⟨ho, hl⟩ := (markResult_false_online _).mp ho
    have ⟨he, _⟩ := h ho
    simp only [markResult_false_failStreak, Verdict.note, List.length_append, List.length_singleton]
    omega

theorem count_socket_iff {l : List Failure} : l.count .socket = l.length ↔ .bucket ∉ l := by
  rw [List.count_eq_length]
  constructor
  case mp  => exact fun h hm => nomatch h _ hm
  case mpr =>
    intro h f hf
    cases f
    case socket => rfl
    case bucket => exact absurd hf h

theorem justified_iff (h : s.Streak) (hs : linkRunStep s a = some s') :
    s.Justified a ↔ s.Genuine a := by
  have ⟨⟨v, l⟩, hr, he⟩ := Option.map_eq_some_iff.mp hs
  have hj : s.Justified a ↔ (s.link.online → ¬l.online → (∃ fd, a = .close fd) ∨
      (v.note s.failures).getLast? = some .socket ∧
      (v.note s.failures).count .socket = heartbeatLostLimit) := by
    simp only [Justified, linkRunStep, hr, Option.map_some, Option.some.injEq, forall_eq']
    rfl
  have hg : s.Genuine a ↔ (∀ f, v = .failure f → s.link.online →
      s.failures.length + 1 = heartbeatLostLimit → .bucket ∉ s.failures ++ [f]) := by
    simp [Genuine, hr]
  rw [hj, hg]
  cases LinkAct.run_effect hr
  case close fd  => exact iff_of_true (fun _ _ => .inl ⟨fd, rfl⟩) nofun
  case none      => exact iff_of_true (fun ho hn => absurd ho hn) nofun
  case success   => exact iff_of_true (fun _ hn => absurd rfl hn) nofun
  case failure f =>
    have hc : ¬∃ fd, a = .close fd := by
      rintro ⟨fd, rfl⟩
      cases hr
    simp only [hc, false_or, Verdict.note, Verdict.failure.injEq, forall_eq',
      markResult_false_online, List.getLast?_concat]
    refine forall_congr' fun ho => ?_
    have ⟨he, hl⟩ := h ho
    have hlen : (s.failures ++ [f]).length = s.failures.length + 1 := by simp
    simp only [ho, true_and, Nat.not_lt, he] at hl ⊢
    constructor
    case mp =>
      intro h hn
      have ⟨_, hc⟩ := h hn.ge
      exact count_socket_iff.mp <| hc.trans <| hn.symm.trans hlen.symm
    case mpr =>
      intro h hn
      have hn : s.failures.length + 1 = heartbeatLostLimit := Nat.le_antisymm hl hn
      have hb := h hn
      refine ⟨?_, (count_socket_iff.mpr hb).trans <| hlen.trans hn⟩
      cases f
      case socket => rfl
      case bucket => simp at hb

end LinkRun

-- The failures of a bucket count as those of the link.
theorem link_down_iff (as : List LinkAct) :
    linkRunStep.Guarded .initial as LinkRun.Justified ↔
    linkRunStep.Guarded .initial as LinkRun.Genuine :=
  Transition.guarded_congr (I := LinkRun.Streak)
    (Transition.always_of_preserved nofun LinkRun.linkRunStep_streak as) LinkRun.justified_iff

def noBucket : LinkAct :=
  .send 4 [0] none [] false fun _ => .ok

theorem linkRunStep_noBucket (s : LinkRun) :
    linkRunStep s noBucket =
    some { link := s.link.markResult false, failures := s.failures ++ [.bucket] } := by
  simp only [linkRunStep, noBucket, LinkAct.run, Exit.unicastSenderSendWithBucket]
  rw [if_neg (by decide), Exit.unicastWriteThrottled]
  rfl

-- Three sends without a bucket take down a link on which nothing has failed.
theorem link_down_false : ¬∀ as, linkRunStep.Guarded .initial as LinkRun.Justified := by
  intro h
  let connect : LinkAct := .connect (some []) 9000 (.ok 4)
  have hs : linkRunStep.exec .initial [connect, noBucket, noBucket] =
      some { link := { online := true, failStreak := 2 }, failures := [.bucket, .bucket] } := by
    have hc : linkRunStep .initial connect =
        some { link := { online := true, failStreak := 0 }, failures := [] } := rfl
    simp only [Transition.exec_cons, hc, linkRunStep_noBucket, Option.bind_some,
      Transition.exec_nil]
    rfl
  have hj := h [connect, noBucket, noBucket, noBucket] _ _ _ _ List.prefix_rfl hs
    (linkRunStep_noBucket _)
  rcases hj _ (linkRunStep_noBucket _) rfl (by decide) with ⟨_, hf⟩ | ⟨hl, _⟩
  · cases hf
  · exact absurd hl (by decide)

end IotCollector
