import IotCollector.Common.FetchClock

namespace IotCollector

def Timedwait.InTime {ι : Type*} (w : Timedwait ι) : Prop :=
  w.deadline.toNs ≤ w.entered.toNs + w.timeoutMs.toInt * 1000000

namespace FetchClock

variable {ι : Type*} [DecidableEq ι] {r r' : FetchClock ι} {a : TbfAct ι} {now : Timespec}
  {i : ι} {timeoutMs : Int32}

-- The next pass of the caller finds too few tokens and goes to sleep for a time.
def Dozes (r : FetchClock ι) (i : ι) (timeoutMs : Int32) : Prop :=
  ∃ want counted, r.run.callers i = .passing want timeoutMs counted ∧ ¬timeoutMs < 0 ∧
    r.run.bucket.shutdown = false ∧ r.run.bucket.tokens < r.run.bucket.clamp want

-- Whoever goes to sleep for a time finds the clock where it was at the beginning of the call.
def Prompt (r : FetchClock ι) : TbfAct ι × Timespec → Prop
  | (.pass i, now) => (∃ timeoutMs, r.Dozes i timeoutMs) → now.toNs ≤ (r.entered i).toNs
  | _              => True

theorem pass_timedwait {run : TbfRun ι} (h : r.run.passStep i = some run) (now : Timespec) :
    (∃ timeoutMs, r.Dozes i timeoutMs ∧
      timedwait { r with run } i now = [⟨i, r.entered i, timeoutMs, now.after timeoutMs⟩]) ∨
    (¬∃ timeoutMs, r.Dozes i timeoutMs) ∧ timedwait { r with run } i now = [] := by
  unfold TbfRun.passStep at h
  split at h
  case h_2 => cases h
  case h_1 want timeoutMs counted hc =>
    have hn (hl : r.run.bucket.shutdown = false →
        ¬r.run.bucket.tokens < r.run.bucket.clamp want) : ¬∃ timeoutMs, r.Dozes i timeoutMs := by
      intro ⟨_, _, _, hp, _, hs, ht⟩
      cases hc.symm.trans hp
      exact hl hs ht
    rcases r.run.bucket.tbfFetchPass_cases want counted with
      ⟨hs, he⟩ | ⟨_, hl, he⟩ | ⟨hs, hl, b, he⟩
    case inl =>
      rw [he] at h
      cases h
      refine .inr ⟨hn fun h => ?_, by simp [timedwait, TbfRun.giveBack, TbfRun.setCaller]⟩
      cases hs.symm.trans h
    case inr.inl =>
      rw [he] at h
      cases h
      refine .inr ⟨hn fun _ => UInt64.not_lt.mpr hl, ?_⟩
      simp [timedwait, TbfRun.giveBack, TbfRun.setCaller]
    case inr.inr =>
      rw [he] at h
      cases h
      by_cases ht : timeoutMs < 0
      case neg =>
        exact .inl ⟨timeoutMs, ⟨want, counted, hc, ht, hs, hl⟩, by
          simp [timedwait, TbfRun.setCaller, ht]⟩
      case pos =>
        refine .inr ⟨fun ⟨_, _, _, hp, hn, _⟩ => ?_, by simp [timedwait, TbfRun.setCaller, ht]⟩
        cases hc.symm.trans hp
        exact hn ht

theorem step_timedwaits (h : fetchClockStep r (a, now) = some r') :
    (∃ i timeoutMs, a = .pass i ∧ r.Dozes i timeoutMs ∧
      r'.timedwaits = r.timedwaits ++ [⟨i, r.entered i, timeoutMs, now.after timeoutMs⟩]) ∨
    (∀ i, a = .pass i → ¬∃ timeoutMs, r.Dozes i timeoutMs) ∧ r'.timedwaits = r.timedwaits := by
  rw [fetchClockStep] at h
  cases hs : tbfStep r.run a
  case none => simp [hs] at h
  case some run =>
    rw [hs] at h
    cases a
    case pass i =>
      cases h
      rcases pass_timedwait hs now with ⟨t, hd, he⟩ | ⟨hd, he⟩
      case inl => exact .inl ⟨i, t, rfl, hd, congrArg (r.timedwaits ++ ·) he⟩
      case inr => exact .inr ⟨fun _ hi => by cases hi; exact hd, by simp [he]⟩
    case timeout i =>
      dsimp only at h
      split at h <;> cases h
      exact .inr ⟨nofun, rfl⟩
    all_goals
      cases h
      exact .inr ⟨nofun, rfl⟩

omit [DecidableEq ι] in
theorem inTime_iff : Timedwait.InTime ⟨i, r.entered i, timeoutMs, now.after timeoutMs⟩ ↔
    now.toNs ≤ (r.entered i).toNs := by
  rw [Timedwait.InTime, now.after_toNs]
  exact Int.add_le_add_iff_right ..

theorem step_inTime_iff {act : TbfAct ι × Timespec} (hw : ∀ w ∈ r.timedwaits, w.InTime)
    (h : fetchClockStep r act = some r') : (∀ w ∈ r'.timedwaits, w.InTime) ↔ r.Prompt act := by
  obtain ⟨a, now⟩ := act
  rcases step_timedwaits h with ⟨i, t, rfl, hd, he⟩ | ⟨hn, he⟩
  case inl =>
    have hp : r.Prompt (.pass i, now) ↔ now.toNs ≤ (r.entered i).toNs :=
      ⟨fun h => h ⟨t, hd⟩, fun h _ => h⟩
    rw [he, hp, ← inTime_iff]
    simp only [List.mem_append, List.mem_singleton, or_imp, forall_and, forall_eq]
    exact and_iff_right hw
  case inr =>
    rw [he]
    refine iff_of_true hw ?_
    cases a
    case pass i => exact fun hd => absurd hd <| hn i rfl
    all_goals exact trivial

end FetchClock

-- The deadlines of all callers keep to the time they were given, in every state of a run, exactly if
-- nobody goes to sleep for a time once the clock has gone on.
theorem deadline_bounded_iff {ι : Type*} [DecidableEq ι] (bucket : Tbf) (now : Timespec)
    (as : List (TbfAct ι × Timespec)) :
    fetchClockStep.Always (.init bucket now) as (fun r => ∀ w ∈ r.timedwaits, w.InTime) ↔
    fetchClockStep.Guarded (.init bucket now) as FetchClock.Prompt :=
  Transition.always_iff_guarded (I := fun r => ∀ w ∈ r.timedwaits, w.InTime) nofun id
    (fun hI hok hs => FetchClock.step_inTime_iff hI hs |>.mpr hok)
    (fun hI hs hw => FetchClock.step_inTime_iff hI hs |>.mp hw)

-- The bucket lacks one token, and a tick comes which brings none. After it, the caller still waits
-- for a second.
theorem deadline_bounded_false :
    ¬∀ (bucket : Tbf) (now : Timespec) (as : List (TbfAct Nat × Timespec)),
      fetchClockStep.Always (.init bucket now) as fun r => ∀ w ∈ r.timedwaits, w.InTime := by
  intro h
  let as : List (TbfAct Nat × Timespec) :=
    [(.fetch 0 1 1000, ⟨5, 0⟩), (.pass 0, ⟨5, 0⟩), (.tick 10, ⟨5, 10000000⟩),
      (.wakeup 0, ⟨5, 10000000⟩), (.pass 0, ⟨5, 10000000⟩)]
  have h := h ⟨99, 1, 0, false, 0⟩ ⟨5, 0⟩ as as _ List.prefix_rfl rfl
    ⟨0, ⟨5, 0⟩, 1000, ⟨6, 10000000⟩⟩ (.tail _ <| .head _)
  exact absurd h <| Int.not_le.mpr (by decide)

end IotCollector
