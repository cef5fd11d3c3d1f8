import Mathlib.Algebra.Order.BigOperators.Group.Finset
import IotCollector.Egress.Shutdown
import IotCollector.Lib.Family

namespace IotCollector

@[simp]
def WorkerPc.pending : WorkerPc → Nat
  | .popping | .exited                       => 0
  | .batch k | .fetched k                    => k
  | .locked k | .fetching k _ | .waiting k   => k + 1

@[simp]
def CleanerPc.pending : CleanerPc → Nat
  | .top | .exited => 0
  | .popping       => ringqBatchMax
  | .cleaning k    => k

@[simp]
def MainPc.HasJoined : MainPc → Prop
  | .closing | .joinTicker | .done => True
  | _                              => False

namespace Collector

variable {n : Nat}

def Live (s : Collector n) : Prop :=
  ∃ i, s.workers i ≠ .exited

instance (s : Collector n) : Decidable s.Live :=
  inferInstanceAs (Decidable (∃ i, s.workers i ≠ .exited))

-- The frames of Q2 and of the cleaner need tokens only if a worker is left to take them.
def backlog (s : Collector n) : Nat :=
  if s.Live then s.q2 + s.cleaner.pending else 0

def outstanding (s : Collector n) : Nat :=
  s.backlog + ∑ i, (s.workers i).pending

def price (s : Collector n) : Nat :=
  (s.bucket.clamp envFrameWireSize.toUInt64).toNat

-- No worker waits for tokens, and those in the bucket last for all the frames to come.
structure Covered (s : Collector n) : Prop where
  awake  : ∀ i k, s.workers i ≠ .waiting k
  tokens : s.outstanding * s.price ≤ s.bucket.tokens.toNat

-- A worker waits in `tbf_fetch_token`, nobody is left to wake it up, and `dispatcher_join` has not
-- got past it.
def Stranded (s : Collector n) : Prop :=
  ∃ (i : Fin n) (k j : Nat), s.workers i = .waiting k ∧ s.ticker = .exited ∧
    s.bucket.shutdown = false ∧ s.main = .joining j ∧ j ≤ i

-- If the ticker sees `g_running` fall before `dispatcher_join` has set `g_tick_stop`, then the bucket
-- covers what is left to drain.
def TicksEnough : Collector n → CollectorAct n → Prop
  | s, .ticker _ => s.ticker = .top → s.running = false → s.tickStop = false → s.Covered
  | _, _         => True

variable {s s' : Collector n} {i : Fin n} {pc : WorkerPc}

theorem Covered.broadcast_eq (c : s.Covered) : s.broadcast = s := by
  have h : ∀ i, (s.workers i).woken = s.workers i := by
    intro i
    have := c.awake i
    cases h : s.workers i <;> simp_all [WorkerPc.woken]
  simp [broadcast, h]

theorem pending_le_outstanding (s : Collector n) (i : Fin n) :
    (s.workers i).pending ≤ s.outstanding :=
  Nat.le_trans (Finset.single_le_sum (f := fun i => (s.workers i).pending)
    (fun _ _ => Nat.zero_le _) (Finset.mem_univ i)) <| Nat.le_add_left ..

theorem Covered.price_le (c : s.Covered) (h : 0 < (s.workers i).pending) :
    s.bucket.clamp envFrameWireSize.toUInt64 ≤ s.bucket.tokens := by
  have ho : 0 < s.outstanding := Nat.lt_of_lt_of_le h <| s.pending_le_outstanding i
  exact UInt64.le_iff_toNat_le.mpr <| (Nat.le_mul_of_pos_left _ ho).trans c.tokens

theorem Covered.of_worker (c : s.Covered) (paid : Nat)
    (hw : s'.workers = Function.update s.workers i pc) (hp : ∀ k, pc ≠ .waiting k)
    (hl : s.workers i ≠ .exited) (hc : s'.cleaner = s.cleaner)
    (hb : s'.bucket.burst = s.bucket.burst)
    (ho : s'.q2 + pc.pending + paid ≤ s.q2 + (s.workers i).pending)
    (ht : s.bucket.tokens.toNat ≤ s'.bucket.tokens.toNat + paid * s.price) : s'.Covered where
  awake j k := by
    rw [hw]
    by_cases hj : j = i
    case pos => simpa [hj] using hp k
    case neg => simpa [hj] using c.awake j k
  tokens := by
    have hu := sum_update WorkerPc.pending s.workers i pc
    have ho' : s'.outstanding + paid ≤ s.outstanding := by
      have hs : s.Live := ⟨i, hl⟩
      simp only [outstanding, backlog, hw, hc, hs, if_true]
      split <;> omega
    have hm := Nat.mul_le_mul_right s.price ho'
    have hp : s'.price = s.price := by simp only [price, Tbf.clamp, hb]
    have := c.tokens
    rw [Nat.add_mul] at hm
    rw [hp]
    omega

theorem Covered.worker_step {online : Bool} (c : s.Covered)
    (h : s.workerStep i online = some s') : s'.Covered := by
  have hl : s.workers i ≠ .exited := by
    intro he
    simp [workerStep, he] at h
  have moved {pc q2 unicastLock} (hp : ∀ k, pc ≠ .waiting k)
      (ho : q2 + pc.pending ≤ s.q2 + (s.workers i).pending) :
      { s.setWorker i pc with q2 := q2, unicastLock := unicastLock }.Covered :=
    c.of_worker 0 rfl hp hl rfl rfl ho (Nat.le_add_right ..)
  unfold workerStep at h
  split at h
  case h_1 hw =>
    split at h <;> (try split at h) <;> cases h
    case isTrue  => exact moved (fun _ => nofun) (by simp [hw])
    case isFalse => exact moved (fun _ => nofun) (by simp [hw])
  case h_2 hw =>
    cases h
    exact moved (fun _ => nofun) (by simp [hw])
  case h_3 k hw =>
    split at h <;> cases h
    exact moved (fun _ => nofun) (by simp [hw])
  case h_4 k hw =>
    split at h <;> cases h <;> exact moved (fun _ => nofun) (by simp [hw])
  case h_5 k counted hw =>
    have hp : 0 < (s.workers i).pending := by simp [hw]
    have ⟨rc, bucket, hf, hb, ht⟩ := Tbf.tbfFetchPass_of_le counted (c.price_le hp)
    rw [hf] at h
    cases h
    have hq : s.q2 + (WorkerPc.fetched k).pending + 1 ≤ s.q2 + (s.workers i).pending := by
      simp only [hw, WorkerPc.pending]
      omega
    exact c.of_worker 1 rfl (fun _ => nofun) hl rfl hb hq (Nat.one_mul _ ▸ ht)
  case h_7 k hw =>
    cases h
    exact moved (fun _ => nofun) (by simp [hw])
  all_goals cases h

theorem Covered.cleaner_step {frames : Nat} {pushed : Bool} (c : s.Covered)
    (hr : s.running = false) (h : s.cleanerStep frames pushed = some s') : s'.Covered := by
  have moved {q2 cleaner} (ho : q2 + cleaner.pending ≤ s.q2 + s.cleaner.pending) :
      { s with q2 := q2, cleaner := cleaner }.Covered := by
    refine ⟨c.awake, (Nat.mul_le_mul_right _ ?_).trans c.tokens⟩
    refine Nat.add_le_add_right ?_ _
    change (if s.Live then q2 + cleaner.pending else 0) ≤ s.backlog
    rw [backlog]
    split
    case isTrue  => exact ho
    case isFalse => rfl
  unfold cleanerStep at h
  split at h
  case h_1 hc =>
    cases h
    exact moved (by simp [hr, hc])
  case h_2 hc =>
    split at h <;> split at h <;> cases h
    case isTrue.isFalse     => exact moved (by simp [hc])
    case isFalse.isTrue hf  => exact moved (by simp [hc, hf])
  case h_3 hc =>
    cases h
    exact moved (by simp [hc])
  case h_4 hc =>
    split at h <;> (try split at h) <;> cases h <;> exact moved (by simp [hc] <;> omega)
  case h_5 => cases h

theorem cleaner_frame {frames : Nat} {pushed : Bool} (h : s.cleanerStep frames pushed = some s') :
    s'.running = s.running ∧ s'.tickStop = s.tickStop ∧ s'.ticker = s.ticker ∧ s'.main = s.main := by
  unfold cleanerStep at h
  split at h <;> (try split at h) <;> (try split at h) <;> cases h <;> simp

theorem worker_frame {online : Bool} (h : s.workerStep i online = some s') :
    s'.running = s.running ∧ s'.tickStop = s.tickStop ∧ s'.ticker = s.ticker ∧ s'.main = s.main := by
  unfold workerStep at h
  split at h <;> (try split at h) <;> (try split at h) <;> cases h <;> simp [setWorker]

-- After its exit the ticker cannot help. Either the workers need no help, or they have been joined.
structure Safe (s : Collector n) : Prop where
  covered : s.ticker = .exited → s.tickStop = false → s.running = false ∧ s.Covered
  joined  : s.tickStop → s.main.HasJoined

theorem Safe.initial (bucket : Tbf) : (initial n bucket).Safe where
  covered := nofun
  joined  := nofun

theorem Safe.not_stranded (h : s.Safe) : ¬s.Stranded := by
  intro ⟨i, k, j, hw, ht, _, hm, _⟩
  cases hs : s.tickStop
  case false => exact (h.covered ht hs).right.awake i k hw
  case true  => simpa [hm] using h.joined hs

theorem Safe.of_frame (hs : s.Safe) (hf : s'.running = s.running ∧ s'.tickStop = s.tickStop ∧
    s'.ticker = s.ticker ∧ s'.main = s.main) (hc : s.running = false → s.Covered → s'.Covered) :
    s'.Safe := by
  have ⟨hr, ht, hk, hm⟩ := hf
  constructor
  case covered =>
    rw [hr, ht, hk]
    intro he hn
    have ⟨h₁, h₂⟩ := hs.covered he hn
    exact ⟨h₁, hc h₁ h₂⟩
  case joined =>
    rw [ht, hm]
    exact hs.joined

theorem Safe.ticker_step {elapsedMs : UInt64} (hs : s.Safe) (ok : s.TicksEnough (.ticker elapsedMs))
    (h : s.tickerStep elapsedMs = some s') : s'.Safe := by
  unfold tickerStep at h
  split at h
  case h_1 ht =>
    cases h
    refine ⟨fun he hn => ?_, hs.joined⟩
    have hr : s.running = false := by simp_all
    have ⟨hw, hb⟩ := ok ht hr hn
    exact ⟨hr, hw, hb⟩
  case h_2 =>
    split at h <;> cases h <;> exact ⟨nofun, hs.joined⟩
  case h_3 => cases h

theorem Safe.main_step (hs : s.Safe) (h : s.mainStep = some s') : s'.Safe := by
  have moved {stop m} (hm : s.main.HasJoined → m.HasJoined) :
      { s with stop := stop, main := m }.Safe :=
    ⟨fun ht hn => have ⟨hr, hw, hb⟩ := hs.covered ht hn; ⟨hr, hw, hb⟩, fun ht => hm <| hs.joined ht⟩
  unfold mainStep at h
  split at h
  case h_1 hm | h_2 hm =>
    split at h <;> cases h
    exact moved (by simp [hm])
  case h_3 hm =>
    cases h
    exact moved (by simp [hm])
  case h_4 j hm =>
    split at h
    case isTrue =>
      split at h <;> cases h
      exact moved (by simp [hm])
    case isFalse =>
      cases h
      exact ⟨nofun, fun _ => trivial⟩
  case h_5 =>
    cases h
    refine ⟨fun ht hn => ?_, fun _ => trivial⟩
    have ⟨hr, hc⟩ := hs.covered ht hn
    simp only [hc.broadcast_eq]
    exact ⟨hr, hc.awake, hc.tokens⟩
  case h_6 =>
    split at h <;> cases h
    exact moved fun _ => trivial
  case h_7 => cases h

theorem Safe.step {a : CollectorAct n} (hs : s.Safe) (ok : s.TicksEnough a)
    (h : collectorStep s a = some s') : s'.Safe := by
  cases a
  case signal =>
    cases h
    exact ⟨fun ht hn => have ⟨_, hw, hb⟩ := hs.covered ht hn; ⟨rfl, hw, hb⟩, hs.joined⟩
  case cleaner frames pushed =>
    exact hs.of_frame (cleaner_frame h) fun hr hc => hc.cleaner_step hr h
  case ticker elapsedMs => exact hs.ticker_step ok h
  case worker i online  => exact hs.of_frame (worker_frame h) fun _ hc => hc.worker_step h
  case wakeup i =>
    simp only [collectorStep] at h
    split at h <;> cases h
    case h_1 k hw =>
      exact hs.of_frame (by simp [setWorker]) fun _ hc => absurd hw <| hc.awake i k
  case main => exact hs.main_step h

end Collector

open Collector

-- Along every run in which the ticker does not leave the workers short of tokens, no worker is
-- stranded.
theorem shutdown_drains (n : Nat) (bucket : Tbf) (as : List (CollectorAct n))
    (h : collectorStep.Guarded (Collector.initial n bucket) as TicksEnough) :
    collectorStep.Always (Collector.initial n bucket) as (¬·.Stranded) :=
  fun bs s hp hs => Safe.not_stranded <|
    Transition.always_of_guarded (Safe.initial bucket) (fun hI ok hs => hI.step ok hs) h bs s hp hs

namespace Collector

def defaultBucket (tokens : UInt64) : Tbf where
  cps            := tbfDefaultCps
  burst          := tbfDefaultBurst
  tokens         := tokens
  shutdown       := false
  throttledBytes := 0

def drained (tokens : UInt64) : Collector poolMinWorkers :=
  .initial _ (defaultBucket tokens)

def feed : List (CollectorAct poolMinWorkers) :=
  [.cleaner 0 false, .cleaner 1 false, .cleaner 0 true, .cleaner 0 false]

-- A worker takes the frame out of Q2 and asks for the tokens.
def request : List (CollectorAct poolMinWorkers) :=
  List.replicate 4 (.worker ⟨0, by decide⟩ true)

def finish : List (CollectorAct poolMinWorkers) :=
  List.replicate 2 (.worker ⟨0, by decide⟩ true)

-- The process is told to stop. The ticker and the cleaner leave, and `main` comes to the joins.
def shutdown : List (CollectorAct poolMinWorkers) :=
  [.signal, .ticker 0, .cleaner 0 false, .main, .main, .main]

theorem drained_fetch {t : UInt64} (h : 28 ≤ t) :
    (defaultBucket t).tbfFetchPass envFrameWireSize.toUInt64 false =
    .returns .ok (defaultBucket (t - 28)) := by
  simp [Tbf.tbfFetchPass, Tbf.clamp, defaultBucket, envFrameWireSize, tbfDefaultBurst, h]

theorem drained_request (t : UInt64) :
    ∃ s, collectorStep.exec (drained t) (feed ++ request.take 3) = some s ∧
      s.workers ⟨0, by decide⟩ = .fetching 0 false ∧ s.bucket = defaultBucket t ∧
      { s.setWorker ⟨0, by decide⟩ .popping with unicastLock := none } = drained t := by
  have hw (f : Fin poolMinWorkers → WorkerPc) (h : f ⟨1, by decide⟩ = .popping) :
      Function.update f ⟨0, by decide⟩ .popping = fun _ => .popping := by
    funext i
    match i with
    | ⟨0, _⟩ => rfl
    | ⟨1, _⟩ => exact h
  exact ⟨_, rfl, rfl, rfl, congrArg (fun ws => { drained t with workers := ws }) (hw _ rfl)⟩

theorem drained_round {t : UInt64} (h : 28 ≤ t) :
    collectorStep.exec (drained t) (feed ++ request ++ finish) = some (drained (t - 28)) := by
  have ⟨s, hs, hw, hb, hr⟩ := drained_request t
  have hf : collectorStep.exec s (request.drop 3 ++ finish) =
      some { s.setWorker ⟨0, by decide⟩ .popping with
             unicastLock := none
             bucket      := defaultBucket (t - 28) } := by
    simp [request, finish, collectorStep, workerStep, hw, hb, drained_fetch h, setWorker]
  have he : feed ++ request ++ finish = feed ++ request.take 3 ++ (request.drop 3 ++ finish) := rfl
  rw [he, Transition.exec_append, hs, Option.bind_some, hf]
  exact congrArg (fun s => some { s with bucket := defaultBucket (t - 28) }) hr

theorem drained_rounds {k : Nat} {t r : UInt64} (h : t.toNat = 28 * k + r.toNat) :
    collectorStep.exec (drained t) (List.replicate k (feed ++ request ++ finish)).flatten =
      some (drained r) := by
  induction k generalizing t
  case zero =>
    have ht : t = r := UInt64.toNat_inj.mp <| by omega
    simp [ht]
  case succ k hi =>
    have ht : 28 ≤ t := UInt64.le_iff_toNat_le.mpr <| by simp; omega
    have hk : (t - 28).toNat = 28 * k + r.toNat := by
      rw [UInt64.toNat_sub_of_le _ _ ht]
      simp
      omega
    rw [List.replicate_succ, List.flatten_cons, Transition.exec_append, drained_round ht]
    exact hi hk

theorem drained_strands :
    ∃ s, collectorStep.exec (drained 4) (feed ++ request ++ shutdown) = some s ∧ s.Stranded :=
  ⟨_, rfl, ⟨0, by decide⟩, 0, 0, rfl, rfl, rfl, rfl, Nat.zero_le _⟩

end Collector

-- The ticker leaves while the bucket is full, and the frame in Q2 is sent without it.
theorem shutdown_drains_full :
    collectorStep.Always (Collector.initial poolMinWorkers (defaultBucket tbfDefaultBurst))
      (feed ++ .signal :: .ticker 0 :: request ++ finish) (¬·.Stranded) := by
  refine shutdown_drains _ _ _ <| .cons trivial rfl <| .cons trivial rfl <| .cons trivial rfl <|
    .cons trivial rfl <| .cons trivial rfl <| .cons (fun _ _ _ => ⟨fun _ _ => nofun, ?_⟩) rfl <|
    .of_forall ?_
  · decide
  · simp [request, finish, TicksEnough]

-- After 37449 frames there are not enough tokens left for another one, and the process stops while
-- the worker waits for them.
theorem shutdown_drains_false :
    ¬∀ n cps burst bucket s, tbfInit cps burst true = .ok bucket →
      collectorStep.Reachable (Collector.initial n bucket) s → ¬s.Stranded := by
  intro h
  have ⟨s, hs, hw⟩ := drained_strands
  have hr : collectorStep.Reachable (drained tbfDefaultBurst) s := by
    refine ⟨(List.replicate 37449 (feed ++ request ++ finish)).flatten ++
      (feed ++ request ++ shutdown), ?_⟩
    rw [Transition.exec_append, drained_rounds (r := 4) rfl, Option.bind_some, hs]
  exact h poolMinWorkers tbfDefaultCps tbfDefaultBurst (defaultBucket tbfDefaultBurst) s rfl hr hw

end IotCollector
