import IotCollector.Egress.Resources
import IotCollector.Egress.Theorems.Backlog

namespace IotCollector

variable {cfg g : DispatcherOpts} {cfgSet running : Bool} {io : StartIo} {e : Egress}

theorem DispatcherOpts.copyNumbers_workerNum (cfg : DispatcherOpts) : 0 < cfg.copyNumbers.workerNum := by
  have h₁ : 0 < poolMinWorkers := by decide
  have h₂ : 0 < poolMaxWorkers := by decide
  simp only [copyNumbers]
  split <;> omega

theorem DispatcherOpts.copyStrings_spec {h : DispatcherOpts} (hg : cfg.copyStrings h = some g) :
    g.workerNum = h.workerNum ∧ g.cachePath = cfg.cachePath := by
  simp only [copyStrings, Option.bind_eq_bind, Option.bind_eq_some_iff, copyOptStr_eq_some_iff] at hg
  obtain ⟨_, _, _, _, _, _, c, hc, hg⟩ := hg
  cases hg
  exact ⟨rfl, hc.left⟩

namespace Egress

theorem openMcast_cfg (e : Egress) (mcast : Int) : (e.openMcast mcast).cfg = e.cfg := by
  unfold openMcast
  split <;> rfl

theorem openCache_cfg (e : Egress) (opens : Bool) : (e.openCache opens).cfg = e.cfg := by
  unfold openCache
  split <;> rfl

theorem opened_mcastFd (e : Egress) (mcast : Int) (opens : Bool) (connect : Except IotError Nat) :
    (((e.openMcast mcast).openCache opens).connect connect).dispatcher.mcastFd =
    if e.cfg.mcastGroup.isSome then mcast else e.dispatcher.mcastFd := by
  simp only [Egress.connect, openCache, openMcast, Dispatcher.dispatcherConnect]
  split_ifs <;> rfl

end Egress

namespace StartRun

def connected (r : StartRun) (io : StartIo) : StartRun :=
  (((r.createTicker io.ticker).openMcast io.mcast).openCache io.opens).connect io.connect

theorem connected_cfg (r : StartRun) (io : StartIo) : (r.connected io).egress.cfg = r.egress.cfg :=
  (Egress.openCache_cfg ..).trans <| Egress.openMcast_cfg ..

theorem startThreads_eq (r : StartRun) (workers : Nat) (monitor : Bool) :
    ((r.startThreads workers monitor).fst, (r.startThreads workers monitor).snd.egress) =
    r.egress.startThreads workers monitor := by
  simp only [startThreads]
  split <;> rfl

theorem createBucket_spec (r : StartRun) (alloc : Bool) :
    (¬(r.egress.outboundBucket.isSome ∨ alloc) ∧ r.createBucket alloc = .error .errNomem) ∨
    ((r.egress.outboundBucket.isSome ∨ alloc) ∧ ∃ r', r.createBucket alloc = .ok r' ∧
      r'.egress.cfg = r.egress.cfg ∧
      r'.held = r.held ++ if r.egress.outboundBucket.isNone then [.bucket] else []) := by
  unfold createBucket Egress.createBucket
  cases hb : r.egress.outboundBucket
  case some t => exact .inr ⟨.inl rfl, ⟨_, rfl, rfl, rfl⟩⟩
  case none =>
    cases alloc
    case false => exact .inl ⟨by simp, rfl⟩
    case true  => exact .inr ⟨.inr rfl, ⟨_, rfl, rfl, rfl⟩⟩

theorem startThreads_of_workers {r : StartRun} {workers : Nat} (h : 0 < r.egress.cfg.workerNum)
    (hw : workers ≠ 0) (monitor : Bool) : (r.startThreads workers monitor).fst = .ok := by
  have hn : min r.egress.cfg.workerNum workers ≠ 0 := by omega
  simp only [startThreads, Egress.startThreads, if_neg hn]

theorem startThreads_zero (r : StartRun) (monitor : Bool) :
    (r.startThreads 0 monitor).fst = .errGeneric ∧
    (r.startThreads 0 monitor).snd.held = r.exitsClosed := by
  simp [startThreads, Egress.startThreads]

theorem filter_exits {B : List Resource} {u m fd : Int} {t p c q : Prop} [Decidable t] [Decidable p]
    [Decidable c] [Decidable q] (h : ∀ x ∈ B, x = .bucket) (hm : p → fd = m) :
    List.filter (fun x => x ≠ Resource.unicast u ∧ x ≠ .mcast m)
      (B ++ (if t then [.ticker] else []) ++ (if p then [.mcast fd] else []) ++
        (if c then [.cache] else []) ++ (if q then [.unicast u] else [])) =
    B ++ (if t then [.ticker] else []) ++ (if c then [.cache] else []) := by
  have hb : B.filter (fun x => x ≠ .unicast u ∧ x ≠ .mcast m) = B :=
    List.filter_eq_self.mpr fun x hx => by simp [h x hx]
  have hp : (if p then [Resource.mcast fd] else []).filter
      (fun x => x ≠ .unicast u ∧ x ≠ .mcast m) = [] := by
    split
    case isTrue h  => simp [hm h]
    case isFalse h => rfl
  simp only [List.filter_append, hb, hp, List.append_nil]
  split_ifs <;> simp

theorem exitsClosed_connected {r : StartRun} (h : ∀ x ∈ r.held, x = .bucket) (io : StartIo) :
    (r.connected io).exitsClosed =
    r.held ++ (if io.ticker then [.ticker] else []) ++
      (if r.egress.cfg.cachePath.isSome ∧ io.opens then [.cache] else []) := by
  have hm : r.egress.cfg.mcastGroup.isSome ∧ 0 ≤ io.mcast →
      io.mcast = (r.connected io).egress.dispatcher.mcastFd := by
    intro ⟨hs, _⟩
    simp only [connected, connect, openCache, openMcast]
    rw [Egress.opened_mcastFd, createTicker, if_pos hs]
  have hc : ((r.createTicker io.ticker).openMcast io.mcast).egress.cfg = r.egress.cfg :=
    Egress.openMcast_cfg ..
  simp only [exitsClosed, connected, connect, openCache, hc]
  exact filter_exits h hm

theorem startThreads_connected {r : StartRun} (hw : 0 < r.egress.cfg.workerNum)
    (hb : ∀ x ∈ r.held, x = .bucket) (io : StartIo) :
    let s := (r.connected io).startThreads io.workers io.monitor
    (io.workers ≠ 0 ∧ s.fst = .ok) ∨
    (io.workers = 0 ∧ s.fst = .errGeneric ∧ s.snd.held =
      r.held ++ (if io.ticker then [.ticker] else []) ++
        (if r.egress.cfg.cachePath.isSome ∧ io.opens then [.cache] else [])) := by
  by_cases hz : io.workers = 0
  case neg =>
    rw [← r.connected_cfg io] at hw
    exact .inl ⟨hz, startThreads_of_workers hw hz _⟩
  case pos =>
    have ⟨hr, hh⟩ := (r.connected io).startThreads_zero io.monitor
    refine .inr ⟨hz, ?_⟩
    rw [hz, hr, hh, exitsClosed_connected hb io]
    exact ⟨rfl, rfl⟩

end StartRun

theorem startRun_eq (e : Egress) (cfg : DispatcherOpts) (cfgSet running : Bool) (io : StartIo) :
    ((e.startRun cfg cfgSet running io).fst, (e.startRun cfg cfgSet running io).snd.egress) =
    e.dispatcherStart cfg cfgSet running io := by
  unfold Egress.startRun Egress.dispatcherStart
  split
  case isTrue => rfl
  case isFalse =>
    cases hg : cfg.copyStrings cfg.copyNumbers
    case none => simp only [hg]
    case some g =>
      simp only [hg, StartRun.createBucket]
      generalize hb : Egress.createBucket _ io.alloc = b
      cases b
      case error rc => rfl
      case ok e'    => exact StartRun.startThreads_eq ..

-- The call gets as far as the workers, of which none can be created.
structure FailsLate (e : Egress) (cfg : DispatcherOpts) (cfgSet running : Bool) (io : StartIo) : Prop where
  args    : cfgSet ∧ cfg.q2 ∧ running ∧ ¬e.started
  strings : (cfg.copyStrings cfg.copyNumbers).isSome
  bucket  : e.outboundBucket.isSome ∨ io.alloc
  workers : io.workers = 0

-- A start that gets as far as the workers keeps what it has taken, but for the exits. Any other one
-- succeeds, or fails before it has taken anything.
theorem startRun_cases (e : Egress) (cfg : DispatcherOpts) (cfgSet running : Bool) (io : StartIo) :
    let s := e.startRun cfg cfgSet running io
    (¬FailsLate e cfg cfgSet running io ∧ (s.fst = .ok ∨ s.snd.held = [])) ∨
    (FailsLate e cfg cfgSet running io ∧ s.fst = .errGeneric ∧ s.snd.held =
      (if e.outboundBucket.isNone then [.bucket] else []) ++ (if io.ticker then [.ticker] else []) ++
        (if cfg.cachePath.isSome ∧ io.opens then [.cache] else [])) := by
  unfold Egress.startRun
  split
  case isTrue ha =>
    refine .inl ⟨fun hl => ?_, .inr rfl⟩
    have ⟨h₁, h₂, h₃, h₄⟩ := hl.args
    simp [h₁, h₂, h₃, h₄] at ha
  case isFalse ha =>
    cases hg : cfg.copyStrings cfg.copyNumbers
    case none =>
      refine .inl ⟨fun hl => ?_, .inr (by simp only [hg])⟩
      have hs := hl.strings
      simp [hg] at hs
    case some g =>
      have ⟨hn, hp⟩ := DispatcherOpts.copyStrings_spec hg
      simp only [hg]
      generalize hr : StartRun.mk _ [] = r
      have hb : r.egress.outboundBucket = e.outboundBucket := by rw [← hr]
      have hc : r.egress.cfg = g := by rw [← hr]
      have hh : r.held = [] := by rw [← hr]
      rcases r.createBucket_spec io.alloc with ⟨hs, he⟩ | ⟨hs, r', he, hc', hh'⟩
      case inl =>
        simp only [he, hh]
        exact .inl ⟨fun hl => absurd hl.bucket (hb ▸ hs), .inr trivial⟩
      case inr =>
        have hw : 0 < r'.egress.cfg.workerNum := by
          rw [hc', hc, hn]
          exact cfg.copyNumbers_workerNum
        have hk : ∀ x ∈ r'.held, x = .bucket := by
          rw [hh', hh]
          split <;> simp
        simp only [he]
        rcases StartRun.startThreads_connected hw hk io with ⟨hz, hr⟩ | ⟨hz, hr, hx⟩
        case inl => exact .inl ⟨fun hl => hz hl.workers, .inl hr⟩
        case inr =>
          rw [hh', hh, hc', hc, hp, hb] at hx
          have ha : cfgSet ∧ cfg.q2 ∧ running ∧ ¬e.started := by simpa [not_or] using ha
          exact .inr ⟨⟨ha, by simp [hg], hb ▸ hs, hz⟩, hr, hx⟩

-- A start that fails leaves nothing behind unless it fails with the workers after it has created a
-- bucket or a ticker, or has opened the cache.
theorem failed_start_clean_iff (e : Egress) (cfg : DispatcherOpts) (cfgSet running : Bool)
    (io : StartIo) :
    ((e.dispatcherStart cfg cfgSet running io).fst ≠ .ok →
      (e.startRun cfg cfgSet running io).snd.held = []) ↔
    (FailsLate e cfg cfgSet running io →
      e.outboundBucket.isSome ∧ ¬io.ticker ∧ ¬(cfg.cachePath.isSome ∧ io.opens)) := by
  rw [← startRun_eq]
  rcases startRun_cases e cfg cfgSet running io with ⟨hl, h⟩ | ⟨hl, hr, hh⟩
  case inl => exact iff_of_true (fun hn => h.resolve_left hn) fun hf => absurd hf hl
  case inr =>
    rw [hr, hh, imp_iff_right (by decide), imp_iff_right hl]
    cases e.outboundBucket <;> simp

-- No worker can be created. The ticker goes on running, with the bucket, and the cache is open.
theorem failed_start_clean_false :
    ¬∀ (e : Egress) (cfg : DispatcherOpts) (cfgSet running : Bool) (io : StartIo),
      (e.dispatcherStart cfg cfgSet running io).fst ≠ .ok →
      (e.startRun cfg cfgSet running io).snd.held = [] := by
  intro h
  have hf : ((backlog none).dispatcherStart backlogOpts true true { backlogIo with workers := 0 }).fst =
      .errGeneric := rfl
  have hh : ((backlog none).startRun backlogOpts true true { backlogIo with workers := 0 }).snd.held =
      [.bucket, .ticker, .cache] := rfl
  have h := h (backlog none) backlogOpts true true { backlogIo with workers := 0 } (by rw [hf]; decide)
  cases hh.symm.trans h

end IotCollector
