import IotCollector.Egress.Locking

namespace IotCollector
namespace Locking

open LockProgram LockSystem

-- The order in which the locks are taken, except by `cache_replay_start`.
def rank : Mutex → Nat
  | .unicast => 0
  | .send    => 1
  | .bucket  => 2
  | .stats   => 3
  | .cache   => 4
  | .link    => 5

-- The call of `stats_on_throttled` in `tbf_fetch_token`.
def throttledSite : Site Mutex :=
  ([.bucket, .send, .unicast], .stats)

-- The call of `unicast_sender_send_with_bucket` in `cache_replay_start`.
def replaySite : Site Mutex :=
  ([.cache], .send)

-- The call of `cache_pending_frames` in `stats_snapshot`.
def snapshotSite : Site Mutex :=
  ([.stats], .cache)

def Increasing (x : Site Mutex) : Prop :=
  ∀ l ∈ x.fst, rank l < rank x.snd

instance (x : Site Mutex) : Decidable (Increasing x) :=
  inferInstanceAs (Decidable (∀ l ∈ x.fst, rank l < rank x.snd))

theorem dispatchWorker_sites : ∀ x ∈ dispatchWorker.sites [], Increasing x ∧
    (x.snd = .cache → x.fst = []) ∧ (x.snd = .stats → x.fst = [] ∨ x = throttledSite) := by
  decide

theorem dispatchMonitor_sites : ∀ x ∈ dispatchMonitor.sites [], (Increasing x ∨ x = replaySite) ∧
    (x.snd = .cache → x.fst = []) ∧ x.snd ≠ .stats := by
  decide

theorem statsThreadFn_sites : ∀ x ∈ statsThreadFn.sites [], Increasing x ∧
    (x.snd = .cache → x = snapshotSite) ∧ (x.snd = .stats → x.fst = []) := by
  decide

abbrev System (n : Nat) := LockSystem (ThreadId n) Mutex

-- One worker, the monitor and the statistics thread are each in the call that needs the lock of the
-- next one.
structure Triangle {n : Nat} (s : System n) : Prop where
  throttled : ∃ i, (s (.worker i)).site = some throttledSite
  replay    : (s .monitor).site = some replaySite
  snapshot  : (s .stats).site = some snapshotSite

def Enters {n : Nat} (s : System n) (t : ThreadId n) (choice : Bool) (x : Site Mutex) : Prop :=
  ((s t).advance choice).bind LockThread.site = some x

def Apart {n : Nat} (s : System n) : ThreadId n × Bool → Prop
  | (.worker i, choice) => Enters s (.worker i) choice throttledSite →
    ¬((s .monitor).site = some replaySite ∧ (s .stats).site = some snapshotSite)
  | (.monitor, choice)  => Enters s .monitor choice replaySite →
    ¬((∃ i, (s (.worker i)).site = some throttledSite) ∧ (s .stats).site = some snapshotSite)
  | (.stats, choice)    => Enters s .stats choice snapshotSite →
    ¬((∃ i, (s (.worker i)).site = some throttledSite) ∧ (s .monitor).site = some replaySite)

variable {n : Nat} {s s' : System n} {t : ThreadId n} {x : Site Mutex}

theorem code_balanced (t : ThreadId n) : (code t).Balanced [] := by
  cases t <;> exact of_decide_eq_true rfl

theorem held_of_site (h : (s t).site = some x) : (s t).held = x.fst := by
  have ⟨l, _, hx⟩ := Option.map_eq_some_iff.mp h
  simp [← hx]

theorem Triangle.waitCycle (h : Triangle s) : s.WaitCycle := by
  have ⟨i, hw⟩ := h.throttled
  have h₁ : s.Waits .stats .monitor :=
    waits_iff.mpr ⟨_, h.snapshot, by rw [held_of_site h.replay]; decide⟩
  have h₂ : s.Waits .monitor (.worker i) :=
    waits_iff.mpr ⟨_, h.replay, by rw [held_of_site hw]; decide⟩
  have h₃ : s.Waits (.worker i) .stats :=
    waits_iff.mpr ⟨_, hw, by rw [held_of_site h.snapshot]; decide⟩
  exact ⟨.stats, .head h₁ <| .head h₂ <| .single h₃⟩

theorem replay_of_descent (f : s.Fits code) (hx : (s t).site = some x) (hi : ¬Increasing x) :
    t = .monitor ∧ x = replaySite := by
  have hm := (f t).site hx
  cases t
  case worker i => exact absurd (dispatchWorker_sites x hm).left hi
  case monitor  => exact ⟨rfl, (dispatchMonitor_sites x hm).left.resolve_left hi⟩
  case stats    => exact absurd (statsThreadFn_sites x hm).left hi

theorem snapshot_of_cache (f : s.Fits code) (hx : (s t).site = some x) (hc : x.snd = .cache)
    (hn : x.fst ≠ []) : t = .stats ∧ x = snapshotSite := by
  have hm := (f t).site hx
  cases t
  case worker i => exact absurd ((dispatchWorker_sites x hm).right.left hc) hn
  case monitor  => exact absurd ((dispatchMonitor_sites x hm).right.left hc) hn
  case stats    => exact ⟨rfl, (statsThreadFn_sites x hm).right.left hc⟩

theorem throttled_of_stats (f : s.Fits code) (hx : (s t).site = some x) (hs : x.snd = .stats)
    (hn : x.fst ≠ []) : (∃ i, t = .worker i) ∧ x = throttledSite := by
  have hm := (f t).site hx
  cases t
  case worker i => exact ⟨⟨i, rfl⟩, ((dispatchWorker_sites x hm).right.right hs).resolve_left hn⟩
  case monitor  => exact absurd hs (dispatchMonitor_sites x hm).right.right
  case stats    => exact absurd ((statsThreadFn_sites x hm).right.right hs) hn

theorem fst_ne_nil_of_cycle (h : Relation.TransGen s.Waits t t) (hx : (s t).site = some x) :
    x.fst ≠ [] := by
  have ⟨_, _, _, _, hm⟩ := pred_of_cycle h
  rw [held_of_site hx] at hm
  exact List.ne_nil_of_mem hm

-- A circle goes against the order of the locks somewhere, and this is in the monitor. From there it
-- can only be followed back to the statistics thread, and from this to a worker.
theorem triangle_of_waitCycle (f : s.Fits code) (h : s.WaitCycle) : Triangle s := by
  have ⟨t, ht⟩ := h
  have ⟨u, m, hu, hm, hle⟩ := ht.exists_descent fun t => (s t).site.elim 0 (rank ·.snd)
  have ⟨x, hx, hxm⟩ := waits_iff.mp hu
  have ⟨y, hy⟩ := site_of_cycle hm
  have hi : ¬Increasing y := by
    intro hi
    have := hi x.snd <| held_of_site hy ▸ hxm
    simp only [hx, hy, Option.elim_some] at hle
    omega
  obtain ⟨rfl, rfl⟩ := replay_of_descent f hy hi
  have ⟨v, z, hv, hz, hzm⟩ := pred_of_cycle hm
  have hc : z.snd = .cache := by simpa [held_of_site hy, replaySite] using hzm
  obtain ⟨rfl, rfl⟩ := snapshot_of_cache f hz hc <| fst_ne_nil_of_cycle hv hz
  have ⟨w, q, hw, hq, hqm⟩ := pred_of_cycle hv
  have hs : q.snd = .stats := by simpa [held_of_site hz, snapshotSite] using hqm
  obtain ⟨⟨i, rfl⟩, rfl⟩ := throttled_of_stats f hq hs <| fst_ne_nil_of_cycle hw hq
  exact ⟨⟨i, hq⟩, hy, hz⟩

theorem enters_iff {choice : Bool} (h : LockSystem.step s (t, choice) = some s') :
    Enters s t choice x ↔ (s' t).site = some x := by
  obtain ⟨t', ha, rfl⟩ := step_eq h
  simp [Enters, ha]

theorem site_iff_of_ne {choice : Bool} {u : ThreadId n}
    (h : LockSystem.step s (t, choice) = some s') (hu : u ≠ t) :
    (s' u).site = some x ↔ (s u).site = some x := by
  obtain ⟨t', ha, rfl⟩ := step_eq h
  simp [hu]

theorem Apart.not_triangle {a : ThreadId n × Bool} (ok : Apart s a) (hn : ¬Triangle s)
    (h : LockSystem.step s a = some s') : ¬Triangle s' := by
  intro ⟨⟨i, hw⟩, hm, hs⟩
  have ⟨t, choice⟩ := a
  have keep {u x} (hu : u ≠ t) : (s' u).site = some x → (s u).site = some x :=
    (site_iff_of_ne h hu).mp
  cases t
  case worker j =>
    by_cases hi : i = j
    case pos => exact ok ((enters_iff h).mpr <| hi ▸ hw) ⟨keep nofun hm, keep nofun hs⟩
    case neg => exact hn ⟨⟨i, keep (by simp [hi]) hw⟩, keep nofun hm, keep nofun hs⟩
  case monitor => exact ok ((enters_iff h).mpr hm) ⟨⟨i, keep nofun hw⟩, keep nofun hs⟩
  case stats   => exact ok ((enters_iff h).mpr hs) ⟨⟨i, keep nofun hw⟩, keep nofun hm⟩

theorem apart_of_not_triangle {a : ThreadId n × Bool} (h : LockSystem.step s a = some s')
    (hn : ¬Triangle s') : Apart s a := by
  have ⟨t, choice⟩ := a
  have keep {u x} (hu : u ≠ t) : (s u).site = some x → (s' u).site = some x :=
    (site_iff_of_ne h hu).mpr
  cases t
  case worker i =>
    exact fun he ⟨hm, hs⟩ => hn ⟨⟨i, (enters_iff h).mp he⟩, keep nofun hm, keep nofun hs⟩
  case monitor =>
    exact fun he ⟨⟨i, hw⟩, hs⟩ => hn ⟨⟨i, keep nofun hw⟩, (enters_iff h).mp he, keep nofun hs⟩
  case stats =>
    exact fun he ⟨⟨i, hw⟩, hm⟩ => hn ⟨⟨i, keep nofun hw⟩, keep nofun hm, (enters_iff h).mp he⟩

-- Along every run, no threads wait for each other in a circle exactly if the three calls are kept
-- apart.
theorem deadlock_free_iff (n : Nat) (as : List (ThreadId n × Bool)) :
    LockSystem.step.Always (LockSystem.start code) as (¬·.WaitCycle) ↔
    LockSystem.step.Guarded (LockSystem.start code) as Apart := by
  have initial : ¬Triangle (LockSystem.start code : System n) := fun h => nomatch h.replay
  exact Transition.always_iff_guarded (I := fun s => s.Fits code ∧ ¬Triangle s)
    ⟨.start code_balanced, initial⟩
    (fun ⟨f, h⟩ hc => h <| triangle_of_waitCycle f hc)
    (fun ⟨f, h⟩ ok hs => ⟨f.step hs, ok.not_triangle h hs⟩)
    (fun _ hs hp => apart_of_not_triangle hs (hp ·.waitCycle))

def monitorPath : List (ThreadId 1 × Bool) :=
  [true, false, true, true, true, true, true, true, false, true, true, false, true, true, false,
   true, true, false, true, true, true, false, true, false].map (.monitor, ·)

def statsPath : List (ThreadId 1 × Bool) :=
  [true, true].map (.stats, ·)

-- A worker sends a frame for which there are not enough tokens.
def workerPath : List (ThreadId 1 × Bool) :=
  [true, false, true, false, true, false, true, true, false, true, true, false].map (.worker 0, ·)

theorem triangle_reachable :
    ∃ s, LockSystem.step.exec (LockSystem.start code) (monitorPath ++ statsPath ++ workerPath) =
      some s ∧ Triangle s :=
  ⟨_, rfl, ⟨0, rfl⟩, rfl, rfl⟩

theorem deadlock_free_false :
    ¬∀ n s, LockSystem.step.Reachable (LockSystem.start (code (n := n))) s → ¬s.WaitCycle :=
  fun h =>
    have ⟨s, hs, ht⟩ := triangle_reachable
    h 1 s ⟨_, hs⟩ ht.waitCycle

end Locking
end IotCollector
