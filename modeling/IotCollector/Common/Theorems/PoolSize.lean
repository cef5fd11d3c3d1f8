import Mathlib.Data.List.Nodup
import IotCollector.Common.Theorems.Tasks

namespace IotCollector
namespace PoolRun

variable {r r' : PoolRun} {a : PoolAct} {w : Nat} {pc pc' : TpWorkerPc}

theorem loosePoolStep_of_poolStep (hd : r.destroy ≠ .done) (h : poolStep r a = some r') :
    loosePoolStep r a = some r' := by
  cases a
  case call t =>
    obtain ⟨hg, he⟩ := Option.ite_none_right_eq_some.mp h
    exact (if_pos ⟨hd, hg.right⟩).trans he
  case submit i => exact (if_neg hd).trans h
  case worker w flag => exact h
  case destroy =>
    have h : r.destroyStep = some r' := h
    simp only [loosePoolStep]
    split
    case isFalse => exact h
    case isTrue hu =>
      simp only [destroyStep, hu] at h
      exact (Option.ite_none_right_eq_some.mp h).right

def Alive (r : PoolRun) (w : Nat) : Prop :=
  ∃ pc, r.threads[w]? = some pc ∧ pc ≠ .exited

def crew (r : PoolRun) : List Bool :=
  r.threads.map (· ≠ .exited)

theorem alive_iff : r.Alive w ↔ r.crew[w]? = some true := by
  simp [Alive, crew]

theorem count_crew : r.crew.count true = r.threads.countP (· ≠ .exited) := by
  rw [List.count, crew, List.countP_map]
  congr 1
  funext pc
  simp

-- What a step does to the size of the pool. A worker leaves after it has seen the flag, or on a
-- command while there are enough workers, and only a worker hires another one.
inductive Resized (r r' : PoolRun) : Prop
  | keep (q : RingQueue) (c : UInt32) :
      r'.pool = { r.pool with taskQueue := q, waterHighCount := c } → r'.crew = r.crew →
      r'.destroy = r.destroy → Resized r r'
  | hire :
      true ∈ r.crew → r.pool.workerNum < r.pool.maxWorkers →
      r'.pool = { r.pool with
        workers   := r.crew.length :: r.pool.workers
        workerNum := r.pool.workerNum + 1 } →
      r'.crew = r.crew ++ [true] → r'.destroy = r.destroy → Resized r r'
  | leave (w : Nat) :
      r.crew[w]? = some true →
      (.leaving ∈ r.threads ∨ r.pool.minWorkers < r.pool.workerNum) →
      r'.pool = r.pool.tpUnlinkLocked w → r'.crew = r.crew.set w false → r'.destroy = r.destroy →
      Resized r r'
  | shut :
      r'.pool = { r.pool with shutdown := true } → r'.crew = r.crew → r'.destroy = .waiting →
      Resized r r'
  | unwait :
      r.pool.workerNum = 0 → r'.pool = r.pool → r'.crew = r.crew → Resized r r'
  | drain (q : RingQueue) :
      r.destroy = .draining → r'.pool = { r.pool with taskQueue := q } → r'.crew = r.crew →
      Resized r r'

structure Stepped (r r' : PoolRun) : Prop where
  resized : Resized r r'
  leaving : .leaving ∈ r'.threads → .leaving ∈ r.threads ∨ r.pool.shutdown

theorem crew_congr (h : r'.threads = r.threads) : r'.crew = r.crew := by
  rw [crew, crew, h]

theorem crew_setThread (h : r.threads[w]? = some pc) (hp : pc ≠ .exited) (hp' : pc' ≠ .exited) :
    (r.setThread w pc').crew = r.crew := by
  refine List.ext_getElem? fun v => ?_
  by_cases hv : v = w
  case pos => simp [crew, setThread, hv, h, hp, hp', List.getElem?_set_self']
  case neg => simp [crew, setThread, List.getElem?_set_ne (Ne.symm hv)]

theorem leaving_set (hp' : pc' = .leaving → r.pool.shutdown)
    (h : .leaving ∈ r.threads.set w pc') : .leaving ∈ r.threads ∨ r.pool.shutdown := by
  cases List.mem_or_eq_of_mem_set h
  case inl h => exact .inl h
  case inr h => exact .inr <| hp' h.symm

theorem Stepped.keep {q : RingQueue} {c : UInt32}
    (hp : r'.pool = { r.pool with taskQueue := q, waterHighCount := c })
    (ht : r'.threads = r.threads) (hd : r'.destroy = r.destroy) : Stepped r r' :=
  ⟨.keep q c hp (crew_congr ht) hd, fun hl => .inl <| ht ▸ hl⟩

theorem Stepped.move {q : RingQueue} {c : UInt32} (hw : r.threads[w]? = some pc)
    (he : pc ≠ .exited) (hp : r'.pool = { r.pool with taskQueue := q, waterHighCount := c })
    (ht : r'.threads = (r.setThread w pc').threads) (hd : r'.destroy = r.destroy)
    (he' : pc' ≠ .exited) (hl : pc' = .leaving → r.pool.shutdown) : Stepped r r' :=
  ⟨.keep q c hp ((crew_congr ht).trans <| crew_setThread hw he he') hd,
    fun h => leaving_set hl <| ht ▸ h⟩

theorem Stepped.exit (hw : r.threads[w]? = some pc) (he : pc ≠ .exited)
    (hl : pc = .leaving ∨ r.pool.minWorkers < r.pool.workerNum) :
    Stepped r ({ r with pool := r.pool.tpUnlinkLocked w }.setThread w .exited) where
  resized := by
    refine .leave w (alive_iff.mp ⟨pc, hw, he⟩) ?_ rfl ?_ rfl
    · exact hl.imp_left fun h => List.mem_of_getElem? (h ▸ hw)
    · simp [crew, setThread, List.map_set]
  leaving := leaving_set nofun

structure Spawned (r r' : PoolRun) : Prop where
  room    : r.pool.workerNum < r.pool.maxWorkers
  pool    : r'.pool = { r.pool with
    workers   := r.crew.length :: r.pool.workers
    workerNum := r.pool.workerNum + 1 }
  threads : r'.threads = r.threads ++ [.checking]
  destroy : r'.destroy = r.destroy

theorem spawn_spawned {created : Bool} (h : r.spawn created = some r') : Spawned r r' := by
  obtain ⟨tp, ht, rfl⟩ := Option.map_eq_some_iff.mp h
  unfold ThreadPool.tpSpawnLocked at ht
  split at ht <;> cases ht
  case isFalse hn =>
    exact ⟨UInt32.not_le.mp fun hg => hn <| .inl hg, by simp [crew], rfl, rfl⟩

theorem Spawned.crew (s : Spawned r r') : r'.crew = r.crew ++ [true] := by
  simp [PoolRun.crew, s.threads]

theorem Stepped.hire {created : Bool} (hw : r.threads[w]? = some pc) (he : pc ≠ .exited)
    (h : (r.setThread w .checking).spawn created = some r') : Stepped r r' := by
  have s := spawn_spawned h
  have hc : (r.setThread w .checking).crew = r.crew := crew_setThread hw he nofun
  have ha : r.crew[w]? = some true := alive_iff.mp ⟨pc, hw, he⟩
  refine ⟨.hire (List.mem_of_getElem? ha) s.room ?_ (hc ▸ s.crew) s.destroy, fun hl => ?_⟩
  · exact s.pool.trans <| hc ▸ rfl
  · rw [s.threads] at hl
    cases List.mem_append.mp hl
    case inl hl => exact leaving_set (by simp) hl
    case inr hl => simp at hl

theorem submitStep_stepped {i : Nat} (h : r.submitStep i = some r') : Stepped r r' := by
  unfold submitStep at h
  split at h
  case h_1 =>
    obtain ⟨q, -, rfl⟩ := Option.map_eq_some_iff.mp h
    exact .keep rfl rfl rfl
  case h_2 => cases h; exact .keep rfl rfl rfl
  case h_3 water _ =>
    cases h
    obtain ⟨c, hc⟩ := countWater_eq r.pool water
    exact .keep hc rfl rfl
  case h_4 =>
    obtain ⟨r₁, h₁, rfl⟩ := Option.map_eq_some_iff.mp h
    obtain ⟨q, -, rfl⟩ := Option.map_eq_some_iff.mp h₁
    exact .keep rfl rfl rfl
  case h_5 | h_6 => cases h

theorem dispatch_stepped {ef : EnvFrame} {created : Bool} (hw : r.threads[w]? = some (.got ef)) :
    Stepped r (r.dispatch w ef created) := by
  have hk : Stepped r (r.setThread w .checking) := .move hw nofun rfl rfl rfl nofun nofun
  unfold dispatch
  dsimp only
  split
  case isTrue =>
    split
    case isTrue => exact hk
    case isFalse => exact .move hw nofun rfl rfl rfl nofun nofun
  case isFalse =>
    split
    case isFalse => exact hk
    case isTrue =>
      split
      case isTrue =>
        cases hs : (r.setThread w .checking).spawn created
        case none => exact hk
        case some r₁ => exact .hire hw nofun hs
      case isFalse =>
        split
        case isTrue hc => exact .exit hw nofun <| .inr hc.right
        case isFalse => exact hk

theorem workerStep_stepped {flag : Bool} (h : r.workerStep w flag = some r') : Stepped r r' := by
  unfold workerStep at h
  split at h
  case h_1 hw =>
    cases h
    cases hs : r.pool.shutdown
    case true => exact .move hw nofun rfl rfl rfl (by simp) fun _ => hs
    case false => exact .move hw nofun rfl rfl rfl (by simp) (by simp)
  case h_2 hw => split at h <;> cases h <;> exact .move hw nofun rfl rfl rfl nofun nofun
  case h_3 hw => split at h <;> cases h <;> exact .move hw nofun rfl rfl rfl nofun nofun
  case h_4 hw =>
    obtain ⟨r₁, h₁, rfl⟩ := Option.map_eq_some_iff.mp h
    obtain ⟨q, -, rfl⟩ := Option.map_eq_some_iff.mp h₁
    exact .move hw nofun rfl rfl rfl nofun nofun
  case h_5 ef hw => cases h; exact dispatch_stepped hw
  case h_6 t hw => cases h; exact .move hw nofun rfl rfl rfl nofun nofun
  case h_7 hw => cases h; exact .exit hw nofun <| .inl rfl
  case h_8 | h_9 => cases h

theorem destroyStep_stepped (hu : r.destroy ≠ .uncalled) (h : r.destroyStep = some r') :
    Stepped r r' := by
  unfold destroyStep at h
  split at h
  case h_1 hd => contradiction
  case h_2 =>
    split at h <;> cases h
    case isTrue hn => exact ⟨.unwait hn rfl rfl, .inl⟩
  case h_3 hd =>
    split at h
    case h_1 q _ =>
      dsimp only at h
      split at h <;> cases h <;> exact ⟨.drain q hd rfl rfl, .inl⟩
    case h_2 => cases h; exact ⟨.drain _ hd rfl rfl, .inl⟩
  case h_4 => cases h

theorem stepped (h : loosePoolStep r a = some r') : Stepped r r' := by
  cases a
  case call t =>
    simp only [loosePoolStep] at h
    split at h <;> cases h
    exact .keep rfl rfl rfl
  case submit i =>
    simp only [loosePoolStep] at h
    split at h
    case isTrue => cases h
    case isFalse => exact submitStep_stepped h
  case worker w flag => exact workerStep_stepped h
  case destroy =>
    simp only [loosePoolStep] at h
    split at h
    case isTrue => cases h; exact ⟨.shut rfl rfl rfl, .inl⟩
    case isFalse hd => exact destroyStep_stepped hd h

structure Sized (minW maxW : UInt32) (r : PoolRun) : Prop where
  min     : r.pool.minWorkers = minW
  max     : r.pool.maxWorkers = maxW
  nodup   : r.pool.workers.Nodup
  mem     : ∀ w, w ∈ r.pool.workers ↔ r.crew[w]? = some true
  nodes   : r.pool.workerNum.toNat = r.pool.workers.length
  alive   : r.pool.workerNum.toNat = r.crew.count true
  le_max  : r.pool.workerNum ≤ maxW
  leaving : .leaving ∈ r.threads → r.pool.shutdown
  left    : r.destroy = .draining ∨ r.destroy = .done → true ∉ r.crew

variable {minW maxW : UInt32}

theorem toNat_hired (h : r.pool.workerNum < r.pool.maxWorkers) :
    (r.pool.workerNum + 1).toNat = r.pool.workerNum.toNat + 1 := by
  have := UInt32.lt_iff_toNat_lt.mp h
  have := r.pool.maxWorkers.toNat_lt
  rw [UInt32.toNat_add, UInt32.toNat_one]
  omega

theorem Sized.hire (z : r.Sized minW maxW) (hl : .leaving ∈ r'.threads → r.pool.shutdown)
    (hf : ¬(r.destroy = .draining ∨ r.destroy = .done))
    (hn : r.pool.workerNum < r.pool.maxWorkers)
    (hp : r'.pool = { r.pool with
      workers   := r.crew.length :: r.pool.workers
      workerNum := r.pool.workerNum + 1 })
    (hc : r'.crew = r.crew ++ [true]) (hd : r'.destroy = r.destroy) : r'.Sized minW maxW := by
  have hm := UInt32.lt_iff_toNat_lt.mp hn
  have hs := toNat_hired hn
  refine ⟨hp ▸ z.min, hp ▸ z.max, ?_, fun v => ?_, ?_, ?_, ?_, fun h => hp ▸ hl h, ?_⟩
  · rw [hp, List.nodup_cons]
    exact ⟨fun h => by simpa using (z.mem _).mp h, z.nodup⟩
  · rw [hp, hc, List.mem_cons, z.mem]
    by_cases hv : v < r.crew.length
    case pos => simp [List.getElem?_append_left hv, hv.ne]
    case neg =>
      have hv := Nat.not_lt.mp hv
      simp [List.getElem?_append_right hv, List.getElem?_eq_none hv, List.getElem?_singleton]
      omega
  · simp [hp, hs, z.nodes]
  · simp [hp, hc, hs, z.alive]
  · rw [hp, UInt32.le_iff_toNat_le, ← z.max]
    exact hs ▸ hm
  · exact hd ▸ fun h => absurd h hf

theorem Sized.leave (z : r.Sized minW maxW) (hl : .leaving ∈ r'.threads → r.pool.shutdown)
    (hw : r.crew[w]? = some true) (hp : r'.pool = r.pool.tpUnlinkLocked w)
    (hc : r'.crew = r.crew.set w false) (hd : r'.destroy = r.destroy) : r'.Sized minW maxW := by
  have ⟨hlt, hg⟩ := List.getElem?_eq_some_iff.mp hw
  have hm : w ∈ r.pool.workers := (z.mem w).mpr hw
  have hpos : 0 < r.pool.workerNum.toNat := z.nodes ▸ List.length_pos_of_mem hm
  have hs : (r.pool.workerNum - 1).toNat = r.pool.workerNum.toNat - 1 :=
    UInt32.toNat_sub_of_le _ _ <| UInt32.le_iff_toNat_le.mpr hpos
  refine ⟨hp ▸ z.min, hp ▸ z.max, ?_, fun v => ?_, ?_, ?_, ?_, fun h => hp ▸ hl h, ?_⟩
  · rw [hp]
    exact z.nodup.erase w
  · rw [hp, hc]
    simp only [ThreadPool.tpUnlinkLocked, z.nodup.mem_erase_iff, z.mem]
    by_cases hv : v = w
    case pos => simp [hv, hlt]
    case neg => simp [hv, List.getElem?_set_ne (Ne.symm hv)]
  · simp [hp, ThreadPool.tpUnlinkLocked, hs, List.length_erase_of_mem hm, z.nodes]
  · simp [hp, hc, ThreadPool.tpUnlinkLocked, hs, List.count_set hlt, hg, z.alive]
  · have hle := UInt32.le_iff_toNat_le.mp z.le_max
    rw [hp, UInt32.le_iff_toNat_le]
    simp only [ThreadPool.tpUnlinkLocked, hs]
    omega
  · rw [hd]
    exact fun h => absurd (List.mem_of_getElem? hw) (z.left h)

theorem Sized.congr (z : r.Sized minW maxW) (hl : .leaving ∈ r'.threads → r'.pool.shutdown)
    (hm : r'.pool.minWorkers = r.pool.minWorkers) (hx : r'.pool.maxWorkers = r.pool.maxWorkers)
    (hw : r'.pool.workers = r.pool.workers) (hn : r'.pool.workerNum = r.pool.workerNum)
    (hc : r'.crew = r.crew) (hf : r'.destroy = .draining ∨ r'.destroy = .done → true ∉ r.crew) :
    r'.Sized minW maxW :=
  ⟨hm ▸ z.min, hx ▸ z.max, hw ▸ z.nodup, hw ▸ hc ▸ z.mem, hn ▸ hw ▸ z.nodes, hn ▸ hc ▸ z.alive,
    hn ▸ z.le_max, hl, hc ▸ hf⟩

theorem Sized.step (z : r.Sized minW maxW) (h : loosePoolStep r a = some r') :
    r'.Sized minW maxW := by
  have ⟨hr, hl⟩ := stepped h
  have hl : .leaving ∈ r'.threads → r.pool.shutdown := fun h => (hl h).elim z.leaving id
  cases hr
  case keep q c hp hc hd =>
    exact z.congr (hp ▸ hl) (hp ▸ rfl) (hp ▸ rfl) (hp ▸ rfl) (hp ▸ rfl) hc (hd ▸ z.left)
  case hire ha hn hp hc hd => exact z.hire hl (fun h => z.left h ha) hn hp hc hd
  case leave w hw _ hp hc hd => exact z.leave hl hw hp hc hd
  case shut hp hc hd =>
    exact z.congr (fun _ => hp ▸ rfl) (hp ▸ rfl) (hp ▸ rfl) (hp ▸ rfl) (hp ▸ rfl) hc (by simp [hd])
  case unwait hn hp hc =>
    refine z.congr (hp ▸ hl) (hp ▸ rfl) (hp ▸ rfl) (hp ▸ rfl) (hp ▸ rfl) hc fun _ => ?_
    rw [← List.count_eq_zero, ← z.alive, hn]
    rfl
  case drain q hd hp hc =>
    exact z.congr (hp ▸ hl) (hp ▸ rfl) (hp ▸ rfl) (hp ▸ rfl) (hp ▸ rfl) hc fun _ => z.left (.inl hd)

-- Before the flag is set, a worker leaves only where another one is left to make up the minimum.
def Staffed (minW : UInt32) (r : PoolRun) : Prop :=
  r.pool.shutdown = false → minW ≤ r.pool.workerNum

theorem Staffed.congr (hs : r.Staffed minW) (hf : r'.pool.shutdown = r.pool.shutdown)
    (hn : r'.pool.workerNum = r.pool.workerNum) : r'.Staffed minW :=
  fun h => hn ▸ hs (hf ▸ h)

theorem Sized.staffed (z : r.Sized minW maxW) (hs : r.Staffed minW)
    (h : loosePoolStep r a = some r') : r'.Staffed minW := by
  have ⟨hr, _⟩ := stepped h
  cases hr
  case keep q c hp _ _ => exact hs.congr (hp ▸ rfl) (hp ▸ rfl)
  case unwait hp _ => exact hs.congr (hp ▸ rfl) (hp ▸ rfl)
  case drain q _ hp _ => exact hs.congr (hp ▸ rfl) (hp ▸ rfl)
  case shut hp _ _ => exact fun hf => by simp [hp] at hf
  case hire _ hn hp _ _ =>
    intro hf
    have hle := UInt32.le_iff_toNat_le.mp <| hs (by simpa [hp] using hf)
    rw [hp, UInt32.le_iff_toNat_le, toNat_hired hn]
    exact Nat.le_succ_of_le hle
  case leave w _ hl hp _ _ =>
    intro hf
    have hf : r.pool.shutdown = false := by simpa [hp, ThreadPool.tpUnlinkLocked] using hf
    cases hl
    case inl hl => simp [z.leaving hl] at hf
    case inr hl =>
      have hlt := UInt32.lt_iff_toNat_lt.mp (z.min ▸ hl)
      have hs : (r.pool.workerNum - 1).toNat = r.pool.workerNum.toNat - 1 :=
        UInt32.toNat_sub_of_le _ _ <| UInt32.le_iff_toNat_le.mpr <| Nat.zero_lt_of_lt hlt
      rw [hp, UInt32.le_iff_toNat_le]
      simp only [ThreadPool.tpUnlinkLocked, hs]
      exact Nat.le_sub_one_of_lt hlt

theorem not_mem_crew_iff : true ∉ r.crew ↔ ∀ pc ∈ r.threads, pc = .exited := by
  simp [crew]

theorem threads_of_left (hn : true ∉ r.crew) (h : loosePoolStep r a = some r') :
    r'.threads = r.threads := by
  have hc : r'.crew = r.crew := by
    cases (stepped h).resized
    case hire ha _ _ _ _ => exact absurd ha hn
    case leave w hw _ _ _ _ => exact absurd (List.mem_of_getElem? hw) hn
    all_goals assumption
  have hl : r'.threads.length = r.threads.length := by simpa [crew] using congrArg List.length hc
  rw [List.eq_replicate_of_mem (not_mem_crew_iff.mp hn),
    List.eq_replicate_of_mem (not_mem_crew_iff.mp (hc ▸ hn)), hl]

theorem Sized.prestart {cs : List Bool} (z : r.Sized minW maxW) (hd : r.destroy = .uncalled)
    (hl : .leaving ∉ r.threads) : (tpPrestart r cs).Sized minW maxW := by
  induction cs generalizing r
  case nil => exact z
  case cons created cs hi =>
    rw [tpPrestart]
    cases hs : r.spawn created
    case none => exact z
    case some r₁ =>
      have s := spawn_spawned hs
      have hl : .leaving ∉ r₁.threads := by simpa [s.threads] using hl
      have hf : ¬(r.destroy = .draining ∨ r.destroy = .done) := by simp [hd]
      exact hi (z.hire (absurd · hl) hf s.room s.pool s.crew s.destroy) (s.destroy.trans hd) hl

theorem Sized.init {qcap : UInt32} {alloc : Bool} {created : Nat → Bool}
    (h : tpInit minW maxW qcap alloc created = some r) : r.Sized minW maxW := by
  unfold tpInit at h
  split at h
  case isTrue  => cases h
  case isFalse =>
    have ⟨q, hq, h⟩ := Option.bind_eq_some_iff.mp h
    dsimp only at h
    split at h <;> cases h
    exact Sized.prestart
      ⟨rfl, rfl, .nil, by simp [crew], rfl, rfl, UInt32.zero_le, nofun, nofun⟩ rfl nofun

structure Disciplined (minW maxW : UInt32) (r : PoolRun) : Prop where
  nodes  : r.pool.workerNum.toNat = r.pool.workers.length
  alive  : r.pool.workerNum.toNat = r.threads.countP (· ≠ .exited)
  once   : ∀ w, r.Alive w → r.pool.workers.count w = 1
  le_max : r.pool.workerNum ≤ maxW
  left   : r.destroy = .draining ∨ r.destroy = .done → (∀ pc ∈ r.threads, pc = .exited) ∧
    ∀ as r', loosePoolStep.exec r as = some r' → r'.threads = r.threads

theorem Sized.disciplined (z : r.Sized minW maxW) : r.Disciplined minW maxW where
  nodes  := z.nodes
  alive  := by rw [z.alive, count_crew]
  once w hw := List.count_eq_one_of_mem z.nodup <| (z.mem w).mpr <| alive_iff.mp hw
  le_max := z.le_max
  left hd := by
    have hn := z.left hd
    refine ⟨not_mem_crew_iff.mp hn, fun as r' hr => ?_⟩
    have h := Transition.always_of_preserved (I := fun s => true ∉ s.crew ∧ s.threads = r.threads)
      ⟨hn, rfl⟩ (fun i h => ?_) as as r' List.prefix_rfl hr
    · exact h.right
    · have ht := threads_of_left i.left h
      exact ⟨crew_congr ht ▸ i.left, ht.trans i.right⟩

end PoolRun

open PoolRun

-- The size of the pool, whatever the workers and the callers do. It does not fall below the minimum
-- before the flag is set, provided that all of the first workers could be created.
theorem pool_size_disciplined {minW maxW qcap : UInt32} {alloc : Bool} {created : Nat → Bool}
    {r₀ : PoolRun} (h : tpInit minW maxW qcap alloc created = some r₀) (as : List PoolAct) :
    loosePoolStep.Always r₀ as fun r =>
      r.Disciplined minW maxW ∧
      (r₀.pool.workerNum = minW → r.pool.shutdown = false → minW ≤ r.pool.workerNum) := by
  have hz : loosePoolStep.Always r₀ as (Sized minW maxW) :=
    Transition.always_of_preserved (Sized.init h) Sized.step as
  intro bs r hp hr
  refine ⟨(hz bs r hp hr).disciplined, fun hs => ?_⟩
  have h₀ : r₀.Staffed minW := fun _ => UInt32.le_of_eq hs.symm
  have hi : loosePoolStep.Always r₀ as fun r => r.Sized minW maxW ∧ r.Staffed minW :=
    Transition.always_of_preserved ⟨Sized.init h, h₀⟩
      (fun i h => ⟨i.left.step h, i.left.staffed i.right h⟩) as
  exact (hi bs r hp hr).right

def growingPool : PoolRun :=
  (tpInit 1 2 1 true fun _ => true).get rfl

-- The flag is set between the check of the worker and the command that it takes.
def lateHire : List PoolAct :=
  serve 0 ++ serve 1 ++ serve 2 ++
    [.submit 2, .worker 0 true, .destroy, .worker 0 true, .worker 0 true]

theorem pool_size_disciplined_late :
    loosePoolStep.Always growingPool lateHire fun r =>
      r.Disciplined 1 2 ∧
      (growingPool.pool.workerNum = 1 → r.pool.shutdown = false → 1 ≤ r.pool.workerNum) :=
  pool_size_disciplined (Option.some_get _).symm lateHire

example :
    (loosePoolStep.exec growingPool lateHire).map (fun r => (r.pool.shutdown, r.pool.workers)) =
      some (true, [1, 0]) :=
  rfl

end IotCollector
