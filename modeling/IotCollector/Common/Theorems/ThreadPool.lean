import IotCollector.Common.ThreadPool
import IotCollector.Lib.Ownership
import IotCollector.Pipeline.Theorems.RingInvariant

namespace IotCollector

open RingQueue

@[simp]
theorem tpUnpackTask_tpPackTask (t : UInt64) : tpUnpackTask (tpPackTask t) = t := by
  have ht := t.toNat_lt
  have hl : t.toNat % 2 ^ 32 < 2 ^ 32 := Nat.mod_lt _ (by decide)
  have hor := Nat.two_pow_add_eq_or_of_lt hl (t.toNat / 2 ^ 32)
  rw [← UInt64.toNat_inj]
  simp only [tpUnpackTask, tpPackTask, UInt64.toNat_or, UInt64.toNat_shiftLeft,
    UInt32.toNat_toUInt64, UInt64.toNat_toUInt32, UInt64.toNat_shiftRight, Nat.shiftLeft_eq,
    Nat.shiftRight_eq_div_pow]
  simp only [UInt64.reduceToNat, Nat.reduceMod]
  have hh : t.toNat / 2 ^ 32 % 2 ^ 32 * 2 ^ 32 % 2 ^ 64 = 2 ^ 32 * (t.toNat / 2 ^ 32) := by omega
  rw [hh, ← hor]
  exact Nat.div_add_mod ..

-- The pointer of a frame that carries a task.
def framePtr (ef : EnvFrame) : Option UInt64 :=
  if ef.frameType = frameData then some (tpUnpackTask ef) else none

@[simp]
theorem framePtr_tpPackTask (t : UInt64) : framePtr (tpPackTask t) = some t := by
  have h : (tpPackTask t).frameType = frameData := rfl
  rw [framePtr, if_pos h, tpUnpackTask_tpPackTask]

@[simp]
theorem framePtr_commandFrame (cmd : UInt16) : framePtr (commandFrame cmd) = none := by
  have h : (commandFrame cmd).frameType = frameAlarm := rfl
  rw [framePtr, h, if_neg (by decide)]

theorem ringInit_empty {q : RingQueue} {cap : UInt32} {alloc : Bool}
    (h : ringInit cap alloc = some q) : q.contents = [] ∧ q.dropped = 0 := by
  unfold ringInit at h
  split at h <;> try contradiction
  split at h <;> try contradiction
  cases h
  exact ⟨rfl, rfl⟩

theorem tpWorkerDequeue_popped {q q' : RingQueue} {ef : EnvFrame} (wf : q.WellFormed)
    (h : tpWorkerDequeue q = some (ef, q')) :
    q.contents = ef :: q'.contents ∧ q'.WellFormed ∧ q'.dropped = q.dropped := by
  unfold tpWorkerDequeue at h
  split at h
  case isFalse => cases h
  case isTrue hc =>
    cases h
    have hn : (1 : UInt32).toNat ≤ q.count.toNat := UInt32.lt_iff_toNat_lt.mp hc
    obtain ⟨ht, hp⟩ := popped_of_readN wf hn
    refine ⟨?_, hp.wellFormed, hp.dropped⟩
    rw [← List.take_append_drop 1 q.contents]
    exact congrArg₂ _ ht.symm hp.contents.symm

theorem tpDestroyDequeue_popped {q q' : RingQueue} {ef : EnvFrame} (wf : q.WellFormed)
    (h : tpDestroyDequeue q = some (ef, q')) :
    q.contents = ef :: q'.contents ∧ q'.WellFormed ∧ q'.dropped = q.dropped :=
  tpWorkerDequeue_popped wf h

-- The pointers which a thread holds: all of them, those to tasks which it has not executed yet, and
-- those to tasks which it has.
@[simp]
def TpWorkerPc.ptr : TpWorkerPc → Option UInt64
  | .got ef => framePtr ef
  | .ran t  => some t
  | _       => none

@[simp]
def TpWorkerPc.gotPtr : TpWorkerPc → Option UInt64
  | .got ef => framePtr ef
  | _       => none

@[simp]
def TpWorkerPc.ranPtr : TpWorkerPc → Option UInt64
  | .ran t => some t
  | _      => none

@[simp]
def TpSubmitPc.ptr : TpSubmitPc → Option UInt64
  | .pushing t => some t
  | _          => none

namespace PoolRun

def pointers (r : PoolRun) : List UInt64 :=
  r.pool.taskQueue.contents.filterMap framePtr ++ r.threads.filterMap TpWorkerPc.ptr ++
  r.submits.filterMap TpSubmitPc.ptr ++ r.evicted.filterMap framePtr

def ran (r : PoolRun) : List Nat :=
  (r.threads.filterMap TpWorkerPc.ranPtr).filterMap r.heap

structure Kept (r : PoolRun) : Prop where
  queue    : r.pool.taskQueue.WellFormed
  dropped  : r.pool.taskQueue.dropped = UInt32.ofNat r.evicted.length
  owned    : Ownership r.heap r.pointers (r.freed ++ r.destroyed) r.submits.length
  null     : r.heap 0 = none
  pushing  : ∀ i t, r.submits[i]? = some (.pushing t) → r.heap t = some i
  executed : r.executed.Perm (r.freed ++ r.ran)
  noFault  : r.fault = false

variable {r r' : PoolRun} {w i : Nat} {pc pc' : TpWorkerPc}

theorem pointers_setThread (pc' : TpWorkerPc) (h : r.threads[w]? = some pc) :
    ((r.setThread w pc').pointers ++ pc.ptr.toList).Perm (r.pointers ++ pc'.ptr.toList) := by
  apply List.perm_iff_count.mpr
  intro t
  have := (List.filterMap_set_perm (y := pc') TpWorkerPc.ptr h).count_eq t
  simp only [pointers, setThread, List.count_append] at *
  omega

theorem Kept.setThread (k : r.Kept) (h : r.threads[w]? = some pc) (hp : pc'.ptr = pc.ptr)
    (hr : pc'.ranPtr = pc.ranPtr) : (r.setThread w pc').Kept where
  queue    := k.queue
  dropped  := k.dropped
  owned    := by
    refine k.owned.move ?_ (.refl _)
    have := pointers_setThread pc' h
    rw [hp] at this
    exact (List.perm_append_right_iff _).mp this
  null     := k.null
  pushing  := k.pushing
  executed := by
    have := List.filterMap_set_perm (y := pc') TpWorkerPc.ranPtr h
    rw [hr, List.perm_append_right_iff] at this
    exact k.executed.trans <| (this.symm.filterMap _).append_left _
  noFault  := k.noFault

theorem Kept.setPool (k : r.Kept) (tp : ThreadPool) (h : tp.taskQueue = r.pool.taskQueue) :
    { r with pool := tp }.Kept where
  queue    := h ▸ k.queue
  dropped  := h ▸ k.dropped
  owned    := by
    have := k.owned
    simp only [pointers, ← h] at this
    exact this
  null     := k.null
  pushing  := k.pushing
  executed := k.executed
  noFault  := k.noFault

theorem Kept.setDestroy {d : TpDestroyPc} (k : r.Kept) : { r with destroy := d }.Kept :=
  ⟨k.queue, k.dropped, k.owned, k.null, k.pushing, k.executed, k.noFault⟩

theorem pointers_setSubmit {pc : TpSubmitPc} (pc' : TpSubmitPc) (h : r.submits[i]? = some pc) :
    ((r.setSubmit i pc').pointers ++ pc.ptr.toList).Perm (r.pointers ++ pc'.ptr.toList) := by
  apply List.perm_iff_count.mpr
  intro t
  have := (List.filterMap_set_perm (y := pc') TpSubmitPc.ptr h).count_eq t
  simp only [pointers, setSubmit, List.count_append] at *
  omega

theorem pushing_of_setSubmit {pc : TpSubmitPc} {t : UInt64} {j : Nat} (hn : pc.ptr = none)
    (h : (r.submits.set i pc)[j]? = some (.pushing t)) : r.submits[j]? = some (.pushing t) := by
  by_cases hj : j = i
  case pos =>
    subst hj
    rw [List.getElem?_set_self'] at h
    have ⟨_, _, (hp : pc = .pushing t)⟩ := Option.map_eq_some_iff.mp h
    simp [hp] at hn
  case neg => simpa [List.getElem?_set_ne (Ne.symm hj)] using h

theorem Kept.setSubmit {pc pc' : TpSubmitPc} (k : r.Kept) (h : r.submits[i]? = some pc)
    (hp : pc.ptr = none) (hp' : pc'.ptr = none) : (r.setSubmit i pc').Kept where
  queue    := k.queue
  dropped  := k.dropped
  owned    := by
    have := pointers_setSubmit pc' h
    rw [hp, hp', List.perm_append_right_iff] at this
    simpa [PoolRun.setSubmit] using k.owned.move this (.refl _)
  null     := k.null
  pushing j t ht := k.pushing j t <| pushing_of_setSubmit hp' ht
  executed := k.executed
  noFault  := k.noFault

theorem Kept.push {q : RingQueue} {t : UInt64} (k : r.Kept)
    (h : r.submits[i]? = some (.pushing t)) (hq : r.pool.taskQueue.Written q (tpPackTask t)) :
    ((r.setQueue q).setSubmit i .sampling).Kept where
  queue    := hq.wellFormed
  dropped  := hq.dropped.trans k.dropped
  owned    := by
    have hp : ((r.setQueue q).setSubmit i .sampling).pointers.Perm r.pointers := by
      apply List.perm_iff_count.mpr
      intro u
      have := (List.filterMap_set_perm (y := .sampling) TpSubmitPc.ptr h).count_eq u
      simp only [pointers, PoolRun.setSubmit, setQueue, hq.contents, List.filterMap_append,
        List.filterMap_cons_eq, framePtr_tpPackTask, TpSubmitPc.ptr, List.count_append] at *
      simp at *
      omega
    simpa [PoolRun.setSubmit, setQueue] using k.owned.move hp (.refl _)
  null     := k.null
  pushing j t ht := k.pushing j t <| pushing_of_setSubmit rfl ht
  executed := k.executed
  noFault  := k.noFault

theorem Kept.pop {q : RingQueue} {ef : EnvFrame} (k : r.Kept)
    (h : r.threads[w]? = some .fetching) (hc : r.pool.taskQueue.contents = ef :: q.contents)
    (hq : q.WellFormed) (hd : q.dropped = r.pool.taskQueue.dropped) :
    ((r.setQueue q).setThread w (.got ef)).Kept where
  queue    := hq
  dropped  := hd.trans k.dropped
  owned    := by
    refine k.owned.move (List.perm_iff_count.mpr fun t => ?_) (.refl _)
    have := (List.filterMap_set_perm (y := .got ef) TpWorkerPc.ptr h).count_eq t
    simp only [pointers, PoolRun.setThread, setQueue, hc, List.filterMap_cons_eq, TpWorkerPc.ptr,
      Option.toList_none, List.count_nil, List.count_append] at *
    omega
  null     := k.null
  pushing  := k.pushing
  executed := by
    have := List.filterMap_set_perm (y := .got ef) TpWorkerPc.ranPtr h
    simp only [TpWorkerPc.ranPtr, Option.toList_none, List.append_nil] at this
    exact k.executed.trans <| (this.symm.filterMap _).append_left _
  noFault  := k.noFault

-- The scaling command fits into the queue: it is not full, or a task can give way.
def Fits (r : PoolRun) : Prop :=
  r.pool.taskQueue.IsFull → ∃ f ∈ r.pool.taskQueue.contents, ¬f.IsAlarm

instance (r : PoolRun) : Decidable r.Fits :=
  inferInstanceAs (Decidable (_ → ∃ f ∈ r.pool.taskQueue.contents, ¬f.IsAlarm))

theorem Kept.evict {q : RingQueue} {evicted : List EnvFrame} (k : r.Kept) (wf : q.WellFormed)
    (hd : q.dropped = UInt32.ofNat evicted.length)
    (hp : (q.contents.filterMap framePtr ++ evicted.filterMap framePtr).Perm
      (r.pool.taskQueue.contents.filterMap framePtr ++ r.evicted.filterMap framePtr)) :
    { r.setQueue q with evicted := evicted }.Kept where
  queue    := wf
  dropped  := hd
  owned    := by
    refine k.owned.move (List.perm_iff_count.mpr fun t => ?_) (.refl _)
    have := hp.count_eq t
    simp only [pointers, setQueue, List.count_append] at *
    omega
  null     := k.null
  pushing  := k.pushing
  executed := k.executed
  noFault  := k.noFault

theorem Kept.command {cmd : UInt16} (k : r.Kept) (hf : r.Fits)
    (h : r.pushCommand cmd = some r') :
    r'.Kept ∧ r'.threads = r.threads ∧ r'.submits = r.submits := by
  obtain ⟨q, hq, rfl⟩ := Option.map_eq_some_iff.mp h
  refine ⟨?_, rfl, rfl⟩
  by_cases hn : r.pool.taskQueue.IsFull
  case neg =>
    obtain rfl : _ = q := by simpa [ringPush_of_not_full hn] using hq
    have hw := write_written (f := commandFrame cmd) k.queue hn
    simp only [if_neg hn, List.append_nil]
    refine k.evict hw.wellFormed (hw.dropped.trans k.dropped) (.of_eq ?_)
    simp [hw.contents]
  case pos =>
    have ha : (commandFrame cmd).IsAlarm := rfl
    obtain rfl : _ = q := by simpa [ringPush_alarm hn ha] using hq
    have ⟨hw, hc, _, hd⟩ := evict_write (f := commandFrame cmd) k.queue hn (hf hn)
    have ⟨g, hg⟩ : ∃ g, r.pool.taskQueue.contents.find? (¬·.IsAlarm) = some g :=
      Option.isSome_iff_exists.mp <| List.find?_isSome.mpr <| by simpa using hf hn
    have hp := (List.perm_cons_eraseP hg).filterMap framePtr
    simp only [if_pos hn, hg]
    refine k.evict hw (by simp [hd, k.dropped]) (List.perm_iff_count.mpr fun t => ?_)
    have := hp.count_eq t
    simp only [hc, List.filterMap_append, List.filterMap_cons_eq, framePtr_commandFrame,
      Option.toList_some, Option.toList_none, List.filterMap_nil, List.count_append,
      List.count_nil] at *
    omega

theorem mem_pointers {t : UInt64} (h : r.threads[w]? = some pc) (hp : pc.ptr = some t) :
    t ∈ r.pointers := by
  have hm : t ∈ r.threads.filterMap TpWorkerPc.ptr :=
    List.mem_filterMap.mpr ⟨pc, List.mem_of_getElem? h, hp⟩
  simp [pointers, hm]

theorem Kept.ne_null {t : UInt64} (k : r.Kept) (h : t ∈ r.pointers) : t ≠ 0 := by
  have ⟨_, hi⟩ := k.owned.exists_of_mem h
  rintro rfl
  simp [k.null] at hi

theorem Kept.execute {ef : EnvFrame} {t : UInt64} (k : r.Kept)
    (h : r.threads[w]? = some (.got ef)) (ht : framePtr ef = some t) :
    ((r.execute t).setThread w (.ran t)).Kept := by
  have ⟨i, hi⟩ := k.owned.exists_of_mem <| mem_pointers h ht
  refine ⟨k.queue, k.dropped, k.owned.move ?_ (.refl _), k.null, k.pushing, ?_, ?_⟩
  · have := pointers_setThread (.ran t) h
    rw [TpWorkerPc.ptr, TpWorkerPc.ptr, ht, List.perm_append_right_iff] at this
    exact this
  · have := List.filterMap_set_perm (y := .ran t) TpWorkerPc.ranPtr h |>.filterMap r.heap
    simp only [TpWorkerPc.ranPtr, Option.toList_none, Option.toList_some, List.append_nil,
      List.filterMap_append, List.filterMap_cons_some hi, List.filterMap_nil] at this
    simp only [ran, PoolRun.setThread, PoolRun.execute, hi, Option.toList_some]
    refine (k.executed.append_right _).trans ?_
    rw [List.append_assoc]
    exact this.symm.append_left _
  · simp [PoolRun.setThread, PoolRun.execute, hi, k.noFault]

theorem Kept.free {t : UInt64} {owned : List UInt64} (k : r.Kept)
    (h : r.pointers.Perm (t :: owned)) :
    ∃ i, r.heap t = some i ∧ t ∉ owned ∧
      Ownership (Function.update r.heap t none) owned (i :: (r.freed ++ r.destroyed))
        r.submits.length := by
  have o := k.owned.move h.symm (.refl _)
  have ⟨i, hi⟩ := o.exists_of_mem <| List.mem_cons_self ..
  exact ⟨i, hi, (List.nodup_cons.mp o.nodup).left, o.free hi⟩

theorem null_of_update {t : UInt64} (h : r.heap 0 = none) :
    Function.update r.heap t none 0 = none := by
  by_cases ht : 0 = t
  case pos => simp [ht]
  case neg => simpa [ht] using h

theorem pushing_of_update {t u : UInt64} {o : Option Nat} (hp : r.submits[i]? = some (.pushing u))
    (ht : t ∉ r.submits.filterMap TpSubmitPc.ptr) (h : r.heap u = some i) :
    Function.update r.heap t o u = some i := by
  have hm : u ∈ r.submits.filterMap TpSubmitPc.ptr :=
    List.mem_filterMap.mpr ⟨_, List.mem_of_getElem? hp, rfl⟩
  rwa [Function.update_of_ne]
  rintro rfl
  exact ht hm

theorem ranPtr_subset {l : List TpWorkerPc} {t : UInt64} (h : t ∉ l.filterMap TpWorkerPc.ptr) :
    t ∉ l.filterMap TpWorkerPc.ranPtr := by
  intro hm
  have ⟨pc, hl, hp⟩ := List.mem_filterMap.mp hm
  refine h <| List.mem_filterMap.mpr ⟨pc, hl, ?_⟩
  cases pc <;> simp_all

theorem ran_of_update {t : UInt64} {o : Option Nat} (h : t ∉ r.threads.filterMap TpWorkerPc.ptr) :
    { r with heap := Function.update r.heap t o }.ran = r.ran :=
  Ownership.filterMap_update <| ranPtr_subset h

theorem Kept.release {t : UInt64} (k : r.Kept) (h : r.threads[w]? = some (.ran t)) :
    ({ r.release t with freed := r.freed ++ (r.heap t).toList }.setThread w .checking).Kept := by
  have hp : r.pointers.Perm (t :: (r.setThread w .checking).pointers) := by
    have := pointers_setThread .checking h
    simp only [TpWorkerPc.ptr, Option.toList_some, Option.toList_none, List.append_nil] at this
    exact this.symm.trans <| List.perm_append_singleton ..
  have ⟨i, hi, hn, ho⟩ := k.free hp
  simp only [pointers, List.mem_append, not_or] at hn
  have ⟨⟨⟨_, hw⟩, hs⟩, _⟩ := hn
  refine ⟨k.queue, k.dropped, ho.move (.refl _) ?_, null_of_update k.null, ?_, ?_, ?_⟩
  · simp only [PoolRun.setThread, PoolRun.release, hi, Option.toList_some, List.append_assoc]
    exact List.perm_middle
  · exact fun j u hu => pushing_of_update hu hs (k.pushing j u hu)
  · have := List.filterMap_set_perm (y := .checking) TpWorkerPc.ranPtr h |>.filterMap r.heap
    simp only [TpWorkerPc.ranPtr, Option.toList_none, Option.toList_some, List.append_nil,
      List.filterMap_append, List.filterMap_cons_some hi, List.filterMap_nil] at this
    have hr := ran_of_update (r := r.setThread w .checking) (o := none) hw
    refine .trans ?_ <| .of_eq <| congrArg (r.freed ++ (r.heap t).toList ++ ·) hr.symm
    rw [hi, List.append_assoc]
    exact k.executed.trans <| (this.symm.trans List.perm_append_comm).append_left _
  · simp [PoolRun.setThread, PoolRun.release, hi, k.noFault]

theorem Kept.drain {q : RingQueue} {ef : EnvFrame} {t : UInt64} (k : r.Kept)
    (hc : r.pool.taskQueue.contents = ef :: q.contents) (hq : q.WellFormed)
    (hd : q.dropped = r.pool.taskQueue.dropped) (ht : framePtr ef = some t) :
    { (r.setQueue q).release t with destroyed := r.destroyed ++ (r.heap t).toList }.Kept := by
  have hp : r.pointers.Perm (t :: (r.setQueue q).pointers) := by
    simp [pointers, setQueue, hc, ht]
  have ⟨i, hi, hn, ho⟩ := k.free hp
  simp only [pointers, List.mem_append, not_or] at hn
  have ⟨⟨⟨_, hw⟩, hs⟩, _⟩ := hn
  refine ⟨hq, hd.trans k.dropped, ho.move (.refl _) ?_, null_of_update k.null, ?_, ?_, ?_⟩
  · simp only [setQueue, PoolRun.release, hi, Option.toList_some, ← List.append_assoc]
    exact List.perm_append_singleton ..
  · exact fun j u hu => pushing_of_update hu hs (k.pushing j u hu)
  · exact k.executed.trans <| .of_eq <| congrArg (r.freed ++ ·) (ran_of_update hw).symm
  · simp [setQueue, PoolRun.release, hi, k.noFault]

theorem Kept.discard {q : RingQueue} {ef : EnvFrame} (k : r.Kept)
    (hc : r.pool.taskQueue.contents = ef :: q.contents) (hq : q.WellFormed)
    (hd : q.dropped = r.pool.taskQueue.dropped) (ht : framePtr ef = none) :
    (r.setQueue q).Kept := by
  refine k.evict hq (hd.trans k.dropped) (.of_eq ?_)
  rw [hc, List.filterMap_cons_none ht]

theorem Kept.spawn {created : Bool} (k : r.Kept) (h : r.spawn created = some r') : r'.Kept := by
  obtain ⟨tp, htp, rfl⟩ := Option.map_eq_some_iff.mp h
  have hq : tp.taskQueue = r.pool.taskQueue := by
    unfold ThreadPool.tpSpawnLocked at htp
    split at htp <;> cases htp
    rfl
  have k := k.setPool _ hq
  refine ⟨k.queue, k.dropped, ?_, k.null, k.pushing, ?_, k.noFault⟩
  · simpa [pointers, List.filterMap_cons_eq] using k.owned
  · simpa [ran, List.filterMap_cons_eq] using k.executed

theorem Kept.call {t : UInt64} (k : r.Kept) (h : r.call t = some r') : r'.Kept := by
  unfold PoolRun.call at h
  split at h
  case isFalse => cases h
  case isTrue hg =>
    cases h
    have ⟨_, h₀, hn⟩ := hg
    have hp : t ∉ r.pointers := fun hm => by simpa [hn] using (k.owned.mem_iff t).mp hm
    simp only [pointers, List.mem_append, not_or] at hp
    have ⟨⟨⟨_, hw⟩, hs⟩, _⟩ := hp
    refine ⟨k.queue, k.dropped, ?_, ?_, ?_, ?_, k.noFault⟩
    · refine List.length_append ▸ (k.owned.alloc hn).move ?_ (.refl _)
      apply List.perm_iff_count.mpr
      intro u
      simp only [pointers, List.filterMap_append, List.filterMap_cons_eq, TpSubmitPc.ptr,
        Option.toList_some, List.filterMap_nil, List.append_nil, List.count_append,
        List.count_cons, List.count_nil]
      omega
    · exact (Function.update_of_ne (Ne.symm h₀) ..).trans k.null
    · intro j u hu
      by_cases hj : j < r.submits.length
      case pos =>
        rw [List.getElem?_append_left hj] at hu
        exact pushing_of_update hu hs (k.pushing j u hu)
      case neg =>
        rw [List.getElem?_append_right (Nat.not_lt.mp hj), List.getElem?_singleton] at hu
        split at hu <;> cases hu
        case isTrue h₁ =>
          have : r.submits.length = j := by omega
          simp [this]
    · exact k.executed.trans <| .of_eq <| congrArg (r.freed ++ ·) (ran_of_update hw).symm

theorem countWater_eq (tp : ThreadPool) (water : UInt32) :
    ∃ c, (tp.countWater water).snd = { tp with waterHighCount := c } := by
  unfold ThreadPool.countWater
  split <;> (try split) <;> exact ⟨_, rfl⟩

theorem countWater_taskQueue (tp : ThreadPool) (water : UInt32) :
    (tp.countWater water).snd.taskQueue = tp.taskQueue := by
  obtain ⟨_, hc⟩ := countWater_eq tp water
  rw [hc]

theorem Kept.submitStep (k : r.Kept) (hf : r.submits[i]? = some .alerting → r.Fits)
    (h : r.submitStep i = some r') : r'.Kept := by
  unfold PoolRun.submitStep at h
  split at h
  case h_1 t hi =>
    obtain ⟨q, hq, rfl⟩ := Option.map_eq_some_iff.mp h
    have ha : ¬(tpPackTask t).IsAlarm := fun ha => nomatch (ha : frameData = frameAlarm)
    have hn : ¬r.pool.taskQueue.IsFull := fun hn => by simp [ringPush_blocks hn ha] at hq
    obtain rfl : _ = q := by simpa [ringPush_of_not_full hn] using hq
    exact k.push hi <| write_written k.queue hn
  case h_2 hi =>
    cases h
    exact k.setSubmit hi rfl rfl
  case h_3 water hi =>
    cases h
    have k₁ := k.setPool _ (countWater_taskQueue r.pool water)
    exact k₁.setSubmit hi rfl (by split <;> rfl)
  case h_4 hi =>
    obtain ⟨r₁, h₁, rfl⟩ := Option.map_eq_some_iff.mp h
    have ⟨k₁, _, hs⟩ := k.command (hf hi) h₁
    have hi : r₁.submits[i]? = some .alerting := hs ▸ hi
    exact k₁.setSubmit hi rfl rfl
  case h_5 | h_6 => cases h

theorem Kept.dispatch {ef : EnvFrame} {created : Bool} (k : r.Kept)
    (h : r.threads[w]? = some (.got ef)) : (r.dispatch w ef created).Kept := by
  unfold PoolRun.dispatch
  by_cases he : ef.frameType = frameData
  case pos =>
    have ht : framePtr ef = some (tpUnpackTask ef) := if_pos he
    have hn := k.ne_null <| mem_pointers h ht
    simp only [if_pos he, if_neg hn]
    exact k.execute h ht
  case neg =>
    have hp : framePtr ef = none := if_neg he
    have k₁ : (r.setThread w .checking).Kept := k.setThread h hp.symm rfl
    simp only [if_neg he]
    split
    case isFalse => exact k₁
    case isTrue =>
      split
      case isTrue =>
        cases hs : (r.setThread w .checking).spawn created
        case none   => exact k₁
        case some r₂ => exact k₁.spawn hs
      case isFalse =>
        split
        case isTrue  => exact (k.setPool (r.pool.tpUnlinkLocked w) rfl).setThread h hp.symm rfl
        case isFalse => exact k₁

theorem Kept.workerStep {flag : Bool} (k : r.Kept)
    (hf : r.threads[w]? = some .lowering → r.Fits) (h : r.workerStep w flag = some r') :
    r'.Kept := by
  unfold PoolRun.workerStep at h
  split at h
  case h_1 hw =>
    cases h
    cases hs : r.pool.shutdown <;> exact k.setThread hw (by simp) (by simp)
  case h_2 hw =>
    split at h <;> cases h
    case h_1 ef q hq =>
      have ⟨hc, wf, hd⟩ := tpWorkerDequeue_popped k.queue hq
      exact k.pop hw hc wf hd
    case h_2 => exact k.setThread hw rfl rfl
  case h_3 hw =>
    split at h <;> cases h <;> exact k.setThread hw rfl rfl
  case h_4 hw =>
    obtain ⟨r₁, h₁, rfl⟩ := Option.map_eq_some_iff.mp h
    have ⟨k₁, ht, _⟩ := k.command (hf hw) h₁
    have hw : r₁.threads[w]? = some .lowering := ht ▸ hw
    exact k₁.setThread hw rfl rfl
  case h_5 ef hw =>
    cases h
    exact k.dispatch hw
  case h_6 t hw =>
    cases h
    exact k.release hw
  case h_7 hw =>
    cases h
    exact (k.setPool (r.pool.tpUnlinkLocked w) rfl).setThread hw rfl rfl
  case h_8 | h_9 => cases h

theorem Kept.destroyStep (k : r.Kept) (h : r.destroyStep = some r') : r'.Kept := by
  unfold PoolRun.destroyStep at h
  split at h
  case h_1 =>
    split at h <;> cases h
    exact (k.setPool { r.pool with shutdown := true } rfl).setDestroy
  case h_2 =>
    split at h <;> cases h
    exact k.setDestroy
  case h_3 =>
    split at h
    case h_1 ef q hq =>
      have ⟨hc, wf, hd⟩ := tpDestroyDequeue_popped k.queue hq
      dsimp only at h
      split at h <;> cases h
      case isTrue he  => exact k.drain hc wf hd (if_pos he.left)
      case isFalse he =>
        by_cases ht : ef.frameType = frameData
        case pos =>
          have hm : tpUnpackTask ef ∈ r.pointers := by simp [pointers, hc, framePtr, ht]
          exact absurd ⟨ht, k.ne_null hm⟩ he
        case neg => exact k.discard hc wf hd (if_neg ht)
    case h_2 =>
      cases h
      exact k.setDestroy
  case h_4 => cases h

def CommandsFit (r : PoolRun) : PoolAct → Prop
  | .submit i   => r.submits[i]? = some .alerting → r.Fits
  | .worker w _ => r.threads[w]? = some .lowering → r.Fits
  | _           => True

instance : (r : PoolRun) → (a : PoolAct) → Decidable (r.CommandsFit a)
  | r, .submit i         => inferInstanceAs (Decidable (r.submits[i]? = _ → r.Fits))
  | r, .worker w _       => inferInstanceAs (Decidable (r.threads[w]? = _ → r.Fits))
  | _, .call _ | _, .destroy => inferInstanceAs (Decidable True)

theorem Kept.step {a : PoolAct} (k : r.Kept) (ok : r.CommandsFit a)
    (h : poolStep r a = some r') : r'.Kept := by
  cases a
  case call t        => exact k.call h
  case submit i      => exact k.submitStep ok h
  case worker w flag => exact k.workerStep ok h
  case destroy       => exact k.destroyStep h

theorem Kept.prestart {cs : List Bool} (k : r.Kept) : (tpPrestart r cs).Kept := by
  induction cs generalizing r
  case nil => exact k
  case cons created cs hi =>
    rw [tpPrestart]
    cases hs : r.spawn created
    case none    => exact k
    case some r₁ => exact hi (k.spawn hs)

theorem Kept.init {minW maxW qcap : UInt32} {alloc : Bool} {created : Nat → Bool}
    (h : tpInit minW maxW qcap alloc created = some r) : r.Kept := by
  unfold tpInit at h
  split at h
  case isTrue  => cases h
  case isFalse =>
    have ⟨q, hq, h⟩ := Option.bind_eq_some_iff.mp h
    dsimp only at h
    split at h <;> cases h
    have ⟨he, hd⟩ := ringInit_empty hq
    refine Kept.prestart ⟨ringInit_wellFormed hq, hd, ?_, rfl, nofun, .nil, rfl⟩
    simpa [pointers, he] using Ownership.empty

end PoolRun
end IotCollector
