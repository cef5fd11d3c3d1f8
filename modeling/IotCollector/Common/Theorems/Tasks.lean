import IotCollector.Common.Theorems.ThreadPool

namespace IotCollector
namespace PoolRun

def queued (r : PoolRun) : List Nat :=
  (r.pool.taskQueue.contents.filterMap framePtr).filterMap r.heap

def taken (r : PoolRun) : List Nat :=
  (r.threads.filterMap TpWorkerPc.gotPtr).filterMap r.heap

def lost (r : PoolRun) : List Nat :=
  (r.evicted.filterMap framePtr).filterMap r.heap

def pending (r : PoolRun) : List Nat :=
  (r.submits.filterMap TpSubmitPc.ptr).filterMap r.heap

-- The task is in one slot of the queue, or one thread has taken it and not executed it yet, or it has
-- been executed once, or freed once by `tp_destroy`, or it has given way to a scaling command. If it
-- has been executed, then it has been freed once or is about to be.
structure Situated (r : PoolRun) (i : Nat) : Prop where
  once  : r.queued.count i + r.taken.count i + r.executed.count i + r.destroyed.count i +
    r.lost.count i = 1
  freed : r.freed.count i + r.ran.count i = r.executed.count i

-- The account of the tasks for which `tp_submit` has returned 0.
structure Accounted (r : PoolRun) : Prop where
  situated : ∀ i, r.submits[i]? = some .returned → r.Situated i
  dropped  : r.pool.taskQueue.dropped = UInt32.ofNat r.evicted.length
  noFault  : r.fault = false

variable {r : PoolRun} {i : Nat}

theorem ptr_perm (l : List TpWorkerPc) : (l.filterMap TpWorkerPc.ptr).Perm
    (l.filterMap TpWorkerPc.gotPtr ++ l.filterMap TpWorkerPc.ranPtr) := by
  induction l
  case nil => exact .nil
  case cons pc l hi =>
    cases pc
    case got ef =>
      rw [List.filterMap_cons_eq, List.filterMap_cons_eq, List.filterMap_cons_eq, List.append_assoc]
      exact hi.append_left _
    case ran t => exact (hi.cons t).trans List.perm_middle.symm
    all_goals exact hi

theorem Kept.not_pending (k : r.Kept) (h : r.submits[i]? = some .returned) : i ∉ r.pending := by
  intro hm
  have ⟨t, ht, hi⟩ := List.mem_filterMap.mp hm
  have ⟨pc, hl, hp⟩ := List.mem_filterMap.mp ht
  have ⟨j, hj⟩ := List.mem_iff_getElem?.mp hl
  cases pc <;> cases hp
  have hk := k.pushing j t hj
  cases hi.symm.trans hk
  cases h ▸ hj

theorem Kept.situated (k : r.Kept) (h : r.submits[i]? = some .returned) : r.Situated i := by
  have ⟨hi, _⟩ := List.getElem?_eq_some_iff.mp h
  have hc := k.owned.count_add_count hi
  have hp := List.count_eq_zero.mpr <| k.not_pending h
  have ht := ((ptr_perm r.threads).filterMap r.heap).count_eq i
  have he := k.executed.count_eq i
  simp only [pointers, List.filterMap_append, List.count_append] at hc ht he
  constructor <;> simp only [queued, taken, lost, pending, ran] at * <;> omega

theorem Kept.accounted (k : r.Kept) : r.Accounted where
  situated _ := k.situated
  dropped    := k.dropped
  noFault    := k.noFault

end PoolRun

open PoolRun

theorem tasks_accounted {minW maxW qcap : UInt32} {alloc : Bool} {created : Nat → Bool} {r : PoolRun}
    (h : tpInit minW maxW qcap alloc created = some r) (as : List PoolAct)
    (g : poolStep.Guarded r as CommandsFit) : poolStep.Always r as Accounted :=
  fun bs s hp hs => Kept.accounted <|
    Transition.always_of_guarded (Kept.init h) (fun k ok hs => k.step ok hs) g bs s hp hs

def samplePool : PoolRun :=
  (tpInit 1 1 1 true fun _ => true).get rfl

-- A task is submitted and executed. The memory for it is the same every time.
def serve (i : Nat) : List PoolAct :=
  .call 1 :: List.replicate 3 (.submit i) ++ List.replicate 4 (.worker 0 true)

-- The third task in a row for which `tp_submit` finds the queue full.
def sampleRun : List PoolAct :=
  serve 0 ++ serve 1 ++ .call 1 :: List.replicate 4 (.submit 2)

theorem tasks_accounted_sample : poolStep.Always samplePool sampleRun Accounted :=
  tasks_accounted (Option.some_get _).symm sampleRun <| .of_check rfl

theorem sampleRun_lost :
    ∃ r, poolStep.exec samplePool sampleRun = some r ∧ r.submits[2]? = some .returned ∧
      r.lost.count 2 = 1 :=
  ⟨_, rfl, rfl, rfl⟩

-- The command that makes room for more threads takes the place of the task.
theorem tasks_accounted_false :
    ¬∀ minW maxW qcap alloc created r s, tpInit minW maxW qcap alloc created = some r →
      poolStep.Reachable r s → ∀ i, s.submits[i]? = some .returned →
        s.queued.count i + s.taken.count i + s.executed.count i + s.destroyed.count i = 1 := by
  intro h
  have ⟨s, hs, hr, hl⟩ := sampleRun_lost
  have hi : tpInit 1 1 1 true (fun _ => true) = some samplePool := (Option.some_get _).symm
  have hc := h 1 1 1 true (fun _ => true) samplePool s hi ⟨_, hs⟩ 2 hr
  have g : poolStep.Guarded samplePool sampleRun CommandsFit := .of_check rfl
  have k : s.Kept := Transition.invariant_of_guarded (Kept.init hi) (fun k ok hs => k.step ok hs) g hs
  have := (k.situated hr).once
  omega

end IotCollector
