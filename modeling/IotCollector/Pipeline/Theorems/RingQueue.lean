import IotCollector.Lib.Circular
import IotCollector.Pipeline.RingQueue

namespace IotCollector.RingQueue

variable {q : RingQueue} {f : EnvFrame} {i j : UInt32}

structure WellFormed (q : RingQueue) : Prop where
  count_le : q.count ≤ q.capacity
  tail_lt  : q.tail < q.capacity
  head_lt  : q.head < q.capacity
  head_eq  : q.head.toNat = (q.tail.toNat + q.count.toNat) % q.capacity.toNat

theorem WellFormed.mk' (h₁ : q.count ≤ q.capacity)
    (h₂ : q.head.toNat = (q.tail.toNat + q.count.toNat) % q.capacity.toNat) : q.WellFormed :=
  ⟨h₁, q.tailLt, q.headLt, h₂⟩

theorem WellFormed.count_toNat_le (wf : q.WellFormed) : q.count.toNat ≤ q.capacity.toNat :=
  UInt32.le_iff_toNat_le.mp wf.count_le

theorem isFull_iff : q.IsFull ↔ q.count.toNat = q.capacity.toNat :=
  UInt32.toNat_inj.symm

theorem WellFormed.count_lt (wf : q.WellFormed) (h : ¬q.IsFull) :
    q.count.toNat < q.capacity.toNat :=
  Nat.lt_of_le_of_ne wf.count_toNat_le <| isFull_iff.not.mp h

theorem capacity_dvd (q : RingQueue) : q.capacity.toNat ∣ 2 ^ 32 := by
  have ⟨k, hk⟩ := q.pow
  have hs : 2 ^ k < 2 ^ 32 := hk ▸ q.capacity.toNat_lt
  exact hk ▸ Nat.pow_dvd_pow 2 (Nat.pow_lt_pow_iff_right (by decide) |>.mp hs).le

theorem capacity_le (q : RingQueue) : q.capacity.toNat ≤ 2 ^ 31 := by
  have ⟨k, hk⟩ := q.pow
  have hs : 2 ^ k < 2 ^ 32 := hk ▸ q.capacity.toNat_lt
  have hk' : k < 32 := Nat.pow_lt_pow_iff_right (by decide) |>.mp hs
  exact hk ▸ Nat.pow_le_pow_right (by decide) (Nat.le_of_lt_succ hk')

-- A capacity divides the word size, so that wrapping around at the word size is harmless.
theorem toNat_add_mod (q : RingQueue) (i j : UInt32) :
    (i + j).toNat % q.capacity.toNat = (i.toNat + j.toNat) % q.capacity.toNat := by
  rw [UInt32.toNat_add, Nat.mod_mod_of_dvd _ q.capacity_dvd]

def unrolled (q : RingQueue) : List EnvFrame :=
  q.buf.rotate q.tail.toNat

@[simp]
theorem unrolled_length (q : RingQueue) : q.unrolled.length = q.capacity.toNat := by
  rw [unrolled, List.length_rotate, q.size]

theorem get_tail_add (h : i.toNat < q.unrolled.length) : q.get (q.tail + i) = q.unrolled[i.toNat] := by
  have hk : ((q.tail + i) &&& (q.capacity - 1)).toNat = (q.tail.toNat + i.toNat) % q.buf.length := by
    rw [masked_toNat, toNat_add_mod, q.size]
  exact (Circular.getElem_rotate_eq (q.index_lt <| q.masked_lt _) hk h).symm

theorem contents_eq (h : q.count.toNat ≤ q.capacity.toNat) :
    q.contents = q.unrolled.take q.count.toNat := by
  apply List.ext_getElem
  case hl => simp [contents, h]
  case h =>
    intro k hk _
    have hk : k < q.count.toNat := by simpa [contents] using hk
    have hn : (UInt32.ofNat k).toNat = k :=
      UInt32.toNat_ofNat_of_lt' (Nat.lt_trans hk q.count.toNat_lt)
    simp only [contents, List.getElem_map, List.getElem_range, List.getElem_take]
    rw [get_tail_add (by rw [hn, unrolled_length]; omega)]
    simp only [hn]

@[simp]
theorem contents_length (q : RingQueue) : q.contents.length = q.count.toNat := by
  simp [contents]

-- The central fact: writing at a masked index is writing at a plain one.
theorem unrolled_put (h : i.toNat < q.capacity.toNat) :
    (q.put (q.tail + i) f).unrolled = q.unrolled.set i.toNat f := by
  simp only [unrolled, put]
  rw [masked_toNat, toNat_add_mod, ← q.size]
  exact Circular.rotate_set (q.size ▸ h)

theorem shift_fields (q : RingQueue) (j : UInt32) :
    (q.shift j).capacity = q.capacity ∧ (q.shift j).head = q.head ∧ (q.shift j).tail = q.tail ∧
    (q.shift j).count = q.count ∧ (q.shift j).dropped = q.dropped := by
  induction q, j using shift.induct
  case case1 q j h hi => rw [shift, if_pos h]; exact hi
  case case2 q j h => rw [shift, if_neg h]; simp

theorem succ_lt_count_iff (h : j.toNat < q.count.toNat) :
    j + 1 < q.count ↔ j.toNat + 1 < q.count.toNat := by
  have := q.count.toNat_lt
  rw [UInt32.lt_iff_toNat_lt, UInt32.toNat_add]
  simp
  omega

theorem toNat_succ_of_lt (h : j.toNat < q.count.toNat) : (j + 1).toNat = j.toNat + 1 := by
  have := q.count.toNat_lt
  rw [UInt32.toNat_add]
  simp
  omega

theorem shift_unrolled (hc : q.count.toNat ≤ q.capacity.toNat) (hj : j.toNat < q.count.toNat) :
    (q.shift j).unrolled = Circular.shiftDown q.unrolled q.count.toNat j.toNat := by
  induction q, j using shift.induct
  case case1 q j h hi =>
    have hs := (succ_lt_count_iff hj).mp h
    have hn := toNat_succ_of_lt hj
    have hl : j.toNat + 1 < q.unrolled.length := by rw [unrolled_length]; omega
    have hg : q.get (q.tail + j + 1) = q.unrolled[j.toNat + 1] := by
      rw [UInt32.add_assoc, get_tail_add (by rwa [hn])]
      simp only [hn]
    rw [shift, if_pos h, hi hc (by rw [hn]; exact hs), Circular.shiftDown_of_lt hs hl,
      unrolled_put (by omega), hg, hn]
    rfl
  case case2 q j h =>
    rw [shift, if_neg h, Circular.shiftDown_of_le]
    have := (succ_lt_count_iff hj).not.mp h
    omega

theorem toNat_count_sub_one (h : 0 < q.count.toNat) : (q.count - 1).toNat = q.count.toNat - 1 :=
  UInt32.toNat_sub_of_le _ _ (UInt32.le_iff_toNat_le.mpr h)

theorem removeAt_count_toNat (h : 0 < q.count.toNat) :
    (q.removeAt i).count.toNat = q.count.toNat - 1 := by
  simp only [removeAt, q.shift_fields i]
  exact toNat_count_sub_one h

theorem removeAt_capacity : (q.removeAt i).capacity = q.capacity := by
  simp only [removeAt, q.shift_fields i]

theorem removeAt_tail : (q.removeAt i).tail = q.tail := by
  simp only [removeAt, q.shift_fields i]

theorem removeAt_dropped : (q.removeAt i).dropped = q.dropped + 1 := by
  simp only [removeAt, q.shift_fields i]

theorem removeAt_contents (wf : q.WellFormed) (hi : i.toNat < q.count.toNat) :
    (q.removeAt i).contents = q.contents.eraseIdx i.toNat := by
  have hc := wf.count_toNat_le
  have hn := removeAt_count_toNat (q := q) (i := i) (by omega)
  have hu : (q.removeAt i).unrolled = (q.shift i).unrolled := rfl
  rw [contents_eq (by rw [hn, removeAt_capacity]; omega), contents_eq hc, hn, hu,
    shift_unrolled hc hi, Circular.take_shiftDown hi (by simpa using hc)]

theorem removeAt_wellFormed (wf : q.WellFormed) (h : 0 < q.count.toNat) :
    (q.removeAt i).WellFormed := by
  have hc := wf.count_toNat_le
  have hn := removeAt_count_toNat (i := i) h
  refine .mk' (UInt32.le_iff_toNat_le.mpr ?_) ?_
  · rw [hn, removeAt_capacity]; omega
  · rw [hn, removeAt_capacity, removeAt_tail]
    simp only [removeAt, q.shift_fields i, masked_toNat]
    have hh : q.head.toNat = (q.tail.toNat + (q.count.toNat - 1) + 1) % q.capacity.toNat := by
      rw [wf.head_eq, Nat.add_assoc, Nat.sub_add_cancel h]
    have ha := q.toNat_add_mod (q.head - 1) 1
    rw [UInt32.sub_add_cancel, hh, Nat.mod_mod] at ha
    exact Nat.ModEq.add_right_cancel' 1 ha.symm

theorem getElem_contents (h : i.toNat < q.contents.length) :
    q.contents[i.toNat] = q.get (q.tail + i) := by
  simp [contents]

-- `drop_oldest_normal` removes the first frame that is no alarm, and does nothing if there is none.
theorem dropOldestNormalFrom_eq (ha : ∀ g ∈ q.contents.take i.toNat, g.IsAlarm) :
    q.dropOldestNormalFrom i =
    match q.contents.findIdx? (¬·.IsAlarm) with
    | none   => q
    | some k => q.removeAt (UInt32.ofNat k) := by
  induction i using dropOldestNormalFrom.induct q
  case case1 i hi hn =>
    have hl : i.toNat < q.contents.length := by
      rw [contents_length]; exact UInt32.lt_iff_toNat_lt.mp hi
    have hf : q.contents.findIdx? (¬·.IsAlarm) = some i.toNat := by
      refine List.findIdx?_eq_some_iff_getElem.mpr ⟨hl, ?_, fun k hk => ?_⟩
      · simpa [getElem_contents hl] using hn
      · simpa using ha _ <| List.mem_take_iff_getElem.mpr ⟨k, by omega, rfl⟩
    rw [dropOldestNormalFrom, if_pos hi, if_pos hn, hf]
    simp
  case case2 i hi hn hs =>
    have hi' := UInt32.lt_iff_toNat_lt.mp hi
    have hl : i.toNat < q.contents.length := by rwa [contents_length]
    rw [dropOldestNormalFrom, if_pos hi, if_neg hn]
    refine hs fun g hg => ?_
    rw [toNat_succ_of_lt hi', List.take_add_one, List.getElem?_eq_getElem hl,
      getElem_contents hl] at hg
    cases List.mem_append.mp hg
    case inl hg => exact ha g hg
    case inr hg => exact List.mem_singleton.mp hg ▸ not_not.mp hn
  case case3 i hi =>
    have hi' := UInt32.lt_iff_toNat_lt.not.mp hi
    rw [List.take_of_length_le (by rw [contents_length]; omega)] at ha
    have hf : q.contents.findIdx? (¬·.IsAlarm) = none :=
      List.findIdx?_eq_none_iff.mpr (by simpa using ha)
    rw [dropOldestNormalFrom, if_neg hi, hf]

theorem dropOldestNormal_of_alarms (h : ∀ g ∈ q.contents, g.IsAlarm) : q.dropOldestNormal = q := by
  have hf : q.contents.findIdx? (¬·.IsAlarm) = none :=
    List.findIdx?_eq_none_iff.mpr (by simpa using h)
  rw [dropOldestNormal, dropOldestNormalFrom_eq (by simp), hf]

-- What `drop_oldest_normal` does where it finds a frame.
structure Evicted (q q' : RingQueue) : Prop where
  wellFormed : q'.WellFormed
  contents   : q'.contents = q.contents.eraseP (¬·.IsAlarm)
  count      : q'.count.toNat + 1 = q.count.toNat
  capacity   : q'.capacity = q.capacity
  dropped    : q'.dropped = q.dropped + 1

theorem dropOldestNormal_evicted (wf : q.WellFormed) (h : ∃ g ∈ q.contents, ¬g.IsAlarm) :
    q.Evicted q.dropOldestNormal := by
  cases hf : q.contents.findIdx? (¬·.IsAlarm)
  case none =>
    have ⟨g, hg, hn⟩ := h
    simpa [hn] using List.findIdx?_eq_none_iff.mp hf g hg
  case some k =>
    have ⟨hk, _⟩ := List.findIdx?_eq_some_iff_getElem.mp hf
    rw [contents_length] at hk
    have hn : (UInt32.ofNat k).toNat = k :=
      UInt32.toNat_ofNat_of_lt' (Nat.lt_trans hk q.count.toNat_lt)
    have hp : 0 < q.count.toNat := Nat.zero_lt_of_lt hk
    have hd : q.dropOldestNormal = q.removeAt (UInt32.ofNat k) := by
      rw [dropOldestNormal, dropOldestNormalFrom_eq (by simp), hf]
    rw [hd]
    refine ⟨removeAt_wellFormed wf hp, ?_, ?_, removeAt_capacity, removeAt_dropped⟩
    · rw [removeAt_contents wf (by rwa [hn]), hn, List.eraseP_eq_eraseIdx, hf]
    · rw [removeAt_count_toNat hp]
      omega

theorem Evicted.not_isFull {q' : RingQueue} (e : q.Evicted q') (h : q.IsFull) : ¬q'.IsFull := by
  have := e.count
  rw [isFull_iff] at *
  rw [e.capacity]
  omega

structure Written (q q' : RingQueue) (f : EnvFrame) : Prop where
  wellFormed : q'.WellFormed
  contents   : q'.contents = q.contents ++ [f]
  capacity   : q'.capacity = q.capacity
  dropped    : q'.dropped = q.dropped

theorem toNat_count_add_one (h : q.count.toNat ≤ q.capacity.toNat) :
    (q.count + 1).toNat = q.count.toNat + 1 := by
  have := q.capacity_le
  rw [UInt32.toNat_add]
  simp
  omega

theorem write_count_toNat (h : q.count.toNat ≤ q.capacity.toNat) :
    (q.write f).count.toNat = q.count.toNat + 1 :=
  toNat_count_add_one h

theorem write_written (wf : q.WellFormed) (h : ¬q.IsFull) : q.Written (q.write f) f := by
  have hc := wf.count_lt h
  have hn := write_count_toNat (f := f) wf.count_toNat_le
  refine ⟨.mk' ?_ ?_, ?_, rfl, rfl⟩
  · rw [UInt32.le_iff_toNat_le, hn]
    exact hc
  · rw [hn]
    simp only [write, masked_toNat, toNat_add_mod, wf.head_eq]
    simp [Nat.add_assoc]
  · have hu : (q.write f).unrolled = q.unrolled.set q.count.toNat f := by
      simp only [unrolled, write]
      rw [wf.head_eq, ← q.size]
      exact Circular.rotate_set (q.size ▸ hc)
    rw [contents_eq (by rw [hn]; exact hc), contents_eq hc.le, hn, hu,
      Circular.take_succ_set (by rwa [unrolled_length])]

theorem readN_fields (q : RingQueue) (n : Nat) :
    (q.readN n).snd.buf = q.buf ∧ (q.readN n).snd.capacity = q.capacity ∧
    (q.readN n).snd.head = q.head ∧ (q.readN n).snd.count = q.count ∧
    (q.readN n).snd.dropped = q.dropped := by
  induction n generalizing q
  case zero => simp [readN]
  case succ n hi => exact hi q.read.snd

theorem readN_tail (q : RingQueue) (n : Nat) :
    (q.readN n).snd.tail.toNat = (q.tail.toNat + n) % q.capacity.toNat := by
  induction n generalizing q
  case zero => exact (Nat.mod_eq_of_lt <| UInt32.lt_iff_toNat_lt.mp q.tailLt).symm
  case succ n hi =>
    simp only [readN, hi]
    simp only [read, masked_toNat, toNat_add_mod]
    rw [Nat.mod_add_mod]
    simp [Nat.add_assoc, Nat.add_comm 1]

theorem readN_unrolled (q : RingQueue) (n : Nat) :
    (q.readN n).snd.unrolled = q.unrolled.rotate n := by
  rw [unrolled, (q.readN_fields n).left, readN_tail, ← q.size, List.rotate_mod, unrolled,
    List.rotate_rotate]

theorem read_fst (q : RingQueue) : some q.read.fst = q.unrolled.head? := by
  have ht := q.index_lt q.tailLt
  rw [unrolled, List.head?_rotate ht, List.getElem?_eq_getElem ht]
  rfl

theorem readN_fst (h : n ≤ q.capacity.toNat) : (q.readN n).fst = q.unrolled.take n := by
  induction n generalizing q
  case zero => rfl
  case succ n hi =>
    have hr := (q.readN_fields 1).right.left
    have hu := readN_unrolled q 1
    simp only [readN] at hr hu
    have hf := q.read_fst
    simp only [readN, hi (q := q.read.snd) (by rw [hr]; omega), hu]
    rw [Circular.take_rotate (by rw [unrolled_length]; omega), Nat.add_comm 1]
    cases hq : q.unrolled
    case nil => simp [hq] at hf
    case cons g l =>
      rw [hq] at hf
      simp at hf
      simp [hf]

structure Popped (q q' : RingQueue) (n : Nat) : Prop where
  wellFormed : q'.WellFormed
  contents   : q'.contents = q.contents.drop n
  capacity   : q'.capacity = q.capacity
  dropped    : q'.dropped = q.dropped

theorem popped_of_readN {n : UInt32} (wf : q.WellFormed) (h : n.toNat ≤ q.count.toNat) :
    (q.readN n.toNat).fst = q.contents.take n.toNat ∧
    q.Popped { (q.readN n.toNat).snd with count := (q.readN n.toNat).snd.count - n } n.toNat := by
  have hc := wf.count_toNat_le
  have ⟨_, hcap, hhead, hcount, hdrop⟩ := q.readN_fields n.toNat
  have hn : ((q.readN n.toNat).snd.count - n).toNat = q.count.toNat - n.toNat := by
    rw [hcount]
    exact UInt32.toNat_sub_of_le _ _ (UInt32.le_iff_toNat_le.mpr h)
  refine ⟨?_, .mk' ?_ ?_, ?_, hcap, hdrop⟩
  · rw [readN_fst (by omega), contents_eq hc, List.take_take, Nat.min_eq_left h]
  · rw [UInt32.le_iff_toNat_le, hn]
    simp only [hcap]
    omega
  · simp only [hn, hcap, hhead, readN_tail, wf.head_eq, Nat.mod_add_mod]
    congr 1
    omega
  · rw [contents_eq (by simp only [hn, hcap]; omega), contents_eq hc, hn]
    have hu := readN_unrolled q n.toNat
    simp only [unrolled] at *
    rw [hu, Circular.take_rotate (by rw [List.length_rotate, q.size]; omega)]
    congr 2
    omega

end IotCollector.RingQueue
