import Mathlib.Data.List.Basic
import Mathlib.Logic.Function.Iterate

-- The bitwise computation of a cyclic redundancy check, most significant bit first. The polynomial
-- `p` is written without its leading term.
namespace Crc

variable {w : Nat}

def shift (p s : BitVec w) : BitVec w :=
  if s.msb then (s <<< 1) ^^^ p else s <<< 1

def lead (b : Bool) : BitVec w :=
  if b then BitVec.twoPow w (w - 1) else 0#w

def feed (p s : BitVec w) (b : Bool) : BitVec w :=
  shift p (s ^^^ lead b)

def run (p s : BitVec w) (bs : List Bool) : BitVec w :=
  bs.foldl (feed p) s

-- The register which holds the given bits from its most significant one on.
def pack : List Bool → BitVec w
  | []      => 0#w
  | b :: bs => lead b ^^^ (pack bs >>> 1)

def parity (s : BitVec w) : Bool :=
  (List.range w).map s.getLsbD |>.foldr xor false

variable {p s t : BitVec w} {b : Bool} {bs cs : List Bool}

theorem ite_xor (x : BitVec w) (a b : Bool) :
    (if a ^^ b then x else 0#w) = (if a then x else 0#w) ^^^ (if b then x else 0#w) := by
  cases a <;> cases b <;> simp

theorem shift_xor (p s t : BitVec w) : shift p (s ^^^ t) = shift p s ^^^ shift p t := by
  have hs (s : BitVec w) : shift p s = (s <<< 1) ^^^ (if s.msb then p else 0#w) := by
    cases hm : s.msb <;> simp [shift, hm]
  rw [hs, hs, hs, BitVec.msb_xor, BitVec.shiftLeft_xor_distrib, ite_xor]
  ac_rfl

@[simp]
theorem shift_zero (p : BitVec w) : shift p 0#w = 0#w := by
  simp [shift]

@[simp]
theorem iterate_shift_zero (p : BitVec w) (n : Nat) : (shift p)^[n] 0#w = 0#w :=
  Function.iterate_fixed (shift_zero p) n

theorem lead_xor (a b : Bool) : lead (a ^^ b) = (lead a ^^^ lead b : BitVec w) :=
  ite_xor _ a b

@[simp]
theorem run_nil : run p s [] = s :=
  rfl

@[simp]
theorem run_cons : run p s (b :: bs) = run p (feed p s b) bs :=
  rfl

theorem run_append : run p s (bs ++ cs) = run p (run p s bs) cs :=
  List.foldl_append

theorem run_replicate (n : Nat) : run p s (List.replicate n false) = (shift p)^[n] s := by
  induction n generalizing s
  case zero => rfl
  case succ n hi => simp [List.replicate_succ, feed, lead, hi]

theorem run_zipWith (p s t : BitVec w) (h : bs.length = cs.length) :
    run p (s ^^^ t) (bs.zipWith xor cs) = run p s bs ^^^ run p t cs := by
  induction bs generalizing s t cs
  case nil => cases cs <;> simp_all
  case cons b bs hi =>
    cases cs
    case nil => simp at h
    case cons c cs =>
      have hf : feed p (s ^^^ t) (b ^^ c) = feed p s b ^^^ feed p t c := by
        rw [feed, feed, feed, ← shift_xor, lead_xor]
        congr 1
        ac_rfl
      rw [List.zipWith_cons_cons, run_cons, run_cons, run_cons, hf]
      exact hi _ _ (by simpa using h)

-- From here on the register has at least one bit.
variable {v : Nat} {q x y : BitVec (v + 1)}

theorem getMsbD_lead (b : Bool) (i : Nat) :
    (lead b : BitVec (v + 1)).getMsbD i = (b && decide (i = 0)) := by
  cases b <;> simp [lead, BitVec.getMsbD_twoPow]

theorem getMsbD_pack (bs : List Bool) {i : Nat} (h : i ≤ v) :
    (pack bs : BitVec (v + 1)).getMsbD i = bs.getD i false := by
  induction bs generalizing i
  case nil => simp [pack]
  case cons b bs hi =>
    rw [pack, BitVec.getMsbD_xor, getMsbD_lead, BitVec.getMsbD_ushiftRight]
    cases i
    case zero => simp
    case succ i => simp [hi (Nat.le_of_succ_le h), Nat.lt_succ_of_le h]

theorem shift_ushiftRight (h : x[0] = false) : shift q (x >>> 1) = x := by
  have hm : (x >>> 1).msb = false := by simp [BitVec.msb_ushiftRight]
  rw [shift, hm, if_neg Bool.false_ne_true]
  refine BitVec.eq_of_getLsbD_eq fun i hi => ?_
  cases i
  case zero => simp [h]
  case succ i => simp [hi, Nat.add_comm 1]

theorem run_eq_pack (h : bs.length ≤ v + 1) :
    run q x bs = (shift q)^[bs.length] (x ^^^ pack bs) := by
  induction bs generalizing x
  case nil => simp [pack]
  case cons b bs hi =>
    have hl : bs.length ≤ v := Nat.le_of_succ_le_succ h
    have h₀ : (pack bs : BitVec (v + 1))[0] = false := by
      rw [← BitVec.getLsbD_eq_getElem, BitVec.getLsbD_eq_getMsbD, Nat.add_sub_cancel, Nat.sub_zero,
        getMsbD_pack bs (Nat.le_refl v)]
      simp [hl]
    rw [run_cons, hi (Nat.le_succ_of_le hl), feed, List.length_cons, Function.iterate_succ_apply, pack,
      ← BitVec.xor_assoc, shift_xor q _ (pack bs >>> 1), shift_ushiftRight h₀]

theorem shift_eq_zero_iff (hq : q[0] = true) : shift q x = 0#_ ↔ x = 0#_ := by
  refine ⟨fun h => ?_, fun h => h ▸ shift_zero q⟩
  cases hm : x.msb
  case true =>
    rw [shift, hm, if_pos rfl] at h
    have := congrArg (·[0]) h
    simp [hq] at this
  case false =>
    rw [shift, hm, if_neg Bool.false_ne_true] at h
    refine BitVec.eq_of_getElem_eq fun i hi => ?_
    by_cases hv : i < v
    case pos =>
      have := congrArg (·.getLsbD (i + 1)) h
      simpa [hv] using this
    case neg =>
      obtain rfl : i = v := by omega
      simpa [BitVec.msb_eq_getLsbD_last] using hm

theorem iterate_shift_eq_zero_iff (hq : q[0] = true) {n : Nat} :
    (shift q)^[n] x = 0#_ ↔ x = 0#_ := by
  induction n generalizing x
  case zero => rfl
  case succ n hi => rw [Function.iterate_succ_apply, hi, shift_eq_zero_iff hq]

theorem run_eq_zero_iff (hq : q[0] = true) (h : bs.length ≤ v + 1) :
    run q x bs = 0#_ ↔ x = pack bs := by
  rw [run_eq_pack h, iterate_shift_eq_zero_iff hq, BitVec.xor_eq_zero_iff]

theorem foldr_xor (bs : List Bool) (b : Bool) : bs.foldr xor b = (bs.foldr xor false ^^ b) := by
  induction bs
  case nil => simp
  case cons c bs hi => rw [List.foldr_cons, List.foldr_cons, hi, Bool.xor_assoc]

theorem parity_xor (s t : BitVec w) : parity (s ^^^ t) = (parity s ^^ parity t) := by
  unfold parity
  induction List.range w
  case nil => rfl
  case cons i l hi =>
    simp only [List.map_cons, List.foldr_cons, hi, BitVec.getLsbD_xor, Bool.xor_assoc,
      Bool.xor_left_comm]

theorem parity_zero : parity 0#w = false := by
  have := parity_xor 0#w 0#w
  rwa [BitVec.xor_self, Bool.xor_self] at this

theorem parity_shiftLeft (x : BitVec (v + 1)) : parity (x <<< 1) = (parity x ^^ x.msb) := by
  have hl : (List.range (v + 1)).map (x <<< 1).getLsbD = false :: (List.range v).map x.getLsbD := by
    rw [List.range_succ_eq_map, List.map_cons, List.map_map]
    refine congrArg₂ _ (by simp) <| List.map_congr_left fun i hi => ?_
    have hv := List.mem_range.mp hi
    simp [hv, BitVec.getLsbD_eq_getElem (Nat.lt_succ_of_lt hv)]
  have hr : (List.range (v + 1)).map x.getLsbD = (List.range v).map x.getLsbD ++ [x.msb] := by
    rw [List.range_succ, List.map_append, List.map_singleton, BitVec.msb_eq_getLsbD_last,
      Nat.add_sub_cancel]
  rw [parity, parity, hl, hr, List.foldr_append, foldr_xor _ (List.foldr ..)]
  simp

theorem parity_lead (b : Bool) : parity (lead b : BitVec (v + 1)) = b := by
  cases b
  case false => exact parity_zero
  case true =>
    have hs : (lead true : BitVec (v + 1)) <<< 1 = 0#_ := by
      refine BitVec.eq_of_getLsbD_eq fun i hi => ?_
      simp [lead, BitVec.getLsbD_twoPow]
      omega
    have hm : (lead true : BitVec (v + 1)).msb = true := getMsbD_lead true 0
    have := parity_shiftLeft (lead true : BitVec (v + 1))
    rw [hs, parity_zero, hm] at this
    simpa using this

theorem parity_shift (hp : parity q = true) : parity (shift q x) = parity x := by
  cases hm : x.msb <;> simp [shift, hm, parity_xor, parity_shiftLeft, hp]

theorem parity_run (hp : parity q = true) (x : BitVec (v + 1)) (bs : List Bool) :
    parity (run q x bs) = (parity x ^^ decide (bs.count true % 2 = 1)) := by
  induction bs generalizing x
  case nil => simp
  case cons b bs hi =>
    rw [run_cons, hi, feed, parity_shift hp, parity_xor, parity_lead]
    cases b
    case false => simp
    case true =>
      rw [List.count_cons_self, Bool.xor_assoc]
      cases Nat.mod_two_eq_zero_or_one (bs.count true) <;> simp [Nat.add_mod, *]

theorem run_ne_zero_of_odd (hp : parity q = true) (h : bs.count true % 2 = 1) :
    run q 0#_ bs ≠ 0#_ := by
  intro hz
  have := parity_run hp 0#_ bs
  simp [hz, h, parity_zero] at this

theorem eq_replicate (h : true ∉ bs) : bs = List.replicate bs.length false :=
  List.eq_replicate_iff.mpr ⟨rfl, fun b hb => by cases b <;> simp_all⟩

theorem split_first (h : true ∈ bs) : ∃ n cs, bs = List.replicate n false ++ true :: cs := by
  induction bs
  case nil => simp at h
  case cons b bs hi =>
    cases b
    case true => exact ⟨0, bs, rfl⟩
    case false =>
      obtain ⟨n, cs, he⟩ := hi <| by simpa using h
      exact ⟨n + 1, cs, by rw [he]; rfl⟩

theorem run_ne_zero_of_two (hq : q[0] = true) (h : bs.count true = 2)
    (ho : ∀ n, 0 < n → n < bs.length → (shift q)^[n] (lead true) ≠ lead true) :
    run q 0#_ bs ≠ 0#_ := by
  obtain ⟨i, cs, rfl⟩ := split_first <| List.count_pos_iff.mp (by omega : 0 < bs.count true)
  have hc : cs.count true = 1 := by simpa [List.count_replicate] using h
  obtain ⟨n, ds, rfl⟩ := split_first <| List.count_pos_iff.mp (by omega : 0 < cs.count true)
  have hd : true ∉ ds := by
    rw [← List.count_eq_zero]
    simpa [List.count_replicate] using hc
  rw [eq_replicate hd]
  simp only [run_append, run_cons, run_replicate, iterate_shift_zero, feed, BitVec.zero_xor]
  rw [Ne, iterate_shift_eq_zero_iff hq, shift_eq_zero_iff hq, BitVec.xor_eq_zero_iff,
    ← Function.iterate_succ_apply]
  exact ho (n + 1) (Nat.succ_pos n) (by simp; omega)

theorem pack_ne_zero (h : true ∈ bs) (hl : bs.length ≤ v + 1) : (pack bs : BitVec (v + 1)) ≠ 0#_ := by
  intro hz
  obtain ⟨i, hi, he⟩ := List.mem_iff_getElem.mp h
  have := getMsbD_pack (v := v) bs (i := i) (by omega)
  simp [hz, hi, he] at this

theorem run_ne_zero_of_burst (hq : q[0] = true) (h : true ∈ bs) (k : Nat)
    (hw : ∀ i, bs[i]? = some true → k ≤ i ∧ i < k + (v + 1)) : run q 0#_ bs ≠ 0#_ := by
  have hs : bs = bs.take k ++ ((bs.drop k).take (v + 1) ++ (bs.drop k).drop (v + 1)) := by
    rw [List.take_append_drop, List.take_append_drop]
  have h₁ : true ∉ bs.take k := by
    intro hm
    obtain ⟨i, hi⟩ := List.mem_iff_getElem?.mp hm
    rw [List.getElem?_take] at hi
    split at hi
    case isTrue hk  => exact absurd (hw i hi).left (Nat.not_le.mpr hk)
    case isFalse hk => cases hi
  have h₃ : true ∉ (bs.drop k).drop (v + 1) := by
    intro hm
    obtain ⟨i, hi⟩ := List.mem_iff_getElem?.mp hm
    rw [List.getElem?_drop, List.getElem?_drop] at hi
    have := (hw _ hi).right
    omega
  have h₂ : true ∈ (bs.drop k).take (v + 1) := by
    rw [hs] at h
    simpa only [List.mem_append, h₁, h₃, false_or, or_false] using h
  have hl : ((bs.drop k).take (v + 1)).length ≤ v + 1 := List.length_take_le ..
  rw [hs, run_append, run_append, eq_replicate h₁, run_replicate, iterate_shift_zero,
    eq_replicate h₃, run_replicate, Ne, iterate_shift_eq_zero_iff hq, run_eq_zero_iff hq hl]
  exact (pack_ne_zero h₂ hl).symm

end Crc
