import Mathlib.Data.List.Basic
import Mathlib.Tactic.Common

-- A cutter recovers records of a fixed size from a stream. Where the front of the stream is no
-- record, it slides by one element.
structure Cutter (α β : Type*) where
  size   : Nat
  pos    : 0 < size
  decode : List α → Option β

namespace Cutter

@[ext]
structure Cut (α β : Type*) where
  records : List β
  rest    : List α
  skipped : Nat

variable {α β : Type*} {c : Cutter α β} {l l₁ l₂ : List α} {b : β}

def cut (c : Cutter α β) (l : List α) : Cut α β :=
  if c.size ≤ l.length then
    match c.decode (l.take c.size) with
    | none   => let r := c.cut l.tail;          { r with skipped := r.skipped + 1 }
    | some b => let r := c.cut (l.drop c.size); { r with records := b :: r.records }
  else
    { records := [], rest := l, skipped := 0 }
termination_by l.length
decreasing_by
  all_goals
    have := c.pos
    simp
    omega

theorem cut_of_length_lt (h : l.length < c.size) : c.cut l = ⟨[], l, 0⟩ := by
  rw [cut, if_neg (Nat.not_le.mpr h)]

theorem cut_of_decode_none (h : c.size ≤ l.length) (hd : c.decode (l.take c.size) = none) :
    c.cut l = { c.cut l.tail with skipped := (c.cut l.tail).skipped + 1 } := by
  rw [cut, if_pos h, hd]

theorem cut_of_decode_some (h : c.size ≤ l.length) (hd : c.decode (l.take c.size) = some b) :
    c.cut l = { c.cut (l.drop c.size) with records := b :: (c.cut (l.drop c.size)).records } := by
  rw [cut, if_pos h, hd]

theorem rest_length_lt : (c.cut l).rest.length < c.size := by
  induction l using cut.induct c
  case case1 l h hd hi   => simpa [cut_of_decode_none h hd] using hi
  case case2 l h b hd hi => simpa [cut_of_decode_some h hd] using hi
  case case3 l h         => simpa [cut_of_length_lt (Nat.not_le.mp h)] using h

theorem rest_suffix : (c.cut l).rest <:+ l := by
  induction l using cut.induct c
  case case1 l h hd hi   => simpa [cut_of_decode_none h hd] using hi.trans (List.tail_suffix l)
  case case2 l h b hd hi => simpa [cut_of_decode_some h hd] using hi.trans (List.drop_suffix ..)
  case case3 l h         => simp [cut_of_length_lt (Nat.not_le.mp h)]

-- The central law: cutting a longer stream is cutting the front first, and then what the front left
-- over together with the back.
theorem cut_append :
    c.cut (l₁ ++ l₂) =
    { records := (c.cut l₁).records ++ (c.cut ((c.cut l₁).rest ++ l₂)).records
      rest    := (c.cut ((c.cut l₁).rest ++ l₂)).rest
      skipped := (c.cut l₁).skipped + (c.cut ((c.cut l₁).rest ++ l₂)).skipped } := by
  induction l₁ using cut.induct c
  case case1 l h hd hi =>
    have ht : l ≠ [] := by rintro rfl; have := c.pos; simp at h; omega
    have hl : c.size ≤ (l ++ l₂).length := by simp; omega
    have hd' : c.decode ((l ++ l₂).take c.size) = none := by rwa [List.take_append_of_le_length h]
    rw [cut_of_decode_none h hd, cut_of_decode_none hl hd', List.tail_append_of_ne_nil ht, hi]
    ext1 <;> simp
    omega
  case case2 l h b hd hi =>
    have hl : c.size ≤ (l ++ l₂).length := by simp; omega
    have hd' : c.decode ((l ++ l₂).take c.size) = some b := by
      rwa [List.take_append_of_le_length h]
    rw [cut_of_decode_some h hd, cut_of_decode_some hl hd', List.drop_append_of_le_length h, hi]
    rfl
  case case3 l h =>
    simp [cut_of_length_lt (Nat.not_le.mp h)]

theorem records_eq_nil (h : ∀ w, w <:+: l → w.length = c.size → c.decode w = none) :
    (c.cut l).records = [] := by
  induction l using cut.induct c
  case case1 l hs hd hi =>
    rw [cut_of_decode_none hs hd]
    exact hi fun w hw => h w (hw.trans (List.tail_suffix l).isInfix)
  case case2 l hs b hd _ =>
    have := h (l.take c.size) (List.take_prefix ..).isInfix (by simp [hs])
    simp [hd] at this
  case case3 l hs =>
    simp [cut_of_length_lt (Nat.not_le.mp hs)]

theorem cut_append_of_decode (hl : l₁.length = c.size) (hd : c.decode l₁ = some b) :
    c.cut (l₁ ++ l₂) = { c.cut l₂ with records := b :: (c.cut l₂).records } := by
  have hs : c.size ≤ (l₁ ++ l₂).length := by simp [← hl]
  have hd' : c.decode ((l₁ ++ l₂).take c.size) = some b := by rwa [← hl, List.take_left]
  rw [cut_of_decode_some hs hd', ← hl, List.drop_left]

-- Cutting chunk by chunk, where what a chunk leaves over is carried to the next one.
def cutChunks (c : Cutter α β) (carry : List α) : List (List α) → Cut α β
  | []            => { records := [], rest := carry, skipped := 0 }
  | chunk :: tail =>
    let r  := c.cut (carry ++ chunk)
    let r' := c.cutChunks r.rest tail
    { records := r.records ++ r'.records, rest := r'.rest, skipped := r.skipped + r'.skipped }

theorem cutChunks_eq_cut {carry : List α} {chunks : List (List α)} (h : carry.length < c.size) :
    c.cutChunks carry chunks = c.cut (carry ++ chunks.flatten) := by
  induction chunks generalizing carry
  case nil => simp [cutChunks, cut_of_length_lt h]
  case cons chunk chunks hi =>
    rw [List.flatten_cons, ← List.append_assoc, cut_append, cutChunks, hi rest_length_lt]

-- Cutting chunk by chunk in a buffer of `cap` places: a chunk which overruns it pushes the oldest
-- elements out.
def cutBounded (c : Cutter α β) (cap : Nat) (carry : List α) : List (List α) → Cut α β
  | []            => { records := [], rest := carry, skipped := 0 }
  | chunk :: tail =>
    let r  := c.cut <| (carry ++ chunk).drop (carry.length + chunk.length - cap)
    let r' := c.cutBounded cap r.rest tail
    { records := r.records ++ r'.records, rest := r'.rest, skipped := r.skipped + r'.skipped }

-- A full buffer lets its oldest element go: what is to be held in the end stays the same.
theorem overrun_tail {cap : Nat} {l₁ l₂ : List α} (h : l₁.length = cap) (hc : 0 < cap) (hl : l₂ ≠ []) :
    l₁.tail.length + l₂.length - cap + 1 = l₁.length + l₂.length - cap ∧
    (l₁.tail ++ l₂).drop (l₁.tail.length + l₂.length - cap) =
      (l₁ ++ l₂).drop (l₁.length + l₂.length - cap) := by
  have he : l₁ ≠ [] := List.length_pos_iff.mp <| h ▸ hc
  have hn : l₁.tail.length + l₂.length - cap + 1 = l₁.length + l₂.length - cap := by
    have := List.length_pos_iff.mpr hl
    rw [List.length_tail]
    omega
  exact ⟨hn, by rw [← List.tail_append_of_ne_nil he, List.drop_tail, hn]⟩

theorem overrun_take (cap : Nat) (l₁ l₂ : List α) (n : Nat) :
    (l₁ ++ l₂.take n).length + (l₂.drop n).length - cap = l₁.length + l₂.length - cap ∧
    (l₁ ++ l₂.take n ++ l₂.drop n).drop ((l₁ ++ l₂.take n).length + (l₂.drop n).length - cap) =
      (l₁ ++ l₂).drop (l₁.length + l₂.length - cap) := by
  have he : l₁ ++ l₂.take n ++ l₂.drop n = l₁ ++ l₂ := by
    rw [List.append_assoc, List.take_append_drop]
  have hn : (l₁ ++ l₂.take n).length + (l₂.drop n).length = l₁.length + l₂.length := by
    rw [← List.length_append, he, List.length_append]
  rw [he, hn]
  exact ⟨rfl, rfl⟩

theorem cutBounded_singleton {cap : Nat} :
    (c.cutBounded cap [] [l]).records = (c.cut <| l.drop (l.length - cap)).records := by
  simp [cutBounded]

theorem cutBounded_append {cap : Nat} {carry : List α} {xs ys : List (List α)} :
    c.cutBounded cap carry (xs ++ ys) =
    { records := (c.cutBounded cap carry xs).records ++
        (c.cutBounded cap (c.cutBounded cap carry xs).rest ys).records
      rest    := (c.cutBounded cap (c.cutBounded cap carry xs).rest ys).rest
      skipped := (c.cutBounded cap carry xs).skipped +
        (c.cutBounded cap (c.cutBounded cap carry xs).rest ys).skipped } := by
  induction xs generalizing carry
  case nil => simp [cutBounded]
  case cons x xs hi => simp [cutBounded, hi, Nat.add_assoc]

theorem cutBounded_records_eq_nil {cap : Nat} {carry : List α} {chunks : List (List α)} {Q : α → Prop}
    (hd : ∀ w, (∀ a ∈ w, Q a) → w.length = c.size → c.decode w = none) (hc : ∀ a ∈ carry, Q a)
    (h : ∀ chunk ∈ chunks, ∀ a ∈ chunk, Q a) : (c.cutBounded cap carry chunks).records = [] := by
  induction chunks generalizing carry
  case nil => rfl
  case cons chunk chunks hi =>
    have hq : ∀ a ∈ (carry ++ chunk).drop (carry.length + chunk.length - cap), Q a := by
      intro a ha
      cases List.mem_append.mp <| List.mem_of_mem_drop ha
      case inl ha => exact hc a ha
      case inr ha => exact h chunk List.mem_cons_self a ha
    have h₁ := records_eq_nil (c := c) fun w hw => hd w fun a ha => hq a <| hw.mem ha
    have h₂ := hi (fun a ha => hq a <| (rest_suffix (c := c)).mem ha) fun k hk =>
      h k <| List.mem_cons_of_mem _ hk
    rw [cutBounded, h₁, h₂, List.append_nil]

end Cutter
