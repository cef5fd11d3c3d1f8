import IotCollector.Lib.Rounding
import IotCollector.Pipeline.StationCtx

namespace IotCollector

open Rounding

-- What IEEE 754 promises about the operations of `double`: where the exact result of an operation is
-- neither too large nor too small, the double that comes out is this result, rounded.
class RoundedArith (D : Type*) extends DoubleArith D where
  HasValue : D → ℝ → Prop
  zero_value    : HasValue 0 0
  sigma_value   : HasValue sigma 3
  epsilon_value : ∃ z, HasValue epsilon z ∧ Near (1 / 1000) z
  ofInt_value {n : ℤ} : |n| ≤ 2 ^ 53 → HasValue (ofInt n) n
  fabs_value {a : D} {x : ℝ} : HasValue a x → HasValue (fabs a) |x|
  lt_iff {a b : D} {x y : ℝ} : HasValue a x → HasValue b y → (lt a b = true ↔ x < y)
  add_value {a b : D} {x y : ℝ} : HasValue a x → HasValue b y → Moderate (x + y) →
    ∃ z, HasValue (a + b) z ∧ Near (x + y) z
  sub_value {a b : D} {x y : ℝ} : HasValue a x → HasValue b y → Moderate (x - y) →
    ∃ z, HasValue (a - b) z ∧ Near (x - y) z
  mul_value {a b : D} {x y : ℝ} : HasValue a x → HasValue b y → Moderate (x * y) →
    ∃ z, HasValue (a * b) z ∧ Near (x * y) z
  div_value {a b : D} {x y : ℝ} : HasValue a x → HasValue b y → y ≠ 0 → Moderate (x / y) →
    ∃ z, HasValue (a / b) z ∧ Near (x / y) z
  sqrt_value {a : D} {x : ℝ} : HasValue a x → 0 ≤ x → Moderate √x →
    ∃ z, HasValue (sqrt a) z ∧ Near √x z

-- The doubles read as exact reals.
noncomputable instance : DoubleArith ℝ where
  ofInt n := n
  sqrt    := Real.sqrt
  fabs x  := |x|
  lt x y  := open Classical in decide (x < y)
  epsilon := 1 / 1000
  sigma   := 3

noncomputable instance : RoundedArith ℝ where
  HasValue a x      := a = x
  zero_value        := rfl
  sigma_value       := rfl
  epsilon_value     := ⟨_, rfl, .refl _⟩
  ofInt_value _     := rfl
  fabs_value h      := congrArg _ h
  lt_iff ha hb      := by subst ha hb; exact decide_eq_true_iff
  add_value ha hb _ := ⟨_, congrArg₂ _ ha hb, .refl _⟩
  sub_value ha hb _ := ⟨_, congrArg₂ _ ha hb, .refl _⟩
  mul_value ha hb _ := ⟨_, congrArg₂ _ ha hb, .refl _⟩
  div_value ha hb _ _ := ⟨_, congrArg₂ _ ha hb, .refl _⟩
  sqrt_value ha _ _ := ⟨_, congrArg _ ha, .refl _⟩

namespace RoundedArith

variable {D : Type*} [RoundedArith D] {a b : D} {x y : ℝ} {i n : ℕ}

theorem add_exact (ha : HasValue a x) (hb : HasValue b y) (hg : Grid i n (x + y)) (hi : i ≤ 64)
    (hn : n ≤ 2 ^ 53) : HasValue (a + b) (x + y) := by
  have ⟨_, hz, h⟩ := add_value ha hb <| hg.moderate hi hn
  exact h.eq hg hi hn ▸ hz

theorem sub_exact (ha : HasValue a x) (hb : HasValue b y) (hg : Grid i n (x - y)) (hi : i ≤ 64)
    (hn : n ≤ 2 ^ 53) : HasValue (a - b) (x - y) := by
  have ⟨_, hz, h⟩ := sub_value ha hb <| hg.moderate hi hn
  exact h.eq hg hi hn ▸ hz

theorem mul_exact (ha : HasValue a x) (hb : HasValue b y) (hg : Grid i n (x * y)) (hi : i ≤ 64)
    (hn : n ≤ 2 ^ 53) : HasValue (a * b) (x * y) := by
  have ⟨_, hz, h⟩ := mul_value ha hb <| hg.moderate hi hn
  exact h.eq hg hi hn ▸ hz

theorem div_exact (ha : HasValue a x) (hb : HasValue b y) (h₀ : y ≠ 0) (hg : Grid i n (x / y))
    (hi : i ≤ 64) (hn : n ≤ 2 ^ 53) : HasValue (a / b) (x / y) := by
  have ⟨_, hz, h⟩ := div_value ha hb h₀ <| hg.moderate hi hn
  exact h.eq hg hi hn ▸ hz

theorem foldl_exact {α : Type*} {g : α → D} {r : α → ℝ} {m : ℕ} (hi : i ≤ 64) (l : List α)
    (hr : ∀ t ∈ l, HasValue (g t) (r t) ∧ Grid i m (r t)) (ha : HasValue a x) (hx : Grid i n x)
    (hb : n + l.length * m ≤ 2 ^ 53) :
    HasValue (l.foldl (fun s t => s + g t) a) (x + (l.map r).sum) ∧
    Grid i (n + l.length * m) (x + (l.map r).sum) := by
  induction l generalizing a x n
  case nil => simpa using ⟨ha, hx⟩
  case cons t l ih =>
    have ⟨⟨hg, hm⟩, hl⟩ := List.forall_mem_cons.mp hr
    have hs := hx.add hm
    simp only [List.length_cons, Nat.succ_mul] at hb
    have ht := add_exact ha hg hs hi <| by omega
    simpa [add_assoc, Nat.succ_mul, Nat.add_comm, Nat.add_left_comm] using ih hl ht hs <| by omega

end RoundedArith
end IotCollector
