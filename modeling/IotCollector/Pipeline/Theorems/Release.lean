import IotCollector.Pipeline.Theorems.Path

namespace IotCollector

open Cleaner StationInternalCtx

namespace Stamp

def index (a : Stamp) : Nat :=
  a.fst.toNat * 2 ^ 32 + a.snd.toNat

theorem before_iff_index {a b : Stamp} : a.Before b ↔ a.index < b.index := by
  have := a.snd.toNat_lt
  have := b.snd.toNat_lt
  simp only [Before, index, UInt32.lt_iff_toNat_lt, ← UInt32.toNat_inj]
  omega

end Stamp

theorem foldl_min_le {α : Type*} (key : α → Nat) (l : List α) (m : α) :
    key (l.foldl (fun m i => if key i < key m then i else m) m) ≤ key m ∧
    ∀ i ∈ l, key (l.foldl (fun m i => if key i < key m then i else m) m) ≤ key i := by
  induction l generalizing m
  case nil => exact ⟨Nat.le_refl _, nofun⟩
  case cons j l hi =>
    have ⟨h₁, h₂⟩ := hi (if key j < key m then j else m)
    have hm : key (if key j < key m then j else m) ≤ key m ∧
        key (if key j < key m then j else m) ≤ key j := by
      split <;> omega
    exact ⟨h₁.trans hm.left, List.forall_mem_cons.mpr ⟨h₁.trans hm.right, h₂⟩⟩

namespace StationInternalCtx

variable {ctx : StationInternalCtx} {f : EnvFrame}

theorem oldest_not_after (ctx : StationInternalCtx) (i : Fin reorderCap) :
    ¬(ctx.reorderBuf.get i).Before ctx.oldest := by
  have hm : ∀ i : Fin reorderCap, i = 0 ∨ i ∈ ([1, 2, 3, 4] : List (Fin reorderCap)) := by decide
  let key (i : Fin reorderCap) := (ctx.reorderBuf.get i).stamp.index
  have hi : ctx.minIdx = [1, 2, 3, 4].foldl (fun m i => if key i < key m then i else m) 0 := by
    simp only [minIdx, Stamp.before_iff_index]
    rfl
  have ⟨h₁, h₂⟩ := foldl_min_le key [1, 2, 3, 4] 0
  rw [← hi] at h₁ h₂
  rw [EnvFrame.Before, Stamp.before_iff_index, Nat.not_lt]
  cases hm i
  case inl h => exact h ▸ h₁
  case inr h => exact h₂ i h

theorem buffered_not_before_oldest (h : ctx.reorderCount = reorderCap) :
    ∀ g ∈ ctx.buffered, ¬g.Before ctx.oldest := by
  intro g hg
  rw [buffered, h, List.take_of_length_le (by simp), Vector.mem_toList_iff] at hg
  obtain ⟨i, hi, rfl⟩ := Vector.getElem_of_mem hg
  exact ctx.oldest_not_after ⟨i, hi⟩

end StationInternalCtx

-- A full buffer gives away the earliest of its five frames, and takes the new one for it. This is the
-- earliest of all six unless the new one is.
theorem full_releases (D : Type*) [DoubleArith D] (c : Cleaner) (f : EnvFrame) (alloc : Bool)
    (ctx : StationInternalCtx) (hd : f.IsData) (hg : c.getInternalCtx f.stationId alloc = some ctx)
    (hv : ctx.hasValidTimestamp) (hc : ctx.reorderCount = reorderCap) (ha : ctx.Ahead f) :
    c.cleanerProcess D f alloc = c.follow D f (.handed (ctx.swap f) ctx.oldest) ∧
    c.route f alloc = .handed (ctx.swap f) ctx.oldest ∧
    ctx.oldest ∈ ctx.buffered ∧ (∀ g ∈ ctx.buffered, ¬g.Before ctx.oldest) ∧
    ((ctx.swap f).buffered ++ [ctx.oldest]).Perm (ctx.buffered ++ [f]) ∧
    ((∀ g ∈ ctx.buffered ++ [f], ¬g.Before ctx.oldest) ↔ ¬f.Before ctx.oldest) := by
  have hn : ¬ctx.reorderCount < reorderCap := Nat.not_lt.mpr hc.ge
  have ho := buffered_not_before_oldest hc
  have hr : c.route f alloc = .handed (ctx.swap f) ctx.oldest := by
    rw [route_eq_path, path_of_data hd hg, if_neg (not_isStale_of_before ha.before),
      if_pos (ha.isJump hv), Path.route, dif_neg hn]
  refine ⟨hr ▸ cleanerProcess_eq c D f alloc, hr, oldest_mem_buffered hn, ho,
    ctx.buffered_swap_perm f hn, ?_⟩
  · rw [List.forall_mem_append, List.forall_mem_singleton]
    exact and_iff_right ho

def crowdedCtx : StationInternalCtx :=
  { (fresh 1).accept (frameAt 100) with
    reorderBuf   := #v[frameAt 122, frameAt 120, frameAt 124, frameAt 121, frameAt 123]
    reorderCount := reorderCap
    bounded      := Nat.le_refl _ }

theorem full_releases_crowded :
    let c := (cleanerInit {}).put 1 crowdedCtx
    c.cleanerProcess Float (frameAt 130) true =
      c.follow Float (frameAt 130) (.handed (crowdedCtx.swap (frameAt 130)) (frameAt 120)) ∧
    c.route (frameAt 130) true = .handed (crowdedCtx.swap (frameAt 130)) (frameAt 120) :=
  have h := full_releases Float ((cleanerInit {}).put 1 crowdedCtx) (frameAt 130) true crowdedCtx
    (by decide) rfl rfl rfl (by unfold Ahead; decide)
  ⟨h.left, h.right.left⟩

-- A frame that is earlier than the five which wait for it stays behind.
theorem full_releases_false :
    ¬∀ (c : Cleaner) (f : EnvFrame) (alloc : Bool) (ctx : StationInternalCtx), f.IsData →
      c.getInternalCtx f.stationId alloc = some ctx → ctx.hasValidTimestamp →
      ctx.reorderCount = reorderCap → ctx.Ahead f →
      ∃ ctx' g, c.route f alloc = .handed ctx' g ∧ (∀ h ∈ ctx.buffered ++ [f], ¬h.Before g) ∧
        (ctx'.buffered ++ [g]).Perm (ctx.buffered ++ [f]) := by
  intro h
  have ⟨ctx', g, hr, hm, _⟩ := h ((cleanerInit {}).put 1 crowdedCtx) (frameAt 112) true crowdedCtx
    (by decide) rfl rfl rfl (by unfold Ahead; decide)
  rw [route_eq_path, path_of_data (by decide) rfl, if_neg (by decide), if_pos (by decide),
    Path.route, dif_neg (by decide)] at hr
  obtain ⟨_, rfl⟩ := Route.handed.inj hr
  exact hm (frameAt 112) (by simp) (by decide)

end IotCollector
