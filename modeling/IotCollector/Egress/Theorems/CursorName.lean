import IotCollector.Lib.Suffix
import IotCollector.Egress.Start

namespace IotCollector

open Posix

-- The cache paths which `dispatcher_start` accepts.
def AcceptedPath (path : Path) : Prop :=
  copyOptStr 256 (some path) = some (some path)

theorem acceptedPath_iff {path : Path} : AcceptedPath path ↔ path.length ≤ 255 := by
  simp [AcceptedPath, copyOptStr_eq_some_iff, Nat.lt_succ_iff]

theorem DispatcherOpts.acceptedPath_of_copyStrings {cfg g h : DispatcherOpts} {path : Path}
    (hg : cfg.copyStrings h = some g) (hp : cfg.cachePath = some path) : AcceptedPath path := by
  simp only [copyStrings, Option.bind_eq_bind, Option.bind_eq_some_iff] at hg
  obtain ⟨_, _, _, _, _, _, c, hc, _⟩ := hg
  rw [hp] at hc
  rw [AcceptedPath, hc, (copyOptStr_eq_some_iff.mp hc).left]

-- The path is as long as can be, and is the other one followed by the first bytes of the suffix.
def Collides (path other : Path) : Prop :=
  Suffix.Fills 255 (cstr ".cursor") other path

-- A path has the cursor file that it should have exactly if there is room for the whole of the suffix,
-- it is not its own cursor file exactly if there is room for a byte of it, and it shares the cursor file
-- of another path exactly if one of the two collides with the other one.
theorem cursorPath_iff {path : Path} (h : AcceptedPath path) :
    (cursorPath path = path ++ cstr ".cursor" ↔ path.length ≤ 248) ∧
    (cursorPath path ≠ path ↔ path.length ≤ 254) ∧
    ∀ other, AcceptedPath other → other ≠ path →
      (cursorPath path ≠ cursorPath other ↔ ¬Collides path other ∧ ¬Collides other path) := by
  have hc (p : Path) : cursorPath p = Suffix.suffixed 255 (cstr ".cursor") p := rfl
  have hl : (cstr ".cursor").length = 7 := by decide
  rw [acceptedPath_iff] at h
  simp only [hc]
  refine ⟨?_, ?_, fun other ho hn => ?_⟩
  · rw [Suffix.suffixed_eq_iff, hl]
    omega
  · rw [Suffix.suffixed_ne_iff h (by decide)]
    exact Nat.lt_succ_iff
  · rw [acceptedPath_iff] at ho
    have hd : cstr ".cursor" = 46 :: cstr "cursor" := by decide
    rw [← not_or, not_iff_not, Collides, Collides, hd, or_comm]
    exact Suffix.suffixed_inj_iff (by decide) h ho hn.symm

theorem cursorPath_iff_cacheDat : cursorPath cacheDat = cstr "./cache.dat.cursor" := by
  have h := (@cursorPath_iff cacheDat rfl).left.mpr (by decide)
  rw [h]
  decide

-- A path of 255 bytes, which is its own cursor file.
theorem cursorPath_false :
    ¬∀ path, AcceptedPath path → cursorPath path = path ++ cstr ".cursor" ∧ cursorPath path ≠ path ∧
      ∀ other, AcceptedPath other → other ≠ path → cursorPath path ≠ cursorPath other := by
  intro h
  have hp : AcceptedPath (List.replicate 255 97) := acceptedPath_iff.mpr List.length_replicate.le
  exact (h _ hp).right.left <| List.take_left' List.length_replicate

end IotCollector
