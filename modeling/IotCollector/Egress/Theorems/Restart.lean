import IotCollector.Egress.Theorems.Cursor

namespace IotCollector

open Posix CacheWriter

def leadingOks (sends : List IotStatus) : Nat :=
  (sends.takeWhile (· = .ok)).length

theorem leadingOks_of_ok {sends : List IotStatus} (h : sends.headD .errIo = .ok) :
    leadingOks sends = leadingOks sends.tail + 1 := by
  cases sends
  case nil => cases h
  case cons o sends =>
    obtain rfl : o = .ok := h
    simp [leadingOks]

theorem leadingOks_of_not_ok {sends : List IotStatus} (h : sends.headD .errIo ≠ .ok) :
    leadingOks sends = 0 := by
  cases sends
  case nil => rfl
  case cons o sends =>
    have h : o ≠ .ok := h
    simp [leadingOks, h]

namespace CacheWriter

variable {c c' : CacheWriter} {path : Path} {w : Wire} {op : CursorOp} {fd : CacheFd}

-- The records that the loop of a replay can read, up to the first one at or behind the write cursor.
def rounds (c : CacheWriter) : Nat :=
  match c.cacheFd with
  | none    => 0
  | some fd =>
    min ((c.writeCursor - c.readCursor + 27) / envFrameWireSize).toNat
      (((c.fs.content fd.node).length - fd.offset) / envFrameWireSize)

theorem rounds_of_not_lt (h : ¬c.readCursor < c.writeCursor) : c.rounds = 0 := by
  unfold rounds
  split
  case h_1 => rfl
  case h_2 =>
    simp only [envFrameWireSize]
    omega

theorem rounds_of_none (h : c.cacheFd = none) : c.rounds = 0 := by
  simp only [rounds, h]

theorem rounds_of_short (h : (c.read envFrameWireSize).fst.length ≠ envFrameWireSize) :
    c.rounds = 0 := by
  unfold rounds
  cases hc : c.cacheFd
  case none    => rfl
  case some fd =>
    simp only [CacheWriter.read, hc, length_readAt] at h
    simp only [envFrameWireSize] at *
    omega

theorem rounds_pos (hp : c.readCursor < c.writeCursor)
    (h : (c.read envFrameWireSize).fst.length = envFrameWireSize) : 0 < c.rounds := by
  unfold rounds
  cases hc : c.cacheFd
  case none    => simp [CacheWriter.read, hc, envFrameWireSize] at h
  case some fd =>
    simp only [CacheWriter.read, hc, length_readAt] at h
    simp only [envFrameWireSize] at *
    omega

def afterRound (c : CacheWriter) (o : SaveOutcome) : CacheWriter :=
  let c := (c.read envFrameWireSize).snd
  ({ c with readCursor := c.readCursor + envFrameWireSize }.saveCursor cacheDat o).snd

theorem read_of_cacheFd (h : c.cacheFd = some fd) (n : Nat) :
    c.read n = (readAt (c.fs.content fd.node) fd.offset n,
      { c with cacheFd := some { fd with
          offset := fd.offset + (readAt (c.fs.content fd.node) fd.offset n).length } }) := by
  simp only [CacheWriter.read, h]

theorem read_fs (c : CacheWriter) (n : Nat) : (c.read n).snd.fs = c.fs := by
  unfold CacheWriter.read
  split <;> rfl

theorem afterRound_cursors (c : CacheWriter) (o : SaveOutcome) :
    (c.afterRound o).readCursor = c.readCursor + envFrameWireSize ∧
    (c.afterRound o).writeCursor = c.writeCursor ∧
    (c.afterRound o).cacheFd = (c.read envFrameWireSize).snd.cacheFd := by
  have ⟨h₁, h₂⟩ := c.read_cursors envFrameWireSize
  have ⟨h₃, h₄, h₅⟩ := { (c.read envFrameWireSize).snd with
    readCursor := (c.read envFrameWireSize).snd.readCursor + envFrameWireSize }.saveCursor_cursors
    cacheDat o
  exact ⟨h₃.trans <| congrArg (· + _) h₁, h₄.trans h₂, h₅⟩

theorem afterRound_node (c : CacheWriter) (o : SaveOutcome) :
    (c.afterRound o).fs.node = c.fs.node :=
  (saveCursor_node ..).trans <| congrArg _ <| c.read_fs _

theorem afterRound_content {n : Nat} (h : n ≠ c.fs.node (cursorPath cacheDat)) (o : SaveOutcome) :
    (c.afterRound o).fs.content n = c.fs.content n := by
  refine (saveCursor_content cacheDat o ?_).trans ?_ <;> simp only [read_fs]
  exact h

def Apart (c : CacheWriter) : Prop :=
  ∀ fd, c.cacheFd = some fd → fd.node ≠ c.fs.node (cursorPath cacheDat)

theorem Apart.afterRound (h : c.Apart) (o : SaveOutcome) : (c.afterRound o).Apart := by
  intro fd hf
  rw [(c.afterRound_cursors o).right.right] at hf
  rw [afterRound_node]
  cases hc : c.cacheFd
  case none =>
    simp [CacheWriter.read, hc] at hf
  case some fd' =>
    rw [read_of_cacheFd hc] at hf
    exact Option.some.inj hf ▸ h fd' hc

theorem rounds_afterRound (ha : c.Apart) (hp : c.readCursor < c.writeCursor)
    (h : (c.read envFrameWireSize).fst.length = envFrameWireSize) (o : SaveOutcome) :
    c.rounds = (c.afterRound o).rounds + 1 := by
  have ⟨h₁, h₂, h₃⟩ := c.afterRound_cursors o
  unfold rounds
  rw [h₁, h₂, h₃]
  cases hc : c.cacheFd
  case none    => simp [CacheWriter.read, hc, envFrameWireSize] at h
  case some fd =>
    simp only [CacheWriter.read, hc, length_readAt] at h
    simp only [CacheWriter.read, hc, length_readAt, afterRound_content (ha fd hc)]
    simp only [envFrameWireSize] at *
    omega

-- The cursor on the disk after the saves of `n` rounds, which begin with the cursor `r` and with
-- `d` on the disk.
def savedCursor : Nat → List SaveOutcome → (d r : Int) → Int
  | 0,     _,     d, _ => d
  | n + 1, saves, d, r =>
    let r := r + envFrameWireSize
    let d :=
      match saves.headD .saved with
      | .openFails  => d
      | .writeFails => 0
      | .saved      => (Int64.ofInt r).toInt
    savedCursor n saves.tail d r

theorem savedCursor_of_saved {saves : List SaveOutcome} {n : Nat} (d r : Int)
    (h : saves.getD n .saved = .saved) :
    savedCursor (n + 1) saves d r = (Int64.ofInt (r + envFrameWireSize * (n + 1 : Nat))).toInt := by
  induction n generalizing saves d r
  case zero =>
    cases saves
    case nil          => simp [savedCursor]
    case cons o saves =>
      obtain rfl : o = .saved := h
      simp [savedCursor]
  case succ n hi =>
    have ht : saves.tail.getD n .saved = .saved := by cases saves <;> simp_all
    rw [savedCursor, hi _ _ ht]
    congr 2
    simp only [envFrameWireSize]
    omega

theorem toInt_ofInt_le {x : Int} (h : 0 ≤ x) : (Int64.ofInt x).toInt ≤ x := by
  rw [Int64.toInt_ofInt]
  unfold Int.bmod Int64.size
  dsimp only
  split <;> omega

theorem savedCursor_of_lost {saves : List SaveOutcome} {n : Nat} {d r : Int} (hr : 0 ≤ r) (hd : d ≤ r)
    (h : saves.getD n .saved ≠ .saved) :
    savedCursor (n + 1) saves d r < r + envFrameWireSize * (n + 1 : Nat) := by
  induction n generalizing saves d r
  case zero =>
    cases saves
    case nil          => exact absurd rfl h
    case cons o saves =>
      have h : o ≠ .saved := h
      cases o <;> simp only [savedCursor, List.headD_cons, envFrameWireSize, ne_eq, reduceCtorEq,
        not_true_eq_false] at * <;> omega
  case succ n hi =>
    have ht : saves.tail.getD n .saved ≠ .saved := by cases saves <;> simp_all
    have hs : (envFrameWireSize : Int) = 28 := rfl
    have hl := toInt_ofInt_le (x := r + envFrameWireSize) (by omega)
    rw [savedCursor]
    refine lt_of_lt_of_eq (hi (by omega) ?_ ht) ?_
    · split <;> omega
    · simp only [envFrameWireSize]
      omega

theorem diskCursor_afterRound (c : CacheWriter) (o : SaveOutcome) :
    diskCursor (c.afterRound o).fs cacheDat =
    match o with
    | .openFails  => diskCursor c.fs cacheDat
    | .writeFails => 0
    | .saved      => (Int64.ofInt (c.readCursor + envFrameWireSize)).toInt := by
  have hr := (c.read_cursors envFrameWireSize).left
  cases o <;> simp [afterRound, saveCursor, diskCursor, read_fs, hr]
  simp [cursorOf]

theorem replayLoop_saved (ha : c.Apart) :
    (replayLoop wireIo c w).fst.readCursor =
      c.readCursor + envFrameWireSize * (min (leadingOks w.sends) c.rounds : Nat) ∧
    diskCursor (replayLoop wireIo c w).fst.fs cacheDat =
      savedCursor (min (leadingOks w.sends) c.rounds) w.saves (diskCursor c.fs cacheDat)
        c.readCursor := by
  induction c, w using replayLoop.induct wireIo <;> rw [replayLoop]
  case case1 c w hp _ hr =>
    rw [if_pos hp, if_pos hr, rounds_of_short hr, Nat.min_zero]
    exact ⟨by simpa using (c.read_cursors _).left, by rw [read_fs, savedCursor]⟩
  case case2 c w hp _ hr _ _ hs =>
    rw [if_pos hp, if_neg hr, if_pos hs, leadingOks_of_not_ok hs, Nat.zero_min]
    exact ⟨by simpa using (c.read_cursors _).left, by rw [read_fs, savedCursor]⟩
  case case3 c w hp _ _ hr frm sent hs c₁ saved hi =>
    have ho : w.sends.headD .errIo = .ok := not_not.mp hs
    have hn := rounds_afterRound ha hp (not_not.mp hr) saved.fst
    obtain ⟨h₁, h₂⟩ := hi (ha.afterRound _)
    have hc : (c₁.saveCursor cacheDat saved.fst).snd = c.afterRound saved.fst := rfl
    rw [hc] at h₁ h₂
    rw [(c.afterRound_cursors _).left] at h₁ h₂
    rw [diskCursor_afterRound] at h₂
    rw [if_pos hp, if_neg hr, if_neg hs, leadingOks_of_ok ho, hn, Nat.add_min_add_right]
    refine ⟨h₁.trans ?_, h₂⟩
    have hw : saved.snd.sends = w.sends.tail := rfl
    rw [hw]
    simp only [envFrameWireSize]
    omega
  case case4 c w hp =>
    rw [if_neg hp, rounds_of_not_lt hp, Nat.min_zero]
    exact ⟨by simp, by rw [savedCursor]⟩

structure KeepsBut (n : Nat) (c c' : CacheWriter) : Prop where
  node    : c'.fs.node = c.fs.node
  content : ∀ m ≠ n, c'.fs.content m = c.fs.content m
  cacheFd : c'.cacheFd.map CacheFd.node = c.cacheFd.map CacheFd.node

theorem KeepsBut.refl (n : Nat) (c : CacheWriter) : KeepsBut n c c :=
  ⟨rfl, fun _ _ => rfl, rfl⟩

theorem KeepsBut.trans {n : Nat} {c₁ c₂ c₃ : CacheWriter} (h₁ : KeepsBut n c₁ c₂)
    (h₂ : KeepsBut n c₂ c₃) : KeepsBut n c₁ c₃ where
  node        := h₂.node.trans h₁.node
  content m h := (h₂.content m h).trans <| h₁.content m h
  cacheFd     := h₂.cacheFd.trans h₁.cacheFd

theorem KeepsBut.diskCursor {n : Nat} (h : KeepsBut n c c') (hn : c.fs.node (cursorPath path) ≠ n) :
    diskCursor c'.fs path = diskCursor c.fs path := by
  rw [IotCollector.diskCursor, h.node, h.content _ hn]
  rfl

theorem keepsBut_read (n k : Nat) (c : CacheWriter) : KeepsBut n c (c.read k).snd := by
  cases hc : c.cacheFd
  case none    => simpa [CacheWriter.read, hc] using .refl n c
  case some fd =>
    rw [read_of_cacheFd hc]
    exact ⟨rfl, fun _ _ => rfl, by simp [hc]⟩

theorem keepsBut_afterRound (c : CacheWriter) (o : SaveOutcome) :
    KeepsBut (c.fs.node (cursorPath cacheDat)) c (c.afterRound o) where
  node        := c.afterRound_node o
  content _ h := afterRound_content h o
  cacheFd     := (c.afterRound_cursors o).right.right ▸ (keepsBut_read 0 _ c).cacheFd

theorem keepsBut_replayLoop (c : CacheWriter) (w : Wire) :
    KeepsBut (c.fs.node (cursorPath cacheDat)) c (replayLoop wireIo c w).fst := by
  induction c, w using replayLoop.induct wireIo <;> rw [replayLoop]
  case case1 c w hp _ hr =>
    rw [if_pos hp, if_pos hr]
    exact keepsBut_read ..
  case case2 c w hp _ hr _ _ hs =>
    rw [if_pos hp, if_neg hr, if_pos hs]
    exact keepsBut_read ..
  case case3 c w hp _ _ hr frm sent hs c₁ saved hi =>
    have h := c.keepsBut_afterRound saved.fst
    rw [if_pos hp, if_neg hr, if_neg hs]
    exact h.trans <| congrFun h.node _ ▸ hi
  case case4 c w hp =>
    rw [if_neg hp]
    exact .refl ..

theorem keepsBut_lseek (n : Nat) (x : Int) (c : CacheWriter) : KeepsBut n c (c.lseek x) := by
  unfold lseek
  split
  case isTrue  => exact .refl n c
  case isFalse => exact ⟨rfl, fun _ _ => rfl, by simp [Function.comp_def]⟩

theorem lseek_cursors (c : CacheWriter) (x : Int) :
    (c.lseek x).readCursor = c.readCursor ∧ (c.lseek x).writeCursor = c.writeCursor ∧
    (c.lseek x).fs = c.fs := by
  unfold lseek
  split <;> exact ⟨rfl, rfl, rfl⟩

theorem Apart.lseek (ha : c.Apart) (x : Int) : (c.lseek x).Apart := by
  intro fd hf
  have hk := (keepsBut_lseek 0 x c).cacheFd
  rw [hf] at hk
  have ⟨fd', hf', hn⟩ := Option.map_eq_some_iff.mp hk.symm
  exact (c.lseek_cursors x).right.right ▸ hn ▸ ha fd' hf'

theorem keepsBut_replay (c : CacheWriter) (w : Wire) :
    KeepsBut (c.fs.node (cursorPath cacheDat)) c (cacheReplayStart wireIo c w).snd.fst := by
  unfold cacheReplayStart
  split
  case isTrue  => exact .refl ..
  case isFalse =>
    have h := keepsBut_replayLoop (c.lseek c.readCursor) w
    rw [(c.lseek_cursors _).right.right] at h
    exact (keepsBut_lseek ..).trans h

theorem keepsBut_append (h : c.cacheFd = some fd) (f : EnvFrame) (written : Option Nat) :
    KeepsBut fd.node c (c.cacheWriterAppend f written).snd := by
  cases written
  case none   => simpa [cacheWriterAppend, h] using .refl fd.node c
  case some n =>
    have hw : KeepsBut fd.node c (c.write (f.bytes.take n)) := by
      by_cases hb : f.bytes.take n = []
      case pos =>
        rw [hb, write_nil]
        exact .refl fd.node c
      case neg =>
        rw [write_of_cacheFd h hb]
        exact ⟨rfl, fun _ hm => FileSystem.content_store_of_ne hm, by simp [h]⟩
    simp only [cacheWriterAppend, h, Option.isNone_some, Bool.false_eq_true, if_false]
    split
    case isTrue  => exact hw
    case isFalse => exact ⟨hw.node, hw.content, hw.cacheFd⟩

def sendCount (c : CacheWriter) (sends : List IotStatus) : Nat :=
  min (leadingOks sends) (c.lseek c.readCursor).rounds

theorem replayLoop_of_none (h : min (leadingOks w.sends) c.rounds = 0) :
    (replayLoop wireIo c w).fst.readCursor = c.readCursor ∧
    (replayLoop wireIo c w).fst.fs = c.fs := by
  have hr : (c.read envFrameWireSize).snd.readCursor = c.readCursor ∧
      (c.read envFrameWireSize).snd.fs = c.fs := ⟨(c.read_cursors _).left, c.read_fs _⟩
  by_cases hp : c.readCursor < c.writeCursor
  case neg =>
    rw [replayLoop, if_neg hp]
    exact ⟨rfl, rfl⟩
  case pos =>
    rw [replayLoop, if_pos hp]
    by_cases hl : (c.read envFrameWireSize).fst.length = envFrameWireSize
    case neg =>
      simp only [ne_eq, hl, not_false_eq_true, if_true]
      exact hr
    case pos =>
      have hs : (wireIo.send w (markRetry (EnvFrame.ofBytes
          (c.read envFrameWireSize).fst)).bytes).fst ≠ .ok := by
        intro hs
        have := rounds_pos hp hl
        rw [leadingOks_of_ok hs] at h
        omega
      simp only [ne_eq, hl, hs, not_true_eq_false, not_false_eq_true, if_false, if_true]
      exact hr

theorem replayLoop_of_some (h : min (leadingOks w.sends) c.rounds ≠ 0) :
    c.readCursor < (replayLoop wireIo c w).fst.readCursor := by
  have hp : c.readCursor < c.writeCursor := by
    by_contra hp
    simp [rounds_of_not_lt hp] at h
  have hl : (c.read envFrameWireSize).fst.length = envFrameWireSize := by
    by_contra hl
    simp [rounds_of_short hl] at h
  have hs : (wireIo.send w (markRetry (EnvFrame.ofBytes (c.read envFrameWireSize).fst)).bytes).fst
      = .ok := by
    by_contra hs
    simp [leadingOks_of_not_ok hs] at h
  rw [replayLoop, if_pos hp, if_neg (not_not.mpr hl)]
  simp only [hs, ne_eq, not_true_eq_false, if_false]
  obtain ⟨n, hn, _⟩ := replayLoop_cursors (c.afterRound (w.saves.headD .saved))
    (wireIo.save
      (wireIo.send w (markRetry (EnvFrame.ofBytes (c.read envFrameWireSize).fst)).bytes).snd).snd
  rw [(c.afterRound_cursors _).left] at hn
  refine lt_of_lt_of_eq ?_ hn.symm
  simp only [envFrameWireSize]
  omega

variable {sends : List IotStatus}

theorem replay_of_none (h : c.sendCount sends = 0) (saves : List SaveOutcome) :
    (cacheReplayStart wireIo c { sends, saves, log := [] }).snd.fst.readCursor = c.readCursor ∧
    (cacheReplayStart wireIo c { sends, saves, log := [] }).snd.fst.fs = c.fs := by
  unfold cacheReplayStart
  split
  case isTrue  => exact ⟨rfl, rfl⟩
  case isFalse =>
    have ⟨h₁, h₂⟩ := replayLoop_of_none (w := { sends, saves, log := [] }) h
    have ⟨h₃, _, h₄⟩ := c.lseek_cursors c.readCursor
    exact ⟨h₁.trans h₃, h₂.trans h₄⟩

theorem pending_of_some (h : c.sendCount sends ≠ 0) :
    ¬(c.cacheFd.isNone ∨ c.readCursor ≥ c.writeCursor) := by
  have ⟨h₁, h₂, _⟩ := c.lseek_cursors c.readCursor
  rintro (hc | hc)
  · have hk := (keepsBut_lseek 0 c.readCursor c).cacheFd
    rw [Option.isNone_iff_eq_none.mp hc, Option.map_none, Option.map_eq_none_iff] at hk
    simp [sendCount, rounds_of_none hk] at h
  · have hn := (c.lseek c.readCursor).rounds_of_not_lt (by omega)
    simp [sendCount, hn] at h

theorem replay_of_some (h : c.sendCount sends ≠ 0) (saves : List SaveOutcome) :
    c.readCursor <
    (cacheReplayStart wireIo c { sends, saves, log := [] }).snd.fst.readCursor := by
  have hl := replayLoop_of_some (w := { sends, saves, log := [] }) h
  rw [cacheReplayStart, if_neg (pending_of_some h)]
  rwa [(c.lseek_cursors _).left] at hl

theorem replay_saved (ha : c.Apart) (h : c.sendCount sends ≠ 0) (saves : List SaveOutcome) :
    let r := cacheReplayStart wireIo c { sends, saves, log := [] }
    r.snd.fst.readCursor = c.readCursor + envFrameWireSize * c.sendCount sends ∧
    diskCursor r.snd.fst.fs cacheDat =
      savedCursor (c.sendCount sends) saves (diskCursor c.fs cacheDat) c.readCursor := by
  have ⟨h₁, _, h₂⟩ := c.lseek_cursors c.readCursor
  have hl := replayLoop_saved (w := { sends, saves, log := [] }) <| ha.lseek c.readCursor
  rw [cacheReplayStart, if_neg (pending_of_some h)]
  rwa [h₁, h₂] at hl

end CacheWriter

-- A close and a successful open after it lead to the read cursor that there is now.
def Restores (path : Path) (c : CacheWriter) : Prop :=
  (c.cacheWriterClose.opened path).readCursor = c.readCursor

-- No append is to the file of the cursor. A replay that sends something saves its cursor in the
-- file that belongs to the path, the last of these saves does not fail, and the cursor is an `off_t`.
def Saves (path : Path) (c : CacheWriter) : CursorOp → Prop
  | .append _ _         => c.fs.node path ≠ c.fs.node (cursorPath path)
  | .replay sends saves =>
    c.sendCount sends = 0 ∨
    c.fs.node path ≠ c.fs.node (cursorPath path) ∧
    c.fs.node (cursorPath cacheDat) = c.fs.node (cursorPath path) ∧
    saves.getD (c.sendCount sends - 1) .saved = .saved ∧
    c.readCursor + envFrameWireSize * c.sendCount sends < 2 ^ 63

variable {c c' : CacheWriter} {path : Path} {op : CursorOp}

theorem restores_iff : Restores path c ↔ diskCursor c.fs path = c.readCursor := by
  rw [Restores, opened_eq]
  rfl

structure Persisted (path : Path) (c : CacheWriter) : Prop where
  cacheFd : c.cacheFd.map CacheFd.node = some (c.fs.node path)
  disk    : diskCursor c.fs path = c.readCursor

theorem opened_persisted (c : CacheWriter) (path : Path) : Persisted path (c.opened path) := by
  rw [opened_eq]
  exact ⟨rfl, by simp [diskCursor]⟩

theorem neg_le_diskCursor (fs : FileSystem) (path : Path) : -2 ^ 63 ≤ diskCursor fs path := by
  rw [diskCursor, cursorOf]
  split
  case isTrue  => decide
  case isFalse => exact Int64.le_toInt _

theorem diskCursor_congr {fs : FileSystem} {p₁ p₂ : Path}
    (h : fs.node (cursorPath p₁) = fs.node (cursorPath p₂)) : diskCursor fs p₁ = diskCursor fs p₂ := by
  rw [diskCursor, diskCursor, h]

theorem Persisted.apart (h : Persisted path c)
    (hp : c.fs.node path ≠ c.fs.node (cursorPath path))
    (hc : c.fs.node (cursorPath cacheDat) = c.fs.node (cursorPath path)) : c.Apart := by
  intro fd hf
  have hn := h.cacheFd
  rw [hf] at hn
  rw [hc]
  exact Option.some.inj hn ▸ hp

theorem cursorStep_persisted (h : Persisted path c) (hok : Saves path c op)
    (hs : cursorStep c op = some c') : Persisted path c' := by
  cases op <;> cases hs
  case append f written =>
    have ⟨fd, hf, hn⟩ := Option.map_eq_some_iff.mp h.cacheFd
    have hk := keepsBut_append hf f written
    refine ⟨hk.cacheFd.trans <| h.cacheFd.trans <| hk.node ▸ rfl, ?_⟩
    rw [hk.diskCursor (hn ▸ Ne.symm hok), h.disk, (cacheWriterAppend_cursors ..).left]
  case replay sends saves =>
    have hk := c.keepsBut_replay { sends, saves, log := [] }
    refine ⟨hk.cacheFd.trans <| h.cacheFd.trans <| hk.node ▸ rfl, ?_⟩
    by_cases h₀ : c.sendCount sends = 0
    case pos =>
      have ⟨hr, hf⟩ := replay_of_none h₀ saves
      rw [hr, hf, h.disk]
    case neg =>
      have ⟨hp, hc, hv, hb⟩ := hok.resolve_left h₀
      have ⟨hr, hd⟩ := replay_saved (h.apart hp hc) h₀ saves
      have ⟨n, hn⟩ := Nat.exists_eq_add_one_of_ne_zero h₀
      have := h.disk ▸ neg_le_diskCursor c.fs path
      rw [← diskCursor_congr (hk.node ▸ hc), hd, hr]
      rw [hn, Nat.add_sub_cancel] at hv
      rw [hn] at hb ⊢
      rw [savedCursor_of_saved _ _ hv, Int64.toInt_ofInt_of_le _ hb]
      simp only [envFrameWireSize]
      omega

theorem saves_of_restores (h : Persisted path c)
    (hp : c.fs.node path ≠ c.fs.node (cursorPath path)) (h₀ : 0 ≤ c.readCursor)
    (hs : cursorStep c op = some c') (hr : Restores path c') : Saves path c op := by
  cases op <;> cases hs
  case append f written   => exact hp
  case replay sends saves =>
    have hk := c.keepsBut_replay { sends, saves, log := [] }
    rw [restores_iff] at hr
    by_contra hn
    simp only [Saves, not_or, not_and] at hn
    have ⟨hz, hn⟩ := hn
    have hlt := replay_of_some hz saves
    by_cases hc : c.fs.node (cursorPath cacheDat) = c.fs.node (cursorPath path)
    case neg =>
      rw [hk.diskCursor (Ne.symm hc), h.disk] at hr
      omega
    case pos =>
      have ⟨h₁, h₂⟩ := replay_saved (h.apart hp hc) hz saves
      have ⟨n, hm⟩ := Nat.exists_eq_add_one_of_ne_zero hz
      have hd := diskCursor_congr hc
      rw [← diskCursor_congr (hk.node ▸ hc), h₂, h₁] at hr
      by_cases hv : saves.getD (c.sendCount sends - 1) .saved = .saved
      case neg =>
        rw [hm, Nat.add_sub_cancel] at hv
        have := savedCursor_of_lost h₀ (hd.trans h.disk).le hv
        rw [hm] at hr
        omega
      case pos =>
        refine hn hp hc hv ?_
        rw [hm, Nat.add_sub_cancel] at hv
        rw [hm, savedCursor_of_saved _ _ hv] at hr
        rw [hm, ← hr]
        exact Int64.toInt_lt _

structure Ordinary (path : Path) (c : CacheWriter) : Prop where
  apart  : c.fs.node path ≠ c.fs.node (cursorPath path)
  nonneg : 0 ≤ c.readCursor

theorem cursorStep_ordinary (hc : Persisted path c) (h : Ordinary path c)
    (hs : cursorStep c op = some c') : Ordinary path c' := by
  cases op <;> cases hs
  case append f written =>
    have ⟨fd, hf, _⟩ := Option.map_eq_some_iff.mp hc.cacheFd
    refine ⟨(keepsBut_append hf f written).node ▸ h.apart, ?_⟩
    exact (c.cacheWriterAppend_cursors f written).left ▸ h.nonneg
  case replay sends saves =>
    have hk := c.keepsBut_replay { sends, saves, log := [] }
    have ⟨n, hr, _⟩ := cacheReplayStart_cursors c { sends, saves, log := [] }
    refine ⟨hk.node ▸ h.apart, ?_⟩
    rw [hr]
    exact Int.add_nonneg h.nonneg <| Int.mul_nonneg (Int.natCast_nonneg _) (Int.natCast_nonneg _)

-- A replay saves the cursor for one fixed path, whichever path has been opened.
theorem restores_of_saves (c : CacheWriter) (path : Path) (ops : List CursorOp) :
    (cursorStep.Guarded (c.opened path) ops (Saves path) →
     cursorStep.Always (c.opened path) ops (Restores path)) ∧
    (c.fs.node path ≠ c.fs.node (cursorPath path) → 0 ≤ diskCursor c.fs path →
     cursorStep.Always (c.opened path) ops (Restores path) →
     cursorStep.Guarded (c.opened path) ops (Saves path)) := by
  constructor
  case left =>
    intro g bs c' hp hs
    have h : Persisted path c' :=
      Transition.invariant_of_guarded (opened_persisted c path) cursorStep_persisted (g.of_prefix hp) hs
    exact restores_iff.mpr h.disk
  case right =>
    intro hp h₀ h
    have ho : Ordinary path (c.opened path) := by
      rw [opened_eq]
      exact ⟨hp, h₀⟩
    refine (Transition.always_iff_guarded (I := fun c => Persisted path c ∧ Ordinary path c)
      ⟨opened_persisted c path, ho⟩ (fun h => restores_iff.mpr h.left.disk) ?_ ?_).mp h
    · exact fun h hok hs =>
        ⟨cursorStep_persisted h.left hok hs, cursorStep_ordinary h.left h.right hs⟩
    · exact fun h hs hr => saves_of_restores h.left h.right.apart h.right.nonneg hs hr

-- Two appends, one that fails, and a replay that sends a frame, for the path of the code.
example : cursorStep.Guarded ((sampleCache cacheDat).opened cacheDat)
    [.append .zero (some envFrameWireSize), .append .zero (some envFrameWireSize),
     .append .zero none, .replay [.ok, .errIo] [.saved]] (Saves cacheDat) := by
  refine .cons ?_ rfl <| .cons ?_ rfl <| .cons ?_ rfl <| .cons ?_ rfl .nil <;>
  simp only [Saves] <;>
  decide

-- A disk with an empty cache file that has another name than the one in `cache_replay_start`.
def renamedCache : CacheWriter :=
  let path := cstr "./data.bin"
  { sampleCache path with
    fs := { node := fun p => if p = path then 0 else if p = cursorPath path then 1 else 2
            data := fun n => if n = 0 then some [] else none } }

-- A frame is appended and replayed.
theorem restores_false :
    ¬∀ (c : CacheWriter) (path : Path) (ops : List CursorOp),
      cursorStep.Always (c.opened path) ops (Restores path) := by
  intro h
  let path := cstr "./data.bin"
  let append : CursorOp := .append .zero (some envFrameWireSize)
  have hg := (restores_of_saves renamedCache path [append, .replay [.ok] []]).right (by decide)
    (by decide) <| h _ _ _
  have hs := hg [append] (.replay [.ok] []) _ _ List.prefix_rfl rfl rfl
  exact absurd hs (by
    simp only [Saves]
    decide)

end IotCollector
