import IotCollector.Egress.Theorems.ReadBack

namespace IotCollector

open Posix CacheWriter

-- The calls of the cache module as in `cursorStep`, with what has been appended and sent.
def historyStep : Transition CacheRun CursorOp
  | s, .append frame written =>
    let r := s.cache.cacheWriterAppend frame written
    some { s with
      cache    := r.snd
      appended := if r.fst = .ok then s.appended ++ [frame] else s.appended }
  | s, .replay sends saves =>
    let r := cacheReplayStart wireIo s.cache { sends, saves, log := [] }
    some { s with
      cache := r.snd.fst
      sent  := s.sent ++ r.snd.snd.sent }

-- What was pending and has been appended since then is what has been sent and what is read back, in
-- order.
def CacheRun.Keeps (pend : List EnvFrame) (s : CacheRun) : Prop :=
  ∃ done, pend ++ s.appended = done ++ s.cache.readBack ∧ s.sent = done.map retryBytes

namespace CacheWriter

variable {c c' : CacheWriter} {fd : CacheFd} {f g : EnvFrame} {l : List EnvFrame}
  {written : Option Nat} {op : CursorOp}

-- The offset is behind the frames that are read back, and one more frame there will be read back.
structure AtSlot (c : CacheWriter) (fd : CacheFd) : Prop where
  nonneg : 0 ≤ c.readCursor
  le     : c.readCursor < c.writeCursor + envFrameWireSize
  offset : fd.offset = c.readCursor.toNat + envFrameWireSize * c.readBack.length

-- The bytes of a frame that have been written are outside of those frames, or stood there before, and
-- complete no further one.
structure Harmless (c : CacheWriter) (fd : CacheFd) (f : EnvFrame) (n : Nat) : Prop where
  nonneg : 0 ≤ c.readCursor
  bytes  : ∀ i < n, c.readCursor.toNat ≤ fd.offset + i →
    fd.offset + i < c.readCursor.toNat + envFrameWireSize * c.readBack.length →
    (c.fs.content fd.node)[fd.offset + i]? = f.bytes[i]?
  length : c.slots = c.readBack.length ∨
    fd.offset + n < c.readCursor.toNat + envFrameWireSize * c.readBack.length + envFrameWireSize

-- An append that writes a whole frame does so behind the others, and one that writes a part of it does
-- no harm. A replay has a cursor to begin at, and saves it in another file.
def InPlace (c : CacheWriter) : CursorOp → Prop
  | .append f written => ∀ fd, c.cacheFd = some fd →
    written.getD 0 = 0 ∨ envFrameWireSize ≤ written.getD 0 ∧ c.AtSlot fd ∨
    written.getD 0 < envFrameWireSize ∧ c.Harmless fd f (written.getD 0)
  | .replay _ _ => ∀ fd, c.cacheFd = some fd → c.readCursor < c.writeCursor →
    0 ≤ c.readCursor ∧ fd.node ≠ c.fs.node (cursorPath cacheDat)

theorem records_readBack (h : c.cacheFd = some fd) (h₀ : 0 ≤ c.readCursor) :
    records c.readBack =
    readAt (c.fs.content fd.node) c.readCursor.toNat (envFrameWireSize * c.readBack.length) := by
  rw [readBack_of_nonneg h h₀, records_take_toFrames, readAt]

theorem length_readBack_le (h : c.cacheFd = some fd) (h₀ : 0 ≤ c.readCursor) (hb : c.readBack ≠ []) :
    c.readCursor.toNat + envFrameWireSize * c.readBack.length ≤ (c.fs.content fd.node).length := by
  have hl := congrArg List.length <| records_readBack h h₀
  have := List.length_pos_iff.mpr hb
  rw [records_length, length_readAt] at hl
  simp only [envFrameWireSize] at *
  omega

theorem slots_cases (h : c.cacheFd = some fd) (h₀ : 0 ≤ c.readCursor) :
    c.slots = c.readBack.length ∨ c.readBack.length ≤ c.slots ∧
      (c.fs.content fd.node).length <
        c.readCursor.toNat + envFrameWireSize * c.readBack.length + envFrameWireSize := by
  have hl := congrArg List.length <| readBack_of_nonneg h h₀
  rw [List.length_take, toFrames_length, List.length_drop] at hl
  simp only [envFrameWireSize] at *
  omega

theorem readBack_of_records (h : c.cacheFd = some fd) (h₀ : 0 ≤ c.readCursor)
    (hc : readAt (c.fs.content fd.node) c.readCursor.toNat (envFrameWireSize * l.length) = records l)
    (hs : c.slots = l.length ∨ l.length ≤ c.slots ∧ (c.fs.content fd.node).length <
      c.readCursor.toNat + envFrameWireSize * l.length + envFrameWireSize) : c.readBack = l := by
  rw [readAt] at hc
  rw [readBack_of_nonneg h h₀, ← List.take_append_drop (envFrameWireSize * l.length)
    ((c.fs.content fd.node).drop c.readCursor.toNat), hc, toFrames_records_append]
  cases hs
  case inl hs => rw [hs, List.take_left' rfl]
  case inr hs =>
    have ht : (((c.fs.content fd.node).drop c.readCursor.toNat).drop
        (envFrameWireSize * l.length)).length < envFrameWireSize := by
      simp only [List.length_drop, envFrameWireSize] at *
      omega
    rw [toFrames_of_lt ht, List.append_nil, List.take_of_length_le hs.left]

-- The cache stands for the frames that are read back, and an append adds to them.
structure AtEnd (c : CacheWriter) (fd : CacheFd) (l : List EnvFrame) : Prop where
  cacheFd : c.cacheFd = some fd
  nonneg  : 0 ≤ c.readCursor
  le      : c.readCursor < c.writeCursor + envFrameWireSize
  offset  : fd.offset = c.readCursor.toNat + envFrameWireSize * l.length
  content : readAt (c.fs.content fd.node) c.readCursor.toNat (envFrameWireSize * l.length) = records l
  slots   : c.slots = l.length ∨
    l.length ≤ c.slots ∧ (c.fs.content fd.node).length < fd.offset + envFrameWireSize

theorem AtEnd.readBack_eq (h : c.AtEnd fd l) : c.readBack = l :=
  readBack_of_records h.cacheFd h.nonneg h.content <| h.offset ▸ h.slots

theorem Holds.atEnd {done : List EnvFrame} (h : c.Holds fd done l) (ho : fd.offset = c.writeCursor) :
    c.AtEnd fd l := by
  have hr := h.readCursor_toNat
  have hw := h.write
  rw [hw] at ho
  refine ⟨h.cacheFd, ?_, ?_, ?_, ?_, .inl ?_⟩
  · rw [h.read]
    simp only [envFrameWireSize]
    omega
  · rw [h.read, hw]
    simp only [envFrameWireSize]
    omega
  · rw [hr, records_length]
    simp only [envFrameWireSize] at *
    omega
  · rw [← records_length, h.readAt_pending]
  · rw [CacheWriter.slots, h.read, hw]
    simp only [envFrameWireSize]
    omega

theorem slots_append (h : c.readCursor < c.writeCursor + envFrameWireSize)
    (hr : c'.readCursor = c.readCursor) (hw : c'.writeCursor = c.writeCursor + envFrameWireSize) :
    c'.slots = c.slots + 1 := by
  rw [slots, slots, hr, hw]
  simp only [envFrameWireSize] at *
  omega

theorem AtEnd.append (h : c.AtEnd fd l) (g : EnvFrame) :
    (c.cacheWriterAppend g (some envFrameWireSize)).snd.AtEnd
      { fd with offset := fd.offset + envFrameWireSize } (l ++ [g]) := by
  have hl : (l ++ [g]).length = l.length + 1 := by simp
  have ho := h.offset
  have hc := congrArg List.length h.content
  rw [length_readAt, records_length] at hc
  have hn : (c.cacheWriterAppend g (some envFrameWireSize)).snd.slots = c.slots + 1 := by
    rw [cacheWriterAppend_of_cacheFd h.cacheFd]
    exact slots_append h.le rfl rfl
  rw [cacheWriterAppend_of_cacheFd h.cacheFd] at hn ⊢
  refine ⟨rfl, h.nonneg, ?_, ?_, ?_, ?_⟩
  · have := h.le
    simp only [envFrameWireSize] at *
    omega
  · simp only [hl, ho, Nat.mul_succ, Nat.add_assoc]
  · have h₁ : readAt (writeAt (c.fs.content fd.node) fd.offset g.bytes) c.readCursor.toNat
        (envFrameWireSize * l.length) = records l := by
      by_cases hz : envFrameWireSize * l.length = 0
      case pos => rw [← h.content, hz]; rfl
      case neg => rw [← h.content, readAt_writeAt_of_le ho.ge (by omega)]
    have h₂ := readAt_writeAt (c.fs.content fd.node) g.bytes fd.offset
    rw [EnvFrame.bytes_length] at h₂
    simp only [FileSystem.content_store_self, hl]
    rw [Nat.mul_succ, readAt_add, h₁, ← ho, h₂, records_append]
    simp [records]
  · rw [hn, hl]
    simp only [FileSystem.content_store_self, length_writeAt, EnvFrame.bytes_length]
    cases h.slots
    case inl hs => exact .inl <| congrArg (· + 1) hs
    case inr hs =>
      refine .inr ⟨Nat.succ_le_succ hs.left, ?_⟩
      simp only [envFrameWireSize] at *
      omega

theorem AtSlot.atEnd (h : c.AtSlot fd) (hf : c.cacheFd = some fd) : c.AtEnd fd c.readBack :=
  ⟨hf, h.nonneg, h.le, h.offset, (records_readBack hf h.nonneg).symm,
    h.offset ▸ slots_cases hf h.nonneg⟩

theorem inPlace_of_zero (h : written.getD 0 = 0) : c.InPlace (.append f written) :=
  fun _ _ => .inl h

theorem Holds.inPlace_append {done : List EnvFrame} (h : c.Holds fd done l)
    (ho : fd.offset = c.writeCursor) : c.InPlace (.append f (some envFrameWireSize)) := by
  intro fd' hf
  obtain rfl := Option.some.inj (h.cacheFd.symm.trans hf)
  have ha := h.atEnd ho
  exact .inr <| .inl ⟨Nat.le_refl _, ha.nonneg, ha.le, ha.readBack_eq ▸ ha.offset⟩

theorem Holds.inPlace_replay {done : List EnvFrame} (h : c.Holds fd done l) (sends : List IotStatus)
    (saves : List SaveOutcome) : c.InPlace (.replay sends saves) := by
  intro fd' hf _
  obtain rfl := Option.some.inj (h.cacheFd.symm.trans hf)
  refine ⟨?_, h.apart⟩
  rw [h.read]
  exact Int.mul_nonneg (Int.natCast_nonneg _) (Int.natCast_nonneg _)

theorem Harmless.records_eq {n : Nat} (h : c.Harmless fd f n) (hf : c.cacheFd = some fd)
    (hl : (f.bytes.take n).length = n) :
    readAt (writeAt (c.fs.content fd.node) fd.offset (f.bytes.take n)) c.readCursor.toNat
      (envFrameWireSize * c.readBack.length) = records c.readBack := by
  rw [records_readBack hf h.nonneg]
  refine List.ext_getElem? fun i => ?_
  rw [getElem?_readAt, getElem?_readAt, getElem?_writeAt, hl]
  by_cases hi : i < envFrameWireSize * c.readBack.length
  case neg => rw [if_neg hi, if_neg hi]
  case pos =>
    have hb : c.readBack ≠ [] := fun hb => by simp [hb] at hi
    have := length_readBack_le hf h.nonneg hb
    rw [if_pos hi, if_pos hi]
    split
    case isTrue => rw [List.getElem?_eq_getElem (by omega), Option.getD_some]
    case isFalse ho =>
      split
      case isFalse => rfl
      case isTrue hn =>
        have he : fd.offset + (c.readCursor.toNat + i - fd.offset) = c.readCursor.toNat + i := by omega
        have hi := h.bytes (c.readCursor.toNat + i - fd.offset) (by omega) (by omega) (by omega)
        rw [he] at hi
        rw [List.getElem?_take_of_lt (by omega), hi]

theorem Harmless.readBack_eq {n : Nat} (h : c.Harmless fd f n) (hf : c.cacheFd = some fd)
    (hn : n < envFrameWireSize) : (c.write (f.bytes.take n)).readBack = c.readBack := by
  by_cases hb : f.bytes.take n = []
  case pos => rw [hb, write_nil]
  case neg =>
    have hl : (f.bytes.take n).length = n := by
      rw [List.length_take, EnvFrame.bytes_length]
      omega
    have hr := h.records_eq hf hl
    have hs := slots_cases hf h.nonneg
    have hh := h.length
    rw [write_of_cacheFd hf hb, hl]
    refine readBack_of_records rfl h.nonneg (by rwa [FileSystem.content_store_self]) ?_
    rw [FileSystem.content_store_self, length_writeAt, hl]
    simp only [slots] at *
    omega

theorem append_of_zero (hf : c.cacheFd = some fd) (f : EnvFrame) (written : Option Nat)
    (hw : written.getD 0 = 0) : c.cacheWriterAppend f written = (.errIo, c) := by
  cases written
  case none   => simp [cacheWriterAppend, hf]
  case some n =>
    obtain rfl : n = 0 := hw
    simp [cacheWriterAppend, hf, write_nil, envFrameWireSize]

theorem append_of_short {n : Nat} (hf : c.cacheFd = some fd) (hn : n < envFrameWireSize)
    (f : EnvFrame) : c.cacheWriterAppend f (some n) = (.errIo, c.write (f.bytes.take n)) := by
  simp [cacheWriterAppend, hf, hn]

theorem InPlace.append (h : c.InPlace (.append f written)) :
    (c.cacheWriterAppend f written).snd.readBack =
    c.readBack ++ if (c.cacheWriterAppend f written).fst = .ok then [f] else [] := by
  cases hf : c.cacheFd
  case none => simp [cacheWriterAppend, hf]
  case some fd =>
    rcases h fd hf with hw | ⟨hn, ha⟩ | ⟨hn, hh⟩ <;> cases written
    case inr.inl.none => exact absurd hn (by decide)
    case inr.inl.some n =>
      have hn : envFrameWireSize ≤ n := hn
      have hb := ((ha.atEnd hf).append f).readBack_eq
      rw [cacheWriterAppend_complete hf hn, hb, cacheWriterAppend_of_cacheFd hf]
      rfl
    case inr.inr.some n =>
      have hn : n < envFrameWireSize := hn
      have hb : (c.write (f.bytes.take n)).readBack = c.readBack := hh.readBack_eq hf hn
      simp [append_of_short hf hn, hb]
    case inl.none | inl.some | inr.inr.none => simp [append_of_zero hf, *]

theorem readBack_replay (hf : c.cacheFd = some fd) (h₀ : 0 ≤ c.readCursor)
    (ha : fd.node ≠ c.fs.node (cursorPath cacheDat)) (sends : List IotStatus)
    (saves : List SaveOutcome) :
    (cacheReplayStart wireIo c { sends, saves, log := [] }).snd.fst.readBack =
    c.readBack.drop (leadingOks sends) := by
  have hs := cacheReplayStart_sent (fun fd' hd => Option.some.inj (hf.symm.trans hd) ▸ ha) sends saves
  have hk := c.keepsBut_replay { sends, saves, log := [] }
  obtain ⟨n, hr, hw, hl, -⟩ := cacheReplayStart_cursors c { sends, saves, log := [] }
  rw [hs] at hl
  simp only [Wire.sent, List.filter_nil, List.map_nil, List.length_nil, Nat.zero_add,
    List.length_map, List.length_take] at hl
  generalize (cacheReplayStart wireIo c { sends, saves, log := [] }).snd.fst = c' at hk hr hw
  obtain ⟨fd', hf', hn⟩ := Option.map_eq_some_iff.mp <| hk.cacheFd.trans <| congrArg _ hf
  have hc : c'.fs.content fd'.node = c.fs.content fd.node := hn ▸ hk.content _ (hn ▸ ha)
  have hb := readBack_of_nonneg hf h₀
  have hp : c'.readCursor.toNat = c.readCursor.toNat + envFrameWireSize * n := by
    rw [hr]
    simp only [envFrameWireSize]
    omega
  have hle : c.readBack.length ≤ c.slots := by
    rw [hb, List.length_take]
    exact Nat.min_le_left ..
  have hsl : c'.slots = c.slots - n := by
    simp only [slots, hr, hw, envFrameWireSize] at *
    omega
  have hd : c.readBack.drop (leadingOks sends) = c.readBack.drop n := hl ▸ List.drop_eq_drop_min
  rw [readBack_of_nonneg hf' (by omega), hc, hp, ← List.drop_drop, toFrames_drop, hsl, hd, hb,
    List.drop_take]

end CacheWriter

variable {pend : List EnvFrame} {s s' : CacheRun} {op : CursorOp}

theorem historyStep_keeps (h : s.Keeps pend) (ho : s.cache.InPlace op)
    (hs : historyStep s op = some s') : s'.Keeps pend := by
  obtain ⟨done, ha, hd⟩ := h
  cases op <;> obtain rfl := Option.some.inj hs
  case append f written =>
    refine ⟨done, ?_, hd⟩
    simp only [ho.append, ← List.append_assoc, ← ha]
    split <;> simp
  case replay sends saves =>
    by_cases hp : s.cache.cacheFd.isNone ∨ s.cache.readCursor ≥ s.cache.writeCursor
    case pos =>
      have hr : cacheReplayStart wireIo s.cache { sends, saves, log := [] } = _ := if_pos hp
      exact ⟨done, by rw [hr, ha], by simp [hr, hd, Wire.sent]⟩
    case neg =>
      simp only [not_or, ge_iff_le, Int.not_le, Bool.not_eq_true, Option.isNone_eq_false_iff] at hp
      obtain ⟨fd, hf⟩ := Option.isSome_iff_exists.mp hp.left
      obtain ⟨h₀, hn⟩ := ho fd hf hp.right
      refine ⟨done ++ s.cache.readBack.take (leadingOks sends), ?_, ?_⟩
      · simp only [readBack_replay hf h₀ hn, List.append_assoc, List.take_append_drop, ha]
      · have ha : s.cache.Apart := fun fd' hd => Option.some.inj (hf.symm.trans hd) ▸ hn
        simp only [cacheReplayStart_sent ha, hd, List.map_append]

end IotCollector
