import IotCollector.Egress.ReadBack

namespace IotCollector

open Posix

@[simp]
theorem records_append (l₁ l₂ : List EnvFrame) : records (l₁ ++ l₂) = records l₁ ++ records l₂ :=
  List.flatMap_append

@[simp]
theorem records_cons (f : EnvFrame) (l : List EnvFrame) : records (f :: l) = f.bytes ++ records l :=
  List.flatMap_cons

theorem records_length (l : List EnvFrame) : (records l).length = envFrameWireSize * l.length := by
  induction l
  case nil => rfl
  case cons f l hi => rw [records_cons, List.length_append, EnvFrame.bytes_length, hi,
    List.length_cons, Nat.mul_succ, Nat.add_comm]

theorem toFrames_length (b : List UInt8) : (toFrames b).length = b.length / envFrameWireSize := by
  induction b using toFrames.induct
  case case1 b h hi =>
    rw [toFrames, if_pos h, List.length_cons, hi, List.length_drop,
      Nat.div_eq_sub_div (by decide) h]
  case case2 b h =>
    rw [toFrames, if_neg h, Nat.div_eq_of_lt (Nat.not_le.mp h)]
    rfl

theorem toFrames_records (l : List EnvFrame) : toFrames (records l) = l := by
  induction l
  case nil => rw [toFrames]; rfl
  case cons f l hi =>
    rw [toFrames, if_pos (by simp [records_cons]), records_cons, EnvFrame.ofBytes_bytes_append,
      List.drop_left' (EnvFrame.bytes_length f), hi]

-- What a replay does to the pending frames, without a file: they are sent in order until one fails.
def drain {σ : Type*} (io : ReplayIo σ) : σ → List EnvFrame → List EnvFrame × σ
  | s, []      => ([], s)
  | s, f :: fs =>
    let sent := io.send s (markRetry f).bytes
    if sent.fst ≠ .ok then
      ([], sent.snd)
    else
      let r := drain io (io.save sent.snd).snd fs
      (f :: r.fst, r.snd)

namespace CacheWriter

variable {σ : Type*} {io : ReplayIo σ} {c : CacheWriter} {fd : CacheFd}
variable {f : EnvFrame} {done pend : List EnvFrame} {n : Nat}

def stored (c : CacheWriter) : List EnvFrame :=
  match c.cacheFd with
  | none    => []
  | some fd =>
    toFrames <| readAt (c.fs.content fd.node) c.readCursor.toNat
      (c.writeCursor - c.readCursor).toNat

theorem length_stored (h : c.cacheFd = some fd) :
    c.stored.length = min (c.writeCursor - c.readCursor).toNat
      ((c.fs.content fd.node).length - c.readCursor.toNat) / envFrameWireSize := by
  simp only [stored, h, toFrames_length, length_readAt]

-- The cache stands for the frames it has sent and the frames it has yet to send.
structure Holds (c : CacheWriter) (fd : CacheFd) (done pend : List EnvFrame) : Prop where
  cacheFd : c.cacheFd = some fd
  content : c.fs.content fd.node = records (done ++ pend)
  apart   : fd.node ≠ c.fs.node (cursorPath cacheDat)
  read    : c.readCursor = envFrameWireSize * done.length
  write   : c.writeCursor = envFrameWireSize * (done.length + pend.length)

theorem Holds.readCursor_toNat (h : c.Holds fd done pend) :
    c.readCursor.toNat = (records done).length := by
  rw [records_length, h.read]
  omega

theorem Holds.readAt_pending (h : c.Holds fd done pend) :
    readAt (c.fs.content fd.node) c.readCursor.toNat (records pend).length = records pend := by
  have ha := readAt_append (records done) (records pend) []
  rwa [List.append_nil, ← records_append, ← h.content, ← h.readCursor_toNat] at ha

theorem Holds.stored_eq (h : c.Holds fd done pend) : c.stored = pend := by
  have hw : (c.writeCursor - c.readCursor).toNat = (records pend).length := by
    rw [records_length, h.read, h.write]
    simp only [envFrameWireSize]
    omega
  simp only [stored, h.cacheFd, hw, h.readAt_pending, toFrames_records]

theorem saveCursor_content (path : Path) (o : SaveOutcome) (h : n ≠ c.fs.node (cursorPath path)) :
    (c.saveCursor path o).snd.fs.content n = c.fs.content n := by
  cases o <;> simp [saveCursor, FileSystem.content_store_of_ne h]

theorem saveCursor_node (path : Path) (o : SaveOutcome) :
    (c.saveCursor path o).snd.fs.node = c.fs.node := by
  cases o <;> rfl

theorem Holds.seek (h : c.Holds fd done pend) (n : Nat) :
    { c with cacheFd := some { fd with offset := n } }.Holds { fd with offset := n } done pend :=
  ⟨rfl, h.content, h.apart, h.read, h.write⟩

theorem Holds.advance (h : c.Holds fd done (f :: pend)) (o : SaveOutcome) :
    ({ c with readCursor := c.readCursor + envFrameWireSize }.saveCursor cacheDat o).snd.Holds
      fd (done ++ [f]) pend := by
  have ⟨hr, hw, hc⟩ :=
    { c with readCursor := c.readCursor + envFrameWireSize }.saveCursor_cursors cacheDat o
  refine ⟨hc.trans h.cacheFd, ?_, by rw [saveCursor_node]; exact h.apart, ?_, ?_⟩
  · have hs := saveCursor_content (c := { c with readCursor := c.readCursor + envFrameWireSize })
      cacheDat o h.apart
    rw [hs, h.content, List.append_assoc]
    rfl
  · rw [hr, h.read, List.length_append, List.length_singleton]
    simp only [envFrameWireSize]
    omega
  · rw [hw, h.write, List.length_append, List.length_singleton, List.length_cons]
    simp only [envFrameWireSize]
    omega

theorem write_of_cacheFd {b : List UInt8} (h : c.cacheFd = some fd) (hb : b ≠ []) :
    c.write b =
    { c with
      fs      := c.fs.store fd.node (writeAt (c.fs.content fd.node) fd.offset b)
      cacheFd := some { fd with offset := fd.offset + b.length } } := by
  simp only [CacheWriter.write, h, hb, if_false]

theorem write_nil : c.write [] = c := by
  unfold CacheWriter.write
  split <;> simp

theorem write_cursors (b : List UInt8) :
    (c.write b).readCursor = c.readCursor ∧ (c.write b).writeCursor = c.writeCursor := by
  unfold CacheWriter.write
  split
  case h_1 => exact ⟨rfl, rfl⟩
  case h_2 => split <;> exact ⟨rfl, rfl⟩

theorem cacheWriterAppend_of_cacheFd (h : c.cacheFd = some fd) (f : EnvFrame) :
    c.cacheWriterAppend f (some envFrameWireSize) =
    (.ok, { c with
      fs          := c.fs.store fd.node (writeAt (c.fs.content fd.node) fd.offset f.bytes)
      cacheFd     := some { fd with offset := fd.offset + envFrameWireSize }
      writeCursor := c.writeCursor + envFrameWireSize }) := by
  have ht : f.bytes.take envFrameWireSize = f.bytes :=
    List.take_of_length_le <| Nat.le_of_eq f.bytes_length
  simp [cacheWriterAppend, h, ht, write_of_cacheFd h f.bytes_ne_nil]

theorem cacheWriterAppend_complete {n : Nat} (h : c.cacheFd = some fd) (hn : envFrameWireSize ≤ n)
    (f : EnvFrame) : c.cacheWriterAppend f (some n) = c.cacheWriterAppend f (some envFrameWireSize) := by
  have ht : f.bytes.take n = f.bytes.take envFrameWireSize := by
    rw [List.take_of_length_le (f.bytes_length.trans_le hn), List.take_of_length_le f.bytes_length.le]
  simp only [cacheWriterAppend, h, ht, Option.isNone_some, Bool.false_eq_true, if_false]

theorem cacheWriterAppend_incomplete {written : Option Nat}
    (h : ¬(c.cacheFd.isSome ∧ ∃ n, written = some n ∧ envFrameWireSize ≤ n)) :
    (c.cacheWriterAppend f written).fst = .errIo ∧
    (c.cacheWriterAppend f written).snd.readCursor = c.readCursor ∧
    (c.cacheWriterAppend f written).snd.writeCursor = c.writeCursor := by
  cases hc : c.cacheFd
  case none => simp [cacheWriterAppend, hc]
  case some fd =>
    cases written
    case none => simp [cacheWriterAppend, hc]
    case some n =>
      have hn : n < envFrameWireSize := by simpa [hc] using h
      simp [cacheWriterAppend, hc, hn, write_cursors]

theorem Holds.append (h : c.Holds fd done pend) (ho : fd.offset = c.writeCursor) :
    (c.cacheWriterAppend f (some envFrameWireSize)).snd.Holds
      { fd with offset := fd.offset + envFrameWireSize } done (pend ++ [f]) := by
  have hn : fd.offset = (records (done ++ pend)).length := by
    rw [h.write] at ho
    rw [records_length, List.length_append]
    exact_mod_cast ho
  rw [cacheWriterAppend_of_cacheFd h.cacheFd]
  refine ⟨rfl, ?_, h.apart, h.read, ?_⟩
  · rw [FileSystem.content_store_self, h.content, hn, writeAt_length, ← List.append_assoc,
      records_append (done ++ pend)]
    simp [records]
  · simp only [h.write, List.length_append, List.length_singleton, envFrameWireSize]
    omega

theorem Holds.readAt (h : c.Holds fd done (f :: pend)) :
    readAt (c.fs.content fd.node) (envFrameWireSize * done.length) envFrameWireSize = f.bytes := by
  rw [h.content, records_append, records_cons, ← List.append_assoc, ← records_length]
  exact readAt_append _ f.bytes _

theorem replayLoop_of_record (h : c.cacheFd = some fd) (hp : c.readCursor < c.writeCursor)
    (hr : Posix.readAt (c.fs.content fd.node) fd.offset envFrameWireSize = f.bytes) (s : σ) :
    replayLoop io c s =
    let c    := { c with cacheFd := some { fd with offset := fd.offset + envFrameWireSize } }
    let sent := io.send s (markRetry f).bytes
    if sent.fst ≠ .ok then
      (c, sent.snd)
    else
      let c := { c with readCursor := c.readCursor + envFrameWireSize }
      replayLoop io (c.saveCursor cacheDat (io.save sent.snd).fst).snd (io.save sent.snd).snd := by
  rw [replayLoop, if_pos hp]
  simp only [CacheWriter.read, h, hr, EnvFrame.bytes_length, EnvFrame.ofBytes_bytes, ne_eq,
    not_true_eq_false, if_false]

-- The loop on the file does what the abstract replay does. It leaves the offset at some record.
theorem replayLoop_holds (h : c.Holds fd done pend)
    (ho : fd.offset = envFrameWireSize * done.length) (s : σ) :
    ∃ fd' rest k, pend = (drain io s pend).fst ++ rest ∧
      (replayLoop io c s).fst.Holds fd' (done ++ (drain io s pend).fst) rest ∧
      fd'.offset = envFrameWireSize * k ∧ k ≤ done.length + pend.length ∧
      (replayLoop io c s).snd = (drain io s pend).snd := by
  induction pend generalizing c fd done s
  case nil =>
    have hn : ¬c.readCursor < c.writeCursor := by simp [h.read, h.write]
    rw [replayLoop, if_neg hn]
    exact ⟨fd, [], done.length, by simp [drain], by simpa [drain] using h, ho, by simp, rfl⟩
  case cons f pend hi =>
    have hp : c.readCursor < c.writeCursor := by
      rw [h.read, h.write, List.length_cons]
      simp only [envFrameWireSize]
      omega
    have ho' : fd.offset + envFrameWireSize = envFrameWireSize * (done.length + 1) := by
      rw [ho, Nat.mul_succ]
    have hs := h.seek (fd.offset + envFrameWireSize)
    rw [replayLoop_of_record h.cacheFd hp (ho ▸ h.readAt), drain]
    by_cases hf : (io.send s (markRetry f).bytes).fst = .ok
    case neg =>
      simp only [ne_eq, hf, not_false_eq_true, if_true]
      exact ⟨_, f :: pend, done.length + 1, rfl, by simpa using hs, ho', by simp, trivial⟩
    case pos =>
      simp only [ne_eq, hf, not_true_eq_false, if_false]
      obtain ⟨fd', rest, k, h₁, h₂, h₃, h₄, h₅⟩ :=
        hi (hs.advance (io.save (io.send s (markRetry f).bytes).snd).fst) (by simpa using ho')
          (io.save (io.send s (markRetry f).bytes).snd).snd
      refine ⟨fd', rest, k, congrArg _ h₁, by simpa using h₂, h₃, ?_, h₅⟩
      simp only [List.length_append, List.length_cons, List.length_nil] at h₄ ⊢
      omega

theorem cacheReplayStart_of_pending (h : c.cacheFd = some fd) (h₀ : 0 ≤ c.readCursor)
    (hp : c.readCursor < c.writeCursor) (s : σ) :
    cacheReplayStart io c s =
    (.ok, replayLoop io
      { c with cacheFd := some { fd with offset := c.readCursor.toNat } } s) := by
  have hn : ¬(c.cacheFd.isNone ∨ c.readCursor ≥ c.writeCursor) := by simp [h, hp]
  rw [cacheReplayStart, if_neg hn, lseek, if_neg (Int.not_lt.mpr h₀), h]
  rfl

theorem Holds.pending (h : c.Holds fd done (f :: pend)) :
    0 ≤ c.readCursor ∧ c.readCursor < c.writeCursor ∧
    c.readCursor.toNat = envFrameWireSize * done.length := by
  rw [h.read, h.write, List.length_cons]
  simp only [envFrameWireSize]
  omega

theorem cacheReplayStart_holds (io : ReplayIo σ) (h : c.Holds fd done pend) {k : Nat}
    (ho : fd.offset = envFrameWireSize * k) (hk : k ≤ done.length + pend.length) (s : σ) :
    ∃ fd' rest k', pend = (drain io s pend).fst ++ rest ∧
      (cacheReplayStart io c s).snd.fst.Holds fd' (done ++ (drain io s pend).fst) rest ∧
      fd'.offset = envFrameWireSize * k' ∧ k' ≤ done.length + pend.length ∧
      (cacheReplayStart io c s).snd.snd = (drain io s pend).snd := by
  cases pend
  case nil =>
    have hn : c.cacheFd.isNone ∨ c.readCursor ≥ c.writeCursor := by simp [h.read, h.write]
    rw [cacheReplayStart, if_pos hn]
    exact ⟨fd, [], k, rfl, by simpa [drain] using h, ho, hk, rfl⟩
  case cons f pend =>
    have ⟨h₀, hp, hr⟩ := h.pending
    rw [cacheReplayStart_of_pending h.cacheFd h₀ hp, hr]
    exact replayLoop_holds (h.seek _) rfl s

theorem cacheReplayStart_of_failed_send (io : ReplayIo σ) (s : σ)
    (h : c.Holds fd done (f :: pend))
    (hs : (io.send s (markRetry f).bytes).fst ≠ .ok) :
    (cacheReplayStart io c s).snd.fst =
    { c with cacheFd := some { fd with offset := envFrameWireSize * (done.length + 1) } } := by
  have ⟨h₀, hp, hr⟩ := h.pending
  rw [cacheReplayStart_of_pending h.cacheFd h₀ hp, hr]
  simp only [replayLoop_of_record (h.seek _).cacheFd hp h.readAt, if_pos hs, Nat.mul_succ]

-- The bytes at the place of a record, counted from the read cursor.
def recordAt (c : CacheWriter) (fd : CacheFd) (i : Nat) : List UInt8 :=
  Posix.readAt (c.fs.content fd.node) (c.readCursor.toNat + envFrameWireSize * i) envFrameWireSize

structure Replaying (c : CacheWriter) (fd : CacheFd) : Prop where
  cacheFd : c.cacheFd = some fd
  nonneg  : 0 ≤ c.readCursor
  offset  : fd.offset = c.readCursor.toNat
  apart   : fd.node ≠ c.fs.node (cursorPath cacheDat)

def sentOne (c : CacheWriter) (fd : CacheFd) (o : SaveOutcome) : CacheWriter :=
  ({ c with
     cacheFd    := some { fd with offset := fd.offset + envFrameWireSize }
     readCursor := c.readCursor + envFrameWireSize }.saveCursor cacheDat o).snd

variable {o : SaveOutcome}

theorem sentOne_cursors (c : CacheWriter) (fd : CacheFd) (o : SaveOutcome) :
    (c.sentOne fd o).readCursor = c.readCursor + envFrameWireSize ∧
    (c.sentOne fd o).writeCursor = c.writeCursor ∧
    (c.sentOne fd o).cacheFd = some { fd with offset := fd.offset + envFrameWireSize } :=
  saveCursor_cursors ..

theorem Replaying.sentOne (h : c.Replaying fd) :
    (c.sentOne fd o).Replaying { fd with offset := fd.offset + envFrameWireSize } := by
  have ⟨hr, _, hf⟩ := c.sentOne_cursors fd o
  have := h.nonneg
  have := h.offset
  refine ⟨hf, ?_, ?_, ?_⟩
  · rw [hr]
    omega
  · simp only [hr, envFrameWireSize]
    omega
  · rw [CacheWriter.sentOne, saveCursor_node]
    exact h.apart

theorem Replaying.recordAt_sentOne (h : c.Replaying fd) (i : Nat) :
    (c.sentOne fd o).recordAt { fd with offset := fd.offset + envFrameWireSize } i =
    c.recordAt fd (i + 1) := by
  have hs : (c.sentOne fd o).fs.content fd.node = c.fs.content fd.node :=
    saveCursor_content cacheDat o h.apart
  have hn : (c.readCursor + envFrameWireSize).toNat + envFrameWireSize * i =
      c.readCursor.toNat + envFrameWireSize * (i + 1) := by
    have := h.nonneg
    simp only [envFrameWireSize]
    omega
  rw [recordAt, recordAt, (c.sentOne_cursors ..).left, hs, hn]

theorem Replaying.read_eq (h : c.Replaying fd) :
    Posix.readAt (c.fs.content fd.node) fd.offset envFrameWireSize = c.recordAt fd 0 := by
  rw [recordAt, Nat.mul_zero, Nat.add_zero, h.offset]

theorem Replaying.read_bytes (h : c.Replaying fd)
    (hl : (c.recordAt fd 0).length = envFrameWireSize) :
    Posix.readAt (c.fs.content fd.node) fd.offset envFrameWireSize =
    (EnvFrame.ofBytes (c.recordAt fd 0)).bytes := by
  rw [h.read_eq, EnvFrame.bytes_ofBytes hl.ge, List.take_of_length_le hl.le]

end CacheWriter
end IotCollector
