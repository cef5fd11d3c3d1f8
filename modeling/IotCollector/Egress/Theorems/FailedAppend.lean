import IotCollector.Egress.Theorems.History

namespace IotCollector

open Posix CacheWriter

-- Appends of a frame, each with what `write` returns. Those that fail write nothing.
def appendStep : Transition CacheWriter (EnvFrame × Option Nat)
  | c, op =>
    let r := c.cacheWriterAppend op.fst op.snd
    if r.fst = .ok ∨ op.snd.getD 0 = 0 then some r.snd else none

def appended (ops : List (EnvFrame × Option Nat)) : List EnvFrame :=
  (ops.filter (envFrameWireSize ≤ ·.snd.getD 0)).map Prod.fst

namespace CacheWriter

variable {c c' : CacheWriter} {fd : CacheFd} {f g : EnvFrame} {l : List EnvFrame}
  {written : Option Nat} {op : EnvFrame × Option Nat} {ops : List (EnvFrame × Option Nat)}

-- After the append of a frame, what was pending is read back, and the frames that are appended after
-- it.
def LeavesAsItWas (c : CacheWriter) (f : EnvFrame) (written : Option Nat) : Prop :=
  ∀ ops c', appendStep.exec (c.cacheWriterAppend f written).snd ops = some c' →
    c'.readBack = c.readBack ++ appended ops

-- The offset comes to stand behind what is pending, and the bytes that have been written on the way
-- stood there before.
structure Undisturbed (c : CacheWriter) (fd : CacheFd) (f : EnvFrame) (n : Nat) : Prop where
  nonneg : 0 ≤ c.readCursor
  le     : c.readCursor < c.writeCursor + envFrameWireSize
  offset : fd.offset + n = c.readCursor.toNat + envFrameWireSize * c.readBack.length
  bytes  : c.readBack = [] ∨ readAt (c.fs.content fd.node) fd.offset n = f.bytes.take n

structure Failed (c c' : CacheWriter) (fd : CacheFd) (d : List UInt8) : Prop where
  cacheFd : c'.cacheFd = some { fd with offset := fd.offset + d.length }
  read    : c'.readCursor = c.readCursor
  write   : c'.writeCursor = c.writeCursor
  front   : ∀ p n, p + n ≤ fd.offset → p + n ≤ (c.fs.content fd.node).length →
    readAt (c'.fs.content fd.node) p n = readAt (c.fs.content fd.node) p n
  written : readAt (c'.fs.content fd.node) fd.offset d.length = d
  length  : (c'.fs.content fd.node).length ≤
    max (c.fs.content fd.node).length (fd.offset + d.length)

theorem length_take_bytes_le {n : Nat} : (f.bytes.take n).length ≤ envFrameWireSize :=
  f.bytes_length ▸ List.length_take_le' ..

theorem failed (h : c.cacheFd = some fd) (hw : (c.cacheWriterAppend f written).fst ≠ .ok) :
    Failed c (c.cacheWriterAppend f written).snd fd (f.bytes.take (written.getD 0)) ∧
    (f.bytes.take (written.getD 0)).length = written.getD 0 := by
  cases written
  case none =>
    have hc : (c.cacheWriterAppend f none).snd = c := by simp [cacheWriterAppend, h]
    rw [hc]
    exact ⟨⟨h, rfl, rfl, fun _ _ _ _ => rfl, rfl, Nat.le_max_left ..⟩, rfl⟩
  case some n =>
    by_cases hn : envFrameWireSize ≤ n
    case pos =>
      rw [cacheWriterAppend_complete h hn, cacheWriterAppend_of_cacheFd h] at hw
      exact absurd rfl hw
    case neg =>
      have hl : (f.bytes.take n).length = n := by
        rw [List.length_take, EnvFrame.bytes_length]
        omega
      have hc : (c.cacheWriterAppend f (some n)).snd = c.write (f.bytes.take n) := by
        simp [cacheWriterAppend, h, Nat.not_le.mp hn]
      rw [hc, Option.getD_some]
      by_cases hb : f.bytes.take n = []
      case pos =>
        rw [hb] at hl ⊢
        rw [write_nil]
        exact ⟨⟨h, rfl, rfl, fun _ _ _ _ => rfl, rfl, Nat.le_max_left ..⟩, hl⟩
      case neg =>
        rw [write_of_cacheFd h hb]
        refine ⟨⟨rfl, rfl, rfl, fun p k hp hk => ?_, ?_, ?_⟩, hl⟩ <;>
        simp only [FileSystem.content_store_self]
        · rw [readAt_writeAt_of_le hp hk]
        · rw [readAt_writeAt]
        · rw [length_writeAt]

variable {d : List UInt8}

theorem readAt_pending (b : List UInt8) {p o k n : Nat} (h : o + n = p + k) (ho : p ≤ o) :
    readAt b p k = readAt b p (o - p) ++ readAt b o n := by
  have hk : k = o - p + n := by omega
  rw [hk, readAt_add, Nat.add_sub_cancel' ho]

theorem Failed.pending_iff (hf : Failed c c' fd d) (h : c.cacheFd = some fd) (h₀ : 0 ≤ c.readCursor)
    (hd : d.length ≤ envFrameWireSize)
    (ho : fd.offset + d.length = c.readCursor.toNat + envFrameWireSize * c.readBack.length)
    (hb : c.readBack ≠ []) :
    readAt (c'.fs.content fd.node) c.readCursor.toNat (envFrameWireSize * c.readBack.length) =
      records c.readBack ↔
    readAt (c.fs.content fd.node) fd.offset d.length = d := by
  have := length_readBack_le h h₀ hb
  have := List.length_pos_iff.mpr hb
  have hr : c.readCursor.toNat ≤ fd.offset := by
    simp only [envFrameWireSize] at *
    omega
  rw [records_readBack h h₀, readAt_pending _ ho hr, readAt_pending _ ho hr, hf.written,
    hf.front _ _ (by omega) (by omega), List.append_right_inj, eq_comm]

theorem Undisturbed.atEnd (hu : c.Undisturbed fd f d.length) (h : c.cacheFd = some fd)
    (hd : d = f.bytes.take d.length) (hf : Failed c c' fd d) :
    c'.AtEnd { fd with offset := fd.offset + d.length } c.readBack := by
  have ho := hu.offset
  have hs : c'.slots = c.slots := by rw [slots, slots, hf.read, hf.write]
  refine ⟨hf.cacheFd, hf.read ▸ hu.nonneg, hf.read ▸ hf.write ▸ hu.le, hf.read ▸ ho, ?_, ?_⟩
  · rw [hf.read]
    by_cases he : c.readBack = []
    case pos => simp [he, readAt, records]
    case neg =>
      have hl : d.length ≤ envFrameWireSize := hd ▸ length_take_bytes_le
      exact (hf.pending_iff h hu.nonneg hl ho he).mpr <| (hu.bytes.resolve_left he).trans hd.symm
  · rw [hs]
    refine (slots_cases h hu.nonneg).imp_right fun hl => ⟨hl.left, ?_⟩
    have := hf.length
    have := hl.right
    simp only [envFrameWireSize] at *
    omega

theorem AtEnd.undisturbed (h : c.AtEnd fd l) (f : EnvFrame) : c.Undisturbed fd f 0 :=
  ⟨h.nonneg, h.le, by rw [h.readBack_eq]; exact h.offset, .inr <| by simp [readAt]⟩

theorem appendStep_cases (hs : appendStep c op = some c') :
    (appended [op] = [op.fst] ∧ c' = (c.cacheWriterAppend op.fst (some envFrameWireSize)).snd) ∨
    (appended [op] = [] ∧ op.snd.getD 0 = 0 ∧ (c.cacheWriterAppend op.fst op.snd).fst ≠ .ok ∧
      c' = (c.cacheWriterAppend op.fst op.snd).snd) := by
  have ⟨ho, hc⟩ := Option.ite_none_right_eq_some.mp hs
  obtain rfl := Option.some.inj hc
  obtain ⟨f, written⟩ := op
  by_cases hn : c.cacheFd.isSome ∧ ∃ n, written = some n ∧ envFrameWireSize ≤ n
  case pos =>
    obtain ⟨hf, n, rfl, hn⟩ := hn
    obtain ⟨fd, hf⟩ := Option.isSome_iff_exists.mp hf
    exact .inl ⟨by simp [appended, hn], by rw [cacheWriterAppend_complete hf hn]⟩
  case neg =>
    have he := (cacheWriterAppend_incomplete (f := f) hn).left
    have hw : written.getD 0 = 0 := ho.resolve_left <| by simp [he]
    exact .inr ⟨by simp [appended, hw, envFrameWireSize], hw, by simp [he], rfl⟩

theorem AtEnd.exec (h : c.AtEnd fd l) (hs : appendStep.exec c ops = some c') :
    c'.readBack = l ++ appended ops := by
  induction ops generalizing c fd l
  case nil => simpa [appended] using Option.some.inj hs ▸ h.readBack_eq
  case cons op ops hi =>
    obtain ⟨c₁, hc, hs⟩ := Option.bind_eq_some_iff.mp hs
    have ha : appended (op :: ops) = appended [op] ++ appended ops := by
      simp [appended, List.filter_cons]
      split <;> simp
    rw [ha, ← List.append_assoc]
    cases appendStep_cases hc
    case inl hc =>
      rw [hc.left]
      exact hi (hc.right ▸ h.append op.fst) hs
    case inr hc =>
      obtain ⟨ho, hw, he, rfl⟩ := hc
      obtain ⟨hf, hl⟩ := failed h.cacheFd he
      have hu : c.Undisturbed fd op.fst (op.fst.bytes.take (op.snd.getD 0)).length := by
        rw [hl, hw]
        exact h.undisturbed _
      rw [ho, List.append_nil]
      exact hi (h.readBack_eq ▸ hu.atEnd h.cacheFd (by rw [hl]) hf) hs

def filled (x : UInt8) : EnvFrame :=
  .ofBytes <| List.replicate envFrameWireSize x

theorem filled_bytes (x : UInt8) : (filled x).bytes = List.replicate envFrameWireSize x := by
  rw [filled, EnvFrame.bytes_ofBytes (by simp), List.take_of_length_le (by simp)]

theorem exists_append (h : c.cacheFd = some fd) (g : EnvFrame) :
    ∃ c', appendStep.exec c [(g, some envFrameWireSize)] = some c' ∧
      c'.cacheFd = some { fd with offset := fd.offset + envFrameWireSize } ∧
      c'.readCursor = c.readCursor ∧ c'.writeCursor = c.writeCursor + envFrameWireSize ∧
      c'.fs.content fd.node = writeAt (c.fs.content fd.node) fd.offset g.bytes := by
  refine ⟨(c.cacheWriterAppend g (some envFrameWireSize)).snd, ?_⟩
  simp [appendStep, cacheWriterAppend_of_cacheFd h, FileSystem.content_store_self]

theorem readAt_of_readBack (h : c.cacheFd = some fd) (h₀ : 0 ≤ c.readCursor)
    (hb : c.readBack = l ++ [g]) :
    readAt (c.fs.content fd.node) (c.readCursor.toNat + envFrameWireSize * l.length)
      envFrameWireSize = g.bytes := by
  have hr := records_readBack h h₀
  have hl := length_readBack_le h h₀ (by simp [hb])
  rw [hb, List.length_append, List.length_singleton, Nat.mul_succ] at hl hr
  rw [records_append, readAt_add] at hr
  have ha := List.append_inj_right hr <| by
    rw [records_length, length_readAt]
    omega
  simpa [records] using ha.symm

section

variable (hp : c.LeavesAsItWas f written) (h : c.cacheFd = some fd)
variable (hf : Failed c (c.cacheWriterAppend f written).snd fd d)
include hp hf

theorem LeavesAsItWas.exists_readBack (g : EnvFrame) :
    ∃ c' : CacheWriter, c'.readBack = c.readBack ++ [g] ∧
      c'.cacheFd = some { fd with offset := fd.offset + d.length + envFrameWireSize } ∧
      c'.readCursor = c.readCursor ∧ c'.writeCursor = c.writeCursor + envFrameWireSize ∧
      c'.fs.content fd.node = writeAt ((c.cacheWriterAppend f written).snd.fs.content fd.node)
        (fd.offset + d.length) g.bytes := by
  obtain ⟨c', hs, h₁, h₂, h₃, h₄⟩ := exists_append hf.cacheFd g
  exact ⟨c', hp [(g, some envFrameWireSize)] c' hs, h₁, h₂.trans hf.read, hf.write ▸ h₃, h₄⟩

theorem LeavesAsItWas.nonneg : 0 ≤ c.readCursor := by
  by_contra hz
  let b := (c.cacheWriterAppend f written).snd.fs.content fd.node
  have hb x : c.readBack ++ [filled x] =
      (toFrames <| b.drop (fd.offset + d.length + envFrameWireSize)).take
        ((c.writeCursor + envFrameWireSize - c.readCursor + 27) / envFrameWireSize).toNat := by
    obtain ⟨c', hb, h₁, h₂, h₃, h₄⟩ := hp.exists_readBack hf (filled x)
    have hw := drop_writeAt b (filled x).bytes (fd.offset + d.length)
    rw [EnvFrame.bytes_length] at hw
    rw [← hb, readBack_of_neg h₁ (by omega), slots, h₂, h₃, h₄, hw]
  have he := List.append_cancel_left <| (hb 0).trans (hb 1).symm
  exact absurd he (by decide)

theorem LeavesAsItWas.le : c.readCursor < c.writeCursor + envFrameWireSize := by
  obtain ⟨c', hb, h₁, h₂, h₃, _⟩ := hp.exists_readBack hf .zero
  have hl := congrArg List.length <| (readBack_of_nonneg h₁ (h₂ ▸ hp.nonneg hf)).symm.trans hb
  rw [List.length_take, slots, h₂, h₃, List.length_append, List.length_singleton] at hl
  simp only [envFrameWireSize] at *
  omega

theorem LeavesAsItWas.offset :
    fd.offset + d.length = c.readCursor.toNat + envFrameWireSize * c.readBack.length := by
  refine (offset_eq_of_readAt (b := (c.cacheWriterAppend f written).snd.fs.content fd.node)
    (n := envFrameWireSize) (by decide) fun x => ?_).symm
  obtain ⟨c', hb, h₁, h₂, _, h₄⟩ := hp.exists_readBack hf (filled x)
  have hr := readAt_of_readBack h₁ (h₂ ▸ hp.nonneg hf) hb
  rwa [h₂, h₄, filled_bytes] at hr

include h in
theorem LeavesAsItWas.undisturbed (hd : d = f.bytes.take d.length) :
    c.Undisturbed fd f d.length := by
  have h₀ := hp.nonneg hf
  have ho := hp.offset hf
  refine ⟨h₀, hp.le hf, ho, ?_⟩
  by_cases he : c.readBack = []
  case pos => exact .inl he
  case neg =>
    have hl : d.length ≤ envFrameWireSize := hd ▸ length_take_bytes_le
    have hb : (c.cacheWriterAppend f written).snd.readBack = c.readBack := by
      simpa [appended] using hp [] _ rfl
    have hr := records_readBack hf.cacheFd (hf.read ▸ h₀)
    rw [hb, hf.read] at hr
    exact .inr <| ((hf.pending_iff h h₀ hl ho he).mp hr.symm).trans hd

end

theorem leavesAsItWas_of_none (h : c.cacheFd = none) : c.LeavesAsItWas f written := by
  have hc : (c.cacheWriterAppend f written).snd = c := by simp [cacheWriterAppend, h]
  intro ops c' hs
  rw [hc] at hs
  have hk : c' = c ∧ appended ops = [] := by
    induction ops
    case nil => exact ⟨(Option.some.inj hs).symm, rfl⟩
    case cons op ops hi =>
      obtain ⟨c₁, hc, hs⟩ := Option.bind_eq_some_iff.mp hs
      obtain ⟨ho, he⟩ := Option.ite_none_right_eq_some.mp hc
      simp only [cacheWriterAppend, h, Option.isNone_none, if_true, reduceCtorEq, false_or,
        Option.some.injEq] at ho he
      obtain ⟨hc, ha⟩ := hi (he ▸ hs)
      exact ⟨hc, by simpa [appended, ho, envFrameWireSize] using ha⟩
  rw [hk.left, hk.right, List.append_nil]

theorem leavesAsItWas_iff (h : c.cacheFd = some fd) (hw : (c.cacheWriterAppend f written).fst ≠ .ok) :
    c.LeavesAsItWas f written ↔ c.Undisturbed fd f (written.getD 0) := by
  obtain ⟨hf, hn⟩ := failed h hw
  constructor
  case mp  => exact fun hp => hn ▸ hp.undisturbed h hf (by rw [hn])
  case mpr => exact fun hu _ _ => ((hn ▸ hu).atEnd h (by rw [hn]) hf).exec

end CacheWriter

-- In a history of calls, failed ones among them, what was pending is sent or read back, and what is
-- appended after it, as long as the calls are in place. And a failed append leaves what was pending, and
-- what is appended after it, exactly if it has left the offset behind it. So it does only without having
-- written anything.
theorem failed_append_keeps (c : CacheWriter) :
    (∀ ops, historyStep.Guarded ⟨c, [], []⟩ ops (fun s op => s.cache.InPlace op) →
      historyStep.Always ⟨c, [], []⟩ ops (CacheRun.Keeps c.readBack)) ∧
    (∀ f written, (c.cacheWriterAppend f written).fst ≠ .ok →
      (c.LeavesAsItWas f written ↔
        ∀ fd, c.cacheFd = some fd → c.Undisturbed fd f (written.getD 0)) ∧
      ∀ fd, c.cacheFd = some fd → 0 ≤ c.readCursor → c.readCursor ≤ c.writeCursor →
        fd.offset = c.readCursor.toNat + envFrameWireSize * c.readBack.length →
        (c.LeavesAsItWas f written ↔ written.getD 0 = 0)) ∧
    (c.Apart → ∀ sends saves,
      (cacheReplayStart wireIo c { sends, saves, log := [] }).snd.snd.sent =
      (c.readBack.take (leadingOks sends)).map retryBytes) := by
  refine ⟨fun ops g => ?_, fun f written hw => ⟨?_, fun fd h h₀ hle ho => ?_⟩, cacheReplayStart_sent⟩
  · exact Transition.always_of_guarded ⟨[], by simp, rfl⟩ historyStep_keeps g
  · cases h : c.cacheFd
    case none    => simpa using leavesAsItWas_of_none h
    case some fd => simpa using leavesAsItWas_iff h hw
  · rw [leavesAsItWas_iff h hw]
    constructor
    case mp =>
      intro hu
      have := hu.offset
      omega
    case mpr =>
      intro hn
      refine ⟨h₀, ?_, by rw [hn]; exact ho, .inr <| by simp [hn, readAt]⟩
      simp only [envFrameWireSize]
      omega

def pendingTwo : CacheWriter :=
  let c := (CacheRun.start (sampleCache cacheDat) cacheDat).cache
  let c := (c.cacheWriterAppend .zero <| some envFrameWireSize).snd
  (c.cacheWriterAppend (filled 1) <| some envFrameWireSize).snd

-- An append that fails, one that succeeds, a replay that breaks off, another failure and a replay.
def failingCalls : List CursorOp :=
  [.append .zero none, .append (filled 2) (some envFrameWireSize), .replay [.ok, .errIo] [],
   .append .zero (some 0), .replay [.ok, .ok] []]

theorem pendingTwo_holds :
    pendingTwo.Holds { node := 0, offset := 56 } [] [.zero, filled 1] :=
  have ⟨h₁, h₂⟩ := sampleCache_lookup
  ((start_holds h₁ h₂ h₂).append rfl).append rfl

theorem failed_append_keeps_two :
    pendingTwo.readBack = [.zero, filled 1] ∧
    (pendingTwo.cacheWriterAppend .zero none).fst ≠ .ok ∧
    pendingTwo.LeavesAsItWas .zero none ∧
    historyStep.Guarded ⟨pendingTwo, [], []⟩ failingCalls (fun s op => s.cache.InPlace op) ∧
    historyStep.Always ⟨pendingTwo, [], []⟩ failingCalls (CacheRun.Keeps pendingTwo.readBack) := by
  have h := pendingTwo_holds
  let w : Wire := { sends := [.ok, .errIo], saves := [], log := [] }
  let c₁ := (pendingTwo.cacheWriterAppend .zero none).snd
  let c₂ := (c₁.cacheWriterAppend (filled 2) <| some envFrameWireSize).snd
  let c₃ := (cacheReplayStart wireIo c₂ w).snd.fst
  let c₄ := (c₃.cacheWriterAppend .zero <| some 0).snd
  have hc₁ : c₁ = pendingTwo := by simp only [c₁, append_of_zero h.cacheFd .zero none rfl]
  have h₁ : c₁.Holds _ _ _ := hc₁ ▸ h
  have h₂ : c₂.Holds _ _ _ := h₁.append rfl
  obtain ⟨_, _, _, _, h₃, -⟩ : ∃ fd rest k, _ ∧ c₃.Holds fd _ rest ∧ _ :=
    cacheReplayStart_holds wireIo h₂ (show 84 = envFrameWireSize * 3 from rfl) (by decide) w
  have hc₄ : c₄ = c₃ := by simp only [c₄, append_of_zero h₃.cacheFd .zero (some 0) rfl]
  have h₄ : c₄.Holds _ _ _ := hc₄ ▸ h₃
  have g : historyStep.Guarded ⟨pendingTwo, [], []⟩ failingCalls (fun s op => s.cache.InPlace op) :=
    .cons (inPlace_of_zero rfl) rfl <| .cons (h₁.inPlace_append rfl) rfl <|
    .cons (h₂.inPlace_replay _ _) rfl <| .cons (inPlace_of_zero rfl) rfl <|
    .cons (h₄.inPlace_replay _ _) rfl .nil
  have hb := (h.atEnd rfl).readBack_eq
  have hw : (pendingTwo.cacheWriterAppend .zero none).fst ≠ .ok := by decide
  have hl : pendingTwo.LeavesAsItWas .zero none :=
    (((failed_append_keeps pendingTwo).right.left .zero none hw).right _ h.cacheFd (by decide)
      (by decide) (by rw [hb]; decide)).mpr rfl
  exact ⟨hb, hw, hl, g, (failed_append_keeps pendingTwo).left _ g⟩

-- Ten bytes of a first record, and a second one behind them.
theorem failed_append_false :
    ((CacheRun.start (sampleCache cacheDat) cacheDat).cache.cacheWriterAppend .zero (some 10)).fst ≠
      .ok ∧
    ¬historyStep.Always (.start (sampleCache cacheDat) cacheDat)
      [.append .zero (some 10), .append (filled 1) (some envFrameWireSize)]
      (CacheRun.Keeps (CacheRun.start (sampleCache cacheDat) cacheDat).cache.readBack) := by
  refine ⟨by decide, fun h => ?_⟩
  have ⟨h₁, h₂⟩ := sampleCache_lookup
  let c := (CacheRun.start (sampleCache cacheDat) cacheDat).cache
  let c' := (c.cacheWriterAppend .zero (some 10)).snd
  have hs : historyStep.exec (.start (sampleCache cacheDat) cacheDat)
      [.append .zero (some 10), .append (filled 1) (some envFrameWireSize)] =
      some ⟨(c'.cacheWriterAppend (filled 1) (some envFrameWireSize)).snd, [filled 1], []⟩ := rfl
  obtain ⟨done, ha, hd⟩ := h _ _ List.prefix_rfl hs
  obtain rfl := List.map_eq_nil_iff.mp hd.symm
  rw [((start_holds h₁ h₂ h₂).atEnd rfl).readBack_eq, List.nil_append] at ha
  have hr : (c'.cacheWriterAppend (filled 1) (some envFrameWireSize)).snd.readBack = [] ++ [filled 1] :=
    ha.symm
  exact absurd (readAt_of_readBack rfl (by decide) hr) (by decide)

end IotCollector
