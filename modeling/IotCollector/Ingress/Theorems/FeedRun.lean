import IotCollector.Ingress.FeedRun
import IotCollector.Ingress.Theorems.Segmentation

namespace IotCollector

open FrameStream

def window (input : List UInt8) (offset : Nat) : List UInt8 :=
  (input.drop offset).take envFrameWireSize

-- The frames are the decodings of windows of the input which lie before `pos`, one behind the other.
def Windows (input : List UInt8) (pos : Nat) (frames : List EnvFrame) : Prop :=
  ∃ offsets : List Nat,
    offsets.Pairwise (· + envFrameWireSize ≤ ·) ∧
    (∀ o ∈ offsets, o + envFrameWireSize ≤ pos) ∧
    offsets.map (decodeWire <| window input ·) = frames.map .ok

namespace Windows

variable {input : List UInt8} {pos pos' : Nat} {frames : List EnvFrame}

theorem nil : Windows input pos [] :=
  ⟨[], .nil, nofun, rfl⟩

theorem mono (h : Windows input pos frames) (hp : pos ≤ pos') : Windows input pos' frames :=
  have ⟨os, h₁, h₂, h₃⟩ := h
  ⟨os, h₁, fun o ho => (h₂ o ho).trans hp, h₃⟩

theorem append (h : Windows input pos frames) (hp : pos ≤ input.length) (more : List UInt8) :
    Windows (input ++ more) pos frames := by
  have ⟨os, h₁, h₂, h₃⟩ := h
  refine ⟨os, h₁, h₂, h₃ ▸ List.map_congr_left fun o ho => congrArg _ ?_⟩
  have := h₂ o ho
  rw [window, window, List.drop_append_of_le_length (by omega),
    List.take_append_of_le_length (by rw [List.length_drop]; omega)]

theorem concat {f : EnvFrame} (h : Windows input pos frames)
    (hf : decodeWire (window input pos) = .ok f) :
    Windows input (pos + envFrameWireSize) (frames ++ [f]) := by
  have ⟨os, h₁, h₂, h₃⟩ := h
  refine ⟨os ++ [pos], ?_, ?_, by simp [h₃, hf]⟩
  · simpa [List.pairwise_append, h₁] using h₂
  · intro o ho
    cases List.mem_append.mp ho
    case inl ho => have := h₂ o ho; omega
    case inr ho => rw [List.mem_singleton.mp ho]

end Windows

namespace FeedRun

variable {r r' : FeedRun}

theorem frameMagicOk_of_decodeWire {w : List UInt8} {f : EnvFrame} (h : decodeWire w = .ok f) :
    frameMagicOk w = true := by
  cases hm : frameMagicOk w
  case false => simp [decodeWire, hm] at h
  case true  => rfl

def rest (r : FeedRun) : List EnvFrame × FrameStream :=
  let c := (r.stream.merge r.data).cutFrames
  (r.delivered ++ c.fst, c.snd)

-- What a pass can do: three of its branches discard a byte, of which the second one stands for a
-- wrong magic and for a wrong checksum.
inductive Passed (r : FeedRun) : FeedRun → Prop
  | overflow : r.data ≠ [] → min r.data.length r.stream.room = 0 → Passed r r.slide
  | copied : r.data ≠ [] → min r.data.length r.stream.room ≠ 0 →
    Passed r {
      r with
      stream := r.stream.append r.data (min r.data.length r.stream.room) (Nat.min_le_right ..)
      data   := r.data.drop (min r.data.length r.stream.room) }
  | invalid {e : IotStatus} : r.data = [] → envFrameWireSize ≤ r.stream.buf.length →
    decodeWire (r.stream.buf.take envFrameWireSize) = .error e → Passed r r.slide
  | cut {f : EnvFrame} : r.data = [] → envFrameWireSize ≤ r.stream.buf.length →
    decodeWire (r.stream.buf.take envFrameWireSize) = .ok f →
    Passed r (r.cut f)
  | returned : r.data = [] → r.stream.buf.length < envFrameWireSize →
    Passed r { r with busy := false }

theorem ne_nil_of_full (h : r.data ≠ []) (ht : min r.data.length r.stream.room = 0) :
    r.stream.buf ≠ [] := by
  have := List.length_pos_iff.mpr h
  have : 0 < frameStreamCap := by decide
  rw [← List.length_pos_iff]
  simp only [room] at ht
  omega

theorem ne_nil_of_le (h : envFrameWireSize ≤ r.stream.buf.length) : r.stream.buf ≠ [] :=
  List.length_pos_iff.mp <| Nat.lt_of_lt_of_le (by decide) h

theorem mergePass_passed (h : r.data ≠ []) : Passed r r.mergePass := by
  by_cases ht : min r.data.length r.stream.room = 0
  case pos => simpa only [mergePass, if_pos ht] using .overflow h ht
  case neg => simpa only [mergePass, if_neg ht] using .copied h ht

theorem cutPass_passed (h : r.data = []) (hl : envFrameWireSize ≤ r.stream.buf.length) :
    Passed r r.cutPass := by
  cases hd : decodeWire (r.stream.buf.take envFrameWireSize)
  case error e =>
    have : r.cutPass = r.slide := by simp [cutPass, hd]
    exact this ▸ .invalid h hl hd
  case ok f => simpa [cutPass, hd, frameMagicOk_of_decodeWire hd] using .cut h hl hd

theorem passed (r : FeedRun) : Passed r r.pass := by
  unfold pass
  split
  case isTrue h => exact mergePass_passed h
  case isFalse h =>
    split
    case isTrue hl  => exact cutPass_passed (not_not.mp h) hl
    case isFalse hl => exact .returned (not_not.mp h) <| Nat.not_le.mp hl

@[simp]
theorem merge_nil (st : FrameStream) : st.merge [] = st := by
  rw [merge, dif_pos rfl]

theorem rest_of_idle (hd : r.data = []) (hl : r.stream.buf.length < envFrameWireSize) :
    r.rest = (r.delivered, r.stream) := by
  rw [rest, hd, merge_nil, cutFrames, dif_neg (Nat.not_le.mpr hl), List.append_nil]

theorem Passed.rest_eq (h : Passed r r') : r'.rest = r.rest := by
  cases h
  case overflow hd ht => rw [rest, rest, slide, merge.eq_def r.stream, dif_neg hd, dif_pos ht]
  case copied hd ht   => rw [rest, rest, merge.eq_def r.stream, dif_neg hd, dif_neg ht]
  case invalid e hd hl he =>
    have hc : r.stream.cutFrames = r.stream.slide.cutFrames := by
      rw [cutFrames.eq_def r.stream, dif_pos hl, he]
      exact ite_self _
    simp only [rest, slide, hd, merge_nil, hc]
  case cut f hd hl hf =>
    have hc : r.stream.cutFrames =
        (f :: r.stream.consume.cutFrames.fst, r.stream.consume.cutFrames.snd) := by
      rw [cutFrames.eq_def r.stream, dif_pos hl, hf, frameMagicOk_of_decodeWire hf]
      rfl
    simp only [rest, FeedRun.cut, hd, merge_nil, hc, List.append_assoc, List.singleton_append]
  case returned => rfl

-- The buffer starts at an offset of the input before which every byte was delivered or skipped.
structure Located (r : FeedRun) (skipped : Nat) : Prop where
  front   : r.input.drop (envFrameWireSize * r.delivered.length + skipped) = r.stream.buf ++ r.data
  within  : envFrameWireSize * r.delivered.length + skipped ≤ r.input.length
  resync  : r.stream.resync = .ofNat skipped
  windows : Windows r.input (envFrameWireSize * r.delivered.length + skipped) r.delivered
  rest    : r.rest = frameStreamReset.feedChunks r.calls
  idle    : r.busy = false → r.data = [] ∧ r.stream.buf.length < envFrameWireSize

namespace Located

variable {k : Nat}

theorem init : Located init 0 where
  front   := rfl
  within  := Nat.le_refl 0
  resync  := rfl
  windows := .nil
  rest    := rest_of_idle rfl (by decide)
  idle _  := ⟨rfl, by decide⟩

theorem length_eq (h : Located r k) :
    r.input.length =
    envFrameWireSize * r.delivered.length + k + r.stream.buf.length + r.data.length := by
  have := congrArg List.length h.front
  have := h.within
  simp only [List.length_drop, List.length_append] at *
  omega

theorem slide (h : Located r k) (hn : r.stream.buf ≠ []) (hb : r.busy = true)
    (hr : r.slide.rest = r.rest) : Located r.slide (k + 1) where
  front := by
    rw [slide_input, slide_delivered, slide_data, slide_stream, slide_buf,
      ← List.tail_append_of_ne_nil hn, ← h.front, List.tail_drop, Nat.add_assoc]
  within := by
    have := h.length_eq
    have := List.length_pos_iff.mpr hn
    rw [slide_input, slide_delivered]
    omega
  resync  := by rw [slide_stream, slide_resync, h.resync, UInt64.ofNat_add]; rfl
  windows := h.windows.mono <| Nat.le_succ _
  rest    := hr.trans h.rest
  idle hi := by cases hb.symm.trans hi

theorem cut {f : EnvFrame} (h : Located r k) (hb : r.busy = true) (hd : r.data = [])
    (hl : envFrameWireSize ≤ r.stream.buf.length)
    (hf : decodeWire (r.stream.buf.take envFrameWireSize) = .ok f) (hr : (r.cut f).rest = r.rest) :
    Located (r.cut f) k := by
  have hn : envFrameWireSize * (r.cut f).delivered.length + k =
      envFrameWireSize * r.delivered.length + k + envFrameWireSize := by
    rw [cut_delivered, List.length_append, List.length_singleton, Nat.mul_succ]
    omega
  have hw : window r.input (envFrameWireSize * r.delivered.length + k) =
      r.stream.buf.take envFrameWireSize := by
    rw [window, h.front, hd, List.append_nil]
  refine ⟨?front, ?within, h.resync, ?windows, hr.trans h.rest, fun hi => ?idle⟩
  case front =>
    rw [hn, ← List.drop_drop, cut_input, h.front, cut_data, hd, List.append_nil, List.append_nil]
    rfl
  case within =>
    have := h.length_eq
    rw [hn, cut_input]
    omega
  case windows =>
    rw [hn]
    exact h.windows.concat <| hw ▸ hf
  case idle => cases hb.symm.trans hi

theorem pass (h : Located r k) (hb : r.busy = true) (hp : Passed r r') : ∃ k', Located r' k' := by
  have hr := hp.rest_eq
  cases hp
  case overflow hd ht     => exact ⟨k + 1, h.slide (ne_nil_of_full hd ht) hb hr⟩
  case invalid e hd hl he => exact ⟨k + 1, h.slide (ne_nil_of_le hl) hb hr⟩
  case cut f hd hl hf     => exact ⟨k, h.cut hb hd hl hf hr⟩
  case copied hd ht       =>
    refine ⟨k, ?_, h.within, h.resync, h.windows, hr.trans h.rest, fun hi => ?_⟩
    · rw [append, List.append_assoc, List.take_append_drop]
      exact h.front
    · cases hb.symm.trans hi
  case returned hd hl     =>
    exact ⟨k, h.front, h.within, h.resync, h.windows, hr.trans h.rest, fun _ => ⟨hd, hl⟩⟩

theorem call (h : Located r k) (hb : r.busy = false) (chunk : List UInt8) :
    Located (r.call chunk) k := by
  have ⟨hd, hl⟩ := h.idle hb
  refine ⟨?front, ?within, h.resync, ?windows, ?rest, nofun⟩
  case front =>
    have hf := h.front
    rw [hd, List.append_nil] at hf
    rw [call_input, FeedRun.call, List.drop_append_of_le_length h.within, hf]
  case within =>
    rw [call_input, List.length_append]
    exact Nat.le_add_right_of_le h.within
  case windows =>
    rw [call_input]
    exact h.windows.append h.within chunk
  case rest =>
    have hr := (rest_of_idle hd hl).symm.trans h.rest
    simp only [FeedRun.rest, FeedRun.call, feedChunks_append, ← hr, feedChunks, frameStreamFeed,
      List.append_nil]

end Located

theorem located {as : List FeedAct} (h : feedStep.exec init as = some r) : ∃ k, Located r k := by
  refine Transition.always_of_preserved (I := fun r => ∃ k, Located r k) ⟨0, .init⟩ ?_ as as r
    List.prefix_rfl h
  intro r a r' ⟨k, hl⟩ hs
  cases a <;> cases hb : r.busy <;> simp only [feedStep, hb, reduceCtorEq, Bool.false_eq_true,
    if_true, if_false, Option.some.injEq] at hs <;> subst hs
  case call.false => exact ⟨k, hl.call hb _⟩
  case pass.true  => exact hl.pass hb <| passed r

-- What can be said at every moment. Of the bytes in `data` the stream has not heard yet.
structure Accounted (r : FeedRun) : Prop where
  windows  : Windows r.input r.input.length r.delivered
  piece    : r.stream.buf <:+: r.input
  fits     : r.stream.buf.length ≤ frameStreamCap
  total    : ∃ skipped : Nat, r.stream.resync = .ofNat skipped ∧
    r.input.length =
    envFrameWireSize * r.delivered.length + skipped + r.stream.buf.length + r.data.length
  returned : r.busy = false →
    r.data = [] ∧ r.stream.buf.length < envFrameWireSize ∧ r.stream.buf <:+ r.input ∧
    (r.delivered, r.stream) = frameStreamReset.feedChunks r.calls

theorem Located.accounted {k : Nat} (h : Located r k) : Accounted r where
  windows     := h.windows.mono h.within
  piece       := ⟨_, r.data, by rw [List.append_assoc, ← h.front, List.take_append_drop]⟩
  fits        := r.stream.bounded
  total       := ⟨k, h.resync, h.length_eq⟩
  returned hb := by
    have ⟨hd, hl⟩ := h.idle hb
    have hf := h.front
    rw [hd, List.append_nil] at hf
    exact ⟨hd, hl, hf ▸ List.drop_suffix .., (rest_of_idle hd hl).symm.trans h.rest⟩

def work (r : FeedRun) : Nat :=
  2 * r.data.length + r.stream.buf.length

theorem Passed.progress (h : Passed r r') :
    r'.calls = r.calls ∧ (r'.busy = true → r'.work < r.work) := by
  cases h
  case overflow hd ht =>
    have := List.length_pos_iff.mpr <| ne_nil_of_full hd ht
    refine ⟨rfl, fun _ => ?_⟩
    simp only [work, slide_data, slide_stream, slide_buf, List.length_tail]
    omega
  case invalid e hd hl he =>
    have := List.length_pos_iff.mpr <| ne_nil_of_le hl
    refine ⟨rfl, fun _ => ?_⟩
    simp only [work, slide_data, slide_stream, slide_buf, List.length_tail]
    omega
  case copied hd ht =>
    refine ⟨rfl, fun _ => ?_⟩
    simp only [work, append, List.length_append, List.length_take, List.length_drop]
    omega
  case cut f hd hl hf =>
    have : 0 < envFrameWireSize := by decide
    refine ⟨rfl, fun _ => ?_⟩
    simp only [work, FeedRun.cut, consume_buf, List.length_drop]
    omega
  case returned => exact ⟨rfl, fun hb => absurd hb Bool.false_ne_true⟩

theorem exists_return (hb : r.busy = true) :
    ∃ as r', feedStep.exec r as = some r' ∧ r'.calls = r.calls ∧ r'.busy = false := by
  induction hw : r.work using Nat.strongRecOn generalizing r
  case ind w hi =>
    have hs : feedStep r .pass = some r.pass := if_pos hb
    have ⟨hc, hl⟩ := r.passed.progress
    cases hp : r.pass.busy
    case false => exact ⟨[.pass], r.pass, by simp [hs], hc, hp⟩
    case true  =>
      have ⟨as, r', he, hc', hr⟩ := hi _ (hw ▸ hl hp) hp rfl
      exact ⟨.pass :: as, r', by simp [hs, he], hc'.trans hc, hr⟩

theorem exists_run (chunks : List (List UInt8)) :
    ∃ as r, feedStep.exec init as = some r ∧ r.calls = chunks ∧ r.busy = false := by
  induction chunks using List.reverseRecOn
  case nil => exact ⟨[], init, rfl, rfl, rfl⟩
  case append_singleton chunks chunk hi =>
    obtain ⟨as, r, he, rfl, hb⟩ := hi
    have hs : feedStep r (.call chunk) = some (r.call chunk) := by simp [feedStep, hb]
    have ⟨bs, r', he', hc, hr⟩ := exists_return (r := r.call chunk) rfl
    exact ⟨as ++ .call chunk :: bs, r', by simp [Transition.exec_append, he, hs, he'], hc, hr⟩

end FeedRun

theorem frameStreamFeed_accounts {as : List FeedAct} {r : FeedRun}
    (h : feedStep.exec .init as = some r) : r.Accounted :=
  have ⟨_, hl⟩ := FeedRun.located h
  hl.accounted

theorem frameStreamFeed_accounts_sample :
    ∃ r, feedStep.exec .init [.call (0 :: sampleWire), .pass, .pass, .pass, .pass] = some r ∧
      r.delivered.length = 1 ∧ r.Accounted :=
  have hr : (feedStep.exec .init [.call (0 :: sampleWire), .pass, .pass, .pass, .pass]).map
    (·.delivered.length) = some 1 := by decide +kernel
  have ⟨r, h, hl⟩ := Option.map_eq_some_iff.mp hr
  ⟨r, h, hl, frameStreamFeed_accounts h⟩

end IotCollector
