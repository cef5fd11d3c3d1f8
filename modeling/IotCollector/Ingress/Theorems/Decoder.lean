import Mathlib.Data.List.SplitLengths
import IotCollector.Lib.Cutter
import IotCollector.Ingress.Decoder
import IotCollector.Common.Theorems.Proto

namespace IotCollector

-- The abstract meaning of `frame_stream_feed`, without a buffer.
def wireCutter : Cutter UInt8 EnvFrame where
  size   := envFrameWireSize
  pos    := by decide
  decode := fun w => (decodeWire w).toOption

theorem wireCutter_decode_of_magic {w : List UInt8} (h : w.getD 0 0 ≠ frameMagic₀) :
    wireCutter.decode w = none := by
  have hm : frameMagicOk w = false := by simp [frameMagicOk]; tauto
  simp [wireCutter, decodeWire, hm, Except.toOption]

namespace FrameStream

variable {st : FrameStream} {data : List UInt8}

theorem add_one_ofNat (r : UInt64) (n : Nat) : r + 1 + .ofNat n = r + .ofNat (n + 1) := by
  rw [UInt64.ofNat_add, UInt64.add_assoc, UInt64.add_comm 1]
  rfl

theorem merge_eq (st : FrameStream) (data : List UInt8) :
    (st.merge data).buf = (st.buf ++ data).drop (st.buf.length + data.length - frameStreamCap) ∧
    (st.merge data).resync = st.resync + .ofNat (st.buf.length + data.length - frameStreamCap) := by
  induction st, data using merge.induct
  case case1 st =>
    have := st.bounded
    simp [merge, Nat.sub_eq_zero_of_le this]
  case case2 st data hd ht hi =>
    have hb : st.buf.length = frameStreamCap := by
      have := st.bounded
      have := List.length_pos_iff.mpr hd
      simp only [room] at ht
      omega
    have ⟨hn, he⟩ := Cutter.overrun_tail hb (by decide) hd
    rw [merge, dif_neg hd, dif_pos ht, hi.left, hi.right, slide_buf, slide_resync, he, ← hn,
      add_one_ofNat]
    exact ⟨rfl, rfl⟩
  case case3 st data hd ht hi =>
    have ⟨hn, he⟩ := Cutter.overrun_take frameStreamCap st.buf data (min data.length st.room)
    rw [merge, dif_neg hd, dif_neg ht, hi.left, hi.right, append, he, hn]
    exact ⟨rfl, rfl⟩

theorem cutFrames_eq (st : FrameStream) :
    st.cutFrames.fst = (wireCutter.cut st.buf).records ∧
    st.cutFrames.snd.buf = (wireCutter.cut st.buf).rest ∧
    st.cutFrames.snd.resync = st.resync + .ofNat (wireCutter.cut st.buf).skipped := by
  induction st using cutFrames.induct
  case case1 st h hm hi =>
    have hd : wireCutter.decode (st.buf.take wireCutter.size) = none := by
      simp_all [wireCutter, decodeWire, Except.toOption]
    rw [cutFrames, dif_pos h, if_pos hm, Cutter.cut_of_decode_none h hd]
    refine ⟨hi.left, hi.right.left, ?_⟩
    simp only [hi.right.right, slide_resync, slide_buf, add_one_ofNat]
  case case2 st h hm e he hi =>
    have hd : wireCutter.decode (st.buf.take wireCutter.size) = none := by
      simp [wireCutter, he, Except.toOption]
    rw [cutFrames, dif_pos h, if_neg hm, he, Cutter.cut_of_decode_none h hd]
    refine ⟨hi.left, hi.right.left, ?_⟩
    simp only [hi.right.right, slide_resync, slide_buf, add_one_ofNat]
  case case3 st h hm f hf hi =>
    have hd : wireCutter.decode (st.buf.take wireCutter.size) = some f := by
      simp [wireCutter, hf, Except.toOption]
    rw [cutFrames, dif_pos h, if_neg hm, hf, Cutter.cut_of_decode_some h hd]
    exact ⟨congrArg _ hi.left, hi.right⟩
  case case4 st h =>
    have hl : st.buf.length < wireCutter.size := Nat.not_le.mp h
    rw [cutFrames, dif_neg h, Cutter.cut_of_length_lt hl]
    simp

theorem feedChunks_eq (st : FrameStream) (chunks : List (List UInt8)) :
    (st.feedChunks chunks).fst = (wireCutter.cutBounded frameStreamCap st.buf chunks).records ∧
    (st.feedChunks chunks).snd.buf = (wireCutter.cutBounded frameStreamCap st.buf chunks).rest := by
  induction chunks generalizing st
  case nil => exact ⟨rfl, rfl⟩
  case cons chunk chunks hi =>
    have ⟨h₁, h₂⟩ := hi (st.frameStreamFeed chunk).snd
    have ⟨h₃, h₄, _⟩ := cutFrames_eq (st.merge chunk)
    rw [(st.merge_eq chunk).left] at h₃ h₄
    rw [frameStreamFeed, h₄] at h₁ h₂
    simp only [feedChunks, frameStreamFeed, Cutter.cutBounded, h₁, h₂, h₃, and_self]

end FrameStream
end IotCollector
