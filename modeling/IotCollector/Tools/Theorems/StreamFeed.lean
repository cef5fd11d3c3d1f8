import IotCollector.Ingress.Theorems.Segmentation
import IotCollector.Tools.CloudBridge

namespace IotCollector
namespace BridgeStream

theorem decode_eq (wire : List UInt8) : decode wire = wireCutter.decode wire := by
  simp only [decode, wireCutter, decodeWire]
  split <;> rfl

theorem merge_eq (st : BridgeStream) (data : List UInt8) :
    (st.merge data).buf =
      (st.buf ++ data).drop (st.buf.length + data.length - bridgeStreamCap) ∧
    (st.merge data).decodeFail = st.decodeFail := by
  induction st, data using merge.induct
  case case1 st =>
    have := st.bounded
    simp [merge, Nat.sub_eq_zero_of_le this]
  case case2 st data hd ht hi =>
    have hb : st.buf.length = bridgeStreamCap := by
      have := st.bounded
      have := List.length_pos_iff.mpr hd
      simp only [room] at ht
      omega
    rw [merge, dif_neg hd, dif_pos ht, hi.left, hi.right]
    exact ⟨(Cutter.overrun_tail hb (by decide) hd).right, rfl⟩
  case case3 st data hd ht hi =>
    rw [merge, dif_neg hd, dif_neg ht, hi.left, hi.right]
    exact ⟨(Cutter.overrun_take ..).right, rfl⟩

-- The second loop is the cutter of the collector, with `g_decode_fail` counting the bytes it skips.
theorem cutFrames_eq (st : BridgeStream) :
    st.cutFrames.fst = (wireCutter.cut st.buf).records ∧
    st.cutFrames.snd.buf = (wireCutter.cut st.buf).rest ∧
    st.cutFrames.snd.decodeFail = st.decodeFail + .ofNat (wireCutter.cut st.buf).skipped := by
  induction st using cutFrames.induct
  case case1 st h hd hi =>
    have hw := decode_eq _ ▸ hd
    rw [cutFrames, dif_pos h, hd, Cutter.cut_of_decode_none h hw]
    exact ⟨hi.left, hi.right.left, hi.right.right.trans <| FrameStream.add_one_ofNat ..⟩
  case case2 st h f hd hi =>
    have hw := decode_eq _ ▸ hd
    rw [cutFrames, dif_pos h, hd, Cutter.cut_of_decode_some h hw]
    exact ⟨congrArg _ hi.left, hi.right⟩
  case case3 st h =>
    have hl : st.buf.length < wireCutter.size := Nat.not_le.mp h
    rw [cutFrames, dif_neg h, Cutter.cut_of_length_lt hl]
    simp

theorem feedChunks_eq (st : BridgeStream) (chunks : List (List UInt8)) :
    (st.feedChunks chunks).fst = (wireCutter.cutBounded bridgeStreamCap st.buf chunks).records ∧
    (st.feedChunks chunks).snd.buf =
      (wireCutter.cutBounded bridgeStreamCap st.buf chunks).rest := by
  induction chunks generalizing st
  case nil => exact ⟨rfl, rfl⟩
  case cons chunk chunks hi =>
    have ⟨h₁, h₂⟩ := hi (st.streamFeed chunk).snd
    have ⟨h₃, h₄, _⟩ := cutFrames_eq (st.merge chunk)
    rw [(st.merge_eq chunk).left] at h₃ h₄
    rw [streamFeed, h₄] at h₁ h₂
    simp only [feedChunks, streamFeed, Cutter.cutBounded, h₁, h₂, h₃, and_self]

end BridgeStream

theorem bridgeSession_eq (reads : List (List UInt8)) :
    bridgeSession reads = (wireCutter.cutBounded bridgeStreamCap [] reads).records :=
  (BridgeStream.init.feedChunks_eq reads).left

-- `m` bytes which begin with a frame, behind `k` zeros.
def splitBytes (k m : Nat) : List UInt8 :=
  List.replicate k 0 ++ (sampleWire ++ List.replicate (m - envFrameWireSize) 0)

variable {k m n t cap : Nat}

theorem splitBytes_length (h : envFrameWireSize ≤ m) : (splitBytes k m).length = k + m := by
  simp only [splitBytes, List.length_append, List.length_replicate, sampleWire_length]
  omega

theorem splitBytes_kept : (wireCutter.cut <| (splitBytes k m).drop k).records ≠ [] := by
  have ⟨_, hd⟩ := sampleWire_decode
  have he : (splitBytes k m).drop k = sampleWire ++ List.replicate (m - envFrameWireSize) 0 :=
    List.drop_left' List.length_replicate
  rw [he, Cutter.cut_append_of_decode rfl hd]
  simp

theorem splitBytes_lost {d : Nat} (h : k < d) : frameMagic₀ ∉ (splitBytes k m).drop d := by
  obtain ⟨e, rfl⟩ := Nat.exists_eq_add_of_lt h
  intro hm
  rw [splitBytes, Nat.add_assoc, ← List.drop_drop, List.drop_left' List.length_replicate,
    ← List.drop_tail, List.tail_append_of_ne_nil (by decide)] at hm
  cases List.mem_append.mp <| List.mem_of_mem_drop hm
  case inl hm => exact sampleWire_tail_no_magic hm
  case inr hm => exact absurd (List.eq_of_mem_replicate hm) (by decide)

-- Chunks of the sizes `pre` which leave the front of `s` over, and a chunk with the rest of `s`.
def carried (pre : List Nat) (s : List UInt8) : List (List UInt8) :=
  pre.splitLengths (List.replicate (pre.sum - (envFrameWireSize - 1)) 0 ++
    s.take (min pre.sum (envFrameWireSize - 1))) ++ [s.drop (min pre.sum (envFrameWireSize - 1))]

variable {pre : List Nat} {s : List UInt8}

theorem carried_sizes (h : s.length = min pre.sum (envFrameWireSize - 1) + n) :
    (carried pre s).map List.length = pre ++ [n] := by
  have hs : (List.replicate (pre.sum - (envFrameWireSize - 1)) (0 : UInt8) ++
      s.take (min pre.sum (envFrameWireSize - 1))).length = pre.sum := by
    simp only [List.length_append, List.length_replicate, List.length_take, h]
    omega
  simp [carried, List.map_splitLengths_length _ _ hs.ge, h]

theorem cutBounded_carried (hc : frameStreamCap ≤ cap) (hf : Fits 0 pre)
    (h : s.length = min pre.sum (envFrameWireSize - 1) + n) :
    let r := wireCutter.cut (s.drop (s.length - cap))
    (wireCutter.cutBounded cap [] (carried pre s)).records = r.records ∧
    (wireCutter.cutBounded cap [] (carried pre s)).rest = r.rest := by
  have hl : (s.take (min pre.sum (envFrameWireSize - 1))).length =
      min pre.sum (envFrameWireSize - 1) := by
    simp [h]
  have hs : (List.replicate (pre.sum - (envFrameWireSize - 1)) (0 : UInt8) ++
      s.take (min pre.sum (envFrameWireSize - 1))).length = pre.sum := by
    rw [List.length_append, List.length_replicate, hl]
    omega
  have hf : Fits 0 ((pre.splitLengths _).map List.length) :=
    (List.map_splitLengths_length _ _ hs.ge).symm ▸ hf
  have hn : min pre.sum (envFrameWireSize - 1) + n - cap = s.length - cap := by rw [h]
  rw [carried, Cutter.cutBounded_append, cutBounded_of_fits hc (Nat.zero_le _) hf,
    Cutter.cutChunks_eq_cut (by decide), List.nil_append, List.flatten_splitLengths _ _ hs.le,
    cut_padded hl]
  simp only [Cutter.cutBounded, List.take_append_drop, hl, List.length_drop, h, List.nil_append,
    List.append_nil, Nat.add_sub_cancel_left, and_self]

-- Chunks of given sizes of which the first that does not fit holds a frame, or completes it, such
-- that the smaller buffer loses its front and the larger one does not.
theorem exists_kept_of_overrun (post : List Nat) (hf : Fits 0 pre)
    (ho : frameStreamCap < min pre.sum (envFrameWireSize - 1) + n) (hc : frameStreamCap < cap) :
    ∃ chunks : List (List UInt8), chunks.map List.length = pre ++ n :: post ∧
      tcpSessionOnce chunks = [] ∧ (wireCutter.cutBounded cap [] chunks).records ≠ [] := by
  let k := min pre.sum (envFrameWireSize - 1) + n - cap
  let m := min (min pre.sum (envFrameWireSize - 1) + n) cap
  have hm : frameStreamCap < m := Nat.lt_min.mpr ⟨ho, hc⟩
  have hl : (splitBytes k m).length = min pre.sum (envFrameWireSize - 1) + n := by
    rw [splitBytes_length <| (by decide : envFrameWireSize ≤ frameStreamCap).trans hm.le]
    omega
  have hz : ∀ chunk ∈ post.map (List.replicate · (0 : UInt8)), frameMagic₀ ∉ chunk := by
    simp only [List.mem_map, forall_exists_index, and_imp, forall_apply_eq_imp_iff₂]
    exact fun _ _ h => absurd (List.eq_of_mem_replicate h) (by decide)
  refine ⟨carried pre (splitBytes k m) ++ post.map (List.replicate · 0), ?sizes, ?lost, ?kept⟩
  case sizes =>
    simp [carried_sizes hl, Function.comp_def]
  case lost =>
    have ⟨h₁, h₂⟩ := cutBounded_carried (Nat.le_refl _) hf hl
    have hn : frameMagic₀ ∉ (splitBytes k m).drop ((splitBytes k m).length - frameStreamCap) :=
      splitBytes_lost <| by omega
    rw [tcpSessionOnce_eq, Cutter.cutBounded_append, h₁, h₂, records_eq_nil_of_no_magic hn]
    exact cutBounded_no_magic (fun hm => hn <| Cutter.rest_suffix.mem hm) hz
  case kept =>
    have ⟨h₁, _⟩ := cutBounded_carried hc.le hf hl
    have hk : (splitBytes k m).length - cap = k := by omega
    rw [Cutter.cutBounded_append, h₁, hk]
    simp [splitBytes_kept]

-- The bridge cuts all chunks of given sizes as the collector does exactly if these sizes cannot
-- overrun the buffer of the collector.
theorem stream_feed_agrees_iff (sizes : List Nat) :
    (∀ chunks : List (List UInt8), chunks.map List.length = sizes →
      bridgeSession chunks = tcpSessionOnce chunks) ↔
    Fits 0 sizes := by
  constructor
  case mpr =>
    intro h chunks hs
    have hf : Fits 0 (chunks.map List.length) := hs ▸ h
    rw [bridgeSession_eq, tcpSessionOnce_eq, cutBounded_of_fits (by decide) (Nat.zero_le _) hf,
      cutBounded_of_fits (Nat.le_refl _) (Nat.zero_le _) hf]
  case mp =>
    intro h
    by_contra hn
    have ⟨pre, n, post, hs, hf, ho⟩ := exists_overrun_of_not_fits hn
    rw [Nat.zero_add] at ho
    have ⟨chunks, hl, hlost, hkept⟩ :=
      exists_kept_of_overrun post hf ho (by decide : frameStreamCap < bridgeStreamCap)
    rw [← bridgeSession_eq, h chunks (hs ▸ hl), hlost] at hkept
    exact hkept rfl

-- Five frames in one chunk. The bridge handles them all, and the collector loses the first one.
theorem stream_feed_agrees_false :
    ¬∀ chunks : List (List UInt8), bridgeSession chunks = tcpSessionOnce chunks := by
  intro h
  have hl : (List.replicate 5 sampleWire).flatten.length = 140 := by
    rw [List.length_flatten, List.map_replicate, sampleWire_length]
    rfl
  have hd : (List.replicate 5 sampleWire).flatten.drop (140 - frameStreamCap) =
      (List.replicate 4 sampleWire).flatten :=
    List.drop_left' sampleWire_length
  have hb : (bridgeSession [(List.replicate 5 sampleWire).flatten]).length = 5 := by
    rw [bridgeSession_eq, Cutter.cutBounded_singleton, hl]
    exact cut_sampleWires 5
  have hc : (tcpSessionOnce [(List.replicate 5 sampleWire).flatten]).length = 4 := by
    rw [tcpSessionOnce_eq, Cutter.cutBounded_singleton, hl, hd]
    exact cut_sampleWires 4
  rw [h, hc] at hb
  cases hb

end IotCollector
