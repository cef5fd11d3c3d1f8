import IotCollector.Ingress.Theorems.Decoder

namespace IotCollector

-- The sizes of successive chunks, of which none can overrun the accumulation buffer: a chunk finds
-- at most an incomplete frame there, and no more bytes than have been fed before.
def Fits : Nat → List Nat → Prop
  | _, []           => True
  | before, n :: ns => min before (envFrameWireSize - 1) + n ≤ frameStreamCap ∧ Fits (before + n) ns

theorem fits_of_le {sizes : List Nat} {before : Nat}
    (h : ∀ n ∈ sizes, n + envFrameWireSize ≤ frameStreamCap + 1) : Fits before sizes := by
  induction sizes generalizing before
  case nil => trivial
  case cons n ns hi =>
    have hn := h n List.mem_cons_self
    simp only [envFrameWireSize, frameStreamCap] at hn
    refine ⟨?_, hi fun m hm => h m <| List.mem_cons_of_mem _ hm⟩
    simp only [envFrameWireSize, frameStreamCap]
    omega

theorem exists_overrun_of_not_fits {sizes : List Nat} {before : Nat} (h : ¬Fits before sizes) :
    ∃ pre n post, sizes = pre ++ n :: post ∧ Fits before pre ∧
      frameStreamCap < min (before + pre.sum) (envFrameWireSize - 1) + n := by
  induction sizes generalizing before
  case nil => exact absurd trivial h
  case cons n ns hi =>
    by_cases hn : min before (envFrameWireSize - 1) + n ≤ frameStreamCap
    case neg => exact ⟨[], n, ns, rfl, trivial, Nat.not_le.mp hn⟩
    case pos =>
      have ⟨pre, m, post, he, hf, hm⟩ := hi (h ⟨hn, ·⟩)
      exact ⟨n :: pre, m, post, by simp [he], ⟨hn, hf⟩, by simpa [Nat.add_assoc] using hm⟩

theorem cutBounded_of_fits {cap before : Nat} {carry : List UInt8} {chunks : List (List UInt8)}
    (hc : frameStreamCap ≤ cap) (hb : carry.length ≤ min before (envFrameWireSize - 1))
    (hf : Fits before (chunks.map List.length)) :
    wireCutter.cutBounded cap carry chunks = wireCutter.cutChunks carry chunks := by
  induction chunks generalizing carry before
  case nil => rfl
  case cons chunk chunks hi =>
    have hn : carry.length + chunk.length - cap = 0 := by
      have := hf.left
      omega
    have hl : (wireCutter.cut (carry ++ chunk)).rest.length ≤
        min (before + chunk.length) (envFrameWireSize - 1) := by
      have := (Cutter.rest_suffix (c := wireCutter) (l := carry ++ chunk)).length_le
      have : _ < envFrameWireSize := Cutter.rest_length_lt (c := wireCutter) (l := carry ++ chunk)
      simp only [List.length_append, envFrameWireSize] at *
      omega
    rw [Cutter.cutBounded, hn, List.drop_zero, hi hl hf.right]
    rfl

namespace FrameStream

theorem feedChunks_append (st : FrameStream) (xs ys : List (List UInt8)) :
    st.feedChunks (xs ++ ys) =
    ((st.feedChunks xs).fst ++ ((st.feedChunks xs).snd.feedChunks ys).fst,
     ((st.feedChunks xs).snd.feedChunks ys).snd) := by
  induction xs generalizing st
  case nil => rfl
  case cons x xs hi => simp [feedChunks, hi]

theorem feedChunks_of_fits {st : FrameStream} {chunks : List (List UInt8)} {before : Nat}
    (hb : st.buf.length ≤ min before (envFrameWireSize - 1))
    (hf : Fits before (chunks.map List.length)) :
    (st.feedChunks chunks).fst = (wireCutter.cutChunks st.buf chunks).records ∧
    (st.feedChunks chunks).snd.buf = (wireCutter.cutChunks st.buf chunks).rest := by
  rw [← cutBounded_of_fits (Nat.le_refl _) hb hf]
  exact st.feedChunks_eq chunks

end FrameStream

theorem tcpSessionOnce_eq (recvs : List (List UInt8)) :
    tcpSessionOnce recvs = (wireCutter.cutBounded frameStreamCap [] recvs).records :=
  (FrameStream.frameStreamReset.feedChunks_eq recvs).left

theorem tcpSessionOnce_of_fits {chunks : List (List UInt8)} (h : Fits 0 (chunks.map List.length)) :
    tcpSessionOnce chunks = (wireCutter.cut chunks.flatten).records := by
  have hb : FrameStream.frameStreamReset.buf.length ≤ min 0 (envFrameWireSize - 1) := Nat.le_refl 0
  rw [tcpSessionOnce, (FrameStream.feedChunks_of_fits hb h).left, Cutter.cutChunks_eq_cut (by decide)]
  rfl

theorem records_eq_nil_of_no_magic {l : List UInt8} (h : frameMagic₀ ∉ l) :
    (wireCutter.cut l).records = [] := by
  refine Cutter.records_eq_nil fun w hw hl => wireCutter_decode_of_magic fun hm => h <| hw.mem ?_
  have hp : 0 < w.length := by rw [hl]; exact wireCutter.pos
  simp [← hm, hp]

theorem cut_zeros_append {l : List UInt8} {k : Nat} (h : envFrameWireSize ≤ l.length + 1) :
    wireCutter.cut (List.replicate k 0 ++ l) =
    { wireCutter.cut l with skipped := (wireCutter.cut l).skipped + k } := by
  induction k
  case zero => rfl
  case succ k hi =>
    have hs : wireCutter.size ≤ (List.replicate (k + 1) 0 ++ l).length := by
      simp only [List.length_append, List.length_replicate]
      exact h.trans (by omega)
    have hd : wireCutter.decode ((List.replicate (k + 1) 0 ++ l).take wireCutter.size) = none :=
      wireCutter_decode_of_magic (by simp [wireCutter, envFrameWireSize, List.replicate_succ]; decide)
    rw [Cutter.cut_of_decode_none hs hd, List.replicate_succ, List.cons_append, List.tail_cons, hi]
    rfl

theorem cutBounded_no_magic {cap : Nat} {carry : List UInt8} {chunks : List (List UInt8)}
    (hb : frameMagic₀ ∉ carry) (h : ∀ chunk ∈ chunks, frameMagic₀ ∉ chunk) :
    (wireCutter.cutBounded cap carry chunks).records = [] := by
  refine Cutter.cutBounded_records_eq_nil (Q := (· ≠ frameMagic₀)) (fun w hw hl => ?_)
    (fun a ha he => hb <| he ▸ ha) (fun k hk a ha he => h k hk <| he ▸ ha)
  have hp : 0 < w.length := by rw [hl]; exact wireCutter.pos
  refine wireCutter_decode_of_magic ?_
  simpa [hp] using hw w[0] (List.getElem_mem hp)

namespace FrameStream

theorem cutFrames_no_magic {st : FrameStream} (h : frameMagic₀ ∉ st.buf) :
    st.cutFrames.fst = [] ∧ frameMagic₀ ∉ st.cutFrames.snd.buf := by
  have ⟨h₁, h₂, _⟩ := st.cutFrames_eq
  rw [h₁, h₂, records_eq_nil_of_no_magic h]
  exact ⟨rfl, fun hm => h <| Cutter.rest_suffix.mem hm⟩

theorem feedChunks_no_magic {st : FrameStream} {chunks : List (List UInt8)}
    (hb : frameMagic₀ ∉ st.buf) (h : ∀ chunk ∈ chunks, frameMagic₀ ∉ chunk) :
    (st.feedChunks chunks).fst = [] := by
  rw [(st.feedChunks_eq chunks).left]
  exact cutBounded_no_magic hb h

end FrameStream

-- The wire bytes of a frame in which the byte 0xEB occurs in the front only.
def sampleWire : List UInt8 :=
  (frameFillCrc { EnvFrame.zero with magic := (frameMagic₀, frameMagic₁), version := 1 }).bytes

theorem sampleWire_length : sampleWire.length = envFrameWireSize :=
  rfl

theorem sampleWire_tail_no_magic : frameMagic₀ ∉ sampleWire.tail := by
  decide +kernel

theorem sampleWire_decode : ∃ f, wireCutter.decode sampleWire = some f :=
  Option.isSome_iff_exists.mp (by decide +kernel)

-- A stream of `t` bytes which leaves as much of the sample frame in the buffer as it can.
def lossFront (t : Nat) : List UInt8 :=
  List.replicate (t - (envFrameWireSize - 1)) 0 ++ sampleWire.take (min t (envFrameWireSize - 1))

def lossChunk (t n : Nat) : List UInt8 :=
  sampleWire.drop (min t (envFrameWireSize - 1)) ++
  List.replicate (min t (envFrameWireSize - 1) + n - envFrameWireSize) 0

theorem lossFront_length (t : Nat) : (lossFront t).length = t := by
  simp [lossFront, sampleWire_length, envFrameWireSize]

theorem lossChunk_length {t n : Nat} (h : envFrameWireSize ≤ min t (envFrameWireSize - 1) + n) :
    (lossChunk t n).length = n := by
  simp [lossChunk, sampleWire_length, envFrameWireSize] at *
  omega

theorem cut_padded {l : List UInt8} {t : Nat} (h : l.length = min t (envFrameWireSize - 1)) :
    wireCutter.cut (List.replicate (t - (envFrameWireSize - 1)) 0 ++ l) =
    ⟨[], l, t - (envFrameWireSize - 1)⟩ := by
  have ht : wireCutter.cut l = ⟨[], l, 0⟩ :=
    Cutter.cut_of_length_lt (by rw [h]; simp [wireCutter, envFrameWireSize])
  by_cases hl : t < envFrameWireSize
  case pos =>
    have : t - (envFrameWireSize - 1) = 0 := by omega
    simp only [this, List.replicate_zero, List.nil_append, ht]
  case neg =>
    have : envFrameWireSize ≤ l.length + 1 := by
      simp only [envFrameWireSize] at *
      omega
    simp only [cut_zeros_append this, ht, Nat.zero_add]

theorem cut_lossFront (t : Nat) :
    wireCutter.cut (lossFront t) =
    ⟨[], sampleWire.take (min t (envFrameWireSize - 1)), t - (envFrameWireSize - 1)⟩ :=
  cut_padded <| by simp [sampleWire_length, envFrameWireSize]

theorem take_append_lossChunk (t n : Nat) :
    sampleWire.take (min t (envFrameWireSize - 1)) ++ lossChunk t n =
    sampleWire ++ List.replicate (min t (envFrameWireSize - 1) + n - envFrameWireSize) 0 := by
  rw [lossChunk, ← List.append_assoc, List.take_append_drop]

theorem merge_lossChunk_no_magic {st : FrameStream} {t n : Nat}
    (hb : st.buf = sampleWire.take (min t (envFrameWireSize - 1)))
    (ho : frameStreamCap < min t (envFrameWireSize - 1) + n) :
    frameMagic₀ ∉ (st.merge (lossChunk t n)).buf := by
  have hn : envFrameWireSize ≤ min t (envFrameWireSize - 1) + n := by
    simp only [envFrameWireSize, frameStreamCap] at *
    omega
  have hl : st.buf.length = min t (envFrameWireSize - 1) := by
    simp [hb, sampleWire_length, envFrameWireSize]
  obtain ⟨d, hd⟩ : ∃ d, st.buf.length + (lossChunk t n).length - frameStreamCap = d + 1 := by
    rw [hl, lossChunk_length hn]
    exact Nat.exists_eq_add_one.mpr (by omega)
  intro h
  rw [(st.merge_eq _).left, hd, hb, take_append_lossChunk, ← List.drop_tail,
    List.tail_append_of_ne_nil (by decide)] at h
  cases List.mem_append.mp <| List.mem_of_mem_drop h
  case inl h => exact sampleWire_tail_no_magic h
  case inr h => exact absurd (List.eq_of_mem_replicate h) (by decide)

-- Where the sizes do not fit, there are chunks of these sizes which deliver nothing, although their
-- bytes hold a frame.
theorem exists_loss_of_overrun {pre : List Nat} {n : Nat} (post : List Nat) (hf : Fits 0 pre)
    (ho : frameStreamCap < min pre.sum (envFrameWireSize - 1) + n) :
    ∃ chunks : List (List UInt8), chunks.map List.length = pre ++ n :: post ∧
      tcpSessionOnce chunks = [] ∧ (wireCutter.cut chunks.flatten).records ≠ [] := by
  have hn : envFrameWireSize ≤ min pre.sum (envFrameWireSize - 1) + n := by
    simp only [envFrameWireSize, frameStreamCap] at *
    omega
  have hpre : (pre.splitLengths (lossFront pre.sum)).map List.length = pre :=
    List.map_splitLengths_length _ _ (lossFront_length _).ge
  have hflat : (pre.splitLengths (lossFront pre.sum)).flatten = lossFront pre.sum :=
    List.flatten_splitLengths _ _ (lossFront_length _).le
  refine ⟨pre.splitLengths (lossFront pre.sum) ++
    lossChunk pre.sum n :: post.map (List.replicate · 0), ?sizes, ?lost, ?held⟩
  case sizes =>
    simp [hpre, lossChunk_length hn, Function.comp_def]
  case lost =>
    have h₀ : FrameStream.frameStreamReset.buf.length ≤ min 0 (envFrameWireSize - 1) := Nat.le_refl 0
    obtain ⟨h₁, h₂⟩ := FrameStream.feedChunks_of_fits h₀ (hpre ▸ hf)
    rw [Cutter.cutChunks_eq_cut (by decide), hflat, FrameStream.frameStreamReset_buf,
      List.nil_append, cut_lossFront] at h₁ h₂
    obtain ⟨h₃, h₄⟩ := FrameStream.cutFrames_no_magic <| merge_lossChunk_no_magic h₂ ho
    have hz : ∀ chunk ∈ post.map (List.replicate · 0), frameMagic₀ ∉ chunk := by
      simp only [List.mem_map, forall_exists_index, and_imp, forall_apply_eq_imp_iff₂]
      exact fun _ _ h => absurd (List.eq_of_mem_replicate h) (by decide)
    have h₅ := FrameStream.feedChunks_no_magic h₄ hz
    simp only [tcpSessionOnce, FrameStream.feedChunks_append, FrameStream.feedChunks, h₁,
      FrameStream.frameStreamFeed, h₃, h₅, List.append_nil]
  case held =>
    obtain ⟨f, hd⟩ := sampleWire_decode
    rw [List.flatten_append, hflat, List.flatten_cons, Cutter.cut_append, cut_lossFront,
      ← List.append_assoc, take_append_lossChunk, List.append_assoc,
      Cutter.cut_append_of_decode rfl hd]
    simp

-- A way of cutting delivers what every other way delivers which cannot overrun the buffer, for all
-- bytes, exactly if it cannot overrun the buffer itself.
theorem tcpSessionOnce_segmentation_iff (sizes : List Nat) :
    (∀ recvs recvs' : List (List UInt8), recvs.map List.length = sizes →
      Fits 0 (recvs'.map List.length) → recvs.flatten = recvs'.flatten →
      tcpSessionOnce recvs = tcpSessionOnce recvs') ↔
    Fits 0 sizes := by
  constructor
  case mpr =>
    intro h recvs recvs' hs hf he
    rw [tcpSessionOnce_of_fits (hs ▸ h), tcpSessionOnce_of_fits hf, he]
  case mp =>
    intro h
    by_contra hn
    have ⟨pre, n, post, hs, hf, ho⟩ := exists_overrun_of_not_fits hn
    rw [Nat.zero_add] at ho
    have ⟨recvs, hl, hlost, hheld⟩ := exists_loss_of_overrun post hf ho
    -- Byte by byte, nothing overruns.
    let single := recvs.flatten.map ([·])
    have hsize : ∀ k ∈ single.map List.length, k = 1 := by
      simp only [single, List.map_map, List.mem_map]
      exact fun _ ⟨_, _, hk⟩ => hk.symm
    have hfit : Fits 0 (single.map List.length) :=
      fits_of_le fun k hk => by rw [hsize k hk]; decide
    have hflat : recvs.flatten = single.flatten :=
      (List.flatMap_singleton' _).symm
    have he := h recvs single (hs ▸ hl) hfit hflat
    rw [hlost, tcpSessionOnce_of_fits hfit, ← hflat] at he
    exact hheld he.symm

theorem cut_sampleWires (k : Nat) :
    (wireCutter.cut (List.replicate k sampleWire).flatten).records.length = k := by
  have ⟨_, hd⟩ := sampleWire_decode
  induction k
  case zero => rw [List.replicate_zero, List.flatten_nil, Cutter.cut_of_length_lt (by decide)]; rfl
  case succ k hi =>
    rw [List.replicate_succ, List.flatten_cons, Cutter.cut_append_of_decode rfl hd]
    simp [hi]

theorem tcpSessionOnce_singleton (recv : List UInt8) :
    tcpSessionOnce [recv] =
    (wireCutter.cut (recv.drop (recv.length - frameStreamCap))).records := by
  rw [tcpSessionOnce_eq, Cutter.cutBounded_singleton]

-- Five frames in one chunk, of which the first one is lost.
theorem tcpSessionOnce_segmentation_false :
    ¬∀ recvs recvs' : List (List UInt8), (∀ r ∈ recvs, r ≠ []) → (∀ r ∈ recvs', r ≠ []) →
      recvs.flatten = recvs'.flatten → tcpSessionOnce recvs = tcpSessionOnce recvs' := by
  intro h
  have hn : sampleWire ≠ [] := by decide
  have he := h [(List.replicate 5 sampleWire).flatten] (List.replicate 5 sampleWire)
    (by simp [hn]) (by simp [hn]) (by simp)
  have hfit : Fits 0 ((List.replicate 5 sampleWire).map List.length) := by
    rw [List.map_replicate, sampleWire_length]
    exact fits_of_le (by decide)
  have hdrop : (List.replicate 5 sampleWire).flatten.drop
      ((List.replicate 5 sampleWire).flatten.length - frameStreamCap) =
      (List.replicate 4 sampleWire).flatten := by
    have hl : (List.replicate 5 sampleWire).flatten.length - frameStreamCap = sampleWire.length := by
      simp [sampleWire_length, envFrameWireSize, frameStreamCap]
    rw [hl]
    exact List.drop_left
  rw [tcpSessionOnce_singleton, hdrop, tcpSessionOnce_of_fits hfit] at he
  have hc := congrArg List.length he
  rw [cut_sampleWires, cut_sampleWires] at hc
  exact absurd hc (by decide)

end IotCollector
