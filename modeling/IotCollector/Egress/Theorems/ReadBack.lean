import IotCollector.Egress.Theorems.Restart

namespace IotCollector

open Posix CacheWriter

variable {b : List UInt8} {f : EnvFrame}

theorem toFrames_of_lt (h : b.length < envFrameWireSize) : toFrames b = [] := by
  rw [toFrames, if_neg (Nat.not_le.mpr h)]

theorem toFrames_of_le (h : envFrameWireSize ≤ b.length) :
    toFrames b = EnvFrame.ofBytes b :: toFrames (b.drop envFrameWireSize) := by
  rw [toFrames, if_pos h]

theorem toFrames_records_append (l : List EnvFrame) (b : List UInt8) :
    toFrames (records l ++ b) = l ++ toFrames b := by
  induction l
  case nil => rfl
  case cons f l hi =>
    rw [toFrames_of_le (by simp), records_cons, List.append_assoc, EnvFrame.ofBytes_bytes_append,
      List.drop_left' f.bytes_length, hi, List.cons_append]

theorem records_take_toFrames (b : List UInt8) (n : Nat) :
    records ((toFrames b).take n) = b.take (envFrameWireSize * ((toFrames b).take n).length) := by
  induction b using toFrames.induct generalizing n
  case case2 b h =>
    rw [toFrames_of_lt (Nat.not_le.mp h)]
    simp [records]
  case case1 b h hi =>
    rw [toFrames_of_le h]
    cases n
    case zero => simp [records]
    case succ n =>
      rw [List.take_succ_cons, records_cons, hi, EnvFrame.bytes_ofBytes h, List.length_cons,
        Nat.mul_succ, Nat.add_comm, List.take_add]

theorem toFrames_drop (b : List UInt8) (k : Nat) :
    toFrames (b.drop (envFrameWireSize * k)) = (toFrames b).drop k := by
  induction k generalizing b
  case zero => simp
  case succ k hi =>
    by_cases h : envFrameWireSize ≤ b.length
    case pos =>
      rw [toFrames_of_le h, List.drop_succ_cons, ← hi, List.drop_drop, Nat.mul_succ, Nat.add_comm]
    case neg =>
      have hs : (b.drop (envFrameWireSize * (k + 1))).length < envFrameWireSize := by
        rw [List.length_drop]
        omega
      rw [toFrames_of_lt hs, toFrames_of_lt (Nat.not_le.mp h), List.drop_nil]

theorem getElem?_toFrames_iff (b : List UInt8) (k : Nat) (f : EnvFrame) :
    (toFrames b)[k]? = some f ↔ readAt b (envFrameWireSize * k) envFrameWireSize = f.bytes := by
  rw [← List.head?_drop, ← toFrames_drop, readAt]
  generalize b.drop (envFrameWireSize * k) = d
  by_cases h : envFrameWireSize ≤ d.length
  case pos =>
    rw [toFrames_of_le h, List.head?_cons, ← EnvFrame.bytes_ofBytes h, Option.some_inj,
      EnvFrame.bytes_injective.eq_iff]
  case neg =>
    refine iff_of_false (by simp [toFrames_of_lt (Nat.not_le.mp h)]) fun he => h ?_
    have hl := congrArg List.length he
    rw [List.length_take, EnvFrame.bytes_length] at hl
    omega

namespace CacheWriter

variable {c : CacheWriter} {fd : CacheFd} {w : Wire}

theorem readBack_of_nonneg (h : c.cacheFd = some fd) (h₀ : 0 ≤ c.readCursor) :
    c.readBack = (toFrames <| (c.fs.content fd.node).drop c.readCursor.toNat).take c.slots := by
  simp [readBack, lseek, Int.not_lt.mpr h₀, h, loopFrames, slots]

theorem readBack_of_neg (h : c.cacheFd = some fd) (h₀ : c.readCursor < 0) :
    c.readBack = (toFrames <| (c.fs.content fd.node).drop fd.offset).take c.slots := by
  simp [readBack, lseek, h₀, h, loopFrames, slots]

theorem loopFrames_of_not_lt (h : ¬c.readCursor < c.writeCursor) : c.loopFrames = [] := by
  unfold loopFrames
  split
  case h_1 => rfl
  case h_2 =>
    have hz : c.slots = 0 := by
      simp only [slots, envFrameWireSize]
      omega
    rw [hz, List.take_zero]

theorem loopFrames_of_short (h : (c.read envFrameWireSize).fst.length ≠ envFrameWireSize) :
    c.loopFrames = [] := by
  unfold loopFrames
  cases hc : c.cacheFd
  case none    => rfl
  case some fd =>
    simp only [CacheWriter.read, hc, length_readAt] at h
    simp only
    rw [toFrames_of_lt (by rw [List.length_drop]; omega), List.take_nil]

theorem loopFrames_cons (ha : c.Apart) (hp : c.readCursor < c.writeCursor)
    (h : (c.read envFrameWireSize).fst.length = envFrameWireSize) (o : SaveOutcome) :
    c.loopFrames =
    EnvFrame.ofBytes (c.read envFrameWireSize).fst :: (c.afterRound o).loopFrames := by
  have ⟨h₁, h₂, h₃⟩ := c.afterRound_cursors o
  unfold loopFrames
  rw [h₃]
  cases hc : c.cacheFd
  case none    => simp [CacheWriter.read, hc, envFrameWireSize] at h
  case some fd =>
    have hn : c.slots = (c.afterRound o).slots + 1 := by
      simp only [slots, h₁, h₂, envFrameWireSize]
      omega
    simp only [CacheWriter.read, hc, length_readAt] at h
    simp only [CacheWriter.read, hc, length_readAt, afterRound_content (ha fd hc), h]
    rw [toFrames_of_le (by rw [List.length_drop]; omega), hn, List.take_succ_cons, List.drop_drop,
      readAt, EnvFrame.ofBytes_take]

theorem replayLoop_sent (ha : c.Apart) :
    (replayLoop wireIo c w).snd.sent =
    w.sent ++ (c.loopFrames.take (leadingOks w.sends)).map retryBytes := by
  induction c, w using replayLoop.induct wireIo <;> rw [replayLoop]
  case case1 c w hp _ hr =>
    rw [if_pos hp, if_pos hr, loopFrames_of_short hr]
    simp
  case case2 c w hp _ hr _ _ hs =>
    rw [if_pos hp, if_neg hr, if_pos hs, leadingOks_of_not_ok hs, sent_of_not_ok hs]
    simp
  case case3 c w hp _ _ hr frm sent hs c₁ saved hi =>
    have ho : w.sends.headD .errIo = .ok := not_not.mp hs
    have hc := loopFrames_cons ha hp (not_not.mp hr) saved.fst
    have hi := hi (ha.afterRound _)
    have hw : saved.snd.sends = w.sends.tail := rfl
    have hl : saved.snd.sent = w.sent ++ [frm.bytes] := sent_of_ok (not_not.mp hs)
    rw [if_pos hp, if_neg hr, if_neg hs, leadingOks_of_ok ho, hc, List.take_succ_cons, List.map_cons]
    refine hi.trans ?_
    rw [hl, hw, List.append_assoc]
    rfl
  case case4 c w hp =>
    rw [if_neg hp, loopFrames_of_not_lt hp]
    simp

theorem readBack_of_none (h : c.cacheFd = none) : c.readBack = [] := by
  have hk := (keepsBut_lseek 0 c.readCursor c).cacheFd
  rw [h, Option.map_none, Option.map_eq_none_iff] at hk
  rw [readBack, loopFrames, hk]

theorem cacheReplayStart_sent (ha : c.Apart) (sends : List IotStatus) (saves : List SaveOutcome) :
    (cacheReplayStart wireIo c { sends, saves, log := [] }).snd.snd.sent =
    (c.readBack.take (leadingOks sends)).map retryBytes := by
  have ⟨h₁, h₂, _⟩ := c.lseek_cursors c.readCursor
  unfold cacheReplayStart
  split
  case isFalse  => exact replayLoop_sent <| ha.lseek _
  case isTrue h =>
    have he : c.readBack = [] := by
      cases h
      case inl h => exact readBack_of_none <| Option.isNone_iff_eq_none.mp h
      case inr h => exact loopFrames_of_not_lt <| by omega
    simp [he, Wire.sent]

end CacheWriter
end IotCollector
