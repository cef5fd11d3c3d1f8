import IotCollector.Lib.Framing
import IotCollector.Common.Theorems.Proto
import IotCollector.Egress.Connection
import IotCollector.Egress.Theorems.Reconnect

namespace IotCollector

theorem envFrameWireSize_pos : 0 < envFrameWireSize := by
  decide

-- The records of the connection are the frames as `frame_encode` writes them.
def wireFraming : Framing UInt8 where
  size       := envFrameWireSize
  pos        := envFrameWireSize_pos
  IsRecord b := ∃ f, frameEncode (frameHton f) envFrameWireSize = some b
  length_eq  := by
    rintro b ⟨f, hf⟩
    rw [frameEncode_eq (le_refl _)] at hf
    rw [← Option.some.inj hf, EnvFrame.bytes_length]

-- The thread holds `g_unicast_lock`.
def SenderPc.Inside : SenderPc → Prop
  | .idle | .checked _ | .swapping _ => False
  | _                                => True

-- The bytes that a thread is to write are a frame, or the rest of the frame that the stream ends in.
def SenderPc.Fits (stream : List UInt8) : SenderPc → Prop
  | .checked wire | .holding wire | .sending wire | .fetching wire => wireFraming.IsRecord wire
  | .writing rest =>
    wireFraming.IsRecord rest ∨ rest.length < envFrameWireSize ∧ wireFraming.Part stream rest
  | _ => True

namespace Connection

variable {ι : Type*} {s s' : Connection ι} {who other : Sender ι} {pc : SenderPc}

-- A thread that begins to write a frame finds a stream of complete frames.
def Clean (s : Connection ι) : ConnectionAct ι → Prop
  | .send who (some _) =>
    match s.pcs who with
    | .writing rest => rest.length = envFrameWireSize → envFrameWireSize ∣ s.stream.length
    | _             => True
  | _ => True

structure Tidy (s : Connection ι) : Prop where
  stream : wireFraming.Whole s.stream
  lock   : ∀ who, (s.pcs who).Inside → s.unicastLock = some who
  pcs    : ∀ who, (s.pcs who).Fits s.stream

theorem Tidy.alone (h : s.Tidy) (hw : (s.pcs who).Inside) (ho : other ≠ who) :
    ¬(s.pcs other).Inside :=
  fun hi => ho <| Option.some.inj <| (h.lock other hi).symm.trans <| h.lock who hw

theorem Tidy.not_inside (h : s.Tidy) (hl : s.unicastLock = none) (who : Sender ι) :
    ¬(s.pcs who).Inside := by
  intro hi
  cases hl ▸ h.lock who hi

theorem Tidy.fits (h : s.Tidy) (hp : s.pcs who = pc) : pc.Fits s.stream :=
  hp ▸ h.pcs who

theorem fits_of_not_inside {s₁ s₂ : List UInt8} (h : pc.Fits s₁) (hi : ¬pc.Inside) :
    pc.Fits s₂ := by
  cases pc <;> first | exact h | exact absurd trivial hi

theorem start_tidy (cfg : DispatcherCfg) (connect : Except IotError Nat) :
    (start cfg connect : Connection ι).Tidy where
  stream := .nil
  lock   := fun _ hi => hi.elim
  pcs    := fun _ => trivial

variable [DecidableEq ι]

theorem Tidy.move (h : s.Tidy) (pc : SenderPc) (hp : s'.pcs = Function.update s.pcs who pc)
    (hs : wireFraming.Whole s'.stream) (hf : pc.Fits s'.stream)
    (hl : pc.Inside → s'.unicastLock = some who)
    (ho : (∀ other ≠ who, ¬(s.pcs other).Inside) ∨
      s'.unicastLock = s.unicastLock ∧ s'.stream = s.stream) : s'.Tidy := by
  refine ⟨hs, fun t hi => ?_, fun t => ?_⟩ <;> by_cases ht : t = who
  · rw [hp, ht, Function.update_self] at hi
    exact ht ▸ hl hi
  · rw [hp, Function.update_of_ne ht] at hi
    cases ho
    case inl ho => exact absurd hi <| ho t ht
    case inr ho => exact ho.left ▸ h.lock t hi
  · rw [hp, ht, Function.update_self]
    exact hf
  · rw [hp, Function.update_of_ne ht]
    cases ho
    case inl ho => exact fits_of_not_inside (h.pcs t) <| ho t ht
    case inr ho => exact ho.right ▸ h.pcs t

theorem Tidy.afterSend {rest : List UInt8} {accepted : Option Nat} (h : s.Tidy)
    (hp : s.pcs who = .writing rest) (hc : s.Clean (.send who accepted))
    (hs : s.afterSend who rest accepted = some s') : s'.Tidy := by
  have hi : (s.pcs who).Inside := hp ▸ trivial
  have hl := h.lock who hi
  have ho : ∀ other ≠ who, ¬(s.pcs other).Inside := fun _ => h.alone hi
  have hf : (SenderPc.writing rest).Fits s.stream := hp ▸ h.pcs who
  cases accepted
  case none =>
    cases hs
    exact h.move _ rfl h.stream trivial (fun _ => hl) (.inl ho)
  case some k =>
    have hpart : wireFraming.Part s.stream rest := by
      cases hf
      case inr hf => exact hf.right
      case inl hf =>
        simp only [Clean, hp] at hc
        exact h.stream.part (hc <| wireFraming.length_eq hf) hf
    have hk : wireFraming.Part (s.stream ++ rest.take k) (rest.drop k) :=
      Framing.Part.append <| (List.take_append_drop k rest).symm ▸ hpart
    simp only [Connection.afterSend] at hs
    split at hs <;> try cases hs
    case isTrue hn =>
      split at hs <;> cases hs
      case isTrue  => exact h.move _ rfl hk.whole trivial (fun _ => hl) (.inl ho)
      case isFalse =>
        have hlt : (rest.drop k).length < envFrameWireSize := by
          have hle : rest.length ≤ envFrameWireSize := by
            cases hf
            case inl hf => exact (wireFraming.length_eq hf).le
            case inr hf => exact hf.left.le
          rw [List.length_drop]
          omega
        exact h.move _ rfl hk.whole (.inr ⟨hlt, hk⟩) (fun _ => hl) (.inl ho)

theorem connectionStep_tidy {cfg : DispatcherCfg} {a : ConnectionAct ι} (h : s.Tidy)
    (hc : s.Clean a) (hs : connectionStep cfg s a = some s') : s'.Tidy := by
  cases a <;> simp only [connectionStep] at hs
  case dispatch i f =>
    split at hs <;> try cases hs
    case h_1 wire hp hl hw =>
      exact h.move (.holding wire) rfl h.stream ⟨f, hw⟩ (fun _ => rfl)
        (.inl fun t _ => h.not_inside hl t)
  case heartbeat t =>
    split at hs <;> try cases hs
    case h_1 wire hp hw =>
      split at hs <;> cases hs
      exact h.move (.checked wire) rfl h.stream ⟨heartFrame t, hw⟩ False.elim (.inr ⟨rfl, rfl⟩)
  case lock =>
    split at hs <;> try cases hs
    case h_1 wire hp hl =>
      have hf : wireFraming.IsRecord wire := h.fits hp
      exact h.move (.holding wire) rfl h.stream hf (fun _ => rfl)
        (.inl fun t _ => h.not_inside hl t)
  case check who =>
    split at hs <;> try cases hs
    case h_1 wire hp =>
      have hi : (s.pcs who).Inside := hp ▸ trivial
      have hf : wireFraming.IsRecord wire := h.fits hp
      split at hs <;> cases hs
      case isTrue  =>
        exact h.move (.sending wire) rfl h.stream hf (fun _ => h.lock who hi)
          (.inr ⟨rfl, rfl⟩)
      case isFalse =>
        exact h.move .idle rfl h.stream trivial False.elim
          (.inl fun _ => h.alone hi)
  case lockSend who =>
    split at hs <;> try cases hs
    case h_1 wire hp _ =>
      have hi : (s.pcs who).Inside := hp ▸ trivial
      have hw : wireFraming.IsRecord wire := h.fits hp
      have hf : (afterLock who wire).Fits s.stream := by
        cases who
        case worker i => exact hw
        case monitor  => exact .inl hw
      exact h.move _ rfl h.stream hf (fun _ => h.lock who hi) (.inr ⟨rfl, rfl⟩)
  case fetch who ok =>
    split at hs <;> try cases hs
    case h_1 wire hp =>
      have hi : (s.pcs who).Inside := hp ▸ trivial
      have hf : (if ok then SenderPc.writing wire else .marking false).Fits s.stream := by
        cases ok
        case false => trivial
        case true  => exact .inl <| h.fits hp
      exact h.move _ rfl h.stream hf (fun _ => h.lock who hi) (.inr ⟨rfl, rfl⟩)
  case send who accepted =>
    split at hs <;> try cases hs
    case h_1 rest hp => exact h.afterSend hp hc hs
  case mark who =>
    split at hs <;> try cases hs
    case h_1 ok hp =>
      have hi : (s.pcs who).Inside := hp ▸ trivial
      exact h.move .idle rfl h.stream trivial False.elim (.inl fun _ => h.alone hi)
  case connect c =>
    split at hs <;> try cases hs
    case h_1 hp =>
      split at hs <;> cases hs
      exact h.move _ rfl h.stream trivial False.elim (.inr ⟨rfl, rfl⟩)
  case swap =>
    split at hs <;> try cases hs
    case h_1 fd hp hl =>
      exact h.move .idle rfl .nil trivial False.elim (.inl fun t _ => h.not_inside hl t)

end Connection

-- The stream of a connection is made of frames, as long as nothing is written behind a frame that
-- has been cut off.
theorem connection_framed {ι : Type*} [DecidableEq ι] (cfg : DispatcherCfg)
    (connect : Except IotError Nat) (as : List (ConnectionAct ι))
    (g : (connectionStep cfg).Guarded (Connection.start cfg connect) as Connection.Clean) :
    (connectionStep cfg).Always (Connection.start cfg connect) as
      fun s => wireFraming.Whole s.stream := by
  intro bs s hp hs
  have h : s.Tidy := Transition.invariant_of_guarded (Connection.start_tidy cfg connect)
    Connection.connectionStep_tidy (g.of_prefix hp) hs
  exact h.stream

def sendActs (accepted : List (Option Nat)) : List (ConnectionAct Unit) :=
  [.dispatch () .zero, .check (.worker ()), .lockSend (.worker ()), .fetch (.worker ()) true] ++
  accepted.map (.send (.worker ())) ++ [.mark (.worker ())]

-- A frame in two parts, a whole one, and the beginning of a third one.
def framedActs : List (ConnectionAct Unit) :=
  sendActs [some 1, some 27] ++ sendActs [some 28] ++ sendActs [some 5, none]

theorem connection_framed_one :
    (connectionStep sampleCfg).Guarded (.start sampleCfg (.ok 4)) framedActs Connection.Clean ∧
    ((connectionStep sampleCfg).exec (.start sampleCfg (.ok 4)) framedActs).map (·.stream.length) =
      some 61 ∧
    (connectionStep sampleCfg).Always (.start sampleCfg (.ok 4)) framedActs
      fun s => wireFraming.Whole s.stream := by
  have g : (connectionStep sampleCfg).Guarded (.start sampleCfg (.ok 4)) framedActs
      Connection.Clean := by
    refine .cons trivial rfl <| .cons trivial rfl <| .cons trivial rfl <| .cons trivial rfl <|
      .cons (fun _ => by decide) rfl <| .cons (fun h => absurd h <| by decide) rfl <|
      .cons trivial rfl ?_
    refine .cons trivial rfl <| .cons trivial rfl <| .cons trivial rfl <| .cons trivial rfl <|
      .cons (fun _ => by decide) rfl <| .cons trivial rfl ?_
    exact .cons trivial rfl <| .cons trivial rfl <| .cons trivial rfl <| .cons trivial rfl <|
      .cons (fun _ => by decide) rfl <| .cons trivial rfl <| .cons trivial rfl .nil
  exact ⟨g, by decide, connection_framed _ _ _ g⟩

theorem magic_of_isRecord {b : List UInt8} (h : wireFraming.IsRecord b) :
    b.getD 1 0 = frameMagic₁ := by
  have ⟨f, hf⟩ := h
  rw [frameEncode_eq (le_refl _)] at hf
  rw [← Option.some.inj hf]
  rfl

-- One byte of a frame gets through, and the link still counts as online for the next frame.
theorem connection_framed_false :
    ¬∀ (cfg : DispatcherCfg) (connect : Except IotError Nat) (as : List (ConnectionAct Unit)),
      (connectionStep cfg).Always (.start cfg connect) as fun s => wireFraming.Whole s.stream := by
  intro h
  have h := h sampleCfg (.ok 4) (sendActs [some 1, none] ++ sendActs [some 28]) _ _
    List.prefix_rfl rfl
  have hm := magic_of_isRecord <| h.take (by decide)
  exact absurd hm (by decide)

end IotCollector
