import IotCollector.Common.Proto

namespace IotCollector

-- The capacity of the buffer of a `stream_t`: `ENV_FRAME_WIRE_SIZE * 8`.
def bridgeStreamCap : Nat := 8 * envFrameWireSize

-- The `stream_t` of the bridge, with the counter `g_decode_fail`.
structure BridgeStream where
  buf        : List UInt8
  decodeFail : UInt64
  bounded    : buf.length ≤ bridgeStreamCap

namespace BridgeStream

def init : BridgeStream where
  buf        := []
  decodeFail := 0
  bounded    := Nat.zero_le _

variable (st : BridgeStream)

-- `memmove(buf, buf + 1, len - 1)` and `len--`.
def slide : BridgeStream where
  buf        := st.buf.tail
  decodeFail := st.decodeFail
  bounded    := by have := st.bounded; simp; omega

-- A slide over a byte with which no frame begins.
def reject : BridgeStream :=
  { st.slide with decodeFail := st.decodeFail + 1 }

def consume : BridgeStream where
  buf        := st.buf.drop envFrameWireSize
  decodeFail := st.decodeFail
  bounded    := by have := st.bounded; simp; omega

def room : Nat :=
  bridgeStreamCap - st.buf.length

def append (data : List UInt8) (n : Nat) (h : n ≤ st.room) : BridgeStream where
  buf        := st.buf ++ data.take n
  decodeFail := st.decodeFail
  bounded    := by have := st.bounded; simp [room] at *; omega

-- The first loop of `stream_feed`, where `data` is the part of the input from `i` on.
def merge (st : BridgeStream) (data : List UInt8) : BridgeStream :=
  if _ : data = [] then
    st
  else if _ : min data.length st.room = 0 then
    st.slide.merge data
  else
    (st.append data (min data.length st.room) (Nat.min_le_right ..)).merge
      (data.drop (min data.length st.room))
termination_by (data.length, st.buf.length)
decreasing_by
  · have := List.length_pos_iff.mpr ‹¬data = []›
    apply Prod.Lex.right
    simp only [slide, room, bridgeStreamCap, envFrameWireSize, List.length_tail] at *
    omega
  · have := List.length_pos_iff.mpr ‹¬data = []›
    apply Prod.Lex.left
    simp only [List.length_drop]
    omega

def decode (wire : List UInt8) : Option EnvFrame :=
  if !frameMagicOk wire then none else (frameDecode wire).toOption

-- The second loop of `stream_feed`, with the frames it hands to `handle_frame`.
def cutFrames (st : BridgeStream) : List EnvFrame × BridgeStream :=
  if _ : envFrameWireSize ≤ st.buf.length then
    match decode (st.buf.take envFrameWireSize) with
    | none       => st.reject.cutFrames
    | some frame =>
      let r := st.consume.cutFrames
      (frame :: r.fst, r.snd)
  else
    ([], st)
termination_by st.buf.length
decreasing_by
  all_goals
    simp only [reject, slide, consume, List.length_tail, List.length_drop, envFrameWireSize] at *
    omega

def streamFeed (data : List UInt8) : List EnvFrame × BridgeStream :=
  (st.merge data).cutFrames

def feedChunks (st : BridgeStream) : List (List UInt8) → List EnvFrame × BridgeStream
  | []           => ([], st)
  | read :: tail =>
    let r  := st.streamFeed read
    let r' := r.snd.feedChunks tail
    (r.fst ++ r'.fst, r'.snd)

end BridgeStream

-- The frames of one connection which the bridge handles.
def bridgeSession (reads : List (List UInt8)) : List EnvFrame :=
  (BridgeStream.init.feedChunks reads).fst

end IotCollector
