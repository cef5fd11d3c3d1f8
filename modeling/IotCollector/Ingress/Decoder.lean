import IotCollector.Common.Proto

namespace IotCollector

def decodeWire (buf : List UInt8) : Except IotStatus EnvFrame :=
  if !frameMagicOk buf
  then .error .errProto
  else frameDecode buf

-- The capacity of the accumulation buffer: `ENV_FRAME_WIRE_SIZE * 4`.
def frameStreamCap : Nat := 4 * envFrameWireSize

-- The list `buf` holds the valid bytes of the C buffer, so its length is the field `len`.
@[ext]
structure FrameStream where
  buf     : List UInt8
  resync  : UInt64
  bounded : buf.length ≤ frameStreamCap

namespace FrameStream

def frameStreamReset : FrameStream where
  buf     := []
  resync  := 0
  bounded := Nat.zero_le _

@[simp]
theorem frameStreamReset_buf : frameStreamReset.buf = [] :=
  rfl

-- `memmove(buf, buf + 1, len - 1)`, `len--` and `resync++`.
def slide (st : FrameStream) : FrameStream where
  buf     := st.buf.tail
  resync  := st.resync + 1
  bounded := by have := st.bounded; simp; omega

-- `memmove(buf, buf + ENV_FRAME_WIRE_SIZE, len - ENV_FRAME_WIRE_SIZE)`.
def consume (st : FrameStream) : FrameStream where
  buf     := st.buf.drop envFrameWireSize
  resync  := st.resync
  bounded := by have := st.bounded; simp; omega

@[simp]
theorem slide_buf (st : FrameStream) : st.slide.buf = st.buf.tail :=
  rfl

@[simp]
theorem slide_resync (st : FrameStream) : st.slide.resync = st.resync + 1 :=
  rfl

@[simp]
theorem consume_buf (st : FrameStream) : st.consume.buf = st.buf.drop envFrameWireSize :=
  rfl

@[simp]
theorem consume_resync (st : FrameStream) : st.consume.resync = st.resync :=
  rfl

def room (st : FrameStream) : Nat :=
  frameStreamCap - st.buf.length

-- The copy of the first `n` bytes of `data` behind the valid ones.
def append (st : FrameStream) (data : List UInt8) (n : Nat) (h : n ≤ st.room) : FrameStream where
  buf     := st.buf ++ data.take n
  resync  := st.resync
  bounded := by have := st.bounded; simp [room] at *; omega

-- The first loop of `frame_stream_feed`, where `data` is the part of the input from `i` on.
def merge (st : FrameStream) (data : List UInt8) : FrameStream :=
  if _ : data = [] then
    st
  else if _ : min data.length st.room = 0 then
    -- The buffer is full: the oldest byte makes room for the next one.
    st.slide.merge data
  else
    (st.append data (min data.length st.room) (Nat.min_le_right ..)).merge
      (data.drop (min data.length st.room))
termination_by (data.length, st.buf.length)
decreasing_by
  · have := List.length_pos_iff.mpr ‹¬data = []›
    apply Prod.Lex.right
    simp only [slide_buf, room, frameStreamCap, envFrameWireSize, List.length_tail] at *
    omega
  · have := List.length_pos_iff.mpr ‹¬data = []›
    apply Prod.Lex.left
    simp only [List.length_drop]
    omega

-- The second loop of `frame_stream_feed`, with the frames it hands to the sink.
def cutFrames (st : FrameStream) : List EnvFrame × FrameStream :=
  if _ : envFrameWireSize ≤ st.buf.length then
    if !frameMagicOk (st.buf.take envFrameWireSize) then
      st.slide.cutFrames
    else
      match decodeWire (st.buf.take envFrameWireSize) with
      | .error _  => st.slide.cutFrames
      | .ok frame =>
        let r := st.consume.cutFrames
        (frame :: r.fst, r.snd)
  else
    ([], st)
termination_by st.buf.length
decreasing_by
  all_goals
    simp only [slide_buf, consume_buf, List.length_tail, List.length_drop, envFrameWireSize] at *
    omega

-- The C function returns the number of delivered frames.
def frameStreamFeed (st : FrameStream) (data : List UInt8) : List EnvFrame × FrameStream :=
  (st.merge data).cutFrames

-- The receive loop of `tcp_session_once`, where `recvs` are the chunks which `recv` returns.
def feedChunks (st : FrameStream) : List (List UInt8) → List EnvFrame × FrameStream
  | []           => ([], st)
  | recv :: tail =>
    let r  := st.frameStreamFeed recv
    let r' := r.snd.feedChunks tail
    (r.fst ++ r'.fst, r'.snd)

end FrameStream

-- The frames which one connection delivers to its sink.
def tcpSessionOnce (recvs : List (List UInt8)) : List EnvFrame :=
  (FrameStream.frameStreamReset.feedChunks recvs).fst

end IotCollector
