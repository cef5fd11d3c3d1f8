import IotCollector.Lib.Transition
import IotCollector.Ingress.Decoder

namespace IotCollector

-- A stream between two passes of the loops of `frame_stream_feed`, with the chunks which the calls
-- have brought, the part of the last one that is not copied yet, and the frames the sink has got.
-- While no call is under way, `busy` is false.
structure FeedRun where
  stream    : FrameStream
  calls     : List (List UInt8)
  data      : List UInt8
  delivered : List EnvFrame
  busy      : Bool

inductive FeedAct
  | call (chunk : List UInt8)
  | pass

namespace FeedRun

def init : FeedRun where
  stream    := .frameStreamReset
  calls     := []
  data      := []
  delivered := []
  busy      := false

variable (r : FeedRun)

def input : List UInt8 :=
  r.calls.flatten

def call (chunk : List UInt8) : FeedRun :=
  { r with calls := r.calls ++ [chunk], data := chunk, busy := true }

@[simp]
theorem call_input (chunk : List UInt8) : (r.call chunk).input = r.input ++ chunk := by
  simp [call, input]

def slide : FeedRun :=
  { r with stream := r.stream.slide }

@[simp]
theorem slide_stream : r.slide.stream = r.stream.slide :=
  rfl

@[simp]
theorem slide_data : r.slide.data = r.data :=
  rfl

@[simp]
theorem slide_delivered : r.slide.delivered = r.delivered :=
  rfl

@[simp]
theorem slide_input : r.slide.input = r.input :=
  rfl

def cut (frame : EnvFrame) : FeedRun :=
  { r with stream := r.stream.consume, delivered := r.delivered ++ [frame] }

@[simp]
theorem cut_data (frame : EnvFrame) : (r.cut frame).data = r.data :=
  rfl

@[simp]
theorem cut_delivered (frame : EnvFrame) : (r.cut frame).delivered = r.delivered ++ [frame] :=
  rfl

@[simp]
theorem cut_input (frame : EnvFrame) : (r.cut frame).input = r.input :=
  rfl

-- A pass of the first loop.
def mergePass : FeedRun :=
  let take := min r.data.length r.stream.room
  if take = 0 then
    r.slide
  else
    { r with
      stream := r.stream.append r.data take (Nat.min_le_right ..)
      data   := r.data.drop take }

-- A pass of the second loop.
def cutPass : FeedRun :=
  let wire := r.stream.buf.take envFrameWireSize
  if !frameMagicOk wire then
    r.slide
  else
    match decodeWire wire with
    | .error _  => r.slide
    | .ok frame => r.cut frame

def pass : FeedRun :=
  if r.data ≠ [] then
    r.mergePass
  else if envFrameWireSize ≤ r.stream.buf.length then
    r.cutPass
  else
    { r with busy := false }

end FeedRun

def feedStep : Transition FeedRun FeedAct
  | r, .call chunk => if r.busy then none else some (r.call chunk)
  | r, .pass       => if r.busy then some r.pass else none

end IotCollector
