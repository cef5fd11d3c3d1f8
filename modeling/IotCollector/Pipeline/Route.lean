import IotCollector.Pipeline.Cleaner

namespace IotCollector

-- What `cleaner_process` decides about a frame before it looks at the measurements. A frame that is
-- handed over goes to `process_valid_frame`, together with the context of the station.
inductive Route
  | alarm
  | heart
  | noCtx
  | stale  (ctx : StationInternalCtx)
  | waits  (ctx : StationInternalCtx)
  | handed (ctx : StationInternalCtx) (frame : EnvFrame)

namespace Cleaner

variable (c : Cleaner)

def route (frame : EnvFrame) (alloc : Bool) : Route :=
  if frame.IsAlarm then
    .alarm
  else if frame.frameType = frameHeart then
    .heart
  else
    match c.getInternalCtx frame.stationId alloc with
    | none     => .noCtx
    | some ctx =>
      if ctx.IsStale frame then
        .stale ctx
      else if ctx.IsJump frame then
        if h : ctx.reorderCount < reorderCap
        then .waits (ctx.buffer frame h)
        else .handed (ctx.swap frame) ctx.oldest
      else
        .handed ctx frame

def follow (D : Type*) [DoubleArith D] (frame : EnvFrame) : Route → CleanResult × EnvFrame × Cleaner
  | .alarm        => (.alarm, frame, c)
  | .heart        => (.drop, frame, c.count 4)
  | .noCtx        => (.drop, frame, c)
  | .stale ctx    => (.drop, frame, (c.put frame.stationId ctx).count 3)
  | .waits ctx    => (.drop, frame, c.put frame.stationId ctx)
  | .handed ctx g =>
    let r := c.processValidFrame D frame.stationId ctx g
    (r.fst, g, r.snd)

theorem cleanerProcess_eq (D : Type*) [DoubleArith D] (frame : EnvFrame) (alloc : Bool) :
    c.cleanerProcess D frame alloc = c.follow D frame (c.route frame alloc) := by
  unfold cleanerProcess route
  cases c.getInternalCtx frame.stationId alloc <;>
  simp only [apply_ite (c.follow D frame), apply_dite (c.follow D frame)] <;>
  rfl

end Cleaner

structure Cleaned where
  frame  : EnvFrame
  result : CleanResult
  output : EnvFrame

-- One call after the other. No `calloc` fails.
def cleanAll (D : Type*) [DoubleArith D] (c : Cleaner) : List EnvFrame → List Cleaned × Cleaner
  | []      => ([], c)
  | f :: fs =>
    let r := c.cleanerProcess D f true
    let s := cleanAll D r.snd.snd fs
    (⟨f, r.fst, r.snd.fst⟩ :: s.fst, s.snd)

-- The cleaner, and where the frames that were given to it have gone.
structure RouteRun where
  cleaner : Cleaner
  stale   : List EnvFrame
  handed  : List EnvFrame

namespace RouteRun

def init (stats : IotStats) : RouteRun where
  cleaner := .cleanerInit stats
  stale   := []
  handed  := []

def record (s : RouteRun) : Route → EnvFrame → RouteRun
  | .stale _, f    => { s with stale := s.stale ++ [f] }
  | .handed _ g, _ => { s with handed := s.handed ++ [g] }
  | _, _           => s

-- A call in which `calloc` does not fail.
def process (D : Type*) [DoubleArith D] (s : RouteRun) (f : EnvFrame) : RouteRun :=
  { s.record (s.cleaner.route f true) f with
    cleaner := (s.cleaner.cleanerProcess D f true).snd.snd }

end RouteRun
end IotCollector
