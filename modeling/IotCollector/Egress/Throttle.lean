import IotCollector.Common.Tbf
import IotCollector.Egress.CacheWriter
import IotCollector.Egress.UnicastSender

namespace IotCollector

def tbfMaxFetchPerOp : Nat := 65536

-- What a send of a replay meets: the bucket, which may be NULL, the ticks to come, the link, the
-- outcomes of the writes of the cursor, and what the connection has accepted. A send that waits for
-- tokens which never come leaves its thread asleep.
structure Exit where
  bucket : Option Tbf
  ticks  : List UInt64
  link   : Link
  saves  : List SaveOutcome
  wire   : List (List UInt8)
  asleep : Bool

namespace Exit

-- The argument `write` is the result of `unicast_write_all` on the bytes of a slice.
def unicastWriteThrottled (write : List UInt8 → IotStatus) (buf : List UInt8) (x : Exit) :
    Option (IotStatus × Exit) :=
  match x.bucket with
  | none   => some (.errGeneric, x)
  | some t =>
    if _ : buf = [] then
      some (.ok, x)
    else
      let want := min buf.length tbfMaxFetchPerOp
      match t.tbfFetchToken want.toUInt64 false x.ticks with
      | some (.ok, t, ticks) =>
        let x := { x with bucket := some t, ticks }
        if write (buf.take want) = .ok
        then unicastWriteThrottled write (buf.drop want)
          { x with wire := x.wire ++ [buf.take want] }
        else some (.errIo, x)
      | some (.errShutdown, t, ticks) => some (.errShutdown, { x with bucket := some t, ticks })
      -- With any other result, the same request is made again, and again with this result.
      | _ => none
termination_by buf.length
decreasing_by
  have := List.length_pos_iff.mpr ‹¬buf = []›
  simp only [List.length_drop, tbfMaxFetchPerOp]
  omega

def unicastSenderSendWithBucket (fd : Int) (write : List UInt8 → IotStatus) (buf : List UInt8)
    (x : Exit) : Option (IotStatus × Exit) :=
  if fd < 0 ∨ buf.length = 0 then
    some (.errGeneric, x)
  else
    (x.unicastWriteThrottled write buf).map fun r =>
      (r.fst, { r.snd with link := r.snd.link.markResult (r.fst = .ok) })

end Exit

-- The world of a replay on the connected descriptor. A thread that has gone to sleep sends nothing.
def exitIo (fd : Int) (write : List UInt8 → IotStatus) : ReplayIo Exit where
  send x b := (x.unicastSenderSendWithBucket fd write b).getD (.errShutdown, { x with asleep := true })
  save x   := (x.saves.headD .saved, { x with saves := x.saves.tail })

end IotCollector
