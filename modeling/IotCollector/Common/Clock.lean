namespace IotCollector

-- A `struct timespec`.
structure Timespec where
  tvSec  : Int
  tvNsec : Int
  deriving DecidableEq

namespace Timespec

variable (ts : Timespec)

def toNs : Int :=
  ts.tvSec * 1000000000 + ts.tvNsec

-- The deadline which `tbf_fetch_token` computes from a reading of the clock.
def after (timeoutMs : Int32) : Timespec :=
  let tvSec  := ts.tvSec + timeoutMs.toInt.tdiv 1000
  let tvNsec := ts.tvNsec + timeoutMs.toInt.tmod 1000 * 1000000
  if tvNsec ≥ 1000000000
  then { tvSec := tvSec + 1, tvNsec := tvNsec - 1000000000 }
  else { tvSec, tvNsec }

theorem after_toNs (timeoutMs : Int32) :
    (ts.after timeoutMs).toNs = ts.toNs + timeoutMs.toInt * 1000000 := by
  have := timeoutMs.toInt.tmod_add_mul_tdiv 1000
  dsimp only [after, toNs]
  split <;> (dsimp only; omega)

end Timespec
end IotCollector
