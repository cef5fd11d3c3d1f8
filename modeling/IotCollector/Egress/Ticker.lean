import IotCollector.Common.Clock

namespace IotCollector

-- What a pass of `dispatch_ticker` gives to `tbf_tick`, if it calls it.
def dispatchTickerPass (last now : Timespec) : Option UInt64 :=
  let diffNs := Int64.ofInt <| (now.tvSec - last.tvSec) * 1000000000 + (now.tvNsec - last.tvNsec)
  if diffNs ≤ 0 then
    none
  else
    let elapsedMs := diffNs.toUInt64 / 1000000
    if elapsedMs = 0 then none else some elapsedMs

-- What `dispatch_ticker` gives to `tbf_tick` while it reads the clock. The buckets get the same.
def dispatchTicker (last : Timespec) : List Timespec → List UInt64
  | []              => []
  | now :: readings => (dispatchTickerPass last now).toList ++ dispatchTicker now readings

end IotCollector
