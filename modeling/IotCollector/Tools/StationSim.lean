import IotCollector.Common.Clock
import IotCollector.Common.Proto

namespace IotCollector

-- The `station_profile_t` without its floating-point fields.
structure StationProfile where
  stationId    : UInt16
  basePm25     : UInt16
  basePm10     : UInt16
  baseCo       : UInt16
  baseNoise    : UInt16
  lastFrame    : EnvFrame
  hasLastFrame : Bool

def profileInit (sid : UInt16) : StationProfile where
  stationId    := sid
  basePm25     := 20 + sid % 80
  basePm10     := 40 + sid % 100
  baseCo       := 100 + sid % 400
  baseNoise    := 400 + sid % 300
  lastFrame    := .zero
  hasLastFrame := false

def clampedAdd (base : UInt16) (offset : Int) (maxVal : UInt16) : UInt16 :=
  let max : Int := maxVal.toNat
  let tmp : Int := base.toNat + offset
  let tmp := if tmp < 0 then 0 else tmp
  let tmp := if tmp > max then max else tmp
  UInt16.ofNat tmp.toNat

-- What a call of `fill_normal_frame` gets from outside: the time, the results of its floating-point
-- computations, and the results of its calls of `rand` for the other measurements.
structure Sample where
  ts    : Timespec
  temp  : Int16
  hum   : UInt16
  pm25  : Nat
  pm10  : Nat
  co    : Nat
  noise : Nat

-- `f->crc16 = htons(crc16_ccitt((const uint8_t *)f, crc_len))`.
def simFillCrc (f : EnvFrame) : EnvFrame :=
  { f with crc16 := htons (crc16Ccitt (f.bytes.take envFrameCrcSize)) }

def fillNormalFrame (p : StationProfile) (s : Sample) (ftype : UInt8) : EnvFrame × StationProfile :=
  let pm25  := clampedAdd p.basePm25  (s.pm25 % 20 - 10 : Int) 999
  let pm10  := clampedAdd p.basePm10  (s.pm10 % 30 - 15 : Int) 999
  let co    := clampedAdd p.baseCo    (s.co % 50 - 25 : Int) 5000
  let noise := clampedAdd p.baseNoise (s.noise % 40 - 20 : Int) 1500
  let f := simFillCrc {
    magic        := (frameMagic₀, frameMagic₁)
    version      := 1
    frameType    := ftype
    stationId    := htons p.stationId
    timestampSec := htonl (.ofInt s.ts.tvSec)
    timestampMs  := htonl (.ofInt (s.ts.tvNsec.tdiv 1000000))
    temperature  := (htons s.temp.toUInt16).toInt16
    humidity     := htons s.hum
    pm25         := htons pm25
    pm10         := htons pm10
    coPpb        := htons co
    noiseDb      := htons noise
    crc16        := 0 }
  (f, { p with lastFrame := f, hasLastFrame := true })

-- The values of `rand` are `r` and, where an overflow is simulated, `field`.
def autoInject (f : EnvFrame) (p : StationProfile) (r field : Nat) : EnvFrame :=
  let dice := r % 100
  if dice < 90 then
    f
  else
    simFillCrc <|
      if dice < 93 then
        match field % 5 with
        | 0 => { f with pm25        := htons 65535 }
        | 1 => { f with pm10        := htons 65535 }
        | 2 => { f with temperature := (htons (-999)).toInt16 }
        | 3 => { f with humidity    := htons 65535 }
        | _ => { f with noiseDb     := htons 65535 }
      else if dice < 96 then
        let spike := p.basePm25 + 500
        { f with pm25 := htons (if spike > 999 then 999 else spike) }
      else if dice < 98 then
        if p.hasLastFrame then
          { f with
            timestampSec := p.lastFrame.timestampSec
            timestampMs  := p.lastFrame.timestampMs }
        else
          f
      else
        { f with timestampSec := htonl (ntohl f.timestampSec + 20) }

-- The frame that a sender thread sends next. Only plain frames are changed.
def nextFrame (p : StationProfile) (s : Sample) (ftype : UInt8) (r field : Nat) :
    EnvFrame × StationProfile :=
  let (f, p) := fillNormalFrame p s ftype
  if ftype = frameNormal
  then (autoInject f p r field, p)
  else (f, p)

end IotCollector
