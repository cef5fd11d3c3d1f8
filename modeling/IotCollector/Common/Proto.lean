import Mathlib.Logic.Function.Iterate
import IotCollector.Common.Frame

namespace IotCollector

open Bytes

-- `htons`, `ntohs`, `htonl` and `ntohl` on a little-endian host.
abbrev htons := swap16
abbrev ntohs := swap16
abbrev htonl := swap32
abbrev ntohl := swap32

-- One pass of the inner loop of `crc16_ccitt`.
def crcBit (crc : UInt16) : UInt16 :=
  if crc &&& 0x8000 ≠ 0
  then (crc <<< 1) ^^^ 0x1021
  else crc <<< 1

-- One pass of the outer loop of `crc16_ccitt`.
def crcByte (crc : UInt16) (b : UInt8) : UInt16 :=
  crcBit^[8] (crc ^^^ (b.toUInt16 <<< 8))

def crc16Ccitt (data : List UInt8) : UInt16 :=
  data.foldl crcByte 0xffff

def frameHton (f : EnvFrame) : EnvFrame :=
  { f with
    stationId    := htons f.stationId
    timestampSec := htonl f.timestampSec
    timestampMs  := htonl f.timestampMs
    temperature  := (htons f.temperature.toUInt16).toInt16
    humidity     := htons f.humidity
    pm25         := htons f.pm25
    pm10         := htons f.pm10
    coPpb        := htons f.coPpb
    noiseDb      := htons f.noiseDb }

def frameNtoh (f : EnvFrame) : EnvFrame :=
  { f with
    stationId    := ntohs f.stationId
    timestampSec := ntohl f.timestampSec
    timestampMs  := ntohl f.timestampMs
    temperature  := (ntohs f.temperature.toUInt16).toInt16
    humidity     := ntohs f.humidity
    pm25         := ntohs f.pm25
    pm10         := ntohs f.pm10
    coPpb        := ntohs f.coPpb
    noiseDb      := ntohs f.noiseDb }

def frameMagicOk (buf : List UInt8) : Bool :=
  if buf.length < envFrameWireSize
  then false
  else buf.getD 0 0 == frameMagic₀ && buf.getD 1 0 == frameMagic₁

-- The CRC over the memory of a frame whose `crc16` field has been zeroed.
def frameCrc (f : EnvFrame) : UInt16 :=
  let tmp := { f with crc16 := 0 }
  crc16Ccitt (tmp.bytes.take envFrameCrcSize)

def frameCrcOk (f : EnvFrame) : Bool :=
  if f.magic.1 ≠ frameMagic₀ ∨ f.magic.2 ≠ frameMagic₁
  then false
  else frameCrc f == ntohs f.crc16

def frameFillCrc (f : EnvFrame) : EnvFrame :=
  { f with crc16 := htons (frameCrc f) }

-- The result `none` stands for the return value -1.
def frameEncode (f : EnvFrame) (bufLen : Nat) : Option (List UInt8) :=
  if bufLen < envFrameWireSize
  then none
  else
    let wire := { f with magic := (frameMagic₀, frameMagic₁) }
    let wire := if wire.version = 0 then { wire with version := 1 } else wire
    some (frameFillCrc wire).bytes

def frameDecode (buf : List UInt8) : Except IotStatus EnvFrame :=
  if buf.length < envFrameWireSize then
    .error .errGeneric
  else if !frameMagicOk buf then
    .error .errProto
  else
    let wire := EnvFrame.ofBytes buf
    if !frameCrcOk wire
    then .error .errProto
    else .ok (frameNtoh wire)

end IotCollector
