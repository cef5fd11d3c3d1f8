import Mathlib.Logic.Function.Basic
import IotCollector.Common.Proto

namespace IotCollector

-- What `decode_frame` takes out of a frame and prints.
structure DecodedFrame where
  version   : UInt8
  frameType : UInt8
  sid       : UInt16
  tsS       : UInt32
  tsMs      : UInt32
  temp      : Int16
  hum       : UInt16
  pm25      : UInt16
  pm10      : UInt16
  co        : UInt16
  noise     : UInt16
  crcR      : UInt16
  crcCalc   : UInt16

-- The counters `g_crc_ok`, `g_crc_fail`, `g_magic_fail`, `g_size_fail` and `g_type_count`.
structure DecoderCounts where
  crcOk     : UInt64
  crcFail   : UInt64
  magicFail : UInt64
  sizeFail  : UInt64
  typeCount : UInt8 → UInt64

-- `decode_frame`, with what it prints unless the frame is too short or has another magic.
def decodeFrame (c : DecoderCounts) (raw : List UInt8) : DecoderCounts × Option DecodedFrame :=
  if raw.length < envFrameWireSize then
    ({ c with sizeFail := c.sizeFail + 1 }, none)
  else
    let f := EnvFrame.ofBytes raw
    if f.magic.1 ≠ frameMagic₀ ∨ f.magic.2 ≠ frameMagic₁ then
      ({ c with magicFail := c.magicFail + 1 }, none)
    else
      let d : DecodedFrame := {
        version   := f.version
        frameType := f.frameType
        sid       := ntohs f.stationId
        tsS       := ntohl f.timestampSec
        tsMs      := ntohl f.timestampMs
        temp      := (ntohs f.temperature.toUInt16).toInt16
        hum       := ntohs f.humidity
        pm25      := ntohs f.pm25
        pm10      := ntohs f.pm10
        co        := ntohs f.coPpb
        noise     := ntohs f.noiseDb
        crcR      := ntohs f.crc16
        crcCalc   := crc16Ccitt (raw.take envFrameCrcSize) }
      let c :=
        if d.crcCalc = d.crcR
        then { c with crcOk := c.crcOk + 1 }
        else { c with crcFail := c.crcFail + 1 }
      let n := c.typeCount f.frameType + 1
      ({ c with typeCount := Function.update c.typeCount f.frameType n }, some d)

end IotCollector
