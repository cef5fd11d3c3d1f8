import IotCollector.Lib.Bytes

namespace IotCollector

open Bytes

inductive IotStatus
  | ok
  | errGeneric
  | errAgain
  | errFull
  | errEmpty
  | errNomem
  | errProto
  | errIo
  | errTimeout
  | errShutdown
  deriving DecidableEq, Repr

def frameMagic₀ : UInt8 := 0xEB
def frameMagic₁ : UInt8 := 0x90

-- The frame type travels as a raw byte which need not be one of these values.
def frameNormal : UInt8 := 0
def frameData   : UInt8 := 0
def frameAlarm  : UInt8 := 1
def frameHeart  : UInt8 := 2
def frameRetry  : UInt8 := 3

-- The packed `env_frame_t`.
@[ext]
structure EnvFrame where
  magic        : UInt8 × UInt8
  version      : UInt8
  frameType    : UInt8
  stationId    : UInt16
  timestampSec : UInt32
  timestampMs  : UInt32
  temperature  : Int16
  humidity     : UInt16
  pm25         : UInt16
  pm10         : UInt16
  coPpb        : UInt16
  noiseDb      : UInt16
  crc16        : UInt16
  deriving DecidableEq, Repr

def envFrameWireSize : Nat := 28
def envFrameCrcSize  : Nat := 26

namespace EnvFrame

-- The frame that `calloc` and `memset` leave behind.
def zero : EnvFrame where
  magic        := (0, 0)
  version      := 0
  frameType    := 0
  stationId    := 0
  timestampSec := 0
  timestampMs  := 0
  temperature  := 0
  humidity     := 0
  pm25         := 0
  pm10         := 0
  coPpb        := 0
  noiseDb      := 0
  crc16        := 0

def IsAlarm (f : EnvFrame) : Prop :=
  f.frameType = frameAlarm

instance : DecidablePred IsAlarm :=
  fun f => inferInstanceAs (Decidable (f.frameType = frameAlarm))

-- The 28 bytes which the frame occupies in the memory of a little-endian host.
def bytes (f : EnvFrame) : List UInt8 :=
  [f.magic.1, f.magic.2, f.version, f.frameType] ++ le16 f.stationId ++ le32 f.timestampSec ++
  le32 f.timestampMs ++ le16 f.temperature.toUInt16 ++ le16 f.humidity ++ le16 f.pm25 ++
  le16 f.pm10 ++ le16 f.coPpb ++ le16 f.noiseDb ++ le16 f.crc16

-- The frame which `memcpy` copies out of a buffer of at least 28 bytes.
def ofBytes (b : List UInt8) : EnvFrame :=
  let u8  i := b.getD i 0
  let u16 i := ofLe16 (u8 i) (u8 (i + 1))
  let u32 i := ofLe32 (u8 i) (u8 (i + 1)) (u8 (i + 2)) (u8 (i + 3))
  { magic        := (u8 0, u8 1)
    version      := u8 2
    frameType    := u8 3
    stationId    := u16 4
    timestampSec := u32 6
    timestampMs  := u32 10
    temperature  := (u16 14).toInt16
    humidity     := u16 16
    pm25         := u16 18
    pm10         := u16 20
    coPpb        := u16 22
    noiseDb      := u16 24
    crc16        := u16 26 }

@[simp]
theorem bytes_length (f : EnvFrame) : f.bytes.length = envFrameWireSize :=
  rfl

@[simp]
theorem bytes_ne_nil (f : EnvFrame) : f.bytes ≠ [] :=
  List.length_pos_iff.mp <| by simp [envFrameWireSize]

@[simp]
theorem ofBytes_bytes_append (f : EnvFrame) (b : List UInt8) : ofBytes (f.bytes ++ b) = f := by
  simp [ofBytes, bytes, le16, le32]

@[simp]
theorem ofBytes_bytes (f : EnvFrame) : ofBytes f.bytes = f := by
  simpa using ofBytes_bytes_append f []

theorem bytes_ofBytes {b : List UInt8} (h : envFrameWireSize ≤ b.length) :
    (ofBytes b).bytes = b.take envFrameWireSize := by
  rw [take_eq_map_getD 0 h]
  simp only [bytes, ofBytes, le16_ofLe16, le32_ofLe32, UInt16.toUInt16_toInt16]
  rfl

theorem bytes_injective : Function.Injective bytes :=
  Function.LeftInverse.injective ofBytes_bytes

@[simp]
theorem ofBytes_take {b : List UInt8} : ofBytes (b.take envFrameWireSize) = ofBytes b := by
  simp [ofBytes, envFrameWireSize, List.getD_eq_getElem?_getD]

end EnvFrame
end IotCollector
