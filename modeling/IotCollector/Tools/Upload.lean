import Mathlib.Data.List.Infix
import Mathlib.Logic.Function.Basic
import IotCollector.Egress.CacheWriter

namespace IotCollector

def b64Tbl : List UInt8 :=
  cstr "ABCDEFGHIJKLMNOPQRSTUVWXYZabcdefghijklmnopqrstuvwxyz0123456789+/"

-- The loop of `b64_encode`, where `input` is the part of the input from `i` on, and the result is `o`
-- unless the capacity is exceeded. The buffer `out` is a memory that goes on behind its capacity.
def b64Loop (outCap : Nat) (input : List UInt8) (o : Nat) (out : Nat → UInt8) :
    Option Nat × (Nat → UInt8) :=
  if _ : 0 < input.length then
    let remain := input.length
    let b₀ := (input.getD 0 0).toUInt32
    let b₁ := if remain > 1 then (input.getD 1 0).toUInt32 else 0
    let b₂ := if remain > 2 then (input.getD 2 0).toUInt32 else 0
    let v  := (b₀ <<< 16) ||| (b₁ <<< 8) ||| b₂
    if o + 4 ≥ outCap then
      (none, out)
    else
      let tbl (k : UInt32) := b64Tbl.getD (k &&& 63).toNat 0
      let out := Function.update out o       <| tbl (v >>> 18)
      let out := Function.update out (o + 1) <| tbl (v >>> 12)
      let out := Function.update out (o + 2) <| if remain > 1 then tbl (v >>> 6) else 61
      let out := Function.update out (o + 3) <| if remain > 2 then tbl v else 61
      let rest := input.drop (if remain > 3 then 3 else remain)
      let rest := if remain ≤ 3 then [] else rest
      b64Loop outCap rest (o + 4) out
  else
    (some o, out)
termination_by input.length
decreasing_by
  split
  · exact ‹0 < input.length›
  · rw [List.length_drop]
    split <;> omega

-- The `out_cap` bytes from `out` on belong to the caller.
def b64Encode (input : List UInt8) (out : Nat → UInt8) (outCap : Nat) : Int32 × (Nat → UInt8) :=
  match b64Loop outCap input 0 out with
  | (none, out)   => (-1, out)
  | (some o, out) => (Int32.ofNat o, Function.update out o 0)

def cString (buf : List UInt8) : List UInt8 :=
  buf.takeWhile (· ≠ 0)

-- The variables `g_cloud_ip`, `g_device_id` and `g_api_key`.
structure CloudConf where
  cloudIp  : List UInt8
  deviceId : List UInt8
  apiKey   : List UInt8

-- The request, where `value` is the measurement as `%f` prints it. The result is `none` where the call
-- gives up before it has a socket.
def uploadRequest (conf : CloudConf) (sensorId value : List UInt8) : Option (List UInt8) :=
  if conf.cloudIp = [] ∨ conf.deviceId = [] ∨ conf.apiKey = [] ∨ sensorId = [] then
    none
  else
    let authRaw := (conf.apiKey ++ cstr ":").take 559
    let (rc, authB64) := b64Encode authRaw (fun _ => 0) 760
    if rc < 0 then
      none
    else
      let body := (cstr "\x7b\"data\":" ++ value ++ cstr "\x7d").take 63
      let req :=
        cstr "POST /api/1.0/device/" ++ conf.deviceId ++ cstr "/sensor/" ++ sensorId ++
        cstr "/data HTTP/1.1\r\n" ++
        cstr "Host: www.embsky.com\r\n" ++
        cstr "Accept: */*\r\n" ++
        cstr "Authorization: Basic " ++ cString ((List.range 760).map authB64) ++ cstr "\r\n" ++
        cstr "Content-Length: " ++ cstr (toString body.length) ++ cstr "\r\n" ++
        cstr "Content-Type: application/json;charset=utf-8\r\n" ++
        cstr "Connection: close\r\n" ++
        cstr "\r\n" ++
        body ++ cstr "\r\n"
      if req.length ≥ 1400 then none else some req

def strstr (haystack needle : List UInt8) : Bool :=
  decide (needle <:+: haystack)

-- The check of the response, of which the buffer holds `buf` and a terminator.
def uploadResult (buf : List UInt8) : Int32 :=
  let resp := cString buf
  if resp.take 7 = cstr "HTTP/1." then
    if strstr resp (cstr " 200") ∨ strstr resp (cstr " 201") then 0 else -1
  else
    -1

-- What the calls return, where `none` stands for an error of `read`.
structure UploadIo where
  socket  : Bool
  connect : Bool
  write   : List UInt8 → Bool
  read    : Option (List UInt8)

def httpUploadOne (conf : CloudConf) (sensorId value : List UInt8) (io : UploadIo) : Int32 :=
  match uploadRequest conf sensorId value with
  | none     => -1
  | some req =>
    if !io.socket then
      -1
    else if !io.connect then
      -1
    else if !io.write req then
      -1
    else
      match io.read with
      | none      => -1
      | some resp => if resp = [] then -1 else uploadResult (resp.take 255)

end IotCollector
