import Mathlib.Data.List.TakeWhile
import IotCollector.Tools.Theorems.Base64

namespace IotCollector

-- A response which begins with a status line. What follows the code is a blank, the reason phrase, the
-- end of the line, and the headers and the body as far as they have been read.
structure Response where
  minor  : UInt8
  code   : List UInt8
  reason : List UInt8
  rest   : List UInt8
  digits : ∀ d ∈ minor :: code, 48 ≤ d ∧ d ≤ 57
  three  : code.length = 3
  phrase : ∀ b ∈ reason, b ≠ 10 ∧ b ≠ 13

namespace Response

variable (r : Response)

def tail : List UInt8 :=
  cstr " " ++ r.reason ++ cstr "\r\n" ++ r.rest

def text : List UInt8 :=
  cstr "HTTP/1." ++ [r.minor] ++ cstr " " ++ r.code ++ r.tail

def Succeeds : Prop :=
  r.code = cstr "200" ∨ r.code = cstr "201"

end Response

variable {r : Response}

theorem infix_append_iff {l₁ l₂ w : List UInt8} (h : 32 ∉ l₁) :
    32 :: w <:+: l₁ ++ l₂ ↔ 32 :: w <:+: l₂ := by
  induction l₁
  case nil => rfl
  case cons b l hi =>
    rw [List.mem_cons, not_or] at h
    rw [List.cons_append, List.infix_cons_iff, hi h.right, List.cons_prefix_cons]
    simp [h.left]

theorem strstr_text (r : Response) {c : List UInt8} (hc : c.length = 3) :
    strstr r.text (32 :: c) ↔ r.code = c ∨ 32 :: c <:+: r.tail := by
  have hd : 32 ∉ r.minor :: r.code := fun h => absurd (r.digits 32 h) (by decide)
  rw [List.mem_cons, not_or] at hd
  have ht : r.text = (cstr "HTTP/1." ++ [r.minor]) ++ 32 :: (r.code ++ r.tail) := by
    have hb : cstr " " = [32] := by decide
    simp [Response.text, hb]
  have hp : 32 ∉ cstr "HTTP/1." ++ [r.minor] := by
    have hh : 32 ∉ cstr "HTTP/1." := by decide
    simp [hh, hd.left]
  rw [strstr, decide_eq_true_iff, ht, infix_append_iff hp, List.infix_cons_iff,
    List.cons_prefix_cons, infix_append_iff hd.right]
  refine or_congr_left ⟨fun ⟨_, h⟩ => ?_, fun h => ⟨rfl, h ▸ List.prefix_append ..⟩⟩
  have he := List.prefix_of_prefix_length_le h (List.prefix_append r.code r.tail)
    (by rw [hc, r.three])
  exact (he.eq_of_length <| by rw [hc, r.three]).symm

theorem uploadResult_text (r : Response) (h : 0 ∉ r.text) :
    uploadResult r.text = 0 ↔
    r.Succeeds ∨ cstr " 200" <:+: r.tail ∨ cstr " 201" <:+: r.tail := by
  have hc : cString r.text = r.text :=
    List.takeWhile_eq_self_iff.mpr fun b hb => decide_eq_true fun hz : b = 0 => h <| hz ▸ hb
  have hp : r.text.take 7 = cstr "HTTP/1." := by
    simp only [Response.text, List.append_assoc]
    exact List.take_left' (by decide)
  have h₀ : cstr " 200" = 32 :: cstr "200" := by decide
  have h₁ : cstr " 201" = 32 :: cstr "201" := by decide
  have hx : strstr r.text (cstr " 200") ∨ strstr r.text (cstr " 201") ↔
      r.Succeeds ∨ cstr " 200" <:+: r.tail ∨ cstr " 201" <:+: r.tail := by
    rw [h₀, h₁, strstr_text r (by decide), strstr_text r (by decide), or_or_or_comm]
    rfl
  rw [uploadResult, hc, if_pos hp, ← hx]
  split
  case isTrue h  => exact iff_of_true rfl h
  case isFalse h => exact iff_of_false (by decide) h

theorem uploadRequest_isSome {conf : CloudConf} {sensorId : List UInt8} (value : List UInt8)
    (h₁ : conf.cloudIp ≠ []) (h₂ : conf.deviceId ≠ []) (h₃ : conf.apiKey ≠ []) (h₄ : sensorId ≠ [])
    (hd : conf.deviceId.length < 32) (hs : sensorId.length < 32) :
    ∃ req, uploadRequest conf sensorId value = some req := by
  have hn : ¬(conf.cloudIp = [] ∨ conf.deviceId = [] ∨ conf.apiKey = [] ∨ sensorId = []) := by
    simp [h₁, h₂, h₃, h₄]
  have hl : ((conf.apiKey ++ cstr ":").take 559).length ≤ 559 := List.length_take_le ..
  have he := @b64Encode_of_lt 760 ((conf.apiKey ++ cstr ":").take 559) (by omega) fun _ => 0
  have hk : ¬Int32.ofNat (4 * ((((conf.apiKey ++ cstr ":").take 559).length + 2) / 3)) < 0 := by
    rw [Int32.lt_iff_toInt_lt, Int32.toInt_ofNat_of_lt (by omega)]
    exact Int.not_lt.mpr <| Int.natCast_nonneg _
  simp only [uploadRequest, if_neg hn, he, if_neg hk]
  refine ⟨_, if_neg ?_⟩
  generalize ha : cString _ = auth
  generalize hb : List.take 63 _ = body
  have hal : auth.length ≤ 760 := by
    rw [← ha]
    exact (List.takeWhile_prefix _).length_le.trans_eq <| by rw [List.length_map, List.length_range]
  have hbl : body.length ≤ 63 := hb ▸ List.length_take_le ..
  have hdl : (cstr (toString body.length)).length ≤ 2 :=
    (by decide : ∀ n < 64, (cstr (toString n)).length ≤ 2) _ <| Nat.lt_succ_of_le hbl
  simp only [List.length_append, Nat.not_le]
  change 21 + conf.deviceId.length + 8 + sensorId.length + 16 + 22 + 13 + 21 + auth.length + 2 + 16 +
    (cstr (toString body.length)).length + 2 + 46 + 19 + 2 + body.length + 2 < 1400
  omega

theorem httpUploadOne_of_read {conf : CloudConf} {sensorId value req : List UInt8} {io : UploadIo}
    (hq : uploadRequest conf sensorId value = some req)
    (hs : io.socket ∧ io.connect ∧ io.write req) {r : Response} (hr : io.read = some r.text)
    (hl : r.text.length ≤ 255) : httpUploadOne conf sensorId value io = uploadResult r.text := by
  have ht : r.text ≠ [] := by
    have hh : cstr "HTTP/1." ≠ [] := by decide
    simp [Response.text, hh]
  simp only [httpUploadOne, hq, hs, hr, Bool.not_true, Bool.false_eq_true, if_false, if_neg ht,
    List.take_of_length_le hl]

-- Where a request is sent and answered, the call returns 0 exactly for the codes 200 and 201 if and
-- only if it is one of these, or neither of them occurs behind a blank in what follows the code.
theorem upload_success_iff {conf : CloudConf} {sensorId value req : List UInt8} {io : UploadIo}
    (hq : uploadRequest conf sensorId value = some req)
    (hs : io.socket ∧ io.connect ∧ io.write req) (r : Response) (hr : io.read = some r.text)
    (hn : 0 ∉ r.text) (hl : r.text.length ≤ 255) :
    ((httpUploadOne conf sensorId value io = 0 ↔ r.Succeeds) ↔
    r.Succeeds ∨ ¬cstr " 200" <:+: r.tail ∧ ¬cstr " 201" <:+: r.tail) := by
  rw [httpUploadOne_of_read hq hs hr hl, uploadResult_text r hn, or_iff_left_iff_imp, imp_iff_not_or,
    not_or, or_comm]

def sampleConf : CloudConf where
  cloudIp  := cstr "119.29.98.16"
  deviceId := cstr "dev"
  apiKey   := cstr "key"

theorem sampleRequest : ∃ req, uploadRequest sampleConf (cstr "pm25") (cstr "12.000000") = some req :=
  uploadRequest_isSome _ (by decide) (by decide) (by decide) (by decide) (by decide) (by decide)

def sampleIo (resp : List UInt8) : UploadIo where
  socket  := true
  connect := true
  write   := fun _ => true
  read    := some resp

theorem digits_404 : ∀ d ∈ 49 :: cstr "404", 48 ≤ d ∧ d ≤ 57 :=
  by decide +kernel

theorem three_404 : (cstr "404").length = 3 := rfl

theorem phrase_404 : ∀ b ∈ cstr "Not Found", b ≠ 10 ∧ b ≠ 13 :=
  by decide +kernel

-- The device is not known, and the headers announce a body of 200 bytes.
def notFound : Response where
  minor  := 49
  code   := cstr "404"
  reason := cstr "Not Found"
  rest   := cstr "Content-Length: 200\r\n\r\n"
  digits := digits_404
  three  := three_404
  phrase := phrase_404

theorem upload_success_iff_notFound :
    httpUploadOne sampleConf (cstr "pm25") (cstr "12.000000")
      (sampleIo { notFound with rest := cstr "Content-Length: 17\r\n\r\n" }.text) = 0 ↔
    { notFound with rest := cstr "Content-Length: 17\r\n\r\n" }.Succeeds := by
  obtain ⟨req, hq⟩ := sampleRequest
  exact (upload_success_iff hq ⟨rfl, rfl, rfl⟩ { notFound with rest := _ } rfl (by decide)
    (by decide)).mpr <| .inr <| by decide

theorem upload_success_false :
    ¬∀ (conf : CloudConf) (sensorId value req : List UInt8) (io : UploadIo) (r : Response),
      uploadRequest conf sensorId value = some req → io.socket ∧ io.connect ∧ io.write req →
      io.read = some r.text → 0 ∉ r.text → r.text.length ≤ 255 →
      (httpUploadOne conf sensorId value io = 0 ↔ r.Succeeds) := by
  intro h
  obtain ⟨req, hq⟩ := sampleRequest
  have hn : 0 ∉ notFound.text := by decide
  have hl : notFound.text.length ≤ 255 := by decide
  have hs : (sampleIo notFound.text).socket ∧ (sampleIo notFound.text).connect ∧
      (sampleIo notFound.text).write req := ⟨rfl, rfl, rfl⟩
  have ho : uploadResult notFound.text = 0 :=
    (uploadResult_text notFound hn).mpr <| .inr <| .inl <| by decide
  rw [← httpUploadOne_of_read hq hs rfl hl] at ho
  exact absurd ((h _ _ _ _ _ notFound hq hs rfl hn hl).mp ho) (by rw [Response.Succeeds]; decide)

end IotCollector
