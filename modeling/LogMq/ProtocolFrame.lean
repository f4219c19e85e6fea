import LogMq.ProtocolWire

/-! Frames: a header of sixteen bytes and a body. The header states the length of the whole frame, the
api key, the protocol version and the request id. -/

namespace LogMq

open BigEndian

/-- The number of an api key on the wire. -/
def ApiKey.code : ApiKey → Nat
  | .produce => 1
  | .fetch => 2
  | .metadata => 3
  | .createTopic => 4
  | .commitOffset => 5
  | .fetchCommittedOffset => 6
  | .joinGroup => 7
  | .syncGroup => 8
  | .heartbeat => 9
  | .leaveGroup => 10
  | .nack => 11

def parseApiKey (value : Nat) : Result ApiKey :=
  match value with
  | 1 => pure .produce
  | 2 => pure .fetch
  | 3 => pure .metadata
  | 4 => pure .createTopic
  | 5 => pure .commitOffset
  | 6 => pure .fetchCommittedOffset
  | 7 => pure .joinGroup
  | 8 => pure .syncGroup
  | 9 => pure .heartbeat
  | 11 => pure .nack
  | 10 => pure .leaveGroup
  | _ => throw (.invalidArgument "unknown api key")

/-- The number of an error code on the wire. -/
def ProtocolErrorCode.code : ProtocolErrorCode → Nat
  | .none => 0
  | .invalidRequest => 1
  | .topicNotFound => 2
  | .offsetOutOfRange => 3
  | .internal => 4
  | .unsupportedVersion => 5
  | .unknownMember => 6
  | .illegalGeneration => 7

def parseProtocolErrorCode (value : Nat) : Result ProtocolErrorCode :=
  match value with
  | 0 => pure .none
  | 1 => pure .invalidRequest
  | 2 => pure .topicNotFound
  | 3 => pure .offsetOutOfRange
  | 4 => pure .internal
  | 5 => pure .unsupportedVersion
  | 6 => pure .unknownMember
  | 7 => pure .illegalGeneration
  | _ => throw (.invalidArgument "unknown protocol error code")

theorem parseApiKey_ok {value : Nat} {apiKey : ApiKey} : parseApiKey value = .ok apiKey ↔ value = apiKey.code := by
  constructor
  · intro h
    unfold parseApiKey at h
    split at h <;> cases h <;> rfl
  · rintro rfl
    cases apiKey <;> rfl

theorem parseProtocolErrorCode_ok {value : Nat} {errorCode : ProtocolErrorCode} :
    parseProtocolErrorCode value = .ok errorCode ↔ value = errorCode.code := by
  constructor
  · intro h
    unfold parseProtocolErrorCode at h
    split at h <;> cases h <;> rfl
  · rintro rfl
    cases errorCode <;> rfl

theorem ApiKey.code_lt (apiKey : ApiKey) : apiKey.code < 256 ^ 2 := by
  cases apiKey <;> decide

theorem ProtocolErrorCode.code_lt (errorCode : ProtocolErrorCode) : errorCode.code < 256 ^ 2 := by
  cases errorCode <;> decide

/-! ### Header -/

/-- A frame: total length, api key, version and request id, then the body. -/
def frameBytes (apiKey : ApiKey) (version : UInt16) (requestId : UInt64) (body : Bytes) : Bytes :=
  beBytes 4 (frameHeaderBytes + body.length) ++ (beBytes 2 apiKey.code ++
    (beBytes 2 version.toNat ++ (beBytes 8 requestId.toNat ++ body)))

theorem frameBytes_length (apiKey : ApiKey) (version : UInt16) (requestId : UInt64) (body : Bytes) :
    (frameBytes apiKey version requestId body).length = frameHeaderBytes + body.length := by
  simp only [frameBytes, List.length_append, beBytes_length, frameHeaderBytes]
  omega

def appendFrameHeader (apiKey : ApiKey) (version : UInt16) (requestId : UInt64) (body output : Bytes) :
    Result Bytes :=
  if body.length > maxFrameBytes - frameHeaderBytes then
    throw (.invalidArgument "protocol frame body is too large")
  else
    pure (appendBigEndian 8 requestId.toNat (appendBigEndian 2 version.toNat (appendBigEndian 2 apiKey.code
      (appendBigEndian 4 (frameHeaderBytes + body.length) output))))

/-- The frame around a body, as all encoders build it. -/
def encodeFrame (apiKey : ApiKey) (version : UInt16) (requestId : UInt64) (body : Bytes) : Result Bytes := do
  let output ← appendFrameHeader apiKey version requestId body []
  return output ++ body

def validateFrame (frame : Bytes) : Result Unit := do
  if frame.length < frameHeaderBytes then throw (.invalidArgument "protocol frame header is truncated")
  else do
    let totalLength ← readBigEndian 4 frame 0
    if totalLength < frameHeaderBytes then
      throw (.invalidArgument "protocol frame length is smaller than header")
    else if totalLength > maxFrameBytes then
      throw (.invalidArgument "protocol frame length exceeds max frame size")
    else if totalLength ≠ frame.length then
      throw (.invalidArgument "protocol frame length does not match buffer size")
    else pure ()

/-- The part of a frame before its body is decoded. -/
structure FrameHeader where
  apiKey : ApiKey
  version : UInt16
  requestId : UInt64

/-- How both decoders begin: the checks of the frame and its header, and the bytes of the body. -/
def decodeFrame (frame : Bytes) : Result (FrameHeader × Bytes) := do
  validateFrame frame
  let apiKeyValue ← readBigEndian 2 frame 4
  let apiKey ← parseApiKey apiKeyValue
  let version ← readBigEndian 2 frame (4 + 2)
  if ¬ SupportedVersion (UInt16.ofNat version) then throw (.invalidArgument "unsupported protocol version")
  else do
    let requestId ← readBigEndian 8 frame (4 + 2 + 2)
    return (⟨apiKey, UInt16.ofNat version, UInt64.ofNat requestId⟩, frame.drop frameHeaderBytes)

theorem encodeFrame_ok {apiKey : ApiKey} {version : UInt16} {requestId : UInt64} {body frame : Bytes} :
    encodeFrame apiKey version requestId body = .ok frame ↔
      frameHeaderBytes + body.length ≤ maxFrameBytes ∧ frame = frameBytes apiKey version requestId body := by
  simp only [encodeFrame, appendFrameHeader, appendBigEndian, Result.bind_eq_ok, Result.reject_eq_ok,
    Result.pure_eq_ok, List.nil_append, List.append_assoc]
  constructor
  · rintro ⟨_, ⟨hlength, rfl⟩, rfl⟩
    refine ⟨?_, by simp only [frameBytes, List.append_assoc]⟩
    unfold maxFrameBytes frameHeaderBytes at *
    omega
  · rintro ⟨hlength, rfl⟩
    refine ⟨_, ⟨?_, rfl⟩, by simp only [frameBytes, List.append_assoc]⟩
    unfold maxFrameBytes frameHeaderBytes at *
    omega

theorem validateFrame_ok {frame : Bytes} :
    validateFrame frame = .ok () ↔
      frameHeaderBytes ≤ frame.length ∧ frame.length ≤ maxFrameBytes ∧ beValue (frame.take 4) = frame.length := by
  simp only [validateFrame, Result.reject_eq_ok, Result.bind_eq_ok, readBigEndian_ok, Result.pure_eq_ok,
    List.drop_zero, not_not, Nat.not_lt]
  constructor
  · rintro ⟨hheader, _, ⟨-, rfl⟩, -, hmax, hlength, -⟩
    rw [hlength] at hmax
    exact ⟨hheader, hmax, hlength⟩
  · rintro ⟨hheader, hmax, hlength⟩
    refine ⟨hheader, _, ⟨?_, rfl⟩, by rwa [hlength], by rwa [hlength], hlength, trivial⟩
    unfold frameHeaderBytes at hheader
    omega

/-- A string of at least sixteen bytes is cut at the fields of a header. -/
theorem frame_split {frame : Bytes} (h : frameHeaderBytes ≤ frame.length) :
    frame = beBytes 4 (beValue (frame.take 4)) ++ (beBytes 2 (beValue ((frame.drop 4).take 2)) ++
      (beBytes 2 (beValue ((frame.drop 6).take 2)) ++
        (beBytes 8 (beValue ((frame.drop 8).take 8)) ++ frame.drop frameHeaderBytes))) := by
  have hfield : ∀ offset width, offset + width ≤ frame.length →
      beBytes width (beValue ((frame.drop offset).take width)) ++ frame.drop (offset + width) =
        frame.drop offset := by
    intro offset width hle
    have hlength : ((frame.drop offset).take width).length = width := by
      rw [List.length_take, List.length_drop]
      omega
    have hbytes := beBytes_beValue ((frame.drop offset).take width)
    rw [hlength] at hbytes
    rw [hbytes, ← List.drop_drop, List.take_append_drop]
  unfold frameHeaderBytes at *
  have h0 : beBytes 4 (beValue (frame.take 4)) ++ frame.drop 4 = frame := hfield 0 4 (by omega)
  have h4 : _ ++ frame.drop 6 = frame.drop 4 := hfield 4 2 (by omega)
  have h6 : _ ++ frame.drop 8 = frame.drop 6 := hfield 6 2 (by omega)
  have h8 : _ ++ frame.drop (4 + 2 + 2 + 8) = frame.drop 8 := hfield 8 8 (by omega)
  rw [h8, h6, h4, h0]

theorem field_frameBytes {apiKey : ApiKey} {version : UInt16} {requestId : UInt64} {body frame : Bytes}
    (hframe : frame = frameBytes apiKey version requestId body) :
    frame.take 4 = beBytes 4 (frameHeaderBytes + body.length) ∧ (frame.drop 4).take 2 = beBytes 2 apiKey.code ∧
      (frame.drop 6).take 2 = beBytes 2 version.toNat ∧ (frame.drop 8).take 8 = beBytes 8 requestId.toNat ∧
      frame.drop frameHeaderBytes = body := by
  have h4 : frame.drop 4 = beBytes 2 apiKey.code ++ (beBytes 2 version.toNat ++ (beBytes 8 requestId.toNat ++ body)) := by
    rw [hframe, frameBytes, List.drop_left' (beBytes_length _ _)]
  have h6 : frame.drop 6 = beBytes 2 version.toNat ++ (beBytes 8 requestId.toNat ++ body) := by
    rw [show 6 = 4 + 2 from rfl, ← List.drop_drop, h4, List.drop_left' (beBytes_length _ _)]
  have h8 : frame.drop 8 = beBytes 8 requestId.toNat ++ body := by
    rw [show 8 = 6 + 2 from rfl, ← List.drop_drop, h6, List.drop_left' (beBytes_length _ _)]
  refine ⟨?_, ?_, ?_, ?_, ?_⟩
  · rw [hframe, frameBytes, List.take_left' (beBytes_length _ _)]
  · rw [h4, List.take_left' (beBytes_length _ _)]
  · rw [h6, List.take_left' (beBytes_length _ _)]
  · rw [h8, List.take_left' (beBytes_length _ _)]
  · rw [show frameHeaderBytes = 8 + 8 from rfl, ← List.drop_drop, h8, List.drop_left' (beBytes_length _ _)]

/-- **The decoders accept exactly the frames.** -/
theorem decodeFrame_ok {frame body : Bytes} {header : FrameHeader} :
    decodeFrame frame = .ok (header, body) ↔
      SupportedVersion header.version ∧ frameHeaderBytes + body.length ≤ maxFrameBytes ∧
        frame = frameBytes header.apiKey header.version header.requestId body := by
  simp only [decodeFrame, Result.bind_eq_ok, Result.reject_eq_ok, Result.pure_eq_ok, readBigEndian_ok,
    parseApiKey_ok, not_not, Prod.mk.injEq]
  constructor
  · rintro ⟨_, hvalid, _, ⟨-, rfl⟩, apiKey, hkey, _, ⟨-, rfl⟩, hversion, _, ⟨-, rfl⟩, rfl, rfl⟩
    obtain ⟨hheader, hmax, hlength⟩ := validateFrame_ok.mp hvalid
    have hbody : frameHeaderBytes + (frame.drop frameHeaderBytes).length = frame.length := by
      rw [List.length_drop]
      omega
    have h2 : beValue ((frame.drop 6).take 2) < 2 ^ 16 :=
      (beValue_lt _).trans_le (Nat.pow_le_pow_right (by decide) (List.length_take_le _ _))
    have h8 : beValue ((frame.drop 8).take 8) < 2 ^ 64 :=
      (beValue_lt _).trans_le (Nat.pow_le_pow_right (by decide) (List.length_take_le _ _))
    refine ⟨hversion, by rwa [hbody], ?_⟩
    unfold frameBytes
    rw [hbody, UInt16.toNat_ofNat_of_lt' h2, UInt64.toNat_ofNat_of_lt' h8, ← hkey, ← hlength]
    exact frame_split hheader
  · rintro ⟨hversion, hmax, hframe⟩
    have hlength : frame.length = frameHeaderBytes + body.length := by
      rw [hframe, frameBytes_length]
    obtain ⟨h0, h4, h6, h8, hbody⟩ := field_frameBytes hframe
    have hle : frameHeaderBytes ≤ frame.length := by omega
    have htotal : beValue (frame.take 4) = frame.length := by
      rw [h0, beValue_beBytes (lt_of_le_of_lt hmax (by decide)), hlength]
    have hkey : beValue ((frame.drop 4).take 2) = header.apiKey.code := by
      rw [h4, beValue_beBytes header.apiKey.code_lt]
    have hv : UInt16.ofNat (beValue ((frame.drop 6).take 2)) = header.version := by
      rw [h6, beValue_beBytes header.version.toNat_lt, UInt16.ofNat_toNat]
    have hid : UInt64.ofNat (beValue ((frame.drop 8).take 8)) = header.requestId := by
      rw [h8, beValue_beBytes header.requestId.toNat_lt, UInt64.ofNat_toNat]
    unfold frameHeaderBytes at hle
    refine ⟨(), validateFrame_ok.mpr ⟨hle, by omega, htotal⟩, _, ⟨by omega, rfl⟩, header.apiKey, hkey, _,
      ⟨by omega, rfl⟩, ?_, _, ⟨by omega, rfl⟩, ?_, hbody.symm⟩
    · rw [hv]
      exact hversion
    · rw [hv, hid]

end LogMq
