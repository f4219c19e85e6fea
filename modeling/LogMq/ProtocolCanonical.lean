import LogMq.ProtocolResponseFrames

/-! Canonical frames. The decoders read exactly the layouts that the encoders write, with one gap: the
decoders of `CommitOffset` requests and of four success bodies do not check signs that the encoders check.
A frame that is accepted is encoded again to itself exactly if the leading bytes of these fields are below
128. -/

namespace LogMq

open BigEndian

/-- The byte at a position of the frame is there and has its highest bit clear. -/
def SignClear (frame : Bytes) (position : Nat) : Prop := ∃ byte, frame[position]? = some byte ∧ byte < 128

instance (frame : Bytes) (position : Nat) : Decidable (SignClear frame position) :=
  match h : frame[position]? with
  | none => isFalse fun ⟨_, hbyte, _⟩ => by
      rw [h] at hbyte
      cases hbyte
  | some byte =>
      if hlt : byte < 128 then isTrue ⟨byte, h, hlt⟩
      else isFalse fun ⟨other, hother, hlt'⟩ => by
        rw [h] at hother
        cases hother
        exact hlt hlt'

/-- The api key field of a frame. -/
def frameApiKey (frame : Bytes) : Nat := beValue ((frame.drop 4).take 2)

/-- The error code field of a response. -/
def frameErrorCode (frame : Bytes) : Nat := beValue ((frame.drop 16).take 2)

/-- The size field of the message of a response. -/
def frameMessageSize (frame : Bytes) : Nat := beValue ((frame.drop 18).take 4)

/-- The offset at the end of a `CommitOffset` request has its sign bit clear. -/
def RequestSignsClear (frame : Bytes) : Prop :=
  frameApiKey frame = ApiKey.commitOffset.code → SignClear frame (frame.length - 8)

/-- The partition and the offsets of a success have their sign bits clear, in the four bodies whose decoder
does not look at them. -/
def ResponseSignsClear (frame : Bytes) : Prop :=
  frameErrorCode frame = ProtocolErrorCode.none.code →
    (frameApiKey frame = ApiKey.produce.code →
      SignClear frame (frame.length - 16) ∧ SignClear frame (frame.length - 12)) ∧
    (frameApiKey frame = ApiKey.fetch.code →
      SignClear frame (22 + frameMessageSize frame) ∧ SignClear frame (30 + frameMessageSize frame)) ∧
    (frameApiKey frame = ApiKey.commitOffset.code →
      SignClear frame (frame.length - 12) ∧ SignClear frame (frame.length - 8)) ∧
    (frameApiKey frame = ApiKey.fetchCommittedOffset.code →
      SignClear frame (frame.length - 16) ∧ SignClear frame (frame.length - 8))

/-! ### Signs of fields -/

theorem signClear_skip {frame front rest : Bytes} {position : Nat} (hframe : frame = front ++ rest)
    (hposition : position = front.length) : SignClear frame position ↔ SignClear rest 0 := by
  rw [SignClear, SignClear, hframe, hposition, List.getElem?_append_right (Nat.le_refl _), Nat.sub_self]

theorem signClear_offset {frame : Bytes} (front rest : Bytes) {offset : Int} {position : Nat} (htyped : IsInt64 offset)
    (hframe : frame = front ++ (offsetBytes offset ++ rest)) (hposition : position = front.length) :
    SignClear frame position ↔ 0 ≤ offset := by
  rw [signClear_skip hframe hposition, offsetBytes, SignClear, leading_lt_iff (offsetToUInt64_lt offset)]
  have h := offsetToUInt64_le_max_iff htyped
  unfold maxOffset at h
  omega

theorem signClear_partition {frame : Bytes} (front rest : Bytes) {partition : Int} {position : Nat}
    (htyped : IsInt32 partition) (hframe : frame = front ++ (partitionBytes partition ++ rest))
    (hposition : position = front.length) : SignClear frame position ↔ 0 ≤ partition := by
  rw [signClear_skip hframe hposition, partitionBytes, SignClear, leading_lt_iff (int32ToUInt32_lt partition)]
  unfold IsInt32 at htyped
  unfold int32ToUInt32
  omega

/-- An offset at the end of a frame. -/
theorem signClear_last_offset {frame front : Bytes} {offset : Int} (htyped : IsInt64 offset)
    (hframe : frame = front ++ offsetBytes offset) : SignClear frame (frame.length - 8) ↔ 0 ≤ offset := by
  apply signClear_offset front [] htyped
  · rw [hframe, List.append_nil]
  · rw [hframe, List.length_append, offsetBytes, beBytes_length, Nat.add_sub_cancel]

/-! ### Requests -/

theorem frameApiKey_frameBytes (apiKey : ApiKey) (version : UInt16) (requestId : UInt64) (body : Bytes) :
    frameApiKey (frameBytes apiKey version requestId body) = apiKey.code := by
  obtain ⟨-, hkey, -⟩ := field_frameBytes (rfl : frameBytes apiKey version requestId body = _)
  rw [frameApiKey, hkey, beValue_beBytes apiKey.code_lt]

/-- The bytes of a frame before its body. -/
def frameHeader (apiKey : ApiKey) (version : UInt16) (requestId : UInt64) (length : Nat) : Bytes :=
  beBytes 4 (frameHeaderBytes + length) ++ (beBytes 2 apiKey.code ++
    (beBytes 2 version.toNat ++ beBytes 8 requestId.toNat))

theorem frameHeader_length (apiKey : ApiKey) (version : UInt16) (requestId : UInt64) (length : Nat) :
    (frameHeader apiKey version requestId length).length = 16 := by
  simp only [frameHeader, List.length_append, beBytes_length]

theorem frameBytes_eq (apiKey : ApiKey) (version : UInt16) (requestId : UInt64) (body : Bytes) :
    frameBytes apiKey version requestId body = frameHeader apiKey version requestId body.length ++ body := by
  simp only [frameBytes, frameHeader, List.append_assoc]

theorem requestSignsClear_iff {request : RequestEnvelope} (hkey : request.apiKey = request.body.apiKey)
    (htyped : request.body.Typed) : RequestSignsClear request.frame ↔ request.body.NonNegative := by
  unfold RequestSignsClear
  rw [RequestEnvelope.frame, frameApiKey_frameBytes, hkey]
  cases hbody : request.body with
  | commitOffset fields =>
      rw [hbody] at htyped
      simp only [RequestBody.apiKey, true_imp_iff, RequestBody.NonNegative]
      apply signClear_last_offset htyped.2
      simp only [frameBytes_eq, RequestBody.layout, GroupOffset.layout, ← List.append_assoc]
      rfl
  | _ => simp [RequestBody.apiKey, ApiKey.code, RequestBody.NonNegative]

/-! ### Responses -/

/-- The bytes of a response before the body of a success. -/
def errorBytes (response : ResponseEnvelope) : Bytes :=
  frameHeader response.apiKey response.version response.requestId response.payload.length ++
    (beBytes 2 response.error.errorCode.code ++ stringBytes response.error.message)

theorem errorBytes_length (response : ResponseEnvelope) :
    (errorBytes response).length = 22 + response.error.message.length := by
  simp only [errorBytes, stringBytes, List.length_append, frameHeader_length, beBytes_length]
  omega

theorem ResponseEnvelope.frame_eq {response : ResponseEnvelope} (hcode : response.error.errorCode = .none) :
    response.frame = errorBytes response ++ response.body.layout response.version := by
  rw [ResponseEnvelope.frame, frameBytes_eq, errorBytes]
  conv_lhs => rw [ResponseEnvelope.payload]
  simp only [if_pos hcode, List.append_assoc]
  rw [ResponseEnvelope.payload, if_pos hcode]

/-- The error code and the size of the message are where `ResponseSignsClear` looks for them. -/
theorem frame_error_fields (response : ResponseEnvelope) (hmessage : response.error.message.length ≤ maxUInt32) :
    frameErrorCode response.frame = response.error.errorCode.code ∧
      frameMessageSize response.frame = response.error.message.length := by
  have h16 : response.frame.drop 16 = response.payload := by
    rw [ResponseEnvelope.frame, frameBytes_eq, List.drop_left' (frameHeader_length _ _ _ _)]
  have h18 : response.frame.drop 18 = stringBytes response.error.message ++
      if response.error.errorCode = .none then response.body.layout response.version else [] := by
    rw [show 18 = 16 + 2 from rfl, ← List.drop_drop, h16, ResponseEnvelope.payload,
      List.drop_left' (beBytes_length _ _)]
  constructor
  · rw [frameErrorCode, h16, ResponseEnvelope.payload, List.take_left' (beBytes_length _ _),
      beValue_beBytes (ProtocolErrorCode.code_lt _)]
  · rw [frameMessageSize, h18, stringBytes, List.append_assoc, List.take_left' (beBytes_length _ _),
      beValue_beBytes (lt_256_pow_four_iff.mpr hmessage)]

theorem ProtocolErrorCode.code_eq_none {errorCode : ProtocolErrorCode} :
    errorCode.code = ProtocolErrorCode.none.code ↔ errorCode = .none := by
  cases errorCode <;> simp [ProtocolErrorCode.code]

theorem responseSignsClear_iff {response : ResponseEnvelope} (hframed : response.Framed)
    (hdecodable : response.Decodable) :
    ResponseSignsClear response.frame ↔ (response.error.errorCode = .none → response.body.NonNegative) := by
  obtain ⟨herror, hsize⟩ := frame_error_fields response hframed.2.1
  have hapi : frameApiKey response.frame = response.apiKey.code := frameApiKey_frameBytes _ _ _ _
  unfold ResponseSignsClear
  rw [herror, hsize, hapi, ProtocolErrorCode.code_eq_none]
  apply imp_congr_right
  intro hcode
  obtain ⟨hkey, -, htyped, -⟩ := hdecodable.1 hcode
  have hframe := ResponseEnvelope.frame_eq hcode
  have hfront := errorBytes_length response
  rw [hkey]
  cases hbody : response.body with
  | produce produced =>
      rw [hbody] at hframe htyped
      have hlength := congrArg List.length hframe
      simp only [ResponseBody.layout, List.length_append, partitionBytes, offsetBytes, beBytes_length] at hlength
      have hpartition : SignClear response.frame (response.frame.length - 16) ↔ 0 ≤ produced.partitionId := by
        apply signClear_partition (errorBytes response) _ htyped.1 hframe
        omega
      have hoffset : SignClear response.frame (response.frame.length - 12) ↔ 0 ≤ produced.baseOffset := by
        apply signClear_offset (errorBytes response ++ partitionBytes produced.partitionId) _ htyped.2
          (hframe.trans (List.append_assoc _ _ _).symm)
        rw [List.length_append, partitionBytes, beBytes_length]
        omega
      simp [ResponseBody.apiKey, ApiKey.code, ResponseBody.NonNegative, hpartition, hoffset]
  | fetch fetched =>
      rw [hbody] at hframe htyped
      have hbase : SignClear response.frame (22 + response.error.message.length) ↔ 0 ≤ fetched.baseOffset :=
        signClear_offset (errorBytes response) _ htyped.1 hframe hfront.symm
      have hwatermark : SignClear response.frame (30 + response.error.message.length) ↔ 0 ≤ fetched.highWatermark := by
        apply signClear_offset (errorBytes response ++ offsetBytes fetched.baseOffset) _ htyped.2.1
          (hframe.trans (List.append_assoc _ _ _).symm)
        rw [List.length_append, offsetBytes, beBytes_length]
        omega
      simp [ResponseBody.apiKey, ApiKey.code, ResponseBody.NonNegative, hbase, hwatermark]
  | commitOffset fields =>
      rw [hbody] at hframe htyped
      have hstrings : response.frame = errorBytes response ++ (stringBytes fields.groupId ++ stringBytes fields.topic) ++
          (partitionBytes fields.partitionId ++ offsetBytes fields.offset) := by
        rw [hframe]
        simp only [ResponseBody.layout, GroupOffset.layout, List.append_assoc]
      have hlength := congrArg List.length hstrings
      simp only [List.length_append, partitionBytes, offsetBytes, beBytes_length] at hlength
      have hpartition : SignClear response.frame (response.frame.length - 12) ↔ 0 ≤ fields.partitionId := by
        apply signClear_partition _ _ htyped.1 hstrings
        simp only [List.length_append]
        omega
      have hoffset : SignClear response.frame (response.frame.length - 8) ↔ 0 ≤ fields.offset := by
        apply signClear_last_offset htyped.2
        rw [hstrings, ← List.append_assoc]
      simp [ResponseBody.apiKey, ApiKey.code, ResponseBody.NonNegative, hpartition, hoffset]
  | fetchCommittedOffset fields =>
      rw [hbody] at hframe htyped
      have hstrings : response.frame = errorBytes response ++ (stringBytes fields.groupId ++ stringBytes fields.topic) ++
          (partitionBytes fields.partitionId ++
            (beBytes 4 (if fields.committed then 1 else 0) ++ offsetBytes fields.offset)) := by
        rw [hframe]
        simp only [ResponseBody.layout, List.append_assoc]
      have hlength := congrArg List.length hstrings
      simp only [List.length_append, partitionBytes, offsetBytes, beBytes_length] at hlength
      have hpartition : SignClear response.frame (response.frame.length - 16) ↔ 0 ≤ fields.partitionId := by
        apply signClear_partition _ _ htyped.1 hstrings
        simp only [List.length_append]
        omega
      have hoffset : SignClear response.frame (response.frame.length - 8) ↔ 0 ≤ fields.offset := by
        apply signClear_last_offset htyped.2
        rw [hstrings, ← List.append_assoc, ← List.append_assoc]
      simp [ResponseBody.apiKey, ApiKey.code, ResponseBody.NonNegative, hpartition, hoffset]
  | _ => simp [ResponseBody.apiKey, ApiKey.code, ResponseBody.NonNegative]

/-! ### Canonical frames -/

theorem encodeRequest_decodeRequest_iff {frame : Bytes} {request : RequestEnvelope}
    (hdecode : decodeRequest frame = .ok request) : encodeRequest request = .ok frame ↔ RequestSignsClear frame := by
  obtain ⟨hframed, ⟨hfits, htyped, -⟩, rfl⟩ := decodeRequest_ok.mp hdecode
  rw [encodeRequest_ok, requestSignsClear_iff hframed.2.1 htyped]
  exact ⟨fun h => h.2.1.2, fun h => ⟨hframed, ⟨hfits, h⟩, rfl⟩⟩

theorem encodeResponse_decodeResponse_iff {frame : Bytes} {response : ResponseEnvelope}
    (hdecode : decodeResponse frame = .ok response) :
    encodeResponse response = .ok frame ↔ ResponseSignsClear frame := by
  obtain ⟨hframed, hdecodable, rfl⟩ := decodeResponse_ok.mp hdecode
  rw [encodeResponse_ok, responseSignsClear_iff hframed hdecodable]
  constructor
  · intro h hcode
    exact (h.2.1 hcode).2.2
  · intro h
    refine ⟨hframed, fun hcode => ?_, rfl⟩
    obtain ⟨hkey, hfits, -⟩ := hdecodable.1 hcode
    exact ⟨hkey, hfits, h hcode⟩

/-- **Accepted frames are canonical up to signs.** An accepted frame is the encoding of what it decodes to
exactly if the sign bits that its decoder ignores are clear. -/
theorem accepted_frames_canonical_iff (frame : Bytes) :
    (∀ request, decodeRequest frame = .ok request →
      (encodeRequest request = .ok frame ↔ RequestSignsClear frame)) ∧
    (∀ response, decodeResponse frame = .ok response →
      (encodeResponse response = .ok frame ↔ ResponseSignsClear frame)) :=
  ⟨fun _ => encodeRequest_decodeRequest_iff, fun _ => encodeResponse_decodeResponse_iff⟩

/-- A `CommitOffset` request of version 1 for partition 0 of topic `t` in group `g`, with a given offset. -/
def commitFrame (offset : Bytes) : Bytes :=
  [0, 0, 0, 38, 0, 5, 0, 1, 0, 0, 0, 0, 0, 0, 0, 7] ++ [0, 0, 0, 1, 103] ++ [0, 0, 0, 1, 116] ++ [0, 0, 0, 0] ++ offset

/-- The frame with offset 5 is the encoding of what it decodes to. -/
theorem commit_frame_canonical :
    encodeRequest ⟨.commitOffset, 1, 7, .commitOffset ⟨[103], [116], 0, 5⟩⟩ =
      .ok (commitFrame [0, 0, 0, 0, 0, 0, 0, 5]) := by
  have hsigns : RequestSignsClear (commitFrame [0, 0, 0, 0, 0, 0, 0, 5]) := by
    unfold RequestSignsClear
    decide +kernel
  exact ((accepted_frames_canonical_iff _).1 _ (by rfl)).mpr hsigns

/-- The frame with offset -1 is accepted, but what it decodes to has no encoding. -/
theorem negative_commit_frame_not_canonical :
    decodeRequest (commitFrame [255, 255, 255, 255, 255, 255, 255, 255]) =
        .ok ⟨.commitOffset, 1, 7, .commitOffset ⟨[103], [116], 0, -1⟩⟩ ∧
      encodeRequest ⟨.commitOffset, 1, 7, .commitOffset ⟨[103], [116], 0, -1⟩⟩ ≠
        .ok (commitFrame [255, 255, 255, 255, 255, 255, 255, 255]) := by
  refine ⟨by rfl, ?_⟩
  intro h
  cases h

end LogMq
