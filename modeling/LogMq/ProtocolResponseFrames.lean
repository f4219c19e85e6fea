import LogMq.ProtocolResponseLayout

/-! The frames of responses: the header, the error, and the body of a success. -/

namespace LogMq

open BigEndian ByteCodec

/-! ### Frames of responses -/

/-- One alternative of `DecodeResponseBody`. -/
theorem responseAlternative_reads {α : Type} {reader : BodyReader α} {wrap : α → ResponseBody} {apiKey : ApiKey}
    {version : UInt16}
    (hreads : Reads reader (fun a => (wrap a).Decodable version) (fun a => (wrap a).layout version))
    (hwrap : ∀ body : ResponseBody, apiKey = body.apiKey ↔ ∃ a, body = wrap a) :
    Reads (do return wrap (← reader)) (fun body => apiKey = body.apiKey ∧ body.Decodable version)
      (ResponseBody.layout version) := by
  intro data body rest
  simp only [bind_ok, pure_ok, hreads.iff, hwrap]
  constructor
  · rintro ⟨a, _, ⟨hdecodable, rfl⟩, rfl, rfl⟩
    exact ⟨⟨⟨a, rfl⟩, hdecodable⟩, rfl⟩
  · rintro ⟨⟨⟨a, rfl⟩, hdecodable⟩, rfl⟩
    exact ⟨a, rest, ⟨hdecodable, rfl⟩, rfl, rfl⟩

/-- **A body is decoded from its layout, if it meets the checks of the decoder.** -/
theorem decodeResponseBody_reads (apiKey : ApiKey) (version : UInt16) :
    Reads (decodeResponseBody apiKey version) (fun body => apiKey = body.apiKey ∧ body.Decodable version)
      (ResponseBody.layout version) := by
  cases apiKey with
  | produce =>
      refine responseAlternative_reads (decodeProduceResponseBody_reads version) fun body => ?_
      cases body <;> simp [ResponseBody.apiKey]
  | fetch =>
      refine responseAlternative_reads (decodeFetchResponseBody_reads version) fun body => ?_
      cases body <;> simp [ResponseBody.apiKey]
  | metadata =>
      refine responseAlternative_reads (decodeMetadataResponseBody_reads version) fun body => ?_
      cases body <;> simp [ResponseBody.apiKey]
  | createTopic =>
      refine responseAlternative_reads (decodeTopicMetadata_reads.congr (fun _ => ?_) fun _ => rfl) fun body => ?_
      · exact ⟨fun h => ⟨h, trivial, trivial⟩, fun h => h.1⟩
      · cases body <;> simp [ResponseBody.apiKey]
  | commitOffset =>
      refine responseAlternative_reads (readGroupOffset_reads.congr (fun _ => ?_) fun _ => rfl) fun body => ?_
      · exact ⟨fun h => ⟨h.1, h.2, trivial⟩, fun h => ⟨h.1, h.2.1⟩⟩
      · cases body <;> simp [ResponseBody.apiKey]
  | fetchCommittedOffset =>
      refine responseAlternative_reads (decodeFetchCommittedOffsetResponseBody_reads version) fun body => ?_
      cases body <;> simp [ResponseBody.apiKey]
  | joinGroup =>
      refine responseAlternative_reads (decodeJoinGroupResponseBody_reads version) fun body => ?_
      cases body <;> simp [ResponseBody.apiKey]
  | syncGroup =>
      refine responseAlternative_reads (decodeSyncGroupResponseBody_reads version) fun body => ?_
      cases body <;> simp [ResponseBody.apiKey]
  | heartbeat =>
      refine responseAlternative_reads (readMemberResponse_reads.congr (fun _ => ?_) fun _ => rfl) fun body => ?_
      · exact ⟨fun h => ⟨h.1, h.2, trivial⟩, fun h => ⟨h.1, h.2.1⟩⟩
      · cases body <;> simp [ResponseBody.apiKey]
  | leaveGroup =>
      refine responseAlternative_reads (readMemberResponse_reads.congr (fun _ => ?_) fun _ => rfl) fun body => ?_
      · exact ⟨fun h => ⟨h.1, h.2, trivial⟩, fun h => ⟨h.1, h.2.1⟩⟩
      · cases body <;> simp [ResponseBody.apiKey]
  | nack =>
      refine responseAlternative_reads (decodeNackResponseBody_reads version) fun body => ?_
      cases body <;> simp [ResponseBody.apiKey]

theorem readErrorCode_reads :
    Reads readErrorCode (fun _ => True) (fun errorCode : ProtocolErrorCode => beBytes 2 errorCode.code) := by
  intro data errorCode rest
  simp only [readErrorCode, Result.bind_eq_ok, Result.pure_eq_ok, Prod.exists, (readUInt_reads 2).iff,
    parseProtocolErrorCode_ok, Prod.mk.injEq]
  constructor
  · rintro ⟨_, _, ⟨-, rfl⟩, _, rfl, rfl, rfl⟩
    exact ⟨trivial, rfl⟩
  · rintro ⟨-, rfl⟩
    exact ⟨errorCode.code, rest, ⟨errorCode.code_lt, rfl⟩, errorCode, rfl, rfl, rfl⟩

/-- The bytes behind the header: the error, and the body of a success. -/
def ResponseEnvelope.payload (response : ResponseEnvelope) : Bytes :=
  beBytes 2 response.error.errorCode.code ++ (stringBytes response.error.message ++
    if response.error.errorCode = .none then response.body.layout response.version else [])

/-- The frame of a response. -/
def ResponseEnvelope.frame (response : ResponseEnvelope) : Bytes :=
  frameBytes response.apiKey response.version response.requestId response.payload

/-- What both directions require of an envelope, but for the body of a success. -/
def ResponseEnvelope.Framed (response : ResponseEnvelope) : Prop :=
  SupportedVersion response.version ∧ response.error.message.length ≤ maxUInt32 ∧
    frameHeaderBytes + response.payload.length ≤ maxFrameBytes

/-- The body of a success meets the checks of the encoder. -/
def ResponseEnvelope.Encodable (response : ResponseEnvelope) : Prop :=
  response.error.errorCode = .none → response.apiKey = response.body.apiKey ∧
    response.body.Fits response.version ∧ response.body.NonNegative

/-- The body of a success meets the checks of the decoder, and that of an error is empty. -/
def ResponseEnvelope.Decodable (response : ResponseEnvelope) : Prop :=
  (response.error.errorCode = .none → response.apiKey = response.body.apiKey ∧
    response.body.Decodable response.version) ∧
  (response.error.errorCode ≠ .none → response.body = emptyResponseBodyFor response.apiKey)

theorem encodeSuccess_ok {response : ResponseEnvelope} {bytes : Bytes} :
    encodeSuccess response = .ok bytes ↔ response.Encodable ∧
      bytes = if response.error.errorCode = .none then response.body.layout response.version else [] := by
  unfold encodeSuccess encodeResponseBody ResponseEnvelope.Encodable
  by_cases hcode : response.error.errorCode = .none
  · simp only [hcode, if_true, true_imp_iff, Result.reject_eq_ok, not_not, ResponseBody.encode_ok, and_assoc]
  · simp only [hcode, if_false, false_imp_iff, true_and, Result.pure_eq_ok]

theorem encodeResponse_ok {response : ResponseEnvelope} {frame : Bytes} :
    encodeResponse response = .ok frame ↔ response.Framed ∧ response.Encodable ∧ frame = response.frame := by
  simp only [encodeResponse, Result.reject_eq_ok, Result.bind_eq_ok, appendString_ok, encodeSuccess_ok,
    appendBigEndian, encodeFrame_ok, not_not, List.nil_append, ResponseEnvelope.Framed, ResponseEnvelope.frame,
    ResponseEnvelope.payload]
  constructor
  · rintro ⟨hversion, _, ⟨hmessage, rfl⟩, _, ⟨hencodable, rfl⟩, hlength, rfl⟩
    rw [List.append_assoc] at hlength ⊢
    exact ⟨⟨hversion, hmessage, hlength⟩, hencodable, rfl⟩
  · rintro ⟨⟨hversion, hmessage, hlength⟩, hencodable, rfl⟩
    refine ⟨hversion, _, ⟨hmessage, rfl⟩, _, ⟨hencodable, rfl⟩, ?_⟩
    rw [List.append_assoc]
    exact ⟨hlength, rfl⟩

/-- The envelope has the header of its frame. -/
def FrameHeader.Heads (header : FrameHeader) (response : ResponseEnvelope) : Prop :=
  response.apiKey = header.apiKey ∧ response.version = header.version ∧ response.requestId = header.requestId

theorem readSuccess_reads (header : FrameHeader) (errorCode : ProtocolErrorCode) :
    Reads (readSuccess header errorCode) (fun body =>
      (errorCode = .none → header.apiKey = body.apiKey ∧ body.Decodable header.version) ∧
        (errorCode ≠ .none → body = emptyResponseBodyFor header.apiKey))
      (fun body => if errorCode = .none then body.layout header.version else []) := by
  intro data body rest
  unfold readSuccess
  by_cases hcode : errorCode = .none
  · simp only [hcode, if_true, true_imp_iff, (decodeResponseBody_reads _ _).iff, ne_eq, not_true_eq_false,
      false_imp_iff, and_true]
  · simp only [hcode, if_false, false_imp_iff, true_and, pure_ok, ne_eq, not_false_eq_true, true_imp_iff,
      List.nil_append]

theorem readResponse_reads (header : FrameHeader) :
    Reads (readResponse header) (fun response => header.Heads response ∧
      response.error.message.length ≤ maxUInt32 ∧ response.Decodable) ResponseEnvelope.payload := by
  intro data response rest
  simp only [readResponse, bind_ok, pure_ok, readErrorCode_reads.iff, readString_reads.iff,
    (readSuccess_reads _ _).iff]
  constructor
  · rintro ⟨errorCode, _, ⟨-, rfl⟩, message, _, ⟨hmessage, rfl⟩, body, _, ⟨hbody, rfl⟩, rfl, rfl⟩
    exact ⟨⟨⟨rfl, rfl, rfl⟩, hmessage, hbody⟩, by simp only [ResponseEnvelope.payload, List.append_assoc]⟩
  · rintro ⟨⟨⟨hkey, hversion, hid⟩, hmessage, hdecodable⟩, rfl⟩
    unfold ResponseEnvelope.Decodable at hdecodable
    unfold ResponseEnvelope.payload
    rw [← hkey, ← hversion, ← hid]
    exact ⟨_, _, ⟨trivial, List.append_assoc _ _ _⟩, _, _, ⟨hmessage, List.append_assoc _ _ _⟩, _, rest,
      ⟨hdecodable, rfl⟩, rfl, rfl⟩

theorem decodeResponse_ok {frame : Bytes} {response : ResponseEnvelope} :
    decodeResponse frame = .ok response ↔ response.Framed ∧ response.Decodable ∧ frame = response.frame := by
  simp only [decodeResponse, Result.bind_eq_ok, Prod.exists, decodeFrame_ok, readAll_ok (readResponse_reads _),
    ResponseEnvelope.Framed, ResponseEnvelope.frame]
  constructor
  · rintro ⟨header, _, ⟨hversion, hlength, rfl⟩, ⟨⟨hkey, hv, hid⟩, hmessage, hdecodable⟩, rfl⟩
    rw [hkey, hv, hid]
    exact ⟨⟨hversion, hmessage, hlength⟩, hdecodable, rfl⟩
  · rintro ⟨⟨hversion, hmessage, hlength⟩, hdecodable, rfl⟩
    exact ⟨⟨response.apiKey, response.version, response.requestId⟩, _, ⟨hversion, hlength, rfl⟩,
      ⟨⟨rfl, rfl, rfl⟩, hmessage, hdecodable⟩, rfl⟩

/-! ### Round trip -/

/-- A success body as it comes out of a frame: only version 2 keeps the retry metadata of fetched records. -/
def ResponseBody.dropRetry (version : UInt16) : ResponseBody → ResponseBody
  | .fetch response =>
      if version = retryProtocolVersion then .fetch response
      else .fetch { response with records := response.records.map ProtocolRecord.dropRetry }
  | body => body

/-- The response as it comes out of a frame: the body of an error is the empty alternative. -/
def ResponseEnvelope.received (response : ResponseEnvelope) : ResponseEnvelope :=
  { response with
    body := if response.error.errorCode = .none then response.body.dropRetry response.version
      else emptyResponseBodyFor response.apiKey }

theorem ResponseBody.layout_dropRetry (version : UInt16) (body : ResponseBody) :
    (body.dropRetry version).layout version = body.layout version := by
  cases body with
  | fetch response =>
      by_cases hversion : version = retryProtocolVersion
      · rw [ResponseBody.dropRetry, if_pos hversion]
      · have hbytes : (fun record : ProtocolRecord => fetchRecordBytes version record.dropRetry) =
            fetchRecordBytes version := by
          funext record
          simp only [fetchRecordBytes, if_neg hversion]
          rfl
        simp only [ResponseBody.dropRetry, if_neg hversion, ResponseBody.layout, List.length_map, List.flatMap_map,
          hbytes]
  | _ => rfl

theorem ResponseBody.apiKey_dropRetry (version : UInt16) (body : ResponseBody) :
    (body.dropRetry version).apiKey = body.apiKey := by
  cases body with
  | fetch response =>
      unfold ResponseBody.dropRetry
      split_ifs <;> rfl
  | _ => rfl

theorem ResponseBody.decodable_dropRetry {version : UInt16} {body : ResponseBody} (hfits : body.Fits version)
    (htyped : body.Typed) : (body.dropRetry version).Decodable version := by
  cases body with
  | fetch response =>
      by_cases hversion : version = retryProtocolVersion
      · rw [ResponseBody.dropRetry, if_pos hversion]
        exact ⟨hfits, htyped, fun hne => absurd hversion hne⟩
      · rw [ResponseBody.dropRetry, if_neg hversion]
        obtain ⟨hcount, hrecords⟩ := hfits
        refine ⟨⟨by rwa [List.length_map], ?_⟩, ⟨htyped.1, htyped.2.1, ?_⟩, fun _ => ?_⟩
        · intro record hrecord
          obtain ⟨original, horiginal, rfl⟩ := List.mem_map.mp hrecord
          exact ⟨(hrecords original horiginal).1, fun h => absurd h hversion⟩
        · intro record hrecord retry hretry
          obtain ⟨original, -, rfl⟩ := List.mem_map.mp hrecord
          cases hretry
        · intro record hrecord
          obtain ⟨original, -, rfl⟩ := List.mem_map.mp hrecord
          rfl
  | _ => exact ⟨hfits, htyped, trivial⟩

theorem ResponseEnvelope.payload_received (response : ResponseEnvelope) :
    response.received.payload = response.payload := by
  unfold ResponseEnvelope.payload ResponseEnvelope.received
  by_cases hcode : response.error.errorCode = .none
  · simp only [hcode, if_true, ResponseBody.layout_dropRetry]
  · simp only [hcode, if_false]

theorem ResponseEnvelope.decodable_received {response : ResponseEnvelope} (hencodable : response.Encodable)
    (htyped : response.body.Typed) : response.received.Decodable := by
  unfold ResponseEnvelope.received
  constructor
  · intro hcode
    obtain ⟨hkey, hfits, -⟩ := hencodable hcode
    simp only [if_pos hcode, ResponseBody.apiKey_dropRetry]
    exact ⟨hkey, ResponseBody.decodable_dropRetry hfits htyped⟩
  · intro hcode
    simp only [if_neg hcode]

/-- **Responses survive the wire.** Whatever is encoded decodes to itself, but for the body of an error
and the retry metadata that version 1 does not carry. -/
theorem decodeResponse_encodeResponse {response : ResponseEnvelope} {frame : Bytes} (htyped : response.body.Typed)
    (hencode : encodeResponse response = .ok frame) : decodeResponse frame = .ok response.received := by
  obtain ⟨⟨hversion, hmessage, hlength⟩, hencodable, rfl⟩ := encodeResponse_ok.mp hencode
  apply decodeResponse_ok.mpr
  refine ⟨⟨hversion, hmessage, ?_⟩, ResponseEnvelope.decodable_received hencodable htyped, ?_⟩
  · rwa [ResponseEnvelope.payload_received]
  · simp only [ResponseEnvelope.frame, ResponseEnvelope.payload_received]
    rfl

/-- A fetched record with retry metadata, in version 2. -/
def sampleFetch : ResponseEnvelope :=
  ⟨.fetch, 2, 7, ⟨.none, []⟩, .fetch ⟨4, 5, [⟨3, [0], [1], some ⟨1, 9, [116], [], 0, 2⟩⟩]⟩⟩

theorem decodeResponse_encodeResponse_fetch :
    ∃ frame, encodeResponse sampleFetch = .ok frame ∧ decodeResponse frame = .ok sampleFetch := by
  have htyped : sampleFetch.body.Typed := by
    refine ⟨by decide, by decide, ?_⟩
    intro record hrecord retry hretry
    cases List.mem_singleton.mp hrecord
    cases hretry
    exact ⟨by decide, by decide⟩
  obtain ⟨frame, hframe⟩ : ∃ frame, encodeResponse sampleFetch = .ok frame := ⟨_, rfl⟩
  exact ⟨frame, hframe, decodeResponse_encodeResponse htyped hframe⟩

end LogMq
