import LogMq.LibLoggedReader
import LogMq.ProtocolResponseFrames

/-! What the decoders reserve. Four decoders reserve room for a declared number of elements before they read the
first one. Here they are written with these calls; without them they are the decoders of the other modules. Only
the decoder of fetched records compares the number with the unread bytes. -/

namespace LogMq

open BigEndian ByteCodec

/-- A call of `reserve`: the declared number of elements, the unread bytes of the body, and the minimum encoded
size of an element. -/
structure Reserve where
  count : Nat
  unread : Nat
  minimum : Nat
  deriving DecidableEq

/-- The body has room for the elements. -/
def Reserve.Bounded (call : Reserve) : Prop := call.count ≤ call.unread / call.minimum

abbrev ReservingReader (α : Type) := Logged Reserve Status α

def reserve (count minimum : Nat) : ReservingReader Unit :=
  Logged.note fun unread => ⟨count, unread.length, minimum⟩

/-! ### The decoders with their reserve calls -/

def readProduceReserving : ReservingReader ProduceRequest := do
  let topic ← Logged.lift readString
  let partitionId ← Logged.lift readPartitionId
  let recordCount ← Logged.lift (readUInt 4)
  Logged.lift (require (recordCount ≠ 0) (.invalidArgument "produce request record_count is zero"))
  reserve recordCount 16
  let records ← Logged.lift (readMany decodeProtocolRecord recordCount)
  return ⟨topic, partitionId, records⟩

def decodeFetchResponseBodyReserving (version : UInt16) : ReservingReader FetchResponse := do
  let baseOffset ← Logged.lift readOffset
  let highWatermark ← Logged.lift readOffset
  let recordCount ← Logged.lift (readUInt 4)
  Logged.lift (requireUnread (fun data => recordCount ≤ data.length / 16)
    (.invalidArgument "fetch record count exceeds body size"))
  reserve recordCount 16
  let records ← Logged.lift (readMany (decodeFetchRecord version) recordCount)
  return ⟨baseOffset, highWatermark, records⟩

def decodeMetadataResponseBodyReserving : ReservingReader MetadataResponse := do
  let topicCount ← Logged.lift (readUInt 4)
  reserve topicCount 8
  let topics ← Logged.lift (readMany decodeTopicMetadata topicCount)
  return ⟨topics⟩

def decodePartitionAssignmentReserving : ReservingReader PartitionAssignment := do
  let topic ← Logged.lift readString
  let partitionCount ← Logged.lift (readUInt 4)
  reserve partitionCount 4
  let partitionIds ← Logged.lift (readMany decodeAssignedPartition partitionCount)
  return ⟨topic, partitionIds⟩

def decodeSyncGroupResponseBodyReserving : ReservingReader SyncGroupResponse := do
  let groupId ← Logged.lift readString
  let memberId ← Logged.lift readString
  let generationId ← Logged.lift readGenerationId
  let assignment ← decodePartitionAssignmentReserving
  return ⟨groupId, memberId, generationId, assignment⟩

def decodeRequestBodyReserving (apiKey : ApiKey) (body : Bytes) : List Reserve × Result RequestBody :=
  match apiKey with
  | .produce =>
      match readProduceReserving body with
      | (calls, .error status) => (calls, .error status)
      | (calls, .ok (request, rest)) =>
          (calls, if rest = [] then pure (.produce request)
            else throw (.invalidArgument "produce request has trailing bytes"))
  | apiKey => ([], decodeRequestBody apiKey body)

def decodeRequestReserving (frame : Bytes) : List Reserve × Result RequestEnvelope :=
  match decodeFrame frame with
  | .error status => ([], .error status)
  | .ok (header, body) =>
      let decoded := decodeRequestBodyReserving header.apiKey body
      (decoded.1, do return ⟨header.apiKey, header.version, header.requestId, ← decoded.2⟩)

def decodeResponseBodyReserving (apiKey : ApiKey) (version : UInt16) : ReservingReader ResponseBody :=
  match apiKey with
  | .fetch => do return .fetch (← decodeFetchResponseBodyReserving version)
  | .metadata => do return .metadata (← decodeMetadataResponseBodyReserving)
  | .syncGroup => do return .syncGroup (← decodeSyncGroupResponseBodyReserving)
  | apiKey => Logged.lift (decodeResponseBody apiKey version)

def readSuccessReserving (header : FrameHeader) (errorCode : ProtocolErrorCode) : ReservingReader ResponseBody :=
  if errorCode = .none then decodeResponseBodyReserving header.apiKey header.version
  else pure (emptyResponseBodyFor header.apiKey)

def readResponseReserving (header : FrameHeader) : ReservingReader ResponseEnvelope := do
  let errorCode ← Logged.lift readErrorCode
  let message ← Logged.lift readString
  let body ← readSuccessReserving header errorCode
  return ⟨header.apiKey, header.version, header.requestId, ⟨errorCode, message⟩, body⟩

def decodeResponseReserving (frame : Bytes) : List Reserve × Result ResponseEnvelope :=
  match decodeFrame frame with
  | .error status => ([], .error status)
  | .ok (header, body) =>
      let decoded := readResponseReserving header body
      (decoded.1, do
        let (response, rest) ← decoded.2
        if rest = [] then pure response else throw (.invalidArgument "response has trailing bytes"))

/-! ### Without the calls they are the decoders -/

theorem erase_readProduceReserving : readProduceReserving.erase = readProduce := by
  simp only [readProduceReserving, reserve, Logged.erase_bind, Logged.erase_lift, Logged.erase_note, pure_bind,
    Logged.erase_pure, readProduce]

theorem erase_decodeFetchResponseBodyReserving (version : UInt16) :
    (decodeFetchResponseBodyReserving version).erase = decodeFetchResponseBody version := by
  simp only [decodeFetchResponseBodyReserving, reserve, Logged.erase_bind, Logged.erase_lift,
    Logged.erase_note, pure_bind, Logged.erase_pure, decodeFetchResponseBody]

theorem erase_decodeMetadataResponseBodyReserving :
    decodeMetadataResponseBodyReserving.erase = decodeMetadataResponseBody := by
  simp only [decodeMetadataResponseBodyReserving, reserve, Logged.erase_bind, Logged.erase_lift,
    Logged.erase_note, pure_bind, Logged.erase_pure, decodeMetadataResponseBody]

theorem erase_decodePartitionAssignmentReserving :
    decodePartitionAssignmentReserving.erase = decodePartitionAssignment := by
  simp only [decodePartitionAssignmentReserving, reserve, Logged.erase_bind, Logged.erase_lift,
    Logged.erase_note, pure_bind, Logged.erase_pure, decodePartitionAssignment]

theorem erase_decodeSyncGroupResponseBodyReserving :
    decodeSyncGroupResponseBodyReserving.erase = decodeSyncGroupResponseBody := by
  simp only [decodeSyncGroupResponseBodyReserving, Logged.erase_bind, Logged.erase_lift, Logged.erase_pure,
    erase_decodePartitionAssignmentReserving, decodeSyncGroupResponseBody]

theorem erase_decodeResponseBodyReserving (apiKey : ApiKey) (version : UInt16) :
    (decodeResponseBodyReserving apiKey version).erase = decodeResponseBody apiKey version := by
  cases apiKey with
  | fetch =>
      simp only [decodeResponseBodyReserving, Logged.erase_bind, Logged.erase_pure,
        erase_decodeFetchResponseBodyReserving, decodeResponseBody]
  | metadata =>
      simp only [decodeResponseBodyReserving, Logged.erase_bind, Logged.erase_pure,
        erase_decodeMetadataResponseBodyReserving, decodeResponseBody]
  | syncGroup =>
      simp only [decodeResponseBodyReserving, Logged.erase_bind, Logged.erase_pure,
        erase_decodeSyncGroupResponseBodyReserving, decodeResponseBody]
  | _ => rfl

theorem erase_readResponseReserving (header : FrameHeader) :
    (readResponseReserving header).erase = readResponse header := by
  have hsuccess : ∀ errorCode, (readSuccessReserving header errorCode).erase = readSuccess header errorCode := by
    intro errorCode
    unfold readSuccessReserving readSuccess
    by_cases hcode : errorCode = .none
    · rw [if_pos hcode, if_pos hcode, erase_decodeResponseBodyReserving]
    · rw [if_neg hcode, if_neg hcode, Logged.erase_pure]
  simp only [readResponseReserving, Logged.erase_bind, Logged.erase_lift, Logged.erase_pure, hsuccess, readResponse]

theorem decodeRequestBodyReserving_result (apiKey : ApiKey) (body : Bytes) :
    (decodeRequestBodyReserving apiKey body).2 = decodeRequestBody apiKey body := by
  cases apiKey with
  | produce =>
      have hread : (readProduceReserving body).2 = readProduce body :=
        congrFun erase_readProduceReserving body
      simp only [decodeRequestBodyReserving, decodeRequestBody, decodeProduceBody, readAll, ← hread]
      rcases readProduceReserving body with ⟨calls, status | ⟨request, rest⟩⟩
      · rfl
      · simp only [bind, Except.bind]
        split <;> rfl
  | _ => rfl

/-- **The calls do not change what is decoded.** -/
theorem decodeRequestReserving_result (frame : Bytes) : (decodeRequestReserving frame).2 = decodeRequest frame := by
  unfold decodeRequestReserving decodeRequest
  rcases decodeFrame frame with status | ⟨header, body⟩
  · rfl
  · simp only [decodeRequestBodyReserving_result, bind, Except.bind]

theorem decodeResponseReserving_result (frame : Bytes) :
    (decodeResponseReserving frame).2 = decodeResponse frame := by
  unfold decodeResponseReserving decodeResponse
  rcases decodeFrame frame with status | ⟨header, body⟩
  · rfl
  · have hread : (readResponseReserving header body).2 = readResponse header body :=
      congrFun (erase_readResponseReserving header) body
    simp only [hread, bind, Except.bind, readAll]

/-! ### The calls -/

theorem Reserve.not_bounded {count unread minimum : Nat} (h : unread / minimum < count) :
    ¬ (Reserve.mk count unread minimum).Bounded :=
  Nat.not_le.mpr h

theorem notes_readProduceReserving {body : Bytes} {call : Reserve} :
    readProduceReserving.Notes body call ↔
      ∃ topic partitionId count rest, topic.length ≤ maxUInt32 ∧ IsInt32 partitionId ∧ count < 256 ^ 4 ∧ count ≠ 0 ∧
        body = stringBytes topic ++ (partitionBytes partitionId ++ (beBytes 4 count ++ rest)) ∧
        call = ⟨count, rest.length, 16⟩ := by
  simp only [readProduceReserving, reserve, Logged.notes_reads_bind readString_reads,
    Logged.notes_reads_bind readPartitionId_reads, Logged.notes_reads_bind (readUInt_reads 4), Logged.notes_lift_bind,
    require_ok, Logged.notes_note_bind, Logged.not_notes_pure, and_false, exists_false, or_false]
  constructor
  · rintro ⟨topic, _, ⟨htopic, rfl⟩, partitionId, _, ⟨hpartition, rfl⟩, count, rest, ⟨hcount, rfl⟩, _, _,
      ⟨hzero, rfl⟩, rfl⟩
    exact ⟨topic, partitionId, count, rest, htopic, hpartition, hcount, hzero, rfl, rfl⟩
  · rintro ⟨topic, partitionId, count, rest, htopic, hpartition, hcount, hzero, rfl, rfl⟩
    exact ⟨topic, _, ⟨htopic, rfl⟩, partitionId, _, ⟨hpartition, rfl⟩, count, rest, ⟨hcount, rfl⟩, (), rest,
      ⟨hzero, rfl⟩, rfl⟩

/-- The guard bounds what is reserved for fetched records. -/
theorem bounded_of_notes_fetch {version : UInt16} {body : Bytes} {call : Reserve}
    (h : (decodeFetchResponseBodyReserving version).Notes body call) : call.Bounded := by
  simp only [decodeFetchResponseBodyReserving, reserve, Logged.notes_lift_bind, requireUnread_ok,
    Logged.notes_note_bind, Logged.not_notes_pure, and_false, exists_false, or_false] at h
  obtain ⟨_, _, -, _, _, -, count, _, -, _, rest, ⟨hguard, rfl⟩, rfl⟩ := h
  exact hguard

theorem notes_decodeMetadataResponseBodyReserving {body : Bytes} {call : Reserve} :
    decodeMetadataResponseBodyReserving.Notes body call ↔
      ∃ count rest, count < 256 ^ 4 ∧ body = beBytes 4 count ++ rest ∧ call = ⟨count, rest.length, 8⟩ := by
  simp only [decodeMetadataResponseBodyReserving, reserve, Logged.notes_reads_bind (readUInt_reads 4),
    Logged.notes_note_bind, Logged.notes_lift_bind, Logged.not_notes_pure, and_false, exists_false, or_false,
    and_assoc]

theorem notes_decodeSyncGroupResponseBodyReserving {body : Bytes} {call : Reserve} :
    decodeSyncGroupResponseBodyReserving.Notes body call ↔
      ∃ groupId memberId generationId topic count rest, (groupId.length ≤ maxUInt32 ∧ memberId.length ≤ maxUInt32 ∧
        (0 ≤ generationId ∧ IsInt32 generationId) ∧ topic.length ≤ maxUInt32) ∧ count < 256 ^ 4 ∧
        body = memberBytes groupId memberId generationId ++ (stringBytes topic ++ (beBytes 4 count ++ rest)) ∧
        call = ⟨count, rest.length, 4⟩ := by
  simp only [decodeSyncGroupResponseBodyReserving, decodePartitionAssignmentReserving, reserve,
    Logged.notes_bind_pure, Logged.notes_reads_bind readString_reads, Logged.notes_reads_bind readGenerationId_reads,
    Logged.notes_reads_bind (readUInt_reads 4), Logged.notes_note_bind, Logged.not_notes_lift, or_false, memberBytes]
  constructor
  · rintro ⟨groupId, _, ⟨hgroup, rfl⟩, memberId, _, ⟨hmember, rfl⟩, generationId, _, ⟨hgeneration, rfl⟩, topic, _,
      ⟨htopic, rfl⟩, count, rest, ⟨hcount, rfl⟩, rfl⟩
    exact ⟨groupId, memberId, generationId, topic, count, rest, ⟨hgroup, hmember, hgeneration, htopic⟩, hcount,
      by simp only [List.append_assoc], rfl⟩
  · rintro ⟨groupId, memberId, generationId, topic, count, rest, ⟨hgroup, hmember, hgeneration, htopic⟩, hcount,
      rfl, rfl⟩
    exact ⟨groupId, _, ⟨hgroup, by simp only [List.append_assoc]⟩, memberId, _, ⟨hmember, rfl⟩, generationId, _,
      ⟨hgeneration, rfl⟩, topic, _, ⟨htopic, rfl⟩, count, rest, ⟨hcount, rfl⟩, rfl⟩

/-! ### Overdeclared counts -/

/-- The frame holds a body that declares `count` elements behind `front` and has the bytes `rest` left for them. -/
def Declares (frame : Bytes) (apiKey : ApiKey) (front : Bytes) (count : Nat) (rest : Bytes) : Prop :=
  ∃ version requestId, SupportedVersion version ∧ count < 256 ^ 4 ∧
    frameHeaderBytes + (front ++ (beBytes 4 count ++ rest)).length ≤ maxFrameBytes ∧
    frame = frameBytes apiKey version requestId (front ++ (beBytes 4 count ++ rest))

/-- A produce request with fewer than sixteen bytes for each declared record. -/
def OverdeclaresRequest (frame : Bytes) : Prop :=
  ∃ topic partitionId count rest, topic.length ≤ maxUInt32 ∧ IsInt32 partitionId ∧ rest.length / 16 < count ∧
    Declares frame .produce (stringBytes topic ++ partitionBytes partitionId) count rest

/-- What stands in front of the body of a success. -/
def successBytes (message : Bytes) : Bytes := beBytes 2 ProtocolErrorCode.none.code ++ stringBytes message

/-- A metadata response with fewer than eight bytes for each declared topic, or a sync group response with fewer
than four bytes for each declared partition. -/
inductive OverdeclaresResponse (frame : Bytes) : Prop
  | metadata {message : Bytes} {count : Nat} {rest : Bytes} (hmessage : message.length ≤ maxUInt32)
      (hover : rest.length / 8 < count) (hframe : Declares frame .metadata (successBytes message) count rest)
  | syncGroup {message groupId memberId topic : Bytes} {generationId : Int} {count : Nat} {rest : Bytes}
      (hmessage : message.length ≤ maxUInt32)
      (hstrings : groupId.length ≤ maxUInt32 ∧ memberId.length ≤ maxUInt32 ∧
        (0 ≤ generationId ∧ IsInt32 generationId) ∧ topic.length ≤ maxUInt32)
      (hover : rest.length / 4 < count)
      (hframe : Declares frame .syncGroup
        (successBytes message ++ (memberBytes groupId memberId generationId ++ stringBytes topic)) count rest)

theorem mem_decodeRequestReserving {frame : Bytes} {call : Reserve} :
    call ∈ (decodeRequestReserving frame).1 ↔
      ∃ header body, decodeFrame frame = .ok (header, body) ∧ header.apiKey = .produce ∧
        readProduceReserving.Notes body call := by
  unfold decodeRequestReserving
  cases hframe : decodeFrame frame with
  | error status =>
      constructor
      · intro h
        cases h
      · rintro ⟨header, body, h, -⟩
        cases h
  | ok decoded =>
      obtain ⟨header, body⟩ := decoded
      have hcalls : (decodeRequestBodyReserving header.apiKey body).1 =
          if header.apiKey = .produce then (readProduceReserving body).1 else [] := by
        unfold decodeRequestBodyReserving
        cases header.apiKey with
        | produce => rcases readProduceReserving body with ⟨calls, status | ⟨request, rest⟩⟩ <;> rfl
        | _ => rfl
      show call ∈ (decodeRequestBodyReserving header.apiKey body).1 ↔ _
      rw [hcalls]
      constructor
      · intro h
        split at h
        case isTrue hkey => exact ⟨header, body, rfl, hkey, h⟩
        case isFalse => cases h
      · rintro ⟨header', body', h, hkey, hnotes⟩
        cases h
        rw [if_pos hkey]
        exact hnotes

theorem overdeclaresRequest_iff {frame : Bytes} :
    OverdeclaresRequest frame ↔ ∃ call ∈ (decodeRequestReserving frame).1, ¬ call.Bounded := by
  simp only [mem_decodeRequestReserving, notes_readProduceReserving]
  constructor
  · rintro ⟨topic, partitionId, count, rest, htopic, hpartition, hover, version, requestId, hversion, hcount, hlength,
      rfl⟩
    refine ⟨⟨count, rest.length, 16⟩, ⟨⟨.produce, version, requestId⟩, _, decodeFrame_ok.mpr ⟨hversion, hlength, rfl⟩,
      rfl, topic, partitionId, count, rest, htopic, hpartition, hcount, by omega, List.append_assoc _ _ _, rfl⟩, ?_⟩
    exact Reserve.not_bounded hover
  · rintro ⟨_, ⟨header, _, hframe, hkey, topic, partitionId, count, rest, htopic, hpartition, hcount, -, rfl, rfl⟩,
      hover⟩
    obtain ⟨hversion, hlength, rfl⟩ := decodeFrame_ok.mp hframe
    rw [hkey, ← List.append_assoc] at *
    exact ⟨topic, partitionId, count, rest, htopic, hpartition, Nat.not_le.mp hover, header.version, header.requestId,
      hversion, hcount, hlength, rfl⟩

theorem notes_readResponseReserving {header : FrameHeader} {body : Bytes} {call : Reserve} :
    (readResponseReserving header).Notes body call ↔
      ∃ message rest, message.length ≤ maxUInt32 ∧ body = successBytes message ++ rest ∧
        (decodeResponseBodyReserving header.apiKey header.version).Notes rest call := by
  simp only [readResponseReserving, Logged.notes_reads_bind readErrorCode_reads,
    Logged.notes_reads_bind readString_reads, Logged.notes_bind_pure, readSuccessReserving]
  constructor
  · rintro ⟨errorCode, _, ⟨-, rfl⟩, message, rest, ⟨hmessage, rfl⟩, hnotes⟩
    by_cases hcode : errorCode = .none
    · rw [if_pos hcode] at hnotes
      exact ⟨message, rest, hmessage, by rw [hcode, successBytes, List.append_assoc], hnotes⟩
    · rw [if_neg hcode] at hnotes
      exact absurd hnotes (Logged.not_notes_pure _ _ _)
  · rintro ⟨message, rest, hmessage, rfl, hnotes⟩
    refine ⟨.none, stringBytes message ++ rest, ⟨trivial, List.append_assoc _ _ _⟩, message, rest, ⟨hmessage, rfl⟩, ?_⟩
    rwa [if_pos rfl]

theorem mem_decodeResponseReserving {frame : Bytes} {call : Reserve} :
    call ∈ (decodeResponseReserving frame).1 ↔
      ∃ (header : FrameHeader) (message rest : Bytes), message.length ≤ maxUInt32 ∧
        decodeFrame frame = .ok (header, successBytes message ++ rest) ∧
        (decodeResponseBodyReserving header.apiKey header.version).Notes rest call := by
  unfold decodeResponseReserving
  cases decodeFrame frame with
  | error status =>
      constructor
      · intro h
        cases h
      · rintro ⟨header, message, rest, -, h, -⟩
        cases h
  | ok decoded =>
      obtain ⟨header, body⟩ := decoded
      constructor
      · intro h
        obtain ⟨message, rest, hmessage, rfl, hnotes⟩ := notes_readResponseReserving.mp h
        exact ⟨header, message, rest, hmessage, rfl, hnotes⟩
      · rintro ⟨header', message, rest, hmessage, h, hnotes⟩
        cases h
        exact notes_readResponseReserving.mpr ⟨message, rest, hmessage, rfl, hnotes⟩

theorem overdeclaresResponse_iff {frame : Bytes} :
    OverdeclaresResponse frame ↔ ∃ call ∈ (decodeResponseReserving frame).1, ¬ call.Bounded := by
  simp only [mem_decodeResponseReserving]
  constructor
  · rintro (⟨hmessage, hover, version, requestId, hversion, hcount, hlength, rfl⟩ |
      ⟨hmessage, hstrings, hover, version, requestId, hversion, hcount, hlength, rfl⟩)
    · refine ⟨_, ⟨⟨.metadata, version, requestId⟩, _, _, hmessage, decodeFrame_ok.mpr ⟨hversion, hlength, rfl⟩, ?_⟩,
        Reserve.not_bounded hover⟩
      apply Logged.notes_bind_pure.mpr
      exact notes_decodeMetadataResponseBodyReserving.mpr ⟨_, _, hcount, rfl, rfl⟩
    · rw [List.append_assoc] at hlength ⊢
      refine ⟨_, ⟨⟨.syncGroup, version, requestId⟩, _, _, hmessage, decodeFrame_ok.mpr ⟨hversion, hlength, rfl⟩, ?_⟩,
        Reserve.not_bounded hover⟩
      apply Logged.notes_bind_pure.mpr
      exact notes_decodeSyncGroupResponseBodyReserving.mpr ⟨_, _, _, _, _, _, hstrings, hcount,
        List.append_assoc _ _ _, rfl⟩
  · rintro ⟨call, ⟨⟨apiKey, version, requestId⟩, message, rest, hmessage, hframe, hnotes⟩, hover⟩
    obtain ⟨hversion, hlength, rfl⟩ := decodeFrame_ok.mp hframe
    cases apiKey with
    | fetch => exact absurd (bounded_of_notes_fetch (Logged.notes_bind_pure.mp hnotes)) hover
    | metadata =>
        obtain ⟨count, rest, hcount, rfl, rfl⟩ :=
          notes_decodeMetadataResponseBodyReserving.mp (Logged.notes_bind_pure.mp hnotes)
        exact .metadata hmessage (Nat.not_le.mp hover) ⟨version, requestId, hversion, hcount, hlength, rfl⟩
    | syncGroup =>
        obtain ⟨groupId, memberId, generationId, topic, count, rest, hstrings, hcount, rfl, rfl⟩ :=
          notes_decodeSyncGroupResponseBodyReserving.mp (Logged.notes_bind_pure.mp hnotes)
        refine .syncGroup hmessage hstrings (Nat.not_le.mp hover) ⟨version, requestId, hversion, hcount, ?_, ?_⟩
        · simpa only [List.append_assoc] using hlength
        · simp only [List.append_assoc]
    | _ => exact absurd hnotes (Logged.not_notes_lift _ _ _)

/-- **Reserved room.** A decoder reserves more elements than the body could hold if and only if the frame is a
produce request, a metadata response or a sync group response that declares so many. -/
theorem reserves_bounded_iff (frame : Bytes) :
    ((∀ call ∈ (decodeRequestReserving frame).1, call.Bounded) ↔ ¬ OverdeclaresRequest frame) ∧
    ((∀ call ∈ (decodeResponseReserving frame).1, call.Bounded) ↔ ¬ OverdeclaresResponse frame) := by
  rw [overdeclaresRequest_iff, overdeclaresResponse_iff]
  push Not
  exact ⟨Iff.rfl, Iff.rfl⟩

/-- A produce request of 28 bytes that declares the largest number of records and has none. -/
def overdeclaringProduce : Bytes :=
  frameBytes .produce 1 0 (stringBytes [] ++ (partitionBytes 0 ++ beBytes 4 maxUInt32))

theorem overdeclaringProduce_reserves :
    (decodeRequestReserving overdeclaringProduce).1 = [⟨4294967295, 0, 16⟩] ∧
      ¬ Reserve.Bounded ⟨4294967295, 0, 16⟩ ∧ overdeclaringProduce.length = 28 := by
  unfold Reserve.Bounded
  decide +kernel

end LogMq
