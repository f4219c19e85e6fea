import LogMq.BrokerNames
import LogMq.ProtocolResponseFrames
import LogMq.StorageBatchCodec

/-! Retry records at rest. A rejected record is stored as a version 2 Fetch response of one record, behind a
magic, under the key and the timestamp it had; reading it back gives the record and its retry metadata. -/

namespace LogMq

open BigEndian

/-- `kEnvelopeMagic`. -/
def envelopeMagic : Bytes := text "LMQR" ++ [1]

/-- `kMaxRetryBatchBytes`: room for the key twice and for a whole frame. -/
def maxRetryBatchBytes : Nat := 2 * maxFrameBytes + 128

/-- The response a retry record is stored as. -/
def retryEnvelope (record : ProtocolRecord) : ResponseEnvelope :=
  { apiKey := .fetch
    version := retryProtocolVersion
    requestId := 0
    error := ⟨.none, []⟩
    body := .fetch ⟨0, 1, [record]⟩ }

def encodeRetryRecord (record : ProtocolRecord) : Result Record :=
  if (record.retry.all fun retry => isInternalTopic retry.originalTopic) = true then
    .error (.invalidArgument "retry record needs original topic metadata")
  else do
    let bytes ← encodeResponse (retryEnvelope record)
    return { timestamp := record.timestamp, key := record.key, value := envelopeMagic ++ bytes }

/-- The checks of `DecodeRetryRecord` on the response it finds. A frame of the Fetch api always decodes to
a Fetch body, so `std::get` never throws. -/
def retryContents (record : Record) (response : ResponseEnvelope) : Result ProtocolRecord :=
  if response.apiKey ≠ .fetch ∨ response.version ≠ retryProtocolVersion ∨ response.error.errorCode ≠ .none then
    .error (.corruption "invalid retry envelope type")
  else
    match response.body with
    | .fetch ⟨0, 1, [found]⟩ =>
        if (found.retry.all fun retry => isInternalTopic retry.originalTopic) = true ∨ found.key ≠ record.key ∨
            found.timestamp ≠ record.timestamp then
          .error (.corruption "invalid retry envelope contents")
        else .ok found
    | _ => .error (.corruption "invalid retry envelope contents")

def decodeRetryRecord (record : Record) : Result ProtocolRecord :=
  if envelopeMagic.isPrefixOf record.value then
    match decodeResponse (record.value.drop envelopeMagic.length) with
    | .error status => .error (.corruption status.message)
    | .ok response => retryContents record response
  else .error (.corruption "invalid retry envelope magic or version")

/-! ### Sizes -/

theorem fetchRecordBytes_length (version : UInt16) (record : ProtocolRecord) :
    (fetchRecordBytes version record).length = 16 + record.key.length + record.value.length +
      if version = retryProtocolVersion then 1 + (record.retry.elim 0 fun retry => (retryBytes retry).length)
      else 0 := by
  unfold fetchRecordBytes
  rw [List.length_append]
  have hwire : (wireRecordBytes record).length = 16 + record.key.length + record.value.length := by
    simp only [wireRecordBytes, stringBytes, List.length_append, beBytes_length]
    omega
  rw [hwire]
  split_ifs with hversion
  · cases record.retry with
    | none => simp only [beBytes_length, Option.elim_none, Nat.add_zero]
    | some retry => simp only [List.length_append, beBytes_length, Option.elim_some]
  · rfl

/-- The part of a Fetch response without records. -/
def fetchFrameBytes : Nat := 42

theorem fetch_frame_length (response : FetchResponse) {version : UInt16} {requestId : UInt64} :
    frameHeaderBytes + (ResponseEnvelope.payload ⟨.fetch, version, requestId, ⟨.none, []⟩, .fetch response⟩).length =
      fetchFrameBytes + (response.records.flatMap (fetchRecordBytes version)).length := by
  simp only [ResponseEnvelope.payload, if_true, ResponseBody.layout, List.length_append, beBytes_length, stringBytes,
    offsetBytes, List.length_nil, frameHeaderBytes, fetchFrameBytes]
  omega

/-! ### Round trip -/

section RoundTrip

variable {record : ProtocolRecord} {stored : Record}

/-- What an encoded record looks like. -/
structure StoredRetry (record : ProtocolRecord) (retry : RetryMetadata) (stored : Record) : Prop where
  retry_eq : record.retry = some retry
  ordinary : isInternalTopic retry.originalTopic = false
  framed : (retryEnvelope record).Framed
  encodable : (retryEnvelope record).Encodable
  content : stored.content = (record.timestamp, record.key, envelopeMagic ++ (retryEnvelope record).frame)

theorem encodeRetryRecord_ok (h : encodeRetryRecord record = .ok stored) :
    ∃ retry, StoredRetry record retry stored := by
  unfold encodeRetryRecord at h
  cases hretry : record.retry with
  | none =>
      rw [hretry] at h
      cases h
  | some retry =>
      rw [hretry] at h
      split_ifs at h with hinternal
      obtain ⟨bytes, hbytes, hstored⟩ := Result.bind_eq_ok.mp h
      obtain ⟨hframed, hencodable, rfl⟩ := encodeResponse_ok.mp hbytes
      cases Result.pure_eq_ok.mp hstored
      exact ⟨retry, hretry, Bool.eq_false_of_not_eq_true hinternal, hframed, hencodable, rfl⟩

namespace StoredRetry

variable {retry : RetryMetadata}

theorem fits (h : StoredRetry record retry stored) : retry.Fits := by
  obtain ⟨-, hfits, -⟩ := h.encodable rfl
  exact (hfits.2 record (List.mem_singleton_self _)).2 rfl retry h.retry_eq

/-- Only what a client put into a record counts. -/
theorem of_content (h : StoredRetry record retry stored) {other : Record} (hcontent : other.content = stored.content) :
    StoredRetry record retry other :=
  { h with content := hcontent.trans h.content }

/-- The envelope decodes to the record and the metadata it was made of. -/
theorem decode (h : StoredRetry record retry stored) (htyped : retry.Typed) :
    decodeRetryRecord stored = .ok record := by
  have hcontent := h.content
  simp only [Record.content, Prod.mk.injEq] at hcontent
  obtain ⟨htimestamp, hkey, hvalue⟩ := hcontent
  have hbody : (retryEnvelope record).body.Typed := by
    refine ⟨show IsInt64 0 by decide, show IsInt64 1 by decide, ?_⟩
    intro member hmember other hother
    rw [List.mem_singleton.mp hmember, h.retry_eq] at hother
    cases hother
    exact htyped
  have hreceived : (retryEnvelope record).received = retryEnvelope record := rfl
  have hdecoded : decodeResponse (retryEnvelope record).frame = .ok (retryEnvelope record) := by
    refine decodeResponse_ok.mpr ⟨h.framed, ?_, rfl⟩
    rw [← hreceived]
    exact ResponseEnvelope.decodable_received h.encodable hbody
  have hmagic : envelopeMagic.isPrefixOf stored.value = true := by
    rw [hvalue]
    exact List.isPrefixOf_iff_prefix.mpr (List.prefix_append _ _)
  rw [decodeRetryRecord, if_pos hmagic, hvalue, List.drop_left, hdecoded]
  simp only [retryContents, retryEnvelope, ne_eq, not_true_eq_false, or_self, if_false]
  rw [h.retry_eq, Option.all_some, h.ordinary, hkey, htimestamp]
  simp only [not_true_eq_false, or_self, Bool.false_eq_true, if_false]

/-- The stored record takes at most twice what a frame takes. -/
theorem encodedRecordSize_le (h : StoredRetry record retry stored) :
    recordBatchHeaderBytes + encodedRecordSize stored ≤ maxRetryBatchBytes := by
  obtain ⟨-, -, hlength⟩ := h.framed
  have hcontent := h.content
  simp only [Record.content, Prod.mk.injEq] at hcontent
  obtain ⟨-, hkey, hvalue⟩ := hcontent
  have hframe : (retryEnvelope record).frame.length = frameHeaderBytes + (retryEnvelope record).payload.length :=
    frameBytes_length _ _ _ _
  have hpayload := @fetch_frame_length ⟨0, 1, [record]⟩ retryProtocolVersion 0
  rw [List.flatMap_cons, List.flatMap_nil, List.append_nil, fetchRecordBytes_length, if_pos rfl] at hpayload
  change frameHeaderBytes + (retryEnvelope record).payload.length = _ at hpayload
  have hmagic : envelopeMagic.length = 5 := by decide
  rw [encodedRecordSize, hkey, hvalue, List.length_append, hframe, hmagic]
  unfold fetchFrameBytes at hpayload
  unfold recordBatchHeaderBytes recordHeaderBytes maxRetryBatchBytes
  unfold maxFrameBytes at hlength ⊢
  omega

end StoredRetry

/-- Only what a client put into a record is decoded. -/
theorem decodeRetryRecord_content {left right : Record} (h : left.content = right.content) :
    decodeRetryRecord left = decodeRetryRecord right := by
  simp only [Record.content, Prod.mk.injEq] at h
  obtain ⟨htimestamp, hkey, hvalue⟩ := h
  unfold decodeRetryRecord retryContents
  rw [htimestamp, hkey, hvalue]

end RoundTrip

end LogMq
