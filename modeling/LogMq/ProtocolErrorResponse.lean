import LogMq.ProtocolResponseFrames
import LogMq.BrokerNames

/-! Error responses. They carry no body and are the last resort of the network layer: it answers with one when a
response cannot be encoded. This never fails, since the encoders only fail with short messages. -/

namespace LogMq

open BigEndian ByteCodec

def encodeErrorResponse (apiKey : ApiKey) (version : UInt16) (requestId : UInt64) (code : ProtocolErrorCode)
    (message : Bytes) : Result Bytes :=
  if ¬ SupportedVersion version then throw (.invalidArgument "unsupported protocol version")
  else do
    let body ← appendString message (appendBigEndian 2 code.code [])
    encodeFrame apiKey version requestId body

/-! ### Failures of the encoders -/

/-- The message fits many times into a frame. -/
def Status.Short (status : Status) : Prop := (text status.message).length ≤ 100

instance (status : Status) : Decidable status.Short := inferInstanceAs (Decidable (_ ≤ _))

/-- The encoder fails only with short messages. -/
def FailsShortly {α : Type} (result : Result α) : Prop := ∀ status, result = .error status → status.Short

namespace FailsShortly

variable {α β : Type}

theorem pure (a : α) : FailsShortly (Pure.pure a : Result α) := by
  intro status h
  cases h

theorem throw {status : Status} (h : status.Short) : FailsShortly (MonadExcept.throw status : Result α) := by
  intro other hother
  cases hother
  exact h

theorem reject {condition : Prop} [Decidable condition] {status : Status} {rest : Result α} (h : status.Short)
    (hrest : FailsShortly rest) : FailsShortly (if condition then MonadExcept.throw status else rest) := by
  by_cases hcondition : condition
  · rw [if_pos hcondition]
    exact throw h
  · rw [if_neg hcondition]
    exact hrest

theorem bind {first : Result α} {next : α → Result β} (hfirst : FailsShortly first)
    (hnext : ∀ a, FailsShortly (next a)) : FailsShortly (first >>= next) := by
  intro status h
  cases first with
  | error e =>
      cases h
      exact hfirst _ rfl
  | ok a => exact hnext a status h

theorem foldlM {step : β → α → Result β} (hstep : ∀ body a, FailsShortly (step body a)) (items : List α)
    (body : β) : FailsShortly (items.foldlM step body) := by
  induction items generalizing body with
  | nil => exact pure body
  | cons item rest ih =>
      rw [List.foldlM_cons]
      exact bind (hstep body item) fun body => ih body

end FailsShortly

open FailsShortly in
theorem appendString_failsShortly (value output : Bytes) : FailsShortly (appendString value output) :=
  reject (by decide +kernel) (pure _)

open FailsShortly in
theorem appendMember_failsShortly (groupId memberId : Bytes) (generationId : Int) (body : Bytes) :
    FailsShortly (appendMember groupId memberId generationId body) :=
  bind (appendString_failsShortly _ _) fun _ => bind (appendString_failsShortly _ _) fun _ =>
    reject (by decide +kernel) (pure _)

open FailsShortly in
theorem appendRetryMetadata_failsShortly (retry : RetryMetadata) (body : Bytes) :
    FailsShortly (appendRetryMetadata retry body) :=
  reject (by decide +kernel) (bind (appendString_failsShortly _ _) fun _ =>
    bind (appendString_failsShortly _ _) fun _ => pure _)

open FailsShortly in
theorem appendFetchRecord_failsShortly (version : UInt16) (record : ProtocolRecord) (body : Bytes) :
    FailsShortly (appendFetchRecord version record body) := by
  unfold appendFetchRecord
  refine bind (bind (appendString_failsShortly _ _) fun _ => appendString_failsShortly _ _) fun body => ?_
  by_cases hversion : version = retryProtocolVersion
  · rw [if_pos hversion]
    cases record.retry with
    | none => exact pure _
    | some retry => exact appendRetryMetadata_failsShortly _ _
  · rw [if_neg hversion]
    exact pure _

open FailsShortly in
theorem ResponseBody.encode_failsShortly (version : UInt16) (body : ResponseBody) :
    FailsShortly (body.encode version) := by
  cases body with
  | produce response => exact reject (by decide +kernel) (reject (by decide +kernel) (pure _))
  | fetch response =>
      exact reject (by decide +kernel) (reject (by decide +kernel) (reject (by decide +kernel)
        (foldlM (fun body record => appendFetchRecord_failsShortly version record body) _ _)))
  | metadata response =>
      exact reject (by decide +kernel)
        (foldlM (fun body topic => bind (appendString_failsShortly _ _) fun _ => pure _) _ _)
  | createTopic response => exact bind (appendString_failsShortly _ _) fun _ => pure _
  | commitOffset response =>
      exact reject (by decide +kernel) (reject (by decide +kernel) (bind (appendString_failsShortly _ _) fun _ =>
        bind (appendString_failsShortly _ _) fun _ => pure _))
  | fetchCommittedOffset response =>
      exact reject (by decide +kernel) (reject (by decide +kernel) (bind (appendString_failsShortly _ _) fun _ =>
        bind (appendString_failsShortly _ _) fun _ => pure _))
  | joinGroup response => exact bind (appendMember_failsShortly _ _ _ _) fun _ => appendString_failsShortly _ _
  | syncGroup response =>
      refine bind (appendMember_failsShortly _ _ _ _) fun _ => reject (by decide +kernel)
        (bind (appendString_failsShortly _ _) fun _ => foldlM (fun body partitionId => ?_) _ _)
      exact reject (by decide +kernel) (pure _)
  | heartbeat response => exact appendMember_failsShortly _ _ _ _
  | leaveGroup response => exact appendMember_failsShortly _ _ _ _
  | nack response =>
      refine bind (reject (by decide +kernel) (bind (appendString_failsShortly _ _) fun _ =>
        appendString_failsShortly _ _)) fun _ => bind (appendRetryMetadata_failsShortly _ _) fun _ => pure _

open FailsShortly in
theorem encodeResponse_failsShortly (response : ResponseEnvelope) : FailsShortly (encodeResponse response) := by
  refine reject (by decide +kernel) (bind (appendString_failsShortly _ _) fun _ => bind ?_ fun _ =>
    bind (reject (by decide +kernel) (pure _)) fun _ => pure _)
  unfold encodeSuccess
  by_cases hcode : response.error.errorCode = .none
  · rw [if_pos hcode]
    refine reject ?_ (ResponseBody.encode_failsShortly _ _)
    cases response.apiKey <;> decide +kernel
  · rw [if_neg hcode]
    exact pure _

/-! ### Request ids -/

/-- The request id in the header of a frame. -/
def frameRequestId (frame : Bytes) : UInt64 := UInt64.ofNat (beValue ((frame.drop 8).take 8))

theorem frameRequestId_encodeFrame {apiKey : ApiKey} {version : UInt16} {requestId : UInt64} {body frame : Bytes}
    (h : encodeFrame apiKey version requestId body = .ok frame) : frameRequestId frame = requestId ∧ frame ≠ [] := by
  obtain ⟨-, hframe⟩ := encodeFrame_ok.mp h
  constructor
  · rw [frameRequestId, (field_frameBytes hframe).2.2.2.1, beValue_beBytes requestId.toNat_lt, UInt64.ofNat_toNat]
  · rintro rfl
    have hlength := congrArg List.length hframe
    rw [frameBytes_length] at hlength
    unfold frameHeaderBytes at hlength
    rw [List.length_nil] at hlength
    omega

theorem frameRequestId_encodeResponse {response : ResponseEnvelope} {frame : Bytes}
    (h : encodeResponse response = .ok frame) : frameRequestId frame = response.requestId ∧ frame ≠ [] := by
  obtain ⟨⟨-, -, hlength⟩, -, hframe⟩ := encodeResponse_ok.mp h
  exact frameRequestId_encodeFrame (encodeFrame_ok.mpr ⟨hlength, hframe⟩)

theorem encodeErrorResponse_ok {apiKey : ApiKey} {version : UInt16} {requestId : UInt64} {code : ProtocolErrorCode}
    {message : Bytes} (hversion : SupportedVersion version) (hmessage : message.length ≤ 100) :
    ∃ frame, encodeErrorResponse apiKey version requestId code message = .ok frame ∧
      frameRequestId frame = requestId ∧ frame ≠ [] := by
  have hbody : appendString message (appendBigEndian 2 code.code []) =
      .ok (appendBigEndian 2 code.code [] ++ stringBytes message) := by
    apply appendString_ok.mpr
    unfold maxUInt32
    exact ⟨by omega, rfl⟩
  have hframe : encodeFrame apiKey version requestId (appendBigEndian 2 code.code [] ++ stringBytes message) =
      .ok (frameBytes apiKey version requestId (appendBigEndian 2 code.code [] ++ stringBytes message)) := by
    apply encodeFrame_ok.mpr
    refine ⟨?_, rfl⟩
    simp only [appendBigEndian, stringBytes, List.length_append, List.length_nil, beBytes_length]
    unfold frameHeaderBytes maxFrameBytes
    omega
  refine ⟨_, ?_, frameRequestId_encodeFrame hframe⟩
  rw [encodeErrorResponse, if_neg (not_not.mpr hversion), hbody]
  exact hframe

end LogMq
