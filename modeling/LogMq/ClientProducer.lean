import LogMq.BrokerTopics
import LogMq.ClientRoundTrip

/-! Producers. A batch that could not be sent, or whose answer did not come, is sent again as it is, with the same
request id. -/

namespace LogMq

/-! ### Responses -/

def protocolErrorToStatus (error : ErrorResponse) : Status :=
  match error.errorCode with
  | .none => ⟨.ok, ""⟩
  | .invalidRequest | .unsupportedVersion | .illegalGeneration => .invalidArgument (nameText error.message)
  | .topicNotFound | .offsetOutOfRange | .unknownMember => .notFound (nameText error.message)
  | .internal => .internal (nameText error.message)

/-- `TypedResponse`, for the alternative of the body that `holds` gives. -/
def typedResponse {α : Type} (holds : ResponseBody → Option α) (expectedApiKey : ApiKey) (expectedName : String)
    (envelope : Result ResponseEnvelope) : Result α :=
  match envelope with
  | .error status => .error status
  | .ok envelope =>
      if envelope.error.errorCode ≠ .none then .error (protocolErrorToStatus envelope.error)
      else if envelope.apiKey ≠ expectedApiKey then .error (.internal ("unexpected " ++ expectedName ++ " response"))
      else
        match holds envelope.body with
        | none => .error (.internal ("unexpected " ++ expectedName ++ " response"))
        | some response => .ok response

theorem typedResponse_ok {α : Type} {holds : ResponseBody → Option α} {expectedApiKey : ApiKey} {expectedName : String}
    {envelope : Result ResponseEnvelope} {response : α}
    (h : typedResponse holds expectedApiKey expectedName envelope = .ok response) :
    ∃ answered, envelope = .ok answered ∧ answered.error.errorCode = .none ∧ answered.apiKey = expectedApiKey ∧
      holds answered.body = some response := by
  unfold typedResponse at h
  cases envelope with
  | error status => cases h
  | ok answered =>
      simp only at h
      split_ifs at h with herror hkey
      cases hbody : holds answered.body with
      | none =>
          rw [hbody] at h
          cases h
      | some found =>
          rw [hbody] at h
          cases h
          exact ⟨answered, rfl, not_not.mp herror, not_not.mp hkey, hbody⟩

/-- A failure after which a batch is sent again. -/
def Status.Transient (status : Status) : Prop := status.code = .ioError ∨ status.code = .timeout

/-- No answer of a server is such a failure. -/
theorem protocolErrorToStatus_transient (error : ErrorResponse) : ¬ (protocolErrorToStatus error).Transient := by
  obtain ⟨errorCode, message⟩ := error
  cases errorCode <;> rintro (h | h) <;> cases h

theorem typedResponse_transient {α : Type} {holds : ResponseBody → Option α} {expectedApiKey : ApiKey}
    {expectedName : String} {envelope : Result ResponseEnvelope} {status : Status} (htransient : status.Transient)
    (h : typedResponse holds expectedApiKey expectedName envelope = .error status) : envelope = .error status := by
  have hinternal : ∀ message, status ≠ .internal message := by
    rintro message rfl
    rcases htransient with hcode | hcode <;> cases hcode
  unfold typedResponse at h
  cases envelope with
  | error found => exact congrArg Except.error (Except.error.inj h)
  | ok answered =>
      dsimp only at h
      split_ifs at h
      · exact absurd (Except.error.inj h ▸ htransient) (protocolErrorToStatus_transient _)
      · exact absurd (Except.error.inj h).symm (hinternal _)
      · cases hbody : holds answered.body with
        | none =>
            rw [hbody] at h
            exact absurd (Except.error.inj h).symm (hinternal _)
        | some response =>
            rw [hbody] at h
            cases h

/-! ### Requests that cannot be encoded -/

/-- It fails for its arguments only. -/
def Result.Refuses {α : Type} (result : Result α) : Prop :=
  ∀ status, result = .error status → status.code = .invalidArgument

theorem Result.refuses_throw {α : Type} (message : String) :
    Result.Refuses (throw (.invalidArgument message) : Result α) := by
  rintro status h
  rw [← Except.error.inj h]
  rfl

theorem Result.refuses_pure {α : Type} (value : α) : Result.Refuses (pure value) := fun _ h => by cases h

theorem Result.Refuses.bind {α β : Type} {first : Result α} {rest : α → Result β} (hfirst : first.Refuses)
    (hrest : ∀ value, (rest value).Refuses) : (first >>= rest).Refuses := by
  cases first with
  | error status => exact fun found h => hfirst found (congrArg Except.error (Except.error.inj h))
  | ok value => exact hrest value

theorem appendString_refuses (value output : Bytes) : (appendString value output).Refuses := by
  unfold appendString
  split_ifs
  · exact Result.refuses_throw _
  · exact Result.refuses_pure _

theorem foldlM_appendProtocolRecord_refuses (records : List ProtocolRecord) (body : Bytes) :
    (records.foldlM (fun body record => appendProtocolRecord record body) body).Refuses := by
  induction records generalizing body with
  | nil => exact Result.refuses_pure _
  | cons record records ih =>
      rw [List.foldlM_cons]
      exact ((appendString_refuses _ _).bind fun _ => appendString_refuses _ _).bind ih

theorem encodeFrame_refuses (apiKey : ApiKey) (version : UInt16) (requestId : UInt64) (body : Bytes) :
    (encodeFrame apiKey version requestId body).Refuses := by
  refine Result.Refuses.bind ?_ fun _ => Result.refuses_pure _
  unfold appendFrameHeader
  split_ifs
  · exact Result.refuses_throw _
  · exact Result.refuses_pure _

/-- A batch that cannot be encoded is not sent again. -/
theorem encodeRequest_refuses (version : UInt16) (requestId : UInt64) (request : ProduceRequest) :
    (encodeRequest ⟨.produce, version, requestId, .produce request⟩).Refuses := by
  have hbody : (encodeProduceBody request).Refuses := by
    unfold encodeProduceBody
    split_ifs
    · exact Result.refuses_throw _
    · exact Result.refuses_throw _
    · exact (appendString_refuses _ _).bind fun _ => foldlM_appendProtocolRecord_refuses _ _
  unfold encodeRequest
  split_ifs
  · exact Result.Refuses.bind hbody fun _ => encodeFrame_refuses _ _ _ _
  · exact Result.refuses_throw _

/-! ### Sending a batch -/

def ResponseBody.produce? : ResponseBody → Option ProduceResponse
  | .produce response => some response
  | _ => none

theorem ResponseBody.produce?_eq_some {body : ResponseBody} {response : ProduceResponse}
    (h : body.produce? = some response) : body = .produce response := by
  cases body with
  | produce found => exact congrArg ResponseBody.produce (Option.some.inj h)
  | _ => cases h

namespace ClientConnection

/-- The loop of `SendBatch` from an attempt on, over what the system calls of the attempts do. It has no result while
it would go on after them. The counter is one of 32 bits. -/
def sendAttempts (request : RequestEnvelope) (maxRetries : UInt32) :
    List (ConnectOutcome × List Turn) → UInt32 → Result ProduceResponse → ClientConnection →
      Option (Result ProduceResponse × ClientConnection)
  | [], attempt, last, connection => if attempt ≤ maxRetries then none else some (last, connection)
  | (connecting, turns) :: attempts, attempt, last, connection =>
      if attempt ≤ maxRetries then
        let (result, connection) := connection.roundTrip ⟨request, connecting, turns⟩
        match typedResponse ResponseBody.produce? .produce "produce" result with
        | .ok response => some (.ok response, connection)
        | .error status =>
            if status.code ≠ .ioError ∧ status.code ≠ .timeout then some (.error status, connection)
            else sendAttempts request maxRetries attempts (attempt + 1) (.error status) connection
      else some (last, connection)

/-- The envelope of a batch. -/
def produceEnvelope (requestId : UInt64) (request : ProduceRequest) : RequestEnvelope :=
  ⟨.produce, protocolVersion, requestId, .produce request⟩

/-- `SendBatch`, with the id that its envelope gets. -/
def sendBatch (connection : ClientConnection) (maxRetries : UInt32) (requestId : UInt64) (request : ProduceRequest)
    (attempts : List (ConnectOutcome × List Turn)) : Option (Result ProduceResponse × ClientConnection) :=
  sendAttempts (produceEnvelope requestId request) maxRetries attempts 0
    (.error (.internal "producer send did not run")) connection

/-- What the result of `SendBatch` tells: the answer to the copy that was sent last, the only one on its connection,
or a failure; after one that would have been tried again, the connection is closed. -/
def TellsOfBatch (envelope : RequestEnvelope) (before after : ClientConnection) : Result ProduceResponse → Prop
  | .ok response => ∃ encoded answer answered, encodeRequest envelope = .ok encoded ∧ IsAnswer encoded answer ∧
      decodeResponse answer = .ok answered ∧ answered.error.errorCode = .none ∧ answered.body = .produce response ∧
        (after.history = before.history ++ [(encoded, answer)] ∨ after.history = [(encoded, answer)])
  | .error status => status.Transient → after.socket = none

section

variable {requestId : UInt64} {request : ProduceRequest} {maxRetries attempt : UInt32}
  {attempts : List (ConnectOutcome × List Turn)} {last result : Result ProduceResponse}
  {before connection after : ClientConnection}

theorem history_of_closed (h : connection.socket = none) : connection.history = [] := by
  unfold history
  rw [h]
  rfl

/-- One attempt. -/
theorem Settled.tellsOfBatch {connecting : ConnectOutcome} {turns : List Turn} {reply : Result ResponseEnvelope}
    (hsettled : connection.Settled) (hbefore : connection = before ∨ connection.socket = none)
    (h : connection.roundTrip ⟨produceEnvelope requestId request, connecting, turns⟩ = (reply, after)) :
    TellsOfBatch (produceEnvelope requestId request) before after
      (typedResponse ResponseBody.produce? .produce "produce" reply) := by
  cases htyped : typedResponse ResponseBody.produce? .produce "produce" reply with
  | ok response =>
      obtain ⟨answered, rfl, hnone, -, hbody⟩ := typedResponse_ok htyped
      obtain ⟨-, encoded, answer, hencode, hanswer, hdecode, hhistory⟩ := hsettled.roundTrip_ok h
      refine ⟨encoded, answer, answered, hencode, hanswer, hdecode, hnone, ResponseBody.produce?_eq_some hbody, ?_⟩
      rcases hbefore with rfl | hclosed
      · exact .inl hhistory
      · rw [history_of_closed hclosed, List.nil_append] at hhistory
        exact .inr hhistory
  | error status =>
      intro htransient
      rw [typedResponse_transient htransient htyped] at h
      rcases roundTrip_error h with ⟨hencode, -⟩ | hclosed
      · have hrefused := encodeRequest_refuses _ _ _ _ hencode
        rcases htransient with hcode | hcode <;> rw [hcode] at hrefused <;> cases hrefused
      · rw [hclosed]
        rfl

theorem Settled.sendAttempts (hsettled : connection.Settled)
    (hbefore : connection = before ∨ connection.socket = none)
    (hlast : TellsOfBatch (produceEnvelope requestId request) before connection last)
    (h : sendAttempts (produceEnvelope requestId request) maxRetries attempts attempt last connection =
      some (result, after)) :
    after.Settled ∧ TellsOfBatch (produceEnvelope requestId request) before after result := by
  induction attempts generalizing attempt last connection with
  | nil =>
      rw [ClientConnection.sendAttempts] at h
      split_ifs at h
      cases h
      exact ⟨hsettled, hlast⟩
  | cons first attempts ih =>
      obtain ⟨connecting, turns⟩ := first
      rw [ClientConnection.sendAttempts] at h
      split_ifs at h with hattempt
      · have hnext := hsettled.roundTrip ⟨produceEnvelope requestId request, connecting, turns⟩
        cases hreply : connection.roundTrip ⟨produceEnvelope requestId request, connecting, turns⟩ with
        | mk reply next =>
            have htells := hsettled.tellsOfBatch hbefore hreply
            rw [hreply] at h hnext
            dsimp only at h hnext
            cases htyped : typedResponse ResponseBody.produce? .produce "produce" reply with
            | ok response =>
                rw [htyped] at h htells
                cases h
                exact ⟨hnext, htells⟩
            | error status =>
                rw [htyped] at h htells
                dsimp only at h
                split_ifs at h with hfatal
                · cases h
                  exact ⟨hnext, htells⟩
                · have htransient : status.Transient := by
                    by_contra hnot
                    exact hfatal (not_or.mp hnot)
                  exact ih hnext (.inr (htells htransient)) htells h
      · cases h
        exact ⟨hsettled, hlast⟩

/-- Attempts are left while the loop goes on. -/
theorem sendAttempts_eq_none {envelope : RequestEnvelope} (hmax : maxRetries.toNat < maxUInt32)
    (h : sendAttempts envelope maxRetries attempts attempt last connection = none) :
    attempt.toNat + attempts.length ≤ maxRetries.toNat := by
  induction attempts generalizing attempt last connection with
  | nil =>
      rw [ClientConnection.sendAttempts] at h
      split_ifs at h with hattempt
      exact hattempt
  | cons first attempts ih =>
      obtain ⟨connecting, turns⟩ := first
      rw [ClientConnection.sendAttempts] at h
      split_ifs at h with hattempt
      dsimp only at h
      have hle : attempt.toNat ≤ maxRetries.toNat := hattempt
      have hnext : (attempt + 1).toNat = attempt.toNat + 1 := by
        rw [UInt32.toNat_add, UInt32.toNat_one]
        apply Nat.mod_eq_of_lt
        unfold maxUInt32 at hmax
        omega
      split at h
      · cases h
      · split_ifs at h
        have hleft := ih h
        rw [hnext] at hleft
        rw [List.length_cons]
        omega

/-- A failure that would have been tried again is that of the last attempt. -/
theorem sendAttempts_transient {envelope : RequestEnvelope} {status : Status} (htransient : status.Transient)
    (h : sendAttempts envelope maxRetries attempts attempt last connection = some (.error status, after)) :
    maxRetries.toNat < attempt.toNat + attempts.length ∧ maxRetries.toNat < maxUInt32 := by
  -- a counter is greater than the number of retries only if that is not the greatest number
  have hgreater : ∀ {counter : UInt32}, ¬ counter ≤ maxRetries →
      maxRetries.toNat < counter.toNat ∧ maxRetries.toNat < maxUInt32 := by
    intro counter hcounter
    have hlt : maxRetries.toNat < counter.toNat := by
      rw [UInt32.le_iff_toNat_le] at hcounter
      omega
    have hbound := counter.toNat_lt
    refine ⟨hlt, ?_⟩
    unfold maxUInt32
    omega
  induction attempts generalizing attempt last connection with
  | nil =>
      rw [ClientConnection.sendAttempts] at h
      split_ifs at h with hattempt
      exact hgreater hattempt
  | cons first attempts ih =>
      obtain ⟨connecting, turns⟩ := first
      rw [ClientConnection.sendAttempts] at h
      split_ifs at h with hattempt
      · dsimp only at h
        split at h
        · cases h
        · split_ifs at h with hfatal
          · cases h
            exact absurd htransient (not_or.mpr hfatal)
          · obtain ⟨hcount, hmax⟩ := ih h
            have hnext : (attempt + 1).toNat ≤ attempt.toNat + 1 := by
              rw [UInt32.toNat_add, UInt32.toNat_one]
              exact Nat.mod_le _ _
            rw [List.length_cons]
            exact ⟨by omega, hmax⟩
      · have hcount := hgreater hattempt
        rw [List.length_cons]
        exact ⟨by omega, hcount.2⟩

end

/-- **A batch that is sent again** is answered as itself, whatever the calls before it. Each copy after the first has a
connection of its own; `SendBatch` gives up only after all its retries, and leaves no connection behind then. With the
greatest number of retries it does not give up. -/
theorem sendBatch_tells (earlier : List Exchange) (maxRetries : UInt32) (requestId : UInt64) (request : ProduceRequest)
    (attempts : List (ConnectOutcome × List Turn)) :
    match (run {} earlier).sendBatch maxRetries requestId request attempts with
    | none => attempts.length ≤ maxRetries.toNat ∨ maxRetries.toNat = maxUInt32
    | some (result, after) => after.Settled ∧
        TellsOfBatch (produceEnvelope requestId request) (run {} earlier) after result ∧
          ∀ status, result = .error status → status.Transient → maxRetries.toNat < min attempts.length maxUInt32 := by
  have hsettled : (run {} earlier).Settled := @Settled.run {} (settled_disconnect {}) earlier
  cases hsent : (run {} earlier).sendBatch maxRetries requestId request attempts with
  | none =>
      dsimp only
      by_cases hmax : maxRetries.toNat < maxUInt32
      · have hleft := sendAttempts_eq_none hmax hsent
        rw [UInt32.toNat_zero, Nat.zero_add] at hleft
        exact .inl hleft
      · have hbound := maxRetries.toNat_lt
        unfold maxUInt32 at hmax ⊢
        exact .inr (by omega)
  | some told =>
      obtain ⟨result, after⟩ := told
      have hlast : TellsOfBatch (produceEnvelope requestId request) (run {} earlier) (run {} earlier)
          (.error (.internal "producer send did not run")) := by
        rintro (h | h) <;> cases h
      obtain ⟨hafter, htells⟩ := hsettled.sendAttempts (.inl rfl) hlast hsent
      refine ⟨hafter, htells, ?_⟩
      rintro status rfl htransient
      obtain ⟨hcount, hmax⟩ := sendAttempts_transient htransient hsent
      rw [UInt32.toNat_zero, Nat.zero_add] at hcount
      exact lt_min hcount hmax

def batch : ProduceRequest := ⟨text "a", 0, [⟨5, text "k", text "v", none⟩]⟩

def stored : ProduceResponse := ⟨0, 12, 1⟩

def storedFrame : Bytes :=
  ((encodeResponse ⟨.produce, protocolVersion, 7, ⟨.none, []⟩, .produce stored⟩).toOption).getD []

/-- The answer to the first copy is not read to its end. -/
def twoAttempts : List (ConnectOutcome × List Turn) :=
  [(.connected, [⟨[], .ok 100⟩, ⟨[storedFrame], .ok 4⟩, ⟨[], .error .timedOut⟩]),
    (.connected, [⟨[], .ok 100⟩, ⟨[storedFrame], .ok 4⟩, ⟨[], .ok 100⟩])]

theorem sendBatch_tells_twice : ∃ after,
    (run {} [answeredProbe "first"]).sendBatch 1 7 batch twoAttempts = some (.ok stored, after) ∧ after.Settled ∧
      TellsOfBatch (produceEnvelope 7 batch) (run {} [answeredProbe "first"]) after (.ok stored) := by
  have hresult : ((run {} [answeredProbe "first"]).sendBatch 1 7 batch twoAttempts).bind (fun told => told.1.toOption) =
      some stored := by
    decide +kernel
  obtain ⟨⟨result, after⟩, hsent, hok⟩ := Option.bind_eq_some_iff.mp hresult
  cases Result.toOption_eq_some.mp hok
  have htells := sendBatch_tells [answeredProbe "first"] 1 7 batch twoAttempts
  rw [hsent] at htells
  exact ⟨after, hsent, htells.1, htells.2.1⟩

end ClientConnection

end LogMq
