import LogMq.ProtocolRequests

/-! The encoders and decoders of responses. A response starts with an error code and a message. Only a
success carries a body, selected by its api key; a fetched record depends on the protocol version. -/

namespace LogMq

open BigEndian ByteCodec

/-! ### Encoders -/

def encodeProduceResponseBody (response : ProduceResponse) : Result Bytes :=
  if response.partitionId < 0 then
    throw (.invalidArgument "produce response partition_id must not be negative")
  else if response.baseOffset < 0 then
    throw (.invalidArgument "produce response base_offset must not be negative")
  else
    let body := appendPartitionId response.partitionId []
    let body := appendOffset response.baseOffset body
    pure (appendBigEndian 4 response.recordCount.toNat body)

/-- A record of a `Fetch` response, followed in version 2 by its optional retry metadata. -/
def appendFetchRecord (version : UInt16) (record : ProtocolRecord) (body : Bytes) : Result Bytes := do
  let body ← appendProtocolRecord record body
  if version = retryProtocolVersion then
    match record.retry with
    | none => pure (appendBigEndian 1 0 body)
    | some retry => appendRetryMetadata retry (appendBigEndian 1 1 body)
  else pure body

def encodeFetchResponseBody (response : FetchResponse) (version : UInt16) : Result Bytes :=
  if response.baseOffset < 0 then throw (.invalidArgument "fetch response base_offset must not be negative")
  else if response.highWatermark < 0 then
    throw (.invalidArgument "fetch response high_watermark must not be negative")
  else if response.records.length > maxUInt32 then
    throw (.invalidArgument "fetch response contains too many records")
  else
    let body := appendOffset response.baseOffset []
    let body := appendOffset response.highWatermark body
    let body := appendBigEndian 4 response.records.length body
    response.records.foldlM (fun body record => appendFetchRecord version record body) body

def appendTopicMetadata (topic : TopicMetadata) (body : Bytes) : Result Bytes := do
  let body ← appendString topic.topic body
  return appendBigEndian 4 topic.partitionCount.toNat body

def encodeMetadataResponseBody (response : MetadataResponse) : Result Bytes :=
  if response.topics.length > maxUInt32 then
    throw (.invalidArgument "metadata response contains too many topics")
  else
    response.topics.foldlM (fun body topic => appendTopicMetadata topic body)
      (appendBigEndian 4 response.topics.length [])

def encodeCreateTopicResponseBody (response : CreateTopicResponse) : Result Bytes := appendTopicMetadata response []

def encodeCommitOffsetResponseBody (response : CommitOffsetResponse) : Result Bytes :=
  if response.partitionId < 0 then
    throw (.invalidArgument "commit offset response partition_id must not be negative")
  else if response.offset < 0 then
    throw (.invalidArgument "commit offset response offset must not be negative")
  else appendGroupOffset response []

def encodeFetchCommittedOffsetResponseBody (response : FetchCommittedOffsetResponse) : Result Bytes :=
  if response.partitionId < 0 then
    throw (.invalidArgument "fetch committed offset response partition_id must not be negative")
  else if response.offset < 0 then
    throw (.invalidArgument "fetch committed offset response offset must not be negative")
  else do
    let body ← appendString response.groupId []
    let body ← appendString response.topic body
    let body := appendPartitionId response.partitionId body
    let body := appendBigEndian 4 (if response.committed then 1 else 0) body
    return appendOffset response.offset body

def appendAssignedPartition (partitionId : Int) (body : Bytes) : Result Bytes :=
  if partitionId < 0 then throw (.invalidArgument "assignment partition_id must not be negative")
  else pure (appendPartitionId partitionId body)

def appendPartitionAssignment (assignment : PartitionAssignment) (body : Bytes) : Result Bytes :=
  if assignment.partitionIds.length > maxUInt32 then
    throw (.invalidArgument "assignment contains too many partitions")
  else do
    let body ← appendString assignment.topic body
    let body := appendBigEndian 4 assignment.partitionIds.length body
    assignment.partitionIds.foldlM (fun body partitionId => appendAssignedPartition partitionId body) body

def encodeJoinGroupResponseBody (response : JoinGroupResponse) : Result Bytes := do
  let body ← appendMember response.groupId response.memberId response.generationId []
  appendString response.leaderId body

def encodeSyncGroupResponseBody (response : SyncGroupResponse) : Result Bytes := do
  let body ← appendMember response.groupId response.memberId response.generationId []
  appendPartitionAssignment response.assignment body

def encodeHeartbeatResponseBody (response : HeartbeatResponse) : Result Bytes :=
  appendMember response.groupId response.memberId response.generationId []

def encodeLeaveGroupResponseBody (response : LeaveGroupResponse) : Result Bytes :=
  appendMember response.groupId response.memberId response.generationId []

/-- The location of a `Nack` response is encoded as a `Nack` request with an empty reason. -/
def encodeNackResponseBody (response : NackResponse) : Result Bytes := do
  let body ← encodeNackBody ⟨response.topic, response.partitionId, response.offset, []⟩
  let body ← appendRetryMetadata response.retry body
  return appendBigEndian 1 (if response.deadLetter then 1 else 0) body

/-! ### Decoders -/

def decodeProduceResponseBody : BodyReader ProduceResponse := do
  let partitionId ← readPartitionId
  let baseOffset ← readOffset
  let recordCount ← readUInt32
  return ⟨partitionId, baseOffset, recordCount⟩

def decodeFetchRecord (version : UInt16) : BodyReader ProtocolRecord := do
  let record ← decodeProtocolRecord
  if version = retryProtocolVersion then do
    let present ← readUInt 1
    require (present ≤ 1) (.invalidArgument "invalid retry presence flag")
    if present = 1 then do
      let retry ← decodeRetryMetadata
      return { record with retry := some retry }
    else return record
  else return record

def decodeFetchResponseBody (version : UInt16) : BodyReader FetchResponse := do
  let baseOffset ← readOffset
  let highWatermark ← readOffset
  let recordCount ← readUInt 4
  requireUnread (fun data => recordCount ≤ data.length / 16)
    (.invalidArgument "fetch record count exceeds body size")
  let records ← readMany (decodeFetchRecord version) recordCount
  return ⟨baseOffset, highWatermark, records⟩

def decodeTopicMetadata : BodyReader TopicMetadata := do
  let topic ← readString
  let partitionCount ← readUInt32
  return ⟨topic, partitionCount⟩

def decodeMetadataResponseBody : BodyReader MetadataResponse := do
  let topicCount ← readUInt 4
  let topics ← readMany decodeTopicMetadata topicCount
  return ⟨topics⟩

def decodeCreateTopicResponseBody : BodyReader CreateTopicResponse := decodeTopicMetadata

def decodeCommitOffsetResponseBody : BodyReader CommitOffsetResponse := readGroupOffset

def decodeFetchCommittedOffsetResponseBody : BodyReader FetchCommittedOffsetResponse := do
  let groupId ← readString
  let topic ← readString
  let partitionId ← readPartitionId
  let committed ← readUInt 4
  require (committed ≤ 1) (.invalidArgument "fetch committed offset response has invalid flag")
  let offset ← readOffset
  return ⟨groupId, topic, partitionId, committed == 1, offset⟩

def decodeAssignedPartition : BodyReader Int := do
  let partitionId ← readPartitionId
  require (0 ≤ partitionId) (.invalidArgument "assignment partition_id must not be negative")
  return partitionId

def decodePartitionAssignment : BodyReader PartitionAssignment := do
  let topic ← readString
  let partitionCount ← readUInt 4
  let partitionIds ← readMany decodeAssignedPartition partitionCount
  return ⟨topic, partitionIds⟩

def decodeJoinGroupResponseBody : BodyReader JoinGroupResponse := do
  let groupId ← readString
  let memberId ← readString
  let generationId ← readGenerationId
  let leaderId ← readString
  return ⟨groupId, memberId, generationId, leaderId⟩

def decodeSyncGroupResponseBody : BodyReader SyncGroupResponse := do
  let groupId ← readString
  let memberId ← readString
  let generationId ← readGenerationId
  let assignment ← decodePartitionAssignment
  return ⟨groupId, memberId, generationId, assignment⟩

def readMemberResponse : BodyReader MemberResponse := do
  let groupId ← readString
  let memberId ← readString
  let generationId ← readGenerationId
  return ⟨groupId, memberId, generationId⟩

def decodeHeartbeatResponseBody : BodyReader HeartbeatResponse := readMemberResponse

def decodeLeaveGroupResponseBody : BodyReader LeaveGroupResponse := readMemberResponse

def decodeNackResponseBody : BodyReader NackResponse := do
  let topic ← readString
  let partitionId ← readPartitionId
  let offset ← readUInt 8
  let reason ← readString
  let retry ← decodeRetryMetadata
  let deadLetter ← readUInt 1
  require (¬ (topic = [] ∨ partitionId < 0 ∨ (offset : Int) > maxOffset ∨ reason ≠ [] ∨ deadLetter > 1))
    (.invalidArgument "invalid nack response")
  return ⟨topic, partitionId, offsetOfUInt64 offset, retry, deadLetter == 1⟩

/-! ### Envelopes -/

/-- The api key of the alternative a body holds. -/
def ResponseBody.apiKey : ResponseBody → ApiKey
  | .produce _ => .produce
  | .fetch _ => .fetch
  | .metadata _ => .metadata
  | .createTopic _ => .createTopic
  | .commitOffset _ => .commitOffset
  | .fetchCommittedOffset _ => .fetchCommittedOffset
  | .joinGroup _ => .joinGroup
  | .syncGroup _ => .syncGroup
  | .heartbeat _ => .heartbeat
  | .leaveGroup _ => .leaveGroup
  | .nack _ => .nack

def ResponseBody.encode (version : UInt16) : ResponseBody → Result Bytes
  | .produce response => encodeProduceResponseBody response
  | .fetch response => encodeFetchResponseBody response version
  | .metadata response => encodeMetadataResponseBody response
  | .createTopic response => encodeCreateTopicResponseBody response
  | .commitOffset response => encodeCommitOffsetResponseBody response
  | .fetchCommittedOffset response => encodeFetchCommittedOffsetResponseBody response
  | .joinGroup response => encodeJoinGroupResponseBody response
  | .syncGroup response => encodeSyncGroupResponseBody response
  | .heartbeat response => encodeHeartbeatResponseBody response
  | .leaveGroup response => encodeLeaveGroupResponseBody response
  | .nack response => encodeNackResponseBody response

/-- `EncodeResponseBody`: the api key selects the encoder, and the body must hold its alternative. -/
def encodeResponseBody (response : ResponseEnvelope) : Result Bytes :=
  if response.apiKey ≠ response.body.apiKey then
    throw (.invalidArgument (response.apiKey.words ++ " response envelope has wrong body type"))
  else response.body.encode response.version

/-- The default value of the alternative for an api key. -/
def emptyResponseBodyFor : ApiKey → ResponseBody
  | .produce => .produce {}
  | .fetch => .fetch {}
  | .metadata => .metadata {}
  | .createTopic => .createTopic ⟨[], 0⟩
  | .commitOffset => .commitOffset ⟨[], [], invalidPartitionId, invalidOffset⟩
  | .fetchCommittedOffset => .fetchCommittedOffset {}
  | .joinGroup => .joinGroup ⟨[], [], 0, []⟩
  | .syncGroup => .syncGroup ⟨[], [], 0, ⟨[], []⟩⟩
  | .heartbeat => .heartbeat ⟨[], [], 0⟩
  | .leaveGroup => .leaveGroup ⟨[], [], 0⟩
  | .nack => .nack {}

def decodeResponseBody (apiKey : ApiKey) (version : UInt16) : BodyReader ResponseBody :=
  match apiKey with
  | .produce => do return .produce (← decodeProduceResponseBody)
  | .fetch => do return .fetch (← decodeFetchResponseBody version)
  | .metadata => do return .metadata (← decodeMetadataResponseBody)
  | .createTopic => do return .createTopic (← decodeCreateTopicResponseBody)
  | .commitOffset => do return .commitOffset (← decodeCommitOffsetResponseBody)
  | .fetchCommittedOffset => do return .fetchCommittedOffset (← decodeFetchCommittedOffsetResponseBody)
  | .joinGroup => do return .joinGroup (← decodeJoinGroupResponseBody)
  | .syncGroup => do return .syncGroup (← decodeSyncGroupResponseBody)
  | .heartbeat => do return .heartbeat (← decodeHeartbeatResponseBody)
  | .leaveGroup => do return .leaveGroup (← decodeLeaveGroupResponseBody)
  | .nack => do return .nack (← decodeNackResponseBody)

/-- What `EncodeResponse` appends behind the error: the body of a success. -/
def encodeSuccess (response : ResponseEnvelope) : Result Bytes :=
  if response.error.errorCode = .none then encodeResponseBody response else pure []

def encodeResponse (response : ResponseEnvelope) : Result Bytes :=
  if ¬ SupportedVersion response.version then throw (.invalidArgument "unsupported protocol version")
  else do
    let body ← appendString response.error.message (appendBigEndian 2 response.error.errorCode.code [])
    let success ← encodeSuccess response
    encodeFrame response.apiKey response.version response.requestId (body ++ success)

def readErrorCode : BodyReader ProtocolErrorCode := fun data => do
  let (value, rest) ← readUInt 2 data
  let errorCode ← parseProtocolErrorCode value
  return (errorCode, rest)

/-- What `DecodeResponse` reads behind the error. -/
def readSuccess (header : FrameHeader) (errorCode : ProtocolErrorCode) : BodyReader ResponseBody :=
  if errorCode = .none then decodeResponseBody header.apiKey header.version
  else pure (emptyResponseBodyFor header.apiKey)

/-- The part of `DecodeResponse` behind the frame header. -/
def readResponse (header : FrameHeader) : BodyReader ResponseEnvelope := do
  let errorCode ← readErrorCode
  let message ← readString
  let body ← readSuccess header errorCode
  return ⟨header.apiKey, header.version, header.requestId, ⟨errorCode, message⟩, body⟩

def decodeResponse (frame : Bytes) : Result ResponseEnvelope := do
  let (header, body) ← decodeFrame frame
  readAll (readResponse header) "response has trailing bytes" body

end LogMq
