import LogMq.ProtocolFrame
import LogMq.ProtocolRecords

/-! The encoders and decoders of requests, one pair for each of the eleven bodies. A decoder is a reader of
fields that must consume its whole body. -/

namespace LogMq

open BigEndian ByteCodec

/-! ### Encoders -/

def encodeProduceBody (request : ProduceRequest) : Result Bytes :=
  if request.records = [] then
    throw (.invalidArgument "produce request must contain at least one record")
  else if request.records.length > maxUInt32 then
    throw (.invalidArgument "produce request contains too many records")
  else do
    let body ← appendString request.topic []
    let body := appendPartitionId request.partitionId body
    let body := appendBigEndian 4 request.records.length body
    request.records.foldlM (fun body record => appendProtocolRecord record body) body

def encodeFetchBody (request : FetchRequest) : Result Bytes := do
  let body ← appendString request.topic []
  let body := appendPartitionId request.partitionId body
  let body := appendOffset request.offset body
  return appendBigEndian 4 request.maxBytes.toNat body

def encodeMetadataBody (request : MetadataRequest) : Result Bytes := appendString request.topic []

def encodeCreateTopicBody (request : CreateTopicRequest) : Result Bytes := do
  let body ← appendString request.topic []
  return appendBigEndian 4 request.partitionCount.toNat body

/-- The fields of a `CommitOffset` request or response. -/
def appendGroupOffset (fields : GroupOffset) (body : Bytes) : Result Bytes := do
  let body ← appendString fields.groupId body
  let body ← appendString fields.topic body
  let body := appendPartitionId fields.partitionId body
  return appendOffset fields.offset body

def encodeCommitOffsetBody (request : CommitOffsetRequest) : Result Bytes :=
  if request.offset < 0 then throw (.invalidArgument "commit offset request offset must not be negative")
  else appendGroupOffset request []

def encodeFetchCommittedOffsetBody (request : FetchCommittedOffsetRequest) : Result Bytes := do
  let body ← appendString request.groupId []
  let body ← appendString request.topic body
  return appendPartitionId request.partitionId body

def encodeJoinGroupBody (request : JoinGroupRequest) : Result Bytes := do
  let body ← appendString request.groupId []
  let body ← appendString request.memberId body
  appendString request.topic body

/-- The fields that name a member and a generation, in requests and responses. -/
def appendMember (groupId memberId : Bytes) (generationId : Int) (body : Bytes) : Result Bytes := do
  let body ← appendString groupId body
  let body ← appendString memberId body
  appendGenerationId generationId body

def encodeSyncGroupBody (request : SyncGroupRequest) : Result Bytes :=
  appendMember request.groupId request.memberId request.generationId []

def encodeHeartbeatBody (request : HeartbeatRequest) : Result Bytes :=
  appendMember request.groupId request.memberId request.generationId []

def encodeLeaveGroupBody (request : LeaveGroupRequest) : Result Bytes := do
  let body ← appendString request.groupId []
  appendString request.memberId body

def encodeNackBody (request : NackRequest) : Result Bytes :=
  if request.topic = [] ∨ request.partitionId < 0 ∨ request.offset < 0 then
    throw (.invalidArgument "invalid nack location")
  else do
    let body ← appendString request.topic []
    let body := appendPartitionId request.partitionId body
    let body := appendOffset request.offset body
    appendString request.reason body

/-! ### Decoders -/

def readProduce : BodyReader ProduceRequest := do
  let topic ← readString
  let partitionId ← readPartitionId
  let recordCount ← readUInt 4
  require (recordCount ≠ 0) (.invalidArgument "produce request record_count is zero")
  let records ← readMany decodeProtocolRecord recordCount
  return ⟨topic, partitionId, records⟩

def readFetch : BodyReader FetchRequest := do
  let topic ← readString
  let partitionId ← readPartitionId
  let offset ← readOffset
  let maxBytes ← readUInt32
  return ⟨topic, partitionId, offset, maxBytes⟩

def readMetadata : BodyReader MetadataRequest := do
  let topic ← readString
  return ⟨topic⟩

def readCreateTopic : BodyReader CreateTopicRequest := do
  let topic ← readString
  let partitionCount ← readUInt32
  return ⟨topic, partitionCount⟩

/-- The fields of a `CommitOffset` request or response. Unlike the encoders, this checks no sign. -/
def readGroupOffset : BodyReader GroupOffset := do
  let groupId ← readString
  let topic ← readString
  let partitionId ← readPartitionId
  let offset ← readOffset
  return ⟨groupId, topic, partitionId, offset⟩

def readFetchCommittedOffset : BodyReader FetchCommittedOffsetRequest := do
  let groupId ← readString
  let topic ← readString
  let partitionId ← readPartitionId
  return ⟨groupId, topic, partitionId⟩

def readJoinGroup : BodyReader JoinGroupRequest := do
  let groupId ← readString
  let memberId ← readString
  let topic ← readString
  return ⟨groupId, memberId, topic⟩

def readMember : BodyReader MemberRequest := do
  let groupId ← readString
  let memberId ← readString
  let generationId ← readGenerationId
  return ⟨groupId, memberId, generationId⟩

def readLeaveGroup : BodyReader LeaveGroupRequest := do
  let groupId ← readString
  let memberId ← readString
  return ⟨groupId, memberId⟩

def readNack : BodyReader NackRequest := do
  let topic ← readString
  let partitionId ← readPartitionId
  let offset ← readUInt 8
  let reason ← readString
  require (¬ (topic = [] ∨ partitionId < 0 ∨ (offset : Int) > maxOffset)) (.invalidArgument "invalid nack body")
  return ⟨topic, partitionId, offsetOfUInt64 offset, reason⟩

def decodeProduceBody : Bytes → Result ProduceRequest :=
  readAll readProduce "produce request has trailing bytes"

def decodeFetchBody : Bytes → Result FetchRequest :=
  readAll readFetch "fetch request has trailing bytes"

def decodeMetadataBody : Bytes → Result MetadataRequest :=
  readAll readMetadata "metadata request has trailing bytes"

def decodeCreateTopicBody : Bytes → Result CreateTopicRequest :=
  readAll readCreateTopic "create topic request has trailing bytes"

def decodeCommitOffsetBody : Bytes → Result CommitOffsetRequest :=
  readAll readGroupOffset "commit offset request has trailing bytes"

def decodeFetchCommittedOffsetBody : Bytes → Result FetchCommittedOffsetRequest :=
  readAll readFetchCommittedOffset "fetch committed offset request has trailing bytes"

def decodeJoinGroupBody : Bytes → Result JoinGroupRequest :=
  readAll readJoinGroup "join group request has trailing bytes"

def decodeSyncGroupBody : Bytes → Result SyncGroupRequest :=
  readAll readMember "sync group request has trailing bytes"

def decodeHeartbeatBody : Bytes → Result HeartbeatRequest :=
  readAll readMember "heartbeat request has trailing bytes"

def decodeLeaveGroupBody : Bytes → Result LeaveGroupRequest :=
  readAll readLeaveGroup "leave group request has trailing bytes"

/-- Trailing bytes are one of the conditions of the check in `readNack`, with the same error. -/
def decodeNackBody : Bytes → Result NackRequest := readAll readNack "invalid nack body"

/-! ### Envelopes -/

/-- The api key of the alternative a body holds. -/
def RequestBody.apiKey : RequestBody → ApiKey
  | .produce _ => .produce
  | .fetch _ => .fetch
  | .metadata _ => .metadata
  | .createTopic _ => .createTopic
  | .commitOffset _ => .commitOffset
  | .fetchCommittedOffset _ => .fetchCommittedOffset
  | .joinGroup _ => .joinGroup
  | .syncGroup _ => .syncGroup
  | .heartbeat _ => .heartbeat
  | .leaveGroup _ => .leaveGroup
  | .nack _ => .nack

/-- The words for an api key in error messages. -/
def ApiKey.words : ApiKey → String
  | .produce => "produce"
  | .fetch => "fetch"
  | .metadata => "metadata"
  | .createTopic => "create topic"
  | .commitOffset => "commit offset"
  | .fetchCommittedOffset => "fetch committed offset"
  | .joinGroup => "join group"
  | .syncGroup => "sync group"
  | .heartbeat => "heartbeat"
  | .leaveGroup => "leave group"
  | .nack => "nack"

def RequestBody.encode : RequestBody → Result Bytes
  | .produce request => encodeProduceBody request
  | .fetch request => encodeFetchBody request
  | .metadata request => encodeMetadataBody request
  | .createTopic request => encodeCreateTopicBody request
  | .commitOffset request => encodeCommitOffsetBody request
  | .fetchCommittedOffset request => encodeFetchCommittedOffsetBody request
  | .joinGroup request => encodeJoinGroupBody request
  | .syncGroup request => encodeSyncGroupBody request
  | .heartbeat request => encodeHeartbeatBody request
  | .leaveGroup request => encodeLeaveGroupBody request
  | .nack request => encodeNackBody request

/-- `EncodeRequestBody`: the api key selects the encoder, and the body must hold its alternative. -/
def encodeRequestBody (request : RequestEnvelope) : Result Bytes :=
  if request.apiKey ≠ request.body.apiKey then
    throw (.invalidArgument (request.apiKey.words ++ " request envelope has wrong body type"))
  else request.body.encode

def decodeRequestBody (apiKey : ApiKey) (body : Bytes) : Result RequestBody :=
  match apiKey with
  | .produce => do return .produce (← decodeProduceBody body)
  | .fetch => do return .fetch (← decodeFetchBody body)
  | .metadata => do return .metadata (← decodeMetadataBody body)
  | .createTopic => do return .createTopic (← decodeCreateTopicBody body)
  | .commitOffset => do return .commitOffset (← decodeCommitOffsetBody body)
  | .fetchCommittedOffset => do return .fetchCommittedOffset (← decodeFetchCommittedOffsetBody body)
  | .joinGroup => do return .joinGroup (← decodeJoinGroupBody body)
  | .syncGroup => do return .syncGroup (← decodeSyncGroupBody body)
  | .heartbeat => do return .heartbeat (← decodeHeartbeatBody body)
  | .leaveGroup => do return .leaveGroup (← decodeLeaveGroupBody body)
  | .nack => do return .nack (← decodeNackBody body)

def encodeRequest (request : RequestEnvelope) : Result Bytes :=
  if ¬ SupportedVersion request.version then throw (.invalidArgument "unsupported protocol version")
  else do
    let body ← encodeRequestBody request
    encodeFrame request.apiKey request.version request.requestId body

def decodeRequest (frame : Bytes) : Result RequestEnvelope := do
  let (header, body) ← decodeFrame frame
  let requestBody ← decodeRequestBody header.apiKey body
  return ⟨header.apiKey, header.version, header.requestId, requestBody⟩

end LogMq
