import LogMq.Status

/-! The messages of the wire protocol: the requests and responses of the eleven apis and the envelopes
that carry them. Unsigned fields have their fixed-width types. Signed fields are `Int`, as in the other
modules; `Typed` says that they hold values of their C++ types. -/

namespace LogMq

/-- `std::numeric_limits<std::int32_t>::max()`. -/
def maxInt32 : Int := 2 ^ 31 - 1

/-- A value of `std::int32_t`, the type of a `PartitionId` and of a generation. -/
def IsInt32 (n : Int) : Prop := -2 ^ 31 ≤ n ∧ n < 2 ^ 31

/-- A value of `std::int64_t`, the type of an `Offset`. -/
def IsInt64 (n : Int) : Prop := -2 ^ 63 ≤ n ∧ n < 2 ^ 63

instance (n : Int) : Decidable (IsInt32 n) := inferInstanceAs (Decidable (_ ∧ _))

instance (n : Int) : Decidable (IsInt64 n) := inferInstanceAs (Decidable (_ ∧ _))

def invalidPartitionId : Int := -1

def invalidOffset : Int := -1

inductive ApiKey where
  | produce
  | fetch
  | metadata
  | createTopic
  | commitOffset
  | fetchCommittedOffset
  | joinGroup
  | syncGroup
  | heartbeat
  | leaveGroup
  | nack
  deriving DecidableEq, Repr

inductive ProtocolErrorCode where
  | none
  | invalidRequest
  | topicNotFound
  | offsetOutOfRange
  | internal
  | unsupportedVersion
  | unknownMember
  | illegalGeneration
  deriving DecidableEq, Repr

def protocolVersion : UInt16 := 1

def retryProtocolVersion : UInt16 := 2

/-- `SupportedProtocolVersion`. -/
def SupportedVersion (version : UInt16) : Prop := version = protocolVersion ∨ version = retryProtocolVersion

instance (version : UInt16) : Decidable (SupportedVersion version) := inferInstanceAs (Decidable (_ ∨ _))

/-- `kFrameHeaderBytes`: total length, api key, version and request id. -/
def frameHeaderBytes : Nat := 4 + 2 + 2 + 8

/-- `kMaxFrameBytes`. -/
def maxFrameBytes : Nat := 16 * 1024 * 1024

/-! ### Records -/

structure RetryMetadata where
  retryCount : UInt32 := 0
  nextVisibleTime : UInt64 := 0
  originalTopic : Bytes := []
  failureReason : Bytes := []
  originalPartition : Int := invalidPartitionId
  originalOffset : Int := invalidOffset
  deriving DecidableEq

structure ProtocolRecord where
  timestamp : UInt64 := 0
  key : Bytes := []
  value : Bytes := []
  retry : Option RetryMetadata := none
  deriving DecidableEq

/-- The record without its retry metadata. -/
def ProtocolRecord.dropRetry (record : ProtocolRecord) : ProtocolRecord := { record with retry := none }

/-! ### Requests -/

structure ProduceRequest where
  topic : Bytes
  partitionId : Int
  records : List ProtocolRecord
  deriving DecidableEq

structure FetchRequest where
  topic : Bytes
  partitionId : Int
  offset : Int
  maxBytes : UInt32
  deriving DecidableEq

structure MetadataRequest where
  topic : Bytes
  deriving DecidableEq

structure CreateTopicRequest where
  topic : Bytes
  partitionCount : UInt32
  deriving DecidableEq

/-- The fields of `CommitOffsetRequest` and of `CommitOffsetResponse`. -/
structure GroupOffset where
  groupId : Bytes
  topic : Bytes
  partitionId : Int
  offset : Int
  deriving DecidableEq

abbrev CommitOffsetRequest := GroupOffset

structure FetchCommittedOffsetRequest where
  groupId : Bytes
  topic : Bytes
  partitionId : Int
  deriving DecidableEq

structure PartitionAssignment where
  topic : Bytes
  partitionIds : List Int
  deriving DecidableEq

structure JoinGroupRequest where
  groupId : Bytes
  memberId : Bytes
  topic : Bytes
  deriving DecidableEq

/-- The fields of `SyncGroupRequest` and of `HeartbeatRequest`. -/
structure MemberRequest where
  groupId : Bytes
  memberId : Bytes
  generationId : Int
  deriving DecidableEq

abbrev SyncGroupRequest := MemberRequest

abbrev HeartbeatRequest := MemberRequest

structure LeaveGroupRequest where
  groupId : Bytes
  memberId : Bytes
  deriving DecidableEq

structure NackRequest where
  topic : Bytes
  partitionId : Int
  offset : Int
  reason : Bytes
  deriving DecidableEq

inductive RequestBody where
  | produce (request : ProduceRequest)
  | fetch (request : FetchRequest)
  | metadata (request : MetadataRequest)
  | createTopic (request : CreateTopicRequest)
  | commitOffset (request : CommitOffsetRequest)
  | fetchCommittedOffset (request : FetchCommittedOffsetRequest)
  | joinGroup (request : JoinGroupRequest)
  | syncGroup (request : SyncGroupRequest)
  | heartbeat (request : HeartbeatRequest)
  | leaveGroup (request : LeaveGroupRequest)
  | nack (request : NackRequest)
  deriving DecidableEq

structure RequestEnvelope where
  apiKey : ApiKey
  version : UInt16
  requestId : UInt64
  body : RequestBody
  deriving DecidableEq

/-! ### Responses -/

structure ErrorResponse where
  errorCode : ProtocolErrorCode
  message : Bytes
  deriving DecidableEq

structure ProduceResponse where
  partitionId : Int := invalidPartitionId
  baseOffset : Int := invalidOffset
  recordCount : UInt32 := 0
  deriving DecidableEq

structure FetchResponse where
  baseOffset : Int := invalidOffset
  highWatermark : Int := invalidOffset
  records : List ProtocolRecord := []
  deriving DecidableEq

structure TopicMetadata where
  topic : Bytes
  partitionCount : UInt32
  deriving DecidableEq

structure MetadataResponse where
  topics : List TopicMetadata := []
  deriving DecidableEq

abbrev CreateTopicResponse := TopicMetadata

abbrev CommitOffsetResponse := GroupOffset

structure FetchCommittedOffsetResponse where
  groupId : Bytes := []
  topic : Bytes := []
  partitionId : Int := invalidPartitionId
  committed : Bool := false
  offset : Int := 0
  deriving DecidableEq

structure JoinGroupResponse where
  groupId : Bytes
  memberId : Bytes
  generationId : Int
  leaderId : Bytes
  deriving DecidableEq

structure SyncGroupResponse where
  groupId : Bytes
  memberId : Bytes
  generationId : Int
  assignment : PartitionAssignment
  deriving DecidableEq

/-- The fields of `HeartbeatResponse` and of `LeaveGroupResponse`. -/
structure MemberResponse where
  groupId : Bytes
  memberId : Bytes
  generationId : Int
  deriving DecidableEq

abbrev HeartbeatResponse := MemberResponse

abbrev LeaveGroupResponse := MemberResponse

structure NackResponse where
  topic : Bytes := []
  partitionId : Int := invalidPartitionId
  offset : Int := invalidOffset
  retry : RetryMetadata := {}
  deadLetter : Bool := false
  deriving DecidableEq

inductive ResponseBody where
  | produce (response : ProduceResponse)
  | fetch (response : FetchResponse)
  | metadata (response : MetadataResponse)
  | createTopic (response : CreateTopicResponse)
  | commitOffset (response : CommitOffsetResponse)
  | fetchCommittedOffset (response : FetchCommittedOffsetResponse)
  | joinGroup (response : JoinGroupResponse)
  | syncGroup (response : SyncGroupResponse)
  | heartbeat (response : HeartbeatResponse)
  | leaveGroup (response : LeaveGroupResponse)
  | nack (response : NackResponse)
  deriving DecidableEq

/-- A success body follows the error code and the message only if the code is `none`. -/
structure ResponseEnvelope where
  apiKey : ApiKey
  version : UInt16
  requestId : UInt64
  error : ErrorResponse
  body : ResponseBody
  deriving DecidableEq

/-! ### Signed fields have values of their types -/

def RetryMetadata.Typed (retry : RetryMetadata) : Prop :=
  IsInt32 retry.originalPartition ∧ IsInt64 retry.originalOffset

def RequestBody.Typed : RequestBody → Prop
  | .produce request => IsInt32 request.partitionId
  | .fetch request => IsInt32 request.partitionId ∧ IsInt64 request.offset
  | .commitOffset request => IsInt32 request.partitionId ∧ IsInt64 request.offset
  | .fetchCommittedOffset request => IsInt32 request.partitionId
  | .syncGroup request | .heartbeat request => IsInt32 request.generationId
  | .nack request => IsInt32 request.partitionId ∧ IsInt64 request.offset
  | .metadata _ | .createTopic _ | .joinGroup _ | .leaveGroup _ => True

instance : (body : RequestBody) → Decidable body.Typed
  | .produce _ | .fetchCommittedOffset _ | .syncGroup _ | .heartbeat _ => inferInstanceAs (Decidable (IsInt32 _))
  | .fetch _ | .commitOffset _ | .nack _ => inferInstanceAs (Decidable (IsInt32 _ ∧ IsInt64 _))
  | .metadata _ | .createTopic _ | .joinGroup _ | .leaveGroup _ => inferInstanceAs (Decidable True)

def ResponseBody.Typed : ResponseBody → Prop
  | .produce response => IsInt32 response.partitionId ∧ IsInt64 response.baseOffset
  | .fetch response => IsInt64 response.baseOffset ∧ IsInt64 response.highWatermark ∧
      ∀ record ∈ response.records, ∀ retry ∈ record.retry, retry.Typed
  | .commitOffset response => IsInt32 response.partitionId ∧ IsInt64 response.offset
  | .fetchCommittedOffset response => IsInt32 response.partitionId ∧ IsInt64 response.offset
  | .joinGroup response => IsInt32 response.generationId
  | .syncGroup response => IsInt32 response.generationId ∧
      ∀ partition ∈ response.assignment.partitionIds, IsInt32 partition
  | .heartbeat response | .leaveGroup response => IsInt32 response.generationId
  | .nack response => IsInt32 response.partitionId ∧ IsInt64 response.offset ∧ response.retry.Typed
  | .metadata _ | .createTopic _ => True

end LogMq
