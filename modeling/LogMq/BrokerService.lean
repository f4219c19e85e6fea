import LogMq.BrokerLoad
import LogMq.BrokerOffsets
import LogMq.BrokerRetryRecord
import LogMq.BrokerScheduler
import LogMq.GroupCoordinator

/-! The requests of a broker. A handler is a function of the state before it, of the request and of what it
meets outside the broker: clock readings and failing system calls. `HandleNack` runs under one mutex, and
the scheduler may wake up between its append and its call of `Schedule`. -/

namespace LogMq

/-! ### State -/

structure RetryOptions where
  delay : Int := 5000
  maxRetries : UInt32 := 3
  deriving DecidableEq

inductive FlushPolicy where
  | sync
  | async
  deriving DecidableEq

structure StorageConfig where
  dataDir : String := "./data"
  segmentBytes : Nat := 1024 * 1024 * 1024
  flushPolicy : FlushPolicy := .async
  deriving DecidableEq

structure BrokerServiceOptions where
  storage : StorageConfig := {}
  sessionTimeout : Int := 10000
  retry : RetryOptions := {}
  deriving DecidableEq

structure BrokerService where
  options : BrokerServiceOptions
  topics : TopicManager
  retries : RetryScheduler
  offsets : OffsetStore
  groups : GroupCoordinator

/-- `TopicManagerOptionsFromConfig`. -/
def StorageConfig.topicManager (config : StorageConfig) : TopicManagerOptions :=
  { dataDir := config.dataDir, segmentBytes := config.segmentBytes }

/-- What one request meets outside the broker. The readings of `RetryNowMs` are those of `HandleNack`, of the
scheduler's thread while `HandleNack` runs, and of `Schedule`. -/
structure Environment where
  now : UInt64 := 1
  wakes : List UInt64 := []
  scheduleNow : UInt64 := 1
  steadyNow : Int := 0
  create : CreateFaults := {}
  append : IoFaults := {}
  flush : Option Status := none
  commit : Option Status := none
  deriving DecidableEq

/-! ### Replies -/

/-- What a handler answers: a body, or the error code and the message. -/
abbrev Reply (α : Type) := Except (ProtocolErrorCode × String) α

/-- A failed call is reported with its message. -/
def Result.orReply {α : Type} (code : Status → ProtocolErrorCode) : Result α → Reply α
  | .ok value => .ok value
  | .error status => .error (code status, status.message)

def invalidOrInternal (status : Status) : ProtocolErrorCode :=
  if status.code = .invalidArgument then .invalidRequest else .internal

def groupErrorCode (status : Status) : ProtocolErrorCode :=
  if status.code = .notFound ∧ status.message = "unknown member" then .unknownMember
  else if status.code = .invalidArgument ∧ status.message = "illegal generation" then .illegalGeneration
  else invalidOrInternal status

def replyVersion (envelope : RequestEnvelope) : UInt16 :=
  if SupportedVersion envelope.version then envelope.version else protocolVersion

/-- `MakeError`. The body is the default alternative and is not sent. -/
def makeError (envelope : RequestEnvelope) (code : ProtocolErrorCode) (message : String) : ResponseEnvelope :=
  ⟨envelope.apiKey, replyVersion envelope, envelope.requestId, ⟨code, text message⟩, .produce {}⟩

/-- `MakeSuccess`. -/
def makeSuccess (envelope : RequestEnvelope) (body : ResponseBody) : ResponseEnvelope :=
  ⟨envelope.apiKey, replyVersion envelope, envelope.requestId, ⟨.none, []⟩, body⟩

def makeResponse {α : Type} (envelope : RequestEnvelope) (wrap : α → ResponseBody) : Reply α → ResponseEnvelope
  | .ok value => makeSuccess envelope (wrap value)
  | .error (code, message) => makeError envelope code message

def toStorageRecord (record : ProtocolRecord) : Record :=
  { timestamp := record.timestamp, key := record.key, value := record.value }

def toProtocolRecord (record : Record) : ProtocolRecord :=
  { timestamp := record.timestamp, key := record.key, value := record.value }

namespace BrokerService

variable (queue : TaskQueue) (environment : Environment) (broker : BrokerService)

/-- The flush after an append, which only the synchronous policy makes. -/
def flushAppended (topics : TopicManager) (topic : Bytes) (id : Nat) : Reply Unit × TopicManager :=
  if broker.options.storage.flushPolicy = .sync then
    let (result, topics) := topics.flushPartition topic id environment.flush
    (Result.orReply (fun _ => .internal) result, topics)
  else (.ok (), topics)

/-! ### Nack -/

/-- The record at the offset of a Nack. -/
def nackRead (request : NackRequest) (source : Store) : Reply Record := do
  let batch ← Result.orReply invalidOrInternal (source.read request.offset maxRetryBatchBytes)
  match batch.records[(request.offset - batch.baseOffset).toNat]? with
  | none => throw (.internal, "nack offset not found in batch")
  | some stored => return stored

/-- The stored record a Nack is about. -/
def nackStored (request : NackRequest) : Reply Record :=
  if isDlqTopic request.topic = true then throw (.invalidRequest, "DLQ messages cannot be retried")
  else if request.offset < 0 then throw (.offsetOutOfRange, "nack offset must not be negative")
  else do
    let source ← Result.orReply (fun _ => .topicNotFound)
      (broker.topics.getPartition request.topic request.partitionId)
    if request.offset ≥ source.log.nextOffset then throw (.offsetOutOfRange, "nack offset is beyond log end")
    else if isRetryTopic request.topic = true ∧
        request.offset ≥ broker.retries.visibleEnd request.topic request.partitionId then
      throw (.invalidRequest, "retry message is not visible yet")
    else nackRead request source

/-- The record as a client produced it, and its metadata before this Nack. -/
def nackSource (request : NackRequest) (stored : Record) : Reply (ProtocolRecord × RetryMetadata) :=
  if isRetryTopic request.topic then
    match decodeRetryRecord stored with
    | .error status => .error (.internal, status.message)
    | .ok record =>
        match record.retry with
        | none => .error (.internal, "invalid retry source metadata")
        | some retry =>
            if request.topic ≠ retryTopicPrefix ++ retry.originalTopic ∨
                request.partitionId ≠ retry.originalPartition ∨ retry.retryCount.toNat = maxUInt32 then
              .error (.internal, "invalid retry source metadata")
            else .ok (record, retry)
  else .ok (toProtocolRecord stored, ⟨0, 0, request.topic, request.reason, request.partitionId, request.offset⟩)

/-- The metadata after this Nack, and whether the record is given up. -/
def nackMetadata (options : RetryOptions) (now : UInt64) (reason : Bytes) (retry : RetryMetadata) :
    RetryMetadata × Bool :=
  let count := retry.retryCount + 1
  let deadLetter := decide (count > options.maxRetries)
  ({ retry with
      retryCount := count
      failureReason := reason
      nextVisibleTime := if deadLetter then 0 else now + UInt64.ofNat (offsetToUInt64 options.delay) }, deadLetter)

/-- The checks of `HandleNack` before it changes anything. -/
def nackRecord (request : NackRequest) : Reply (Record × RetryMetadata × Bool × UInt32) := do
  let stored ← broker.nackStored request
  let (record, source) ← nackSource request stored
  let (retry, deadLetter) := nackMetadata broker.options.retry environment.now request.reason source
  let encoded ← Result.orReply invalidOrInternal (encodeRetryRecord { record with retry := some retry })
  let metadata ← Result.orReply (fun _ => .topicNotFound) (broker.topics.getMetadata retry.originalTopic)
  match metadata with
  | [] => throw (.topicNotFound, "topic not found")
  | original :: _ => return (encoded, retry, deadLetter, original.partitionCount)

/-- The topic a rejected record goes to. -/
def destinationOf (retry : RetryMetadata) (deadLetter : Bool) : Bytes :=
  (if deadLetter then dlqTopicPrefix else retryTopicPrefix) ++ retry.originalTopic

/-- `HandleNack`. What was appended is scheduled even if it cannot be flushed. The append and `Schedule` are one step,
with turns of the scheduler between them and nothing else: a request of another thread that comes between the two
finds the record in the log and no task for it. -/
def handleNack (request : NackRequest) : Reply NackResponse × BrokerService :=
  match broker.nackRecord environment request with
  | .error reply => (.error reply, broker)
  | .ok (encoded, retry, deadLetter, partitionCount) =>
      let destination := destinationOf retry deadLetter
      match broker.topics.createTopic destination partitionCount environment.create with
      | (.error status, topics) =>
          (.error (invalidOrInternal status, status.message), { broker with topics := topics })
      | (.ok (), topics) =>
          match topics.getPartition destination request.partitionId with
          | .error status => (.error (.internal, status.message), { broker with topics := topics })
          | .ok target =>
              let id := request.partitionId.toNat
              match target.append [encoded] environment.append with
              | (.error status, target) =>
                  (.error (invalidOrInternal status, status.message),
                    { broker with topics := topics.setStore destination id target })
              | (.ok appended, target) =>
                  let woken := environment.wakes.foldl (fun retries now => retries.makeDueVisible queue now)
                    broker.retries
                  let retries :=
                    if deadLetter then woken
                    else woken.schedule queue environment.scheduleNow
                      ⟨destination, request.partitionId, appended.baseOffset, retry.nextVisibleTime⟩
                  let (flushed, topics) :=
                    broker.flushAppended environment (topics.setStore destination id target) destination id
                  (do flushed; return ⟨destination, request.partitionId, appended.baseOffset, retry, deadLetter⟩,
                    { broker with topics := topics, retries := retries })

/-! ### Produce and Fetch -/

/-- `HandleProduce`. -/
def handleProduce (request : ProduceRequest) : Reply ProduceResponse × BrokerService :=
  if isInternalTopic request.topic then
    (.error (.invalidRequest, "internal topics are reserved for Nack"), broker)
  else
    match request.records with
    | [] => (.error (.invalidRequest, "produce request must contain at least one record"), broker)
    | first :: _ =>
        match broker.topics.selectPartition request.topic request.partitionId first.key with
        | (.error status, topics) => (.error (.topicNotFound, status.message), { broker with topics := topics })
        | (.ok (selected, store), topics) =>
            match store.append (request.records.map toStorageRecord) environment.append with
            | (.error status, store) =>
                (.error (invalidOrInternal status, status.message),
                  { broker with topics := topics.setStore request.topic selected.toNat store })
            | (.ok appended, store) =>
                let (flushed, topics) := broker.flushAppended environment
                  (topics.setStore request.topic selected.toNat store) request.topic selected.toNat
                (do flushed; return ⟨selected, appended.baseOffset, UInt32.ofNat request.records.length⟩,
                  { broker with topics := topics })

/-- The high watermark: retry partitions are visible only as far as the scheduler has released them. -/
def highWatermark (topic : Bytes) (partitionId : Int) (store : Store) : Int :=
  if isRetryTopic topic then broker.retries.visibleEnd topic partitionId else store.log.nextOffset

/-- One record of a Fetch from an internal topic. The budget is charged for the original payload. -/
def fetchInternal (version : UInt16) (maxBytes : UInt32) (record : Record) : Reply ProtocolRecord :=
  match decodeRetryRecord record with
  | .error status => .error (.internal, status.message)
  | .ok value =>
      if recordBatchHeaderBytes + encodedRecordSize (toStorageRecord value) > maxBytes.toNat then
        .error (.invalidRequest, "record batch is larger than max_bytes")
      else .ok (if version = protocolVersion then value.dropRetry else value)

def fetchRecord (topic : Bytes) (version : UInt16) (maxBytes : UInt32) (record : Record) : Reply ProtocolRecord :=
  if isInternalTopic topic then fetchInternal version maxBytes record else .ok (toProtocolRecord record)

/-- The loop of `HandleFetch` over the records of a batch. -/
def fetchRecords (topic : Bytes) (version : UInt16) (maxBytes : UInt32) : List Record → Reply (List ProtocolRecord)
  | [] => .ok []
  | record :: rest => do
      let value ← fetchRecord topic version maxBytes record
      let others ← fetchRecords topic version maxBytes rest
      return value :: others

/-- The part of `HandleFetch` that reads. A retry partition exposes only the prefix that was released. -/
def fetchBatch (version : UInt16) (request : FetchRequest) (store : Store) : Reply FetchResponse := do
  let batch ← Result.orReply (fun status => if status.code = .notFound then .offsetOutOfRange else invalidOrInternal status)
    (store.read request.offset (if isInternalTopic request.topic then maxRetryBatchBytes else request.maxBytes.toNat))
  let records ← fetchRecords request.topic version request.maxBytes batch.records
  return ⟨batch.baseOffset, broker.highWatermark request.topic request.partitionId store, records⟩

/-- `HandleFetch`. -/
def handleFetch (version : UInt16) (request : FetchRequest) : Reply FetchResponse :=
  if request.offset < 0 then throw (.offsetOutOfRange, "fetch offset must not be negative")
  else if request.maxBytes = 0 then throw (.invalidRequest, "fetch max_bytes must be positive")
  else do
    let store ← Result.orReply (fun _ => .topicNotFound)
      (broker.topics.getPartition request.topic request.partitionId)
    if request.offset > store.log.nextOffset then throw (.offsetOutOfRange, "fetch offset is beyond log end")
    else if request.offset ≥ broker.highWatermark request.topic request.partitionId store then
      return ⟨request.offset, broker.highWatermark request.topic request.partitionId store, []⟩
    else broker.fetchBatch version request store

/-! ### Topics and offsets -/

/-- `HandleMetadata`. -/
def handleMetadata (request : MetadataRequest) : Reply MetadataResponse :=
  Result.orReply (fun _ => .topicNotFound) (MetadataResponse.mk <$> broker.topics.getMetadata request.topic)

/-- `HandleCreateTopic`. -/
def handleCreateTopic (request : CreateTopicRequest) : Reply CreateTopicResponse × BrokerService :=
  if isInternalTopic request.topic then
    (.error (.invalidRequest, "internal topics are reserved for Nack"), broker)
  else
    let (result, topics) := broker.topics.createTopic request.topic request.partitionCount environment.create
    (do Result.orReply invalidOrInternal result; return ⟨request.topic, request.partitionCount⟩,
      { broker with topics := topics })

/-- The checks of `HandleCommitOffset`. -/
def checkCommit (request : CommitOffsetRequest) : Reply Unit :=
  if request.offset < 0 then throw (.invalidRequest, "commit offset must not be negative")
  else do
    let store ← Result.orReply (fun _ => .topicNotFound)
      (broker.topics.getPartition request.topic request.partitionId)
    if request.offset > store.log.nextOffset then throw (.offsetOutOfRange, "commit offset is beyond high watermark")
    else return ()

/-- `HandleCommitOffset`. -/
def handleCommitOffset (request : CommitOffsetRequest) : Reply CommitOffsetResponse × BrokerService :=
  match broker.checkCommit request with
  | .error reply => (.error reply, broker)
  | .ok () =>
      let (result, offsets) := broker.offsets.commit ⟨request.groupId, request.topic, request.partitionId⟩ request.offset
        environment.commit
      (do Result.orReply invalidOrInternal result; return request, { broker with offsets := offsets })

/-- `HandleFetchCommittedOffset`. -/
def handleFetchCommittedOffset (request : FetchCommittedOffsetRequest) : Reply FetchCommittedOffsetResponse := do
  let _ ← Result.orReply (fun _ => .topicNotFound) (broker.topics.getPartition request.topic request.partitionId)
  let offset ← Result.orReply invalidOrInternal
    (broker.offsets.fetch ⟨request.groupId, request.topic, request.partitionId⟩)
  return ⟨request.groupId, request.topic, request.partitionId, offset.isSome, offset.getD 0⟩

/-! ### Groups -/

/-- `HandleJoinGroup`. -/
def handleJoinGroup (request : JoinGroupRequest) : Reply JoinGroupResponse × BrokerService :=
  match broker.topics.getMetadata request.topic with
  | .error status => (.error (.topicNotFound, status.message), broker)
  | .ok [] => (.error (.topicNotFound, "topic not found"), broker)
  | .ok (topic :: _) =>
      let (result, groups) := broker.groups.joinGroup request topic.partitionCount environment.steadyNow
      (Result.orReply groupErrorCode result, { broker with groups := groups })

/-- `HandleSyncGroup`. -/
def handleSyncGroup (request : SyncGroupRequest) : Reply SyncGroupResponse × BrokerService :=
  let (result, groups) := broker.groups.syncGroup request environment.steadyNow
  (Result.orReply groupErrorCode result, { broker with groups := groups })

/-- `HandleHeartbeat`. -/
def handleHeartbeat (request : HeartbeatRequest) : Reply HeartbeatResponse × BrokerService :=
  let (result, groups) := broker.groups.heartbeat request environment.steadyNow
  (Result.orReply groupErrorCode result, { broker with groups := groups })

/-- `HandleLeaveGroup`. -/
def handleLeaveGroup (request : LeaveGroupRequest) : Reply LeaveGroupResponse × BrokerService :=
  let (result, groups) := broker.groups.leaveGroup request
  (Result.orReply groupErrorCode result, { broker with groups := groups })

/-! ### Requests -/

/-- The handler of a body. -/
def handleBody (envelope : RequestEnvelope) : RequestBody → ResponseEnvelope × BrokerService
  | .nack request => (broker.handleNack queue environment request).map (makeResponse envelope .nack) id
  | .produce request => (broker.handleProduce environment request).map (makeResponse envelope .produce) id
  | .fetch request => (makeResponse envelope .fetch (broker.handleFetch envelope.version request), broker)
  | .metadata request => (makeResponse envelope .metadata (broker.handleMetadata request), broker)
  | .createTopic request => (broker.handleCreateTopic environment request).map (makeResponse envelope .createTopic) id
  | .commitOffset request => (broker.handleCommitOffset environment request).map (makeResponse envelope .commitOffset) id
  | .fetchCommittedOffset request =>
      (makeResponse envelope .fetchCommittedOffset (broker.handleFetchCommittedOffset request), broker)
  | .joinGroup request => (broker.handleJoinGroup environment request).map (makeResponse envelope .joinGroup) id
  | .syncGroup request => (broker.handleSyncGroup environment request).map (makeResponse envelope .syncGroup) id
  | .heartbeat request => (broker.handleHeartbeat environment request).map (makeResponse envelope .heartbeat) id
  | .leaveGroup request => (broker.handleLeaveGroup request).map (makeResponse envelope .leaveGroup) id

/-- `Handle`. -/
def handle (envelope : RequestEnvelope) : ResponseEnvelope × BrokerService :=
  if ¬ SupportedVersion envelope.version then
    (makeError envelope .unsupportedVersion "unsupported protocol version", broker)
  else if envelope.apiKey ≠ envelope.body.apiKey then
    (makeError envelope .invalidRequest (envelope.apiKey.words ++ " request envelope has wrong body type"), broker)
  else broker.handleBody queue environment envelope envelope.body

end BrokerService

/-! ### Start -/

/-- A loop whose turns each add to a list or stop it. -/
def collect {α β : Type} (turn : α → Result (List β)) : List α → Result (List β)
  | [] => .ok []
  | item :: rest => do
      let first ← turn item
      let others ← collect turn rest
      return first ++ others

namespace RetryScheduler

/-- The checks of `Start` on the metadata of one stored record, and its task. Dead letters have none. -/
def recoverTask (topic : Bytes) (id offset : Nat) (record : ProtocolRecord) : Result (List RetryTask) :=
  match record.retry with
  | none => .error (.corruption "retry metadata does not match internal topic")
  | some retry =>
      if retry.originalTopic ≠ originalName topic ∨ retry.originalPartition ≠ id ∨
          (isRetryTopic topic = true ∧ retry.nextVisibleTime = 0) ∨
          (isDlqTopic topic = true ∧ retry.nextVisibleTime ≠ 0) then
        .error (.corruption "retry metadata does not match internal topic")
      else .ok (if isRetryTopic topic then [⟨topic, id, offset, retry.nextVisibleTime⟩] else [])

/-- One turn of the innermost loop of `Start`. -/
def recoverOffset (store : Store) (topic : Bytes) (id offset : Nat) : Result (List RetryTask) := do
  let batch ← store.read offset maxRetryBatchBytes
  match batch.records with
  | [stored] =>
      if batch.baseOffset ≠ offset then throw (.corruption "retry log must contain single-record batches")
      else do
        let record ← decodeRetryRecord stored
        recoverTask topic id offset record
  | _ => throw (.corruption "retry log must contain single-record batches")

/-- The tasks of one partition. -/
def recoverPartition (topics : TopicManager) (topic : Bytes) (id : Nat) : Result (List RetryTask) := do
  let store ← topics.getPartition topic (UInt32.ofNat id).toBitVec.toInt
  collect (recoverOffset store topic id) (List.range store.log.nextOffset.toNat)

/-- The tasks of one topic. -/
def recoverTopic (topics : TopicManager) (topic : TopicMetadata) : Result (List RetryTask) :=
  if isInternalTopic topic.topic then
    match topics.getMetadata (originalName topic.topic) with
    | .ok (source :: _) =>
        if source.partitionCount ≠ topic.partitionCount then
          .error (.corruption "internal topic has invalid original topic")
        else collect (recoverPartition topics topic.topic) (List.range topic.partitionCount.toNat)
    | _ => .error (.corruption "internal topic has invalid original topic")
  else .ok []

/-- The scan of `Start` over all internal topics. -/
def recoverTasks (topics : TopicManager) : Result (List RetryTask) := do
  let metadata ← topics.getMetadata []
  collect (recoverTopic topics) metadata

/-- `Start` of a new scheduler. -/
def start (queue : TaskQueue) (topics : TopicManager) (now : UInt64) : Result RetryScheduler := do
  let tasks ← recoverTasks topics
  return makeDueVisible queue now { tasks := tasks.foldl queue.push [] }

end RetryScheduler

/-- What a broker leaves behind, and another one may be started on. -/
structure DataDirectory where
  topics : TopicFiles := {}
  offsets : ConsumerOffsetKey → Option Int := fun _ => none

namespace BrokerService

/-- `Start` of a new broker. -/
def start (queue : TaskQueue) (options : BrokerServiceOptions) (directory : DataDirectory) (now : UInt64) :
    Result BrokerService :=
  if options.retry.delay < 0 ∨ options.retry.maxRetries = 0 ∨ options.retry.maxRetries.toNat = maxUInt32 then
    throw (.invalidArgument "invalid retry options")
  else do
    let topics ← TopicManager.load options.storage.topicManager directory.topics
    let retries ← RetryScheduler.start queue topics now
    return ⟨options, topics, retries, OffsetStore.load directory.offsets, { sessionTimeout := options.sessionTimeout }⟩

/-- `Close`. -/
def close (broker : BrokerService) : DataDirectory := ⟨broker.topics.close, broker.offsets.files⟩

end BrokerService

end LogMq
