import LogMq.ClientProducer
import LogMq.LibProgram

/-! Consumers. A consumer is shared by the thread of the application and its heartbeat thread. Its methods are programs
whose actions are the round trips, the blocks under the mutex, and waiting for the heartbeat thread to end; the others
may act between two of them. -/

namespace LogMq

open Interaction

/-! ### State -/

/-- The positions of a consumer in a partition and in the one of the retry topic. -/
structure Assignment where
  partitionId : Int
  nextOffset : Int := 0
  retryNextOffset : Int := 0
  deriving DecidableEq

/-- A consumer. Its heartbeat thread is joinable from its start on, and runs until it has seen the flag. -/
structure Consumer where
  groupId : Bytes
  maxBytes : UInt32 := 4096
  topic : Bytes := []
  memberId : Bytes := []
  generationId : Int := 0
  assignments : List Assignment := []
  subscribed : Bool := false
  closed : Bool := false
  heartbeatStop : Bool := false
  needsRejoin : Bool := false
  heartbeatJoinable : Bool := false
  heartbeatRunning : Bool := false
  deriving DecidableEq

structure ConsumerRecord where
  topic : Bytes
  partitionId : Int
  offset : Int
  timestamp : UInt64
  key : Bytes
  value : Bytes
  retry : Option RetryMetadata
  deriving DecidableEq

/-- A round trip, whose envelope gets its id from the clock, a block under the mutex, or joining the heartbeat thread. -/
inductive ConsumerAction where
  | request (version : UInt16) (body : RequestBody)
  | locked (update : Consumer → Consumer)
  | joinHeartbeat

/-- A block under the mutex has read the consumer as it was before. -/
def ConsumerAction.Reply : ConsumerAction → Type
  | .request _ _ => Result ResponseEnvelope
  | .locked _ => Consumer
  | .joinHeartbeat => Unit

abbrev ConsumerProgram (α : Type) := Program ConsumerAction ConsumerAction.Reply Status α

namespace Consumer

/-! ### Requests -/

def roundTrip (version : UInt16) (body : RequestBody) : ConsumerProgram (Result ResponseEnvelope) :=
  .perform (ConsumerAction.request version body)

def locked (update : Consumer → Consumer) : ConsumerProgram Consumer := .perform (ConsumerAction.locked update)

def joinHeartbeat : ConsumerProgram Unit := .perform ConsumerAction.joinHeartbeat

/-- The result of a round trip as that of a program. -/
def typed {α : Type} (holds : ResponseBody → Option α) (expectedApiKey : ApiKey) (expectedName : String)
    (response : Result ResponseEnvelope) : ConsumerProgram α :=
  .done (typedResponse holds expectedApiKey expectedName response)

/-- The topic of the response is not there. -/
def topicMissing : Result ResponseEnvelope → Bool
  | .ok response => decide (response.error.errorCode = .topicNotFound)
  | .error _ => false

def fetch? : ResponseBody → Option FetchResponse
  | .fetch response => some response
  | _ => none

def metadata? : ResponseBody → Option MetadataResponse
  | .metadata response => some response
  | _ => none

def commitOffset? : ResponseBody → Option CommitOffsetResponse
  | .commitOffset response => some response
  | _ => none

def fetchCommittedOffset? : ResponseBody → Option FetchCommittedOffsetResponse
  | .fetchCommittedOffset response => some response
  | _ => none

def joinGroup? : ResponseBody → Option JoinGroupResponse
  | .joinGroup response => some response
  | _ => none

def syncGroup? : ResponseBody → Option SyncGroupResponse
  | .syncGroup response => some response
  | _ => none

def nack? : ResponseBody → Option NackResponse
  | .nack response => some response
  | _ => none

/-! ### Joining -/

def sendJoinGroup (groupId topic memberId : Bytes) : ConsumerProgram JoinGroupResponse := do
  let response ← roundTrip protocolVersion (.joinGroup ⟨groupId, memberId, topic⟩)
  typed joinGroup? .joinGroup "join group" response

def sendSyncGroup (groupId : Bytes) (joined : JoinGroupResponse) : ConsumerProgram SyncGroupResponse := do
  let response ← roundTrip protocolVersion (.syncGroup ⟨groupId, joined.memberId, joined.generationId⟩)
  typed syncGroup? .syncGroup "sync group" response

/-- `SendLeaveGroup`: the body of the response is not looked at. -/
def sendLeaveGroup (groupId memberId : Bytes) : ConsumerProgram Unit := do
  let response ← roundTrip protocolVersion (.leaveGroup ⟨groupId, memberId⟩)
  match response with
  | .error status => .fail status
  | .ok response =>
      if response.error.errorCode = .none then return ()
      else .fail (protocolErrorToStatus response.error)

/-- `FetchCommittedOffset`: a retry topic that is not there has nothing committed. -/
def fetchCommittedOffset (groupId topic : Bytes) (partitionId : Int) : ConsumerProgram FetchCommittedOffsetResponse := do
  let response ← roundTrip protocolVersion (.fetchCommittedOffset ⟨groupId, topic, partitionId⟩)
  if isRetryTopic topic && topicMissing response then return ⟨groupId, topic, partitionId, false, 0⟩
  else typed fetchCommittedOffset? .fetchCommittedOffset "fetch committed offset" response

def committedPosition (response : FetchCommittedOffsetResponse) : Int :=
  if response.committed then response.offset else 0

def fetchRetryPosition (groupId topic : Bytes) (partitionId : Int) : ConsumerProgram Int :=
  if isInternalTopic topic then return 0
  else do
    let retry ← fetchCommittedOffset groupId (retryTopicPrefix ++ topic) partitionId
    return committedPosition retry

/-- The loop of `JoinAndSync` over the partitions of an assignment. -/
def fetchPositions (groupId topic assignedTopic : Bytes) : List Int → ConsumerProgram (List Assignment)
  | [] => return []
  | partitionId :: rest => do
      let committed ← fetchCommittedOffset groupId assignedTopic partitionId
      let retryNextOffset ← fetchRetryPosition groupId topic partitionId
      let assignments ← fetchPositions groupId topic assignedTopic rest
      return ⟨partitionId, committedPosition committed, retryNextOffset⟩ :: assignments

/-- The last block of `JoinAndSync`. -/
def adopt (joined : JoinGroupResponse) (topic : Bytes) (assignments : List Assignment) (consumer : Consumer) :
    Consumer :=
  { consumer with
    memberId := joined.memberId
    generationId := joined.generationId
    topic := topic
    assignments := assignments
    subscribed := true
    needsRejoin := false }

/-- The first part of `JoinAndSync`. A member that is not known any more joins as a new one. -/
def join (groupId topic memberId : Bytes) : ConsumerProgram JoinGroupResponse := do
  let joined ← (sendJoinGroup groupId topic memberId).attempt
  match joined with
  | .ok joined => return joined
  | .error status =>
      if memberId ≠ [] ∧ status.code = .notFound then sendJoinGroup groupId topic [] else .fail status

/-- `JoinAndSync`. -/
def joinAndSync : ConsumerProgram Unit := do
  let consumer ← locked id
  if consumer.topic = [] then .fail (.invalidArgument "consumer must subscribe before join group")
  else do
    let joined ← join consumer.groupId consumer.topic consumer.memberId
    let synced ← sendSyncGroup consumer.groupId joined
    let assignments ← fetchPositions consumer.groupId consumer.topic synced.assignment.topic
      synced.assignment.partitionIds
    let _ ← locked (adopt joined synced.assignment.topic assignments)

/-! ### Subscribing and closing -/

/-- The first block of `Subscribe`: the member of another topic is to leave. -/
def prepareLeave (topic : Bytes) (consumer : Consumer) : Consumer :=
  if consumer.closed = false ∧ topic ≠ consumer.topic ∧ consumer.memberId ≠ [] then
    { consumer with heartbeatStop := true }
  else consumer

/-- The member has left. -/
def forgetMember (consumer : Consumer) : Consumer :=
  { consumer with memberId := [], generationId := 0, subscribed := false }

/-- The block of `Subscribe` before it joins. -/
def changeTopic (topic : Bytes) (consumer : Consumer) : Consumer :=
  if consumer.closed then consumer
  else { consumer with topic := topic, subscribed := false, assignments := [], needsRejoin := false }

/-- The block of `StartHeartbeat`. -/
def runHeartbeat (consumer : Consumer) : Consumer :=
  if consumer.heartbeatJoinable then consumer
  else { consumer with heartbeatStop := false, heartbeatJoinable := true, heartbeatRunning := true }

def startHeartbeat : ConsumerProgram Unit := do
  let _ ← locked runHeartbeat

/-- The member of another topic leaves. -/
def leavePrevious (groupId memberId : Bytes) : ConsumerProgram Unit := do
  joinHeartbeat
  let left ← (sendLeaveGroup groupId memberId).attempt
  match left with
  | .ok () => do
      let _ ← locked forgetMember
  | .error status =>
      if status.code = .notFound then do
        let _ ← locked forgetMember
      else do
        startHeartbeat
        .fail status

/-- The end of `Subscribe`. -/
def subscribeTo (topic : Bytes) : ConsumerProgram Unit := do
  let consumer ← locked (changeTopic topic)
  if consumer.closed then .fail (.invalidArgument "consumer is closed")
  else do
    joinAndSync
    startHeartbeat

/-- `Subscribe`. -/
def subscribe (topic : Bytes) : ConsumerProgram Unit := do
  let response ← roundTrip protocolVersion (.metadata ⟨topic⟩)
  let metadata ← typed metadata? .metadata "metadata" response
  if metadata.topics = [] then .fail (.notFound "topic not found")
  else do
    let consumer ← locked (prepareLeave topic)
    if consumer.closed then .fail (.invalidArgument "consumer is closed")
    else if topic ≠ consumer.topic ∧ consumer.memberId ≠ [] then do
      leavePrevious consumer.groupId consumer.memberId
      subscribeTo topic
    else subscribeTo topic

/-- The first block of `Close`. -/
def shut (consumer : Consumer) : Consumer :=
  if consumer.closed then consumer else { consumer with closed := true, heartbeatStop := true }

/-- The last block of `Close`. -/
def clear (consumer : Consumer) : Consumer :=
  { consumer with subscribed := false, assignments := [], memberId := [], generationId := 0, needsRejoin := false }

/-- The part of `Close` behind the join of the heartbeat thread. -/
def leave (groupId memberId : Bytes) : ConsumerProgram Unit :=
  if memberId = [] then do
    let _ ← locked clear
  else do
    let left ← (sendLeaveGroup groupId memberId).attempt
    match left with
    | .ok () => do
        let _ ← locked clear
    | .error status =>
        if status.code = .notFound then do
          let _ ← locked clear
        else .fail status

/-- `Close`. -/
def close : ConsumerProgram Unit := do
  let consumer ← locked shut
  if consumer.closed then return ()
  else do
    joinHeartbeat
    leave consumer.groupId consumer.memberId

/-! ### Polling -/

/-- The loop over the records of a fetch, from an offset on: those before the position are skipped. -/
def takeRecords (topic : Bytes) (partitionId : Int) : Int → List ProtocolRecord → Int → List ConsumerRecord × Int
  | _, [], next => ([], next)
  | offset, record :: rest, next =>
      if offset < next then takeRecords topic partitionId (offset + 1) rest next
      else
        let (records, after) := takeRecords topic partitionId (offset + 1) rest (offset + 1)
        (⟨topic, partitionId, offset, record.timestamp, record.key, record.value, record.retry⟩ :: records, after)

/-- One turn of the loop over the sources of an assignment. -/
def pollSource (maxBytes : UInt32) (topic : Bytes) (retry : Bool) (partitionId next : Int) :
    ConsumerProgram (List ConsumerRecord × Int) := do
  let response ← roundTrip (if isInternalTopic topic then retryProtocolVersion else protocolVersion)
    (.fetch ⟨topic, partitionId, next, maxBytes⟩)
  if retry && topicMissing response then return ([], next)
  else do
    let fetch ← typed fetch? .fetch "fetch" response
    return takeRecords topic partitionId fetch.baseOffset fetch.records next

/-- One turn of the loop over the assignments, on a copy of them. -/
def pollAssignment (maxBytes : UInt32) (topic : Bytes) (assignment : Assignment) :
    ConsumerProgram (List ConsumerRecord × Assignment) := do
  let (output, next) ← pollSource maxBytes topic false assignment.partitionId assignment.nextOffset
  if isInternalTopic topic then return (output, { assignment with nextOffset := next })
  else do
    let (more, retryNext) ←
      pollSource maxBytes (retryTopicPrefix ++ topic) true assignment.partitionId assignment.retryNextOffset
    return (output ++ more, { assignment with nextOffset := next, retryNextOffset := retryNext })

def pollAssignments (maxBytes : UInt32) (topic : Bytes) :
    List Assignment → ConsumerProgram (List ConsumerRecord × List Assignment)
  | [] => return ([], [])
  | assignment :: rest => do
      let (output, polled) ← pollAssignment maxBytes topic assignment
      let (more, others) ← pollAssignments maxBytes topic rest
      return (output ++ more, polled :: others)

/-- The positions of an assignment are copied to the first one with its partition. -/
def advance (updated : Assignment) : List Assignment → List Assignment
  | [] => []
  | current :: rest =>
      if current.partitionId = updated.partitionId then
        { current with nextOffset := updated.nextOffset, retryNextOffset := updated.retryNextOffset } :: rest
      else current :: advance updated rest

/-- The block of `Poll` behind the fetches. -/
def writeBack (topic : Bytes) (generationId : Int) (polled : List Assignment) (consumer : Consumer) : Consumer :=
  if topic = consumer.topic ∧ generationId = consumer.generationId then
    { consumer with assignments := polled.foldl (fun current updated => advance updated current) consumer.assignments }
  else consumer

/-- One turn of the loop of `Poll`. -/
def pollRound : ConsumerProgram (List ConsumerRecord) := do
  let consumer ← locked id
  let (output, polled) ← pollAssignments consumer.maxBytes consumer.topic consumer.assignments
  let _ ← locked (writeBack consumer.topic consumer.generationId polled)
  return output

/-- The checks at the beginning of a turn, and the rejoining. -/
def pollStart : ConsumerProgram Unit := do
  let consumer ← locked id
  if consumer.topic = [] then .fail (.invalidArgument "consumer must subscribe before poll")
  else if consumer.closed then .fail (.invalidArgument "consumer is closed")
  else if consumer.needsRejoin then joinAndSync
  else return ()

/-- `Poll`, with the number of turns that its timeout leaves time for after the first one. -/
def poll : Nat → ConsumerProgram (List ConsumerRecord)
  | 0 => do
      pollStart
      pollRound
  | turns + 1 => do
      pollStart
      let output ← pollRound
      if output = [] then poll turns else return output

/-! ### Other methods -/

/-- `Seek`, all of which is one block. -/
def seekPosition (topic : Bytes) (partitionId offset : Int) (consumer : Consumer) : Result Consumer :=
  if offset < 0 then .error (.invalidArgument "seek offset must not be negative")
  else if consumer.closed ∨ consumer.subscribed = false then
    .error (.invalidArgument "consumer is not subscribed or is closed")
  else
    let retry := isInternalTopic consumer.topic = false ∧ topic = retryTopicPrefix ++ consumer.topic
    if topic ≠ consumer.topic ∧ ¬ retry then .error (.invalidArgument "topic is not subscribed")
    else
      match consumer.assignments.find? fun assignment => assignment.partitionId = partitionId with
      | none => .error (.notFound "partition is not assigned")
      | some assignment =>
          let moved :=
            if retry then { assignment with retryNextOffset := offset } else { assignment with nextOffset := offset }
          .ok { consumer with assignments := advance moved consumer.assignments }

def seek (topic : Bytes) (partitionId offset : Int) : ConsumerProgram Unit := do
  let consumer ← locked fun consumer =>
    match seekPosition topic partitionId offset consumer with
    | .error _ => consumer
    | .ok moved => moved
  match seekPosition topic partitionId offset consumer with
  | .error status => .fail status
  | .ok _ => return ()

/-- The check of `Nack`. -/
def checkNack (record : ConsumerRecord) (consumer : Consumer) : Result Unit :=
  if consumer.closed ∨ consumer.subscribed = false then
    .error (.invalidArgument "consumer is not subscribed or is closed")
  else if record.topic ≠ consumer.topic ∧
      ¬ (isInternalTopic consumer.topic = false ∧ record.topic = retryTopicPrefix ++ consumer.topic) then
    .error (.invalidArgument "record topic is not subscribed")
  else if ∀ assignment ∈ consumer.assignments, assignment.partitionId ≠ record.partitionId then
    .error (.invalidArgument "record partition is not assigned")
  else .ok ()

/-- `Nack`. -/
def nack (record : ConsumerRecord) (reason : Bytes) : ConsumerProgram NackResponse := do
  let consumer ← locked id
  match checkNack record consumer with
  | .error status => .fail status
  | .ok () => do
      let response ← roundTrip retryProtocolVersion (.nack ⟨record.topic, record.partitionId, record.offset, reason⟩)
      typed nack? .nack "nack" response

/-- One turn of the loop of `CommitSync` over the sources of an assignment. -/
def commitSource (groupId topic : Bytes) (retry : Bool) (partitionId offset : Int) : ConsumerProgram Unit := do
  let response ← roundTrip protocolVersion (.commitOffset ⟨groupId, topic, partitionId, offset⟩)
  if retry && topicMissing response then return ()
  else do
    let _ ← typed commitOffset? .commitOffset "commit offset" response

def commitAssignments (groupId topic : Bytes) : List Assignment → ConsumerProgram Unit
  | [] => return ()
  | assignment :: rest => do
      commitSource groupId topic false assignment.partitionId assignment.nextOffset
      if isInternalTopic topic then commitAssignments groupId topic rest
      else do
        commitSource groupId (retryTopicPrefix ++ topic) true assignment.partitionId assignment.retryNextOffset
        commitAssignments groupId topic rest

/-- `CommitSync`. -/
def commitSync : ConsumerProgram Unit := do
  let consumer ← locked id
  if consumer.topic = [] then .fail (.invalidArgument "consumer must subscribe before commit")
  else if consumer.closed then .fail (.invalidArgument "consumer is closed")
  else commitAssignments consumer.groupId consumer.topic consumer.assignments

/-! ### Heartbeats -/

/-- What a heartbeat has been answered. -/
def heartbeatAnswered (code : ProtocolErrorCode) (consumer : Consumer) : Consumer :=
  match code with
  | .unknownMember => { consumer with memberId := [], generationId := 0, needsRejoin := true }
  | .illegalGeneration => { consumer with generationId := 0, needsRejoin := true }
  | _ => consumer

/-- The heartbeat thread ends once it sees the flag. -/
def stopHeartbeat (consumer : Consumer) : Consumer :=
  if consumer.heartbeatStop then { consumer with heartbeatRunning := false } else consumer

/-- One turn of the loop of `RunHeartbeat`. -/
def heartbeatRound : ConsumerProgram Unit := do
  let consumer ← locked stopHeartbeat
  if consumer.heartbeatStop ∨ consumer.subscribed = false ∨ consumer.needsRejoin ∨ consumer.memberId = [] ∨
      consumer.generationId ≤ 0 then
    return ()
  else do
    let response ← roundTrip protocolVersion
      (.heartbeat ⟨consumer.groupId, consumer.memberId, consumer.generationId⟩)
    match response with
    | .error _ => return ()
    | .ok response => do
        let _ ← locked (heartbeatAnswered response.error.errorCode)

end Consumer

end LogMq
