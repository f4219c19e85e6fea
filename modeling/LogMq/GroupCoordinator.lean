import LogMq.BrokerNames
import LogMq.LibSortedMap
import LogMq.ProtocolTypes

/-! The coordinator of consumer groups. All operations run under one mutex, so an operation is a function
of the state before it. A clock reading is an argument; times and the session timeout are counted in the
same ticks. -/

namespace LogMq

/-! ### State -/

structure MemberState where
  memberId : Bytes
  lastHeartbeat : Int
  assignment : PartitionAssignment
  deriving DecidableEq

structure GroupState where
  groupId : Bytes
  topic : Bytes
  partitionCount : UInt32
  generationId : Int := 0
  nextMemberSequence : UInt64 := 1
  leaderId : Bytes := []
  members : SortedMap Bytes MemberState := SortedMap.empty
  deriving DecidableEq

structure GroupCoordinator where
  sessionTimeout : Int
  groups : SortedMap Bytes GroupState := SortedMap.empty

/-! ### Partition assignment -/

/-- The partitions of the member with a given index: `count` numbers from `start` on, in 32 bits and
stored as signed `PartitionId`s. -/
def partitionRange (base extra memberIndex : UInt32) : List Int :=
  let count := base + if memberIndex < extra then 1 else 0
  let start := memberIndex * base + if memberIndex ≤ extra then memberIndex else extra
  (List.range count.toNat).map fun i => (start + UInt32.ofNat i).toBitVec.toInt

/-- `AssignLocked`: the first member leads and the partitions are split by range, in member order. -/
def assignLocked (group : GroupState) : GroupState :=
  match group.members.entries with
  | [] => { group with leaderId := [] }
  | (first, _) :: _ =>
      let memberCount := UInt32.ofNat group.members.entries.length
      let base := group.partitionCount / memberCount
      let extra := group.partitionCount % memberCount
      { group with
        leaderId := first
        members := group.members.mapIdx fun memberIndex member =>
          { member with assignment := ⟨group.topic, partitionRange base extra (UInt32.ofNat memberIndex)⟩ } }

/-! ### Operations -/

def unknownMember : Status := .notFound "unknown member"

def illegalGeneration : Status := .invalidArgument "illegal generation"

def generationOverflow : Status := .internal "group generation overflow"

def validateGroupId (groupId : Bytes) : Result Unit := validateSafeName groupId "group_id"

def validateMemberId (memberId : Bytes) : Result Unit := validateSafeName memberId "member_id"

def validateTopic (topic : Bytes) : Result Unit := validateSafeName topic "topic"

/-- The checks of `JoinGroup` before it takes the lock. -/
def validateJoin (request : JoinGroupRequest) (partitionCount : UInt32) : Result Unit := do
  validateGroupId request.groupId
  if request.memberId ≠ [] then validateMemberId request.memberId
  validateTopic request.topic
  if partitionCount = 0 then throw (.invalidArgument "partition_count must be positive")

/-- The member id `JoinGroup` generates from a sequence number. -/
def memberName (sequence : UInt64) : Bytes := text ("member-" ++ Nat.repr sequence.toNat)

/-- A group that was not known. -/
def GroupState.create (groupId topic : Bytes) (partitionCount : UInt32) : GroupState :=
  { groupId := groupId, topic := topic, partitionCount := partitionCount }

/-- A member joins for the first time. It has nothing assigned until the next `AssignLocked`. -/
def GroupState.addMember (group : GroupState) (topic : Bytes) (now : Int) : GroupState :=
  let memberId := memberName group.nextMemberSequence
  { group with
    nextMemberSequence := group.nextMemberSequence + 1
    members := group.members.emplace memberId ⟨memberId, now, ⟨topic, []⟩⟩ }

/-- A member's last sign of life is recorded. -/
def GroupState.touch (group : GroupState) (memberId : Bytes) (member : MemberState) (now : Int) : GroupState :=
  { group with members := group.members.insert memberId { member with lastHeartbeat := now } }

/-- The end of `JoinGroup`: a new generation if the membership changed or if there was none yet. -/
def finishJoin (group : GroupState) (membershipChanged : Bool) (groupId memberId : Bytes) :
    Result JoinGroupResponse × GroupState :=
  if membershipChanged ∨ group.generationId = 0 then
    if group.generationId = maxInt32 then (.error generationOverflow, group)
    else
      let group := assignLocked { group with generationId := group.generationId + 1 }
      (.ok ⟨groupId, memberId, group.generationId, group.leaderId⟩, group)
  else (.ok ⟨groupId, memberId, group.generationId, group.leaderId⟩, group)

/-- The part of `JoinGroup` that works on the group: a request without member id adds a member, one with
a member id must name a member. -/
def joinMember (group : GroupState) (request : JoinGroupRequest) (now : Int) :
    Result JoinGroupResponse × GroupState :=
  if request.memberId = [] then
    finishJoin (group.addMember request.topic now) true request.groupId (memberName group.nextMemberSequence)
  else
    match group.members.find? request.memberId with
    | none => (.error unknownMember, group)
    | some member =>
        finishJoin (group.touch request.memberId member now) false request.groupId request.memberId

namespace GroupCoordinator

/-- The state of a group is written back. -/
def store (coordinator : GroupCoordinator) (groupId : Bytes) (group : GroupState) : GroupCoordinator :=
  { coordinator with groups := coordinator.groups.insert groupId group }

/-- `JoinGroup`. A group that is not known is created first, and stays even if the request fails. -/
def joinGroup (coordinator : GroupCoordinator) (request : JoinGroupRequest) (partitionCount : UInt32)
    (now : Int) : Result JoinGroupResponse × GroupCoordinator :=
  match validateJoin request partitionCount with
  | .error status => (.error status, coordinator)
  | .ok () =>
      match coordinator.groups.find? request.groupId with
      | none =>
          let (result, group) := joinMember (.create request.groupId request.topic partitionCount) request now
          (result, coordinator.store request.groupId group)
      | some group =>
          if group.topic ≠ request.topic then
            (.error (.invalidArgument "group is already subscribed to another topic"), coordinator)
          else if group.partitionCount ≠ partitionCount then
            (.error (.invalidArgument "group topic partition count changed"), coordinator)
          else
            let (result, group) := joinMember group request now
            (result, coordinator.store request.groupId group)

/-- The common part of `SyncGroup` and `Heartbeat`: the member of the current generation, touched. -/
def checkMember (coordinator : GroupCoordinator) (request : MemberRequest) (now : Int) :
    Result (GroupState × MemberState) × GroupCoordinator :=
  match (do validateGroupId request.groupId; validateMemberId request.memberId) with
  | .error status => (.error status, coordinator)
  | .ok () =>
      if request.generationId ≤ 0 then (.error illegalGeneration, coordinator)
      else
        match coordinator.groups.find? request.groupId with
        | none => (.error unknownMember, coordinator)
        | some group =>
            match group.members.find? request.memberId with
            | none => (.error unknownMember, coordinator)
            | some member =>
                if request.generationId ≠ group.generationId then (.error illegalGeneration, coordinator)
                else (.ok (group, member),
                  coordinator.store request.groupId (group.touch request.memberId member now))

/-- `SyncGroup`. -/
def syncGroup (coordinator : GroupCoordinator) (request : SyncGroupRequest) (now : Int) :
    Result SyncGroupResponse × GroupCoordinator :=
  match coordinator.checkMember request now with
  | (.error status, coordinator) => (.error status, coordinator)
  | (.ok (group, member), coordinator) =>
      (.ok ⟨request.groupId, request.memberId, group.generationId, member.assignment⟩, coordinator)

/-- `Heartbeat`. -/
def heartbeat (coordinator : GroupCoordinator) (request : HeartbeatRequest) (now : Int) :
    Result HeartbeatResponse × GroupCoordinator :=
  match coordinator.checkMember request now with
  | (.error status, coordinator) => (.error status, coordinator)
  | (.ok (group, _), coordinator) =>
      (.ok ⟨request.groupId, request.memberId, group.generationId⟩, coordinator)

/-- `LeaveGroup`. The member is gone even if the generation cannot be increased. -/
def leaveGroup (coordinator : GroupCoordinator) (request : LeaveGroupRequest) :
    Result LeaveGroupResponse × GroupCoordinator :=
  match (do validateGroupId request.groupId; validateMemberId request.memberId) with
  | .error status => (.error status, coordinator)
  | .ok () =>
      match coordinator.groups.find? request.groupId with
      | none => (.error unknownMember, coordinator)
      | some group =>
          match group.members.find? request.memberId with
          | none => (.error unknownMember, coordinator)
          | some _ =>
              let group := { group with members := group.members.erase request.memberId }
              if group.generationId = maxInt32 then
                (.error generationOverflow, coordinator.store request.groupId group)
              else
                let group := { group with generationId := group.generationId + 1 }
                let coordinator :=
                  if group.members.entries = [] then
                    { coordinator with groups := coordinator.groups.erase request.groupId }
                  else coordinator.store request.groupId (assignLocked group)
                (.ok ⟨request.groupId, request.memberId, group.generationId⟩, coordinator)

/-- What `ExpireTimedOutMembers` makes of one group; a group without members left is dropped. -/
def expireGroup (sessionTimeout now : Int) (group : GroupState) : Option GroupState :=
  let timedOut := fun member : MemberState => decide (now - member.lastHeartbeat > sessionTimeout)
  let members := group.members.filter fun _ member => !timedOut member
  if group.members.entries.all fun entry => !timedOut entry.2 then some group
  else
    let generationId :=
      if group.generationId < maxInt32 then group.generationId + 1 else group.generationId
    if members.entries = [] then none
    else some (assignLocked { group with members := members, generationId := generationId })

/-- `ExpireTimedOutMembers`. -/
def expireTimedOutMembers (coordinator : GroupCoordinator) (now : Int) : GroupCoordinator :=
  { coordinator with
    groups := coordinator.groups.filterMap fun _ group => expireGroup coordinator.sessionTimeout now group }

end GroupCoordinator

end LogMq
