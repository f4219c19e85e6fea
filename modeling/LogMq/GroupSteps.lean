import LogMq.GroupAssignment
import LogMq.LibRuns

/-! Single steps of the coordinator, and all that one step can do to one group. -/

namespace LogMq

/-! ### Events -/

/-- A request that reaches the coordinator or a scan for timed out members, with its clock reading. -/
inductive Event where
  | join (request : JoinGroupRequest) (partitionCount : UInt32) (now : Int)
  | sync (request : SyncGroupRequest) (now : Int)
  | heartbeat (request : HeartbeatRequest) (now : Int)
  | leave (request : LeaveGroupRequest)
  | expire (now : Int)

inductive Response where
  | joined (result : Result JoinGroupResponse)
  | synced (result : Result SyncGroupResponse)
  | heard (result : Result HeartbeatResponse)
  | left (result : Result LeaveGroupResponse)
  | expired

namespace GroupCoordinator

def respond (coordinator : GroupCoordinator) : Event → Response
  | .join request partitionCount now => .joined (coordinator.joinGroup request partitionCount now).1
  | .sync request now => .synced (coordinator.syncGroup request now).1
  | .heartbeat request now => .heard (coordinator.heartbeat request now).1
  | .leave request => .left (coordinator.leaveGroup request).1
  | .expire _ => .expired

def step (coordinator : GroupCoordinator) : Event → GroupCoordinator
  | .join request partitionCount now => (coordinator.joinGroup request partitionCount now).2
  | .sync request now => (coordinator.syncGroup request now).2
  | .heartbeat request now => (coordinator.heartbeat request now).2
  | .leave request => (coordinator.leaveGroup request).2
  | .expire now => coordinator.expireTimedOutMembers now

/-- The group a coordinator knows under some id. -/
def group? (coordinator : GroupCoordinator) (groupId : Bytes) : Option GroupState :=
  coordinator.groups.find? groupId

@[simp] theorem group?_store_self (coordinator : GroupCoordinator) (groupId : Bytes) (group : GroupState) :
    (coordinator.store groupId group).group? groupId = some group :=
  SortedMap.find?_insert_self _ _ _

theorem group?_store_of_ne {groupId target : Bytes} (h : target ≠ groupId) (coordinator : GroupCoordinator)
    (group : GroupState) : (coordinator.store groupId group).group? target = coordinator.group? target :=
  SortedMap.find?_insert_of_ne h _ _

end GroupCoordinator

/-! ### Views -/

/-- A group without the times of its heartbeats. -/
structure GroupView where
  topic : Bytes
  partitionCount : UInt32
  generationId : Int
  nextMemberSequence : UInt64
  leaderId : Bytes
  roster : List (Bytes × PartitionAssignment)

def GroupState.view (group : GroupState) : GroupView :=
  ⟨group.topic, group.partitionCount, group.generationId, group.nextMemberSequence, group.leaderId, group.roster⟩

theorem GroupState.memberIds_eq (group : GroupState) : group.memberIds = group.roster.map Prod.fst := by
  rw [memberIds, roster, List.map_map]
  rfl

/-- A sign of life does not change the view. -/
theorem GroupState.view_touch {group : GroupState} {memberId : Bytes} {member : MemberState}
    (h : group.members.find? memberId = some member) (now : Int) :
    (group.touch memberId member now).view = group.view := by
  have hroster : (group.touch memberId member now).roster = group.roster :=
    SortedMap.map_entries_insert_present h rfl
  rw [view, hroster]
  rfl

section View

variable {group other : GroupState} (hview : other.view = group.view)

include hview

theorem memberIds_of_view : other.memberIds = group.memberIds := by
  rw [GroupState.memberIds_eq, GroupState.memberIds_eq, show other.roster = group.roster from
    congrArg GroupView.roster hview]

theorem Assigned.of_view (h : Assigned group) : Assigned other := by
  have hids := memberIds_of_view hview
  have hat : ∀ i, assignmentAt other i = assignmentAt group i := by
    intro i
    rw [assignmentAt, hids, show other.topic = group.topic from congrArg GroupView.topic hview,
      show other.partitionCount = group.partitionCount from congrArg GroupView.partitionCount hview, assignmentAt]
  constructor
  · rw [hids, ← h.leader]
    exact congrArg GroupView.leaderId hview
  · simp only [hat]
    rw [hids, ← h.roster]
    exact congrArg GroupView.roster hview

end View

/-! ### Changes -/

/-- The group with one member more, in its next generation. -/
def GroupState.grown (group : GroupState) (topic : Bytes) (now : Int) : GroupState :=
  assignLocked { group.addMember topic now with generationId := group.generationId + 1 }

/-- The group with some members less. -/
def GroupState.shrunk (group : GroupState) (keep : Bytes → MemberState → Bool) (generationId : Int) : GroupState :=
  assignLocked { group with members := group.members.filter keep, generationId := generationId }

/-- What an event can make of one group. -/
inductive Change (groupId : Bytes) (event : Event) : Option GroupState → Option GroupState → Prop where
  | keep {old new : Option GroupState} (hview : new.map GroupState.view = old.map GroupState.view) :
      Change groupId event old new
  | create {memberId topic : Bytes} {partitionCount : UInt32} {now : Int}
      (hevent : event = .join ⟨groupId, memberId, topic⟩ partitionCount now) :
      Change groupId event none (some (.create groupId topic partitionCount))
  | grow {old : Option GroupState} {topic : Bytes} {partitionCount : UInt32} {now : Int}
      (hevent : event = .join ⟨groupId, [], topic⟩ partitionCount now)
      (hmax : (old.getD (.create groupId topic partitionCount)).generationId ≠ maxInt32) :
      Change groupId event old (some ((old.getD (.create groupId topic partitionCount)).grown topic now))
  | overflow {group : GroupState} {topic : Bytes} {partitionCount : UInt32} {now : Int}
      (hevent : event = .join ⟨groupId, [], topic⟩ partitionCount now) (hmax : group.generationId = maxInt32) :
      Change groupId event (some group) (some (group.addMember topic now))
  | restart {group : GroupState} {memberId : Bytes} {member : MemberState} {now : Int}
      (hmember : group.members.find? memberId = some member) (hzero : group.generationId = 0) :
      Change groupId event (some group)
        (some (assignLocked { group.touch memberId member now with generationId := group.generationId + 1 }))
  | shrink {group : GroupState} {keep : Bytes → MemberState → Bool} {generationId : Int}
      (hbelow : group.generationId < maxInt32 → generationId = group.generationId + 1)
      (hle : group.generationId ≤ generationId) :
      Change groupId event (some group) (some (group.shrunk keep generationId))
  | strand {group : GroupState} {memberId : Bytes} (hmax : group.generationId = maxInt32) :
      Change groupId event (some group) (some { group with members := group.members.erase memberId })
  | drop {group : GroupState} : Change groupId event (some group) none

namespace Change

variable {groupId : Bytes} {event : Event}

theorem refl (old : Option GroupState) : Change groupId event old old := .keep rfl

theorem touch {group : GroupState} {memberId : Bytes} {member : MemberState}
    (h : group.members.find? memberId = some member) (now : Int) :
    Change groupId event (some group) (some (group.touch memberId member now)) :=
  .keep (congrArg some (GroupState.view_touch h now))

end Change

theorem finishJoin_state (group : GroupState) (membershipChanged : Bool) (groupId memberId : Bytes) :
    (finishJoin group membershipChanged groupId memberId).2 =
      if (membershipChanged = true ∨ group.generationId = 0) ∧ group.generationId ≠ maxInt32 then
        assignLocked { group with generationId := group.generationId + 1 }
      else group := by
  unfold finishJoin
  by_cases hchanged : membershipChanged = true ∨ group.generationId = 0
  · rw [if_pos hchanged]
    by_cases hmax : group.generationId = maxInt32
    · rw [if_pos hmax, if_neg fun h => h.2 hmax]
    · rw [if_neg hmax, if_pos ⟨hchanged, hmax⟩]
  · rw [if_neg hchanged, if_neg fun h => hchanged h.1]

/-- Joining changes a group as described. -/
theorem joinMember_change {old : Option GroupState} {request : JoinGroupRequest} {partitionCount : UInt32} {now : Int} :
    Change request.groupId (.join request partitionCount now) old
      (some (joinMember (old.getD (.create request.groupId request.topic partitionCount)) request now).2) := by
  unfold joinMember
  by_cases hid : request.memberId = []
  · have hevent : Event.join request partitionCount now =
        .join ⟨request.groupId, [], request.topic⟩ partitionCount now := by rw [← hid]
    rw [if_pos hid, finishJoin_state]
    by_cases hmax : (old.getD (.create request.groupId request.topic partitionCount)).generationId = maxInt32
    · rw [if_neg fun h => h.2 hmax]
      cases old with
      | none => exact absurd (show (0 : Int) = maxInt32 from hmax) (by decide)
      | some group => exact .overflow hevent hmax
    · rw [if_pos ⟨Or.inl rfl, hmax⟩]
      exact .grow hevent hmax
  · rw [if_neg hid]
    cases old with
    | none => exact .create rfl
    | some group =>
        rw [Option.getD_some]
        cases hmember : group.members.find? request.memberId with
        | none => exact .refl _
        | some member =>
            dsimp only
            rw [finishJoin_state]
            by_cases hrestart : (false = true ∨ group.generationId = 0) ∧ group.generationId ≠ maxInt32
            · exact if_pos (α := GroupState) hrestart ▸ .restart hmember (hrestart.1.resolve_left Bool.false_ne_true)
            · exact if_neg (α := GroupState) hrestart ▸ .touch hmember now

namespace GroupCoordinator

variable {coordinator : GroupCoordinator} {groupId : Bytes}

/-- A group that is stored is changed, the others are not. -/
theorem change_store {event : Event} {target : Bytes} {group : GroupState}
    (h : Change groupId event (coordinator.group? groupId) (some group)) :
    Change target event (coordinator.group? target) ((coordinator.store groupId group).group? target) := by
  by_cases htarget : target = groupId
  · subst htarget
    rw [group?_store_self]
    exact h
  · rw [group?_store_of_ne htarget]
    exact .refl _

theorem joinGroup_change (request : JoinGroupRequest) (partitionCount : UInt32) (now : Int) :
    Change groupId (.join request partitionCount now) (coordinator.group? groupId)
      ((coordinator.joinGroup request partitionCount now).2.group? groupId) := by
  have hjoin := @joinMember_change (coordinator.group? request.groupId) request partitionCount now
  unfold joinGroup
  cases validateJoin request partitionCount with
  | error status => exact .refl _
  | ok _ =>
      dsimp only
      split
      · rename_i hnone
        rw [group?, hnone] at hjoin
        exact change_store (by rw [group?, hnone]; exact hjoin)
      · rename_i group hsome
        rw [group?, hsome] at hjoin
        split_ifs
        · exact .refl _
        · exact .refl _
        · exact change_store (by rw [group?, hsome]; exact hjoin)

theorem checkMember_change (event : Event) (request : MemberRequest) (now : Int) :
    Change groupId event (coordinator.group? groupId) ((coordinator.checkMember request now).2.group? groupId) := by
  unfold checkMember
  split
  · exact .refl _
  · split_ifs
    · exact .refl _
    · split
      · exact .refl _
      · rename_i group hgroup
        split
        · exact .refl _
        · rename_i member hmember
          split_ifs
          · exact .refl _
          · refine change_store ?_
            rw [group?, hgroup]
            exact .touch hmember now

theorem syncGroup_state (coordinator : GroupCoordinator) (request : SyncGroupRequest) (now : Int) :
    (coordinator.syncGroup request now).2 = (coordinator.checkMember request now).2 := by
  unfold syncGroup
  split
  · rename_i hresult
    rw [hresult]
  · rename_i hresult
    rw [hresult]

theorem heartbeat_state (coordinator : GroupCoordinator) (request : HeartbeatRequest) (now : Int) :
    (coordinator.heartbeat request now).2 = (coordinator.checkMember request now).2 := by
  unfold heartbeat
  split
  · rename_i hresult
    rw [hresult]
  · rename_i hresult
    rw [hresult]

theorem leaveGroup_change (event : Event) (request : LeaveGroupRequest) :
    Change groupId event (coordinator.group? groupId) ((coordinator.leaveGroup request).2.group? groupId) := by
  unfold leaveGroup
  split
  · exact .refl _
  · split
    · exact .refl _
    · rename_i group hgroup
      split
      · exact .refl _
      · dsimp only
        split_ifs with hmax hempty
        · refine change_store ?_
          rw [group?, hgroup]
          exact .strand hmax
        · by_cases htarget : groupId = request.groupId
          · subst htarget
            rw [group?, hgroup]
            change Change _ _ _ (SortedMap.find? (SortedMap.erase _ _) _)
            rw [SortedMap.find?_erase, if_pos rfl]
            exact .drop
          · change Change _ _ _ (SortedMap.find? (SortedMap.erase _ _) _)
            rw [SortedMap.find?_erase, if_neg htarget]
            exact .refl _
        · refine change_store ?_
          rw [group?, hgroup]
          exact .shrink (fun _ => rfl) (Int.le_add_one (le_refl _))

theorem expireGroup_change (event : Event) (sessionTimeout now : Int) (group : GroupState) :
    Change groupId event (some group) (expireGroup sessionTimeout now group) := by
  unfold expireGroup
  dsimp only
  split_ifs with hall hempty hbelow
  · exact .refl _
  · exact .drop
  · exact .shrink (fun _ => rfl) (Int.le_add_one (le_refl _))
  · exact .shrink (fun h => absurd h hbelow) (le_refl _)

/-- **Steps.** Every event changes every group as described. -/
theorem step_change (coordinator : GroupCoordinator) (event : Event) (groupId : Bytes) :
    Change groupId event (coordinator.group? groupId) ((coordinator.step event).group? groupId) := by
  cases event with
  | join request partitionCount now => exact joinGroup_change request partitionCount now
  | sync request now =>
      rw [step, syncGroup_state]
      exact checkMember_change _ request now
  | heartbeat request now =>
      rw [step, heartbeat_state]
      exact checkMember_change _ request now
  | leave request => exact leaveGroup_change (.leave request) request
  | expire now =>
      change Change _ _ _ (SortedMap.find? (SortedMap.filterMap _ _) _)
      rw [SortedMap.find?_filterMap]
      change Change _ _ _ ((coordinator.group? groupId).bind _)
      cases coordinator.group? groupId with
      | none => exact .refl _
      | some group => exact expireGroup_change _ _ now group

/-! ### Responses -/

/-- A first join that succeeds. -/
theorem joinGroup_fresh {request : JoinGroupRequest} {partitionCount : UInt32} {now : Int}
    {response : JoinGroupResponse} (hid : request.memberId = [])
    (h : (coordinator.joinGroup request partitionCount now).1 = .ok response) :
    ∃ group, group = (coordinator.group? request.groupId).getD (.create request.groupId request.topic partitionCount) ∧
      group.generationId ≠ maxInt32 ∧ response.groupId = request.groupId ∧
      response.memberId = memberName group.nextMemberSequence ∧ response.generationId = group.generationId + 1 ∧
      (coordinator.joinGroup request partitionCount now).2.group? request.groupId =
        some (group.grown request.topic now) := by
  have hjoin : ∀ group, (joinMember group request now).1 = .ok response →
      group.generationId ≠ maxInt32 ∧ response.groupId = request.groupId ∧
        response.memberId = memberName group.nextMemberSequence ∧
        response.generationId = group.generationId + 1 ∧
        (joinMember group request now).2 = group.grown request.topic now := by
    intro group hok
    rw [joinMember, if_pos hid] at hok ⊢
    unfold finishJoin at hok ⊢
    rw [if_pos (Or.inl rfl)] at hok ⊢
    by_cases hmax : (group.addMember request.topic now).generationId = maxInt32
    · rw [if_pos hmax] at hok
      cases hok
    · rw [if_neg hmax] at hok ⊢
      cases hok
      exact ⟨hmax, rfl, rfl, generationId_assignLocked _, rfl⟩
  unfold joinGroup at h ⊢
  cases hvalid : validateJoin request partitionCount with
  | error status =>
      rw [hvalid] at h
      cases h
  | ok _ =>
      rw [hvalid] at h
      cases hgroup : coordinator.group? request.groupId with
      | none =>
          rw [group?] at hgroup
          rw [hgroup] at h ⊢
          obtain ⟨hmax, hgroupId, hmemberId, hgeneration, hstate⟩ := hjoin _ h
          refine ⟨_, rfl, hmax, hgroupId, hmemberId, hgeneration, ?_⟩
          dsimp only
          rw [group?_store_self, hstate]
          rfl
      | some group =>
          rw [group?] at hgroup
          rw [hgroup] at h ⊢
          dsimp only at h ⊢
          split_ifs at h ⊢
          obtain ⟨hmax, hgroupId, hmemberId, hgeneration, hstate⟩ := hjoin _ h
          refine ⟨group, rfl, hmax, hgroupId, hmemberId, hgeneration, ?_⟩
          rw [group?_store_self, hstate]

/-- Only a member of the current generation passes the check. -/
theorem checkMember_ok {request : MemberRequest} {now : Int} {group : GroupState} {member : MemberState}
    (h : (coordinator.checkMember request now).1 = .ok (group, member)) :
    coordinator.group? request.groupId = some group ∧ group.members.find? request.memberId = some member ∧
      request.generationId = group.generationId := by
  unfold checkMember at h
  split at h
  · cases h
  · split_ifs at h
    split at h
    · cases h
    · rename_i found hfound
      split at h
      · cases h
      · rename_i known hknown
        split_ifs at h with hgeneration
        cases h
        exact ⟨hfound, hknown, not_not.mp hgeneration⟩

/-- A successful `SyncGroup` reads the roster. -/
theorem syncGroup_ok {request : SyncGroupRequest} {now : Int} {response : SyncGroupResponse}
    (h : (coordinator.syncGroup request now).1 = .ok response) :
    ∃ group, coordinator.group? request.groupId = some group ∧ response.generationId = group.generationId ∧
      (response.memberId, response.assignment) ∈ group.roster ∧ response.memberId = request.memberId ∧
      request.generationId = group.generationId := by
  unfold syncGroup at h
  split at h
  · cases h
  · rename_i group member state hresult
    cases h
    obtain ⟨hgroup, hmember, hgeneration⟩ := checkMember_ok (congrArg Prod.fst hresult)
    exact ⟨group, hgroup, rfl, List.mem_map.mpr ⟨_, SortedMap.mem_entries.mpr hmember, rfl⟩, rfl, hgeneration⟩

/-- Who is not a member is refused. -/
theorem checkMember_of_not_mem {request : MemberRequest} (now : Int)
    (h : ∀ group, coordinator.group? request.groupId = some group → request.memberId ∉ group.memberIds) :
    ∃ status, (coordinator.checkMember request now).1 = .error status := by
  cases hresult : (coordinator.checkMember request now).1 with
  | error status => exact ⟨status, rfl⟩
  | ok found =>
      obtain ⟨hgroup, hmember, -⟩ := checkMember_ok hresult
      exact absurd (SortedMap.mem_keys.mpr ⟨_, hmember⟩) (h _ hgroup)

theorem syncGroup_of_not_mem {request : SyncGroupRequest} {now : Int}
    (h : ∀ group, coordinator.group? request.groupId = some group → request.memberId ∉ group.memberIds) :
    ∃ status, (coordinator.syncGroup request now).1 = .error status := by
  obtain ⟨status, hstatus⟩ := checkMember_of_not_mem now h
  refine ⟨status, ?_⟩
  unfold syncGroup
  split
  · rename_i hresult
    rw [hresult] at hstatus
    cases hstatus
    rfl
  · rename_i hresult
    rw [hresult] at hstatus
    cases hstatus

theorem heartbeat_of_not_mem {request : HeartbeatRequest} {now : Int}
    (h : ∀ group, coordinator.group? request.groupId = some group → request.memberId ∉ group.memberIds) :
    ∃ status, (coordinator.heartbeat request now).1 = .error status := by
  obtain ⟨status, hstatus⟩ := checkMember_of_not_mem now h
  refine ⟨status, ?_⟩
  unfold heartbeat
  split
  · rename_i hresult
    rw [hresult] at hstatus
    cases hstatus
    rfl
  · rename_i hresult
    rw [hresult] at hstatus
    cases hstatus

end GroupCoordinator

end LogMq
