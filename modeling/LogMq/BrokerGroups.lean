import LogMq.BrokerRestart
import LogMq.BrokerSteps
import LogMq.GroupSteps

/-! The groups of a running broker. Every request acts on them as one event or not at all, and a restart forgets them.
Whatever their generations, these are never negative and no member has a partition twice. -/

namespace LogMq

/-! ### Ranges -/

theorem partitionRange_nodup (base extra memberIndex : UInt32) : (partitionRange base extra memberIndex).Nodup := by
  unfold partitionRange
  dsimp only
  refine List.Nodup.map_on ?_ List.nodup_range
  intro i hi j hj heq
  rw [List.mem_range] at hi hj
  have hsum := UInt32.toBitVec_inj.mp (BitVec.eq_of_toInt_eq heq)
  have hi' := UInt32.toNat_ofNat_of_lt' (hi.trans (UInt32.toNat_lt _))
  have hj' := UInt32.toNat_ofNat_of_lt' (hj.trans (UInt32.toNat_lt _))
  rw [← hi', ← hj', (UInt32.add_right_inj _).mp hsum]

/-- What holds of every group, even past the last generation. -/
structure Tidy (group : GroupState) : Prop where
  generation : 0 ≤ group.generationId
  distinct : ∀ entry ∈ group.roster, entry.2.partitionIds.Nodup

namespace Tidy

variable {group : GroupState}

theorem assigned (hassigned : Assigned group) (hgeneration : 0 ≤ group.generationId) : Tidy group where
  generation := hgeneration
  distinct := by
    intro entry hentry
    rw [hassigned.roster] at hentry
    obtain ⟨i, hi, rfl⟩ := List.mem_mapIdx.mp hentry
    exact partitionRange_nodup _ _ _

theorem of_view {other : GroupState} (hview : other.view = group.view) (h : Tidy group) : Tidy other where
  generation := by
    rw [show other.generationId = group.generationId from congrArg GroupView.generationId hview]
    exact h.generation
  distinct := by
    rw [show other.roster = group.roster from congrArg GroupView.roster hview]
    exact h.distinct

theorem create (groupId topic : Bytes) (partitionCount : UInt32) : Tidy (.create groupId topic partitionCount) where
  generation := le_refl _
  distinct := fun _ h => nomatch h

/-- Members are left out. -/
theorem sublist {members : SortedMap Bytes MemberState} (h : Tidy group)
    (hmembers : ∀ entry ∈ members.entries, entry ∈ group.members.entries) : Tidy { group with members := members } where
  generation := h.generation
  distinct := by
    intro entry hentry
    obtain ⟨member, hmember, rfl⟩ := List.mem_map.mp hentry
    exact h.distinct _ (List.mem_map_of_mem (hmembers member hmember))

/-- A new member has nothing. -/
theorem addMember (h : Tidy group) (topic : Bytes) (now : Int) : Tidy (group.addMember topic now) where
  generation := h.generation
  distinct := by
    intro entry hentry
    obtain ⟨⟨memberId, member⟩, hmember, rfl⟩ := List.mem_map.mp hentry
    have hfind := SortedMap.mem_entries.mp hmember
    unfold GroupState.addMember SortedMap.emplace at hfind
    dsimp only at hfind
    split_ifs at hfind
    · exact h.distinct _ (List.mem_map_of_mem (SortedMap.mem_entries.mpr hfind))
    · rw [SortedMap.find?_insert] at hfind
      split_ifs at hfind
      · cases hfind
        exact List.nodup_nil
      · exact h.distinct _ (List.mem_map_of_mem (SortedMap.mem_entries.mpr hfind))

end Tidy

/-- **Every event keeps groups tidy.** -/
theorem Change.tidy {groupId : Bytes} {event : Event} {old new : Option GroupState}
    (h : Change groupId event old new) (hold : ∀ group ∈ old, Tidy group) : ∀ group ∈ new, Tidy group := by
  intro group hgroup
  cases h with
  | keep hview =>
      cases hgroup
      obtain ⟨before, hbefore, heq⟩ := Option.map_eq_some_iff.mp hview.symm
      exact (hold before hbefore).of_view heq.symm
  | create hevent =>
      cases hgroup
      exact .create _ _ _
  | @grow old topic partitionCount now hevent hmax =>
      cases hgroup
      have hbefore : Tidy (old.getD (.create groupId topic partitionCount)) := by
        cases old with
        | none => exact .create _ _ _
        | some before => exact hold before rfl
      refine .assigned (assigned_assignLocked _) ?_
      rw [GroupState.grown, generationId_assignLocked]
      exact Int.le_add_one hbefore.generation
  | overflow hevent hmax =>
      cases hgroup
      exact (hold _ rfl).addMember _ _
  | restart hmember hzero =>
      cases hgroup
      refine .assigned (assigned_assignLocked _) ?_
      rw [generationId_assignLocked]
      exact Int.le_add_one (hold _ rfl).generation
  | shrink hbelow hle =>
      cases hgroup
      refine .assigned (assigned_assignLocked _) ?_
      rw [GroupState.shrunk, generationId_assignLocked]
      exact (hold _ rfl).generation.trans hle
  | strand hmax =>
      cases hgroup
      exact (hold _ rfl).sublist fun entry hentry => List.mem_of_mem_filter hentry
  | drop => cases hgroup

namespace GroupCoordinator

/-- All groups of a coordinator are tidy. -/
def AllTidy (coordinator : GroupCoordinator) : Prop := ∀ groupId, ∀ group ∈ coordinator.group? groupId, Tidy group

variable {coordinator : GroupCoordinator}

theorem AllTidy.step (h : coordinator.AllTidy) (event : Event) : (coordinator.step event).AllTidy :=
  fun groupId => (step_change coordinator event groupId).tidy (h groupId)

/-- A member that joins is in a generation. -/
theorem AllTidy.joinGroup_ok (h : coordinator.AllTidy) {request : JoinGroupRequest} {partitionCount : UInt32} {now : Int}
    {response : JoinGroupResponse} (hjoin : (coordinator.joinGroup request partitionCount now).1 = .ok response) :
    0 < response.generationId := by
  have hfinish : ∀ (group : GroupState) (changed : Bool) (memberId : Bytes), 0 ≤ group.generationId →
      (finishJoin group changed request.groupId memberId).1 = .ok response → 0 < response.generationId := by
    intro group changed memberId hnonneg hok
    unfold finishJoin at hok
    by_cases hchanged : changed = true ∨ group.generationId = 0
    · rw [if_pos hchanged] at hok
      by_cases hmax : group.generationId = maxInt32
      · rw [if_pos hmax] at hok
        cases hok
      · rw [if_neg hmax] at hok
        cases hok
        show 0 < (assignLocked _).generationId
        rw [generationId_assignLocked]
        exact Int.lt_add_one_of_le hnonneg
    · rw [if_neg hchanged] at hok
      cases hok
      exact lt_of_le_of_ne hnonneg fun hzero => hchanged (.inr hzero.symm)
  have hmember : ∀ group : GroupState, 0 ≤ group.generationId → (joinMember group request now).1 = .ok response →
      0 < response.generationId := by
    intro group hnonneg hok
    unfold joinMember at hok
    split at hok
    · exact hfinish (group.addMember request.topic now) _ _ hnonneg hok
    split at hok
    · cases hok
    · exact hfinish (group.touch request.memberId _ now) _ _ hnonneg hok
  unfold joinGroup at hjoin
  split at hjoin
  · cases hjoin
  split at hjoin
  · exact hmember _ (le_refl _) hjoin
  · rename_i group hgroup
    split at hjoin
    · cases hjoin
    split at hjoin
    · cases hjoin
    · exact hmember group (h request.groupId group hgroup).generation hjoin

/-- The partitions of a member are distinct. -/
theorem AllTidy.syncGroup_ok (h : coordinator.AllTidy) {request : SyncGroupRequest} {now : Int}
    {response : SyncGroupResponse} (hsync : (coordinator.syncGroup request now).1 = .ok response) :
    response.assignment.partitionIds.Nodup := by
  obtain ⟨group, hgroup, -, hentry, -, -⟩ := GroupCoordinator.syncGroup_ok hsync
  exact (h request.groupId group hgroup).distinct _ hentry

end GroupCoordinator

/-! ### Running brokers -/

namespace BrokerService

variable {queue : TaskQueue} {environment : Environment} {broker : BrokerService}

theorem handleProduce_groups (request : ProduceRequest) :
    (broker.handleProduce environment request).2.groups = broker.groups := by
  unfold handleProduce
  split
  · rfl
  split
  · rfl
  split
  · rfl
  split <;> rfl

theorem handleNack_groups (request : NackRequest) :
    (broker.handleNack queue environment request).2.groups = broker.groups := by
  unfold handleNack
  split
  · rfl
  dsimp only
  split
  · rfl
  split
  · rfl
  split <;> rfl

theorem handleCreateTopic_groups (request : CreateTopicRequest) :
    (broker.handleCreateTopic environment request).2.groups = broker.groups := by
  unfold handleCreateTopic
  split <;> rfl

theorem handleCommitOffset_groups (request : CommitOffsetRequest) :
    (broker.handleCommitOffset environment request).2.groups = broker.groups := by
  unfold handleCommitOffset
  split <;> rfl

theorem handleJoinGroup_groups (request : JoinGroupRequest) :
    (broker.handleJoinGroup environment request).2.groups = broker.groups ∨
      ∃ event, (broker.handleJoinGroup environment request).2.groups = broker.groups.step event := by
  unfold handleJoinGroup
  split
  · exact Or.inl rfl
  · exact Or.inl rfl
  · exact Or.inr ⟨.join request _ environment.steadyNow, rfl⟩

/-- A request is one event for the groups, or none. -/
theorem handle_groups (envelope : RequestEnvelope) :
    (broker.handle queue environment envelope).2.groups = broker.groups ∨
      ∃ event, (broker.handle queue environment envelope).2.groups = broker.groups.step event := by
  unfold handle
  split
  · exact Or.inl rfl
  split
  · exact Or.inl rfl
  cases envelope.body with
  | nack request => exact Or.inl (handleNack_groups request)
  | produce request => exact Or.inl (handleProduce_groups request)
  | createTopic request => exact Or.inl (handleCreateTopic_groups request)
  | commitOffset request => exact Or.inl (handleCommitOffset_groups request)
  | fetch request => exact Or.inl rfl
  | metadata request => exact Or.inl rfl
  | fetchCommittedOffset request => exact Or.inl rfl
  | syncGroup request => exact Or.inr ⟨.sync request environment.steadyNow, rfl⟩
  | heartbeat request => exact Or.inr ⟨.heartbeat request environment.steadyNow, rfl⟩
  | leaveGroup request => exact Or.inr ⟨.leave request, rfl⟩
  | joinGroup request => exact handleJoinGroup_groups request

theorem handle_allTidy (h : broker.groups.AllTidy) (envelope : RequestEnvelope) :
    (broker.handle queue environment envelope).2.groups.AllTidy := by
  rcases @handle_groups queue environment broker envelope with hsame | ⟨event, hstep⟩
  · rw [hsame]
    exact h
  · rw [hstep]
    exact h.step event

end BrokerService

/-- **A running broker has tidy groups only.** -/
theorem BrokerReaches.allTidy {queue : TaskQueue} {rules : Rules} {system : System}
    (h : BrokerReaches queue rules system) : system.broker.groups.AllTidy := by
  obtain ⟨options, now, broker, -, hstart, hfollows⟩ := h
  have hfresh : ∀ {options disk now broker}, BrokerService.start queue options disk now = .ok broker →
      broker.groups.AllTidy := by
    intro options disk now broker hstart
    obtain ⟨-, topics, tasks, -, -, rfl⟩ := BrokerService.start_ok.mp hstart
    intro groupId group hgroup
    cases hgroup
  induction hfollows with
  | refl => exact hfresh hstart
  | tail _ hstep ih =>
      cases hstep with
      | request htyped hallowed => exact BrokerService.handle_allTidy ih _
      | wake now => exact ih
      | flush flushed => exact ih
      | expire now => exact ih.step (.expire now)
      | restart hintact hoptions hstart => exact hfresh hstart

end LogMq
