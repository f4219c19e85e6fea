import LogMq.GroupFencing
import LogMq.GroupMembership
import LogMq.LibDetector

/-! Who is a member of a group, told from the answers alone. The coordinator is a detector of silent members: it knows a
member from its last request that was answered until it leaves, or until a scan for timed out members comes too late. -/

namespace LogMq

open Runs Detector

/-! ### Signs of life -/

/-- When a group has last heard a member. -/
def GroupState.heard (group : GroupState) (memberId : Bytes) : Option Int :=
  (group.members.find? memberId).map MemberState.lastHeartbeat

namespace GroupState

variable {group : GroupState} {memberId other topic : Bytes} {now : Int}

theorem heard_eq_none (h : memberId ∉ group.memberIds) : group.heard memberId = none := by
  rw [heard, Option.map_eq_none_iff, Option.eq_none_iff_forall_ne_some]
  exact fun member hmember => h (SortedMap.mem_keys.mpr ⟨member, hmember⟩)

/-- An assignment is no sign of life. -/
@[simp] theorem heard_assignLocked (group : GroupState) (memberId : Bytes) :
    (assignLocked group).heard memberId = group.heard memberId := by
  unfold assignLocked
  split
  · rfl
  · refine SortedMap.map_find?_congr ?_ memberId
    apply List.ext_getElem?
    intro i
    simp only [SortedMap.mapIdx, List.getElem?_map, List.getElem?_mapIdx, Option.map_map]
    rfl

theorem heard_touch {member : MemberState} :
    (group.touch memberId member now).heard other = if other = memberId then some now else group.heard other := by
  rw [heard, touch, SortedMap.find?_insert, heard]
  split_ifs <;> rfl

/-- A new member is heard as it joins. -/
theorem heard_addMember (h : memberName group.nextMemberSequence ∉ group.memberIds) :
    (group.addMember topic now).heard other =
      if other = memberName group.nextMemberSequence then some now else group.heard other := by
  have habsent : ¬(group.members.find? (memberName group.nextMemberSequence)).isSome :=
    fun hsome => h (SortedMap.mem_keys.mpr (Option.isSome_iff_exists.mp hsome))
  rw [heard, addMember]
  dsimp only
  rw [SortedMap.emplace, if_neg habsent, SortedMap.find?_insert, heard]
  split_ifs <;> rfl

end GroupState

/-- The next name of a sound group is not taken. -/
theorem Sound.fresh {group : GroupState} (h : Sound group) : memberName group.nextMemberSequence ∉ group.memberIds := by
  intro hmem
  obtain ⟨sequence, hlt, hname⟩ := h.named _ hmem
  rw [memberName_injective hname] at hlt
  exact absurd hlt (UInt64.lt_irrefl _)

namespace GroupCoordinator

/-- When the coordinator has last heard a member. -/
def lastHeard (coordinator : GroupCoordinator) (groupId memberId : Bytes) : Option Int :=
  (coordinator.group? groupId).bind fun group => group.heard memberId

/-- What an event and its response tell about a member. -/
def observation (groupId memberId : Bytes) : Event → Response → Observation Int
  | .join _ _ now, .joined (.ok response) =>
      if response.groupId = groupId ∧ response.memberId = memberId then .heard now else .other
  | .sync _ now, .synced (.ok response) =>
      if response.groupId = groupId ∧ response.memberId = memberId then .heard now else .other
  | .heartbeat _ now, .heard (.ok response) =>
      if response.groupId = groupId ∧ response.memberId = memberId then .heard now else .other
  | .leave _, .left (.ok response) =>
      if response.groupId = groupId ∧ response.memberId = memberId then .left else .other
  | .expire now, _ => .scan now
  | _, _ => .other

/-- What the coordinator sees of a member in a step. -/
def sees (groupId memberId : Bytes) (coordinator : GroupCoordinator) (event : Event) : Observation Int :=
  observation groupId memberId event (coordinator.respond event)

/-- The generations of all groups can still grow. -/
def Growing (coordinator : GroupCoordinator) : Prop :=
  ∀ entry ∈ coordinator.groups.entries, entry.2.generationId < maxInt32

instance (coordinator : GroupCoordinator) : Decidable coordinator.Growing :=
  inferInstanceAs (Decidable (∀ entry ∈ coordinator.groups.entries, entry.2.generationId < maxInt32))

variable {coordinator : GroupCoordinator} {groupId memberId : Bytes}

theorem Growing.below (h : coordinator.Growing) {group : GroupState} (hgroup : coordinator.group? groupId = some group) :
    group.generationId < maxInt32 :=
  h (groupId, group) (SortedMap.mem_entries.mpr hgroup)

theorem isMember_iff :
    coordinator.IsMember groupId memberId ↔ ∃ heard, coordinator.lastHeard groupId memberId = some heard := by
  simp only [lastHeard, Option.bind_eq_some_iff, GroupState.heard, Option.map_eq_some_iff]
  constructor
  · rintro ⟨group, hgroup, hmem⟩
    obtain ⟨member, hmember⟩ := SortedMap.mem_keys.mp hmem
    exact ⟨_, group, hgroup, member, hmember, rfl⟩
  · rintro ⟨heard, group, hgroup, member, hmember, -⟩
    exact ⟨group, hgroup, SortedMap.mem_keys.mpr ⟨member, hmember⟩⟩

theorem lastHeard_of_group? {group : GroupState} (h : coordinator.group? groupId = some group) :
    coordinator.lastHeard groupId memberId = group.heard memberId := by
  rw [lastHeard, h]
  rfl

theorem lastHeard_of_none (h : coordinator.group? groupId = none) : coordinator.lastHeard groupId memberId = none := by
  rw [lastHeard, h]
  rfl

theorem lastHeard_congr {before after : GroupCoordinator} (h : after.group? groupId = before.group? groupId) :
    after.lastHeard groupId memberId = before.lastHeard groupId memberId := by
  rw [lastHeard, h, lastHeard]

/-! ### Requests -/

/-- A member's request is stored, and it alone is heard. -/
theorem lastHeard_store {group : GroupState} {target caller : Bytes} {now : Int}
    (h : ∀ other, group.heard other = if other = caller then some now else coordinator.lastHeard target other) :
    (coordinator.store target group).lastHeard groupId memberId =
      if target = groupId ∧ caller = memberId then some now else coordinator.lastHeard groupId memberId := by
  by_cases htarget : groupId = target
  · subst htarget
    rw [lastHeard_of_group? (group?_store_self _ _ _), h]
    by_cases hcaller : memberId = caller
    · rw [if_pos hcaller, if_pos ⟨rfl, hcaller.symm⟩]
    · rw [if_neg hcaller, if_neg fun hand => hcaller hand.2.symm]
  · rw [if_neg fun hand => htarget hand.1.symm]
    exact lastHeard_congr (group?_store_of_ne htarget _ _)

theorem finishJoin_heard (group : GroupState) (hbelow : group.generationId < maxInt32) (membershipChanged : Bool)
    (groupId memberId : Bytes) :
    ∃ response, (finishJoin group membershipChanged groupId memberId).1 = .ok response ∧ response.groupId = groupId ∧
      response.memberId = memberId ∧
      ∀ other, (finishJoin group membershipChanged groupId memberId).2.heard other = group.heard other := by
  unfold finishJoin
  split_ifs with hchanged hmax
  · exact absurd hmax hbelow.ne
  · exact ⟨_, rfl, rfl, rfl, fun other => GroupState.heard_assignLocked _ other⟩
  · exact ⟨_, rfl, rfl, rfl, fun _ => rfl⟩

/-- Who joins a group is heard, or the group stays as it is. -/
theorem joinMember_heard {group : GroupState} (hbelow : group.generationId < maxInt32)
    (hfresh : memberName group.nextMemberSequence ∉ group.memberIds) (request : JoinGroupRequest) (now : Int) :
    (∃ response, (joinMember group request now).1 = .ok response ∧ response.groupId = request.groupId ∧
      ∀ other, (joinMember group request now).2.heard other =
        if other = response.memberId then some now else group.heard other) ∨
    ∃ status, joinMember group request now = (.error status, group) := by
  unfold joinMember
  split_ifs with hid
  · obtain ⟨response, hok, hgroupId, hmemberId, hheard⟩ :=
      finishJoin_heard (group.addMember request.topic now) hbelow true request.groupId
        (memberName group.nextMemberSequence)
    refine .inl ⟨response, hok, hgroupId, fun other => ?_⟩
    rw [hheard, hmemberId, GroupState.heard_addMember hfresh]
  · split
    · exact .inr ⟨_, rfl⟩
    · rename_i member hmember
      obtain ⟨response, hok, hgroupId, hmemberId, hheard⟩ := finishJoin_heard (group.touch request.memberId member now)
        hbelow false request.groupId request.memberId
      refine .inl ⟨response, hok, hgroupId, fun other => ?_⟩
      rw [hheard, hmemberId, GroupState.heard_touch]

/-- Who is answered is heard, and a request that fails is no sign of life. -/
theorem joinGroup_heard {request : JoinGroupRequest} {partitionCount : UInt32} {now : Int}
    (hsound : AllSound coordinator) (hgrows : coordinator.Growing) :
    (∃ response, (coordinator.joinGroup request partitionCount now).1 = .ok response ∧ ∀ groupId memberId,
      (coordinator.joinGroup request partitionCount now).2.lastHeard groupId memberId =
        if response.groupId = groupId ∧ response.memberId = memberId then some now
        else coordinator.lastHeard groupId memberId) ∨
    ∃ status, (coordinator.joinGroup request partitionCount now).1 = .error status ∧ ∀ groupId memberId,
      (coordinator.joinGroup request partitionCount now).2.lastHeard groupId memberId =
        coordinator.lastHeard groupId memberId := by
  -- the group that the request works on says of its members what the coordinator says
  have hwork : ∀ group : GroupState, group.generationId < maxInt32 → Sound group →
      (∀ other, group.heard other = coordinator.lastHeard request.groupId other) →
      (∃ response, (joinMember group request now).1 = .ok response ∧ ∀ groupId memberId,
        (coordinator.store request.groupId (joinMember group request now).2).lastHeard groupId memberId =
          if response.groupId = groupId ∧ response.memberId = memberId then some now
          else coordinator.lastHeard groupId memberId) ∨
      ∃ status, (joinMember group request now).1 = .error status ∧ ∀ groupId memberId,
        (coordinator.store request.groupId (joinMember group request now).2).lastHeard groupId memberId =
          coordinator.lastHeard groupId memberId := by
    intro group hbelow hgroup hheard
    rcases joinMember_heard hbelow hgroup.fresh request now with ⟨response, hok, hgroupId, hjoined⟩ | ⟨status, herror⟩
    · refine .inl ⟨response, hok, fun groupId memberId => ?_⟩
      rw [hgroupId]
      exact lastHeard_store fun other => by rw [hjoined, hheard]
    · refine .inr ⟨status, congrArg Prod.fst herror, fun groupId memberId => ?_⟩
      rw [herror]
      by_cases htarget : groupId = request.groupId
      · rw [htarget, lastHeard_of_group? (group?_store_self _ _ _), hheard]
      · exact lastHeard_congr (group?_store_of_ne htarget _ _)
  unfold joinGroup
  split
  · exact .inr ⟨_, rfl, fun _ _ => rfl⟩
  split
  · rename_i hnone
    refine hwork _ (show (0 : Int) < maxInt32 by decide) (.create _ _ _) fun other => ?_
    rw [lastHeard_of_none hnone]
    rfl
  · rename_i group hsome
    split_ifs
    · exact .inr ⟨_, rfl, fun _ _ => rfl⟩
    · exact .inr ⟨_, rfl, fun _ _ => rfl⟩
    · exact hwork group (hgrows.below hsome) ((hsound request.groupId group hsome).2 (hgrows.below hsome))
        fun other => (lastHeard_of_group? hsome).symm

theorem checkMember_heard {request : MemberRequest} {now : Int} :
    (∃ found, (coordinator.checkMember request now).1 = .ok found ∧ ∀ groupId memberId,
      (coordinator.checkMember request now).2.lastHeard groupId memberId =
        if request.groupId = groupId ∧ request.memberId = memberId then some now
        else coordinator.lastHeard groupId memberId) ∨
    ∃ status, coordinator.checkMember request now = (.error status, coordinator) := by
  unfold checkMember
  split
  · exact .inr ⟨_, rfl⟩
  split_ifs
  · exact .inr ⟨_, rfl⟩
  split
  · exact .inr ⟨_, rfl⟩
  rename_i group hgroup
  split
  · exact .inr ⟨_, rfl⟩
  rename_i member hmember
  split_ifs
  · exact .inr ⟨_, rfl⟩
  · refine .inl ⟨_, rfl, fun groupId memberId => lastHeard_store fun other => ?_⟩
    rw [GroupState.heard_touch, lastHeard_of_group? hgroup]

/-- A group is stored without a member, and dropped if that was its last one. -/
theorem lastHeard_rest {left : GroupState} {target caller : Bytes}
    (h : ∀ other, left.heard other = if caller = other then none else coordinator.lastHeard target other) :
    GroupCoordinator.lastHeard (if left.members.entries = [] then
        { coordinator with groups := coordinator.groups.erase target }
        else coordinator.store target (assignLocked left)) groupId memberId =
      if target = groupId ∧ caller = memberId then none else coordinator.lastHeard groupId memberId := by
  by_cases htarget : groupId = target
  · subst htarget
    have hleft : (if groupId = groupId ∧ caller = memberId then none else coordinator.lastHeard groupId memberId) =
        left.heard memberId := by simp only [h, true_and]
    rw [hleft]
    split_ifs with hempty
    · have hgone : GroupState.heard left memberId = none := GroupState.heard_eq_none (by
        rw [GroupState.memberIds, SortedMap.keys, hempty]
        exact List.not_mem_nil)
      rw [hgone]
      refine lastHeard_of_none ?_
      change SortedMap.find? (SortedMap.erase _ _) _ = none
      rw [SortedMap.find?_erase, if_pos rfl]
    · rw [lastHeard_of_group? (group?_store_self _ _ _), GroupState.heard_assignLocked]
  · have hsame : (if target = groupId ∧ caller = memberId then none else coordinator.lastHeard groupId memberId) =
        coordinator.lastHeard groupId memberId := if_neg fun hand => htarget hand.1.symm
    rw [hsame]
    refine lastHeard_congr ?_
    split_ifs
    · change SortedMap.find? (SortedMap.erase _ _) _ = _
      rw [SortedMap.find?_erase, if_neg htarget]
      rfl
    · exact group?_store_of_ne htarget _ _

/-- Who has left is forgotten, and nobody else. -/
theorem leaveGroup_heard {request : LeaveGroupRequest} (hgrows : coordinator.Growing) :
    (∃ response, (coordinator.leaveGroup request).1 = .ok response ∧ ∀ groupId memberId,
      (coordinator.leaveGroup request).2.lastHeard groupId memberId =
        if response.groupId = groupId ∧ response.memberId = memberId then none
        else coordinator.lastHeard groupId memberId) ∨
    ∃ status, coordinator.leaveGroup request = (.error status, coordinator) := by
  unfold leaveGroup
  split
  · exact .inr ⟨_, rfl⟩
  split
  · exact .inr ⟨_, rfl⟩
  rename_i group hgroup
  split
  · exact .inr ⟨_, rfl⟩
  dsimp only
  rw [if_neg (hgrows.below hgroup).ne]
  obtain ⟨left, hleft⟩ : ∃ left : GroupState, left =
    { group with members := group.members.erase request.memberId, generationId := group.generationId + 1 } := ⟨_, rfl⟩
  have hothers : ∀ other, left.heard other =
      if request.memberId = other then none else coordinator.lastHeard request.groupId other := by
    intro other
    rw [hleft, GroupState.heard, SortedMap.find?_erase, lastHeard_of_group? hgroup]
    by_cases hother : other = request.memberId
    · rw [if_pos hother, if_pos hother.symm]
      rfl
    · rw [if_neg hother, if_neg fun heq => hother heq.symm]
      rfl
  subst hleft
  exact .inl ⟨_, rfl, fun groupId memberId => lastHeard_rest hothers⟩

/-- Who is timed out, is forgotten with its group or without. -/
theorem expireGroup_heard {sessionTimeout now : Int} {group : GroupState} :
    ((expireGroup sessionTimeout now group).bind fun group => group.heard memberId) =
      (group.heard memberId).filter fun heard => decide (now - heard ≤ sessionTimeout) := by
  have hfilter := SortedMap.find?_filter group.members
    (fun _ member => !decide (now - member.lastHeartbeat > sessionTimeout)) memberId
  have hkept : ((group.members.find? memberId).filter fun member : MemberState =>
        !decide (now - member.lastHeartbeat > sessionTimeout)).map MemberState.lastHeartbeat =
      (group.heard memberId).filter fun heard => decide (now - heard ≤ sessionTimeout) := by
    rw [GroupState.heard]
    cases group.members.find? memberId with
    | none => rfl
    | some member =>
        rw [Option.map_some, Option.filter_some, Option.filter_some]
        by_cases hlate : now - member.lastHeartbeat > sessionTimeout
        · simp [hlate, not_le.mpr hlate]
        · simp [hlate, not_lt.mp hlate]
  rw [← hkept, ← hfilter]
  unfold expireGroup
  dsimp only
  split_ifs with hall hempty
  · rw [Option.bind_some, GroupState.heard, hfilter]
    refine congrArg _ ?_
    cases hmember : group.members.find? memberId with
    | none => rfl
    | some member =>
        rw [Option.filter_some, if_pos (List.all_eq_true.mp hall _ (SortedMap.mem_entries.mpr hmember))]
  · rw [Option.bind_none, SortedMap.find?, hempty]
    rfl
  · rw [Option.bind_some, GroupState.heard_assignLocked]
    rfl
  · rw [Option.bind_some, GroupState.heard_assignLocked]
    rfl

/-- A scan forgets who was silent for too long. -/
theorem lastHeard_expire (now : Int) :
    (coordinator.expireTimedOutMembers now).lastHeard groupId memberId =
      (coordinator.lastHeard groupId memberId).filter fun heard => decide (now - heard ≤ coordinator.sessionTimeout) := by
  rw [lastHeard, group?, expireTimedOutMembers, SortedMap.find?_filterMap, Option.bind_assoc]
  simp only [expireGroup_heard]
  rw [lastHeard, group?]
  cases coordinator.groups.find? groupId with
  | none => rfl
  | some group => rfl

/-! ### Steps -/

theorem checkMember_sessionTimeout (coordinator : GroupCoordinator) (request : MemberRequest) (now : Int) :
    (coordinator.checkMember request now).2.sessionTimeout = coordinator.sessionTimeout := by
  unfold checkMember
  split
  · rfl
  split_ifs
  · rfl
  split
  · rfl
  split
  · rfl
  split_ifs <;> rfl

theorem step_sessionTimeout (coordinator : GroupCoordinator) (event : Event) :
    (coordinator.step event).sessionTimeout = coordinator.sessionTimeout := by
  cases event with
  | join request partitionCount now =>
      rw [step]
      unfold joinGroup
      split
      · rfl
      · split
        · rfl
        · split_ifs <;> rfl
  | sync request now =>
      rw [step, syncGroup_state]
      exact checkMember_sessionTimeout coordinator request now
  | heartbeat request now =>
      rw [step, heartbeat_state]
      exact checkMember_sessionTimeout coordinator request now
  | leave request =>
      rw [step]
      unfold leaveGroup
      split
      · rfl
      split
      · rfl
      split
      · rfl
      dsimp only
      split_ifs <;> rfl
  | expire now => rfl

/-- **Detection.** The coordinator notes of every member what a detector notes that sees the answers only. -/
theorem step_lastHeard (hsound : AllSound coordinator) (hgrows : coordinator.Growing) (event : Event) :
    (coordinator.step event).lastHeard groupId memberId =
      observe coordinator.sessionTimeout (coordinator.lastHeard groupId memberId)
        (sees groupId memberId coordinator event) := by
  cases event with
  | join request partitionCount now =>
      rcases @joinGroup_heard coordinator request partitionCount now hsound hgrows with ⟨response, hok, hheard⟩ |
        ⟨status, herror, hheard⟩
      · rw [step, hheard, sees, respond, hok, observation]
        split_ifs <;> rfl
      · rw [step, hheard, sees, respond, herror]
        rfl
  | sync request now =>
      rw [step, syncGroup_state, sees, respond]
      rcases @checkMember_heard coordinator request now with ⟨⟨group, member⟩, hok, hheard⟩ | ⟨status, herror⟩
      · rw [hheard, syncGroup, show coordinator.checkMember request now = (.ok (group, member), _) from Prod.ext hok rfl]
        dsimp only [observation]
        split_ifs <;> rfl
      · rw [syncGroup, herror]
        rfl
  | heartbeat request now =>
      rw [step, heartbeat_state, sees, respond]
      rcases @checkMember_heard coordinator request now with ⟨⟨group, member⟩, hok, hheard⟩ | ⟨status, herror⟩
      · rw [hheard, heartbeat, show coordinator.checkMember request now = (.ok (group, member), _) from Prod.ext hok rfl]
        dsimp only [observation]
        split_ifs <;> rfl
      · rw [heartbeat, herror]
        rfl
  | leave request =>
      rcases @leaveGroup_heard coordinator request hgrows with ⟨response, hok, hheard⟩ | ⟨status, herror⟩
      · rw [step, hheard, sees, respond, hok, observation]
        split_ifs <;> rfl
      · rw [step, sees, respond, herror]
        rfl
  | expire now =>
      rw [step, lastHeard_expire]
      rfl

/-! ### Runs -/

/-- **Membership.** As long as no generation has reached its last number, who is a member can be told from the answers:
somebody whose last request was answered at some time, who has not left since then, and whom no scan has found silent
for longer than the timeout. -/
theorem isMember_iff_answered {sessionTimeout : Int} {events : List Event}
    (hgrows : Along step (fun coordinator _ => coordinator.Growing) ⟨sessionTimeout, SortedMap.empty⟩ events)
    (groupId memberId : Bytes) :
    (reached sessionTimeout events).IsMember groupId memberId ↔ ∃ before event after heard,
      events = before ++ event :: after ∧ sees groupId memberId (reached sessionTimeout before) event = .heard heard ∧
      Along step (fun coordinator event => Spares sessionTimeout heard (sees groupId memberId coordinator event))
        (reached sessionTimeout (before ++ [event])) after := by
  have hfollows : Along step (fun coordinator event => (coordinator.step event).lastHeard groupId memberId =
      observe sessionTimeout (coordinator.lastHeard groupId memberId) (sees groupId memberId coordinator event))
      ⟨sessionTimeout, SortedMap.empty⟩ events := by
    refine @Along.imp _ _ step _ _ (fun coordinator => AllSound coordinator ∧
      coordinator.sessionTimeout = sessionTimeout) ?_ ?_ _ _ ⟨reached_sound sessionTimeout [], rfl⟩ hgrows
    · exact fun coordinator event h => ⟨h.1.step event, (step_sessionTimeout coordinator event).trans h.2⟩
    · intro coordinator event h hgrowing
      rw [step_lastHeard h.1 hgrowing, h.2]
  have hseen := fun heard => @seen_eq_some Int _ _ _ _ step (fun coordinator => coordinator.lastHeard groupId memberId)
    (sees groupId memberId) sessionTimeout _ _ heard rfl hfollows
  rw [isMember_iff]
  constructor
  · rintro ⟨heard, hheard⟩
    obtain ⟨before, event, after, hevents, hsees, hquiet⟩ := (hseen heard).mp hheard
    exact ⟨before, event, after, heard, hevents, hsees, hquiet⟩
  · rintro ⟨before, event, after, heard, hevents, hsees, hquiet⟩
    exact ⟨heard, (hseen heard).mpr ⟨before, event, after, hevents, hsees, hquiet⟩⟩

/-- A heartbeat at 8 keeps the member through the scan at 12, and the scan at 19 would come too late. -/
theorem isMember_iff_answered_beat :
    (reached 10 [firstJoin 3, .heartbeat ⟨text "group", text "member-1", 1⟩ 8, .expire 12]).IsMember (text "group")
        (text "member-1") ∧
      ¬(reached 10 [firstJoin 3, .heartbeat ⟨text "group", text "member-1", 1⟩ 8, .expire 19]).IsMember (text "group")
        (text "member-1") := by
  constructor
  · exact (isMember_iff_answered (by decide +kernel) _ _).mpr ⟨[firstJoin 3], _, [.expire 12], 8, rfl, by decide +kernel,
      by decide +kernel⟩
  · rintro ⟨group, hgroup, -⟩
    have hgone : ((reached 10 [firstJoin 3, .heartbeat ⟨text "group", text "member-1", 1⟩ 8, .expire 19]).group?
        (text "group")).isNone = true := by decide +kernel
    rw [hgroup] at hgone
    cases hgone

end GroupCoordinator

end LogMq
