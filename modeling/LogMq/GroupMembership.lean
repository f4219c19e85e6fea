import LogMq.GroupFailures
import LogMq.GroupGenerations

/-! The members of one group. Only `JoinGroup` and `LeaveGroup` change them, as long as nobody times out. A group whose
generation has reached its last number stays there. -/

namespace LogMq

/-! ### Names of members -/

theorem validateMemberId_memberName (sequence : UInt64) : validateMemberId (memberName sequence) = .ok () := by
  have hname : memberName sequence = text "member-" ++ Text.decimal sequence.toNat := by
    have hdigits : ∀ c ∈ Nat.toDigits 10 sequence.toNat, c.isDigit = true := fun c hc =>
      Nat.isDigit_of_mem_toDigits (by decide) (by decide) hc
    rw [memberName, text_append, Nat.repr_eq_ofList_toDigits, text_ofList hdigits, Text.decimal]
  have hlength : 7 ≤ (memberName sequence).length := by
    rw [hname, List.length_append]
    exact Nat.le_add_right 7 _
  have hsafe : (memberName sequence).all isSafeByte = true := by
    rw [hname, List.all_append, Bool.and_eq_true, List.all_eq_true, List.all_eq_true]
    refine ⟨by decide +kernel, fun b hb => ?_⟩
    have hdigit := Text.isDigit_of_mem_decimal hb
    unfold Text.isDigit at hdigit
    rw [isSafeByte, isAlnum, hdigit]
    rfl
  have hfield : ¬ ("member_id" = "topic" ∧ isInternalTopic (memberName sequence) = true) := fun h => absurd h.1 (by decide)
  unfold validateMemberId validateSafeName
  dsimp only
  rw [if_neg hfield, if_neg, if_neg, if_pos hsafe]
  · rintro (hdot | hdots)
    · rw [hdot] at hlength
      exact absurd hlength (by decide +kernel)
    · rw [hdots] at hlength
      exact absurd hlength (by decide +kernel)
  · intro hnil
    rw [hnil] at hlength
    exact absurd hlength (by decide)

theorem memberName_ne_nil (sequence : UInt64) : memberName sequence ≠ [] := by
  intro hnil
  have hvalid := validateMemberId_memberName sequence
  rw [hnil] at hvalid
  cases hvalid

/-- Names that are not safe are not reported as missing. -/
theorem validateSafeName_code {name : Bytes} {field : String} {status : Status}
    (h : validateSafeName name field = .error status) : status.code = .invalidArgument := by
  unfold validateSafeName at h
  dsimp only at h
  split_ifs at h
  all_goals
    cases h
    rfl

theorem validateNames_code {groupId memberId : Bytes} {status : Status}
    (h : (do validateGroupId groupId; validateMemberId memberId) = .error status) : status.code = .invalidArgument := by
  cases hgroupId : validateGroupId groupId with
  | error reason =>
      rw [hgroupId] at h
      cases h
      exact validateSafeName_code hgroupId
  | ok _ =>
      rw [hgroupId] at h
      exact validateSafeName_code h

/-! ### Members -/

namespace GroupCoordinator

/-- The members that are registered in a group. -/
def memberIds (coordinator : GroupCoordinator) (groupId : Bytes) : List Bytes :=
  ((coordinator.group? groupId).map GroupState.memberIds).getD []

/-- The generation of the group cannot grow any more. -/
def Stuck (coordinator : GroupCoordinator) (groupId : Bytes) : Prop :=
  ∃ group ∈ coordinator.group? groupId, group.generationId = maxInt32

variable {coordinator : GroupCoordinator} {groupId : Bytes}

theorem memberIds_of_group? {group : GroupState} (h : coordinator.group? groupId = some group) :
    coordinator.memberIds groupId = group.memberIds := by
  rw [memberIds, h]
  rfl

theorem memberIds_of_none (h : coordinator.group? groupId = none) : coordinator.memberIds groupId = [] := by
  rw [memberIds, h]
  rfl

theorem exists_of_mem_memberIds {memberId : Bytes} (h : memberId ∈ coordinator.memberIds groupId) :
    ∃ group, coordinator.group? groupId = some group ∧ memberId ∈ group.memberIds := by
  cases hgroup : coordinator.group? groupId with
  | none =>
      rw [memberIds_of_none hgroup] at h
      cases h
  | some group =>
      rw [memberIds_of_group? hgroup] at h
      exact ⟨group, rfl, h⟩

theorem stuck_of_group? {group : GroupState} (h : coordinator.group? groupId = some group) :
    coordinator.Stuck groupId ↔ group.generationId = maxInt32 := by
  constructor
  · rintro ⟨found, hfound, hmax⟩
    cases Option.some.inj (h.symm.trans hfound)
    exact hmax
  · exact fun hmax => ⟨group, h, hmax⟩

theorem not_stuck_of_none (h : coordinator.group? groupId = none) : ¬ coordinator.Stuck groupId := by
  rintro ⟨group, hgroup, -⟩
  rw [h] at hgroup
  cases hgroup

/-- What a request has left of the members and of the generation of a group. -/
structure Stays (groupId : Bytes) (before after : GroupCoordinator) : Prop where
  members : after.memberIds groupId = before.memberIds groupId
  stuck : before.Stuck groupId → after.Stuck groupId

theorem Stays.refl (coordinator : GroupCoordinator) : Stays groupId coordinator coordinator := ⟨rfl, fun h => h⟩

theorem Stays.subset {after : GroupCoordinator} (h : Stays groupId coordinator after) :
    ∀ memberId ∈ after.memberIds groupId, memberId ∈ coordinator.memberIds groupId := by
  intro memberId hmem
  rw [h.members] at hmem
  exact hmem

theorem Stays.of_view {after : GroupCoordinator}
    (h : (after.group? groupId).map GroupState.view = (coordinator.group? groupId).map GroupState.view) :
    Stays groupId coordinator after := by
  cases hbefore : coordinator.group? groupId with
  | none =>
      rw [hbefore] at h
      have hafter := Option.map_eq_none_iff.mp h
      exact ⟨by rw [memberIds_of_none hafter, memberIds_of_none hbefore],
        fun hstuck => absurd hstuck (not_stuck_of_none hbefore)⟩
  | some group =>
      rw [hbefore] at h
      obtain ⟨later, hafter, hview⟩ := Option.map_eq_some_iff.mp h
      refine ⟨by rw [memberIds_of_group? hafter, memberIds_of_group? hbefore, memberIds_of_view hview], ?_⟩
      rw [stuck_of_group? hafter, stuck_of_group? hbefore, show later.generationId = group.generationId from
        congrArg GroupView.generationId hview]
      exact fun hmax => hmax

/-! ### Syncs and heartbeats -/

theorem checkMember_view (request : MemberRequest) (now : Int) :
    ((coordinator.checkMember request now).2.group? groupId).map GroupState.view =
      (coordinator.group? groupId).map GroupState.view := by
  unfold checkMember
  split
  · rfl
  split_ifs
  · rfl
  split
  · rfl
  rename_i group hgroup
  split
  · rfl
  rename_i member hmember
  split_ifs
  · rfl
  by_cases htarget : groupId = request.groupId
  · rw [htarget, group?_store_self, group?, hgroup]
    exact congrArg some (GroupState.view_touch hmember now)
  · rw [group?_store_of_ne htarget]

theorem syncGroup_stays (request : SyncGroupRequest) (now : Int) :
    Stays groupId coordinator (coordinator.syncGroup request now).2 := by
  rw [syncGroup_state]
  exact .of_view (checkMember_view request now)

theorem heartbeat_stays (request : HeartbeatRequest) (now : Int) :
    Stays groupId coordinator (coordinator.heartbeat request now).2 := by
  rw [heartbeat_state]
  exact .of_view (checkMember_view request now)

/-- A registered member of the current generation passes the check. -/
theorem checkMember_of_mem {request : MemberRequest} (now : Int) (hgroupId : validateGroupId request.groupId = .ok ())
    (hmemberId : validateMemberId request.memberId = .ok ()) (hpositive : 0 < request.generationId)
    (hmem : request.memberId ∈ coordinator.memberIds request.groupId)
    (hgeneration : ∀ group ∈ coordinator.group? request.groupId, group.generationId = request.generationId) :
    ∃ found, (coordinator.checkMember request now).1 = .ok found := by
  obtain ⟨group, hgroup, hmember⟩ := exists_of_mem_memberIds hmem
  obtain ⟨member, hfind⟩ := SortedMap.mem_keys.mp hmember
  have hvalid : (do validateGroupId request.groupId; validateMemberId request.memberId) = .ok () := by
    rw [hgroupId, hmemberId]
    rfl
  have hcurrent := hgeneration group hgroup
  refine ⟨(group, member), ?_⟩
  rw [group?] at hgroup
  unfold checkMember
  rw [hvalid]
  dsimp only
  rw [if_neg (not_le.mpr hpositive), hgroup]
  dsimp only
  rw [hfind]
  dsimp only
  rw [if_neg (not_not.mpr hcurrent.symm)]

theorem syncGroup_of_mem {request : SyncGroupRequest} (now : Int) (hgroupId : validateGroupId request.groupId = .ok ())
    (hmemberId : validateMemberId request.memberId = .ok ()) (hpositive : 0 < request.generationId)
    (hmem : request.memberId ∈ coordinator.memberIds request.groupId)
    (hgeneration : ∀ group ∈ coordinator.group? request.groupId, group.generationId = request.generationId) :
    ∃ response, (coordinator.syncGroup request now).1 = .ok response := by
  obtain ⟨⟨group, member⟩, hcheck⟩ := checkMember_of_mem now hgroupId hmemberId hpositive hmem hgeneration
  unfold syncGroup
  split
  · rename_i hresult
    rw [hresult] at hcheck
    cases hcheck
  · exact ⟨_, rfl⟩

/-- Who is refused as not found is not registered. -/
theorem checkMember_notFound {request : MemberRequest} {now : Int} {status : Status}
    (h : (coordinator.checkMember request now).1 = .error status) (hcode : status.code = .notFound) :
    request.memberId ∉ coordinator.memberIds request.groupId := by
  unfold checkMember at h
  split at h
  · rename_i reason hvalid
    cases h
    rw [validateNames_code hvalid] at hcode
    cases hcode
  split at h
  · cases h
    cases hcode
  split at h
  · rename_i hnone
    rw [memberIds_of_none hnone]
    exact List.not_mem_nil
  · rename_i group hgroup
    rw [memberIds_of_group? hgroup]
    split at h
    · rename_i hnone
      intro hmem
      obtain ⟨member, hfind⟩ := SortedMap.mem_keys.mp hmem
      rw [hnone] at hfind
      cases hfind
    · split at h
      · cases h
        cases hcode
      · cases h

theorem heartbeat_notFound {request : HeartbeatRequest} {now : Int} {status : Status}
    (h : (coordinator.heartbeat request now).1 = .error status) (hcode : status.code = .notFound) :
    request.memberId ∉ coordinator.memberIds request.groupId := by
  unfold heartbeat at h
  split at h
  · rename_i reason _ hresult
    cases h
    exact checkMember_notFound (congrArg Prod.fst hresult) hcode
  · cases h

/-! ### Joins -/

theorem validateGroupId_of_join {request : JoinGroupRequest} {partitionCount : UInt32} {now : Int}
    {response : JoinGroupResponse} (h : (coordinator.joinGroup request partitionCount now).1 = .ok response) :
    validateGroupId request.groupId = .ok () := by
  unfold joinGroup at h
  cases hvalid : validateJoin request partitionCount with
  | error status =>
      rw [hvalid] at h
      cases h
  | ok _ =>
      unfold validateJoin at hvalid
      obtain ⟨⟨⟩, hgroupId, -⟩ := Result.bind_eq_ok.mp hvalid
      exact hgroupId

/-- **A first join** adds a member that is not registered. -/
theorem joinGroup_new {request : JoinGroupRequest} {partitionCount : UInt32} {now : Int} {response : JoinGroupResponse}
    (hsound : ∀ group ∈ coordinator.group? request.groupId, SoundBelow group)
    (hbelow : ∀ group ∈ coordinator.group? request.groupId, group.generationId < maxInt32) (hid : request.memberId = [])
    (h : (coordinator.joinGroup request partitionCount now).1 = .ok response) :
    response.memberId ∉ coordinator.memberIds request.groupId ∧
      (∀ memberId, memberId ∈ (coordinator.joinGroup request partitionCount now).2.memberIds request.groupId ↔
        memberId = response.memberId ∨ memberId ∈ coordinator.memberIds request.groupId) ∧
      validateMemberId response.memberId = .ok () ∧ response.memberId ≠ [] ∧ 0 < response.generationId := by
  obtain ⟨group, rfl, -, -, hmemberId, hgeneration, hafter⟩ := joinGroup_fresh hid h
  obtain ⟨hzero, hsound⟩ := SoundBelow.getD hsound request.groupId request.topic partitionCount
  have hnamed := (hsound (below_getD hbelow _ _ _)).named
  have hmembers : coordinator.memberIds request.groupId =
      ((coordinator.group? request.groupId).getD (.create request.groupId request.topic partitionCount)).memberIds := by
    cases hgroup : coordinator.group? request.groupId with
    | none => exact memberIds_of_none hgroup
    | some group => exact memberIds_of_group? hgroup
  rw [hmembers, memberIds_of_group? hafter, hmemberId, hgeneration]
  refine ⟨fun hmem => ?_, fun memberId => ?_, validateMemberId_memberName _, memberName_ne_nil _,
    Int.lt_add_one_of_le hzero⟩
  · obtain ⟨sequence, hlt, hname⟩ := hnamed _ hmem
    rw [memberName_injective hname] at hlt
    exact absurd hlt (UInt64.lt_irrefl _)
  · rw [GroupState.grown, memberIds_assignLocked]
    exact mem_memberIds_addMember

theorem joinGroup_new_error {request : JoinGroupRequest} {partitionCount : UInt32} {now : Int} {status : Status}
    (hbelow : ∀ group ∈ coordinator.group? request.groupId, group.generationId < maxInt32) (hid : request.memberId = [])
    (h : (coordinator.joinGroup request partitionCount now).1 = .error status) :
    (coordinator.joinGroup request partitionCount now).2 = coordinator := by
  refine (joinGroup_error h).resolve_left fun hlate => ?_
  cases hlate with
  | creates hvalid hgroup hmember => exact hmember hid
  | @adds _ _ _ group hvalid hgroup htopic hcount hmember hmax => exact (hbelow group hgroup).ne hmax

/-- A member that joins again. -/
theorem joinMember_known {request : JoinGroupRequest} (hid : request.memberId ≠ []) (group : GroupState) (now : Int) :
    (joinMember group request now).2.memberIds = group.memberIds ∧
      (group.generationId = maxInt32 → (joinMember group request now).2.generationId = maxInt32) ∧
      ∀ response, (joinMember group request now).1 = .ok response →
        response.memberId = request.memberId ∧ request.memberId ∈ group.memberIds := by
  unfold joinMember
  rw [if_neg hid]
  cases hmember : group.members.find? request.memberId with
  | none => exact ⟨rfl, fun hmax => hmax, fun response h => (by cases h)⟩
  | some member =>
      dsimp only
      have htouched := memberIds_of_view (GroupState.view_touch hmember now)
      rw [finishJoin_state]
      refine ⟨?_, fun hmax => ?_, fun response hok => ⟨?_, SortedMap.mem_keys.mpr ⟨member, hmember⟩⟩⟩
      · by_cases hgrows : (false = true ∨ (group.touch request.memberId member now).generationId = 0) ∧
            (group.touch request.memberId member now).generationId ≠ maxInt32
        · rw [if_pos hgrows, memberIds_assignLocked]
          exact htouched
        · rw [if_neg hgrows]
          exact htouched
      · rw [if_neg fun h => h.2 hmax]
        exact hmax
      · unfold finishJoin at hok
        split at hok
        · split at hok
          · cases hok
          · cases hok
            rfl
        · cases hok
          rfl

/-- **A rejoin** changes no members. -/
theorem joinGroup_known {request : JoinGroupRequest} {partitionCount : UInt32} {now : Int} (hid : request.memberId ≠ []) :
    Stays request.groupId coordinator (coordinator.joinGroup request partitionCount now).2 ∧
      ∀ response, (coordinator.joinGroup request partitionCount now).1 = .ok response →
        response.memberId = request.memberId ∧ request.memberId ∈ coordinator.memberIds request.groupId := by
  unfold joinGroup
  split
  · exact ⟨.refl _, fun response h => (by cases h)⟩
  split
  · rename_i hnone
    obtain ⟨hmembers, -, hjoined⟩ :=
      joinMember_known hid (.create request.groupId request.topic partitionCount) now
    refine ⟨⟨?_, fun hstuck => absurd hstuck (not_stuck_of_none hnone)⟩, fun response h => ?_⟩
    · rw [memberIds_of_group? (group?_store_self _ _ _), hmembers, memberIds_of_none hnone]
      rfl
    · exact absurd (hjoined response h).2 List.not_mem_nil
  · rename_i group hsome
    split_ifs
    · exact ⟨.refl _, fun response h => (by cases h)⟩
    · exact ⟨.refl _, fun response h => (by cases h)⟩
    · obtain ⟨hmembers, hstuck, hjoined⟩ := joinMember_known hid group now
      dsimp only
      rw [memberIds_of_group? hsome]
      refine ⟨⟨?_, ?_⟩, hjoined⟩
      · rw [memberIds_of_group? (group?_store_self _ _ _), hmembers, memberIds_of_group? hsome]
      · rw [stuck_of_group? hsome, stuck_of_group? (group?_store_self _ _ _)]
        exact hstuck

/-! ### Leaving -/

/-- What a request to leave has left: at most the member is gone. -/
structure Leaves (groupId memberId : Bytes) (before after : GroupCoordinator) : Prop where
  subset : ∀ other ∈ after.memberIds groupId, other ∈ before.memberIds groupId
  others : ∀ other ∈ before.memberIds groupId, other ≠ memberId → other ∈ after.memberIds groupId
  stuck : before.Stuck groupId → after.Stuck groupId

theorem Leaves.refl (memberId : Bytes) : Leaves groupId memberId coordinator coordinator :=
  ⟨fun _ h => h, fun _ h _ => h, fun h => h⟩

theorem mem_memberIds_erase {group : GroupState} {memberId other : Bytes} {generationId : Int} :
    other ∈ ({ group with members := group.members.erase memberId, generationId := generationId } : GroupState).memberIds ↔
      other ≠ memberId ∧ other ∈ group.memberIds := by
  change other ∈ (group.members.erase memberId).keys ↔ other ≠ memberId ∧ other ∈ group.members.keys
  rw [SortedMap.mem_keys, SortedMap.mem_keys, SortedMap.find?_erase]
  by_cases h : other = memberId
  · simp [h]
  · simp [h]

/-- The three ends of `LeaveGroup`. -/
theorem leaveGroup_cases (request : LeaveGroupRequest) :
    (∃ status, (coordinator.leaveGroup request).1 = .error status ∧ (coordinator.leaveGroup request).2 = coordinator ∧
      (status.code = .notFound → request.memberId ∉ coordinator.memberIds request.groupId)) ∨
    (∃ group, coordinator.group? request.groupId = some group ∧ group.generationId = maxInt32 ∧
      (coordinator.leaveGroup request).1 = .error generationOverflow ∧
      (coordinator.leaveGroup request).2.group? request.groupId =
        some { group with members := group.members.erase request.memberId }) ∨
    (∃ group response, coordinator.group? request.groupId = some group ∧ group.generationId ≠ maxInt32 ∧
      (coordinator.leaveGroup request).1 = .ok response ∧
      ∀ other, other ∈ (coordinator.leaveGroup request).2.memberIds request.groupId ↔
        other ≠ request.memberId ∧ other ∈ group.memberIds) := by
  unfold leaveGroup
  cases hvalid : (do validateGroupId request.groupId; validateMemberId request.memberId) with
  | error status =>
      refine Or.inl ⟨status, rfl, rfl, fun hnotFound => ?_⟩
      rw [validateNames_code hvalid] at hnotFound
      cases hnotFound
  | ok _ =>
      dsimp only
      cases hgroup : coordinator.groups.find? request.groupId with
      | none =>
          refine Or.inl ⟨unknownMember, rfl, rfl, fun _ hmem => ?_⟩
          rw [memberIds_of_none hgroup] at hmem
          cases hmem
      | some group =>
          dsimp only
          cases hmember : group.members.find? request.memberId with
          | none =>
              refine Or.inl ⟨unknownMember, rfl, rfl, fun _ hmem => ?_⟩
              rw [memberIds_of_group? hgroup] at hmem
              obtain ⟨member, hfind⟩ := SortedMap.mem_keys.mp hmem
              rw [hmember] at hfind
              cases hfind
          | some member =>
              dsimp only
              right
              by_cases hmax : group.generationId = maxInt32
              · rw [if_pos hmax]
                exact Or.inl ⟨group, hgroup, hmax, rfl, group?_store_self _ _ _⟩
              · rw [if_neg hmax]
                refine Or.inr ⟨group, _, hgroup, hmax, rfl, fun other => ?_⟩
                have herased := @mem_memberIds_erase group request.memberId other (group.generationId + 1)
                rw [← herased]
                dsimp only
                split_ifs with hempty
                · have hnone : ({ coordinator with groups := coordinator.groups.erase request.groupId } :
                      GroupCoordinator).group? request.groupId = none := by
                    change SortedMap.find? (SortedMap.erase _ _) _ = none
                    rw [SortedMap.find?_erase, if_pos rfl]
                  have hkeys : (group.members.erase request.memberId).keys = [] := congrArg (List.map Prod.fst) hempty
                  rw [memberIds_of_none hnone]
                  change _ ↔ other ∈ (group.members.erase request.memberId).keys
                  rw [hkeys]
                · rw [memberIds_of_group? (group?_store_self _ _ _), memberIds_assignLocked]

theorem leaveGroup_leaves (request : LeaveGroupRequest) :
    Leaves request.groupId request.memberId coordinator (coordinator.leaveGroup request).2 := by
  rcases @leaveGroup_cases coordinator request with ⟨status, -, hsame, -⟩ | ⟨group, hgroup, hmax, -, hafter⟩ |
    ⟨group, response, hgroup, hmax, -, hmembers⟩
  · rw [hsame]
    exact .refl _
  · have hmem : ∀ other, other ∈ (coordinator.leaveGroup request).2.memberIds request.groupId ↔
        other ≠ request.memberId ∧ other ∈ group.memberIds := by
      intro other
      rw [memberIds_of_group? hafter]
      exact mem_memberIds_erase
    refine ⟨fun other hother => ?_, fun other hother hne => (hmem other).mpr ⟨hne, ?_⟩, fun _ => ?_⟩
    · rw [memberIds_of_group? hgroup]
      exact ((hmem other).mp hother).2
    · rw [← memberIds_of_group? hgroup]
      exact hother
    · exact (stuck_of_group? hafter).mpr hmax
  · refine ⟨fun other hother => ?_, fun other hother hne => (hmembers other).mpr ⟨hne, ?_⟩, fun hstuck => ?_⟩
    · rw [memberIds_of_group? hgroup]
      exact ((hmembers other).mp hother).2
    · rw [← memberIds_of_group? hgroup]
      exact hother
    · exact absurd ((stuck_of_group? hgroup).mp hstuck) hmax

/-- A member that has left is gone. -/
theorem leaveGroup_ok {request : LeaveGroupRequest} {response : LeaveGroupResponse}
    (h : (coordinator.leaveGroup request).1 = .ok response) :
    request.memberId ∉ (coordinator.leaveGroup request).2.memberIds request.groupId := by
  rcases @leaveGroup_cases coordinator request with ⟨status, herror, -⟩ | ⟨group, -, -, herror, -⟩ |
    ⟨group, found, -, -, -, hmembers⟩
  · rw [herror] at h
    cases h
  · rw [herror] at h
    cases h
  · exact fun hmem => ((hmembers _).mp hmem).1 rfl

/-- Who is refused as not found was not registered. -/
theorem leaveGroup_notFound {request : LeaveGroupRequest} {status : Status}
    (h : (coordinator.leaveGroup request).1 = .error status) (hcode : status.code = .notFound) :
    request.memberId ∉ (coordinator.leaveGroup request).2.memberIds request.groupId := by
  rcases @leaveGroup_cases coordinator request with ⟨reason, herror, hsame, habsent⟩ | ⟨group, -, -, herror, -⟩ |
    ⟨group, found, -, -, hok, -⟩
  · cases herror.symm.trans h
    rw [hsame]
    exact habsent hcode
  · cases herror.symm.trans h
    cases hcode
  · cases hok.symm.trans h

/-- A request to leave that is refused changes nothing, or the group cannot go on. -/
theorem leaveGroup_refused {request : LeaveGroupRequest} {status : Status}
    (h : (coordinator.leaveGroup request).1 = .error status) :
    (coordinator.leaveGroup request).2 = coordinator ∨ (coordinator.leaveGroup request).2.Stuck request.groupId := by
  rcases @leaveGroup_cases coordinator request with ⟨reason, -, hsame, -⟩ | ⟨group, -, hmax, -, hafter⟩ |
    ⟨group, found, -, -, hok, -⟩
  · exact Or.inl hsame
  · exact Or.inr ((stuck_of_group? hafter).mpr hmax)
  · cases hok.symm.trans h

end GroupCoordinator

end LogMq
