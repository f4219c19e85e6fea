import LogMq.GroupInvariant

/-! What a failed request leaves behind in the coordinator. `JoinGroup` creates the group and adds the member,
and `LeaveGroup` removes the member, before the last check that can still refuse the request. -/

namespace LogMq

/-- A request that was answered with an error. -/
def Response.Failed : Response → Prop
  | .joined result => ∃ status, result = .error status
  | .synced result => ∃ status, result = .error status
  | .heard result => ∃ status, result = .error status
  | .left result => ∃ status, result = .error status
  | .expired => False

namespace GroupCoordinator

/-- The answers to a sequence of events. -/
def responses (coordinator : GroupCoordinator) : List Event → List Response
  | [] => []
  | event :: rest => coordinator.respond event :: (coordinator.step event).responses rest

/-- An event that changes nothing but the time of a heartbeat, and that no later answer depends on. -/
structure Traceless (coordinator : GroupCoordinator) (event : Event) : Prop where
  views : ∀ groupId, ((coordinator.step event).group? groupId).map GroupState.view =
    (coordinator.group? groupId).map GroupState.view
  later : ∀ events, (coordinator.step event).responses events = coordinator.responses events

/-- A `JoinGroup` or `LeaveGroup` that is refused after it has changed its group: one with a member id for a
group that is not known, or one that would take the generation beyond its last number. -/
inductive RefusedLate (coordinator : GroupCoordinator) : Event → Prop where
  | creates {request : JoinGroupRequest} {partitionCount : UInt32} {now : Int}
      (hvalid : validateJoin request partitionCount = .ok ()) (hgroup : coordinator.group? request.groupId = none)
      (hmember : request.memberId ≠ []) : RefusedLate coordinator (.join request partitionCount now)
  | adds {request : JoinGroupRequest} {partitionCount : UInt32} {now : Int} {group : GroupState}
      (hvalid : validateJoin request partitionCount = .ok ())
      (hgroup : coordinator.group? request.groupId = some group) (htopic : group.topic = request.topic)
      (hcount : group.partitionCount = partitionCount) (hmember : request.memberId = [])
      (hmax : group.generationId = maxInt32) : RefusedLate coordinator (.join request partitionCount now)
  | removes {request : LeaveGroupRequest} {group : GroupState} {member : MemberState}
      (hvalid : (do validateGroupId request.groupId; validateMemberId request.memberId) = .ok ())
      (hgroup : coordinator.group? request.groupId = some group)
      (hmember : group.members.find? request.memberId = some member) (hmax : group.generationId = maxInt32) :
      RefusedLate coordinator (.leave request)

variable {coordinator : GroupCoordinator}

/-! ### Requests that leave nothing -/

/-- A group that is written back as it was. -/
theorem store_self {groupId : Bytes} {group : GroupState} (h : coordinator.group? groupId = some group) :
    coordinator.store groupId group = coordinator := by
  have hgroups : coordinator.groups.insert groupId group = coordinator.groups := by
    apply SortedMap.ext_find?
    intro key
    rw [SortedMap.find?_insert]
    by_cases hkey : key = groupId
    · rw [if_pos hkey, hkey]
      exact h.symm
    · rw [if_neg hkey]
  rw [store, hgroups]

theorem Traceless.of_step {event : Event} (h : coordinator.step event = coordinator) :
    Traceless coordinator event := by
  constructor
  · intro groupId
    rw [h]
  · intro events
    rw [h]

/-- The end of `JoinGroup` fails only at the last generation. -/
theorem finishJoin_error {group : GroupState} {membershipChanged : Bool} {groupId memberId : Bytes}
    {status : Status} (h : (finishJoin group membershipChanged groupId memberId).1 = .error status) :
    group.generationId = maxInt32 ∧ membershipChanged = true := by
  unfold finishJoin at h
  by_cases hchanged : membershipChanged = true ∨ group.generationId = 0
  · rw [if_pos hchanged] at h
    by_cases hmax : group.generationId = maxInt32
    · refine ⟨hmax, hchanged.resolve_right fun hzero => ?_⟩
      rw [hzero] at hmax
      exact absurd hmax (by decide)
    · rw [if_neg hmax] at h
      cases h
  · rw [if_neg hchanged] at h
    cases h

/-- A member that joins again is known, or the group stays as it is. -/
theorem joinMember_error {group : GroupState} {request : JoinGroupRequest} {now : Int} {status : Status}
    (h : (joinMember group request now).1 = .error status) :
    request.memberId = [] ∧ group.generationId = maxInt32 ∨
      request.memberId ≠ [] ∧ (joinMember group request now).2 = group := by
  unfold joinMember at h ⊢
  by_cases hid : request.memberId = []
  · rw [if_pos hid] at h
    exact Or.inl ⟨hid, (finishJoin_error h).1⟩
  · rw [if_neg hid] at h ⊢
    refine Or.inr ⟨hid, ?_⟩
    cases hmember : group.members.find? request.memberId with
    | none => rfl
    | some member =>
        rw [hmember] at h
        exact absurd (finishJoin_error h).2 Bool.false_ne_true

theorem joinGroup_error {request : JoinGroupRequest} {partitionCount : UInt32} {now : Int} {status : Status}
    (h : (coordinator.joinGroup request partitionCount now).1 = .error status) :
    RefusedLate coordinator (.join request partitionCount now) ∨
      (coordinator.joinGroup request partitionCount now).2 = coordinator := by
  unfold joinGroup at h ⊢
  cases hvalid : validateJoin request partitionCount with
  | error reason => exact Or.inr rfl
  | ok _ =>
      rw [hvalid] at h
      cases hgroup : coordinator.groups.find? request.groupId with
      | none =>
          rw [hgroup] at h
          rcases joinMember_error h with ⟨-, hmax⟩ | ⟨hmember, -⟩
          · exact absurd (show (0 : Int) = maxInt32 from hmax) (by decide)
          · exact Or.inl (.creates hvalid hgroup hmember)
      | some group =>
          rw [hgroup] at h
          dsimp only at h ⊢
          by_cases htopic : group.topic = request.topic
          · by_cases hcount : group.partitionCount = partitionCount
            · rw [if_neg (not_not.mpr htopic), if_neg (not_not.mpr hcount)] at h ⊢
              rcases joinMember_error h with ⟨hmember, hmax⟩ | ⟨-, hstate⟩
              · exact Or.inl (.adds hvalid hgroup htopic hcount hmember hmax)
              · right
                rw [hstate]
                exact store_self hgroup
            · rw [if_neg (not_not.mpr htopic), if_pos hcount]
              exact Or.inr rfl
          · rw [if_pos htopic]
            exact Or.inr rfl

theorem checkMember_error {request : MemberRequest} {now : Int} {status : Status}
    (h : (coordinator.checkMember request now).1 = .error status) :
    (coordinator.checkMember request now).2 = coordinator := by
  obtain ⟨⟨result, later⟩, hcheck⟩ : ∃ outcome, coordinator.checkMember request now = outcome := ⟨_, rfl⟩
  rw [hcheck] at h ⊢
  unfold checkMember at hcheck
  split at hcheck
  · cases hcheck
    rfl
  split at hcheck
  · cases hcheck
    rfl
  split at hcheck
  · cases hcheck
    rfl
  split at hcheck
  · cases hcheck
    rfl
  split at hcheck
  · cases hcheck
    rfl
  · cases hcheck
    cases h

theorem leaveGroup_error {request : LeaveGroupRequest} {status : Status}
    (h : (coordinator.leaveGroup request).1 = .error status) :
    RefusedLate coordinator (.leave request) ∨ (coordinator.leaveGroup request).2 = coordinator := by
  unfold leaveGroup at h ⊢
  cases hvalid : (do validateGroupId request.groupId; validateMemberId request.memberId) with
  | error reason => exact Or.inr rfl
  | ok _ =>
      rw [hvalid] at h
      cases hgroup : coordinator.groups.find? request.groupId with
      | none => exact Or.inr rfl
      | some group =>
          rw [hgroup] at h
          dsimp only at h ⊢
          cases hmember : group.members.find? request.memberId with
          | none => exact Or.inr rfl
          | some member =>
              rw [hmember] at h
              dsimp only at h
              by_cases hmax : group.generationId = maxInt32
              · exact Or.inl (.removes hvalid hgroup hmember hmax)
              · rw [if_neg hmax] at h
                cases h

theorem syncGroup_error {request : SyncGroupRequest} {now : Int} {status : Status}
    (h : (coordinator.syncGroup request now).1 = .error status) :
    ∃ reason, (coordinator.checkMember request now).1 = .error reason := by
  unfold syncGroup at h
  split at h
  · rename_i reason _ hresult
    exact ⟨reason, congrArg Prod.fst hresult⟩
  · cases h

theorem heartbeat_error {request : HeartbeatRequest} {now : Int} {status : Status}
    (h : (coordinator.heartbeat request now).1 = .error status) :
    ∃ reason, (coordinator.checkMember request now).1 = .error reason := by
  unfold heartbeat at h
  split at h
  · rename_i reason _ hresult
    exact ⟨reason, congrArg Prod.fst hresult⟩
  · cases h

/-- A failed request was refused late, or the coordinator is as it was, heartbeats included. -/
theorem step_of_failed {event : Event} (h : (coordinator.respond event).Failed) :
    RefusedLate coordinator event ∨ coordinator.step event = coordinator := by
  cases event with
  | join request partitionCount now =>
      obtain ⟨status, hstatus⟩ := h
      exact joinGroup_error hstatus
  | sync request now =>
      obtain ⟨status, hstatus⟩ := h
      obtain ⟨reason, hreason⟩ := syncGroup_error hstatus
      rw [step, syncGroup_state]
      exact Or.inr (checkMember_error hreason)
  | heartbeat request now =>
      obtain ⟨status, hstatus⟩ := h
      obtain ⟨reason, hreason⟩ := heartbeat_error hstatus
      rw [step, heartbeat_state]
      exact Or.inr (checkMember_error hreason)
  | leave request =>
      obtain ⟨status, hstatus⟩ := h
      exact leaveGroup_error hstatus
  | expire now => exact h.elim

/-! ### Requests that are refused late -/

/-- The view of the group a late refusal was about is another one. -/
theorem RefusedLate.view_ne {event : Event} (h : RefusedLate coordinator event) :
    ∃ groupId, ((coordinator.step event).group? groupId).map GroupState.view ≠
      (coordinator.group? groupId).map GroupState.view := by
  cases h with
  | @creates request partitionCount now hvalid hgroup hmember =>
      refine ⟨request.groupId, ?_⟩
      rw [hgroup, step, joinGroup, hvalid]
      rw [group?] at hgroup
      rw [hgroup]
      dsimp only
      rw [group?_store_self]
      exact Option.some_ne_none _
  | @adds request partitionCount now group hvalid hgroup htopic hcount hmember hmax =>
      refine ⟨request.groupId, ?_⟩
      have hfound := hgroup
      rw [group?] at hfound
      rw [hgroup, step, joinGroup, hvalid, hfound]
      dsimp only
      rw [if_neg (not_not.mpr htopic), if_neg (not_not.mpr hcount), group?_store_self, joinMember, if_pos hmember,
        finishJoin_state, if_neg fun hand => hand.2 hmax]
      intro hview
      have hsequence : group.nextMemberSequence + 1 = group.nextMemberSequence :=
        congrArg GroupView.nextMemberSequence (Option.some.inj hview)
      exact absurd hsequence (by simp)
  | @removes request group member hvalid hgroup hmember hmax =>
      refine ⟨request.groupId, ?_⟩
      have hfound := hgroup
      rw [group?] at hfound
      rw [hgroup, step, leaveGroup, hvalid, hfound]
      dsimp only
      rw [hmember]
      dsimp only
      rw [if_pos hmax, group?_store_self]
      intro hview
      have hids := memberIds_of_view (Option.some.inj hview)
      have hmem : request.memberId ∈ group.memberIds := SortedMap.mem_keys.mpr ⟨member, hmember⟩
      rw [← hids] at hmem
      obtain ⟨value, hvalue⟩ := SortedMap.mem_keys.mp hmem
      rw [SortedMap.find?_erase, if_pos rfl] at hvalue
      cases hvalue

/-- **Failed requests.** A request that fails leaves no trace if and only if it was not refused late. -/
theorem traceless_iff {event : Event} (hfailed : (coordinator.respond event).Failed) :
    Traceless coordinator event ↔ ¬RefusedLate coordinator event := by
  constructor
  · intro htraceless hlate
    obtain ⟨groupId, hne⟩ := hlate.view_ne
    exact hne (htraceless.views groupId)
  · intro hlate
    exact .of_step ((step_of_failed hfailed).resolve_left hlate)

/-- A member that rejoins after it was forgotten, of a group that is not known. -/
def forgottenJoin : Event := .join ⟨text "group", text "member-1", text "topic"⟩ 4 0

theorem forgottenJoin_failed : ((reached 10 []).respond forgottenJoin).Failed := ⟨unknownMember, rfl⟩

/-- A heartbeat of a member that nobody knows. -/
def strayHeartbeat : Event := .heartbeat ⟨text "group", text "member-2", 1⟩ 5

theorem traceless_iff_stray :
    Traceless (reached 10 [firstJoin 1]) strayHeartbeat ↔
      ¬RefusedLate (reached 10 [firstJoin 1]) strayHeartbeat := by
  have hfailed : ((reached 10 [firstJoin 1]).respond strayHeartbeat).Failed := ⟨unknownMember, rfl⟩
  exact traceless_iff hfailed

/-- The group of a member that was refused stays. -/
theorem forgottenJoin_traces :
    ¬∀ (sessionTimeout : Int) (events : List Event) (event : Event),
      ((reached sessionTimeout events).respond event).Failed → Traceless (reached sessionTimeout events) event := by
  intro h
  have hviews := (h 10 [] forgottenJoin forgottenJoin_failed).views (text "group")
  exact absurd hviews (Option.some_ne_none _)

end GroupCoordinator

end LogMq
