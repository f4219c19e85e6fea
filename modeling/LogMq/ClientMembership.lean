import LogMq.ClientAnswers
import LogMq.ClientSchedule
import LogMq.GroupMembership
import LogMq.LibHistory

/-! Consumers of one group whose requests are all answered, and the members that are registered for them. `JoinAndSync`
sends one request to become a member and another one for the assignment, and keeps the member id only at its end.
Schedules of answered moves are runs of these consumers. -/

namespace LogMq

open Interaction

/-! ### Answers -/

namespace BrokerService

/-- The response can be encoded. -/
def Encodes (queue : TaskQueue) (environment : Environment) (broker : BrokerService) (envelope : RequestEnvelope) : Prop :=
  ∃ frame, encodeResponse (broker.handle queue environment envelope).1 = .ok frame

/-- The response that is sent. One that cannot be encoded is replaced. -/
def answer (queue : TaskQueue) (environment : Environment) (broker : BrokerService) (envelope : RequestEnvelope) :
    ResponseEnvelope :=
  match encodeResponse (broker.handle queue environment envelope).1 with
  | .ok _ => (broker.handle queue environment envelope).1
  | .error status => makeError envelope .internal status.message

theorem Encodes.answer_eq {queue : TaskQueue} {environment : Environment} {broker : BrokerService}
    {envelope : RequestEnvelope} (h : broker.Encodes queue environment envelope) :
    broker.answer queue environment envelope = (broker.handle queue environment envelope).1 := by
  obtain ⟨frame, hframe⟩ := h
  rw [answer, hframe]

instance (queue : TaskQueue) (environment : Environment) (broker : BrokerService) (envelope : RequestEnvelope) :
    Decidable (broker.Encodes queue environment envelope) :=
  match h : encodeResponse (broker.handle queue environment envelope).1 with
  | .ok frame => .isTrue ⟨frame, h⟩
  | .error _ => .isFalse fun ⟨_, hframe⟩ => (by rw [h] at hframe; cases hframe)

/-- A committed offset can be fetched; a retry topic that is not there has none. -/
def Fetchable (broker : BrokerService) (request : FetchCommittedOffsetRequest) : Prop :=
  match broker.handleFetchCommittedOffset request with
  | .ok _ => True
  | .error (code, _) => isRetryTopic request.topic = true ∧ code = .topicNotFound

instance (broker : BrokerService) (request : FetchCommittedOffsetRequest) : Decidable (broker.Fetchable request) :=
  match h : broker.handleFetchCommittedOffset request with
  | .ok _ => .isTrue (by rw [Fetchable, h]; trivial)
  | .error (code, _) =>
      decidable_of_iff (isRetryTopic request.topic = true ∧ code = .topicNotFound) (by rw [Fetchable, h])

end BrokerService

/-! ### Consumers -/

/-- What has to hold of a thread that sends a request, of the state before it, and of what the request meets. -/
abbrev RequestCondition := ConsumerThread → World → Environment → RequestEnvelope → Prop

/-- The effect of an action, where all requests are answered. -/
def answeredEffect (queue : TaskQueue) (rules : Rules) (condition : RequestCondition) (thread : ConsumerThread) :
    (action : ConsumerAction) → World → action.Reply → World → Prop
  | .request version body, before, reply, after =>
      ∃ requestId environment, rules.environment environment ∧ body.Typed ∧
        condition thread before environment ⟨body.apiKey, version, requestId, body⟩ ∧
        reply = .ok (before.system.broker.answer queue environment ⟨body.apiKey, version, requestId, body⟩) ∧
        after = before.setSystem
          ⟨(before.system.broker.handle queue environment ⟨body.apiKey, version, requestId, body⟩).2,
            before.system.intact && environment.faultless⟩
  | .locked update, before, reply, after => consumerEffect queue rules thread (.locked update) before reply after
  | .joinHeartbeat, before, reply, after => consumerEffect queue rules thread .joinHeartbeat before reply after

/-- The consumers of a group, which only they are in, and of which nobody times out. No request is delayed. -/
def memberMachine (queue : TaskQueue) (rules : Rules) (groupId : Bytes) (condition : RequestCondition) :
    Machine ConsumerThread World ConsumerAction ConsumerAction.Reply Status ConsumerThread.Output :=
  { consumerMachine queue rules (fun _ _ => False) fun _ _ => True with
    effect := answeredEffect queue rules condition
    outside := fun before after => ∃ system : System,
      system.broker.groups.group? groupId = before.system.broker.groups.group? groupId ∧
        after = before.setSystem system }

/-- Whether a thread is inside `JoinAndSync` behind an action: it is from its `JoinGroup` on, up to its next block. -/
def ConsumerAction.joining : ConsumerAction → Bool → Bool
  | .request _ (.joinGroup _), _ => true
  | .request _ _, joining => joining
  | .locked _, _ => false
  | .joinHeartbeat, joining => joining

/-- Which applications are inside `JoinAndSync`. One that fails is so up to the end of the call. -/
def joiningHistory : History ConsumerThread World ConsumerAction ConsumerAction.Reply (Nat → Bool) where
  acted
    | .application id, action, _, _, _, joining => Function.update joining id (action.joining (joining id))
    | .heartbeat _, _, _, _, _, joining => joining
  finished
    | .application id, joining => Function.update joining id false
    | .heartbeat _, joining => joining

/-- Consumers with what their threads have left to do, and with the applications that are inside `JoinAndSync`. -/
abbrev JoiningPool :=
  Pool ConsumerThread (World × (Nat → Bool)) ConsumerAction ConsumerAction.Reply Status ConsumerThread.Output

/-- No application is inside `JoinAndSync`, unless it has nothing left to do but to return. -/
def JoiningPool.Settled (pool : JoiningPool) : Prop :=
  ∀ id, pool.shared.2 id = true → ∃ result, pool.programs (.application id) = some (.done result)

/-- Whenever no consumer is inside `JoinAndSync`, every registered member is one of theirs. -/
def OwnsMembers (machine : Bytes →
    Machine ConsumerThread World ConsumerAction ConsumerAction.Reply Status ConsumerThread.Output) (queue : TaskQueue)
    (rules : Rules) : Prop :=
  ∀ (groupId : Bytes) (world : World), World.Initial queue rules world → (∀ id, (world.consumers id).groupId = groupId) →
    ∀ pool : JoiningPool, ((machine groupId).withHistory joiningHistory).Follows (.idle (world, fun _ => false)) pool →
      pool.Settled → ∀ memberId ∈ pool.shared.1.system.broker.groups.memberIds groupId,
        ∃ id, (pool.shared.1.consumers id).memberId = memberId

/-- The consumer holds no member id that is registered. -/
def World.Memberless (world : World) (groupId : Bytes) (id : Nat) : Prop :=
  (world.consumers id).memberId ∉ world.system.broker.groups.memberIds groupId

/-- A consumer without a registered member id finds the group in the generation it has joined, and its requests of
`JoinAndSync` do not fail otherwise; it joins before the last generation, and only such a consumer joins as a new member. -/
def KeepsMembers (queue : TaskQueue) (groupId : Bytes) : RequestCondition := fun thread world environment envelope =>
  let broker := world.system.broker
  match envelope.body with
  | .joinGroup request => request.memberId = [] → world.Memberless groupId thread.client ∧
      (∀ group ∈ broker.groups.group? groupId, group.generationId < maxInt32) ∧ broker.Encodes queue environment envelope
  | .syncGroup request => world.Memberless groupId thread.client →
      (∀ group ∈ broker.groups.group? groupId, group.generationId = request.generationId) ∧
        broker.Encodes queue environment envelope
  | .fetchCommittedOffset request => world.Memberless groupId thread.client →
      broker.Fetchable request ∧ broker.Encodes queue environment envelope
  | .leaveGroup _ => broker.Encodes queue environment envelope
  | _ => True

instance (world : World) (groupId : Bytes) (id : Nat) : Decidable (world.Memberless groupId id) :=
  inferInstanceAs (Decidable (_ ∉ _))

instance (queue : TaskQueue) (groupId : Bytes) (thread : ConsumerThread) (world : World) (environment : Environment) :
    (envelope : RequestEnvelope) → Decidable (KeepsMembers queue groupId thread world environment envelope)
  | ⟨_, _, _, .joinGroup request⟩ => inferInstanceAs (Decidable (request.memberId = [] → _ ∧ _ ∧ _))
  | ⟨_, _, _, .syncGroup _⟩ => inferInstanceAs (Decidable (World.Memberless _ _ _ → _ ∧ _))
  | ⟨_, _, _, .fetchCommittedOffset _⟩ => inferInstanceAs (Decidable (World.Memberless _ _ _ → _ ∧ _))
  | ⟨_, _, _, .leaveGroup _⟩ => inferInstanceAs (Decidable (BrokerService.Encodes _ _ _ _))
  | ⟨_, _, _, .produce _⟩ | ⟨_, _, _, .fetch _⟩ | ⟨_, _, _, .metadata _⟩ | ⟨_, _, _, .createTopic _⟩
  | ⟨_, _, _, .commitOffset _⟩ | ⟨_, _, _, .heartbeat _⟩ | ⟨_, _, _, .nack _⟩ => inferInstanceAs (Decidable True)

/-! ### Requests -/

section Requests

variable {queue : TaskQueue} {rules : Rules} {environment : Environment} {broker : BrokerService} {requestId : UInt64}
  {groupId : Bytes}

/-- A request in a version of the protocol reaches its handler. -/
theorem BrokerService.handle_protocolVersion (body : RequestBody) :
    broker.handle queue environment ⟨body.apiKey, protocolVersion, requestId, body⟩ =
      broker.handleBody queue environment ⟨body.apiKey, protocolVersion, requestId, body⟩ body := by
  have hsupported : SupportedVersion protocolVersion := by decide
  unfold handle
  rw [if_neg (not_not.mpr hsupported), if_neg (not_not.mpr rfl)]

/-- A request that neither joins nor leaves. -/
def RequestBody.KeepsGroups : RequestBody → Prop
  | .joinGroup _ => False
  | .leaveGroup _ => False
  | _ => True

open GroupCoordinator

theorem BrokerService.handle_stays {version : UInt16} {body : RequestBody} (h : body.KeepsGroups) :
    Stays groupId broker.groups
      (broker.handle queue environment ⟨body.apiKey, version, requestId, body⟩).2.groups := by
  have hsame : ∀ {later : BrokerService}, later.groups = broker.groups → Stays groupId broker.groups later.groups := by
    intro later hgroups
    rw [hgroups]
    exact .refl _
  unfold handle
  split
  · exact .refl _
  split
  · exact .refl _
  cases body with
  | nack request => exact hsame (handleNack_groups request)
  | produce request => exact hsame (handleProduce_groups request)
  | createTopic request => exact hsame (handleCreateTopic_groups request)
  | commitOffset request => exact hsame (handleCommitOffset_groups request)
  | fetch request => exact .refl _
  | metadata request => exact .refl _
  | fetchCommittedOffset request => exact .refl _
  | syncGroup request => exact syncGroup_stays request environment.steadyNow
  | heartbeat request => exact heartbeat_stays request environment.steadyNow
  | leaveGroup request => exact h.elim
  | joinGroup request => exact h.elim

/-- Groups stay sound. -/
theorem BrokerService.handle_sound (h : ∀ group ∈ broker.groups.group? groupId, SoundBelow group)
    (envelope : RequestEnvelope) :
    ∀ group ∈ (broker.handle queue environment envelope).2.groups.group? groupId, SoundBelow group := by
  rcases @handle_groups queue environment broker envelope with hsame | ⟨event, hstep⟩
  · rw [hsame]
    exact h
  · rw [hstep]
    exact (step_change broker.groups event groupId).soundBelow h

theorem groupErrorCode_ne_none (status : Status) : groupErrorCode status ≠ .none := by
  unfold groupErrorCode invalidOrInternal
  split_ifs
  all_goals exact ProtocolErrorCode.noConfusion

/-- `HandleJoinGroup` asks the coordinator, unless the topic is missing. -/
theorem BrokerService.handleJoinGroup_cases (request : JoinGroupRequest) :
    (∃ reply, reply.1 ≠ .none ∧ broker.handleJoinGroup environment request = (.error reply, broker)) ∨
      ∃ partitionCount, broker.handleJoinGroup environment request =
        (Result.orReply groupErrorCode (broker.groups.joinGroup request partitionCount environment.steadyNow).1,
          { broker with groups := (broker.groups.joinGroup request partitionCount environment.steadyNow).2 }) := by
  unfold handleJoinGroup
  split
  · exact Or.inl ⟨_, ProtocolErrorCode.noConfusion, rfl⟩
  · exact Or.inl ⟨_, ProtocolErrorCode.noConfusion, rfl⟩
  · exact Or.inr ⟨_, rfl⟩

/-- A request of a consumer for its group. -/
abbrev groupRequest (requestId : UInt64) (body : RequestBody) : RequestEnvelope :=
  ⟨body.apiKey, protocolVersion, requestId, body⟩

/-- The result of a `JoinGroup`. -/
abbrev joinResult (response : ResponseEnvelope) : Result JoinGroupResponse :=
  typedResponse Consumer.joinGroup? .joinGroup "join group" (.ok response)

/-- The result of a `SyncGroup`. -/
abbrev syncResult (response : ResponseEnvelope) : Result SyncGroupResponse :=
  typedResponse Consumer.syncGroup? .syncGroup "sync group" (.ok response)

/-- The result of a `LeaveGroup`. -/
def leaveResult (response : ResponseEnvelope) : Result Unit :=
  if response.error.errorCode = .none then .ok () else .error (protocolErrorToStatus response.error)

/-- A consumer that has become a member. -/
structure IsMember (groupId : Bytes) (joined : JoinGroupResponse) : Prop where
  group : validateGroupId groupId = .ok ()
  member : validateMemberId joined.memberId = .ok ()
  positive : 0 < joined.generationId

theorem BrokerService.handle_joinGroup (request : JoinGroupRequest) :
    broker.handle queue environment (groupRequest requestId (.joinGroup request)) =
      (broker.handleJoinGroup environment request).map
        (makeResponse (groupRequest requestId (.joinGroup request)) .joinGroup) id := handle_protocolVersion _

/-- **A first join** adds a member, or fails and changes nothing. -/
theorem BrokerService.answer_joinGroup_new {request : JoinGroupRequest}
    (hsound : ∀ group ∈ broker.groups.group? request.groupId, SoundBelow group)
    (hbelow : ∀ group ∈ broker.groups.group? request.groupId, group.generationId < maxInt32) (hid : request.memberId = [])
    (hencodes : broker.Encodes queue environment (groupRequest requestId (.joinGroup request))) :
    (∃ joined, joinResult (broker.answer queue environment (groupRequest requestId (.joinGroup request))) = .ok joined ∧
        IsMember request.groupId joined ∧ joined.memberId ≠ [] ∧
        joined.memberId ∉ broker.groups.memberIds request.groupId ∧
        ∀ memberId, memberId ∈ (broker.handle queue environment
            (groupRequest requestId (.joinGroup request))).2.groups.memberIds request.groupId ↔
          memberId = joined.memberId ∨ memberId ∈ broker.groups.memberIds request.groupId) ∨
      (∃ status, joinResult (broker.answer queue environment (groupRequest requestId (.joinGroup request))) =
          .error status) ∧
        (broker.handle queue environment (groupRequest requestId (.joinGroup request))).2.groups = broker.groups := by
  rw [hencodes.answer_eq, handle_joinGroup]
  rcases @handleJoinGroup_cases environment broker request with ⟨⟨code, message⟩, hcode, hjoin⟩ | ⟨partitionCount, hjoin⟩
  · rw [hjoin]
    exact Or.inr ⟨⟨_, if_pos hcode⟩, rfl⟩
  · rw [hjoin]
    cases hresult : (broker.groups.joinGroup request partitionCount environment.steadyNow).1 with
    | error status =>
        exact Or.inr ⟨⟨_, if_pos (groupErrorCode_ne_none status)⟩, joinGroup_new_error hbelow hid hresult⟩
    | ok joined =>
        obtain ⟨hnew, hmembers, hvalid, hsome, hpositive⟩ := joinGroup_new hsound hbelow hid hresult
        exact Or.inl ⟨joined, rfl, ⟨validateGroupId_of_join hresult, hvalid, hpositive⟩, hsome, hnew, hmembers⟩

/-- **A rejoin** changes no members. -/
theorem BrokerService.answer_joinGroup_known {request : JoinGroupRequest} (hid : request.memberId ≠ []) :
    Stays request.groupId broker.groups
        (broker.handle queue environment (groupRequest requestId (.joinGroup request))).2.groups ∧
      ∀ joined, joinResult (broker.answer queue environment (groupRequest requestId (.joinGroup request))) = .ok joined →
        joined.memberId = request.memberId ∧ request.memberId ∈ broker.groups.memberIds request.groupId := by
  have hanswer : ∀ joined,
      joinResult (broker.answer queue environment (groupRequest requestId (.joinGroup request))) = .ok joined →
        (broker.handleJoinGroup environment request).1 = .ok joined := by
    intro joined hjoined
    unfold answer at hjoined
    rw [handle_joinGroup] at hjoined
    split at hjoined
    · obtain ⟨answered, hanswered, -, -, hbody⟩ := typedResponse_ok hjoined
      cases hanswered
      exact makeResponse_body hbody rfl fun _ => rfl
    · cases hjoined
  rw [handle_joinGroup]
  rcases @handleJoinGroup_cases environment broker request with ⟨⟨code, message⟩, hcode, hjoin⟩ | ⟨partitionCount, hjoin⟩
  · refine ⟨?_, fun joined hjoined => ?_⟩
    · rw [hjoin]
      exact .refl _
    · have hok := hanswer joined hjoined
      rw [hjoin] at hok
      cases hok
  · obtain ⟨hstays, hknown⟩ :=
      @joinGroup_known broker.groups request partitionCount environment.steadyNow hid
    refine ⟨?_, fun joined hjoined => ?_⟩
    · rw [hjoin]
      exact hstays
    · have hok := hanswer joined hjoined
      rw [hjoin] at hok
      exact hknown joined (Result.orReply_ok.mp hok)

/-- **A member** of the current generation gets its assignment. -/
theorem BrokerService.answer_syncGroup {joined : JoinGroupResponse} (hmember : IsMember groupId joined)
    (hmem : joined.memberId ∈ broker.groups.memberIds groupId)
    (hgeneration : ∀ group ∈ broker.groups.group? groupId, group.generationId = joined.generationId)
    (hencodes : broker.Encodes queue environment
      (groupRequest requestId (.syncGroup ⟨groupId, joined.memberId, joined.generationId⟩))) :
    ∃ synced, syncResult (broker.answer queue environment
      (groupRequest requestId (.syncGroup ⟨groupId, joined.memberId, joined.generationId⟩))) = .ok synced := by
  obtain ⟨synced, hsynced⟩ := @syncGroup_of_mem broker.groups ⟨groupId, joined.memberId, joined.generationId⟩
    environment.steadyNow hmember.group hmember.member hmember.positive hmem hgeneration
  refine ⟨synced, ?_⟩
  rw [hencodes.answer_eq, handle_protocolVersion]
  change syncResult (makeResponse _ _ (Result.orReply groupErrorCode (broker.groups.syncGroup _ _).1)) = _
  rw [hsynced]
  rfl

/-- **A committed offset** that can be fetched comes back, or its retry topic is missing. -/
theorem BrokerService.answer_fetchCommittedOffset {request : FetchCommittedOffsetRequest}
    (hfetchable : broker.Fetchable request)
    (hencodes : broker.Encodes queue environment (groupRequest requestId (.fetchCommittedOffset request))) :
    (isRetryTopic request.topic && Consumer.topicMissing (.ok (broker.answer queue environment
        (groupRequest requestId (.fetchCommittedOffset request))))) = true ∨
      ∃ fetched, typedResponse Consumer.fetchCommittedOffset? .fetchCommittedOffset "fetch committed offset"
        (.ok (broker.answer queue environment (groupRequest requestId (.fetchCommittedOffset request)))) = .ok fetched := by
  rw [hencodes.answer_eq, handle_protocolVersion]
  change (_ && Consumer.topicMissing (.ok (makeResponse _ _ (broker.handleFetchCommittedOffset request)))) = true ∨
    ∃ fetched, typedResponse _ _ _ (.ok (makeResponse _ _ (broker.handleFetchCommittedOffset request))) = .ok fetched
  unfold Fetchable at hfetchable
  cases hreply : broker.handleFetchCommittedOffset request with
  | ok fetched => exact Or.inr ⟨fetched, rfl⟩
  | error reply =>
      rw [hreply] at hfetchable
      obtain ⟨hretry, hcode⟩ := hfetchable
      left
      rw [hretry, Bool.true_and]
      exact decide_eq_true hcode

/-- What a client is told about a failure of the coordinator. -/
theorem groupStatus_notFound {status : Status} {message : Bytes}
    (h : (protocolErrorToStatus ⟨groupErrorCode status, message⟩).code = .notFound) : status.code = .notFound := by
  unfold groupErrorCode invalidOrInternal at h
  split_ifs at h with hunknown
  · exact hunknown.1
  all_goals cases h

/-- What the result of a `LeaveGroup` says: a member that has left or is not found is not registered any more, and any
other error has changed nothing, or the group cannot go on. -/
def LeaveTells (groupId memberId : Bytes) (before after : GroupCoordinator) : Result Unit → Prop
  | .ok () => memberId ∉ after.memberIds groupId
  | .error status =>
      if status.code = .notFound then memberId ∉ after.memberIds groupId else after = before ∨ after.Stuck groupId

/-- **Leaving** tells what has become of the member. -/
theorem BrokerService.answer_leaveGroup {request : LeaveGroupRequest}
    (hencodes : broker.Encodes queue environment (groupRequest requestId (.leaveGroup request))) :
    Leaves request.groupId request.memberId broker.groups
        (broker.handle queue environment (groupRequest requestId (.leaveGroup request))).2.groups ∧
      LeaveTells request.groupId request.memberId broker.groups
        (broker.handle queue environment (groupRequest requestId (.leaveGroup request))).2.groups
        (leaveResult (broker.answer queue environment (groupRequest requestId (.leaveGroup request)))) := by
  rw [hencodes.answer_eq, handle_protocolVersion]
  refine ⟨leaveGroup_leaves request, ?_⟩
  change LeaveTells _ _ _ (broker.groups.leaveGroup request).2
    (leaveResult (makeResponse _ _ (Result.orReply groupErrorCode (broker.groups.leaveGroup request).1)))
  cases hresult : (broker.groups.leaveGroup request).1 with
  | ok response => exact leaveGroup_ok hresult
  | error status =>
      have hleft : leaveResult (makeResponse (groupRequest requestId (.leaveGroup request)) ResponseBody.leaveGroup
          (Result.orReply groupErrorCode (.error status))) =
            .error (protocolErrorToStatus ⟨groupErrorCode status, text status.message⟩) :=
        if_neg (groupErrorCode_ne_none status)
      rw [hleft]
      change if _ = _ then _ else _
      split
      · rename_i hcode
        exact leaveGroup_notFound hresult (groupStatus_notFound hcode)
      · exact leaveGroup_refused hresult

/-- **A heartbeat** is told that its member is unknown only if it is. -/
theorem BrokerService.answer_heartbeat {request : HeartbeatRequest}
    (h : (broker.answer queue environment (groupRequest requestId (.heartbeat request))).error.errorCode =
      .unknownMember) : request.memberId ∉ broker.groups.memberIds request.groupId := by
  unfold answer at h
  split at h
  · rw [handle_protocolVersion] at h
    change (makeResponse _ _ (Result.orReply groupErrorCode
      (broker.groups.heartbeat request environment.steadyNow).1)).error.errorCode = _ at h
    cases hresult : (broker.groups.heartbeat request environment.steadyNow).1 with
    | ok response =>
        rw [hresult] at h
        cases h
    | error status =>
        rw [hresult] at h
        refine heartbeat_notFound hresult (@groupStatus_notFound status [] ?_)
        change groupErrorCode status = .unknownMember at h
        rw [h]
        rfl
  · cases h

end Requests

/-! ### Schedules -/

namespace ConsumerMove

/-- All requests meet a condition and are answered by what the broker has made of them, and the group is left to the
consumers. -/
def answered (queue : TaskQueue) (groupId : Bytes) (condition : RequestCondition)
    [∀ thread world environment envelope, Decidable (condition thread world environment envelope)]
    (pool : ConsumerPool) : ConsumerMove → Bool
  | .outside move => (move.apply queue pool.shared.system).all fun system =>
      decide (system.broker.groups.group? groupId = pool.shared.system.broker.groups.group? groupId)
  | .act thread (.answered requestId environment) =>
      match pool.programs thread with
      | some (.act (.request version body) _) =>
          decide (pool.shared.system.broker.Encodes queue environment ⟨body.apiKey, version, requestId, body⟩ ∧
            condition thread pool.shared environment ⟨body.apiKey, version, requestId, body⟩)
      | _ => true
  | .act _ _ | .arrive _ _ _ | .delay _ _ => false
  | .call _ _ | .beat _ | .finish _ => true

variable {queue : TaskQueue} {groupId : Bytes} {condition : RequestCondition} {pool later : ConsumerPool}
  {move : ConsumerMove} {moves : List ConsumerMove}

theorem answered_effect {thread : ConsumerThread} {requestId : UInt64} {environment : Environment} {world last : World}
    {action : ConsumerAction} {reply : action.Reply}
    (h : perform queue thread (.answered requestId environment) world action = some (reply, last))
    (hencodes : ∀ version body, action = .request version body →
      world.system.broker.Encodes queue environment ⟨body.apiKey, version, requestId, body⟩ ∧
        condition thread world environment ⟨body.apiKey, version, requestId, body⟩) :
    answeredEffect queue {} condition thread action world reply last := by
  cases action with
  | locked update =>
      have hallowed : (Fate.answered requestId environment).Allowed {} := trivial
      exact effect h hallowed
  | joinHeartbeat =>
      have hallowed : (Fate.answered requestId environment).Allowed {} := trivial
      exact effect h hallowed
  | request version body =>
      obtain ⟨after, hfate, heq⟩ := Option.map_eq_some_iff.mp h
      cases heq
      rw [Fate.apply] at hfate
      by_cases htyped : body.Typed
      · rw [if_pos htyped] at hfate
        cases hfate
        obtain ⟨hencoded, hcondition⟩ := hencodes version body rfl
        refine ⟨requestId, environment, trivial, htyped, hcondition, ?_, rfl⟩
        rw [hencoded.answer_eq]
        rfl
      · rw [if_neg htyped] at hfate
        cases hfate

variable [∀ thread world environment envelope, Decidable (condition thread world environment envelope)]

theorem answered_step (hanswered : answered queue groupId condition pool move = true)
    (h : move.apply queue pool = some later) : (memberMachine queue {} groupId condition).Step pool later := by
  cases move with
  | outside chosen =>
      obtain ⟨system, hsystem, rfl⟩ := Option.map_eq_some_iff.mp h
      rw [answered, hsystem] at hanswered
      exact .outside ⟨system, of_decide_eq_true hanswered, rfl⟩
  | arrive index requestId environment => cases hanswered
  | delay thread status => cases hanswered
  | call id made =>
      obtain ⟨hidle, rfl⟩ := begin_eq.mp h
      exact .start hidle ⟨made, trivial, rfl⟩
  | beat id =>
      rw [apply] at h
      split at h
      · rename_i hrunning
        obtain ⟨hidle, rfl⟩ := begin_eq.mp h
        exact .start hidle ⟨hrunning, rfl⟩
      · cases h
  | finish thread =>
      rw [apply] at h
      split at h
      · rename_i result hprogram
        cases h
        exact .finish hprogram
      · cases h
  | act thread fate =>
      rw [apply] at h
      split at h
      · rename_i action next hprogram
        obtain ⟨⟨reply, last⟩, hperform, rfl⟩ := Option.map_eq_some_iff.mp h
        cases fate with
        | answered requestId environment =>
            refine .act hprogram (answered_effect hperform ?_)
            rintro version body rfl
            rw [answered, hprogram] at hanswered
            exact of_decide_eq_true hanswered
        | replaced requestId environment message => cases hanswered
        | lost requestId environment status => cases hanswered
        | unsent status => cases hanswered
      · cases h

/-- Answered schedules are runs. -/
theorem runAnswered_follows (h : runWhile queue (answered queue groupId condition) moves pool = some later) :
    (memberMachine queue {} groupId condition).Follows pool later :=
  runWhile_follows answered_step h

/-- The consumer that moves. -/
def client? : ConsumerMove → Option Nat
  | .outside _ | .arrive _ _ _ => none
  | .call id _ | .beat id => some id
  | .act thread _ | .delay thread _ | .finish thread => some thread.client

/-- The consumer and its application are as before. -/
def Untouched (id : Nat) (pool later : ConsumerPool) : Prop :=
  later.shared.consumers id = pool.shared.consumers id ∧
    later.programs (.application id) = pool.programs (.application id)

theorem apply_untouched {id : Nat} (h : move.apply queue pool = some later) (hother : move.client? ≠ some id) :
    Untouched id pool later := by
  have hprogram : ∀ {thread : ConsumerThread}, thread.client ≠ id → ∀ program,
      Function.update pool.programs thread program (.application id) = pool.programs (.application id) := by
    intro thread hne program
    refine Function.update_of_ne ?_ _ _
    rintro rfl
    exact hne rfl
  cases move with
  | outside chosen =>
      obtain ⟨system, -, rfl⟩ := Option.map_eq_some_iff.mp h
      exact ⟨rfl, rfl⟩
  | arrive index requestId environment =>
      obtain ⟨version, body, -, -, rfl⟩ := arrive_eq h
      exact ⟨rfl, rfl⟩
  | delay thread status =>
      have hne : thread.client ≠ id := fun heq => hother (congrArg some heq)
      obtain ⟨version, body, next, -, rfl⟩ := delay_eq.mp h
      exact ⟨rfl, hprogram hne _⟩
  | call own made =>
      obtain ⟨-, rfl⟩ := begin_eq.mp h
      have hne : ConsumerThread.client (.application own) ≠ id := fun heq => hother (congrArg some heq)
      exact ⟨rfl, hprogram hne _⟩
  | beat own =>
      rw [apply] at h
      split at h
      · obtain ⟨-, rfl⟩ := begin_eq.mp h
        have hne : ConsumerThread.application id ≠ .heartbeat own := fun heq => (by cases heq)
        refine ⟨rfl, ?_⟩
        dsimp only
        rw [Function.update_of_ne hne]
      · cases h
  | act thread fate =>
      have hne : thread.client ≠ id := fun heq => hother (congrArg some heq)
      rw [apply] at h
      split at h
      · rename_i action next hnext
        obtain ⟨⟨reply, world⟩, hperform, rfl⟩ := Option.map_eq_some_iff.mp h
        refine ⟨?_, hprogram hne _⟩
        cases action with
        | request version body =>
            obtain ⟨after, -, heq⟩ := Option.map_eq_some_iff.mp hperform
            cases heq
            rfl
        | locked update =>
            cases hperform
            exact World.setConsumer_of_ne hne.symm
        | joinHeartbeat =>
            rw [perform] at hperform
            split at hperform
            · cases hperform
            · cases hperform
              exact World.setConsumer_of_ne hne.symm
      · cases h
  | finish thread =>
      have hne : thread.client ≠ id := fun heq => hother (congrArg some heq)
      rw [apply] at h
      split at h
      · rename_i result hdone
        cases h
        refine ⟨?_, hprogram hne _⟩
        cases thread with
        | heartbeat own => rfl
        | application own => rfl
      · cases h

theorem runWhile_untouched {may : ConsumerPool → ConsumerMove → Bool} {id : Nat}
    (h : runWhile queue may moves pool = some later)
    (hother : id ∉ moves.filterMap client?) : Untouched id pool later := by
  induction moves generalizing pool with
  | nil =>
      cases h
      exact ⟨rfl, rfl⟩
  | cons move rest ih =>
      rw [runWhile] at h
      split at h
      · obtain ⟨next, hnext, hrun⟩ := Option.bind_eq_some_iff.mp h
        have hmove : move.client? ≠ some id := fun heq =>
          hother (List.mem_filterMap.mpr ⟨move, List.mem_cons_self, heq⟩)
        have hrest : id ∉ rest.filterMap client? := by
          intro hmem
          obtain ⟨found, hfound, heq⟩ := List.mem_filterMap.mp hmem
          exact hother (List.mem_filterMap.mpr ⟨found, List.mem_cons_of_mem _ hfound, heq⟩)
        have hfirst := apply_untouched hnext hmove
        have hlast := ih hrun hrest
        exact ⟨hlast.1.trans hfirst.1, hlast.2.trans hfirst.2⟩
      · cases h

end ConsumerMove

/-- An application that is inside `JoinAndSync` has something left to do. -/
theorem JoiningPool.joining_runs {machine : Machine ConsumerThread World ConsumerAction ConsumerAction.Reply Status
    ConsumerThread.Output} {world : World} {pool : JoiningPool}
    (h : (machine.withHistory joiningHistory).Follows (.idle (world, fun _ => false)) pool) (id : Nat)
    (hjoining : pool.shared.2 id = true) : pool.programs (.application id) ≠ none := by
  have hrunning : ∀ {middle : JoiningPool} {thread : ConsumerThread} {program : ConsumerProgram thread.Output},
      (thread ≠ .application id → middle.programs (.application id) ≠ none) →
        Function.update middle.programs thread (some program) (.application id) ≠ none := by
    intro middle thread program hothers
    by_cases hthread : thread = .application id
    · subst hthread
      rw [Function.update_self]
      exact Option.some_ne_none _
    · rw [Function.update_of_ne (Ne.symm hthread)]
      exact hothers hthread
  induction h with
  | refl => cases hjoining
  | @tail middle last _ hstep ih =>
      cases hstep with
      | outside houtside =>
          rw [houtside.2] at hjoining
          exact ih hjoining
      | start hidle hstarts => exact hrunning fun _ => ih hjoining
      | @act thread action next reply state hprogram heffect =>
          refine hrunning fun hthread => ih ?_
          rw [heffect.2] at hjoining
          cases thread with
          | heartbeat own => exact hjoining
          | application own =>
              have hother : id ≠ own := fun heq => hthread (congrArg ConsumerThread.application heq.symm)
              exact (Function.update_of_ne hother _ _).symm.trans hjoining
      | @finish thread result hprogram =>
          have hothers : ∀ {other : ConsumerThread}, ConsumerThread.application id ≠ other →
              middle.shared.2 id = true → Function.update middle.programs other none (.application id) ≠ none := by
            intro other hother hwas
            rw [Function.update_of_ne hother]
            exact ih hwas
          cases thread with
          | heartbeat own =>
              have hother : ConsumerThread.application id ≠ .heartbeat own := fun heq => (by cases heq)
              exact hothers hother hjoining
          | application own =>
              by_cases hother : id = own
              · subst hother
                have hoff : joiningHistory.finished (.application id) middle.shared.2 id = false :=
                  Function.update_self _ _ _
                exact absurd (hoff.symm.trans hjoining) Bool.false_ne_true
              · refine hothers (fun heq => hother (ConsumerThread.application.inj heq)) ?_
                exact (Function.update_of_ne hother _ _).symm.trans hjoining

/-- When no application runs, none is inside `JoinAndSync`. -/
theorem JoiningPool.settled_of_idle {machine : Machine ConsumerThread World ConsumerAction ConsumerAction.Reply Status
    ConsumerThread.Output} {world : World} {pool : JoiningPool}
    (h : (machine.withHistory joiningHistory).Follows (.idle (world, fun _ => false)) pool)
    (hidle : ∀ id, pool.programs (.application id) = none) : pool.Settled :=
  fun id hjoining => absurd (hidle id) (joining_runs h id hjoining)

end LogMq
