import LogMq.ClientFetching

/-! What holds of consumers in every run. One that is to join again has no generation, and none is assigned a partition
twice. The heartbeat thread leaves the positions alone. -/

namespace LogMq

open Interaction

namespace Consumer

/-! ### Updates -/

structure Regular (consumer : Consumer) : Prop where
  rejoins : consumer.needsRejoin = true → consumer.generationId = 0
  distinct : (consumer.assignments.map Assignment.partitionId).Nodup

/-- What the heartbeat thread leaves as it is. -/
structure SamePositions (before after : Consumer) : Prop where
  topic : after.topic = before.topic
  assignments : after.assignments = before.assignments

theorem SamePositions.refl (consumer : Consumer) : consumer.SamePositions consumer := ⟨rfl, rfl⟩

theorem SamePositions.trans {first second third : Consumer} (h : first.SamePositions second)
    (hnext : second.SamePositions third) : first.SamePositions third :=
  ⟨hnext.topic.trans h.topic, hnext.assignments.trans h.assignments⟩

theorem advance_partitions (updated : Assignment) (assignments : List Assignment) :
    (advance updated assignments).map Assignment.partitionId = assignments.map Assignment.partitionId := by
  induction assignments with
  | nil => rfl
  | cons current rest ih =>
      unfold advance
      split
      · rfl
      · rw [List.map_cons, ih, List.map_cons]

theorem foldl_advance_partitions (polled assignments : List Assignment) :
    (polled.foldl (fun current updated => advance updated current) assignments).map Assignment.partitionId =
      assignments.map Assignment.partitionId := by
  induction polled generalizing assignments with
  | nil => rfl
  | cons updated rest ih => rw [List.foldl_cons, ih, advance_partitions]

namespace Regular

variable {consumer : Consumer}

theorem prepareLeave (h : consumer.Regular) (topic : Bytes) : (consumer.prepareLeave topic).Regular := by
  unfold Consumer.prepareLeave
  split
  · exact ⟨h.rejoins, h.distinct⟩
  · exact h

theorem forgetMember (h : consumer.Regular) : consumer.forgetMember.Regular := ⟨fun _ => rfl, h.distinct⟩

theorem changeTopic (h : consumer.Regular) (topic : Bytes) : (consumer.changeTopic topic).Regular := by
  unfold Consumer.changeTopic
  split
  · exact h
  · exact ⟨nofun, List.nodup_nil⟩

theorem runHeartbeat (h : consumer.Regular) : consumer.runHeartbeat.Regular := by
  unfold Consumer.runHeartbeat
  split
  · exact h
  · exact ⟨h.rejoins, h.distinct⟩

theorem shut (h : consumer.Regular) : consumer.shut.Regular := by
  unfold Consumer.shut
  split
  · exact h
  · exact ⟨h.rejoins, h.distinct⟩

theorem clear (consumer : Consumer) : consumer.clear.Regular := ⟨fun _ => rfl, List.nodup_nil⟩

theorem stopHeartbeat (h : consumer.Regular) : consumer.stopHeartbeat.Regular := by
  unfold Consumer.stopHeartbeat
  split
  · exact ⟨h.rejoins, h.distinct⟩
  · exact h

theorem heartbeatAnswered (h : consumer.Regular) (code : ProtocolErrorCode) :
    (consumer.heartbeatAnswered code).Regular := by
  unfold Consumer.heartbeatAnswered
  split
  · exact ⟨fun _ => rfl, h.distinct⟩
  · exact ⟨fun _ => rfl, h.distinct⟩
  · exact h

/-- The partitions of the positions are those of the assignment. -/
theorem adopt (joined : JoinGroupResponse) (topic : Bytes) {assignments : List Assignment}
    (h : (assignments.map Assignment.partitionId).Nodup) : (consumer.adopt joined topic assignments).Regular :=
  ⟨nofun, h⟩

theorem writeBack (h : consumer.Regular) (topic : Bytes) (generationId : Int) (polled : List Assignment) :
    (consumer.writeBack topic generationId polled).Regular := by
  unfold Consumer.writeBack
  split
  · refine ⟨h.rejoins, ?_⟩
    rw [foldl_advance_partitions]
    exact h.distinct
  · exact h

theorem seekPosition (h : consumer.Regular) {topic : Bytes} {partitionId offset : Int} {moved : Consumer}
    (hmoved : consumer.seekPosition topic partitionId offset = .ok moved) : moved.Regular := by
  unfold Consumer.seekPosition at hmoved
  dsimp only at hmoved
  split at hmoved
  · cases hmoved
  split at hmoved
  · cases hmoved
  split at hmoved
  · cases hmoved
  split at hmoved
  · cases hmoved
  · cases hmoved
    refine ⟨h.rejoins, ?_⟩
    rw [advance_partitions]
    exact h.distinct

end Regular

/-! ### Requests -/

variable {queue : TaskQueue} {rules : Rules}

theorem sendJoinGroup_meets (groupId topic memberId : Bytes) :
    Requests queue rules (sendJoinGroup groupId topic memberId) fun result =>
      ∀ joined, result = .ok joined → 0 < joined.generationId := by
  unfold sendJoinGroup
  rw [Requests, Program.meets_bind, roundTrip_meets]
  refine ⟨fun _ h => (by cases h), fun reply hreply => ?_⟩
  intro joined hjoined
  exact hreply.join_pos hjoined

theorem join_meets (groupId topic memberId : Bytes) :
    Requests queue rules (join groupId topic memberId) fun result =>
      ∀ joined, result = .ok joined → 0 < joined.generationId := by
  unfold join
  rw [Requests, Program.meets_bind, Program.meets_attempt]
  refine (sendJoinGroup_meets groupId topic memberId).mono fun result hresult => ?_
  cases result with
  | ok joined => exact hresult
  | error status =>
      dsimp only
      split
      · exact sendJoinGroup_meets groupId topic []
      · intro joined hjoined
        cases hjoined

theorem sendSyncGroup_meets (groupId : Bytes) (joined : JoinGroupResponse) :
    Requests queue rules (sendSyncGroup groupId joined) fun result =>
      ∀ synced, result = .ok synced → synced.assignment.partitionIds.Nodup := by
  unfold sendSyncGroup
  rw [Requests, Program.meets_bind, roundTrip_meets]
  refine ⟨fun _ h => (by cases h), fun reply hreply => ?_⟩
  intro synced hsynced
  exact hreply.sync_nodup hsynced

theorem sendLeaveGroup_meets (groupId memberId : Bytes) :
    Requests queue rules (sendLeaveGroup groupId memberId) fun _ => True := by
  unfold sendLeaveGroup
  rw [Requests, Program.meets_bind, roundTrip_meets]
  refine ⟨fun _ h => (by cases h), fun reply _ => ?_⟩
  cases reply with
  | error status => trivial
  | ok response =>
      dsimp only
      split <;> trivial

theorem fetchCommittedOffset_meets (groupId topic : Bytes) (partitionId : Int) :
    Requests queue rules (fetchCommittedOffset groupId topic partitionId) fun _ => True := by
  unfold fetchCommittedOffset
  rw [Requests, Program.meets_bind, roundTrip_meets]
  refine ⟨fun _ h => (by cases h), fun reply _ => ?_⟩
  dsimp only
  split <;> trivial

theorem fetchRetryPosition_meets (groupId topic : Bytes) (partitionId : Int) :
    Requests queue rules (fetchRetryPosition groupId topic partitionId) fun _ => True := by
  unfold fetchRetryPosition
  split
  · trivial
  · rw [Requests, Program.meets_bind]
    refine (fetchCommittedOffset_meets _ _ _).mono fun result _ => ?_
    cases result <;> trivial

/-- Every assigned partition gets its positions. -/
theorem fetchPositions_meets (groupId topic assignedTopic : Bytes) (partitionIds : List Int) :
    Requests queue rules (fetchPositions groupId topic assignedTopic partitionIds) fun result =>
      ∀ assignments, result = .ok assignments → assignments.map Assignment.partitionId = partitionIds := by
  induction partitionIds with
  | nil =>
      intro assignments heq
      cases heq
      rfl
  | cons partitionId rest ih =>
      unfold fetchPositions
      rw [Requests, Program.meets_bind]
      refine (fetchCommittedOffset_meets _ _ _).mono fun result _ => ?_
      cases result with
      | error status =>
          intro assignments heq
          cases heq
      | ok committed =>
          dsimp only
          rw [Program.meets_bind]
          refine (fetchRetryPosition_meets _ _ _).mono fun result _ => ?_
          cases result with
          | error status =>
              intro assignments heq
              cases heq
          | ok retryNextOffset =>
              dsimp only
              rw [Program.meets_bind]
              refine ih.mono fun result hrest => ?_
              cases result with
              | error status =>
                  intro assignments heq
                  cases heq
              | ok others =>
                  intro assignments heq
                  cases heq
                  rw [List.map_cons, hrest others rfl]

theorem commitSource_meets (groupId topic : Bytes) (retry : Bool) (partitionId offset : Int) :
    AnyRequests queue rules (commitSource groupId topic retry partitionId offset) fun _ => True := by
  unfold commitSource
  rw [AnyRequests, Program.meets_bind, roundTrip_meets]
  refine ⟨trivial, fun reply _ => ?_⟩
  dsimp only
  split
  · trivial
  · rw [Program.meets_bind, typed_meets]
    cases typedResponse commitOffset? .commitOffset "commit offset" reply <;> trivial

theorem commitAssignments_meets (groupId topic : Bytes) (assignments : List Assignment) :
    AnyRequests queue rules (commitAssignments groupId topic assignments) fun _ => True := by
  induction assignments with
  | nil => trivial
  | cons assignment rest ih =>
      unfold commitAssignments
      rw [AnyRequests, Program.meets_bind]
      refine (commitSource_meets _ _ _ _ _).mono fun result _ => ?_
      cases result with
      | error status => trivial
      | ok _ =>
          dsimp only
          split
          · exact ih
          · rw [Program.meets_bind]
            refine (commitSource_meets _ _ _ _ _).mono fun result _ => ?_
            cases result with
            | error status => trivial
            | ok _ => exact ih

end Consumer

/-! ### The outline -/

/-- In every state the broker is one that has been started and has run since, and the consumers are regular. Applications
rely on their positions and results. -/
def positionsOutline (queue : TaskQueue) (rules : Rules) :
    Outline ConsumerThread World Status ConsumerThread.Output where
  invariant world := BrokerReaches queue rules world.system ∧ ∀ id, (world.consumers id).Regular
  rely
    | .application id, before, after =>
        (before.consumers id).SamePositions (after.consumers id) ∧ after.results id = before.results id
    | .heartbeat _, _, _ => True

variable {queue : TaskQueue} {rules : Rules}

/-- What leaves consumers and results alone is within what all threads rely on. -/
theorem positions_unmoved {thread : ConsumerThread} {before after : World} (hconsumers : after.consumers = before.consumers)
    (hresults : after.results = before.results) : (positionsOutline queue rules).rely thread before after := by
  cases thread with
  | heartbeat id => trivial
  | application id =>
      refine ⟨?_, congrFun hresults id⟩
      rw [hconsumers]
      exact .refl _

/-- A request of any thread. -/
theorem positionsOutline_request {thread : ConsumerThread} {version : UInt16} {body : RequestBody} {before after : World}
    {reply : Result ResponseEnvelope} (hinvariant : (positionsOutline queue rules).invariant before)
    (heffect : consumerEffect queue rules thread (.request version body) before reply after) :
    (positionsOutline queue rules).Guaranteed thread before after ∧ Answers queue rules (.request version body) reply ∧
      after.consumers = before.consumers ∧ after.results = before.results := by
  obtain ⟨htrip, hconsumers, hresults⟩ := consumerEffect_request heffect
  refine ⟨⟨⟨hinvariant.1.follows htrip.follows, fun id => ?_⟩, ?_⟩, ⟨_, _, hinvariant.1, htrip⟩, hconsumers, hresults⟩
  · rw [hconsumers]
    exact hinvariant.2 id
  · intro other _
    exact positions_unmoved hconsumers hresults

/-- A block of a thread under the mutex of its consumer. -/
theorem positionsOutline_set {thread : ConsumerThread} {before : World} {consumer : Consumer}
    (hinvariant : (positionsOutline queue rules).invariant before) (hregular : consumer.Regular)
    (hheartbeat : ∀ id, thread = .heartbeat id → (before.consumers id).SamePositions consumer) :
    (positionsOutline queue rules).Guaranteed thread before (before.setConsumer thread.client consumer) := by
  refine ⟨⟨hinvariant.1, fun id => ?_⟩, ?_⟩
  · by_cases hid : id = thread.client
    · rw [hid, World.setConsumer_self]
      exact hregular
    · rw [World.setConsumer_of_ne hid]
      exact hinvariant.2 id
  · intro other hother
    cases other with
    | heartbeat id => trivial
    | application id =>
        refine ⟨?_, rfl⟩
        by_cases hid : id = thread.client
        · cases thread with
          | application _ => exact absurd (congrArg ConsumerThread.application hid) hother
          | heartbeat own =>
              change id = own at hid
              subst hid
              change Consumer.SamePositions _ ((before.setConsumer id consumer).consumers id)
              rw [World.setConsumer_self]
              exact hheartbeat id rfl
        · rw [World.setConsumer_of_ne hid]
          exact .refl _

/-! ### The programs -/

/-- A program that stays within the outline. -/
abbrev KeepsPositions {α : Type} (queue : TaskQueue) (rules : Rules) (thread : ConsumerThread)
    (program : ConsumerProgram α) : Prop :=
  program.Keeps (consumerEffect queue rules thread) ((positionsOutline queue rules).Relied thread)
    ((positionsOutline queue rules).Guaranteed thread)

namespace Consumer

variable {thread : ConsumerThread} {id : Nat}

theorem AnyRequests.safe {α : Type} {program : ConsumerProgram α} {post : Result α → Prop}
    (h : AnyRequests queue rules program post) (state : World) :
    program.Safe (consumerEffect queue rules thread) ((positionsOutline queue rules).Relied thread)
      ((positionsOutline queue rules).Guaranteed thread) (fun result _ => post result) state := by
  have hsafe : program.Safe (consumerEffect queue rules thread) ((positionsOutline queue rules).Relied thread)
      ((positionsOutline queue rules).Guaranteed thread) (fun result _ => post result ∧ True) state :=
    Program.Meets.safe h ?_ trivial
  · exact hsafe.mono fun result later hresult => hresult.1
  intro action state before reply after hallowed _ hrely heffect
  cases action with
  | request version body =>
      obtain ⟨hguaranteed, hanswers, -, -⟩ := positionsOutline_request hrely.1 heffect
      exact ⟨hguaranteed, hanswers, trivial⟩
  | locked update => exact hallowed.elim
  | joinHeartbeat => exact hallowed.elim

theorem AnyRequests.keeps {α : Type} {program : ConsumerProgram α} {post : Result α → Prop}
    (h : AnyRequests queue rules program post) : KeepsPositions queue rules thread program :=
  fun state => (h.safe state).mono fun _ _ _ => trivial

theorem Requests.keeps {α : Type} {program : ConsumerProgram α} {post : Result α → Prop}
    (h : Requests queue rules program post) : KeepsPositions queue rules thread program := h.any.keeps

theorem keeps_locked {update : Consumer → Consumer} (h : ∀ consumer, consumer.Regular → (update consumer).Regular) :
    KeepsPositions queue rules (.application id) (locked update) := by
  intro _ before reply after hrely heffect
  obtain ⟨-, rfl⟩ := heffect
  exact ⟨positionsOutline_set hrely.1 (h _ (hrely.1.2 id)) (nofun), trivial⟩

theorem keeps_joinHeartbeat : KeepsPositions queue rules (.application id) joinHeartbeat := by
  intro _ before reply after hrely heffect
  obtain ⟨-, rfl⟩ := heffect
  have hregular := hrely.1.2 id
  exact ⟨positionsOutline_set hrely.1 ⟨hregular.rejoins, hregular.distinct⟩ (nofun), trivial⟩

theorem keeps_joinAndSync : KeepsPositions queue rules (.application id) joinAndSync := by
  unfold joinAndSync
  refine (keeps_locked fun _ h => h).bind fun consumer => ?_
  split
  · exact Program.keeps_done _
  refine (join_meets _ _ _).keeps.bind fun joined => ?_
  intro state
  rw [Program.safe_bind]
  refine ((sendSyncGroup_meets _ _).any.safe state).mono fun result later hsynced => ?_
  cases result with
  | error status => trivial
  | ok synced =>
      dsimp only
      rw [Program.safe_bind]
      refine ((fetchPositions_meets _ _ _ _).any.safe later).mono fun result last hpositions => ?_
      cases result with
      | error status => trivial
      | ok assignments =>
          have hdistinct : (assignments.map Assignment.partitionId).Nodup := by
            rw [hpositions assignments rfl]
            exact hsynced synced rfl
          exact ((keeps_locked fun _ _ => .adopt _ _ hdistinct).bind fun _ => Program.keeps_done _) last

theorem keeps_startHeartbeat : KeepsPositions queue rules (.application id) startHeartbeat :=
  (keeps_locked fun _ h => h.runHeartbeat).bind fun _ => Program.keeps_done _

theorem keeps_leavePrevious (groupId memberId : Bytes) :
    KeepsPositions queue rules (.application id) (leavePrevious groupId memberId) := by
  unfold leavePrevious
  refine keeps_joinHeartbeat.bind fun _ => (sendLeaveGroup_meets _ _).keeps.attempt.bind fun left => ?_
  have hforget : KeepsPositions queue rules (.application id) (do let _ ← locked forgetMember : ConsumerProgram Unit) :=
    (keeps_locked fun _ h => h.forgetMember).bind fun _ => Program.keeps_done _
  split
  · exact hforget
  · split
    · exact hforget
    · exact keeps_startHeartbeat.bind fun _ => Program.keeps_done _

theorem keeps_subscribeTo (topic : Bytes) : KeepsPositions queue rules (.application id) (subscribeTo topic) := by
  unfold subscribeTo
  refine (keeps_locked fun _ h => h.changeTopic topic).bind fun consumer => ?_
  split
  · exact Program.keeps_done _
  · exact keeps_joinAndSync.bind fun _ => keeps_startHeartbeat

theorem metadata_meets (topic : Bytes) :
    Requests queue rules (roundTrip protocolVersion (.metadata ⟨topic⟩)) fun _ => True :=
  roundTrip_meets.mpr ⟨fun _ => nofun, fun _ _ => trivial⟩

theorem keeps_subscribe (topic : Bytes) : KeepsPositions queue rules (.application id) (subscribe topic) := by
  unfold subscribe
  refine (metadata_meets topic).keeps.bind fun response => (Program.keeps_done _).bind fun metadata => ?_
  split
  · exact Program.keeps_done _
  refine (keeps_locked fun _ h => h.prepareLeave topic).bind fun consumer => ?_
  split
  · exact Program.keeps_done _
  split
  · exact (keeps_leavePrevious _ _).bind fun _ => keeps_subscribeTo topic
  · exact keeps_subscribeTo topic

theorem keeps_leave (groupId memberId : Bytes) : KeepsPositions queue rules (.application id) (leave groupId memberId) := by
  unfold leave
  have hclear : KeepsPositions queue rules (.application id) (do let _ ← locked clear : ConsumerProgram Unit) :=
    (keeps_locked fun consumer _ => .clear consumer).bind fun _ => Program.keeps_done _
  split
  · exact hclear
  · refine (sendLeaveGroup_meets _ _).keeps.attempt.bind fun left => ?_
    split
    · exact hclear
    · split
      · exact hclear
      · exact Program.keeps_done _

theorem keeps_close : KeepsPositions queue rules (.application id) close := by
  unfold close
  refine (keeps_locked fun _ h => h.shut).bind fun consumer => ?_
  split
  · exact Program.keeps_done _
  · exact keeps_joinHeartbeat.bind fun _ => keeps_leave _ _

theorem keeps_pollStart : KeepsPositions queue rules (.application id) pollStart := by
  unfold pollStart
  refine (keeps_locked fun _ h => h).bind fun consumer => ?_
  split
  · exact Program.keeps_done _
  split
  · exact Program.keeps_done _
  split
  · exact keeps_joinAndSync
  · exact Program.keeps_done _

/-- The assignment that a turn has copied has no partition twice. -/
theorem keeps_pollRound : KeepsPositions queue rules (.application id) pollRound := by
  intro state
  unfold pollRound
  rw [Program.safe_bind]
  intro before reply after hrely heffect
  obtain ⟨rfl, rfl⟩ := heffect
  have hregular := hrely.1.2 id
  refine ⟨positionsOutline_set hrely.1 hregular (nofun), ?_⟩
  dsimp only
  refine ((pollAssignments_meets _ _ hregular.distinct).keeps.bind fun polled => ?_) _
  exact (keeps_locked fun _ h => h.writeBack _ _ _).bind fun _ => Program.keeps_done _

theorem keeps_poll (turns : Nat) : KeepsPositions queue rules (.application id) (poll turns) := by
  induction turns with
  | zero => exact keeps_pollStart.bind fun _ => keeps_pollRound
  | succ turns ih =>
      unfold poll
      refine keeps_pollStart.bind fun _ => keeps_pollRound.bind fun output => ?_
      split
      · exact ih
      · exact Program.keeps_done _

theorem keeps_seek (topic : Bytes) (partitionId offset : Int) :
    KeepsPositions queue rules (.application id) (seek topic partitionId offset) := by
  unfold seek
  refine (keeps_locked fun consumer h => ?_).bind fun consumer => ?_
  · cases hmoved : seekPosition topic partitionId offset consumer with
    | error status => exact h
    | ok moved => exact h.seekPosition hmoved
  · split <;> exact Program.keeps_done _

theorem nack_request_meets (request : NackRequest) :
    Requests queue rules (roundTrip retryProtocolVersion (.nack request)) fun _ => True :=
  roundTrip_meets.mpr ⟨fun _ => nofun, fun _ _ => trivial⟩

theorem keeps_nack (record : ConsumerRecord) (reason : Bytes) :
    KeepsPositions queue rules (.application id) (nack record reason) := by
  unfold nack
  refine (keeps_locked fun _ h => h).bind fun consumer => ?_
  split
  · exact Program.keeps_done _
  · exact (nack_request_meets _).keeps.bind fun _ => Program.keeps_done _

theorem keeps_commitSync : KeepsPositions queue rules (.application id) commitSync := by
  unfold commitSync
  refine (keeps_locked fun _ h => h).bind fun consumer => ?_
  split
  · exact Program.keeps_done _
  split
  · exact Program.keeps_done _
  · exact (commitAssignments_meets _ _ _).keeps

end Consumer

/-- **Calls** stay within the outline. -/
theorem ConsumerCall.keepsPositions (call : ConsumerCall) (id : Nat) :
    KeepsPositions queue rules (.application id) call.program := by
  cases call with
  | subscribe topic => exact (Consumer.keeps_subscribe topic).bind fun _ => Program.keeps_done _
  | poll turns => exact Consumer.keeps_poll turns
  | seek topic partitionId offset =>
      exact (Consumer.keeps_seek topic partitionId offset).bind fun _ => Program.keeps_done _
  | nack record reason => exact (Consumer.keeps_nack record reason).bind fun _ => Program.keeps_done _
  | commitSync => exact Consumer.keeps_commitSync.bind fun _ => Program.keeps_done _
  | close => exact Consumer.keeps_close.bind fun _ => Program.keeps_done _

/-- **Heartbeats** do so too. -/
theorem Consumer.keeps_heartbeatRound (id : Nat) : KeepsPositions queue rules (.heartbeat id) heartbeatRound := by
  have hlocked : ∀ update : Consumer → Consumer, (∀ consumer, consumer.Regular → (update consumer).Regular) →
      (∀ consumer : Consumer, consumer.SamePositions (update consumer)) →
      KeepsPositions queue rules (.heartbeat id) (locked update) := by
    intro update hregular hsame _ before reply after hrely heffect
    obtain ⟨-, rfl⟩ := heffect
    refine ⟨positionsOutline_set hrely.1 (hregular _ (hrely.1.2 id)) fun own hown => ?_, trivial⟩
    cases hown
    exact hsame _
  unfold heartbeatRound
  refine (hlocked stopHeartbeat (fun _ h => h.stopHeartbeat) fun consumer => ?_).bind fun consumer => ?_
  · unfold stopHeartbeat
    split <;> exact ⟨rfl, rfl⟩
  split
  · exact Program.keeps_done _
  have hrequest : Requests queue rules (roundTrip protocolVersion
      (.heartbeat ⟨consumer.groupId, consumer.memberId, consumer.generationId⟩)) fun _ => True :=
    roundTrip_meets.mpr ⟨fun _ => nofun, fun _ _ => trivial⟩
  refine hrequest.keeps.bind fun response => ?_
  split
  · exact Program.keeps_done _
  · refine (hlocked (heartbeatAnswered _) (fun _ h => h.heartbeatAnswered _) fun consumer => ?_).bind
      fun _ => Program.keeps_done _
    unfold heartbeatAnswered
    split <;> exact ⟨rfl, rfl⟩

/-! ### Runs -/

/-- The outline holds for consumers that make any calls, whatever happens to their broker. -/
theorem positionsOutline_valid {outside : System → System → Prop} {calls : Nat → ConsumerCall → Prop}
    (houtside : ∀ {before after}, outside before after → BrokerStep queue rules before after) :
    (positionsOutline queue rules).Valid (consumerMachine queue rules outside calls) where
  refl := by
    intro thread state
    cases thread with
    | application id => exact ⟨.refl _, rfl⟩
    | heartbeat id => trivial
  trans := by
    intro thread first second third hfirst hsecond
    cases thread with
    | application id => exact ⟨hfirst.1.trans hsecond.1, hsecond.2.trans hfirst.2⟩
    | heartbeat id => trivial
  idle := fun _ _ => trivial
  post := fun _ _ => trivial
  outside := by
    intro before after hinvariant hstep
    obtain ⟨hstep, hconsumers, hresults⟩ := hstep.step houtside
    refine ⟨⟨hinvariant.1.follows (.single hstep), fun id => ?_⟩, fun thread => positions_unmoved hconsumers hresults⟩
    rw [hconsumers]
    exact hinvariant.2 id
  start := by
    intro thread program state _ _ hstarts
    cases thread with
    | application id =>
        obtain ⟨call, -, rfl⟩ := hstarts
        exact call.keepsPositions id state
    | heartbeat id =>
        obtain ⟨-, rfl⟩ := hstarts
        exact Consumer.keeps_heartbeatRound id state
  finish := by
    intro thread result state hinvariant _
    cases thread with
    | heartbeat id => exact ⟨⟨hinvariant, fun other _ => by cases other <;> first | trivial | exact ⟨.refl _, rfl⟩⟩, trivial⟩
    | application id =>
        refine ⟨⟨hinvariant, fun other hother => ?_⟩, trivial⟩
        cases other with
        | heartbeat own => trivial
        | application own =>
            refine ⟨.refl _, World.returnResult_of_ne ?_⟩
            rintro rfl
            exact hother rfl

theorem World.Initial.invariant {world : World} (h : World.Initial queue rules world) :
    (positionsOutline queue rules).invariant world := by
  obtain ⟨hoptions, hstart, groupId, maxBytes⟩ := h
  exact ⟨⟨_, _, _, hoptions, hstart, .refl⟩, fun id => ⟨nofun, List.nodup_nil⟩⟩

/-- **Reached states** follow the outline. -/
theorem ConsumerPool.Reached.positions {outside : System → System → Prop} {calls : Nat → ConsumerCall → Prop}
    {pool : ConsumerPool} (h : pool.Reached queue rules outside calls)
    (houtside : ∀ {before after}, outside before after → BrokerStep queue rules before after) :
    (positionsOutline queue rules).Holds (consumerMachine queue rules outside calls) pool := by
  obtain ⟨world, hinitial, hfollows⟩ := h
  exact (positionsOutline_valid houtside).follows (Outline.holds_idle _ _ hinitial.invariant fun _ => trivial) hfollows

end LogMq
