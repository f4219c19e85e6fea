import LogMq.ClientOwnership

/-! Consumers that own their members. Every call of a consumer leaves it settled, if its requests meet the condition:
it holds the id of the member it owns. So nobody is registered without a consumer that holds the id. -/

namespace LogMq

open Interaction GroupCoordinator

variable {queue : TaskQueue} {rules : Rules} {groupId : Bytes} {id : Nat} {before after state : OwnedWorld}

/-! ### Programs -/

/-- A program that leaves its consumer settled. -/
abbrev KeepsSettled {α : Type} (queue : TaskQueue) (rules : Rules) (groupId : Bytes) (id : Nat)
    (program : ConsumerProgram α) : Prop :=
  ∀ state, Settled groupId id state →
    MemberSafe queue rules groupId id program (fun _ later => Settled groupId id later) state

section Programs

variable {α β : Type} {program : ConsumerProgram α} {rest : α → ConsumerProgram β}

theorem KeepsSettled.bind (h : KeepsSettled queue rules groupId id program)
    (hrest : ∀ value, KeepsSettled queue rules groupId id (rest value)) :
    KeepsSettled queue rules groupId id (program >>= rest) := by
  intro state hsettled
  rw [MemberSafe, Program.safe_bind]
  refine (h state hsettled).mono fun result later hlater => ?_
  cases result with
  | ok value => exact hrest value later hlater
  | error status => exact hlater

theorem KeepsSettled.done (result : Result α) : KeepsSettled queue rules groupId id (.done result) :=
  fun _ hsettled => hsettled

theorem settled_request {version : UInt16} {body : RequestBody} (hbody : body.KeepsGroups) :
    KeepsSettled queue rules groupId id (Consumer.roundTrip version body) :=
  fun _ hsettled => safe_request Settled.relied hsettled hbody fun _ _ _ _ hlater => hlater

/-- A block that keeps the member id of the consumer, and its heartbeat. -/
structure KeepsMember (update : Consumer → Consumer) : Prop where
  group : ∀ consumer, (update consumer).groupId = consumer.groupId
  memberId : ∀ consumer, (update consumer).memberId = consumer.memberId
  running : ∀ consumer, (update consumer).heartbeatRunning = consumer.heartbeatRunning

theorem KeepsMember.intro {update : Consumer → Consumer} (h : ∀ consumer,
    (update consumer).groupId = consumer.groupId ∧ (update consumer).memberId = consumer.memberId ∧
      (update consumer).heartbeatRunning = consumer.heartbeatRunning) : KeepsMember update :=
  ⟨fun consumer => (h consumer).1, fun consumer => (h consumer).2.1, fun consumer => (h consumer).2.2⟩

theorem keepsMember_id : KeepsMember (fun consumer => consumer) := .intro fun _ => ⟨rfl, rfl, rfl⟩

/-- Behind such a block, the consumer that it has read is known. -/
theorem safe_bind_locked {update : Consumer → Consumer} {rest : Consumer → ConsumerProgram β}
    {post : Result β → OwnedWorld → Prop} (hupdate : KeepsMember update) (hsettled : Settled groupId id state)
    (hrest : ∀ {consumer later}, consumer.groupId = groupId → Knows groupId id consumer.memberId later →
      MemberSafe queue rules groupId id (rest consumer) post later) :
    MemberSafe queue rules groupId id (Consumer.locked update >>= rest) post state := by
  rw [MemberSafe, Program.safe_bind]
  refine safe_locked Settled.relied hsettled fun {before} hinvariant hbefore => ⟨⟨hupdate.group _, ?_, ?_, ?_⟩, ?_⟩
  · rw [hupdate.memberId]
    exact hbefore.held
  · rw [hupdate.memberId]
    exact fun _ _ => hbefore.beating
  · rw [hupdate.running]
    exact fun hrunning => hrunning
  · refine hrest (hinvariant.clients id).group ?_
    unfold Knows
    rw [OwnedWorld.locked_self, hupdate.memberId]
    exact hbefore

theorem settled_bind_locked {update : Consumer → Consumer} {rest : Consumer → ConsumerProgram β}
    (hupdate : KeepsMember update) (hrest : ∀ consumer, KeepsSettled queue rules groupId id (rest consumer)) :
    KeepsSettled queue rules groupId id (Consumer.locked update >>= rest) :=
  fun _ hsettled => safe_bind_locked hupdate hsettled fun _ hknows => hrest _ _ hknows.settled

end Programs

namespace Consumer

/-! ### Joining and synchronizing -/

theorem safe_join {topic memberId : Bytes} (hknows : Knows groupId id memberId state) :
    MemberSafe queue rules groupId id (join groupId topic memberId) (fun result later =>
      (∀ joined, result = .ok joined → Joined groupId id joined later) ∧
        ∀ status, result = .error status → Settled groupId id later) state := by
  unfold join
  rw [MemberSafe, Program.safe_bind, Program.safe_attempt]
  refine (safe_sendJoinGroup hknows (Or.inl rfl)).mono fun result later hlater => ?_
  cases result with
  | ok joined =>
      refine ⟨?_, ?_⟩
      · rintro found hfound
        cases hfound
        exact hlater.1 joined rfl
      · intro status hstatus
        cases hstatus
  | error status =>
      have hkept := hlater.2 status rfl
      dsimp only
      split
      · refine (safe_sendJoinGroup hkept (Or.inr rfl)).mono fun result last hlast => ?_
        exact ⟨hlast.1, fun status hstatus => (hlast.2 status hstatus).settled⟩
      · refine ⟨?_, ?_⟩
        · intro joined hjoined
          cases hjoined
        · exact fun _ _ => hkept.settled

/-- The consumer stays joined, and settled where it fails. -/
abbrev StaysJoined {α : Type} (queue : TaskQueue) (rules : Rules) (groupId : Bytes) (id : Nat)
    (joined : JoinGroupResponse) (program : ConsumerProgram α) : Prop :=
  ∀ state, Joined groupId id joined state → MemberSafe queue rules groupId id program (fun result later =>
    Joined groupId id joined later ∧ ∀ status, result = .error status → Settled groupId id later) state

theorem StaysJoined.bind {α β : Type} {joined : JoinGroupResponse} {program : ConsumerProgram α}
    {rest : α → ConsumerProgram β} (h : StaysJoined queue rules groupId id joined program)
    (hrest : ∀ value, StaysJoined queue rules groupId id joined (rest value)) :
    StaysJoined queue rules groupId id joined (program >>= rest) := by
  intro state hjoined
  rw [MemberSafe, Program.safe_bind]
  refine (h state hjoined).mono fun result later hlater => ?_
  cases result with
  | ok value => exact hrest value later hlater.1
  | error status =>
      refine ⟨hlater.1, fun found hfound => ?_⟩
      cases hfound
      exact hlater.2 status rfl

/-- What follows, with the consumer still joined, settles it. -/
theorem StaysJoined.settled_bind {α β : Type} {joined : JoinGroupResponse} {program : ConsumerProgram α}
    {rest : α → ConsumerProgram β} (h : StaysJoined queue rules groupId id joined program)
    (hrest : ∀ value state, Joined groupId id joined state →
      MemberSafe queue rules groupId id (rest value) (fun _ later => Settled groupId id later) state) (state : OwnedWorld)
    (hjoined : Joined groupId id joined state) :
    MemberSafe queue rules groupId id (program >>= rest) (fun _ later => Settled groupId id later) state := by
  rw [MemberSafe, Program.safe_bind]
  refine (h state hjoined).mono fun result later hlater => ?_
  cases result with
  | ok value => exact hrest value later hlater.1
  | error status => exact hlater.2 status rfl

theorem StaysJoined.pure {α : Type} {joined : JoinGroupResponse} (value : α) :
    StaysJoined queue rules groupId id joined (pure value) :=
  fun _ hjoined => ⟨hjoined, fun _ h => (by cases h)⟩

/-- **Synchronizing.** A new member finds the group in its generation, and gets its assignment. -/
theorem staysJoined_sync (joined : JoinGroupResponse) :
    StaysJoined queue rules groupId id joined (sendSyncGroup groupId joined) := by
  intro state hjoined
  unfold sendSyncGroup
  rw [MemberSafe, Program.safe_bind]
  refine safe_request Joined.relied hjoined trivial fun {before after requestId environment} hinvariant hbefore
    hcondition hsame hafter => ⟨hafter, fun status hstatus => ?_⟩
  rcases hbefore.held_or_memberless hinvariant with hheld | ⟨hmemberless, hmember⟩
  · rw [← hsame] at hheld
    exact hafter.settled hheld
  · obtain ⟨hgeneration, hencodes⟩ := hcondition hmemberless
    have hmem : joined.memberId ∈ before.groups.memberIds groupId := by
      rw [← hbefore.owned]
      exact hinvariant.mem_owned (hbefore.owned ▸ hbefore.some)
    obtain ⟨synced, hsynced⟩ := BrokerService.answer_syncGroup hmember hmem hgeneration hencodes
    cases hsynced.symm.trans hstatus

/-- A committed offset of a new member is there. -/
theorem staysJoined_fetch (joined : JoinGroupResponse) (topic : Bytes) (partitionId : Int) :
    StaysJoined queue rules groupId id joined (fetchCommittedOffset groupId topic partitionId) := by
  intro state hjoined
  unfold fetchCommittedOffset
  rw [MemberSafe, Program.safe_bind]
  refine safe_request Joined.relied hjoined trivial fun {before after requestId environment} hinvariant hbefore
    hcondition hsame hafter => ?_
  dsimp only
  split
  · exact ⟨hafter, fun _ h => (by cases h)⟩
  rename_i hpresent
  refine ⟨hafter, fun status hstatus => ?_⟩
  rcases hbefore.held_or_memberless hinvariant with hheld | ⟨hmemberless, -⟩
  · rw [← hsame] at hheld
    exact hafter.settled hheld
  · obtain ⟨hfetchable, hencodes⟩ := hcondition hmemberless
    rcases BrokerService.answer_fetchCommittedOffset hfetchable hencodes with hmissing | ⟨fetched, hfetched⟩
    · exact absurd hmissing hpresent
    · cases hfetched.symm.trans hstatus

theorem staysJoined_fetchRetry (joined : JoinGroupResponse) (topic : Bytes) (partitionId : Int) :
    StaysJoined queue rules groupId id joined (fetchRetryPosition groupId topic partitionId) := by
  unfold fetchRetryPosition
  split
  · exact .pure _
  · exact (staysJoined_fetch joined _ partitionId).bind fun _ => .pure _

theorem staysJoined_fetchPositions (joined : JoinGroupResponse) (topic assignedTopic : Bytes) (partitionIds : List Int) :
    StaysJoined queue rules groupId id joined (fetchPositions groupId topic assignedTopic partitionIds) := by
  induction partitionIds with
  | nil => exact .pure _
  | cons partitionId rest ih =>
      exact (staysJoined_fetch joined _ partitionId).bind fun _ => (staysJoined_fetchRetry joined topic partitionId).bind
        fun _ => ih.bind fun _ => .pure _

/-- The consumer holds the id of its member from now on. -/
theorem safe_adopt {joined : JoinGroupResponse} {topic : Bytes} {assignments : List Assignment}
    (hjoined : Joined groupId id joined state) :
    MemberSafe queue rules groupId id (locked (adopt joined topic assignments))
      (fun _ later => Settled groupId id later) state := by
  refine safe_locked Joined.relied hjoined fun {before} hinvariant hbefore => ⟨⟨rfl, ?_, ?_, fun h => h⟩, ?_⟩
  · exact fun _ => hbefore.owned.symm
  · exact fun _ _ => Or.inl hbefore.owned
  · refine Or.inl ⟨?_, rfl⟩
    rw [OwnedWorld.locked_self]
    exact hbefore.owned

/-- **`JoinAndSync`** leaves its consumer settled, whether it fails or not. -/
theorem settled_joinAndSync : KeepsSettled queue rules groupId id joinAndSync := by
  intro state hsettled
  unfold joinAndSync
  refine safe_bind_locked keepsMember_id hsettled fun {consumer later} hgroup hknows => ?_
  split
  · exact hknows.settled
  rw [hgroup, MemberSafe, Program.safe_bind]
  refine (safe_join hknows).mono fun result later hlater => ?_
  cases result with
  | error status => exact hlater.2 status rfl
  | ok joined =>
      refine (staysJoined_sync joined).settled_bind (fun synced middle hmiddle => ?_) later (hlater.1 joined rfl)
      refine (staysJoined_fetchPositions joined _ _ _).settled_bind (fun assignments last hlast => ?_) middle hmiddle
      rw [MemberSafe, Program.safe_bind]
      refine (safe_adopt hlast).mono fun result final hfinal => ?_
      cases result <;> exact hfinal

/-! ### Calls -/

theorem settled_startHeartbeat : KeepsSettled queue rules groupId id startHeartbeat := by
  intro state hsettled
  unfold startHeartbeat
  rw [MemberSafe, Program.safe_bind]
  refine safe_locked Settled.relied hsettled fun {before} hinvariant hbefore => ?_
  have hrun : (runHeartbeat (before.consumers id)).groupId = (before.consumers id).groupId ∧
      (runHeartbeat (before.consumers id)).memberId = (before.consumers id).memberId ∧
      ((before.consumers id).heartbeatRunning = true → (runHeartbeat (before.consumers id)).heartbeatRunning = true) := by
    unfold runHeartbeat
    split
    · exact ⟨rfl, rfl, fun hrunning => hrunning⟩
    · exact ⟨rfl, rfl, fun _ => rfl⟩
  obtain ⟨hgroup, hmemberId, hrunning⟩ := hrun
  refine ⟨⟨hgroup, ?_, ?_, hrunning⟩, ?_⟩
  · rw [hmemberId]
    exact hbefore.held
  · rw [hmemberId]
    exact fun _ _ => hbefore.beating
  · change Knows groupId id _ _
    rw [OwnedWorld.locked_self, hmemberId]
    unfold Knows
    rw [OwnedWorld.locked_self, hmemberId]
    exact hbefore

/-- A consumer that owns nothing forgets its id. -/
theorem safe_forget {update : Consumer → Consumer}
    (hupdate : ∀ consumer, (update consumer).groupId = consumer.groupId ∧ (update consumer).memberId = [] ∧
      (update consumer).heartbeatRunning = consumer.heartbeatRunning) (hnone : state.owned id = []) :
    MemberSafe queue rules groupId id (do let _ ← locked update : ConsumerProgram Unit)
      (fun _ later => Settled groupId id later) state := by
  rw [MemberSafe, Program.safe_bind]
  have hstable : ∀ {before after : OwnedWorld}, before.owned id = [] → ApplicationRelies groupId id before after →
      after.owned id = [] := fun hnone hrely => hrely.owned.trans hnone
  refine safe_locked hstable hnone fun {before} _ hbefore => ?_
  obtain ⟨hgroup, hnil, hrunning⟩ := hupdate (before.consumers id)
  refine ⟨⟨hgroup, fun hsome => absurd hbefore hsome, fun _ hsome => absurd hnil hsome, ?_⟩, Or.inl ⟨?_, rfl⟩⟩
  · rw [hrunning]
    exact fun h => h
  · rw [OwnedWorld.locked_self, hnil]
    exact hbefore

/-- A request to leave: behind it the consumer owns nothing, or it is settled as before. -/
theorem safe_attemptLeave {memberId : Bytes} {rest : Result Unit → ConsumerProgram Unit}
    (hknows : Knows groupId id memberId state) (hstopped : (state.consumers id).heartbeatRunning = false)
    (hleft : ∀ {later : OwnedWorld}, later.owned id = [] →
      MemberSafe queue rules groupId id (rest (.ok ())) (fun _ last => Settled groupId id last) later)
    (hmissing : ∀ {status : Status} {later : OwnedWorld}, status.code = .notFound → later.owned id = [] →
      MemberSafe queue rules groupId id (rest (.error status)) (fun _ last => Settled groupId id last) later)
    (hrefused : ∀ {status : Status} {later : OwnedWorld}, status.code ≠ .notFound → Settled groupId id later →
      MemberSafe queue rules groupId id (rest (.error status)) (fun _ last => Settled groupId id last) later) :
    MemberSafe queue rules groupId id ((sendLeaveGroup groupId memberId).attempt >>= rest)
      (fun _ later => Settled groupId id later) state := by
  rw [MemberSafe, Program.safe_bind, Program.safe_attempt]
  refine (safe_sendLeaveGroup hknows hstopped).mono fun result later hlater => ?_
  cases result with
  | ok done =>
      refine hleft (hlater.2 ?_)
      intro status hstatus
      cases hstatus
  | error status =>
      by_cases hcode : status.code = .notFound
      · refine hmissing hcode (hlater.2 ?_)
        intro found hfound
        cases hfound
        exact hcode
      · exact hrefused hcode (hlater.1 status rfl hcode).settled

theorem safe_leavePrevious {memberId : Bytes} (hknows : Knows groupId id memberId state) :
    MemberSafe queue rules groupId id (leavePrevious groupId memberId) (fun _ later => Settled groupId id later) state := by
  have hforget : ∀ {later : OwnedWorld}, later.owned id = [] → MemberSafe queue rules groupId id
      (do let _ ← locked forgetMember : ConsumerProgram Unit) (fun _ later => Settled groupId id later) later :=
    safe_forget fun _ => ⟨rfl, rfl, rfl⟩
  unfold leavePrevious
  rw [MemberSafe, Program.safe_bind]
  refine safe_joinHeartbeat Knows.relied hknows fun {after} hafter hstopped => ?_
  refine safe_attemptLeave hafter hstopped hforget (fun {status later} hcode hnone => ?_)
    fun {status later} hcode hsettled => ?_
  · dsimp only
    rw [if_pos hcode]
    exact hforget hnone
  · dsimp only
    rw [if_neg hcode]
    exact (settled_startHeartbeat.bind fun _ => .done _) later hsettled

theorem settled_subscribeTo (topic : Bytes) : KeepsSettled queue rules groupId id (subscribeTo topic) := by
  unfold subscribeTo
  refine settled_bind_locked ?_ fun consumer => ?_
  · refine .intro fun consumer => ?_
    unfold changeTopic
    split <;> exact ⟨rfl, rfl, rfl⟩
  · split
    · exact .done _
    · exact settled_joinAndSync.bind fun _ => settled_startHeartbeat

theorem settled_subscribe (topic : Bytes) : KeepsSettled queue rules groupId id (subscribe topic) := by
  unfold subscribe
  have hbody : RequestBody.KeepsGroups (.metadata ⟨topic⟩) := trivial
  refine (settled_request hbody).bind fun response => (KeepsSettled.done _).bind fun metadata => ?_
  split
  · exact .done _
  intro state hsettled
  refine safe_bind_locked ?_ hsettled fun {consumer later} hgroup hknows => ?_
  · refine .intro fun consumer => ?_
    unfold prepareLeave
    split <;> exact ⟨rfl, rfl, rfl⟩
  split
  · exact hknows.settled
  split
  · rw [hgroup, MemberSafe, Program.safe_bind]
    refine (safe_leavePrevious hknows).mono fun result last hlast => ?_
    cases result with
    | ok done => exact settled_subscribeTo topic last hlast
    | error status => exact hlast
  · exact settled_subscribeTo topic later hknows.settled

theorem safe_leave {memberId : Bytes} (hknows : Knows groupId id memberId state)
    (hstopped : (state.consumers id).heartbeatRunning = false) :
    MemberSafe queue rules groupId id (leave groupId memberId) (fun _ later => Settled groupId id later) state := by
  have hclear : ∀ {later : OwnedWorld}, later.owned id = [] → MemberSafe queue rules groupId id
      (do let _ ← locked clear : ConsumerProgram Unit) (fun _ later => Settled groupId id later) later :=
    safe_forget fun _ => ⟨rfl, rfl, rfl⟩
  unfold leave
  split
  · rename_i hnil
    refine hclear ?_
    rcases hknows with ⟨howned, -⟩ | ⟨hnone, -⟩
    · rw [howned, hnil]
    · exact hnone
  · refine safe_attemptLeave hknows hstopped hclear (fun {status later} hcode hnone => ?_)
      fun {status later} hcode hsettled => ?_
    · dsimp only
      rw [if_pos hcode]
      exact hclear hnone
    · dsimp only
      rw [if_neg hcode]
      exact hsettled

theorem settled_close : KeepsSettled queue rules groupId id close := by
  intro state hsettled
  unfold close
  refine safe_bind_locked ?_ hsettled fun {consumer later} hgroup hknows => ?_
  · refine .intro fun consumer => ?_
    unfold shut
    split <;> exact ⟨rfl, rfl, rfl⟩
  split
  · exact hknows.settled
  rw [hgroup, MemberSafe, Program.safe_bind]
  exact safe_joinHeartbeat Knows.relied hknows fun hafter hstopped => safe_leave hafter hstopped

theorem settled_pollStart : KeepsSettled queue rules groupId id pollStart := by
  unfold pollStart
  refine settled_bind_locked keepsMember_id fun consumer => ?_
  split
  · exact .done _
  split
  · exact .done _
  split
  · exact settled_joinAndSync
  · exact .done _

theorem settled_pollSource (maxBytes : UInt32) (topic : Bytes) (retry : Bool) (partitionId next : Int) :
    KeepsSettled queue rules groupId id (pollSource maxBytes topic retry partitionId next) := by
  unfold pollSource
  have hbody : RequestBody.KeepsGroups (.fetch ⟨topic, partitionId, next, maxBytes⟩) := trivial
  refine (settled_request hbody).bind fun response => ?_
  split
  · exact .done _
  · exact (KeepsSettled.done _).bind fun _ => .done _

theorem settled_pollAssignment (maxBytes : UInt32) (topic : Bytes) (assignment : Assignment) :
    KeepsSettled queue rules groupId id (pollAssignment maxBytes topic assignment) := by
  unfold pollAssignment
  refine (settled_pollSource _ _ _ _ _).bind fun polled => ?_
  obtain ⟨output, next⟩ := polled
  dsimp only
  split
  · exact .done _
  · exact (settled_pollSource _ _ _ _ _).bind fun _ => .done _

theorem settled_pollAssignments (maxBytes : UInt32) (topic : Bytes) (assignments : List Assignment) :
    KeepsSettled queue rules groupId id (pollAssignments maxBytes topic assignments) := by
  induction assignments with
  | nil => exact .done _
  | cons assignment rest ih =>
      exact (settled_pollAssignment maxBytes topic assignment).bind fun _ => ih.bind fun _ => .done _

theorem keepsMember_writeBack (topic : Bytes) (generationId : Int) (polled : List Assignment) :
    KeepsMember (writeBack topic generationId polled) := by
  refine .intro fun consumer => ?_
  unfold writeBack
  split <;> exact ⟨rfl, rfl, rfl⟩

theorem settled_pollRound : KeepsSettled queue rules groupId id pollRound := by
  unfold pollRound
  refine settled_bind_locked keepsMember_id fun consumer => (settled_pollAssignments _ _ _).bind fun polled => ?_
  exact settled_bind_locked (keepsMember_writeBack _ _ _) fun _ => .done _

theorem settled_poll (turns : Nat) : KeepsSettled queue rules groupId id (poll turns) := by
  induction turns with
  | zero => exact settled_pollStart.bind fun _ => settled_pollRound
  | succ turns ih =>
      unfold poll
      refine settled_pollStart.bind fun _ => settled_pollRound.bind fun output => ?_
      split
      · exact ih
      · exact .done _

theorem settled_seek (topic : Bytes) (partitionId offset : Int) :
    KeepsSettled queue rules groupId id (seek topic partitionId offset) := by
  have hmoved : ∀ consumer moved : Consumer, seekPosition topic partitionId offset consumer = .ok moved →
      moved.groupId = consumer.groupId ∧ moved.memberId = consumer.memberId ∧
        moved.heartbeatRunning = consumer.heartbeatRunning := by
    intro consumer moved h
    unfold seekPosition at h
    split at h
    · cases h
    split at h
    · cases h
    dsimp only at h
    split at h
    · cases h
    split at h
    · cases h
    · cases h
      exact ⟨rfl, rfl, rfl⟩
  unfold seek
  refine settled_bind_locked ?_ fun consumer => ?_
  · refine .intro fun consumer => ?_
    split
    · exact ⟨rfl, rfl, rfl⟩
    · rename_i moved hseek
      exact hmoved consumer moved hseek
  · split <;> exact .done _

theorem settled_nack (record : ConsumerRecord) (reason : Bytes) :
    KeepsSettled queue rules groupId id (nack record reason) := by
  unfold nack
  refine settled_bind_locked keepsMember_id fun consumer => ?_
  split
  · exact .done _
  · have hbody : RequestBody.KeepsGroups (.nack ⟨record.topic, record.partitionId, record.offset, reason⟩) := trivial
    exact (settled_request hbody).bind fun _ => .done _

theorem settled_commitSource (topic : Bytes) (retry : Bool) (partitionId offset : Int) :
    KeepsSettled queue rules groupId id (commitSource groupId topic retry partitionId offset) := by
  unfold commitSource
  have hbody : RequestBody.KeepsGroups (.commitOffset ⟨groupId, topic, partitionId, offset⟩) := trivial
  refine (settled_request hbody).bind fun response => ?_
  split
  · exact .done _
  · exact (KeepsSettled.done _).bind fun _ => .done _

theorem settled_commitAssignments (topic : Bytes) (assignments : List Assignment) :
    KeepsSettled queue rules groupId id (commitAssignments groupId topic assignments) := by
  induction assignments with
  | nil => exact .done _
  | cons assignment rest ih =>
      unfold commitAssignments
      refine (settled_commitSource _ _ _ _).bind fun _ => ?_
      split
      · exact ih
      · exact (settled_commitSource _ _ _ _).bind fun _ => ih

theorem settled_commitSync : KeepsSettled queue rules groupId id commitSync := by
  intro state hsettled
  unfold commitSync
  refine safe_bind_locked keepsMember_id hsettled fun {consumer later} hgroup hknows => ?_
  split
  · exact hknows.settled
  split
  · exact hknows.settled
  · rw [hgroup]
    exact settled_commitAssignments _ _ later hknows.settled

end Consumer

/-- **Calls** leave their consumer settled. -/
theorem ConsumerCall.settles (call : ConsumerCall) : KeepsSettled queue rules groupId id call.program := by
  cases call with
  | subscribe topic => exact (Consumer.settled_subscribe topic).bind fun _ => .done _
  | poll turns => exact Consumer.settled_poll turns
  | seek topic partitionId offset => exact (Consumer.settled_seek topic partitionId offset).bind fun _ => .done _
  | nack record reason => exact (Consumer.settled_nack record reason).bind fun _ => .done _
  | commitSync => exact Consumer.settled_commitSync.bind fun _ => .done _
  | close => exact Consumer.settled_close.bind fun _ => .done _

/-! ### Heartbeats -/

/-- A program of a heartbeat under the rules. -/
abbrev BeatSafe {α : Type} (queue : TaskQueue) (rules : Rules) (groupId : Bytes) (id : Nat) (program : ConsumerProgram α)
    (post : Result α → OwnedWorld → Prop) (state : OwnedWorld) : Prop :=
  program.Safe ((owningMachine queue rules groupId).effect (.heartbeat id))
    ((membersOutline groupId).Relied (.heartbeat id)) ((membersOutline groupId).Guaranteed (.heartbeat id)) post state

theorem safe_beat_locked {update : Consumer → Consumer} {post : Result Consumer → OwnedWorld → Prop}
    (hstep : ∀ {before : OwnedWorld}, Ownership groupId before → HeartbeatRelies groupId id state before →
      Harmless id before (update (before.consumers id)) ∧
        (Ownership groupId (before.altered id (update (before.consumers id))) →
          post (.ok (before.consumers id)) (before.altered id (update (before.consumers id))))) :
    BeatSafe queue rules groupId id (Consumer.locked update) post state := by
  intro before reply after hrely heffect
  obtain ⟨⟨⟨rfl, hworld⟩, hjoining⟩, howned⟩ := heffect
  have hafter : after = before.altered id (update (before.consumers id)) :=
    Prod.ext (Prod.ext hworld hjoining) howned
  obtain ⟨hharmless, hpost⟩ := hstep hrely.1 hrely.2
  obtain ⟨hapart, hinvariant, happlication⟩ := hharmless.altered hrely.1
  rw [hafter]
  exact ⟨hapart.guaranteed_heartbeat hinvariant happlication, hpost hinvariant⟩

/-- **Heartbeats** take the id of their consumer only if it owns no member. -/
theorem Consumer.safe_heartbeatRound (hrunning : (state.consumers id).heartbeatRunning = true) :
    BeatSafe queue rules groupId id heartbeatRound (fun _ _ => True) state := by
  unfold heartbeatRound
  rw [BeatSafe, Program.safe_bind]
  refine safe_beat_locked fun {before} hinvariant hrely => ⟨?_, fun hafter => ?_⟩
  · unfold stopHeartbeat
    split
    · exact ⟨rfl, Or.inl rfl, fun h => (by cases h)⟩
    · exact ⟨rfl, Or.inl rfl, fun h => h⟩
  dsimp only
  split
  · trivial
  rename_i hgoes
  rw [not_or, not_or, not_or, not_or] at hgoes
  obtain ⟨hstop, -, -, hsome, -⟩ := hgoes
  have hsame : stopHeartbeat (before.consumers id) = before.consumers id := if_neg hstop
  rw [hsame] at hafter ⊢
  rw [(hinvariant.clients id).group, Program.safe_bind]
  have hbeating := (hinvariant.clients id).beating (hrely.running hrunning) hsome
  have hbeats : ((before.altered id (before.consumers id)).consumers id).heartbeatRunning = true := by
    rw [OwnedWorld.altered_self]
    exact hrely.running hrunning
  intro world reply after hrequest heffect
  obtain ⟨requestId, environment, system, rfl, -, rfl, hstays, hsound⟩ := owning_request (by trivial) hrequest.1 heffect
  obtain ⟨hapart, hserved, happlication, hheartbeat⟩ := hrequest.1.served hstays hsound id
  refine ⟨hapart.guaranteed_heartbeat hserved happlication, ?_⟩
  -- who is unknown owned nothing when it was asked about, and will not in a group that cannot go on
  have hunknown : (world.1.1.system.broker.answer queue environment (groupRequest requestId (.heartbeat
      ⟨groupId, (before.consumers id).memberId, (before.consumers id).generationId⟩))).error.errorCode = .unknownMember →
        world.groups.Stuck groupId ∧ world.owned id = [] := by
    intro hcode
    rcases hbeating with howned | ⟨hstuck, hnone⟩
    · have habsent := BrokerService.answer_heartbeat hcode
      have hkept : world.owned id = before.owned id := hrequest.2.kept hbeats (howned ▸ hsome)
      refine absurd ?_ habsent
      change (before.consumers id).memberId ∈ world.groups.memberIds groupId
      rw [← howned, ← hkept]
      exact hrequest.1.mem_owned (hkept ▸ howned ▸ hsome)
    · exact ⟨hrequest.2.stuck hstuck, hrequest.2.released hstuck hnone⟩
  change BeatSafe queue rules groupId id (do
    let _ ← locked (heartbeatAnswered (world.1.1.system.broker.answer queue environment (groupRequest requestId
      (.heartbeat ⟨groupId, (before.consumers id).memberId, (before.consumers id).generationId⟩))).error.errorCode) :
      ConsumerProgram Unit) (fun _ _ => True) (world.served system)
  rw [BeatSafe, Program.safe_bind]
  refine safe_beat_locked fun {last} hlast hrelied => ⟨?_, fun _ => trivial⟩
  unfold heartbeatAnswered
  split
  · rename_i hcode
    obtain ⟨hstuck, hnone⟩ := hunknown hcode
    exact ⟨rfl, Or.inr ⟨rfl, hrelied.released (hstays.stuck hstuck) hnone⟩, fun h => h⟩
  · exact ⟨rfl, Or.inl rfl, fun h => h⟩
  · exact ⟨rfl, Or.inl rfl, fun h => h⟩

/-! ### Runs -/

/-- A call has ended. -/
theorem Ownership.returned (h : Ownership groupId state) (hsettled : Settled groupId id state)
    (result : Result (List ConsumerRecord)) :
    (membersOutline groupId).Guaranteed (.application id) state
      ((state.1.1.returnResult id result, Function.update state.joining id false), state.owned) := by
  have hapart : Apart groupId id state
      ((state.1.1.returnResult id result, Function.update state.joining id false), state.owned) :=
    ⟨fun _ _ => rfl, fun _ hother => Function.update_of_ne hother _ _, fun _ _ => rfl, fun hstuck => hstuck,
      fun _ _ hmem => hmem⟩
  obtain ⟨hgroup, -, hbeating⟩ := h.clients id
  refine hapart.guaranteed_application (h.stay hapart h.sound rfl rfl ⟨hgroup, fun _ => hsettled.held, hbeating⟩) ?_
  exact ⟨fun hrunning => hrunning, fun _ _ => rfl, fun hstuck => hstuck, fun _ hnone => hnone⟩

theorem membersOutline_valid :
    (membersOutline groupId).Valid (owningMachine queue rules groupId) where
  refl := by
    intro thread state
    cases thread with
    | application id => exact .refl state
    | heartbeat id => exact .refl state
  trans := by
    intro thread first second third hfirst hsecond
    cases thread with
    | application id => exact ApplicationRelies.trans hfirst hsecond
    | heartbeat id => exact HeartbeatRelies.trans hfirst hsecond
  idle := by
    intro thread before after hidle hrely
    cases thread with
    | application id => exact Settled.relied hidle hrely.2
    | heartbeat id => trivial
  post := by
    intro thread result before after hpost hrely
    cases thread with
    | application id => exact Settled.relied hpost hrely.2
    | heartbeat id => trivial
  outside := by
    intro before after hinvariant hstep
    obtain ⟨⟨⟨system, hgroup, hworld⟩, hjoining⟩, howned⟩ := hstep
    have hafter : after = before.served system := Prod.ext (Prod.ext hworld hjoining) howned
    have hstays : Stays groupId before.groups system.broker.groups := .of_view (congrArg _ hgroup)
    have hsound : ∀ group ∈ system.broker.groups.group? groupId, SoundBelow group := by
      rw [hgroup]
      exact hinvariant.sound
    rw [hafter]
    refine ⟨(hinvariant.served hstays hsound 0).2.1, fun thread => ?_⟩
    cases thread with
    | application id => exact (hinvariant.served hstays hsound id).2.2.1
    | heartbeat id => exact (hinvariant.served hstays hsound id).2.2.2
  start := by
    intro thread program state hinvariant hidle hstarts
    cases thread with
    | application id =>
        obtain ⟨call, -, rfl⟩ := hstarts
        exact call.settles state hidle
    | heartbeat id =>
        obtain ⟨hrunning, rfl⟩ := hstarts
        exact Consumer.safe_heartbeatRound hrunning
  finish := by
    intro thread result state hinvariant hpost
    cases thread with
    | heartbeat id =>
        refine ⟨⟨hinvariant, fun other _ => ?_⟩, trivial⟩
        cases other with
        | application own => exact .refl state
        | heartbeat own => exact .refl state
    | application id => exact ⟨hinvariant.returned hpost result, hpost⟩

theorem World.Initial.ownership {world : World} (h : World.Initial queue rules world)
    (hgroup : ∀ id, (world.consumers id).groupId = groupId) : Ownership groupId ((world, fun _ => false), fun _ => []) := by
  obtain ⟨hoptions, hstart, groupIds, maxBytes⟩ := h
  obtain ⟨-, topics, tasks, -, -, rfl⟩ := BrokerService.start_ok.mp hstart
  refine ⟨fun group hmem => (by cases hmem), fun memberId => ?_, fun _ _ _ hsome => absurd rfl hsome, fun id => ?_⟩
  · refine iff_of_false List.not_mem_nil ?_
    rintro ⟨hsome, other, rfl⟩
    exact hsome rfl
  · exact ⟨hgroup id, fun _ hsome => absurd rfl hsome, fun hrunning => (by cases hrunning)⟩

/-- **No member is left behind** in a run where every SyncGroup of a consumer without a registered member id finds the
group in the generation it has joined, and nothing else makes its `JoinAndSync` fail. -/
theorem ownsMembers_kept (queue : TaskQueue) (rules : Rules) :
    OwnsMembers (fun groupId => memberMachine queue rules groupId (KeepsMembers queue groupId)) queue rules := by
  intro groupId world hinitial hgroup pool hfollows hsettled memberId hmem
  obtain ⟨owned, hruns⟩ : ∃ now, (owningMachine queue rules groupId).Follows
      (.idle ((world, fun _ => false), fun _ => [])) (pool.remember now) := hfollows.remember fun _ => []
  have hholds : (membersOutline groupId).Holds (owningMachine queue rules groupId)
      (.idle ((world, fun _ => false), fun _ => [])) := by
    refine Outline.holds_idle _ _ (hinitial.ownership hgroup) fun thread => ?_
    cases thread with
    | heartbeat id => trivial
    | application id =>
        obtain ⟨hoptions, hstart, groupIds, maxBytes⟩ := hinitial
        exact Or.inl ⟨rfl, rfl⟩
  have hlater := membersOutline_valid.follows hholds hruns
  obtain ⟨hsome, id, hown⟩ := (hlater.1.registered memberId).mp hmem
  refine ⟨id, ?_⟩
  have hheld : (pool.shared.1.consumers id).memberId = owned id := by
    cases hjoining : pool.shared.2 id with
    | false => exact (hlater.1.clients id).held hjoining (hown ▸ hsome)
    | true =>
        obtain ⟨result, hprogram⟩ := hsettled id hjoining
        have hthread := hlater.2 (.application id)
        change Outline.Guarded _ _ _ _ (pool.programs (.application id)) at hthread
        rw [hprogram] at hthread
        exact Settled.held hthread (hown ▸ hsome)
  exact hheld.trans hown

def rebalancedWorld : World where
  system := ⟨.fresh {} 1, true⟩
  consumers := fun _ => { groupId := text "g" }

theorem initial_rebalancedWorld : World.Initial .inOrder {} rebalancedWorld :=
  .start trivial (BrokerService.start_fresh _ (by decide) 1) _ _

def rebalancedThread (id count : Nat) : List ConsumerMove :=
  List.replicate count (.act (.application id) (.answered 1 {}))

/-- Two consumers join one after the other; the first one learns of the new generation from a heartbeat, and joins again
when it polls. -/
def joinedRun : List ConsumerMove :=
  .outside (.request {} ⟨.createTopic, protocolVersion, 1, .createTopic ⟨text "x", 1⟩⟩) ::
    .call 0 (.subscribe (text "x")) :: rebalancedThread 0 10 ++ .finish (.application 0) ::
    .call 1 (.subscribe (text "x")) :: rebalancedThread 1 8 ++ .finish (.application 1) ::
    .beat 0 :: List.replicate 3 (.act (.heartbeat 0) (.answered 1 {})) ++ .finish (.heartbeat 0) ::
    .call 0 (.poll 0) :: rebalancedThread 0 11 ++ [.finish (.application 0)]

/-- All requests of the run meet the condition. -/
theorem joinedRun_keepsMembers : ∃ pool, ConsumerMove.runWhile .inOrder
      (ConsumerMove.answered .inOrder (text "g") (KeepsMembers .inOrder (text "g"))) joinedRun (.idle rebalancedWorld) =
        some pool ∧
      pool.shared.system.broker.groups.memberIds (text "g") = [text "member-1", text "member-2"] ∧
      (pool.programs (.application 0)).isNone = true ∧ (pool.programs (.application 1)).isNone = true := by
  have hstate : (ConsumerMove.runWhile .inOrder
      (ConsumerMove.answered .inOrder (text "g") (KeepsMembers .inOrder (text "g"))) joinedRun
      (.idle rebalancedWorld)).map (fun pool => (pool.shared.system.broker.groups.memberIds (text "g"),
        (pool.programs (.application 0)).isNone, (pool.programs (.application 1)).isNone)) =
      some ([text "member-1", text "member-2"], true, true) := by decide +kernel
  obtain ⟨pool, hpool, heq⟩ := Option.map_eq_some_iff.mp hstate
  obtain ⟨hmembers, hfirst, hsecond⟩ := by simpa only [Prod.mk.injEq] using heq
  exact ⟨pool, hpool, hmembers, hfirst, hsecond⟩

/-- Both members are those of the consumers. -/
theorem ownsMembers_kept_joined : ∃ pool, ConsumerMove.runWhile .inOrder
      (ConsumerMove.answered .inOrder (text "g") (KeepsMembers .inOrder (text "g"))) joinedRun (.idle rebalancedWorld) =
        some pool ∧
      ∀ memberId ∈ [text "member-1", text "member-2"], ∃ id, (pool.shared.consumers id).memberId = memberId := by
  obtain ⟨pool, hpool, hmembers, hfirst, hsecond⟩ := joinedRun_keepsMembers
  obtain ⟨joining, hfollows⟩ : ∃ now, ((memberMachine .inOrder {} (text "g")
      (KeepsMembers .inOrder (text "g"))).withHistory joiningHistory).Follows
        (.idle (rebalancedWorld, fun _ => false)) (pool.remember now) :=
    (ConsumerMove.runAnswered_follows hpool).remember fun _ => false
  have hsettled : JoiningPool.Settled (pool.remember joining) := by
    refine JoiningPool.settled_of_idle hfollows fun id => ?_
    by_cases hid : id ∈ [0, 1]
    · rcases List.mem_pair.mp hid with rfl | rfl
      · exact Option.isNone_iff_eq_none.mp hfirst
      · exact Option.isNone_iff_eq_none.mp hsecond
    · have hmoved : ∀ other ∈ joinedRun.filterMap ConsumerMove.client?, other ∈ [0, 1] := by decide +kernel
      exact (ConsumerMove.runWhile_untouched hpool fun hmem => hid (hmoved id hmem)).2
  refine ⟨pool, hpool, fun memberId hmem => ?_⟩
  exact ownsMembers_kept .inOrder {} (text "g") rebalancedWorld initial_rebalancedWorld (fun _ => rfl)
    (pool.remember joining) hfollows hsettled memberId (hmembers ▸ hmem)

/-! ### A rebalance in between

Two consumers join the group. The second `JoinGroup` is handled between the `JoinGroup` and the `SyncGroup` of the
first consumer, which then is in an old generation: its `Subscribe` fails, and it has forgotten its member id. -/

def rebalancedRun : List ConsumerMove :=
  .outside (.request {} ⟨.createTopic, protocolVersion, 1, .createTopic ⟨text "x", 1⟩⟩) ::
    .call 0 (.subscribe (text "x")) :: rebalancedThread 0 5 ++ .call 1 (.subscribe (text "x")) :: rebalancedThread 1 5 ++
    rebalancedThread 0 1 ++ .finish (.application 0) :: rebalancedThread 1 3 ++ [.finish (.application 1)]

/-- The first member is registered, and neither consumer holds its id. -/
theorem rebalancedRun_loses : ∀ pool ∈ ConsumerMove.runWhile .inOrder
      (ConsumerMove.answered .inOrder (text "g") fun _ _ _ _ => True) rebalancedRun (.idle rebalancedWorld),
    text "member-1" ∈ pool.shared.system.broker.groups.memberIds (text "g") ∧
      ∀ id ∈ [0, 1], (pool.shared.consumers id).memberId ≠ text "member-1" ∧
        (pool.programs (.application id)).isNone = true := by
  decide +kernel

theorem not_ownsMembers_rebalanced :
    ¬ OwnsMembers (fun groupId => memberMachine .inOrder {} groupId fun _ _ _ _ => True) .inOrder {} := by
  intro howns
  have hrun : (ConsumerMove.runWhile .inOrder (ConsumerMove.answered .inOrder (text "g") fun _ _ _ _ => True)
      rebalancedRun (.idle rebalancedWorld)).isSome = true := by
    decide +kernel
  obtain ⟨pool, hpool⟩ := Option.isSome_iff_exists.mp hrun
  obtain ⟨hmem, hlost⟩ := rebalancedRun_loses pool hpool
  have hclients : ∀ id, (pool.shared.consumers id).memberId ≠ text "member-1" ∧
      pool.programs (.application id) = none := by
    intro id
    by_cases hid : id ∈ [0, 1]
    · exact (hlost id hid).imp_right Option.isNone_iff_eq_none.mp
    · have hmoved : ∀ other ∈ rebalancedRun.filterMap ConsumerMove.client?, other ∈ [0, 1] := by decide +kernel
      obtain ⟨hsame, hidle⟩ := ConsumerMove.runWhile_untouched hpool fun hmem => hid (hmoved id hmem)
      refine ⟨?_, hidle⟩
      rw [hsame]
      exact (List.cons_ne_nil _ _).symm
  obtain ⟨joining, hfollows⟩ : ∃ now,
      ((memberMachine .inOrder {} (text "g") fun _ _ _ _ => True).withHistory joiningHistory).Follows
        (.idle (rebalancedWorld, fun _ => false)) (pool.remember now) :=
    (ConsumerMove.runAnswered_follows hpool).remember fun _ => false
  have hsettled : JoiningPool.Settled (pool.remember joining) :=
    JoiningPool.settled_of_idle hfollows fun id => (hclients id).2
  obtain ⟨id, hid⟩ := howns (text "g") rebalancedWorld initial_rebalancedWorld (fun _ => rfl) (pool.remember joining)
    hfollows hsettled (text "member-1") hmem
  exact (hclients id).1 hid

end LogMq
