import LogMq.BrokerCommits
import LogMq.BrokerOffsetRuns
import LogMq.NetDelivery

/-! Committed offsets as the clients see them. In the order in which the broker handles the requests every offset is a
register: a FetchCommittedOffset is answered with the offset of the last CommitOffset that was accepted. -/

namespace LogMq

open ChunkedParser

/-! ### Replies -/

theorem invalidOrInternal_ne (status : Status) : invalidOrInternal status ≠ .none := by
  unfold invalidOrInternal
  split_ifs <;> decide

/-- A success that a client receives is one of the handler. -/
theorem ServedRequest.reply_ok {queue : TaskQueue} {served : ServedRequest} {α : Type} {wrap : α → ResponseBody}
    {reply : Reply α} (hhandle : (served.before.broker.handle queue served.environment served.request).1 =
      makeResponse served.request wrap reply)
    (hcode : ∀ code message, reply = .error (code, message) → code ≠ .none) {response : ResponseEnvelope}
    (hdecode : decodeResponse (served.bytes queue) = .ok response) (hnone : response.error.errorCode = .none) :
    ∃ value, reply = .ok value ∧
      ((wrap value).Typed → response = (makeSuccess served.request (wrap value)).received) := by
  have hencode := workerBytes_success hdecode hnone
  cases reply with
  | error found =>
      obtain ⟨code, message⟩ := found
      have hreceived := decodeResponse_workerBytes hencode (by rw [hhandle]; exact ⟨by decide, by decide⟩)
      rw [hhandle] at hreceived
      cases hdecode.symm.trans hreceived
      exact absurd hnone (hcode code message rfl)
  | ok value =>
      refine ⟨value, rfl, fun htyped => ?_⟩
      have hreceived := decodeResponse_workerBytes hencode (by rw [hhandle]; exact htyped)
      rw [hhandle] at hreceived
      exact Except.ok.inj (hdecode.symm.trans hreceived)

theorem Result.bind_eq_error {ε α β : Type} {x : Except ε α} {f : α → Except ε β} {failure : ε} :
    (x >>= f) = .error failure ↔ x = .error failure ∨ ∃ value, x = .ok value ∧ f value = .error failure := by
  cases x with
  | error found => simp [bind, Except.bind]
  | ok value => simp [bind, Except.bind]

theorem Result.orReply_code {α : Type} {code : Status → ProtocolErrorCode} {result : Result α} {failure : ProtocolErrorCode}
    {message : String} (hcode : ∀ status, code status ≠ .none)
    (h : Result.orReply code result = .error (failure, message)) : failure ≠ .none := by
  cases result with
  | ok value => cases h
  | error status =>
      cases h
      exact hcode status

namespace BrokerService

variable {broker : BrokerService} {environment : Environment} {code : ProtocolErrorCode} {message : String}

theorem handleFetchCommittedOffset_code {request : FetchCommittedOffsetRequest}
    (h : broker.handleFetchCommittedOffset request = .error (code, message)) : code ≠ .none := by
  unfold handleFetchCommittedOffset at h
  rcases Result.bind_eq_error.mp h with hpartition | ⟨store, -, hrest⟩
  · exact Result.orReply_code (fun _ => by decide) hpartition
  · rcases Result.bind_eq_error.mp hrest with hfetch | ⟨offset, -, hresponse⟩
    · exact Result.orReply_code invalidOrInternal_ne hfetch
    · cases hresponse

theorem handleFetchCommittedOffset_ok {request : FetchCommittedOffsetRequest} {response : FetchCommittedOffsetResponse}
    (h : broker.handleFetchCommittedOffset request = .ok response) :
    response = ⟨request.groupId, request.topic, request.partitionId,
      (broker.offsets.offsets ⟨request.groupId, request.topic, request.partitionId⟩).isSome,
      (broker.offsets.offsets ⟨request.groupId, request.topic, request.partitionId⟩).getD 0⟩ := by
  unfold handleFetchCommittedOffset OffsetStore.fetch at h
  simp only [Result.bind_eq_ok, Result.orReply_ok] at h
  obtain ⟨store, -, offset, ⟨⟨⟩, -, hoffset⟩, hresponse⟩ := h
  cases hoffset
  cases hresponse
  rfl

theorem handleCommitOffset_code {request : CommitOffsetRequest}
    (h : (broker.handleCommitOffset environment request).1 = .error (code, message)) : code ≠ .none := by
  unfold handleCommitOffset at h
  cases hcheck : broker.checkCommit request with
  | error reply =>
      rw [hcheck] at h
      cases h
      unfold checkCommit at hcheck
      split at hcheck
      · cases hcheck
        decide
      · rcases Result.bind_eq_error.mp hcheck with hpartition | ⟨store, -, hrest⟩
        · exact Result.orReply_code (fun _ => by decide) hpartition
        · split at hrest
          · cases hrest
            decide
          · cases hrest
  | ok _ =>
      rw [hcheck] at h
      dsimp only at h
      rcases OffsetStore.commit_cases broker.offsets ⟨request.groupId, request.topic, request.partitionId⟩
        request.offset environment.commit with ⟨status, heq⟩ | heq
      · rw [heq] at h
        cases h
        exact invalidOrInternal_ne status
      · rw [heq] at h
        cases h

/-- A CommitOffset writes its offset if it is accepted, and nothing otherwise. -/
theorem handleCommitOffset_cases (request : CommitOffsetRequest) :
    (∃ reply, (broker.handleCommitOffset environment request).1 = .error reply ∧
      (broker.handleCommitOffset environment request).2.offsets = broker.offsets) ∨
    ((broker.handleCommitOffset environment request).1 = .ok request ∧
      (broker.handleCommitOffset environment request).2.offsets.offsets =
        OffsetStore.set broker.offsets.offsets ⟨request.groupId, request.topic, request.partitionId⟩
          request.offset) := by
  unfold handleCommitOffset
  cases broker.checkCommit request with
  | error reply => exact .inl ⟨reply, rfl, rfl⟩
  | ok _ =>
      dsimp only
      rcases OffsetStore.commit_cases broker.offsets ⟨request.groupId, request.topic, request.partitionId⟩
        request.offset environment.commit with ⟨status, heq⟩ | heq
      · rw [heq]
        exact .inl ⟨_, rfl, rfl⟩
      · rw [heq]
        exact .inr ⟨rfl, rfl⟩

end BrokerService

/-! ### The register -/

/-- What a CommitOffset writes, if it is accepted. -/
def ServedRequest.commit? (served : ServedRequest) : Option (ConsumerOffsetKey × Int) :=
  match served.request.body with
  | .commitOffset request =>
      match (served.before.broker.handleCommitOffset served.environment request).1 with
      | .ok accepted => some (⟨accepted.groupId, accepted.topic, accepted.partitionId⟩, accepted.offset)
      | .error _ => none
  | _ => none

theorem lastOffset_cons (commit : ConsumerOffsetKey × Int) (commits : List (ConsumerOffsetKey × Int))
    (key : ConsumerOffsetKey) :
    lastOffset (commit :: commits) key = (lastOffset commits key).or (if key = commit.1 then some commit.2 else none) := by
  unfold lastOffset
  rw [List.reverse_cons, List.find?_append]
  cases (commits.reverse.find? fun commit => commit.1 = key) with
  | some found => rfl
  | none =>
      by_cases hkey : key = commit.1
      · simp [hkey]
      · simp [hkey, Ne.symm hkey]

/-- **One request** writes its own offset, or none. -/
theorem ServedRequest.offsets_after {queue : TaskQueue} {served : ServedRequest} (hdecoded : served.request.Decoded)
    (key : ConsumerOffsetKey) :
    (served.after queue).broker.offsets.offsets key =
      (lastOffset served.commit?.toList key).or (served.before.broker.offsets.offsets key) := by
  unfold ServedRequest.after ServedRequest.commit?
  rw [hdecoded.handle]
  cases hbody : served.request.body with
  | commitOffset request =>
      change (served.before.broker.handleCommitOffset served.environment request).2.offsets.offsets key = _
      dsimp only
      rcases @BrokerService.handleCommitOffset_cases served.before.broker served.environment request with
        ⟨reply, herror, hsame⟩ | ⟨hok, hset⟩
      · rw [herror, hsame]
        rfl
      · rw [hok, hset, Option.toList_some, lastOffset_cons]
        dsimp only
        unfold OffsetStore.set
        split_ifs <;> rfl
  | produce request => exact congrFun (congrArg OffsetStore.offsets (handleProduce_offsets request)) key
  | nack request => exact congrFun (congrArg OffsetStore.offsets (handleNack_offsets request)) key
  | createTopic request => exact congrFun (congrArg OffsetStore.offsets (handleCreateTopic_offsets request)) key
  | joinGroup request =>
      change (served.before.broker.handleJoinGroup served.environment request).2.offsets.offsets key = _
      unfold BrokerService.handleJoinGroup
      split <;> rfl
  | _ => rfl

/-! ### Values of their types -/

/-- The committed offsets are values of their type. -/
def BrokerService.OffsetsTyped (broker : BrokerService) : Prop :=
  ∀ key offset, broker.offsets.files key = some offset ∨ broker.offsets.offsets key = some offset → IsInt64 offset

theorem BrokerService.OffsetsTyped.handle {queue : TaskQueue} {broker : BrokerService} {environment : Environment}
    {envelope : RequestEnvelope} (h : broker.OffsetsTyped) (htyped : envelope.body.Typed) :
    (broker.handle queue environment envelope).2.OffsetsTyped := by
  rcases @handle_offsets queue environment broker envelope with hsame | ⟨request, hbody, hset⟩
  · intro key offset hkey
    rw [hsame] at hkey
    exact h key offset hkey
  · rw [hbody] at htyped
    intro key offset hkey
    rw [hset] at hkey
    unfold OffsetStore.set at hkey
    dsimp only at hkey
    split_ifs at hkey with hown
    · rw [or_self, Option.some.injEq] at hkey
      exact hkey ▸ htyped.2
    · exact h key offset hkey

theorem BrokerService.start_offsets {queue : TaskQueue} {options : BrokerServiceOptions} {directory : DataDirectory}
    {now : UInt64} {broker : BrokerService} (h : BrokerService.start queue options directory now = .ok broker) :
    broker.offsets = OffsetStore.load directory.offsets := by
  unfold BrokerService.start at h
  split at h
  · cases h
  · obtain ⟨topics, -, hrest⟩ := Result.bind_eq_ok.mp h
    obtain ⟨retries, -, hbroker⟩ := Result.bind_eq_ok.mp hrest
    cases hbroker
    rfl

theorem BrokerReaches.offsets_typed {queue : TaskQueue} {rules : Rules} {system : System}
    (h : BrokerReaches queue rules system) : system.broker.OffsetsTyped := by
  obtain ⟨options, now, broker, -, hstart, hfollows⟩ := h
  induction hfollows with
  | refl =>
      intro key offset hkey
      rw [BrokerService.start_offsets hstart] at hkey
      rcases hkey with hkey | hkey <;> cases hkey
  | tail _ hstep ih =>
      cases hstep with
      | request htyped _ => exact ih.handle htyped
      | wake now => exact ih
      | flush flushed => exact ih
      | expire now => exact ih
      | restart _ _ hstart =>
          intro key offset hkey
          rw [BrokerService.start_offsets hstart] at hkey
          exact ih key offset (.inl (or_self_iff.mp hkey))

/-! ### From frame to frame -/

namespace BrokerServer

variable {queue : TaskQueue} {threadCount maxQueueSize : Nat} {first last : System} {state later : BrokerServer}
  {served : List ServedRequest} {key : ConsumerOffsetKey}

theorem background_offsets {system after : System} (h : Relation.ReflTransGen (Background queue) system after) :
    after.broker.offsets = system.broker.offsets := by
  induction h with
  | refl => rfl
  | tail _ hstep ih => cases hstep <;> exact ih

/-- **A run** leaves the last offset that was accepted, or the one it has begun with. -/
theorem Handled.offsets (h : Handled queue first served last) :
    last.broker.offsets.offsets key =
      (lastOffset (served.filterMap ServedRequest.commit?) key).or (first.broker.offsets.offsets key) := by
  induction served generalizing first with
  | nil => rw [background_offsets h]; rfl
  | cons entry rest ih =>
      obtain ⟨hbefore, hdecoded, hrest⟩ := h
      rw [ih hrest, ServedRequest.offsets_after hdecoded, background_offsets hbefore, ← Option.or_assoc]
      congr 1
      cases hcommit : entry.commit? with
      | none => rw [List.filterMap_cons_none hcommit, Option.toList_none]; exact Option.or_none
      | some commit =>
          rw [List.filterMap_cons_some hcommit, Option.toList_some, lastOffset_cons, lastOffset_cons]
          rfl

/-- The state in which a request was handled. -/
theorem Handled.before {entry : ServedRequest} {front back : List ServedRequest}
    (h : Handled queue first (front ++ entry :: back) last) : Handled queue first front entry.before := by
  induction front generalizing first with
  | nil => exact h.1
  | cons head rest ih => exact ⟨h.1, h.2.1, ih h.2.2⟩

/-- **Committed offsets are registers.** A FetchCommittedOffset that succeeds is answered with the offset of the last
CommitOffset that the broker had accepted, or with the one the run has begun with, and every CommitOffset whose success
any connection has received before the FetchCommittedOffset was read is among these. -/
theorem committed_is_fetched (hfirst : BrokerReaches queue {} first)
    (h : Reached queue threadCount maxQueueSize first state) (hlater : Steps.Reaches (step queue) state later)
    {consumer place : Nat} (hunread : state.Unread consumer place) {fetch : RequestEnvelope} {answer : Bytes}
    (hread : later.Answered consumer place fetch answer) {request : FetchCommittedOffsetRequest}
    (hfetch : fetch.body = .fetchCommittedOffset request) {response : ResponseEnvelope}
    (hdecode : decodeResponse answer = .ok response) (hnone : response.error.errorCode = .none) :
    ∃ front entry back offset, later.served = front ++ entry :: back ∧ entry.request = fetch ∧
      offset = (lastOffset (front.filterMap ServedRequest.commit?) ⟨request.groupId, request.topic, request.partitionId⟩).or
        (first.broker.offsets.offsets ⟨request.groupId, request.topic, request.partitionId⟩) ∧
      response.body = .fetchCommittedOffset
        ⟨request.groupId, request.topic, request.partitionId, offset.isSome, offset.getD 0⟩ ∧
      ∀ committer position commit bytes written reply, state.Answered committer position commit bytes →
        commit.body = .commitOffset written → decodeResponse bytes = .ok reply → reply.error.errorCode = .none →
        ∃ own ∈ front, own.request = commit ∧
          own.commit? = some (⟨written.groupId, written.topic, written.partitionId⟩, written.offset) := by
  have hsound := h.sound
  have hsoundLater : Sound queue first later := Reached.sound (h.trans hlater)
  obtain ⟨more, hmore⟩ := reaches_served hlater
  have hfetched := hsoundLater.answered hread (refusal_ne hdecode hnone)
  rw [hmore, executed_append, List.getElem?_append_right (hsound.unread hunread)] at hfetched
  obtain ⟨middle, entry, back, hrest, rfl, rfl⟩ := exists_entry hfetched
  have hserved : later.served = (state.served ++ middle) ++ entry :: back := by rw [hmore, hrest, List.append_assoc]
  have hhandled := hsoundLater.handled
  rw [hserved] at hhandled
  obtain ⟨hfollows, hdecoded, -⟩ := hhandled.split
  refine ⟨state.served ++ middle, entry, back, _, hserved, rfl, rfl, ?_, ?_⟩
  · have hhandle : (entry.before.broker.handle queue entry.environment entry.request).1 = makeResponse entry.request
        .fetchCommittedOffset (entry.before.broker.handleFetchCommittedOffset request) := by
      rw [hdecoded.handle, hfetch]
      rfl
    obtain ⟨value, hok, hresponse⟩ := ServedRequest.reply_ok hhandle
      (fun _ _ => BrokerService.handleFetchCommittedOffset_code) hdecode hnone
    have hvalue := BrokerService.handleFetchCommittedOffset_ok hok
    have hrequest := hdecoded.typed
    rw [hfetch] at hrequest
    rw [hresponse, ← hhandled.before.offsets, hvalue]
    · rfl
    · refine hvalue ▸ ⟨hrequest, ?_⟩
      cases hoffset : entry.before.broker.offsets.offsets ⟨request.groupId, request.topic, request.partitionId⟩ with
      | none => exact (by decide : IsInt64 0)
      | some offset => exact (hfirst.follows hfollows).offsets_typed _ offset (.inr hoffset)
  · intro committer position commit bytes written reply hanswered hcommit hreply hsuccess
    obtain ⟨front, own, rest, hown, rfl, rfl⟩ :=
      exists_entry (hsound.answered hanswered (refusal_ne hreply hsuccess))
    have hcommitted := hsound.handled
    rw [hown] at hcommitted
    obtain ⟨-, hownDecoded, -⟩ := hcommitted.split
    have hhandle : (own.before.broker.handle queue own.environment own.request).1 = makeResponse own.request
        .commitOffset (own.before.broker.handleCommitOffset own.environment written).1 := by
      rw [hownDecoded.handle, hcommit]
      rfl
    obtain ⟨value, hok, -⟩ := ServedRequest.reply_ok hhandle (fun _ _ => BrokerService.handleCommitOffset_code) hreply
      hsuccess
    have hvalue : value = written := by
      rcases @BrokerService.handleCommitOffset_cases own.before.broker own.environment written with
        ⟨failure, herror, -⟩ | ⟨haccepted, -⟩
      · cases herror.symm.trans hok
      · exact Except.ok.inj (hok.symm.trans haccepted)
    refine ⟨own, ?_, rfl, ?_⟩
    · rw [hown]
      simp
    · rw [ServedRequest.commit?, hcommit]
      dsimp only
      rw [hok, hvalue]

def commitOne : RequestEnvelope := ⟨.commitOffset, 1, 3, .commitOffset ⟨text "g", text "a", 0, 1⟩⟩

def committedOf : RequestEnvelope := ⟨.fetchCommittedOffset, 1, 4, .fetchCommittedOffset ⟨text "g", text "a", 0⟩⟩

/-- A record is produced, and a group commits that it has read it. -/
def commitExchange : List BrokerServerEvent := exchange 0 produceOne ++ exchange 1 commitOne

theorem committed_is_fetched_once :
    ∃ state later answer response, Steps.run (step .inOrder) (start 1 1 oneTopic) commitExchange = some state ∧
      Steps.run (step .inOrder) state (exchange 2 committedOf) = some later ∧
      later.Answered 2 0 committedOf answer ∧ decodeResponse answer = .ok response ∧
      ∃ front entry back, later.served = front ++ entry :: back ∧ entry.request = committedOf ∧
        ∃ own ∈ front, own.commit? = some (⟨text "g", text "a", 0⟩, 1) := by
  obtain ⟨state, hrun⟩ := Option.isSome_iff_exists.mp (by decide +kernel :
    (Steps.run (step .inOrder) (start 1 1 oneTopic) commitExchange).isSome = true)
  have hstate : (Steps.run (step .inOrder) (start 1 1 oneTopic) commitExchange).map (fun state =>
      ((state.net.connections 1).map (fun connection => (connection.input, connection.appended.length)),
        (state.net.connections 2).isNone)) = some (some (commitOne.frame, 1), true) := by decide +kernel
  have hcommits : (Steps.run (step .inOrder) (start 1 1 oneTopic) commitExchange).map (fun state =>
      (state.net.connections 1).map fun connection => connection.appended.map fun bytes =>
        (decodeResponse bytes).toOption) =
      some (some [some (makeSuccess commitOne (.commitOffset ⟨text "g", text "a", 0, 1⟩))]) := by decide +kernel
  obtain ⟨later, hrunLater⟩ := Option.isSome_iff_exists.mp (by decide +kernel :
    ((Steps.run (step .inOrder) (start 1 1 oneTopic) commitExchange).bind fun state =>
      Steps.run (step .inOrder) state (exchange 2 committedOf)).isSome = true)
  have hlater : ((Steps.run (step .inOrder) (start 1 1 oneTopic) commitExchange).bind fun state =>
      Steps.run (step .inOrder) state (exchange 2 committedOf)).map (fun later =>
      (later.net.connections 2).map (fun connection => (connection.input, connection.appended.length))) =
      some (some (committedOf.frame, 1)) := by decide +kernel
  have hanswers : ((Steps.run (step .inOrder) (start 1 1 oneTopic) commitExchange).bind fun state =>
      Steps.run (step .inOrder) state (exchange 2 committedOf)).map (fun later =>
      (later.net.connections 2).map fun connection => connection.appended.map fun bytes =>
        (decodeResponse bytes).toOption) =
      some (some [some (makeSuccess committedOf (.fetchCommittedOffset ⟨text "g", text "a", 0, true, 1⟩))]) := by
    decide +kernel
  rw [hrunLater, Option.map_some] at hlater hanswers
  rw [hrun, Option.bind_some] at hrunLater
  rw [hrun, Option.map_some] at hstate hcommits
  obtain ⟨hsent, hnone⟩ := Prod.mk.inj (Option.some.inj hstate)
  obtain ⟨bytes, hanswered, happended⟩ := answered_of_eval (by decide) (by decide +kernel) hsent
  obtain ⟨answer, hread, hanswer⟩ := answered_of_eval (by decide) (by decide +kernel) (Option.some.inj hlater)
  have hdecode := decoded_of_eval hanswer (Option.some.inj hanswers)
  have hunread : state.Unread 2 0 := by
    intro connection hconnection
    rw [hconnection] at hnone
    cases hnone
  obtain ⟨front, entry, back, offset, hserved, hrequest, -, -, hcommitted⟩ := @committed_is_fetched .inOrder 1 1 oneTopic
    state later reaches_oneTopic ⟨_, hrun⟩ ⟨_, hrunLater⟩ 2 0 hunread _ answer hread _ rfl _ hdecode rfl
  obtain ⟨own, hown, -, hcommit⟩ := hcommitted 1 0 _ bytes _ _ hanswered rfl (decoded_of_eval happended (Option.some.inj hcommits)) rfl
  exact ⟨state, later, answer, _, hrun, hrunLater, hread, hdecode, front, entry, back, hserved, hrequest,
    own, hown, hcommit⟩

end BrokerServer

end LogMq
