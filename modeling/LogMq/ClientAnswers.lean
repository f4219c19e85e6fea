import LogMq.BrokerGroups
import LogMq.ClientWorld

/-! What a running broker answers to the requests of a consumer. -/

namespace LogMq

open Interaction

namespace BrokerService

variable {queue : TaskQueue} {environment : Environment} {broker : BrokerService} {version : UInt16} {requestId : UInt64}

/-- A request that `Handle` has passed on to its handler. -/
theorem handle_none {body : RequestBody}
    (h : (broker.handle queue environment ⟨body.apiKey, version, requestId, body⟩).1.error.errorCode = .none) :
    broker.handle queue environment ⟨body.apiKey, version, requestId, body⟩ =
      broker.handleBody queue environment ⟨body.apiKey, version, requestId, body⟩ body := by
  unfold handle at h ⊢
  split
  · rename_i hversion
    rw [if_pos hversion] at h
    cases h
  · rw [if_neg (not_not.mpr rfl)]

/-- The body of a response is the value of its handler, if it is of that kind. -/
theorem makeResponse_body {α : Type} {envelope : RequestEnvelope} {wrap : α → ResponseBody} {reply : Reply α}
    {holds : ResponseBody → Option α} {value : α} (h : holds (makeResponse envelope wrap reply).body = some value)
    (hproduce : holds (.produce {}) = none) (hwrap : ∀ value, holds (wrap value) = some value) : reply = .ok value := by
  cases reply with
  | ok found =>
      have hfound := (hwrap found).symm.trans h
      cases hfound
      rfl
  | error error =>
      have hnone := hproduce.symm.trans h
      cases hnone

end BrokerService

/-- The reply to a request is that of a round trip to a broker that has been started and has run since. -/
def Answers (queue : TaskQueue) (rules : Rules) : (action : ConsumerAction) → action.Reply → Prop
  | .request version body, reply =>
      ∃ before after, BrokerReaches queue rules before ∧ RoundTrips queue rules version body before reply after
  | .locked _, _ => True
  | .joinHeartbeat, _ => True

def ConsumerAction.IsRequest : ConsumerAction → Prop
  | .request _ _ => True
  | .locked _ => False
  | .joinHeartbeat => False

/-- A request that commits no offset. -/
def ConsumerAction.CommitsNothing : ConsumerAction → Prop
  | .request _ body => ∀ request, body ≠ .commitOffset request
  | .locked _ => False
  | .joinHeartbeat => False

theorem ConsumerAction.CommitsNothing.isRequest {action : ConsumerAction} (h : action.CommitsNothing) :
    action.IsRequest := by
  cases action with
  | request version body => trivial
  | locked update => exact h
  | joinHeartbeat => exact h

variable {queue : TaskQueue} {rules : Rules} {version : UInt16} {body : RequestBody} {before after : System}
  {reply : Result ResponseEnvelope}

/-- A round trip is a step of the broker, or none. -/
theorem RoundTrips.follows (h : RoundTrips queue rules version body before reply after) :
    BrokerFollows queue rules before after := by
  cases h with
  | answered htyped requestId hallowed => exact .single (.request _ htyped hallowed)
  | replaced htyped requestId hallowed message => exact .single (.request _ htyped hallowed)
  | lost htyped requestId hallowed status => exact .single (.request _ htyped hallowed)
  | unsent status => exact .refl

/-- A response without an error is that of the handler. -/
theorem RoundTrips.handled (h : RoundTrips queue rules version body before reply after) {response : ResponseEnvelope}
    (hreply : reply = .ok response) (hnone : response.error.errorCode = .none) :
    ∃ requestId environment, rules.environment environment ∧
      response = (before.broker.handleBody queue environment ⟨body.apiKey, version, requestId, body⟩ body).1 ∧
      after = ⟨(before.broker.handleBody queue environment ⟨body.apiKey, version, requestId, body⟩ body).2,
        before.intact && environment.faultless⟩ := by
  cases h with
  | @answered htyped requestId environment hallowed =>
      cases hreply
      have hhandle := BrokerService.handle_none hnone
      exact ⟨requestId, environment, hallowed, by rw [hhandle], by rw [hhandle]⟩
  | replaced htyped requestId hallowed message =>
      cases hreply
      exact ProtocolErrorCode.noConfusion hnone
  | lost htyped requestId hallowed status => cases hreply
  | unsent status => cases hreply

/-- **Typed responses** are the values of the handlers. -/
theorem RoundTrips.typed (h : RoundTrips queue rules version body before reply after) {α : Type}
    {holds : ResponseBody → Option α} {expectedApiKey : ApiKey} {expectedName : String} {value : α}
    (htyped : typedResponse holds expectedApiKey expectedName reply = .ok value) :
    ∃ requestId environment, rules.environment environment ∧
      holds (before.broker.handleBody queue environment ⟨body.apiKey, version, requestId, body⟩ body).1.body =
        some value ∧
      after = ⟨(before.broker.handleBody queue environment ⟨body.apiKey, version, requestId, body⟩ body).2,
        before.intact && environment.faultless⟩ := by
  obtain ⟨response, hreply, hnone, -, hbody⟩ := typedResponse_ok htyped
  obtain ⟨requestId, environment, hallowed, rfl, hafter⟩ := h.handled hreply hnone
  exact ⟨requestId, environment, hallowed, hbody, hafter⟩

/-! ### The handlers -/

theorem RoundTrips.fetched {request : FetchRequest}
    (h : RoundTrips queue rules version (.fetch request) before reply after) {response : FetchResponse}
    (htyped : typedResponse Consumer.fetch? .fetch "fetch" reply = .ok response) :
    before.broker.handleFetch version request = .ok response := by
  obtain ⟨requestId, environment, -, hbody, -⟩ := h.typed htyped
  change Consumer.fetch? (makeResponse _ _ (before.broker.handleFetch version request)).body = some response at hbody
  exact BrokerService.makeResponse_body hbody rfl fun _ => rfl

theorem RoundTrips.committed {request : FetchCommittedOffsetRequest}
    (h : RoundTrips queue rules version (.fetchCommittedOffset request) before reply after)
    {response : FetchCommittedOffsetResponse}
    (htyped : typedResponse Consumer.fetchCommittedOffset? .fetchCommittedOffset "fetch committed offset" reply =
      .ok response) : before.broker.handleFetchCommittedOffset request = .ok response := by
  obtain ⟨requestId, environment, -, hbody, -⟩ := h.typed htyped
  change Consumer.fetchCommittedOffset? (makeResponse _ _ (before.broker.handleFetchCommittedOffset request)).body = _
    at hbody
  exact BrokerService.makeResponse_body hbody rfl fun _ => rfl

theorem RoundTrips.joined {request : JoinGroupRequest}
    (h : RoundTrips queue rules version (.joinGroup request) before reply after) {response : JoinGroupResponse}
    (htyped : typedResponse Consumer.joinGroup? .joinGroup "join group" reply = .ok response) :
    ∃ environment, rules.environment environment ∧
      before.broker.handleJoinGroup environment request = (.ok response, after.broker) ∧
      after.intact = (before.intact && environment.faultless) := by
  obtain ⟨requestId, environment, hallowed, hbody, rfl⟩ := h.typed htyped
  change Consumer.joinGroup? (makeResponse _ _ (before.broker.handleJoinGroup environment request).1).body = _ at hbody
  exact ⟨environment, hallowed, Prod.ext (BrokerService.makeResponse_body hbody rfl fun _ => rfl) rfl, rfl⟩

theorem RoundTrips.synced {request : SyncGroupRequest}
    (h : RoundTrips queue rules version (.syncGroup request) before reply after) {response : SyncGroupResponse}
    (htyped : typedResponse Consumer.syncGroup? .syncGroup "sync group" reply = .ok response) :
    ∃ environment, rules.environment environment ∧
      before.broker.handleSyncGroup environment request = (.ok response, after.broker) ∧
      after.intact = (before.intact && environment.faultless) := by
  obtain ⟨requestId, environment, hallowed, hbody, rfl⟩ := h.typed htyped
  change Consumer.syncGroup? (makeResponse _ _ (before.broker.handleSyncGroup environment request).1).body = _ at hbody
  exact ⟨environment, hallowed, Prod.ext (BrokerService.makeResponse_body hbody rfl fun _ => rfl) rfl, rfl⟩

/-- **Fetches** begin with a batch that is not behind the position. -/
theorem Answers.fetch_le {request : FetchRequest} (h : Answers queue rules (.request version (.fetch request)) reply)
    {response : FetchResponse} (htyped : typedResponse Consumer.fetch? .fetch "fetch" reply = .ok response) :
    response.baseOffset ≤ request.offset := by
  obtain ⟨before, after, hreaches, htrip⟩ := h
  obtain ⟨-, -, store, -, hstore, -, hresult⟩ := BrokerService.handleFetch_ok.mp (htrip.fetched htyped)
  rcases hresult with ⟨-, rfl⟩ | ⟨-, batch, records, hread, -, rfl⟩
  · exact le_refl _
  · obtain ⟨held, hinvariant⟩ := hreaches.invariant (Rules.marks_true rules)
    exact ((hinvariant.holds.carries hstore).read_sound hread).2.1

/-- **Joined members** are in a generation. -/
theorem Answers.join_pos {request : JoinGroupRequest}
    (h : Answers queue rules (.request version (.joinGroup request)) reply) {response : JoinGroupResponse}
    (htyped : typedResponse Consumer.joinGroup? .joinGroup "join group" reply = .ok response) :
    0 < response.generationId := by
  obtain ⟨before, after, hreaches, htrip⟩ := h
  obtain ⟨environment, -, hjoin, -⟩ := htrip.joined htyped
  unfold BrokerService.handleJoinGroup at hjoin
  split at hjoin
  · cases hjoin
  · cases hjoin
  · have hreply := Result.orReply_ok.mp (Prod.mk.inj hjoin).1
    exact hreaches.allTidy.joinGroup_ok hreply

/-- **Assignments** have no partition twice. -/
theorem Answers.sync_nodup {request : SyncGroupRequest}
    (h : Answers queue rules (.request version (.syncGroup request)) reply) {response : SyncGroupResponse}
    (htyped : typedResponse Consumer.syncGroup? .syncGroup "sync group" reply = .ok response) :
    response.assignment.partitionIds.Nodup := by
  obtain ⟨before, after, hreaches, htrip⟩ := h
  obtain ⟨environment, -, hsync, -⟩ := htrip.synced htyped
  unfold BrokerService.handleSyncGroup at hsync
  exact hreaches.allTidy.syncGroup_ok (Result.orReply_ok.mp (Prod.mk.inj hsync).1)

/-- A program that does no more than send requests, none of which commits an offset. -/
abbrev Consumer.Requests {α : Type} (queue : TaskQueue) (rules : Rules) (program : ConsumerProgram α)
    (post : Result α → Prop) : Prop := program.Meets ConsumerAction.CommitsNothing (Answers queue rules) post

/-- A program that does no more than send requests. -/
abbrev Consumer.AnyRequests {α : Type} (queue : TaskQueue) (rules : Rules) (program : ConsumerProgram α)
    (post : Result α → Prop) : Prop := program.Meets ConsumerAction.IsRequest (Answers queue rules) post

theorem Consumer.Requests.any {α : Type} {program : ConsumerProgram α} {post : Result α → Prop}
    (h : Consumer.Requests queue rules program post) : Consumer.AnyRequests queue rules program post :=
  Program.Meets.imp h fun _ haction => haction.isRequest

end LogMq
