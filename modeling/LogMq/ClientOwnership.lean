import LogMq.ClientMembership

/-! Who owns the members of a group. A member belongs to the consumer whose `JoinGroup` has been answered with its id,
until it has left. The consumer that owns a member holds its id, except inside `JoinAndSync`, which fails only where the
consumer holds the id already. -/

namespace LogMq

open Interaction GroupCoordinator

/-! ### Histories -/

/-- The member that a consumer owns behind an action: one that has been joined, unless it has left. -/
def ConsumerAction.owning (groups : GroupCoordinator) : (action : ConsumerAction) → action.Reply → Bytes → Bytes
  | .request _ (.joinGroup _), reply, owned =>
      ((typedResponse Consumer.joinGroup? .joinGroup "join group" reply).toOption.map JoinGroupResponse.memberId).getD owned
  | .request _ (.leaveGroup left), _, owned => if owned ∈ groups.memberIds left.groupId then owned else []
  | .request _ _, _, owned => owned
  | .locked _, _, owned => owned
  | .joinHeartbeat, _, owned => owned

/-- Which member each consumer owns. -/
def owningHistory : History ConsumerThread (World × (Nat → Bool)) ConsumerAction ConsumerAction.Reply (Nat → Bytes) where
  acted
    | .application id, action, _, reply, after, owned =>
        Function.update owned id (action.owning after.1.system.broker.groups reply (owned id))
    | .heartbeat _, _, _, _, _, owned => owned

/-- Consumers, which of them are inside `JoinAndSync`, and which members they own. -/
abbrev OwnedWorld := (World × (Nat → Bool)) × (Nat → Bytes)

namespace OwnedWorld

abbrev consumers (state : OwnedWorld) : Nat → Consumer := state.1.1.consumers

abbrev groups (state : OwnedWorld) : GroupCoordinator := state.1.1.system.broker.groups

abbrev joining (state : OwnedWorld) : Nat → Bool := state.1.2

abbrev owned (state : OwnedWorld) : Nat → Bytes := state.2

end OwnedWorld

/-- The consumers of a group under the condition, with both histories. -/
abbrev owningMachine (queue : TaskQueue) (rules : Rules) (groupId : Bytes) :
    Machine ConsumerThread OwnedWorld ConsumerAction ConsumerAction.Reply Status ConsumerThread.Output :=
  ((memberMachine queue rules groupId (KeepsMembers queue groupId)).withHistory joiningHistory).withHistory owningHistory

/-! ### The outline -/

section Outline

variable (groupId : Bytes)

/-- What holds of a consumer and the member it owns. -/
structure ClientOwns (state : OwnedWorld) (id : Nat) : Prop where
  group : (state.consumers id).groupId = groupId
  held : state.joining id = false → state.owned id ≠ [] → (state.consumers id).memberId = state.owned id
  beating : (state.consumers id).heartbeatRunning = true → (state.consumers id).memberId ≠ [] →
    state.owned id = (state.consumers id).memberId ∨ state.groups.Stuck groupId ∧ state.owned id = []

/-- The registered members are the owned ones, and each has one owner. -/
structure Ownership (state : OwnedWorld) : Prop where
  sound : ∀ group ∈ state.groups.group? groupId, SoundBelow group
  registered : ∀ memberId, memberId ∈ state.groups.memberIds groupId ↔ memberId ≠ [] ∧ ∃ id, state.owned id = memberId
  distinct : ∀ id other, state.owned id = state.owned other → state.owned id ≠ [] → id = other
  clients : ∀ id, ClientOwns groupId state id

/-- What the application of a consumer relies on: only its heartbeat takes its member id, and only if it owns none. -/
structure ApplicationRelies (id : Nat) (before after : OwnedWorld) : Prop where
  owned : after.owned id = before.owned id
  memberId : (after.consumers id).memberId = (before.consumers id).memberId ∨
    (after.consumers id).memberId = [] ∧ before.owned id = []
  stopped : (before.consumers id).heartbeatRunning = false → (after.consumers id).heartbeatRunning = false
  stuck : before.groups.Stuck groupId → after.groups.Stuck groupId
  shrinks : before.groups.Stuck groupId → ∀ memberId ∈ after.groups.memberIds groupId,
    memberId ∈ before.groups.memberIds groupId

/-- What the heartbeat of a consumer relies on while it runs: the consumer does not leave, and does not join again in a
group that cannot go on. -/
structure HeartbeatRelies (id : Nat) (before after : OwnedWorld) : Prop where
  running : (before.consumers id).heartbeatRunning = true → (after.consumers id).heartbeatRunning = true
  kept : (before.consumers id).heartbeatRunning = true → before.owned id ≠ [] → after.owned id = before.owned id
  stuck : before.groups.Stuck groupId → after.groups.Stuck groupId
  released : before.groups.Stuck groupId → before.owned id = [] → after.owned id = []

/-- The consumer has been seen to hold a member id: it owns that member, or nobody does any more. -/
def Knows (id : Nat) (memberId : Bytes) (state : OwnedWorld) : Prop :=
  state.owned id = memberId ∧ (state.consumers id).memberId = memberId ∨
    state.owned id = [] ∧ state.groups.Stuck groupId ∧ memberId ∉ state.groups.memberIds groupId ∧
      ((state.consumers id).memberId = memberId ∨ (state.consumers id).memberId = [])

/-- The consumer owns the member whose id it holds, or nobody does any more. -/
def Settled (id : Nat) (state : OwnedWorld) : Prop := Knows groupId id (state.consumers id).memberId state

/-- The rules for the threads of the consumers. -/
def membersOutline : Outline ConsumerThread OwnedWorld Status ConsumerThread.Output where
  invariant := Ownership groupId
  rely
    | .application id => ApplicationRelies groupId id
    | .heartbeat id => HeartbeatRelies groupId id
  idle
    | .application id => Settled groupId id
    | .heartbeat _ => fun _ => True
  post
    | .application id, _ => Settled groupId id
    | .heartbeat _, _ => fun _ => True

/-- What a step of one consumer leaves as it is for the others. -/
structure Apart (id : Nat) (before after : OwnedWorld) : Prop where
  owned : ∀ other, other ≠ id → after.owned other = before.owned other
  joining : ∀ other, other ≠ id → after.joining other = before.joining other
  consumers : ∀ other, other ≠ id → after.consumers other = before.consumers other
  stuck : before.groups.Stuck groupId → after.groups.Stuck groupId
  shrinks : before.groups.Stuck groupId → ∀ memberId ∈ after.groups.memberIds groupId,
    memberId ∈ before.groups.memberIds groupId

end Outline

variable {queue : TaskQueue} {rules : Rules} {groupId : Bytes} {id : Nat} {before after state : OwnedWorld}

theorem ApplicationRelies.refl (state : OwnedWorld) : ApplicationRelies groupId id state state :=
  ⟨rfl, Or.inl rfl, fun h => h, fun h => h, fun _ _ h => h⟩

theorem ApplicationRelies.trans (h : ApplicationRelies groupId id state before)
    (hnext : ApplicationRelies groupId id before after) : ApplicationRelies groupId id state after where
  owned := hnext.owned.trans h.owned
  memberId := by
    rcases hnext.memberId with hsame | ⟨hnil, howned⟩
    · rw [hsame]
      exact h.memberId
    · exact Or.inr ⟨hnil, h.owned ▸ howned⟩
  stopped := fun hstopped => hnext.stopped (h.stopped hstopped)
  stuck := fun hstuck => hnext.stuck (h.stuck hstuck)
  shrinks := fun hstuck memberId hmem => h.shrinks hstuck memberId (hnext.shrinks (h.stuck hstuck) memberId hmem)

theorem HeartbeatRelies.refl (state : OwnedWorld) : HeartbeatRelies groupId id state state :=
  ⟨fun h => h, fun _ _ => rfl, fun h => h, fun _ h => h⟩

theorem HeartbeatRelies.trans (h : HeartbeatRelies groupId id state before)
    (hnext : HeartbeatRelies groupId id before after) : HeartbeatRelies groupId id state after where
  running := fun hrunning => hnext.running (h.running hrunning)
  kept := by
    intro hrunning howned
    have hfirst := h.kept hrunning howned
    exact (hnext.kept (h.running hrunning) (hfirst ▸ howned)).trans hfirst
  stuck := fun hstuck => hnext.stuck (h.stuck hstuck)
  released := fun hstuck howned => hnext.released (h.stuck hstuck) (h.released hstuck howned)

/-- The own heartbeat may take the id of a member that is not owned. -/
theorem Knows.relied {memberId : Bytes} (h : Knows groupId id memberId before)
    (hrely : ApplicationRelies groupId id before after) : Knows groupId id memberId after := by
  rcases h with ⟨howned, hheld⟩ | ⟨howned, hstuck, habsent, hheld⟩
  · refine Or.inl ⟨hrely.owned.trans howned, ?_⟩
    rcases hrely.memberId with hsame | ⟨hnil, hnone⟩
    · exact hsame.trans hheld
    · rw [hnil, ← howned, hnone]
  · refine Or.inr ⟨hrely.owned.trans howned, hrely.stuck hstuck, fun hmem => habsent (hrely.shrinks hstuck _ hmem), ?_⟩
    rcases hrely.memberId with hsame | ⟨hnil, -⟩
    · rw [hsame]
      exact hheld
    · exact Or.inr hnil

theorem Knows.settled {memberId : Bytes} (h : Knows groupId id memberId state) : Settled groupId id state := by
  rcases h with ⟨howned, hheld⟩ | ⟨howned, hstuck, habsent, hheld⟩
  · exact Or.inl ⟨howned.trans hheld.symm, rfl⟩
  · rcases hheld with hsame | hnil
    · exact Or.inr ⟨howned, hstuck, hsame ▸ habsent, Or.inl rfl⟩
    · exact Or.inl ⟨howned.trans hnil.symm, rfl⟩

theorem Settled.relied (h : Settled groupId id before) (hrely : ApplicationRelies groupId id before after) :
    Settled groupId id after := (Knows.relied h hrely).settled

/-- A consumer that owns a member holds its id. -/
theorem Settled.held (h : Settled groupId id state) (howned : state.owned id ≠ []) :
    (state.consumers id).memberId = state.owned id := by
  rcases h with ⟨hsame, -⟩ | ⟨hnone, -⟩
  · exact hsame.symm
  · exact absurd hnone howned

theorem Settled.beating (h : Settled groupId id state) :
    state.owned id = (state.consumers id).memberId ∨ state.groups.Stuck groupId ∧ state.owned id = [] := by
  rcases h with ⟨hsame, -⟩ | ⟨hnone, hstuck, -⟩
  · exact Or.inl hsame
  · exact Or.inr ⟨hstuck, hnone⟩

namespace Ownership

theorem mem_owned (h : Ownership groupId state) (howned : state.owned id ≠ []) :
    state.owned id ∈ state.groups.memberIds groupId := (h.registered _).mpr ⟨howned, id, rfl⟩

theorem nil_notMem (h : Ownership groupId state) : [] ∉ state.groups.memberIds groupId :=
  fun hmem => ((h.registered []).mp hmem).1 rfl

/-- **One consumer moves.** The others are as before. -/
theorem move (h : Ownership groupId before) (hapart : Apart groupId id before after)
    (hsound : ∀ group ∈ after.groups.group? groupId, SoundBelow group)
    (hregistered : ∀ memberId, memberId ∈ after.groups.memberIds groupId ↔
      memberId ≠ [] ∧ ∃ other, after.owned other = memberId)
    (hdistinct : ∀ first second, after.owned first = after.owned second → after.owned first ≠ [] → first = second)
    (hclient : ClientOwns groupId after id) : Ownership groupId after where
  sound := hsound
  registered := hregistered
  distinct := hdistinct
  clients := by
    intro other
    by_cases hother : other = id
    · rw [hother]
      exact hclient
    · obtain ⟨hgroup, hheld, hbeating⟩ := h.clients other
      refine ⟨?_, ?_, ?_⟩
      · rw [hapart.consumers other hother]
        exact hgroup
      · rw [hapart.joining other hother, hapart.owned other hother, hapart.consumers other hother]
        exact hheld
      · rw [hapart.owned other hother, hapart.consumers other hother]
        exact fun hrunning hsome => (hbeating hrunning hsome).imp_right fun hboth => ⟨hapart.stuck hboth.1, hboth.2⟩

/-- One consumer moves, and the members stay. -/
theorem stay (h : Ownership groupId before) (hapart : Apart groupId id before after)
    (hsound : ∀ group ∈ after.groups.group? groupId, SoundBelow group)
    (hmembers : after.groups.memberIds groupId = before.groups.memberIds groupId)
    (howned : after.owned id = before.owned id) (hclient : ClientOwns groupId after id) : Ownership groupId after := by
  have hsame : after.owned = before.owned := by
    funext other
    by_cases hother : other = id
    · rw [hother, howned]
    · exact hapart.owned other hother
  refine h.move hapart hsound ?_ ?_ hclient
  · rw [hmembers, hsame]
    exact h.registered
  · rw [hsame]
    exact h.distinct

end Ownership

namespace Apart

theorem application (h : Apart groupId id before after) {other : Nat} (hother : other ≠ id) :
    ApplicationRelies groupId other before after where
  owned := h.owned other hother
  memberId := Or.inl (by rw [h.consumers other hother])
  stopped := by
    rw [h.consumers other hother]
    exact fun hstopped => hstopped
  stuck := h.stuck
  shrinks := h.shrinks

theorem heartbeat (h : Apart groupId id before after) {other : Nat} (hother : other ≠ id) :
    HeartbeatRelies groupId other before after where
  running := by
    rw [h.consumers other hother]
    exact fun hrunning => hrunning
  kept := fun _ _ => h.owned other hother
  stuck := h.stuck
  released := fun _ hnone => (h.owned other hother).trans hnone

/-- A step of an application owes something to its own heartbeat only. -/
theorem guaranteed_application (h : Apart groupId id before after) (hinvariant : Ownership groupId after)
    (hheartbeat : HeartbeatRelies groupId id before after) :
    (membersOutline groupId).Guaranteed (.application id) before after := by
  refine ⟨hinvariant, fun thread hthread => ?_⟩
  cases thread with
  | application other => exact h.application fun heq => hthread (congrArg ConsumerThread.application heq)
  | heartbeat other =>
      by_cases hother : other = id
      · rw [hother]
        exact hheartbeat
      · exact h.heartbeat hother

theorem guaranteed_heartbeat (h : Apart groupId id before after) (hinvariant : Ownership groupId after)
    (happlication : ApplicationRelies groupId id before after) :
    (membersOutline groupId).Guaranteed (.heartbeat id) before after := by
  refine ⟨hinvariant, fun thread hthread => ?_⟩
  cases thread with
  | heartbeat other => exact h.heartbeat fun heq => hthread (congrArg ConsumerThread.heartbeat heq)
  | application other =>
      by_cases hother : other = id
      · rw [hother]
        exact happlication
      · exact h.application hother

end Apart

/-! ### Actions -/

/-- The broker has changed, but not the members of the group. -/
def OwnedWorld.served (state : OwnedWorld) (system : System) : OwnedWorld :=
  ((state.1.1.setSystem system, state.joining), state.owned)

theorem Ownership.served (h : Ownership groupId state) {system : System}
    (hstays : Stays groupId state.groups system.broker.groups)
    (hsound : ∀ group ∈ system.broker.groups.group? groupId, SoundBelow group) (id : Nat) :
    Apart groupId id state (state.served system) ∧ Ownership groupId (state.served system) ∧
      ApplicationRelies groupId id state (state.served system) ∧
      HeartbeatRelies groupId id state (state.served system) := by
  have hapart : Apart groupId id state (state.served system) :=
    ⟨fun _ _ => rfl, fun _ _ => rfl, fun _ _ => rfl, hstays.stuck, fun _ => hstays.subset⟩
  obtain ⟨hgroup, hheld, hbeating⟩ := h.clients id
  refine ⟨hapart, h.stay hapart hsound hstays.members rfl ⟨hgroup, hheld, fun hrunning hsome => ?_⟩, ?_, ?_⟩
  · exact (hbeating hrunning hsome).imp_right fun hboth => ⟨hstays.stuck hboth.1, hboth.2⟩
  · exact ⟨rfl, Or.inl rfl, fun hstopped => hstopped, hstays.stuck, fun _ => hstays.subset⟩
  · exact ⟨fun hrunning => hrunning, fun _ _ => rfl, hstays.stuck, fun _ hnone => hnone⟩

/-- A request that neither joins nor leaves. -/
theorem owning_request {thread : ConsumerThread} {version : UInt16} {body : RequestBody} {reply : Result ResponseEnvelope}
    (hbody : body.KeepsGroups) (hinvariant : Ownership groupId before)
    (heffect : (owningMachine queue rules groupId).effect thread (.request version body) before reply after) :
    ∃ requestId environment system, after = before.served system ∧
      KeepsMembers queue groupId thread before.1.1 environment ⟨body.apiKey, version, requestId, body⟩ ∧
      reply = .ok (before.1.1.system.broker.answer queue environment ⟨body.apiKey, version, requestId, body⟩) ∧
      Stays groupId before.groups system.broker.groups ∧
      ∀ group ∈ system.broker.groups.group? groupId, SoundBelow group := by
  obtain ⟨⟨world, joining⟩, owned⟩ := after
  obtain ⟨⟨⟨requestId, environment, -, -, hcondition, hreply, hworld⟩, hjoining⟩, howned⟩ := heffect
  have hsame : joining = before.joining := by
    refine hjoining.trans ?_
    cases thread with
    | heartbeat other => rfl
    | application other =>
        refine (congrArg (Function.update before.joining other) ?_).trans (Function.update_eq_self other before.joining)
        cases body <;> first | rfl | exact hbody.elim
  have hsame' : owned = before.owned := by
    refine howned.trans ?_
    cases thread with
    | heartbeat other => rfl
    | application other =>
        refine (congrArg (Function.update before.owned other) ?_).trans (Function.update_eq_self other before.owned)
        cases body <;> first | rfl | exact hbody.elim
  cases hworld
  cases hsame
  cases hsame'
  exact ⟨requestId, environment,
    ⟨(before.1.1.system.broker.handle queue environment ⟨body.apiKey, version, requestId, body⟩).2,
      before.1.1.system.intact && environment.faultless⟩,
    rfl, hcondition, hreply, BrokerService.handle_stays hbody, BrokerService.handle_sound hinvariant.sound _⟩

/-- A block under the mutex has changed a consumer; its application is not inside `JoinAndSync`. -/
def OwnedWorld.locked (state : OwnedWorld) (id : Nat) (consumer : Consumer) : OwnedWorld :=
  ((state.1.1.setConsumer id consumer, Function.update state.joining id false), state.owned)

@[simp] theorem OwnedWorld.locked_self (state : OwnedWorld) (id : Nat) (consumer : Consumer) :
    (state.locked id consumer).consumers id = consumer := World.setConsumer_self

theorem OwnedWorld.locked_apart (state : OwnedWorld) (id : Nat) (consumer : Consumer) :
    Apart groupId id state (state.locked id consumer) where
  owned := fun _ _ => rfl
  joining := fun _ hother => Function.update_of_ne hother _ _
  consumers := fun _ hother => World.setConsumer_of_ne hother
  stuck := fun hstuck => hstuck
  shrinks := fun _ _ hmem => hmem

/-- What a block of the application owes. -/
structure BlockKeeps (groupId : Bytes) (id : Nat) (state : OwnedWorld) (consumer : Consumer) : Prop where
  group : consumer.groupId = (state.consumers id).groupId
  held : state.owned id ≠ [] → consumer.memberId = state.owned id
  beating : consumer.heartbeatRunning = true → consumer.memberId ≠ [] →
    state.owned id = consumer.memberId ∨ state.groups.Stuck groupId ∧ state.owned id = []
  running : (state.consumers id).heartbeatRunning = true → consumer.heartbeatRunning = true

theorem BlockKeeps.guaranteed {consumer : Consumer} (h : BlockKeeps groupId id state consumer)
    (hinvariant : Ownership groupId state) :
    (membersOutline groupId).Guaranteed (.application id) state (state.locked id consumer) := by
  have hapart : Apart groupId id state (state.locked id consumer) := state.locked_apart id consumer
  have hclient : ClientOwns groupId (state.locked id consumer) id := by
    refine ⟨?_, fun _ => ?_, ?_⟩
    · rw [OwnedWorld.locked_self, h.group]
      exact (hinvariant.clients id).group
    · rw [OwnedWorld.locked_self]
      exact h.held
    · rw [OwnedWorld.locked_self]
      exact h.beating
  refine hapart.guaranteed_application (hinvariant.stay hapart hinvariant.sound rfl rfl hclient) ⟨?_, ?_, ?_, ?_⟩
  · rw [OwnedWorld.locked_self]
    exact h.running
  · exact fun _ _ => rfl
  · exact fun hstuck => hstuck
  · exact fun _ hnone => hnone

/-- A consumer has changed otherwise. -/
def OwnedWorld.altered (state : OwnedWorld) (id : Nat) (consumer : Consumer) : OwnedWorld :=
  ((state.1.1.setConsumer id consumer, state.joining), state.owned)

@[simp] theorem OwnedWorld.altered_self (state : OwnedWorld) (id : Nat) (consumer : Consumer) :
    (state.altered id consumer).consumers id = consumer := World.setConsumer_self

/-- A change that takes at most the id of a member that is not owned, and starts no heartbeat. -/
structure Harmless (id : Nat) (state : OwnedWorld) (consumer : Consumer) : Prop where
  group : consumer.groupId = (state.consumers id).groupId
  memberId : consumer.memberId = (state.consumers id).memberId ∨ consumer.memberId = [] ∧ state.owned id = []
  running : consumer.heartbeatRunning = true → (state.consumers id).heartbeatRunning = true

theorem Harmless.altered {consumer : Consumer} (h : Harmless id state consumer) (hinvariant : Ownership groupId state) :
    Apart groupId id state (state.altered id consumer) ∧ Ownership groupId (state.altered id consumer) ∧
      ApplicationRelies groupId id state (state.altered id consumer) := by
  have hapart : Apart groupId id state (state.altered id consumer) :=
    ⟨fun _ _ => rfl, fun _ _ => rfl, fun _ hother => World.setConsumer_of_ne hother, fun hstuck => hstuck,
      fun _ _ hmem => hmem⟩
  obtain ⟨hgroup, hheld, hbeating⟩ := hinvariant.clients id
  have hclient : ClientOwns groupId (state.altered id consumer) id := by
    refine ⟨?_, fun hoff howned => ?_, fun hrunning hsome => ?_⟩
    · rw [OwnedWorld.altered_self, h.group]
      exact hgroup
    · rw [OwnedWorld.altered_self]
      rcases h.memberId with hsame | ⟨-, hnone⟩
      · rw [hsame]
        exact hheld hoff howned
      · exact absurd hnone howned
    · rw [OwnedWorld.altered_self] at hrunning hsome ⊢
      rcases h.memberId with hsame | ⟨hnil, -⟩
      · rw [hsame] at hsome ⊢
        exact hbeating (h.running hrunning) hsome
      · exact absurd hnil hsome
  refine ⟨hapart, hinvariant.stay hapart hinvariant.sound rfl rfl hclient, ⟨rfl, ?_, fun hstopped => ?_, hapart.stuck,
    hapart.shrinks⟩⟩
  · rw [OwnedWorld.altered_self]
    exact h.memberId
  · rw [OwnedWorld.altered_self]
    by_contra hrunning
    rw [h.running (Bool.eq_true_of_not_eq_false hrunning)] at hstopped
    cases hstopped

/-- A `JoinGroup` has been answered, and the consumer owns a member. -/
def OwnedWorld.joined (state : OwnedWorld) (id : Nat) (system : System) (memberId : Bytes) : OwnedWorld :=
  ((state.1.1.setSystem system, Function.update state.joining id true), Function.update state.owned id memberId)

theorem OwnedWorld.joined_owned (state : OwnedWorld) (id : Nat) (system : System) (memberId : Bytes) :
    (state.joined id system memberId).owned id = memberId := Function.update_self _ _ _

theorem OwnedWorld.joined_client {system : System} {memberId : Bytes} (h : ClientOwns groupId state id)
    (hbeating : (state.consumers id).heartbeatRunning = true → (state.consumers id).memberId ≠ [] →
      memberId = (state.consumers id).memberId ∨ system.broker.groups.Stuck groupId ∧ memberId = []) :
    ClientOwns groupId (state.joined id system memberId) id := by
  refine ⟨h.group, fun hoff => ?_, fun hrunning hsome => ?_⟩
  · have htrue : (state.joined id system memberId).joining id = true := Function.update_self _ _ _
    rw [htrue] at hoff
    cases hoff
  · rw [joined_owned]
    exact hbeating hrunning hsome

/-- A member joins again, or nobody joins. -/
theorem Ownership.rejoined (h : Ownership groupId state) {system : System}
    (hstays : Stays groupId state.groups system.broker.groups)
    (hsound : ∀ group ∈ system.broker.groups.group? groupId, SoundBelow group) :
    (membersOutline groupId).Guaranteed (.application id) state (state.joined id system (state.owned id)) ∧
      ApplicationRelies groupId id state (state.joined id system (state.owned id)) := by
  have hapart : Apart groupId id state (state.joined id system (state.owned id)) :=
    ⟨fun _ hother => Function.update_of_ne hother _ _, fun _ hother => Function.update_of_ne hother _ _, fun _ _ => rfl,
      hstays.stuck, fun _ => hstays.subset⟩
  have howned := state.joined_owned id system (state.owned id)
  have hclient := h.clients id
  have hnow : ClientOwns groupId (state.joined id system (state.owned id)) id :=
    OwnedWorld.joined_client hclient fun hrunning hsome =>
      (hclient.beating hrunning hsome).imp_right fun hboth => ⟨hstays.stuck hboth.1, hboth.2⟩
  refine ⟨hapart.guaranteed_application (h.stay hapart hsound hstays.members howned hnow) ?_, ?_⟩
  · exact ⟨fun hrunning => hrunning, fun _ _ => howned, hstays.stuck, fun _ hnone => howned.trans hnone⟩
  · exact ⟨howned, Or.inl rfl, fun hstopped => hstopped, hstays.stuck, fun _ => hstays.subset⟩

/-- **A new member** belongs to the consumer that has joined. -/
theorem Ownership.newJoined (h : Ownership groupId state) {system : System} {memberId : Bytes}
    (hnone : state.owned id = []) (hheld : (state.consumers id).memberId = [])
    (hgoes : ¬ state.groups.Stuck groupId) (hsome : memberId ≠ []) (hnew : memberId ∉ state.groups.memberIds groupId)
    (hmembers : ∀ other, other ∈ system.broker.groups.memberIds groupId ↔
      other = memberId ∨ other ∈ state.groups.memberIds groupId)
    (hsound : ∀ group ∈ system.broker.groups.group? groupId, SoundBelow group) :
    (membersOutline groupId).Guaranteed (.application id) state (state.joined id system memberId) := by
  have hapart : Apart groupId id state (state.joined id system memberId) :=
    ⟨fun _ hother => Function.update_of_ne hother _ _, fun _ hother => Function.update_of_ne hother _ _, fun _ _ => rfl,
      fun hstuck => absurd hstuck hgoes, fun hstuck => absurd hstuck hgoes⟩
  have howned := state.joined_owned id system memberId
  have hunowned : ∀ other, state.owned other ≠ memberId := fun other heq => hnew (heq ▸ h.mem_owned (heq ▸ hsome))
  refine hapart.guaranteed_application (h.move hapart hsound ?_ ?_ ?_) ?_
  · intro member
    change member ∈ system.broker.groups.memberIds groupId ↔ _
    rw [hmembers, h.registered]
    constructor
    · rintro (rfl | ⟨hmember, other, rfl⟩)
      · exact ⟨hsome, id, howned⟩
      · have hother : other ≠ id := by
          rintro rfl
          exact hmember hnone
        exact ⟨hmember, other, hapart.owned other hother⟩
    · rintro ⟨hmember, other, rfl⟩
      by_cases hother : other = id
      · rw [hother]
        exact Or.inl howned
      · rw [hapart.owned other hother] at hmember ⊢
        exact Or.inr ⟨hmember, other, rfl⟩
  · intro first second heq hfirst
    by_cases hone : first = id
    · by_cases htwo : second = id
      · exact hone.trans htwo.symm
      · rw [hone, howned, hapart.owned second htwo] at heq
        exact absurd heq.symm (hunowned second)
    · rw [hapart.owned first hone] at heq hfirst
      by_cases htwo : second = id
      · rw [htwo, howned] at heq
        exact absurd heq (hunowned first)
      · rw [hapart.owned second htwo] at heq
        exact h.distinct first second heq hfirst
  · exact OwnedWorld.joined_client (h.clients id) fun _ hsome => absurd hheld hsome
  · exact ⟨fun hrunning => hrunning, fun _ hsome => absurd hnone hsome, fun hstuck => absurd hstuck hgoes,
      fun hstuck => absurd hstuck hgoes⟩

/-- A program of an application under the rules. -/
abbrev MemberSafe {α : Type} (queue : TaskQueue) (rules : Rules) (groupId : Bytes) (id : Nat) (program : ConsumerProgram α)
    (post : Result α → OwnedWorld → Prop) (state : OwnedWorld) : Prop :=
  program.Safe ((owningMachine queue rules groupId).effect (.application id))
    ((membersOutline groupId).Relied (.application id)) ((membersOutline groupId).Guaranteed (.application id)) post state

section Application

variable {kept : OwnedWorld → Prop}
  (hstable : ∀ {before after}, kept before → ApplicationRelies groupId id before after → kept after) (hkept : kept state)

include hstable hkept

/-- What is stable survives a request that neither joins nor leaves. -/
theorem safe_request {version : UInt16} {body : RequestBody} {post : Result (Result ResponseEnvelope) → OwnedWorld → Prop}
    (hbody : body.KeepsGroups)
    (hpost : ∀ {before after : OwnedWorld} {requestId : UInt64} {environment : Environment}, Ownership groupId before →
      kept before → KeepsMembers queue groupId (.application id) before.1.1 environment
        ⟨body.apiKey, version, requestId, body⟩ → after.consumers = before.consumers → kept after →
        post (.ok (.ok (before.1.1.system.broker.answer queue environment ⟨body.apiKey, version, requestId, body⟩)))
          after) :
    MemberSafe queue rules groupId id (Consumer.roundTrip version body) post state := by
  intro before reply after hrely heffect
  have hbefore := hstable hkept hrely.2
  obtain ⟨requestId, environment, system, rfl, hcondition, rfl, hstays, hsound⟩ := owning_request hbody hrely.1 heffect
  obtain ⟨hapart, hinvariant, happlication, hheartbeat⟩ := hrely.1.served hstays hsound id
  exact ⟨hapart.guaranteed_application hinvariant hheartbeat,
    hpost hrely.1 hbefore hcondition rfl (hstable hbefore happlication)⟩

/-- A block under the mutex. -/
theorem safe_locked {update : Consumer → Consumer} {post : Result Consumer → OwnedWorld → Prop}
    (hstep : ∀ {before : OwnedWorld}, Ownership groupId before → kept before →
      BlockKeeps groupId id before (update (before.consumers id)) ∧
        post (.ok (before.consumers id)) (before.locked id (update (before.consumers id)))) :
    MemberSafe queue rules groupId id (Consumer.locked update) post state := by
  intro before reply after hrely heffect
  have hbefore := hstable hkept hrely.2
  obtain ⟨⟨world, joining⟩, owned⟩ := after
  obtain ⟨⟨⟨rfl, hworld⟩, hjoining⟩, howned⟩ := heffect
  have hafter : ((world, joining), owned) = before.locked id (update (before.consumers id)) := by
    cases hworld
    cases hjoining
    cases howned.trans (Function.update_eq_self id before.owned)
    rfl
  obtain ⟨hkeeps, hpost⟩ := hstep hrely.1 hbefore
  rw [hafter]
  exact ⟨hkeeps.guaranteed hrely.1, hpost⟩

/-- The heartbeat thread has ended. -/
theorem safe_joinHeartbeat {post : Result Unit → OwnedWorld → Prop}
    (hpost : ∀ {after : OwnedWorld}, kept after → (after.consumers id).heartbeatRunning = false → post (.ok ()) after) :
    MemberSafe queue rules groupId id Consumer.joinHeartbeat post state := by
  intro before reply after hrely heffect
  have hbefore := hstable hkept hrely.2
  obtain ⟨⟨world, joining⟩, owned⟩ := after
  obtain ⟨⟨⟨hstopped, hworld⟩, hjoining⟩, howned⟩ := heffect
  have hafter : ((world, joining), owned) =
      before.altered id { before.consumers id with heartbeatJoinable := false } := by
    cases hworld
    cases hjoining.trans (Function.update_eq_self id before.joining)
    cases howned.trans (Function.update_eq_self id before.owned)
    rfl
  have hharmless : Harmless id before { before.consumers id with heartbeatJoinable := false } :=
    ⟨rfl, Or.inl rfl, fun hrunning => hrunning⟩
  obtain ⟨hapart, hinvariant, happlication⟩ := hharmless.altered hrely.1
  rw [hafter]
  refine ⟨hapart.guaranteed_application hinvariant ⟨?_, fun _ _ => rfl, hapart.stuck, fun _ hnone => hnone⟩,
    hpost (hstable hbefore happlication) ?_⟩
  · rw [OwnedWorld.altered_self]
    exact fun hrunning => hrunning
  · rw [OwnedWorld.altered_self]
    exact hstopped

end Application

/-! ### Joining -/

/-- The consumer has joined: it holds the id, or no id and is a new member. -/
structure Joined (groupId : Bytes) (id : Nat) (joined : JoinGroupResponse) (state : OwnedWorld) : Prop where
  owned : state.owned id = joined.memberId
  some : joined.memberId ≠ []
  memberId : (state.consumers id).memberId = joined.memberId ∨
    (state.consumers id).memberId = [] ∧ IsMember groupId joined

theorem Joined.relied {joined : JoinGroupResponse} (h : Joined groupId id joined before)
    (hrely : ApplicationRelies groupId id before after) : Joined groupId id joined after := by
  refine ⟨hrely.owned.trans h.owned, h.some, ?_⟩
  rcases hrely.memberId with hsame | ⟨-, hnone⟩
  · rw [hsame]
    exact h.memberId
  · exact absurd (h.owned.symm.trans hnone) h.some

/-- Who fails with an id that is registered keeps it. -/
theorem Joined.settled {joined : JoinGroupResponse} (h : Joined groupId id joined state)
    (hheld : (state.consumers id).memberId ≠ []) : Settled groupId id state := by
  rcases h.memberId with hsame | ⟨hnil, -⟩
  · exact Or.inl ⟨h.owned.trans hsame.symm, rfl⟩
  · exact absurd hnil hheld

/-- A `JoinGroup` of an application. -/
theorem owning_join {request : JoinGroupRequest} {reply : Result ResponseEnvelope}
    (heffect : (owningMachine queue rules groupId).effect (.application id)
      (.request protocolVersion (.joinGroup request)) before reply after) :
    ∃ requestId environment system,
      reply = .ok (before.1.1.system.broker.answer queue environment (groupRequest requestId (.joinGroup request))) ∧
      KeepsMembers queue groupId (.application id) before.1.1 environment (groupRequest requestId (.joinGroup request)) ∧
      system.broker =
        (before.1.1.system.broker.handle queue environment (groupRequest requestId (.joinGroup request))).2 ∧
      after = before.joined id system (((joinResult (before.1.1.system.broker.answer queue environment
        (groupRequest requestId (.joinGroup request)))).toOption.map JoinGroupResponse.memberId).getD (before.owned id)) := by
  obtain ⟨⟨⟨requestId, environment, -, -, hcondition, rfl, hworld⟩, hjoining⟩, howned⟩ := heffect
  exact ⟨requestId, environment, ⟨_, _⟩, rfl, hcondition, rfl, Prod.ext (Prod.ext hworld hjoining) howned⟩

/-- Who holds no id has no registered one. -/
theorem Joined.held_or_memberless {joined : JoinGroupResponse} (h : Joined groupId id joined state)
    (hinvariant : Ownership groupId state) :
    (state.consumers id).memberId ≠ [] ∨ state.1.1.Memberless groupId id ∧ IsMember groupId joined := by
  rcases h.memberId with hheld | ⟨hnil, hmember⟩
  · exact Or.inl (hheld ▸ h.some)
  · refine Or.inr ⟨?_, hmember⟩
    change (state.consumers id).memberId ∉ state.groups.memberIds groupId
    rw [hnil]
    exact hinvariant.nil_notMem

/-- **Joining.** The consumer becomes a member, or it keeps what it has. -/
theorem safe_sendJoinGroup {topic requested memberId : Bytes} (hknows : Knows groupId id memberId state)
    (hrequested : requested = memberId ∨ requested = []) :
    MemberSafe queue rules groupId id (Consumer.sendJoinGroup groupId topic requested) (fun result later =>
      (∀ joined, result = .ok joined → Joined groupId id joined later) ∧
        ∀ status, result = .error status → Knows groupId id memberId later) state := by
  unfold Consumer.sendJoinGroup
  rw [MemberSafe, Program.safe_bind]
  intro before reply after hrely heffect
  have hbefore := hknows.relied hrely.2
  obtain ⟨hinvariant, -⟩ := hrely
  obtain ⟨requestId, environment, system, rfl, hcondition, hsystem, rfl⟩ := owning_join heffect
  have hsound := @BrokerService.handle_sound queue environment before.1.1.system.broker groupId hinvariant.sound
    (groupRequest requestId (.joinGroup ⟨groupId, requested, topic⟩))
  rw [← hsystem] at hsound
  by_cases hid : requested = []
  · obtain ⟨hmemberless, hbelow, hencodes⟩ := hcondition hid
    have hgoes : ¬ before.groups.Stuck groupId := by
      rintro ⟨group, hgroup, hmax⟩
      exact (hbelow group hgroup).ne hmax
    -- before the last generation, a consumer without a registered id has none at all
    have hnothing : before.owned id = [] ∧ (before.consumers id).memberId = [] := by
      rcases hbefore with ⟨howned, hheld⟩ | ⟨-, hstuck, -⟩
      · have hnone : before.owned id = [] := by
          by_contra hsome
          apply hmemberless
          change (before.consumers id).memberId ∈ before.groups.memberIds groupId
          rw [hheld, ← howned]
          exact hinvariant.mem_owned hsome
        exact ⟨hnone, hheld.trans (howned.symm.trans hnone)⟩
      · exact absurd hstuck hgoes
    rcases BrokerService.answer_joinGroup_new hinvariant.sound hbelow hid hencodes with
      ⟨joined, hjoined, hmember, hsome, hnew, hmembers⟩ | ⟨⟨status, hstatus⟩, hgroups⟩
    · rw [hjoined]
      rw [← hsystem] at hmembers
      refine ⟨hinvariant.newJoined hnothing.1 hnothing.2 hgoes hsome hnew hmembers hsound, ?_, ?_⟩
      · rintro found hfound
        cases hjoined.symm.trans hfound
        exact ⟨before.joined_owned id system _, hsome, Or.inr ⟨hnothing.2, hmember⟩⟩
      · intro status hstatus
        cases hjoined.symm.trans hstatus
    · rw [hstatus]
      have hstays : Stays groupId before.groups system.broker.groups := by
        rw [hsystem, hgroups]
        exact .refl _
      obtain ⟨hguaranteed, hrelied⟩ := @Ownership.rejoined groupId id before hinvariant system hstays hsound
      refine ⟨hguaranteed, ?_, ?_⟩
      · intro joined hjoined
        cases hstatus.symm.trans hjoined
      · exact fun _ _ => hbefore.relied hrelied
  · have hsame := hrequested.resolve_right hid
    obtain ⟨hstays, hknown⟩ := @BrokerService.answer_joinGroup_known queue environment before.1.1.system.broker requestId
      ⟨groupId, requested, topic⟩ hid
    rw [← hsystem] at hstays
    obtain ⟨hguaranteed, hrelied⟩ := @Ownership.rejoined groupId id before hinvariant system hstays hsound
    cases hresult : joinResult (before.1.1.system.broker.answer queue environment
      (groupRequest requestId (.joinGroup ⟨groupId, requested, topic⟩))) with
    | error status =>
        refine ⟨hguaranteed, ?_, ?_⟩
        · intro joined hjoined
          cases hresult.symm.trans hjoined
        · exact fun _ _ => hbefore.relied hrelied
    | ok joined =>
        obtain ⟨hmember, hmem⟩ := hknown joined hresult
        change joined.memberId = requested at hmember
        rcases hbefore with ⟨howned, hheld⟩ | ⟨-, -, habsent, -⟩
        · have hown : joined.memberId = before.owned id := hmember.trans (hsame.trans howned.symm)
          change (membersOutline groupId).Guaranteed (.application id) before
            (before.joined id system joined.memberId) ∧ _
          rw [← hown] at hguaranteed
          refine ⟨hguaranteed, ?_, ?_⟩
          · intro found hfound
            cases hresult.symm.trans hfound
            exact ⟨before.joined_owned id system _, hmember ▸ hid, Or.inl (hheld.trans (howned.symm.trans hown.symm))⟩
          · intro status hstatus
            cases hresult.symm.trans hstatus
        · exact absurd (hsame ▸ hmem) habsent

/-! ### Leaving -/

/-- A `LeaveGroup` has been answered. -/
def OwnedWorld.left (state : OwnedWorld) (groupId : Bytes) (id : Nat) (system : System) : OwnedWorld :=
  ((state.1.1.setSystem system, state.joining), Function.update state.owned id
    (if state.owned id ∈ system.broker.groups.memberIds groupId then state.owned id else []))

theorem owning_leave {request : LeaveGroupRequest} {reply : Result ResponseEnvelope}
    (heffect : (owningMachine queue rules groupId).effect (.application id)
      (.request protocolVersion (.leaveGroup request)) before reply after) :
    ∃ requestId environment system,
      reply = .ok (before.1.1.system.broker.answer queue environment (groupRequest requestId (.leaveGroup request))) ∧
      before.1.1.system.broker.Encodes queue environment (groupRequest requestId (.leaveGroup request)) ∧
      system.broker =
        (before.1.1.system.broker.handle queue environment (groupRequest requestId (.leaveGroup request))).2 ∧
      after = before.left request.groupId id system := by
  obtain ⟨⟨world, joining⟩, owned⟩ := after
  obtain ⟨⟨⟨requestId, environment, -, -, hcondition, rfl, rfl⟩, hjoining⟩, howned⟩ := heffect
  exact ⟨requestId, environment, ⟨_, _⟩, rfl, hcondition, rfl,
    Prod.ext (Prod.ext rfl (hjoining.trans (Function.update_eq_self id before.joining))) howned⟩

/-- **A member leaves**, if it is there; nobody else does. -/
theorem Ownership.departed (h : Ownership groupId state) {memberId : Bytes} {system : System}
    (hknows : Knows groupId id memberId state) (hstopped : (state.consumers id).heartbeatRunning = false)
    (hleaves : Leaves groupId memberId state.groups system.broker.groups)
    (hsound : ∀ group ∈ system.broker.groups.group? groupId, SoundBelow group) :
    (membersOutline groupId).Guaranteed (.application id) state (state.left groupId id system) := by
  have hapart : Apart groupId id state (state.left groupId id system) :=
    ⟨fun _ hother => Function.update_of_ne hother _ _, fun _ _ => rfl, fun _ _ => rfl, hleaves.stuck,
      fun _ => hleaves.subset⟩
  have howned : (state.left groupId id system).owned id =
      if state.owned id ∈ system.broker.groups.memberIds groupId then state.owned id else [] := Function.update_self _ _ _
  -- no other consumer owns the member
  have hothers : ∀ other, other ≠ id → state.owned other ≠ [] → state.owned other ≠ memberId := by
    rintro other hother hsome rfl
    rcases hknows with ⟨hown, -⟩ | ⟨-, -, habsent, -⟩
    · exact hother (h.distinct other id hown.symm hsome)
    · exact habsent (h.mem_owned hsome)
  have hkept : (state.left groupId id system).owned id ≠ [] →
      (state.left groupId id system).owned id = state.owned id ∧
        state.owned id ∈ system.broker.groups.memberIds groupId := by
    rw [howned]
    split
    · rename_i hmem
      exact fun _ => ⟨rfl, hmem⟩
    · exact fun hsome => absurd rfl hsome
  refine hapart.guaranteed_application (h.move hapart hsound ?_ ?_ ?_) ?_
  · intro member
    constructor
    · intro hmem
      obtain ⟨hmember, other, rfl⟩ := (h.registered member).mp (hleaves.subset member hmem)
      refine ⟨hmember, other, ?_⟩
      by_cases hother : other = id
      · rw [hother] at hmem ⊢
        rw [howned]
        exact if_pos hmem
      · exact hapart.owned other hother
    · rintro ⟨hmember, other, rfl⟩
      by_cases hother : other = id
      · rw [hother] at hmember ⊢
        obtain ⟨hsame, hmem⟩ := hkept hmember
        rw [hsame]
        exact hmem
      · rw [hapart.owned other hother] at hmember ⊢
        exact hleaves.others _ (h.mem_owned hmember) (hothers other hother hmember)
  · intro first second heq hfirst
    have hsecond : (state.left groupId id system).owned second ≠ [] := heq ▸ hfirst
    have hback : ∀ other, (state.left groupId id system).owned other ≠ [] →
        (state.left groupId id system).owned other = state.owned other := by
      intro other hsome
      by_cases hother : other = id
      · rw [hother] at hsome ⊢
        exact (hkept hsome).1
      · exact hapart.owned other hother
    rw [hback first hfirst, hback second hsecond] at heq
    rw [hback first hfirst] at hfirst
    exact h.distinct first second heq hfirst
  · refine ⟨(h.clients id).group, fun hoff hsome => ?_, fun hrunning => ?_⟩
    · obtain ⟨hsame, -⟩ := hkept hsome
      rw [hsame] at hsome ⊢
      exact (h.clients id).held hoff hsome
    · exact absurd (hrunning.symm.trans hstopped) Bool.true_eq_false.mp
  · refine ⟨fun hrunning => hrunning, fun hrunning => ?_, hleaves.stuck, fun _ hnone => ?_⟩
    · exact absurd (hrunning.symm.trans hstopped) Bool.true_eq_false.mp
    · rw [howned, hnone]
      exact ite_self _

/-- What a consumer knows when its request to leave has failed otherwise. -/
theorem Knows.refused {memberId : Bytes} {system : System} (h : Knows groupId id memberId state)
    (hinvariant : Ownership groupId state) (hleaves : Leaves groupId memberId state.groups system.broker.groups)
    (hrefused : system.broker.groups = state.groups ∨ system.broker.groups.Stuck groupId) :
    Knows groupId id memberId (state.left groupId id system) := by
  have howned : (state.left groupId id system).owned id =
      if state.owned id ∈ system.broker.groups.memberIds groupId then state.owned id else [] := Function.update_self _ _ _
  rcases h with ⟨hown, hheld⟩ | ⟨hnone, hstuck, habsent, hheld⟩
  · by_cases hmem : memberId ∈ system.broker.groups.memberIds groupId
    · rw [hown, if_pos hmem] at howned
      exact Or.inl ⟨howned, hheld⟩
    · rw [hown, if_neg hmem] at howned
      by_cases hnil : memberId = []
      · exact Or.inl ⟨howned.trans hnil.symm, hheld⟩
      · have hregistered : memberId ∈ state.groups.memberIds groupId := by
          rw [← hown] at hnil ⊢
          exact hinvariant.mem_owned hnil
        rcases hrefused with hsame | hstuck
        · rw [hsame] at hmem
          exact absurd hregistered hmem
        · exact Or.inr ⟨howned, hstuck, hmem, Or.inl hheld⟩
  · rw [hnone, ite_self] at howned
    exact Or.inr ⟨howned, hleaves.stuck hstuck, fun hmem => habsent (hleaves.subset _ hmem), hheld⟩

/-- **Leaving.** Behind it the consumer owns nothing, or it knows what it has known. -/
theorem safe_sendLeaveGroup {memberId : Bytes} (hknows : Knows groupId id memberId state)
    (hstopped : (state.consumers id).heartbeatRunning = false) :
    MemberSafe queue rules groupId id (Consumer.sendLeaveGroup groupId memberId) (fun result later =>
      (∀ status, result = .error status → status.code ≠ .notFound → Knows groupId id memberId later) ∧
        ((∀ status, result = .error status → status.code = .notFound) → later.owned id = [])) state := by
  unfold Consumer.sendLeaveGroup
  rw [MemberSafe, Program.safe_bind]
  intro before reply after hrely heffect
  have hbefore := hknows.relied hrely.2
  have hended := hrely.2.stopped hstopped
  obtain ⟨hinvariant, -⟩ := hrely
  obtain ⟨requestId, environment, system, rfl, hencodes, hsystem, rfl⟩ := owning_leave heffect
  have hsound := @BrokerService.handle_sound queue environment before.1.1.system.broker groupId hinvariant.sound
    (groupRequest requestId (.leaveGroup ⟨groupId, memberId⟩))
  obtain ⟨hleaves, htells⟩ := BrokerService.answer_leaveGroup hencodes
  rw [← hsystem] at hsound hleaves htells
  refine ⟨hinvariant.departed hbefore hended hleaves hsound, ?_⟩
  have howned : memberId ∉ system.broker.groups.memberIds groupId → (before.left groupId id system).owned id = [] := by
    intro habsent
    refine (Function.update_self _ _ _).trans (if_neg fun hmem => ?_)
    rcases hbefore with ⟨hown, -⟩ | ⟨hnone, -⟩
    · exact habsent (hown ▸ hmem)
    · exact hinvariant.nil_notMem (hleaves.subset _ (hnone ▸ hmem))
  change Program.Safe _ _ _ (if (before.1.1.system.broker.answer queue environment
    (groupRequest requestId (.leaveGroup ⟨groupId, memberId⟩))).error.errorCode = .none then _ else _) _ _
  unfold leaveResult at htells
  split
  · rename_i hnone
    rw [if_pos hnone] at htells
    refine ⟨?_, fun _ => howned htells⟩
    intro status hstatus
    cases hstatus
  · rename_i hcode
    rw [if_neg hcode] at htells
    change if _ = _ then _ else _ at htells
    refine ⟨?_, fun hnotFound => ?_⟩
    · intro status hstatus hother
      cases hstatus
      rw [if_neg hother] at htells
      exact hbefore.refused hinvariant hleaves htells
    · rw [if_pos (hnotFound _ rfl)] at htells
      exact howned htells

end LogMq
