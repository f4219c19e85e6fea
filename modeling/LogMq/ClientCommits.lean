import LogMq.BrokerCommits
import LogMq.ClientInvariant
import LogMq.ClientSchedule

/-! What a group has committed. As long as every consumer is assigned the topic it has joined with, the offsets below a
committed one have all been returned by a `Poll` of some consumer of the group. `JoinAndSync` reads the positions in the
retry topic of the topic it has joined with, but adopts the topic it is assigned. -/

namespace LogMq

open Interaction

/-! ### Groups -/

/-- A request that commits an offset of a group. -/
def RequestBody.CommitsFor (groupId : Bytes) : RequestBody → Prop
  | .commitOffset request => request.groupId = groupId
  | _ => False

instance (groupId : Bytes) : (body : RequestBody) → Decidable (body.CommitsFor groupId)
  | .commitOffset _ => inferInstanceAs (Decidable (_ = _))
  | .produce _ | .fetch _ | .metadata _ | .createTopic _ | .fetchCommittedOffset _ | .joinGroup _ | .syncGroup _
  | .heartbeat _ | .leaveGroup _ | .nack _ => inferInstanceAs (Decidable False)

def BrokerMove.CommitsFor (groupId : Bytes) : BrokerMove → Prop
  | .request _ envelope => envelope.body.CommitsFor groupId
  | _ => False

instance (groupId : Bytes) : (move : BrokerMove) → Decidable (move.CommitsFor groupId)
  | .request _ envelope => inferInstanceAs (Decidable (envelope.body.CommitsFor groupId))
  | .wake _ | .flush _ | .expire _ | .restart _ _ => inferInstanceAs (Decidable False)

/-- What happens to a broker to which nobody else commits offsets of a group. -/
def BrokerMove.Apart (queue : TaskQueue) (rules : Rules) (groupId : Bytes) (before after : System) : Prop :=
  ∃ move : BrokerMove, move.Allowed rules ∧ ¬ move.CommitsFor groupId ∧ move.apply queue before = some after

/-- Consumers that do not seek, and the only ones that commit offsets of their group. -/
def groupMachine (queue : TaskQueue) (rules : Rules) (groupId : Bytes) :
    Machine ConsumerThread World ConsumerAction ConsumerAction.Reply Status ConsumerThread.Output :=
  consumerMachine queue rules (BrokerMove.Apart queue rules groupId) fun _ call => ¬ call.IsSeek

/-- A record has been returned. -/
def World.Returned (world : World) (topic : Bytes) (partitionId offset : Int) : Prop :=
  ∃ id, ∃ records, .ok records ∈ world.results id ∧
    ∃ record ∈ records, record.topic = topic ∧ record.partitionId = partitionId ∧ record.offset = offset

/-- All records before a position have been returned. -/
def World.Covered (world : World) (topic : Bytes) (partitionId position : Int) : Prop :=
  ∀ offset, 0 ≤ offset → offset < position → world.Returned topic partitionId offset

/-- Whatever consumers of one group do, they commit only offsets before which all records have been returned. -/
def NeverSkips (machine : Bytes →
    Machine ConsumerThread World ConsumerAction ConsumerAction.Reply Status ConsumerThread.Output) (queue : TaskQueue)
    (rules : Rules) : Prop :=
  ∀ (groupId : Bytes) (world : World), World.Initial queue rules world → (∀ id, (world.consumers id).groupId = groupId) →
    ∀ pool : ConsumerPool, (machine groupId).Follows (.idle world) pool → ∀ topic partitionId offset,
      pool.shared.system.broker.offsets.offsets ⟨groupId, topic, partitionId⟩ = some offset →
        pool.shared.Covered topic partitionId offset

/-- What the group assigns to the member in its generation is for the topic of the consumer, or one of the two topics has
no retry topic. -/
def World.SyncsOwnTopic (world : World) (id : Nat) (request : SyncGroupRequest) : Prop :=
  ∀ group ∈ world.system.broker.groups.group? request.groupId, group.generationId = request.generationId →
    ∀ entry ∈ group.roster, entry.1 = request.memberId →
      isInternalTopic (world.consumers id).topic = false → isInternalTopic entry.2.topic = false →
        entry.2.topic = (world.consumers id).topic

instance (world : World) (id : Nat) (request : SyncGroupRequest) : Decidable (world.SyncsOwnTopic id request) :=
  inferInstanceAs (Decidable (∀ group ∈ world.system.broker.groups.group? request.groupId, _ → ∀ entry ∈ group.roster, _))

/-- The state before an action is as the condition wants it. -/
def ConsumerAction.OwnTopic (world : World) (thread : ConsumerThread) : ConsumerAction → Prop
  | .request _ (.syncGroup sync) => world.SyncsOwnTopic thread.client sync
  | _ => True

instance (world : World) (thread : ConsumerThread) : (action : ConsumerAction) → Decidable (action.OwnTopic world thread)
  | .request _ (.syncGroup sync) => inferInstanceAs (Decidable (world.SyncsOwnTopic thread.client sync))
  | .request _ (.produce _) | .request _ (.fetch _) | .request _ (.metadata _) | .request _ (.createTopic _)
  | .request _ (.commitOffset _) | .request _ (.fetchCommittedOffset _) | .request _ (.joinGroup _)
  | .request _ (.heartbeat _) | .request _ (.leaveGroup _) | .request _ (.nack _) | .locked _ | .joinHeartbeat =>
      inferInstanceAs (Decidable True)

/-- Consumers whose requests to be assigned partitions all meet the condition. -/
def ownTopicMachine (queue : TaskQueue) (rules : Rules) (groupId : Bytes) :
    Machine ConsumerThread World ConsumerAction ConsumerAction.Reply Status ConsumerThread.Output :=
  { groupMachine queue rules groupId with
    effect := fun thread action before reply after =>
      consumerEffect queue rules thread action before reply after ∧ action.OwnTopic before thread }

/-! ### Returned records -/

/-- No result gets lost. -/
def World.KeepsResults (before after : World) : Prop := ∀ id, ∀ result ∈ before.results id, result ∈ after.results id

namespace World

variable {world later : World} {topic : Bytes} {partitionId position offset : Int}

theorem KeepsResults.refl (world : World) : world.KeepsResults world := fun _ _ h => h

theorem KeepsResults.trans {last : World} (h : world.KeepsResults later) (hnext : later.KeepsResults last) :
    world.KeepsResults last := fun id result hresult => hnext id result (h id result hresult)

theorem KeepsResults.of_eq (h : later.results = world.results) : world.KeepsResults later := by
  intro id result hresult
  rw [h]
  exact hresult

theorem keepsResults_returnResult (world : World) (id : Nat) (result : Result (List ConsumerRecord)) :
    world.KeepsResults (world.returnResult id result) := by
  intro other found hfound
  by_cases hother : other = id
  · subst hother
    rw [returnResult_self]
    exact List.mem_append_left _ hfound
  · rw [returnResult_of_ne hother]
    exact hfound

theorem KeepsResults.returnResult (h : world.KeepsResults later) (id : Nat) (result : Result (List ConsumerRecord)) :
    (world.returnResult id result).KeepsResults (later.returnResult id result) := by
  intro other found hfound
  by_cases hother : other = id
  · subst hother
    rw [returnResult_self] at hfound ⊢
    rcases List.mem_append.mp hfound with hfound | hfound
    · exact List.mem_append_left _ (h other found hfound)
    · exact List.mem_append_right _ hfound
  · rw [returnResult_of_ne hother] at hfound ⊢
    exact h other found hfound

theorem Covered.mono (h : world.Covered topic partitionId position) (hkeeps : world.KeepsResults later) :
    later.Covered topic partitionId position := by
  intro offset hzero hlt
  obtain ⟨id, records, hrecords, hrecord⟩ := h offset hzero hlt
  exact ⟨id, records, hkeeps id _ hrecords, hrecord⟩

theorem covered_zero (world : World) (topic : Bytes) (partitionId : Int) : world.Covered topic partitionId 0 :=
  fun _ hzero hlt => absurd hlt (not_lt.mpr hzero)

/-- A result without records adds nothing. -/
theorem Covered.of_empty {id : Nat} (h : (world.returnResult id (.ok [])).Covered topic partitionId position) :
    world.Covered topic partitionId position := by
  intro offset hzero hlt
  obtain ⟨other, records, hrecords, record, hrecord, hfound⟩ := h offset hzero hlt
  refine ⟨other, records, ?_, record, hrecord, hfound⟩
  by_cases hother : other = id
  · subst hother
    rw [returnResult_self] at hrecords
    rcases List.mem_append.mp hrecords with hrecords | hrecords
    · exact hrecords
    · cases Except.ok.inj (List.mem_singleton.mp hrecords)
      cases hrecord
  · rw [returnResult_of_ne hother] at hrecords
    exact hrecords

/-- Reading on from a covered position. -/
theorem Covered.read {id : Nat} {output : List ConsumerRecord} {next : Int}
    (h : world.Covered topic partitionId position)
    (hread : Consecutive position (offsetsOf topic partitionId output) next) :
    (world.returnResult id (.ok output)).Covered topic partitionId next := by
  intro offset hzero hlt
  rcases lt_or_ge offset position with hbefore | hfrom
  · exact h.mono (keepsResults_returnResult world id _) offset hzero hbefore
  · obtain ⟨record, hrecord, hfound⟩ := mem_offsetsOf.mp (hread.mem hfrom hlt)
    refine ⟨id, output, ?_, record, hrecord, hfound⟩
    rw [returnResult_self]
    exact List.mem_append_right _ List.mem_cons_self

end World

/-! ### Covered consumers -/

/-- All positions of an assignment are covered. -/
def Assignment.CoveredIn (world : World) (topic : Bytes) (assignment : Assignment) : Prop :=
  ∀ retry, IsSource topic retry →
    world.Covered (sourceTopic topic retry) assignment.partitionId (assignment.position retry)

def Consumer.CoveredIn (world : World) (consumer : Consumer) : Prop :=
  ∀ assignment ∈ consumer.assignments, assignment.CoveredIn world consumer.topic

namespace Consumer

variable {world later : World} {consumer : Consumer}

theorem CoveredIn.mono (h : consumer.CoveredIn world) (hkeeps : world.KeepsResults later) : consumer.CoveredIn later :=
  fun assignment hassignment retry hsource => (h assignment hassignment retry hsource).mono hkeeps

theorem CoveredIn.samePositions (h : consumer.CoveredIn world) {other : Consumer}
    (hsame : consumer.SamePositions other) : other.CoveredIn world := by
  unfold CoveredIn
  rw [hsame.topic, hsame.assignments]
  exact h

theorem coveredIn_nil (h : consumer.assignments = []) : consumer.CoveredIn world := by
  intro assignment hassignment
  rw [h] at hassignment
  cases hassignment

/-- A copied position is the one that has been read on, or the old one. -/
theorem mem_foldl_advance {polled assignments : List Assignment} {assignment : Assignment}
    (h : assignment ∈ polled.foldl (fun current updated => advance updated current) assignments) :
    assignment ∈ assignments ∨ assignment ∈ polled := by
  have hadvance : ∀ (updated : Assignment) (assignments : List Assignment), assignment ∈ advance updated assignments →
      assignment ∈ assignments ∨ assignment = updated := by
    intro updated assignments h
    induction assignments with
    | nil => cases h
    | cons current rest ih =>
        rw [advance] at h
        by_cases heq : current.partitionId = updated.partitionId
        · rw [if_pos heq, List.mem_cons] at h
          rcases h with rfl | h
          · rw [heq]
            exact Or.inr rfl
          · exact Or.inl (List.mem_cons_of_mem _ h)
        · rw [if_neg heq, List.mem_cons] at h
          rcases h with rfl | h
          · exact Or.inl List.mem_cons_self
          · rcases ih h with h | h
            · exact Or.inl (List.mem_cons_of_mem _ h)
            · exact Or.inr h
  induction polled generalizing assignments with
  | nil => exact Or.inl h
  | cons updated rest ih =>
      rcases ih h with h | h
      · rcases hadvance updated assignments h with h | rfl
        · exact Or.inl h
        · exact Or.inr List.mem_cons_self
      · exact Or.inr (List.mem_cons_of_mem _ h)

end Consumer

/-! ### The outline -/

/-- The offsets that a broker has for a group, in memory and in files, are covered, and so are those that are on their way
to it. -/
structure World.CommitsCovered (world : World) (groupId : Bytes) : Prop where
  stored : ∀ topic partitionId offset,
    (world.system.broker.offsets.files ⟨groupId, topic, partitionId⟩ = some offset ∨
      world.system.broker.offsets.offsets ⟨groupId, topic, partitionId⟩ = some offset) →
        world.Covered topic partitionId offset
  delayed : ∀ version request, (version, .commitOffset request) ∈ world.delayed → request.groupId = groupId →
    world.Covered request.topic request.partitionId request.offset

/-- Beside what holds in every run, all consumers are in the group and its committed offsets are covered. Between two calls
a consumer's positions are covered, and at the end of a call they are once its result is returned. -/
def commitsOutline (queue : TaskQueue) (rules : Rules) (groupId : Bytes) :
    Outline ConsumerThread World Status ConsumerThread.Output where
  invariant world := (positionsOutline queue rules).invariant world ∧ (∀ id, (world.consumers id).groupId = groupId) ∧
    world.CommitsCovered groupId
  rely thread before after := (positionsOutline queue rules).rely thread before after ∧ before.KeepsResults after
  idle
    | .application id, world => (world.consumers id).CoveredIn world
    | .heartbeat _, _ => True
  post
    | .application id, result, world => (world.consumers id).CoveredIn (world.returnResult id result)
    | .heartbeat _, _, _ => True

section Commits

variable {queue : TaskQueue} {rules : Rules} {groupId : Bytes} {thread : ConsumerThread} {id : Nat}

theorem World.CommitsCovered.mono {world later : World} (h : world.CommitsCovered groupId)
    (hkeeps : world.KeepsResults later) (hoffsets : later.system.broker.offsets = world.system.broker.offsets)
    (hdelayed : later.delayed ⊆ world.delayed) : later.CommitsCovered groupId := by
  refine ⟨fun topic partitionId offset hcommitted => ?_, fun version request hrequest hgroup => ?_⟩
  · rw [hoffsets] at hcommitted
    exact (h.stored topic partitionId offset hcommitted).mono hkeeps
  · exact (h.delayed version request (hdelayed hrequest) hgroup).mono hkeeps

/-- A covered offset is on its way. -/
theorem World.CommitsCovered.delay {world : World} (h : world.CommitsCovered groupId) {version : UInt16}
    {body : RequestBody} (hcommit : ∀ request, body = .commitOffset request → request.groupId = groupId →
      world.Covered request.topic request.partitionId request.offset) :
    (world.delay version body).CommitsCovered groupId := by
  have hkeeps : world.KeepsResults (world.delay version body) := fun _ _ hresult => hresult
  refine ⟨fun topic partitionId offset hcommitted => (h.stored topic partitionId offset hcommitted).mono hkeeps, ?_⟩
  intro found request hrequest hgroup
  rcases List.mem_append.mp hrequest with hbefore | hnew
  · exact (h.delayed found request hbefore hgroup).mono hkeeps
  · cases List.mem_singleton.mp hnew
    exact (hcommit request rfl hgroup).mono hkeeps

/-- A covered offset is committed. -/
theorem World.CommitsCovered.handle {world : World} (h : world.CommitsCovered groupId) {environment : Environment}
    {envelope : RequestEnvelope} {intact : Bool}
    (hcommit : ∀ request, envelope.body = .commitOffset request → request.groupId = groupId →
      world.Covered request.topic request.partitionId request.offset) :
    (world.setSystem ⟨(world.system.broker.handle queue environment envelope).2, intact⟩).CommitsCovered groupId := by
  have hkeeps : world.KeepsResults
      (world.setSystem ⟨(world.system.broker.handle queue environment envelope).2, intact⟩) := fun _ _ hresult => hresult
  refine ⟨fun topic partitionId offset hcommitted => World.Covered.mono ?_ hkeeps, fun version request hrequest hgroup =>
    (h.delayed version request hrequest hgroup).mono hkeeps⟩
  change (world.system.broker.handle queue environment envelope).2.offsets.files _ = _ ∨
    (world.system.broker.handle queue environment envelope).2.offsets.offsets _ = _ at hcommitted
  rcases @handle_offsets queue environment world.system.broker envelope with hsame | ⟨request, hbody, hset⟩
  · rw [hsame] at hcommitted
    exact h.stored topic partitionId offset hcommitted
  · rw [hset] at hcommitted
    unfold OffsetStore.set at hcommitted
    dsimp only at hcommitted
    by_cases hkey : (⟨groupId, topic, partitionId⟩ : ConsumerOffsetKey) =
        ⟨request.groupId, request.topic, request.partitionId⟩
    · rw [if_pos hkey, if_pos hkey, or_self] at hcommitted
      cases hcommitted
      cases hkey
      exact hcommit request hbody rfl
    · rw [if_neg hkey, if_neg hkey] at hcommitted
      exact h.stored topic partitionId offset hcommitted

/-- A request of any thread, whose offset is covered if it commits one. -/
theorem commitsOutline_request {version : UInt16} {body : RequestBody} {before after : World}
    {reply : Result ResponseEnvelope} (hinvariant : (commitsOutline queue rules groupId).invariant before)
    (heffect : consumerEffect queue rules thread (.request version body) before reply after)
    (hcommit : ∀ request, body = .commitOffset request → request.groupId = groupId →
      before.Covered request.topic request.partitionId request.offset) :
    (commitsOutline queue rules groupId).Guaranteed thread before after := by
  have hpositions := (positionsOutline_request hinvariant.1 heffect).1
  rcases heffect with ⟨system, htrip, rfl⟩ | ⟨-, rfl⟩
  · have hkeeps : before.KeepsResults (before.setSystem system) := fun _ _ hresult => hresult
    refine ⟨⟨hpositions.1, hinvariant.2.1, ?_⟩, fun other hother => ⟨hpositions.2 other hother, hkeeps⟩⟩
    cases htrip with
    | answered htyped requestId hallowed => exact hinvariant.2.2.handle hcommit
    | replaced htyped requestId hallowed message => exact hinvariant.2.2.handle hcommit
    | lost htyped requestId hallowed status => exact hinvariant.2.2.handle hcommit
    | unsent status => exact hinvariant.2.2.mono hkeeps rfl (List.Subset.refl _)
  · exact ⟨⟨hpositions.1, hinvariant.2.1, hinvariant.2.2.delay hcommit⟩,
      fun other hother => ⟨hpositions.2 other hother, fun _ _ hresult => hresult⟩⟩

/-- A block of a thread under the mutex of its consumer. -/
theorem commitsOutline_set {before : World} {consumer : Consumer}
    (hinvariant : (commitsOutline queue rules groupId).invariant before) (hregular : consumer.Regular)
    (hgroup : consumer.groupId = (before.consumers thread.client).groupId)
    (hheartbeat : ∀ id, thread = .heartbeat id → (before.consumers id).SamePositions consumer) :
    (commitsOutline queue rules groupId).Guaranteed thread before (before.setConsumer thread.client consumer) := by
  have hpositions := positionsOutline_set hinvariant.1 hregular hheartbeat
  have hkeeps : before.KeepsResults (before.setConsumer thread.client consumer) := fun _ _ hresult => hresult
  refine ⟨⟨hpositions.1, fun other => ?_, hinvariant.2.2.mono hkeeps rfl (List.Subset.refl _)⟩,
    fun other hother => ⟨hpositions.2 other hother, hkeeps⟩⟩
  by_cases hother : other = thread.client
  · rw [hother, World.setConsumer_self, hgroup]
    exact hinvariant.2.1 _
  · rw [World.setConsumer_of_ne hother]
    exact hinvariant.2.1 other

/-! ### Parts of calls -/

/-- A part of a call of consumer `id` under the outline. -/
abbrev CommitsSafe {α : Type} (queue : TaskQueue) (rules : Rules) (groupId : Bytes) (id : Nat)
    (program : ConsumerProgram α) (post : Result α → World → Prop) (world : World) : Prop :=
  program.Safe ((ownTopicMachine queue rules groupId).effect (.application id))
    ((commitsOutline queue rules groupId).Relied (.application id))
    ((commitsOutline queue rules groupId).Guaranteed (.application id)) post world

/-- Neither the others nor the program itself lose a result. -/
theorem commits_keepsResults {α : Type} {program : ConsumerProgram α} {post : Result α → World → Prop}
    {world : World} (h : CommitsSafe queue rules groupId id program post world) :
    CommitsSafe queue rules groupId id program (fun result later => post result later ∧ world.KeepsResults later)
      world := by
  refine h.frame World.KeepsResults.refl (fun hfirst hsecond => hfirst.trans hsecond) (fun hrely => hrely.2.2) ?_
  intro action before reply after heffect
  cases action with
  | request version body =>
      exact .of_eq (consumerEffect_request heffect.1).2.2
  | locked update =>
      obtain ⟨⟨-, rfl⟩, -⟩ := heffect
      exact fun _ _ hresult => hresult
  | joinHeartbeat =>
      obtain ⟨⟨-, rfl⟩, -⟩ := heffect
      exact fun _ _ hresult => hresult

/-- The positions of consumer `id`, all of them covered. -/
def CoveredAt (id : Nat) (topic : Bytes) (world : World) : Prop :=
  (world.consumers id).CoveredIn world ∧ (world.consumers id).topic = topic

variable {topic : Bytes} {world : World}

theorem CoveredAt.relied (h : CoveredAt id topic world) {later : World}
    (hrely : (commitsOutline queue rules groupId).Relied (.application id) world later) : CoveredAt id topic later :=
  ⟨(h.1.mono hrely.2.2).samePositions hrely.2.1.1, hrely.2.1.1.topic.trans h.2⟩

theorem CoveredAt.requested (h : CoveredAt id topic world) {later : World} {version : UInt16} {body : RequestBody}
    {reply : Result ResponseEnvelope} (heffect : consumerEffect queue rules thread (.request version body) world reply later) :
    CoveredAt id topic later := by
  obtain ⟨-, hconsumers, hresults⟩ := consumerEffect_request heffect
  unfold CoveredAt
  rw [hconsumers]
  exact ⟨h.1.mono (.of_eq hresults), h.2⟩

/-- A round trip. What it commits is covered. -/
theorem commits_roundTrip {version : UInt16} {body : RequestBody} {post : Result (Result ResponseEnvelope) → World → Prop}
    (hcommit : ∀ request, body = .commitOffset request →
      world.Covered request.topic request.partitionId request.offset) (h : CoveredAt id topic world)
    (hpost : ∀ {before reply after}, (commitsOutline queue rules groupId).Relied (.application id) world before →
      (ownTopicMachine queue rules groupId).effect (.application id) (.request version body) before reply after →
      CoveredAt id topic after → post (.ok reply) after) :
    CommitsSafe queue rules groupId id (Consumer.roundTrip version body) post world := by
  intro before reply after hrely heffect
  refine ⟨commitsOutline_request hrely.1 heffect.1 fun request hbody _ => ?_, ?_⟩
  · exact (hcommit request hbody).mono hrely.2.2
  · exact hpost hrely heffect ((h.relied hrely).requested heffect.1)

/-- Requests that commit nothing leave the positions covered. -/
theorem Consumer.Requests.commits {α : Type} {program : ConsumerProgram α} {post : Result α → Prop}
    (h : Consumer.Requests queue rules program post) (hcovered : CoveredAt id topic world) :
    CommitsSafe queue rules groupId id program (fun result world => post result ∧ CoveredAt id topic world) world := by
  refine Program.Meets.safe h ?_ hcovered
  intro action state before reply after hallowed hcovered hrely heffect
  cases action with
  | request version body =>
      have hanswers := (positionsOutline_request hrely.1.1 heffect.1).2.1
      refine ⟨commitsOutline_request hrely.1 heffect.1 fun request hbody => absurd hbody (hallowed request), hanswers, ?_⟩
      exact (hcovered.relied hrely).requested heffect.1
  | locked update => exact hallowed.elim
  | joinHeartbeat => exact hallowed.elim

/-- A block under the mutex. -/
theorem commits_locked {update : Consumer → Consumer} {post : Result Consumer → World → Prop}
    (hregular : ∀ consumer : Consumer, consumer.Regular → (update consumer).Regular)
    (hgroup : ∀ consumer : Consumer, (update consumer).groupId = consumer.groupId)
    (hpost : ∀ {before : World}, (commitsOutline queue rules groupId).Relied (.application id) world before →
      post (.ok (before.consumers id)) (before.setConsumer id (update (before.consumers id)))) :
    CommitsSafe queue rules groupId id (Consumer.locked update) post world := by
  intro before reply after hrely heffect
  obtain ⟨⟨rfl, rfl⟩, -⟩ := heffect
  exact ⟨commitsOutline_set hrely.1 (hregular _ (hrely.1.1.2 id)) (hgroup _) (nofun), hpost hrely⟩

/-- A part of a call that leaves the positions covered, whatever comes out of it. -/
abbrev StaysCovered {α : Type} (queue : TaskQueue) (rules : Rules) (groupId : Bytes) (id : Nat)
    (program : ConsumerProgram α) : Prop :=
  ∀ world : World, (world.consumers id).CoveredIn world →
    CommitsSafe queue rules groupId id program (fun _ world => (world.consumers id).CoveredIn world) world

section Bind

variable {α β : Type} {program : ConsumerProgram α} {rest : α → ConsumerProgram β} {post : Result β → World → Prop}

/-- What follows a part that leaves the positions covered. -/
theorem commits_bind
    (hfirst : CommitsSafe queue rules groupId id program (fun _ world => (world.consumers id).CoveredIn world) world)
    (herror : ∀ status world, (world.consumers id).CoveredIn world → post (.error status) world)
    (hrest : ∀ value world, (world.consumers id).CoveredIn world →
      CommitsSafe queue rules groupId id (rest value) post world) :
    CommitsSafe queue rules groupId id (program >>= rest) post world := by
  rw [CommitsSafe, Program.safe_bind]
  refine Program.Safe.mono hfirst fun result world hcovered => ?_
  cases result with
  | error status => exact herror status world hcovered
  | ok value => exact hrest value world hcovered

/-- What follows requests that commit nothing. -/
theorem Consumer.Requests.commits_bind {spec : Result α → Prop} (h : Consumer.Requests queue rules program spec)
    (hcovered : CoveredAt id topic world)
    (herror : ∀ status world, CoveredAt id topic world → post (.error status) world)
    (hrest : ∀ value world, spec (.ok value) → CoveredAt id topic world →
      CommitsSafe queue rules groupId id (rest value) post world) :
    CommitsSafe queue rules groupId id (program >>= rest) post world := by
  rw [CommitsSafe, Program.safe_bind]
  refine (h.commits hcovered).mono fun result world hboth => ?_
  cases result with
  | error status => exact herror status world hboth.2
  | ok value => exact hrest value world hboth.1 hboth.2

/-- What follows a look at the consumer. -/
theorem commits_bind_look {rest : Consumer → ConsumerProgram β} (hcovered : (world.consumers id).CoveredIn world)
    (hrest : ∀ consumer world, consumer.Regular → consumer.groupId = groupId → consumer.CoveredIn world →
      CoveredAt id consumer.topic world → CommitsSafe queue rules groupId id (rest consumer) post world) :
    CommitsSafe queue rules groupId id (Consumer.locked (fun consumer => consumer) >>= rest) post world := by
  rw [CommitsSafe, Program.safe_bind]
  refine commits_locked (fun _ h => h) (fun _ => rfl) fun {before} hrely => ?_
  have hbefore := (CoveredAt.relied ⟨hcovered, rfl⟩ hrely).1
  refine hrest _ _ (hrely.1.1.2 id) (hrely.1.2.1 id) hbefore ⟨?_, ?_⟩
  · rw [World.setConsumer_self]
    exact hbefore
  · rw [World.setConsumer_self]

end Bind

namespace StaysCovered

variable {α β : Type} {program : ConsumerProgram α}

theorem bind {rest : α → ConsumerProgram β} (h : StaysCovered queue rules groupId id program)
    (hrest : ∀ value, StaysCovered queue rules groupId id (rest value)) :
    StaysCovered queue rules groupId id (program >>= rest) :=
  fun world hcovered => commits_bind (h world hcovered) (fun _ _ h => h) hrest

theorem attempt (h : StaysCovered queue rules groupId id program) :
    StaysCovered queue rules groupId id program.attempt :=
  fun world hcovered => Program.safe_attempt.mpr (h world hcovered)

theorem done (result : Result α) : StaysCovered queue rules groupId id (.done result) := fun _ hcovered => hcovered

end StaysCovered

theorem Consumer.Requests.stays {α : Type} {program : ConsumerProgram α} {spec : Result α → Prop}
    (h : Consumer.Requests queue rules program spec) : StaysCovered queue rules groupId id program := by
  intro world hcovered
  have htopic : CoveredAt id (world.consumers id).topic world := ⟨hcovered, rfl⟩
  exact (h.commits htopic).mono fun _ _ hboth => hboth.2.1

/-- A block that leaves the positions as they are, or gives them up. -/
theorem stays_locked {update : Consumer → Consumer}
    (hregular : ∀ consumer : Consumer, consumer.Regular → (update consumer).Regular)
    (hgroup : ∀ consumer : Consumer, (update consumer).groupId = consumer.groupId)
    (hpositions : ∀ consumer : Consumer, consumer.SamePositions (update consumer) ∨ (update consumer).assignments = []) :
    StaysCovered queue rules groupId id (Consumer.locked update) := by
  intro world hcovered
  refine commits_locked hregular hgroup fun {before} hrely => ?_
  have hbefore := (CoveredAt.relied ⟨hcovered, rfl⟩ hrely).1
  rw [World.setConsumer_self]
  rcases hpositions (before.consumers id) with hsame | hnone
  · exact hbefore.samePositions hsame
  · exact Consumer.coveredIn_nil hnone

theorem stays_joinHeartbeat : StaysCovered queue rules groupId id Consumer.joinHeartbeat := by
  intro world hcovered before reply after hrely heffect
  obtain ⟨⟨-, rfl⟩, -⟩ := heffect
  have hregular := hrely.1.1.2 id
  refine ⟨commitsOutline_set hrely.1 ⟨hregular.rejoins, hregular.distinct⟩ rfl (nofun), ?_⟩
  change Consumer.CoveredIn before ((before.setConsumer id _).consumers id)
  rw [World.setConsumer_self]
  exact (CoveredAt.relied ⟨hcovered, rfl⟩ hrely).1.samePositions ⟨rfl, rfl⟩

/-! ### Joining -/

namespace Consumer

/-- **Assignments** are for the topic of the consumer, as far as both topics have a retry topic. -/
theorem sendSyncGroup_commits (joined : JoinGroupResponse) (h : CoveredAt id topic world) :
    CommitsSafe queue rules groupId id (sendSyncGroup groupId joined) (fun result world => CoveredAt id topic world ∧
      ∀ synced, result = .ok synced → synced.assignment.partitionIds.Nodup ∧
        (isInternalTopic topic = false → isInternalTopic synced.assignment.topic = false →
          synced.assignment.topic = topic)) world := by
  unfold sendSyncGroup
  rw [CommitsSafe, Program.safe_bind]
  refine commits_roundTrip (fun _ => nofun) h fun {before reply after} hrely heffect hcovered => ?_
  refine ⟨hcovered, fun synced hsynced => ?_⟩
  obtain ⟨heffect, hown⟩ := heffect
  have hanswers := (positionsOutline_request hrely.1.1 heffect).2.1
  refine ⟨hanswers.sync_nodup hsynced, ?_⟩
  obtain ⟨environment, -, hsync, -⟩ := (consumerEffect_request heffect).1.synced hsynced
  obtain ⟨group, hgroup, -, hentry, hmember, hgeneration⟩ :=
    GroupCoordinator.syncGroup_ok (Result.orReply_ok.mp (Prod.mk.inj hsync).1)
  have htopic := (h.relied hrely).2
  intro hinternal hassigned
  rw [← htopic] at hinternal ⊢
  exact hown group hgroup hgeneration.symm _ hentry hmember hinternal hassigned

/-- **Committed positions** are covered. -/
theorem fetchCommittedOffset_commits (of : Bytes) (partitionId : Int) (h : CoveredAt id topic world) :
    CommitsSafe queue rules groupId id (fetchCommittedOffset groupId of partitionId) (fun result world =>
      CoveredAt id topic world ∧ ∀ response, result = .ok response →
        world.Covered of partitionId (committedPosition response)) world := by
  unfold fetchCommittedOffset
  rw [CommitsSafe, Program.safe_bind]
  refine commits_roundTrip (fun _ => nofun) h fun {before reply after} hrely heffect hcovered => ?_
  dsimp only
  split
  · refine ⟨hcovered, fun response hresponse => ?_⟩
    cases hresponse
    exact World.covered_zero _ _ _
  · refine ⟨hcovered, fun response hresponse => ?_⟩
    obtain ⟨htrip, -, hresults⟩ := consumerEffect_request heffect.1
    have hcommitted := htrip.committed hresponse
    unfold BrokerService.handleFetchCommittedOffset at hcommitted
    simp only [Result.bind_eq_ok, Result.orReply_ok, Result.pure_eq_ok] at hcommitted
    obtain ⟨store, -, offset, hoffset, rfl⟩ := hcommitted
    unfold OffsetStore.fetch at hoffset
    obtain ⟨-, -, hoffset⟩ := Result.bind_eq_ok.mp hoffset
    cases hoffset
    unfold committedPosition
    dsimp only
    cases hstored : before.system.broker.offsets.offsets ⟨groupId, of, partitionId⟩ with
    | none => exact World.covered_zero _ _ _
    | some offset => exact (hrely.1.2.2.stored of partitionId offset (Or.inr hstored)).mono (.of_eq hresults)

theorem fetchRetryPosition_commits (partitionId : Int) (h : CoveredAt id topic world) :
    CommitsSafe queue rules groupId id (fetchRetryPosition groupId topic partitionId) (fun result world =>
      CoveredAt id topic world ∧ ∀ position, result = .ok position →
        (isInternalTopic topic = true → position = 0) ∧
          (isInternalTopic topic = false → world.Covered (retryTopicPrefix ++ topic) partitionId position)) world := by
  unfold fetchRetryPosition
  split
  · rename_i hinternal
    refine ⟨h, fun position hposition => ?_⟩
    cases hposition
    exact ⟨fun _ => rfl, fun hordinary => absurd hinternal (by rw [hordinary]; exact Bool.false_ne_true)⟩
  · rename_i hinternal
    rw [CommitsSafe, Program.safe_bind]
    refine (fetchCommittedOffset_commits (retryTopicPrefix ++ topic) partitionId h).mono fun result world hboth => ?_
    cases result with
    | error status => exact ⟨hboth.1, fun _ heq => nomatch heq⟩
    | ok response =>
        refine ⟨hboth.1, fun position hposition => ?_⟩
        cases hposition
        exact ⟨fun h => absurd h hinternal, fun _ => hboth.2 response rfl⟩

/-- What the fetched positions of an assignment are. -/
structure Fetched (world : World) (topic assignedTopic : Bytes) (assignment : Assignment) : Prop where
  next : world.Covered assignedTopic assignment.partitionId assignment.nextOffset
  internal : isInternalTopic topic = true → assignment.retryNextOffset = 0
  retry : isInternalTopic topic = false →
    world.Covered (retryTopicPrefix ++ topic) assignment.partitionId assignment.retryNextOffset

theorem Fetched.mono {topic assignedTopic : Bytes} {assignment : Assignment} {world later : World}
    (h : Fetched world topic assignedTopic assignment) (hkeeps : world.KeepsResults later) :
    Fetched later topic assignedTopic assignment where
  next := h.next.mono hkeeps
  internal := h.internal
  retry := fun hordinary => (h.retry hordinary).mono hkeeps

/-- **The positions** of an assignment are covered. -/
theorem fetchPositions_commits (assignedTopic : Bytes) (partitionIds : List Int) (h : CoveredAt id topic world) :
    CommitsSafe queue rules groupId id (fetchPositions groupId topic assignedTopic partitionIds) (fun result world =>
      CoveredAt id topic world ∧ ∀ assignments, result = .ok assignments →
        assignments.map Assignment.partitionId = partitionIds ∧
          ∀ assignment ∈ assignments, Fetched world topic assignedTopic assignment) world := by
  induction partitionIds generalizing world with
  | nil =>
      refine ⟨h, fun assignments heq => ?_⟩
      cases heq
      exact ⟨rfl, List.forall_mem_nil _⟩
  | cons partitionId rest ih =>
      unfold fetchPositions
      rw [CommitsSafe, Program.safe_bind]
      refine (fetchCommittedOffset_commits assignedTopic partitionId h).mono fun result first hfirst => ?_
      cases result with
      | error status => exact ⟨hfirst.1, fun _ heq => by cases heq⟩
      | ok committed =>
          dsimp only
          rw [Program.safe_bind]
          refine (commits_keepsResults (fetchRetryPosition_commits partitionId hfirst.1)).mono fun result second hsecond => ?_
          cases result with
          | error status => exact ⟨hsecond.1.1, fun _ heq => by cases heq⟩
          | ok retryNextOffset =>
              dsimp only
              rw [Program.safe_bind]
              refine (commits_keepsResults (ih hsecond.1.1)).mono fun result third hthird => ?_
              cases result with
              | error status => exact ⟨hthird.1.1, fun _ heq => by cases heq⟩
              | ok others =>
                  refine ⟨hthird.1.1, fun assignments heq => ?_⟩
                  cases heq
                  obtain ⟨hpartitions, hfetched⟩ := hthird.1.2 others rfl
                  obtain ⟨hinternal, hretry⟩ := hsecond.1.2 retryNextOffset rfl
                  refine ⟨by rw [List.map_cons, hpartitions], fun assignment hassignment => ?_⟩
                  rcases List.mem_cons.mp hassignment with rfl | hassignment
                  · have hnext := (hfirst.2 committed rfl).mono hsecond.2
                    exact Fetched.mono ⟨hnext, hinternal, hretry⟩ hthird.2
                  · exact hfetched assignment hassignment

/-- **Joining** leaves covered positions. -/
theorem joinAndSync_stays : StaysCovered queue rules groupId id joinAndSync := by
  intro world hcovered
  unfold joinAndSync
  refine commits_bind_look hcovered fun consumer world _ hgroup _ hcovered => ?_
  split
  · exact hcovered.1
  rw [hgroup]
  refine (join_meets _ _ _).commits_bind hcovered (fun _ _ h => h.1) fun joined world _ hcovered => ?_
  rw [CommitsSafe, Program.safe_bind]
  refine (sendSyncGroup_commits joined hcovered).mono fun result world hsynced => ?_
  cases result with
  | error status => exact hsynced.1.1
  | ok synced =>
      obtain ⟨hdistinct, hown⟩ := hsynced.2 synced rfl
      dsimp only
      rw [Program.safe_bind]
      refine (fetchPositions_commits _ _ hsynced.1).mono fun result world hpositions => ?_
      cases result with
      | error status => exact hpositions.1.1
      | ok assignments =>
          obtain ⟨hpartitions, hfetched⟩ := hpositions.2 assignments rfl
          rw [← hpartitions] at hdistinct
          dsimp only
          rw [Program.safe_bind]
          refine commits_locked (fun _ _ => .adopt _ _ hdistinct) (fun _ => rfl) fun {before} hrely => ?_
          show Consumer.CoveredIn _ ((before.setConsumer id _).consumers id)
          rw [World.setConsumer_self]
          intro assignment hassignment retry hsource
          obtain ⟨hnext, hinternal, hretry⟩ := (hfetched assignment hassignment).mono hrely.2.2
          cases retry with
          | false => exact hnext
          | true =>
              have hordinary : isInternalTopic synced.assignment.topic = false := hsource rfl
              cases htopic : isInternalTopic consumer.topic with
              | true =>
                  show World.Covered _ _ _ assignment.retryNextOffset
                  rw [hinternal htopic]
                  exact World.covered_zero _ _ _
              | false =>
                  show World.Covered _ (retryTopicPrefix ++ synced.assignment.topic) _ _
                  rw [hown htopic hordinary]
                  exact hretry htopic

/-! ### Other calls -/

theorem startHeartbeat_stays : StaysCovered queue rules groupId id startHeartbeat := by
  refine (stays_locked (fun _ h => h.runHeartbeat) (fun consumer => ?_) fun consumer => ?_).bind fun _ => .done _
  · unfold runHeartbeat
    split <;> rfl
  · unfold runHeartbeat
    split <;> exact Or.inl ⟨rfl, rfl⟩

theorem leavePrevious_stays (of memberId : Bytes) :
    StaysCovered queue rules groupId id (leavePrevious of memberId) := by
  have hforget : StaysCovered queue rules groupId id (do let _ ← locked forgetMember : ConsumerProgram Unit) :=
    (stays_locked (fun _ h => h.forgetMember) (fun _ => rfl) fun _ => Or.inl ⟨rfl, rfl⟩).bind fun _ => .done _
  unfold leavePrevious
  refine stays_joinHeartbeat.bind fun _ => (sendLeaveGroup_meets _ _).stays.attempt.bind fun left => ?_
  split
  · exact hforget
  · split
    · exact hforget
    · exact startHeartbeat_stays.bind fun _ => .done _

theorem subscribeTo_stays (topic : Bytes) : StaysCovered queue rules groupId id (subscribeTo topic) := by
  unfold subscribeTo
  refine (stays_locked (fun _ h => h.changeTopic topic) (fun consumer => ?_) fun consumer => ?_).bind fun consumer => ?_
  · unfold changeTopic
    split <;> rfl
  · unfold changeTopic
    split
    · exact Or.inl ⟨rfl, rfl⟩
    · exact Or.inr rfl
  split
  · exact .done _
  · exact joinAndSync_stays.bind fun _ => startHeartbeat_stays

theorem subscribe_stays (topic : Bytes) : StaysCovered queue rules groupId id (subscribe topic) := by
  unfold subscribe
  refine (metadata_meets topic).stays.bind fun response => (StaysCovered.done _).bind fun metadata => ?_
  split
  · exact .done _
  refine (stays_locked (fun _ h => h.prepareLeave topic) (fun consumer => ?_) fun consumer => ?_).bind
    fun consumer => ?_
  · unfold prepareLeave
    split <;> rfl
  · unfold prepareLeave
    split <;> exact Or.inl ⟨rfl, rfl⟩
  split
  · exact .done _
  split
  · exact (leavePrevious_stays _ _).bind fun _ => subscribeTo_stays topic
  · exact subscribeTo_stays topic

theorem leave_stays (of memberId : Bytes) : StaysCovered queue rules groupId id (leave of memberId) := by
  have hclear : StaysCovered queue rules groupId id (do let _ ← locked clear : ConsumerProgram Unit) :=
    (stays_locked (fun consumer _ => .clear consumer) (fun _ => rfl) fun _ => Or.inr rfl).bind fun _ => .done _
  unfold leave
  split
  · exact hclear
  · refine (sendLeaveGroup_meets _ _).stays.attempt.bind fun left => ?_
    split
    · exact hclear
    · split
      · exact hclear
      · exact .done _

theorem close_stays : StaysCovered queue rules groupId id close := by
  unfold close
  refine (stays_locked (fun _ h => h.shut) (fun consumer => ?_) fun consumer => ?_).bind fun consumer => ?_
  · unfold shut
    split <;> rfl
  · unfold shut
    split <;> exact Or.inl ⟨rfl, rfl⟩
  split
  · exact .done _
  · exact stays_joinHeartbeat.bind fun _ => leave_stays _ _

theorem nack_stays (record : ConsumerRecord) (reason : Bytes) :
    StaysCovered queue rules groupId id (nack record reason) := by
  unfold nack
  refine (stays_locked (fun _ h => h) (fun _ => rfl) fun _ => Or.inl ⟨rfl, rfl⟩).bind fun consumer => ?_
  split
  · exact .done _
  · exact (nack_request_meets _).stays.bind fun _ => .done _

/-! ### Commits -/

/-- A covered position may be committed. -/
theorem commitSource_stays (of topic : Bytes) (retry : Bool) {partitionId position : Int}
    (hcovered : (world.consumers id).CoveredIn world) (hposition : world.Covered topic partitionId position) :
    CommitsSafe queue rules groupId id (commitSource of topic retry partitionId position)
      (fun _ world => (world.consumers id).CoveredIn world) world := by
  have htopic : CoveredAt id (world.consumers id).topic world := ⟨hcovered, rfl⟩
  unfold commitSource
  rw [CommitsSafe, Program.safe_bind]
  refine commits_roundTrip (fun request hbody => ?_) htopic fun {before reply after} _ _ hafter => ?_
  · cases hbody
    exact hposition
  · dsimp only
    split
    · exact hafter.1
    · rw [Program.safe_bind]
      show Program.Safe _ _ _ (Program.done (typedResponse _ _ _ _)) _ _
      cases typedResponse commitOffset? .commitOffset "commit offset" reply <;> exact hafter.1

theorem commitAssignments_stays (of topic : Bytes) {assignments : List Assignment}
    (hcovered : (world.consumers id).CoveredIn world)
    (hassignments : ∀ assignment ∈ assignments, assignment.CoveredIn world topic) :
    CommitsSafe queue rules groupId id (commitAssignments of topic assignments)
      (fun _ world => (world.consumers id).CoveredIn world) world := by
  induction assignments generalizing world with
  | nil => exact hcovered
  | cons assignment rest ih =>
      have hfirst := hassignments assignment List.mem_cons_self
      have hrest := fun other hother => hassignments other (List.mem_cons_of_mem _ hother)
      unfold commitAssignments
      rw [CommitsSafe, Program.safe_bind]
      refine (commits_keepsResults (commitSource_stays of topic false hcovered (hfirst false fun hfalse => absurd hfalse Bool.false_ne_true))).mono
        fun result world hboth => ?_
      have hlater : ∀ other ∈ rest, other.CoveredIn world topic :=
        fun other hother retry hsource => (hrest other hother retry hsource).mono hboth.2
      cases result with
      | error status => exact hboth.1
      | ok _ =>
          dsimp only
          split
          · exact ih hboth.1 hlater
          · rename_i hordinary
            have hretry := (hfirst true fun _ => Bool.eq_false_of_not_eq_true hordinary).mono hboth.2
            rw [Program.safe_bind]
            refine (commits_keepsResults (commitSource_stays of (retryTopicPrefix ++ topic) true hboth.1 hretry)).mono
              fun result world hnext => ?_
            cases result with
            | error status => exact hnext.1
            | ok _ =>
                exact ih hnext.1 fun other hother retry hsource => (hlater other hother retry hsource).mono hnext.2

theorem commitSync_stays : StaysCovered queue rules groupId id commitSync := by
  intro world hcovered
  unfold commitSync
  refine commits_bind_look hcovered fun consumer world _ _ hconsumer hcovered => ?_
  split
  · exact hcovered.1
  split
  · exact hcovered.1
  · exact commitAssignments_stays _ _ hcovered.1 hconsumer

/-! ### Polling -/

theorem pollStart_stays : StaysCovered queue rules groupId id pollStart := by
  unfold pollStart
  refine (stays_locked (fun _ h => h) (fun _ => rfl) fun _ => Or.inl ⟨rfl, rfl⟩).bind fun consumer => ?_
  split
  · exact .done _
  split
  · exact .done _
  split
  · exact joinAndSync_stays
  · exact .done _

/-- The positions are covered once a result is returned. -/
def CoveredAfter (id : Nat) (result : Result (List ConsumerRecord)) (world : World) : Prop :=
  (world.consumers id).CoveredIn (world.returnResult id result)

theorem CoveredIn.after (h : (world.consumers id).CoveredIn world) (result : Result (List ConsumerRecord)) :
    CoveredAfter id result world := h.mono (World.keepsResults_returnResult world id result)

/-- **One turn.** The positions written back are covered by the records of the turn. -/
theorem pollRound_covers (hcovered : (world.consumers id).CoveredIn world) :
    CommitsSafe queue rules groupId id pollRound (CoveredAfter id) world := by
  unfold pollRound
  refine commits_bind_look hcovered fun consumer world hregular _ hconsumer hcovered => ?_
  rw [CommitsSafe, Program.safe_bind]
  refine (commits_keepsResults ((pollAssignments_meets _ _ hregular.distinct).commits hcovered)).mono
    fun result later hpolled => ?_
  obtain ⟨⟨hpolled, hlater⟩, hkeeps⟩ := hpolled
  cases result with
  | error status => exact hlater.1.after _
  | ok polled =>
      obtain ⟨output, after⟩ := polled
      obtain ⟨-, hdelivered⟩ := hpolled output after rfl
      dsimp only
      rw [Program.safe_bind]
      refine commits_locked (fun _ h => h.writeBack _ _ _) (fun consumer => ?_) fun {before} hrely => ?_
      · unfold writeBack
        split <;> rfl
      have hbefore := hlater.relied hrely
      have hread : ∀ assignment ∈ after, assignment.CoveredIn (before.returnResult id (.ok output)) consumer.topic := by
        intro assignment hassignment retry hsource
        obtain ⟨old, hold, hadvances⟩ := hdelivered.exists_before hassignment
        have hposition := (hconsumer old hold retry hsource).mono (hkeeps.trans hrely.2.2)
        rw [hadvances.partition_eq]
        exact hposition.read (hadvances.consecutive retry hsource)
      show Consumer.CoveredIn (before.returnResult id (.ok output)) ((before.setConsumer id _).consumers id)
      rw [World.setConsumer_self]
      unfold writeBack
      split
      · rename_i hsame
        intro assignment hassignment
        rcases mem_foldl_advance hassignment with hold | hnew
        · exact hbefore.1.after (.ok output) assignment hold
        · show assignment.CoveredIn _ (before.consumers id).topic
          rw [← hsame.1]
          exact hread assignment hnew
      · exact hbefore.1.after (.ok output)

/-- **`Poll`.** -/
theorem poll_covers (turns : Nat) (hcovered : (world.consumers id).CoveredIn world) :
    CommitsSafe queue rules groupId id (poll turns) (CoveredAfter id) world := by
  induction turns generalizing world with
  | zero =>
      exact commits_bind (pollStart_stays world hcovered) (fun _ _ h => h.after _) fun _ _ h => pollRound_covers h
  | succ turns ih =>
      unfold poll
      refine commits_bind (pollStart_stays world hcovered) (fun _ _ h => h.after _) fun _ world hcovered => ?_
      rw [CommitsSafe, Program.safe_bind]
      refine (pollRound_covers hcovered).mono fun result world hafter => ?_
      cases result with
      | error status => exact hafter
      | ok output =>
          dsimp only
          split
          · rename_i hnone
            subst hnone
            exact ih fun assignment hassignment retry hsource => (hafter assignment hassignment retry hsource).of_empty
          · exact hafter

end Consumer

/-- **Calls** other than `Seek`. -/
theorem ConsumerCall.covers {call : ConsumerCall} (hseek : ¬ call.IsSeek)
    (hcovered : (world.consumers id).CoveredIn world) :
    CommitsSafe queue rules groupId id call.program (Consumer.CoveredAfter id) world := by
  have hstays : ∀ {α : Type} {program : ConsumerProgram α}, StaysCovered queue rules groupId id program →
      CommitsSafe queue rules groupId id (do let _ ← program; return []) (Consumer.CoveredAfter id) world :=
    fun hprogram => commits_bind (hprogram world hcovered) (fun _ _ h => h.after _) fun _ _ h => h.after _
  cases call with
  | subscribe topic => exact hstays (Consumer.subscribe_stays topic)
  | poll turns => exact Consumer.poll_covers turns hcovered
  | seek topic partitionId offset => exact absurd trivial hseek
  | nack record reason => exact hstays (Consumer.nack_stays record reason)
  | commitSync => exact hstays Consumer.commitSync_stays
  | close => exact hstays Consumer.close_stays

/-- **Heartbeats** leave the positions alone. -/
theorem Consumer.heartbeatRound_commits (id : Nat) (world : World) :
    (commitsOutline queue rules groupId).Secure (ownTopicMachine queue rules groupId) (.heartbeat id)
      Consumer.heartbeatRound world := by
  have hkeeps : Program.Keeps ((ownTopicMachine queue rules groupId).effect (.heartbeat id))
      ((commitsOutline queue rules groupId).Relied (.heartbeat id))
      ((commitsOutline queue rules groupId).Guaranteed (.heartbeat id)) heartbeatRound := by
    have hlocked : ∀ update : Consumer → Consumer, (∀ consumer, consumer.Regular → (update consumer).Regular) →
        (∀ consumer : Consumer, (update consumer).groupId = consumer.groupId) →
        (∀ consumer : Consumer, consumer.SamePositions (update consumer)) →
        Program.Keeps ((ownTopicMachine queue rules groupId).effect (.heartbeat id))
          ((commitsOutline queue rules groupId).Relied (.heartbeat id))
          ((commitsOutline queue rules groupId).Guaranteed (.heartbeat id)) (locked update) := by
      intro update hregular hgroup hsame _ before reply after hrely heffect
      obtain ⟨⟨-, rfl⟩, -⟩ := heffect
      refine ⟨commitsOutline_set hrely.1 (hregular _ (hrely.1.1.2 id)) (hgroup _) fun own hown => ?_, trivial⟩
      cases hown
      exact hsame _
    unfold heartbeatRound
    refine (hlocked stopHeartbeat (fun _ h => h.stopHeartbeat) (fun consumer => ?_) fun consumer => ?_).bind
      fun consumer => ?_
    · unfold stopHeartbeat
      split <;> rfl
    · unfold stopHeartbeat
      split <;> exact ⟨rfl, rfl⟩
    split
    · exact Program.keeps_done _
    have hrequest : Program.Keeps ((ownTopicMachine queue rules groupId).effect (.heartbeat id))
        ((commitsOutline queue rules groupId).Relied (.heartbeat id))
        ((commitsOutline queue rules groupId).Guaranteed (.heartbeat id)) (roundTrip protocolVersion
          (.heartbeat ⟨consumer.groupId, consumer.memberId, consumer.generationId⟩)) :=
      fun _ before reply after hrely heffect =>
        ⟨commitsOutline_request hrely.1 heffect.1 fun _ hbody _ => (nomatch hbody), trivial⟩
    refine hrequest.bind fun response => ?_
    split
    · exact Program.keeps_done _
    · refine (hlocked (heartbeatAnswered _) (fun _ h => h.heartbeatAnswered _) (fun consumer => ?_)
        fun consumer => ?_).bind fun _ => Program.keeps_done _
      · unfold heartbeatAnswered
        split <;> rfl
      · unfold heartbeatAnswered
        split <;> exact ⟨rfl, rfl⟩
  exact (hkeeps world).mono fun _ _ _ => trivial

/-! ### Runs -/

theorem BrokerMove.Apart.step {before after : System} (h : BrokerMove.Apart queue rules groupId before after) :
    BrokerStep queue rules before after := by
  obtain ⟨move, hallowed, -, happly⟩ := h
  exact move.step happly hallowed

/-- What happens to the broker without the consumers keeps the committed offsets covered. -/
theorem World.CommitsCovered.apart {world : World} (h : world.CommitsCovered groupId) {system : System}
    (hapart : BrokerMove.Apart queue rules groupId world.system system) :
    (world.setSystem system).CommitsCovered groupId := by
  obtain ⟨move, -, hcommits, happly⟩ := hapart
  have hkeeps : world.KeepsResults (world.setSystem system) := fun _ _ hresult => hresult
  cases move with
  | request environment envelope =>
      rw [BrokerMove.apply] at happly
      by_cases htyped : envelope.body.Typed
      · rw [if_pos htyped] at happly
        cases happly
        refine h.handle fun request hbody hgroup => absurd ?_ hcommits
        show envelope.body.CommitsFor groupId
        rw [hbody]
        exact hgroup
      · rw [if_neg htyped] at happly
        cases happly
  | wake now =>
      cases happly
      exact h.mono hkeeps rfl (List.Subset.refl _)
  | flush flushed =>
      cases happly
      exact h.mono hkeeps rfl (List.Subset.refl _)
  | expire now =>
      cases happly
      exact h.mono hkeeps rfl (List.Subset.refl _)
  | restart options now =>
      rw [BrokerMove.apply] at happly
      by_cases hintact : world.system.intact = true
      · rw [if_pos hintact] at happly
        cases hstart : BrokerService.start queue options world.system.broker.close now with
        | error status =>
            rw [hstart] at happly
            cases happly
        | ok broker =>
            rw [hstart] at happly
            cases happly
            obtain ⟨-, topics, tasks, -, -, rfl⟩ := BrokerService.start_ok.mp hstart
            refine ⟨fun topic partitionId offset hcommitted => ?_, fun version request hrequest hgroup =>
              (h.delayed version request hrequest hgroup).mono hkeeps⟩
            exact (h.stored topic partitionId offset (Or.inl (or_self_iff.mp hcommitted))).mono hkeeps
      · rw [if_neg hintact] at happly
        cases happly

/-- An offset that was covered when it was sent is committed. -/
theorem World.CommitsCovered.arrival {world : World} (h : world.CommitsCovered groupId) {index : Nat} {version : UInt16}
    {body : RequestBody} (hdelayed : world.delayed[index]? = some (version, body)) {environment : Environment}
    {requestId : UInt64} {intact : Bool} :
    ((world.arrive index).setSystem ⟨(world.system.broker.handle queue environment
      ⟨body.apiKey, version, requestId, body⟩).2, intact⟩).CommitsCovered groupId := by
  have hkeeps : world.KeepsResults (world.arrive index) := fun _ _ hresult => hresult
  have harrived := h.mono hkeeps rfl fun _ => List.mem_of_mem_eraseIdx
  refine harrived.handle fun request hbody hgroup => ?_
  change body = .commitOffset request at hbody
  subst hbody
  exact (h.delayed version request (List.mem_of_getElem? hdelayed) hgroup).mono hkeeps

theorem commitsOutline_valid : (commitsOutline queue rules groupId).Valid (ownTopicMachine queue rules groupId) := by
  have hpositions : (positionsOutline queue rules).Valid (groupMachine queue rules groupId) :=
    positionsOutline_valid fun hapart => hapart.step
  refine ⟨fun thread world => ⟨hpositions.refl thread world, .refl world⟩, ?_, ?_, ?_, ?_, ?_, ?_⟩
  · exact fun hfirst hsecond => ⟨hpositions.trans hfirst.1 hsecond.1, hfirst.2.trans hsecond.2⟩
  · intro thread before after hidle hrely
    cases thread with
    | heartbeat id => trivial
    | application id => exact (CoveredAt.relied ⟨hidle, rfl⟩ hrely).1
  · intro thread result before after hpost hrely
    cases thread with
    | heartbeat id => trivial
    | application id =>
        exact (Consumer.CoveredIn.mono hpost (hrely.2.2.returnResult id result)).samePositions hrely.2.1.1
  · intro before after hinvariant hstep
    obtain ⟨hkept, hrely⟩ := hpositions.outside hinvariant.1 hstep
    cases hstep with
    | other hapart =>
        exact ⟨⟨hkept, hinvariant.2.1, hinvariant.2.2.apart hapart⟩, fun thread => ⟨hrely thread, fun _ _ h => h⟩⟩
    | arrival hdelayed htyped requestId hallowed =>
        exact ⟨⟨hkept, hinvariant.2.1, hinvariant.2.2.arrival hdelayed⟩,
          fun thread => ⟨hrely thread, fun _ _ h => h⟩⟩
  · intro thread program world hinvariant hidle hstarts
    cases thread with
    | heartbeat id =>
        obtain ⟨-, rfl⟩ := hstarts
        exact Consumer.heartbeatRound_commits id world
    | application id =>
        obtain ⟨call, hcall, rfl⟩ := hstarts
        exact call.covers hcall hidle
  · intro thread result world hinvariant hpost
    have hfinish : (positionsOutline queue rules).Guaranteed thread world
        ((groupMachine queue rules groupId).finish thread result world) := (hpositions.finish hinvariant.1 trivial).1
    cases thread with
    | heartbeat id => exact ⟨⟨hinvariant, fun other hother => ⟨hfinish.2 other hother, .refl world⟩⟩, trivial⟩
    | application id =>
        have hkeeps := World.keepsResults_returnResult world id result
        have hcovered := hinvariant.2.2.mono hkeeps rfl (List.Subset.refl _)
        refine ⟨⟨⟨hinvariant.1, hinvariant.2.1, hcovered⟩, fun other hother => ?_⟩, hpost⟩
        exact ⟨hfinish.2 other hother, hkeeps⟩

end Commits

/-- **No record is skipped** in a run where every SyncGroup of a consumer finds its member assigned partitions of the
topic it has joined with, or of an internal one, or the consumer has joined with an internal one. -/
theorem neverSkips_ownTopic (queue : TaskQueue) (rules : Rules) :
    NeverSkips (ownTopicMachine queue rules) queue rules := by
  intro groupId world hinitial hgroup pool hfollows topic partitionId offset hcommitted
  have hcovered : world.CommitsCovered groupId := by
    obtain ⟨hoptions, hstart, groupIds, maxBytes⟩ := hinitial
    obtain ⟨-, topics, tasks, -, -, rfl⟩ := BrokerService.start_ok.mp hstart
    refine ⟨fun topic partitionId offset hcommitted => ?_, fun _ _ hrequest => absurd hrequest List.not_mem_nil⟩
    cases or_self_iff.mp hcommitted
  have hidle : ∀ thread, (commitsOutline queue rules groupId).idle thread world := by
    intro thread
    cases thread with
    | heartbeat id => trivial
    | application id =>
        obtain ⟨hoptions, hstart, groupIds, maxBytes⟩ := hinitial
        exact Consumer.coveredIn_nil rfl
  have hholds : (commitsOutline queue rules groupId).Holds (ownTopicMachine queue rules groupId) (.idle world) :=
    Outline.holds_idle _ _ ⟨hinitial.invariant, hgroup, hcovered⟩ hidle
  exact (commitsOutline_valid.follows hholds hfollows).1.2.2.stored topic partitionId offset (Or.inr hcommitted)

/-! ### Schedules -/

namespace ConsumerMove

/-- The condition holds before an action, no call is a `Seek`, and nobody else commits offsets of the group. -/
def ownTopic (groupId : Bytes) (pool : ConsumerPool) : ConsumerMove → Bool
  | .outside move => decide (¬ move.CommitsFor groupId)
  | .call _ made => decide (¬ made.IsSeek)
  | .act thread _ | .delay thread _ =>
      match pool.programs thread with
      | some (.act action _) => decide (action.OwnTopic pool.shared thread)
      | _ => true
  | .arrive _ _ _ | .beat _ | .finish _ => true

theorem ownTopic_step {queue : TaskQueue} {groupId : Bytes} {pool later : ConsumerPool} {move : ConsumerMove}
    (hown : ownTopic groupId pool move = true) (h : move.apply queue pool = some later) :
    (ownTopicMachine queue {} groupId).Step pool later := by
  cases move with
  | outside chosen =>
      obtain ⟨system, hsystem, rfl⟩ := Option.map_eq_some_iff.mp h
      exact .outside (.other ⟨chosen, chosen.allowed_any, of_decide_eq_true hown, hsystem⟩)
  | arrive index requestId environment =>
      obtain ⟨version, body, hdelayed, htyped, rfl⟩ := arrive_eq h
      exact .outside (.arrival hdelayed htyped requestId trivial)
  | call id made =>
      obtain ⟨hidle, rfl⟩ := begin_eq.mp h
      exact .start hidle ⟨made, of_decide_eq_true hown, rfl⟩
  | beat id =>
      rw [apply] at h
      split at h
      · rename_i hrunning
        obtain ⟨hidle, rfl⟩ := begin_eq.mp h
        exact .start hidle ⟨hrunning, rfl⟩
      · cases h
  | act thread fate =>
      rw [apply] at h
      split at h
      · rename_i action next hprogram
        obtain ⟨⟨reply, after⟩, hperform, rfl⟩ := Option.map_eq_some_iff.mp h
        have hallowed : fate.Allowed {} := by cases fate <;> trivial
        rw [ownTopic, hprogram] at hown
        exact .act hprogram ⟨effect hperform hallowed, of_decide_eq_true hown⟩
      · cases h
  | delay thread status =>
      obtain ⟨version, body, next, hprogram, rfl⟩ := delay_eq.mp h
      rw [ownTopic, hprogram] at hown
      exact .act hprogram ⟨.inr ⟨⟨status, rfl⟩, rfl⟩, of_decide_eq_true hown⟩
  | finish thread =>
      rw [apply] at h
      split at h
      · rename_i result hprogram
        cases h
        exact .finish hprogram
      · cases h

end ConsumerMove

/-- New consumers of a group. -/
def skippingWorld : World where
  system := ⟨.fresh {} 1, true⟩
  consumers := fun _ => { groupId := text "g" }

theorem initial_skippingWorld : World.Initial .inOrder {} skippingWorld :=
  .start trivial (BrokerService.start_fresh _ (by decide) 1) _ _

def skippingSetup (topic : Bytes) : List ConsumerMove :=
  [.outside (.request {} ⟨.createTopic, protocolVersion, 1, .createTopic ⟨topic, 1⟩⟩),
    .outside (.request {} ⟨.produce, protocolVersion, 1, .produce ⟨topic, 0, [{ timestamp := 1, key := [], value := [] }]⟩⟩),
    .outside (.request {} ⟨.nack, retryProtocolVersion, 1, .nack ⟨topic, 0, 0, []⟩⟩),
    .outside (.wake 1000000)]

def skippingThread (id : Nat) (now : Int) (count : Nat) : List ConsumerMove :=
  List.replicate count (.act (.application id) (.answered 1 { steadyNow := now }))

def skippingCall (id : Nat) (call : ConsumerCall) (now : Int) (count : Nat) : List ConsumerMove :=
  .call id call :: skippingThread id now count ++ [.finish (.application id)]

/-- A consumer that joins, polls and commits. Its first commit times out and arrives later. -/
def committingRun : List ConsumerMove :=
  skippingSetup (text "x") ++ skippingCall 0 (.subscribe (text "x")) 0 10 ++ skippingCall 0 (.poll 0) 0 5 ++
    .call 0 .commitSync :: skippingThread 0 0 1 ++ [.delay (.application 0) ⟨.timeout, "recv"⟩, .finish (.application 0),
      .arrive 0 2 {}]

/-- What it has committed is covered by the records that were returned. -/
theorem neverSkips_ownTopic_committing :
    ∃ pool, ConsumerMove.runWhile .inOrder (ConsumerMove.ownTopic (text "g")) committingRun (.idle skippingWorld) =
        some pool ∧
      pool.shared.system.broker.offsets.offsets ⟨text "g", text "x", 0⟩ = some 1 ∧
      pool.shared.Covered (text "x") 0 1 := by
  have hcommitted : (ConsumerMove.runWhile .inOrder (ConsumerMove.ownTopic (text "g")) committingRun
      (.idle skippingWorld)).map (fun pool => pool.shared.system.broker.offsets.offsets ⟨text "g", text "x", 0⟩) =
        some (some 1) := by decide +kernel
  obtain ⟨pool, hpool, hoffset⟩ := Option.map_eq_some_iff.mp hcommitted
  exact ⟨pool, hpool, hoffset, neverSkips_ownTopic .inOrder {} (text "g") skippingWorld initial_skippingWorld
    (fun _ => rfl) pool (ConsumerMove.runWhile_follows ConsumerMove.ownTopic_step hpool) _ _ _ hoffset⟩

/-! A consumer joins again after its session has expired, for a topic whose retry topic it has read. It expires once more,
and another consumer founds the group anew, for another topic; the member has the same id and the same generation. The
first one is assigned the new topic, and commits the position of the old retry topic in the new one. -/

def skippingRun : List ConsumerMove :=
  skippingSetup (text "x") ++ skippingSetup (text "y") ++
    skippingCall 0 (.subscribe (text "x")) 0 10 ++ skippingCall 0 (.poll 0) 0 5 ++ skippingCall 0 .commitSync 0 3 ++
    .outside (.expire 1000000) :: .call 0 (.subscribe (text "x")) :: skippingThread 0 1000000 6 ++
    .outside (.expire 2000000) :: skippingCall 1 (.subscribe (text "y")) 2000000 10 ++
    skippingThread 0 2000000 5 ++ .finish (.application 0) :: skippingCall 0 .commitSync 2000000 3

/-- The offset behind the first record of the new retry topic is committed, and no result has that record. -/
theorem skippingRun_skips : ∀ pool ∈ ConsumerMove.run .inOrder (fun _ => True) skippingRun (.idle skippingWorld),
    pool.shared.system.broker.offsets.offsets ⟨text "g", retryTopicPrefix ++ text "y", 0⟩ = some 1 ∧
      ∀ result ∈ pool.shared.results 0 ++ pool.shared.results 1, ∀ records ∈ result.toOption, ∀ record ∈ records,
        record.topic ≠ retryTopicPrefix ++ text "y" := by
  decide +kernel

theorem not_neverSkips_reassigned : ¬ NeverSkips (groupMachine .inOrder {}) .inOrder {} := by
  intro hnever
  have hrun : (ConsumerMove.run .inOrder (fun _ => True) skippingRun (.idle skippingWorld)).isSome = true := by
    decide +kernel
  obtain ⟨pool, hpool⟩ := Option.isSome_iff_exists.mp hrun
  have hapart : ∀ chosen ∈ skippingRun.filterMap ConsumerMove.broker?, ¬ chosen.CommitsFor (text "g") := by
    decide +kernel
  have hfollows : ((groupMachine .inOrder {} (text "g")).within fun _ => True).Follows (.idle skippingWorld) pool :=
    ConsumerMove.run_any hpool (by decide +kernel) fun chosen hchosen before after happly =>
      ⟨chosen, chosen.allowed_any, hapart chosen hchosen, happly⟩
  obtain ⟨hcommitted, hreturned⟩ := skippingRun_skips pool hpool
  obtain ⟨id, records, hrecords, record, hrecord, htopic, -⟩ :=
    hnever (text "g") skippingWorld initial_skippingWorld (fun _ => rfl) pool hfollows.of_within _ _ _ hcommitted 0
      (le_refl _) (by decide)
  by_cases hid : id = 0 ∨ id = 1
  · refine hreturned (.ok records) ?_ records rfl record hrecord htopic
    rcases hid with rfl | rfl
    · exact List.mem_append_left _ hrecords
    · exact List.mem_append_right _ hrecords
  · have hfinished : skippingRun.filterMap ConsumerMove.finished? = [0, 0, 0, 1, 0, 0] := by decide +kernel
    have hnone : pool.shared.results id = [] := by
      refine (ConsumerMove.run_results hpool ?_).trans rfl
      rw [hfinished]
      simp only [List.mem_cons, List.not_mem_nil, or_false]
      omega
    rw [hnone] at hrecords
    cases hrecords

end LogMq
