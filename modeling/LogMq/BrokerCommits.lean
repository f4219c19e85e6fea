import LogMq.BrokerRestart

/-! Committed offsets and the ends of the logs. `HandleCommitOffset` accepts no offset behind the end of a log;
requests never move the end back, and neither does a restart on an intact directory. A crash may: the files of
the offsets survive it, and the bytes of the active segments that were not flushed do not. -/

namespace LogMq

/-! ### Growing topics -/

/-- What has become of some topics: none is gone, and their logs hold what they held, or more. -/
structure TopicManager.Grows (before after : TopicManager) (intact : Prop) (held later : Holdings) : Prop where
  options_eq : after.options = before.options
  holds : after.Holds intact later
  grown : held.Extends later
  kept : ∀ {topic count}, before.count? topic = some count → after.count? topic = some count

namespace TopicManager.Grows

variable {before middle after : TopicManager} {intact : Prop} {held grown later : Holdings}

theorem refl (h : before.Holds intact held) : Grows before before intact held held :=
  ⟨rfl, h, .refl held, fun hcount => hcount⟩

theorem trans (h : Grows before middle intact held grown) {intact' : Prop}
    (h' : Grows middle after intact' grown later) : Grows before after intact' held later :=
  ⟨h'.options_eq.trans h.options_eq, h'.holds, h.grown.trans h'.grown, fun hcount => h'.kept (h.kept hcount)⟩

theorem mono (h : Grows before after intact held later) {intact' : Prop} (himp : intact' → intact) :
    Grows before after intact' held later :=
  { h with holds := h.holds.mono himp }

theorem selectPartition (h : before.Holds intact held) (topic : Bytes) (requested : Int) (key : Bytes) :
    Grows before (before.selectPartition topic requested key).2 intact held held := by
  have hsame := @selectPartition_same before topic requested key
  exact ⟨hsame.options, h.same hsame, .refl held, fun hcount => (hsame.count? _).trans hcount⟩

theorem createTopic (h : before.Holds intact held) (topic : Bytes) (count : UInt32) (faults : CreateFaults) :
    Grows before (before.createTopic topic count faults).2 intact held held := by
  obtain ⟨hoptions, -, hkept, -⟩ := @createTopic_frame before topic count faults
  exact ⟨hoptions, h.createTopic topic count faults, .refl held, fun hcount => hkept _ _ hcount⟩

theorem append (h : before.Holds intact held) {topic : Bytes} {id : Nat} {store : Store}
    (hstore : before.store? topic id = some store) (records : List Record) (faults : IoFaults) :
    ∃ later, Grows before (before.setStore topic id (store.append records faults).2) (intact ∧ faults = {})
      held later := by
  rcases h.append hstore records faults with ⟨_, -, hholds⟩ | ⟨_, batch, -, -, -, hholds⟩
  · exact ⟨held, options_setStore, hholds, .refl held, fun hcount => count?_setStore.trans hcount⟩
  · exact ⟨_, options_setStore, hholds, .set held topic id [batch], fun hcount => count?_setStore.trans hcount⟩

theorem flushPartition (h : before.Holds intact held) (topic : Bytes) (id : Nat) (failure : Option Status) :
    Grows before (before.flushPartition topic id failure).2 intact held held := by
  obtain ⟨hoptions, hcount, -⟩ := @flushPartition_frame before topic id failure
  exact ⟨hoptions, h.flushPartition topic id failure, .refl held, fun hfound => (hcount _).trans hfound⟩

theorem flush (h : before.Holds intact held) (flushed : List (Bytes × Nat)) :
    Grows before (before.flush flushed) intact held held := by
  induction flushed generalizing before with
  | nil => exact refl h
  | cons place rest ih =>
      have hfirst := flushPartition h place.1 place.2 none
      exact hfirst.trans (ih hfirst.holds)

theorem flushAppended (h : before.Holds intact held) (environment : Environment) (broker : BrokerService)
    (topic : Bytes) (id : Nat) :
    Grows before (broker.flushAppended environment before topic id).2 intact held held := by
  rcases @BrokerService.flushAppended_topics environment broker before topic id with heq | heq
  · rw [heq]
    exact refl h
  · rw [heq]
    exact flushPartition h topic id environment.flush

/-- The end of a log does not move back. -/
theorem next_le (h : Grows before after intact held later) {intact' : Prop} (hholds : before.Holds intact' held)
    {topic : Bytes} {id : Nat} {store : Store} (hstore : before.store? topic id = some store) :
    ∃ store', after.store? topic id = some store' ∧ store.log.nextOffset ≤ store'.log.nextOffset := by
  obtain ⟨count, hcount, hid⟩ := lt_count hstore
  obtain ⟨store', hstore'⟩ := exists_store? (h.kept hcount) hid
  have hchain := (h.holds.carries hstore').chain
  obtain ⟨more, hmore⟩ := h.grown topic id
  rw [← hmore] at hchain
  obtain ⟨mid, hleft, hright⟩ := chain_append.mp hchain
  rw [(hholds.carries hstore).chain.stop_unique hleft]
  exact ⟨store', hstore', hright.le⟩

end TopicManager.Grows

/-! ### Requests -/

section Handle

open TopicManager

variable {queue : TaskQueue} {environment : Environment} {broker : BrokerService} {intact : Bool} {held : Holdings}

/-- The topics that a Produce leaves. -/
theorem handleProduce_grows (h : broker.topics.Holds (intact = true) held) (request : ProduceRequest) :
    ∃ later, Grows broker.topics (broker.handleProduce environment request).2.topics
      ((intact && environment.faultless) = true) held later := by
  have hsame : Grows broker.topics broker.topics ((intact && environment.faultless) = true) held held :=
    .refl (h.mono Environment.faultless_intact)
  unfold BrokerService.handleProduce
  split
  · exact ⟨held, hsame⟩
  split
  · exact ⟨held, hsame⟩
  rename_i first rest hrecords
  have hselected := Grows.selectPartition h request.topic request.partitionId first.key
  split
  · rename_i status topics heq
    rw [heq] at hselected
    exact ⟨held, hselected.mono Environment.faultless_intact⟩
  rename_i selected store topics heq
  obtain ⟨-, hstore⟩ := selectPartition_ok (by rw [heq])
  rw [← (@selectPartition_same broker.topics request.topic request.partitionId first.key).store?, heq] at hstore
  rw [heq] at hselected
  obtain ⟨later, happend⟩ := Grows.append hselected.holds hstore (request.records.map toStorageRecord)
    environment.append
  have hgrown := (hselected.trans happend).mono (@Environment.faultless_append environment intact)
  split
  · rename_i status grown happended
    rw [happended] at hgrown
    exact ⟨later, hgrown⟩
  · rename_i result grown happended
    rw [happended] at hgrown
    exact ⟨later, hgrown.trans (.flushAppended hgrown.holds environment broker request.topic selected.toNat)⟩

/-- The topics that a Nack leaves. -/
theorem handleNack_grows (h : broker.topics.Holds (intact = true) held) (request : NackRequest) :
    ∃ later, Grows broker.topics (broker.handleNack queue environment request).2.topics
      ((intact && environment.faultless) = true) held later := by
  have hweaken := @Environment.faultless_intact environment intact
  unfold BrokerService.handleNack
  cases broker.nackRecord environment request with
  | error reply => exact ⟨held, .refl (h.mono hweaken)⟩
  | ok prepared =>
      obtain ⟨encoded, retry, deadLetter, partitionCount⟩ := prepared
      dsimp only
      generalize BrokerService.destinationOf retry deadLetter = destination
      have hcreated := Grows.createTopic h destination partitionCount environment.create
      cases hcreate : broker.topics.createTopic destination partitionCount environment.create with
      | mk result topics =>
          rw [hcreate] at hcreated
          cases result with
          | error status => exact ⟨held, hcreated.mono hweaken⟩
          | ok _ =>
              dsimp only
              cases hpartition : topics.getPartition destination request.partitionId with
              | error status => exact ⟨held, hcreated.mono hweaken⟩
              | ok target =>
                  obtain ⟨-, hstore⟩ := getPartition_ok.mp hpartition
                  obtain ⟨later, happend⟩ := Grows.append hcreated.holds hstore [encoded] environment.append
                  have hgrown := (hcreated.trans happend).mono (@Environment.faultless_append environment intact)
                  dsimp only
                  cases happended : target.append [encoded] environment.append with
                  | mk result grown =>
                      rw [happended] at hgrown
                      cases result with
                      | error status => exact ⟨later, hgrown⟩
                      | ok appended =>
                          exact ⟨later, hgrown.trans
                            (.flushAppended hgrown.holds environment broker destination request.partitionId.toNat)⟩

theorem handleCreateTopic_grows (h : broker.topics.Holds (intact = true) held) (request : CreateTopicRequest) :
    Grows broker.topics (broker.handleCreateTopic environment request).2.topics
      ((intact && environment.faultless) = true) held held := by
  have hweaken := @Environment.faultless_intact environment intact
  unfold BrokerService.handleCreateTopic
  split
  · exact .refl (h.mono hweaken)
  · exact (Grows.createTopic h request.topic request.partitionCount environment.create).mono hweaken

theorem handleProduce_offsets (request : ProduceRequest) :
    (broker.handleProduce environment request).2.offsets = broker.offsets := by
  unfold BrokerService.handleProduce
  split
  · rfl
  split
  · rfl
  split
  · rfl
  split <;> rfl

theorem handleNack_offsets (request : NackRequest) :
    (broker.handleNack queue environment request).2.offsets = broker.offsets := by
  unfold BrokerService.handleNack
  split
  · rfl
  dsimp only
  split
  · rfl
  split
  · rfl
  split <;> rfl

theorem handleCreateTopic_offsets (request : CreateTopicRequest) :
    (broker.handleCreateTopic environment request).2.offsets = broker.offsets := by
  unfold BrokerService.handleCreateTopic
  split <;> rfl

theorem handleCommitOffset_offsets (request : CommitOffsetRequest) :
    (broker.handleCommitOffset environment request).2.offsets = broker.offsets ∨
      (broker.handleCommitOffset environment request).2.offsets =
        ⟨OffsetStore.set broker.offsets.files ⟨request.groupId, request.topic, request.partitionId⟩ request.offset,
          OffsetStore.set broker.offsets.offsets ⟨request.groupId, request.topic, request.partitionId⟩ request.offset⟩ := by
  unfold BrokerService.handleCommitOffset
  split
  · exact Or.inl rfl
  · rcases OffsetStore.commit_cases broker.offsets ⟨request.groupId, request.topic, request.partitionId⟩
      request.offset environment.commit with ⟨status, heq⟩ | heq
    · rw [heq]
      exact Or.inl rfl
    · rw [heq]
      exact Or.inr rfl

/-- Only CommitOffset writes offsets, and only its own. -/
theorem handle_offsets (envelope : RequestEnvelope) :
    (broker.handle queue environment envelope).2.offsets = broker.offsets ∨
      ∃ request, envelope.body = .commitOffset request ∧ (broker.handle queue environment envelope).2.offsets =
        ⟨OffsetStore.set broker.offsets.files ⟨request.groupId, request.topic, request.partitionId⟩ request.offset,
          OffsetStore.set broker.offsets.offsets ⟨request.groupId, request.topic, request.partitionId⟩
            request.offset⟩ := by
  unfold BrokerService.handle
  split
  · exact Or.inl rfl
  split
  · exact Or.inl rfl
  cases envelope.body with
  | nack request => exact Or.inl (handleNack_offsets request)
  | produce request => exact Or.inl (handleProduce_offsets request)
  | createTopic request => exact Or.inl (handleCreateTopic_offsets request)
  | commitOffset request =>
      rcases @handleCommitOffset_offsets environment broker request with hsame | hset
      · exact Or.inl hsame
      · exact Or.inr ⟨request, rfl, hset⟩
  | fetch request => exact Or.inl rfl
  | metadata request => exact Or.inl rfl
  | fetchCommittedOffset request => exact Or.inl rfl
  | syncGroup request => exact Or.inl rfl
  | heartbeat request => exact Or.inl rfl
  | leaveGroup request => exact Or.inl rfl
  | joinGroup request =>
      change (broker.handleJoinGroup environment request).2.offsets = _ ∨ _
      unfold BrokerService.handleJoinGroup
      split <;> exact Or.inl rfl

end Handle

/-! ### Committed offsets -/

/-- Every committed offset is an offset of its log, or the end of it. -/
def BrokerService.Committed (broker : BrokerService) : Prop :=
  ∀ key offset, broker.offsets.offsets key = some offset → 0 ≤ key.partitionId ∧ ∃ store,
    broker.topics.store? key.topic key.partitionId.toNat = some store ∧ offset ≤ store.log.nextOffset

theorem BrokerService.checkCommit_ok {broker : BrokerService} {request : CommitOffsetRequest}
    (h : broker.checkCommit request = .ok ()) :
    0 ≤ request.offset ∧ 0 ≤ request.partitionId ∧ ∃ store,
      broker.topics.store? request.topic request.partitionId.toNat = some store ∧
        request.offset ≤ store.log.nextOffset := by
  unfold BrokerService.checkCommit at h
  simp only [Result.reject_eq_ok, Result.bind_eq_ok, Result.orReply_ok, not_lt, TopicManager.getPartition_ok] at h
  obtain ⟨hoffset, store, ⟨hpartition, hstore⟩, hend, -⟩ := h
  exact ⟨hoffset, hpartition, store, hstore, hend⟩

/-- What holds of the committed offsets and the logs in every state of a run. -/
structure CommitInvariant (system : System) (held : Holdings) : Prop where
  holds : system.broker.topics.Holds (system.intact = true) held
  files : system.broker.offsets.files = system.broker.offsets.offsets
  committed : system.broker.Committed

namespace CommitInvariant

open TopicManager

variable {queue : TaskQueue} {system : System} {held later : Holdings}

/-- Logs that grow keep their committed offsets. -/
theorem grow (h : CommitInvariant system held) {after : System}
    (hgrows : Grows system.broker.topics after.broker.topics (after.intact = true) held later)
    (hoffsets : after.broker.offsets = system.broker.offsets) : CommitInvariant after later where
  holds := hgrows.holds
  files := by rw [hoffsets]; exact h.files
  committed := by
    intro key offset hkey
    rw [hoffsets] at hkey
    obtain ⟨hpartition, store, hstore, hle⟩ := h.committed key offset hkey
    obtain ⟨store', hstore', hnext⟩ := hgrows.next_le h.holds hstore
    exact ⟨hpartition, store', hstore', hle.trans hnext⟩

/-- **CommitOffset** writes an offset that the log has. -/
theorem handleCommitOffset (h : CommitInvariant system held) (environment : Environment)
    (request : CommitOffsetRequest) :
    CommitInvariant ⟨(system.broker.handleCommitOffset environment request).2, system.intact && environment.faultless⟩
      held := by
  have hholds := h.holds.mono (@Environment.faultless_intact environment system.intact)
  unfold BrokerService.handleCommitOffset
  cases hcheck : system.broker.checkCommit request with
  | error reply => exact ⟨hholds, h.files, h.committed⟩
  | ok _ =>
      obtain ⟨-, hpartition, hstore⟩ := BrokerService.checkCommit_ok hcheck
      dsimp only
      rcases OffsetStore.commit_cases system.broker.offsets ⟨request.groupId, request.topic, request.partitionId⟩
        request.offset environment.commit with ⟨status, heq⟩ | heq
      · rw [heq]
        exact ⟨hholds, h.files, h.committed⟩
      · rw [heq]
        refine ⟨hholds, by rw [h.files], fun key offset hkey => ?_⟩
        change OffsetStore.set _ _ _ key = some offset at hkey
        unfold OffsetStore.set at hkey
        split at hkey
        · rename_i hsame
          cases hkey
          rw [hsame]
          exact ⟨hpartition, hstore⟩
        · exact h.committed key offset hkey

/-- **Every request** keeps the committed offsets within the logs. -/
theorem handle (h : CommitInvariant system held) (environment : Environment) (envelope : RequestEnvelope) :
    ∃ later, CommitInvariant
      ⟨(system.broker.handle queue environment envelope).2, system.intact && environment.faultless⟩ later := by
  have hweaken := @Environment.faultless_intact environment system.intact
  refine @BrokerService.handle_cases queue environment system.broker (fun broker => ∃ later,
    CommitInvariant ⟨broker, system.intact && environment.faultless⟩ later) envelope ?_ ?_ ?_ ?_ ?_
  · exact fun groups => ⟨held, h.grow (.refl (h.holds.mono hweaken)) rfl⟩
  · intro request _
    obtain ⟨later, hgrows⟩ := @handleNack_grows queue environment _ _ _ h.holds request
    exact ⟨later, h.grow hgrows (handleNack_offsets request)⟩
  · intro request
    obtain ⟨later, hgrows⟩ := @handleProduce_grows environment _ _ _ h.holds request
    exact ⟨later, h.grow hgrows (handleProduce_offsets request)⟩
  · exact fun request => ⟨held, h.grow (handleCreateTopic_grows h.holds request) (handleCreateTopic_offsets request)⟩
  · exact fun request => ⟨held, h.handleCommitOffset environment request⟩

end CommitInvariant

end LogMq
