import LogMq.BrokerCrash
import LogMq.StorageFlushed

/-! The changes that requests make to the topics, one by one, and what a new manager makes of a directory. What every
single change keeps, every request keeps. -/

namespace LogMq

open TopicManager

/-- One change of the topics. -/
inductive TopicMove : TopicManager → TopicManager → Prop
  | select {manager : TopicManager} (topic : Bytes) (requested : Int) (key : Bytes) :
      TopicMove manager (manager.selectPartition topic requested key).2
  | create {manager : TopicManager} (topic : Bytes) (count : UInt32) (faults : CreateFaults) :
      TopicMove manager (manager.createTopic topic count faults).2
  | append {manager : TopicManager} {topic : Bytes} {id : Nat} {store : Store}
      (hstore : manager.store? topic id = some store) (records : List Record) (faults : IoFaults) :
      TopicMove manager (manager.setStore topic id (store.append records faults).2)
  | flush {manager : TopicManager} (topic : Bytes) (id : Nat) (failure : Option Status) :
      TopicMove manager (manager.flushPartition topic id failure).2

/-- Some changes in a row. -/
abbrev TopicMoves : TopicManager → TopicManager → Prop := Relation.ReflTransGen TopicMove

namespace TopicMoves

variable {queue : TaskQueue} {environment : Environment} {broker : BrokerService} {manager : TopicManager}

theorem flush (manager : TopicManager) (flushed : List (Bytes × Nat)) : TopicMoves manager (manager.flush flushed) := by
  induction flushed generalizing manager with
  | nil => exact .refl
  | cons place rest ih => exact .head (.flush place.1 place.2 none) (ih _)

theorem flushAppended (broker : BrokerService) (environment : Environment) (topic : Bytes) (id : Nat) :
    TopicMoves manager (broker.flushAppended environment manager topic id).2 := by
  rcases @BrokerService.flushAppended_topics environment broker manager topic id with heq | heq
  · rw [heq]
  · rw [heq]
    exact .single (.flush topic id environment.flush)

theorem produce (request : ProduceRequest) :
    TopicMoves broker.topics (broker.handleProduce environment request).2.topics := by
  unfold BrokerService.handleProduce
  split
  · exact .refl
  split
  · exact .refl
  rename_i first rest hrecords
  have hselected : TopicMove broker.topics
      (broker.topics.selectPartition request.topic request.partitionId first.key).2 := .select _ _ _
  split
  · rename_i status topics heq
    rw [heq] at hselected
    exact .single hselected
  rename_i selected store topics heq
  obtain ⟨-, hstore⟩ := selectPartition_ok (by rw [heq])
  rw [← (@selectPartition_same broker.topics request.topic request.partitionId first.key).store?, heq] at hstore
  rw [heq] at hselected
  have happend := TopicMove.append hstore (request.records.map toStorageRecord) environment.append
  split
  · rename_i status grown happended
    rw [happended] at happend
    exact (Relation.ReflTransGen.single hselected).tail happend
  · rename_i result grown happended
    rw [happended] at happend
    exact ((Relation.ReflTransGen.single hselected).tail happend).trans (flushAppended broker environment _ _)

theorem nack (request : NackRequest) :
    TopicMoves broker.topics (broker.handleNack queue environment request).2.topics := by
  unfold BrokerService.handleNack
  cases broker.nackRecord environment request with
  | error reply => exact .refl
  | ok prepared =>
      obtain ⟨encoded, retry, deadLetter, partitionCount⟩ := prepared
      dsimp only
      generalize BrokerService.destinationOf retry deadLetter = destination
      have hcreated : TopicMove broker.topics
          (broker.topics.createTopic destination partitionCount environment.create).2 := .create _ _ _
      cases hcreate : broker.topics.createTopic destination partitionCount environment.create with
      | mk result topics =>
          rw [hcreate] at hcreated
          cases result with
          | error status => exact .single hcreated
          | ok _ =>
              dsimp only
              cases hpartition : topics.getPartition destination request.partitionId with
              | error status => exact .single hcreated
              | ok target =>
                  obtain ⟨-, hstore⟩ := getPartition_ok.mp hpartition
                  have happend := TopicMove.append hstore [encoded] environment.append
                  dsimp only
                  cases happended : target.append [encoded] environment.append with
                  | mk result grown =>
                      rw [happended] at happend
                      have hmoves := (Relation.ReflTransGen.single hcreated).tail happend
                      cases result with
                      | error status => exact hmoves
                      | ok appended => exact hmoves.trans (flushAppended broker environment _ _)

theorem createTopic (request : CreateTopicRequest) :
    TopicMoves broker.topics (broker.handleCreateTopic environment request).2.topics := by
  unfold BrokerService.handleCreateTopic
  split
  · exact .refl
  · exact .single (.create request.topic request.partitionCount environment.create)

/-- **Every request** changes the topics in such steps. -/
theorem handle (envelope : RequestEnvelope) :
    TopicMoves broker.topics (broker.handle queue environment envelope).2.topics := by
  refine @BrokerService.handle_cases queue environment broker (fun later => TopicMoves broker.topics later.topics)
    envelope (fun _ => .refl) (fun request _ => nack request) produce createTopic fun request => ?_
  unfold BrokerService.handleCommitOffset
  split <;> exact .refl

end TopicMoves

/-- A change lets the topics grow. -/
theorem TopicMove.grows {before after : TopicManager} (hmove : TopicMove before after) {held : Holdings}
    (h : before.Holds False held) : ∃ later, Grows before after False held later := by
  cases hmove with
  | select topic requested key => exact ⟨held, .selectPartition h topic requested key⟩
  | create topic count faults => exact ⟨held, .createTopic h topic count faults⟩
  | append hstore records faults =>
      obtain ⟨later, hgrows⟩ := Grows.append h hstore records faults
      exact ⟨later, hgrows.mono False.elim⟩
  | flush topic id failure => exact ⟨held, .flushPartition h topic id failure⟩

/-- What every change keeps, all of them keep. -/
theorem TopicMoves.keeps {kept : TopicManager → Prop}
    (hstep : ∀ {before after held}, before.Holds False held → TopicMove before after → kept before → kept after)
    {before after : TopicManager} (hmoves : TopicMoves before after) {held : Holdings} (h : before.Holds False held)
    (hkept : kept before) : kept after := by
  have hall : ∃ later, after.Holds False later ∧ kept after := by
    induction hmoves with
    | refl => exact ⟨held, h, hkept⟩
    | tail _ hmove ih =>
        obtain ⟨middle, hholds, hmiddle⟩ := ih
        obtain ⟨later, hgrows⟩ := hmove.grows hholds
        exact ⟨later, hgrows.holds, hstep hholds hmove hmiddle⟩
  exact hall.elim fun _ hafter => hafter.2

/-! ### New managers -/

/-- A manager whose logs were opened from a directory, and which has not yet touched the rest of it. -/
structure TopicManager.OpenedFrom (options : TopicManagerOptions) (directory : TopicFiles) (manager : TopicManager) :
    Prop where
  options_eq : manager.options = options
  opened : ∀ topic id store, manager.store? topic id = some store →
    openLog (options.log topic id) (directory.partitions topic id) = (.ok store.log, store.disk)
  waiting : ∀ topic, manager.topics.find? topic = none →
    ∀ id, manager.files.partitions topic id = directory.partitions topic id

namespace TopicManager.OpenedFrom

variable {options : TopicManagerOptions} {directory : TopicFiles} {manager loaded : TopicManager}

/-- One more topic is opened. -/
theorem openTopic (h : OpenedFrom options directory manager) {topic : Bytes} {count : UInt32} {opened : Topic}
    {files : TopicFiles} (hnone : manager.topics.find? topic = none)
    (hopen : manager.openTopic topic count none = (.ok opened, files)) :
    OpenedFrom options directory { manager with topics := manager.topics.insert topic opened, files := files } where
  options_eq := h.options_eq
  opened other id store hstore := by
    by_cases hother : other = topic
    · subst hother
      obtain ⟨hlog, hdisk⟩ := store?_insert_self.mp hstore
      obtain ⟨hopened, -⟩ := openPartition_ok ((openTopic_ok hopen).2 id _ hlog)
      rw [h.options_eq, h.waiting other hnone id, hdisk] at hopened
      exact hopened
    · have hfiles : files.partitions other id = manager.files.partitions other id := by
        rw [← @openTopic_of_ne manager topic count none other hother id, hopen]
      exact h.opened other id store ((store?_insert_of_ne hother hfiles).symm.trans hstore)
  waiting other hother id := by
    change (manager.topics.insert topic opened).find? other = none at hother
    rw [SortedMap.find?_insert] at hother
    split_ifs at hother with hne
    have hfiles := @openTopic_of_ne manager topic count none other hne id
    rw [hopen] at hfiles
    exact hfiles.trans (h.waiting other hother id)

theorem loadTopics (h : OpenedFrom options directory manager) {lines : List TopicMetadata}
    (hload : TopicManager.loadTopics lines manager = .ok loaded) : OpenedFrom options directory loaded := by
  induction lines generalizing manager with
  | nil =>
      cases hload
      exact h
  | cons line rest ih =>
      rw [TopicManager.loadTopics] at hload
      split at hload
      · cases hload
      split at hload
      · cases hload
      split at hload
      · cases hload
      rename_i hnew
      split at hload
      · cases hload
      · rename_i opened files hopen
        exact ih (h.openTopic (Option.not_isSome_iff_eq_none.mp hnew) hopen) hload

/-- **Loading.** Every log of a new manager was opened from its directory. -/
theorem load (hload : TopicManager.load options directory = .ok loaded) : OpenedFrom options directory loaded := by
  refine loadTopics ?_ hload
  exact ⟨rfl, fun topic id store hstore => (by cases hstore), fun _ _ _ => rfl⟩

end TopicManager.OpenedFrom

end LogMq
