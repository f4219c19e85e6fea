import LogMq.BrokerService

/-! What the handlers do when they succeed, read off their definitions once. -/

namespace LogMq

theorem Result.orReply_ok {α : Type} {code : Status → ProtocolErrorCode} {result : Result α} {value : α} :
    Result.orReply code result = .ok value ↔ result = .ok value := by
  cases result with
  | error status => exact ⟨fun h => (nomatch h), fun h => (nomatch h)⟩
  | ok found => exact ⟨fun h => by cases h; rfl, fun h => by cases h; rfl⟩

/-! ### Appending to a partition -/

/-- An append to one partition changes what that partition holds, or nothing. -/
theorem TopicManager.Holds.append {manager : TopicManager} {intact : Prop} {held : Holdings}
    (h : manager.Holds intact held) {topic : Bytes} {id : Nat} {store : Store}
    (hstore : manager.store? topic id = some store) (records : List Record) (faults : IoFaults) :
    (∃ status, (store.append records faults).1 = .error status ∧
        (manager.setStore topic id (store.append records faults).2).Holds (intact ∧ faults = {}) held) ∨
      ∃ result batch, (store.append records faults).1 = .ok result ∧ result.baseOffset = store.log.nextOffset ∧
        makeRecordBatch store.log.nextOffset records = .ok batch ∧
        (manager.setStore topic id (store.append records faults).2).Holds (intact ∧ faults = {})
          (held.set topic id (held topic id ++ [batch])) := by
  rcases (h.carries hstore).append records faults with
    ⟨status, hresult, hcarries⟩ | ⟨result, batch, hresult, hbase, hbatch, hcarries⟩
  · have hset := h.setStore And.left hstore hcarries
    rw [TopicManager.Holdings.set_held] at hset
    exact Or.inl ⟨status, hresult, hset⟩
  · exact Or.inr ⟨result, batch, hresult, hbase, hbatch, h.setStore And.left hstore hcarries⟩

namespace BrokerService

variable {queue : TaskQueue} {environment : Environment} {broker : BrokerService}

theorem flushAppended_topics {topics : TopicManager} {topic : Bytes} {id : Nat} :
    (broker.flushAppended environment topics topic id).2 = topics ∨
      (broker.flushAppended environment topics topic id).2 = (topics.flushPartition topic id environment.flush).2 := by
  unfold flushAppended
  split_ifs
  · exact Or.inr rfl
  · exact Or.inl rfl

theorem flushAppended_holds {topics : TopicManager} {intact : Prop} {held : Holdings} (h : topics.Holds intact held)
    (topic : Bytes) (id : Nat) : (broker.flushAppended environment topics topic id).2.Holds intact held := by
  rcases @flushAppended_topics environment broker topics topic id with heq | heq
  · rw [heq]
    exact h
  · rw [heq]
    exact h.flushPartition topic id environment.flush

theorem flushAppended_count {topics : TopicManager} {topic : Bytes} {id : Nat} (other : Bytes) :
    (broker.flushAppended environment topics topic id).2.count? other = topics.count? other := by
  rcases @flushAppended_topics environment broker topics topic id with heq | heq
  · rw [heq]
  · rw [heq]
    exact (TopicManager.flushPartition_frame topic id environment.flush).2.1 other

theorem flushAppended_options {topics : TopicManager} {topic : Bytes} {id : Nat} :
    (broker.flushAppended environment topics topic id).2.options = topics.options := by
  rcases @flushAppended_topics environment broker topics topic id with heq | heq
  · rw [heq]
  · rw [heq]
    exact (TopicManager.flushPartition_frame topic id environment.flush).1

/-! ### Nack -/

theorem nackStored_ok {request : NackRequest} {stored : Record} (h : broker.nackStored request = .ok stored) :
    isDlqTopic request.topic = false ∧ 0 ≤ request.offset ∧ 0 ≤ request.partitionId ∧
      (isRetryTopic request.topic = true →
        request.offset < broker.retries.visibleEnd request.topic request.partitionId) ∧
      ∃ store batch, broker.topics.store? request.topic request.partitionId.toNat = some store ∧
        store.read request.offset maxRetryBatchBytes = .ok batch ∧
        batch.records[(request.offset - batch.baseOffset).toNat]? = some stored := by
  unfold nackStored nackRead at h
  simp only [Result.reject_eq_ok, Result.bind_eq_ok, Result.orReply_ok, Bool.not_eq_true] at h
  obtain ⟨hdlq, hoffset, source, hsource, hend, hvisible, batch, hread, hstored⟩ := h
  obtain ⟨hpartition, hstore⟩ := TopicManager.getPartition_ok.mp hsource
  refine ⟨hdlq, not_lt.mp hoffset, hpartition, ?_, source, batch, hstore, hread, ?_⟩
  · intro hretry
    exact lt_of_not_ge fun hge => hvisible ⟨hretry, hge⟩
  · split at hstored
    · cases hstored
    · cases hstored
      assumption

theorem nackSource_ok {request : NackRequest} {stored : Record} {record : ProtocolRecord} {retry : RetryMetadata}
    (h : nackSource request stored = .ok (record, retry)) :
    (isRetryTopic request.topic = true ∧ decodeRetryRecord stored = .ok record ∧ record.retry = some retry ∧
        request.topic = retryTopicPrefix ++ retry.originalTopic ∧ request.partitionId = retry.originalPartition) ∨
      isRetryTopic request.topic = false ∧ record = toProtocolRecord stored ∧
        retry = ⟨0, 0, request.topic, request.reason, request.partitionId, request.offset⟩ := by
  unfold nackSource at h
  split at h
  · rename_i hretry
    split at h
    · cases h
    · rename_i found hdecode
      split at h
      · cases h
      · rename_i metadata hmetadata
        split at h
        · cases h
        · rename_i hmatch
          cases h
          push Not at hmatch
          exact Or.inl ⟨hretry, hdecode, hmetadata, hmatch.1, hmatch.2.1⟩
  · rename_i hretry
    cases h
    exact Or.inr ⟨Bool.eq_false_of_not_eq_true hretry, rfl, rfl⟩

/-- What `HandleNack` has established when it starts to change things. -/
theorem nackRecord_ok {request : NackRequest} {encoded : Record} {retry : RetryMetadata} {deadLetter : Bool}
    {partitionCount : UInt32}
    (h : broker.nackRecord environment request = .ok (encoded, retry, deadLetter, partitionCount)) :
    ∃ stored record source count, broker.nackStored request = .ok stored ∧
      nackSource request stored = .ok (record, source) ∧
      nackMetadata broker.options.retry environment.now request.reason source = (retry, deadLetter) ∧
      encodeRetryRecord { record with retry := some retry } = .ok encoded ∧
      broker.topics.count? retry.originalTopic = some count ∧ partitionCount = UInt32.ofNat count := by
  unfold nackRecord at h
  obtain ⟨stored, hstored, h⟩ := Result.bind_eq_ok.mp h
  obtain ⟨⟨record, source⟩, hsource, h⟩ := Result.bind_eq_ok.mp h
  obtain ⟨encodedRecord, hencode, h⟩ := Result.bind_eq_ok.mp h
  obtain ⟨metadata, hmetadata, h⟩ := Result.bind_eq_ok.mp h
  rw [Result.orReply_ok] at hencode hmetadata
  cases metadata with
  | nil => cases h
  | cons original rest =>
      cases h
      obtain ⟨found, hstoredRetry⟩ := encodeRetryRecord_ok hencode
      cases hstoredRetry.retry_eq
      have hname := hstoredRetry.fits.1.2.1
      unfold TopicManager.getMetadata at hmetadata
      rw [if_pos hname] at hmetadata
      split at hmetadata
      · cases hmetadata
      · rename_i count hcount
        cases hmetadata
        exact ⟨stored, record, source, count, hstored, hsource, rfl, hencode, hcount, rfl⟩

/-! ### Fetch -/

theorem fetchRecords_ok {topic : Bytes} {version : UInt16} {maxBytes : UInt32} {stored : List Record}
    {records : List ProtocolRecord} :
    fetchRecords topic version maxBytes stored = .ok records ↔
      List.Forall₂ (fun record value => fetchRecord topic version maxBytes record = .ok value) stored records := by
  induction stored generalizing records with
  | nil =>
      rw [fetchRecords, List.forall₂_nil_left_iff]
      exact ⟨fun h => by cases h; rfl, fun h => by rw [h]⟩
  | cons record rest ih =>
      rw [fetchRecords, List.forall₂_cons_left_iff, Result.bind_eq_ok]
      constructor
      · rintro ⟨value, hvalue, h⟩
        obtain ⟨others, hothers, h⟩ := Result.bind_eq_ok.mp h
        exact ⟨value, others, hvalue, ih.mp hothers, Result.pure_eq_ok.mp h⟩
      · rintro ⟨value, others, hvalue, hothers, rfl⟩
        exact ⟨value, hvalue, Result.bind_eq_ok.mpr ⟨others, ih.mpr hothers, rfl⟩⟩

theorem fetchInternal_ok {version : UInt16} {maxBytes : UInt32} {stored : Record} {value : ProtocolRecord}
    (h : fetchInternal version maxBytes stored = .ok value) :
    ∃ record, decodeRetryRecord stored = .ok record ∧
      recordBatchHeaderBytes + encodedRecordSize (toStorageRecord record) ≤ maxBytes.toNat ∧
      value.dropRetry = record.dropRetry := by
  unfold fetchInternal at h
  split at h
  · cases h
  · rename_i record hdecode
    split at h
    · cases h
    · rename_i hbudget
      cases h
      refine ⟨record, hdecode, not_lt.mp hbudget, ?_⟩
      split_ifs <;> rfl

/-- The budget a Fetch gives to the log. -/
def readBudget (request : FetchRequest) : Nat :=
  if isInternalTopic request.topic then maxRetryBatchBytes else request.maxBytes.toNat

/-- What a successful Fetch has checked, and what it returns. -/
theorem handleFetch_ok {version : UInt16} {request : FetchRequest} {response : FetchResponse} :
    broker.handleFetch version request = .ok response ↔
      0 ≤ request.offset ∧ request.maxBytes ≠ 0 ∧ ∃ store, 0 ≤ request.partitionId ∧
        broker.topics.store? request.topic request.partitionId.toNat = some store ∧
        request.offset ≤ store.log.nextOffset ∧
        (broker.highWatermark request.topic request.partitionId store ≤ request.offset ∧
            response = ⟨request.offset, broker.highWatermark request.topic request.partitionId store, []⟩ ∨
          request.offset < broker.highWatermark request.topic request.partitionId store ∧
            ∃ batch records, store.read request.offset (readBudget request) = .ok batch ∧
              fetchRecords request.topic version request.maxBytes batch.records = .ok records ∧
              response = ⟨batch.baseOffset, broker.highWatermark request.topic request.partitionId store, records⟩) := by
  unfold handleFetch fetchBatch
  simp only [Result.reject_eq_ok, Result.bind_eq_ok, Result.orReply_ok, not_lt, TopicManager.getPartition_ok]
  refine and_congr_right fun _ => and_congr_right fun _ => exists_congr fun store => ?_
  rw [and_assoc]
  refine and_congr_right fun _ => and_congr_right fun _ => and_congr_right fun _ => ?_
  by_cases hend : request.offset ≥ broker.highWatermark request.topic request.partitionId store
  · rw [if_pos hend, Result.pure_eq_ok]
    constructor
    · rintro rfl
      exact Or.inl ⟨hend, rfl⟩
    · rintro (⟨-, rfl⟩ | ⟨hlt, -⟩)
      · rfl
      · exact absurd hend (not_le.mpr hlt)
  · rw [if_neg hend]
    simp only [Result.bind_eq_ok, Result.orReply_ok, Result.pure_eq_ok]
    constructor
    · rintro ⟨batch, hread, records, hrecords, rfl⟩
      exact Or.inr ⟨not_le.mp hend, batch, records, hread, hrecords, rfl⟩
    · rintro (⟨hle, -⟩ | ⟨-, batch, records, hread, hrecords, rfl⟩)
      · exact absurd hle hend
      · exact ⟨batch, hread, records, hrecords, rfl⟩

/-! ### Any request -/

/-- The requests that change more than the groups. -/
theorem handle_cases {motive : BrokerService → Prop} {envelope : RequestEnvelope}
    (hgroups : ∀ groups, motive { broker with groups := groups })
    (hnack : ∀ request, envelope.body = .nack request → motive (broker.handleNack queue environment request).2)
    (hproduce : ∀ request, motive (broker.handleProduce environment request).2)
    (hcreate : ∀ request, motive (broker.handleCreateTopic environment request).2)
    (hcommit : ∀ request, motive (broker.handleCommitOffset environment request).2) :
    motive (broker.handle queue environment envelope).2 := by
  have hunchanged : motive broker := hgroups broker.groups
  unfold handle
  split
  · exact hunchanged
  split
  · exact hunchanged
  cases hbody : envelope.body with
  | nack request => exact hnack request hbody
  | produce request => exact hproduce request
  | createTopic request => exact hcreate request
  | commitOffset request => exact hcommit request
  | joinGroup request =>
      change motive (broker.handleJoinGroup environment request).2
      unfold handleJoinGroup
      split
      · exact hunchanged
      · exact hunchanged
      · exact hgroups _
  | fetch request => exact hunchanged
  | metadata request => exact hunchanged
  | fetchCommittedOffset request => exact hunchanged
  | syncGroup request => exact hgroups _
  | heartbeat request => exact hgroups _
  | leaveGroup request => exact hgroups _

end BrokerService

end LogMq
