import LogMq.BrokerRuns

/-! Every request keeps the invariant. Only Produce and Nack change what is held, and they only add to it. -/

namespace LogMq

open BrokerService

theorem Environment.faultless_append {environment : Environment} {intact : Bool}
    (h : (intact && environment.faultless) = true) : intact = true ∧ environment.append = {} := by
  simp only [Environment.faultless, Bool.and_eq_true, decide_eq_true_eq] at h
  exact ⟨h.1, h.2.2⟩

theorem Environment.faultless_intact {environment : Environment} {intact : Bool}
    (h : (intact && environment.faultless) = true) : intact = true :=
  (Bool.and_eq_true _ _ ▸ h).1

namespace Invariant

variable {queue : TaskQueue} {rules : Rules} {mark : Bytes → RetryMetadata → Prop} {system : System}
  {held : Holdings}

/-- The new batch of a partition is rejected if it is in an internal one, and the old ones stay so. -/
theorem rejected_grow (h : Invariant rules mark system held) {topic : Bytes} {id : Nat} {batch : RecordBatch}
    (hnew : isInternalTopic topic = true → Rejected mark held topic id batch) {other : Bytes} {i : Nat}
    {found : RecordBatch} (hinternal : isInternalTopic other = true)
    (hmem : found ∈ held.set topic id (held topic id ++ [batch]) other i) :
    Rejected mark (held.set topic id (held topic id ++ [batch])) other i found := by
  have hextends := Holdings.Extends.set held topic id [batch]
  by_cases hplace : other = topic ∧ i = id
  · obtain ⟨rfl, rfl⟩ := hplace
    rw [Holdings.set_self] at hmem
    rcases List.mem_append.mp hmem with hmem | hmem
    · exact (h.rejected hinternal hmem).extend hextends
    · rw [List.mem_singleton.mp hmem]
      exact (hnew hinternal).extend hextends
  · rw [Holdings.set_of_ne _ _ hplace] at hmem
    exact (h.rejected hinternal hmem).extend hextends

/-! ### Produce -/

/-- What an acknowledged Produce has done: its records are one batch of an ordinary partition. -/
structure Produced (held : Holdings) (request : ProduceRequest) (response : ProduceResponse) : Prop where
  ordinary : isInternalTopic request.topic = false
  partition_nonneg : 0 ≤ response.partitionId
  batch : ∃ batch ∈ held request.topic response.partitionId.toNat, batch.baseOffset = response.baseOffset ∧
    batch.records = request.records.map fun record => (toStorageRecord record).sealed

theorem Produced.extend {request : ProduceRequest} {response : ProduceResponse} (h : Produced held request response)
    {later : Holdings} (hlater : held.Extends later) : Produced later request response := by
  obtain ⟨batch, hmem, hbatch⟩ := h.batch
  exact { h with batch := ⟨batch, (hlater _ _).mem hmem, hbatch⟩ }

/-- **Produce** appends one batch to an ordinary partition, or nothing. -/
theorem handleProduce (h : Invariant rules mark system held) (environment : Environment) (request : ProduceRequest) :
    ∃ later, held.Extends later ∧ Invariant rules mark
        ⟨(system.broker.handleProduce environment request).2, system.intact && environment.faultless⟩ later ∧
      ∀ response, (system.broker.handleProduce environment request).1 = .ok response →
        Produced later request response := by
  have hunchanged : ∀ (later : BrokerService), later.options = system.broker.options →
      later.topics.options = system.broker.topics.options →
      (∀ topic, later.topics.count? topic = system.broker.topics.count? topic) → later.retries = system.broker.retries →
      later.topics.Holds ((system.intact && environment.faultless) = true) held → ∀ reply,
      ∃ grown, held.Extends grown ∧ Invariant rules mark ⟨later, system.intact && environment.faultless⟩ grown ∧
        ∀ response, (Except.error reply : Reply ProduceResponse) = .ok response → Produced grown request response := by
    intro later hoptions hstorage hcount hretries hholds reply
    exact ⟨held, .refl held, h.step hoptions hstorage hcount hholds h.rejected (hretries.symm ▸ h.scheduled),
      fun _ hok => nomatch hok⟩
  have hholds := h.holds.mono (@Environment.faultless_intact environment system.intact)
  unfold BrokerService.handleProduce
  by_cases hinternal : isInternalTopic request.topic = true
  · rw [if_pos hinternal]
    exact hunchanged system.broker rfl rfl (fun _ => rfl) rfl hholds _
  rw [if_neg hinternal]
  split
  · exact hunchanged system.broker rfl rfl (fun _ => rfl) rfl hholds _
  rename_i first rest hrecords
  have hsame := @TopicManager.selectPartition_same system.broker.topics request.topic request.partitionId first.key
  split
  · rename_i status topics hselect
    rw [hselect] at hsame
    exact hunchanged { system.broker with topics := topics } rfl hsame.options hsame.count? rfl (hholds.same hsame) _
  rename_i selected store topics hselect
  rw [hselect] at hsame
  obtain ⟨hselected, hstore⟩ := TopicManager.selectPartition_ok (by rw [hselect])
  rw [← hsame.store?] at hstore
  have hcount : ∀ grown, (topics.setStore request.topic selected.toNat grown).options =
      system.broker.topics.options ∧ ∀ topic, (topics.setStore request.topic selected.toNat grown).count? topic =
        system.broker.topics.count? topic :=
    fun grown => ⟨TopicManager.options_setStore.trans hsame.options,
      fun topic => TopicManager.count?_setStore.trans (hsame.count? topic)⟩
  have happend := (h.holds.same hsame).append hstore (request.records.map toStorageRecord) environment.append
  split
  · rename_i status grown heq
    rw [heq] at happend
    rcases happend with ⟨_, -, hgrown⟩ | ⟨_, _, hok, -⟩
    · exact hunchanged { system.broker with topics := topics.setStore request.topic selected.toNat grown } rfl
        (hcount grown).1 (hcount grown).2 rfl (hgrown.mono Environment.faultless_append) _
    · cases hok
  · rename_i result grown heq
    rw [heq] at happend
    rcases happend with ⟨_, herror, -⟩ | ⟨_, batch, hok, hbase, hbatch, hgrown⟩
    · cases herror
    · have hordinary := Bool.eq_false_of_not_eq_true hinternal
      cases hok
      refine ⟨_, Holdings.Extends.set held request.topic selected.toNat [batch], h.step rfl ?_ ?_ ?_ ?_ ?_, ?_⟩
      · exact flushAppended_options.trans (hcount grown).1
      · exact fun topic => (flushAppended_count topic).trans ((hcount grown).2 topic)
      · exact flushAppended_holds (hgrown.mono Environment.faultless_append) _ _
      · exact fun hinternal hmem => h.rejected_grow (fun habsurd => by rw [hordinary] at habsurd; cases habsurd)
          hinternal hmem
      · refine h.scheduled.congr fun topic id hretry => Holdings.set_of_ne _ _ ?_
        rintro ⟨rfl, -⟩
        rw [(isInternalTopic_eq_false.mp hordinary).1] at hretry
        cases hretry
      · intro response hresponse
        obtain ⟨_, -, hresponse⟩ := Result.bind_eq_ok.mp hresponse
        cases Result.pure_eq_ok.mp hresponse
        obtain ⟨-, hnext, -, hrecords⟩ := makeRecordBatch_eq_ok hbatch
        refine ⟨hordinary, hselected, batch, ?_, hnext.trans hbase.symm, ?_⟩
        · rw [Holdings.set_self]
          exact List.mem_append_right _ (List.mem_singleton_self _)
        · rw [hrecords, List.map_map]
          rfl

/-! ### Nack -/

/-- What is stored at the offset of a read. -/
theorem storedAt_read (h : Invariant rules mark system held) {topic : Bytes} {id : Nat} {store : Store}
    (hstore : system.broker.topics.store? topic id = some store) {offset : Int} {maxBytes : Nat} {batch : RecordBatch}
    (hread : store.read offset maxBytes = .ok batch) :
    batch ∈ held topic id ∧ batch.baseOffset ≤ offset ∧ batch.batchBytes ≤ maxBytes ∧
      storedAt (held topic id) offset = batch.records[(offset - batch.baseOffset).toNat]? := by
  obtain ⟨hmem, hle, hlt, hsize⟩ := (h.holds.carries hstore).read_sound hread
  exact ⟨hmem, hle, hsize, (h.chain hstore).storedAt_batch hmem hle hlt⟩

/-- The source of a Nack: the record a client produced, and where it is stored. -/
structure NackSource (mark : Bytes → RetryMetadata → Prop) (held : Holdings) (request : NackRequest)
    (record : ProtocolRecord) (source : RetryMetadata) : Prop where
  partition_nonneg : 0 ≤ request.partitionId
  ordinary : isInternalTopic source.originalTopic = false
  partition_eq : source.originalPartition = request.partitionId
  offset_typed : IsInt64 source.originalOffset
  origin : ∃ origin, storedAt (held source.originalTopic request.partitionId.toNat) source.originalOffset = some origin ∧
    origin.content = (record.timestamp, record.key, record.value)
  marked : source.retryCount = 0 ∨ mark (retryTopicPrefix ++ source.originalTopic) source
  stored : ∃ stored, storedAt (held request.topic request.partitionId.toNat) request.offset = some stored ∧
    (isRetryTopic request.topic = true ∧ request.topic = retryTopicPrefix ++ source.originalTopic ∧
        Envelope mark held request.topic request.partitionId.toNat stored record source ∨
      isRetryTopic request.topic = false ∧ record = toProtocolRecord stored ∧
        source = ⟨0, 0, request.topic, request.reason, request.partitionId, request.offset⟩)

theorem nackSource_spec (h : Invariant rules mark system held) {request : NackRequest} {stored : Record}
    {record : ProtocolRecord} {source : RetryMetadata} (hstored : system.broker.nackStored request = .ok stored)
    (hsource : BrokerService.nackSource request stored = .ok (record, source)) :
    NackSource mark held request record source := by
  obtain ⟨hdlq, hoffset, hpartition, -, store, batch, hstore, hread, hindex⟩ := nackStored_ok hstored
  obtain ⟨hmem, -, -, hat⟩ := h.storedAt_read hstore hread
  rw [hindex] at hat
  rcases nackSource_ok hsource with ⟨hretry, hdecode, hmetadata, htopic, hsame⟩ | ⟨hretry, rfl, rfl⟩
  · have hinternal : isInternalTopic request.topic = true := by rw [isInternalTopic, hretry, Bool.true_or]
    obtain ⟨found, decoded, retry, hrecords, henvelope⟩ := h.rejected hinternal hmem
    have hfound : found = stored := by
      rw [hrecords] at hindex
      exact (List.mem_singleton.mp (List.mem_of_getElem? hindex)).symm
    subst hfound
    cases henvelope.decode.symm.trans hdecode
    cases henvelope.envelope.retry_eq.symm.trans hmetadata
    have hname : originalName request.topic = source.originalTopic := by rw [htopic, originalName_retry]
    have horigin := henvelope.origin
    rw [hname] at horigin
    exact {
      partition_nonneg := hpartition
      ordinary := henvelope.envelope.ordinary
      partition_eq := hsame.symm
      offset_typed := henvelope.typed.2
      origin := horigin
      marked := Or.inr (htopic ▸ henvelope.marked)
      stored := ⟨found, hat, Or.inl ⟨hretry, htopic, henvelope⟩⟩ }
  · have hnext := (h.holds.carries hstore).next_le
    have hbound := ((h.chain hstore).storedAt_bounds hat).2
    exact {
      partition_nonneg := hpartition
      ordinary := isInternalTopic_eq_false.mpr ⟨hretry, hdlq⟩
      partition_eq := rfl
      offset_typed := by
        unfold maxOffset at hnext
        show IsInt64 request.offset
        unfold IsInt64
        omega
      origin := ⟨stored, hat, rfl⟩
      marked := Or.inl rfl
      stored := ⟨stored, hat, Or.inr ⟨hretry, rfl, rfl⟩⟩ }

/-- A Nack keeps the original location. -/
theorem nackMetadata_origin {options : RetryOptions} {now : UInt64} {reason : Bytes} {source retry : RetryMetadata}
    {deadLetter : Bool} (h : nackMetadata options now reason source = (retry, deadLetter)) :
    retry.retryCount = source.retryCount + 1 ∧ retry.originalTopic = source.originalTopic ∧
      retry.originalPartition = source.originalPartition ∧ retry.originalOffset = source.originalOffset ∧
      deadLetter = decide (retry.retryCount > options.maxRetries) ∧ (deadLetter = true → retry.nextVisibleTime = 0) := by
  unfold nackMetadata at h
  cases h
  refine ⟨rfl, rfl, rfl, rfl, rfl, fun hdead => ?_⟩
  dsimp only at hdead ⊢
  rw [if_pos hdead]

theorem isDlqTopic_destinationOf (retry : RetryMetadata) (deadLetter : Bool) :
    isDlqTopic (destinationOf retry deadLetter) = deadLetter ∧
      isRetryTopic (destinationOf retry deadLetter) = !deadLetter ∧
      originalName (destinationOf retry deadLetter) = retry.originalTopic := by
  unfold destinationOf
  cases deadLetter with
  | false =>
      rw [if_neg Bool.false_ne_true]
      exact ⟨isDlqTopic_of_retry (isRetryTopic_append _), isRetryTopic_append _, originalName_retry _⟩
  | true =>
      rw [if_pos rfl]
      exact ⟨isDlqTopic_append _, isRetryTopic_of_dlq (isDlqTopic_append _), originalName_dlq _⟩

/-- **What a Nack is about to append**: the envelope of the record at its source. -/
theorem nackRecord_envelope (h : Invariant rules mark system held) (hmarks : rules.Marks mark)
    {environment : Environment} (hallowed : rules.environment environment) {request : NackRequest}
    (htyped : (RequestBody.nack request).Typed) {encoded : Record} {retry : RetryMetadata} {deadLetter : Bool}
    {partitionCount : UInt32}
    (hrecord : system.broker.nackRecord environment request = .ok (encoded, retry, deadLetter, partitionCount)) :
    ∃ record source count, NackSource mark held request record source ∧
      nackMetadata system.broker.options.retry environment.now request.reason source = (retry, deadLetter) ∧
      Envelope mark held (destinationOf retry deadLetter) request.partitionId.toNat encoded
        { record with retry := some retry } retry ∧
      system.broker.topics.count? retry.originalTopic = some count ∧ partitionCount.toNat = count := by
  obtain ⟨stored, record, source, count, hstored, hsource, hmetadata, hencode, hcount, rfl⟩ := nackRecord_ok hrecord
  have hspec := h.nackSource_spec hstored hsource
  obtain ⟨-, htopic, hpartition, horiginal, -, hdead⟩ := nackMetadata_origin hmetadata
  obtain ⟨hdlq, -, hname⟩ := isDlqTopic_destinationOf retry deadLetter
  obtain ⟨found, henvelope⟩ := encodeRetryRecord_ok hencode
  cases henvelope.retry_eq
  refine ⟨record, source, count, hspec, hmetadata, ?_, hcount,
    TopicManager.toNat_ofNat_count (h.holds.topic hcount).2.2⟩
  exact {
    envelope := henvelope
    typed := by
      unfold RetryMetadata.Typed
      rw [hpartition, hspec.partition_eq, horiginal]
      exact ⟨htyped.1, hspec.offset_typed⟩
    topic_eq := hname.symm
    partition_eq := by
      rw [hpartition, hspec.partition_eq]
      exact (Int.toNat_of_nonneg hspec.partition_nonneg).symm
    origin := by
      rw [hname, htopic, horiginal]
      exact hspec.origin
    dead := fun h => hdead (hdlq ▸ h)
    marked := hmarks h.options h.accepted hallowed hspec.marked hmetadata }

/-- A new batch continues the chain. -/
theorem grown_chain {batches : List RecordBatch} {next : Int} (h : Chain 0 batches next) (hmax : next ≤ maxOffset)
    {records : List Record} {batch : RecordBatch} (hbatch : makeRecordBatch next records = .ok batch) :
    Chain 0 (batches ++ [batch]) (next + records.length) := by
  obtain ⟨hvalid, hbase, hcount, -⟩ := makeRecordBatch_eq_ok hbatch
  have hgrown := h.concat (hvalid hmax) hbase
  rwa [RecordBatch.endOffset, hbase, hcount] at hgrown

/-- What a successful Nack has done. -/
structure NackDone (mark : Bytes → RetryMetadata → Prop) (held later : Holdings) (options : RetryOptions) (now : UInt64)
    (request : NackRequest) (response : NackResponse) (record : ProtocolRecord) (source : RetryMetadata)
    (stored : Record) : Prop where
  nacked : NackSource mark held request record source
  metadata : nackMetadata options now request.reason source = (response.retry, response.deadLetter)
  topic_eq : response.topic = destinationOf response.retry response.deadLetter
  partition_eq : response.partitionId = request.partitionId
  stored_at : storedAt (later response.topic request.partitionId.toNat) response.offset = some stored
  envelope : Envelope mark later response.topic request.partitionId.toNat stored
    { record with retry := some response.retry } response.retry

/-- The batch that a Nack appends. -/
theorem nacked_batch {topic : Bytes} {id : Nat} {next : Int} {encoded : Record} {record : ProtocolRecord}
    {retry : RetryMetadata} {batch : RecordBatch} (hchain : Chain 0 (held topic id) next) (hmax : next ≤ maxOffset)
    (henvelope : Envelope mark held topic id encoded record retry) (hbatch : makeRecordBatch next [encoded] = .ok batch) :
    ∃ stored, batch.records = [stored] ∧ Envelope mark held topic id stored record retry ∧
      storedAt (held topic id ++ [batch]) next = some stored ∧
      DueAt (held topic id ++ [batch]) next retry.nextVisibleTime := by
  obtain ⟨hvalid, hbase, hcount, hrecords⟩ := makeRecordBatch_eq_ok hbatch
  have hsealed : Envelope mark held topic id encoded.sealed record retry :=
    { henvelope with envelope := henvelope.envelope.of_content (Record.content_sealed encoded) }
  have hgrown := grown_chain hchain hmax hbatch
  have hstored : storedAt (held topic id ++ [batch]) next = some encoded.sealed := by
    rw [hgrown.storedAt_batch (List.mem_append_right _ (List.mem_singleton_self _)) hbase.le, hbase, Int.sub_self,
      hrecords]
    · rfl
    · rw [RecordBatch.endOffset, hbase, hcount]
      exact Int.lt_succ next
  exact ⟨encoded.sealed, hrecords, hsealed, hstored, encoded.sealed, record, retry, hstored, hsealed.decode,
    henvelope.envelope.retry_eq, rfl⟩

/-- **Nack** appends the envelope of its record to the internal partition and schedules it, or changes nothing
of what is held. -/
theorem handleNack (h : Invariant rules mark system held) (hmarks : rules.Marks mark) {environment : Environment}
    (hallowed : rules.environment environment) {request : NackRequest} (htyped : (RequestBody.nack request).Typed) :
    ∃ later, held.Extends later ∧ Invariant rules mark
        ⟨(system.broker.handleNack queue environment request).2, system.intact && environment.faultless⟩ later ∧
      ∀ response, (system.broker.handleNack queue environment request).1 = .ok response →
        ∃ record source stored, NackDone mark held later system.broker.options.retry environment.now request response
          record source stored := by
  unfold BrokerService.handleNack
  cases hrecord : system.broker.nackRecord environment request with
  | error reply =>
      exact ⟨held, .refl held, h.keep Environment.faultless_intact rfl rfl rfl, fun _ hok => nomatch hok⟩
  | ok prepared =>
      obtain ⟨encoded, retry, deadLetter, partitionCount⟩ := prepared
      obtain ⟨record, source, count, hsource, hmetadata, henvelope, hcount, hnumber⟩ :=
        h.nackRecord_envelope hmarks hallowed htyped hrecord
      obtain ⟨hdlq, hretry, hname⟩ := isDlqTopic_destinationOf retry deadLetter
      dsimp only
      generalize hdestination : destinationOf retry deadLetter = destination at *
      have hcreated := @createTopic rules mark system held h destination partitionCount environment.create
        (fun _ => by rw [hname, hcount, hnumber])
      cases hcreate : system.broker.topics.createTopic destination partitionCount environment.create with
      | mk result topics =>
          rw [hcreate] at hcreated
          have hintact : Invariant rules mark
              ⟨{ system.broker with topics := topics }, system.intact && environment.faultless⟩ held :=
            hcreated.keep Environment.faultless_intact rfl rfl rfl
          cases result with
          | error status => exact ⟨held, .refl held, hintact, fun _ hok => nomatch hok⟩
          | ok _ =>
              dsimp only
              cases hpartition : topics.getPartition destination request.partitionId with
              | error status => exact ⟨held, .refl held, hintact, fun _ hok => nomatch hok⟩
              | ok target =>
                  obtain ⟨hnonneg, hstore⟩ := TopicManager.getPartition_ok.mp hpartition
                  have happend := hcreated.holds.append hstore [encoded] environment.append
                  have hcarries := hcreated.holds.carries hstore
                  dsimp only
                  cases happended : target.append [encoded] environment.append with
                  | mk result grown =>
                      rw [happended] at happend
                      cases result with
                      | error status =>
                          rcases happend with ⟨_, -, hholds⟩ | ⟨_, _, hok, -⟩
                          · refine ⟨held, .refl held, ?_, fun _ hok => nomatch hok⟩
                            exact hintact.step rfl TopicManager.options_setStore (fun _ => TopicManager.count?_setStore)
                              (hholds.mono Environment.faultless_append) h.rejected h.scheduled
                          · cases hok
                      | ok appended =>
                          rcases happend with ⟨_, herror, -⟩ | ⟨_, batch, hok, hbase, hbatch, hholds⟩
                          · cases herror
                          cases hok
                          obtain ⟨stored, hrecords, hstoredEnvelope, hstoredAt, hdue⟩ :=
                            nacked_batch hcarries.chain hcarries.next_le henvelope hbatch
                          have hextends := Holdings.Extends.set held destination request.partitionId.toNat [batch]
                          refine ⟨_, hextends, ?_, ?_⟩
                          · refine hintact.step rfl ?_ ?_ ?_ ?_ ?_
                            · exact flushAppended_options.trans TopicManager.options_setStore
                            · exact fun topic => (flushAppended_count topic).trans TopicManager.count?_setStore
                            · exact flushAppended_holds (hholds.mono Environment.faultless_append) _ _
                            · exact fun hinternal hmem => h.rejected_grow
                                (fun _ => ⟨stored, _, retry, hrecords, hstoredEnvelope⟩) hinternal hmem
                            · have hwoken := h.scheduled.foldl_makeDueVisible queue environment.wakes
                              cases deadLetter with
                              | true =>
                                  refine hwoken.congr fun topic id htopic => Holdings.set_of_ne _ _ ?_
                                  rintro ⟨rfl, -⟩
                                  rw [hretry] at htopic
                                  cases htopic
                              | false =>
                                  dsimp only
                                  rw [if_neg Bool.false_ne_true, hbase]
                                  exact hwoken.schedule queue environment.scheduleNow hretry hnonneg hcarries.chain
                                    (grown_chain hcarries.chain hcarries.next_le hbatch) hdue
                          · intro response hresponse
                            obtain ⟨_, -, hresponse⟩ := Result.bind_eq_ok.mp hresponse
                            cases hresponse
                            refine ⟨record, source, stored, hsource, hmetadata, hdestination.symm, rfl, ?_, ?_⟩
                            · rw [Holdings.set_self, hbase]
                              exact hstoredAt
                            · exact hstoredEnvelope.extend hextends

/-! ### Any request -/

/-- **Every request** keeps the invariant, and what is held only grows. -/
theorem handle (h : Invariant rules mark system held) (hmarks : rules.Marks mark) {environment : Environment}
    (hallowed : rules.environment environment) {envelope : RequestEnvelope} (htyped : envelope.body.Typed) :
    ∃ later, held.Extends later ∧ Invariant rules mark
      ⟨(system.broker.handle queue environment envelope).2, system.intact && environment.faultless⟩ later := by
  have hkeep : ∀ {later : BrokerService}, later.options = system.broker.options → later.topics = system.broker.topics →
      later.retries = system.broker.retries →
      ∃ grown, held.Extends grown ∧ Invariant rules mark ⟨later, system.intact && environment.faultless⟩ grown :=
    fun hoptions htopics hretries =>
      ⟨held, .refl held, h.keep Environment.faultless_intact hoptions htopics hretries⟩
  refine @handle_cases queue environment system.broker (fun broker => ∃ later, held.Extends later ∧
    Invariant rules mark ⟨broker, system.intact && environment.faultless⟩ later) envelope ?_ ?_ ?_ ?_ ?_
  · exact fun groups => hkeep rfl rfl rfl
  · intro request hbody
    rw [hbody] at htyped
    obtain ⟨later, hextends, hinvariant, -⟩ := @handleNack queue _ _ _ _ h hmarks _ hallowed _ htyped
    exact ⟨later, hextends, hinvariant⟩
  · intro request
    obtain ⟨later, hextends, hinvariant, -⟩ := h.handleProduce environment request
    exact ⟨later, hextends, hinvariant⟩
  · intro request
    unfold BrokerService.handleCreateTopic
    split_ifs with hinternal
    · exact hkeep rfl rfl rfl
    · refine ⟨held, .refl held, ?_⟩
      have hcreated := @createTopic rules mark system held h request.topic request.partitionCount environment.create
        (fun habsurd => absurd habsurd hinternal)
      exact hcreated.keep Environment.faultless_intact rfl rfl rfl
  · intro request
    unfold BrokerService.handleCommitOffset
    split
    · exact hkeep rfl rfl rfl
    · exact hkeep rfl rfl rfl

end Invariant

end LogMq
