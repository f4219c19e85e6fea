import LogMq.BrokerRestart

/-! Retries over whole runs of a broker: what the metadata of rejected records say, when they are visible, and
that a restart builds the same schedule. -/

namespace LogMq

/-! ### What is stored -/

/-- A read returns the record at this offset of the partition. -/
def TopicManager.Stores (manager : TopicManager) (topic : Bytes) (id : Nat) (offset : Int) (record : Record) : Prop :=
  ∃ store maxBytes batch, manager.store? topic id = some store ∧ store.read offset maxBytes = .ok batch ∧
    batch.records[(offset - batch.baseOffset).toNat]? = some record

theorem TopicManager.Holds.stores {manager : TopicManager} {intact : Prop} {held : Holdings}
    (h : manager.Holds intact held) {topic : Bytes} {id : Nat} {offset : Int} {record : Record} :
    manager.Stores topic id offset record ↔ storedAt (held topic id) offset = some record := by
  constructor
  · rintro ⟨store, maxBytes, batch, hstore, hread, hrecord⟩
    have hcarries := h.carries hstore
    obtain ⟨hmem, hle, hlt, -⟩ := hcarries.read_sound hread
    rw [hcarries.chain.storedAt_batch hmem hle hlt]
    exact hrecord
  · intro hstored
    cases hstore : manager.store? topic id with
    | none =>
        rw [h.outside hstore, storedAt, contents, List.flatMap_nil, List.getElem?_nil, ite_self] at hstored
        cases hstored
    | some store =>
        have hcarries := h.carries hstore
        obtain ⟨hzero, hnext⟩ := hcarries.chain.storedAt_bounds hstored
        obtain ⟨before, batch, after, hsplit, hle, hlt⟩ := hcarries.chain.exists_batch hzero hnext
        have hmem : batch ∈ held topic id := hsplit ▸ List.mem_append_right _ List.mem_cons_self
        refine ⟨store, batch.batchBytes + manager.options.indexIntervalBytes, batch, hstore, ?_, ?_⟩
        · exact hcarries.read_complete hmem hle hlt (Nat.le_add_right _ _) (Nat.le_add_left _ _)
        · rw [← hcarries.chain.storedAt_batch hmem hle hlt]
          exact hstored

/-- Where a rejected record was first stored. -/
def RetryMetadata.location (retry : RetryMetadata) : Bytes × Int × Int :=
  (retry.originalTopic, retry.originalPartition, retry.originalOffset)

/-- A stored record decodes to a record with metadata that name a topic, this partition, and an offset of it,
and what is stored there is the record. -/
structure TopicManager.Rejects (manager : TopicManager) (topic : Bytes) (id : Nat) (stored : Record)
    (retry : RetryMetadata) : Prop where
  topic_eq : retry.originalTopic = topic
  partition_eq : retry.originalPartition = id
  decoded : ∃ record source, decodeRetryRecord stored = .ok record ∧ record.retry = some retry ∧
    manager.Stores topic id retry.originalOffset source ∧ source.timestamp = record.timestamp ∧
    source.key = record.key ∧ source.value = record.value

section Rejects

variable {rules : Rules} {mark : Bytes → RetryMetadata → Prop} {system : System} {held : Holdings}

/-- The records of internal topics. -/
theorem Invariant.rejects (h : Invariant rules mark system held) {topic : Bytes} {id : Nat} {offset : Int}
    {stored : Record} (hinternal : isInternalTopic topic = true)
    (hstored : system.broker.topics.Stores topic id offset stored) :
    ∃ retry, system.broker.topics.Rejects (originalName topic) id stored retry ∧ mark topic retry ∧
      (isDlqTopic topic = true → retry.nextVisibleTime = 0) := by
  obtain ⟨store, maxBytes, batch, hstore, hread, hrecord⟩ := hstored
  obtain ⟨hmem, -⟩ := (h.holds.carries hstore).read_sound hread
  obtain ⟨found, record, retry, hrecords, henvelope⟩ := h.rejected hinternal hmem
  have hfound : stored = found := by
    rw [hrecords] at hrecord
    exact List.mem_singleton.mp (List.mem_of_getElem? hrecord)
  subst hfound
  obtain ⟨source, hsource, hcontent⟩ := henvelope.origin
  simp only [Record.content, Prod.mk.injEq] at hcontent
  exact ⟨retry, ⟨henvelope.topic_eq, henvelope.partition_eq, record, source, henvelope.decode,
    henvelope.envelope.retry_eq, h.holds.stores.mpr hsource, hcontent⟩, henvelope.marked, henvelope.dead⟩

theorem Invariant.stored (h : Invariant rules mark system held) {topic : Bytes} {id : Nat} {store : Store}
    (hstore : system.broker.topics.store? topic id = some store) {offset : Int} (hzero : 0 ≤ offset)
    (hnext : offset < store.log.nextOffset) : ∃ stored, system.broker.topics.Stores topic id offset stored := by
  obtain ⟨stored, hstored⟩ := (h.chain hstore).exists_storedAt hzero hnext
  exact ⟨stored, h.holds.stores.mpr hstored⟩

end Rejects

/-! ### Retry counts -/

/-- Runs under fixed retry options. -/
def retryRules (options : RetryOptions) : Rules where
  options := fun service => service.retry = options

/-- How often a record of an internal topic has been rejected. -/
def Counted (options : RetryOptions) (topic : Bytes) (retry : RetryMetadata) : Prop :=
  (isRetryTopic topic = true → 1 ≤ retry.retryCount.toNat ∧ retry.retryCount ≤ options.maxRetries) ∧
    (isDlqTopic topic = true → retry.retryCount.toNat = options.maxRetries.toNat + 1)

theorem Counted.le {options : RetryOptions} {source : RetryMetadata}
    (h : source.retryCount = 0 ∨ Counted options (retryTopicPrefix ++ source.originalTopic) source) :
    source.retryCount.toNat ≤ options.maxRetries.toNat := by
  rcases h with hzero | hcounted
  · rw [hzero]
    exact Nat.zero_le _
  · exact UInt32.le_iff_toNat_le.mp (hcounted.1 (isRetryTopic_append _)).2

/-- A Nack counts one up. -/
theorem toNat_retryCount {options : RetryOptions} (haccepted : options.Accepted) {source retry : RetryMetadata}
    (hle : source.retryCount.toNat ≤ options.maxRetries.toNat) (hcount : retry.retryCount = source.retryCount + 1) :
    retry.retryCount.toNat = source.retryCount.toNat + 1 := by
  have hmax := haccepted.2.2
  have hlt := options.maxRetries.toNat_lt
  unfold maxUInt32 at hmax
  rw [hcount, UInt32.toNat_add, UInt32.toNat_one]
  omega

theorem retryRules_marks (options : RetryOptions) : (retryRules options).Marks (Counted options) := by
  intro service environment reason source retry deadLetter hoptions haccepted _ hsource hmetadata
  cases hoptions
  obtain ⟨hcount, -, -, -, hdead, -⟩ := Invariant.nackMetadata_origin hmetadata
  obtain ⟨hdlq, hretry, -⟩ := Invariant.isDlqTopic_destinationOf retry deadLetter
  have hle := Counted.le hsource
  have hnext := toNat_retryCount haccepted hle hcount
  unfold Counted
  rw [hretry, hdlq, hdead, Bool.not_eq_true', decide_eq_false_iff_not, decide_eq_true_eq, gt_iff_lt, UInt32.not_lt,
    UInt32.le_iff_toNat_le, UInt32.lt_iff_toNat_lt]
  omega

/-- **Metadata.** Every record of a retry topic has been rejected once up to `max_retries` times, every dead
letter once more, and both lead back to the record a client produced. A Nack counts one up and keeps the place. -/
theorem retry_metadata {queue : TaskQueue} {options : RetryOptions} {system : System}
    (h : BrokerReaches queue (retryRules options) system) :
    (∀ topic id store offset, system.broker.topics.store? topic id = some store → 0 ≤ offset →
        offset < store.log.nextOffset → ∃ stored, system.broker.topics.Stores topic id offset stored) ∧
      (∀ topic id offset stored, system.broker.topics.Stores (retryTopicPrefix ++ topic) id offset stored →
        ∃ retry, system.broker.topics.Rejects topic id stored retry ∧ 1 ≤ retry.retryCount.toNat ∧
          retry.retryCount ≤ options.maxRetries) ∧
      (∀ topic id offset stored, system.broker.topics.Stores (dlqTopicPrefix ++ topic) id offset stored →
        ∃ retry, system.broker.topics.Rejects topic id stored retry ∧
          retry.retryCount.toNat = options.maxRetries.toNat + 1 ∧ retry.nextVisibleTime = 0) ∧
      ∀ environment request response, (RequestBody.nack request).Typed →
        (system.broker.handleNack queue environment request).1 = .ok response →
        ∃ stored placed source, system.broker.topics.Stores request.topic request.partitionId.toNat request.offset stored ∧
          (isRetryTopic request.topic = true ∧
              system.broker.topics.Rejects source.originalTopic request.partitionId.toNat stored source ∨
            isRetryTopic request.topic = false ∧ source.retryCount = 0 ∧
              source.location = (request.topic, request.partitionId, request.offset)) ∧
          response.retry.retryCount.toNat = source.retryCount.toNat + 1 ∧ response.retry.location = source.location ∧
          (system.broker.handleNack queue environment request).2.topics.Stores response.topic
            request.partitionId.toNat response.offset placed ∧
          (system.broker.handleNack queue environment request).2.topics.Rejects source.originalTopic
            request.partitionId.toNat placed response.retry := by
  have hmarks := retryRules_marks options
  obtain ⟨held, hinvariant⟩ := h.invariant hmarks
  refine ⟨?_, ?_, ?_, ?_⟩
  · intro topic id store offset hstore hzero hnext
    exact hinvariant.stored hstore hzero hnext
  · intro topic id offset stored hstored
    have hinternal : isInternalTopic (retryTopicPrefix ++ topic) = true := by
      rw [isInternalTopic, isRetryTopic_append, Bool.true_or]
    obtain ⟨retry, hrejects, hcounted, -⟩ := hinvariant.rejects hinternal hstored
    rw [originalName_retry] at hrejects
    exact ⟨retry, hrejects, hcounted.1 (isRetryTopic_append topic)⟩
  · intro topic id offset stored hstored
    have hinternal : isInternalTopic (dlqTopicPrefix ++ topic) = true := by
      rw [isInternalTopic, isDlqTopic_append, Bool.or_true]
    obtain ⟨retry, hrejects, hcounted, hdead⟩ := hinvariant.rejects hinternal hstored
    rw [originalName_dlq] at hrejects
    exact ⟨retry, hrejects, hcounted.2 (isDlqTopic_append topic), hdead (isDlqTopic_append topic)⟩
  · intro environment request response htyped hresponse
    obtain ⟨later, -, hlater, hdone⟩ := @Invariant.handleNack queue _ _ _ _ hinvariant hmarks environment trivial
      request htyped
    obtain ⟨record, source, placed, hdone⟩ := hdone response hresponse
    obtain ⟨hcount, htopic, hpartition, hoffset, -⟩ := Invariant.nackMetadata_origin hdone.metadata
    obtain ⟨stored, hstored, hsource⟩ := hdone.nacked.stored
    have hplaced : (system.broker.handleNack queue environment request).2.topics.Stores response.topic
        request.partitionId.toNat response.offset placed := hlater.holds.stores.mpr hdone.stored_at
    refine ⟨stored, placed, source, hinvariant.holds.stores.mpr hstored, ?_, ?_, ?_, hplaced, ?_⟩
    · rcases hsource with ⟨hretry, hname, henvelope⟩ | ⟨hretry, -, rfl⟩
      · obtain ⟨found, hfound, hcontent⟩ := henvelope.origin
        rw [hname, originalName_retry] at hfound
        simp only [Record.content, Prod.mk.injEq] at hcontent
        exact Or.inl ⟨hretry, rfl, henvelope.partition_eq, record, found, henvelope.decode,
          henvelope.envelope.retry_eq, hinvariant.holds.stores.mpr hfound, hcontent⟩
      · exact Or.inr ⟨hretry, rfl, rfl⟩
    · exact toNat_retryCount hinvariant.accepted (hinvariant.options ▸ Counted.le hdone.nacked.marked) hcount
    · rw [RetryMetadata.location, htopic, hpartition, hoffset]
      rfl
    · obtain ⟨found, hfound, hcontent⟩ := hdone.envelope.origin
      rw [← hdone.envelope.topic_eq, htopic] at hfound
      simp only [Record.content, Prod.mk.injEq] at hcontent
      exact ⟨htopic, hdone.envelope.partition_eq, _, found, hdone.envelope.decode, rfl,
        hlater.holds.stores.mpr hfound, hcontent⟩

/-- A record is produced and rejected once. -/
def rejectOnce : List (Environment × RequestEnvelope) :=
  [({}, ⟨.createTopic, 1, 0, .createTopic ⟨text "a", 1⟩⟩),
    ({}, ⟨.produce, 1, 1, .produce ⟨text "a", 0, [{ value := text "v" }]⟩⟩),
    ({}, ⟨.nack, 2, 2, .nack ⟨text "a", 0, 0, text "busy"⟩⟩)]

/-- The system that served these requests. -/
def rejectedOnce : System := System.serve .inOrder ⟨.fresh {} 1, true⟩ rejectOnce

theorem retry_metadata_rejectedOnce :
    BrokerReaches .inOrder (retryRules {}) rejectedOnce ∧ ∃ stored retry,
      rejectedOnce.broker.topics.Stores (retryTopicPrefix ++ text "a") 0 0 stored ∧
      rejectedOnce.broker.topics.Rejects (text "a") 0 stored retry ∧ 1 ≤ retry.retryCount.toNat ∧
      retry.retryCount ≤ 3 := by
  have hreaches : BrokerReaches .inOrder (retryRules {}) rejectedOnce :=
    .serve rfl (by decide) (fun _ _ => trivial) (by decide)
  obtain ⟨hstored, hretry, -⟩ := retry_metadata hreaches
  have hnext : (rejectedOnce.broker.topics.store? (retryTopicPrefix ++ text "a") 0).map (·.log.nextOffset) = some 1 := by
    decide +kernel
  obtain ⟨store, hstore, hone⟩ := Option.map_eq_some_iff.mp hnext
  obtain ⟨stored, hplaced⟩ := hstored _ _ _ 0 hstore (le_refl 0) (hone ▸ zero_lt_one)
  obtain ⟨retry, hrejects⟩ := hretry _ _ _ _ hplaced
  exact ⟨hreaches, stored, retry, hplaced, hrejects⟩

/-! ### Visibility -/

/-- The `next_visible_time` stored at an offset. -/
def TopicManager.Deadline (manager : TopicManager) (topic : Bytes) (id : Nat) (offset : Int) (time : UInt64) : Prop :=
  ∃ stored record retry, manager.Stores topic id offset stored ∧ decodeRetryRecord stored = .ok record ∧
    record.retry = some retry ∧ retry.nextVisibleTime = time

theorem TopicManager.Holds.deadline {manager : TopicManager} {intact : Prop} {held : Holdings}
    (h : manager.Holds intact held) {topic : Bytes} {id : Nat} {offset : Int} {time : UInt64} :
    manager.Deadline topic id offset time ↔ DueAt (held topic id) offset time := by
  unfold Deadline DueAt
  simp only [h.stores]

section Visibility

variable {rules : Rules} {mark : Bytes → RetryMetadata → Prop} {system : System} {held : Holdings}

/-- A Fetch of a retry topic returns the record at its offset, which is visible, or nothing. -/
theorem Invariant.fetch_visible (h : Invariant rules mark system held) {version : UInt16} {request : FetchRequest}
    {response : FetchResponse} (hretry : isRetryTopic request.topic = true)
    (hfetch : system.broker.handleFetch version request = .ok response) {index : Nat}
    (hindex : index < response.records.length) :
    response.baseOffset + index < system.broker.retries.visibleEnd request.topic request.partitionId := by
  have hinternal : isInternalTopic request.topic = true := by rw [isInternalTopic, hretry, Bool.true_or]
  obtain ⟨-, -, store, -, hstore, -, houtcome⟩ := BrokerService.handleFetch_ok.mp hfetch
  rcases houtcome with ⟨-, rfl⟩ | ⟨hvisible, batch, records, hread, hrecords, rfl⟩
  · exact absurd hindex (Nat.not_lt_zero _)
  · obtain ⟨hmem, hle, hlt, -⟩ := (h.holds.carries hstore).read_sound hread
    obtain ⟨stored, record, retry, hsingle, -⟩ := h.rejected hinternal hmem
    have hbase := (h.chain hstore).single hmem hsingle hle hlt
    have hlength := (BrokerService.fetchRecords_ok.mp hrecords).length_eq
    rw [BrokerService.highWatermark, if_pos hretry] at hvisible
    rw [hsingle, List.length_singleton] at hlength
    dsimp only at hindex ⊢
    rw [hbase]
    omega

end Visibility

/-- **Visibility.** In every state the visible part of a retry partition ends within its log; behind it every
offset is a task with the stored deadline or ready, and not both; below it every deadline has passed at some
clock reading; and a Fetch returns nothing from behind it. -/
theorem retry_visibility {queue : TaskQueue} {system : System} (h : BrokerReaches queue {} system) {topic : Bytes}
    {id : Nat} {store : Store} (hretry : isRetryTopic topic = true)
    (hstore : system.broker.topics.store? topic id = some store) :
    system.broker.retries.visibleEnd topic id ≤ store.log.nextOffset ∧
      (∀ offset, system.broker.retries.visibleEnd topic id ≤ offset → offset < store.log.nextOffset →
        ∃ time, system.broker.topics.Deadline topic id offset time ∧
          Xor (⟨topic, id, offset, time⟩ ∈ system.broker.retries.tasks)
            (offset ∈ (system.broker.retries.visibility topic id).ready) ∧
          ∀ task ∈ system.broker.retries.tasks, task.place = (topic, (id : Int), offset) → task.time = time) ∧
      (∀ offset, 0 ≤ offset → offset < system.broker.retries.visibleEnd topic id →
        ∃ time reading, system.broker.topics.Deadline topic id offset time ∧
          reading ∈ system.broker.retries.readings ∧ time ≤ reading) ∧
      ∀ version (request : FetchRequest) response, request.topic = topic → request.partitionId = id →
        system.broker.handleFetch version request = .ok response → ∀ index < response.records.length,
          response.baseOffset + index < system.broker.retries.visibleEnd topic id := by
  obtain ⟨held, hinvariant⟩ := h.invariant (Rules.marks_true _)
  have hscheduled := hinvariant.scheduled
  have hchain := hinvariant.chain hstore
  have hid : ((id : Int)).toNat = id := Int.toNat_natCast id
  have hpartition : (0 : Int) ≤ id := Int.natCast_nonneg id
  refine ⟨?_, ?_, ?_, ?_⟩
  · exact hscheduled.visibleEnd_le (hid.symm ▸ hchain)
  · intro offset hvisible hnext
    obtain ⟨time, hdue⟩ := hinvariant.scannable.exists_dueAt hretry hstore (hscheduled.visibleEnd_nonneg.trans hvisible) hnext
    exact ⟨time, hinvariant.holds.deadline.mpr hdue,
      hscheduled.waits hretry hpartition (hid.symm ▸ hdue) hvisible⟩
  · intro offset hzero hvisible
    obtain ⟨-, -, time, hdue, reading, hreading, hle⟩ := hscheduled.released topic id offset hzero (Or.inl hvisible)
    exact ⟨time, reading, hinvariant.holds.deadline.mpr (hid ▸ hdue), hreading, hle⟩
  · rintro version request response rfl hrequest hfetch index hindex
    rw [← hrequest]
    exact hinvariant.fetch_visible hretry hfetch hindex

/-- The rejected record waits for its time. -/
theorem retry_visibility_rejectedOnce :
    ∃ store, rejectedOnce.broker.topics.store? (retryTopicPrefix ++ text "a") 0 = some store ∧
      rejectedOnce.broker.retries.visibleEnd (retryTopicPrefix ++ text "a") 0 ≤ store.log.nextOffset := by
  have hsome : (rejectedOnce.broker.topics.store? (retryTopicPrefix ++ text "a") 0).isSome = true := by decide +kernel
  obtain ⟨store, hstore⟩ := Option.isSome_iff_exists.mp hsome
  have hreaches : BrokerReaches .inOrder {} rejectedOnce :=
    .serve trivial (by decide) (fun _ _ => trivial) (by decide)
  exact ⟨store, hstore, (retry_visibility hreaches (isRetryTopic_append _) hstore).1⟩

/-! ### Recovery -/

/-- Runs with a clock after the epoch and a delay that is a number of milliseconds. -/
def clockRules : Rules where
  options := fun service => IsInt64 service.retry.delay
  environment := fun environment => 0 < environment.now ∧ environment.now.toNat < 2 ^ 63

/-- The deadlines of retries. -/
def Timed (topic : Bytes) (retry : RetryMetadata) : Prop := isRetryTopic topic = true → retry.nextVisibleTime ≠ 0

/-- The sum of a clock reading and a delay does not wrap around. -/
theorem clockRules_marks : clockRules.Marks Timed := by
  intro service environment reason source retry deadLetter hoptions haccepted hclock _ hmetadata htopic hzero
  rw [(Invariant.isDlqTopic_destinationOf retry deadLetter).2.1, Bool.not_eq_true'] at htopic
  subst htopic
  unfold BrokerService.nackMetadata at hmetadata
  obtain ⟨rfl, hdead⟩ := Prod.mk.inj hmetadata
  rw [hdead, if_neg Bool.false_ne_true] at hzero
  have hnow : environment.now.toNat ≠ 0 := fun h0 => by
    have hpos := UInt64.lt_iff_toNat_lt.mp hclock.1
    rw [h0] at hpos
    exact absurd hpos (Nat.not_lt_zero _)
  have hlt := hclock.2
  have hdelay : offsetToUInt64 service.retry.delay < 2 ^ 63 := by
    obtain ⟨-, hmax⟩ := hoptions
    have hnonneg := haccepted.1
    unfold offsetToUInt64
    omega
  have hsum := congrArg UInt64.toNat hzero
  rw [UInt64.toNat_add, UInt64.toNat_ofNat', UInt64.toNat_zero] at hsum
  omega

section Recovery

variable {queue : TaskQueue} {held : Holdings} {tasks : List RetryTask} {topic : Bytes} {partition : Int} {now : UInt64}

/-- What a new scheduler has released: what has a task that is due. -/
theorem RetryScheduler.recovered_released {offset : Int} (hzero : 0 ≤ offset) :
    (RetryScheduler.makeDueVisible queue now { tasks := tasks.foldl queue.push [] }).Released topic partition offset ↔
      ∃ task ∈ tasks, task.time ≤ now ∧ task.place = (topic, partition, offset) := by
  have hperm := foldl_push_perm queue tasks []
  rw [List.nil_append] at hperm
  rw [RetryScheduler.makeDueVisible_released]
  constructor
  · rintro ((hlt | hready) | ⟨task, htask, hdue⟩)
    · exact absurd hlt (not_lt.mpr hzero)
    · exact absurd hready (Finset.notMem_empty _)
    · exact ⟨task, hperm.mem_iff.mp htask, hdue⟩
  · rintro ⟨task, htask, hdue⟩
    exact Or.inr ⟨task, hperm.mem_iff.mpr htask, hdue⟩

/-- The offsets that a new scheduler has released, by what is stored. -/
theorem Lists.released (h : Lists held (fun _ => True) tasks) {offset : Int} (hretry : isRetryTopic topic = true)
    (hpartition : 0 ≤ partition) (hzero : 0 ≤ offset) :
    (RetryScheduler.makeDueVisible queue now { tasks := tasks.foldl queue.push [] }).Released topic partition offset ↔
      ∃ time, DueAt (held topic partition.toNat) offset time ∧ time ≤ now := by
  rw [RetryScheduler.recovered_released hzero]
  constructor
  · rintro ⟨task, htask, htime, hplace⟩
    obtain ⟨-, -, -, hdue⟩ := (h.mem_iff task).mp htask
    obtain ⟨rfl, rfl, rfl⟩ := RetryTask.place_eq.mp hplace
    exact ⟨task.time, hdue, htime⟩
  · rintro ⟨time, hdue, htime⟩
    exact ⟨⟨topic, partition, offset, time⟩, (h.mem_iff _).mpr ⟨trivial, hretry, hpartition, hdue⟩, htime, rfl⟩

end Recovery

/-- What a broker can be started with where another one has been: valid retry options, and segments with room
for a batch or as large as they were. -/
def BrokerServiceOptions.Succeeds (options earlier : BrokerServiceOptions) : Prop :=
  options.retry.Accepted ∧ (recordBatchHeaderBytes ≤ options.storage.segmentBytes ∨
    options.storage.segmentBytes = earlier.storage.segmentBytes)

/-- **Recovery.** A broker started on the directory of a closed one finds exactly one task for each stored offset
of each retry partition, with the stored deadline. Its schedule is these tasks: the ones that are not due are
queued, each once, and the offsets of the others are released. It shows the longest prefix of each partition whose
deadlines have passed. If the clock has not gone back, that is at least what the closed broker showed. -/
theorem retry_recovery {queue : TaskQueue} {system : System} (h : BrokerReaches queue clockRules system)
    (hintact : system.intact = true) {options : BrokerServiceOptions}
    (hoptions : options.Succeeds system.broker.options) {now : UInt64} :
    ∃ broker tasks, BrokerService.start queue options system.broker.close now = .ok broker ∧
      RetryScheduler.recoverTasks broker.topics = .ok tasks ∧
      (∀ topic id offset time, broker.topics.Deadline topic id offset time ↔
        system.broker.topics.Deadline topic id offset time) ∧
      (tasks.map RetryTask.place).Nodup ∧
      (∀ task, task ∈ tasks ↔ isRetryTopic task.topic = true ∧ 0 ≤ task.partition ∧
        broker.topics.Deadline task.topic task.partition.toNat task.offset task.time) ∧
      broker.retries.tasks.Perm (tasks.filter fun task => now < task.time) ∧
      (∀ topic partition offset, 0 ≤ offset → (broker.retries.Released topic partition offset ↔
        ∃ task ∈ tasks, task.time ≤ now ∧ task.place = (topic, partition, offset))) ∧
      broker.retries.Settled ∧
      ∀ topic id store, isRetryTopic topic = true → broker.topics.store? topic id = some store →
        0 ≤ broker.retries.visibleEnd topic id ∧ broker.retries.visibleEnd topic id ≤ store.log.nextOffset ∧
        (∀ offset, 0 ≤ offset → offset < broker.retries.visibleEnd topic id →
          ∃ time, broker.topics.Deadline topic id offset time ∧ time ≤ now) ∧
        (broker.retries.visibleEnd topic id < store.log.nextOffset →
          ∃ time, broker.topics.Deadline topic id (broker.retries.visibleEnd topic id) time ∧ now < time) ∧
        ((∀ reading ∈ system.broker.retries.readings, reading ≤ now) →
          system.broker.retries.visibleEnd topic id ≤ broker.retries.visibleEnd topic id) := by
  obtain ⟨held, hinvariant⟩ := h.invariant clockRules_marks
  have hopens := @TopicManager.Holds.opens_close _ _ _ options.storage.topicManager hinvariant.holds hintact rfl
  obtain ⟨topics, hload⟩ := hopens.exists_load hinvariant.holds rfl (by rw [hinvariant.storage]; exact hoptions.2)
  obtain ⟨hholds, -, -, hcount⟩ := hopens.reload hinvariant.holds rfl hload
  have hscannable : Scannable topics Timed held := by
    refine ⟨⟨True, hholds⟩, ?_, hinvariant.rejected⟩
    intro topic count hinternal hfound
    rw [hcount] at hfound ⊢
    exact hinvariant.original hinternal hfound
  obtain ⟨tasks, htasks⟩ := hscannable.exists_recoverTasks fun topic retry hretry hmark => hmark hretry
  have hlists := hscannable.recoverTasks_lists htasks
  have hscheduled := (hlists.scheduled queue).makeDueVisible queue now
  refine ⟨_, tasks, BrokerService.start_ok.mpr ⟨hoptions.1, topics, tasks, hload, htasks, rfl⟩, htasks, ?_,
    hlists.nodup, ?_, ?_, ?_, hscheduled.settled, ?_⟩
  · intro topic id offset time
    rw [hholds.deadline, hinvariant.holds.deadline]
  · intro task
    rw [hlists.mem_iff, hholds.deadline]
    simp only [true_and]
  · have hqueued := foldl_push_perm queue tasks []
    rw [List.nil_append] at hqueued
    exact RetryScheduler.makeDueVisible_perm.trans (hqueued.filter _)
  · intro topic partition offset hzero
    exact RetryScheduler.recovered_released hzero
  · intro topic id store hretry hstore
    dsimp only at hstore ⊢
    have hid : ((id : Int)).toNat = id := Int.toNat_natCast id
    have hchain := (hholds.carries hstore).chain
    have hnonneg : ∀ {offset : Int}, 0 ≤ offset → _ := fun hzero =>
      @Lists.released queue held tasks topic id now hlists _ hretry (Int.natCast_nonneg id) hzero
    have hend := @Scheduled.visibleEnd_nonneg _ _ topic id hscheduled
    have hfirst := (hscheduled.settled topic id).not_released_end
    rw [hid] at hnonneg
    refine ⟨hend, hscheduled.visibleEnd_le (hid.symm ▸ hchain), ?_, ?_, ?_⟩
    · intro offset hzero hvisible
      obtain ⟨time, hdue, htime⟩ := (hnonneg hzero).mp (Or.inl hvisible)
      exact ⟨time, hholds.deadline.mpr hdue, htime⟩
    · intro hnext
      obtain ⟨time, hdue⟩ := hscannable.exists_dueAt hretry hstore hend hnext
      refine ⟨time, hholds.deadline.mpr hdue, UInt64.not_le.mp fun hle => ?_⟩
      exact hfirst ((hnonneg hend).mpr ⟨time, hdue, hle⟩)
    · intro hclock
      by_contra hlt
      obtain ⟨-, -, time, hdue, reading, hreading, hle⟩ :=
        hinvariant.scheduled.released topic id _ hend (Or.inl (not_le.mp hlt))
      rw [hid] at hdue
      exact hfirst ((hnonneg hend).mpr ⟨time, hdue, UInt64.le_trans hle (hclock reading hreading)⟩)

/-- The rejected record is found again, and waits on in a broker that is started before its time. -/
theorem retry_recovery_rejectedOnce :
    ∃ broker tasks, BrokerService.start .inOrder {} rejectedOnce.broker.close 3000 = .ok broker ∧
      RetryScheduler.recoverTasks broker.topics = .ok tasks ∧ (tasks.map RetryTask.place).Nodup ∧
      broker.retries.tasks.Perm (tasks.filter fun task => 3000 < task.time) ∧
      broker.retries.tasks.map RetryTask.time = [5001] := by
  have hreaches : BrokerReaches .inOrder clockRules rejectedOnce :=
    .serve (show IsInt64 5000 by decide) (by decide)
      (show ∀ call ∈ rejectOnce, 0 < call.1.now ∧ call.1.now.toNat < 2 ^ 63 by decide) (by decide)
  obtain ⟨broker, tasks, hstart, htasks, -, hnodup, -, hqueued, -⟩ :=
    @retry_recovery .inOrder rejectedOnce hreaches rfl {} ⟨by decide, Or.inl (by decide)⟩ 3000
  have htimes : (BrokerService.start .inOrder {} rejectedOnce.broker.close 3000).map
      (fun broker => broker.retries.tasks.map RetryTask.time) = .ok [5001] := by decide +kernel
  rw [hstart] at htimes
  exact ⟨broker, tasks, hstart, htasks, hnodup, hqueued, Except.ok.inj htimes⟩

end LogMq
