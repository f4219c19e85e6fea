import LogMq.BrokerRetryRuns

/-! What a Fetch can deliver. The frame of a Fetch response has another overhead than the frame its records were
produced in, and a whole batch is returned at once; a rejected record is fetched alone, under the budget its
payload was fetched with. -/

namespace LogMq

/-! ### Sizes -/

/-- The bytes that clients put into some records. -/
def payloadBytes (records : List ProtocolRecord) : Nat :=
  (records.map fun record => record.key.length + record.value.length).sum

theorem payloadOf_toStorageRecord (records : List ProtocolRecord) :
    (payloadOf (records.map toStorageRecord)).length =
      recordHeaderBytes * records.length + payloadBytes records := by
  induction records with
  | nil => rfl
  | cons record rest ih =>
      rw [List.map_cons, payloadOf_length_cons, ih, List.length_cons, payloadBytes, payloadBytes, List.map_cons,
        List.sum_cons, encodedRecordSize, Nat.mul_succ]
      change recordHeaderBytes + record.key.length + record.value.length + _ = _
      omega

/-- The bytes of a record of a Fetch response besides its key and its value. -/
def fetchRecordOverhead (version : UInt16) : Nat := if version = retryProtocolVersion then 17 else 16

theorem flatMap_fetchRecordBytes (version : UInt16) {records : List ProtocolRecord}
    (h : ∀ record ∈ records, record.retry = none) :
    (records.flatMap (fetchRecordBytes version)).length =
      fetchRecordOverhead version * records.length + payloadBytes records := by
  induction records with
  | nil => rfl
  | cons record rest ih =>
      have hlength : (fetchRecordBytes version record).length =
          fetchRecordOverhead version + (record.key.length + record.value.length) := by
        rw [fetchRecordBytes_length, h record List.mem_cons_self, Option.elim_none, fetchRecordOverhead]
        split_ifs <;> omega
      rw [List.flatMap_cons, List.length_append, hlength, ih fun other hother => h other (List.mem_cons_of_mem _ hother),
        List.length_cons, payloadBytes, payloadBytes, List.map_cons, List.sum_cons, Nat.mul_succ]
      omega

/-- The records of a frame are few enough to be counted. -/
theorem length_le_flatMap (version : UInt16) (records : List ProtocolRecord) :
    16 * records.length ≤ (records.flatMap (fetchRecordBytes version)).length := by
  induction records with
  | nil => exact le_refl 0
  | cons record rest ih =>
      have hlength := fetchRecordBytes_length version record
      rw [List.flatMap_cons, List.length_append, List.length_cons, Nat.mul_succ, hlength]
      omega

/-- A Fetch response can be encoded if its records can be, and fit into a frame. -/
theorem encodeFetch_ok {envelope : RequestEnvelope} {response : FetchResponse} (hkey : envelope.apiKey = .fetch)
    (hversion : SupportedVersion envelope.version) (hbase : 0 ≤ response.baseOffset)
    (hmark : 0 ≤ response.highWatermark) :
    (∃ frame, encodeResponse (makeSuccess envelope (.fetch response)) = .ok frame) ↔
      fetchFrameBytes + (response.records.flatMap (fetchRecordBytes envelope.version)).length ≤ maxFrameBytes ∧
        ∀ record ∈ response.records, record.FitsVersion envelope.version := by
  have hsuccess : makeSuccess envelope (.fetch response) =
      ⟨.fetch, envelope.version, envelope.requestId, ⟨.none, []⟩, .fetch response⟩ := by
    rw [makeSuccess, replyVersion, if_pos hversion, hkey]
  have hlength := length_le_flatMap envelope.version response.records
  rw [hsuccess]
  simp only [encodeResponse_ok]
  rw [exists_and_left, exists_and_left]
  unfold ResponseEnvelope.Framed ResponseEnvelope.Encodable
  rw [fetch_frame_length]
  constructor
  · rintro ⟨⟨-, -, hframe⟩, hbody, -⟩
    exact ⟨hframe, (hbody rfl).2.1.2⟩
  · rintro ⟨hframe, hfits⟩
    have hcount : response.records.length ≤ maxUInt32 := by
      unfold maxFrameBytes at hframe
      unfold maxUInt32
      omega
    exact ⟨⟨hversion, Nat.zero_le _, hframe⟩, fun _ => ⟨rfl, ⟨hcount, hfits⟩, hbase, hmark⟩, _, rfl⟩

/-! ### Fetches from ordinary topics -/

theorem BrokerService.fetchRecords_ordinary {topic : Bytes} {version : UInt16} {maxBytes : UInt32}
    (h : isInternalTopic topic = false) (stored : List Record) :
    fetchRecords topic version maxBytes stored = .ok (stored.map toProtocolRecord) := by
  rw [fetchRecords_ok, List.forall₂_map_right_iff]
  refine List.forall₂_same.mpr fun record _ => ?_
  rw [fetchRecord, h, if_neg Bool.false_ne_true]

section Ordinary

variable {rules : Rules} {mark : Bytes → RetryMetadata → Prop} {system : System} {held : Holdings} {version : UInt16}
  {request : FetchRequest} {batch : RecordBatch}

/-- A Fetch from an ordinary topic returns the batch around its offset. -/
theorem Invariant.fetch_ordinary (h : Invariant rules mark system held) (hordinary : isInternalTopic request.topic = false)
    (hmem : batch ∈ held request.topic request.partitionId.toNat) (hle : batch.baseOffset ≤ request.offset)
    (hlt : request.offset < batch.endOffset) {response : FetchResponse}
    (hfetch : system.broker.handleFetch version request = .ok response) :
    response.baseOffset = batch.baseOffset ∧ 0 ≤ response.highWatermark ∧
      response.records = batch.records.map toProtocolRecord := by
  obtain ⟨-, -, store, -, hstore, -, houtcome⟩ := BrokerService.handleFetch_ok.mp hfetch
  have hchain := h.chain hstore
  have hend := (hchain.bounds hmem).2
  have hnext := hchain.le
  have hmark : system.broker.highWatermark request.topic request.partitionId store = store.log.nextOffset := by
    rw [BrokerService.highWatermark, (isInternalTopic_eq_false.mp hordinary).1, if_neg Bool.false_ne_true]
  rw [hmark] at houtcome
  rcases houtcome with ⟨hbehind, -⟩ | ⟨-, found, records, hread, hrecords, rfl⟩
  · omega
  · obtain ⟨hfound, hfoundLe, hfoundLt, -⟩ := (h.holds.carries hstore).read_sound hread
    have hsame := hchain.eq_of_contains hfound hmem ⟨hfoundLe, hfoundLt⟩ ⟨hle, hlt⟩
    subst hsame
    rw [BrokerService.fetchRecords_ordinary hordinary] at hrecords
    cases hrecords
    exact ⟨rfl, hnext, rfl⟩

/-- It succeeds if its budget covers the batch. -/
theorem Invariant.exists_fetch (h : Invariant rules mark system held) (hordinary : isInternalTopic request.topic = false)
    (hpartition : 0 ≤ request.partitionId) (hmem : batch ∈ held request.topic request.partitionId.toNat)
    (hle : batch.baseOffset ≤ request.offset) (hlt : request.offset < batch.endOffset)
    (hsize : batch.batchBytes ≤ request.maxBytes.toNat) (hinterval : 4 * 1024 ≤ request.maxBytes.toNat) :
    ∃ response, system.broker.handleFetch version request = .ok response := by
  cases hstore : system.broker.topics.store? request.topic request.partitionId.toNat with
  | none =>
      rw [h.holds.outside hstore] at hmem
      exact absurd hmem List.not_mem_nil
  | some store =>
      have hcarries := h.holds.carries hstore
      have hend := (hcarries.chain.bounds hmem).2
      have hbase := (hcarries.chain.bounds hmem).1
      have hmark : system.broker.highWatermark request.topic request.partitionId store = store.log.nextOffset := by
        rw [BrokerService.highWatermark, (isInternalTopic_eq_false.mp hordinary).1, if_neg Bool.false_ne_true]
      have hread : store.read request.offset (BrokerService.readBudget request) = .ok batch := by
        rw [BrokerService.readBudget, hordinary, if_neg Bool.false_ne_true]
        refine hcarries.read_complete hmem hle hlt hsize ?_
        rw [TopicManagerOptions.log, h.holds.interval]
        exact hinterval
      have hpositive : request.maxBytes ≠ 0 := by
        intro hzero
        rw [hzero] at hinterval
        exact absurd hinterval (by decide)
      refine ⟨_, BrokerService.handleFetch_ok.mpr ⟨hbase.trans hle, hpositive, store, hpartition, hstore, by omega,
        Or.inr ⟨by rw [hmark]; omega, batch, _, hread, BrokerService.fetchRecords_ordinary hordinary _, rfl⟩⟩⟩

end Ordinary

/-! ### Acknowledged records -/

/-- With any sufficiently large budget, a Fetch of the offset in either version returns the record, in a response
that can be encoded. -/
def BrokerService.Delivers (broker : BrokerService) (topic : Bytes) (partitionId offset : Int)
    (record : ProtocolRecord) : Prop :=
  ∃ bound : UInt32, ∀ maxBytes, bound ≤ maxBytes → ∀ version requestId, SupportedVersion version →
    ∃ response value frame, broker.handleFetch version ⟨topic, partitionId, offset, maxBytes⟩ = .ok response ∧
      response.records[(offset - response.baseOffset).toNat]? = some value ∧ value = record.dropRetry ∧
      encodeResponse (makeSuccess ⟨.fetch, version, requestId, .fetch ⟨topic, partitionId, offset, maxBytes⟩⟩
        (.fetch response)) = .ok frame

/-- The records of a request, all in one response of version 2. -/
def ProduceRequest.fetchBytes (request : ProduceRequest) : Nat :=
  fetchFrameBytes + fetchRecordOverhead retryProtocolVersion * request.records.length + payloadBytes request.records

section Delivers

variable {rules : Rules} {mark : Bytes → RetryMetadata → Prop} {system : System} {held : Holdings}
  {request : ProduceRequest} {acknowledged : ProduceResponse}

theorem payloadBytes_dropRetry (records : List ProtocolRecord) :
    payloadBytes (records.map ProtocolRecord.dropRetry) = payloadBytes records := by
  rw [payloadBytes, List.map_map]
  rfl

theorem fetchRecordOverhead_le (version : UInt16) :
    fetchRecordOverhead version ≤ fetchRecordOverhead retryProtocolVersion := by
  change (if version = retryProtocolVersion then 17 else 16) ≤ 17
  split_ifs <;> omega

/-- An acknowledged record is delivered exactly if the whole batch fits into a response of version 2. -/
theorem Invariant.delivers_iff (h : Invariant rules mark system held)
    (hproduced : Invariant.Produced held request acknowledged) (hfits : ∀ record ∈ request.records, record.Fits)
    {index : Nat} {record : ProtocolRecord} (hrecord : request.records[index]? = some record) :
    system.broker.Delivers request.topic acknowledged.partitionId (acknowledged.baseOffset + index) record ↔
      request.fetchBytes ≤ maxFrameBytes := by
  obtain ⟨hordinary, hpartition, batch, hmem, hbase, hrecords⟩ := hproduced
  obtain ⟨hindex, -⟩ := List.getElem?_eq_some_iff.mp hrecord
  have hvalues : batch.records.map toProtocolRecord = request.records.map ProtocolRecord.dropRetry := by
    rw [hrecords, List.map_map]
    rfl
  obtain ⟨store, hstore⟩ : ∃ store, system.broker.topics.store? request.topic acknowledged.partitionId.toNat =
      some store := by
    cases hstore : system.broker.topics.store? request.topic acknowledged.partitionId.toNat with
    | none =>
        rw [h.holds.outside hstore] at hmem
        exact absurd hmem List.not_mem_nil
    | some store => exact ⟨store, rfl⟩
  have hvalid := (h.chain hstore).valid batch hmem
  have hzero := hvalid.base_nonneg
  have hcount : batch.recordCount = request.records.length := by
    rw [hvalid.count_eq, hrecords, List.length_map]
  have hle : batch.baseOffset ≤ acknowledged.baseOffset + index := by omega
  have hlt : acknowledged.baseOffset + index < batch.endOffset := by
    rw [RecordBatch.endOffset, hcount]
    omega
  have hplain : ∀ value ∈ request.records.map ProtocolRecord.dropRetry, value.retry = none := by
    intro value hvalue
    obtain ⟨source, -, rfl⟩ := List.mem_map.mp hvalue
    rfl
  have hframe : ∀ version, ((request.records.map ProtocolRecord.dropRetry).flatMap (fetchRecordBytes version)).length =
      fetchRecordOverhead version * request.records.length + payloadBytes request.records := by
    intro version
    rw [flatMap_fetchRecordBytes version hplain, List.length_map, payloadBytes_dropRetry]
  constructor
  · rintro ⟨bound, hdelivers⟩
    obtain ⟨response, value, frame, hfetch, -, -, hencode⟩ := hdelivers (UInt32.ofNat maxUInt32)
      (UInt32.le_iff_toNat_le.mpr (Nat.le_of_lt_succ bound.toNat_lt)) retryProtocolVersion 0 (Or.inr rfl)
    obtain ⟨hresponse, hmark, hfetched⟩ := h.fetch_ordinary hordinary hmem hle hlt hfetch
    have hsupported : SupportedVersion retryProtocolVersion := Or.inr rfl
    have hbytes := ((encodeFetch_ok rfl hsupported (hresponse ▸ hzero) hmark).mp ⟨frame, hencode⟩).1
    rw [hfetched, hvalues, hframe] at hbytes
    rw [ProduceRequest.fetchBytes, Nat.add_assoc]
    exact hbytes
  · intro hfit
    have hbatch : batch.batchBytes =
        recordBatchHeaderBytes + (recordHeaderBytes * request.records.length + payloadBytes request.records) := by
      have hsealed : batch.records = (request.records.map toStorageRecord).map Record.sealed := by
        rw [hrecords, List.map_map]
        rfl
      rw [hvalid.size_eq, hsealed, payloadOf_sealed, payloadOf_toStorageRecord]
    have hbound : batch.batchBytes + 4 * 1024 ≤ maxUInt32 := by
      unfold ProduceRequest.fetchBytes fetchRecordOverhead at hfit
      rw [if_pos rfl] at hfit
      rw [hbatch]
      unfold recordBatchHeaderBytes recordHeaderBytes maxUInt32
      unfold maxFrameBytes at hfit
      omega
    refine ⟨UInt32.ofNat (batch.batchBytes + 4 * 1024), fun maxBytes hmax version requestId hversion => ?_⟩
    have hbudget : batch.batchBytes + 4 * 1024 ≤ maxBytes.toNat := by
      have hmax := UInt32.le_iff_toNat_le.mp hmax
      rwa [UInt32.toNat_ofNat', Nat.mod_eq_of_lt (by unfold maxUInt32 at hbound; omega)] at hmax
    obtain ⟨response, hfetch⟩ := @Invariant.exists_fetch rules mark system held version
      ⟨request.topic, acknowledged.partitionId, acknowledged.baseOffset + index, maxBytes⟩ batch h hordinary hpartition
      hmem hle hlt (by dsimp only; omega) (by dsimp only; omega)
    obtain ⟨hresponse, hmark, hfetched⟩ := h.fetch_ordinary hordinary hmem hle hlt hfetch
    obtain ⟨frame, hencode⟩ := (@encodeFetch_ok ⟨.fetch, version, requestId, .fetch ⟨request.topic,
      acknowledged.partitionId, acknowledged.baseOffset + index, maxBytes⟩⟩ response rfl hversion (hresponse ▸ hzero)
      hmark).mpr (by
        rw [hfetched, hvalues]
        refine ⟨?_, fun value hvalue => ?_⟩
        · have hoverhead := Nat.mul_le_mul_right request.records.length (fetchRecordOverhead_le version)
          rw [hframe]
          rw [ProduceRequest.fetchBytes] at hfit
          dsimp only
          omega
        · obtain ⟨source, hsource, rfl⟩ := List.mem_map.mp hvalue
          exact ⟨hfits source hsource, fun _ retry habsurd => by cases habsurd⟩)
    refine ⟨response, record.dropRetry, frame, hfetch, ?_, rfl, hencode⟩
    have hposition : (acknowledged.baseOffset + index - response.baseOffset).toNat = index := by omega
    rw [hfetched, hvalues, hposition, List.getElem?_map, hrecord]
    rfl

end Delivers

/-- **Delivery.** Every acknowledged record can be fetched, at any later time and in either version, exactly if the
records of its request fit into one Fetch response of version 2. -/
theorem produce_delivers {queue : TaskQueue} {system : System} (h : BrokerReaches queue {} system)
    {environment : Environment} {version : UInt16} {requestId : UInt64} {request : ProduceRequest} {frame : Bytes}
    (hencode : encodeRequest ⟨.produce, version, requestId, .produce request⟩ = .ok frame)
    {acknowledged : ProduceResponse}
    (hacknowledged : (system.broker.handleProduce environment request).1 = .ok acknowledged) {later : System}
    (hlater : BrokerFollows queue {}
      ⟨(system.broker.handleProduce environment request).2, system.intact && environment.faultless⟩ later)
    {index : Nat} {record : ProtocolRecord} (hrecord : request.records[index]? = some record) :
    later.broker.Delivers request.topic acknowledged.partitionId (acknowledged.baseOffset + index) record ↔
      request.fetchBytes ≤ maxFrameBytes := by
  obtain ⟨held, hinvariant⟩ := h.invariant (Rules.marks_true _)
  obtain ⟨grown, -, hgrown, hproduced⟩ := hinvariant.handleProduce environment request
  obtain ⟨last, hextends, hlast⟩ := hgrown.follows (Rules.marks_true _) hlater
  have hfits := (encodeRequest_ok.mp hencode).2.1.1.2.2.2
  exact hlast.delivers_iff ((hproduced acknowledged hacknowledged).extend hextends) hfits hrecord

/-- A broker with one topic. -/
def oneTopic : System :=
  System.serve .inOrder ⟨.fresh {} 1, true⟩ [({}, ⟨.createTopic, 1, 0, .createTopic ⟨text "a", 1⟩⟩)]

theorem reaches_oneTopic : BrokerReaches .inOrder {} oneTopic :=
  .serve trivial (by decide) (fun _ _ => trivial) (by decide)

/-- A small record is delivered. -/
theorem produce_delivers_small :
    (oneTopic.broker.handleProduce {} ⟨text "a", 0, [{ value := text "v" }]⟩).2.Delivers (text "a") 0 0
      { value := text "v" } := by
  obtain ⟨frame, hframe⟩ : ∃ frame,
      encodeRequest ⟨.produce, 1, 1, .produce ⟨text "a", 0, [{ value := text "v" }]⟩⟩ = .ok frame := ⟨_, rfl⟩
  have hacknowledged : (oneTopic.broker.handleProduce {} ⟨text "a", 0, [{ value := text "v" }]⟩).1 = .ok ⟨0, 0, 1⟩ := by
    decide +kernel
  have hiff := @produce_delivers _ _ reaches_oneTopic {} _ _ _ _ hframe _ hacknowledged _ .refl 0
    { value := text "v" } rfl
  exact hiff.mpr (by decide)

section Acknowledged

variable {rules : Rules} {mark : Bytes → RetryMetadata → Prop} {system : System} {held : Holdings}

/-- Produce to a given partition is acknowledged as long as no system call fails. -/
theorem Invariant.exists_acknowledged (h : Invariant rules mark system held)
    (hpolicy : system.broker.options.storage.flushPolicy = .async) {request : ProduceRequest}
    (hordinary : isInternalTopic request.topic = false) (hpartition : 0 ≤ request.partitionId) {store : Store}
    (hstore : system.broker.topics.store? request.topic request.partitionId.toNat = some store)
    (hempty : request.records ≠ []) (hfits : ∀ record ∈ request.records.map toStorageRecord, record.Fits)
    (hsize : (payloadOf (request.records.map toStorageRecord)).length ≤ vectorMaxBytes)
    (hmax : store.log.nextOffset + request.records.length ≤ maxOffset) :
    ∃ acknowledged, (system.broker.handleProduce {} request).1 = .ok acknowledged ∧
      acknowledged.partitionId = request.partitionId := by
  obtain ⟨first, rest, hrecords⟩ := List.exists_cons_of_ne_nil hempty
  obtain ⟨found, hfind, hlog, -⟩ := TopicManager.store?_eq_some.mp hstore
  have hcarries := h.holds.carries hstore
  obtain ⟨batch, hbatch⟩ := exists_makeRecordBatch hcarries.next_nonneg (fun hnil => hempty (List.map_eq_nil_iff.mp hnil))
    hfits hsize
  obtain ⟨result, hresult⟩ := hcarries.append_succeeds hbatch (by rw [List.length_map]; exact hmax)
  have hchosen : (TopicManager.choosePartition found request.partitionId first.key).1 = request.partitionId := by
    rw [TopicManager.choosePartition, if_pos]
    intro hinvalid
    rw [hinvalid] at hpartition
    exact absurd hpartition (by decide)
  have hselect : ∃ topics, system.broker.topics.selectPartition request.topic request.partitionId first.key =
      (.ok (request.partitionId, store), topics) := by
    rw [TopicManager.selectPartition, hfind]
    dsimp only
    rw [if_neg (fun hnil => by rw [hnil] at hlog; cases hlog)]
    rw [hchosen, TopicManager.getPartition_ok.mpr ⟨hpartition, hstore⟩]
    exact ⟨_, rfl⟩
  obtain ⟨topics, hselect⟩ := hselect
  cases happend : store.append (request.records.map toStorageRecord) {} with
  | mk outcome grown =>
      rw [happend] at hresult
      cases hresult
      rw [BrokerService.handleProduce, hordinary, if_neg Bool.false_ne_true]
      rw [hrecords] at happend ⊢
      dsimp only
      rw [hselect]
      dsimp only
      rw [happend]
      dsimp only
      rw [BrokerService.flushAppended, hpolicy, if_neg (by decide)]
      exact ⟨_, rfl, rfl⟩

end Acknowledged

/-- A request to produce one value. -/
def oneRecord (value : Bytes) : ProduceRequest := ⟨text "a", 0, [{ value := value }]⟩

section OneRecord

variable {value : Bytes}

theorem encode_oneRecord (h : value.length ≤ 2 ^ 24 - 45) :
    ∃ frame, encodeRequest ⟨.produce, 1, 1, .produce (oneRecord value)⟩ = .ok frame := by
  have hlayout : (RequestBody.produce (oneRecord value)).layout.length = 29 + value.length := by
    simp only [RequestBody.layout, oneRecord, List.flatMap_cons, List.flatMap_nil, wireRecordBytes, stringBytes,
      partitionBytes, List.length_append, BigEndian.beBytes_length, List.length_nil, List.append_nil]
    change 4 + 1 + _ = _
    omega
  have htopic : (text "a").length ≤ maxUInt32 := by decide
  have hcount : 1 ≤ maxUInt32 := by decide
  refine ⟨_, encodeRequest_ok.mpr ⟨⟨Or.inl rfl, rfl, ?_⟩, ⟨⟨htopic, List.cons_ne_nil _ _, hcount, ?_⟩, ?_⟩, rfl⟩⟩
  · dsimp only
    rw [hlayout]
    unfold frameHeaderBytes maxFrameBytes
    omega
  · intro record hrecord
    rw [List.mem_singleton.mp hrecord]
    refine ⟨Nat.zero_le _, ?_⟩
    unfold maxUInt32
    dsimp only
    omega
  · trivial

theorem exists_acknowledged_oneRecord (h : value.length ≤ 2 ^ 24 - 45) :
    ∃ acknowledged, (oneTopic.broker.handleProduce {} (oneRecord value)).1 = .ok acknowledged := by
  obtain ⟨held, hinvariant⟩ := reaches_oneTopic.invariant (Rules.marks_true _)
  have hstore : (oneTopic.broker.topics.store? (text "a") 0).map (·.log.nextOffset) = some 0 := by decide +kernel
  obtain ⟨store, hstore, hnext⟩ := Option.map_eq_some_iff.mp hstore
  have hordinary : isInternalTopic (text "a") = false := by decide
  have hpolicy : oneTopic.broker.options.storage.flushPolicy = .async := by decide +kernel
  obtain ⟨acknowledged, hacknowledged, -⟩ := @Invariant.exists_acknowledged _ _ oneTopic held hinvariant hpolicy
    (oneRecord value) hordinary (le_refl 0) store hstore (List.cons_ne_nil _ _) (by
      intro record hrecord
      rw [List.mem_singleton.mp hrecord]
      exact ⟨Nat.zero_le _, show value.length ≤ maxUInt32 by unfold maxUInt32; omega⟩) (by
      rw [payloadOf_toStorageRecord]
      change recordHeaderBytes * 1 + (0 + value.length + 0) ≤ vectorMaxBytes
      unfold recordHeaderBytes vectorMaxBytes
      omega) (by
      rw [hnext]
      change (0 : Int) + 1 ≤ maxOffset
      decide)
  exact ⟨acknowledged, hacknowledged⟩

/-- The frames of Produce leave more room for a value than those of Fetch. -/
theorem fetchBytes_oneRecord : (oneRecord value).fetchBytes = 59 + value.length := by
  change 42 + 17 * 1 + (0 + value.length + 0) = _
  omega

/-- A longer value is acknowledged and cannot be fetched. -/
theorem not_delivers_oneRecord (hlong : 2 ^ 24 - 59 < value.length) (h : value.length ≤ 2 ^ 24 - 45) :
    ∃ acknowledged, (oneTopic.broker.handleProduce {} (oneRecord value)).1 = .ok acknowledged ∧
      ¬ (oneTopic.broker.handleProduce {} (oneRecord value)).2.Delivers (text "a") acknowledged.partitionId
        acknowledged.baseOffset { value := value } := by
  obtain ⟨acknowledged, hacknowledged⟩ := exists_acknowledged_oneRecord h
  obtain ⟨held, hinvariant⟩ := reaches_oneTopic.invariant (Rules.marks_true _)
  obtain ⟨grown, -, hgrown, hproduced⟩ := hinvariant.handleProduce {} (oneRecord value)
  obtain ⟨frame, hframe⟩ := encode_oneRecord h
  have hfits := (encodeRequest_ok.mp hframe).2.1.1.2.2.2
  refine ⟨acknowledged, hacknowledged, fun hdelivers => ?_⟩
  have hiff := @Invariant.delivers_iff _ _ _ _ (oneRecord value) acknowledged hgrown (hproduced acknowledged hacknowledged)
    hfits 0 { value := value } rfl
  rw [Nat.cast_zero, add_zero] at hiff
  have hfit := hiff.mp hdelivers
  rw [fetchBytes_oneRecord] at hfit
  unfold maxFrameBytes at hfit
  omega

end OneRecord

/-- The longest value that a Produce request for this topic has room for. -/
def largestValue : Bytes := List.replicate (2 ^ 24 - 45) 0

theorem length_largestValue : largestValue.length = 2 ^ 24 - 45 := by
  rw [largestValue, List.length_replicate]

/-- **A record that cannot be fetched.** Its request fits into a frame and is acknowledged, but no Fetch can
deliver it. -/
theorem produce_delivers_largest :
    (∃ frame, encodeRequest ⟨.produce, 1, 1, .produce (oneRecord largestValue)⟩ = .ok frame) ∧
      BrokerReaches .inOrder {} oneTopic ∧ ∃ acknowledged,
        (oneTopic.broker.handleProduce {} (oneRecord largestValue)).1 = .ok acknowledged ∧
        ¬ (oneTopic.broker.handleProduce {} (oneRecord largestValue)).2.Delivers (text "a") acknowledged.partitionId
          acknowledged.baseOffset { value := largestValue } := by
  have hlength := length_largestValue
  exact ⟨encode_oneRecord hlength.le, reaches_oneTopic, not_delivers_oneRecord (by rw [hlength]; omega) hlength.le⟩

/-! ### Rejected records -/

section Rejected

variable {rules : Rules} {mark : Bytes → RetryMetadata → Prop} {system : System} {held : Holdings} {version : UInt16}
  {request : FetchRequest}

/-- A Fetch of a visible offset of an internal topic returns its record alone, if the budget covers what a client
has put into it. -/
theorem Invariant.fetch_internal (h : Invariant rules mark system held) (hinternal : isInternalTopic request.topic = true)
    (hpartition : 0 ≤ request.partitionId) {stored : Record} {record : ProtocolRecord} {retry : RetryMetadata}
    (hstored : storedAt (held request.topic request.partitionId.toNat) request.offset = some stored)
    (henvelope : Envelope mark held request.topic request.partitionId.toNat stored record retry)
    (hvisible : isRetryTopic request.topic = true →
      request.offset < system.broker.retries.visibleEnd request.topic request.partitionId)
    (hbudget : recordBatchHeaderBytes + encodedRecordSize (toStorageRecord record) ≤ request.maxBytes.toNat) :
    0 ≤ request.offset ∧ ∃ watermark, 0 ≤ watermark ∧ system.broker.handleFetch version request =
      .ok ⟨request.offset, watermark, [if version = protocolVersion then record.dropRetry else record]⟩ := by
  cases hstore : system.broker.topics.store? request.topic request.partitionId.toNat with
  | none =>
      rw [h.holds.outside hstore, storedAt, contents, List.flatMap_nil, List.getElem?_nil, ite_self] at hstored
      cases hstored
  | some store =>
      have hchain := h.chain hstore
      obtain ⟨hzero, hnext⟩ := hchain.storedAt_bounds hstored
      obtain ⟨batch, hmem, hbase, found, -, -, hrecords, hfound, -⟩ :=
        exists_rejected hchain (fun batch hbatch => h.rejected hinternal hbatch) hzero hnext
      cases hstored.symm.trans hfound
      have hvalid := hchain.valid batch hmem
      have hcount := hvalid.count_eq
      rw [hrecords, List.length_singleton] at hcount
      have hread : store.read request.offset (BrokerService.readBudget request) = .ok batch := by
        rw [BrokerService.readBudget, if_pos hinternal]
        refine (h.holds.carries hstore).read_complete hmem hbase.le ?_ ?_ ?_
        · rw [RecordBatch.endOffset, hcount, hbase]
          exact Int.lt_succ _
        · rw [hvalid.size_eq, hrecords, payloadOf_length_cons]
          exact henvelope.envelope.encodedRecordSize_le
        · rw [TopicManagerOptions.log, h.holds.interval]
          change 4 * 1024 ≤ maxRetryBatchBytes
          decide
      have hwatermark : request.offset < system.broker.highWatermark request.topic request.partitionId store := by
        rw [BrokerService.highWatermark]
        split_ifs with hretry
        · exact hvisible hretry
        · exact hnext
      have hvalue : BrokerService.fetchRecords request.topic version request.maxBytes batch.records =
          .ok [if version = protocolVersion then record.dropRetry else record] := by
        rw [BrokerService.fetchRecords_ok, hrecords, List.forall₂_cons]
        refine ⟨?_, .nil⟩
        rw [BrokerService.fetchRecord, if_pos hinternal, BrokerService.fetchInternal, henvelope.decode]
        exact if_neg (not_lt.mpr hbudget)
      have hpositive : request.maxBytes ≠ 0 := by
        intro hnone
        rw [hnone] at hbudget
        exact absurd hbudget (not_le.mpr (Nat.lt_of_lt_of_le (by decide) (Nat.le_add_right _ _)))
      refine ⟨hzero, _, hzero.trans hwatermark.le, BrokerService.handleFetch_ok.mpr ⟨hzero, hpositive, store, hpartition,
        hstore, hnext.le, Or.inr ⟨hwatermark, batch, _, hread, hvalue, ?_⟩⟩⟩
      rw [hbase]

/-- The metadata of a retry are not part of its payload. -/
theorem toStorageRecord_of_dropRetry {left right : ProtocolRecord} (h : left.dropRetry = right.dropRetry) :
    toStorageRecord left = toStorageRecord right := by
  have hstorage := congrArg toStorageRecord h
  exact hstorage

/-- What a Fetch has returned was stored, and its payload was within the budget. -/
theorem Invariant.fetched (h : Invariant rules mark system held) {fetched : FetchResponse}
    (hfetch : system.broker.handleFetch version request = .ok fetched) {index : Nat} {value : ProtocolRecord}
    (hvalue : fetched.records[index]? = some value) :
    recordBatchHeaderBytes + encodedRecordSize (toStorageRecord value) ≤ request.maxBytes.toNat ∧
      0 ≤ fetched.baseOffset + index ∧ fetched.baseOffset + index ≤ maxOffset ∧
      ∃ stored, storedAt (held request.topic request.partitionId.toNat) (fetched.baseOffset + index) = some stored ∧
        if isInternalTopic request.topic = true then
          ∃ record, decodeRetryRecord stored = .ok record ∧ record.dropRetry = value.dropRetry
        else value = toProtocolRecord stored := by
  obtain ⟨-, -, store, -, hstore, -, houtcome⟩ := BrokerService.handleFetch_ok.mp hfetch
  rcases houtcome with ⟨-, rfl⟩ | ⟨-, batch, records, hread, hrecords, rfl⟩
  · cases hvalue
  · have hcarries := h.holds.carries hstore
    obtain ⟨hmem, -, -, hsize⟩ := hcarries.read_sound hread
    have hvalid := hcarries.chain.valid batch hmem
    have hforall := BrokerService.fetchRecords_ok.mp hrecords
    obtain ⟨hindex, -⟩ := List.getElem?_eq_some_iff.mp hvalue
    have hbound : index < batch.records.length := hforall.length_eq ▸ hindex
    obtain ⟨stored, hstored⟩ : ∃ stored, batch.records[index]? = some stored := ⟨_, List.getElem?_eq_getElem hbound⟩
    have hturn : BrokerService.fetchRecord request.topic version request.maxBytes stored = .ok value := by
      have hget := hforall.get hbound hindex
      rw [List.get_eq_getElem, List.get_eq_getElem] at hget
      rw [(List.getElem?_eq_some_iff.mp hstored).2, (List.getElem?_eq_some_iff.mp hvalue).2] at hget
      exact hget
    have hzero := hvalid.base_nonneg
    have hcount := hvalid.count_eq
    have hle : batch.baseOffset ≤ batch.baseOffset + index := by omega
    have hlt : batch.baseOffset + index < batch.endOffset := by
      rw [RecordBatch.endOffset]
      omega
    have hend := (hcarries.chain.bounds hmem).2
    have hmax := hcarries.next_le
    have hplace : storedAt (held request.topic request.partitionId.toNat) (batch.baseOffset + index) = some stored := by
      rw [hcarries.chain.storedAt_batch hmem hle hlt, ← hstored]
      congr 1
      omega
    rw [BrokerService.readBudget] at hsize
    rw [BrokerService.fetchRecord] at hturn
    dsimp only
    split_ifs at hturn hsize ⊢
    · obtain ⟨record, hdecode, hbudget, hdrop⟩ := BrokerService.fetchInternal_ok hturn
      refine ⟨?_, by omega, by omega, stored, hplace, record, hdecode, hdrop.symm⟩
      rw [toStorageRecord_of_dropRetry hdrop]
      exact hbudget
    · cases hturn
      refine ⟨le_trans ?_ hsize, by omega, by omega, stored, hplace, rfl⟩
      rw [hvalid.size_eq]
      exact Nat.add_le_add_left (encodedRecordSize_le_payload (List.mem_of_getElem? hstored)) _

end Rejected

/-- The record of an envelope can be sent in either version. -/
theorem StoredRetry.exists_encodeFetch {record : ProtocolRecord} {retry : RetryMetadata} {stored : Record}
    (h : StoredRetry record retry stored) {envelope : RequestEnvelope} {offset watermark : Int}
    (hkey : envelope.apiKey = .fetch) (hversion : SupportedVersion envelope.version) (hoffset : 0 ≤ offset)
    (hwatermark : 0 ≤ watermark) :
    ∃ frame, encodeResponse (makeSuccess envelope (.fetch ⟨offset, watermark,
      [if envelope.version = protocolVersion then record.dropRetry else record]⟩)) = .ok frame := by
  obtain ⟨-, -, hframe⟩ := h.framed
  have hfits := (h.encodable rfl).2.1.2 record (List.mem_singleton_self _)
  have hlength := @fetch_frame_length ⟨0, 1, [record]⟩ retryProtocolVersion 0
  change frameHeaderBytes + (retryEnvelope record).payload.length = _ at hlength
  rw [hlength, List.flatMap_cons, List.flatMap_nil, List.append_nil, fetchRecordBytes_length, if_pos rfl] at hframe
  refine (encodeFetch_ok hkey hversion hoffset hwatermark).mpr ⟨?_, ?_⟩
  · rw [List.flatMap_cons, List.flatMap_nil, List.append_nil, fetchRecordBytes_length]
    rcases hversion with hone | htwo
    · rw [hone, if_pos rfl, if_neg (by decide)]
      change fetchFrameBytes + (16 + record.key.length + record.value.length + 0) ≤ maxFrameBytes
      omega
    · rw [htwo, if_neg (by decide), if_pos rfl]
      exact hframe
  · intro found hfound
    rw [List.mem_singleton.mp hfound]
    rcases hversion with hone | htwo
    · rw [hone, if_pos rfl]
      exact ⟨hfits.1, fun habsurd => absurd habsurd (by decide)⟩
    · rw [htwo, if_neg (by decide)]
      exact hfits

/-- The record that a Nack moves is the one that was fetched. -/
theorem Invariant.NackSource.content {mark : Bytes → RetryMetadata → Prop} {held : Holdings} {request : NackRequest}
    {record value : ProtocolRecord} {source : RetryMetadata} (h : Invariant.NackSource mark held request record source)
    {stored : Record} (hstored : storedAt (held request.topic request.partitionId.toNat) request.offset = some stored)
    (hvalue : if isInternalTopic request.topic = true then
        ∃ record, decodeRetryRecord stored = .ok record ∧ record.dropRetry = value.dropRetry
      else value = toProtocolRecord stored) : record.dropRetry = value.dropRetry := by
  obtain ⟨found, hfound, hsource⟩ := h.stored
  cases hstored.symm.trans hfound
  rcases hsource with ⟨hretry, -, henvelope⟩ | ⟨-, rfl, rfl⟩
  · rw [isInternalTopic, hretry, Bool.true_or, if_pos rfl] at hvalue
    obtain ⟨decoded, hdecode, hsame⟩ := hvalue
    cases henvelope.decode.symm.trans hdecode
    exact hsame
  · rw [if_neg (Bool.eq_false_iff.mp h.ordinary)] at hvalue
    rw [hvalue]

/-- **Rejected records are delivered.** A record that a Fetch has returned, and that a Nack has then moved, is
returned by a Fetch with the same budget as soon as it is visible, in either version and alone. -/
theorem nack_delivers {queue : TaskQueue} {system : System} (h : BrokerReaches queue {} system) {version : UInt16}
    {request : FetchRequest} (htyped : (RequestBody.fetch request).Typed) {fetched : FetchResponse}
    (hfetch : system.broker.handleFetch version request = .ok fetched) {index : Nat} {value : ProtocolRecord}
    (hvalue : fetched.records[index]? = some value) {nacked : System} (hnacked : BrokerFollows queue {} system nacked)
    {environment : Environment} {reason : Bytes} {response : NackResponse}
    (hnack : (nacked.broker.handleNack queue environment
      ⟨request.topic, request.partitionId, fetched.baseOffset + index, reason⟩).1 = .ok response)
    {later : System} (hlater : BrokerFollows queue {} ⟨(nacked.broker.handleNack queue environment
      ⟨request.topic, request.partitionId, fetched.baseOffset + index, reason⟩).2,
        nacked.intact && environment.faultless⟩ later)
    (hvisible : isRetryTopic response.topic = true →
      response.offset < later.broker.retries.visibleEnd response.topic request.partitionId)
    {other : UInt16} (hother : SupportedVersion other) :
    ∃ watermark delivered, later.broker.handleFetch other
        ⟨response.topic, request.partitionId, response.offset, request.maxBytes⟩ =
          .ok ⟨response.offset, watermark, [delivered]⟩ ∧
      delivered.dropRetry = value.dropRetry ∧
      (other = retryProtocolVersion → delivered.retry = some response.retry) ∧
      ∀ requestId, ∃ frame, encodeResponse (makeSuccess ⟨.fetch, other, requestId, .fetch
        ⟨response.topic, request.partitionId, response.offset, request.maxBytes⟩⟩
        (.fetch ⟨response.offset, watermark, [delivered]⟩)) = .ok frame := by
  have hmarks := Rules.marks_true {}
  obtain ⟨held, hinvariant⟩ := h.invariant hmarks
  obtain ⟨hbudget, hzero, hmax, stored, hstored, hcontent⟩ := hinvariant.fetched hfetch hvalue
  obtain ⟨grown, hgrows, hgrown⟩ := hinvariant.follows hmarks hnacked
  have hnackTyped : (RequestBody.nack ⟨request.topic, request.partitionId, fetched.baseOffset + index, reason⟩).Typed := by
    refine ⟨htyped.1, ?_⟩
    unfold maxOffset at hmax
    unfold IsInt64
    dsimp only
    omega
  obtain ⟨moved, hmoves, hmoved, hdone⟩ := @Invariant.handleNack queue _ _ _ _ hgrown hmarks environment trivial _
    hnackTyped
  obtain ⟨record, source, placed, hdone⟩ := hdone response hnack
  obtain ⟨last, hlasts, hlast⟩ := hmoved.follows hmarks hlater
  have hsame := hdone.nacked.content (hgrows.storedAt hstored) hcontent
  have hinternal : isInternalTopic response.topic = true := by
    obtain ⟨hdlq, hretry, -⟩ := Invariant.isDlqTopic_destinationOf response.retry response.deadLetter
    rw [hdone.topic_eq, isInternalTopic, hdlq, hretry, Bool.not_or_self]
  have hpayload : toStorageRecord { record with retry := some response.retry } = toStorageRecord value :=
    toStorageRecord_of_dropRetry hsame
  obtain ⟨hoffset, watermark, hwatermark, hdelivered⟩ := @Invariant.fetch_internal _ _ later last other
    ⟨response.topic, request.partitionId, response.offset, request.maxBytes⟩ hlast hinternal
    hdone.nacked.partition_nonneg placed _ response.retry (hlasts.storedAt hdone.stored_at)
    (hdone.envelope.extend hlasts) hvisible (by rw [hpayload]; exact hbudget)
  refine ⟨watermark, _, hdelivered, ?_, ?_, fun requestId => ?_⟩
  · rw [← hsame]
    split_ifs <;> rfl
  · intro hretry
    rw [hretry, if_neg (by decide)]
  · exact hdone.envelope.envelope.exists_encodeFetch rfl hother hoffset hwatermark

/-- A record has been produced. -/
def producedOnce : System := System.serve .inOrder ⟨.fresh {} 1, true⟩ (rejectOnce.take 2)

/-- The same record after its first rejection, once its time has come. -/
theorem nack_delivers_once :
    ∃ watermark delivered,
      ((producedOnce.broker.handleNack .inOrder {} ⟨text "a", 0, 0, text "busy"⟩).2.wake .inOrder 9000).handleFetch 2
          ⟨retryTopicPrefix ++ text "a", 0, 0, 4096⟩ = .ok ⟨0, watermark, [delivered]⟩ ∧
        delivered.value = text "v" ∧ delivered.retry = some ⟨1, 5001, text "a", text "busy", 0, 0⟩ := by
  have hreaches : BrokerReaches .inOrder {} producedOnce :=
    .serve trivial (by decide) (fun _ _ => trivial) (by decide)
  have hfetch : producedOnce.broker.handleFetch 1 ⟨text "a", 0, 0, 4096⟩ = .ok ⟨0, 1, [{ value := text "v" }]⟩ := by
    decide +kernel
  have hnack : (producedOnce.broker.handleNack .inOrder {} ⟨text "a", 0, 0, text "busy"⟩).1 =
      .ok ⟨retryTopicPrefix ++ text "a", 0, 0, ⟨1, 5001, text "a", text "busy", 0, 0⟩, false⟩ := by
    decide +kernel
  have hvisible : 0 < ((producedOnce.broker.handleNack .inOrder {} ⟨text "a", 0, 0, text "busy"⟩).2.wake .inOrder
      9000).retries.visibleEnd (retryTopicPrefix ++ text "a") 0 := by
    decide +kernel
  have hdelivers := @nack_delivers .inOrder producedOnce hreaches 1 ⟨text "a", 0, 0, 4096⟩ (by decide) _ hfetch 0
    { value := text "v" } rfl producedOnce .refl {} (text "busy")
  simp only [Nat.cast_zero, add_zero] at hdelivers
  generalize producedOnce.broker.handleNack .inOrder {} ⟨text "a", 0, 0, text "busy"⟩ = outcome at *
  have hwoken : BrokerFollows .inOrder {} ⟨outcome.2, producedOnce.intact && Environment.faultless {}⟩
      ⟨outcome.2.wake .inOrder 9000, producedOnce.intact && Environment.faultless {}⟩ := .single (.wake _ 9000)
  have hdelivers := @hdelivers _ hnack _ hwoken
  generalize outcome.2.wake .inOrder 9000 = later at *
  obtain ⟨watermark, delivered, hdelivered, hvalue, hretry, -⟩ := hdelivers (fun _ => hvisible) (Or.inr rfl)
  refine ⟨watermark, delivered, hdelivered, ?_, hretry rfl⟩
  have hpayload := congrArg ProtocolRecord.value hvalue
  exact hpayload

end LogMq
