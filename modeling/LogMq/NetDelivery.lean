import LogMq.NetSessions
import LogMq.BrokerDurability

/-! What clients can conclude from the frames they receive. Once a connection has received the response to a Produce,
every Fetch that is sent afterwards, on any connection, returns its records. -/

namespace LogMq

open ChunkedParser

/-! ### Frames -/

theorem decodeResponse_errorResponse {apiKey : ApiKey} {version : UInt16} {requestId : UInt64} {code : ProtocolErrorCode}
    {message frame : Bytes} (hcode : code ≠ .none)
    (h : encodeErrorResponse apiKey version requestId code message = .ok frame) :
    decodeResponse frame = .ok ⟨apiKey, version, requestId, ⟨code, message⟩, emptyResponseBodyFor apiKey⟩ := by
  simp only [encodeErrorResponse, Result.reject_eq_ok, Result.bind_eq_ok, appendString_ok, appendBigEndian,
    encodeFrame_ok, not_not, List.nil_append] at h
  obtain ⟨hversion, _, ⟨hmessage, rfl⟩, hlength, rfl⟩ := h
  have hpayload : ResponseEnvelope.payload
      ⟨apiKey, version, requestId, ⟨code, message⟩, emptyResponseBodyFor apiKey⟩ =
        BigEndian.beBytes 2 code.code ++ stringBytes message := by
    rw [ResponseEnvelope.payload, if_neg hcode, List.append_nil]
  refine decodeResponse_ok.mpr ⟨⟨hversion, hmessage, ?_⟩, ⟨fun habsurd => absurd habsurd hcode, fun _ => rfl⟩, ?_⟩
  · rw [hpayload]
    exact hlength
  · rw [ResponseEnvelope.frame, hpayload]

/-- A refusal is an error. -/
theorem refusal_ne {request : RequestEnvelope} {bytes : Bytes} {response : ResponseEnvelope}
    (hdecode : decodeResponse bytes = .ok response) (hnone : response.error.errorCode = .none) :
    bytes ≠ refusal request := by
  rintro rfl
  obtain ⟨frame, hframe, -⟩ := @encodeErrorResponse_ok request.apiKey protocolVersion request.requestId .internal
    (text "worker queue is full") (.inl rfl) (by decide +kernel : (text "worker queue is full").length ≤ 100)
  rw [refusal, hframe, decodeResponse_errorResponse (by decide) hframe] at hdecode
  cases hdecode
  cases hnone

section Worker

variable {queue : TaskQueue} {broker : BrokerService} {environment : Environment} {request : RequestEnvelope}

/-- A frame without an error is the response of the broker. -/
theorem workerBytes_success {response : ResponseEnvelope}
    (hdecode : decodeResponse (workerBytes queue broker environment request) = .ok response)
    (hnone : response.error.errorCode = .none) :
    encodeResponse (broker.handle queue environment request).1 =
      .ok (workerBytes queue broker environment request) := by
  unfold workerBytes at hdecode ⊢
  cases hencode : encodeResponse (broker.handle queue environment request).1 with
  | ok bytes => rfl
  | error status =>
      obtain ⟨frame, hframe, -⟩ := @encodeErrorResponse_ok request.apiKey protocolVersion request.requestId .internal
        (text status.message) (.inl rfl) (encodeResponse_failsShortly _ status hencode)
      simp only [hencode, hframe, decodeResponse_errorResponse (by decide : ProtocolErrorCode.internal ≠ .none) hframe]
        at hdecode
      cases hdecode
      cases hnone

/-- The response of the broker, as it is received. -/
theorem decodeResponse_workerBytes
    (hencode : encodeResponse (broker.handle queue environment request).1 =
      .ok (workerBytes queue broker environment request))
    (htyped : (broker.handle queue environment request).1.body.Typed) :
    decodeResponse (workerBytes queue broker environment request) =
      .ok (broker.handle queue environment request).1.received := by
  obtain ⟨⟨hversion, hmessage, hlength⟩, hencodable, hframe⟩ := encodeResponse_ok.mp hencode
  refine decodeResponse_ok.mpr ⟨⟨hversion, hmessage, ?_⟩, ResponseEnvelope.decodable_received hencodable htyped, ?_⟩
  · rwa [ResponseEnvelope.payload_received]
  · rw [hframe, ResponseEnvelope.frame, ResponseEnvelope.frame, ResponseEnvelope.payload_received]
    rfl

/-- The broker hands a decoded request to the handler of its body. -/
theorem RequestEnvelope.Decoded.handle (h : request.Decoded) :
    broker.handle queue environment request = broker.handleBody queue environment request request.body := by
  unfold BrokerService.handle
  rw [if_neg (not_not.mpr h.1.1), if_neg (not_not.mpr h.1.2.1)]

end Worker

/-! ### Positions in what was executed -/

namespace BrokerServer

variable {queue : TaskQueue} {state next later : BrokerServer}

theorem executed_append (served more : List ServedRequest) (id : Nat) :
    executed queue (served ++ more) id = executed queue served id ++ executed queue more id := by
  rw [executed, List.filter_append, List.map_append]
  rfl

/-- What was executed at some position is the request of an entry. -/
theorem exists_entry {served : List ServedRequest} {id position : Nat} {request : RequestEnvelope} {bytes : Bytes}
    (h : (executed queue served id)[position]? = some (request, bytes)) :
    ∃ before entry after, served = before ++ entry :: after ∧ entry.request = request ∧ entry.bytes queue = bytes := by
  obtain ⟨entry, hmem, heq⟩ := List.mem_map.mp (List.mem_of_getElem? h)
  obtain ⟨before, after, hsplit⟩ := List.append_of_mem (List.mem_of_mem_filter hmem)
  exact ⟨before, entry, after, hsplit, congrArg Prod.fst heq, congrArg Prod.snd heq⟩

/-- One step handles no more than one request. -/
theorem step_served {event : BrokerServerEvent} (hstep : state.step queue event = some next) :
    ∃ more, next.served = state.served ++ more := by
  cases event with
  | net event =>
      simp only [step] at hstep
      split at hstep
      · obtain ⟨net, -, rfl⟩ := Option.map_eq_some_iff.mp hstep
        exact ⟨[], (List.append_nil _).symm⟩
      · cases hstep
  | serve position environment =>
      obtain ⟨task, -, hrest⟩ := Option.bind_eq_some_iff.mp hstep
      obtain ⟨net, -, hafter⟩ := Option.bind_eq_some_iff.mp hrest
      cases hafter
      exact ⟨_, rfl⟩
  | wake now =>
      cases hstep
      exact ⟨[], (List.append_nil _).symm⟩
  | flush flushed =>
      cases hstep
      exact ⟨[], (List.append_nil _).symm⟩
  | expire now =>
      cases hstep
      exact ⟨[], (List.append_nil _).symm⟩

theorem reaches_served (h : Steps.Reaches (step queue) state later) : ∃ more, later.served = state.served ++ more := by
  refine @Steps.Reaches.keeps _ _ (step queue) (fun reached => ∃ more, reached.served = state.served ++ more)
    (fun hkept hstep => ?_) _ _ h ⟨[], (List.append_nil _).symm⟩
  obtain ⟨more, hmore⟩ := hkept
  obtain ⟨new, hnew⟩ := step_served hstep
  exact ⟨more ++ new, by rw [hnew, hmore, List.append_assoc]⟩

/-! ### What a client has seen -/

/-- The connection has read no malformed frame, and this is its response to the request at this position. -/
def Answered (state : BrokerServer) (id position : Nat) (request : RequestEnvelope) (bytes : Bytes) : Prop :=
  ∃ connection received total, state.net.connections id = some connection ∧
    Clean (frames maxFrameBytes) connection.input received total ∧ received[position]? = some request ∧
      connection.appended[position]? = some bytes

/-- The connection, if there is one, has not yet read the request at this position. -/
def Unread (state : BrokerServer) (id position : Nat) : Prop :=
  ∀ connection, state.net.connections id = some connection → ∃ received total,
    Clean (frames maxFrameBytes) connection.input received total ∧ received.length ≤ position

/-- A response that is no refusal was made by a worker. -/
theorem Sound.answered {first : System} (h : Sound queue first state) {id position : Nat} {request : RequestEnvelope}
    {bytes : Bytes} (hanswered : state.Answered id position request bytes) (htaken : bytes ≠ refusal request) :
    (executed queue state.served id)[position]? = some (request, bytes) := by
  obtain ⟨connection, received, total, hconnection, hclean, hrequest, hbytes⟩ := hanswered
  have hsession := h.sessions.sessions id connection hconnection
  obtain ⟨refused, hrefused, hordered⟩ := hsession.ordered
  obtain ⟨-, hreceived, hframes⟩ := hordered received total hclean
  have hframe : ((executed queue state.served id).map Prod.snd ++ refused.toList.map refusal)[position]? = some bytes := by
    rw [← hframes]
    rw [List.getElem?_append_left (List.getElem?_eq_some_iff.mp hbytes).1]
    exact hbytes
  rw [hreceived] at hrequest
  by_cases hlt : position < (executed queue state.served id).length
  · rw [List.getElem?_append_left (by rwa [List.length_map]), List.getElem?_map] at hframe hrequest
    rw [List.getElem?_eq_getElem hlt] at hframe hrequest ⊢
    exact congrArg some (Prod.ext (Option.some.inj hrequest) (Option.some.inj hframe))
  · exfalso
    have hle := Nat.not_lt.mp hlt
    rw [List.getElem?_append_right (by rwa [List.length_map]), List.length_map] at hframe hrequest
    cases refused with
    | none => cases hframe
    | some other =>
        have hidle := hsession.busy
        rw [(hrefused (by simp)).2, if_neg Bool.false_ne_true] at hidle
        have hnone : submitted state.net id = [] := List.length_eq_zero_iff.mp (by omega)
        rw [hnone, List.nil_append] at hrequest
        obtain ⟨hzero, -⟩ := List.getElem?_eq_some_iff.mp hframe
        have hposition : position - (executed queue state.served id).length = 0 := by
          rw [Option.toList_some, List.map_singleton, List.length_singleton] at hzero
          omega
        rw [hposition] at hframe hrequest
        cases hframe
        cases hrequest
        exact htaken rfl

theorem Sound.unread {first : System} (h : Sound queue first state) {id position : Nat}
    (hunread : state.Unread id position) : (executed queue state.served id).length ≤ position := by
  cases hconnection : state.net.connections id with
  | none =>
      rw [(h.sessions.unused id hconnection).2.2]
      exact Nat.zero_le _
  | some connection =>
      obtain ⟨received, total, hclean, hle⟩ := hunread connection hconnection
      obtain ⟨refused, -, hordered⟩ := (h.sessions.sessions id connection hconnection).ordered
      obtain ⟨-, hreceived, -⟩ := hordered received total hclean
      rw [hreceived, List.length_append, List.length_map] at hle
      omega

/-! ### The broker between two requests -/

theorem Background.brokerStep {system after : System} (h : Background queue system after) :
    BrokerStep queue {} system after := by
  cases h with
  | wake now => exact .wake system now
  | flush flushed => exact .flush system flushed
  | expire now => exact .expire system now

theorem Background.follows {system after : System} (h : Relation.ReflTransGen (Background queue) system after) :
    BrokerFollows queue {} system after :=
  h.lift id fun _ _ hstep => hstep.brokerStep

/-- One request after the others. -/
theorem Handled.split {first last : System} {before after : List ServedRequest} {entry : ServedRequest}
    (h : Handled queue first (before ++ entry :: after) last) :
    BrokerFollows queue {} first entry.before ∧ entry.request.Decoded ∧ Handled queue (entry.after queue) after last := by
  induction before generalizing first with
  | nil => exact ⟨Background.follows h.1, h.2.1, h.2.2⟩
  | cons head rest ih =>
      obtain ⟨hbackground, hdecoded, hrest⟩ := h
      obtain ⟨hfollows, hafter⟩ := ih hrest
      refine ⟨(Background.follows hbackground).trans (.head ?_ hfollows), hafter⟩
      exact .request head.before hdecoded.typed trivial

end BrokerServer

/-! ### The response to a Produce -/

/-- The bytes of its records, as a batch. -/
def ProduceRequest.batchBytes (request : ProduceRequest) : Nat :=
  recordBatchHeaderBytes + (recordHeaderBytes * request.records.length + payloadBytes request.records)

theorem BrokerService.handleProduce_code {broker : BrokerService} {environment : Environment} {request : ProduceRequest}
    {code : ProtocolErrorCode} {message : String}
    (h : (broker.handleProduce environment request).1 = .error (code, message)) : code ≠ .none := by
  have hinvalid : ∀ status, invalidOrInternal status ≠ .none := by
    intro status
    unfold invalidOrInternal
    split_ifs <;> decide
  unfold BrokerService.handleProduce at h
  split at h
  · cases h
    decide
  split at h
  · cases h
    decide
  split at h
  · cases h
    decide
  split at h
  · cases h
    exact hinvalid _
  · unfold BrokerService.flushAppended at h
    dsimp only at h
    split at h
    · generalize TopicManager.flushPartition _ _ _ _ = flushed at h
      obtain ⟨status | _, _⟩ := flushed
      · cases h
        exact (by decide : ProtocolErrorCode.internal ≠ .none)
      · cases h
    · cases h

section Produce

open BrokerServer TopicManager

variable {queue : TaskQueue} {rules : Rules} {mark : Bytes → RetryMetadata → Prop} {held : Holdings}
  {served : ServedRequest} {request : ProduceRequest} {acknowledged : ProduceResponse}

/-- What a client learns from the response to a Produce. -/
theorem Invariant.produce_acknowledged (h : Invariant rules mark served.before held) (hdecoded : served.request.Decoded)
    (hbody : served.request.body = .produce request) {response : ResponseEnvelope}
    (hdecode : decodeResponse (served.bytes queue) = .ok response) (hnone : response.error.errorCode = .none)
    (hresponse : response.body = .produce acknowledged) :
    (served.before.broker.handleProduce served.environment request).1 = .ok acknowledged := by
  have hencode := workerBytes_success hdecode hnone
  have hhandle : (served.before.broker.handle queue served.environment served.request).1 =
      makeResponse served.request .produce (served.before.broker.handleProduce served.environment request).1 := by
    rw [hdecoded.handle, hbody]
    rfl
  cases hreply : (served.before.broker.handleProduce served.environment request).1 with
  | error reply =>
      obtain ⟨code, message⟩ := reply
      rw [hreply] at hhandle
      have hreceived := decodeResponse_workerBytes hencode (by rw [hhandle]; exact ⟨by decide, by decide⟩)
      rw [hhandle] at hreceived
      cases hdecode.symm.trans hreceived
      exact absurd hnone (BrokerService.handleProduce_code hreply)
  | ok found =>
      rw [hreply] at hhandle
      obtain ⟨-, hnonneg, topics, store, -, -, hsame, hstore, -⟩ := BrokerService.handleProduce_ok hreply
      obtain ⟨count, hfound, hid⟩ := lt_count ((hsame.store? _ _).symm.trans hstore)
      obtain ⟨first, hfirst, hbase⟩ := BrokerService.handleProduce_base h.holds hreply
      have hcarries := h.holds.carries hfirst
      have hzero := hcarries.next_nonneg
      have hmax := hcarries.next_le
      have hle := (h.holds.topic hfound).2.2
      have htyped : IsInt32 found.partitionId ∧ IsInt64 found.baseOffset := by
        unfold IsInt32 IsInt64
        unfold maxPartitions at hle
        unfold maxOffset at hmax
        omega
      have hreceived := decodeResponse_workerBytes hencode (by rw [hhandle]; exact htyped)
      rw [hhandle] at hreceived
      cases hdecode.symm.trans hreceived
      cases hresponse
      rfl

end Produce

/-! ### The response to a Fetch -/

section Fetch

open BrokerServer TopicManager

variable {queue : TaskQueue} {rules : Rules} {mark : Bytes → RetryMetadata → Prop} {system : System} {held : Holdings}
  {served : ServedRequest} {request : ProduceRequest} {acknowledged : ProduceResponse} {index : Nat} {maxBytes : UInt32}

/-- What the handler of a Fetch makes of acknowledged records. -/
theorem Invariant.Produced.fetches (hproduced : Invariant.Produced held request acknowledged)
    (h : Invariant rules mark system held) (hindex : index < request.records.length)
    (hbudget : request.batchBytes ≤ maxBytes.toNat) (hinterval : 4 * 1024 ≤ maxBytes.toNat) (version : UInt16) :
    0 ≤ acknowledged.baseOffset ∧ acknowledged.baseOffset ≤ maxOffset ∧ ∃ watermark, 0 ≤ watermark ∧
      watermark ≤ maxOffset ∧ system.broker.handleFetch version
        ⟨request.topic, acknowledged.partitionId, acknowledged.baseOffset + index, maxBytes⟩ =
          .ok ⟨acknowledged.baseOffset, watermark, request.records.map ProtocolRecord.dropRetry⟩ := by
  obtain ⟨hordinary, hpartition, batch, hmem, hbase, hrecords⟩ := hproduced
  obtain ⟨store, hstore⟩ : ∃ store, system.broker.topics.store? request.topic
      acknowledged.partitionId.toNat = some store := by
    cases hstore : system.broker.topics.store? request.topic acknowledged.partitionId.toNat with
    | none =>
        rw [h.holds.outside hstore] at hmem
        exact absurd hmem List.not_mem_nil
    | some store => exact ⟨store, rfl⟩
  have hcarries := h.holds.carries hstore
  have hvalid := hcarries.chain.valid batch hmem
  have hzero := hvalid.base_nonneg
  have hmax := hcarries.next_le
  have hend := (hcarries.chain.bounds hmem).2
  have hcount : batch.recordCount = request.records.length := by
    rw [hvalid.count_eq, hrecords, List.length_map]
  rw [RecordBatch.endOffset, hcount] at hend
  have hlt : acknowledged.baseOffset + index < batch.endOffset := by
    rw [RecordBatch.endOffset, hcount]
    omega
  have hsealed : batch.records = (request.records.map toStorageRecord).map Record.sealed := by
    rw [hrecords, List.map_map]
    rfl
  have hbatch : batch.batchBytes = request.batchBytes := by
    rw [hvalid.size_eq, hsealed, payloadOf_sealed, payloadOf_toStorageRecord]
    rfl
  have hvalues : batch.records.map toProtocolRecord = request.records.map ProtocolRecord.dropRetry := by
    rw [hrecords, List.map_map]
    rfl
  have hwatermark : system.broker.highWatermark request.topic acknowledged.partitionId store = store.log.nextOffset := by
    rw [BrokerService.highWatermark, (isInternalTopic_eq_false.mp hordinary).1, if_neg Bool.false_ne_true]
  have hread : store.read (acknowledged.baseOffset + index) (BrokerService.readBudget
      ⟨request.topic, acknowledged.partitionId, acknowledged.baseOffset + index, maxBytes⟩) = .ok batch := by
    rw [BrokerService.readBudget, hordinary, if_neg Bool.false_ne_true]
    refine hcarries.read_complete hmem (by omega) hlt (by dsimp only; omega) ?_
    rw [TopicManagerOptions.log, h.holds.interval]
    exact hinterval
  have hpositive : maxBytes ≠ 0 := by
    rintro rfl
    exact absurd hinterval (by decide)
  refine ⟨by omega, by omega, store.log.nextOffset, hcarries.next_nonneg, hmax, ?_⟩
  refine BrokerService.handleFetch_ok.mpr ⟨by dsimp only; omega, hpositive, store, hpartition, hstore, by dsimp only; omega,
    .inr ⟨by rw [hwatermark]; dsimp only; omega, batch, _, hread, BrokerService.fetchRecords_ordinary hordinary _, ?_⟩⟩
  rw [hwatermark, hvalues, hbase]

/-- A response without retry metadata is received as it was sent. -/
theorem received_fetch {envelope : RequestEnvelope} {base watermark : Int} {records : List ProtocolRecord} :
    (makeSuccess envelope (.fetch ⟨base, watermark, records.map ProtocolRecord.dropRetry⟩)).received =
      makeSuccess envelope (.fetch ⟨base, watermark, records.map ProtocolRecord.dropRetry⟩) := by
  have htwice : (records.map ProtocolRecord.dropRetry).map ProtocolRecord.dropRetry =
      records.map ProtocolRecord.dropRetry := by
    rw [List.map_map]
    rfl
  unfold ResponseEnvelope.received makeSuccess
  dsimp only
  rw [if_pos rfl, ResponseBody.dropRetry]
  dsimp only
  rw [htwice]
  split_ifs <;> rfl

/-- The records fit into a frame of either version. -/
theorem encodeFetch_dropRetry {envelope : RequestEnvelope} (hkey : envelope.apiKey = .fetch)
    (hversion : SupportedVersion envelope.version) (hfits : ∀ record ∈ request.records, record.Fits)
    (hframe : request.fetchBytes ≤ maxFrameBytes) {base watermark : Int} (hbase : 0 ≤ base) (hwatermark : 0 ≤ watermark) :
    ∃ frame, encodeResponse (makeSuccess envelope
      (.fetch ⟨base, watermark, request.records.map ProtocolRecord.dropRetry⟩)) = .ok frame := by
  have hplain : ∀ record ∈ request.records.map ProtocolRecord.dropRetry, record.retry = none := by
    intro record hrecord
    obtain ⟨source, -, rfl⟩ := List.mem_map.mp hrecord
    rfl
  refine (encodeFetch_ok hkey hversion hbase hwatermark).mpr ⟨?_, fun value hvalue => ?_⟩
  · have hoverhead := Nat.mul_le_mul_right request.records.length (fetchRecordOverhead_le envelope.version)
    rw [flatMap_fetchRecordBytes _ hplain, List.length_map, payloadBytes_dropRetry]
    rw [ProduceRequest.fetchBytes] at hframe
    omega
  · obtain ⟨source, hsource, rfl⟩ := List.mem_map.mp hvalue
    exact ⟨hfits source hsource, fun _ retry habsurd => by cases habsurd⟩

/-- What a client receives that fetches acknowledged records with a budget that covers them. -/
theorem Invariant.Produced.fetched (hproduced : Invariant.Produced held request acknowledged)
    (h : Invariant rules mark served.before held) (hfits : ∀ record ∈ request.records, record.Fits)
    (hframe : request.fetchBytes ≤ maxFrameBytes) (hindex : index < request.records.length)
    (hbudget : request.batchBytes ≤ maxBytes.toNat) (hinterval : 4 * 1024 ≤ maxBytes.toNat)
    (hdecoded : served.request.Decoded) (hbody : served.request.body =
      .fetch ⟨request.topic, acknowledged.partitionId, acknowledged.baseOffset + index, maxBytes⟩) :
    ∃ watermark, decodeResponse (served.bytes queue) = .ok (makeSuccess served.request
      (.fetch ⟨acknowledged.baseOffset, watermark, request.records.map ProtocolRecord.dropRetry⟩)) := by
  obtain ⟨hbase, hbaseMax, watermark, hmark, hmarkMax, hfetch⟩ :=
    hproduced.fetches h hindex hbudget hinterval served.request.version
  have hkey : served.request.apiKey = .fetch := by
    rw [hdecoded.1.2.1, hbody]
    rfl
  have hhandle : (served.before.broker.handle queue served.environment served.request).1 = makeSuccess served.request
      (.fetch ⟨acknowledged.baseOffset, watermark, request.records.map ProtocolRecord.dropRetry⟩) := by
    rw [hdecoded.handle, hbody]
    change makeResponse _ _ (served.before.broker.handleFetch _ _) = _
    rw [hfetch]
    rfl
  have hencode : encodeResponse (served.before.broker.handle queue served.environment served.request).1 =
      .ok (served.bytes queue) := by
    obtain ⟨frame, hencode⟩ := encodeFetch_dropRetry hkey hdecoded.1.1 hfits hframe hbase hmark
    unfold ServedRequest.bytes workerBytes
    rw [hhandle, hencode]
  have htyped : (served.before.broker.handle queue served.environment served.request).1.body.Typed := by
    rw [hhandle]
    unfold maxOffset at hbaseMax hmarkMax
    refine ⟨?_, ?_, fun record hrecord retry hretry => ?_⟩
    · unfold IsInt64
      dsimp only
      omega
    · unfold IsInt64
      dsimp only
      omega
    · obtain ⟨source, -, rfl⟩ := List.mem_map.mp hrecord
      cases hretry
  refine ⟨watermark, (decodeResponse_workerBytes hencode htyped).trans (congrArg Except.ok ?_)⟩
  rw [hhandle]
  exact received_fetch

end Fetch

namespace BrokerServer

variable {queue : TaskQueue} {threadCount maxQueueSize : Nat} {first : System} {state later : BrokerServer}
  {request : ProduceRequest} {acknowledged : ProduceResponse}

/-- **From frame to frame.** Once a connection has received the acknowledgement of a Produce, a Fetch of one of its
offsets that any connection sends afterwards, with room for its batch, gets no other answer than all of its records,
whatever the broker did in between, unless the workers refuse it or the records do not fit into a frame. -/
theorem acknowledged_is_fetched (hfirst : BrokerReaches queue {} first)
    (h : Reached queue threadCount maxQueueSize first state) (hlater : Steps.Reaches (step queue) state later)
    {producer position : Nat} {produce : RequestEnvelope} {bytes : Bytes}
    (hanswered : state.Answered producer position produce bytes) (hproduce : produce.body = .produce request)
    {response : ResponseEnvelope} (hdecode : decodeResponse bytes = .ok response)
    (hnone : response.error.errorCode = .none) (hresponse : response.body = .produce acknowledged)
    {consumer place : Nat} (hunread : state.Unread consumer place) {fetch : RequestEnvelope} {answer : Bytes}
    (hread : later.Answered consumer place fetch answer) (htaken : answer ≠ refusal fetch) {index : Nat}
    (hindex : index < request.records.length) {maxBytes : UInt32} (hfetch : fetch.body =
      .fetch ⟨request.topic, acknowledged.partitionId, acknowledged.baseOffset + index, maxBytes⟩)
    (hframe : request.fetchBytes ≤ maxFrameBytes) (hbudget : request.batchBytes ≤ maxBytes.toNat)
    (hinterval : 4 * 1024 ≤ maxBytes.toNat) :
    ∃ watermark, decodeResponse answer = .ok (makeSuccess fetch
      (.fetch ⟨acknowledged.baseOffset, watermark, request.records.map ProtocolRecord.dropRetry⟩)) := by
  have hsound := h.sound
  have hsoundLater : Sound queue first later := Reached.sound (h.trans hlater)
  obtain ⟨more, hmore⟩ := reaches_served hlater
  -- the Produce was handled before the response was received, the Fetch afterwards
  obtain ⟨before, entry, after, hserved, rfl, rfl⟩ := exists_entry (hsound.answered hanswered (refusal_ne hdecode hnone))
  have hfetched := hsoundLater.answered hread htaken
  rw [hmore, executed_append, List.getElem?_append_right (hsound.unread hunread)] at hfetched
  obtain ⟨middle, other, rest, hrest, rfl, rfl⟩ := exists_entry hfetched
  have hhandled := hsoundLater.handled
  rw [hmore, hserved, hrest, List.append_assoc, List.cons_append] at hhandled
  obtain ⟨hfollows, hdecoded, hremaining⟩ := hhandled.split
  rw [← List.append_assoc] at hremaining
  obtain ⟨hbetween, hother, -⟩ := hremaining.split
  obtain ⟨held, hinvariant⟩ := (hfirst.follows hfollows).invariant (Rules.marks_true _)
  have hacknowledged := hinvariant.produce_acknowledged hdecoded hproduce hdecode hnone hresponse
  have hafter : (entry.after queue).broker = (entry.before.broker.handleProduce entry.environment request).2 := by
    change (entry.before.broker.handle queue entry.environment entry.request).2 = _
    rw [hdecoded.handle, hproduce]
    rfl
  obtain ⟨grown, -, hgrown, hproduced⟩ := hinvariant.handleProduce entry.environment request
  have hcontinued : BrokerFollows queue {} ⟨(entry.before.broker.handleProduce entry.environment request).2,
      entry.before.intact && entry.environment.faultless⟩ other.before := by
    rw [← hafter]
    exact hbetween
  obtain ⟨last, hextends, hlast⟩ := hgrown.follows (Rules.marks_true _) hcontinued
  have hfits := hdecoded.2.1
  rw [hproduce] at hfits
  exact ((hproduced acknowledged hacknowledged).extend hextends).fetched hlast hfits.2.2.2 hframe hindex hbudget hinterval
    hother hfetch

/-- One connection, whose only request a worker handles. -/
def exchange (id : Nat) (request : RequestEnvelope) : List BrokerServerEvent :=
  [.net (.accept id), .net (.read id [.bytes request.frame, .again]), .net .take, .serve 0 {}, .net (.call 0)]

def produceOne : RequestEnvelope := ⟨.produce, 1, 1, .produce (oneRecord (text "v"))⟩

def fetchOne : RequestEnvelope := ⟨.fetch, 2, 2, .fetch ⟨text "a", 0, 0, 4096⟩⟩

/-- What can be evaluated of a connection that has sent one request. -/
theorem answered_of_eval {state : BrokerServer} {id : Nat} {request : RequestEnvelope} (htyped : request.body.Typed)
    (hencode : encodeRequest request = .ok request.frame)
    (hconnection : (state.net.connections id).map (fun connection =>
      (connection.input, connection.appended.length)) = some (request.frame, 1)) :
    ∃ bytes, state.Answered id 0 request.received bytes ∧
      (state.net.connections id).map TcpConnection.appended = some [bytes] := by
  obtain ⟨connection, hfound, hpair⟩ := Option.map_eq_some_iff.mp hconnection
  obtain ⟨hinput, hlength⟩ := Prod.mk.inj hpair
  obtain ⟨bytes, happended⟩ := List.length_eq_one_iff.mp hlength
  have hclean := @clean_frames [request] (by simpa using htyped) (by simpa using hencode)
  rw [List.map_singleton, List.flatten_singleton, ← hinput] at hclean
  refine ⟨bytes, ⟨connection, _, _, hfound, hclean, rfl, by rw [happended]; rfl⟩, ?_⟩
  rw [hfound, Option.map_some, happended]

/-- What can be decoded of its only response. -/
theorem decoded_of_eval {state : BrokerServer} {id : Nat} {bytes : Bytes} {response : ResponseEnvelope}
    (happended : (state.net.connections id).map TcpConnection.appended = some [bytes])
    (hresponses : ((state.net.connections id).map fun connection => connection.appended.map fun bytes =>
      (decodeResponse bytes).toOption) = some [some response]) : decodeResponse bytes = .ok response := by
  obtain ⟨connection, hconnection, hlist⟩ := Option.map_eq_some_iff.mp happended
  rw [hconnection, Option.map_some, hlist, Option.some.injEq] at hresponses
  exact Result.toOption_eq_some.mp (List.singleton_injective hresponses)

theorem acknowledged_is_fetched_once :
    ∃ state later answer, Steps.run (step .inOrder) (start 1 1 oneTopic) (exchange 0 produceOne) = some state ∧
      Steps.run (step .inOrder) state (exchange 1 fetchOne) = some later ∧
      later.Answered 1 0 fetchOne.received answer ∧
      ∃ watermark, decodeResponse answer =
        .ok (makeSuccess fetchOne.received (.fetch ⟨0, watermark, [{ value := text "v" }]⟩)) := by
  obtain ⟨state, hrun⟩ := Option.isSome_iff_exists.mp (by decide +kernel :
    (Steps.run (step .inOrder) (start 1 1 oneTopic) (exchange 0 produceOne)).isSome = true)
  have hstate : (Steps.run (step .inOrder) (start 1 1 oneTopic) (exchange 0 produceOne)).map (fun state =>
      ((state.net.connections 0).map (fun connection => (connection.input, connection.appended.length)),
        (state.net.connections 1).isNone)) = some (some (produceOne.frame, 1), true) := by decide +kernel
  have hresponses : (Steps.run (step .inOrder) (start 1 1 oneTopic) (exchange 0 produceOne)).map (fun state =>
      (state.net.connections 0).map fun connection => connection.appended.map fun bytes =>
        (decodeResponse bytes).toOption) =
      some (some [some (makeSuccess produceOne (.produce ⟨0, 0, 1⟩))]) := by decide +kernel
  obtain ⟨later, hrunLater⟩ := Option.isSome_iff_exists.mp (by decide +kernel :
    ((Steps.run (step .inOrder) (start 1 1 oneTopic) (exchange 0 produceOne)).bind fun state =>
      Steps.run (step .inOrder) state (exchange 1 fetchOne)).isSome = true)
  have hlater : ((Steps.run (step .inOrder) (start 1 1 oneTopic) (exchange 0 produceOne)).bind fun state =>
      Steps.run (step .inOrder) state (exchange 1 fetchOne)).map (fun later =>
      ((later.net.connections 1).map (fun connection => (connection.input, connection.appended.length)),
        (later.net.connections 1).map (fun connection => decide (connection.appended = [refusal fetchOne.received])))) =
      some (some (fetchOne.frame, 1), some false) := by decide +kernel
  rw [hrunLater, Option.map_some] at hlater
  rw [hrun, Option.bind_some] at hrunLater
  rw [hrun, Option.map_some] at hstate hresponses
  obtain ⟨hsent, hnone⟩ := Prod.mk.inj (Option.some.inj hstate)
  obtain ⟨hfetched, htaken⟩ := Prod.mk.inj (Option.some.inj hlater)
  obtain ⟨bytes, hanswered, happended⟩ := answered_of_eval (by decide) (by decide +kernel) hsent
  obtain ⟨answer, hread, hanswer⟩ := answered_of_eval (by decide) (by decide +kernel) hfetched
  refine ⟨state, later, answer, hrun, hrunLater, hread, ?_⟩
  have hdecode := decoded_of_eval happended (Option.some.inj hresponses)
  have hne : answer ≠ refusal fetchOne.received := by
    rintro rfl
    obtain ⟨connection, hconnection, hlist⟩ := Option.map_eq_some_iff.mp hanswer
    rw [hconnection, Option.map_some, hlist] at htaken
    simp at htaken
  have hunread : state.Unread 1 0 := by
    intro connection hconnection
    rw [hconnection] at hnone
    cases hnone
  exact @acknowledged_is_fetched .inOrder 1 1 oneTopic state later (oneRecord (text "v")) ⟨0, 0, 1⟩ reaches_oneTopic
    ⟨_, hrun⟩ ⟨_, hrunLater⟩ 0 0 _ bytes hanswered rfl _ hdecode rfl rfl
    1 0 hunread _ answer hread hne 0 (by decide) 4096
    rfl (by decide) (by decide) (by decide)

end BrokerServer

end LogMq
