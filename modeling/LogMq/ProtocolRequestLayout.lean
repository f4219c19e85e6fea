import LogMq.ProtocolRequests

/-! The wire format of requests. `RequestBody.layout` states the bytes of each of the eleven bodies once; the
encoder writes this layout and the decoder reads it. What the two sides require of a body is split into
`Fits`, which both check, `NonNegative`, which only the encoder checks, and `Plain`, which holds of all
decoded bodies. -/

namespace LogMq

open BigEndian ByteCodec

/-! ### Layout -/

/-- The layout of the fields that name a member and a generation. -/
def memberBytes (groupId memberId : Bytes) (generationId : Int) : Bytes :=
  stringBytes groupId ++ (stringBytes memberId ++ partitionBytes generationId)

def GroupOffset.layout (fields : GroupOffset) : Bytes :=
  stringBytes fields.groupId ++ (stringBytes fields.topic ++
    (partitionBytes fields.partitionId ++ offsetBytes fields.offset))

def RequestBody.layout : RequestBody → Bytes
  | .produce request => stringBytes request.topic ++ (partitionBytes request.partitionId ++
      (beBytes 4 request.records.length ++ request.records.flatMap wireRecordBytes))
  | .fetch request => stringBytes request.topic ++ (partitionBytes request.partitionId ++
      (offsetBytes request.offset ++ beBytes 4 request.maxBytes.toNat))
  | .metadata request => stringBytes request.topic
  | .createTopic request => stringBytes request.topic ++ beBytes 4 request.partitionCount.toNat
  | .commitOffset request => request.layout
  | .fetchCommittedOffset request => stringBytes request.groupId ++
      (stringBytes request.topic ++ partitionBytes request.partitionId)
  | .joinGroup request => stringBytes request.groupId ++ (stringBytes request.memberId ++ stringBytes request.topic)
  | .syncGroup request | .heartbeat request => memberBytes request.groupId request.memberId request.generationId
  | .leaveGroup request => stringBytes request.groupId ++ stringBytes request.memberId
  | .nack request => stringBytes request.topic ++ (partitionBytes request.partitionId ++
      (offsetBytes request.offset ++ stringBytes request.reason))

/-- What the encoder and the decoder of a body both check. -/
def RequestBody.Fits : RequestBody → Prop
  | .produce request => request.topic.length ≤ maxUInt32 ∧ request.records ≠ [] ∧
      request.records.length ≤ maxUInt32 ∧ ∀ record ∈ request.records, record.Fits
  | .fetch request => request.topic.length ≤ maxUInt32
  | .metadata request => request.topic.length ≤ maxUInt32
  | .createTopic request => request.topic.length ≤ maxUInt32
  | .commitOffset request => request.groupId.length ≤ maxUInt32 ∧ request.topic.length ≤ maxUInt32
  | .fetchCommittedOffset request => request.groupId.length ≤ maxUInt32 ∧ request.topic.length ≤ maxUInt32
  | .joinGroup request => request.groupId.length ≤ maxUInt32 ∧ request.memberId.length ≤ maxUInt32 ∧
      request.topic.length ≤ maxUInt32
  | .syncGroup request | .heartbeat request => request.groupId.length ≤ maxUInt32 ∧
      request.memberId.length ≤ maxUInt32 ∧ 0 ≤ request.generationId
  | .leaveGroup request => request.groupId.length ≤ maxUInt32 ∧ request.memberId.length ≤ maxUInt32
  | .nack request => request.topic.length ≤ maxUInt32 ∧ request.reason.length ≤ maxUInt32 ∧
      request.topic ≠ [] ∧ 0 ≤ request.partitionId ∧ 0 ≤ request.offset

/-- The check that only the encoder makes. -/
def RequestBody.NonNegative : RequestBody → Prop
  | .commitOffset request => 0 ≤ request.offset
  | _ => True

/-- A decoded record carries no retry metadata. -/
def RequestBody.Plain : RequestBody → Prop
  | .produce request => ∀ record ∈ request.records, record.retry = none
  | _ => True

/-! ### The encoders write the layout -/

theorem appendGroupOffset_ok {fields : GroupOffset} {output bytes : Bytes} :
    appendGroupOffset fields output = .ok bytes ↔
      (fields.groupId.length ≤ maxUInt32 ∧ fields.topic.length ≤ maxUInt32) ∧ bytes = output ++ fields.layout := by
  simp only [appendGroupOffset, Result.bind_eq_ok, Result.pure_eq_ok, appendString_ok, appendPartitionId,
    appendOffset, appendBigEndian, GroupOffset.layout, partitionBytes, offsetBytes]
  constructor
  · rintro ⟨_, ⟨hgroup, rfl⟩, _, ⟨htopic, rfl⟩, rfl⟩
    exact ⟨⟨hgroup, htopic⟩, by simp only [List.append_assoc]⟩
  · rintro ⟨⟨hgroup, htopic⟩, rfl⟩
    exact ⟨_, ⟨hgroup, rfl⟩, _, ⟨htopic, rfl⟩, by simp only [List.append_assoc]⟩

theorem appendMember_ok {groupId memberId : Bytes} {generationId : Int} {output bytes : Bytes} :
    appendMember groupId memberId generationId output = .ok bytes ↔
      (groupId.length ≤ maxUInt32 ∧ memberId.length ≤ maxUInt32 ∧ 0 ≤ generationId) ∧
        bytes = output ++ memberBytes groupId memberId generationId := by
  simp only [appendMember, Result.bind_eq_ok, appendString_ok, appendGenerationId_ok, memberBytes]
  constructor
  · rintro ⟨_, ⟨hgroup, rfl⟩, _, ⟨hmember, rfl⟩, hgeneration, rfl⟩
    exact ⟨⟨hgroup, hmember, hgeneration⟩, by simp only [List.append_assoc]⟩
  · rintro ⟨⟨hgroup, hmember, hgeneration⟩, rfl⟩
    exact ⟨_, ⟨hgroup, rfl⟩, _, ⟨hmember, rfl⟩, hgeneration, by simp only [List.append_assoc]⟩

/-- **A body is encoded to its layout, if it meets the checks of the encoder.** -/
theorem RequestBody.encode_ok {body : RequestBody} {bytes : Bytes} :
    body.encode = .ok bytes ↔ (body.Fits ∧ body.NonNegative) ∧ bytes = body.layout := by
  cases body with
  | produce request =>
      simp only [RequestBody.encode, encodeProduceBody, Result.reject_eq_ok, Result.bind_eq_ok, appendString_ok,
        appendProtocolRecord_writes.many.iff, appendPartitionId, appendBigEndian, RequestBody.Fits,
        RequestBody.NonNegative, RequestBody.layout, partitionBytes, List.nil_append, Nat.not_lt]
      constructor
      · rintro ⟨hsome, hcount, _, ⟨htopic, rfl⟩, hrecords, rfl⟩
        exact ⟨⟨⟨htopic, hsome, hcount, hrecords⟩, trivial⟩, by simp only [List.append_assoc]⟩
      · rintro ⟨⟨⟨htopic, hsome, hcount, hrecords⟩, -⟩, rfl⟩
        exact ⟨hsome, hcount, _, ⟨htopic, rfl⟩, hrecords, by simp only [List.append_assoc]⟩
  | fetch request =>
      simp only [RequestBody.encode, encodeFetchBody, Result.bind_eq_ok, Result.pure_eq_ok, appendString_ok,
        appendPartitionId, appendOffset, appendBigEndian, RequestBody.Fits, RequestBody.NonNegative,
        RequestBody.layout, partitionBytes, offsetBytes, List.nil_append, List.append_assoc, and_assoc,
        exists_and_left, exists_eq_left, and_true]
  | metadata request =>
      simp [RequestBody.encode, encodeMetadataBody, appendString_ok, RequestBody.Fits, RequestBody.NonNegative,
        RequestBody.layout]
  | createTopic request =>
      simp only [RequestBody.encode, encodeCreateTopicBody, Result.bind_eq_ok, Result.pure_eq_ok, appendString_ok,
        appendBigEndian, RequestBody.Fits, RequestBody.NonNegative, RequestBody.layout, List.nil_append, and_assoc,
        exists_and_left, exists_eq_left, and_true]
  | commitOffset request =>
      simp only [RequestBody.encode, encodeCommitOffsetBody, Result.reject_eq_ok, appendGroupOffset_ok,
        RequestBody.Fits, RequestBody.NonNegative, RequestBody.layout, List.nil_append, Int.not_lt]
      tauto
  | fetchCommittedOffset request =>
      simp only [RequestBody.encode, encodeFetchCommittedOffsetBody, Result.bind_eq_ok, Result.pure_eq_ok,
        appendString_ok, appendPartitionId, appendBigEndian, RequestBody.Fits, RequestBody.NonNegative,
        RequestBody.layout, partitionBytes, List.nil_append, List.append_assoc, and_assoc,
        exists_and_left, exists_eq_left, and_true]
  | joinGroup request =>
      simp only [RequestBody.encode, encodeJoinGroupBody, Result.bind_eq_ok, appendString_ok, RequestBody.Fits,
        RequestBody.NonNegative, RequestBody.layout, List.nil_append, List.append_assoc, and_assoc,
        exists_and_left, exists_eq_left, and_true]
  | syncGroup request =>
      simp only [RequestBody.encode, encodeSyncGroupBody, appendMember_ok, RequestBody.Fits,
        RequestBody.NonNegative, RequestBody.layout, List.nil_append, and_true]
  | heartbeat request =>
      simp only [RequestBody.encode, encodeHeartbeatBody, appendMember_ok, RequestBody.Fits,
        RequestBody.NonNegative, RequestBody.layout, List.nil_append, and_true]
  | leaveGroup request =>
      simp only [RequestBody.encode, encodeLeaveGroupBody, Result.bind_eq_ok, appendString_ok, RequestBody.Fits,
        RequestBody.NonNegative, RequestBody.layout, List.nil_append, and_assoc,
        exists_and_left, exists_eq_left, and_true]
  | nack request =>
      simp only [RequestBody.encode, encodeNackBody, Result.reject_eq_ok, Result.bind_eq_ok, appendString_ok,
        appendPartitionId, appendOffset, appendBigEndian, RequestBody.Fits, RequestBody.NonNegative,
        RequestBody.layout, partitionBytes, offsetBytes, List.nil_append, not_or, Int.not_lt]
      constructor
      · rintro ⟨hlocation, _, ⟨htopic, rfl⟩, hreason, rfl⟩
        exact ⟨⟨⟨htopic, hreason, hlocation⟩, trivial⟩, by simp only [List.append_assoc]⟩
      · rintro ⟨⟨⟨htopic, hreason, hlocation⟩, -⟩, rfl⟩
        exact ⟨hlocation, _, ⟨htopic, rfl⟩, hreason, by simp only [List.append_assoc]⟩

/-! ### The decoders read the layout -/

theorem readProduce_reads :
    Reads readProduce (fun request => (RequestBody.produce request).Fits ∧ (RequestBody.produce request).Typed ∧
      (RequestBody.produce request).Plain) (fun request => (RequestBody.produce request).layout) := by
  refine Reads.congr (ReadsGiven.reads
    (ReadsGiven.field ProduceRequest.topic readString_reads fun topic _ =>
      ReadsGiven.field ProduceRequest.partitionId readPartitionId_reads fun partitionId _ =>
      ReadsGiven.field (fun request : ProduceRequest => request.records.length) (readUInt_reads 4) fun count _ =>
      ReadsGiven.check (fun request : ProduceRequest => request.records ≠ []) ?_ fun _ =>
      ReadsGiven.restate (fun request => ∀ record ∈ request.records, record.Fits ∧ record.retry = none)
      (ReadsGiven.field ProduceRequest.records (decodeProtocolRecord_reads.many count) fun records hrecords =>
      ReadsGiven.done (fun _ => True) ?_) ?_)) ?_ ?_
  · rintro request ⟨-, rfl⟩
    rw [Ne, List.length_eq_zero_iff]
  · rintro ⟨_, _, _⟩
    simp only [ProduceRequest.mk.injEq, true_and, and_true, and_assoc]
    constructor
    · rintro ⟨htopic, hpartition, rfl⟩
      exact ⟨htopic, hpartition, hrecords.1, rfl⟩
    · rintro ⟨htopic, hpartition, -, hrecords⟩
      exact ⟨htopic, hpartition, hrecords⟩
  · rintro request ⟨-, hlength⟩
    exact ⟨fun h => h.1.2, fun h => ⟨⟨hlength, h⟩, trivial⟩⟩
  · intro request
    simp only [RequestBody.Fits, RequestBody.Typed, RequestBody.Plain, forall_and, lt_256_pow_four_iff]
    tauto
  · intro request
    simp only [RequestBody.layout, List.append_nil]

theorem readFetch_reads :
    Reads readFetch (fun request => (RequestBody.fetch request).Fits ∧ (RequestBody.fetch request).Typed ∧
      (RequestBody.fetch request).Plain) (fun request => (RequestBody.fetch request).layout) := by
  refine Reads.congr (ReadsGiven.reads
    (ReadsGiven.field FetchRequest.topic readString_reads fun topic _ =>
      ReadsGiven.field FetchRequest.partitionId readPartitionId_reads fun partitionId _ =>
      ReadsGiven.field FetchRequest.offset readOffset_reads fun offset _ =>
      ReadsGiven.field FetchRequest.maxBytes readUInt32_reads fun maxBytes _ =>
      ReadsGiven.done (fun _ => True) ?_)) ?_ ?_
  · rintro ⟨_, _, _, _⟩
    simp only [FetchRequest.mk.injEq, true_and, and_true, and_assoc]
  · intro request
    simp only [RequestBody.Fits, RequestBody.Typed, RequestBody.Plain, and_true]
  · intro request
    simp only [RequestBody.layout, List.append_nil]

theorem readMetadata_reads :
    Reads readMetadata (fun request => (RequestBody.metadata request).Fits ∧ (RequestBody.metadata request).Typed ∧
      (RequestBody.metadata request).Plain) (fun request => (RequestBody.metadata request).layout) := by
  refine Reads.congr (ReadsGiven.reads
    (ReadsGiven.field MetadataRequest.topic readString_reads fun topic _ =>
      ReadsGiven.done (fun _ => True) ?_)) ?_ ?_
  · rintro ⟨_⟩
    simp only [MetadataRequest.mk.injEq, true_and, and_true]
  · intro request
    simp only [RequestBody.Fits, RequestBody.Typed, RequestBody.Plain, and_true]
  · intro request
    simp only [RequestBody.layout, List.append_nil]

theorem readCreateTopic_reads :
    Reads readCreateTopic (fun request => (RequestBody.createTopic request).Fits ∧
      (RequestBody.createTopic request).Typed ∧ (RequestBody.createTopic request).Plain)
      (fun request => (RequestBody.createTopic request).layout) := by
  refine Reads.congr (ReadsGiven.reads
    (ReadsGiven.field CreateTopicRequest.topic readString_reads fun topic _ =>
      ReadsGiven.field CreateTopicRequest.partitionCount readUInt32_reads fun count _ =>
      ReadsGiven.done (fun _ => True) ?_)) ?_ ?_
  · rintro ⟨_, _⟩
    simp only [CreateTopicRequest.mk.injEq, true_and, and_true]
  · intro request
    simp only [RequestBody.Fits, RequestBody.Typed, RequestBody.Plain, and_true]
  · intro request
    simp only [RequestBody.layout, List.append_nil]

theorem readGroupOffset_reads :
    Reads readGroupOffset (fun fields => (fields.groupId.length ≤ maxUInt32 ∧ fields.topic.length ≤ maxUInt32) ∧
      IsInt32 fields.partitionId ∧ IsInt64 fields.offset) GroupOffset.layout := by
  refine Reads.congr (ReadsGiven.reads
    (ReadsGiven.field GroupOffset.groupId readString_reads fun groupId _ =>
      ReadsGiven.field GroupOffset.topic readString_reads fun topic _ =>
      ReadsGiven.field GroupOffset.partitionId readPartitionId_reads fun partitionId _ =>
      ReadsGiven.field GroupOffset.offset readOffset_reads fun offset _ =>
      ReadsGiven.done (fun _ => True) ?_)) ?_ ?_
  · rintro ⟨_, _, _, _⟩
    simp only [GroupOffset.mk.injEq, true_and, and_true, and_assoc]
  · intro fields
    simp only [and_true, and_assoc]
  · intro fields
    simp only [GroupOffset.layout, List.append_nil]

theorem readFetchCommittedOffset_reads :
    Reads readFetchCommittedOffset (fun request => (RequestBody.fetchCommittedOffset request).Fits ∧
      (RequestBody.fetchCommittedOffset request).Typed ∧ (RequestBody.fetchCommittedOffset request).Plain)
      (fun request => (RequestBody.fetchCommittedOffset request).layout) := by
  refine Reads.congr (ReadsGiven.reads
    (ReadsGiven.field FetchCommittedOffsetRequest.groupId readString_reads fun groupId _ =>
      ReadsGiven.field FetchCommittedOffsetRequest.topic readString_reads fun topic _ =>
      ReadsGiven.field FetchCommittedOffsetRequest.partitionId readPartitionId_reads fun partitionId _ =>
      ReadsGiven.done (fun _ => True) ?_)) ?_ ?_
  · rintro ⟨_, _, _⟩
    simp only [FetchCommittedOffsetRequest.mk.injEq, true_and, and_true, and_assoc]
  · intro request
    simp only [RequestBody.Fits, RequestBody.Typed, RequestBody.Plain, and_true, and_assoc]
  · intro request
    simp only [RequestBody.layout, List.append_nil]

theorem readJoinGroup_reads :
    Reads readJoinGroup (fun request => (RequestBody.joinGroup request).Fits ∧ (RequestBody.joinGroup request).Typed ∧
      (RequestBody.joinGroup request).Plain) (fun request => (RequestBody.joinGroup request).layout) := by
  refine Reads.congr (ReadsGiven.reads
    (ReadsGiven.field JoinGroupRequest.groupId readString_reads fun groupId _ =>
      ReadsGiven.field JoinGroupRequest.memberId readString_reads fun memberId _ =>
      ReadsGiven.field JoinGroupRequest.topic readString_reads fun topic _ =>
      ReadsGiven.done (fun _ => True) ?_)) ?_ ?_
  · rintro ⟨_, _, _⟩
    simp only [JoinGroupRequest.mk.injEq, true_and, and_true, and_assoc]
  · intro request
    simp only [RequestBody.Fits, RequestBody.Typed, RequestBody.Plain, and_true]
  · intro request
    simp only [RequestBody.layout, List.append_nil]

theorem readMember_reads :
    Reads readMember (fun request => (request.groupId.length ≤ maxUInt32 ∧ request.memberId.length ≤ maxUInt32 ∧
      0 ≤ request.generationId) ∧ IsInt32 request.generationId)
      (fun request => memberBytes request.groupId request.memberId request.generationId) := by
  refine Reads.congr (ReadsGiven.reads
    (ReadsGiven.field MemberRequest.groupId readString_reads fun groupId _ =>
      ReadsGiven.field MemberRequest.memberId readString_reads fun memberId _ =>
      ReadsGiven.field MemberRequest.generationId readGenerationId_reads fun generationId _ =>
      ReadsGiven.done (fun _ => True) ?_)) ?_ ?_
  · rintro ⟨_, _, _⟩
    simp only [MemberRequest.mk.injEq, true_and, and_true, and_assoc]
  · intro request
    simp only [and_true, and_assoc]
  · intro request
    simp only [memberBytes, List.append_nil]

theorem readLeaveGroup_reads :
    Reads readLeaveGroup (fun request => (RequestBody.leaveGroup request).Fits ∧
      (RequestBody.leaveGroup request).Typed ∧ (RequestBody.leaveGroup request).Plain)
      (fun request => (RequestBody.leaveGroup request).layout) := by
  refine Reads.congr (ReadsGiven.reads
    (ReadsGiven.field LeaveGroupRequest.groupId readString_reads fun groupId _ =>
      ReadsGiven.field LeaveGroupRequest.memberId readString_reads fun memberId _ =>
      ReadsGiven.done (fun _ => True) ?_)) ?_ ?_
  · rintro ⟨_, _⟩
    simp only [LeaveGroupRequest.mk.injEq, true_and, and_true]
  · intro request
    simp only [RequestBody.Fits, RequestBody.Typed, RequestBody.Plain, and_true]
  · intro request
    simp only [RequestBody.layout, List.append_nil]

theorem readNack_reads :
    Reads readNack (fun request => (RequestBody.nack request).Fits ∧ (RequestBody.nack request).Typed ∧
      (RequestBody.nack request).Plain) (fun request => (RequestBody.nack request).layout) := by
  refine Reads.congr (ReadsGiven.reads
    (ReadsGiven.field NackRequest.topic readString_reads fun topic _ =>
      ReadsGiven.field NackRequest.partitionId readPartitionId_reads fun partitionId _ =>
      ReadsGiven.field (fun request : NackRequest => offsetToUInt64 request.offset) (readUInt_reads 8)
        fun offset hoffset =>
      ReadsGiven.field NackRequest.reason readString_reads fun reason _ =>
      ReadsGiven.check (fun request : NackRequest => ¬ (request.topic = [] ∨ request.partitionId < 0 ∨
        (offsetToUInt64 request.offset : Int) > maxOffset)) ?_ fun _ =>
      ReadsGiven.done (fun request : NackRequest => IsInt64 request.offset) ?_)) ?_ ?_
  · rintro request ⟨⟨⟨⟨-, rfl⟩, rfl⟩, rfl⟩, rfl⟩
    exact Iff.rfl
  · rintro ⟨_, _, _, _⟩
    simp only [NackRequest.mk.injEq, true_and, offset_eq_cast_iff hoffset]
    tauto
  · intro request
    simp only [RequestBody.Fits, RequestBody.Typed, RequestBody.Plain, not_or, Int.not_lt, gt_iff_lt, and_true,
      offsetToUInt64_lt, true_and]
    constructor
    · rintro ⟨htopic, hpartition, hreason, ⟨hname, hnonneg, hmax⟩, hoffset⟩
      exact ⟨⟨htopic, hreason, hname, hnonneg, (offsetToUInt64_le_max_iff hoffset).mp hmax⟩, hpartition, hoffset⟩
    · rintro ⟨⟨htopic, hreason, hname, hnonneg, hmax⟩, hpartition, hoffset⟩
      exact ⟨htopic, hpartition, hreason, ⟨hname, hnonneg, (offsetToUInt64_le_max_iff hoffset).mpr hmax⟩, hoffset⟩
  · intro request
    simp only [RequestBody.layout, offsetBytes, List.append_nil]

/-! ### Frames of requests -/

/-- What the decoder of requests accepts as a body. -/
def RequestBody.Decodable (body : RequestBody) : Prop := body.Fits ∧ body.Typed ∧ body.Plain

/-- One alternative of `DecodeRequestBody`. -/
theorem decodeAlternative_ok {α : Type} {reader : BodyReader α} {wrap : α → RequestBody} {apiKey : ApiKey}
    (hreads : Reads reader (fun a => (wrap a).Decodable) (fun a => (wrap a).layout))
    (hwrap : ∀ body : RequestBody, apiKey = body.apiKey ↔ ∃ a, body = wrap a) {trailing : String}
    {bytes : Bytes} {body : RequestBody} :
    (do return wrap (← readAll reader trailing bytes) : Result RequestBody) = .ok body ↔
      apiKey = body.apiKey ∧ body.Decodable ∧ bytes = body.layout := by
  simp only [Result.bind_eq_ok, Result.pure_eq_ok, readAll_ok hreads, hwrap]
  constructor
  · rintro ⟨a, ⟨hdecodable, hbytes⟩, rfl⟩
    exact ⟨⟨a, rfl⟩, hdecodable, hbytes⟩
  · rintro ⟨⟨a, rfl⟩, hdecodable, hbytes⟩
    exact ⟨a, ⟨hdecodable, hbytes⟩, rfl⟩

/-- **A body is decoded from its layout, if it meets the checks of the decoder.** -/
theorem decodeRequestBody_ok {apiKey : ApiKey} {bytes : Bytes} {body : RequestBody} :
    decodeRequestBody apiKey bytes = .ok body ↔
      apiKey = body.apiKey ∧ body.Decodable ∧ bytes = body.layout := by
  cases apiKey with
  | produce =>
      refine decodeAlternative_ok readProduce_reads fun body => ?_
      cases body <;> simp [RequestBody.apiKey]
  | fetch =>
      refine decodeAlternative_ok readFetch_reads fun body => ?_
      cases body <;> simp [RequestBody.apiKey]
  | metadata =>
      refine decodeAlternative_ok readMetadata_reads fun body => ?_
      cases body <;> simp [RequestBody.apiKey]
  | createTopic =>
      refine decodeAlternative_ok readCreateTopic_reads fun body => ?_
      cases body <;> simp [RequestBody.apiKey]
  | commitOffset =>
      refine decodeAlternative_ok (readGroupOffset_reads.congr (fun _ => ?_) fun _ => rfl) fun body => ?_
      · exact ⟨fun h => ⟨h.1, h.2, trivial⟩, fun h => ⟨h.1, h.2.1⟩⟩
      · cases body <;> simp [RequestBody.apiKey]
  | fetchCommittedOffset =>
      refine decodeAlternative_ok readFetchCommittedOffset_reads fun body => ?_
      cases body <;> simp [RequestBody.apiKey]
  | joinGroup =>
      refine decodeAlternative_ok readJoinGroup_reads fun body => ?_
      cases body <;> simp [RequestBody.apiKey]
  | syncGroup =>
      refine decodeAlternative_ok (readMember_reads.congr (fun _ => ?_) fun _ => rfl) fun body => ?_
      · exact ⟨fun h => ⟨h.1, h.2, trivial⟩, fun h => ⟨h.1, h.2.1⟩⟩
      · cases body <;> simp [RequestBody.apiKey]
  | heartbeat =>
      refine decodeAlternative_ok (readMember_reads.congr (fun _ => ?_) fun _ => rfl) fun body => ?_
      · exact ⟨fun h => ⟨h.1, h.2, trivial⟩, fun h => ⟨h.1, h.2.1⟩⟩
      · cases body <;> simp [RequestBody.apiKey]
  | leaveGroup =>
      refine decodeAlternative_ok readLeaveGroup_reads fun body => ?_
      cases body <;> simp [RequestBody.apiKey]
  | nack =>
      refine decodeAlternative_ok readNack_reads fun body => ?_
      cases body <;> simp [RequestBody.apiKey]

/-- The frame of a request. -/
def RequestEnvelope.frame (request : RequestEnvelope) : Bytes :=
  frameBytes request.apiKey request.version request.requestId request.body.layout

/-- What both directions require of an envelope: a known version, the alternative of the api key, and a
frame of at most `kMaxFrameBytes`. -/
def RequestEnvelope.Framed (request : RequestEnvelope) : Prop :=
  SupportedVersion request.version ∧ request.apiKey = request.body.apiKey ∧
    frameHeaderBytes + request.body.layout.length ≤ maxFrameBytes

theorem encodeRequest_ok {request : RequestEnvelope} {frame : Bytes} :
    encodeRequest request = .ok frame ↔
      request.Framed ∧ (request.body.Fits ∧ request.body.NonNegative) ∧ frame = request.frame := by
  simp only [encodeRequest, encodeRequestBody, Result.reject_eq_ok, Result.bind_eq_ok, RequestBody.encode_ok,
    encodeFrame_ok, not_not, RequestEnvelope.Framed, RequestEnvelope.frame]
  constructor
  · rintro ⟨hversion, _, ⟨hkey, hbody, rfl⟩, hlength, rfl⟩
    exact ⟨⟨hversion, hkey, hlength⟩, hbody, rfl⟩
  · rintro ⟨⟨hversion, hkey, hlength⟩, hbody, rfl⟩
    exact ⟨hversion, _, ⟨hkey, hbody, rfl⟩, hlength, rfl⟩

theorem decodeRequest_ok {frame : Bytes} {request : RequestEnvelope} :
    decodeRequest frame = .ok request ↔
      request.Framed ∧ request.body.Decodable ∧ frame = request.frame := by
  simp only [decodeRequest, Result.bind_eq_ok, Result.pure_eq_ok, Prod.exists, decodeFrame_ok,
    decodeRequestBody_ok, RequestEnvelope.Framed, RequestEnvelope.frame]
  constructor
  · rintro ⟨header, _, ⟨hversion, hlength, rfl⟩, body, ⟨hkey, hbody, rfl⟩, rfl⟩
    exact ⟨⟨hversion, hkey, hlength⟩, hbody, rfl⟩
  · rintro ⟨⟨hversion, hkey, hlength⟩, hbody, rfl⟩
    exact ⟨⟨request.apiKey, request.version, request.requestId⟩, _, ⟨hversion, hlength, rfl⟩, request.body,
      ⟨hkey, hbody, rfl⟩, rfl⟩

/-! ### Round trip -/

/-- The body as it comes out of a frame: a produced record has lost its retry metadata. -/
def RequestBody.dropRetry : RequestBody → RequestBody
  | .produce request => .produce { request with records := request.records.map ProtocolRecord.dropRetry }
  | body => body

theorem flatMap_wireRecordBytes_dropRetry (records : List ProtocolRecord) :
    (records.map ProtocolRecord.dropRetry).flatMap wireRecordBytes = records.flatMap wireRecordBytes := by
  rw [List.flatMap_map]
  rfl

theorem RequestBody.layout_dropRetry (body : RequestBody) : body.dropRetry.layout = body.layout := by
  cases body with
  | produce request =>
      simp only [RequestBody.dropRetry, RequestBody.layout, List.length_map, flatMap_wireRecordBytes_dropRetry]
  | _ => rfl

theorem RequestBody.apiKey_dropRetry (body : RequestBody) : body.dropRetry.apiKey = body.apiKey := by
  cases body <;> rfl

theorem RequestBody.decodable_dropRetry {body : RequestBody} (hfits : body.Fits) (htyped : body.Typed) :
    body.dropRetry.Decodable := by
  cases body with
  | produce request =>
      obtain ⟨htopic, hsome, hcount, hrecords⟩ := hfits
      refine ⟨⟨htopic, ?_, ?_, ?_⟩, htyped, ?_⟩
      · exact fun h => hsome (List.map_eq_nil_iff.mp h)
      · rwa [List.length_map]
      · intro record hrecord
        obtain ⟨original, horiginal, rfl⟩ := List.mem_map.mp hrecord
        exact hrecords original horiginal
      · intro record hrecord
        obtain ⟨original, -, rfl⟩ := List.mem_map.mp hrecord
        rfl
  | _ => exact ⟨hfits, htyped, trivial⟩

/-- A request as it arrives: the retry metadata of produced records do not travel. -/
def RequestEnvelope.received (request : RequestEnvelope) : RequestEnvelope :=
  { request with body := request.body.dropRetry }

theorem RequestEnvelope.decodeRequest_frame {request : RequestEnvelope} {frame : Bytes} (htyped : request.body.Typed)
    (hencode : encodeRequest request = .ok frame) : decodeRequest frame = .ok request.received := by
  obtain ⟨⟨hversion, hkey, hlength⟩, ⟨hfits, -⟩, rfl⟩ := encodeRequest_ok.mp hencode
  apply decodeRequest_ok.mpr
  refine ⟨⟨hversion, ?_, ?_⟩, RequestBody.decodable_dropRetry hfits htyped, ?_⟩
  · rw [received, RequestBody.apiKey_dropRetry]
    exact hkey
  · rwa [received, RequestBody.layout_dropRetry]
  · simp only [received, RequestEnvelope.frame, RequestBody.layout_dropRetry]

/-- **Requests survive the wire.** Whatever is encoded decodes to itself, but for the retry metadata of
produced records. -/
theorem decodeRequest_encodeRequest {request : RequestEnvelope} {frame : Bytes} (htyped : request.body.Typed)
    (hencode : encodeRequest request = .ok frame) :
    decodeRequest frame = .ok { request with body := request.body.dropRetry } :=
  RequestEnvelope.decodeRequest_frame htyped hencode

/-- A request whose record has a zero byte in its key and retry metadata that do not travel. -/
def sampleProduce : RequestEnvelope :=
  ⟨.produce, 2, 7, .produce ⟨[116], -1, [⟨3, [0], [1, 2], some {}⟩]⟩⟩

theorem decodeRequest_encodeRequest_produce :
    ∃ frame, encodeRequest sampleProduce = .ok frame ∧
      decodeRequest frame = .ok ⟨.produce, 2, 7, .produce ⟨[116], -1, [⟨3, [0], [1, 2], none⟩]⟩⟩ := by
  have htyped : sampleProduce.body.Typed := show IsInt32 (-1) by decide
  obtain ⟨frame, hframe⟩ : ∃ frame, encodeRequest sampleProduce = .ok frame := ⟨_, rfl⟩
  exact ⟨frame, hframe, decodeRequest_encodeRequest htyped hframe⟩

end LogMq
