import LogMq.ProtocolRequestLayout
import LogMq.ProtocolResponses

/-! The wire format of response bodies, as for requests: one layout for each of the eleven bodies, which the
encoder writes and the decoder reads. -/

namespace LogMq

open BigEndian ByteCodec

/-! ### Layout -/

/-- A fetched record. In version 2 a flag says whether retry metadata follow. -/
def fetchRecordBytes (version : UInt16) (record : ProtocolRecord) : Bytes :=
  wireRecordBytes record ++ if version = retryProtocolVersion then
    match record.retry with
    | none => beBytes 1 0
    | some retry => beBytes 1 1 ++ retryBytes retry
  else []

def topicBytes (topic : TopicMetadata) : Bytes :=
  stringBytes topic.topic ++ beBytes 4 topic.partitionCount.toNat

def assignmentBytes (assignment : PartitionAssignment) : Bytes :=
  stringBytes assignment.topic ++
    (beBytes 4 assignment.partitionIds.length ++ assignment.partitionIds.flatMap partitionBytes)

def ResponseBody.layout (version : UInt16) : ResponseBody → Bytes
  | .produce response => partitionBytes response.partitionId ++
      (offsetBytes response.baseOffset ++ beBytes 4 response.recordCount.toNat)
  | .fetch response => offsetBytes response.baseOffset ++ (offsetBytes response.highWatermark ++
      (beBytes 4 response.records.length ++ response.records.flatMap (fetchRecordBytes version)))
  | .metadata response => beBytes 4 response.topics.length ++ response.topics.flatMap topicBytes
  | .createTopic response => topicBytes response
  | .commitOffset response => response.layout
  | .fetchCommittedOffset response => stringBytes response.groupId ++ (stringBytes response.topic ++
      (partitionBytes response.partitionId ++ (beBytes 4 (if response.committed then 1 else 0) ++
        offsetBytes response.offset)))
  | .joinGroup response => memberBytes response.groupId response.memberId response.generationId ++
      stringBytes response.leaderId
  | .syncGroup response => memberBytes response.groupId response.memberId response.generationId ++
      assignmentBytes response.assignment
  | .heartbeat response | .leaveGroup response =>
      memberBytes response.groupId response.memberId response.generationId
  | .nack response => stringBytes response.topic ++ (partitionBytes response.partitionId ++
      (offsetBytes response.offset ++ (stringBytes [] ++ (retryBytes response.retry ++
        beBytes 1 (if response.deadLetter then 1 else 0)))))

/-- The strings of the member fields have lengths of 32 bits, and the generation is not negative. -/
def MemberFits (groupId memberId : Bytes) (generationId : Int) : Prop :=
  groupId.length ≤ maxUInt32 ∧ memberId.length ≤ maxUInt32 ∧ 0 ≤ generationId

/-- What both sides check of a fetched record. -/
def ProtocolRecord.FitsVersion (version : UInt16) (record : ProtocolRecord) : Prop :=
  record.Fits ∧ (version = retryProtocolVersion → ∀ retry ∈ record.retry, retry.Fits)

def PartitionAssignment.Fits (assignment : PartitionAssignment) : Prop :=
  assignment.topic.length ≤ maxUInt32 ∧ assignment.partitionIds.length ≤ maxUInt32 ∧
    ∀ partition ∈ assignment.partitionIds, 0 ≤ partition

/-- What the encoder and the decoder of a body both check. -/
def ResponseBody.Fits (version : UInt16) : ResponseBody → Prop
  | .produce _ => True
  | .fetch response => response.records.length ≤ maxUInt32 ∧
      ∀ record ∈ response.records, record.FitsVersion version
  | .metadata response => response.topics.length ≤ maxUInt32 ∧
      ∀ topic ∈ response.topics, topic.topic.length ≤ maxUInt32
  | .createTopic response => response.topic.length ≤ maxUInt32
  | .commitOffset response => response.groupId.length ≤ maxUInt32 ∧ response.topic.length ≤ maxUInt32
  | .fetchCommittedOffset response => response.groupId.length ≤ maxUInt32 ∧ response.topic.length ≤ maxUInt32
  | .joinGroup response => MemberFits response.groupId response.memberId response.generationId ∧
      response.leaderId.length ≤ maxUInt32
  | .syncGroup response => MemberFits response.groupId response.memberId response.generationId ∧
      response.assignment.Fits
  | .heartbeat response | .leaveGroup response =>
      MemberFits response.groupId response.memberId response.generationId
  | .nack response => response.topic.length ≤ maxUInt32 ∧ response.topic ≠ [] ∧ 0 ≤ response.partitionId ∧
      0 ≤ response.offset ∧ response.retry.Fits

/-- The checks that only the encoder makes. -/
def ResponseBody.NonNegative : ResponseBody → Prop
  | .produce response => 0 ≤ response.partitionId ∧ 0 ≤ response.baseOffset
  | .fetch response => 0 ≤ response.baseOffset ∧ 0 ≤ response.highWatermark
  | .commitOffset response => 0 ≤ response.partitionId ∧ 0 ≤ response.offset
  | .fetchCommittedOffset response => 0 ≤ response.partitionId ∧ 0 ≤ response.offset
  | _ => True

/-- Only version 2 carries retry metadata of fetched records. -/
def ResponseBody.Plain (version : UInt16) : ResponseBody → Prop
  | .fetch response => version ≠ retryProtocolVersion → ∀ record ∈ response.records, record.retry = none
  | _ => True

/-! ### The encoders write the layout -/

theorem appendFetchRecord_writes (version : UInt16) :
    Writes (appendFetchRecord version) (ProtocolRecord.FitsVersion version) (fetchRecordBytes version) := by
  intro record output bytes
  simp only [appendFetchRecord, Result.bind_eq_ok, appendProtocolRecord_writes.iff, ProtocolRecord.FitsVersion,
    fetchRecordBytes]
  by_cases hversion : version = retryProtocolVersion
  · simp only [hversion, if_true, true_imp_iff]
    cases hretry : record.retry with
    | none =>
        simp only [Result.pure_eq_ok, appendBigEndian, Option.not_mem_none, false_imp_iff, implies_true, and_true,
          and_assoc, exists_and_left, exists_eq_left, List.append_assoc]
    | some retry =>
        simp only [appendRetryMetadata_writes.iff, appendBigEndian, Option.mem_some_iff, forall_eq', and_assoc,
          exists_and_left, exists_eq_left, List.append_assoc]
  · simp only [hversion, if_false, false_imp_iff, and_true, Result.pure_eq_ok, and_assoc, exists_and_left,
      exists_eq_left, List.append_nil]

theorem appendTopicMetadata_writes :
    Writes appendTopicMetadata (fun topic => topic.topic.length ≤ maxUInt32) topicBytes := by
  intro topic output bytes
  simp only [appendTopicMetadata, Result.bind_eq_ok, Result.pure_eq_ok, appendString_ok, appendBigEndian, topicBytes,
    and_assoc, exists_and_left, exists_eq_left, List.append_assoc]

theorem appendAssignedPartition_writes :
    Writes appendAssignedPartition (fun partitionId => 0 ≤ partitionId) partitionBytes := by
  intro partitionId output bytes
  simp only [appendAssignedPartition, Result.reject_eq_ok, Result.pure_eq_ok, Int.not_lt]
  rfl

theorem appendPartitionAssignment_writes :
    Writes appendPartitionAssignment PartitionAssignment.Fits assignmentBytes := by
  intro assignment output bytes
  simp only [appendPartitionAssignment, Result.reject_eq_ok, Result.bind_eq_ok, appendString_ok,
    appendAssignedPartition_writes.many.iff, appendBigEndian, PartitionAssignment.Fits, assignmentBytes, Nat.not_lt]
  constructor
  · rintro ⟨hcount, _, ⟨htopic, rfl⟩, hpartitions, rfl⟩
    exact ⟨⟨htopic, hcount, hpartitions⟩, by simp only [List.append_assoc]⟩
  · rintro ⟨⟨htopic, hcount, hpartitions⟩, rfl⟩
    exact ⟨hcount, _, ⟨htopic, rfl⟩, hpartitions, by simp only [List.append_assoc]⟩

theorem encodeNackBody_ok {request : NackRequest} {bytes : Bytes} :
    encodeNackBody request = .ok bytes ↔
      ((RequestBody.nack request).Fits ∧ True) ∧ bytes = (RequestBody.nack request).layout :=
  @RequestBody.encode_ok (.nack request) bytes

/-- **A body is encoded to its layout, if it meets the checks of the encoder.** -/
theorem ResponseBody.encode_ok {version : UInt16} {body : ResponseBody} {bytes : Bytes} :
    body.encode version = .ok bytes ↔
      (body.Fits version ∧ body.NonNegative) ∧ bytes = body.layout version := by
  cases body with
  | produce response =>
      simp only [ResponseBody.encode, encodeProduceResponseBody, Result.reject_eq_ok, Result.pure_eq_ok,
        appendPartitionId, appendOffset, appendBigEndian, ResponseBody.Fits, ResponseBody.NonNegative,
        ResponseBody.layout, partitionBytes, offsetBytes, List.nil_append, List.append_assoc, Int.not_lt, true_and,
        and_assoc]
  | fetch response =>
      simp only [ResponseBody.encode, encodeFetchResponseBody, Result.reject_eq_ok,
        (appendFetchRecord_writes version).many.iff, appendOffset, appendBigEndian, ResponseBody.Fits,
        ResponseBody.NonNegative, ResponseBody.layout, offsetBytes, List.nil_append, List.append_assoc, Int.not_lt,
        Nat.not_lt]
      tauto
  | metadata response =>
      simp only [ResponseBody.encode, encodeMetadataResponseBody, Result.reject_eq_ok,
        appendTopicMetadata_writes.many.iff, appendBigEndian, ResponseBody.Fits, ResponseBody.NonNegative,
        ResponseBody.layout, List.nil_append, Nat.not_lt, and_true, and_assoc]
  | createTopic response =>
      simp only [ResponseBody.encode, encodeCreateTopicResponseBody, appendTopicMetadata_writes.iff,
        ResponseBody.Fits, ResponseBody.NonNegative, ResponseBody.layout, List.nil_append, and_true]
  | commitOffset response =>
      simp only [ResponseBody.encode, encodeCommitOffsetResponseBody, Result.reject_eq_ok, appendGroupOffset_ok,
        ResponseBody.Fits, ResponseBody.NonNegative, ResponseBody.layout, List.nil_append, Int.not_lt]
      tauto
  | fetchCommittedOffset response =>
      simp only [ResponseBody.encode, encodeFetchCommittedOffsetResponseBody, Result.reject_eq_ok, Result.bind_eq_ok,
        Result.pure_eq_ok, appendString_ok, appendPartitionId, appendOffset, appendBigEndian, ResponseBody.Fits,
        ResponseBody.NonNegative, ResponseBody.layout, partitionBytes, offsetBytes, List.nil_append,
        List.append_assoc, and_assoc, exists_and_left, exists_eq_left, Int.not_lt]
      tauto
  | joinGroup response =>
      simp only [ResponseBody.encode, encodeJoinGroupResponseBody, Result.bind_eq_ok, appendMember_ok,
        appendString_ok, ResponseBody.Fits, MemberFits, ResponseBody.NonNegative, ResponseBody.layout,
        List.nil_append, and_assoc, exists_and_left, exists_eq_left, true_and]
  | syncGroup response =>
      simp only [ResponseBody.encode, encodeSyncGroupResponseBody, Result.bind_eq_ok, appendMember_ok,
        appendPartitionAssignment_writes.iff, ResponseBody.Fits, MemberFits, ResponseBody.NonNegative,
        ResponseBody.layout, List.nil_append, and_assoc, exists_and_left, exists_eq_left, true_and]
  | heartbeat response =>
      simp only [ResponseBody.encode, encodeHeartbeatResponseBody, appendMember_ok, ResponseBody.Fits, MemberFits,
        ResponseBody.NonNegative, ResponseBody.layout, List.nil_append, and_true]
  | leaveGroup response =>
      simp only [ResponseBody.encode, encodeLeaveGroupResponseBody, appendMember_ok, ResponseBody.Fits, MemberFits,
        ResponseBody.NonNegative, ResponseBody.layout, List.nil_append, and_true]
  | nack response =>
      simp only [ResponseBody.encode, encodeNackResponseBody, Result.bind_eq_ok, Result.pure_eq_ok,
        encodeNackBody_ok, appendRetryMetadata_writes.iff, appendBigEndian, RequestBody.Fits, RequestBody.layout,
        ResponseBody.Fits, ResponseBody.NonNegative, ResponseBody.layout, List.append_assoc, List.length_nil,
        Nat.zero_le, and_assoc, exists_and_left, exists_eq_left, true_and]

/-! ### The decoders read the layout -/

/-- What the decoder of responses accepts as a body. -/
def ResponseBody.Decodable (version : UInt16) (body : ResponseBody) : Prop :=
  body.Fits version ∧ body.Typed ∧ body.Plain version

theorem decodeProduceResponseBody_reads (version : UInt16) :
    Reads decodeProduceResponseBody (fun response => (ResponseBody.produce response).Decodable version)
      (fun response => (ResponseBody.produce response).layout version) := by
  refine Reads.congr (ReadsGiven.reads
    (ReadsGiven.field ProduceResponse.partitionId readPartitionId_reads fun partitionId _ =>
      ReadsGiven.field ProduceResponse.baseOffset readOffset_reads fun baseOffset _ =>
      ReadsGiven.field ProduceResponse.recordCount readUInt32_reads fun recordCount _ =>
      ReadsGiven.done (fun _ => True) ?_)) ?_ ?_
  · rintro ⟨_, _, _⟩
    simp only [ProduceResponse.mk.injEq, true_and, and_true, and_assoc]
  · intro response
    simp only [ResponseBody.Decodable, ResponseBody.Fits, ResponseBody.Typed, ResponseBody.Plain, and_true, true_and]
  · intro response
    simp only [ResponseBody.layout, List.append_nil]

/-- What the decoder accepts as a fetched record. -/
def ProtocolRecord.DecodableVersion (version : UInt16) (record : ProtocolRecord) : Prop :=
  record.Fits ∧ (version = retryProtocolVersion → ∀ retry ∈ record.retry, retry.Fits ∧ retry.Typed) ∧
    (version ≠ retryProtocolVersion → record.retry = none)

theorem ProtocolRecord.decodableVersion_iff {version : UInt16} {record : ProtocolRecord} :
    record.DecodableVersion version ↔ record.FitsVersion version ∧ (∀ retry ∈ record.retry, retry.Typed) ∧
      (version ≠ retryProtocolVersion → record.retry = none) := by
  unfold ProtocolRecord.DecodableVersion ProtocolRecord.FitsVersion
  constructor
  · rintro ⟨hfits, hretry, hnone⟩
    refine ⟨⟨hfits, fun hversion retry h => (hretry hversion retry h).1⟩, ?_, hnone⟩
    intro retry h
    by_cases hversion : version = retryProtocolVersion
    · exact (hretry hversion retry h).2
    · rw [hnone hversion] at h
      cases h
  · rintro ⟨⟨hfits, hretry⟩, htyped, hnone⟩
    exact ⟨hfits, fun hversion retry h => ⟨hretry hversion retry h, htyped retry h⟩, hnone⟩

theorem decodeFetchRecord_reads (version : UInt16) :
    Reads (decodeFetchRecord version) (ProtocolRecord.DecodableVersion version) (fetchRecordBytes version) := by
  intro data record rest
  unfold decodeFetchRecord
  rw [bind_ok]
  simp only [decodeProtocolRecord_reads.iff, ProtocolRecord.DecodableVersion, fetchRecordBytes]
  by_cases hversion : version = retryProtocolVersion
  · simp only [hversion, if_true, bind_ok, require_ok, (readUInt_reads 1).iff, true_imp_iff, ne_eq, not_true_eq_false,
      false_imp_iff, and_true]
    constructor
    · rintro ⟨plain, _, ⟨⟨hfits, hplain⟩, rfl⟩, present, _, ⟨-, rfl⟩, _, _, ⟨hpresent, rfl⟩, htail⟩
      by_cases hone : present = 1
      · rw [if_pos hone] at htail
        simp only [bind_ok, pure_ok, decodeRetryMetadata_reads.iff] at htail
        obtain ⟨retry, _, ⟨hretry, rfl⟩, rfl, rfl⟩ := htail
        refine ⟨⟨hfits, ?_⟩, ?_⟩
        · intro other hother
          cases hother
          exact hretry
        · simp only [hone, wireRecordBytes, List.append_assoc]
      · rw [if_neg hone, pure_ok] at htail
        obtain ⟨rfl, rfl⟩ := htail
        have hzero : present = 0 := by omega
        refine ⟨⟨hfits, ?_⟩, ?_⟩
        · intro other hother
          rw [hplain] at hother
          cases hother
        · simp only [hplain, hzero, List.append_assoc]
    · rintro ⟨⟨hfits, hretry⟩, rfl⟩
      cases hrecord : record.retry with
      | none =>
          refine ⟨record, _, ⟨⟨hfits, hrecord⟩, by rw [List.append_assoc]⟩, 0, _, ⟨by decide, rfl⟩, (), _,
            ⟨by decide, rfl⟩, ?_⟩
          rw [if_neg (by decide), pure_ok]
          exact ⟨rfl, rfl⟩
      | some retry =>
          refine ⟨record.dropRetry, _, ⟨⟨hfits, rfl⟩, by rw [List.append_assoc]; rfl⟩, 1, _,
            ⟨by decide, by rw [List.append_assoc]⟩, (), _, ⟨by decide, rfl⟩, ?_⟩
          rw [if_pos rfl]
          simp only [bind_ok, pure_ok, decodeRetryMetadata_reads.iff]
          refine ⟨retry, rest, ⟨hretry retry hrecord, rfl⟩, ?_, rfl⟩
          rw [← hrecord]
          rfl
  · simp only [hversion, if_false, pure_ok, false_imp_iff, true_and, ne_eq, not_false_eq_true, true_imp_iff,
      List.append_nil]
    constructor
    · rintro ⟨plain, _, ⟨hplain, rfl⟩, rfl, rfl⟩
      exact ⟨hplain, rfl⟩
    · rintro ⟨hplain, rfl⟩
      exact ⟨record, rest, ⟨hplain, rfl⟩, rfl, rfl⟩

/-- A fetched record takes at least sixteen bytes. -/
theorem flatMap_fetchRecordBytes_length (version : UInt16) (records : List ProtocolRecord) :
    16 * records.length ≤ (records.flatMap (fetchRecordBytes version)).length := by
  induction records with
  | nil => exact Nat.zero_le _
  | cons record tail ih =>
      have hrecord : 16 ≤ (fetchRecordBytes version record).length := by
        simp only [fetchRecordBytes, wireRecordBytes, stringBytes, List.length_append, beBytes_length]
        omega
      rw [List.flatMap_cons, List.length_append, List.length_cons]
      omega

theorem decodeFetchResponseBody_reads (version : UInt16) :
    Reads (decodeFetchResponseBody version) (fun response => (ResponseBody.fetch response).Decodable version)
      (fun response => (ResponseBody.fetch response).layout version) := by
  refine Reads.congr (ReadsGiven.reads
    (ReadsGiven.field FetchResponse.baseOffset readOffset_reads fun baseOffset _ =>
      ReadsGiven.field FetchResponse.highWatermark readOffset_reads fun highWatermark _ =>
      ReadsGiven.field (fun response : FetchResponse => response.records.length) (readUInt_reads 4) fun count _ =>
      ReadsGiven.checkUnread
      (ReadsGiven.restate (fun response => ∀ record ∈ response.records, record.DecodableVersion version)
      (ReadsGiven.field FetchResponse.records ((decodeFetchRecord_reads version).many count) fun records hrecords =>
      ReadsGiven.done (fun _ => True) ?_) ?_) ?_)) ?_ ?_
  · rintro ⟨_, _, _⟩
    simp only [FetchResponse.mk.injEq, true_and, and_true, and_assoc]
    constructor
    · rintro ⟨hbase, hwatermark, rfl⟩
      exact ⟨hbase, hwatermark, hrecords.1, rfl⟩
    · rintro ⟨hbase, hwatermark, -, hrecords⟩
      exact ⟨hbase, hwatermark, hrecords⟩
  · rintro response ⟨-, hlength⟩
    exact ⟨fun h => h.1.2, fun h => ⟨⟨hlength, h⟩, trivial⟩⟩
  · rintro response ⟨-, rfl⟩ - rest
    have hlength := flatMap_fetchRecordBytes_length version response.records
    rw [Nat.le_div_iff_mul_le (by decide), List.append_nil, List.length_append]
    omega
  · intro response
    simp only [ResponseBody.Decodable, ResponseBody.Fits, ResponseBody.Typed, ResponseBody.Plain,
      ProtocolRecord.decodableVersion_iff, lt_256_pow_four_iff]
    constructor
    · rintro ⟨hbase, hwatermark, hcount, hall⟩
      exact ⟨⟨hcount, fun record h => (hall record h).1⟩, ⟨hbase, hwatermark, fun record h => (hall record h).2.1⟩,
        fun hversion record h => (hall record h).2.2 hversion⟩
    · rintro ⟨⟨hcount, hfits⟩, ⟨hbase, hwatermark, htyped⟩, hplain⟩
      exact ⟨hbase, hwatermark, hcount, fun record h => ⟨hfits record h, htyped record h,
        fun hversion => hplain hversion record h⟩⟩
  · intro response
    simp only [ResponseBody.layout, List.append_nil]

theorem decodeTopicMetadata_reads :
    Reads decodeTopicMetadata (fun topic => topic.topic.length ≤ maxUInt32) topicBytes := by
  refine Reads.congr (ReadsGiven.reads
    (ReadsGiven.field TopicMetadata.topic readString_reads fun topic _ =>
      ReadsGiven.field TopicMetadata.partitionCount readUInt32_reads fun partitionCount _ =>
      ReadsGiven.done (fun _ => True) ?_)) ?_ ?_
  · rintro ⟨_, _⟩
    simp only [TopicMetadata.mk.injEq, true_and, and_true]
  · intro topic
    simp only [and_true]
  · intro topic
    simp only [topicBytes, List.append_nil]

theorem decodeMetadataResponseBody_reads (version : UInt16) :
    Reads decodeMetadataResponseBody (fun response => (ResponseBody.metadata response).Decodable version)
      (fun response => (ResponseBody.metadata response).layout version) := by
  refine Reads.congr (ReadsGiven.reads
    (ReadsGiven.field (fun response : MetadataResponse => response.topics.length) (readUInt_reads 4) fun count _ =>
      ReadsGiven.restate (fun response => ∀ topic ∈ response.topics, topic.topic.length ≤ maxUInt32)
      (ReadsGiven.field MetadataResponse.topics (decodeTopicMetadata_reads.many count) fun topics htopics =>
      ReadsGiven.done (fun _ => True) ?_) ?_)) ?_ ?_
  · rintro ⟨_⟩
    simp only [MetadataResponse.mk.injEq, true_and, and_true]
    constructor
    · rintro rfl
      exact ⟨htopics.1, rfl⟩
    · exact fun h => h.2
  · rintro response ⟨-, hlength⟩
    exact ⟨fun h => h.1.2, fun h => ⟨⟨hlength, h⟩, trivial⟩⟩
  · intro response
    simp only [ResponseBody.Decodable, ResponseBody.Fits, ResponseBody.Typed, ResponseBody.Plain,
      lt_256_pow_four_iff, and_true]
  · intro response
    simp only [ResponseBody.layout, List.append_nil]

/-- A Boolean as a flag, and back. -/
theorem flag_eq_iff {flag : Bool} {value : Nat} (hvalue : value ≤ 1) :
    flag = (value == 1) ↔ (if flag then 1 else 0) = value := by
  interval_cases value <;> cases flag <;> simp

theorem flag_le_one (flag : Bool) : (if flag then 1 else 0 : Nat) ≤ 1 := by
  cases flag <;> decide

theorem decodeFetchCommittedOffsetResponseBody_reads (version : UInt16) :
    Reads decodeFetchCommittedOffsetResponseBody
      (fun response => (ResponseBody.fetchCommittedOffset response).Decodable version)
      (fun response => (ResponseBody.fetchCommittedOffset response).layout version) := by
  refine Reads.congr (ReadsGiven.reads
    (ReadsGiven.field FetchCommittedOffsetResponse.groupId readString_reads fun groupId _ =>
      ReadsGiven.field FetchCommittedOffsetResponse.topic readString_reads fun topic _ =>
      ReadsGiven.field FetchCommittedOffsetResponse.partitionId readPartitionId_reads fun partitionId _ =>
      ReadsGiven.field (fun response : FetchCommittedOffsetResponse => if response.committed then 1 else 0)
        (readUInt_reads 4) fun committed _ =>
      ReadsGiven.check (fun _ => True) ?_ fun hflag =>
      ReadsGiven.field FetchCommittedOffsetResponse.offset readOffset_reads fun offset _ =>
      ReadsGiven.done (fun _ => True) ?_)) ?_ ?_
  · rintro response ⟨-, rfl⟩
    simp only [flag_le_one]
  · rintro ⟨_, _, _, _, _⟩
    simp only [FetchCommittedOffsetResponse.mk.injEq, flag_eq_iff hflag, true_and, and_true, and_assoc]
  · intro response
    have hflag := flag_le_one response.committed
    simp only [ResponseBody.Decodable, ResponseBody.Fits, ResponseBody.Typed, ResponseBody.Plain, and_true, true_and,
      and_assoc, lt_256_pow_four_iff, show (if response.committed then 1 else 0) ≤ maxUInt32 from hflag.trans (by decide)]
  · intro response
    simp only [ResponseBody.layout, List.append_nil]

theorem decodeAssignedPartition_reads :
    Reads decodeAssignedPartition (fun partitionId => 0 ≤ partitionId ∧ IsInt32 partitionId) partitionBytes := by
  intro data partitionId rest
  simp only [decodeAssignedPartition, bind_ok, pure_ok, require_ok, readPartitionId_reads.iff]
  constructor
  · rintro ⟨_, _, ⟨htyped, rfl⟩, _, _, ⟨hnonneg, rfl⟩, rfl, rfl⟩
    exact ⟨⟨hnonneg, htyped⟩, rfl⟩
  · rintro ⟨⟨hnonneg, htyped⟩, rfl⟩
    exact ⟨partitionId, rest, ⟨htyped, rfl⟩, (), rest, ⟨hnonneg, rfl⟩, rfl, rfl⟩

theorem decodePartitionAssignment_reads :
    Reads decodePartitionAssignment (fun assignment => assignment.Fits ∧
      ∀ partition ∈ assignment.partitionIds, IsInt32 partition) assignmentBytes := by
  refine Reads.congr (ReadsGiven.reads
    (ReadsGiven.field PartitionAssignment.topic readString_reads fun topic _ =>
      ReadsGiven.field (fun assignment : PartitionAssignment => assignment.partitionIds.length) (readUInt_reads 4)
        fun count _ =>
      ReadsGiven.restate (fun assignment => ∀ partition ∈ assignment.partitionIds, 0 ≤ partition ∧ IsInt32 partition)
      (ReadsGiven.field PartitionAssignment.partitionIds (decodeAssignedPartition_reads.many count) fun partitions hpartitions =>
      ReadsGiven.done (fun _ => True) ?_) ?_)) ?_ ?_
  · rintro ⟨_, _⟩
    simp only [PartitionAssignment.mk.injEq, true_and, and_true, and_assoc]
    constructor
    · rintro ⟨htopic, rfl⟩
      exact ⟨htopic, hpartitions.1, rfl⟩
    · rintro ⟨htopic, -, hpartitions⟩
      exact ⟨htopic, hpartitions⟩
  · rintro assignment ⟨-, hlength⟩
    exact ⟨fun h => h.1.2, fun h => ⟨⟨hlength, h⟩, trivial⟩⟩
  · intro assignment
    simp only [PartitionAssignment.Fits, forall_and, lt_256_pow_four_iff, and_assoc]
  · intro assignment
    simp only [assignmentBytes, List.append_nil]

theorem decodeJoinGroupResponseBody_reads (version : UInt16) :
    Reads decodeJoinGroupResponseBody (fun response => (ResponseBody.joinGroup response).Decodable version)
      (fun response => (ResponseBody.joinGroup response).layout version) := by
  refine Reads.congr (ReadsGiven.reads
    (ReadsGiven.field JoinGroupResponse.groupId readString_reads fun groupId _ =>
      ReadsGiven.field JoinGroupResponse.memberId readString_reads fun memberId _ =>
      ReadsGiven.field JoinGroupResponse.generationId readGenerationId_reads fun generationId _ =>
      ReadsGiven.field JoinGroupResponse.leaderId readString_reads fun leaderId _ =>
      ReadsGiven.done (fun _ => True) ?_)) ?_ ?_
  · rintro ⟨_, _, _, _⟩
    simp only [JoinGroupResponse.mk.injEq, true_and, and_true, and_assoc]
  · intro response
    simp only [ResponseBody.Decodable, ResponseBody.Fits, MemberFits, ResponseBody.Typed, ResponseBody.Plain]
    tauto
  · intro response
    simp only [ResponseBody.layout, memberBytes, List.append_nil, List.append_assoc]

theorem decodeSyncGroupResponseBody_reads (version : UInt16) :
    Reads decodeSyncGroupResponseBody (fun response => (ResponseBody.syncGroup response).Decodable version)
      (fun response => (ResponseBody.syncGroup response).layout version) := by
  refine Reads.congr (ReadsGiven.reads
    (ReadsGiven.field SyncGroupResponse.groupId readString_reads fun groupId _ =>
      ReadsGiven.field SyncGroupResponse.memberId readString_reads fun memberId _ =>
      ReadsGiven.field SyncGroupResponse.generationId readGenerationId_reads fun generationId _ =>
      ReadsGiven.field SyncGroupResponse.assignment decodePartitionAssignment_reads fun assignment _ =>
      ReadsGiven.done (fun _ => True) ?_)) ?_ ?_
  · rintro ⟨_, _, _, _⟩
    simp only [SyncGroupResponse.mk.injEq, true_and, and_true, and_assoc]
  · intro response
    simp only [ResponseBody.Decodable, ResponseBody.Fits, MemberFits, ResponseBody.Typed, ResponseBody.Plain]
    tauto
  · intro response
    simp only [ResponseBody.layout, memberBytes, List.append_nil, List.append_assoc]

theorem readMemberResponse_reads :
    Reads readMemberResponse (fun response =>
      MemberFits response.groupId response.memberId response.generationId ∧ IsInt32 response.generationId)
      (fun response => memberBytes response.groupId response.memberId response.generationId) := by
  refine Reads.congr (ReadsGiven.reads
    (ReadsGiven.field MemberResponse.groupId readString_reads fun groupId _ =>
      ReadsGiven.field MemberResponse.memberId readString_reads fun memberId _ =>
      ReadsGiven.field MemberResponse.generationId readGenerationId_reads fun generationId _ =>
      ReadsGiven.done (fun _ => True) ?_)) ?_ ?_
  · rintro ⟨_, _, _⟩
    simp only [MemberResponse.mk.injEq, true_and, and_true, and_assoc]
  · intro response
    simp only [MemberFits, and_true, and_assoc]
  · intro response
    simp only [memberBytes, List.append_nil]

theorem decodeNackResponseBody_reads (version : UInt16) :
    Reads decodeNackResponseBody (fun response => (ResponseBody.nack response).Decodable version)
      (fun response => (ResponseBody.nack response).layout version) := by
  refine Reads.congr (ReadsGiven.reads
    (ReadsGiven.field NackResponse.topic readString_reads fun topic _ =>
      ReadsGiven.field NackResponse.partitionId readPartitionId_reads fun partitionId _ =>
      ReadsGiven.field (fun response : NackResponse => offsetToUInt64 response.offset) (readUInt_reads 8)
        fun offset hoffset =>
      ReadsGiven.field (fun _ : NackResponse => ([] : Bytes)) readString_reads fun reason _ =>
      ReadsGiven.field NackResponse.retry decodeRetryMetadata_reads fun retry _ =>
      ReadsGiven.field (fun response : NackResponse => if response.deadLetter then 1 else 0) (readUInt_reads 1)
        fun deadLetter _ =>
      ReadsGiven.check (fun response : NackResponse => ¬ (response.topic = [] ∨ response.partitionId < 0 ∨
        (offsetToUInt64 response.offset : Int) > maxOffset)) ?_ fun hflag =>
      ReadsGiven.done (fun response : NackResponse => IsInt64 response.offset) ?_)) ?_ ?_
  · rintro response ⟨⟨⟨⟨⟨⟨-, rfl⟩, rfl⟩, rfl⟩, rfl⟩, rfl⟩, rfl⟩
    have hflag := flag_le_one response.deadLetter
    simp only [ne_eq, not_true_eq_false, gt_iff_lt, Nat.not_lt.mpr hflag, or_false]
  · rintro ⟨_, _, _, _, _⟩
    simp only [not_or, not_not, Nat.not_lt, gt_iff_lt] at hflag
    simp only [NackResponse.mk.injEq, flag_eq_iff hflag.2.2.2.2, offset_eq_cast_iff hoffset, hflag.2.2.2.1, true_and,
      and_true, and_assoc]
    tauto
  · intro response
    have hflag : (if response.deadLetter then 1 else 0) < 256 ^ 1 :=
      (flag_le_one response.deadLetter).trans_lt (by decide)
    simp only [ResponseBody.Decodable, ResponseBody.Fits, ResponseBody.Typed, ResponseBody.Plain, not_or, Int.not_lt,
      gt_iff_lt, and_true, offsetToUInt64_lt, true_and, hflag, List.length_nil, Nat.zero_le]
    constructor
    · rintro ⟨htopic, hpartition, hretry, ⟨hname, hnonneg, hmax⟩, hoffset⟩
      exact ⟨⟨htopic, hname, hnonneg, (offsetToUInt64_le_max_iff hoffset).mp hmax, hretry.1⟩, hpartition, hoffset,
        hretry.2⟩
    · rintro ⟨⟨htopic, hname, hnonneg, hmax, hretry⟩, hpartition, hoffset, htyped⟩
      exact ⟨htopic, hpartition, ⟨hretry, htyped⟩, ⟨hname, hnonneg, (offsetToUInt64_le_max_iff hoffset).mpr hmax⟩,
        hoffset⟩
  · intro response
    simp only [ResponseBody.layout, offsetBytes, List.append_nil]

end LogMq
