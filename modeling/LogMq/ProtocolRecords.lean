import LogMq.ProtocolWire

/-! Records on the wire and the retry metadata that may follow one. -/

namespace LogMq

open BigEndian ByteCodec

/-! ### Records -/

def wireRecordBytes (record : ProtocolRecord) : Bytes :=
  beBytes 8 record.timestamp.toNat ++ (stringBytes record.key ++ stringBytes record.value)

/-- The strings of the record have lengths of 32 bits. -/
def ProtocolRecord.Fits (record : ProtocolRecord) : Prop :=
  record.key.length ≤ maxUInt32 ∧ record.value.length ≤ maxUInt32

def appendProtocolRecord (record : ProtocolRecord) (body : Bytes) : Result Bytes := do
  let body := appendBigEndian 8 record.timestamp.toNat body
  let body ← appendString record.key body
  appendString record.value body

def decodeProtocolRecord : BodyReader ProtocolRecord := do
  let timestamp ← readUInt64
  let key ← readString
  let value ← readString
  return { timestamp := timestamp, key := key, value := value }

theorem appendProtocolRecord_writes : Writes appendProtocolRecord ProtocolRecord.Fits wireRecordBytes := by
  intro record output bytes
  simp only [appendProtocolRecord, Result.bind_eq_ok, appendString_ok, appendBigEndian, wireRecordBytes,
    ProtocolRecord.Fits]
  constructor
  · rintro ⟨_, ⟨hkey, rfl⟩, hvalue, rfl⟩
    exact ⟨⟨hkey, hvalue⟩, by simp only [List.append_assoc]⟩
  · rintro ⟨⟨hkey, hvalue⟩, rfl⟩
    exact ⟨_, ⟨hkey, rfl⟩, hvalue, by simp only [List.append_assoc]⟩

theorem decodeProtocolRecord_reads :
    Reads decodeProtocolRecord (fun record => record.Fits ∧ record.retry = none) wireRecordBytes := by
  refine Reads.congr (ReadsGiven.reads
    (ReadsGiven.field ProtocolRecord.timestamp readUInt64_reads fun timestamp _ =>
      ReadsGiven.field ProtocolRecord.key readString_reads fun key _ =>
      ReadsGiven.field ProtocolRecord.value readString_reads fun value _ =>
      ReadsGiven.done (fun record : ProtocolRecord => record.retry = none) ?_)) ?_ ?_
  · rintro ⟨_, _, _, _⟩
    simp only [ProtocolRecord.mk.injEq, true_and, and_assoc]
  · intro record
    simp only [ProtocolRecord.Fits, true_and, and_assoc]
  · intro record
    simp only [wireRecordBytes, List.append_nil]

/-! ### Retry metadata -/

def retryBytes (retry : RetryMetadata) : Bytes :=
  beBytes 4 retry.retryCount.toNat ++ (beBytes 8 retry.nextVisibleTime.toNat ++
    (stringBytes retry.originalTopic ++ (stringBytes retry.failureReason ++
      (partitionBytes retry.originalPartition ++ offsetBytes retry.originalOffset))))

/-- What `AppendRetryMetadata` and `DecodeRetryMetadata` both require. -/
def RetryMetadata.Valid (retry : RetryMetadata) : Prop :=
  retry.retryCount ≠ 0 ∧ retry.originalTopic ≠ [] ∧ 0 ≤ retry.originalPartition ∧ 0 ≤ retry.originalOffset

/-- Valid metadata whose strings have lengths of 32 bits. -/
def RetryMetadata.Fits (retry : RetryMetadata) : Prop :=
  retry.Valid ∧ retry.originalTopic.length ≤ maxUInt32 ∧ retry.failureReason.length ≤ maxUInt32

def appendRetryMetadata (retry : RetryMetadata) (body : Bytes) : Result Bytes :=
  if retry.retryCount = 0 ∨ retry.originalTopic = [] ∨ retry.originalPartition < 0 ∨ retry.originalOffset < 0 then
    throw (.invalidArgument "invalid retry metadata")
  else do
    let body := appendBigEndian 4 retry.retryCount.toNat body
    let body := appendBigEndian 8 retry.nextVisibleTime.toNat body
    let body ← appendString retry.originalTopic body
    let body ← appendString retry.failureReason body
    let body := appendPartitionId retry.originalPartition body
    return appendOffset retry.originalOffset body

def decodeRetryMetadata : BodyReader RetryMetadata := do
  let count ← readUInt32
  let time ← readUInt64
  let topic ← readString
  let reason ← readString
  let partition ← readPartitionId
  let offset ← readUInt 8
  require (¬ (count = 0 ∨ topic = [] ∨ partition < 0 ∨ (offset : Int) > maxOffset))
    (.invalidArgument "invalid retry metadata")
  return ⟨count, time, topic, reason, partition, offsetOfUInt64 offset⟩

theorem appendRetryMetadata_writes : Writes appendRetryMetadata RetryMetadata.Fits retryBytes := by
  intro retry output bytes
  simp only [appendRetryMetadata, Result.reject_eq_ok, Result.bind_eq_ok, Result.pure_eq_ok, appendString_ok,
    appendBigEndian, appendPartitionId, appendOffset, retryBytes, partitionBytes, offsetBytes,
    RetryMetadata.Fits, RetryMetadata.Valid, not_or, Int.not_lt]
  constructor
  · rintro ⟨hvalid, _, ⟨htopic, rfl⟩, _, ⟨hreason, rfl⟩, rfl⟩
    exact ⟨⟨hvalid, htopic, hreason⟩, by simp only [List.append_assoc]⟩
  · rintro ⟨⟨hvalid, htopic, hreason⟩, rfl⟩
    exact ⟨hvalid, _, ⟨htopic, rfl⟩, _, ⟨hreason, rfl⟩, by simp only [List.append_assoc]⟩

/-- An offset as its unsigned cast, and back. -/
theorem offset_eq_cast_iff {offset : Int} {value : Nat} (hvalue : value < 256 ^ 8) :
    offset = offsetOfUInt64 value ↔ offsetToUInt64 offset = value ∧ IsInt64 offset := by
  constructor
  · rintro rfl
    exact ⟨offsetToUInt64_offsetOfUInt64 hvalue, isInt64_offsetOfUInt64 hvalue⟩
  · rintro ⟨rfl, htyped⟩
    exact (offsetOfUInt64_offsetToUInt64 htyped).symm

/-- The decoders' test on the unsigned cast is a test of the sign. -/
theorem offsetToUInt64_le_max_iff {offset : Int} (htyped : IsInt64 offset) :
    (offsetToUInt64 offset : Int) ≤ maxOffset ↔ 0 ≤ offset := by
  unfold IsInt64 at htyped
  unfold offsetToUInt64 maxOffset
  omega

theorem decodeRetryMetadata_reads :
    Reads decodeRetryMetadata (fun retry => retry.Fits ∧ retry.Typed) retryBytes := by
  refine Reads.congr (ReadsGiven.reads
    (ReadsGiven.field RetryMetadata.retryCount readUInt32_reads fun count _ =>
      ReadsGiven.field RetryMetadata.nextVisibleTime readUInt64_reads fun time _ =>
      ReadsGiven.field RetryMetadata.originalTopic readString_reads fun topic _ =>
      ReadsGiven.field RetryMetadata.failureReason readString_reads fun reason _ =>
      ReadsGiven.field RetryMetadata.originalPartition readPartitionId_reads fun partition _ =>
      ReadsGiven.field (fun retry : RetryMetadata => offsetToUInt64 retry.originalOffset) (readUInt_reads 8)
        fun offset hoffset =>
      ReadsGiven.check (fun retry : RetryMetadata => ¬ (retry.retryCount = 0 ∨ retry.originalTopic = [] ∨
        retry.originalPartition < 0 ∨ (offsetToUInt64 retry.originalOffset : Int) > maxOffset)) ?_
      fun _ => ReadsGiven.done (fun retry : RetryMetadata => IsInt64 retry.originalOffset) ?_)) ?_ ?_
  · rintro retry ⟨⟨⟨⟨⟨⟨-, rfl⟩, rfl⟩, rfl⟩, rfl⟩, rfl⟩, rfl⟩
    exact Iff.rfl
  · rintro ⟨_, _, _, _, _, _⟩
    simp only [RetryMetadata.mk.injEq, true_and, and_assoc, offset_eq_cast_iff hoffset]
  · intro retry
    simp only [RetryMetadata.Fits, RetryMetadata.Valid, RetryMetadata.Typed, not_or, Int.not_lt, gt_iff_lt, true_and,
      offsetToUInt64_lt]
    constructor
    · rintro ⟨htopic, hreason, hpartition, ⟨hcount, hname, hnonneg, hmax⟩, hoffset⟩
      exact ⟨⟨⟨hcount, hname, hnonneg, (offsetToUInt64_le_max_iff hoffset).mp hmax⟩, htopic, hreason⟩, hpartition,
        hoffset⟩
    · rintro ⟨⟨⟨hcount, hname, hnonneg, hmax⟩, htopic, hreason⟩, hpartition, hoffset⟩
      exact ⟨htopic, hreason, hpartition, ⟨hcount, hname, hnonneg, (offsetToUInt64_le_max_iff hoffset).mpr hmax⟩,
        hoffset⟩
  · intro retry
    simp only [retryBytes, offsetBytes, List.append_nil]

end LogMq
