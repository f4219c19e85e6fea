import LogMq.StorageRecordBatch

/-! Well-formed batches and their bytes: `MakeRecordBatch` builds only well-formed batches,
`EncodeRecordBatch` writes the bytes of a well-formed batch, and `DecodeRecordBatch` finds the batch at
the front of any string that starts with them. -/

namespace LogMq

open LittleEndian

namespace RecordBatch

/-- A batch as `MakeRecordBatch` builds it. -/
structure Valid (batch : RecordBatch) : Prop where
  base_nonneg : 0 ≤ batch.baseOffset
  base_le : batch.baseOffset ≤ maxOffset
  nonempty : batch.records ≠ []
  count_eq : batch.recordCount = batch.records.length
  fits : ∀ record ∈ batch.records, record.Fits
  sealed : batch.records.map Record.sealed = batch.records
  payload_le : (payloadOf batch.records).length ≤ vectorMaxBytes
  size_eq : batch.batchBytes = recordBatchHeaderBytes + (payloadOf batch.records).length
  crc_eq : batch.batchCrc32 = crc32 (payloadOf batch.records)

/-- The bytes of a batch, as its own fields describe them. -/
def bytes (batch : RecordBatch) : Bytes :=
  headerBytes recordBatchMagic (offsetToUInt64 batch.baseOffset) batch.recordCount batch.batchBytes
    batch.batchCrc32.toNat ++ payloadOf batch.records

/-- The first offset behind a batch. -/
def endOffset (batch : RecordBatch) : Int := batch.baseOffset + batch.recordCount

namespace Valid

variable {batch : RecordBatch} (h : batch.Valid)

include h

theorem count_pos : 0 < batch.recordCount := by
  rw [h.count_eq]
  exact List.length_pos_iff.mpr h.nonempty

theorem header_le : recordBatchHeaderBytes ≤ batch.batchBytes := by
  rw [h.size_eq]
  exact Nat.le_add_right _ _

theorem size_pos : 0 < batch.batchBytes :=
  Nat.lt_of_lt_of_le (by decide) h.header_le

theorem size_lt : batch.batchBytes < 256 ^ 8 := by
  have hle := h.payload_le
  rw [h.size_eq]
  unfold vectorMaxBytes at hle
  unfold recordBatchHeaderBytes
  omega

theorem count_le : recordHeaderBytes * batch.recordCount ≤ (payloadOf batch.records).length := by
  rw [h.count_eq]
  exact length_le_payloadOf_length _

theorem count_lt : batch.recordCount < 256 ^ 8 := by
  have hle := h.payload_le
  have hcount := h.count_le
  unfold vectorMaxBytes at hle
  unfold recordHeaderBytes at hcount
  omega

theorem length_bytes : batch.bytes.length = batch.batchBytes := by
  rw [bytes, List.length_append, headerBytes_length, h.size_eq]

theorem lt_endOffset : batch.baseOffset < batch.endOffset := by
  have hpos := h.count_pos
  unfold endOffset
  omega

/-- The decoder finds a well-formed batch behind a header that carries any base offset. -/
theorem decodes_base {base : Nat} (hbase : base < 256 ^ 8) (rest : Bytes) :
    Decodes (headerBytes recordBatchMagic base batch.recordCount batch.batchBytes
      batch.batchCrc32.toNat ++ (payloadOf batch.records ++ rest))
      { batch with baseOffset := offsetOfUInt64 base } := by
  have hsize := @headerBytes_size recordBatchMagic base batch.recordCount _ batch.batchCrc32.toNat
    (payloadOf batch.records ++ rest) h.size_lt
  have hpayload : payloadAt (headerBytes recordBatchMagic base batch.recordCount batch.batchBytes
      batch.batchCrc32.toNat ++ (payloadOf batch.records ++ rest)) = payloadOf batch.records := by
    rw [payloadAt, hsize, h.size_eq, Nat.add_sub_cancel_left, List.drop_left' headerBytes_length,
      List.take_left]
  have hlength : batch.batchBytes ≤ (headerBytes recordBatchMagic base batch.recordCount
      batch.batchBytes batch.batchCrc32.toNat ++ (payloadOf batch.records ++ rest)).length := by
    rw [List.length_append, headerBytes_length, List.length_append, h.size_eq]
    omega
  refine ⟨h.header_le.trans hlength, headerBytes_magic _ (by decide), hsize, h.header_le, hlength, ?_, ?_,
    headerBytes_count _ h.count_lt, h.count_pos.ne', ?_, ?_, ?_⟩
  · rw [headerBytes_crc _ batch.batchCrc32.toNat_lt, UInt32.ofNat_toNat]
  · rw [hpayload]
    exact h.crc_eq.symm
  · rw [hpayload, Nat.le_div_iff_mul_le (by decide), Nat.mul_comm]
    exact h.count_le
  · have hrecords := decodeRecords_payloadOf h.fits [] [] []
    rw [hpayload, h.count_eq]
    simpa only [List.nil_append, List.append_nil, List.length_nil, Nat.zero_add, h.sealed] using hrecords
  · rw [headerBytes_base _ hbase]

/-- Decoding undoes encoding, whatever follows. -/
theorem decodes (rest : Bytes) : Decodes (batch.bytes ++ rest) batch := by
  have hdecodes := h.decodes_base (offsetToUInt64_lt batch.baseOffset) rest
  rw [offsetOfUInt64_toUInt64 h.base_nonneg h.base_le] at hdecodes
  rw [bytes, List.append_assoc]
  exact hdecodes

theorem peekRecordBatchBytes (rest : Bytes) :
    peekRecordBatchBytes (batch.bytes ++ rest) = .ok batch.batchBytes :=
  let d := h.decodes rest
  peekRecordBatchBytes_eq_ok.mpr ⟨d.header, d.magic, d.header_le, d.size⟩

theorem encodeRecordBatch : encodeRecordBatch batch = .ok batch.bytes := by
  have hpayload : encodeRecordsPayload batch.records = .ok (payloadOf batch.records) :=
    encodeRecordsPayload_eq_ok.mpr ⟨h.fits, h.payload_le, rfl⟩
  have hcount : ¬batch.records.length > maxSize := by
    have hlt := h.count_lt
    rw [h.count_eq] at hlt
    unfold maxSize
    omega
  rw [LogMq.encodeRecordBatch, if_neg (Int.not_lt.mpr h.base_nonneg),
    if_neg (by rw [List.isEmpty_iff]; exact h.nonempty), if_neg hcount, hpayload, bytes, h.count_eq,
    h.size_eq, h.crc_eq]
  rfl

end Valid

end RecordBatch

/-- What `MakeRecordBatch` returns, and that it is well formed. -/
theorem makeRecordBatch_eq_ok {baseOffset : Int} {records : List Record} {batch : RecordBatch}
    (h : makeRecordBatch baseOffset records = .ok batch) :
    (baseOffset ≤ maxOffset → batch.Valid) ∧ batch.baseOffset = baseOffset ∧ batch.recordCount = records.length ∧
      batch.records = records.map Record.sealed := by
  unfold makeRecordBatch at h
  split_ifs at h with hneg hempty hmany
  obtain ⟨payload, hpayload, h⟩ := Result.bind_eq_ok.mp h
  obtain ⟨hfits, hsize, rfl⟩ := encodeRecordsPayload_eq_ok.mp hpayload
  cases h
  refine ⟨fun hbase => ⟨Int.not_lt.mp hneg, hbase, ?_, rfl, hfits, ?_, hsize, rfl, rfl⟩, rfl,
    List.length_map _, rfl⟩
  · intro hnil
    exact hempty (List.isEmpty_iff.mpr (List.map_eq_nil_iff.mp hnil))
  · rw [List.map_map]
    rfl

/-- Records that can be encoded make a batch. -/
theorem exists_makeRecordBatch {baseOffset : Int} {records : List Record} (hbase : 0 ≤ baseOffset)
    (hempty : records ≠ []) (hfits : ∀ record ∈ records, record.Fits)
    (hsize : (payloadOf records).length ≤ vectorMaxBytes) :
    ∃ batch, makeRecordBatch baseOffset records = .ok batch := by
  have hcount := length_le_payloadOf_length records
  have hmany : records.length ≤ maxSize := by
    unfold vectorMaxBytes at hsize
    unfold recordHeaderBytes at hcount
    unfold maxSize
    omega
  have hpayload : encodeRecordsPayload (records.map Record.sealed) = .ok (payloadOf records) := by
    refine encodeRecordsPayload_eq_ok.mpr ⟨?_, ?_, (payloadOf_sealed records).symm⟩
    · intro record hmem
      obtain ⟨source, hsource, rfl⟩ := List.mem_map.mp hmem
      exact hfits source hsource
    · rw [payloadOf_sealed]
      exact hsize
  rw [makeRecordBatch, if_neg (not_lt.mpr hbase), if_neg (fun h => hempty (List.isEmpty_iff.mp h)),
    if_neg (not_lt.mpr hmany)]
  dsimp only
  rw [hpayload]
  exact ⟨_, rfl⟩

end LogMq
