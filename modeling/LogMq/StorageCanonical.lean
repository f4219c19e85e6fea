import LogMq.StorageBatchCodec

/-! The batch codec in both directions. What `EncodeRecordBatch` writes is read back by
`DecodeRecordBatch`, whatever follows it, and what `DecodeRecordBatch` accepts is spelled in one way: it
is what `EncodeRecordBatch` writes for the batch it returns. The one field the decoder does not check is
the sign of the base offset, which the payload checksum does not cover either. -/

namespace LogMq

open LittleEndian

/-! ### Records -/

/-- A record is accepted in one spelling. -/
theorem decodeRecord_canonical {data : Bytes} {decoded : DecodedRecord} (h : decodeRecord data = .ok decoded) :
    decoded.record.Fits ∧ decoded.record.sealed = decoded.record ∧
      data.take decoded.bytesConsumed = recordBytes decoded.record := by
  have hheader : 20 ≤ data.length := decodeRecord_header h
  rw [decodeRecord_of_header hheader] at h
  split_ifs at h with hsize hcrc
  cases h
  have hroom : recordHeaderBytes + (leField data keyOffset 4 + leField data valueOffset 4) ≤ data.length := by
    unfold recordHeaderBytes at hsize ⊢
    omega
  have hkeyLt := leField_lt data keyOffset 4
  have hvalueLt := leField_lt data valueOffset 4
  have hkey : (recordAt data).key.length = leField data keyOffset 4 := by
    rw [recordAt, List.length_take, List.length_drop]
    omega
  have hvalue : (recordAt data).value.length = leField data valueOffset 4 := by
    rw [recordAt, List.length_take, List.length_drop]
    omega
  have htime : (recordAt data).timestamp.toNat = leField data timestampOffset 8 :=
    UInt64.toNat_ofNat_of_lt' (leField_lt data timestampOffset 8)
  have hstored : (computeRecordCrc (recordAt data)).toNat = leField data crcOffset 4 := by
    rw [not_not.mp hcrc]
    exact UInt32.toNat_ofNat_of_lt' (leField_lt data crcOffset 4)
  refine ⟨⟨?_, ?_⟩, ?_, ?_⟩
  · rw [hkey]
    exact Nat.le_sub_one_of_lt hkeyLt
  · rw [hvalue]
    exact Nat.le_sub_one_of_lt hvalueLt
  · rw [Record.sealed, not_not.mp hcrc]
  · rw [recordBytes, htime, hkey, hvalue, hstored, leBytes_leField (by unfold timestampOffset; omega),
      leBytes_leField (by unfold keyOffset timestampOffset; omega),
      leBytes_leField (by unfold valueOffset keyOffset timestampOffset; omega),
      leBytes_leField (by unfold crcOffset valueOffset keyOffset timestampOffset; omega)]
    change data.take (8 + (4 + (4 + 4)) + _) = _
    rw [recordAt]
    simp only [List.take_add, List.drop_drop, List.append_assoc]
    rfl

/-- The record loop accepts the encodings of the records it finds, and no other bytes. -/
theorem decodeRecords_canonical {payload : Bytes} {count consumed : Nat} {decoded : List Record}
    {found : List Record × Nat} (hle : consumed ≤ payload.length)
    (h : decodeRecords payload count consumed decoded = .ok found) :
    ∃ records, found.1 = decoded ++ records ∧ records.length = count ∧ (∀ record ∈ records, record.Fits) ∧
      records.map Record.sealed = records ∧ payload.take found.2 = payload.take consumed ++ payloadOf records := by
  induction count generalizing consumed decoded with
  | zero =>
      cases h
      exact ⟨[], (List.append_nil _).symm, rfl, List.forall_mem_nil _, rfl, (List.append_nil _).symm⟩
  | succ count ih =>
      obtain ⟨next, hrecord, hrest⟩ := Result.bind_eq_ok.mp h
      obtain ⟨hfits, hsealed, hbytes⟩ := decodeRecord_canonical hrecord
      have hconsumed := (decodeRecord_consumed hrecord).2
      rw [List.length_drop] at hconsumed
      obtain ⟨records, hfound, hlength, hall, hmap, htake⟩ := ih (by omega) hrest
      refine ⟨next.record :: records, ?_, ?_, ?_, ?_, ?_⟩
      · rw [hfound, List.append_assoc, List.singleton_append]
      · rw [List.length_cons, hlength]
      · exact List.forall_mem_cons.mpr ⟨hfits, hall⟩
      · rw [List.map_cons, hsealed, hmap]
      · rw [htake, List.take_add, hbytes, payloadOf_cons, List.append_assoc]

/-! ### Batches -/

theorem offsetOfUInt64_le (value : Nat) (h : value < 256 ^ 8) : offsetOfUInt64 value ≤ maxOffset := by
  unfold offsetOfUInt64 maxOffset
  split_ifs <;> omega

/-- The sign of an offset is the top bit of its 64 bits. -/
theorem offsetOfUInt64_nonneg_iff {value : Nat} (h : value < 256 ^ 8) :
    0 ≤ offsetOfUInt64 value ↔ (value : Int) ≤ maxOffset := by
  unfold offsetOfUInt64 maxOffset
  split_ifs <;> omega

theorem offsetToUInt64_ofUInt64 {value : Nat} (h : value < 256 ^ 8) :
    offsetToUInt64 (offsetOfUInt64 value) = value := by
  unfold offsetOfUInt64 offsetToUInt64
  split_ifs <;> omega

namespace Decodes

variable {data : Bytes} {batch : RecordBatch} (h : Decodes data batch)

include h

theorem payload_length : (payloadAt data).length = batch.batchBytes - recordBatchHeaderBytes := by
  have hcomplete := h.complete
  have hsize := h.size
  rw [payloadAt, List.length_take, List.length_drop]
  omega

/-- The records found behind the header are the payload, and nothing else is. -/
theorem payload_eq : batch.records.length = batch.recordCount ∧ (∀ record ∈ batch.records, record.Fits) ∧
    batch.records.map Record.sealed = batch.records ∧ payloadOf batch.records = payloadAt data := by
  obtain ⟨records, hfound, hlength, hfits, hsealed, hbytes⟩ :=
    decodeRecords_canonical (Nat.zero_le _) h.records
  dsimp only at hfound hbytes
  rw [List.nil_append] at hfound
  rw [List.take_of_length_le (le_refl _), List.take_zero, List.nil_append] at hbytes
  subst hfound
  exact ⟨hlength, hfits, hsealed, hbytes.symm⟩

/-- The header is written back from the fields that were read. -/
theorem header_eq : headerBytes recordBatchMagic (offsetToUInt64 batch.baseOffset) batch.recordCount
    batch.batchBytes batch.batchCrc32.toNat = data.take recordBatchHeaderBytes := by
  have h32 : 32 ≤ data.length := h.header
  have hcrc : batch.batchCrc32.toNat = leField data (4 + 8 + 8 + 8) 4 := by
    rw [← h.crc]
    exact UInt32.toNat_ofNat_of_lt' (leField_lt _ _ _)
  rw [headerBytes, ← h.base, offsetToUInt64_ofUInt64 (leField_lt _ _ _), ← h.magic, ← h.count, ← h.size, hcrc,
    leBytes_leField (by omega), leBytes_leField (by omega), leBytes_leField (by omega),
    leBytes_leField (by omega), leBytes_leField (by omega)]
  change _ = data.take (4 + (8 + (8 + (8 + 4))))
  rw [List.take_add, List.take_add, List.take_add, List.take_add]
  simp only [List.drop_drop, Nat.reduceAdd, List.drop_zero]

/-- A batch is accepted in one spelling. -/
theorem bytes_eq : batch.bytes = data.take batch.batchBytes := by
  have hle := h.header_le
  have hsplit : batch.batchBytes = recordBatchHeaderBytes + (batch.batchBytes - recordBatchHeaderBytes) := by omega
  rw [RecordBatch.bytes, h.header_eq, h.payload_eq.2.2.2, hsplit, List.take_add, payloadAt, h.size]

/-- Apart from the sign of its base offset a decoded batch is well formed. -/
theorem valid (hbase : 0 ≤ batch.baseOffset) (hmemory : data.length ≤ vectorMaxBytes) : batch.Valid := by
  obtain ⟨hlength, hfits, hsealed, hpayload⟩ := h.payload_eq
  have hcomplete := h.complete
  have hle := h.header_le
  refine ⟨hbase, ?_, ?_, hlength.symm, hfits, hsealed, ?_, ?_, ?_⟩
  · rw [← h.base]
    exact offsetOfUInt64_le _ (leField_lt _ _ _)
  · intro hnil
    rw [hnil] at hlength
    exact h.count_pos hlength.symm
  · rw [hpayload, h.payload_length]
    omega
  · rw [hpayload, h.payload_length]
    omega
  · rw [hpayload, h.checksum]

end Decodes

/-! ### Encoding and decoding -/

/-- **Round trip.** A batch that `MakeRecordBatch` builds is written with the size and the checksum it
carries, and is found again at the front of any string that starts with its encoding. -/
theorem recordBatch_round_trip {baseOffset : Int} {records : List Record} (hbase : 0 ≤ baseOffset)
    (hmax : baseOffset ≤ maxOffset) (hempty : records ≠ [])
    (hfields : ∀ record ∈ records, record.key.length < 2 ^ 32 ∧ record.value.length < 2 ^ 32)
    (hmemory : recordBatchHeaderBytes + (records.map encodedRecordSize).sum ≤ vectorMaxBytes) :
    ∃ batch encoding, makeRecordBatch baseOffset records = .ok batch ∧ encodeRecordBatch batch = .ok encoding ∧
      batch.batchBytes = encoding.length ∧ leField encoding (4 + 8 + 8 + 8) 4 = batch.batchCrc32.toNat ∧
      peekRecordBatchBytes encoding = .ok encoding.length ∧
      (∀ rest, decodeRecordBatch (encoding ++ rest) = .ok batch) ∧ batch.baseOffset = baseOffset ∧
      batch.recordCount = records.length ∧
      batch.records = records.map fun record => { record with crc32 := computeRecordCrc record } := by
  have hsize : (payloadOf records).length = (records.map encodedRecordSize).sum := by
    rw [payloadOf, List.length_flatMap]
    simp only [recordBytes_length]
  have hfits : ∀ record ∈ records, record.Fits := by
    intro record hmem
    obtain ⟨hkey, hvalue⟩ := hfields record hmem
    exact ⟨Nat.le_sub_one_of_lt hkey, Nat.le_sub_one_of_lt hvalue⟩
  obtain ⟨batch, hbatch⟩ := exists_makeRecordBatch hbase hempty hfits (by omega)
  obtain ⟨hvalid, hbaseEq, hcount, hrecords⟩ := makeRecordBatch_eq_ok hbatch
  have hwell := hvalid hmax
  have hpeek := hwell.peekRecordBatchBytes []
  rw [List.append_nil, ← hwell.length_bytes] at hpeek
  refine ⟨batch, batch.bytes, hbatch, hwell.encodeRecordBatch, hwell.length_bytes.symm, ?_, hpeek, ?_, hbaseEq,
    hcount, hrecords⟩
  · exact headerBytes_crc _ batch.batchCrc32.toNat_lt
  · intro rest
    exact decodeRecordBatch_eq_ok.mpr (hwell.decodes rest)

/-- Two records at offset 42. -/
theorem recordBatch_round_trip_two :
    ∃ batch encoding, makeRecordBatch 42 [{ timestamp := 7, key := [107], value := [118] }, { timestamp := 8 }] =
        .ok batch ∧ encodeRecordBatch batch = .ok encoding ∧ batch.batchBytes = encoding.length ∧
      leField encoding (4 + 8 + 8 + 8) 4 = batch.batchCrc32.toNat ∧
      peekRecordBatchBytes encoding = .ok encoding.length ∧
      (∀ rest, decodeRecordBatch (encoding ++ rest) = .ok batch) ∧ batch.baseOffset = 42 ∧
      batch.recordCount = 2 ∧
      batch.records = [{ timestamp := 7, key := [107], value := [118] }, { timestamp := 8 }].map
        fun record : Record => { record with crc32 := computeRecordCrc record } :=
  @recordBatch_round_trip 42 [{ timestamp := 7, key := [107], value := [118] }, { timestamp := 8 }]
    (by decide) (by decide) (by decide) (by decide) (by decide)

/-- **One spelling.** What the decoder accepts is what the encoder writes for the batch it returns,
exactly when the top bit of the base offset field is clear. -/
theorem decodeRecordBatch_canonical_iff {data : Bytes} {batch : RecordBatch}
    (hmemory : data.length ≤ vectorMaxBytes) (hdecode : decodeRecordBatch data = .ok batch) :
    (0 ≤ batch.baseOffset ∧ batch.records.length = batch.recordCount ∧ 1 ≤ batch.recordCount ∧
      encodeRecordBatch batch = .ok (data.take batch.batchBytes)) ↔ leField data 4 8 < 2 ^ 63 := by
  have h := decodeRecordBatch_eq_ok.mp hdecode
  have hsign : 0 ≤ batch.baseOffset ↔ leField data 4 8 < 2 ^ 63 := by
    rw [← h.base, offsetOfUInt64_nonneg_iff (leField_lt _ _ _)]
    unfold maxOffset
    omega
  rw [← hsign]
  constructor
  · exact fun hclaim => hclaim.1
  · intro hbase
    refine ⟨hbase, h.payload_eq.1, Nat.one_le_iff_ne_zero.mpr h.count_pos, ?_⟩
    rw [(h.valid hbase hmemory).encodeRecordBatch, h.bytes_eq]

/-- A batch of one empty record behind a header with the given base offset field. -/
def singletonBatch (base : Nat) : Bytes :=
  headerBytes recordBatchMagic base 1 (recordBatchHeaderBytes + recordHeaderBytes)
    (crc32 (recordBytes {})).toNat ++ recordBytes {}

theorem decodeRecordBatch_canonical_iff_singleton :
    (0 ≤ (42 : Int) ∧ [Record.sealed {}].length = 1 ∧ 1 ≤ 1 ∧
      encodeRecordBatch ⟨42, 1, 52, crc32 (recordBytes {}), [Record.sealed {}]⟩ =
        .ok ((singletonBatch 42).take 52)) ↔ leField (singletonBatch 42) 4 8 < 2 ^ 63 :=
  @decodeRecordBatch_canonical_iff (singletonBatch 42) ⟨42, 1, 52, crc32 (recordBytes {}), [Record.sealed {}]⟩
    (by decide +kernel) (by decide +kernel)

/-- The decoder accepts a batch at offset `-1`, which the encoder refuses to write. -/
theorem decodeRecordBatch_negative_base :
    ∃ batch, decodeRecordBatch (singletonBatch (2 ^ 64 - 1)) = .ok batch ∧ batch.baseOffset = -1 ∧
      encodeRecordBatch batch =
        .error (.invalidArgument "record batch base_offset must not be negative") :=
  ⟨⟨-1, 1, 52, crc32 (recordBytes {}), [Record.sealed {}]⟩, by decide +kernel, rfl, by decide +kernel⟩

end LogMq
