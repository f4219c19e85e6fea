import LogMq.LibAlteration
import LogMq.StorageRecordBatch

/-! Damage of a few bytes in a row. The checksum tells apart strings that differ within four bytes, so a batch whose
payload was damaged that way is not decoded. -/

namespace LogMq

open LittleEndian Alteration

/-- **Bursts** change the checksum. -/
theorem crc32_ne_of_burst {old new : Bytes} (h : Burst 4 old new) : crc32 old ≠ crc32 new := by
  obtain ⟨front, before, after, back, hne, hlength, hshort, rfl, rfl⟩ := h
  exact fun heq => hne (crc32_window hlength hshort heq)

/-- What `EncodeRecordBatch` returns: the header and the payload it describes. -/
theorem encodeRecordBatch_eq_ok {batch : RecordBatch} {encoded : Bytes} (h : encodeRecordBatch batch = .ok encoded) :
    encoded = headerBytes recordBatchMagic (offsetToUInt64 batch.baseOffset) batch.records.length
        (recordBatchHeaderBytes + (payloadOf batch.records).length) (crc32 (payloadOf batch.records)).toNat ++
          payloadOf batch.records ∧
      recordBatchHeaderBytes + (payloadOf batch.records).length < 256 ^ 8 := by
  unfold encodeRecordBatch at h
  split_ifs at h
  obtain ⟨payload, hpayload, hencoded⟩ := Result.bind_eq_ok.mp h
  obtain ⟨-, hsize, rfl⟩ := encodeRecordsPayload_eq_ok.mp hpayload
  cases hencoded
  refine ⟨rfl, ?_⟩
  unfold vectorMaxBytes at hsize
  unfold recordBatchHeaderBytes
  omega

/-- A complete batch whose payload does not have the checksum of its header. -/
theorem decodeRecordBatch_of_crc_ne {data : Bytes} {size : Nat} (hpeek : peekRecordBatchBytes data = .ok size)
    (hsize : size ≤ data.length) (hne : crc32 (payloadAt data) ≠ UInt32.ofNat (leField data (4 + 8 + 8 + 8) 4)) :
    decodeRecordBatch data = .error (.corruption "record batch crc mismatch") := by
  obtain ⟨hheader, -, -, hfield⟩ := peekRecordBatchBytes_eq_ok.mp hpeek
  have h32 : 32 ≤ data.length := hheader
  have hread : ∀ offset width, offset + width ≤ 32 →
      RecordBatch.readLittleEndian width data offset = .ok (leField data offset width) :=
    fun offset width hle => readLittleEndianOr_ok (by omega)
  rw [payloadAt, hfield] at hne
  unfold decodeRecordBatch
  rw [hpeek]
  change (if size > data.length then _ else _) = _
  rw [if_neg (Nat.not_lt.mpr hsize), hread 4 8 (by omega), hread (4 + 8) 8 (by omega),
    hread (4 + 8 + 8 + 8) 4 (by omega)]
  exact if_pos hne

/-- Another payload under the header of a batch. -/
theorem decodeRecordBatch_of_payload_ne {base count : Nat} {old payload : Bytes}
    (hlt : recordBatchHeaderBytes + old.length < 256 ^ 8) (hlength : payload.length = old.length)
    (hne : crc32 payload ≠ crc32 old) :
    decodeRecordBatch (headerBytes recordBatchMagic base count (recordBatchHeaderBytes + old.length) (crc32 old).toNat ++
      payload) = .error (.corruption "record batch crc mismatch") := by
  have htotal : (headerBytes recordBatchMagic base count (recordBatchHeaderBytes + old.length) (crc32 old).toNat ++
      payload).length = recordBatchHeaderBytes + old.length := by
    rw [List.length_append, headerBytes_length, hlength]
  have hpeek := peekRecordBatchBytes_eq_ok.mpr ⟨htotal ▸ Nat.le_add_right _ _, headerBytes_magic payload (by decide),
    Nat.le_add_right _ _, headerBytes_size payload hlt⟩
  refine decodeRecordBatch_of_crc_ne hpeek htotal.ge ?_
  rw [payloadAt, headerBytes_size payload hlt, headerBytes_crc payload (crc32 old).toNat_lt, UInt32.ofNat_toNat,
    List.drop_left' headerBytes_length, Nat.add_sub_cancel_left, ← hlength, List.take_length]
  exact hne

/-- **Four bytes of damage.** A batch that has been encoded is not decoded once at most four bytes in a row of its
payload have changed; in general, strings that differ in no more than that have different checksums. -/
theorem payload_burst_detected :
    (∀ (batch : RecordBatch) (encoded payload : Bytes), encodeRecordBatch batch = .ok encoded →
      Burst 4 (encoded.drop recordBatchHeaderBytes) payload →
        ∃ message, decodeRecordBatch (encoded.take recordBatchHeaderBytes ++ payload) = .error (.corruption message)) ∧
    ∀ old new : Bytes, Burst 4 old new → crc32 old ≠ crc32 new := by
  refine ⟨fun batch encoded payload hencoded hburst => ?_, fun _ _ => crc32_ne_of_burst⟩
  obtain ⟨rfl, hlt⟩ := encodeRecordBatch_eq_ok hencoded
  rw [List.drop_left' headerBytes_length] at hburst
  rw [List.take_left' headerBytes_length]
  exact ⟨_, decodeRecordBatch_of_payload_ne hlt hburst.length_eq (crc32_ne_of_burst hburst).symm⟩

/-- A batch of one record, the last four bytes of which are changed. -/
theorem payload_burst_detected_value :
    ∃ encoded front, encodeRecordBatch { baseOffset := 0, records := [⟨7, [], [1, 2, 3, 4], 0⟩] } = .ok encoded ∧
      encoded.drop recordBatchHeaderBytes = front ++ [1, 2, 3, 4] ∧
      ∃ message, decodeRecordBatch (encoded.take recordBatchHeaderBytes ++ (front ++ [4, 3, 2, 1])) =
        .error (.corruption message) := by
  have hrun : (encodeRecordBatch { baseOffset := 0, records := [⟨7, [], [1, 2, 3, 4], 0⟩] }).toOption.any (fun encoded =>
      decide (encoded.drop recordBatchHeaderBytes = (encoded.drop recordBatchHeaderBytes).take 20 ++ [1, 2, 3, 4])) =
        true := by
    decide +kernel
  obtain ⟨encoded, hencoded, hvalue⟩ := Option.any_eq_true _ _ |>.mp hrun
  have hpayload := of_decide_eq_true hvalue
  have hburst : Burst 4 (encoded.drop recordBatchHeaderBytes)
      ((encoded.drop recordBatchHeaderBytes).take 20 ++ [4, 3, 2, 1]) :=
    ⟨_, [1, 2, 3, 4], [4, 3, 2, 1], [], by decide, rfl, le_refl _, hpayload, rfl⟩
  have hok := Result.toOption_eq_some.mp hencoded
  exact ⟨encoded, _, hok, hpayload, payload_burst_detected.1 _ encoded _ hok hburst⟩

end LogMq
