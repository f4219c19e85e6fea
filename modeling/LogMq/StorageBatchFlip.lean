import LogMq.LibAlteration
import LogMq.StorageRecovery

/-! One damaged byte in an encoded batch. The checksum covers the payload, the magic number and the
record count are checked against the rest, and a changed size never fits the records; but nothing
protects the base offset, and nothing protects the size from being taken for that of a torn batch. -/

namespace LogMq

open LittleEndian Alteration

/-- What a changed byte of an encoded batch is a change of. -/
inductive BatchDamage (batch : RecordBatch) : Nat → Bytes → Prop
  | magic {position magic : Nat} (hposition : position < 4) (hne : magic ≠ recordBatchMagic) (hlt : magic < 256 ^ 4) :
      BatchDamage batch position (headerBytes magic (offsetToUInt64 batch.baseOffset) batch.recordCount
        batch.batchBytes batch.batchCrc32.toNat ++ payloadOf batch.records)
  | base {position base : Nat} (hposition : 4 ≤ position ∧ position < 12)
      (hne : base ≠ offsetToUInt64 batch.baseOffset) (hlt : base < 256 ^ 8) :
      BatchDamage batch position (headerBytes recordBatchMagic base batch.recordCount
        batch.batchBytes batch.batchCrc32.toNat ++ payloadOf batch.records)
  | count {position count : Nat} (hposition : 12 ≤ position ∧ position < 20) (hne : count ≠ batch.recordCount)
      (hlt : count < 256 ^ 8) :
      BatchDamage batch position (headerBytes recordBatchMagic (offsetToUInt64 batch.baseOffset) count
        batch.batchBytes batch.batchCrc32.toNat ++ payloadOf batch.records)
  | size {position size : Nat} (hposition : 20 ≤ position ∧ position < 28) (hne : size ≠ batch.batchBytes)
      (hlt : size < 256 ^ 8) :
      BatchDamage batch position (headerBytes recordBatchMagic (offsetToUInt64 batch.baseOffset) batch.recordCount
        size batch.batchCrc32.toNat ++ payloadOf batch.records)
  | crc {position crc : Nat} (hposition : 28 ≤ position ∧ position < 32) (hne : crc ≠ batch.batchCrc32.toNat)
      (hlt : crc < 256 ^ 4) :
      BatchDamage batch position (headerBytes recordBatchMagic (offsetToUInt64 batch.baseOffset) batch.recordCount
        batch.batchBytes crc ++ payloadOf batch.records)
  | payload {position : Nat} {payload : Bytes} (hposition : 32 ≤ position)
      (halter : Altered (position - 32) (payloadOf batch.records) payload) :
      BatchDamage batch position (headerBytes recordBatchMagic (offsetToUInt64 batch.baseOffset) batch.recordCount
        batch.batchBytes batch.batchCrc32.toNat ++ payload)

/-- A changed byte of an encoded batch changes one header field or the payload. -/
theorem batchDamage_of_altered {batch : RecordBatch} {position : Nat} {bytes : Bytes}
    (h : Altered position batch.bytes bytes) : BatchDamage batch position bytes := by
  by_cases hheader : 32 ≤ position
  · obtain ⟨payload, hpayload, rfl⟩ := h.split_right (by rw [headerBytes_length]; exact hheader)
    rw [headerBytes_length] at hpayload
    exact .payload hheader hpayload
  obtain ⟨header, h₀, rfl⟩ := h.split_left (by rw [headerBytes_length]; exact Nat.not_le.mp hheader)
  change Altered position (leBytes 4 recordBatchMagic ++ _) header at h₀
  by_cases h4 : 4 ≤ position
  swap
  · obtain ⟨field, hfield, rfl⟩ := h₀.split_left (by rw [leBytes_length]; omega)
    obtain ⟨value, hlt, hne, rfl⟩ := hfield.leBytes
    exact .magic (by omega) hne hlt
  obtain ⟨rest, h₁, rfl⟩ := h₀.split_right (by rw [leBytes_length]; omega)
  rw [leBytes_length] at h₁
  by_cases h12 : 12 ≤ position
  swap
  · obtain ⟨field, hfield, rfl⟩ := h₁.split_left (by rw [leBytes_length]; omega)
    obtain ⟨value, hlt, hne, rfl⟩ := hfield.leBytes
    exact .base (by omega) hne hlt
  obtain ⟨rest, h₂, rfl⟩ := h₁.split_right (by rw [leBytes_length]; omega)
  rw [leBytes_length] at h₂
  by_cases h20 : 20 ≤ position
  swap
  · obtain ⟨field, hfield, rfl⟩ := h₂.split_left (by rw [leBytes_length]; omega)
    obtain ⟨value, hlt, hne, rfl⟩ := hfield.leBytes
    exact .count (by omega) hne hlt
  obtain ⟨rest, h₃, rfl⟩ := h₂.split_right (by rw [leBytes_length]; omega)
  rw [leBytes_length] at h₃
  by_cases h28 : 28 ≤ position
  swap
  · obtain ⟨field, hfield, rfl⟩ := h₃.split_left (by rw [leBytes_length]; omega)
    obtain ⟨value, hlt, hne, rfl⟩ := hfield.leBytes
    exact .size (by omega) hne hlt
  obtain ⟨field, hfield, rfl⟩ := h₃.split_right (by rw [leBytes_length]; omega)
  obtain ⟨value, hlt, hne, rfl⟩ := hfield.leBytes
  exact .crc (by omega) hne hlt

/-! ### Which damage still decodes -/

/-- The record loop with more turns goes on where it stood. -/
theorem decodeRecords_add {payload : Bytes} {first second consumed : Nat} {decoded : List Record}
    {found : List Record × Nat} (h : decodeRecords payload first consumed decoded = .ok found) :
    decodeRecords payload (first + second) consumed decoded = decodeRecords payload second found.2 found.1 := by
  induction first generalizing consumed decoded with
  | zero =>
      cases h
      rw [Nat.zero_add]
  | succ first ih =>
      obtain ⟨next, hrecord, hrest⟩ := Result.bind_eq_ok.mp h
      rw [Nat.add_right_comm, decodeRecords, hrecord]
      exact ih hrest

/-- Two counts of records cannot use up the same payload. -/
theorem decodeRecords_count_unique {payload : Bytes} {left right : Nat} {leftRecords rightRecords : List Record}
    (hl : decodeRecords payload left 0 [] = .ok (leftRecords, payload.length))
    (hr : decodeRecords payload right 0 [] = .ok (rightRecords, payload.length)) : left = right := by
  have hle : ∀ {small large : Nat} {smallRecords largeRecords : List Record},
      decodeRecords payload small 0 [] = .ok (smallRecords, payload.length) →
      decodeRecords payload large 0 [] = .ok (largeRecords, payload.length) → small ≤ large → small = large := by
    intro small large smallRecords largeRecords hsmall hlarge hle
    obtain ⟨extra, rfl⟩ := Nat.exists_eq_add_of_le hle
    rw [decodeRecords_add hsmall] at hlarge
    have hfound := (decodeRecords_found hlarge).2
    have hpos : 0 < recordHeaderBytes := by decide
    dsimp only at hfound
    have hmul := Nat.le_mul_of_pos_left extra hpos
    omega
  rcases Nat.le_total left right with h | h
  · exact hle hl hr h
  · exact (hle hr hl h).symm

section Damage

variable {batch : RecordBatch} (hvalid : batch.Valid) (rest : Bytes)

include hvalid

/-- The records of a well-formed batch use up its payload. -/
theorem decodeRecords_valid :
    decodeRecords (payloadOf batch.records) batch.recordCount 0 [] =
      .ok (batch.records, (payloadOf batch.records).length) := by
  have hrecords := decodeRecords_payloadOf hvalid.fits [] [] []
  rw [hvalid.count_eq]
  simpa only [List.nil_append, List.append_nil, List.length_nil, Nat.zero_add, hvalid.sealed] using hrecords

theorem payloadAt_valid {magic base count crc : Nat} {payload : Bytes}
    (hlength : payload.length = (payloadOf batch.records).length) :
    payloadAt (headerBytes magic base count batch.batchBytes crc ++ (payload ++ rest)) = payload := by
  rw [payloadAt, headerBytes_size _ hvalid.size_lt, hvalid.size_eq, Nat.add_sub_cancel_left,
    List.drop_left' headerBytes_length, ← hlength, List.take_left]

omit hvalid in
theorem not_decodes_magic {magic : Nat} (hne : magic ≠ recordBatchMagic) (hlt : magic < 256 ^ 4)
    (other : RecordBatch) :
    ¬Decodes (headerBytes magic (offsetToUInt64 batch.baseOffset) batch.recordCount batch.batchBytes
      batch.batchCrc32.toNat ++ (payloadOf batch.records ++ rest)) other := by
  intro h
  exact hne ((headerBytes_magic _ hlt).symm.trans h.magic)

theorem not_decodes_count {count : Nat} (hne : count ≠ batch.recordCount) (hlt : count < 256 ^ 8)
    (other : RecordBatch) :
    ¬Decodes (headerBytes recordBatchMagic (offsetToUInt64 batch.baseOffset) count batch.batchBytes
      batch.batchCrc32.toNat ++ (payloadOf batch.records ++ rest)) other := by
  intro h
  have hrecords := h.records
  rw [payloadAt_valid hvalid rest rfl, ← h.count, headerBytes_count _ hlt] at hrecords
  exact hne (decodeRecords_count_unique hrecords (decodeRecords_valid hvalid))

theorem not_decodes_crc {crc : Nat} (hne : crc ≠ batch.batchCrc32.toNat) (hlt : crc < 256 ^ 4)
    (other : RecordBatch) :
    ¬Decodes (headerBytes recordBatchMagic (offsetToUInt64 batch.baseOffset) batch.recordCount batch.batchBytes
      crc ++ (payloadOf batch.records ++ rest)) other := by
  intro h
  have hchecksum := h.checksum
  rw [payloadAt_valid hvalid rest rfl, ← hvalid.crc_eq, ← h.crc, headerBytes_crc _ hlt] at hchecksum
  refine hne ?_
  rw [hchecksum, UInt32.toNat_ofNat_of_lt' hlt]

theorem not_decodes_payload {position : Nat} {payload : Bytes}
    (halter : Altered position (payloadOf batch.records) payload) (other : RecordBatch) :
    ¬Decodes (headerBytes recordBatchMagic (offsetToUInt64 batch.baseOffset) batch.recordCount batch.batchBytes
      batch.batchCrc32.toNat ++ (payload ++ rest)) other := by
  intro h
  have hchecksum := h.checksum
  rw [payloadAt_valid hvalid rest halter.length_eq, ← h.crc, headerBytes_crc _ batch.batchCrc32.toNat_lt,
    UInt32.ofNat_toNat, hvalid.crc_eq] at hchecksum
  obtain ⟨front, before, after, back, hne, -, hold, rfl⟩ := halter
  rw [hold] at hchecksum
  exact hne (crc32_single_byte hchecksum).symm

/-- A changed size never fits: the records end where they ended before. -/
theorem not_decodes_size {size : Nat} (hne : size ≠ batch.batchBytes) (hlt : size < 256 ^ 8)
    (other : RecordBatch) :
    ¬Decodes (headerBytes recordBatchMagic (offsetToUInt64 batch.baseOffset) batch.recordCount size
      batch.batchCrc32.toNat ++ (payloadOf batch.records ++ rest)) other := by
  intro h
  have hrecords := h.records
  have hsize := @headerBytes_size recordBatchMagic (offsetToUInt64 batch.baseOffset) batch.recordCount _
    batch.batchCrc32.toNat (payloadOf batch.records ++ rest) hlt
  have hother : size = other.batchBytes := hsize.symm.trans h.size
  have hcomplete := h.complete
  rw [List.length_append, headerBytes_length, ← hother] at hcomplete
  have hheader := h.header_le
  rw [← hother] at hheader
  have hpayload : payloadAt (headerBytes recordBatchMagic (offsetToUInt64 batch.baseOffset) batch.recordCount size
      batch.batchCrc32.toNat ++ (payloadOf batch.records ++ rest)) =
        (payloadOf batch.records ++ rest).take (size - recordBatchHeaderBytes) := by
    rw [payloadAt, hsize, List.drop_left' headerBytes_length]
  rw [hpayload, ← h.count, headerBytes_count _ hvalid.count_lt] at hrecords
  have hshort := decodeRecords_append (Nat.zero_le _) hrecords
    ((payloadOf batch.records ++ rest).drop (size - recordBatchHeaderBytes))
  rw [List.take_append_drop,
    decodeRecords_append (Nat.zero_le _) (decodeRecords_valid hvalid) rest] at hshort
  have hlength := congrArg Prod.snd (Except.ok.inj hshort)
  dsimp only at hlength
  rw [List.length_take] at hlength
  have heq := hvalid.size_eq
  have h32 : recordBatchHeaderBytes = 32 := rfl
  omega

/-! ### Summary -/

/-- Damage outside the base offset makes the batch undecodable. -/
theorem BatchDamage.not_decodes {position : Nat} {bytes : Bytes} (h : BatchDamage batch position bytes)
    (hfield : ¬(4 ≤ position ∧ position < 12)) (other : RecordBatch) : ¬Decodes (bytes ++ rest) other := by
  cases h with
  | magic hposition hne hlt =>
      rw [List.append_assoc]
      exact not_decodes_magic rest hne hlt other
  | base hposition hne hlt => exact absurd hposition hfield
  | count hposition hne hlt =>
      rw [List.append_assoc]
      exact not_decodes_count hvalid rest hne hlt other
  | size hposition hne hlt =>
      rw [List.append_assoc]
      exact not_decodes_size hvalid rest hne hlt other
  | crc hposition hne hlt =>
      rw [List.append_assoc]
      exact not_decodes_crc hvalid rest hne hlt other
  | payload hposition halter =>
      rw [List.append_assoc]
      exact not_decodes_payload hvalid rest halter other

/-- Damage to the base offset gives the same batch at another offset. -/
theorem BatchDamage.decodes {position : Nat} {bytes : Bytes} (h : BatchDamage batch position bytes)
    (hfield : 4 ≤ position ∧ position < 12) :
    offsetOfUInt64 (leField (bytes ++ rest) 4 8) ≠ batch.baseOffset ∧
      Decodes (bytes ++ rest) { batch with baseOffset := offsetOfUInt64 (leField (bytes ++ rest) 4 8) } := by
  cases h with
  | @base value hposition hne hlt =>
      have hread : leField (headerBytes recordBatchMagic value batch.recordCount batch.batchBytes
          batch.batchCrc32.toNat ++ payloadOf batch.records ++ rest) 4 8 = value := by
        rw [List.append_assoc, headerBytes_base _ hlt]
      rw [hread]
      refine ⟨fun heq => hne ?_, ?_⟩
      · refine offsetOfUInt64_injective hlt (offsetToUInt64_lt _) ?_
        rw [heq, offsetOfUInt64_toUInt64 hvalid.base_nonneg hvalid.base_le]
      · rw [List.append_assoc]
        exact hvalid.decodes_base hlt rest
  | magic hposition => omega
  | count hposition => omega
  | size hposition => omega
  | crc hposition => omega
  | payload hposition => omega

theorem BatchDamage.length_eq {position : Nat} {bytes : Bytes} (h : BatchDamage batch position bytes) :
    bytes.length = batch.batchBytes := by
  cases h with
  | payload hposition halter =>
      rw [List.length_append, headerBytes_length, halter.length_eq, hvalid.size_eq]
  | magic => rw [List.length_append, headerBytes_length, hvalid.size_eq]
  | base => rw [List.length_append, headerBytes_length, hvalid.size_eq]
  | count => rw [List.length_append, headerBytes_length, hvalid.size_eq]
  | size => rw [List.length_append, headerBytes_length, hvalid.size_eq]
  | crc => rw [List.length_append, headerBytes_length, hvalid.size_eq]

/-- A batch that still declares its own size is not torn. -/
theorem not_torn_of_size {data : Bytes} (hlength : batch.batchBytes ≤ data.length)
    (hsize : leField data (4 + 8 + 8) 8 = batch.batchBytes) : ¬Torn data := by
  rintro (hshort | ⟨declared, hpeek, hlarge⟩)
  · exact absurd hshort (Nat.not_lt.mpr (hvalid.header_le.trans hlength))
  · obtain ⟨-, -, -, rfl⟩ := peekRecordBatchBytes_eq_ok.mp hpeek
    omega

/-- Damage is taken for a torn write only where a changed size points past the end of the file. -/
theorem BatchDamage.torn_iff {position : Nat} {bytes : Bytes} (h : BatchDamage batch position bytes) :
    Torn (bytes ++ rest) ↔
      (20 ≤ position ∧ position < 28) ∧ (bytes ++ rest).length < leField (bytes ++ rest) (4 + 8 + 8) 8 := by
  have hlength : batch.batchBytes ≤ (bytes ++ rest).length := by
    rw [List.length_append, h.length_eq hvalid]
    exact Nat.le_add_right _ _
  have hheader := hvalid.header_le.trans hlength
  have hkeeps (hfield : ¬(20 ≤ position ∧ position < 28)) (htorn : ¬Torn (bytes ++ rest)) :
      Torn (bytes ++ rest) ↔
        (20 ≤ position ∧ position < 28) ∧ (bytes ++ rest).length < leField (bytes ++ rest) (4 + 8 + 8) 8 :=
    ⟨fun h => absurd h htorn, fun h => absurd h.1 hfield⟩
  cases h with
  | magic hposition hne hlt =>
      refine hkeeps (by omega) ?_
      rintro (hshort | ⟨declared, hpeek, -⟩)
      · exact absurd hshort (Nat.not_lt.mpr hheader)
      · obtain ⟨-, hmagic, -⟩ := peekRecordBatchBytes_eq_ok.mp hpeek
        rw [List.append_assoc, headerBytes_magic _ hlt] at hmagic
        exact hne hmagic
  | base hposition hne hlt =>
      refine hkeeps (by omega) (not_torn_of_size hvalid hlength ?_)
      rw [List.append_assoc, headerBytes_size _ hvalid.size_lt]
  | count hposition hne hlt =>
      refine hkeeps (by omega) (not_torn_of_size hvalid hlength ?_)
      rw [List.append_assoc, headerBytes_size _ hvalid.size_lt]
  | crc hposition hne hlt =>
      refine hkeeps (by omega) (not_torn_of_size hvalid hlength ?_)
      rw [List.append_assoc, headerBytes_size _ hvalid.size_lt]
  | payload hposition halter =>
      refine hkeeps (by omega) (not_torn_of_size hvalid hlength ?_)
      rw [List.append_assoc, headerBytes_size _ hvalid.size_lt]
  | size hposition hne hlt =>
      constructor
      · rintro (hshort | ⟨declared, hpeek, hlarge⟩)
        · exact absurd hshort (Nat.not_lt.mpr hheader)
        · obtain ⟨-, -, -, rfl⟩ := peekRecordBatchBytes_eq_ok.mp hpeek
          exact ⟨hposition, hlarge⟩
      · rintro ⟨-, hlarge⟩
        refine Or.inr ⟨_, peekRecordBatchBytes_eq_ok.mpr ⟨hheader, ?_, hheader.trans hlarge.le, rfl⟩, hlarge⟩
        rw [List.append_assoc, headerBytes_magic _ (by decide)]

end Damage

end LogMq
