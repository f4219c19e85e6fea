import LogMq.StorageRecord

/-! Record batches of `src/storage/record_batch.cpp`: a 32-byte header (magic, base offset, record
count, batch size, payload checksum) followed by the encoded records. The checksum covers the payload
only. -/

namespace LogMq

open LittleEndian

structure RecordBatch where
  baseOffset : Int := -1
  recordCount : Nat := 0
  batchBytes : Nat := 0
  batchCrc32 : UInt32 := 0
  records : List Record := []
  deriving DecidableEq, Repr

def recordBatchMagic : Nat := 0x4C4D5142

/-- `kRecordBatchHeaderBytes`: magic, base offset, record count, batch size, checksum. -/
def recordBatchHeaderBytes : Nat := 4 + 8 + 8 + 8 + 4

/-- `std::vector<std::byte>::max_size()`. -/
def vectorMaxBytes : Nat := 2 ^ 63 - 1

/-- The `std::length_error` that `std::vector::reserve` throws beyond `max_size()`. It leaves every
caller before anything has been changed, so it is an error result here. -/
def lengthError : Status := .internal "vector::reserve"

namespace RecordBatch

def readLittleEndian : Nat → Bytes → Nat → Result Nat :=
  readLittleEndianOr "record batch header is truncated"

end RecordBatch

/-- The first loop of `EncodeRecordsPayload`, which adds up the encoded sizes. -/
def sumRecordBytes : List Record → Nat → Result Nat
  | [], payloadBytes => .ok payloadBytes
  | record :: rest, payloadBytes =>
      if encodedRecordSize record > maxSize - payloadBytes then
        .error (.invalidArgument "record batch is too large")
      else sumRecordBytes rest (payloadBytes + encodedRecordSize record)

/-- The second loop of `EncodeRecordsPayload`. -/
def appendEncodedRecords : List Record → Bytes → Result Bytes
  | [], payload => .ok payload
  | record :: rest, payload => do
      let payload ← appendEncodedRecord record payload
      appendEncodedRecords rest payload

def encodeRecordsPayload (records : List Record) : Result Bytes := do
  let payloadBytes ← sumRecordBytes records 0
  if payloadBytes > vectorMaxBytes then .error lengthError
  else appendEncodedRecords records []

def makeRecordBatch (baseOffset : Int) (records : List Record) : Result RecordBatch :=
  if baseOffset < 0 then .error (.invalidArgument "record batch base_offset must not be negative")
  else if records.isEmpty then
    .error (.invalidArgument "record batch must contain at least one record")
  else if records.length > maxSize then
    .error (.invalidArgument "record batch contains too many records")
  else do
    let records := records.map Record.sealed
    let payload ← encodeRecordsPayload records
    return { baseOffset := baseOffset
             recordCount := records.length
             batchBytes := recordBatchHeaderBytes + payload.length
             batchCrc32 := crc32 payload
             records := records }

/-- The five header fields in the order they are written. -/
def headerBytes (magic baseOffset recordCount batchBytes batchCrc : Nat) : Bytes :=
  leBytes 4 magic ++ (leBytes 8 baseOffset ++ (leBytes 8 recordCount ++
    (leBytes 8 batchBytes ++ leBytes 4 batchCrc)))

def encodeRecordBatch (batch : RecordBatch) : Result Bytes :=
  if batch.baseOffset < 0 then
    .error (.invalidArgument "record batch base_offset must not be negative")
  else if batch.records.isEmpty then
    .error (.invalidArgument "record batch must contain at least one record")
  else if batch.records.length > maxSize then
    .error (.invalidArgument "record batch contains too many records")
  else do
    let payload ← encodeRecordsPayload batch.records
    return headerBytes recordBatchMagic (offsetToUInt64 batch.baseOffset) batch.records.length
      (recordBatchHeaderBytes + payload.length) (crc32 payload).toNat ++ payload

def peekRecordBatchBytes (data : Bytes) : Result Nat :=
  if data.length < recordBatchHeaderBytes then
    .error (.corruption "record batch header is truncated")
  else do
    let magic ← RecordBatch.readLittleEndian 4 data 0
    if magic ≠ recordBatchMagic then .error (.corruption "record batch magic mismatch")
    else do
      let batchBytes ← RecordBatch.readLittleEndian 8 data (4 + 8 + 8)
      if batchBytes < recordBatchHeaderBytes then
        .error (.corruption "record batch size is smaller than header")
      else .ok batchBytes

/-- The record loop of `DecodeRecordBatch`: `count` records are still to come. -/
def decodeRecords (payload : Bytes) : Nat → Nat → List Record → Result (List Record × Nat)
  | 0, consumed, records => .ok (records, consumed)
  | count + 1, consumed, records => do
      let decoded ← decodeRecord (payload.drop consumed)
      decodeRecords payload count (consumed + decoded.bytesConsumed) (records ++ [decoded.record])

def decodeRecordBatch (data : Bytes) : Result RecordBatch := do
  let batchBytes ← peekRecordBatchBytes data
  if batchBytes > data.length then .error (.corruption "record batch payload is truncated")
  else do
    let baseOffset ← RecordBatch.readLittleEndian 8 data 4
    let recordCount ← RecordBatch.readLittleEndian 8 data (4 + 8)
    let batchCrc ← RecordBatch.readLittleEndian 4 data (4 + 8 + 8 + 8)
    let payload := (data.drop recordBatchHeaderBytes).take (batchBytes - recordBatchHeaderBytes)
    if crc32 payload ≠ UInt32.ofNat batchCrc then .error (.corruption "record batch crc mismatch")
    else if recordCount = 0 then .error (.corruption "record batch record_count is zero")
    else if recordCount > payload.length / recordHeaderBytes then
      .error (.corruption "record batch record_count exceeds payload capacity")
    else do
      let (records, consumed) ← decodeRecords payload recordCount 0 []
      if consumed ≠ payload.length then .error (.corruption "record batch has trailing bytes")
      else .ok { baseOffset := offsetOfUInt64 baseOffset
                 recordCount := recordCount
                 batchBytes := batchBytes
                 batchCrc32 := UInt32.ofNat batchCrc
                 records := records }

/-! ### The payload -/

/-- The encoded records of a batch, one behind the other. -/
def payloadOf (records : List Record) : Bytes := records.flatMap recordBytes

@[simp] theorem payloadOf_cons (record : Record) (rest : List Record) :
    payloadOf (record :: rest) = recordBytes record ++ payloadOf rest := rfl

theorem payloadOf_sealed (records : List Record) :
    payloadOf (records.map Record.sealed) = payloadOf records := by
  induction records with
  | nil => rfl
  | cons record rest ih => rw [List.map_cons, payloadOf_cons, ih, payloadOf_cons,
      Record.recordBytes_sealed]

theorem payloadOf_length_cons (record : Record) (rest : List Record) :
    (payloadOf (record :: rest)).length = encodedRecordSize record + (payloadOf rest).length := by
  rw [payloadOf_cons, List.length_append, recordBytes_length]

theorem encodedRecordSize_le_payload {record : Record} {records : List Record} (h : record ∈ records) :
    encodedRecordSize record ≤ (payloadOf records).length := by
  obtain ⟨before, after, rfl⟩ := List.append_of_mem h
  rw [payloadOf, List.flatMap_append, List.flatMap_cons, List.length_append, List.length_append, recordBytes_length]
  omega

/-- Every record takes at least its header. -/
theorem length_le_payloadOf_length (records : List Record) :
    recordHeaderBytes * records.length ≤ (payloadOf records).length := by
  induction records with
  | nil => exact Nat.zero_le _
  | cons record rest ih =>
      rw [payloadOf_length_cons, List.length_cons, encodedRecordSize, Nat.mul_succ]
      omega

theorem sumRecordBytes_eq_ok {records : List Record} {start total : Nat}
    (h : sumRecordBytes records start = .ok total) : total = start + (payloadOf records).length := by
  induction records generalizing start with
  | nil => cases h; rfl
  | cons record rest ih =>
      rw [sumRecordBytes] at h
      split_ifs at h
      rw [ih h, payloadOf_length_cons, Nat.add_assoc]

theorem sumRecordBytes_of_le {records : List Record} {start : Nat}
    (h : start + (payloadOf records).length ≤ maxSize) :
    sumRecordBytes records start = .ok (start + (payloadOf records).length) := by
  induction records generalizing start with
  | nil => rfl
  | cons record rest ih =>
      rw [payloadOf_length_cons] at h
      rw [sumRecordBytes, if_neg (by omega), ih (by omega), payloadOf_length_cons, Nat.add_assoc]

theorem appendEncodedRecords_of_fits {records : List Record} (hfits : ∀ record ∈ records, record.Fits)
    (payload : Bytes) : appendEncodedRecords records payload = .ok (payload ++ payloadOf records) := by
  induction records generalizing payload with
  | nil => exact congrArg Except.ok (List.append_nil payload).symm
  | cons record rest ih =>
      rw [appendEncodedRecords, appendEncodedRecord_of_fits (hfits record List.mem_cons_self)]
      change appendEncodedRecords rest _ = _
      rw [ih (fun r hr => hfits r (List.mem_cons_of_mem _ hr)), payloadOf_cons, List.append_assoc]

theorem fits_of_appendEncodedRecords {records : List Record} {payload encoded : Bytes}
    (h : appendEncodedRecords records payload = .ok encoded) : ∀ record ∈ records, record.Fits := by
  induction records generalizing payload with
  | nil => exact fun _ hr => nomatch hr
  | cons record rest ih =>
      obtain ⟨next, hrecord, hrest⟩ := Result.bind_eq_ok.mp h
      intro r hr
      rcases List.mem_cons.mp hr with rfl | hr
      · exact fits_of_appendEncodedRecord hrecord
      · exact ih hrest r hr

/-- The payload encoder succeeds exactly on records that fit and whose encodings fit in memory. -/
theorem encodeRecordsPayload_eq_ok {records : List Record} {payload : Bytes} :
    encodeRecordsPayload records = .ok payload ↔
      (∀ record ∈ records, record.Fits) ∧ (payloadOf records).length ≤ vectorMaxBytes ∧
        payload = payloadOf records := by
  constructor
  · intro h
    obtain ⟨total, hsum, h⟩ := Result.bind_eq_ok.mp h
    have htotal := sumRecordBytes_eq_ok hsum
    split_ifs at h with hlarge
    have hfits := fits_of_appendEncodedRecords h
    rw [appendEncodedRecords_of_fits hfits] at h
    cases h
    exact ⟨hfits, by omega, List.nil_append _⟩
  · rintro ⟨hfits, hsize, rfl⟩
    rw [encodeRecordsPayload,
      sumRecordBytes_of_le (by unfold vectorMaxBytes at hsize; unfold maxSize; omega)]
    change (if _ then _ else _) = _
    rw [if_neg (by omega), appendEncodedRecords_of_fits hfits, List.nil_append]

/-! ### The header -/

section Header

variable {magic base count size crc : Nat} (rest : Bytes)

@[simp] theorem headerBytes_length :
    (headerBytes magic base count size crc).length = recordBatchHeaderBytes := by
  simp only [headerBytes, List.length_append, leBytes_length, recordBatchHeaderBytes]

theorem headerBytes_magic (h : magic < 256 ^ 4) :
    leField (headerBytes magic base count size crc ++ rest) 0 4 = magic := by
  rw [headerBytes, List.append_assoc]
  exact leField_leBytes h _

theorem headerBytes_base (h : base < 256 ^ 8) :
    leField (headerBytes magic base count size crc ++ rest) 4 8 = base := by
  simp only [headerBytes, List.append_assoc]
  rw [show 4 = 4 + 0 from rfl, leField_skip (leBytes_length _ _)]
  exact leField_leBytes h _

theorem headerBytes_count (h : count < 256 ^ 8) :
    leField (headerBytes magic base count size crc ++ rest) (4 + 8) 8 = count := by
  simp only [headerBytes, List.append_assoc]
  rw [show 4 + 8 = 4 + (8 + 0) from rfl, leField_skip (leBytes_length _ _),
    leField_skip (leBytes_length _ _)]
  exact leField_leBytes h _

theorem headerBytes_size (h : size < 256 ^ 8) :
    leField (headerBytes magic base count size crc ++ rest) (4 + 8 + 8) 8 = size := by
  simp only [headerBytes, List.append_assoc]
  rw [show 4 + 8 + 8 = 4 + (8 + (8 + 0)) from rfl, leField_skip (leBytes_length _ _),
    leField_skip (leBytes_length _ _), leField_skip (leBytes_length _ _)]
  exact leField_leBytes h _

theorem headerBytes_crc (h : crc < 256 ^ 4) :
    leField (headerBytes magic base count size crc ++ rest) (4 + 8 + 8 + 8) 4 = crc := by
  simp only [headerBytes, List.append_assoc]
  rw [show 4 + 8 + 8 + 8 = 4 + (8 + (8 + (8 + 0))) from rfl, leField_skip (leBytes_length _ _),
    leField_skip (leBytes_length _ _), leField_skip (leBytes_length _ _),
    leField_skip (leBytes_length _ _)]
  exact leField_leBytes h _

end Header

/-- Past the length check the size of a batch is two fields of its header. -/
theorem peekRecordBatchBytes_of_header {data : Bytes} (h : recordBatchHeaderBytes ≤ data.length) :
    peekRecordBatchBytes data =
      if leField data 0 4 ≠ recordBatchMagic then .error (.corruption "record batch magic mismatch")
      else if leField data (4 + 8 + 8) 8 < recordBatchHeaderBytes then
        .error (.corruption "record batch size is smaller than header")
      else .ok (leField data (4 + 8 + 8) 8) := by
  have h32 : 32 ≤ data.length := h
  rw [peekRecordBatchBytes, if_neg (Nat.not_lt.mpr h)]
  unfold RecordBatch.readLittleEndian
  rw [readLittleEndianOr_ok (by omega), readLittleEndianOr_ok (by omega)]
  rfl

theorem peekRecordBatchBytes_eq_ok {data : Bytes} {size : Nat} :
    peekRecordBatchBytes data = .ok size ↔
      recordBatchHeaderBytes ≤ data.length ∧ leField data 0 4 = recordBatchMagic ∧
        recordBatchHeaderBytes ≤ size ∧ leField data (4 + 8 + 8) 8 = size := by
  by_cases hlength : recordBatchHeaderBytes ≤ data.length
  · rw [peekRecordBatchBytes_of_header hlength]
    split_ifs with hmagic hsize
    · simp [hmagic]
    · constructor
      · exact fun h => nomatch h
      · rintro ⟨_, _, hle, rfl⟩
        omega
    · constructor
      · intro h
        cases h
        exact ⟨hlength, not_not.mp hmagic, by omega, rfl⟩
      · rintro ⟨_, _, _, rfl⟩
        rfl
  · constructor
    · intro h
      rw [peekRecordBatchBytes, if_pos (Nat.not_le.mp hlength)] at h
      cases h
    · exact fun h => absurd h.1 hlength

/-- The size of a batch is read from its first 32 bytes alone. -/
theorem peekRecordBatchBytes_take {data : Bytes} (h : recordBatchHeaderBytes ≤ data.length) :
    peekRecordBatchBytes (data.take recordBatchHeaderBytes) = peekRecordBatchBytes data := by
  have htake : (data.take recordBatchHeaderBytes).length = recordBatchHeaderBytes := by
    rw [List.length_take, Nat.min_eq_left h]
  have hfield : ∀ offset width, offset + width ≤ 32 →
      leField data offset width = leField (data.take recordBatchHeaderBytes) offset width := by
    intro offset width hle
    conv_lhs => rw [← List.take_append_drop recordBatchHeaderBytes data]
    exact leField_append (by rw [htake]; exact hle) _
  rw [peekRecordBatchBytes_of_header h, peekRecordBatchBytes_of_header htake.ge,
    hfield 0 4 (by omega), hfield (4 + 8 + 8) 8 (by omega)]

/-! ### Decoding -/

/-- The record loop over the encoded records it is to find, behind and before any other bytes. -/
theorem decodeRecords_payloadOf {records : List Record} (hfits : ∀ record ∈ records, record.Fits)
    (front rest : Bytes) (decoded : List Record) :
    decodeRecords (front ++ (payloadOf records ++ rest)) records.length front.length decoded =
      .ok (decoded ++ records.map Record.sealed, front.length + (payloadOf records).length) := by
  induction records generalizing front decoded with
  | nil => simp [decodeRecords, payloadOf]
  | cons record tail ih =>
      rw [List.length_cons, decodeRecords, List.drop_left, payloadOf_cons, List.append_assoc,
        decodeRecord_recordBytes (hfits record List.mem_cons_self)]
      have hih := ih (fun r hr => hfits r (List.mem_cons_of_mem _ hr)) (front ++ recordBytes record)
        (decoded ++ [record.sealed])
      rw [List.append_assoc, List.length_append, recordBytes_length] at hih
      change decodeRecords _ _ (front.length + encodedRecordSize record) _ = _
      rw [hih, List.map_cons, List.append_assoc, List.length_append, recordBytes_length, Nat.add_assoc]
      rfl

/-- The record loop looks at nothing behind the records it finds. -/
theorem decodeRecords_append {payload : Bytes} {count consumed : Nat} {decoded : List Record}
    {found : List Record × Nat} (hle : consumed ≤ payload.length)
    (h : decodeRecords payload count consumed decoded = .ok found) (rest : Bytes) :
    decodeRecords (payload ++ rest) count consumed decoded = .ok found := by
  induction count generalizing consumed decoded with
  | zero => exact h
  | succ count ih =>
      obtain ⟨next, hrecord, hrest⟩ := Result.bind_eq_ok.mp h
      have hconsumed := (decodeRecord_consumed hrecord).2
      rw [List.length_drop] at hconsumed
      rw [decodeRecords, List.drop_append_of_le_length hle, decodeRecord_append hrecord]
      exact ih (by omega) hrest

/-- Every turn of the record loop takes a record and at least its header. -/
theorem decodeRecords_found {payload : Bytes} {count consumed : Nat} {decoded : List Record}
    {found : List Record × Nat} (h : decodeRecords payload count consumed decoded = .ok found) :
    found.1.length = decoded.length + count ∧ consumed + recordHeaderBytes * count ≤ found.2 := by
  induction count generalizing consumed decoded with
  | zero => cases h; exact ⟨rfl, Nat.le_refl _⟩
  | succ count ih =>
      obtain ⟨next, hrecord, hrest⟩ := Result.bind_eq_ok.mp h
      have hconsumed := (decodeRecord_consumed hrecord).1
      obtain ⟨hlength, hfound⟩ := ih hrest
      rw [List.length_append, List.length_singleton] at hlength
      rw [Nat.mul_succ]
      exact ⟨by omega, by omega⟩

/-- The payload a header of this size is followed by. -/
def payloadAt (data : Bytes) : Bytes :=
  (data.drop recordBatchHeaderBytes).take (leField data (4 + 8 + 8) 8 - recordBatchHeaderBytes)

/-- Everything `DecodeRecordBatch` checks before it returns a batch. -/
structure Decodes (data : Bytes) (batch : RecordBatch) : Prop where
  header : recordBatchHeaderBytes ≤ data.length
  magic : leField data 0 4 = recordBatchMagic
  size : leField data (4 + 8 + 8) 8 = batch.batchBytes
  header_le : recordBatchHeaderBytes ≤ batch.batchBytes
  complete : batch.batchBytes ≤ data.length
  crc : UInt32.ofNat (leField data (4 + 8 + 8 + 8) 4) = batch.batchCrc32
  checksum : crc32 (payloadAt data) = batch.batchCrc32
  count : leField data (4 + 8) 8 = batch.recordCount
  count_pos : batch.recordCount ≠ 0
  capacity : batch.recordCount ≤ (payloadAt data).length / recordHeaderBytes
  records : decodeRecords (payloadAt data) batch.recordCount 0 [] = .ok (batch.records, (payloadAt data).length)
  base : offsetOfUInt64 (leField data 4 8) = batch.baseOffset

theorem decodeRecordBatch_eq_ok {data : Bytes} {batch : RecordBatch} :
    decodeRecordBatch data = .ok batch ↔ Decodes data batch := by
  constructor
  · intro h
    obtain ⟨size, hpeek, h⟩ := Result.bind_eq_ok.mp h
    obtain ⟨hheader, hmagic, hle, rfl⟩ := peekRecordBatchBytes_eq_ok.mp hpeek
    have h32 : 32 ≤ data.length := hheader
    split_ifs at h with hcomplete
    unfold RecordBatch.readLittleEndian at h
    rw [readLittleEndianOr_ok (by omega), readLittleEndianOr_ok (by omega),
      readLittleEndianOr_ok (by omega)] at h
    simp only [bind, Except.bind] at h
    split_ifs at h with hcrc hcount hcapacity
    split at h
    · cases h
    · rename_i found hfound
      split_ifs at h with hconsumed
      cases h
      refine ⟨hheader, hmagic, rfl, hle, Nat.not_lt.mp hcomplete, rfl, not_not.mp hcrc, rfl, hcount,
        Nat.not_lt.mp hcapacity, ?_, rfl⟩
      exact hfound.trans (congrArg (fun n => Except.ok (found.1, n)) (not_not.mp hconsumed))
  · intro h
    have h32 : 32 ≤ data.length := h.header
    have hpeek : peekRecordBatchBytes data = .ok batch.batchBytes :=
      peekRecordBatchBytes_eq_ok.mpr ⟨h.header, h.magic, h.header_le, h.size⟩
    have hpayload : (data.drop recordBatchHeaderBytes).take (batch.batchBytes - recordBatchHeaderBytes) =
        payloadAt data := by
      rw [payloadAt, h.size]
    rw [decodeRecordBatch, hpeek]
    unfold RecordBatch.readLittleEndian
    rw [readLittleEndianOr_ok (by omega), readLittleEndianOr_ok (by omega),
      readLittleEndianOr_ok (by omega)]
    simp only [bind, Except.bind]
    rw [hpayload, h.crc, h.count, h.base, if_neg (Nat.not_lt.mpr h.complete),
      if_neg (not_not.mpr h.checksum), if_neg h.count_pos, if_neg (Nat.not_lt.mpr h.capacity), h.records]
    exact if_neg (fun hne => hne rfl)

theorem Decodes.unique {data : Bytes} {left right : RecordBatch} (hl : Decodes data left)
    (hr : Decodes data right) : left = right :=
  Except.ok.inj ((decodeRecordBatch_eq_ok.mpr hl).symm.trans (decodeRecordBatch_eq_ok.mpr hr))

end LogMq
