import LogMq.LibLittleEndian
import LogMq.StorageCrc32

/-! Single records of `src/storage/record.cpp`: a 20-byte header (timestamp, key size, value size,
checksum) followed by the key and the value. -/

namespace LogMq

open LittleEndian

structure Record where
  timestamp : UInt64 := 0
  key : Bytes := []
  value : Bytes := []
  crc32 : UInt32 := 0
  deriving DecidableEq, Repr

structure DecodedRecord where
  record : Record
  bytesConsumed : Nat
  deriving DecidableEq, Repr

/-- `kRecordHeaderBytes`: timestamp, key size, value size, checksum. -/
def recordHeaderBytes : Nat := 8 + 4 + 4 + 4

def timestampOffset : Nat := 0

def keyOffset : Nat := timestampOffset + 8

def valueOffset : Nat := keyOffset + 4

def crcOffset : Nat := valueOffset + 4

/-- `ReadLittleEndian`, with the message of the file that instantiates it. -/
def readLittleEndianOr (truncated : String) (width : Nat) (data : Bytes) (offset : Nat) : Result Nat :=
  if data.length < offset + width then .error (.corruption truncated)
  else .ok (leField data offset width)

theorem readLittleEndianOr_ok {truncated : String} {width offset : Nat} {data : Bytes}
    (h : offset + width ≤ data.length) :
    readLittleEndianOr truncated width data offset = .ok (leField data offset width) :=
  if_neg (by omega)

namespace Record

def readLittleEndian : Nat → Bytes → Nat → Result Nat :=
  readLittleEndianOr "record header is truncated"

end Record

def validateStringSize (name : String) (value : Bytes) : Result Unit :=
  if value.length > maxUInt32 then .error (.invalidArgument (name ++ " is too large")) else .ok ()

def encodedRecordSize (record : Record) : Nat :=
  recordHeaderBytes + record.key.length + record.value.length

/-- The checksum covers everything but itself. -/
def computeRecordCrc (record : Record) : UInt32 :=
  LogMq.crc32 (leBytes 8 record.timestamp.toNat ++ leBytes 4 record.key.length ++
    leBytes 4 record.value.length ++ record.key ++ record.value)

/-- The bytes `AppendEncodedRecord` adds for a record whose key and value fit their size fields. -/
def recordBytes (record : Record) : Bytes :=
  leBytes 8 record.timestamp.toNat ++ (leBytes 4 record.key.length ++ (leBytes 4 record.value.length ++
    (leBytes 4 (computeRecordCrc record).toNat ++ (record.key ++ record.value))))

def appendEncodedRecord (record : Record) (output : Bytes) : Result Bytes := do
  validateStringSize "record key" record.key
  validateStringSize "record value" record.value
  return output ++ recordBytes record

def decodeRecord (data : Bytes) : Result DecodedRecord :=
  if data.length < recordHeaderBytes then .error (.corruption "record header is truncated")
  else do
    let timestamp ← Record.readLittleEndian 8 data timestampOffset
    let keySize ← Record.readLittleEndian 4 data keyOffset
    let valueSize ← Record.readLittleEndian 4 data valueOffset
    let crc ← Record.readLittleEndian 4 data crcOffset
    let payloadSize := keySize + valueSize
    if payloadSize > data.length - recordHeaderBytes then
      .error (.corruption "record payload is truncated")
    else
      let record : Record :=
        { timestamp := UInt64.ofNat timestamp
          key := (data.drop recordHeaderBytes).take keySize
          value := (data.drop (recordHeaderBytes + keySize)).take valueSize
          crc32 := UInt32.ofNat crc }
      if computeRecordCrc record ≠ record.crc32 then .error (.corruption "record crc mismatch")
      else .ok ⟨record, recordHeaderBytes + payloadSize⟩

/-! ### Encoding -/

namespace Record

/-- The key and the value fit their 32-bit size fields. -/
def Fits (record : Record) : Prop :=
  record.key.length ≤ maxUInt32 ∧ record.value.length ≤ maxUInt32

instance (record : Record) : Decidable record.Fits := inferInstanceAs (Decidable (_ ∧ _))

/-- What a client put into a record: everything but the checksum. -/
def content (record : Record) : UInt64 × Bytes × Bytes := (record.timestamp, record.key, record.value)

/-- The record with the checksum `MakeRecordBatch` stores in it. -/
def sealed (record : Record) : Record := { record with crc32 := computeRecordCrc record }

theorem content_sealed (record : Record) : record.sealed.content = record.content := rfl

theorem computeRecordCrc_sealed (record : Record) :
    computeRecordCrc record.sealed = record.sealed.crc32 := rfl

theorem recordBytes_sealed (record : Record) : recordBytes record.sealed = recordBytes record := rfl

end Record

theorem recordBytes_length (record : Record) :
    (recordBytes record).length = encodedRecordSize record := by
  simp only [recordBytes, encodedRecordSize, recordHeaderBytes, List.length_append, leBytes_length]
  omega

theorem appendEncodedRecord_of_fits {record : Record} (hfits : record.Fits) (output : Bytes) :
    appendEncodedRecord record output = .ok (output ++ recordBytes record) := by
  rw [appendEncodedRecord, validateStringSize, validateStringSize, if_neg (Nat.not_lt.mpr hfits.1),
    if_neg (Nat.not_lt.mpr hfits.2)]
  rfl

theorem fits_of_appendEncodedRecord {record : Record} {output encoded : Bytes}
    (h : appendEncodedRecord record output = .ok encoded) : record.Fits := by
  unfold appendEncodedRecord validateStringSize at h
  obtain ⟨_, hkey, h⟩ := Result.bind_eq_ok.mp h
  obtain ⟨_, hvalue, h⟩ := Result.bind_eq_ok.mp h
  constructor
  · by_contra hlarge
    rw [if_pos (Nat.not_le.mp hlarge)] at hkey
    cases hkey
  · by_contra hlarge
    rw [if_pos (Nat.not_le.mp hlarge)] at hvalue
    cases hvalue

/-! ### Decoding -/

/-- The record a header and the bytes behind it spell. -/
def recordAt (data : Bytes) : Record :=
  { timestamp := UInt64.ofNat (leField data timestampOffset 8)
    key := (data.drop recordHeaderBytes).take (leField data keyOffset 4)
    value := (data.drop (recordHeaderBytes + leField data keyOffset 4)).take (leField data valueOffset 4)
    crc32 := UInt32.ofNat (leField data crcOffset 4) }

/-- Past the length check none of the header reads can fail. -/
theorem decodeRecord_of_header {data : Bytes} (h : recordHeaderBytes ≤ data.length) :
    decodeRecord data =
      if leField data keyOffset 4 + leField data valueOffset 4 > data.length - recordHeaderBytes then
        .error (.corruption "record payload is truncated")
      else if computeRecordCrc (recordAt data) ≠ (recordAt data).crc32 then
        .error (.corruption "record crc mismatch")
      else .ok ⟨recordAt data,
        recordHeaderBytes + (leField data keyOffset 4 + leField data valueOffset 4)⟩ := by
  have h20 : 20 ≤ data.length := h
  rw [decodeRecord, if_neg (Nat.not_lt.mpr h)]
  unfold Record.readLittleEndian
  rw [readLittleEndianOr_ok (show timestampOffset + 8 ≤ data.length by rw [timestampOffset]; omega),
    readLittleEndianOr_ok (show keyOffset + 4 ≤ data.length by rw [keyOffset, timestampOffset]; omega),
    readLittleEndianOr_ok (show valueOffset + 4 ≤ data.length by
      rw [valueOffset, keyOffset, timestampOffset]; omega),
    readLittleEndianOr_ok (show crcOffset + 4 ≤ data.length by
      rw [crcOffset, valueOffset, keyOffset, timestampOffset]; omega)]
  rfl

theorem decodeRecord_header {data : Bytes} {decoded : DecodedRecord}
    (h : decodeRecord data = .ok decoded) : recordHeaderBytes ≤ data.length := by
  by_contra hshort
  rw [decodeRecord, if_pos (Nat.not_le.mp hshort)] at h
  cases h

/-- A decoded record takes its header and no more than there is. -/
theorem decodeRecord_consumed {data : Bytes} {decoded : DecodedRecord}
    (h : decodeRecord data = .ok decoded) :
    recordHeaderBytes ≤ decoded.bytesConsumed ∧ decoded.bytesConsumed ≤ data.length := by
  have hheader := decodeRecord_header h
  rw [decodeRecord_of_header hheader] at h
  split_ifs at h with hsize
  cases h
  exact ⟨Nat.le_add_right _ _, by dsimp only; omega⟩

/-- Decoding looks at nothing behind the record. -/
theorem decodeRecord_append {data : Bytes} {decoded : DecodedRecord}
    (h : decodeRecord data = .ok decoded) (rest : Bytes) : decodeRecord (data ++ rest) = .ok decoded := by
  have hheader := decodeRecord_header h
  have h20 : 20 ≤ data.length := hheader
  have hlong : recordHeaderBytes ≤ (data ++ rest).length := by
    rw [List.length_append]
    omega
  have hts : leField (data ++ rest) timestampOffset 8 = leField data timestampOffset 8 :=
    leField_append (by rw [timestampOffset]; omega) rest
  have hks : leField (data ++ rest) keyOffset 4 = leField data keyOffset 4 :=
    leField_append (by rw [keyOffset, timestampOffset]; omega) rest
  have hvs : leField (data ++ rest) valueOffset 4 = leField data valueOffset 4 :=
    leField_append (by rw [valueOffset, keyOffset, timestampOffset]; omega) rest
  have hcs : leField (data ++ rest) crcOffset 4 = leField data crcOffset 4 :=
    leField_append (by rw [crcOffset, valueOffset, keyOffset, timestampOffset]; omega) rest
  rw [decodeRecord_of_header hheader] at h
  split_ifs at h with hsize hcrc
  have hfits : leField data keyOffset 4 + leField data valueOffset 4 ≤ data.length - recordHeaderBytes := by
    omega
  have hkey : ((data ++ rest).drop recordHeaderBytes).take (leField data keyOffset 4) =
      (data.drop recordHeaderBytes).take (leField data keyOffset 4) := by
    rw [List.drop_append_of_le_length hheader,
      List.take_append_of_le_length (by rw [List.length_drop]; omega)]
  have hvalue : ((data ++ rest).drop (recordHeaderBytes + leField data keyOffset 4)).take
        (leField data valueOffset 4) =
      (data.drop (recordHeaderBytes + leField data keyOffset 4)).take (leField data valueOffset 4) := by
    rw [List.drop_append_of_le_length (by omega),
      List.take_append_of_le_length (by rw [List.length_drop]; omega)]
  have hrecord : recordAt (data ++ rest) = recordAt data := by
    rw [recordAt, recordAt, hts, hks, hvs, hcs, hkey, hvalue]
  rw [decodeRecord_of_header hlong, hks, hvs, hrecord, if_neg (by rw [List.length_append]; omega),
    if_neg hcrc]
  exact h

/-- Decoding undoes encoding, whatever follows. -/
theorem decodeRecord_recordBytes {record : Record} (hfits : record.Fits) (rest : Bytes) :
    decodeRecord (recordBytes record ++ rest) = .ok ⟨record.sealed, encodedRecordSize record⟩ := by
  have hkeyLt : record.key.length < 256 ^ 4 := by have := hfits.1; unfold maxUInt32 at this; omega
  have hvalueLt : record.value.length < 256 ^ 4 := by have := hfits.2; unfold maxUInt32 at this; omega
  have htsLt : record.timestamp.toNat < 256 ^ 8 := record.timestamp.toNat_lt
  have hcrcLt : (computeRecordCrc record).toNat < 256 ^ 4 := (computeRecordCrc record).toNat_lt
  have hlength : (recordBytes record ++ rest).length =
      recordHeaderBytes + record.key.length + record.value.length + rest.length := by
    rw [List.length_append, recordBytes_length, encodedRecordSize]
  have hts : leField (recordBytes record ++ rest) timestampOffset 8 = record.timestamp.toNat := by
    rw [recordBytes, List.append_assoc]
    exact leField_leBytes htsLt _
  have hks : leField (recordBytes record ++ rest) keyOffset 4 = record.key.length := by
    simp only [recordBytes, List.append_assoc]
    rw [show keyOffset = 8 + 0 from rfl, leField_skip (leBytes_length _ _)]
    exact leField_leBytes hkeyLt _
  have hvs : leField (recordBytes record ++ rest) valueOffset 4 = record.value.length := by
    simp only [recordBytes, List.append_assoc]
    rw [show valueOffset = 8 + (4 + 0) from rfl, leField_skip (leBytes_length _ _),
      leField_skip (leBytes_length _ _)]
    exact leField_leBytes hvalueLt _
  have hcs : leField (recordBytes record ++ rest) crcOffset 4 = (computeRecordCrc record).toNat := by
    simp only [recordBytes, List.append_assoc]
    rw [show crcOffset = 8 + (4 + (4 + 0)) from rfl, leField_skip (leBytes_length _ _),
      leField_skip (leBytes_length _ _), leField_skip (leBytes_length _ _)]
    exact leField_leBytes hcrcLt _
  have hdrop : (recordBytes record ++ rest).drop recordHeaderBytes =
      record.key ++ (record.value ++ rest) := by
    simp [recordBytes, recordHeaderBytes, List.drop_append, List.drop_of_length_le]
  have hkey : ((recordBytes record ++ rest).drop recordHeaderBytes).take record.key.length =
      record.key := by
    rw [hdrop, List.take_left]
  have hvalue : ((recordBytes record ++ rest).drop (recordHeaderBytes + record.key.length)).take
      record.value.length = record.value := by
    rw [← List.drop_drop, hdrop, List.drop_left, List.take_left]
  have hrecord : recordAt (recordBytes record ++ rest) = record.sealed := by
    rw [recordAt, hts, hks, hvs, hcs, hkey, hvalue, UInt64.ofNat_toNat, UInt32.ofNat_toNat]
    rfl
  rw [decodeRecord_of_header (by rw [hlength]; omega), hks, hvs, hrecord,
    if_neg (by rw [hlength]; omega), if_neg (not_not.mpr (Record.computeRecordCrc_sealed record)),
    encodedRecordSize, Nat.add_assoc]

end LogMq
