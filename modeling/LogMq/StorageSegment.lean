import LogMq.StorageBatchCodec

/-! Segment files of `src/storage/segment.cpp` over `src/storage/file.cpp`. A file is its content; a
read past the end is short, a write leaves every byte outside its range alone. -/

namespace LogMq

open LittleEndian

namespace File

/-- `File::PRead`: the bytes there are, up to the size asked for. -/
def pread (content : Bytes) (size offset : Nat) : Bytes := (content.drop offset).take size

/-- The content after `data` reached the file at `offset`; a gap before it reads as zeros. -/
def pwrite (content data : Bytes) (offset : Nat) : Bytes :=
  if data.isEmpty then content
  else content.take offset ++ List.replicate (offset - content.length) 0 ++ data ++
    content.drop (offset + data.length)

/-- `File::Truncate`. -/
def truncate (content : Bytes) (size : Nat) : Bytes :=
  content.take size ++ List.replicate (size - content.length) 0

/-- A write at the end of a front part replaces what followed it, byte for byte. -/
theorem pwrite_append (front behind data : Bytes) :
    pwrite (front ++ behind) data front.length = front ++ (data ++ behind.drop data.length) := by
  cases data with
  | nil => rfl
  | cons byte rest =>
      rw [pwrite, if_neg (by simp), List.take_left, List.length_append,
        show front.length - (front.length + behind.length) = 0 by omega, List.replicate_zero,
        List.append_nil, ← List.drop_drop, List.drop_left, List.append_assoc]

theorem truncate_of_le {content : Bytes} {size : Nat} (h : size ≤ content.length) :
    truncate content size = content.take size := by
  rw [truncate, show size - content.length = 0 by omega, List.replicate_zero, List.append_nil]

end File

structure Segment where
  baseOffset : Int := -1
  writePosition : Nat := 0
  closed : Bool := true
  deriving DecidableEq, Repr

/-- The body of `Segment::Read` past its check that the segment is open. -/
def readBatch (content : Bytes) (position maxBytes : Nat) : Result RecordBatch :=
  if maxBytes < recordBatchHeaderBytes then
    .error (.invalidArgument "max_bytes is smaller than record batch header")
  else
    let header := File.pread content recordBatchHeaderBytes position
    if header.length = 0 then .error (.notFound "record batch position is not readable")
    else if header.length ≠ recordBatchHeaderBytes then
      .error (.corruption "record batch header is truncated")
    else do
      let batchBytes ← peekRecordBatchBytes header
      if batchBytes > maxBytes then .error (.invalidArgument "record batch is larger than max_bytes")
      else
        let encoded := File.pread content batchBytes position
        if encoded.length ≠ batchBytes then .error (.corruption "record batch payload is truncated")
        else decodeRecordBatch encoded

namespace Segment

def read (segment : Segment) (content : Bytes) (position maxBytes : Nat) : Result RecordBatch :=
  if segment.closed then .error (.invalidArgument "read on closed segment")
  else readBatch content position maxBytes

/-- `Segment::Append`. A failing write is given by the number of bytes that reached the file and the
status `WriteAll` returned. -/
def append (segment : Segment) (content : Bytes) (batch : RecordBatch) (failure : Option (Nat × Status)) :
    Result Nat × Segment × Bytes :=
  if segment.closed then (.error (.invalidArgument "append on closed segment"), segment, content)
  else
    match encodeRecordBatch batch with
    | .error status => (.error status, segment, content)
    | .ok encoded =>
        match failure with
        | some (accepted, status) =>
            (.error status, segment, File.pwrite content (encoded.take accepted) segment.writePosition)
        | none =>
            (.ok segment.writePosition,
              { segment with writePosition := segment.writePosition + encoded.length },
              File.pwrite content encoded segment.writePosition)

theorem read_of_open {segment : Segment} (h : segment.closed = false) (content : Bytes)
    (position maxBytes : Nat) : segment.read content position maxBytes = readBatch content position maxBytes :=
  if_neg (by rw [h]; exact Bool.false_ne_true)

end Segment

/-! ### What a read returns -/

/-- Decoding depends on the header fields, the payload and there being enough bytes. -/
theorem Decodes.of_agree {left right : Bytes} {batch : RecordBatch} (h : Decodes left batch)
    (hcomplete : batch.batchBytes ≤ right.length)
    (hfield : ∀ offset width, offset + width ≤ 32 → leField right offset width = leField left offset width)
    (hpayload : payloadAt right = payloadAt left) : Decodes right batch := by
  refine ⟨h.header_le.trans hcomplete, (hfield 0 4 (by omega)).trans h.magic,
    (hfield (4 + 8 + 8) 8 (by omega)).trans h.size, h.header_le, hcomplete, ?_, ?_,
    (hfield (4 + 8) 8 (by omega)).trans h.count, h.count_pos, ?_, ?_, ?_⟩
  · rw [hfield (4 + 8 + 8 + 8) 4 (by omega)]
    exact h.crc
  · rw [hpayload]
    exact h.checksum
  · rw [hpayload]
    exact h.capacity
  · rw [hpayload]
    exact h.records
  · rw [hfield 4 8 (by omega)]
    exact h.base

/-- Decoding looks at the bytes of the batch only. -/
theorem decodes_take {data : Bytes} {batch : RecordBatch} {size : Nat} (hsize : batch.batchBytes ≤ size) :
    Decodes (data.take size) batch ↔ Decodes data batch := by
  have hfield (hle : 32 ≤ (data.take size).length) : ∀ offset width, offset + width ≤ 32 →
      leField (data.take size) offset width = leField data offset width := by
    intro offset width hwidth
    conv_rhs => rw [← List.take_append_drop size data]
    exact (leField_append (by omega) _).symm
  have hpayload (hle : 32 ≤ (data.take size).length)
      (hbatch : leField data (4 + 8 + 8) 8 = batch.batchBytes) :
      payloadAt (data.take size) = payloadAt data := by
    rw [payloadAt, payloadAt, hfield hle (4 + 8 + 8) 8 (by omega), hbatch, List.drop_take, List.take_take,
      Nat.min_eq_left (by omega)]
  constructor
  · intro h
    have hle : 32 ≤ (data.take size).length := h.header
    have hcomplete := h.complete
    rw [List.length_take] at hcomplete
    exact h.of_agree (by omega) (fun offset width hwidth => (hfield hle offset width hwidth).symm)
      (hpayload hle ((hfield hle _ _ (by omega)).symm.trans h.size)).symm
  · intro h
    have hcomplete := h.complete
    have hlength : batch.batchBytes ≤ (data.take size).length := by
      rw [List.length_take]
      omega
    have hle : 32 ≤ (data.take size).length := h.header_le.trans hlength
    exact h.of_agree hlength (hfield hle) (hpayload hle h.size)

/-- A read succeeds exactly on a position where a batch within the byte budget decodes. -/
theorem readBatch_eq_ok {content : Bytes} {position maxBytes : Nat} {batch : RecordBatch} :
    readBatch content position maxBytes = .ok batch ↔
      batch.batchBytes ≤ maxBytes ∧ Decodes (content.drop position) batch := by
  constructor
  · intro h
    unfold readBatch at h
    dsimp only at h
    split_ifs at h with hmax hempty hheader
    obtain ⟨size, hpeek, h⟩ := Result.bind_eq_ok.mp h
    split_ifs at h with hlarge hcomplete
    have hdecodes := decodeRecordBatch_eq_ok.mp h
    have hpread : (content.drop position).length ≥ recordBatchHeaderBytes := by
      have hlength := not_not.mp hheader
      rw [File.pread, List.length_take] at hlength
      omega
    rw [File.pread, peekRecordBatchBytes_take hpread] at hpeek
    obtain ⟨-, -, -, hsize⟩ := peekRecordBatchBytes_eq_ok.mp hpeek
    have hfit : batch.batchBytes ≤ size := by
      have hle := hdecodes.complete
      rwa [not_not.mp hcomplete] at hle
    exact ⟨hfit.trans (Nat.not_lt.mp hlarge), (decodes_take hfit).mp hdecodes⟩
  · rintro ⟨hmax, hdecodes⟩
    have hle := hdecodes.header_le
    have hpos : 0 < recordBatchHeaderBytes := by decide
    have hlength : (File.pread content recordBatchHeaderBytes position).length = recordBatchHeaderBytes := by
      rw [File.pread, List.length_take, Nat.min_eq_left hdecodes.header]
    have hpeek : peekRecordBatchBytes (File.pread content recordBatchHeaderBytes position) =
        .ok batch.batchBytes := by
      rw [File.pread, peekRecordBatchBytes_take hdecodes.header]
      exact peekRecordBatchBytes_eq_ok.mpr ⟨hdecodes.header, hdecodes.magic, hle, hdecodes.size⟩
    have hencoded : (File.pread content batch.batchBytes position).length = batch.batchBytes := by
      rw [File.pread, List.length_take, Nat.min_eq_left hdecodes.complete]
    rw [readBatch, if_neg (by omega)]
    dsimp only
    rw [if_neg (by omega), if_neg (not_not.mpr hlength), hpeek]
    simp only [bind, Except.bind]
    rw [if_neg (Nat.not_lt.mpr hmax), if_neg (not_not.mpr hencoded)]
    exact decodeRecordBatch_eq_ok.mpr ((decodes_take (Nat.le_refl _)).mpr hdecodes)

end LogMq
