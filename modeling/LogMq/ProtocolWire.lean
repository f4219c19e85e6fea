import LogMq.LibBigEndian
import LogMq.LibByteCodec
import LogMq.ProtocolTypes

/-! The parts of the protocol codec that all messages share: integers, strings, the frame header, and the
reader of a body. Each writer appends the bytes of a layout, and each reader reads the same layout. -/

namespace LogMq

open BigEndian ByteCodec

/-! ### Integers and strings -/

/-- `AppendBigEndian` of an unsigned number of `width` bytes. -/
def appendBigEndian (width value : Nat) (output : Bytes) : Bytes := output ++ beBytes width value

/-- `ReadBigEndian`. -/
def readBigEndian (width : Nat) (data : Bytes) (offset : Nat) : Result Nat :=
  if data.length < offset + width then throw (.invalidArgument "protocol frame is truncated")
  else pure (beValue ((data.drop offset).take width))

def stringBytes (value : Bytes) : Bytes := beBytes 4 value.length ++ value

def appendString (value output : Bytes) : Result Bytes :=
  if value.length > maxUInt32 then throw (.invalidArgument "protocol string is too large")
  else pure (appendBigEndian 4 value.length output ++ value)

/-- `static_cast<std::uint32_t>` of a signed 32-bit number. -/
def int32ToUInt32 (n : Int) : Nat := (n % 2 ^ 32).toNat

/-- `DecodePartitionId`, which is also `static_cast<std::int32_t>`. -/
def decodePartitionId (value : Nat) : Int := if (value : Int) ≤ maxInt32 then value else value - 2 ^ 32

def partitionBytes (partition : Int) : Bytes := beBytes 4 (int32ToUInt32 partition)

def appendPartitionId (partition : Int) (output : Bytes) : Bytes :=
  appendBigEndian 4 (int32ToUInt32 partition) output

def offsetBytes (offset : Int) : Bytes := beBytes 8 (offsetToUInt64 offset)

/-- An `Offset`, cast to unsigned and appended. -/
def appendOffset (offset : Int) (output : Bytes) : Bytes := appendBigEndian 8 (offsetToUInt64 offset) output

def appendGenerationId (generationId : Int) (output : Bytes) : Result Bytes :=
  if generationId < 0 then throw (.invalidArgument "generation_id must not be negative")
  else pure (appendPartitionId generationId output)

theorem appendString_ok {value output body : Bytes} :
    appendString value output = .ok body ↔ value.length ≤ maxUInt32 ∧ body = output ++ stringBytes value := by
  unfold appendString appendBigEndian stringBytes
  rw [Result.reject_eq_ok, Result.pure_eq_ok, Nat.not_lt, List.append_assoc]

theorem appendGenerationId_ok {generationId : Int} {output body : Bytes} :
    appendGenerationId generationId output = .ok body ↔
      0 ≤ generationId ∧ body = output ++ partitionBytes generationId := by
  unfold appendGenerationId
  rw [Result.reject_eq_ok, Result.pure_eq_ok, Int.not_lt]
  rfl

/-- A count or a size of four bytes. -/
theorem lt_256_pow_four_iff {value : Nat} : value < 256 ^ 4 ↔ value ≤ maxUInt32 := by
  unfold maxUInt32
  omega

/-! ### Casts between signed and unsigned -/

theorem int32ToUInt32_lt (n : Int) : int32ToUInt32 n < 256 ^ 4 := by
  unfold int32ToUInt32
  omega

theorem isInt32_decodePartitionId {value : Nat} (h : value < 256 ^ 4) : IsInt32 (decodePartitionId value) := by
  unfold IsInt32 decodePartitionId maxInt32
  split_ifs <;> omega

theorem int32ToUInt32_decodePartitionId {value : Nat} (h : value < 256 ^ 4) :
    int32ToUInt32 (decodePartitionId value) = value := by
  unfold int32ToUInt32 decodePartitionId maxInt32
  split_ifs <;> omega

theorem decodePartitionId_int32ToUInt32 {n : Int} (h : IsInt32 n) : decodePartitionId (int32ToUInt32 n) = n := by
  unfold IsInt32 at h
  unfold int32ToUInt32 decodePartitionId maxInt32
  split_ifs <;> omega

theorem isInt64_offsetOfUInt64 {value : Nat} (h : value < 256 ^ 8) : IsInt64 (offsetOfUInt64 value) := by
  unfold IsInt64 offsetOfUInt64
  split_ifs <;> omega

theorem offsetToUInt64_offsetOfUInt64 {value : Nat} (h : value < 256 ^ 8) :
    offsetToUInt64 (offsetOfUInt64 value) = value := by
  unfold offsetToUInt64 offsetOfUInt64
  split_ifs <;> omega

theorem offsetOfUInt64_offsetToUInt64 {n : Int} (h : IsInt64 n) : offsetOfUInt64 (offsetToUInt64 n) = n := by
  unfold IsInt64 at h
  unfold offsetToUInt64 offsetOfUInt64
  split_ifs <;> omega

/-! ### The reader of a body

The state of a `BodyReader` is the part of its data that it has not read. -/

abbrev BodyReader (α : Type) := Reader Status α

def readUInt (width : Nat) : BodyReader Nat := fun data => do
  let value ← readBigEndian width data 0
  return (value, data.drop width)

def readUInt32 : BodyReader UInt32 := do return UInt32.ofNat (← readUInt 4)

def readUInt64 : BodyReader UInt64 := do return UInt64.ofNat (← readUInt 8)

/-- The bytes of a string after its size. -/
def readStringPayload (size : Nat) : BodyReader Bytes := fun data =>
  if size > data.length then throw (.invalidArgument "protocol string payload is truncated")
  else pure (data.take size, data.drop size)

def readString : BodyReader Bytes := do
  let size ← readUInt 4
  readStringPayload size

def readPartitionId : BodyReader Int := do return decodePartitionId (← readUInt 4)

def readOffset : BodyReader Int := do return offsetOfUInt64 (← readUInt 8)

/-- `DecodeGenerationId` of the next number. -/
def readGenerationId : BodyReader Int := do
  let value ← readUInt 4
  require ((value : Int) ≤ maxInt32) (.invalidArgument "generation_id is too large")
  return value

/-- The reader consumes the whole body. -/
def readAll {α : Type} (reader : BodyReader α) (trailing : String) (body : Bytes) : Result α := do
  let (a, rest) ← reader body
  if rest = [] then pure a else throw (.invalidArgument trailing)

theorem readBigEndian_ok {width offset value : Nat} {data : Bytes} :
    readBigEndian width data offset = .ok value ↔
      offset + width ≤ data.length ∧ value = beValue ((data.drop offset).take width) := by
  unfold readBigEndian
  rw [Result.reject_eq_ok, Result.pure_eq_ok, Nat.not_lt]

theorem readUInt_reads (width : Nat) : Reads (readUInt width) (fun value => value < 256 ^ width) (beBytes width) := by
  intro data value rest
  show (readBigEndian width data 0 >>= fun value => pure (value, data.drop width)) = .ok (value, rest) ↔ _
  simp only [Result.bind_eq_ok, readBigEndian_ok, List.drop_zero, Nat.zero_add]
  constructor
  · rintro ⟨_, ⟨hlength, rfl⟩, hpair⟩
    cases hpair
    have htake : (data.take width).length = width := List.length_take_of_le hlength
    have hlt := beValue_lt (data.take width)
    have hbytes := beBytes_beValue (data.take width)
    rw [htake] at hlt hbytes
    exact ⟨hlt, by rw [hbytes, List.take_append_drop]⟩
  · rintro ⟨hlt, rfl⟩
    refine ⟨value, ⟨by simp, ?_⟩, ?_⟩
    · rw [List.take_left' (beBytes_length _ _), beValue_beBytes hlt]
    · rw [List.drop_left' (beBytes_length _ _)]
      rfl

/-- A field decoded from a number of `width` bytes, with a right inverse on the numbers of that width. -/
theorem readMapped_reads {α : Type} {width : Nat} {decode : Nat → α} {encode : α → Nat} {admits : α → Prop}
    (hadmits : ∀ value, value < 256 ^ width → admits (decode value))
    (hencode : ∀ value, value < 256 ^ width → encode (decode value) = value)
    (hdecode : ∀ a, admits a → encode a < 256 ^ width ∧ decode (encode a) = a) :
    Reads (do return decode (← readUInt width)) admits (fun a => beBytes width (encode a)) := by
  intro data a rest
  simp only [bind_ok, pure_ok, (readUInt_reads width).iff]
  constructor
  · rintro ⟨value, _, ⟨hlt, rfl⟩, rfl, rfl⟩
    exact ⟨hadmits value hlt, by rw [hencode value hlt]⟩
  · rintro ⟨ha, rfl⟩
    exact ⟨encode a, rest, ⟨(hdecode a ha).1, rfl⟩, (hdecode a ha).2.symm, rfl⟩

theorem readUInt32_reads : Reads readUInt32 (fun _ => True) (fun value => beBytes 4 value.toNat) :=
  readMapped_reads (fun _ _ => trivial) (fun _ h => UInt32.toNat_ofNat_of_lt' h)
    (fun a _ => ⟨a.toNat_lt, UInt32.ofNat_toNat⟩)

theorem readUInt64_reads : Reads readUInt64 (fun _ => True) (fun value => beBytes 8 value.toNat) :=
  readMapped_reads (fun _ _ => trivial) (fun _ h => UInt64.toNat_ofNat_of_lt' h)
    (fun a _ => ⟨a.toNat_lt, UInt64.ofNat_toNat⟩)

theorem readPartitionId_reads : Reads readPartitionId IsInt32 partitionBytes :=
  readMapped_reads (fun _ => isInt32_decodePartitionId) (fun _ => int32ToUInt32_decodePartitionId)
    (fun n h => ⟨int32ToUInt32_lt n, decodePartitionId_int32ToUInt32 h⟩)

theorem readOffset_reads : Reads readOffset IsInt64 offsetBytes :=
  readMapped_reads (fun _ => isInt64_offsetOfUInt64) (fun _ => offsetToUInt64_offsetOfUInt64)
    (fun n h => ⟨offsetToUInt64_lt n, offsetOfUInt64_offsetToUInt64 h⟩)

theorem readStringPayload_reads (size : Nat) :
    Reads (readStringPayload size) (fun value => value.length = size) id := by
  intro data value rest
  unfold readStringPayload
  rw [Result.reject_eq_ok, Result.pure_eq_ok, Nat.not_lt, Prod.mk.injEq]
  constructor
  · rintro ⟨hle, rfl, rfl⟩
    exact ⟨List.length_take_of_le hle, (List.take_append_drop _ _).symm⟩
  · rintro ⟨rfl, rfl⟩
    refine ⟨by simp, ?_, ?_⟩
    · rw [id, List.take_left]
    · rw [id, List.drop_left]

theorem readString_reads : Reads readString (fun value => value.length ≤ maxUInt32) stringBytes := by
  intro data value rest
  simp only [readString, bind_ok, (readUInt_reads 4).iff, (readStringPayload_reads _).iff, id, stringBytes]
  constructor
  · rintro ⟨_, _, ⟨hlt, rfl⟩, rfl, rfl⟩
    exact ⟨lt_256_pow_four_iff.mp hlt, by rw [List.append_assoc]⟩
  · rintro ⟨hle, rfl⟩
    exact ⟨value.length, value ++ rest, ⟨lt_256_pow_four_iff.mpr hle, by rw [List.append_assoc]⟩, rfl, rfl⟩

theorem readGenerationId_reads :
    Reads readGenerationId (fun generationId => 0 ≤ generationId ∧ IsInt32 generationId) partitionBytes := by
  intro data generationId rest
  simp only [readGenerationId, bind_ok, pure_ok, require_ok, (readUInt_reads 4).iff]
  unfold maxInt32 IsInt32 partitionBytes int32ToUInt32
  constructor
  · rintro ⟨value, _, ⟨hlt, rfl⟩, _, _, ⟨hle, rfl⟩, rfl, rfl⟩
    have hcast : ((value : Int) % 2 ^ 32).toNat = value := by omega
    exact ⟨by omega, by rw [hcast]⟩
  · rintro ⟨hrange, rfl⟩
    exact ⟨(generationId % 2 ^ 32).toNat, rest, ⟨by omega, rfl⟩, (), rest, ⟨by omega, rfl⟩, by omega, rfl⟩

theorem readAll_ok {α : Type} {reader : BodyReader α} {admits : α → Prop} {layout : α → Bytes}
    (h : Reads reader admits layout) {trailing : String} {body : Bytes} {a : α} :
    readAll reader trailing body = .ok a ↔ admits a ∧ body = layout a := by
  unfold readAll
  simp only [Result.bind_eq_ok, Prod.exists]
  constructor
  · rintro ⟨b, rest, hread, hend⟩
    by_cases hrest : rest = []
    · rw [if_pos hrest] at hend
      cases hend
      obtain ⟨hadmits, hbody⟩ := h.iff.mp hread
      rw [hrest, List.append_nil] at hbody
      exact ⟨hadmits, hbody⟩
    · rw [if_neg hrest] at hend
      cases hend
  · rintro ⟨hadmits, rfl⟩
    refine ⟨a, [], h.iff.mpr ⟨hadmits, (List.append_nil _).symm⟩, ?_⟩
    rw [if_pos rfl]
    rfl

end LogMq
