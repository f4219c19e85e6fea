import LogMq.StorageCommitLog

/-! Batches laid out in a file one behind the other: what a scan from the front of some batch finds, and
what recovery makes of a file whose readable batches are known. Both the files the log writes and
arbitrary damaged files are described this way. -/

namespace LogMq

open SparseIndex

/-- These batches can be read one after the other from a position. -/
def LaidOut (content : Bytes) : Nat → List RecordBatch → Prop
  | _, [] => True
  | position, batch :: rest =>
      Decodes (content.drop position) batch ∧ LaidOut content (position + batch.batchBytes) rest

/-- The bytes that batches take. -/
def totalBytes : List RecordBatch → Nat
  | [] => 0
  | batch :: rest => batch.batchBytes + totalBytes rest

/-- The index entries that batches laid out from a position are offered as. -/
def placed : Nat → List RecordBatch → List IndexEntry
  | _, [] => []
  | position, batch :: rest => ⟨batch.baseOffset, position⟩ :: placed (position + batch.batchBytes) rest

/-- The largest end offset among a start and some batches. -/
def maxEnd : Int → List RecordBatch → Int
  | start, [] => start
  | start, batch :: rest => maxEnd (max start batch.endOffset) rest

/-- An index offered entries one after the other, as recovery does. -/
def offerAll : List IndexEntry → OffsetIndex → Result OffsetIndex
  | [], index => .ok index
  | entry :: rest, index => do
      let index ← index.maybeAppend entry.offset entry.position
      offerAll rest index

/-! ### Lists of batches -/

@[simp] theorem totalBytes_append (left right : List RecordBatch) :
    totalBytes (left ++ right) = totalBytes left + totalBytes right := by
  induction left with
  | nil => rw [List.nil_append, totalBytes, Nat.zero_add]
  | cons batch rest ih => rw [List.cons_append, totalBytes, ih, totalBytes, Nat.add_assoc]

theorem placed_append (position : Nat) (left right : List RecordBatch) :
    placed position (left ++ right) = placed position left ++ placed (position + totalBytes left) right := by
  induction left generalizing position with
  | nil => rfl
  | cons batch rest ih => rw [List.cons_append, placed, ih, placed, totalBytes, Nat.add_assoc]; rfl

/-- A placed entry is a batch and the bytes before it. -/
theorem mem_placed {position : Nat} {batches : List RecordBatch} {entry : IndexEntry}
    (h : entry ∈ placed position batches) :
    ∃ before batch after, batches = before ++ batch :: after ∧
      entry = ⟨batch.baseOffset, position + totalBytes before⟩ := by
  induction batches generalizing position with
  | nil => cases h
  | cons head rest ih =>
      rcases List.mem_cons.mp h with rfl | h
      · exact ⟨[], head, rest, rfl, rfl⟩
      · obtain ⟨before, batch, after, rfl, rfl⟩ := ih h
        exact ⟨head :: before, batch, after, rfl, by rw [totalBytes, Nat.add_assoc]⟩

theorem laidOut_append {content : Bytes} {position : Nat} {left right : List RecordBatch} :
    LaidOut content position (left ++ right) ↔
      LaidOut content position left ∧ LaidOut content (position + totalBytes left) right := by
  induction left generalizing position with
  | nil => rw [List.nil_append, totalBytes, Nat.add_zero, LaidOut, true_and]
  | cons batch rest ih => rw [List.cons_append, LaidOut, ih, LaidOut, totalBytes, Nat.add_assoc, and_assoc]

/-- Batches laid out in a file lie inside it. -/
theorem LaidOut.total_le {content : Bytes} {position : Nat} {batches : List RecordBatch}
    (h : LaidOut content position batches) (hposition : position ≤ content.length) :
    position + totalBytes batches ≤ content.length := by
  induction batches generalizing position with
  | nil => exact hposition
  | cons batch rest ih =>
      have hcomplete := h.1.complete
      have hheader := h.1.header
      have hpos : 0 < recordBatchHeaderBytes := by decide
      rw [List.length_drop] at hcomplete hheader
      rw [totalBytes, ← Nat.add_assoc]
      exact ih h.2 (by omega)

/-- Cutting a file behind laid out batches leaves them laid out. -/
theorem laidOut_take {content : Bytes} {position size : Nat} {batches : List RecordBatch}
    (hsize : position + totalBytes batches ≤ size) :
    LaidOut (content.take size) position batches ↔ LaidOut content position batches := by
  induction batches generalizing position with
  | nil => exact Iff.rfl
  | cons batch rest ih =>
      rw [totalBytes] at hsize
      rw [LaidOut, LaidOut, ih (by omega), List.drop_take, decodes_take (by omega)]

/-- The bytes of well-formed batches are laid out where they stand. -/
theorem laidOut_bytes {batches : List RecordBatch} (hvalid : ∀ batch ∈ batches, batch.Valid)
    (front rest : Bytes) :
    LaidOut (front ++ (batches.flatMap RecordBatch.bytes ++ rest)) front.length batches := by
  induction batches generalizing front with
  | nil => trivial
  | cons batch tail ih =>
      have hbatch := hvalid batch List.mem_cons_self
      have htail := ih (fun b hb => hvalid b (List.mem_cons_of_mem _ hb)) (front ++ batch.bytes)
      rw [List.length_append, hbatch.length_bytes, List.append_assoc, ← List.append_assoc batch.bytes] at htail
      refine ⟨?_, htail⟩
      rw [List.drop_left, List.flatMap_cons, List.append_assoc]
      exact hbatch.decodes _

theorem length_flatMap_bytes {batches : List RecordBatch} (hvalid : ∀ batch ∈ batches, batch.Valid) :
    (batches.flatMap RecordBatch.bytes).length = totalBytes batches := by
  induction batches with
  | nil => rfl
  | cons batch rest ih =>
      rw [List.flatMap_cons, List.length_append, (hvalid batch List.mem_cons_self).length_bytes,
        ih fun b hb => hvalid b (List.mem_cons_of_mem _ hb), totalBytes]

/-! ### Offering entries -/

theorem offerAll_append (left right : List IndexEntry) (index : OffsetIndex) :
    offerAll (left ++ right) index = offerAll left index >>= offerAll right := by
  induction left generalizing index with
  | nil => rfl
  | cons entry rest ih =>
      rw [List.cons_append, offerAll, offerAll]
      cases index.maybeAppend entry.offset entry.position with
      | error status => rfl
      | ok next => exact ih next

/-- An index that accepted every entry is the sparse index over them. -/
theorem offerAll_eq_ok {entries : List IndexEntry} {index result : OffsetIndex}
    (h : offerAll entries index = .ok result) :
    result = { index with
      entries := entries.foldl (add IndexEntry.position index.intervalBytes) index.entries } := by
  induction entries generalizing index with
  | nil => cases h; rfl
  | cons entry rest ih =>
      obtain ⟨next, hnext, h⟩ := Result.bind_eq_ok.mp h
      obtain ⟨-, rfl⟩ := OffsetIndex.maybeAppend_eq_ok.mp hnext
      rw [ih h]
      rfl

/-! ### Scans -/

/-- A scan returns the first batch that contains the offset, if no batch on the way is larger than the
budget. -/
theorem scanSegment_found {segment : Segment} (hopen : segment.closed = false) {content : Bytes}
    {offset : Int} {maxBytes fuel position : Nat} {skipped rest : List RecordBatch} {batch : RecordBatch}
    (hlaid : LaidOut content position (skipped ++ batch :: rest))
    (hskipped : ∀ b ∈ skipped, batchContainsOffset b offset = false ∧ b.batchBytes ≤ maxBytes)
    (hfound : batchContainsOffset batch offset = true) (hsize : batch.batchBytes ≤ maxBytes)
    (hwritten : position + totalBytes (skipped ++ [batch]) ≤ segment.writePosition)
    (hfuel : segment.writePosition - position < fuel) :
    scanSegment segment content offset maxBytes fuel position = .ok batch := by
  induction skipped generalizing position fuel with
  | nil =>
      obtain ⟨hdecodes, -⟩ := hlaid
      have hheader := hdecodes.header_le
      have hpos : 0 < recordBatchHeaderBytes := by decide
      rw [List.nil_append, totalBytes, totalBytes] at hwritten
      cases fuel with
      | zero => omega
      | succ fuel =>
          rw [scanSegment, if_pos (by omega), Segment.read_of_open hopen,
            readBatch_eq_ok.mpr ⟨hsize, hdecodes⟩]
          exact if_pos hfound
  | cons head tail ih =>
      obtain ⟨hdecodes, hlaid⟩ := hlaid
      obtain ⟨hmiss, hhead⟩ := hskipped head List.mem_cons_self
      have hheader := hdecodes.header_le
      have hpos : 0 < recordBatchHeaderBytes := by decide
      rw [List.cons_append, totalBytes] at hwritten
      cases fuel with
      | zero => omega
      | succ fuel =>
          rw [scanSegment, if_pos (by omega), Segment.read_of_open hopen,
            readBatch_eq_ok.mpr ⟨hhead, hdecodes⟩]
          simp only [bind, Except.bind, hmiss, Bool.false_eq_true, if_false]
          exact ih hlaid (fun b hb => hskipped b (List.mem_cons_of_mem _ hb)) (by omega) (by omega)

/-- A scan over batches none of which contains the offset finds nothing. -/
theorem scanSegment_missing {segment : Segment} (hopen : segment.closed = false) {content : Bytes}
    {offset : Int} {maxBytes fuel position : Nat} {batches : List RecordBatch}
    (hlaid : LaidOut content position batches)
    (hmiss : ∀ b ∈ batches, batchContainsOffset b offset = false ∧ b.batchBytes ≤ maxBytes)
    (hwritten : position + totalBytes batches = segment.writePosition)
    (hfuel : segment.writePosition - position < fuel) :
    scanSegment segment content offset maxBytes fuel position =
      .error (.notFound "commit log offset was not found in segment") := by
  induction batches generalizing position fuel with
  | nil =>
      cases fuel with
      | zero => rfl
      | succ fuel => rw [scanSegment, if_neg (by rw [totalBytes] at hwritten; omega)]
  | cons head tail ih =>
      obtain ⟨hdecodes, hlaid⟩ := hlaid
      obtain ⟨hhead, hsize⟩ := hmiss head List.mem_cons_self
      have hheader := hdecodes.header_le
      have hpos : 0 < recordBatchHeaderBytes := by decide
      rw [totalBytes] at hwritten
      cases fuel with
      | zero => omega
      | succ fuel =>
          rw [scanSegment, if_pos (by omega), Segment.read_of_open hopen,
            readBatch_eq_ok.mpr ⟨hsize, hdecodes⟩]
          simp only [bind, Except.bind, hhead, Bool.false_eq_true, if_false]
          exact ih hlaid (fun b hb => hmiss b (List.mem_cons_of_mem _ hb)) (by omega) (by omega)

/-! ### Recovery of one segment -/

/-- No batch can be read at this position. -/
def Stops (content : Bytes) (position : Nat) : Prop :=
  ∀ batch, readBatch content position (content.length - position) ≠ .ok batch

/-- What recovery decides where it stops. -/
def checkStop (options : CommitLogOptions) (content : Bytes) (active : Bool) (position : Nat) : Result Unit :=
  if position < content.length then
    match readBatch content position (content.length - position) with
    | .error status => checkTail options content active position status
    | .ok _ => .ok ()
  else .ok ()

/-- **Recovery.** The loop offers every readable batch to the index and then decides about the rest. -/
theorem recoverLoop_eq {options : CommitLogOptions} {segment : Segment} (hopen : segment.closed = false)
    {content : Bytes} {active : Bool} {batches : List RecordBatch} {fuel : Nat} {state : Recovery}
    (hlaid : LaidOut content state.position batches)
    (hstops : Stops content (state.position + totalBytes batches))
    (hfuel : content.length - state.position < fuel) :
    recoverLoop options segment content active fuel state = (do
      let index ← offerAll (placed state.position batches) state.index
      checkStop options content active (state.position + totalBytes batches)
      return ⟨state.position + totalBytes batches, index, maxEnd state.nextOffset batches⟩) := by
  induction batches generalizing fuel state with
  | nil =>
      change _ = (do checkStop options content active state.position; return state)
      cases fuel with
      | zero => omega
      | succ fuel =>
          rw [recoverLoop, Segment.read_of_open hopen, checkStop]
          by_cases hlt : state.position < content.length
          · rw [if_pos hlt, if_pos hlt]
            cases hread : readBatch content state.position (content.length - state.position) with
            | error status => rfl
            | ok batch => exact absurd hread (hstops batch)
          · rw [if_neg hlt, if_neg hlt]
            rfl
  | cons batch rest ih =>
      obtain ⟨hdecodes, hlaid⟩ := hlaid
      have hcomplete := hdecodes.complete
      have hheader := hdecodes.header_le
      have hpos : 0 < recordBatchHeaderBytes := by decide
      rw [List.length_drop] at hcomplete
      rw [totalBytes, ← Nat.add_assoc] at hstops ⊢
      cases fuel with
      | zero => omega
      | succ fuel =>
          rw [recoverLoop, if_pos (by omega), Segment.read_of_open hopen,
            readBatch_eq_ok.mpr ⟨by omega, hdecodes⟩, placed, offerAll]
          dsimp only
          cases hindex : state.index.maybeAppend batch.baseOffset state.position with
          | error status => rfl
          | ok index => exact ih hlaid hstops (by dsimp only; omega)

/-- Every file has readable batches that end where reading stops. -/
theorem exists_laidOut (content : Bytes) (position : Nat) :
    ∃ batches, LaidOut content position batches ∧ Stops content (position + totalBytes batches) := by
  induction hlength : content.length - position using Nat.strong_induction_on generalizing position with
  | _ remaining ih =>
      by_cases hstops : Stops content position
      · exact ⟨[], trivial, hstops⟩
      · unfold Stops at hstops
        push Not at hstops
        obtain ⟨batch, hread⟩ := hstops
        obtain ⟨hmax, hdecodes⟩ := readBatch_eq_ok.mp hread
        have hheader := hdecodes.header_le
        have hpos : 0 < recordBatchHeaderBytes := by decide
        obtain ⟨batches, hlaid, hend⟩ := ih (content.length - (position + batch.batchBytes)) (by omega)
          (position + batch.batchBytes) rfl
        rw [Nat.add_assoc] at hend
        exact ⟨batch :: batches, ⟨hdecodes, hlaid⟩, hend⟩

end LogMq
