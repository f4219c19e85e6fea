import LogMq.StorageRecovered

/-! What the scan of a read makes of the batches in front of it: each of them must fit into the byte budget, and
the first that holds the offset is returned. -/

namespace LogMq

open SparseIndex

/-- What a read makes of a batch, given a byte budget. -/
def withinBudget (maxBytes : Nat) (batch : RecordBatch) : Result RecordBatch :=
  if maxBytes < recordBatchHeaderBytes then
    .error (.invalidArgument "max_bytes is smaller than record batch header")
  else if batch.batchBytes > maxBytes then .error (.invalidArgument "record batch is larger than max_bytes")
  else .ok batch

theorem withinBudget_eq_ok {maxBytes : Nat} {batch found : RecordBatch} :
    withinBudget maxBytes batch = .ok found ↔
      recordBatchHeaderBytes ≤ maxBytes ∧ batch.batchBytes ≤ maxBytes ∧ batch = found := by
  unfold withinBudget
  by_cases hheader : maxBytes < recordBatchHeaderBytes
  · rw [if_pos hheader]
    exact ⟨fun h => (nomatch h), fun h => absurd hheader (not_lt.mpr h.1)⟩
  · by_cases hsize : batch.batchBytes > maxBytes
    · rw [if_neg hheader, if_pos hsize]
      exact ⟨fun h => (nomatch h), fun h => absurd hsize (not_lt.mpr h.2.1)⟩
    · rw [if_neg hheader, if_neg hsize]
      exact ⟨fun h => ⟨not_lt.mp hheader, not_lt.mp hsize, Except.ok.inj h⟩, fun h => congrArg Except.ok h.2.2⟩

/-- Where a batch decodes, a read depends on the byte budget only. -/
theorem readBatch_of_decodes {content : Bytes} {position : Nat} {batch : RecordBatch}
    (h : Decodes (content.drop position) batch) (maxBytes : Nat) :
    readBatch content position maxBytes = withinBudget maxBytes batch := by
  by_cases hsize : batch.batchBytes ≤ maxBytes
  · have hheader := h.header_le.trans hsize
    rw [readBatch_eq_ok.mpr ⟨hsize, h⟩]
    exact (withinBudget_eq_ok.mpr ⟨hheader, hsize, rfl⟩).symm
  · have hpos : 0 < recordBatchHeaderBytes := by decide
    have hlength : (File.pread content recordBatchHeaderBytes position).length = recordBatchHeaderBytes := by
      rw [File.pread, List.length_take, Nat.min_eq_left h.header]
    have hpeek : peekRecordBatchBytes (File.pread content recordBatchHeaderBytes position) =
        .ok batch.batchBytes := by
      rw [File.pread, peekRecordBatchBytes_take h.header]
      exact peekRecordBatchBytes_eq_ok.mpr ⟨h.header, h.magic, h.header_le, h.size⟩
    rw [readBatch, withinBudget]
    by_cases hheader : maxBytes < recordBatchHeaderBytes
    · rw [if_pos hheader, if_pos hheader]
    · rw [if_neg hheader, if_neg hheader, if_pos (Nat.not_le.mp hsize)]
      dsimp only
      rw [if_neg (by omega), if_neg (not_not.mpr hlength), hpeek]
      simp only [bind, Except.bind]
      exact if_pos (Nat.not_le.mp hsize)

/-- The scan of `Read` over the batches from its position on. -/
def scanBatches (offset : Int) (maxBytes : Nat) : List RecordBatch → Result RecordBatch
  | [] => .error (.notFound "commit log offset was not found in segment")
  | batch :: rest => do
      let batch ← withinBudget maxBytes batch
      if batchContainsOffset batch offset then .ok batch else scanBatches offset maxBytes rest

/-- **Scans.** The scan of an open segment goes through the batches that are laid out in it. -/
theorem scanSegment_eq {segment : Segment} (hopen : segment.closed = false) {content : Bytes} {offset : Int}
    {maxBytes fuel position : Nat} {batches : List RecordBatch} (hlaid : LaidOut content position batches)
    (hwritten : position + totalBytes batches = segment.writePosition)
    (hfuel : segment.writePosition - position < fuel) :
    scanSegment segment content offset maxBytes fuel position = scanBatches offset maxBytes batches := by
  induction batches generalizing position fuel with
  | nil =>
      cases fuel with
      | zero => omega
      | succ fuel => rw [scanSegment, if_neg (by rw [totalBytes] at hwritten; omega), scanBatches]
  | cons head tail ih =>
      obtain ⟨hdecodes, hlaid⟩ := hlaid
      have hheader := hdecodes.header_le
      have hpos : 0 < recordBatchHeaderBytes := by decide
      rw [totalBytes] at hwritten
      cases fuel with
      | zero => omega
      | succ fuel =>
          rw [scanSegment, if_pos (by omega), Segment.read_of_open hopen, readBatch_of_decodes hdecodes, scanBatches]
          cases hbudget : withinBudget maxBytes head with
          | error status => rfl
          | ok found =>
              obtain ⟨-, -, rfl⟩ := withinBudget_eq_ok.mp hbudget
              simp only [bind, Except.bind]
              rw [ih hlaid (by omega) (by omega)]

/-- A scan returns a batch exactly when it is the first that holds the offset, and it and all batches in front
of it fit into the budget. -/
theorem scanBatches_eq_ok {offset : Int} {maxBytes : Nat} {batches : List RecordBatch} {batch : RecordBatch} :
    scanBatches offset maxBytes batches = .ok batch ↔
      ∃ passed rest, batches = passed ++ batch :: rest ∧
        (∀ other ∈ passed, batchContainsOffset other offset = false ∧ other.batchBytes ≤ maxBytes) ∧
        batchContainsOffset batch offset = true ∧ batch.batchBytes ≤ maxBytes ∧
        recordBatchHeaderBytes ≤ maxBytes := by
  induction batches with
  | nil =>
      refine ⟨fun h => (nomatch h), ?_⟩
      rintro ⟨passed, rest, hnil, -⟩
      exact absurd hnil.symm (List.append_ne_nil_of_right_ne_nil _ (List.cons_ne_nil _ _))
  | cons head tail ih =>
      rw [scanBatches, Result.bind_eq_ok]
      constructor
      · rintro ⟨found, hbudget, h⟩
        obtain ⟨hheader, hsize, rfl⟩ := withinBudget_eq_ok.mp hbudget
        by_cases hcontains : batchContainsOffset head offset = true
        · rw [if_pos hcontains] at h
          cases h
          exact ⟨[], tail, rfl, fun _ hmem => absurd hmem List.not_mem_nil, hcontains, hsize, hheader⟩
        · rw [if_neg hcontains] at h
          obtain ⟨passed, rest, rfl, hpassed, hfound⟩ := ih.mp h
          refine ⟨head :: passed, rest, rfl, fun other hother => ?_, hfound⟩
          rcases List.mem_cons.mp hother with rfl | hother
          · exact ⟨Bool.not_eq_true _ ▸ hcontains, hsize⟩
          · exact hpassed other hother
      · rintro ⟨passed, rest, hsplit, hpassed, hcontains, hsize, hheader⟩
        cases passed with
        | nil =>
            cases hsplit
            exact ⟨batch, withinBudget_eq_ok.mpr ⟨hheader, hsize, rfl⟩, if_pos hcontains⟩
        | cons first passed =>
            cases hsplit
            obtain ⟨hmiss, hfirst⟩ := hpassed head List.mem_cons_self
            refine ⟨head, withinBudget_eq_ok.mpr ⟨hheader, hfirst, rfl⟩, ?_⟩
            rw [if_neg (by rw [hmiss]; exact Bool.false_ne_true)]
            exact ih.mpr ⟨passed, rest, rfl, fun other hother => hpassed other (List.mem_cons_of_mem _ hother),
              hcontains, hsize, hheader⟩

/-- Nothing is read from a closed segment. -/
theorem open_of_scanSegment {segment : Segment} {content : Bytes} {offset : Int} {maxBytes fuel position : Nat}
    {batch : RecordBatch} (h : scanSegment segment content offset maxBytes fuel position = .ok batch) :
    segment.closed = false := by
  cases fuel with
  | zero => cases h
  | succ fuel =>
      rw [scanSegment] at h
      split_ifs at h
      obtain ⟨found, hread, -⟩ := Result.bind_eq_ok.mp h
      by_cases hclosed : segment.closed = true
      · rw [Segment.read, if_pos hclosed] at hread
        cases hread
      · exact Bool.not_eq_true _ ▸ hclosed

/-- The batches in front of the first one that holds an offset are determined by the file. -/
theorem LaidOut.passed_unique {content : Bytes} {position : Nat} {left right : List RecordBatch}
    {batch other : RecordBatch} {offset : Int} (hleft : LaidOut content position (left ++ [batch]))
    (hright : LaidOut content position (right ++ [other]))
    (hpassed : ∀ b ∈ left, batchContainsOffset b offset = false)
    (hpassed' : ∀ b ∈ right, batchContainsOffset b offset = false)
    (hfound : batchContainsOffset batch offset = true) (hfound' : batchContainsOffset other offset = true) :
    left = right := by
  induction left generalizing position right with
  | nil =>
      cases right with
      | nil => rfl
      | cons head rest =>
          cases hleft.1.unique hright.1
          exact absurd (hfound.symm.trans (hpassed' batch List.mem_cons_self)) Bool.false_ne_true.symm
  | cons head rest ih =>
      cases right with
      | nil =>
          cases hleft.1.unique hright.1
          exact absurd (hfound'.symm.trans (hpassed other List.mem_cons_self)) Bool.false_ne_true.symm
      | cons head' rest' =>
          cases hleft.1.unique hright.1
          rw [ih hleft.2 hright.2 (fun b hb => hpassed b (List.mem_cons_of_mem _ hb))
            fun b hb => hpassed' b (List.mem_cons_of_mem _ hb)]

/-- A scan depends on the written part of the file only. -/
theorem scanSegment_congr {segment : Segment} {content content' : Bytes} {position : Nat} {batches : List RecordBatch}
    (hlaid : LaidOut content position batches) (hwritten : position + totalBytes batches = segment.writePosition)
    (hagree : content'.take segment.writePosition = content.take segment.writePosition) (offset : Int)
    (maxBytes : Nat) {fuel : Nat} (hfuel : segment.writePosition - position < fuel) :
    scanSegment segment content' offset maxBytes fuel position =
      scanSegment segment content offset maxBytes fuel position := by
  by_cases hclosed : segment.closed = true
  · cases fuel with
    | zero => rfl
    | succ fuel =>
        have hread : ∀ file, segment.read file position maxBytes =
            .error (.invalidArgument "read on closed segment") := fun _ => if_pos hclosed
        rw [scanSegment, scanSegment, hread, hread]
        rfl
  · have hopen := Bool.not_eq_true _ ▸ hclosed
    have hlaid' : LaidOut content' position batches := by
      rw [← laidOut_take (hwritten.le), hagree, laidOut_take hwritten.le]
      exact hlaid
    rw [scanSegment_eq hopen hlaid hwritten hfuel, scanSegment_eq hopen hlaid' hwritten hfuel]

/-! ### Segments and the batches in them -/

/-- A segment in memory, with the batches in the written part of its file. -/
structure Part where
  segment : Segment
  batches : List RecordBatch

namespace Part

def base (part : Part) : Int := part.segment.baseOffset

/-- The index of a segment: the sparse index over its batches. -/
def index (interval : Nat) (part : Part) : OffsetIndex :=
  ⟨part.base, interval, build IndexEntry.position interval (placed 0 part.batches)⟩

/-- A scan starts at a batch boundary. -/
theorem exists_start (part : Part) (interval : Nat) (offset : Int) :
    ∃ skipped rest, part.batches = skipped ++ rest ∧
      scanStart (part.index interval) offset = .ok (totalBytes skipped) := by
  rw [scanStart]
  cases hfloor : (part.index interval).findFloor offset with
  | error status =>
      refine ⟨[], part.batches, rfl, ?_⟩
      exact if_neg (not_not.mpr (OffsetIndex.findFloor_error hfloor))
  | ok entry =>
      have hentry := (build_sublist _).subset (OffsetIndex.mem_of_findFloor hfloor)
      obtain ⟨before, batch, after, hsplit, rfl⟩ := mem_placed hentry
      exact ⟨before, batch :: after, hsplit, congrArg Except.ok (Nat.zero_add _)⟩

/-- The batches lie between the base offset and the next offset, and they are what the file holds. -/
structure Sound (disk : Disk) (next : Int) (part : Part) : Prop where
  base_nonneg : 0 ≤ part.base
  base_le : part.base ≤ next
  laid : LaidOut (disk.content part.base) 0 part.batches
  written : part.segment.writePosition = totalBytes part.batches
  bounds : ∀ batch ∈ part.batches, part.base ≤ batch.baseOffset ∧ batch.endOffset ≤ next

end Part

end LogMq
