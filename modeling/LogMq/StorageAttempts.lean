import LogMq.StorageChain
import LogMq.StorageParts

/-! `Append` on a consistent log, step by step and with every failure it can meet on the way. -/

namespace LogMq

open SparseIndex

namespace Consistent

variable {store : Store} {front : List Part} {last : Part}

/-- The next batch decodes behind the others when it has been written. -/
theorem laid_written (h : last.Sound store.disk store.log.nextOffset) {batch : RecordBatch} (hvalid : batch.Valid) :
    LaidOut (File.pwrite (store.disk.content last.base) batch.bytes last.segment.writePosition) 0
      (last.batches ++ [batch]) := by
  obtain ⟨rest, hrest⟩ := @File.drop_pwrite _ batch.bytes _ h.written_le
  have hsize : 0 + totalBytes last.batches ≤ last.segment.writePosition := by rw [Nat.zero_add, h.written]
  rw [laidOut_append, ← laidOut_take hsize, File.take_pwrite h.written_le, laidOut_take hsize, Nat.zero_add, ← h.written]
  refine ⟨h.laid, ?_, trivial⟩
  rw [hrest]
  exact hvalid.decodes rest

/-- The index accepts the next batch. -/
theorem accepts (h : last.Sound store.disk store.log.nextOffset) (interval : Nat) {batch : RecordBatch}
    (hbase : batch.baseOffset = store.log.nextOffset) :
    (last.index interval).Accepts batch.baseOffset last.segment.writePosition := by
  refine ⟨h.base_nonneg, hbase ▸ h.base_le, fun entry hentry => ?_⟩
  have hmem : entry ∈ placed 0 last.batches := (build_sublist _).subset (List.mem_of_getLast? hentry)
  obtain ⟨before, found, after, hsplit, rfl⟩ := mem_placed hmem
  have hlaid := h.laid
  have hend := (h.bounds found (hsplit ▸ List.mem_append_right _ List.mem_cons_self)).2
  rw [hsplit, laidOut_append] at hlaid
  have hpos := hlaid.2.1.count_pos
  rw [RecordBatch.endOffset] at hend
  refine ⟨by dsimp only; omega, ?_⟩
  rw [h.written, hsplit, totalBytes_append, Nat.zero_add]
  exact Nat.le_add_right _ _

/-- A write to the last file that leaves its written part alone. -/
theorem agree_writeLast (h : Consistent store front last) {bytes : Bytes}
    (hbytes : bytes.take last.segment.writePosition =
      (store.disk.content last.base).take last.segment.writePosition) :
    ∀ part ∈ front ++ [last],
      ((store.disk.writeLog last.base bytes).content part.base).take part.segment.writePosition =
        (store.disk.content part.base).take part.segment.writePosition := by
  intro part hpart
  rw [Disk.content_writeLog]
  rcases List.mem_append.mp hpart with hfront | hself
  · have hlt := (List.pairwise_append.mp h.sorted).2.2 part hfront last (List.mem_singleton_self _)
    rw [if_neg hlt.ne]
  · rw [List.mem_singleton.mp hself, if_pos rfl]
    exact hbytes

theorem of_writeLast (h : Consistent store front last) {bytes : Bytes}
    (hbytes : bytes.take last.segment.writePosition =
      (store.disk.content last.base).take last.segment.writePosition) :
    Unseen store ⟨store.log, store.disk.writeLog last.base bytes⟩ ∧
      Consistent ⟨store.log, store.disk.writeLog last.base bytes⟩ front last := by
  have hagree := h.agree_writeLast hbytes
  constructor
  · refine @unseen _ _ _ h ⟨store.log, _⟩ [] rfl rfl (List.append_nil _).symm (List.append_nil _).symm ?_ hagree
    exact fun _ hmem => absurd hmem List.not_mem_nil
  · refine ⟨h.interval_pos, h.segments, h.indexes, h.sorted,
      fun part hpart => (h.parts part hpart).mono (le_refl _) (hagree part hpart), fun base hbase => ?_⟩
    rw [Disk.content_writeLog, if_neg hbase.ne']
    exact h.fresh base hbase

end Consistent

/-- A segment with one batch more. -/
def Part.extended (part : Part) (batch : RecordBatch) : Part where
  segment := { part.segment with writePosition := part.segment.writePosition + batch.bytes.length }
  batches := part.batches ++ [batch]

/-- A log with one batch more in its last segment. -/
def extendedLog (log : CommitLog) (last : Part) (batch : RecordBatch) : CommitLog :=
  { log with
    segments := log.segments.dropLast ++ [(last.extended batch).segment]
    indexes := log.indexes.dropLast ++ [(last.extended batch).index log.options.indexIntervalBytes]
    nextOffset := log.nextOffset + batch.recordCount }

/-! ### What a call can come to -/

/-- The records of a batch can be read back at every offset they were given. -/
def ReadsBack (store : Store) (batch : RecordBatch) : Prop :=
  ∀ offset, batch.baseOffset ≤ offset → offset < batch.endOffset →
    ∀ maxBytes, batch.batchBytes ≤ maxBytes → store.log.options.indexIntervalBytes ≤ maxBytes →
      store.read offset maxBytes = .ok batch

/-- What an `Append` can come to: a failure that no reader sees, or a batch at the next offset. -/
inductive Attempt (store : Store) (records : List Record) : Result AppendResult × Store → Prop
  | failed {status : Status} {store' : Store} (hunseen : Unseen store store') :
      Attempt store records (.error status, store')
  | done {result : AppendResult} {store' : Store} {batch : RecordBatch}
      (hbase : result.baseOffset = store.log.nextOffset)
      (hbatch : makeRecordBatch store.log.nextOffset records = .ok batch) (hreads : ReadsBack store' batch) :
      Attempt store records (.ok result, store')

namespace Consistent

variable {store : Store} {front : List Part} {last : Part}

theorem extended (h : Consistent store front last) {batch : RecordBatch} (hvalid : batch.Valid)
    (hbase : batch.baseOffset = store.log.nextOffset) :
    Consistent ⟨extendedLog store.log last batch, store.disk.writeLog last.base
      (File.pwrite (store.disk.content last.base) batch.bytes last.segment.writePosition)⟩
      front (last.extended batch) := by
  have hlast := h.parts last (last_mem front last)
  have hnext : store.log.nextOffset ≤ store.log.nextOffset + batch.recordCount := by omega
  have hagree := h.agree_writeLast (@File.take_pwrite _ batch.bytes _ hlast.written_le)
  refine ⟨h.interval_pos, ?_, ?_, ?_, ?_, ?_⟩
  · rw [extendedLog, h.segments, List.map_append, List.map_append, List.map_singleton, List.dropLast_concat]
    rfl
  · rw [extendedLog, h.indexes, List.map_append, List.map_append, List.map_singleton, List.dropLast_concat]
    rfl
  · refine List.pairwise_append.mpr ⟨(List.pairwise_append.mp h.sorted).1, List.pairwise_singleton _ _, ?_⟩
    intro left hleft right hright
    rw [List.mem_singleton.mp hright]
    exact (List.pairwise_append.mp h.sorted).2.2 left hleft last (List.mem_singleton_self _)
  · intro part hpart
    rcases List.mem_append.mp hpart with hfront | hself
    · exact (h.parts part (List.mem_append_left _ hfront)).mono hnext
        (hagree part (List.mem_append_left _ hfront))
    · rw [List.mem_singleton.mp hself]
      refine ⟨hlast.base_nonneg, hlast.base_le.trans hnext, ?_, ?_, ?_⟩
      · change LaidOut ((store.disk.writeLog last.base _).content last.base) 0 _
        rw [Disk.content_writeLog, if_pos rfl]
        exact laid_written hlast hvalid
      · change last.segment.writePosition + batch.bytes.length = totalBytes (last.batches ++ [batch])
        rw [hlast.written, hvalid.length_bytes, totalBytes_append, totalBytes, totalBytes, Nat.add_zero]
      · intro other hother
        rcases List.mem_append.mp hother with hold | hnew
        · exact ⟨(hlast.bounds other hold).1, (hlast.bounds other hold).2.trans hnext⟩
        · rw [List.mem_singleton.mp hnew]
          refine ⟨hbase ▸ hlast.base_le, ?_⟩
          change batch.baseOffset + batch.recordCount ≤ store.log.nextOffset + batch.recordCount
          rw [hbase]
  · intro base hlt
    have hbehind : last.base < base := hlt
    rw [Disk.content_writeLog, if_neg hbehind.ne']
    exact h.fresh base hbehind

theorem index_extended (last : Part) {interval : Nat} {batch : RecordBatch}
    (hwritten : last.segment.writePosition = totalBytes last.batches) :
    { last.index interval with
        entries := add IndexEntry.position interval (last.index interval).entries
          ⟨batch.baseOffset, last.segment.writePosition⟩ } = (last.extended batch).index interval := by
  change _ = OffsetIndex.mk _ _ (build _ _ (placed 0 (last.batches ++ [batch])))
  rw [placed_append, Nat.zero_add, hwritten]
  exact congrArg (OffsetIndex.mk _ _) (build_concat _ _).symm

/-- **Writing a batch.** A failure is not seen; a success adds the batch at the end. -/
theorem appendBatch (h : Consistent store front last) {batch : RecordBatch} (hvalid : batch.Valid)
    (hbase : batch.baseOffset = store.log.nextOffset) (faults : IoFaults) :
    (∃ status, (store.appendBatch batch faults).1 = .error status ∧
        Unseen store (store.appendBatch batch faults).2 ∧
        Consistent (store.appendBatch batch faults).2 front last) ∨
      last.segment.closed = false ∧
        store.appendBatch batch faults = (.ok ⟨batch.baseOffset, last.segment.writePosition,
          segmentPath store.log.options last.base⟩, ⟨extendedLog store.log last batch, store.disk.writeLog last.base
            (File.pwrite (store.disk.content last.base) batch.bytes last.segment.writePosition)⟩) := by
  have hlast := h.parts last (last_mem front last)
  unfold Store.appendBatch Segment.append
  rw [h.getLast_segments, h.getLast_indexes]
  dsimp only
  by_cases hclosed : last.segment.closed = true
  · rw [if_pos hclosed]
    have hsame := @of_writeLast _ _ _ h _ rfl
    exact Or.inl ⟨_, rfl, hsame⟩
  · rw [if_neg hclosed, hvalid.encodeRecordBatch]
    cases hwrite : faults.writeBatch with
    | some failure =>
        obtain ⟨accepted, status⟩ := failure
        exact Or.inl ⟨status, rfl, h.of_writeLast (File.take_pwrite hlast.written_le)⟩
    | none =>
        right
        refine ⟨Bool.not_eq_true _ ▸ hclosed, ?_⟩
        dsimp only
        rw [OffsetIndex.maybeAppend_of_accepts (accepts hlast _ hbase), extendedLog,
          ← index_extended last hlast.written]
        rfl

/-- The batch behind the others is read with a budget that covers it and the index interval. -/
theorem read_last (h : Consistent store front last) (hlog : store.log.closed = false)
    (hopen : last.segment.closed = false) {before : List RecordBatch} {batch : RecordBatch}
    (hbatches : last.batches = before ++ [batch])
    (hbefore : ∀ other ∈ before, other.baseOffset ≤ batch.baseOffset ∧ other.endOffset ≤ batch.baseOffset)
    {offset : Int} (hle : batch.baseOffset ≤ offset) (hlt : offset < batch.endOffset) {maxBytes : Nat}
    (hsize : batch.batchBytes ≤ maxBytes) (hinterval : store.log.options.indexIntervalBytes ≤ maxBytes) :
    store.read offset maxBytes = .ok batch := by
  have hlast := h.parts last (last_mem front last)
  have hnonneg := hlast.base_nonneg
  obtain ⟨hlow, hhigh⟩ := hlast.bounds batch (hbatches ▸ List.mem_append_right _ (List.mem_singleton_self _))
  have hsegments : store.log.segments = front.map Part.segment ++ last.segment :: [] := by
    rw [h.segments, List.map_append, List.map_singleton]
  have hindex : store.log.indexes[(front.map Part.segment).length]? =
      some (last.index store.log.options.indexIntervalBytes) := by
    rw [h.indexes, List.map_append, List.map_singleton, List.length_map, List.getElem?_append_right
      (by rw [List.length_map]), List.length_map, Nat.sub_self, List.getElem?_cons_zero]
  have hfront : ∀ other ∈ front.map Part.segment ++ [last.segment], other.baseOffset ≤ offset := by
    intro other hother
    rcases List.mem_append.mp hother with hother | hself
    · obtain ⟨part, hpart, rfl⟩ := List.mem_map.mp hother
      have hsorted := (List.pairwise_append.mp h.sorted).2.2 part hpart last (List.mem_singleton_self _)
      exact hsorted.le.trans (hlow.trans hle)
    · rw [List.mem_singleton.mp hself]
      exact hlow.trans hle
  have hpast : ∀ other ∈ before ++ [batch], other.baseOffset ≤ offset := by
    intro other hother
    rcases List.mem_append.mp hother with hold | hself
    · exact (hbefore other hold).1.trans hle
    · rw [List.mem_singleton.mp hself]
      exact hle
  obtain ⟨pre, skipped, first, rfl, hfloor, hclose⟩ := @exists_floor last.base _ h.interval_pos _ [] _ _ hpast
    (fun _ hmem => absurd hmem List.not_mem_nil)
  rw [← hbatches] at hfloor
  have hstart : scanStart (last.index store.log.options.indexIntervalBytes) offset = .ok (totalBytes pre) := by
    rw [scanStart, Part.index, hfloor]
  have hlaid := hlast.laid
  have hwritten := hlast.written
  rw [hbatches, List.append_assoc, laidOut_append, Nat.zero_add] at hlaid
  rw [hbatches, List.append_assoc, totalBytes_append] at hwritten
  rw [Store.read_eq_scan hlog (by omega) (by omega) hsegments hfront (fun _ hmem => absurd hmem List.not_mem_nil)
    hindex, hstart]
  refine scanSegment_found hopen hlaid.2 (fun other hother => ⟨?_, ?_⟩)
    (batchContainsOffset_eq_true.mpr ⟨by omega, hle, hlt⟩) hsize ?_ ?_
  · exact batchContainsOffset_of_endOffset_le ((hbefore other (List.mem_append_right _ hother)).2.trans hle)
  · have hother := batchBytes_le_totalBytes hother
    omega
  · exact hwritten.ge
  · omega

/-- **Append.** Every `Append` fails unseen, or returns the next offset for a batch that can be read back. -/
theorem append (h : Consistent store front last) (records : List Record) (faults : IoFaults) :
    (∃ front' last', Consistent (store.append records faults).2 front' last') ∧
      Attempt store records (store.append records faults) := by
  have hrefused (status : Status) : (∃ front' last', Consistent store front' last') ∧
      Attempt store records (.error status, store) := ⟨⟨front, last, h⟩, .failed (.refl store)⟩
  rw [Store.append]
  split_ifs with hclosed hempty hmany
  · exact hrefused _
  · exact hrefused _
  · exact hrefused _
  cases hbatch : makeRecordBatch store.log.nextOffset records with
  | error status => exact hrefused status
  | ok batch =>
      obtain ⟨hmade, hbase, hcount, -⟩ := makeRecordBatch_eq_ok hbatch
      have hvalid := hmade (by omega)
      obtain ⟨hunseen, front', last', hroom⟩ := h.makeRoom hbase faults
      dsimp only
      cases hmake : store.makeRoom batch faults with
      | mk made room =>
          rw [hmake] at hunseen hroom
          cases made with
          | error status => exact ⟨⟨front', last', hroom⟩, .failed hunseen⟩
          | ok _ =>
              have hbase' : batch.baseOffset = room.log.nextOffset := hbase.trans hunseen.next.symm
              dsimp only
              rcases hroom.appendBatch hvalid hbase' faults with ⟨status, hstatus, hwrite, hafter⟩ | ⟨hopen, hdone⟩
              · rw [← Prod.eta (room.appendBatch batch faults), hstatus]
                exact ⟨⟨front', last', hafter⟩, .failed (hunseen.trans hwrite)⟩
              · rw [hdone]
                have hextended := hroom.extended hvalid hbase'
                refine ⟨⟨front', _, hextended⟩, .done hbase hbatch fun offset hle hlt maxBytes hsize hinterval => ?_⟩
                have hlog : room.log.closed = false := hunseen.closed.trans (Bool.not_eq_true _ ▸ hclosed)
                refine hextended.read_last hlog hopen rfl (fun other hother => ?_) hle hlt hsize hinterval
                obtain ⟨-, hend⟩ := (hroom.parts last' (last_mem front' last')).bounds other hother
                simp only [RecordBatch.endOffset] at hend ⊢
                omega

end Consistent

end LogMq
