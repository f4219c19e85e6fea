import LogMq.StorageChain

/-! The invariant of an open log. A layout represents a log when the three structures that `Append`
updates one after the other, segments, indexes and next offset, all describe it. Every `Append`, also
one that fails half way, leads to another represented state. -/

namespace LogMq

open SparseIndex

/-- The invariant. Files above the active base are those a failed `Segment::Open` left behind. -/
structure Rep (options : CommitLogOptions) (store : Store) (layout : Layout) : Prop where
  options_eq : store.log.options = options
  opened : store.log.closed = false
  interval_pos : 0 < options.indexIntervalBytes
  holds : layout.Holds store.log.nextOffset
  next_le : store.log.nextOffset ≤ maxOffset
  segments : store.log.segments = layout.chunks.map Chunk.segment
  indexes : store.log.indexes = layout.chunks.map (Chunk.index options.indexIntervalBytes)
  files : ∀ chunk ∈ layout.chunks, store.disk.logs.find? chunk.base = some chunk.content
  fresh : ∀ base content, store.disk.logs.find? base = some content → layout.active.base < base → content = []

/-- Every segment keeps to the size limit unless it holds a single batch. -/
def Bounded (options : CommitLogOptions) (layout : Layout) : Prop :=
  ∀ chunk ∈ layout.chunks, totalBytes chunk.batches ≤ options.segmentBytes ∨ chunk.batches.length = 1

/-- The directory has no other segment files. -/
def Exact (store : Store) (layout : Layout) : Prop :=
  store.disk.logs.entries = layout.chunks.map Chunk.file

namespace Layout

/-- The layout after a roll. -/
def rolled (layout : Layout) (base : Int) : Layout := ⟨layout.chunks, ⟨base, [], []⟩⟩

/-- The layout after some bytes of a batch have reached the file. -/
def torn (layout : Layout) (data : Bytes) : Layout :=
  { layout with active := { layout.active with stale := data ++ layout.active.stale.drop data.length } }

/-- The layout after a batch has been written. -/
def extended (layout : Layout) (batch : RecordBatch) : Layout :=
  { layout with active := { layout.active with
      batches := layout.active.batches ++ [batch]
      stale := layout.active.stale.drop batch.batchBytes } }

end Layout

/-! ### Reads -/

section Read

variable {store : Store} {offset : Int}

/-- A read scans the segment in front of the upper bound of its offset. -/
theorem Store.read_eq_scan {before after : List Segment} {segment : Segment} {index : OffsetIndex}
    (hopened : store.log.closed = false) (hzero : 0 ≤ offset) (hnext : offset < store.log.nextOffset)
    (hsegments : store.log.segments = before ++ segment :: after)
    (hbefore : ∀ other ∈ before ++ [segment], other.baseOffset ≤ offset)
    (hafter : ∀ other ∈ after, offset < other.baseOffset)
    (hindex : store.log.indexes[before.length]? = some index) (maxBytes : Nat) :
    store.read offset maxBytes = scanStart index offset >>= scanSegment segment
      (store.disk.content segment.baseOffset) offset maxBytes (segment.writePosition + 1) := by
  have hupper : upperBound (fun s : Segment => offset < s.baseOffset) store.log.segments = before.length + 1 := by
    rw [hsegments, ← List.singleton_append, ← List.append_assoc,
      upperBound_append (fun s hs => decide_eq_false (not_lt.mpr (hbefore s hs)))
        (fun s hs => decide_eq_true (hafter s hs)), List.length_append, List.length_singleton]
  have hfind : findSegmentIndex store.log offset = .ok before.length := by
    have hne : store.log.segments.isEmpty = false := by
      rw [hsegments]
      exact List.isEmpty_eq_false_iff.mpr (List.append_ne_nil_of_right_ne_nil _ (List.cons_ne_nil _ _))
    rw [findSegmentIndex, hne, if_neg Bool.false_ne_true]
    simp only [hupper]
    rw [if_neg (Nat.succ_ne_zero _), Nat.add_sub_cancel]
  have hsegment : store.log.segments[before.length]? = some segment := by
    rw [hsegments, List.getElem?_append_right (Nat.le_refl _), Nat.sub_self, List.getElem?_cons_zero]
  rw [Store.read, hopened, if_neg Bool.false_ne_true, if_neg (not_lt.mpr hzero), if_neg (not_le.mpr hnext), hfind]
  simp only [bind, Except.bind, hsegment, hindex]

theorem batchContainsOffset_eq_true {batch : RecordBatch} :
    batchContainsOffset batch offset = true ↔
      0 ≤ batch.baseOffset ∧ batch.baseOffset ≤ offset ∧ offset < batch.endOffset := by
  unfold batchContainsOffset RecordBatch.endOffset
  by_cases hneg : batch.baseOffset < 0
  · rw [if_pos hneg]
    exact ⟨fun h => absurd h Bool.false_ne_true, fun h => absurd h.1 (not_le.mpr hneg)⟩
  · rw [if_neg hneg, Bool.and_eq_true, decide_eq_true_iff, decide_eq_true_iff]
    exact ⟨fun h => ⟨not_lt.mp hneg, h⟩, And.right⟩

theorem batchContainsOffset_of_endOffset_le {batch : RecordBatch} (h : batch.endOffset ≤ offset) :
    batchContainsOffset batch offset = false := by
  rw [← Bool.not_eq_true, batchContainsOffset_eq_true]
  omega

end Read

/-- The floor entry of an offset is a batch not behind the one that holds it, and the batches in between are
smaller than the interval. -/
theorem exists_floor {base : Int} {interval : Nat} (hinterval : 0 < interval) {front back : List RecordBatch}
    {batch : RecordBatch} {offset : Int} (hfront : ∀ other ∈ front ++ [batch], other.baseOffset ≤ offset)
    (hback : ∀ other ∈ back, offset < other.baseOffset) :
    ∃ before skipped first, front = before ++ skipped ∧
      (OffsetIndex.mk base interval (build IndexEntry.position interval
        (placed 0 (front ++ batch :: back)))).findFloor offset = .ok ⟨first, totalBytes before⟩ ∧
      totalBytes skipped < interval := by
  have hplaced : placed 0 (front ++ batch :: back) = placed 0 front ++ ⟨batch.baseOffset, totalBytes front⟩ ::
      placed (totalBytes front + batch.batchBytes) back := by
    rw [placed_append, Nat.zero_add, placed]
  have hconcat : placed 0 front ++ [⟨batch.baseOffset, totalBytes front⟩] = placed 0 (front ++ [batch]) := by
    rw [placed_append, Nat.zero_add]
    rfl
  have hpast : ∀ entry ∈ placed 0 front ++ [⟨batch.baseOffset, totalBytes front⟩],
      decide (offset < entry.offset) = false := by
    intro entry hentry
    rw [hconcat] at hentry
    obtain ⟨pre, other, post, hsplit, rfl⟩ := mem_placed hentry
    exact decide_eq_false (not_lt.mpr (hfront other (hsplit ▸ List.mem_append_right _ List.mem_cons_self)))
  have hbehind : ∀ entry ∈ placed (totalBytes front + batch.batchBytes) back,
      decide (offset < entry.offset) = true := by
    intro entry hentry
    obtain ⟨pre, other, post, hsplit, rfl⟩ := mem_placed hentry
    exact decide_eq_true (hback other (hsplit ▸ List.mem_append_right _ List.mem_cons_self))
  obtain ⟨entries, last, htake, hlast, hclose⟩ :=
    @build_floor _ IndexEntry.position _ hinterval _ _ _ _ hpast hbehind
  rw [hconcat] at hlast
  obtain ⟨before, found, rest, hsplit, rfl⟩ := mem_placed hlast
  obtain ⟨skipped, tail, htail⟩ : ∃ skipped tail, found :: rest = skipped ++ [tail] :=
    ⟨_, _, (List.dropLast_concat_getLast (List.cons_ne_nil found rest)).symm⟩
  rw [htail, ← List.append_assoc] at hsplit
  obtain ⟨rfl, -⟩ := List.append_inj' hsplit rfl
  refine ⟨before, skipped, found.baseOffset, rfl, ?_, ?_⟩
  · apply @OffsetIndex.findFloor_of_take _ _ entries _
    rw [hplaced]
    rw [Nat.zero_add] at htake
    exact htake
  · rw [totalBytes_append] at hclose
    dsimp only at hclose
    omega

/-- The floor entry of an offset in a segment of a chain. -/
theorem Chunk.exists_floor {chunk : Chunk} {interval : Nat} (hinterval : 0 < interval) {mid : Int}
    (hchain : Chain chunk.base chunk.batches mid) {front back : List RecordBatch} {batch : RecordBatch}
    (hbatches : chunk.batches = front ++ batch :: back) {offset : Int}
    (hle : batch.baseOffset ≤ offset) (hlt : offset < batch.endOffset) :
    ∃ before skipped base, front = before ++ skipped ∧
      (chunk.index interval).findFloor offset = .ok ⟨base, totalBytes before⟩ ∧ totalBytes skipped < interval := by
  rw [hbatches] at hchain
  obtain ⟨hfront, hback⟩ := hchain.order
  rw [Chunk.index, hbatches]
  apply LogMq.exists_floor hinterval
  · intro other hother
    rcases List.mem_append.mp hother with hmem | hself
    · have hvalid := hchain.valid other (List.mem_append_left _ hmem)
      exact (hvalid.lt_endOffset.le.trans (hfront other hmem)).trans hle
    · rw [List.mem_singleton.mp hself]
      exact hle
  · exact fun other hother => hlt.trans_le (hback other hother)

theorem batchBytes_le_totalBytes {batches : List RecordBatch} {batch : RecordBatch} (h : batch ∈ batches) :
    batch.batchBytes ≤ totalBytes batches := by
  obtain ⟨before, after, rfl⟩ := List.append_of_mem h
  rw [totalBytes_append, totalBytes]
  omega

namespace Rep

variable {options : CommitLogOptions} {store : Store} {layout : Layout}

/-- **Reads.** A read within the byte budget returns the batch that holds the offset. -/
theorem read_eq (h : Rep options store layout) {before after : List Chunk} {chunk : Chunk}
    {front back : List RecordBatch} {batch : RecordBatch} {offset : Int} {maxBytes : Nat}
    (hchunks : layout.chunks = before ++ chunk :: after) (hafter : ∀ other ∈ after, offset < other.base)
    (hbatches : chunk.batches = front ++ batch :: back)
    (hle : batch.baseOffset ≤ offset) (hlt : offset < batch.endOffset)
    (hsize : batch.batchBytes ≤ maxBytes) (hinterval : options.indexIntervalBytes ≤ maxBytes) :
    store.read offset maxBytes = .ok batch := by
  have hmem : chunk ∈ layout.chunks := hchunks ▸ List.mem_append_right _ List.mem_cons_self
  have hbatch : batch ∈ chunk.batches := hbatches ▸ List.mem_append_right _ List.mem_cons_self
  obtain ⟨mid, hchain, hbase, hmid⟩ := h.holds.chunk_chain hmem
  obtain ⟨hlow, hhigh⟩ := hchain.bounds hbatch
  have hsegments : store.log.segments =
      before.map Chunk.segment ++ chunk.segment :: after.map Chunk.segment := by
    rw [h.segments, hchunks, List.map_append, List.map_cons]
  have hindex : store.log.indexes[(before.map Chunk.segment).length]? =
      some (chunk.index options.indexIntervalBytes) := by
    rw [h.indexes, hchunks, List.map_append, List.map_cons, List.length_map,
      List.getElem?_append_right (by rw [List.length_map]), List.length_map, Nat.sub_self, List.getElem?_cons_zero]
  have hbefore : ∀ other ∈ before.map Chunk.segment ++ [chunk.segment], other.baseOffset ≤ offset := by
    have hsorted := h.holds.bases_sorted
    rw [hchunks] at hsorted
    intro other hother
    rcases List.mem_append.mp hother with hother | hother
    · obtain ⟨c, hc, rfl⟩ := List.mem_map.mp hother
      exact ((List.pairwise_append.mp hsorted).2.2 c hc chunk List.mem_cons_self).le.trans (hlow.trans hle)
    · rw [List.mem_singleton.mp hother]
      exact hlow.trans hle
  have hbehind : ∀ other ∈ after.map Chunk.segment, offset < other.baseOffset := by
    intro other hother
    obtain ⟨c, hc, rfl⟩ := List.mem_map.mp hother
    exact hafter c hc
  have hcontent : store.disk.content chunk.base = chunk.content := by rw [Disk.content, h.files chunk hmem]; rfl
  have hlaid : LaidOut chunk.content 0 chunk.batches := laidOut_bytes hchain.valid [] chunk.stale
  obtain ⟨pre, skipped, floor, rfl, hfloor, hskip⟩ := chunk.exists_floor h.interval_pos hchain hbatches hle hlt
  rw [Store.read_eq_scan h.opened (by omega) (by omega) hsegments hbefore hbehind hindex, scanStart, hfloor]
  change scanSegment chunk.segment (store.disk.content chunk.base) offset maxBytes _ _ = _
  rw [hbatches] at hchain
  rw [hbatches, List.append_assoc, laidOut_append, Nat.zero_add] at hlaid
  rw [hcontent]
  refine scanSegment_found rfl hlaid.2 (fun b hb => ⟨?_, ?_⟩)
    (batchContainsOffset_eq_true.mpr ⟨by omega, hle, hlt⟩) hsize ?_ ?_
  · exact batchContainsOffset_of_endOffset_le ((hchain.order.1 b (List.mem_append_right _ hb)).trans hle)
  · exact (batchBytes_le_totalBytes hb).trans (hskip.le.trans hinterval)
  · rw [Chunk.segment, hbatches]
    simp only [totalBytes_append, totalBytes]
    omega
  · omega

theorem exists_batch (h : Rep options store layout) {offset : Int} (hzero : 0 ≤ offset)
    (hnext : offset < store.log.nextOffset) :
    ∃ batch ∈ layout.batches, batch.baseOffset ≤ offset ∧ offset < batch.endOffset := by
  obtain ⟨before, batch, after, hsplit, hcontains⟩ := h.holds.chain.exists_batch hzero hnext
  exact ⟨batch, hsplit ▸ List.mem_append_right _ List.mem_cons_self, hcontains⟩

/-- A read within the byte budget returns the batch that holds the offset, wherever it lies. -/
theorem read_batch (h : Rep options store layout) {batch : RecordBatch} (hbatch : batch ∈ layout.batches)
    {offset : Int} (hle : batch.baseOffset ≤ offset) (hlt : offset < batch.endOffset) {maxBytes : Nat}
    (hsize : batch.batchBytes ≤ maxBytes) (hinterval : options.indexIntervalBytes ≤ maxBytes) :
    store.read offset maxBytes = .ok batch := by
  obtain ⟨hlow, hhigh⟩ := h.holds.chain.bounds hbatch
  obtain ⟨before, chunk, after, hchunks, hafter, front, found, back, hbatches, hcontains⟩ :=
    h.holds.exists_chunk (by omega) (by omega : offset < store.log.nextOffset)
  have hfound : found ∈ layout.batches := by
    rw [Layout.batches, hchunks]
    refine List.mem_flatMap.mpr ⟨chunk, List.mem_append_right _ List.mem_cons_self, ?_⟩
    exact hbatches ▸ List.mem_append_right _ List.mem_cons_self
  cases h.holds.chain.eq_of_contains hbatch hfound ⟨hle, hlt⟩ hcontains
  exact h.read_eq hchunks hafter hbatches hle hlt hsize hinterval

theorem read_past (h : Rep options store layout) {offset : Int} (hnext : store.log.nextOffset ≤ offset)
    (maxBytes : Nat) : store.read offset maxBytes = .error (.notFound "commit log offset is not readable") := by
  have hzero := h.holds.next_nonneg
  rw [Store.read, h.opened, if_neg Bool.false_ne_true, if_neg (by omega), if_pos hnext]

end Rep

end LogMq
