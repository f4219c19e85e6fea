import LogMq.StorageSearch

/-! An invariant that holds of a log on any directory whatever, after any calls: what it keeps in memory describes
the batches in the written parts of its files. Offsets may have gaps or overlap, as damage leaves them. -/

namespace LogMq

open SparseIndex

/-! ### Contents -/

@[simp] theorem Disk.content_writeLog (disk : Disk) (base target : Int) (bytes : Bytes) :
    (disk.writeLog base bytes).content target = if target = base then bytes else disk.content target := by
  unfold Disk.content Disk.writeLog
  rw [SortedMap.find?_insert]
  split_ifs <;> rfl

@[simp] theorem Disk.content_writeIndex (disk : Disk) (base target : Int) (bytes : Bytes) :
    (disk.writeIndex base bytes).content target = disk.content target := rfl

@[simp] theorem Disk.content_touch (disk : Disk) (base target : Int) :
    (disk.touch base).content target = disk.content target := by
  unfold Disk.touch
  cases hfind : disk.logs.find? base with
  | some content => rfl
  | none =>
      dsimp only
      rw [content_writeLog]
      split_ifs with htarget
      · rw [htarget, Disk.content, hfind]
        rfl
      · rfl

/-- A write does not change the bytes in front of it. -/
theorem File.take_pwrite {content data : Bytes} {offset : Nat} (h : offset ≤ content.length) :
    (File.pwrite content data offset).take offset = content.take offset := by
  unfold File.pwrite
  split_ifs
  · rfl
  · rw [List.append_assoc, List.append_assoc, List.take_append_of_le_length (by rw [List.length_take]; omega),
      List.take_take, Nat.min_self]

theorem File.drop_pwrite {content data : Bytes} {offset : Nat} (h : offset ≤ content.length) :
    ∃ rest, (File.pwrite content data offset).drop offset = data ++ rest := by
  have hlength : (content.take offset).length = offset := by rw [List.length_take, Nat.min_eq_left h]
  have hwrite := File.pwrite_append (content.take offset) (content.drop offset) data
  rw [hlength, List.take_append_drop] at hwrite
  rw [hwrite, List.drop_left' hlength]
  exact ⟨_, rfl⟩

/-! ### The invariant -/

/-- The segments, indexes and files of a log describe the same batches, all of them below the next offset. Files
behind the last segment are those a failed `Segment::Open` left behind. -/
structure Consistent (store : Store) (front : List Part) (last : Part) : Prop where
  interval_pos : 0 < store.log.options.indexIntervalBytes
  segments : store.log.segments = (front ++ [last]).map Part.segment
  indexes : store.log.indexes = (front ++ [last]).map (Part.index store.log.options.indexIntervalBytes)
  sorted : (front ++ [last]).Pairwise fun left right => left.base < right.base
  parts : ∀ part ∈ front ++ [last], part.Sound store.disk store.log.nextOffset
  fresh : ∀ base, last.base < base → store.disk.content base = []

/-- A change of a log that no reader sees. -/
structure Unseen (store store' : Store) : Prop where
  closed : store'.log.closed = store.log.closed
  next : store'.log.nextOffset = store.log.nextOffset
  read : ∀ offset maxBytes, store'.read offset maxBytes = store.read offset maxBytes

namespace Unseen

theorem refl (store : Store) : Unseen store store := ⟨rfl, rfl, fun _ _ => rfl⟩

theorem trans {a b c : Store} (hab : Unseen a b) (hbc : Unseen b c) : Unseen a c where
  closed := hbc.closed.trans hab.closed
  next := hbc.next.trans hab.next
  read := fun offset maxBytes => (hbc.read offset maxBytes).trans (hab.read offset maxBytes)

end Unseen

theorem Part.Sound.base_lt {disk : Disk} {next : Int} {part : Part} (h : part.Sound disk next)
    (hne : part.batches ≠ []) : part.base < next := by
  obtain ⟨batch, rest, hbatches⟩ := List.exists_cons_of_ne_nil hne
  have hlaid := h.laid
  rw [hbatches] at hlaid
  have hpos := hlaid.1.count_pos
  obtain ⟨hbase, hend⟩ := h.bounds batch (hbatches ▸ List.mem_cons_self)
  rw [RecordBatch.endOffset] at hend
  omega

theorem Part.Sound.written_le {disk : Disk} {next : Int} {part : Part} (h : part.Sound disk next) :
    part.segment.writePosition ≤ (disk.content part.base).length := by
  have hle := h.laid.total_le (Nat.zero_le _)
  rwa [Nat.zero_add, ← h.written] at hle

/-- A segment stays sound when the next offset grows and the written part of its file stays. -/
theorem Part.Sound.mono {disk disk' : Disk} {next next' : Int} {part : Part} (h : part.Sound disk next)
    (hnext : next ≤ next') (hagree : (disk'.content part.base).take part.segment.writePosition =
      (disk.content part.base).take part.segment.writePosition) : part.Sound disk' next' where
  base_nonneg := h.base_nonneg
  base_le := h.base_le.trans hnext
  laid := by
    have hsize : 0 + totalBytes part.batches ≤ part.segment.writePosition := by rw [Nat.zero_add, h.written]
    rw [← laidOut_take hsize, hagree, laidOut_take hsize]
    exact h.laid
  written := h.written
  bounds := fun batch hbatch => ⟨(h.bounds batch hbatch).1, (h.bounds batch hbatch).2.trans hnext⟩

/-! ### Reads -/

theorem findSegmentIndex_lt {log : CommitLog} {offset : Int} {i : Nat} (h : findSegmentIndex log offset = .ok i) :
    i < log.segments.length := by
  unfold findSegmentIndex at h
  dsimp only at h
  split_ifs at h with hempty hzero
  cases h
  have hle : upperBound (fun segment : Segment => offset < segment.baseOffset) log.segments ≤ log.segments.length :=
    (List.takeWhile_sublist _).length_le
  omega

/-- Segments that start behind the offset do not matter. -/
theorem findSegmentIndex_append {log log' : CommitLog} {offset : Int} {more : List Segment}
    (hsegments : log'.segments = log.segments ++ more) (hne : log.segments ≠ [])
    (hmore : ∀ segment ∈ more, offset < segment.baseOffset) :
    findSegmentIndex log' offset = findSegmentIndex log offset := by
  have hempty : log.segments.isEmpty = false := List.isEmpty_eq_false_iff.mpr hne
  have hempty' : log'.segments.isEmpty = false := by
    rw [hsegments]
    exact List.isEmpty_eq_false_iff.mpr (List.append_ne_nil_of_left_ne_nil hne _)
  have hupper : upperBound (fun segment : Segment => offset < segment.baseOffset) (log.segments ++ more) =
      upperBound (fun segment : Segment => offset < segment.baseOffset) log.segments :=
    upperBound_append_past log.segments fun segment hsegment => decide_eq_true (hmore segment hsegment)
  rw [findSegmentIndex, findSegmentIndex, hempty, hempty', hsegments, hupper]

namespace Consistent

variable {store : Store} {front : List Part} {last : Part}

theorem part_of_getElem? (h : Consistent store front last) {i : Nat} {segment : Segment} {index : OffsetIndex}
    (hsegment : store.log.segments[i]? = some segment) (hindex : store.log.indexes[i]? = some index) :
    ∃ part ∈ front ++ [last], part.segment = segment ∧ part.index store.log.options.indexIntervalBytes = index := by
  rw [h.segments, List.getElem?_map, Option.map_eq_some_iff] at hsegment
  rw [h.indexes, List.getElem?_map, Option.map_eq_some_iff] at hindex
  obtain ⟨part, hpart, rfl⟩ := hsegment
  obtain ⟨other, hother, rfl⟩ := hindex
  cases hpart.symm.trans hother
  exact ⟨part, List.mem_of_getElem? hpart, rfl, rfl⟩

/-- A read scans the batches of a part from one of their boundaries on. -/
theorem scanned (h : Consistent store front last) {i : Nat} {segment : Segment} {index : OffsetIndex}
    (hsegment : store.log.segments[i]? = some segment) (hindex : store.log.indexes[i]? = some index) (offset : Int) :
    ∃ part ∈ front ++ [last], ∃ skipped rest, part.segment = segment ∧ part.batches = skipped ++ rest ∧
      scanStart index offset = .ok (totalBytes skipped) ∧
      LaidOut (store.disk.content segment.baseOffset) (totalBytes skipped) rest ∧
      totalBytes skipped + totalBytes rest = segment.writePosition := by
  obtain ⟨part, hpart, rfl, rfl⟩ := h.part_of_getElem? hsegment hindex
  obtain ⟨skipped, rest, hsplit, hstart⟩ := part.exists_start store.log.options.indexIntervalBytes offset
  have hlaid := (h.parts part hpart).laid
  have hwritten := (h.parts part hpart).written
  rw [hsplit, laidOut_append, Nat.zero_add] at hlaid
  rw [hsplit, totalBytes_append] at hwritten
  exact ⟨part, hpart, skipped, rest, rfl, hsplit, hstart, hlaid.2, hwritten.symm⟩

/-- More segments from the next offset on and bytes behind the written part of a file are not seen. -/
theorem unseen (h : Consistent store front last) {store' : Store} {more : List Part}
    (hclosed : store'.log.closed = store.log.closed) (hnext : store'.log.nextOffset = store.log.nextOffset)
    (hsegments : store'.log.segments = store.log.segments ++ more.map Part.segment)
    (hindexes : store'.log.indexes =
      store.log.indexes ++ more.map (Part.index store.log.options.indexIntervalBytes))
    (hmore : ∀ part ∈ more, store.log.nextOffset ≤ part.base)
    (hagree : ∀ part ∈ front ++ [last], (store'.disk.content part.base).take part.segment.writePosition =
      (store.disk.content part.base).take part.segment.writePosition) : Unseen store store' := by
  refine ⟨hclosed, hnext, fun offset maxBytes => ?_⟩
  rw [Store.read, Store.read, hclosed, hnext]
  split_ifs with hlog hzero hpast
  · rfl
  · rfl
  · rfl
  have hne : store.log.segments ≠ [] := by
    rw [h.segments, List.map_append]
    exact List.append_ne_nil_of_right_ne_nil _ (List.cons_ne_nil _ _)
  have hfind : findSegmentIndex store'.log offset = findSegmentIndex store.log offset := by
    apply findSegmentIndex_append hsegments hne
    intro segment hsegment
    obtain ⟨part, hpart, rfl⟩ := List.mem_map.mp hsegment
    exact (not_le.mp hpast).trans_le (hmore part hpart)
  rw [hfind]
  cases hi : findSegmentIndex store.log offset with
  | error status => simp only [bind, Except.bind]
  | ok i =>
      have hlt := findSegmentIndex_lt hi
      have hlt' : i < store.log.indexes.length := by
        rw [h.indexes, List.length_map]
        rwa [h.segments, List.length_map] at hlt
      simp only [bind, Except.bind]
      rw [hsegments, hindexes, List.getElem?_append_left hlt, List.getElem?_append_left hlt']
      cases hsegment : store.log.segments[i]? with
      | none => rfl
      | some segment =>
          cases hindex : store.log.indexes[i]? with
          | none => rfl
          | some index =>
              obtain ⟨part, hpart, skipped, rest, rfl, -, hstart, hlaid, hwritten⟩ := h.scanned hsegment hindex offset
              have hscan := scanSegment_congr hlaid hwritten (hagree part hpart) offset maxBytes
                (show part.segment.writePosition - totalBytes skipped < part.segment.writePosition + 1 by omega)
              rw [Part.base] at hscan
              dsimp only
              rw [hstart]
              dsimp only
              rw [hscan]

/-! ### Append -/

/-- A directory with the same segment files. -/
theorem of_content (h : Consistent store front last) {disk : Disk}
    (hdisk : ∀ base, disk.content base = store.disk.content base) :
    Unseen store ⟨store.log, disk⟩ ∧ Consistent ⟨store.log, disk⟩ front last := by
  constructor
  · refine @unseen _ _ _ h ⟨store.log, disk⟩ [] rfl rfl (List.append_nil _).symm (List.append_nil _).symm ?_ ?_
    · exact fun _ hmem => absurd hmem List.not_mem_nil
    · exact fun part _ => congrArg (List.take _) (hdisk part.base)
  · exact ⟨h.interval_pos, h.segments, h.indexes, h.sorted,
      fun part hpart => (h.parts part hpart).mono (le_refl _) (congrArg (List.take _) (hdisk part.base)),
      fun base hbase => (hdisk base).trans (h.fresh base hbase)⟩

/-- A segment that has just been created. -/
def emptyPart (base : Int) : Part := ⟨⟨base, 0, false⟩, []⟩

theorem emptyPart_sound {base : Int} (hbase : 0 ≤ base) (disk : Disk) : (emptyPart base).Sound disk base :=
  ⟨hbase, le_refl _, trivial, rfl, fun _ hmem => absurd hmem List.not_mem_nil⟩

/-- The log with a new, empty segment at its end. -/
def rolledLog (log : CommitLog) : CommitLog :=
  { log with
    segments := log.segments ++ [(emptyPart log.nextOffset).segment]
    indexes := log.indexes ++ [(emptyPart log.nextOffset).index log.options.indexIntervalBytes] }

theorem rolled (h : Consistent store front last) (hne : last.batches ≠ []) {disk : Disk}
    (hdisk : ∀ base, disk.content base = store.disk.content base) :
    Unseen store ⟨rolledLog store.log, disk⟩ ∧
      Consistent ⟨rolledLog store.log, disk⟩ (front ++ [last]) (emptyPart store.log.nextOffset) := by
  have hlast := h.parts last (List.mem_append_right _ (List.mem_singleton_self _))
  have hlt := hlast.base_lt hne
  constructor
  · refine @unseen _ _ _ h ⟨rolledLog store.log, disk⟩ [emptyPart store.log.nextOffset] rfl rfl rfl rfl ?_ ?_
    · intro other hother
      rw [List.mem_singleton.mp hother]
      exact le_refl _
    · exact fun other _ => congrArg (List.take _) (hdisk other.base)
  · refine ⟨h.interval_pos, ?_, ?_, ?_, ?_, ?_⟩
    · rw [List.map_append, ← h.segments]
      rfl
    · rw [rolledLog, List.map_append, ← h.indexes]
      rfl
    · refine List.pairwise_append.mpr ⟨h.sorted, List.pairwise_singleton _ _, fun left hleft right hright => ?_⟩
      rw [List.mem_singleton.mp hright]
      rcases List.mem_append.mp hleft with hfront | hself
      · exact ((List.pairwise_append.mp h.sorted).2.2 left hfront last (List.mem_singleton_self _)).trans hlt
      · rw [List.mem_singleton.mp hself]
        exact hlt
    · intro other hother
      rcases List.mem_append.mp hother with hother | hself
      · exact (h.parts other hother).mono (le_refl _) (congrArg (List.take _) (hdisk other.base))
      · rw [List.mem_singleton.mp hself]
        exact emptyPart_sound (hlast.base_nonneg.trans hlt.le) disk
    · exact fun base hbase => (hdisk base).trans (h.fresh base (hlt.trans hbase))

/-- **Rolling.** Neither a new segment nor a failure on the way to it is seen. -/
theorem roll (h : Consistent store front last) (hne : last.batches ≠ []) (faults : IoFaults) :
    Unseen store (store.rollSegment store.log.nextOffset faults).2 ∧
      ∃ front' last', Consistent (store.rollSegment store.log.nextOffset faults).2 front' last' := by
  have hlast := h.parts last (List.mem_append_right _ (List.mem_singleton_self _))
  have hlt := hlast.base_lt hne
  have hnonneg := hlast.base_nonneg
  unfold Store.rollSegment openSegment
  rw [if_neg (by omega)]
  cases hopen : faults.openSegment with
  | some failure =>
      obtain ⟨created, status⟩ := failure
      dsimp only
      have hdisk : ∀ base, (if created = true then store.disk.touch store.log.nextOffset else store.disk).content base =
          store.disk.content base := by
        intro base
        split_ifs
        · exact Disk.content_touch _ _ _
        · rfl
      exact ⟨(h.of_content hdisk).1, front, last, (h.of_content hdisk).2⟩
  | none =>
      have hempty : store.disk.content store.log.nextOffset = [] := h.fresh _ hlt
      have hindex : OffsetIndex.create store.log.nextOffset store.log.options.indexIntervalBytes =
          (emptyPart store.log.nextOffset).index store.log.options.indexIntervalBytes := by
        rw [OffsetIndex.create, if_neg h.interval_pos.ne']
        rfl
      dsimp only
      rw [hempty, List.length_nil, hindex]
      unfold rewriteIndex
      split
      · exact ⟨(h.rolled hne fun base => by simp).1, _, _, (h.rolled hne fun base => by simp).2⟩
      · exact ⟨(h.rolled hne fun base => by simp).1, _, _, (h.rolled hne fun base => by simp).2⟩
      · exact ⟨(h.rolled hne fun base => by simp).1, _, _, (h.rolled hne fun base => by simp).2⟩

theorem getLast_segments (h : Consistent store front last) : store.log.segments.getLast? = some last.segment := by
  rw [h.segments, List.map_append, List.map_singleton, List.getLast?_concat]

theorem getLast_indexes (h : Consistent store front last) :
    store.log.indexes.getLast? = some (last.index store.log.options.indexIntervalBytes) := by
  rw [h.indexes, List.map_append, List.map_singleton, List.getLast?_concat]

theorem last_mem (front : List Part) (last : Part) : last ∈ front ++ [last] :=
  List.mem_append_right _ (List.mem_singleton_self _)

/-- Making room for a batch is not seen. -/
theorem makeRoom (h : Consistent store front last) {batch : RecordBatch}
    (hbase : batch.baseOffset = store.log.nextOffset) (faults : IoFaults) :
    Unseen store (store.makeRoom batch faults).2 ∧
      ∃ front' last', Consistent (store.makeRoom batch faults).2 front' last' := by
  unfold Store.makeRoom
  rw [h.getLast_segments]
  dsimp only
  split_ifs with hfull
  · rw [hbase]
    apply h.roll
    intro hnil
    have hwritten := (h.parts last (last_mem front last)).written
    rw [hnil, totalBytes] at hwritten
    omega
  · exact ⟨.refl store, front, last, h⟩

end Consistent

end LogMq
