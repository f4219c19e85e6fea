import LogMq.StorageState

/-! `Append` on a represented log, step by step and with every failure it can meet on the way. -/

namespace LogMq

open SparseIndex

namespace Rep

variable {options : CommitLogOptions} {store : Store} {layout : Layout}

theorem getLast_segments (h : Rep options store layout) :
    store.log.segments.getLast? = some layout.active.segment := by
  rw [h.segments, Layout.chunks, List.map_append, List.map_singleton, List.getLast?_concat]

theorem getLast_indexes (h : Rep options store layout) :
    store.log.indexes.getLast? = some (layout.active.index options.indexIntervalBytes) := by
  rw [h.indexes, Layout.chunks, List.map_append, List.map_singleton, List.getLast?_concat]

/-- A segment with bytes in it holds a batch. -/
theorem active_ne_nil {chunk : Chunk} (h : 0 < totalBytes chunk.batches) : chunk.batches ≠ [] := by
  intro hnil
  rw [hnil] at h
  exact Nat.lt_irrefl _ h

/-- While the active segment holds a batch, every segment starts below the next offset. -/
theorem base_lt_next (h : Rep options store layout) (hne : layout.active.batches ≠ []) {chunk : Chunk}
    (hmem : chunk ∈ layout.chunks) : chunk.base < store.log.nextOffset := by
  have hactive := h.holds.active.lt hne
  rcases Layout.mem_chunks.mp hmem with hmem | rfl
  · obtain ⟨mid, -, -, hlt, hle⟩ := h.holds.sealed.chunk_chain hmem
    omega
  · exact hactive

/-- The file of the next segment does not exist or is empty. -/
theorem content_next (h : Rep options store layout) (hne : layout.active.batches ≠ []) :
    store.disk.content store.log.nextOffset = [] := by
  rw [Disk.content]
  cases hfind : store.disk.logs.find? store.log.nextOffset with
  | none => rfl
  | some content => exact h.fresh _ _ hfind (h.holds.active.lt hne)

end Rep

theorem Disk.find?_touch (disk : Disk) (base target : Int) :
    (disk.touch base).logs.find? target =
      if target = base then some (disk.content base) else disk.logs.find? target := by
  unfold Disk.touch Disk.content
  cases hfind : disk.logs.find? base with
  | none => exact SortedMap.find?_insert _ _ _ _
  | some content =>
      split_ifs with htarget
      · rw [htarget, hfind]
        rfl
      · rfl

namespace Rep

variable {options : CommitLogOptions} {store : Store} {layout : Layout}

/-- Creating the next segment file changes no file of a segment. -/
theorem touch (h : Rep options store layout) (hne : layout.active.batches ≠ []) :
    Rep options { store with disk := store.disk.touch store.log.nextOffset } layout where
  options_eq := h.options_eq
  opened := h.opened
  interval_pos := h.interval_pos
  holds := h.holds
  next_le := h.next_le
  segments := h.segments
  indexes := h.indexes
  files := fun chunk hmem => by
    rw [Disk.find?_touch, if_neg (h.base_lt_next hne hmem).ne]
    exact h.files chunk hmem
  fresh := fun base content hfind hbase => by
    rw [Disk.find?_touch, h.content_next hne] at hfind
    split_ifs at hfind
    · exact (Option.some.inj hfind).symm
    · exact h.fresh base content hfind hbase

/-- Index files do not matter. -/
theorem of_logs_eq (h : Rep options store layout) {disk : Disk} (hlogs : disk.logs = store.disk.logs) :
    Rep options { store with disk := disk } layout where
  options_eq := h.options_eq
  opened := h.opened
  interval_pos := h.interval_pos
  holds := h.holds
  next_le := h.next_le
  segments := h.segments
  indexes := h.indexes
  files := by rw [hlogs]; exact h.files
  fresh := by rw [hlogs]; exact h.fresh

/-- A new, empty active segment. -/
theorem rolled (h : Rep options store layout) (hne : layout.active.batches ≠ []) :
    Rep options
      { log := { store.log with
          segments := store.log.segments ++ [⟨store.log.nextOffset, 0, false⟩]
          indexes := store.log.indexes ++
            [OffsetIndex.create store.log.nextOffset store.log.options.indexIntervalBytes] }
        disk := store.disk.touch store.log.nextOffset }
      (layout.rolled store.log.nextOffset) where
  options_eq := h.options_eq
  opened := h.opened
  interval_pos := h.interval_pos
  holds :=
    ⟨sealedChain_append.mpr ⟨_, h.holds.sealed, rfl, hne, _, h.holds.active, rfl⟩, rfl⟩
  next_le := h.next_le
  segments := by
    rw [Layout.chunks, List.map_append, h.segments]
    rfl
  indexes := by
    rw [Layout.chunks, List.map_append, h.indexes, h.options_eq, OffsetIndex.create, if_neg h.interval_pos.ne']
    rfl
  files := fun chunk hmem => by
    rw [Disk.find?_touch]
    rcases Layout.mem_chunks.mp hmem with hmem | rfl
    · rw [if_neg (h.base_lt_next hne hmem).ne]
      exact h.files chunk hmem
    · exact (if_pos rfl).trans (congrArg some (h.content_next hne))
  fresh := fun base content hfind hbase => by
    have hnext : store.log.nextOffset < base := hbase
    rw [Disk.find?_touch, if_neg hnext.ne'] at hfind
    exact h.fresh base content hfind ((h.holds.active.lt hne).trans hnext)

theorem exact_rolled (h : Rep options store layout) (hne : layout.active.batches ≠ [])
    (hexact : Exact store layout) {store' : Store}
    (hlogs : store'.disk.logs = (store.disk.touch store.log.nextOffset).logs) :
    Exact store' (layout.rolled store.log.nextOffset) := by
  have hlt : ∀ entry ∈ store.disk.logs.entries, entry.1 < store.log.nextOffset := by
    rw [hexact]
    intro entry hentry
    obtain ⟨chunk, hmem, rfl⟩ := List.mem_map.mp hentry
    exact h.base_lt_next hne hmem
  have hnone : store.disk.logs.find? store.log.nextOffset = none := by
    cases hfind : store.disk.logs.find? store.log.nextOffset with
    | none => rfl
    | some content => exact absurd (hlt _ (SortedMap.mem_entries.mpr hfind)) (lt_irrefl _)
  rw [Exact, hlogs, Disk.touch, hnone]
  change (store.disk.logs.insert store.log.nextOffset []).entries =
    (layout.chunks ++ [Chunk.mk store.log.nextOffset [] []]).map Chunk.file
  rw [SortedMap.entries_insert_of_lt _ hlt, hexact, List.map_append]
  rfl

end Rep

/-! ### Making room -/

/-- The layout a batch is written to: the same one, or a rolled one. -/
def Room (layout : Layout) (next : Int) (room : Layout) : Prop :=
  room = layout ∨ layout.active.batches ≠ [] ∧ room = layout.rolled next

/-- What `RollSegment` does: nothing, or a new segment with or without its index file. -/
theorem Rep.rollSegment_cases {options : CommitLogOptions} {store : Store} {layout : Layout}
    (h : Rep options store layout) (hne : layout.active.batches ≠ []) (faults : IoFaults) :
    (∃ status store', store.rollSegment store.log.nextOffset faults = (.error status, store') ∧
        store'.log.nextOffset = store.log.nextOffset ∧ Rep options store' layout ∧
        (faults.openSegment = none → Exact store layout → Exact store' layout)) ∨
      ∃ result store', store.rollSegment store.log.nextOffset faults = (result, store') ∧
        store'.log.nextOffset = store.log.nextOffset ∧
        Rep options store' (layout.rolled store.log.nextOffset) ∧
        (Exact store layout → Exact store' (layout.rolled store.log.nextOffset)) := by
  have hzero := h.holds.next_nonneg
  unfold Store.rollSegment openSegment
  rw [if_neg (not_lt.mpr hzero)]
  cases hopen : faults.openSegment with
  | some failure =>
      obtain ⟨created, status⟩ := failure
      refine Or.inl ⟨status, _, rfl, rfl, ?_, fun hnone => (nomatch hnone)⟩
      cases created with
      | false => exact h
      | true => exact h.touch hne
  | none =>
      right
      dsimp only
      rw [h.content_next hne, List.length_nil]
      cases hrewrite : faults.rewriteIndex with
      | none => exact ⟨_, _, rfl, rfl, (h.rolled hne).of_logs_eq rfl, fun hexact => h.exact_rolled hne hexact rfl⟩
      | some failure =>
          obtain ⟨written, status⟩ := failure
          cases written with
          | none => exact ⟨_, _, rfl, rfl, h.rolled hne, fun hexact => h.exact_rolled hne hexact rfl⟩
          | some bytes =>
              exact ⟨_, _, rfl, rfl, (h.rolled hne).of_logs_eq rfl, fun hexact => h.exact_rolled hne hexact rfl⟩

/-- The active segment is empty or the batch fits into it. -/
def Fitting (options : CommitLogOptions) (layout : Layout) (batch : RecordBatch) : Prop :=
  layout.active.batches = [] ∨ totalBytes layout.active.batches + batch.batchBytes ≤ options.segmentBytes

/-- What the first part of `Append` does. -/
theorem Rep.makeRoom_cases {options : CommitLogOptions} {store : Store} {layout : Layout}
    (h : Rep options store layout) {batch : RecordBatch} (hbase : batch.baseOffset = store.log.nextOffset)
    (faults : IoFaults) :
    ∃ result store' room, store.makeRoom batch faults = (result, store') ∧
      store'.log.nextOffset = store.log.nextOffset ∧ Room layout store.log.nextOffset room ∧
      Rep options store' room ∧ (faults.openSegment = none → Exact store layout → Exact store' room) ∧
      (result = .ok () → Fitting options room batch) := by
  rw [Store.makeRoom, h.getLast_segments, hbase, h.options_eq]
  dsimp only [Chunk.segment]
  split_ifs with hroll
  · have hne := Rep.active_ne_nil hroll.1
    rcases h.rollSegment_cases hne faults with
      ⟨status, store', heq, hnext, hrep, hexact⟩ | ⟨result, store', heq, hnext, hrep, hexact⟩
    · exact ⟨_, _, layout, heq, hnext, Or.inl rfl, hrep, hexact, fun hok => (nomatch hok)⟩
    · exact ⟨_, _, _, heq, hnext, Or.inr ⟨hne, rfl⟩, hrep, fun _ => hexact, fun _ => Or.inl rfl⟩
  · refine ⟨_, _, layout, rfl, rfl, Or.inl rfl, h, fun _ => id, fun _ => ?_⟩
    by_cases hnil : layout.active.batches = []
    · exact Or.inl hnil
    · right
      obtain ⟨head, rest, hcons⟩ := List.exists_cons_of_ne_nil hnil
      have hpos := (h.holds.valid layout.active_mem head (hcons ▸ List.mem_cons_self)).size_pos
      have hle := batchBytes_le_totalBytes (hcons ▸ List.mem_cons_self : head ∈ layout.active.batches)
      omega

/-! ### Writing the batch -/

namespace Rep

variable {options : CommitLogOptions} {store : Store} {layout : Layout}

/-- Replacing the content of the active file. -/
theorem find?_writeActive (h : Rep options store layout) {content : Bytes} {chunk : Chunk}
    (hmem : chunk ∈ layout.sealed) :
    (store.disk.writeLog layout.active.base content).logs.find? chunk.base = some chunk.content := by
  obtain ⟨mid, -, -, hlt, hle⟩ := h.holds.sealed.chunk_chain hmem
  refine (SortedMap.find?_insert_of_ne (by omega) _ _).trans ?_
  exact h.files chunk (Layout.mem_chunks.mpr (Or.inl hmem))

theorem fresh_writeActive (h : Rep options store layout) {written : Bytes} (base : Int) (content : Bytes)
    (hfind : (store.disk.writeLog layout.active.base written).logs.find? base = some content)
    (hbase : layout.active.base < base) : content = [] := by
  have hne : base ≠ layout.active.base := ne_of_gt hbase
  exact h.fresh base content ((SortedMap.find?_insert_of_ne hne _ _).symm.trans hfind) hbase

theorem exact_writeActive {written : Bytes} {active : Chunk} {store' : Store}
    (hexact : Exact store layout) (hfile : active.file = (layout.active.base, written))
    (hlogs : store'.disk.logs = (store.disk.writeLog layout.active.base written).logs) :
    Exact store' ⟨layout.sealed, active⟩ := by
  rw [Exact, Layout.chunks, List.map_append, List.map_singleton] at hexact
  rw [Exact, hlogs, Layout.chunks, List.map_append, List.map_singleton, hfile]
  exact SortedMap.entries_insert_present hexact _

/-- The content of the active file when some bytes have been written behind its batches. -/
theorem pwrite_active (h : Rep options store layout) (data : Bytes) :
    File.pwrite layout.active.content data (totalBytes layout.active.batches) =
      layout.active.bytes ++ (data ++ layout.active.stale.drop data.length) := by
  rw [← length_flatMap_bytes (h.holds.valid layout.active_mem)]
  exact File.pwrite_append _ _ _

theorem torn (h : Rep options store layout) (data : Bytes) :
    Rep options ⟨store.log, store.disk.writeLog layout.active.base
      (layout.active.bytes ++ (data ++ layout.active.stale.drop data.length))⟩ (layout.torn data) where
  options_eq := h.options_eq
  opened := h.opened
  interval_pos := h.interval_pos
  holds := ⟨h.holds.sealed, h.holds.active⟩
  next_le := h.next_le
  segments := by
    rw [h.segments]
    simp only [Layout.chunks, List.map_append]
    rfl
  indexes := by
    rw [h.indexes]
    simp only [Layout.chunks, List.map_append]
    rfl
  files := fun chunk hmem => by
    rcases Layout.mem_chunks.mp hmem with hmem | rfl
    · exact h.find?_writeActive hmem
    · exact SortedMap.find?_insert_self _ _ _
  fresh := h.fresh_writeActive

theorem index_extended (options : CommitLogOptions) (layout : Layout) (batch : RecordBatch) :
    { layout.active.index options.indexIntervalBytes with
        entries := add IndexEntry.position options.indexIntervalBytes
          (layout.active.index options.indexIntervalBytes).entries
          ⟨batch.baseOffset, totalBytes layout.active.batches⟩ } =
      (layout.extended batch).active.index options.indexIntervalBytes := by
  change _ = OffsetIndex.mk _ _ (build _ _ (placed 0 (layout.active.batches ++ [batch])))
  rw [placed_append, Nat.zero_add]
  exact congrArg (OffsetIndex.mk _ _) (build_concat _ _).symm

theorem extended_content (layout : Layout) {batch : RecordBatch} (hvalid : batch.Valid) :
    (layout.extended batch).active.content =
      layout.active.bytes ++ (batch.bytes ++ layout.active.stale.drop batch.bytes.length) := by
  change (layout.active.batches ++ [batch]).flatMap RecordBatch.bytes ++
    layout.active.stale.drop batch.batchBytes = _
  rw [List.flatMap_append, List.flatMap_cons, List.flatMap_nil, List.append_nil, List.append_assoc,
    hvalid.length_bytes]
  rfl

/-- The index takes the next batch. -/
theorem accepts (h : Rep options store layout) {batch : RecordBatch}
    (hbase : batch.baseOffset = store.log.nextOffset) :
    (layout.active.index options.indexIntervalBytes).Accepts batch.baseOffset
      (totalBytes layout.active.batches) := by
  refine ⟨h.holds.active_base_nonneg, hbase ▸ h.holds.active.le, fun last hlast => ?_⟩
  have hmem : last ∈ placed 0 layout.active.batches :=
    (build_sublist _).subset (List.mem_of_getLast? hlast)
  obtain ⟨before, found, after, hsplit, rfl⟩ := mem_placed hmem
  have hfound : found ∈ layout.active.batches := hsplit ▸ List.mem_append_right _ List.mem_cons_self
  have hlt := (h.holds.valid layout.active_mem found hfound).lt_endOffset
  have hend := (h.holds.active.bounds hfound).2
  refine ⟨by dsimp only; omega, ?_⟩
  rw [hsplit, totalBytes_append, Nat.zero_add]
  exact Nat.le_add_right _ _

theorem extended (h : Rep options store layout) {batch : RecordBatch} (hvalid : batch.Valid)
    (hbase : batch.baseOffset = store.log.nextOffset) (hmax : batch.endOffset ≤ maxOffset) :
    Rep options
      { log := { store.log with
          segments := store.log.segments.dropLast ++ [(layout.extended batch).active.segment]
          indexes := store.log.indexes.dropLast ++
            [(layout.extended batch).active.index options.indexIntervalBytes]
          nextOffset := store.log.nextOffset + batch.recordCount }
        disk := store.disk.writeLog layout.active.base
          (layout.active.bytes ++ (batch.bytes ++ layout.active.stale.drop batch.bytes.length)) }
      (layout.extended batch) where
  options_eq := h.options_eq
  opened := h.opened
  interval_pos := h.interval_pos
  holds := by
    refine ⟨h.holds.sealed, ?_⟩
    rw [← hbase]
    exact h.holds.active.concat hvalid hbase
  next_le := by rw [← hbase]; exact hmax
  segments := by
    rw [h.segments, Layout.chunks, List.map_append, List.map_singleton, List.dropLast_concat, Layout.chunks,
      List.map_append, List.map_singleton]
    rfl
  indexes := by
    rw [h.indexes, Layout.chunks, List.map_append, List.map_singleton, List.dropLast_concat, Layout.chunks,
      List.map_append, List.map_singleton]
    rfl
  files := fun chunk hmem => by
    rcases Layout.mem_chunks.mp hmem with hmem | rfl
    · exact h.find?_writeActive hmem
    · exact (SortedMap.find?_insert_self _ _ _).trans (congrArg some (extended_content layout hvalid).symm)
  fresh := h.fresh_writeActive

/-- What the second part of `Append` does. -/
theorem appendBatch_cases (h : Rep options store layout) {batch : RecordBatch} (hvalid : batch.Valid)
    (hbase : batch.baseOffset = store.log.nextOffset) (hmax : batch.endOffset ≤ maxOffset)
    (faults : IoFaults) :
    (∃ accepted status store', faults.writeBatch = some (accepted, status) ∧
        store.appendBatch batch faults = (.error status, store') ∧
        Rep options store' (layout.torn (batch.bytes.take accepted)) ∧
        (Exact store layout → Exact store' (layout.torn (batch.bytes.take accepted)))) ∨
      ∃ store', faults.writeBatch = none ∧
        store.appendBatch batch faults = (.ok ⟨batch.baseOffset, totalBytes layout.active.batches,
          segmentPath options layout.active.base⟩, store') ∧
        Rep options store' (layout.extended batch) ∧
        (Exact store layout → Exact store' (layout.extended batch)) := by
  have hcontent : store.disk.content layout.active.base = layout.active.content := by
    rw [Disk.content, h.files _ layout.active_mem]
    rfl
  have hsegment : (⟨layout.active.base, totalBytes layout.active.batches + batch.bytes.length, false⟩ : Segment) =
      (layout.extended batch).active.segment := by
    change _ = Segment.mk layout.active.base (totalBytes (layout.active.batches ++ [batch])) false
    rw [hvalid.length_bytes, totalBytes_append, totalBytes, totalBytes, Nat.add_zero]
  unfold Store.appendBatch Segment.append
  rw [h.getLast_segments, h.getLast_indexes]
  dsimp only [Chunk.segment]
  rw [if_neg Bool.false_ne_true, hvalid.encodeRecordBatch, hcontent]
  cases hwrite : faults.writeBatch with
  | some failure =>
      obtain ⟨accepted, status⟩ := failure
      dsimp only
      rw [h.pwrite_active]
      exact Or.inl ⟨accepted, status, _, rfl, rfl, h.torn _, fun hexact => exact_writeActive hexact rfl rfl⟩
  | none =>
      dsimp only
      rw [OffsetIndex.maybeAppend_of_accepts (h.accepts hbase), h.pwrite_active]
      refine Or.inr ⟨_, rfl, ?_, h.extended hvalid hbase hmax, fun hexact =>
        exact_writeActive hexact (congrArg (Prod.mk _) (extended_content layout hvalid)) rfl⟩
      dsimp only
      rw [h.options_eq, hsegment, ← index_extended options layout batch]
      rfl

end Rep

/-! ### Whole appends -/

/-- The ways an `Append` can end, with the layout it leaves: refused or stuck while making room, stopped
while writing the batch, or done. -/
inductive Outcome (options : CommitLogOptions) (next : Int) (layout : Layout) (records : List Record)
    (faults : IoFaults) : Result AppendResult → Layout → Prop
  | refused {room : Layout} (status : Status) (hroom : Room layout next room) :
      Outcome options next layout records faults (.error status) room
  | torn {room : Layout} {batch : RecordBatch} {accepted : Nat} {status : Status}
      (hbatch : makeRecordBatch next records = .ok batch) (hroom : Room layout next room)
      (hwrite : faults.writeBatch = some (accepted, status)) :
      Outcome options next layout records faults (.error status) (room.torn (batch.bytes.take accepted))
  | written {room : Layout} {batch : RecordBatch} (hbatch : makeRecordBatch next records = .ok batch)
      (hroom : Room layout next room) (hfit : Fitting options room batch) :
      Outcome options next layout records faults
        (.ok ⟨next, totalBytes room.active.batches, segmentPath options room.active.base⟩) (room.extended batch)

/-- **Append.** Every `Append` ends in one of these ways, and the log is represented afterwards. -/
theorem Rep.append_outcome {options : CommitLogOptions} {store : Store} {layout : Layout}
    (h : Rep options store layout) (records : List Record) (faults : IoFaults) :
    ∃ layout', Outcome options store.log.nextOffset layout records faults (store.append records faults).1 layout' ∧
      Rep options (store.append records faults).2 layout' ∧
      (faults.openSegment = none → Exact store layout → Exact (store.append records faults).2 layout') := by
  have hrefused (status : Status) : ∃ layout',
      Outcome options store.log.nextOffset layout records faults (.error status) layout' ∧
        Rep options store layout' ∧ (faults.openSegment = none → Exact store layout → Exact store layout') :=
    ⟨layout, .refused status (Or.inl rfl), h, fun _ => id⟩
  rw [Store.append, h.opened, if_neg Bool.false_ne_true]
  split_ifs with hempty hmany
  · exact hrefused _
  · exact hrefused _
  cases hbatch : makeRecordBatch store.log.nextOffset records with
  | error status => exact hrefused status
  | ok batch =>
      obtain ⟨hmade, hbase, hcount, -⟩ := makeRecordBatch_eq_ok hbatch
      have hvalid := hmade h.next_le
      obtain ⟨result, store', room, hmake, hnext, hroom, hrep, hexact, hfit⟩ := h.makeRoom_cases hbase faults
      dsimp only
      rw [hmake]
      cases result with
      | error status => exact ⟨room, .refused status hroom, hrep, hexact⟩
      | ok _ =>
          have hmax : batch.endOffset ≤ maxOffset := by
            unfold RecordBatch.endOffset
            omega
          rcases hrep.appendBatch_cases hvalid (hbase.trans hnext.symm) hmax faults with
            ⟨accepted, status, after, hwrite, heq, hafter, htorn⟩ | ⟨after, -, heq, hafter, hwritten⟩
          · dsimp only
            rw [heq]
            exact ⟨_, .torn hbatch hroom hwrite, hafter, fun hopen he => htorn (hexact hopen he)⟩
          · dsimp only
            rw [heq, hbase]
            exact ⟨_, .written hbatch hroom (hfit rfl), hafter, fun hopen he => hwritten (hexact hopen he)⟩

end LogMq
