import LogMq.StorageRuns

/-! The invariant of a log in the terms of its own data: segments, files, indexes and next offset. It
holds in every state a log reaches by calls to `Append`, whatever system call fails on the way. -/

namespace LogMq

open SparseIndex

/-- The states of a log that was opened on an empty directory and then appended to, with the failures
that are allowed, and the appends acknowledged on the way. -/
inductive FaultyReaches (options : CommitLogOptions) (allowed : Store → List Record → IoFaults → Prop) :
    Store → List Appended → Prop
  | opened {log : CommitLog} {disk : Disk} (hopen : openLog options {} = (.ok log, disk)) :
      FaultyReaches options allowed ⟨log, disk⟩ []
  | append {store : Store} {acked : List Appended} (hreaches : FaultyReaches options allowed store acked)
      {records : List Record} {faults : IoFaults} (hallowed : allowed store records faults) :
      FaultyReaches options allowed (store.append records faults).2
        (acked ++ acknowledged records (store.append records faults).1)

/-- Every failure is allowed. -/
def anyFaults (_ : Store) (_ : List Record) (_ : IoFaults) : Prop := True

instance (store : Store) : DecidableRel (anyFaults store) := fun _ _ => inferInstanceAs (Decidable True)

section Run

variable (options : CommitLogOptions) (allowed : Store → List Record → IoFaults → Prop)
variable [∀ store, DecidableRel (allowed store)]

/-- One call with its failures, if they are allowed. -/
def runAppend (state : Store × List Appended) (call : List Record × IoFaults) : Option (Store × List Appended) :=
  if allowed state.1 call.1 call.2 then
    let (result, store) := state.1.append call.1 call.2
    some (store, state.2 ++ acknowledged call.1 result)
  else none

/-- A whole run from an empty directory, with the failures of each call. -/
def runAppends (calls : List (List Record × IoFaults)) : Option (Store × List Appended) :=
  match openLog options {} with
  | (.ok log, disk) => calls.foldlM (runAppend allowed) (⟨log, disk⟩, [])
  | (.error _, _) => none

variable {options allowed}

theorem faultyReaches_of_runAppends {calls : List (List Record × IoFaults)} {state : Store × List Appended}
    (h : runAppends options allowed calls = some state) : FaultyReaches options allowed state.1 state.2 := by
  have hfold : ∀ (rest : List (List Record × IoFaults)) (start : Store × List Appended),
      FaultyReaches options allowed start.1 start.2 → rest.foldlM (runAppend allowed) start = some state →
        FaultyReaches options allowed state.1 state.2 := by
    intro rest
    induction rest with
    | nil =>
        intro start hstart hrun
        cases hrun
        exact hstart
    | cons call rest ih =>
        intro start hstart hrun
        rw [List.foldlM_cons] at hrun
        obtain ⟨next, hnext, hrest⟩ := Option.bind_eq_some_iff.mp hrun
        unfold runAppend at hnext
        split_ifs at hnext with hallowed
        cases hnext
        exact ih _ (hstart.append hallowed) hrest
  unfold runAppends at h
  split at h
  · exact hfold calls _ (.opened ‹_›) h
  · cases h

end Run

/-! ### Sizes -/

theorem Bounded.room {options : CommitLogOptions} {layout room : Layout} {next : Int}
    (h : Bounded options layout) (hroom : Room layout next room) : Bounded options room := by
  rcases hroom with rfl | ⟨-, rfl⟩
  · exact h
  · intro chunk hmem
    rcases Layout.mem_chunks.mp hmem with hmem | rfl
    · exact h chunk hmem
    · exact Or.inl (Nat.zero_le _)

/-- Replacing the active segment keeps the bound if the new one is within it. -/
theorem Bounded.active {options : CommitLogOptions} {layout : Layout} (h : Bounded options layout) {active : Chunk}
    (hactive : totalBytes active.batches ≤ options.segmentBytes ∨ active.batches.length = 1) :
    Bounded options ⟨layout.sealed, active⟩ := by
  intro chunk hmem
  rcases Layout.mem_chunks.mp hmem with hmem | rfl
  · exact h chunk (Layout.mem_chunks.mpr (Or.inl hmem))
  · exact hactive

theorem Outcome.bounded {options : CommitLogOptions} {next : Int} {layout layout' : Layout} {records : List Record}
    {faults : IoFaults} {result : Result AppendResult}
    (h : Outcome options next layout records faults result layout') (hbounded : Bounded options layout) :
    Bounded options layout' := by
  cases h with
  | refused status hroom => exact hbounded.room hroom
  | @torn room _ _ _ hbatch hroom hwrite =>
      have hold := hbounded.room hroom
      have hactive := hold _ room.active_mem
      exact hold.active hactive
  | @written room batch hbatch hroom hfit =>
      refine (hbounded.room hroom).active ?_
      change totalBytes (room.active.batches ++ [batch]) ≤ _ ∨ (room.active.batches ++ [batch]).length = 1
      rcases hfit with hnil | hle
      · right
        rw [hnil]
        rfl
      · left
        rw [totalBytes_append, totalBytes, totalBytes]
        exact hle

/-- **Runs with failures.** The log stays represented and within its size limit. -/
theorem FaultyReaches.rep {options : CommitLogOptions} {allowed : Store → List Record → IoFaults → Prop}
    {store : Store} {acked : List Appended} (h : FaultyReaches options allowed store acked) :
    ∃ layout, Rep options.normalized store layout ∧ Bounded options.normalized layout := by
  induction h with
  | opened hopen =>
      obtain ⟨hdir, hsize⟩ := openLog_ok_options hopen
      obtain ⟨log, disk, hopen', hrep, -⟩ := openLog_empty hdir hsize .empty
      cases hopen.symm.trans hopen'
      refine ⟨Layout.initial, hrep, fun chunk hmem => ?_⟩
      rw [List.mem_singleton.mp hmem]
      exact Or.inl (Nat.zero_le _)
  | @append _ _ _ records faults _ ih =>
      obtain ⟨layout, hrep, hbounded⟩ := ih
      obtain ⟨layout', houtcome, hrep', -⟩ := hrep.append_outcome records faults
      exact ⟨layout', hrep', houtcome.bounded hbounded⟩

/-! ### The invariant -/

/-- One segment: its file is a concatenation of encoded batches up to `write_position`, and its index
points at some of them, closely enough. -/
structure SegmentInvariant (options : CommitLogOptions) (content : Bytes) (segment : Segment)
    (index : OffsetIndex) (batches : List RecordBatch) : Prop where
  encoded : ∀ batch ∈ batches, encodeRecordBatch batch = .ok batch.bytes
  bytes : content.take segment.writePosition = batches.flatMap RecordBatch.bytes
  length : segment.writePosition = (batches.flatMap RecordBatch.bytes).length
  first : ∀ batch rest, batches = batch :: rest → batch.baseOffset = segment.baseOffset
  bounded : segment.writePosition ≤ options.segmentBytes ∨ batches.length = 1
  sorted : index.entries.Pairwise fun left right => left.offset < right.offset ∧ left.position < right.position
  points : ∀ entry ∈ index.entries, ∃ before batch after, batches = before ++ batch :: after ∧
    entry = ⟨batch.baseOffset, (before.flatMap RecordBatch.bytes).length⟩
  floor : ∀ before batch after, batches = before ++ batch :: after → ∃ entry,
    index.findFloor batch.baseOffset = .ok entry ∧
      entry.position ≤ (before.flatMap RecordBatch.bytes).length ∧
      (before.flatMap RecordBatch.bytes).length < entry.position + options.indexIntervalBytes

/-- The whole log: `parts` are the batches of each segment. -/
structure LogInvariant (store : Store) (parts : List (List RecordBatch)) : Prop where
  bases : store.log.segments.Pairwise fun left right => left.baseOffset < right.baseOffset
  nonempty : ∀ segment ∈ store.log.segments.dropLast, 0 < segment.writePosition
  parts_length : parts.length = store.log.segments.length
  indexes_length : store.log.indexes.length = store.log.segments.length
  contiguous : Chain 0 parts.flatten store.log.nextOffset
  segment : ∀ (i : Nat) segment index batches, store.log.segments[i]? = some segment →
    store.log.indexes[i]? = some index → parts[i]? = some batches →
    SegmentInvariant store.log.options (store.disk.content segment.baseOffset) segment index batches

/-- Offsets and positions of the batches of a chain increase. -/
theorem Chain.placed_sorted {start stop : Int} {batches : List RecordBatch} (h : Chain start batches stop)
    (position : Nat) :
    (placed position batches).Pairwise fun left right => left.offset < right.offset ∧ left.position < right.position := by
  induction batches generalizing start position with
  | nil => exact List.Pairwise.nil
  | cons batch rest ih =>
      obtain ⟨hvalid, hbase, hrest⟩ := h
      refine List.pairwise_cons.mpr ⟨fun entry hentry => ?_, ih hrest _⟩
      obtain ⟨before, other, after, rfl, rfl⟩ := mem_placed hentry
      have hlow := (hrest.bounds (List.mem_append_right _ List.mem_cons_self)).1
      have hlt := hvalid.lt_endOffset
      have hpos := hvalid.size_pos
      dsimp only
      omega

theorem Rep.segmentInvariant {options : CommitLogOptions} {store : Store} {layout : Layout}
    (h : Rep options store layout) (hbounded : Bounded options layout) {chunk : Chunk}
    (hmem : chunk ∈ layout.chunks) :
    SegmentInvariant options chunk.content chunk.segment (chunk.index options.indexIntervalBytes) chunk.batches := by
  obtain ⟨mid, hchain, -, -⟩ := h.holds.chunk_chain hmem
  have hvalid := hchain.valid
  have hlength := length_flatMap_bytes hvalid
  have hbefore : ∀ before batch after, chunk.batches = before ++ batch :: after →
      (before.flatMap RecordBatch.bytes).length = totalBytes before := by
    intro before batch after hsplit
    exact length_flatMap_bytes fun b hb => hvalid b (hsplit ▸ List.mem_append_left _ hb)
  refine ⟨fun batch hbatch => (hvalid batch hbatch).encodeRecordBatch, Chunk.content_take hvalid, hlength.symm, ?_,
    hbounded chunk hmem, (hchain.placed_sorted 0).sublist (build_sublist _), ?_, ?_⟩
  · intro batch rest hcons
    rw [hcons] at hchain
    exact hchain.2.1
  · intro entry hentry
    obtain ⟨before, batch, after, hsplit, rfl⟩ := mem_placed ((build_sublist _).subset hentry)
    exact ⟨before, batch, after, hsplit, by rw [hbefore _ _ _ hsplit, Nat.zero_add]⟩
  · intro before batch after hsplit
    have hbatch : batch ∈ chunk.batches := hsplit ▸ List.mem_append_right _ List.mem_cons_self
    obtain ⟨front, skipped, base, rfl, hfloor, hskip⟩ := chunk.exists_floor h.interval_pos hchain hsplit
      (le_refl _) (hvalid batch hbatch).lt_endOffset
    refine ⟨_, hfloor, ?_⟩
    rw [hbefore _ _ _ hsplit, totalBytes_append]
    dsimp only
    omega

/-- A represented log satisfies the invariant. -/
theorem Rep.logInvariant {options : CommitLogOptions} {store : Store} {layout : Layout}
    (h : Rep options store layout) (hbounded : Bounded options layout) :
    LogInvariant store (layout.chunks.map Chunk.batches) where
  bases := by
    rw [h.segments]
    exact List.pairwise_map.mpr h.holds.bases_sorted
  nonempty := by
    intro segment hsegment
    rw [h.segments, Layout.chunks, List.map_append, List.map_singleton, List.dropLast_concat] at hsegment
    obtain ⟨chunk, hmem, rfl⟩ := List.mem_map.mp hsegment
    obtain ⟨mid, hchain, -, hlt, -⟩ := h.holds.sealed.chunk_chain hmem
    cases hbatches : chunk.batches with
    | nil =>
        rw [hbatches] at hchain
        exact absurd (show chunk.base = mid from hchain) hlt.ne
    | cons batch rest =>
        have hpos := (hchain.valid batch (hbatches ▸ List.mem_cons_self)).size_pos
        change 0 < totalBytes chunk.batches
        rw [hbatches, totalBytes]
        omega
  parts_length := by rw [h.segments, List.length_map, List.length_map]
  indexes_length := by rw [h.segments, h.indexes, List.length_map, List.length_map]
  contiguous := by
    rw [← List.flatMap_def]
    exact h.holds.chain
  segment := by
    intro i segment index batches hsegment hindex hpart
    rw [h.segments, List.getElem?_map, Option.map_eq_some_iff] at hsegment
    rw [h.indexes, List.getElem?_map, Option.map_eq_some_iff] at hindex
    rw [List.getElem?_map, Option.map_eq_some_iff] at hpart
    obtain ⟨chunk, hchunk, rfl⟩ := hsegment
    obtain ⟨_, hchunk', rfl⟩ := hindex
    cases hchunk.symm.trans hchunk'
    obtain ⟨_, hchunk', rfl⟩ := hpart
    cases hchunk.symm.trans hchunk'
    have hmem := List.mem_of_getElem? hchunk
    rw [h.options_eq, show store.disk.content chunk.segment.baseOffset = chunk.content by
      change (store.disk.logs.find? chunk.base).getD [] = _
      rw [h.files chunk hmem]
      rfl]
    exact h.segmentInvariant hbounded hmem

/-- **The invariant of every reachable state.** Together with it, the index never refuses the offset
that `Append` has just written. -/
theorem reachable_invariant {options : CommitLogOptions} {store : Store} {acked : List Appended}
    (h : FaultyReaches options anyFaults store acked) :
    (∃ parts, LogInvariant store parts) ∧
      ∀ records batch faults room, makeRecordBatch store.log.nextOffset records = .ok batch →
        store.makeRoom batch faults = (.ok (), room) → ∃ target index index',
          room.log.segments.getLast? = some target ∧ room.log.indexes.getLast? = some index ∧
          index.maybeAppend batch.baseOffset target.writePosition = .ok index' := by
  obtain ⟨layout, hrep, hbounded⟩ := h.rep
  refine ⟨⟨_, hrep.logInvariant hbounded⟩, fun records batch faults room hbatch hroom => ?_⟩
  obtain ⟨-, hbase, -⟩ := makeRecordBatch_eq_ok hbatch
  obtain ⟨result, store', layout', hmake, hnext, -, hrep', -⟩ := hrep.makeRoom_cases hbase faults
  cases hroom.symm.trans hmake
  exact ⟨_, _, _, hrep'.getLast_segments, hrep'.getLast_indexes,
    OffsetIndex.maybeAppend_of_accepts (hrep'.accepts (hbase.trans hnext.symm))⟩

/-- The invariant after a roll whose index could not be written and a write that stopped half way. -/
theorem reachable_invariant_failures :
    ∃ store acked parts,
      FaultyReaches { dataDir := "log", segmentBytes := 60, indexIntervalBytes := 0 } anyFaults store acked ∧
      store.log.segments.length = 2 ∧ acked.length = 1 ∧ LogInvariant store parts := by
  have hrun : (runAppends { dataDir := "log", segmentBytes := 60, indexIntervalBytes := 0 } anyFaults
      [([⟨7, [], [1], 0⟩], {}),
        ([⟨8, [], [], 0⟩], { rewriteIndex := some (none, .ioError "open index file: denied") }),
        ([⟨8, [], [], 0⟩], { writeBatch := some (40, .ioError "write failed") })]).any (fun state =>
          decide (state.1.log.segments.length = 2 ∧ state.2.length = 1)) = true := by
    decide +kernel
  obtain ⟨⟨store, acked⟩, hstate, hcheck⟩ := Option.any_eq_true _ _ |>.mp hrun
  obtain ⟨hsegments, hacked⟩ := of_decide_eq_true hcheck
  have hreaches := faultyReaches_of_runAppends hstate
  obtain ⟨⟨parts, hparts⟩, -⟩ := reachable_invariant hreaches
  exact ⟨store, acked, parts, hreaches, hsegments, hacked, hparts⟩

end LogMq
