import LogMq.StorageCut

/-! What a log holds, without the segments it is spread over. The batches of a represented log are a
chain from offset zero; `Append` adds one batch or none, a read returns the batch around an offset, and a
directory no system call has failed on is opened again with the same batches. -/

namespace LogMq

/-! ### The records of a chain -/

/-- The records of some batches, in the order of their offsets. -/
def contents (batches : List RecordBatch) : List Record := batches.flatMap RecordBatch.records

/-- The record at an offset of a log that starts at zero. -/
def storedAt (batches : List RecordBatch) (offset : Int) : Option Record :=
  if offset < 0 then none else (contents batches)[offset.toNat]?

theorem contents_append (left right : List RecordBatch) :
    contents (left ++ right) = contents left ++ contents right :=
  List.flatMap_append

theorem Chain.length_contents {start stop : Int} {batches : List RecordBatch} (h : Chain start batches stop) :
    ((contents batches).length : Int) = stop - start := by
  induction batches generalizing start with
  | nil =>
      cases h
      exact (Int.sub_self _).symm
  | cons head rest ih =>
      obtain ⟨hvalid, rfl, hrest⟩ := h
      have hcount := hvalid.count_eq
      have hlength := ih hrest
      rw [RecordBatch.endOffset] at hlength
      rw [contents, List.flatMap_cons, List.length_append]
      rw [contents] at hlength
      omega

theorem Chain.contents_getElem {start stop : Int} {batches : List RecordBatch} (h : Chain start batches stop)
    {batch : RecordBatch} (hmem : batch ∈ batches) {index : Nat} (hindex : index < batch.records.length) :
    (contents batches)[(batch.baseOffset - start).toNat + index]? = batch.records[index]? := by
  obtain ⟨before, after, rfl⟩ := List.append_of_mem hmem
  obtain ⟨mid, hbefore, -, rfl, -⟩ := chain_append.mp h
  have hlength := hbefore.length_contents
  have hposition : (batch.baseOffset - start).toNat + index = (contents before).length + index := by omega
  rw [hposition, contents_append, List.getElem?_append_right (Nat.le_add_right _ _), Nat.add_sub_cancel_left, contents,
    List.flatMap_cons, List.getElem?_append_left hindex]

section StoredAt

variable {batches : List RecordBatch} {next offset : Int} {record : Record}

theorem storedAt_of_nonneg (h : 0 ≤ offset) : storedAt batches offset = (contents batches)[offset.toNat]? :=
  if_neg (not_lt.mpr h)

/-- Stored records stay where they are. -/
theorem storedAt_append (h : storedAt batches offset = some record) (more : List RecordBatch) :
    storedAt (batches ++ more) offset = some record := by
  unfold storedAt at h ⊢
  split_ifs at h ⊢
  rw [contents_append]
  exact List.getElem?_append_left (List.getElem?_eq_some_iff.mp h).1 ▸ h

theorem Chain.storedAt_isSome (h : Chain 0 batches next) :
    (storedAt batches offset).isSome ↔ 0 ≤ offset ∧ offset < next := by
  have hlength := h.length_contents
  unfold storedAt
  split_ifs with hneg
  · simp only [Option.isSome_none, Bool.false_eq_true, false_iff]
    omega
  · rw [isSome_getElem?]
    omega

theorem Chain.storedAt_bounds (h : Chain 0 batches next) (hstored : storedAt batches offset = some record) :
    0 ≤ offset ∧ offset < next :=
  h.storedAt_isSome.mp (hstored ▸ rfl)

theorem Chain.exists_storedAt (h : Chain 0 batches next) (hzero : 0 ≤ offset) (hnext : offset < next) :
    ∃ record, storedAt batches offset = some record :=
  Option.isSome_iff_exists.mp (h.storedAt_isSome.mpr ⟨hzero, hnext⟩)

theorem Chain.storedAt_batch (h : Chain 0 batches next) {batch : RecordBatch} (hmem : batch ∈ batches)
    (hle : batch.baseOffset ≤ offset) (hlt : offset < batch.endOffset) :
    storedAt batches offset = batch.records[(offset - batch.baseOffset).toNat]? := by
  have hvalid := h.valid batch hmem
  have hbase := hvalid.base_nonneg
  have hcount := hvalid.count_eq
  rw [RecordBatch.endOffset] at hlt
  have hindex : (offset - batch.baseOffset).toNat < batch.records.length := by omega
  rw [storedAt_of_nonneg (hbase.trans hle), ← h.contents_getElem hmem hindex]
  congr 1
  omega

end StoredAt

/-! ### Budgets -/

theorem scanSegment_le {segment : Segment} {content : Bytes} {offset : Int} {maxBytes more fuel position : Nat}
    (hle : maxBytes ≤ more) {batch : RecordBatch}
    (h : scanSegment segment content offset maxBytes fuel position = .ok batch) :
    batch.batchBytes ≤ maxBytes ∧ scanSegment segment content offset more fuel position = .ok batch := by
  induction fuel generalizing position with
  | zero => cases h
  | succ fuel ih =>
      rw [scanSegment] at h ⊢
      by_cases hposition : position < segment.writePosition
      · rw [if_pos hposition] at h ⊢
        obtain ⟨found, hread, h⟩ := Result.bind_eq_ok.mp h
        have hopen : segment.closed = false := by
          by_contra hclosed
          rw [Segment.read, if_pos (Bool.eq_true_of_not_eq_false hclosed)] at hread
          cases hread
        rw [Segment.read_of_open hopen] at hread
        obtain ⟨hfound, hdecodes⟩ := readBatch_eq_ok.mp hread
        rw [Segment.read_of_open hopen, readBatch_eq_ok.mpr ⟨hfound.trans hle, hdecodes⟩]
        by_cases hcontains : batchContainsOffset found offset = true
        · rw [if_pos hcontains] at h
          cases h
          exact ⟨hfound, if_pos hcontains⟩
        · rw [if_neg hcontains] at h
          obtain ⟨hbatch, hscan⟩ := ih h
          refine ⟨hbatch, ?_⟩
          simp only [bind, Except.bind]
          rw [if_neg hcontains]
          exact hscan
      · rw [if_neg hposition] at h
        cases h

/-- A larger budget returns the same batch. -/
theorem Store.read_le {store : Store} {offset : Int} {maxBytes more : Nat} (hle : maxBytes ≤ more)
    {batch : RecordBatch} (h : store.read offset maxBytes = .ok batch) :
    batch.batchBytes ≤ maxBytes ∧ store.read offset more = .ok batch := by
  unfold Store.read at h ⊢
  split_ifs at h ⊢
  obtain ⟨i, hfind, h⟩ := Result.bind_eq_ok.mp h
  rw [hfind]
  simp only [bind, Except.bind]
  split at h
  · obtain ⟨position, hstart, h⟩ := Result.bind_eq_ok.mp h
    rw [hstart]
    exact scanSegment_le hle h
  · cases h

theorem Store.read_nonneg {store : Store} {offset : Int} {maxBytes : Nat} {batch : RecordBatch}
    (h : store.read offset maxBytes = .ok batch) : 0 ≤ offset ∧ offset < store.log.nextOffset := by
  unfold Store.read at h
  split_ifs at h
  omega

/-! ### Logs and the batches they hold -/

/-- The log holds these batches. As long as it is intact, that is no system call has failed on it, its
directory holds nothing else. -/
def Carries (options : CommitLogOptions) (intact : Prop) (store : Store) (batches : List RecordBatch) : Prop :=
  ∃ layout, Rep options store layout ∧ layout.batches = batches ∧ (intact → Exact store layout ∧ layout.Clean)

namespace Carries

variable {options : CommitLogOptions} {intact : Prop} {store : Store} {batches : List RecordBatch}

theorem chain (h : Carries options intact store batches) : Chain 0 batches store.log.nextOffset := by
  obtain ⟨layout, hrep, rfl, -⟩ := h
  exact hrep.holds.chain

theorem next_nonneg (h : Carries options intact store batches) : 0 ≤ store.log.nextOffset := h.chain.le

theorem next_le (h : Carries options intact store batches) : store.log.nextOffset ≤ maxOffset := by
  obtain ⟨layout, hrep, -⟩ := h
  exact hrep.next_le

theorem mono (h : Carries options intact store batches) {intact' : Prop} (himp : intact' → intact) :
    Carries options intact' store batches := by
  obtain ⟨layout, hrep, hbatches, hexact⟩ := h
  exact ⟨layout, hrep, hbatches, fun hintact => hexact (himp hintact)⟩

/-- Files other than the segments do not matter. -/
theorem of_logs_eq (h : Carries options intact store batches) {disk : Disk} (hlogs : disk.logs = store.disk.logs) :
    Carries options intact ⟨store.log, disk⟩ batches := by
  obtain ⟨layout, hrep, hbatches, hexact⟩ := h
  refine ⟨layout, hrep.of_logs_eq hlogs, hbatches, fun hintact => ⟨?_, (hexact hintact).2⟩⟩
  rw [Exact, hlogs]
  exact (hexact hintact).1

/-- A read returns the batch around its offset, within the budget. -/
theorem read_sound (h : Carries options intact store batches) {offset : Int} {maxBytes : Nat} {batch : RecordBatch}
    (hread : store.read offset maxBytes = .ok batch) :
    batch ∈ batches ∧ batch.baseOffset ≤ offset ∧ offset < batch.endOffset ∧ batch.batchBytes ≤ maxBytes := by
  obtain ⟨layout, hrep, rfl, -⟩ := h
  obtain ⟨hzero, hnext⟩ := Store.read_nonneg hread
  obtain ⟨found, hfound, hle, hlt⟩ := hrep.exists_batch hzero hnext
  obtain ⟨hbatch, hmore⟩ := Store.read_le (Nat.le_add_right maxBytes (found.batchBytes + options.indexIntervalBytes))
    hread
  have hexpected := hrep.read_batch hfound hle hlt
    (by omega : found.batchBytes ≤ maxBytes + (found.batchBytes + options.indexIntervalBytes)) (by omega)
  cases Except.ok.inj (hmore.symm.trans hexpected)
  exact ⟨hfound, hle, hlt, hbatch⟩

/-- A read whose budget covers the batch and the index interval succeeds. -/
theorem read_complete (h : Carries options intact store batches) {batch : RecordBatch} (hmem : batch ∈ batches)
    {offset : Int} (hle : batch.baseOffset ≤ offset) (hlt : offset < batch.endOffset) {maxBytes : Nat}
    (hsize : batch.batchBytes ≤ maxBytes) (hinterval : options.indexIntervalBytes ≤ maxBytes) :
    store.read offset maxBytes = .ok batch := by
  obtain ⟨layout, hrep, rfl, -⟩ := h
  exact hrep.read_batch hmem hle hlt hsize hinterval

/-- **Append.** Either the log holds what it held, or one more batch at its end. -/
theorem append (h : Carries options intact store batches) (records : List Record) (faults : IoFaults) :
    (∃ status, (store.append records faults).1 = .error status ∧
        Carries options (intact ∧ faults = {}) (store.append records faults).2 batches) ∨
      ∃ result batch, (store.append records faults).1 = .ok result ∧
        result.baseOffset = store.log.nextOffset ∧
        makeRecordBatch store.log.nextOffset records = .ok batch ∧
        Carries options (intact ∧ faults = {}) (store.append records faults).2 (batches ++ [batch]) := by
  obtain ⟨layout, hrep, rfl, hexact⟩ := h
  obtain ⟨layout', houtcome, hrep', hexact'⟩ := hrep.append_outcome records faults
  have hintact : intact ∧ faults = {} → Exact (store.append records faults).2 layout' ∧ layout'.Clean := by
    rintro ⟨hintact, rfl⟩
    exact ⟨hexact' rfl (hexact hintact).1, houtcome.clean rfl (hexact hintact).2⟩
  generalize (store.append records faults).1 = result at houtcome
  cases houtcome with
  | refused status hroom => exact Or.inl ⟨status, rfl, layout', hrep', hroom.batches_eq, hintact⟩
  | @torn room batch accepted status hbatch hroom hwrite =>
      refine Or.inl ⟨status, rfl, _, hrep', ?_, hintact⟩
      rw [Layout.batches_torn, hroom.batches_eq]
  | @written room batch hbatch hroom hfit =>
      refine Or.inr ⟨_, batch, rfl, rfl, hbatch, _, hrep', ?_, hintact⟩
      rw [Layout.batches_extended, hroom.batches_eq]

/-- A batch for the next offset is appended as long as no system call fails. -/
theorem append_succeeds (h : Carries options intact store batches) {records : List Record} {batch : RecordBatch}
    (hbatch : makeRecordBatch store.log.nextOffset records = .ok batch)
    (hmax : store.log.nextOffset + records.length ≤ maxOffset) :
    ∃ result, (store.append records {}).1 = .ok result := by
  obtain ⟨layout, hrep, -, -⟩ := h
  obtain ⟨hmade, hbase, hcount, hrecords⟩ := makeRecordBatch_eq_ok hbatch
  have hvalid := hmade hrep.next_le
  have hempty : records.isEmpty = false := by
    rw [List.isEmpty_eq_false_iff]
    rintro rfl
    exact hvalid.nonempty hrecords
  have hend : batch.endOffset ≤ maxOffset := by
    rw [RecordBatch.endOffset, hbase, hcount]
    exact hmax
  obtain ⟨result, store', room, hmake, hnext, -, hroom, -⟩ := hrep.makeRoom_cases hbase {}
  have hresult : result = .ok () := by
    rw [Store.makeRoom, hrep.getLast_segments, hbase] at hmake
    dsimp only at hmake
    split_ifs at hmake
    · rw [Store.rollSegment, openSegment, if_neg (not_lt.mpr hrep.holds.next_nonneg)] at hmake
      cases hmake
      rfl
    · cases hmake
      rfl
  rw [Store.append, hrep.opened, hempty, if_neg Bool.false_ne_true, if_neg Bool.false_ne_true, if_neg (by omega), hbatch]
  dsimp only
  rw [hmake, hresult]
  dsimp only
  rcases hroom.appendBatch_cases hvalid (hbase.trans hnext.symm) hend {} with ⟨_, _, _, habsurd, -⟩ | ⟨_, -, heq, -⟩
  · cases habsurd
  · rw [heq]
    exact ⟨_, rfl⟩

/-- An intact directory opens under any options that `Open` accepts, with the same batches. -/
theorem reopen (h : Carries options intact store batches) (hintact : intact) {reopened : CommitLogOptions}
    (hdir : reopened.dataDir ≠ "") (hsize : recordBatchHeaderBytes ≤ reopened.segmentBytes) {disk : Disk}
    (hlogs : disk.logs = store.disk.logs) :
    ∃ log disk', openLog reopened disk = (.ok log, disk') ∧
      Carries reopened.normalized True ⟨log, disk'⟩ batches := by
  obtain ⟨layout, hrep, rfl, hexact⟩ := h
  obtain ⟨hexact, hclean⟩ := hexact hintact
  obtain ⟨log, disk', hopen, -, hrep', hexact'⟩ := openLog_layout hdir hsize hrep.holds hrep.next_le
    (by rw [hlogs]; exact hexact) (hclean.recoverable reopened)
  exact ⟨log, disk', hopen, layout.clean, hrep', layout.batches_clean, fun _ => ⟨hexact', layout.clean_clean⟩⟩

end Carries

/-! ### Cuts -/

/-- The directory after the file of the active segment has lost all but some first bytes. -/
def Store.cut (store : Store) (kept : Nat) : Disk :=
  match store.log.segments.getLast? with
  | none => store.disk
  | some active =>
      store.disk.writeLog active.baseOffset ((store.disk.content active.baseOffset).take kept)

/-- These first bytes include every batch of the active segment that starts below the offset. -/
def Store.KeepsBelow (store : Store) (kept : Nat) (offset : Int) : Prop :=
  ∀ active batches, store.log.segments.getLast? = some active →
    LaidOut (store.disk.content active.baseOffset) 0 batches → totalBytes batches = active.writePosition →
    ∀ before batch after, batches = before ++ batch :: after → batch.baseOffset < offset →
      totalBytes before + batch.batchBytes ≤ kept

/-- **Cut logs.** An intact log that was cut opens with the batches that were left whole. It goes as far as an
offset if the cut kept the batches below it. -/
theorem Carries.cut {options : CommitLogOptions} {intact : Prop} {store : Store} {batches : List RecordBatch}
    (h : Carries options intact store batches) (hintact : intact) {reopened : CommitLogOptions}
    (hdir : reopened.dataDir ≠ "") (hsize : recordBatchHeaderBytes ≤ reopened.segmentBytes) (size : Nat) :
    ∃ log disk left, openLog reopened (store.cut size) = (.ok log, disk) ∧
      Carries reopened.normalized True ⟨log, disk⟩ left ∧ left <+: batches ∧
      ∀ offset ≤ store.log.nextOffset, store.KeepsBelow size offset → offset ≤ log.nextOffset := by
  obtain ⟨layout, hrep, rfl, hexact⟩ := h
  obtain ⟨hexact, hclean⟩ := hexact hintact
  obtain ⟨kept, lost, mid, hsplit, hkept, hlost, hcontent, hkeptChain, hlostChain⟩ := hrep.exists_cut hclean size
  have hcut : store.cut size = store.disk.writeLog layout.active.base
      ((store.disk.content layout.active.base).take size) := by
    rw [Store.cut, hrep.getLast_segments]
    rfl
  have hholds : (layout.cut kept lost size).Holds mid := ⟨hrep.holds.sealed, hkeptChain⟩
  have hentries : Exact ⟨store.log, store.cut size⟩ (layout.cut kept lost size) := by
    refine @Rep.exact_writeActive _ _ _ _ _ hexact ?_ (by rw [hcut])
    change (layout.active.base, kept.flatMap RecordBatch.bytes ++ _) = _
    rw [cut_content hkeptChain.valid hkept, ← hcontent]
  obtain ⟨log, disk, hopen, hnext, hrep', hexact'⟩ := @openLog_layout reopened _ _ _ hdir hsize hholds
    (hlostChain.le.trans hrep.next_le) hentries (hclean.cut_recoverable hlostChain.valid hkept hlost _)
  refine ⟨log, disk, _, hopen, ⟨_, hrep', Layout.batches_clean _, fun _ => ⟨hexact', Layout.clean_clean _⟩⟩, ?_, ?_⟩
  · rw [Layout.batches, Layout.batches, Layout.chunks, Layout.chunks, List.flatMap_append, List.flatMap_append,
      List.flatMap_singleton, List.flatMap_singleton, hsplit]
    exact (List.prefix_append_right_inj _).mpr (List.prefix_append _ _)
  · intro offset hoffset hbelow
    rw [hnext]
    cases lost with
    | nil =>
        cases hlostChain
        exact hoffset
    | cons batch rest =>
        have hvalid := (chain_append.mpr ⟨mid, hkeptChain, hlostChain⟩).valid
        obtain ⟨-, hbase, -⟩ := hlostChain
        by_contra hlt
        have hlaid : LaidOut (store.disk.content layout.active.base) 0 (kept ++ batch :: rest) := by
          have hbytes := laidOut_bytes hvalid [] []
          rwa [List.nil_append, List.append_nil, ← hcontent] at hbytes
        have hsizes := hbelow _ _ hrep.getLast_segments hlaid (by rw [← hsplit]; rfl) kept batch rest rfl (by omega)
        have habsurd := hlost batch rest rfl
        omega

/-- The directory has no segment file, or the empty one of a log that was never written to. -/
def Disk.Unwritten (disk : Disk) : Prop := disk.logs.entries = [] ∨ disk.logs.entries = [(0, [])]

/-- Such a directory opens as a log without batches. -/
theorem openLog_unwritten {options : CommitLogOptions} {disk : Disk} (h : disk.Unwritten)
    (hdir : options.dataDir ≠ "") (hsize : recordBatchHeaderBytes ≤ options.segmentBytes) :
    ∃ log disk', openLog options disk = (.ok log, disk') ∧ Carries options.normalized True ⟨log, disk'⟩ [] ∧
      disk'.Unwritten := by
  have hcarries : ∀ {log : CommitLog} {disk' : Disk}, Rep options.normalized ⟨log, disk'⟩ Layout.initial →
      Exact ⟨log, disk'⟩ Layout.initial →
        Carries options.normalized True ⟨log, disk'⟩ [] ∧ disk'.Unwritten := by
    intro log disk' hrep hexact
    exact ⟨⟨Layout.initial, hrep, rfl, fun _ => ⟨hexact, Layout.initial.clean_clean⟩⟩, Or.inr hexact⟩
  rcases h with hnil | hfile
  · obtain ⟨logs, indexes⟩ := disk
    have hlogs : logs = .empty := SortedMap.entries_injective hnil
    subst hlogs
    obtain ⟨log, disk', hopen, hrep, hexact⟩ := openLog_empty hdir hsize indexes
    exact ⟨log, disk', hopen, hcarries hrep hexact⟩
  · obtain ⟨log, disk', hopen, -, hrep, hexact⟩ := openLog_layout hdir hsize Layout.initial_holds (by decide) hfile
      (Layout.initial.clean_clean.recoverable options)
    exact ⟨log, disk', hopen, hcarries hrep hexact⟩

end LogMq
