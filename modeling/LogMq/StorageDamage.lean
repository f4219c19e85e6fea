import LogMq.StorageRecovered
import LogMq.StorageRuns

/-! Arbitrary damage to the segment files, and ordinary recovery. Every file is cut off behind its last
readable batch on its own, and the next offset is the largest end found anywhere, so offsets can be
missing in between. A read then finds exactly what is left in the segment its offset belongs to. -/

namespace LogMq

open SparseIndex

theorem Layout.Holds.head_base {layout : Layout} {next : Int} (h : layout.Holds next) :
    ∃ chunk rest, layout.chunks = chunk :: rest ∧ chunk.base = 0 := by
  cases hsealed : layout.sealed with
  | nil =>
      refine ⟨layout.active, [], by rw [chunks, hsealed, List.nil_append], ?_⟩
      have hchain := h.sealed
      rw [hsealed] at hchain
      exact (show (0 : Int) = layout.active.base from hchain).symm
  | cons chunk rest =>
      refine ⟨chunk, rest ++ [layout.active], by rw [chunks, hsealed, List.cons_append], ?_⟩
      have hchain := h.sealed
      rw [hsealed] at hchain
      exact hchain.1

/-- Opening a damaged directory scans its files, of which the first one starts at offset 0. -/
theorem Reaches.scans_of_openLog {options : CommitLogOptions} {store : Store} {acked : List Appended}
    (h : Reaches options store acked) {disk : Disk}
    (hnames : disk.logs.entries.map Prod.fst = store.disk.logs.entries.map Prod.fst) {log : CommitLog}
    {disk' : Disk} (hopen : openLog { options with strictRecovery := false } disk = (.ok log, disk')) :
    ∃ scans, disk.logs.entries = scans.map Scan.file ∧ disk'.logs.entries = scans.map Scan.keptFile ∧
      log = recoveredLog { options with strictRecovery := false } scans ∧ ∃ scan ∈ scans, scan.base = 0 := by
  obtain ⟨hdir, hbytes, layout, ⟨hrep, hexact, -⟩, -⟩ := h.tracks
  have hbases : disk.logs.entries.map Prod.fst = layout.chunks.map Chunk.base := by
    rw [hnames, hexact, List.map_map]
    rfl
  have hbase : ∀ file ∈ disk.logs.entries, 0 ≤ file.1 := by
    intro file hfile
    obtain ⟨chunk, hchunk, heq⟩ := List.mem_map.mp (hbases ▸ List.mem_map_of_mem (f := Prod.fst) hfile)
    exact heq ▸ (hrep.holds.chunk_chain hchunk).choose_spec.2.1
  obtain ⟨scans, hfiles⟩ := Scan.exists_of_files hbase
  obtain ⟨first, others, hchunks, hfirst⟩ := hrep.holds.head_base
  have hkeys : scans.map Scan.base = first.base :: others.map Chunk.base := by
    rw [← hfiles, hchunks, List.map_map] at hbases
    exact hbases
  have hscans : scans ≠ [] := by
    rintro rfl
    cases hkeys
  obtain ⟨-, rfl, hkept⟩ := @recovered_of_openLog { options with strictRecovery := false } _ _ hdir hbytes hscans
    hfiles.symm _ _ hopen
  obtain ⟨scan, hscan, heq⟩ := List.mem_map.mp (hkeys ▸ List.mem_cons_self : first.base ∈ scans.map Scan.base)
  exact ⟨scans, hfiles.symm, hkept, rfl, scan, hscan, heq.trans hfirst⟩

/-- The batches from the scan position of an offset on that recovery kept, for the segment the offset
belongs to. -/
structure Responsible (disk : Disk) (log : CommitLog) (offset : Int) (rest : List RecordBatch) : Prop where
  exists_segment : ∃ (i : Nat) (segment : Segment) (index : OffsetIndex) (skipped : List RecordBatch),
    log.segments[i]? = some segment ∧ log.indexes[i]? = some index ∧ segment.baseOffset ≤ offset ∧
      (∀ other ∈ log.segments.drop (i + 1), offset < other.baseOffset) ∧
      LaidOut (disk.content segment.baseOffset) 0 (skipped ++ rest) ∧
      Stops (disk.content segment.baseOffset) (totalBytes (skipped ++ rest)) ∧
      scanStart index offset = .ok (totalBytes skipped)

/-- A scan among others is the segment an offset belongs to if all later ones start behind the offset. -/
theorem Scan.responsible {options : CommitLogOptions} {disk : Disk} {scans front back : List Scan} {scan : Scan}
    (hfiles : disk.logs.entries = scans.map Scan.file) (hsplit : scans = front ++ scan :: back) {offset : Int}
    (hbase : scan.base ≤ offset) (hback : ∀ other ∈ back, offset < other.base)
    {skipped rest : List RecordBatch} (hbatches : scan.batches = skipped ++ rest)
    (hstart : scanStart (scan.index options.normalized.indexIntervalBytes) offset = .ok (totalBytes skipped)) :
    Responsible disk (recoveredLog options scans) offset rest := by
  have hcontent : disk.content scan.base = scan.content := by
    have hfind : disk.logs.find? scan.base = some scan.content := by
      rw [← SortedMap.mem_entries, hfiles, hsplit]
      exact List.mem_map_of_mem (f := Scan.file) (List.mem_append_right _ List.mem_cons_self)
    rw [Disk.content, hfind]
    rfl
  have hlater : (recoveredLog options scans).segments.drop (front.length + 1) = back.map Scan.segment := by
    change (scans.map Scan.segment).drop _ = _
    rw [← List.map_drop, hsplit, List.append_cons, List.drop_left' (by rw [List.length_append]; rfl)]
  refine ⟨front.length, scan.segment, scan.index options.normalized.indexIntervalBytes, skipped, ?_, ?_, hbase, ?_,
    ?_, ?_, hstart⟩
  · rw [recoveredLog, List.getElem?_map, hsplit, List.getElem?_append_right (le_refl _), Nat.sub_self]
    rfl
  · rw [recoveredLog, List.getElem?_map, hsplit, List.getElem?_append_right (le_refl _), Nat.sub_self]
    rfl
  · intro other hother
    rw [hlater] at hother
    obtain ⟨later, hmem, rfl⟩ := List.mem_map.mp hother
    exact hback later hmem
  · rw [← hbatches]
    exact hcontent.symm ▸ scan.laid
  · rw [← hbatches]
    exact hcontent.symm ▸ scan.stops

/-- **Damage.** Whenever a damaged directory opens in the default mode, a read below the next offset
returns a batch that contains its offset exactly if such a batch survived in the segment the offset
belongs to, at or behind the place the index points to. Otherwise it finds nothing. -/
theorem damaged_read {options : CommitLogOptions} {store : Store} {acked : List Appended}
    (h : Reaches options store acked) {disk : Disk}
    (hnames : disk.logs.entries.map Prod.fst = store.disk.logs.entries.map Prod.fst) {log : CommitLog}
    {disk' : Disk} (hopen : openLog { options with strictRecovery := false } disk = (.ok log, disk'))
    {offset : Int} (hzero : 0 ≤ offset) (hnext : offset < log.nextOffset) :
    ∃ rest, Responsible disk log offset rest ∧
      ((∃ batch, Store.read ⟨log, disk'⟩ offset maxSize = .ok batch ∧ batchContainsOffset batch offset = true) ↔
        ∃ batch ∈ rest, batchContainsOffset batch offset = true) ∧
      ((∀ batch ∈ rest, batchContainsOffset batch offset = false) →
        ∃ message, Store.read ⟨log, disk'⟩ offset maxSize = .error (.notFound message)) := by
  obtain ⟨scans, hfiles, hkept, rfl, zero, hzeros, hstart⟩ := h.scans_of_openLog hnames hopen
  have hsorted := disk.logs.sorted
  rw [hfiles, List.pairwise_map] at hsorted
  obtain ⟨front, back, hsplit, hfront, hback⟩ := @exists_split _ _ _ Scan.base _ hsorted offset
  rcases List.eq_nil_or_concat front with rfl | ⟨front, scan, rfl⟩
  · rw [hsplit] at hzeros
    have hlt := hback zero hzeros
    omega
  · rw [List.concat_eq_append] at hsplit hfront
    rw [List.append_assoc, List.singleton_append] at hsplit
    obtain ⟨skipped, rest, hbatches, hscan, hread⟩ := @read_recovered
      { options with strictRecovery := false } _ _ hkept _ _ _ hsplit _ hzero hnext hfront hback
    have hlaid := scan.laid_kept
    rw [hbatches, laidOut_append, Nat.zero_add] at hlaid
    have hwritten : totalBytes skipped + totalBytes rest = scan.segment.writePosition := by
      rw [← totalBytes_append, ← hbatches]
      rfl
    have hfind := @scanSegment_eq_find _ rfl _ offset _ _ _ hlaid.2 hwritten
      (Nat.lt_succ_of_le (Nat.sub_le scan.segment.writePosition _))
    have hbase := hfront scan (List.mem_append_right _ List.mem_cons_self)
    refine ⟨rest, Scan.responsible hfiles hsplit hbase hback hbatches hscan, ?_, ?_⟩
    · rw [hread]
      change (∃ batch, scanSegment _ _ _ _ (scan.segment.writePosition + 1) _ = _ ∧ _) ↔ _
      rw [hfind, ← List.find?_isSome (p := (batchContainsOffset · offset))]
      cases hsome : rest.find? (batchContainsOffset · offset) with
      | none => exact ⟨fun ⟨_, hbatch, _⟩ => (nomatch hbatch), fun h => (nomatch h)⟩
      | some found =>
          exact ⟨fun _ => rfl, fun _ => ⟨found, rfl, List.find?_some (p := (batchContainsOffset · offset)) hsome⟩⟩
    · intro hmissing
      have hnone : rest.find? (batchContainsOffset · offset) = none :=
        List.find?_eq_none.mpr fun batch hmem => by rw [hmissing batch hmem]; exact Bool.false_ne_true
      rw [hnone] at hfind
      exact ⟨_, (hread maxSize).trans hfind⟩

/-! ### An emptied segment -/

/-- The directory with the file of the segment at offset 0 emptied. -/
def emptied (disk : Disk) : Disk := { disk with logs := disk.logs.insert 0 [] }

/-- Whether a read finds its offset. -/
def finds (store : Store) (offset : Int) : Bool :=
  match store.read offset maxSize with
  | .ok batch => batchContainsOffset batch offset
  | .error _ => false

theorem finds_eq_true {store : Store} {offset : Int} : finds store offset = true ↔
    ∃ batch, store.read offset maxSize = .ok batch ∧ batchContainsOffset batch offset = true := by
  unfold finds
  cases store.read offset maxSize with
  | ok batch => exact ⟨fun h => ⟨batch, rfl, h⟩, fun ⟨_, hbatch, h⟩ => Except.ok.inj hbatch ▸ h⟩
  | error status => exact ⟨fun h => (nomatch h), fun ⟨_, hbatch, _⟩ => (nomatch hbatch)⟩

/-- Two records in a segment each, of which the first segment is emptied: the log that opens, with the
offsets that are found. -/
theorem emptied_opens : ∃ store acked log disk', Reaches { dataDir := "log", segmentBytes := 60 } store acked ∧
    (emptied store.disk).logs.entries.map Prod.fst = store.disk.logs.entries.map Prod.fst ∧
    openLog { dataDir := "log", segmentBytes := 60 } (emptied store.disk) = (.ok log, disk') ∧
    log.nextOffset = 2 ∧ finds ⟨log, disk'⟩ 0 = false ∧ finds ⟨log, disk'⟩ 1 = true := by
  have hrun : (runCalls { dataDir := "log", segmentBytes := 60 }
      [.append [⟨7, [], [], 0⟩], .append [⟨8, [], [], 0⟩]]).any (fun state =>
        decide ((emptied state.1.disk).logs.entries.map Prod.fst = state.1.disk.logs.entries.map Prod.fst) &&
        let opened := openLog { dataDir := "log", segmentBytes := 60 } (emptied state.1.disk)
        opened.1.toOption.any fun log =>
          decide (log.nextOffset = (2 : Int) ∧ finds ⟨log, opened.2⟩ 0 = false ∧ finds ⟨log, opened.2⟩ 1 = true)) =
        true := by
    decide +kernel
  obtain ⟨⟨store, acked⟩, hstate, hcheck⟩ := Option.any_eq_true _ _ |>.mp hrun
  obtain ⟨hnames, hopened⟩ := Bool.and_eq_true_iff.mp hcheck
  obtain ⟨log, hlog, hfinds⟩ := Option.any_eq_true _ _ |>.mp hopened
  exact ⟨store, acked, log, _, reaches_of_runCalls hstate, of_decide_eq_true hnames,
    Prod.ext (Result.toOption_eq_some.mp hlog) rfl, of_decide_eq_true hfinds⟩

/-- The record behind the emptied segment survived. -/
theorem damaged_read_second :
    ∃ store acked log disk', Reaches { dataDir := "log", segmentBytes := 60 } store acked ∧
      openLog { dataDir := "log", segmentBytes := 60 } (emptied store.disk) = (.ok log, disk') ∧
      ∃ rest, Responsible (emptied store.disk) log 1 rest ∧ ∃ batch ∈ rest, batchContainsOffset batch 1 = true := by
  obtain ⟨store, acked, log, disk', hreaches, hnames, hopen, hnext, -, hfound⟩ := emptied_opens
  obtain ⟨rest, hrest, hiff, -⟩ := @damaged_read _ _ _ hreaches _ hnames _ _ hopen 1 (by decide)
    (hnext.symm ▸ by decide)
  exact ⟨store, acked, log, disk', hreaches, hopen, rest, hrest, hiff.mp (finds_eq_true.mp hfound)⟩

/-- The record of the emptied segment is a hole in the opened log. -/
theorem damaged_log_has_hole :
    ∃ store acked disk log disk', Reaches { dataDir := "log", segmentBytes := 60 } store acked ∧
      disk.logs.entries.map Prod.fst = store.disk.logs.entries.map Prod.fst ∧
      openLog { dataDir := "log", segmentBytes := 60 } disk = (.ok log, disk') ∧
      ∃ offset, 0 ≤ offset ∧ offset < log.nextOffset ∧
        ¬∃ batch, Store.read ⟨log, disk'⟩ offset maxSize = .ok batch ∧ batchContainsOffset batch offset = true := by
  obtain ⟨store, acked, log, disk', hreaches, hnames, hopen, hnext, hmissed, -⟩ := emptied_opens
  refine ⟨store, acked, emptied store.disk, log, disk', hreaches, hnames, hopen, 0, le_refl _,
    hnext.symm ▸ by decide, ?_⟩
  rw [← finds_eq_true, hmissed]
  exact Bool.false_ne_true

end LogMq
