import LogMq.StorageAttempts
import LogMq.StorageRuns
import LogMq.StorageStrict

/-! Appends that fail, on a log opened on any directory. Wherever an `Append` stops, no reader sees a difference,
and the next one that succeeds takes the offsets the failed one would have had. -/

namespace LogMq

open SparseIndex

/-! ### Open -/

theorem offerAll_base_le {entries : List IndexEntry} {index result : OffsetIndex}
    (h : offerAll entries index = .ok result) : ∀ entry ∈ entries, index.baseOffset ≤ entry.offset := by
  induction entries generalizing index with
  | nil => exact fun _ hmem => absurd hmem List.not_mem_nil
  | cons head rest ih =>
      obtain ⟨next, hnext, h⟩ := Result.bind_eq_ok.mp h
      obtain ⟨⟨-, hbase, -⟩, rfl⟩ := OffsetIndex.maybeAppend_eq_ok.mp hnext
      intro entry hentry
      rcases List.mem_cons.mp hentry with rfl | hentry
      · exact hbase
      · exact ih h entry hentry

theorem le_maxEnd (start : Int) (batches : List RecordBatch) :
    start ≤ maxEnd start batches ∧ ∀ batch ∈ batches, batch.endOffset ≤ maxEnd start batches := by
  induction batches generalizing start with
  | nil => exact ⟨le_refl _, fun _ hmem => absurd hmem List.not_mem_nil⟩
  | cons head rest ih =>
      obtain ⟨hstart, hrest⟩ := ih (max start head.endOffset)
      refine ⟨(le_max_left _ _).trans hstart, fun batch hbatch => ?_⟩
      rcases List.mem_cons.mp hbatch with rfl | hbatch
      · exact (le_max_right _ _).trans hstart
      · exact hrest batch hbatch

theorem le_maxNext (start : Int) (scans : List Scan) :
    start ≤ maxNext start scans ∧
      ∀ scan ∈ scans, maxEnd scan.base scan.batches ≤ maxNext start scans := by
  induction scans generalizing start with
  | nil => exact ⟨le_refl _, fun _ hmem => absurd hmem List.not_mem_nil⟩
  | cons head rest ih =>
      obtain ⟨hstart, hrest⟩ := ih (max start (maxEnd head.base head.batches))
      refine ⟨(le_max_left _ _).trans hstart, fun scan hscan => ?_⟩
      rcases List.mem_cons.mp hscan with rfl | hscan
      · exact (le_max_right _ _).trans hstart
      · exact hrest scan hscan

def Scan.part (scan : Scan) : Part := ⟨scan.segment, scan.batches⟩

/-- A file that recovery accepts is a sound segment. -/
theorem Scan.part_sound {scans : List Scan} {options : CommitLogOptions} {disk : Disk} {active : Bool} {scan : Scan}
    (hmem : scan ∈ scans) (hkept : disk.logs.entries = scans.map Scan.keptFile) {index : OffsetIndex}
    (hinterval : 0 < options.indexIntervalBytes) (hrecover : scan.recover options active = .ok index) :
    scan.part.Sound disk (maxNext 0 scans) := by
  have hnext := (le_maxNext 0 scans).2 scan hmem
  obtain ⟨hbase, hends⟩ := le_maxEnd scan.base scan.batches
  obtain ⟨-, hoffer, -⟩ := (recover_eq_ok hinterval).mp hrecover
  refine ⟨scan.base_nonneg, hbase.trans hnext, ?_, rfl, fun batch hbatch => ⟨?_, (hends batch hbatch).trans hnext⟩⟩
  · change LaidOut (disk.content scan.base) 0 scan.batches
    rw [content_of_kept hkept hmem]
    exact scan.laid_kept
  · obtain ⟨before, after, hsplit⟩ := List.append_of_mem hbatch
    apply offerAll_base_le hoffer ⟨batch.baseOffset, totalBytes before⟩
    rw [show scan.batches = before ++ batch :: after from hsplit, placed_append, Nat.zero_add]
    exact List.mem_append_right _ List.mem_cons_self

theorem Accepted.recover_mem {options : CommitLogOptions} {scans : List Scan} (h : Accepted options scans) {scan : Scan}
    (hmem : scan ∈ scans) : ∃ active index, scan.recover options active = .ok index := by
  obtain ⟨front, back, rfl⟩ := List.append_of_mem hmem
  exact ⟨_, _, h.recover⟩

/-- A directory read in full has no content behind its last segment. -/
theorem content_of_last {scans : List Scan} {last : Scan} {disk : Disk}
    (hkept : disk.logs.entries = (scans ++ [last]).map Scan.keptFile) {base : Int} (hbase : last.base < base) :
    disk.content base = [] := by
  rw [Disk.content]
  cases hfind : disk.logs.find? base with
  | none => rfl
  | some content =>
      have hsorted := disk.logs.sorted
      have hmem := SortedMap.mem_entries.mpr hfind
      rw [hkept, List.map_append, List.map_singleton] at hmem hsorted
      rcases List.mem_append.mp hmem with hfront | hself
      · have hlt := (List.pairwise_append.mp hsorted).2.2 _ hfront _ (List.mem_singleton_self _)
        exact absurd (hlt.trans hbase) (lt_irrefl _)
      · have hsame : base = last.base := congrArg Prod.fst (List.mem_singleton.mp hself)
        exact absurd hbase (hsame ▸ lt_irrefl _)

/-- The log that recovery makes of accepted files. -/
theorem consistent_of_accepted {options : CommitLogOptions} {scans : List Scan} {last : Scan}
    (haccepted : Accepted options.normalized (scans ++ [last])) {disk : Disk}
    (hkept : disk.logs.entries = (scans ++ [last]).map Scan.keptFile) :
    Consistent ⟨recoveredLog options (scans ++ [last]), disk⟩ (scans.map Scan.part) last.part := by
  have hparts : scans.map Scan.part ++ [last.part] = (scans ++ [last]).map Scan.part := by
    rw [List.map_append, List.map_singleton]
  have hsorted : (scans ++ [last]).Pairwise fun left right => left.base < right.base := by
    have hentries := disk.logs.sorted
    rw [hkept] at hentries
    have hbases := List.pairwise_map.mp hentries
    exact hbases
  refine ⟨options.normalized_interval_pos, ?_, ?_, ?_, ?_, fun base hbase => content_of_last hkept hbase⟩
  · rw [hparts, List.map_map]
    rfl
  · rw [hparts, List.map_map]
    rfl
  · rw [hparts]
    exact List.pairwise_map.mpr hsorted
  · rw [hparts]
    intro part hpart
    obtain ⟨scan, hscan, rfl⟩ := List.mem_map.mp hpart
    obtain ⟨active, index, hrecover⟩ := haccepted.recover_mem hscan
    exact Scan.part_sound hscan hkept options.normalized_interval_pos hrecover

def Chunk.part (chunk : Chunk) : Part := ⟨chunk.segment, chunk.batches⟩

/-- A log whose offsets have no gaps. -/
theorem Rep.consistent {options : CommitLogOptions} {store : Store} {layout : Layout} (h : Rep options store layout) :
    Consistent store (layout.sealed.map Chunk.part) layout.active.part := by
  have hparts : layout.sealed.map Chunk.part ++ [layout.active.part] = layout.chunks.map Chunk.part := by
    rw [Layout.chunks, List.map_append, List.map_singleton]
  refine ⟨h.options_eq ▸ h.interval_pos, ?_, ?_, ?_, ?_, fun base hbase => ?_⟩
  · rw [hparts, h.segments, List.map_map]
    rfl
  · rw [hparts, h.indexes, h.options_eq, List.map_map]
    rfl
  · rw [hparts]
    exact List.pairwise_map.mpr h.holds.bases_sorted
  · rw [hparts]
    intro part hpart
    obtain ⟨chunk, hchunk, rfl⟩ := List.mem_map.mp hpart
    obtain ⟨mid, hchain, hbase, hmid⟩ := h.holds.chunk_chain hchunk
    refine ⟨hbase, hchain.le.trans hmid, ?_, rfl, fun batch hbatch => ?_⟩
    · change LaidOut (store.disk.content chunk.base) 0 chunk.batches
      rw [Disk.content, h.files chunk hchunk]
      exact laidOut_bytes hchain.valid [] chunk.stale
    · obtain ⟨hlow, hhigh⟩ := hchain.bounds hbatch
      exact ⟨hlow, hhigh.trans hmid⟩
  · rw [Disk.content]
    cases hfind : store.disk.logs.find? base with
    | none => rfl
    | some content => exact h.fresh base content hfind hbase

/-- **Opening.** The log that is opened on any directory is consistent. -/
theorem consistent_of_openLog {options : CommitLogOptions} {disk disk' : Disk} {log : CommitLog}
    (hopen : openLog options disk = (.ok log, disk')) : ∃ front last, Consistent ⟨log, disk'⟩ front last := by
  obtain ⟨hdir, hsize⟩ := openLog_ok_options hopen
  by_cases hfiles : disk.logs.entries = []
  · exact ⟨_, _, (initial_of_openLog hdir hsize hfiles hopen).consistent⟩
  by_cases hbases : ∀ file ∈ disk.logs.entries, 0 ≤ file.1
  · obtain ⟨scans, hscans⟩ := Scan.exists_of_files hbases
    have hne : scans ≠ [] := by
      intro hnil
      apply hfiles
      rw [← hscans, hnil, List.map_nil]
    obtain ⟨haccepted, rfl, hkept⟩ := recovered_of_openLog hdir hsize hne hscans.symm hopen
    rw [← List.dropLast_append_getLast hne] at haccepted hkept ⊢
    exact ⟨_, _, consistent_of_accepted haccepted hkept⟩
  · obtain ⟨first, rest, hentries, hnegative⟩ := exists_negative_first hbases
    rw [openLog_of_files hdir hsize hfiles, hentries, List.map_cons, loadSegments_negative hnegative] at hopen
    cases hopen

/-! ### Close -/

/-- The system call that stops a `Close`: rewriting the index of some segment, with what its file holds afterwards,
or closing the file of some segment. -/
inductive CloseFault where
  | rewriteIndex (i : Nat) (written : Option Bytes)
  | closeSegment (i : Nat)

/-- Index files are rewritten one after the other. -/
def Disk.writeIndexes (disk : Disk) (indexes : List OffsetIndex) : Disk :=
  indexes.foldl (fun disk index => disk.writeIndex index.baseOffset index.fileBytes) disk

/-- What a `Close` leaves behind that is stopped by a failure. The log stays open, but `Segment::Close` marks its
segment as closed before it closes the file. -/
def Store.stoppedClose (store : Store) (fault : CloseFault) : Store :=
  if store.log.closed then store
  else
    match fault with
    | .rewriteIndex i written =>
        let disk := store.disk.writeIndexes (store.log.indexes.take i)
        match store.log.indexes[i]?, written with
        | some index, some bytes => { store with disk := disk.writeIndex index.baseOffset bytes }
        | _, _ => { store with disk := disk }
    | .closeSegment i =>
        { log := { store.log with
            segments := store.log.segments.mapIdx fun k segment =>
              { segment with closed := decide (k ≤ i) || segment.closed } }
          disk := store.disk.writeIndexes store.log.indexes }

theorem Disk.content_writeIndexes (disk : Disk) (indexes : List OffsetIndex) (base : Int) :
    (disk.writeIndexes indexes).content base = disk.content base := by
  induction indexes generalizing disk with
  | nil => rfl
  | cons index rest ih => exact ih _

/-- A segment that may have been closed. -/
def Part.marked (part : Part) (closed : Bool) : Part := { part with segment := { part.segment with closed := closed } }

/-- Closed segments describe the same batches. -/
theorem Consistent.marked {store : Store} {front : List Part} {last : Part} (h : Consistent store front last)
    (mark : Nat → Segment → Bool) (closed : Bool) {disk : Disk}
    (hdisk : ∀ base, disk.content base = store.disk.content base) :
    ∃ front' last', Consistent ⟨{ store.log with
      segments := store.log.segments.mapIdx fun k segment => { segment with closed := mark k segment }
      closed := closed }, disk⟩ front' last' := by
  let marked : List Part → List Part := fun parts => parts.mapIdx fun k part => part.marked (mark k part.segment)
  have hsegments : ∀ parts, (parts.map Part.segment).mapIdx
      (fun k segment => { segment with closed := mark k segment }) = (marked parts).map Part.segment := by
    intro parts
    apply List.ext_getElem?
    intro k
    simp only [marked, List.getElem?_mapIdx, List.getElem?_map, Option.map_map]
    rfl
  have hindexes : ∀ interval parts, (marked parts).map (Part.index interval) = parts.map (Part.index interval) := by
    intro interval parts
    apply List.ext_getElem?
    intro k
    simp only [marked, List.getElem?_mapIdx, List.getElem?_map, Option.map_map]
    rfl
  have hbases : ∀ parts, (marked parts).map Part.base = parts.map Part.base := by
    intro parts
    apply List.ext_getElem?
    intro k
    simp only [marked, List.getElem?_mapIdx, List.getElem?_map, Option.map_map]
    rfl
  have hsplit : marked (front ++ [last]) = marked front ++ [last.marked (mark front.length last.segment)] := by
    simp only [marked, List.mapIdx_append, List.mapIdx_cons, List.mapIdx_nil, Nat.zero_add]
  refine ⟨marked front, last.marked (mark front.length last.segment), h.interval_pos, ?_, ?_, ?_, ?_, ?_⟩
  · rw [← hsplit, ← hsegments, h.segments]
  · rw [← hsplit, hindexes]
    exact h.indexes
  · rw [← hsplit, ← List.pairwise_map (f := Part.base) (R := fun left right => left < right), hbases, List.pairwise_map]
    exact h.sorted
  · rw [← hsplit]
    intro part hpart
    obtain ⟨k, hk, rfl⟩ := List.mem_mapIdx.mp hpart
    have hsound := h.parts _ (List.getElem_mem hk)
    have hmono := hsound.mono (le_refl _) (congrArg (List.take _) (hdisk _))
    exact ⟨hmono.base_nonneg, hmono.base_le, hmono.laid, hmono.written, hmono.bounds⟩
  · exact fun base hbase => (hdisk base).trans (h.fresh base hbase)

/-! ### Runs -/

/-- The states of a log: it is opened on some directory and then appended to and closed, and any system call may
fail on the way. Reads change nothing. -/
inductive LogReaches : Store → Prop
  | opened {options : CommitLogOptions} {disk disk' : Disk} {log : CommitLog}
      (hopen : openLog options disk = (.ok log, disk')) : LogReaches ⟨log, disk'⟩
  | append {store : Store} (hreaches : LogReaches store) (records : List Record) (faults : IoFaults) :
      LogReaches (store.append records faults).2
  | close {store : Store} (hreaches : LogReaches store) : LogReaches store.close
  | stoppedClose {store : Store} (hreaches : LogReaches store) (fault : CloseFault) :
      LogReaches (store.stoppedClose fault)

theorem Consistent.close {store : Store} {front : List Part} {last : Part} (h : Consistent store front last) :
    ∃ front' last', Consistent store.close front' last' := by
  unfold Store.close
  split_ifs
  · exact ⟨front, last, h⟩
  · have hmap : store.log.segments.map (fun segment => { segment with closed := true }) =
        store.log.segments.mapIdx fun _ segment => { segment with closed := true } := by
      apply List.ext_getElem?
      intro k
      rw [List.getElem?_map, List.getElem?_mapIdx]
    rw [hmap]
    exact h.marked (fun _ _ => true) true (Disk.content_writeIndexes store.disk store.log.indexes)

theorem Consistent.stoppedClose {store : Store} {front : List Part} {last : Part} (h : Consistent store front last)
    (fault : CloseFault) : ∃ front' last', Consistent (store.stoppedClose fault) front' last' := by
  unfold Store.stoppedClose
  split_ifs
  · exact ⟨front, last, h⟩
  · split
    · rename_i i written
      have hdisk := Disk.content_writeIndexes store.disk (store.log.indexes.take i)
      dsimp only
      split
      · exact ⟨front, last, (@Consistent.of_content _ _ _ h (Disk.writeIndex _ _ _) hdisk).2⟩
      · exact ⟨front, last, (h.of_content hdisk).2⟩
    · rename_i i
      exact h.marked (fun k segment => decide (k ≤ i) || segment.closed) store.log.closed
        (Disk.content_writeIndexes store.disk store.log.indexes)

/-- Every reachable log is consistent. -/
theorem LogReaches.consistent {store : Store} (h : LogReaches store) :
    ∃ front last, Consistent store front last := by
  induction h with
  | opened hopen => exact consistent_of_openLog hopen
  | append hreaches records faults ih =>
      obtain ⟨front, last, hconsistent⟩ := ih
      exact (hconsistent.append records faults).1
  | close hreaches ih =>
      obtain ⟨front, last, hconsistent⟩ := ih
      exact hconsistent.close
  | stoppedClose hreaches fault ih =>
      obtain ⟨front, last, hconsistent⟩ := ih
      exact hconsistent.stoppedClose fault

theorem LogReaches.attempt {store : Store} (h : LogReaches store) (records : List Record) (faults : IoFaults) :
    Attempt store records (store.append records faults) := by
  obtain ⟨front, last, hconsistent⟩ := h.consistent
  exact (hconsistent.append records faults).2

/-- An `Append` that fails, for whatever reason. -/
def FailsTo (store store' : Store) : Prop :=
  ∃ records faults status, store.append records faults = (.error status, store')

theorem LogReaches.failsTo {store store' : Store} (h : LogReaches store) (hfails : FailsTo store store') :
    LogReaches store' ∧ Unseen store store' := by
  obtain ⟨records, faults, status, happend⟩ := hfails
  have hreaches := h.append records faults
  have hattempt := h.attempt records faults
  rw [happend] at hreaches hattempt
  cases hattempt with
  | failed hunseen => exact ⟨hreaches, hunseen⟩

/-- No number of failed appends is seen. -/
theorem LogReaches.failures {store store' : Store} (h : LogReaches store)
    (hfailures : Relation.ReflTransGen FailsTo store store') : LogReaches store' ∧ Unseen store store' := by
  induction hfailures with
  | refl => exact ⟨h, .refl store⟩
  | tail _ hfails ih =>
      obtain ⟨hreaches, hunseen⟩ := ih
      obtain ⟨hreaches', hunseen'⟩ := hreaches.failsTo hfails
      exact ⟨hreaches', hunseen.trans hunseen'⟩

/-- **Failed appends.** After an `Append` that returns an error, the next offset and all reads are as before, and
the next `Append` that succeeds, however many others fail in between, gets the offsets of the failed one and can be
read back. -/
theorem failed_append_unseen {store failed : Store} (h : LogReaches store) (hfails : FailsTo store failed) :
    failed.log.nextOffset = store.log.nextOffset ∧
      (∀ offset maxBytes, failed.read offset maxBytes = store.read offset maxBytes) ∧
      ∀ retried records faults result store', Relation.ReflTransGen FailsTo failed retried →
        retried.append records faults = (.ok result, store') →
          result.baseOffset = store.log.nextOffset ∧
            ∃ batch, makeRecordBatch store.log.nextOffset records = .ok batch ∧ ReadsBack store' batch := by
  obtain ⟨hreaches, hunseen⟩ := h.failsTo hfails
  refine ⟨hunseen.next, hunseen.read, fun retried records faults result store' hfailures happend => ?_⟩
  obtain ⟨hretried, hretries⟩ := hreaches.failures hfailures
  have hattempt := hretried.attempt records faults
  rw [happend] at hattempt
  cases hattempt with
  | done hbase hbatch hreads =>
      have hnext := hretries.next.trans hunseen.next
      rw [hnext] at hbase hbatch
      exact ⟨hbase, _, hbatch, hreads⟩

/-- A log that has just been created. -/
def freshLog : CommitLog where
  options := { dataDir := "log" }
  segments := [⟨0, 0, false⟩]
  indexes := [⟨0, 4096, []⟩]
  closed := false

def freshStore : Store := ⟨freshLog, Disk.writeIndex (Disk.writeLog {} 0 []) 0 []⟩

theorem freshStore_reached : LogReaches freshStore := @LogReaches.opened { dataDir := "log" } {} _ _ rfl

/-- The write of the first batch stops after three bytes. -/
def stoppedWrite : IoFaults := { writeBatch := some (3, .ioError "write failed") }

theorem failed_append_unseen_first :
    (freshStore.append [⟨7, [], [1], 0⟩] stoppedWrite).2.log.nextOffset = freshStore.log.nextOffset :=
  (failed_append_unseen freshStore_reached
    ⟨[⟨7, [], [1], 0⟩], stoppedWrite, .ioError "write failed", Prod.ext (by decide +kernel) rfl⟩).1

end LogMq
