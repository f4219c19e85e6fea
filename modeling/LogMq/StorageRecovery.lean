import LogMq.StorageLayout

/-! What `Open` makes of a directory, in terms of the batches that can be read from the front of each
segment file. Nothing is assumed about how the files came to be. -/

namespace LogMq

open SparseIndex

/-- The options `Open` works with: an interval of zero bytes is one byte. -/
def CommitLogOptions.normalized (options : CommitLogOptions) : CommitLogOptions :=
  if options.indexIntervalBytes = 0 then { options with indexIntervalBytes := 1 } else options

theorem CommitLogOptions.normalized_interval_pos (options : CommitLogOptions) :
    0 < options.normalized.indexIntervalBytes := by
  unfold normalized
  split_ifs with h
  · exact Nat.one_pos
  · exact Nat.pos_of_ne_zero h

/-- A byte budget that covers the configured interval and some byte covers the interval in use. -/
theorem CommitLogOptions.normalized_interval_le {options : CommitLogOptions} {maxBytes : Nat} (hpos : 0 < maxBytes)
    (h : options.indexIntervalBytes ≤ maxBytes) : options.normalized.indexIntervalBytes ≤ maxBytes := by
  unfold normalized
  split_ifs
  · exact hpos
  · exact h

theorem CommitLogOptions.normalized_strict (options : CommitLogOptions) :
    options.normalized.strictRecovery = options.strictRecovery := by
  unfold normalized
  split_ifs <;> rfl

theorem CommitLogOptions.normalized_strict_interval (options : CommitLogOptions) (strict : Bool) :
    CommitLogOptions.indexIntervalBytes (CommitLogOptions.normalized { options with strictRecovery := strict }) =
      options.normalized.indexIntervalBytes := by
  unfold normalized
  split_ifs <;> rfl

/-- Reading stops exactly where no batch decodes. -/
theorem stops_iff {content : Bytes} {position : Nat} :
    Stops content position ↔ ∀ batch, ¬Decodes (content.drop position) batch := by
  refine forall_congr' fun batch => not_congr ?_
  rw [readBatch_eq_ok]
  refine ⟨And.right, fun h => ⟨?_, h⟩⟩
  have hcomplete := h.complete
  rwa [List.length_drop] at hcomplete

/-- Batches that can be read one after the other are those that are read before reading stops. -/
theorem LaidOut.prefix_of_stops {content : Bytes} {position : Nat} {left right : List RecordBatch}
    (hleft : LaidOut content position left) (hright : LaidOut content position right)
    (hstops : Stops content (position + totalBytes right)) : left <+: right := by
  induction left generalizing position right with
  | nil => exact List.nil_prefix
  | cons head tail ih =>
      cases right with
      | nil => exact absurd hleft.1 (stops_iff.mp hstops head)
      | cons other others =>
          rw [totalBytes, ← Nat.add_assoc] at hstops
          cases hleft.1.unique hright.1
          exact List.cons_prefix_cons.mpr ⟨rfl, ih hleft.2 hright.2 hstops⟩

/-! ### Where reading stops -/

/-- Bytes that an unfinished write can leave: not even a header, or a header that declares more. -/
def Torn (data : Bytes) : Prop :=
  data.length < recordBatchHeaderBytes ∨
    ∃ declared, peekRecordBatchBytes data = .ok declared ∧ data.length < declared

/-- Reading torn bytes is refused because of the byte budget. -/
theorem readBatch_of_torn {content : Bytes} {position : Nat} (h : Torn (content.drop position)) :
    ∃ message, readBatch content position (content.length - position) =
      .error (.invalidArgument message) := by
  rw [← List.length_drop]
  rw [readBatch]
  by_cases hshort : (content.drop position).length < recordBatchHeaderBytes
  · rw [if_pos hshort]
    exact ⟨_, rfl⟩
  · obtain ⟨declared, hpeek, hlarge⟩ := h.resolve_left hshort
    have hle := Nat.not_lt.mp hshort
    have hpos : 0 < recordBatchHeaderBytes := by decide
    have hlength : (File.pread content recordBatchHeaderBytes position).length = recordBatchHeaderBytes := by
      rw [File.pread, List.length_take, Nat.min_eq_left hle]
    rw [if_neg hshort]
    dsimp only
    rw [if_neg (by omega), if_neg (not_not.mpr hlength), File.pread, peekRecordBatchBytes_take hle, hpeek]
    simp only [bind, Except.bind]
    rw [if_pos hlarge]
    exact ⟨_, rfl⟩

theorem checkTail_strict_eq_ok {options : CommitLogOptions} (hstrict : options.strictRecovery = true)
    {content : Bytes} {active : Bool} {position : Nat} {status : Status} :
    checkTail options content active position status = .ok () ↔
      active = true ∧ status.code ≠ .ioError ∧ Torn (content.drop position) := by
  rw [checkTail, if_pos hstrict, ← List.length_drop]
  by_cases hrefuse : (!active || decide (status.code = .ioError)) = true
  · rw [if_pos hrefuse]
    constructor
    · intro h
      cases h
    · rintro ⟨hactive, hcode, -⟩
      rw [hactive, decide_eq_false hcode] at hrefuse
      exact absurd hrefuse Bool.false_ne_true
  · rw [if_neg hrefuse]
    simp only [Bool.or_eq_true, Bool.not_eq_true', decide_eq_true_eq, not_or, Bool.not_eq_false] at hrefuse
    obtain ⟨hactive, hcode⟩ := hrefuse
    by_cases hshort : (content.drop position).length < recordBatchHeaderBytes
    · rw [if_pos hshort]
      exact ⟨fun _ => ⟨hactive, hcode, Or.inl hshort⟩, fun _ => rfl⟩
    · have hle := Nat.not_lt.mp hshort
      have hlength : (File.pread content recordBatchHeaderBytes position).length = recordBatchHeaderBytes := by
        rw [File.pread, List.length_take, Nat.min_eq_left hle]
      rw [if_neg hshort]
      dsimp only
      rw [if_neg (not_not.mpr hlength), File.pread, peekRecordBatchBytes_take hle]
      cases hpeek : peekRecordBatchBytes (content.drop position) with
      | error reason =>
          constructor
          · intro h
            cases h
          · rintro ⟨-, -, htorn⟩
            obtain ⟨declared, hdeclared, -⟩ := htorn.resolve_left hshort
            cases hpeek.symm.trans hdeclared
      | ok declared =>
          dsimp only
          by_cases hsize : declared ≤ (content.drop position).length
          · rw [if_pos hsize]
            constructor
            · intro h
              cases h
            · rintro ⟨-, -, htorn⟩
              obtain ⟨other, hother, hlarge⟩ := htorn.resolve_left hshort
              cases hpeek.symm.trans hother
              exact absurd hlarge (Nat.not_lt.mpr hsize)
          · rw [if_neg hsize]
            exact ⟨fun _ => ⟨hactive, hcode, Or.inr ⟨declared, hpeek, Nat.not_le.mp hsize⟩⟩, fun _ => rfl⟩

/-- Outside strict recovery any rest may be cut off; in strict recovery only a torn one, and only in the
active segment. -/
theorem checkStop_eq_ok {options : CommitLogOptions} {content : Bytes} {active : Bool} {position : Nat}
    (hstops : Stops content position) :
    checkStop options content active position = .ok () ↔
      (options.strictRecovery = true → content.length ≤ position ∨ active = true ∧ Torn (content.drop position)) := by
  by_cases hlt : position < content.length
  · rw [checkStop, if_pos hlt]
    cases hread : readBatch content position (content.length - position) with
    | ok batch => exact absurd hread (hstops batch)
    | error status =>
        dsimp only
        cases hstrict : options.strictRecovery with
        | false =>
            rw [checkTail, hstrict, if_neg Bool.false_ne_true]
            exact ⟨fun _ h => absurd h Bool.false_ne_true, fun _ => rfl⟩
        | true =>
            rw [checkTail_strict_eq_ok hstrict]
            constructor
            · rintro ⟨hactive, -, htorn⟩ -
              exact Or.inr ⟨hactive, htorn⟩
            · intro h
              obtain ⟨hactive, htorn⟩ := (h rfl).resolve_left (Nat.not_le.mpr hlt)
              obtain ⟨message, hmessage⟩ := readBatch_of_torn htorn
              cases hread.symm.trans hmessage
              exact ⟨hactive, ErrorCode.noConfusion, htorn⟩
  · rw [checkStop, if_neg hlt]
    exact ⟨fun _ _ => Or.inl (Nat.not_lt.mp hlt), fun _ => rfl⟩

/-! ### Segment files -/

/-- A segment file with the batches that can be read from its front. -/
structure Scan where
  base : Int
  content : Bytes
  batches : List RecordBatch
  base_nonneg : 0 ≤ base
  laid : LaidOut content 0 batches
  stops : Stops content (totalBytes batches)

namespace Scan

def file (scan : Scan) : Int × Bytes := (scan.base, scan.content)

/-- The bytes that recovery keeps. -/
def kept (scan : Scan) : Bytes := scan.content.take (totalBytes scan.batches)

def keptFile (scan : Scan) : Int × Bytes := (scan.base, scan.kept)

def segment (scan : Scan) : Segment := ⟨scan.base, totalBytes scan.batches, false⟩

def index (interval : Nat) (scan : Scan) : OffsetIndex :=
  ⟨scan.base, interval, build IndexEntry.position interval (placed 0 scan.batches)⟩

/-- The index recovery builds, or why it refuses the file. -/
def recover (options : CommitLogOptions) (active : Bool) (scan : Scan) : Result OffsetIndex := do
  let index ← offerAll (placed 0 scan.batches) (OffsetIndex.create scan.base options.indexIntervalBytes)
  checkStop options scan.content active (totalBytes scan.batches)
  return index

/-- The directory after recovery of one file. -/
def settle (scan : Scan) (index : OffsetIndex) (disk : Disk) : Disk :=
  Disk.writeIndex
    (if totalBytes scan.batches ≠ scan.content.length then disk.writeLog scan.base scan.kept else disk)
    scan.base index.fileBytes

theorem total_le (scan : Scan) : totalBytes scan.batches ≤ scan.content.length := by
  have hle := scan.laid.total_le (Nat.zero_le _)
  rwa [Nat.zero_add] at hle

theorem prefix_of_laid {batches : List RecordBatch} (scan : Scan) (h : LaidOut scan.content 0 batches) :
    batches <+: scan.batches := by
  apply h.prefix_of_stops scan.laid
  rw [Nat.zero_add]
  exact scan.stops

theorem exists_of_file {base : Int} (hbase : 0 ≤ base) (content : Bytes) :
    ∃ scan : Scan, scan.file = (base, content) := by
  obtain ⟨batches, hlaid, hstops⟩ := exists_laidOut content 0
  rw [Nat.zero_add] at hstops
  exact ⟨⟨base, content, batches, hbase, hlaid, hstops⟩, rfl⟩

/-- Every directory has its scans. -/
theorem exists_of_files {files : List (Int × Bytes)} (hbase : ∀ file ∈ files, 0 ≤ file.1) :
    ∃ scans : List Scan, scans.map file = files := by
  induction files with
  | nil => exact ⟨[], rfl⟩
  | cons head rest ih =>
      obtain ⟨scan, hscan⟩ := exists_of_file (hbase head List.mem_cons_self) head.2
      obtain ⟨scans, hscans⟩ := ih fun f hf => hbase f (List.mem_cons_of_mem _ hf)
      exact ⟨scan :: scans, by rw [List.map_cons, hscan, hscans]⟩

/-- The index of an accepted file is the sparse index over its batches. -/
theorem recover_eq_ok {options : CommitLogOptions} (hinterval : 0 < options.indexIntervalBytes) {active : Bool}
    {scan : Scan} {index : OffsetIndex} :
    scan.recover options active = .ok index ↔
      index = scan.index options.indexIntervalBytes ∧
        offerAll (placed 0 scan.batches) (OffsetIndex.create scan.base options.indexIntervalBytes) = .ok index ∧
        checkStop options scan.content active (totalBytes scan.batches) = .ok () := by
  constructor
  · intro h
    obtain ⟨offered, hoffer, h⟩ := Result.bind_eq_ok.mp h
    obtain ⟨_, hcheck, h⟩ := Result.bind_eq_ok.mp h
    cases h
    refine ⟨?_, hoffer, hcheck⟩
    rw [offerAll_eq_ok hoffer, OffsetIndex.create, if_neg hinterval.ne']
    rfl
  · rintro ⟨-, hoffer, hcheck⟩
    exact Result.bind_eq_ok.mpr ⟨_, hoffer, Result.bind_eq_ok.mpr ⟨_, hcheck, rfl⟩⟩

theorem recover_index_iff {options : CommitLogOptions} (hinterval : 0 < options.indexIntervalBytes) {active : Bool}
    {scan : Scan} :
    scan.recover options active = .ok (scan.index options.indexIntervalBytes) ↔
      (∃ index, offerAll (placed 0 scan.batches)
        (OffsetIndex.create scan.base options.indexIntervalBytes) = .ok index) ∧
        checkStop options scan.content active (totalBytes scan.batches) = .ok () := by
  constructor
  · intro h
    obtain ⟨-, hoffer, hcheck⟩ := (recover_eq_ok hinterval).mp h
    exact ⟨⟨_, hoffer⟩, hcheck⟩
  · rintro ⟨⟨index, hoffer⟩, hcheck⟩
    have hrecover : scan.recover options active = .ok index :=
      Result.bind_eq_ok.mpr ⟨index, hoffer, Result.bind_eq_ok.mpr ⟨(), hcheck, rfl⟩⟩
    rw [hrecover, ((recover_eq_ok hinterval).mp hrecover).1]

/-- What strict recovery has accepted behind the batches of a segment. -/
theorem tail_of_recover {scan : Scan} {options : CommitLogOptions} {active : Bool}
    (hinterval : 0 < options.indexIntervalBytes) (hstrict : options.strictRecovery = true) {index : OffsetIndex}
    (h : scan.recover options active = .ok index) :
    scan.content.drop (totalBytes scan.batches) = [] ∨
      active = true ∧ Torn (scan.content.drop (totalBytes scan.batches)) := by
  obtain ⟨-, -, hcheck⟩ := (recover_eq_ok hinterval).mp h
  exact ((checkStop_eq_ok scan.stops).mp hcheck hstrict).imp_left List.drop_eq_nil_of_le

/-- Cutting a file off where reading stops gives a file that is read to its end. -/
theorem laid_kept (scan : Scan) : LaidOut scan.kept 0 scan.batches :=
  (laidOut_take (by omega)).mpr scan.laid

theorem length_kept (scan : Scan) : scan.kept.length = totalBytes scan.batches := by
  rw [kept, List.length_take, Nat.min_eq_left scan.total_le]

end Scan

/-- The result of recovering one segment file. -/
theorem recoverSegment_eq {options : CommitLogOptions} {disk : Disk} (scan : Scan) (active : Bool)
    (hcontent : disk.content scan.base = scan.content) :
    recoverSegment options disk ⟨scan.base, scan.content.length, false⟩
        (OffsetIndex.create scan.base options.indexIntervalBytes) active =
      match scan.recover options active with
      | .error status => (.error status, disk)
      | .ok index => (.ok (scan.segment, index, maxEnd scan.base scan.batches), scan.settle index disk) := by
  have hstops : Stops scan.content (0 + totalBytes scan.batches) := by
    rw [Nat.zero_add]
    exact scan.stops
  have hloop := @recoverLoop_eq options ⟨scan.base, scan.content.length, false⟩ rfl _ active _
    (scan.content.length + 1) ⟨0, OffsetIndex.create scan.base options.indexIntervalBytes, scan.base⟩ scan.laid hstops
    (Nat.lt_succ_self _)
  rw [Nat.zero_add] at hloop
  have hclear : (OffsetIndex.create scan.base options.indexIntervalBytes).clear =
      OffsetIndex.create scan.base options.indexIntervalBytes := rfl
  unfold recoverSegment
  rw [hcontent, hclear]
  dsimp only
  rw [hloop, Scan.recover]
  cases offerAll (placed 0 scan.batches) (OffsetIndex.create scan.base options.indexIntervalBytes) with
  | error status => rfl
  | ok index =>
      simp only [bind, Except.bind]
      cases checkStop options scan.content active (totalBytes scan.batches) with
      | error status => rfl
      | ok _ =>
          simp only [pure, Except.pure, Scan.settle]
          by_cases htotal : totalBytes scan.batches = scan.content.length
          · rw [if_neg (not_not.mpr htotal), if_neg (not_not.mpr htotal), Scan.segment, htotal]
          · rw [if_pos htotal, if_pos htotal, File.truncate_of_le scan.total_le]
            rfl

/-! ### Directories -/

/-- The indexes of all segment files, or why one of them is refused. Only the last file is active. -/
def recoverAll (options : CommitLogOptions) : List Scan → Result (List OffsetIndex)
  | [] => .ok []
  | scan :: rest => do
      let index ← scan.recover options rest.isEmpty
      let indexes ← recoverAll options rest
      return index :: indexes

/-- Every file is accepted, the last one as the active segment. -/
def Accepted (options : CommitLogOptions) : List Scan → Prop
  | [] => True
  | scan :: rest =>
      scan.recover options rest.isEmpty = .ok (scan.index options.indexIntervalBytes) ∧ Accepted options rest

theorem recoverAll_eq_ok {options : CommitLogOptions} (hinterval : 0 < options.indexIntervalBytes)
    {scans : List Scan} {indexes : List OffsetIndex} :
    recoverAll options scans = .ok indexes ↔
      indexes = scans.map (Scan.index options.indexIntervalBytes) ∧ Accepted options scans := by
  induction scans generalizing indexes with
  | nil => exact ⟨fun h => ⟨(Except.ok.inj h).symm, trivial⟩, fun h => congrArg Except.ok h.1.symm⟩
  | cons head rest ih =>
      rw [recoverAll, Result.bind_eq_ok]
      constructor
      · rintro ⟨index, hindex, h⟩
        obtain ⟨more, hmore, h⟩ := Result.bind_eq_ok.mp h
        cases h
        obtain ⟨rfl, hrest⟩ := ih.mp hmore
        obtain ⟨rfl, -⟩ := (Scan.recover_eq_ok hinterval).mp hindex
        exact ⟨rfl, hindex, hrest⟩
      · rintro ⟨rfl, hhead, hrest⟩
        exact ⟨_, hhead, Result.bind_eq_ok.mpr ⟨_, ih.mpr ⟨rfl, hrest⟩, rfl⟩⟩

/-- Acceptance of one file among others. -/
theorem Accepted.recover {options : CommitLogOptions} {front rest : List Scan} {scan : Scan}
    (h : Accepted options (front ++ scan :: rest)) :
    scan.recover options rest.isEmpty = .ok (scan.index options.indexIntervalBytes) := by
  induction front with
  | nil => exact h.1
  | cons head tail ih => exact ih h.2

/-- Acceptance of the files in front of another one. -/
theorem Accepted.recover_front {options : CommitLogOptions} {front rest : List Scan} {scan other : Scan}
    (h : Accepted options (front ++ scan :: rest)) (hother : other ∈ front) :
    other.recover options false = .ok (other.index options.indexIntervalBytes) := by
  induction front with
  | nil => exact absurd hother List.not_mem_nil
  | cons head tail ih =>
      have hempty : (tail ++ scan :: rest).isEmpty = false :=
        List.isEmpty_eq_false_iff.mpr (List.append_ne_nil_of_right_ne_nil _ (List.cons_ne_nil _ _))
      rw [List.cons_append, Accepted, hempty] at h
      rcases List.mem_cons.mp hother with rfl | hother
      · exact h.1
      · exact ih h.2 hother

theorem accepted_append_cons {options : CommitLogOptions} {front rest : List Scan} {scan : Scan}
    (hfront : ∀ other ∈ front, other.recover options false = .ok (other.index options.indexIntervalBytes))
    (hscan : scan.recover options rest.isEmpty = .ok (scan.index options.indexIntervalBytes))
    (hrest : Accepted options rest) : Accepted options (front ++ scan :: rest) := by
  induction front with
  | nil => exact ⟨hscan, hrest⟩
  | cons head tail ih =>
      have hempty : (tail ++ scan :: rest).isEmpty = false :=
        List.isEmpty_eq_false_iff.mpr (List.append_ne_nil_of_right_ne_nil _ (List.cons_ne_nil _ _))
      rw [List.cons_append, Accepted, hempty]
      exact ⟨hfront head List.mem_cons_self, ih fun other hother => hfront other (List.mem_cons_of_mem _ hother)⟩

/-- Files that are accepted in either role are accepted together. -/
theorem accepted_of_forall {options : CommitLogOptions} {scans : List Scan}
    (h : ∀ scan ∈ scans, ∀ active, scan.recover options active = .ok (scan.index options.indexIntervalBytes)) :
    Accepted options scans := by
  induction scans with
  | nil => trivial
  | cons head rest ih =>
      exact ⟨h head List.mem_cons_self _, ih fun scan hscan => h scan (List.mem_cons_of_mem _ hscan)⟩

/-- The next offset after some files. -/
def maxNext : Int → List Scan → Int
  | start, [] => start
  | start, scan :: rest => maxNext (max start (maxEnd scan.base scan.batches)) rest

theorem Scan.entries_settle {scan : Scan} {index : OffsetIndex} {disk : Disk} {front back : List (Int × Bytes)}
    (h : disk.logs.entries = front ++ scan.file :: back) :
    (scan.settle index disk).logs.entries = front ++ scan.keptFile :: back := by
  by_cases htotal : totalBytes scan.batches = scan.content.length
  · rw [settle, if_neg (not_not.mpr htotal)]
    change disk.logs.entries = _
    rw [h, file, keptFile, kept, htotal, List.take_length]
  · rw [settle, if_pos htotal]
    exact SortedMap.entries_insert_present h _

/-- `Segment::Open` of a listed file. -/
theorem Scan.openSegment_listed {scan : Scan} {disk : Disk} {front back : List (Int × Bytes)}
    (h : disk.logs.entries = front ++ scan.file :: back) :
    disk.content scan.base = scan.content ∧
      openSegment disk scan.base none = (.ok ⟨scan.base, scan.content.length, false⟩, disk) := by
  have hfind : disk.logs.find? scan.base = some scan.content := by
    rw [← SortedMap.mem_entries, h]
    exact List.mem_append_right _ List.mem_cons_self
  have hcontent : disk.content scan.base = scan.content := by rw [Disk.content, hfind]; rfl
  refine ⟨hcontent, ?_⟩
  rw [openSegment, if_neg (Int.not_lt.mpr scan.base_nonneg), hcontent, Disk.touch, hfind]

/-- **Loading.** All segment files are opened and recovered, or the first refused one is reported. -/
theorem loadSegments_eq {scans : List Scan} {store : Store} {front : List (Int × Bytes)}
    (hentries : store.disk.logs.entries = front ++ scans.map Scan.file) :
    (loadSegments (scans.map Scan.base) store).1 =
        (recoverAll store.log.options scans).map (fun indexes => { store.log with
          segments := store.log.segments ++ scans.map Scan.segment
          indexes := store.log.indexes ++ indexes
          nextOffset := maxNext store.log.nextOffset scans }) ∧
      ∀ indexes, recoverAll store.log.options scans = .ok indexes →
        (loadSegments (scans.map Scan.base) store).2.logs.entries = front ++ scans.map Scan.keptFile := by
  induction scans generalizing store front with
  | nil =>
      refine ⟨?_, fun _ _ => hentries⟩
      simp only [List.map_nil, loadSegments, recoverAll, Except.map, List.append_nil, maxNext]
  | cons scan rest ih =>
      obtain ⟨hcontent, hopened⟩ := Scan.openSegment_listed hentries
      have hempty : (rest.map Scan.base).isEmpty = rest.isEmpty := List.isEmpty_map
      rw [List.map_cons, loadSegments, hopened]
      dsimp only
      rw [hempty, recoverSegment_eq scan _ hcontent, recoverAll]
      cases hrecover : scan.recover store.log.options rest.isEmpty with
      | error status => exact ⟨rfl, fun indexes h => (nomatch h)⟩
      | ok index =>
          have hnext := @Scan.entries_settle _ index _ _ _ hentries
          rw [← List.singleton_append, ← List.append_assoc] at hnext
          obtain ⟨hlog, hdisk⟩ := @ih ⟨{ store.log with
            segments := store.log.segments ++ [scan.segment]
            indexes := store.log.indexes ++ [index]
            nextOffset := max store.log.nextOffset (maxEnd scan.base scan.batches) },
            scan.settle index store.disk⟩ _ hnext
          dsimp only at hlog hdisk ⊢
          rw [hlog]
          simp only [bind, Except.bind]
          cases hall : recoverAll store.log.options rest with
          | error status => exact ⟨rfl, fun indexes h => (nomatch h)⟩
          | ok indexes =>
              refine ⟨?_, fun _ _ => ?_⟩
              · simp only [Except.map, pure, Except.pure, List.append_assoc, List.singleton_append,
                  List.map_cons, maxNext]
              · rw [hdisk indexes hall, List.append_assoc, List.singleton_append, List.map_cons]

/-- A directory with segment files is loaded. -/
theorem openLog_of_files {options : CommitLogOptions} {disk : Disk} (hdir : options.dataDir ≠ "")
    (hsize : recordBatchHeaderBytes ≤ options.segmentBytes) (hfiles : disk.logs.entries ≠ []) :
    openLog options disk =
      match loadSegments (disk.logs.entries.map Prod.fst) ⟨{ options := options.normalized }, disk⟩ with
      | (.error status, disk) => (.error status, disk)
      | (.ok log, disk) => (.ok { log with closed := false }, disk) := by
  have hload : loadOrCreateSegments ⟨{ options := options.normalized }, disk⟩ =
      loadSegments (disk.logs.entries.map Prod.fst) ⟨{ options := options.normalized }, disk⟩ := by
    unfold loadOrCreateSegments
    cases hentries : disk.logs.entries with
    | nil => exact absurd hentries hfiles
    | cons entry rest => rfl
  rw [openLog, if_neg hdir, if_neg (Nat.not_lt.mpr hsize), ← hload]
  rfl

/-- **Opening.** -/
theorem openLog_eq {options : CommitLogOptions} {disk : Disk} {scans : List Scan}
    (hdir : options.dataDir ≠ "") (hsize : recordBatchHeaderBytes ≤ options.segmentBytes)
    (hscans : scans ≠ []) (hentries : disk.logs.entries = scans.map Scan.file) :
    (openLog options disk).1 =
        (recoverAll options.normalized scans).map (fun indexes => {
          options := options.normalized
          segments := scans.map Scan.segment
          indexes := indexes
          nextOffset := maxNext 0 scans
          closed := false }) ∧
      ∀ indexes, recoverAll options.normalized scans = .ok indexes →
        (openLog options disk).2.logs.entries = scans.map Scan.keptFile := by
  have hfiles : disk.logs.entries ≠ [] := by
    rw [hentries]
    exact fun hnil => hscans (List.map_eq_nil_iff.mp hnil)
  have hbases : disk.logs.entries.map Prod.fst = scans.map Scan.base := by
    rw [hentries, List.map_map]
    rfl
  have hopen := openLog_of_files hdir hsize hfiles
  rw [hbases] at hopen
  obtain ⟨hlog, hdisk⟩ := @loadSegments_eq _ ⟨{ options := options.normalized }, disk⟩ [] hentries
  rw [hopen]
  cases hresult : loadSegments (scans.map Scan.base) ⟨{ options := options.normalized }, disk⟩ with
  | mk result after =>
      rw [hresult] at hlog hdisk
      dsimp only at hlog hdisk
      cases hall : recoverAll options.normalized scans with
      | error status =>
          rw [hlog, hall]
          exact ⟨rfl, fun indexes h => (nomatch h)⟩
      | ok indexes =>
          rw [hlog, hall]
          exact ⟨rfl, fun _ _ => hdisk indexes hall⟩

/-- The log that recovery makes of accepted files. -/
def recoveredLog (options : CommitLogOptions) (scans : List Scan) : CommitLog where
  options := options.normalized
  segments := scans.map Scan.segment
  indexes := scans.map (Scan.index options.normalized.indexIntervalBytes)
  nextOffset := maxNext 0 scans
  closed := false

section Open

variable {options : CommitLogOptions} {disk : Disk} {scans : List Scan}
variable (hdir : options.dataDir ≠ "") (hsize : recordBatchHeaderBytes ≤ options.segmentBytes)
variable (hscans : scans ≠ []) (hentries : disk.logs.entries = scans.map Scan.file)

include hdir hsize hscans hentries

theorem openLog_of_accepted (haccepted : Accepted options.normalized scans) :
    ∃ disk', openLog options disk = (.ok (recoveredLog options scans), disk') ∧
      disk'.logs.entries = scans.map Scan.keptFile := by
  obtain ⟨hlog, hdisk⟩ := openLog_eq hdir hsize hscans hentries
  have hall := (recoverAll_eq_ok options.normalized_interval_pos).mpr ⟨rfl, haccepted⟩
  rw [hall] at hlog
  exact ⟨(openLog options disk).2, Prod.ext hlog rfl, hdisk _ hall⟩

/-- A log that is opened has been recovered from accepted files. -/
theorem recovered_of_openLog {log : CommitLog} {disk' : Disk} (hopen : openLog options disk = (.ok log, disk')) :
    Accepted options.normalized scans ∧ log = recoveredLog options scans ∧
      disk'.logs.entries = scans.map Scan.keptFile := by
  obtain ⟨hlog, -⟩ := openLog_eq hdir hsize hscans hentries
  rw [hopen] at hlog
  cases hall : recoverAll options.normalized scans with
  | error status =>
      rw [hall] at hlog
      cases hlog
  | ok indexes =>
      have haccepted := ((recoverAll_eq_ok options.normalized_interval_pos).mp hall).2
      obtain ⟨after, hopened, hkept⟩ := openLog_of_accepted hdir hsize hscans hentries haccepted
      rw [hopen] at hopened
      cases hopened
      exact ⟨haccepted, rfl, hkept⟩

end Open

end LogMq
