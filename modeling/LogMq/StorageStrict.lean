import LogMq.StorageRecovery

/-! Strict recovery over arbitrary segment files: a refused directory keeps its segment files, and an accepted
one loses at most the torn end of its last file. -/

namespace LogMq

/-- A file that strict recovery accepts as a sealed segment is read to its end. -/
theorem Scan.total_of_sealed {scan : Scan} {options : CommitLogOptions} (hinterval : 0 < options.indexIntervalBytes)
    (hstrict : options.strictRecovery = true) {index : OffsetIndex} (h : scan.recover options false = .ok index) :
    totalBytes scan.batches = scan.content.length := by
  have htail := (tail_of_recover hinterval hstrict h).resolve_right fun hactive =>
    Bool.false_ne_true hactive.1
  have hle := scan.total_le
  have hlength := congrArg List.length htail
  rw [List.length_drop, List.length_nil] at hlength
  omega

theorem Scan.logs_settle {scan : Scan} (h : totalBytes scan.batches = scan.content.length) (index : OffsetIndex)
    (disk : Disk) : (scan.settle index disk).logs = disk.logs := by
  rw [settle, if_neg (not_not.mpr h)]
  rfl

theorem Scan.keptFile_eq {scan : Scan} (h : totalBytes scan.batches = scan.content.length) :
    scan.keptFile = scan.file := by
  rw [keptFile, kept, h, List.take_length, file]

/-- A directory that is refused keeps its segment files: the files in front of the refused one were sealed. -/
theorem loadSegments_refused {scans : List Scan} {store : Store} {front : List (Int × Bytes)}
    (hinterval : 0 < store.log.options.indexIntervalBytes) (hstrict : store.log.options.strictRecovery = true)
    (hentries : store.disk.logs.entries = front ++ scans.map Scan.file) {status : Status}
    (herror : (loadSegments (scans.map Scan.base) store).1 = .error status) :
    (loadSegments (scans.map Scan.base) store).2.logs = store.disk.logs := by
  induction scans generalizing store front with
  | nil => rfl
  | cons scan rest ih =>
      obtain ⟨hcontent, hopened⟩ := Scan.openSegment_listed hentries
      have hempty : (rest.map Scan.base).isEmpty = rest.isEmpty := List.isEmpty_map
      rw [List.map_cons, loadSegments, hopened] at herror ⊢
      dsimp only at herror ⊢
      rw [hempty, recoverSegment_eq scan _ hcontent] at herror ⊢
      cases hrecover : scan.recover store.log.options rest.isEmpty with
      | error reason => rfl
      | ok index =>
          rw [hrecover] at herror
          dsimp only at herror ⊢
          cases rest with
          | nil => cases herror
          | cons next others =>
              have hlogs := Scan.logs_settle (Scan.total_of_sealed hinterval hstrict hrecover) index store.disk
              have hnext : (scan.settle index store.disk).logs.entries =
                  front ++ [scan.file] ++ (next :: others).map Scan.file := by
                rw [hlogs, hentries, List.append_assoc]
                rfl
              exact (@ih ⟨{ store.log with
                segments := store.log.segments ++ [scan.segment]
                indexes := store.log.indexes ++ [index]
                nextOffset := max store.log.nextOffset (maxEnd scan.base scan.batches) },
                scan.settle index store.disk⟩ _ hinterval hstrict hnext herror).trans hlogs

/-- Of the files that strict recovery accepts, only the last one changes. -/
theorem Accepted.keptFiles {options : CommitLogOptions} (hinterval : 0 < options.indexIntervalBytes)
    (hstrict : options.strictRecovery = true) {front : List Scan} {last : Scan}
    (h : Accepted options (front ++ [last])) :
    (front ++ [last]).map Scan.keptFile = front.map Scan.file ++ [last.keptFile] := by
  rw [List.map_append, List.map_singleton]
  congr 1
  apply List.map_congr_left
  intro scan hscan
  exact Scan.keptFile_eq (Scan.total_of_sealed hinterval hstrict (h.recover_front hscan))

/-- These bytes are complete valid batches, one after the other. -/
def Whole (content : Bytes) : Prop := ∃ batches, LaidOut content 0 batches ∧ totalBytes batches = content.length

/-- What strict recovery may do to the segment files of a directory, which are listed by base offset. -/
inductive StrictOutcome (before : List (Int × Bytes)) : Result CommitLog × Disk → Prop where
  | refused {status : Status} {after : Disk} (hlogs : after.logs.entries = before) :
      StrictOutcome before (.error status, after)
  | opened {log : CommitLog} {after : Disk} {front : List (Int × Bytes)} {last : Int} {content kept : Bytes}
      (hbefore : before = front ++ [(last, content)]) (hlogs : after.logs.entries = front ++ [(last, kept)])
      (hcut : kept <+: content) (hwhole : Whole kept) : StrictOutcome before (.ok log, after)

/-- A segment file whose name spells a negative base offset is refused first. -/
theorem loadSegments_negative {base : Int} (hbase : base < 0) (rest : List Int) (store : Store) :
    loadSegments (base :: rest) store =
      (.error (.invalidArgument "segment base_offset must not be negative"), store.disk) := by
  rw [loadSegments, openSegment, if_pos hbase]

/-- If some base offset is negative, the first one is. -/
theorem exists_negative_first {disk : Disk} (h : ¬∀ file ∈ disk.logs.entries, 0 ≤ file.1) :
    ∃ first rest, disk.logs.entries = first :: rest ∧ first.1 < 0 := by
  obtain ⟨file, hfile⟩ := not_forall.mp h
  obtain ⟨hmem, hnegative⟩ := Classical.not_imp.mp hfile
  have hsorted := disk.logs.sorted
  cases hentries : disk.logs.entries with
  | nil =>
      rw [hentries] at hmem
      exact absurd hmem List.not_mem_nil
  | cons first rest =>
      refine ⟨first, rest, rfl, ?_⟩
      rw [hentries] at hmem hsorted
      rcases List.mem_cons.mp hmem with rfl | hrest
      · exact Int.not_le.mp hnegative
      · exact ((List.pairwise_cons.mp hsorted).1 file hrest).trans (Int.not_le.mp hnegative)

theorem strict_open_scans {options : CommitLogOptions} (hstrict : options.strictRecovery = true) {disk : Disk}
    (hdir : options.dataDir ≠ "") (hsize : recordBatchHeaderBytes ≤ options.segmentBytes)
    (hfiles : disk.logs.entries ≠ []) {scans : List Scan} (hentries : disk.logs.entries = scans.map Scan.file) :
    StrictOutcome disk.logs.entries (openLog options disk) := by
  have hinterval := options.normalized_interval_pos
  have hnormalized := options.normalized_strict.trans hstrict
  have hscans : scans ≠ [] := by
    intro hnil
    apply hfiles
    rw [hentries, hnil, List.map_nil]
  cases hopen : openLog options disk with
  | mk result after =>
      cases result with
      | error status =>
          have hload := openLog_of_files hdir hsize hfiles
          rw [hopen, hentries, List.map_map] at hload
          split at hload
          · rename_i hresult
            cases hload
            have hlogs := @loadSegments_refused scans ⟨{ options := options.normalized }, disk⟩ [] hinterval hnormalized
              hentries _ (congrArg Prod.fst hresult)
            rw [show after = _ from (congrArg Prod.snd hresult).symm]
            exact .refused (congrArg SortedMap.entries hlogs)
          · cases hload
      | ok log =>
          obtain ⟨haccepted, rfl, hkept⟩ := recovered_of_openLog hdir hsize hscans hentries hopen
          rw [← List.dropLast_append_getLast hscans] at haccepted hkept hentries
          rw [haccepted.keptFiles hinterval hnormalized] at hkept
          rw [List.map_append, List.map_singleton] at hentries
          exact .opened hentries hkept (List.take_prefix _ _)
            ⟨_, Scan.laid_kept _, (Scan.length_kept _).symm⟩

/-- **Strict recovery.** Opening a directory with segment files of any content fails without touching them, or
cuts the last one down to the complete valid batches at its front. -/
theorem strict_open {options : CommitLogOptions} (hstrict : options.strictRecovery = true) {disk : Disk}
    (hfiles : disk.logs.entries ≠ []) : StrictOutcome disk.logs.entries (openLog options disk) := by
  by_cases hdir : options.dataDir = ""
  · rw [openLog, if_pos hdir]
    exact .refused rfl
  by_cases hsize : options.segmentBytes < recordBatchHeaderBytes
  · rw [openLog, if_neg hdir, if_pos hsize]
    exact .refused rfl
  by_cases hbases : ∀ file ∈ disk.logs.entries, 0 ≤ file.1
  · obtain ⟨scans, hscans⟩ := Scan.exists_of_files hbases
    exact strict_open_scans hstrict hdir (Nat.not_lt.mp hsize) hfiles hscans.symm
  · rw [openLog_of_files hdir (Nat.not_lt.mp hsize) hfiles]
    obtain ⟨first, rest, hentries, hnegative⟩ := exists_negative_first hbases
    rw [hentries, List.map_cons, loadSegments_negative hnegative]
    exact .refused hentries

/-- A directory whose only segment file ends inside its first header. -/
def shortDisk : Disk := Disk.writeLog {} 0 [0x4c, 0x4d, 0x51]

theorem strict_open_short :
    StrictOutcome shortDisk.logs.entries (openLog { dataDir := "log", strictRecovery := true } shortDisk) :=
  strict_open rfl (List.cons_ne_nil _ _)

end LogMq
