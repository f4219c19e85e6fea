import LogMq.LibText
import LogMq.ProtocolTypes
import LogMq.StorageCanonical
import LogMq.StorageFailedAppends

/-! The signed 64-bit arithmetic of a log. The other modules compute offsets as integers, so here the results of the
additions and subtractions that the code carries out on `Offset` values are listed one by one, each function beside
the one it follows, and it is shown for which directories all of them are `std::int64_t` values. -/

namespace LogMq

open SparseIndex Text

/-! ### The arithmetic of `CommitLog` -/

/-- The digit loop of `ParseBaseOffset`. -/
def parseDigits : Bytes → Int → Option Int
  | [], parsed => some parsed
  | ch :: rest, parsed =>
      if ch < 48 ∨ ch > 57 then none
      else
        let digit : Int := ch.toNat - 48
        if parsed > (maxOffset - digit) / 10 then none else parseDigits rest (parsed * 10 + digit)

/-- `ParseBaseOffset` of the stem of a file name. -/
def parseBaseOffset (name : Bytes) : Option Int :=
  if name.isEmpty then none else parseDigits name 0

/-- What the digit loop computes: the bound, the product and the sum of each digit. -/
def parseSums : Bytes → Int → List Int
  | [], _ => []
  | ch :: rest, parsed =>
      if ch < 48 ∨ ch > 57 then []
      else
        let digit : Int := ch.toNat - 48
        if parsed > (maxOffset - digit) / 10 then [maxOffset - digit]
        else (maxOffset - digit) :: (parsed * 10) :: (parsed * 10 + digit) :: parseSums rest (parsed * 10 + digit)

/-- The sums of `RecoverSegment`, one for each batch that is read and indexed. -/
def recoverSums (segment : Segment) (content : Bytes) : Nat → Nat → OffsetIndex → List Int
  | 0, _, _ => []
  | fuel + 1, position, index =>
      if position < content.length then
        match segment.read content position (content.length - position) with
        | .error _ => []
        | .ok batch =>
            match index.maybeAppend batch.baseOffset position with
            | .error _ => []
            | .ok index =>
                (batch.baseOffset + batch.recordCount) ::
                  recoverSums segment content fuel (position + batch.batchBytes) index
      else []

/-- The sums of the loop of `LoadOrCreateSegments`. -/
def loadSums (options : CommitLogOptions) : List Int → Disk → List Int
  | [], _ => []
  | baseOffset :: rest, disk =>
      match openSegment disk baseOffset none with
      | (.error _, _) => []
      | (.ok segment, disk) =>
          let index := OffsetIndex.create baseOffset options.indexIntervalBytes
          let content := disk.content segment.baseOffset
          recoverSums segment content (content.length + 1) 0 index.clear ++
            match recoverSegment options disk segment index rest.isEmpty with
            | (.error _, _) => []
            | (.ok _, disk) => loadSums options rest disk

/-- The sums of `Open`. -/
def openSums (options : CommitLogOptions) (disk : Disk) : List Int :=
  if options.dataDir = "" then []
  else if options.segmentBytes < recordBatchHeaderBytes then []
  else
    let options := if options.indexIntervalBytes = 0 then { options with indexIntervalBytes := 1 } else options
    loadSums options (disk.logs.entries.map Prod.fst) disk

/-- The sum of `BatchContainsOffset`, when the comparison in front of it lets it be computed. -/
def containsSums (batch : RecordBatch) (offset : Int) : List Int :=
  if batch.baseOffset < 0 then []
  else if batch.baseOffset ≤ offset then [batch.baseOffset + batch.recordCount] else []

/-- The sums of the scan of `Read`. -/
def scanSums (segment : Segment) (content : Bytes) (offset : Int) (maxBytes : Nat) : Nat → Nat → List Int
  | 0, _ => []
  | fuel + 1, position =>
      if position < segment.writePosition then
        match segment.read content position maxBytes with
        | .error _ => []
        | .ok batch =>
            containsSums batch offset ++
              if batchContainsOffset batch offset then []
              else scanSums segment content offset maxBytes fuel (position + batch.batchBytes)
      else []

namespace Store

/-- The sums of `Read`. -/
def readSums (store : Store) (offset : Int) (maxBytes : Nat) : List Int :=
  if store.log.closed then []
  else if offset < 0 then []
  else if offset ≥ store.log.nextOffset then []
  else
    match findSegmentIndex store.log offset with
    | .error _ => []
    | .ok i =>
        match store.log.segments[i]?, store.log.indexes[i]? with
        | some segment, some index =>
            match scanStart index offset with
            | .error _ => []
            | .ok position =>
                scanSums segment (store.disk.content segment.baseOffset) offset maxBytes
                  (segment.writePosition + 1) position
        | _, _ => []

/-- The difference in the check of `Append`, and the sum it ends with when it succeeds. -/
def appendSums (store : Store) (records : List Record) (faults : IoFaults) : List Int :=
  if store.log.closed then []
  else if records.isEmpty then []
  else
    (maxOffset - store.log.nextOffset) ::
      match (store.append records faults).1 with
      | .error _ => []
      | .ok _ => [store.log.nextOffset + records.length]

end Store

/-! ### Names -/

theorem parseDigits_eq (name : Bytes) (parsed : Int) : parseDigits name parsed = readBounded maxOffset name parsed := by
  induction name generalizing parsed with
  | nil => rfl
  | cons ch rest ih => simp only [parseDigits, readBounded, gt_iff_lt, ih]

theorem parseSums_eq (name : Bytes) (parsed : Int) : parseSums name parsed = boundedSums maxOffset name parsed := by
  induction name generalizing parsed with
  | nil => rfl
  | cons ch rest ih => simp only [parseSums, boundedSums, gt_iff_lt, ih]

/-- **`ParseBaseOffset`** accepts the strings of digits that spell a value of type `Offset`. -/
theorem parseBaseOffset_eq_some {name : Bytes} {base : Int} :
    parseBaseOffset name = some base ↔ Spells maxOffset name base := by
  unfold parseBaseOffset
  by_cases hname : name = []
  · rw [if_pos (by rwa [List.isEmpty_iff])]
    exact ⟨nofun, fun h => absurd hname h.nonempty⟩
  · rw [if_neg (by rwa [List.isEmpty_iff]), parseDigits_eq]
    exact readBounded_iff_spells (by decide) hname

/-- A file name spells an offset of type `Offset`. -/
theorem parseBaseOffset_le {name : Bytes} {base : Int} (h : parseBaseOffset name = some base) :
    0 ≤ base ∧ base ≤ maxOffset :=
  ⟨(parseBaseOffset_eq_some.mp h).nonneg, (parseBaseOffset_eq_some.mp h).le⟩

theorem isInt64_of_bounds {sum : Int} (hnonneg : 0 ≤ sum) (hle : sum ≤ maxOffset) : IsInt64 sum := by
  unfold IsInt64
  unfold maxOffset at hle
  omega

/-- No name makes `ParseBaseOffset` overflow. -/
theorem parseSums_fit (name : Bytes) : ∀ sum ∈ parseSums name 0, IsInt64 sum := by
  intro sum hsum
  rw [parseSums_eq] at hsum
  obtain ⟨hnonneg, hle⟩ := boundedSums_le (by decide) (le_refl 0) sum hsum
  exact isInt64_of_bounds hnonneg hle

/-! ### Opening -/

/-- The first item of a list that is reached past the items in front of it. -/
theorem exists_split_cons {α : Type} {P Q : α → Prop} {head : α} {rest : List α} :
    (∃ before item after, head :: rest = before ++ item :: after ∧ (∀ other ∈ before, P other) ∧ Q item) ↔
      Q head ∨ P head ∧
        ∃ before item after, rest = before ++ item :: after ∧ (∀ other ∈ before, P other) ∧ Q item := by
  constructor
  · rintro ⟨before, item, after, hsplit, hbefore, hitem⟩
    cases before with
    | nil =>
        cases hsplit
        exact Or.inl hitem
    | cons first before =>
        obtain ⟨rfl, hrest⟩ := List.cons_eq_cons.mp hsplit
        obtain ⟨hhead, hbefore⟩ := List.forall_mem_cons.mp hbefore
        exact Or.inr ⟨hhead, before, item, after, hrest, hbefore, hitem⟩
  · rintro (hhead | ⟨hhead, before, item, after, rfl, hbefore, hitem⟩)
    · exact ⟨[], head, rest, rfl, List.forall_mem_nil _, hhead⟩
    · exact ⟨head :: before, item, after, rfl, List.forall_mem_cons.mpr ⟨hhead, hbefore⟩, hitem⟩

theorem not_exists_split_nil {α : Type} {P : List α → α → List α → Prop} :
    ¬∃ before item after, [] = before ++ item :: after ∧ P before item after := by
  rintro ⟨before, item, after, hsplit, -⟩
  exact absurd hsplit.symm (List.append_ne_nil_of_right_ne_nil _ (List.cons_ne_nil _ _))

/-- The index of a segment accepts these batches, from the front of the file on. -/
def Indexed (options : CommitLogOptions) (base : Int) (batches : List RecordBatch) : Prop :=
  ∃ index, offerAll (placed 0 batches) (OffsetIndex.create base options.normalized.indexIntervalBytes) = .ok index

/-- Recovery gets past a segment file that is not the last one: its index accepts all batches that can be read
from the front, and under strict recovery they are all there is. -/
def Passed (options : CommitLogOptions) (file : Int × Bytes) : Prop :=
  ∃ batches, LaidOut file.2 0 batches ∧ Stops file.2 (totalBytes batches) ∧ Indexed options file.1 batches ∧
    (options.strictRecovery = true → totalBytes batches = file.2.length)

/-- In every segment file that `Open` gets to, the batches that are read from the front and indexed end within the
range of an offset. -/
def EndsFit (options : CommitLogOptions) (disk : Disk) : Prop :=
  options.dataDir ≠ "" → recordBatchHeaderBytes ≤ options.segmentBytes →
    ∀ front file rest, disk.logs.entries = front ++ file :: rest → (∀ other ∈ front, Passed options other) →
      ∀ before batch, LaidOut file.2 0 (before ++ [batch]) → Indexed options file.1 (before ++ [batch]) →
        batch.baseOffset + batch.recordCount ≤ maxOffset

/-- The sums of the recovery loop are the ends of the batches whose offers are accepted. -/
theorem mem_recoverSums {segment : Segment} (hopen : segment.closed = false) {content : Bytes} {fuel position : Nat}
    {index : OffsetIndex} {batches : List RecordBatch} (hlaid : LaidOut content position batches)
    (hstops : Stops content (position + totalBytes batches)) (hfuel : content.length - position < fuel) {sum : Int} :
    sum ∈ recoverSums segment content fuel position index ↔
      ∃ before batch after, batches = before ++ batch :: after ∧
        (∃ indexed, offerAll (placed position (before ++ [batch])) index = .ok indexed) ∧
        sum = batch.baseOffset + batch.recordCount := by
  induction batches generalizing position fuel index with
  | nil =>
      have hnone : recoverSums segment content fuel position index = [] := by
        cases fuel with
        | zero => rfl
        | succ fuel =>
            rw [recoverSums, Segment.read_of_open hopen]
            split_ifs
            · cases hread : readBatch content position (content.length - position) with
              | error status => rfl
              | ok batch => exact absurd hread (hstops batch)
            · rfl
      rw [hnone]
      exact iff_of_false List.not_mem_nil not_exists_split_nil
  | cons head tail ih =>
      obtain ⟨hdecodes, hlaid⟩ := hlaid
      have hcomplete := hdecodes.complete
      have hheader := hdecodes.header_le
      have hpos : 0 < recordBatchHeaderBytes := by decide
      rw [List.length_drop] at hcomplete
      rw [totalBytes, ← Nat.add_assoc] at hstops
      cases fuel with
      | zero => omega
      | succ fuel =>
          rw [recoverSums, if_pos (by omega), Segment.read_of_open hopen,
            readBatch_eq_ok.mpr ⟨hcomplete, hdecodes⟩]
          dsimp only
          cases hoffer : index.maybeAppend head.baseOffset position with
          | error status =>
              apply iff_of_false List.not_mem_nil
              rintro ⟨before, batch, after, hsplit, ⟨indexed, hall⟩, -⟩
              cases before with
              | nil =>
                  cases hsplit
                  obtain ⟨next, hnext, -⟩ := Result.bind_eq_ok.mp hall
                  cases hoffer.symm.trans hnext
              | cons first before =>
                  cases hsplit
                  obtain ⟨next, hnext, -⟩ := Result.bind_eq_ok.mp hall
                  cases hoffer.symm.trans hnext
          | ok next =>
              dsimp only
              rw [List.mem_cons, ih hlaid hstops (by omega)]
              constructor
              · rintro (rfl | ⟨before, batch, after, rfl, ⟨indexed, hall⟩, rfl⟩)
                · exact ⟨[], head, tail, rfl, ⟨next, Result.bind_eq_ok.mpr ⟨next, hoffer, rfl⟩⟩, rfl⟩
                · exact ⟨head :: before, batch, after, rfl,
                    ⟨indexed, Result.bind_eq_ok.mpr ⟨next, hoffer, hall⟩⟩, rfl⟩
              · rintro ⟨before, batch, after, hsplit, ⟨indexed, hall⟩, rfl⟩
                cases before with
                | nil =>
                    cases hsplit
                    exact Or.inl rfl
                | cons first before =>
                    cases hsplit
                    obtain ⟨other, hother, hall⟩ := Result.bind_eq_ok.mp hall
                    cases hoffer.symm.trans hother
                    exact Or.inr ⟨before, batch, after, rfl, ⟨indexed, hall⟩, rfl⟩

/-- What recovery asks of a segment file that is not the last one. -/
theorem Scan.passed_iff {options : CommitLogOptions} {scan : Scan} :
    Passed options scan.file ↔ ∃ index, scan.recover options.normalized false = .ok index := by
  have hcheck := @checkStop_eq_ok options.normalized scan.content false _ scan.stops
  rw [options.normalized_strict] at hcheck
  constructor
  · rintro ⟨batches, hlaid, hstops, ⟨index, hoffer⟩, hwhole⟩
    have hsame : batches = scan.batches := by
      have hstops' : Stops scan.content (0 + totalBytes batches) := by rwa [Nat.zero_add]
      exact (scan.prefix_of_laid hlaid).eq_of_length_le (scan.laid.prefix_of_stops hlaid hstops').length_le
    subst hsame
    refine ⟨index, Result.bind_eq_ok.mpr ⟨index, hoffer, Result.bind_eq_ok.mpr ⟨(), hcheck.mpr ?_, rfl⟩⟩⟩
    exact fun hstrict => Or.inl (hwhole hstrict).ge
  · rintro ⟨index, hrecover⟩
    obtain ⟨-, hoffer, hstop⟩ := (recover_eq_ok options.normalized_interval_pos).mp hrecover
    refine ⟨scan.batches, scan.laid, scan.stops, ⟨index, hoffer⟩, fun hstrict => ?_⟩
    rcases hcheck.mp hstop hstrict with hle | hactive
    · exact le_antisymm scan.total_le hle
    · exact absurd hactive.1 Bool.false_ne_true

/-- The sums of one segment file. -/
def Scan.sums (options : CommitLogOptions) (scan : Scan) : List Int :=
  recoverSums ⟨scan.base, scan.content.length, false⟩ scan.content (scan.content.length + 1) 0
    (OffsetIndex.create scan.base options.indexIntervalBytes)

/-- The sums of loading are those of the files that recovery gets to. -/
theorem mem_loadSums {options : CommitLogOptions} {scans : List Scan} {disk : Disk} {front : List (Int × Bytes)}
    (hentries : disk.logs.entries = front ++ scans.map Scan.file) {sum : Int} :
    sum ∈ loadSums options (scans.map Scan.base) disk ↔
      ∃ before scan after, scans = before ++ scan :: after ∧
        (∀ other ∈ before, ∃ index, other.recover options false = .ok index) ∧ sum ∈ scan.sums options := by
  induction scans generalizing disk front with
  | nil => exact iff_of_false List.not_mem_nil not_exists_split_nil
  | cons head rest ih =>
      obtain ⟨hcontent, hopened⟩ := Scan.openSegment_listed hentries
      have hempty : (rest.map Scan.base).isEmpty = rest.isEmpty := List.isEmpty_map
      rw [exists_split_cons, List.map_cons, loadSums, hopened]
      dsimp only
      rw [hempty, hcontent, recoverSegment_eq head _ hcontent, List.mem_append]
      apply or_congr Iff.rfl
      cases hrecover : head.recover options rest.isEmpty with
      | error status =>
          apply iff_of_false List.not_mem_nil
          rintro ⟨⟨index, hindex⟩, hrest⟩
          cases rest with
          | nil => exact not_exists_split_nil hrest
          | cons next others => cases hrecover.symm.trans hindex
      | ok index =>
          have hnext := @Scan.entries_settle _ index _ _ _ hentries
          rw [← List.singleton_append, ← List.append_assoc] at hnext
          dsimp only
          rw [ih hnext]
          cases rest with
          | nil => exact iff_of_false not_exists_split_nil fun h => not_exists_split_nil h.2
          | cons next others => exact (and_iff_right ⟨index, hrecover⟩).symm

theorem Scan.mem_sums {options : CommitLogOptions} {scan : Scan} {sum : Int} :
    sum ∈ scan.sums options.normalized ↔ ∃ before batch after, scan.batches = before ++ batch :: after ∧
      Indexed options scan.base (before ++ [batch]) ∧ sum = batch.baseOffset + batch.recordCount := by
  have hstops : Stops scan.content (0 + totalBytes scan.batches) := by
    rw [Nat.zero_add]
    exact scan.stops
  exact mem_recoverSums rfl scan.laid hstops (by omega)

/-- **Opening.** The sums of `Open` are in range exactly when the batches it reads and indexes end in range. -/
theorem openSums_fit_iff {options : CommitLogOptions} {disk : Disk}
    (hnames : ∀ file ∈ disk.logs.entries, ∃ name, parseBaseOffset name = some file.1) :
    (∀ sum ∈ openSums options disk, IsInt64 sum) ↔ EndsFit options disk := by
  unfold openSums
  by_cases hdir : options.dataDir = ""
  · rw [if_pos hdir]
    exact iff_of_true (List.forall_mem_nil _) fun hne => absurd hdir hne
  by_cases hsize : options.segmentBytes < recordBatchHeaderBytes
  · rw [if_neg hdir, if_pos hsize]
    exact iff_of_true (List.forall_mem_nil _) fun _ hle => absurd hsize (not_lt.mpr hle)
  have hbases : ∀ file ∈ disk.logs.entries, 0 ≤ file.1 := by
    intro file hfile
    obtain ⟨name, hname⟩ := hnames file hfile
    exact (parseBaseOffset_le hname).1
  obtain ⟨scans, hscans⟩ := Scan.exists_of_files hbases
  have hfirsts : disk.logs.entries.map Prod.fst = scans.map Scan.base := by
    rw [← hscans, List.map_map]
    rfl
  have hmem := fun sum => @mem_loadSums options.normalized scans disk [] hscans.symm sum
  rw [if_neg hdir, if_neg hsize, hfirsts]
  change (∀ sum ∈ loadSums options.normalized (scans.map Scan.base) disk, IsInt64 sum) ↔ _
  constructor
  · intro hfit _ _ front file rest hentries hfront before batch hlaid hindexed
    obtain ⟨passed, scan, others, rfl, rfl, rfl, rfl⟩ : ∃ passed scan others, scans = passed ++ scan :: others ∧
        passed.map Scan.file = front ∧ scan.file = file ∧ others.map Scan.file = rest := by
      obtain ⟨passed, more, rfl, hpassed, hmore⟩ := List.map_eq_append_iff.mp (hscans.trans hentries)
      obtain ⟨scan, others, rfl, hfile, hothers⟩ := List.map_eq_cons_iff.mp hmore
      exact ⟨passed, scan, others, rfl, hpassed, hfile, hothers⟩
    obtain ⟨after, hbatches⟩ := scan.prefix_of_laid hlaid
    rw [List.append_assoc, List.singleton_append] at hbatches
    have hin : batch.baseOffset + batch.recordCount ∈ loadSums options.normalized
        ((passed ++ scan :: others).map Scan.base) disk := by
      refine (hmem _).mpr ⟨passed, scan, others, rfl, fun other hother => ?_, ?_⟩
      · exact Scan.passed_iff.mp (hfront _ (List.mem_map_of_mem hother))
      · exact Scan.mem_sums.mpr ⟨before, batch, after, hbatches.symm, hindexed, rfl⟩
    exact Int.le_sub_one_of_lt (hfit _ hin).2
  · intro hfit sum hsum
    obtain ⟨passed, scan, others, rfl, hpassed, hsum⟩ := (hmem sum).mp hsum
    obtain ⟨before, batch, after, hbatches, hindexed, rfl⟩ := Scan.mem_sums.mp hsum
    have hlaid := scan.laid
    rw [hbatches, ← List.singleton_append, ← List.append_assoc, laidOut_append] at hlaid
    have hle := hfit hdir (not_lt.mp hsize) (passed.map Scan.file) scan.file (others.map Scan.file)
      (by rw [← hscans, List.map_append, List.map_cons])
      (fun other hother => by
        obtain ⟨earlier, hearlier, rfl⟩ := List.mem_map.mp hother
        exact Scan.passed_iff.mpr (hpassed earlier hearlier))
      before batch hlaid.1 hindexed
    obtain ⟨index, hoffer⟩ := hindexed
    have hbase : scan.base ≤ batch.baseOffset := by
      refine offerAll_base_le hoffer ⟨batch.baseOffset, 0 + totalBytes before⟩ ?_
      rw [placed_append]
      exact List.mem_append_right _ List.mem_cons_self
    have hnonneg := scan.base_nonneg
    exact isInt64_of_bounds (by omega) hle

theorem maxEnd_le {batches : List RecordBatch} {start bound : Int} (hstart : start ≤ bound)
    (h : ∀ batch ∈ batches, batch.endOffset ≤ bound) : maxEnd start batches ≤ bound := by
  induction batches generalizing start with
  | nil => exact hstart
  | cons head rest ih =>
      obtain ⟨hhead, hrest⟩ := List.forall_mem_cons.mp h
      exact ih (max_le hstart hhead) hrest

theorem maxNext_le {scans : List Scan} {start bound : Int} (hstart : start ≤ bound)
    (h : ∀ scan ∈ scans, maxEnd scan.base scan.batches ≤ bound) : maxNext start scans ≤ bound := by
  induction scans generalizing start with
  | nil => exact hstart
  | cons head rest ih =>
      obtain ⟨hhead, hrest⟩ := List.forall_mem_cons.mp h
      exact ih (max_le hstart hhead) hrest

/-- The next offset is in the range of an offset that is not negative. -/
def NextFits (store : Store) : Prop := 0 ≤ store.log.nextOffset ∧ store.log.nextOffset ≤ maxOffset

theorem nextFits_of_openLog {options : CommitLogOptions} {disk disk' : Disk} {log : CommitLog}
    (hnames : ∀ file ∈ disk.logs.entries, ∃ name, parseBaseOffset name = some file.1)
    (hfit : EndsFit options disk) (hopen : openLog options disk = (.ok log, disk')) : NextFits ⟨log, disk'⟩ := by
  obtain ⟨hdir, hsize⟩ := openLog_ok_options hopen
  by_cases hfiles : disk.logs.entries = []
  · have hrep := initial_of_openLog hdir hsize hfiles hopen
    exact ⟨hrep.holds.next_nonneg, hrep.next_le⟩
  have hbounds : ∀ file ∈ disk.logs.entries, 0 ≤ file.1 ∧ file.1 ≤ maxOffset := by
    intro file hfile
    obtain ⟨name, hname⟩ := hnames file hfile
    exact parseBaseOffset_le hname
  obtain ⟨scans, hscans⟩ := Scan.exists_of_files fun file hfile => (hbounds file hfile).1
  have hne : scans ≠ [] := by
    intro hnil
    apply hfiles
    rw [← hscans, hnil, List.map_nil]
  obtain ⟨haccepted, rfl, -⟩ := recovered_of_openLog hdir hsize hne hscans.symm hopen
  refine ⟨(le_maxNext 0 scans).1, maxNext_le (by decide) fun scan hscan => ?_⟩
  obtain ⟨passed, others, rfl⟩ := List.append_of_mem hscan
  refine maxEnd_le (hbounds scan.file (hscans ▸ List.mem_map_of_mem hscan)).2 fun batch hbatch => ?_
  obtain ⟨before, later, hbatches⟩ := List.append_of_mem hbatch
  obtain ⟨-, hoffer, -⟩ := (Scan.recover_eq_ok options.normalized_interval_pos).mp haccepted.recover
  have hlaid := scan.laid
  rw [hbatches, ← List.singleton_append, ← List.append_assoc] at hlaid hoffer
  rw [placed_append, offerAll_append] at hoffer
  obtain ⟨index, hoffer, -⟩ := Result.bind_eq_ok.mp hoffer
  refine hfit hdir hsize (passed.map Scan.file) scan.file (others.map Scan.file) ?_ ?_ before batch
    (laidOut_append.mp hlaid).1 ⟨index, hoffer⟩
  · rw [← hscans, List.map_append, List.map_cons]
  · intro other hother
    obtain ⟨earlier, hearlier, rfl⟩ := List.mem_map.mp hother
    exact Scan.passed_iff.mpr ⟨_, haccepted.recover_front hearlier⟩

/-! ### Appending and closing -/

/-- What can happen to an open log between two reads. -/
inductive LogStep (store : Store) : Store → Prop
  | append (records : List Record) (faults : IoFaults) : LogStep store (store.append records faults).2
  | close : LogStep store store.close
  | stoppedClose (fault : CloseFault) : LogStep store (store.stoppedClose fault)

theorem LogReaches.step {store store' : Store} (h : LogReaches store) (hstep : LogStep store store') :
    LogReaches store' := by
  cases hstep with
  | append records faults => exact h.append records faults
  | close => exact h.close
  | stoppedClose fault => exact h.stoppedClose fault

namespace Store

theorem nextOffset_makeRoom (store : Store) (batch : RecordBatch) (faults : IoFaults) :
    (store.makeRoom batch faults).2.log.nextOffset = store.log.nextOffset := by
  unfold makeRoom
  split
  · rfl
  · split_ifs
    · unfold rollSegment
      split <;> rfl
    · rfl

theorem nextOffset_appendBatch (store : Store) (batch : RecordBatch) (faults : IoFaults) :
    (store.appendBatch batch faults).2.log.nextOffset = store.log.nextOffset ∨
      (store.appendBatch batch faults).2.log.nextOffset = store.log.nextOffset + batch.recordCount := by
  unfold appendBatch
  split
  · split
    · exact Or.inl rfl
    · dsimp only
      split
      · exact Or.inl rfl
      · exact Or.inr rfl
  · exact Or.inl rfl

/-- `Append` moves the next offset by the number of records, which it has checked to fit, or not at all. -/
theorem nextOffset_append (store : Store) (records : List Record) (faults : IoFaults) :
    (store.append records faults).2.log.nextOffset = store.log.nextOffset ∨
      (records.length : Int) ≤ maxOffset - store.log.nextOffset ∧
        (store.append records faults).2.log.nextOffset = store.log.nextOffset + records.length := by
  unfold append
  split_ifs with hclosed hempty hmany
  · exact Or.inl rfl
  · exact Or.inl rfl
  · exact Or.inl rfl
  cases hbatch : makeRecordBatch store.log.nextOffset records with
  | error status => exact Or.inl rfl
  | ok batch =>
      obtain ⟨-, -, hcount, -⟩ := makeRecordBatch_eq_ok hbatch
      have hroom := nextOffset_makeRoom store batch faults
      dsimp only
      cases hmade : store.makeRoom batch faults with
      | mk result room =>
          rw [hmade] at hroom
          cases result with
          | error status => exact Or.inl hroom
          | ok _ =>
              rcases nextOffset_appendBatch room batch faults with hsame | hmoved
              · exact Or.inl (hsame.trans hroom)
              · refine Or.inr ⟨not_lt.mp hmany, hmoved.trans ?_⟩
                rw [hroom, hcount]

end Store

theorem NextFits.step {store store' : Store} (h : NextFits store) (hstep : LogStep store store') : NextFits store' := by
  obtain ⟨hnonneg, hle⟩ := h
  unfold NextFits
  cases hstep with
  | append records faults =>
      rcases store.nextOffset_append records faults with hsame | ⟨hroom, hmoved⟩
      · rw [hsame]
        exact ⟨hnonneg, hle⟩
      · rw [hmoved]
        omega
  | close =>
      unfold Store.close
      split_ifs
      · exact ⟨hnonneg, hle⟩
      · exact ⟨hnonneg, hle⟩
  | stoppedClose fault =>
      unfold Store.stoppedClose
      split_ifs
      · exact ⟨hnonneg, hle⟩
      · split
        · dsimp only
          split
          · exact ⟨hnonneg, hle⟩
          · exact ⟨hnonneg, hle⟩
        · exact ⟨hnonneg, hle⟩

theorem NextFits.appendSums {store : Store} (h : NextFits store) (records : List Record) (faults : IoFaults) :
    ∀ sum ∈ store.appendSums records faults, IsInt64 sum := by
  obtain ⟨hnonneg, hle⟩ := h
  unfold Store.appendSums
  split_ifs with hclosed hempty
  · exact List.forall_mem_nil _
  · exact List.forall_mem_nil _
  refine List.forall_mem_cons.mpr ⟨isInt64_of_bounds (by omega) (by omega), ?_⟩
  cases hresult : (store.append records faults).1 with
  | error status => exact List.forall_mem_nil _
  | ok result =>
      have hroom : ¬(records.length : Int) > maxOffset - store.log.nextOffset := by
        intro hmany
        rw [Store.append, if_neg hclosed, if_neg hempty, if_pos hmany] at hresult
        cases hresult
      exact List.forall_mem_singleton.mpr (isInt64_of_bounds (by omega) (by omega))

/-! ### Reading -/

/-- A scan computes the ends of batches it reads. -/
theorem scanSums_fit {segment : Segment} {content : Bytes} {offset bound : Int} {maxBytes fuel position : Nat}
    {batches : List RecordBatch} (hlaid : LaidOut content position batches)
    (hwritten : position + totalBytes batches = segment.writePosition)
    (hends : ∀ batch ∈ batches, batch.endOffset ≤ bound) :
    ∀ sum ∈ scanSums segment content offset maxBytes fuel position, 0 ≤ sum ∧ sum ≤ bound := by
  induction fuel generalizing position batches with
  | zero => exact List.forall_mem_nil _
  | succ fuel ih =>
      rw [scanSums]
      split_ifs with hless
      · cases hread : segment.read content position maxBytes with
        | error status => exact List.forall_mem_nil _
        | ok found =>
            have hopen : ¬segment.closed = true := by
              intro hclosed
              rw [Segment.read, if_pos hclosed] at hread
              cases hread
            rw [Segment.read, if_neg hopen] at hread
            have hdecodes := (readBatch_eq_ok.mp hread).2
            cases batches with
            | nil =>
                rw [totalBytes] at hwritten
                omega
            | cons head tail =>
                obtain ⟨hhead, htail⟩ := List.forall_mem_cons.mp hends
                cases hlaid.1.unique hdecodes
                rw [totalBytes, ← Nat.add_assoc] at hwritten
                refine List.forall_mem_append.mpr ⟨?_, ?_⟩
                · unfold containsSums
                  split_ifs with hneg
                  · exact List.forall_mem_nil _
                  · exact List.forall_mem_singleton.mpr ⟨by omega, hhead⟩
                  · exact List.forall_mem_nil _
                · split_ifs
                  · exact List.forall_mem_nil _
                  · exact ih hlaid.2 hwritten htail
      · exact List.forall_mem_nil _

theorem Consistent.readSums {store : Store} {front : List Part} {last : Part} (h : Consistent store front last)
    (hfits : NextFits store) (offset : Int) (maxBytes : Nat) :
    ∀ sum ∈ store.readSums offset maxBytes, IsInt64 sum := by
  unfold Store.readSums
  split_ifs
  · exact List.forall_mem_nil _
  · exact List.forall_mem_nil _
  · exact List.forall_mem_nil _
  cases hfind : findSegmentIndex store.log offset with
  | error status => exact List.forall_mem_nil _
  | ok i =>
      dsimp only
      split
      · rename_i segment index hsegment hindex
        obtain ⟨part, hpart, skipped, rest, rfl, hsplit, hstart, hlaid, hwritten⟩ := h.scanned hsegment hindex offset
        have hends : ∀ batch ∈ rest, batch.endOffset ≤ store.log.nextOffset := fun batch hbatch =>
          ((h.parts part hpart).bounds batch (hsplit ▸ List.mem_append_right _ hbatch)).2
        rw [hstart]
        intro sum hsum
        obtain ⟨hnonneg, hle⟩ := scanSums_fit hlaid hwritten hends sum hsum
        exact isInt64_of_bounds hnonneg (hle.trans hfits.2)
      · exact List.forall_mem_nil _

/-! ### Runs -/

theorem LogReaches.steps {store store' : Store} (h : LogReaches store) (hfits : NextFits store)
    (hsteps : Relation.ReflTransGen LogStep store store') : LogReaches store' ∧ NextFits store' := by
  induction hsteps with
  | refl => exact ⟨h, hfits⟩
  | tail _ hstep ih => exact ⟨ih.1.step hstep, ih.2.step hstep⟩

/-- Nothing computed on offsets while a directory is opened, or by any later `Append` and `Read`, is out of the range
of `std::int64_t`, and the next offset is never negative. -/
structure NoOverflow (options : CommitLogOptions) (disk : Disk) : Prop where
  names : ∀ name, ∀ sum ∈ parseSums name 0, IsInt64 sum
  opening : ∀ sum ∈ openSums options disk, IsInt64 sum
  next : ∀ log disk', openLog options disk = (.ok log, disk') →
    ∀ store, Relation.ReflTransGen LogStep ⟨log, disk'⟩ store → 0 ≤ store.log.nextOffset
  appending : ∀ log disk', openLog options disk = (.ok log, disk') →
    ∀ store, Relation.ReflTransGen LogStep ⟨log, disk'⟩ store →
      ∀ records faults, ∀ sum ∈ store.appendSums records faults, IsInt64 sum
  reading : ∀ log disk', openLog options disk = (.ok log, disk') →
    ∀ store, Relation.ReflTransGen LogStep ⟨log, disk'⟩ store →
      ∀ offset maxBytes, ∀ sum ∈ store.readSums offset maxBytes, IsInt64 sum

/-- **No overflow.** A directory is opened, appended to and read without overflow exactly when the batches that
`Open` reads and indexes end within the range of an offset. -/
theorem noOverflow_iff {options : CommitLogOptions} {disk : Disk}
    (hnames : ∀ file ∈ disk.logs.entries, ∃ name, parseBaseOffset name = some file.1) :
    NoOverflow options disk ↔ EndsFit options disk := by
  constructor
  · exact fun h => (openSums_fit_iff hnames).mp h.opening
  · intro hfit
    have hreached : ∀ log disk', openLog options disk = (.ok log, disk') →
        ∀ store, Relation.ReflTransGen LogStep ⟨log, disk'⟩ store → LogReaches store ∧ NextFits store := by
      intro log disk' hopen store hsteps
      exact (LogReaches.opened hopen).steps (nextFits_of_openLog hnames hfit hopen) hsteps
    refine ⟨parseSums_fit, (openSums_fit_iff hnames).mpr hfit, ?_, ?_, ?_⟩
    · intro log disk' hopen store hsteps
      exact (hreached log disk' hopen store hsteps).2.1
    · intro log disk' hopen store hsteps records faults
      exact (hreached log disk' hopen store hsteps).2.appendSums records faults
    · intro log disk' hopen store hsteps offset maxBytes
      obtain ⟨hreaches, hfits⟩ := hreached log disk' hopen store hsteps
      obtain ⟨front, last, hconsistent⟩ := hreaches.consistent
      exact hconsistent.readSums hfits offset maxBytes

/-- A directory with one segment file, which holds one batch of one record at the given base offset. -/
def singletonDisk (base : Nat) : Disk := Disk.writeLog {} 0 (singletonBatch base)

theorem noOverflow_iff_singleton :
    NoOverflow { dataDir := "log" } (singletonDisk 42) ↔ EndsFit { dataDir := "log" } (singletonDisk 42) :=
  noOverflow_iff (List.forall_mem_singleton.mpr ⟨[48], rfl⟩)

/-- A record at the largest offset makes `RecoverSegment` compute its end, which is no offset. -/
theorem openSums_singleton_max :
    openSums { dataDir := "log" } (singletonDisk (2 ^ 63 - 1)) = [2 ^ 63] ∧ ¬IsInt64 (2 ^ 63) ∧
      ¬NoOverflow { dataDir := "log" } (singletonDisk (2 ^ 63 - 1)) := by
  have hsums : openSums { dataDir := "log" } (singletonDisk (2 ^ 63 - 1)) = [2 ^ 63] := by decide +kernel
  refine ⟨hsums, by decide, fun h => ?_⟩
  have hfit := h.opening (2 ^ 63) (by rw [hsums]; exact List.mem_singleton_self _)
  exact absurd hfit (by decide)

end LogMq
