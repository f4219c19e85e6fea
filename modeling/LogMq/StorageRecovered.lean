import LogMq.StorageState

/-! Reads on the log that recovery made of arbitrary files. A read scans batches that recovery found and
returns the first that contains its offset; it never returns anything else. -/

namespace LogMq

open SparseIndex

theorem OffsetIndex.mem_of_findFloor {index : OffsetIndex} {offset : Int} {entry : IndexEntry}
    (h : index.findFloor offset = .ok entry) : entry ∈ index.entries := by
  unfold findFloor at h
  split at h
  · cases h
  · split_ifs at h
    split at h
    · rename_i last hlast
      cases h
      exact List.mem_of_mem_take (List.mem_of_getLast? hlast)
    · cases h

theorem OffsetIndex.findFloor_error {index : OffsetIndex} {offset : Int} {status : Status}
    (h : index.findFloor offset = .error status) : status.code = .notFound := by
  unfold findFloor at h
  split at h
  · cases h
    rfl
  · split_ifs at h
    · cases h
      rfl
    · split at h
      · cases h
      · cases h
        rfl

/-- A scan starts at a batch boundary of the segment. -/
theorem Scan.exists_start (scan : Scan) (interval : Nat) (offset : Int) :
    ∃ skipped rest, scan.batches = skipped ++ rest ∧
      scanStart (scan.index interval) offset = .ok (totalBytes skipped) := by
  rw [scanStart]
  cases hfloor : (scan.index interval).findFloor offset with
  | error status =>
      refine ⟨[], scan.batches, rfl, ?_⟩
      exact if_neg (not_not.mpr (OffsetIndex.findFloor_error hfloor))
  | ok entry =>
      have hentry := (build_sublist _).subset (OffsetIndex.mem_of_findFloor hfloor)
      obtain ⟨before, batch, after, hsplit, rfl⟩ := mem_placed hentry
      exact ⟨before, batch :: after, hsplit, congrArg Except.ok (Nat.zero_add _)⟩

/-- Batches that were read declare their size in 64 bits. -/
theorem LaidOut.size_le {content : Bytes} {position : Nat} {batches : List RecordBatch}
    (h : LaidOut content position batches) : ∀ batch ∈ batches, batch.batchBytes ≤ maxSize := by
  induction batches generalizing position with
  | nil => exact fun _ hmem => absurd hmem List.not_mem_nil
  | cons head rest ih =>
      intro batch hmem
      rcases List.mem_cons.mp hmem with rfl | hmem
      · have hlt := LittleEndian.leField_lt (content.drop position) (4 + 8 + 8) 8
        rw [h.1.size] at hlt
        unfold maxSize
        omega
      · exact ih h.2 batch hmem

/-- Without a byte budget a scan returns the first batch that contains the offset. -/
theorem scanSegment_eq_find {segment : Segment} (hopen : segment.closed = false) {content : Bytes} {offset : Int}
    {fuel position : Nat} {batches : List RecordBatch} (hlaid : LaidOut content position batches)
    (hwritten : position + totalBytes batches = segment.writePosition)
    (hfuel : segment.writePosition - position < fuel) :
    scanSegment segment content offset maxSize fuel position =
      match batches.find? (batchContainsOffset · offset) with
      | some batch => .ok batch
      | none => .error (.notFound "commit log offset was not found in segment") := by
  have hsize := hlaid.size_le
  cases hfind : batches.find? (batchContainsOffset · offset) with
  | none =>
      refine scanSegment_missing hopen hlaid (fun b hb => ⟨?_, hsize b hb⟩) hwritten hfuel
      exact Bool.not_eq_true _ ▸ List.find?_eq_none.mp hfind b hb
  | some batch =>
      obtain ⟨hcontains, skipped, rest, rfl, hskipped⟩ := List.find?_eq_some_iff_append.mp hfind
      refine scanSegment_found hopen hlaid (fun b hb => ⟨?_, hsize b (List.mem_append_left _ hb)⟩) hcontains
        (hsize batch (List.mem_append_right _ List.mem_cons_self)) ?_ hfuel
      · exact Bool.not_eq_true' _ ▸ hskipped b hb
      · rw [← hwritten, totalBytes_append, totalBytes_append, totalBytes, totalBytes, totalBytes]
        omega

/-- With any byte budget a scan returns one of the batches in front of it. -/
theorem scanSegment_mem {segment : Segment} (hopen : segment.closed = false) {content : Bytes} {offset : Int}
    {maxBytes fuel position : Nat} {batches : List RecordBatch} {batch : RecordBatch}
    (hlaid : LaidOut content position batches)
    (hwritten : position + totalBytes batches = segment.writePosition)
    (h : scanSegment segment content offset maxBytes fuel position = .ok batch) :
    batch ∈ batches ∧ batchContainsOffset batch offset = true := by
  induction fuel generalizing position batches with
  | zero => cases h
  | succ fuel ih =>
      rw [scanSegment] at h
      split_ifs at h with hlt
      obtain ⟨found, hread, h⟩ := Result.bind_eq_ok.mp h
      rw [Segment.read_of_open hopen] at hread
      obtain ⟨-, hdecodes⟩ := readBatch_eq_ok.mp hread
      cases batches with
      | nil =>
          rw [totalBytes] at hwritten
          omega
      | cons head rest =>
          cases hdecodes.unique hlaid.1
          rw [totalBytes, ← Nat.add_assoc] at hwritten
          split_ifs at h with hcontains
          · cases h
            exact ⟨List.mem_cons_self, hcontains⟩
          · obtain ⟨hmem, hbatch⟩ := ih hlaid.2 hwritten h
            exact ⟨List.mem_cons_of_mem _ hmem, hbatch⟩

/-- Before the first segment there is nothing to read. -/
theorem findSegmentIndex_of_past {log : CommitLog} {offset : Int}
    (h : ∀ segment ∈ log.segments, offset < segment.baseOffset) :
    ∃ message, findSegmentIndex log offset = .error (.notFound message) := by
  have hupper : upperBound (fun segment : Segment => offset < segment.baseOffset) log.segments = 0 :=
    @upperBound_append _ _ [] _ (fun _ hmem => absurd hmem List.not_mem_nil) fun segment hmem =>
      decide_eq_true (h segment hmem)
  unfold findSegmentIndex
  dsimp only
  rw [hupper, if_pos rfl]
  split_ifs
  · exact ⟨_, rfl⟩
  · exact ⟨_, rfl⟩

/-! ### Recovered logs -/

section Recovered

variable {options : CommitLogOptions} {scans : List Scan} {disk : Disk}
variable (hkept : disk.logs.entries = scans.map Scan.keptFile)

include hkept

theorem content_of_kept {scan : Scan} (hmem : scan ∈ scans) : disk.content scan.base = scan.kept := by
  have hfind : disk.logs.find? scan.base = some scan.kept := by
    rw [← SortedMap.mem_entries, hkept]
    exact List.mem_map_of_mem (f := Scan.keptFile) hmem
  rw [Disk.content, hfind]
  rfl

/-- The read of an offset below the next one, in terms of the segment it belongs to. -/
theorem read_recovered {front back : List Scan} {scan : Scan} (hscans : scans = front ++ scan :: back)
    {offset : Int} (hzero : 0 ≤ offset) (hnext : offset < maxNext 0 scans)
    (hfront : ∀ other ∈ front ++ [scan], other.base ≤ offset) (hback : ∀ other ∈ back, offset < other.base) :
    ∃ skipped rest, scan.batches = skipped ++ rest ∧
      scanStart (scan.index options.normalized.indexIntervalBytes) offset = .ok (totalBytes skipped) ∧
      ∀ maxBytes, Store.read ⟨recoveredLog options scans, disk⟩ offset maxBytes =
        scanSegment scan.segment scan.kept offset maxBytes (totalBytes scan.batches + 1) (totalBytes skipped) := by
  obtain ⟨skipped, rest, hsplit, hstart⟩ := scan.exists_start options.normalized.indexIntervalBytes offset
  refine ⟨skipped, rest, hsplit, hstart, fun maxBytes => ?_⟩
  have hmem : scan ∈ scans := hscans ▸ List.mem_append_right _ List.mem_cons_self
  have hsegments : (recoveredLog options scans).segments =
      front.map Scan.segment ++ scan.segment :: back.map Scan.segment := by
    rw [recoveredLog, hscans, List.map_append, List.map_cons]
  have hindex : (recoveredLog options scans).indexes[(front.map Scan.segment).length]? =
      some (scan.index options.normalized.indexIntervalBytes) := by
    change (scans.map (Scan.index options.normalized.indexIntervalBytes))[_]? = _
    rw [hscans, List.map_append, List.map_cons, List.length_map,
      List.getElem?_append_right (by rw [List.length_map]), List.length_map, Nat.sub_self, List.getElem?_cons_zero]
  have hbefore : ∀ other ∈ front.map Scan.segment ++ [scan.segment], other.baseOffset ≤ offset := by
    intro other hother
    rw [← List.map_singleton, ← List.map_append] at hother
    obtain ⟨s, hs, rfl⟩ := List.mem_map.mp hother
    exact hfront s hs
  have hafter : ∀ other ∈ back.map Scan.segment, offset < other.baseOffset := by
    intro other hother
    obtain ⟨s, hs, rfl⟩ := List.mem_map.mp hother
    exact hback s hs
  rw [@Store.read_eq_scan ⟨recoveredLog options scans, disk⟩ _ _ _ _ _ rfl hzero hnext hsegments hbefore hafter
    hindex, hstart, ← content_of_kept hkept hmem]
  rfl

/-- Whatever a read returns was found by recovery and contains the offset. -/
theorem read_recovered_mem {offset : Int} {maxBytes : Nat} {batch : RecordBatch}
    (hsorted : scans.Pairwise fun left right => left.base < right.base)
    (h : Store.read ⟨recoveredLog options scans, disk⟩ offset maxBytes = .ok batch) :
    (∃ scan ∈ scans, batch ∈ scan.batches) ∧ batchContainsOffset batch offset = true := by
  have hrange : 0 ≤ offset ∧ offset < maxNext 0 scans := by
    unfold Store.read at h
    split_ifs at h with hclosed hneg hpast
    exact ⟨not_lt.mp hneg, not_le.mp hpast⟩
  obtain ⟨front, back, hsplit, hfront, hback⟩ := exists_split hsorted offset
  rcases List.eq_nil_or_concat front with rfl | ⟨front, scan, rfl⟩
  · have hpast : ∀ segment ∈ (recoveredLog options scans).segments, offset < segment.baseOffset := by
      intro segment hsegment
      obtain ⟨scan, hscan, rfl⟩ := List.mem_map.mp hsegment
      rw [hsplit] at hscan
      exact hback scan hscan
    obtain ⟨message, hmessage⟩ := findSegmentIndex_of_past hpast
    unfold Store.read at h
    dsimp only at h
    rw [hmessage] at h
    split_ifs at h
    cases h
  · rw [List.concat_eq_append] at hsplit hfront
    rw [List.append_assoc, List.singleton_append] at hsplit
    obtain ⟨skipped, rest, hbatches, -, hread⟩ := @read_recovered options _ _ hkept _ _ _ hsplit _ hrange.1
      hrange.2 hfront hback
    rw [hread] at h
    have hlaid := scan.laid_kept
    rw [hbatches, laidOut_append, Nat.zero_add] at hlaid
    have hwritten : totalBytes skipped + totalBytes rest = scan.segment.writePosition := by
      rw [← totalBytes_append, ← hbatches]
      rfl
    obtain ⟨hmem, hcontains⟩ := scanSegment_mem rfl hlaid.2 hwritten h
    refine ⟨⟨scan, hsplit ▸ List.mem_append_right _ List.mem_cons_self, ?_⟩, hcontains⟩
    exact hbatches ▸ List.mem_append_right _ hmem

end Recovered

end LogMq
