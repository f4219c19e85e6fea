import LogMq.StorageRuns

/-! Cutting the last segment file of a log at an arbitrary byte. Whatever the cut leaves of a batch is
torn, so both modes of recovery return to the last batch that is complete. -/

namespace LogMq

open SparseIndex

theorem Torn.stops {data : Bytes} (h : Torn data) : Stops data 0 := by
  intro batch hread
  obtain ⟨message, hmessage⟩ := @readBatch_of_torn data 0 h
  cases hmessage.symm.trans hread

/-- A proper front part of an encoded batch is torn. -/
theorem torn_take {batch : RecordBatch} (hvalid : batch.Valid) {size : Nat} (hsize : size < batch.batchBytes) :
    Torn (batch.bytes.take size) := by
  have hlength : (batch.bytes.take size).length = size := by
    rw [List.length_take, hvalid.length_bytes, Nat.min_eq_left hsize.le]
  by_cases hshort : size < recordBatchHeaderBytes
  · exact Or.inl (hlength.trans_lt hshort)
  · have hle := Nat.not_lt.mp hshort
    refine Or.inr ⟨batch.batchBytes, ?_, hlength.trans_lt hsize⟩
    have hpeek := hvalid.peekRecordBatchBytes []
    rw [List.append_nil] at hpeek
    rw [← peekRecordBatchBytes_take (hle.trans_eq hlength.symm), List.take_take, Nat.min_eq_left hle,
      peekRecordBatchBytes_take (hvalid.header_le.trans_eq hvalid.length_bytes.symm)]
    exact hpeek

/-- The batches that lie wholly inside the first `size` bytes, and the others. -/
theorem exists_cut (batches : List RecordBatch) (size : Nat) :
    ∃ kept lost, batches = kept ++ lost ∧ totalBytes kept ≤ size ∧
      ∀ batch rest, lost = batch :: rest → size < totalBytes kept + batch.batchBytes := by
  induction batches generalizing size with
  | nil => exact ⟨[], [], rfl, Nat.zero_le _, fun _ _ h => (nomatch h)⟩
  | cons head tail ih =>
      by_cases hfit : head.batchBytes ≤ size
      · obtain ⟨kept, lost, rfl, hkept, hlost⟩ := ih (size - head.batchBytes)
        refine ⟨head :: kept, lost, rfl, by rw [totalBytes]; omega, fun batch rest hcons => ?_⟩
        have hlt := hlost batch rest hcons
        rw [totalBytes]
        omega
      · refine ⟨[], head :: tail, rfl, Nat.zero_le _, fun batch rest hcons => ?_⟩
        cases hcons
        rw [totalBytes]
        omega

theorem Chain.stop_eq {start stop : Int} {batches : List RecordBatch} (h : Chain start batches stop) :
    stop = (batches.getLast?.map RecordBatch.endOffset).getD start := by
  rcases List.eq_nil_or_concat batches with rfl | ⟨front, last, rfl⟩
  · exact h.symm
  · rw [List.concat_eq_append] at h ⊢
    obtain ⟨mid, -, -, -, hlast⟩ := chain_append.mp h
    rw [List.getLast?_concat]
    exact hlast.symm

/-- What the cut leaves of the first lost batch. -/
def remnant (lost : List RecordBatch) (size : Nat) : Bytes := (lost.flatMap RecordBatch.bytes).take size

theorem remnant_torn {lost : List RecordBatch} {size : Nat} (hvalid : ∀ batch ∈ lost, batch.Valid)
    (hsize : ∀ batch rest, lost = batch :: rest → size < batch.batchBytes) : Torn (remnant lost size) := by
  cases lost with
  | nil =>
      rw [remnant, List.flatMap_nil, List.take_nil]
      exact Or.inl (by decide)
  | cons batch rest =>
      have hbatch := hvalid batch List.mem_cons_self
      have hlt := hsize batch rest rfl
      rw [remnant, List.flatMap_cons, List.take_append_of_le_length (by rw [hbatch.length_bytes]; exact hlt.le)]
      exact torn_take hbatch hlt

theorem Layout.clean_idem (layout : Layout) : layout.clean.clean = layout.clean := by
  rw [clean, clean, List.map_map]
  rfl

/-- A layout that needs no recovery is opened without changing a segment file. -/
theorem openLog_clean {options : CommitLogOptions} {disk : Disk} {layout : Layout} {next : Int}
    (hdir : options.dataDir ≠ "") (hsize : recordBatchHeaderBytes ≤ options.segmentBytes)
    (hholds : layout.Holds next) (hnext : next ≤ maxOffset)
    (hentries : disk.logs.entries = layout.clean.chunks.map Chunk.file) :
    ∃ log disk', openLog options disk = (.ok log, disk') ∧ log.nextOffset = next ∧ disk'.logs = disk.logs := by
  obtain ⟨log, disk', hopen, hlog, -, hexact⟩ := openLog_layout hdir hsize hholds.clean hnext hentries
    (layout.clean_clean.recoverable options)
  refine ⟨log, disk', hopen, hlog, SortedMap.entries_injective ?_⟩
  rw [hentries, ← layout.clean_idem]
  exact hexact

/-- The layout of a log whose last file was cut. -/
def Layout.cut (layout : Layout) (kept lost : List RecordBatch) (size : Nat) : Layout :=
  ⟨layout.sealed, ⟨layout.active.base, kept, remnant lost (size - totalBytes kept)⟩⟩

theorem cut_content {kept lost : List RecordBatch} (hvalid : ∀ batch ∈ kept, batch.Valid) {size : Nat}
    (hsize : totalBytes kept ≤ size) :
    kept.flatMap RecordBatch.bytes ++ remnant lost (size - totalBytes kept) =
      ((kept ++ lost).flatMap RecordBatch.bytes).take size := by
  have hlength := length_flatMap_bytes hvalid
  rw [List.flatMap_append, List.take_append, List.take_of_length_le (hlength.trans_le hsize), hlength, remnant]

theorem Layout.Clean.map_sealed {layout : Layout} (h : layout.Clean) :
    layout.sealed.map Chunk.clean = layout.sealed := by
  refine (List.map_congr_left fun chunk hmem => ?_).trans (List.map_id _)
  have hstale := h chunk (Layout.mem_chunks.mpr (Or.inl hmem))
  rw [Chunk.clean, ← hstale]
  rfl

theorem Layout.mem_batches_of_cut {layout : Layout} {kept lost : List RecordBatch} {size : Nat}
    (hsplit : layout.active.batches = kept ++ lost) {batch : RecordBatch}
    (h : batch ∈ (layout.cut kept lost size).batches) : batch ∈ layout.batches := by
  obtain ⟨chunk, hchunk, hbatch⟩ := List.mem_flatMap.mp h
  rcases Layout.mem_chunks.mp hchunk with hchunk | rfl
  · exact List.mem_flatMap.mpr ⟨chunk, Layout.mem_chunks.mpr (Or.inl hchunk), hbatch⟩
  · exact List.mem_flatMap.mpr ⟨layout.active, layout.active_mem, hsplit ▸ List.mem_append_left _ hbatch⟩

/-- A cut leaves a recoverable layout. -/
theorem Layout.Clean.cut_recoverable {layout : Layout} (h : layout.Clean) {kept lost : List RecordBatch} {size : Nat}
    (hvalid : ∀ batch ∈ lost, batch.Valid) (hkept : totalBytes kept ≤ size)
    (hlost : ∀ batch rest, lost = batch :: rest → size < totalBytes kept + batch.batchBytes)
    (options : CommitLogOptions) : (layout.cut kept lost size).Recoverable options := by
  have htorn : Torn (remnant lost (size - totalBytes kept)) := by
    refine remnant_torn hvalid fun batch rest hcons => ?_
    have hlt := hlost batch rest hcons
    omega
  have hsealed : ∀ chunk ∈ layout.sealed, chunk.stale = [] := fun chunk hmem =>
    h chunk (Layout.mem_chunks.mpr (Or.inl hmem))
  refine ⟨fun chunk hmem => ?_, fun _ => hsealed, fun _ => htorn⟩
  rcases Layout.mem_chunks.mp hmem with hmem | rfl
  · rw [hsealed chunk hmem]
    exact stops_nil
  · exact htorn.stops

/-- A size splits the batches of the last segment file: those that lie inside it, and the others. -/
theorem Rep.exists_cut {options : CommitLogOptions} {store : Store} {layout : Layout} (h : Rep options store layout)
    (hclean : layout.Clean) (size : Nat) :
    ∃ kept lost mid, layout.active.batches = kept ++ lost ∧ totalBytes kept ≤ size ∧
      (∀ batch rest, lost = batch :: rest → size < totalBytes kept + batch.batchBytes) ∧
      store.disk.content layout.active.base = (kept ++ lost).flatMap RecordBatch.bytes ∧
      Chain layout.active.base kept mid ∧ Chain mid lost store.log.nextOffset := by
  obtain ⟨kept, lost, hsplit, hkept, hlost⟩ := LogMq.exists_cut layout.active.batches size
  have hchain := h.holds.active
  rw [hsplit] at hchain
  obtain ⟨mid, hkeptChain, hlostChain⟩ := chain_append.mp hchain
  refine ⟨kept, lost, mid, hsplit, hkept, hlost, ?_, hkeptChain, hlostChain⟩
  rw [Disk.content, h.files _ layout.active_mem, Option.getD_some, Chunk.content, hclean _ layout.active_mem,
    List.append_nil, Chunk.bytes, hsplit]

/-- **Torn tails.** After a cut anywhere in the last segment file, recovery in either mode returns to the
last complete batch, and opening once more changes nothing. -/
theorem cut_recovers {options : CommitLogOptions} {store : Store} {acked : List Appended}
    (h : Reaches options store acked) {active : Segment} (hactive : store.log.segments.getLast? = some active)
    {size : Nat} {disk : Disk}
    (hcut : disk.logs = store.disk.logs.insert active.baseOffset
      ((store.disk.content active.baseOffset).take size)) (strict : Bool) :
    ∃ log disk' kept lost, openLog { options with strictRecovery := strict } disk = (.ok log, disk') ∧
      Chain active.baseOffset (kept ++ lost) store.log.nextOffset ∧
      store.disk.content active.baseOffset = (kept ++ lost).flatMap RecordBatch.bytes ∧
      (kept.flatMap RecordBatch.bytes).length ≤ size ∧
      (∀ batch rest, lost = batch :: rest → size < ((kept ++ [batch]).flatMap RecordBatch.bytes).length) ∧
      log.nextOffset = (kept.getLast?.map RecordBatch.endOffset).getD active.baseOffset ∧
      disk'.logs = store.disk.logs.insert active.baseOffset (kept.flatMap RecordBatch.bytes) ∧
      (∀ offset, 0 ≤ offset → offset < log.nextOffset → ∃ batch, ∀ maxBytes,
        max batch.batchBytes options.indexIntervalBytes ≤ maxBytes →
          store.read offset maxBytes = .ok batch ∧ Store.read ⟨log, disk'⟩ offset maxBytes = .ok batch) ∧
      ∀ (strict' : Bool) (disk₂ : Disk), disk₂.logs = disk'.logs → ∃ log' disk₃,
        openLog { options with strictRecovery := strict' } disk₂ = (.ok log', disk₃) ∧
          disk₃.logs = disk₂.logs ∧ log'.nextOffset = log.nextOffset := by
  obtain ⟨hdir, hbytes, layout, ⟨hrep, hexact, -⟩, hclean⟩ := h.tracks
  cases hrep.getLast_segments.symm.trans hactive
  obtain ⟨kept, lost, mid, hsplit, hkept, hlost, hcontent, hkeptChain, hlostChain⟩ := hrep.exists_cut hclean size
  have hchain : Chain layout.active.base (kept ++ lost) store.log.nextOffset :=
    chain_append.mpr ⟨mid, hkeptChain, hlostChain⟩
  have hvalid := hchain.valid
  have hholds : (layout.cut kept lost size).Holds mid := ⟨hrep.holds.sealed, hkeptChain⟩
  have hentries : Exact ⟨store.log, disk⟩ (layout.cut kept lost size) := by
    refine Rep.exact_writeActive hexact ?_ hcut
    change (layout.active.base, kept.flatMap RecordBatch.bytes ++ _) = _
    rw [cut_content hkeptChain.valid hkept, ← hcontent]
    rfl
  have hmid : mid ≤ maxOffset := hlostChain.le.trans hrep.next_le
  obtain ⟨log, disk', hopen, hnext, hrep', hexact'⟩ := @openLog_layout
    { options with strictRecovery := strict } _ _ _ hdir hbytes hholds hmid hentries
    (hclean.cut_recoverable hlostChain.valid hkept hlost _)
  refine ⟨log, disk', kept, lost, hopen, hchain, hcontent, ?_, fun batch rest hcons => ?_,
    hnext.trans hkeptChain.stop_eq, SortedMap.entries_injective ?_, fun offset hzero hoffset => ?_,
    fun strict' disk₂ hlogs => ?_⟩
  · rw [length_flatMap_bytes hkeptChain.valid]
    exact hkept
  · have hmem : batch ∈ lost := hcons ▸ List.mem_cons_self
    rw [length_flatMap_bytes fun b hb => hvalid b ?_, totalBytes_append]
    · exact hlost batch rest hcons
    · rcases List.mem_append.mp hb with hb | hb
      · exact List.mem_append_left _ hb
      · exact List.mem_append_right _ (List.mem_singleton.mp hb ▸ hmem)
  · rw [hexact', Layout.clean, Layout.cut, hclean.map_sealed]
    refine (@Rep.exact_writeActive _ _ _ _ ⟨store.log, _⟩ hexact ?_ rfl).symm
    exact congrArg (Prod.mk layout.active.base) (List.append_nil _)
  · obtain ⟨batch, hbatch, hle, hlt⟩ := hrep'.exists_batch hzero hoffset
    have hold : batch ∈ layout.batches := Layout.mem_batches_of_cut hsplit (Layout.batches_clean _ ▸ hbatch)
    refine ⟨batch, fun maxBytes hmax => ?_⟩
    have hinterval : options.normalized.indexIntervalBytes ≤ maxBytes := by
      have hpos := (hrep.holds.chain.valid batch hold).size_pos
      exact CommitLogOptions.normalized_interval_le (hpos.trans_le (le_of_max_le_left hmax))
        (le_of_max_le_right hmax)
    refine ⟨hrep.read_batch hold hle hlt (le_of_max_le_left hmax) hinterval,
      hrep'.read_batch hbatch hle hlt (le_of_max_le_left hmax) ?_⟩
    rw [options.normalized_strict_interval strict]
    exact hinterval
  · obtain ⟨log', disk₃, hopen', hnext', hlogs'⟩ := @openLog_clean
      { options with strictRecovery := strict' } _ _ _ hdir hbytes hholds hmid (by rw [hlogs]; exact hexact')
    exact ⟨log', disk₃, hopen', hlogs', hnext'.trans hnext.symm⟩

/-- A file of two batches of 53 bytes each, cut in the header of the second one. -/
theorem cut_recovers_header :
    ∃ store acked active log disk, Reaches { dataDir := "log" } store acked ∧ acked.length = 2 ∧
      store.log.segments.getLast? = some active ∧
      openLog { dataDir := "log", strictRecovery := true }
        { logs := store.disk.logs.insert active.baseOffset ((store.disk.content active.baseOffset).take 60) } =
          (.ok log, disk) := by
  have hrun : (runCalls { dataDir := "log" } [.append [⟨7, [], [1], 0⟩], .append [⟨8, [2], [], 0⟩]]).any
      (fun state => decide (state.2.length = 2 ∧ state.1.log.segments.getLast? = some ⟨0, 106, false⟩)) = true := by
    decide +kernel
  obtain ⟨⟨store, acked⟩, hstate, hcheck⟩ := Option.any_eq_true _ _ |>.mp hrun
  obtain ⟨hacked, hactive⟩ := of_decide_eq_true hcheck
  have hreaches := reaches_of_runCalls hstate
  obtain ⟨log, disk, -, -, hopen, -⟩ := @cut_recovers _ _ _ hreaches _ hactive 60
    { logs := store.disk.logs.insert 0 ((store.disk.content 0).take 60) } rfl true
  exact ⟨store, acked, _, log, disk, hreaches, hacked, hactive, hopen⟩

end LogMq
