import LogMq.StorageInvariant
import LogMq.StorageCut

/-! Writes that fail. `Segment::Append` leaves the bytes of a failed write in the file behind
`write_position`, and a shorter batch written later covers only some of them. Recovery reads on from
there, so whether it returns to the acknowledged batches is decided by what those bytes happen to be. -/

namespace LogMq

open SparseIndex

/-- A failed write stopped before the end of the batch. -/
def stoppedEarly : Option (Nat × Status) → Result Bytes → Bool
  | some (accepted, _), .ok encoded => decide (accepted < encoded.length)
  | _, _ => true

/-- Only writes of a batch fail, each after a proper part of the batch has reached the file. -/
def tornWrites (store : Store) (records : List Record) (faults : IoFaults) : Prop :=
  faults.openSegment = none ∧ faults.rewriteIndex = none ∧
    stoppedEarly faults.writeBatch
      (makeRecordBatch store.log.nextOffset records >>= encodeRecordBatch) = true

instance (store : Store) : DecidableRel (tornWrites store) := fun _ _ => inferInstanceAs (Decidable (_ ∧ _ ∧ _))

/-- The bytes of a segment file behind `write_position`. -/
def Store.staleBytes (store : Store) (segment : Segment) : Bytes :=
  (store.disk.content segment.baseOffset).drop segment.writePosition

/-- The log that `Open` returns holds the acknowledged batches and no others. -/
def RecoversExactly (options : CommitLogOptions) (disk : Disk) (next : Int) (acked : List Appended) : Prop :=
  ∃ log disk', openLog options disk = (.ok log, disk') ∧ log.nextOffset = next ∧
    (∀ appended ∈ acked, ∃ batch, appended.Wrote batch ∧ ∀ offset, appended.Holds offset → ∀ maxBytes,
      max batch.batchBytes options.indexIntervalBytes ≤ maxBytes →
        Store.read ⟨log, disk'⟩ offset maxBytes = .ok batch) ∧
    ∃ written, List.Forall₂ Appended.Wrote acked written ∧
      disk'.logs.entries.flatMap Prod.snd = written.flatMap RecordBatch.bytes

/-- The bytes behind the batches are such that recovery cuts them off: they do not start with a complete
batch, and in strict mode they are torn and only in the active segment. -/
structure HarmlessTails (strict : Bool) (store : Store) : Prop where
  incomplete : ∀ segment ∈ store.log.segments, ∀ batch, decodeRecordBatch (store.staleBytes segment) ≠ .ok batch
  sealed : strict = true → ∀ segment ∈ store.log.segments.dropLast, store.staleBytes segment = []
  active : strict = true → ∀ segment, store.log.segments.getLast? = some segment → Torn (store.staleBytes segment)

theorem FaultyReaches.tracks {options : CommitLogOptions} {store : Store} {acked : List Appended}
    (h : FaultyReaches options tornWrites store acked) :
    options.dataDir ≠ "" ∧ recordBatchHeaderBytes ≤ options.segmentBytes ∧
      ∃ layout, Tracks options store layout acked := by
  induction h with
  | opened hopen =>
      obtain ⟨hdir, hsize⟩ := openLog_ok_options hopen
      obtain ⟨log, disk, hopen', hrep, hexact⟩ := openLog_empty hdir hsize .empty
      cases hopen.symm.trans hopen'
      exact ⟨hdir, hsize, Layout.initial, hrep, hexact, .nil⟩
  | append hreaches hallowed ih =>
      obtain ⟨hdir, hsize, layout, htracks⟩ := ih
      obtain ⟨layout', htracks', -⟩ := htracks.append _ hallowed.1
      exact ⟨hdir, hsize, layout', htracks'⟩

/-! ### The tails of a represented log -/

theorem stops_zero_iff {data : Bytes} : Stops data 0 ↔ ∀ batch, decodeRecordBatch data ≠ .ok batch := by
  rw [stops_iff, List.drop_zero]
  exact forall_congr' fun batch => not_congr decodeRecordBatch_eq_ok.symm

theorem Rep.staleBytes_eq {options : CommitLogOptions} {store : Store} {layout : Layout}
    (h : Rep options store layout) {chunk : Chunk} (hmem : chunk ∈ layout.chunks) :
    store.staleBytes chunk.segment = chunk.stale := by
  change (store.disk.content chunk.base).drop (totalBytes chunk.batches) = chunk.stale
  rw [Disk.content, h.files chunk hmem, Option.getD_some, Chunk.content_drop (h.holds.valid hmem)]

theorem Rep.harmlessTails_iff {options : CommitLogOptions} {store : Store} {layout : Layout}
    (h : Rep options store layout) (reopened : CommitLogOptions) :
    HarmlessTails reopened.strictRecovery store ↔ layout.Recoverable reopened := by
  have hsealed : ∀ chunk ∈ layout.sealed, chunk ∈ layout.chunks := fun chunk hmem =>
    Layout.mem_chunks.mpr (Or.inl hmem)
  have hdrop : store.log.segments.dropLast = layout.sealed.map Chunk.segment := by
    rw [h.segments, Layout.chunks, List.map_append, List.map_singleton, List.dropLast_concat]
  constructor
  · intro hharmless
    refine ⟨fun chunk hmem => ?_, fun hstrict chunk hmem => ?_, fun hstrict => ?_⟩
    · rw [stops_zero_iff, ← h.staleBytes_eq hmem]
      exact hharmless.incomplete _ (h.segments ▸ List.mem_map_of_mem hmem)
    · rw [← h.staleBytes_eq (hsealed chunk hmem)]
      exact hharmless.sealed hstrict _ (hdrop ▸ List.mem_map_of_mem hmem)
    · rw [← h.staleBytes_eq layout.active_mem]
      exact hharmless.active hstrict _ h.getLast_segments
  · intro hrecover
    refine ⟨fun segment hsegment => ?_, fun hstrict segment hsegment => ?_, fun hstrict segment hsegment => ?_⟩
    · rw [h.segments] at hsegment
      obtain ⟨chunk, hmem, rfl⟩ := List.mem_map.mp hsegment
      rw [h.staleBytes_eq hmem, ← stops_zero_iff]
      exact hrecover.stops chunk hmem
    · rw [hdrop] at hsegment
      obtain ⟨chunk, hmem, rfl⟩ := List.mem_map.mp hsegment
      rw [h.staleBytes_eq (hsealed chunk hmem)]
      exact hrecover.sealed hstrict chunk hmem
    · cases h.getLast_segments.symm.trans hsegment
      rw [h.staleBytes_eq layout.active_mem]
      exact hrecover.active hstrict

/-! ### What recovery keeps -/

/-- Recovery keeps at least the batches of a segment, and exactly them only where nothing decodes
behind them. -/
theorem Scan.total_chunk {scan : Scan} {chunk : Chunk} (hfile : scan.file = chunk.file)
    (hvalid : ∀ batch ∈ chunk.batches, batch.Valid) :
    totalBytes chunk.batches ≤ totalBytes scan.batches ∧
      (totalBytes scan.batches ≤ totalBytes chunk.batches → scan.batches = chunk.batches) := by
  have hcontent : scan.content = chunk.content := congrArg Prod.snd hfile
  have hlaid : LaidOut scan.content 0 chunk.batches := by
    rw [hcontent]
    exact laidOut_bytes hvalid [] chunk.stale
  obtain ⟨extra, hextra⟩ := scan.prefix_of_laid hlaid
  have hscan := scan.laid
  rw [← hextra] at hscan ⊢
  rw [totalBytes_append]
  refine ⟨Nat.le_add_right _ _, fun hle => ?_⟩
  cases extra with
  | nil => exact List.append_nil _
  | cons batch rest =>
      have hheader := (laidOut_append.mp hscan).2.1.header_le
      have hpos : 0 < recordBatchHeaderBytes := by decide
      rw [totalBytes] at hle
      omega

theorem Scan.batches_eq_of_length {scans : List Scan} {chunks : List Chunk}
    (hfiles : scans.map Scan.file = chunks.map Chunk.file)
    (hvalid : ∀ chunk ∈ chunks, ∀ batch ∈ chunk.batches, batch.Valid) :
    (chunks.flatMap Chunk.bytes).length ≤ (scans.flatMap Scan.kept).length ∧
      ((scans.flatMap Scan.kept).length ≤ (chunks.flatMap Chunk.bytes).length →
        List.Forall₂ (fun scan chunk => scan.file = chunk.file ∧ scan.batches = chunk.batches) scans chunks) := by
  induction chunks generalizing scans with
  | nil =>
      cases List.map_eq_nil_iff.mp hfiles
      exact ⟨Nat.le_refl _, fun _ => .nil⟩
  | cons chunk rest ih =>
      cases scans with
      | nil => cases hfiles
      | cons scan tail =>
          obtain ⟨hfile, htail⟩ := List.cons.inj hfiles
          have hchunk := hvalid chunk List.mem_cons_self
          obtain ⟨hle, hcond⟩ := ih htail fun c hc => hvalid c (List.mem_cons_of_mem _ hc)
          obtain ⟨htotal, heq⟩ := Scan.total_chunk hfile hchunk
          rw [List.flatMap_cons, List.flatMap_cons, List.length_append, List.length_append, scan.length_kept,
            show chunk.bytes.length = totalBytes chunk.batches from length_flatMap_bytes hchunk]
          exact ⟨by omega, fun hlength => .cons ⟨hfile, heq (by omega)⟩ (hcond (by omega))⟩

theorem Layout.flatMap_bytes (layout : Layout) :
    layout.chunks.flatMap Chunk.bytes = layout.batches.flatMap RecordBatch.bytes := by
  rw [batches, List.flatMap_assoc]
  rfl

theorem Layout.clean_content (layout : Layout) :
    (layout.clean.chunks.map Chunk.file).flatMap Prod.snd = layout.batches.flatMap RecordBatch.bytes := by
  rw [chunks_clean, List.map_map, List.flatMap_map, ← flatMap_bytes]
  exact congrArg (List.flatMap · layout.chunks) (funext fun chunk => List.append_nil _)

theorem wrote_unique {acked : List Appended} {left right : List RecordBatch}
    (hl : List.Forall₂ Appended.Wrote acked left) (hr : List.Forall₂ Appended.Wrote acked right) : left = right :=
  List.right_unique_forall₂' (fun _ _ _ hb hc => Except.ok.inj (hb.symm.trans hc)) hl hr

/-- A scan that ends with the batches of a segment shows what follows them. -/
theorem Scan.stops_stale {scan : Scan} {chunk : Chunk} (hfile : scan.file = chunk.file)
    (hbatches : scan.batches = chunk.batches) (hvalid : ∀ batch ∈ chunk.batches, batch.Valid) :
    Stops chunk.stale 0 ∧ scan.content.drop (totalBytes scan.batches) = chunk.stale := by
  have hcontent : scan.content = chunk.content := congrArg Prod.snd hfile
  have hdrop : scan.content.drop (totalBytes scan.batches) = chunk.stale := by
    rw [hbatches, hcontent, Chunk.content_drop hvalid]
  have hstops := stops_iff.mp scan.stops
  rw [hdrop] at hstops
  exact ⟨stops_iff.mpr hstops, hdrop⟩

/-- A directory that is recovered exactly has harmless tails. -/
theorem Tracks.recoverable {options : CommitLogOptions} {store : Store} {layout : Layout} {acked : List Appended}
    (h : Tracks options store layout acked) {reopened : CommitLogOptions} (hdir : reopened.dataDir ≠ "")
    (hsize : recordBatchHeaderBytes ≤ reopened.segmentBytes) {disk : Disk} (hlogs : disk.logs = store.disk.logs)
    (hrecovers : RecoversExactly reopened disk store.log.nextOffset acked) : layout.Recoverable reopened := by
  obtain ⟨log, disk', hopen, -, -, written, hwritten, hbytes⟩ := hrecovers
  cases wrote_unique hwritten h.wrote
  have hholds := h.rep.holds
  have hvalid : ∀ chunk ∈ layout.chunks, ∀ batch ∈ chunk.batches, batch.Valid := fun _ hmem => hholds.valid hmem
  have hbase : ∀ file ∈ layout.sealed.map Chunk.file, 0 ≤ file.1 := by
    intro file hfile
    obtain ⟨chunk, hmem, rfl⟩ := List.mem_map.mp hfile
    exact (hholds.chunk_chain (Layout.mem_chunks.mpr (Or.inl hmem))).choose_spec.2.1
  obtain ⟨front, hfront⟩ := Scan.exists_of_files hbase
  obtain ⟨last, hlast⟩ := Scan.exists_of_file hholds.active_base_nonneg layout.active.content
  have hfiles : (front ++ [last]).map Scan.file = layout.chunks.map Chunk.file := by
    rw [List.map_append, hfront, List.map_singleton, hlast, Layout.chunks, List.map_append]
    rfl
  have hentries : disk.logs.entries = (front ++ [last]).map Scan.file := by
    rw [hlogs, hfiles]
    exact h.exact
  have hne : front ++ [last] ≠ [] := List.append_ne_nil_of_right_ne_nil _ (List.cons_ne_nil _ _)
  obtain ⟨haccepted, rfl, hkept⟩ := recovered_of_openLog hdir hsize hne hentries hopen
  have hsame : (front ++ [last]).flatMap Scan.kept = layout.chunks.flatMap Chunk.bytes := by
    rw [Layout.flatMap_bytes, ← hbytes, hkept, List.flatMap_map]
    rfl
  have hrelated := (Scan.batches_eq_of_length hfiles hvalid).2 (congrArg List.length hsame).le
  have hlength : front.length = layout.sealed.length := by
    simpa only [List.length_map] using congrArg List.length hfront
  have hfrontRelated := List.forall₂_take front.length hrelated
  rw [List.take_left, hlength, Layout.chunks, List.take_left] at hfrontRelated
  have hlastRelated := List.forall₂_drop front.length hrelated
  rw [List.drop_left, hlength, Layout.chunks, List.drop_left] at hlastRelated
  obtain ⟨⟨hlastFile, hlastBatches⟩, -⟩ := List.forall₂_cons.mp hlastRelated
  have hinterval := reopened.normalized_interval_pos
  refine ⟨fun chunk hmem => ?_, fun hstrict chunk hmem => ?_, fun hstrict => ?_⟩
  · obtain ⟨scan, -, hfile, hbatches⟩ := exists_related hrelated.flip hmem
    exact (Scan.stops_stale hfile hbatches (hvalid chunk hmem)).1
  · obtain ⟨scan, hscan, hfile, hbatches⟩ := exists_related hfrontRelated.flip hmem
    obtain ⟨-, hdrop⟩ := Scan.stops_stale hfile hbatches (hvalid chunk (Layout.mem_chunks.mpr (Or.inl hmem)))
    obtain ⟨before, after, hsplit⟩ := List.append_of_mem hscan
    rw [hsplit, List.append_assoc, List.cons_append] at haccepted
    rw [← hdrop]
    refine (Scan.tail_of_recover hinterval (reopened.normalized_strict.trans hstrict)
      haccepted.recover).resolve_right fun hactive => ?_
    exact absurd (List.isEmpty_iff.mp hactive.1) (List.append_ne_nil_of_right_ne_nil _ (List.cons_ne_nil _ _))
  · obtain ⟨-, hdrop⟩ := Scan.stops_stale hlastFile hlastBatches (hvalid _ layout.active_mem)
    rw [← hdrop]
    rcases Scan.tail_of_recover hinterval (reopened.normalized_strict.trans hstrict) haccepted.recover with hnil | ⟨-, htorn⟩
    · rw [hnil]
      exact Or.inl (by decide)
    · exact htorn

/-- **Failed writes.** After any run in which writes fail, reopening returns exactly the acknowledged
batches if and only if the bytes the failed writes left behind are harmless. -/
theorem recovers_exactly_iff {options : CommitLogOptions} {store : Store} {acked : List Appended}
    (h : FaultyReaches options tornWrites store acked) {disk : Disk} (hlogs : disk.logs = store.disk.logs)
    (strict : Bool) :
    RecoversExactly { options with strictRecovery := strict } disk store.log.nextOffset acked ↔
      HarmlessTails strict store := by
  obtain ⟨hdir, hsize, layout, htracks⟩ := h.tracks
  have hiff := htracks.rep.harmlessTails_iff { options with strictRecovery := strict }
  refine ⟨fun hrecovers => hiff.mpr (htracks.recoverable hdir hsize hlogs hrecovers), fun hharmless => ?_⟩
  obtain ⟨log, disk', hopen, hnext, htracks'⟩ := @Tracks.reopen _ _ _ _ htracks
    { options with strictRecovery := strict } hdir hsize _ hlogs (hiff.mp hharmless)
  refine ⟨log, disk', hopen, hnext, fun appended hmem => ?_, layout.batches, htracks.wrote, ?_⟩
  · obtain ⟨batch, -, hwrote, hread⟩ := htracks'.read_acked hmem
    exact ⟨batch, hwrote, fun offset hoffset maxBytes hmax =>
      hread offset hoffset maxBytes (le_of_max_le_left hmax) (le_of_max_le_right hmax)⟩
  · rw [htracks'.exact]
    exact layout.clean_content

/-! ### A resurrected batch

The value of the record that fails to be written is itself an encoded batch, the one that a later append
would write at offset one. The write stops just behind it. A shorter batch is then appended at offset
zero and covers the bytes up to exactly where the inner batch starts. -/

/-- The bytes of a batch of one empty record at offset one. -/
def innerBatch : Bytes :=
  match makeRecordBatch 1 [⟨0, [], [], 0⟩] >>= encodeRecordBatch with
  | .ok encoded => encoded
  | .error _ => []

/-- A write of 105 bytes that stops after 104, and an append of 52 bytes. -/
def resurrectingCalls : List (List Record × IoFaults) :=
  [([⟨0, [], innerBatch ++ [0], 0⟩], { writeBatch := some (104, .ioError "pwrite failed: No space left on device") }),
    ([⟨0, [], [], 0⟩], {})]

/-- In both modes the reopened log has a second batch that no `Append` acknowledged. -/
theorem unacknowledged_batch_recovered :
    ∃ store acked, FaultyReaches { dataDir := "log" } tornWrites store acked ∧
      ∀ strict, ¬RecoversExactly { dataDir := "log", strictRecovery := strict } store.disk
        store.log.nextOffset acked := by
  have hrun : (runAppends { dataDir := "log" } tornWrites resurrectingCalls).any (fun state =>
      decide (state.1.log.nextOffset = (1 : Int)) && [true, false].all fun strict =>
        (openLog { dataDir := "log", strictRecovery := strict } state.1.disk).1.toOption.any fun log =>
          decide (log.nextOffset = (2 : Int))) = true := by
    decide +kernel
  obtain ⟨⟨store, acked⟩, hstate, hcheck⟩ := Option.any_eq_true _ _ |>.mp hrun
  obtain ⟨hnext, hmodes⟩ := Bool.and_eq_true_iff.mp hcheck
  refine ⟨store, acked, faultyReaches_of_runAppends hstate, fun strict hrecovers => ?_⟩
  obtain ⟨log, disk, hopen, hlog, -⟩ := hrecovers
  have hmode := List.all_eq_true.mp hmodes strict (by cases strict <;> decide)
  rw [hopen] at hmode
  have htwo : log.nextOffset = 2 := of_decide_eq_true hmode
  have hone : store.log.nextOffset = 1 := of_decide_eq_true hnext
  rw [hlog, hone] at htwo
  exact absurd htwo (by decide)

/-- A failed write whose bytes are covered again is recovered from. -/
theorem recovers_exactly_covered :
    ∃ store acked, FaultyReaches { dataDir := "log" } tornWrites store acked ∧ acked.length = 1 ∧
      RecoversExactly { dataDir := "log", strictRecovery := true } store.disk store.log.nextOffset acked := by
  have hrun : (runAppends { dataDir := "log" } tornWrites
      [([⟨0, [], [1], 0⟩], { writeBatch := some (40, .ioError "pwrite failed: No space left on device") }),
        ([⟨0, [], [], 0⟩], {})]).any (fun state => decide (state.2.length = 1 ∧
          (∀ segment ∈ state.1.log.segments, state.1.staleBytes segment = []))) = true := by
    decide +kernel
  obtain ⟨⟨store, acked⟩, hstate, hcheck⟩ := Option.any_eq_true _ _ |>.mp hrun
  obtain ⟨hacked, hstale⟩ := of_decide_eq_true hcheck
  have hreaches := faultyReaches_of_runAppends hstate
  refine ⟨store, acked, hreaches, hacked, (recovers_exactly_iff hreaches rfl true).mpr ⟨?_, ?_, ?_⟩⟩
  · intro segment hsegment
    rw [hstale segment hsegment, ← stops_zero_iff]
    exact stops_nil
  · exact fun _ segment hsegment => hstale segment (List.mem_of_mem_dropLast hsegment)
  · intro _ segment hsegment
    rw [hstale segment (List.mem_of_getLast? hsegment)]
    exact Or.inl (by decide)

end LogMq
