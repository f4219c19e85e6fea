import LogMq.StorageAppend

/-! Opening a directory whose segment files follow a layout. When the bytes behind the batches are such
that recovery cuts them off, the opened log is represented by the layout without them. -/

namespace LogMq

open SparseIndex

namespace Chunk

/-- The batches decode one after the other and nothing decodes behind them. -/
structure Readable (chunk : Chunk) : Prop where
  base_nonneg : 0 ≤ chunk.base
  valid : ∀ batch ∈ chunk.batches, batch.Valid
  stops : Stops chunk.stale 0

theorem content_drop {chunk : Chunk} (hvalid : ∀ batch ∈ chunk.batches, batch.Valid) :
    chunk.content.drop (totalBytes chunk.batches) = chunk.stale := by
  rw [← length_flatMap_bytes hvalid]
  exact List.drop_left

theorem content_take {chunk : Chunk} (hvalid : ∀ batch ∈ chunk.batches, batch.Valid) :
    chunk.content.take (totalBytes chunk.batches) = chunk.bytes := by
  rw [← length_flatMap_bytes hvalid]
  exact List.take_left

/-- What a scan of the file of a segment finds. -/
def scan (chunk : Chunk) (h : chunk.Readable) : Scan where
  base := chunk.base
  content := chunk.content
  batches := chunk.batches
  base_nonneg := h.base_nonneg
  laid := laidOut_bytes h.valid [] chunk.stale
  stops := by
    rw [stops_iff, content_drop h.valid, ← List.drop_zero (l := chunk.stale), ← stops_iff]
    exact h.stops

theorem keptFile_scan (chunk : Chunk) (h : chunk.Readable) :
    (chunk.scan h).keptFile = chunk.clean.file := by
  change (chunk.base, chunk.content.take (totalBytes chunk.batches)) = (chunk.base, chunk.bytes ++ [])
  rw [content_take h.valid, List.append_nil]

/-- Recovery accepts a chain if it may cut off what follows. -/
theorem recover_scan {chunk : Chunk} (h : chunk.Readable) {options : CommitLogOptions} {active : Bool} {stop : Int}
    (hinterval : 0 < options.indexIntervalBytes) (hchain : Chain chunk.base chunk.batches stop)
    (htail : options.strictRecovery = true → chunk.stale = [] ∨ active = true ∧ Torn chunk.stale) :
    (chunk.scan h).recover options active = .ok ((chunk.scan h).index options.indexIntervalBytes) := by
  refine (Scan.recover_eq_ok hinterval).mpr ⟨rfl, ?_, ?_⟩
  · have hoffer := @Chain.offerAll_eq _ _ _ hchain 0
      (OffsetIndex.create chunk.base options.indexIntervalBytes) h.base_nonneg (le_refl _)
      (fun _ hlast => (nomatch hlast)) (by rw [OffsetIndex.create, if_neg hinterval.ne']; exact hinterval)
    rw [OffsetIndex.create, if_neg hinterval.ne'] at hoffer
    rw [OffsetIndex.create, if_neg hinterval.ne']
    exact hoffer
  · refine (checkStop_eq_ok (chunk.scan h).stops).mpr fun hstrict => ?_
    rcases htail hstrict with hnil | ⟨hactive, htorn⟩
    · left
      change (chunk.batches.flatMap RecordBatch.bytes ++ chunk.stale).length ≤ totalBytes chunk.batches
      rw [hnil, List.append_nil, length_flatMap_bytes h.valid]
    · right
      refine ⟨hactive, ?_⟩
      change Torn (chunk.content.drop (totalBytes chunk.batches))
      rw [content_drop h.valid]
      exact htorn

end Chunk

namespace Layout

/-- The layout without the bytes behind the batches. -/
def clean (layout : Layout) : Layout := ⟨layout.sealed.map Chunk.clean, layout.active.clean⟩

theorem chunks_clean (layout : Layout) : layout.clean.chunks = layout.chunks.map Chunk.clean := by
  rw [chunks, chunks, List.map_append]
  rfl

theorem batches_clean (layout : Layout) : layout.clean.batches = layout.batches := by
  rw [batches, chunks_clean, List.flatMap_map]
  rfl

theorem sealedChain_clean {start stop : Int} {chunks : List Chunk} (h : SealedChain start chunks stop) :
    SealedChain start (chunks.map Chunk.clean) stop := by
  induction chunks generalizing start with
  | nil => exact h
  | cons chunk rest ih =>
      obtain ⟨hbase, hne, mid, hchunk, hrest⟩ := h
      exact ⟨hbase, hne, mid, hchunk, ih hrest⟩

theorem Holds.clean {layout : Layout} {next : Int} (h : layout.Holds next) : layout.clean.Holds next :=
  ⟨sealedChain_clean h.sealed, h.active⟩

/-- What strict and ordinary recovery each require of the bytes behind the batches. -/
structure Recoverable (options : CommitLogOptions) (layout : Layout) : Prop where
  stops : ∀ chunk ∈ layout.chunks, Stops chunk.stale 0
  sealed : options.strictRecovery = true → ∀ chunk ∈ layout.sealed, chunk.stale = []
  active : options.strictRecovery = true → Torn layout.active.stale

theorem Holds.readable {layout : Layout} {next : Int} (h : layout.Holds next) {chunk : Chunk}
    (hmem : chunk ∈ layout.chunks) (hstops : Stops chunk.stale 0) : chunk.Readable := by
  obtain ⟨mid, hchain, hbase, -⟩ := h.chunk_chain hmem
  exact ⟨hbase, hchain.valid, hstops⟩

end Layout

theorem stops_nil : Stops [] 0 := by
  rw [stops_iff]
  intro batch h
  have hheader := h.header
  exact absurd hheader (by decide)

/-- The next offset over the scans of a chain of segments. -/
theorem maxNext_scans {start stop : Int} {chunks : List Chunk} (hreadable : ∀ chunk ∈ chunks, chunk.Readable)
    (h : SealedChain start chunks stop) (rest : List Scan) :
    maxNext start (chunks.pmap Chunk.scan hreadable ++ rest) = maxNext stop rest := by
  induction chunks generalizing start with
  | nil => rw [show start = stop from h]; rfl
  | cons chunk tail ih =>
      obtain ⟨rfl, -, mid, hchunk, htail⟩ := h
      have hmid : max chunk.base (maxEnd chunk.base chunk.batches) = mid := by
        rw [hchunk.maxEnd_eq]
        exact max_eq_right hchunk.le
      exact (congrArg (maxNext · _) hmid).trans (ih (fun c hc => hreadable c (List.mem_cons_of_mem _ hc)) htail)

/-- What is the same for a segment and the scan of its file is the same for the lists of them. -/
theorem map_scans {α : Type} {layout : Layout} (hsealed : ∀ chunk ∈ layout.sealed, chunk.Readable)
    (hactive : layout.active.Readable) {g : Scan → α} {f : Chunk → α}
    (h : ∀ chunk (hreadable : chunk.Readable), g (chunk.scan hreadable) = f chunk) :
    (layout.sealed.pmap Chunk.scan hsealed ++ [layout.active.scan hactive]).map g = layout.chunks.map f := by
  rw [Layout.chunks, List.map_append, List.map_append, List.map_pmap, List.map_singleton, List.map_singleton,
    h _ hactive]
  simp only [h]
  rw [List.pmap_eq_map]

namespace Exact

variable {store : Store} {layout : Layout} (hexact : Exact store layout) {next : Int}

include hexact

theorem files {chunk : Chunk} (hmem : chunk ∈ layout.chunks) :
    store.disk.logs.find? chunk.base = some chunk.content := by
  rw [← SortedMap.mem_entries, hexact]
  exact List.mem_map_of_mem (f := Chunk.file) hmem

theorem fresh (hholds : layout.Holds next) {base : Int} {content : Bytes}
    (hfind : store.disk.logs.find? base = some content) (hbase : layout.active.base < base) : content = [] := by
  have hentry := SortedMap.mem_entries.mpr hfind
  rw [hexact] at hentry
  obtain ⟨chunk, hmem, hfile⟩ := List.mem_map.mp hentry
  cases hfile
  rcases Layout.mem_chunks.mp hmem with hmem | rfl
  · obtain ⟨mid, -, -, hlt, hle⟩ := hholds.sealed.chunk_chain hmem
    omega
  · exact absurd hbase (lt_irrefl _)

end Exact

/-- **Reopening.** A recoverable directory opens, and what follows the batches is gone. -/
theorem openLog_layout {options : CommitLogOptions} {disk : Disk} {layout : Layout} {next : Int}
    (hdir : options.dataDir ≠ "") (hsize : recordBatchHeaderBytes ≤ options.segmentBytes)
    (hholds : layout.Holds next) (hnext : next ≤ maxOffset)
    (hentries : disk.logs.entries = layout.chunks.map Chunk.file) (hrecover : layout.Recoverable options) :
    ∃ log disk', openLog options disk = (.ok log, disk') ∧ log.nextOffset = next ∧
      Rep options.normalized ⟨log, disk'⟩ layout.clean ∧ Exact ⟨log, disk'⟩ layout.clean := by
  have hsealed : ∀ chunk ∈ layout.sealed, chunk.Readable := fun chunk hmem =>
    have hchunks := Layout.mem_chunks.mpr (Or.inl hmem)
    hholds.readable hchunks (hrecover.stops chunk hchunks)
  have hactive := hholds.readable layout.active_mem (hrecover.stops _ layout.active_mem)
  have hinterval := options.normalized_interval_pos
  have hfiles : disk.logs.entries =
      (layout.sealed.pmap Chunk.scan hsealed ++ [layout.active.scan hactive]).map Scan.file := by
    rw [hentries]
    exact (map_scans hsealed hactive fun _ _ => rfl).symm
  have haccepted : Accepted options.normalized
      (layout.sealed.pmap Chunk.scan hsealed ++ [layout.active.scan hactive]) := by
    refine accepted_append_cons (fun scan hscan => ?_) ?_ trivial
    · obtain ⟨chunk, hmem, rfl⟩ := List.mem_pmap.mp hscan
      obtain ⟨mid, hchain, -⟩ := hholds.sealed.chunk_chain hmem
      refine Chunk.recover_scan (hsealed chunk hmem) hinterval hchain fun hstrict => Or.inl ?_
      exact hrecover.sealed (options.normalized_strict ▸ hstrict) chunk hmem
    · refine Chunk.recover_scan hactive hinterval hholds.active fun hstrict => Or.inr ⟨rfl, ?_⟩
      exact hrecover.active (options.normalized_strict ▸ hstrict)
  have hne : layout.sealed.pmap Chunk.scan hsealed ++ [layout.active.scan hactive] ≠ [] :=
    List.append_ne_nil_of_right_ne_nil _ (List.cons_ne_nil _ _)
  obtain ⟨disk', hopen, hkept⟩ := openLog_of_accepted hdir hsize hne hfiles haccepted
  have hmax : (recoveredLog options
      (layout.sealed.pmap Chunk.scan hsealed ++ [layout.active.scan hactive])).nextOffset = next := by
    refine (maxNext_scans hsealed hholds.sealed _).trans ?_
    change max layout.active.base (maxEnd layout.active.base layout.active.batches) = next
    rw [hholds.active.maxEnd_eq, max_eq_right hholds.active.le]
  have hexact : ∀ log, Exact ⟨log, disk'⟩ layout.clean := fun log => by
    rw [Exact, hkept, Layout.chunks_clean, List.map_map]
    exact map_scans hsealed hactive Chunk.keptFile_scan
  refine ⟨_, disk', hopen, hmax, ?_, hexact _⟩
  exact {
    options_eq := rfl
    opened := rfl
    interval_pos := hinterval
    holds := hmax.symm ▸ hholds.clean
    next_le := hmax.le.trans hnext
    segments := by
      rw [Layout.chunks_clean, List.map_map]
      exact map_scans hsealed hactive fun _ _ => rfl
    indexes := by
      rw [Layout.chunks_clean, List.map_map]
      exact map_scans hsealed hactive fun _ _ => rfl
    files := fun _ hmem => (hexact _).files hmem
    fresh := fun _ _ hfind hbase => (hexact _).fresh hholds.clean hfind hbase }

end LogMq
