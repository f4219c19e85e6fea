import LogMq.StorageReopen

/-! Runs of a log in which every call succeeds: opened on an empty directory, appended to, closed and
opened again any number of times. -/

namespace LogMq

open SparseIndex

/-- An acknowledged `Append`. -/
structure Appended where
  records : List Record
  result : AppendResult
  deriving DecidableEq

namespace Appended

/-- The offsets an acknowledged `Append` was given. -/
def Holds (appended : Appended) (offset : Int) : Prop :=
  appended.result.baseOffset ≤ offset ∧ offset < appended.result.baseOffset + appended.records.length

/-- The batch an acknowledged `Append` wrote. -/
def Wrote (appended : Appended) (batch : RecordBatch) : Prop :=
  makeRecordBatch appended.result.baseOffset appended.records = .ok batch

end Appended

/-- The states a log reaches by successful calls, with the appends acknowledged on the way. -/
inductive Reaches (options : CommitLogOptions) : Store → List Appended → Prop
  | opened {log : CommitLog} {disk : Disk} (hopen : openLog options {} = (.ok log, disk)) :
      Reaches options ⟨log, disk⟩ []
  | append {store store' : Store} {acked : List Appended} {records : List Record} {result : AppendResult}
      (hreaches : Reaches options store acked) (happend : store.append records {} = (.ok result, store')) :
      Reaches options store' (acked ++ [⟨records, result⟩])
  | reopen {store : Store} {acked : List Appended} {log : CommitLog} {disk : Disk}
      (hreaches : Reaches options store acked)
      (hopen : openLog options store.close.disk = (.ok log, disk)) : Reaches options ⟨log, disk⟩ acked

/-- The calls of a run after the first `Open`. -/
inductive Call where
  | append (records : List Record)
  | reopen

/-- One call, if it succeeds. -/
def Call.run (options : CommitLogOptions) (state : Store × List Appended) : Call → Option (Store × List Appended)
  | .append records =>
      match state.1.append records {} with
      | (.ok result, store) => some (store, state.2 ++ [⟨records, result⟩])
      | (.error _, _) => none
  | .reopen =>
      match openLog options state.1.close.disk with
      | (.ok log, disk) => some (⟨log, disk⟩, state.2)
      | (.error _, _) => none

/-- A whole run from an empty directory, if every call succeeds. -/
def runCalls (options : CommitLogOptions) (calls : List Call) : Option (Store × List Appended) :=
  match openLog options {} with
  | (.ok log, disk) => calls.foldlM (Call.run options) (⟨log, disk⟩, [])
  | (.error _, _) => none

theorem Reaches.run {options : CommitLogOptions} {state state' : Store × List Appended} {call : Call}
    (h : Reaches options state.1 state.2) (hrun : call.run options state = some state') :
    Reaches options state'.1 state'.2 := by
  unfold Call.run at hrun
  split at hrun
  · split at hrun
    · cases hrun
      exact h.append ‹_›
    · cases hrun
  · split at hrun
    · cases hrun
      exact h.reopen ‹_›
    · cases hrun

/-- Running calls leads to reachable states. -/
theorem reaches_of_runCalls {options : CommitLogOptions} {calls : List Call} {state : Store × List Appended}
    (h : runCalls options calls = some state) : Reaches options state.1 state.2 := by
  have hfold : ∀ (calls : List Call) (start : Store × List Appended), Reaches options start.1 start.2 →
      calls.foldlM (Call.run options) start = some state → Reaches options state.1 state.2 := by
    intro calls
    induction calls with
    | nil =>
        intro start hstart hrun
        cases hrun
        exact hstart
    | cons call rest ih =>
        intro start hstart hrun
        rw [List.foldlM_cons] at hrun
        obtain ⟨next, hnext, hrest⟩ := Option.bind_eq_some_iff.mp hrun
        exact ih next (hstart.run hnext) hrest
  unfold runCalls at h
  split at h
  · exact hfold calls _ (.opened ‹_›) h
  · cases h

/-! ### Opening an empty directory -/

theorem openLog_ok_options {options : CommitLogOptions} {disk disk' : Disk} {log : CommitLog}
    (h : openLog options disk = (.ok log, disk')) :
    options.dataDir ≠ "" ∧ recordBatchHeaderBytes ≤ options.segmentBytes := by
  by_cases hdir : options.dataDir = ""
  · rw [openLog, if_pos hdir] at h
    cases h
  by_cases hsize : options.segmentBytes < recordBatchHeaderBytes
  · rw [openLog, if_neg hdir, if_pos hsize] at h
    cases h
  exact ⟨hdir, Nat.not_lt.mp hsize⟩

/-- The layout of a log that has just been created. -/
def Layout.initial : Layout := ⟨[], ⟨0, [], []⟩⟩

theorem Layout.initial_holds : Layout.initial.Holds 0 := ⟨rfl, rfl⟩

theorem openLog_empty {options : CommitLogOptions} (hdir : options.dataDir ≠ "")
    (hsize : recordBatchHeaderBytes ≤ options.segmentBytes) (indexes : SortedMap Int Bytes) :
    ∃ log disk, openLog options ⟨.empty, indexes⟩ = (.ok log, disk) ∧ Rep options.normalized ⟨log, disk⟩ Layout.initial ∧
      Exact ⟨log, disk⟩ Layout.initial := by
  have hinterval := options.normalized_interval_pos
  let log : CommitLog := { options := options.normalized
                           segments := [⟨0, 0, false⟩]
                           indexes := [OffsetIndex.create 0 options.normalized.indexIntervalBytes]
                           nextOffset := 0
                           closed := false }
  let disk : Disk := Disk.writeIndex (Disk.writeLog ⟨.empty, indexes⟩ 0 []) 0 []
  have hopen : openLog options ⟨.empty, indexes⟩ = (.ok log, disk) := by
    rw [openLog, if_neg hdir, if_neg (Nat.not_lt.mpr hsize)]
    rfl
  have hexact : Exact ⟨log, disk⟩ Layout.initial := rfl
  refine ⟨log, disk, hopen, ?_, hexact⟩
  exact {
    options_eq := rfl
    opened := rfl
    interval_pos := hinterval
    holds := Layout.initial_holds
    next_le := show (0 : Int) ≤ maxOffset by decide
    segments := rfl
    indexes := by
      change [OffsetIndex.create 0 options.normalized.indexIntervalBytes] = _
      rw [OffsetIndex.create, if_neg hinterval.ne']
      rfl
    files := fun _ hmem => hexact.files hmem
    fresh := fun _ _ hfind hbase => hexact.fresh Layout.initial_holds hfind hbase }

/-- A directory without segment files is opened as a log without batches. -/
theorem initial_of_openLog {options : CommitLogOptions} (hdir : options.dataDir ≠ "")
    (hsize : recordBatchHeaderBytes ≤ options.segmentBytes) {disk disk' : Disk} {log : CommitLog}
    (hfiles : disk.logs.entries = []) (hopen : openLog options disk = (.ok log, disk')) :
    Rep options.normalized ⟨log, disk'⟩ Layout.initial := by
  obtain ⟨logs, indexes⟩ := disk
  have hlogs : logs = .empty := SortedMap.entries_injective hfiles
  subst hlogs
  obtain ⟨created, after, hcreated, hrep, -⟩ := openLog_empty hdir hsize indexes
  rw [hcreated] at hopen
  cases hopen
  exact hrep

/-! ### The batches of a layout after an append -/

theorem Room.batches_eq {layout room : Layout} {next : Int} (h : Room layout next room) :
    room.batches = layout.batches := by
  rcases h with rfl | ⟨-, rfl⟩
  · rfl
  · change (layout.chunks ++ [_]).flatMap Chunk.batches = _
    rw [List.flatMap_append, List.flatMap_cons, List.flatMap_nil, List.append_nil]
    exact List.append_nil _

theorem Layout.batches_extended (layout : Layout) (batch : RecordBatch) :
    (layout.extended batch).batches = layout.batches ++ [batch] := by
  simp only [batches, chunks, extended, List.flatMap_append, List.flatMap_cons, List.flatMap_nil,
    List.append_nil, List.append_assoc]

theorem Layout.batches_torn (layout : Layout) (data : Bytes) : (layout.torn data).batches = layout.batches := by
  simp only [batches, chunks, torn, List.flatMap_append, List.flatMap_cons, List.flatMap_nil]

/-- Nothing is left behind the batches of any segment. -/
def Layout.Clean (layout : Layout) : Prop := ∀ chunk ∈ layout.chunks, chunk.stale = []

theorem Room.clean {layout room : Layout} {next : Int} (h : Room layout next room) (hclean : layout.Clean) :
    room.Clean := by
  rcases h with rfl | ⟨-, rfl⟩
  · exact hclean
  · intro chunk hmem
    rcases Layout.mem_chunks.mp hmem with hmem | rfl
    · exact hclean chunk hmem
    · rfl

theorem Layout.Clean.extended {layout : Layout} (h : layout.Clean) (batch : RecordBatch) :
    (layout.extended batch).Clean := by
  intro chunk hmem
  rcases Layout.mem_chunks.mp hmem with hmem | rfl
  · exact h chunk (Layout.mem_chunks.mpr (Or.inl hmem))
  · change layout.active.stale.drop batch.batchBytes = []
    rw [h _ layout.active_mem, List.drop_nil]

theorem Layout.Clean.recoverable {layout : Layout} (h : layout.Clean) (options : CommitLogOptions) :
    layout.Recoverable options where
  stops := fun chunk hmem => h chunk hmem ▸ stops_nil
  sealed := fun _ chunk hmem => h chunk (Layout.mem_chunks.mpr (Or.inl hmem))
  active := fun _ => h _ layout.active_mem ▸ Or.inl (by decide)

theorem Layout.clean_clean (layout : Layout) : layout.clean.Clean := by
  intro chunk hmem
  rw [chunks_clean] at hmem
  obtain ⟨_, -, rfl⟩ := List.mem_map.mp hmem
  rfl

/-! ### The acknowledged batches -/

/-- The log holds exactly the acknowledged batches. -/
structure Tracks (options : CommitLogOptions) (store : Store) (layout : Layout) (acked : List Appended) :
    Prop where
  rep : Rep options.normalized store layout
  exact : Exact store layout
  wrote : List.Forall₂ Appended.Wrote acked layout.batches

/-- The appends a call acknowledges. -/
def acknowledged (records : List Record) : Result AppendResult → List Appended
  | .ok result => [⟨records, result⟩]
  | .error _ => []

/-- A written batch carries what was appended. -/
theorem Appended.Wrote.batch_eq {appended : Appended} {batch : RecordBatch} (h : appended.Wrote batch) :
    batch.baseOffset = appended.result.baseOffset ∧
      batch.endOffset = appended.result.baseOffset + appended.records.length ∧
      batch.records.map Record.content = appended.records.map Record.content := by
  obtain ⟨-, hbase, hcount, hrecords⟩ := makeRecordBatch_eq_ok h
  refine ⟨hbase, by rw [RecordBatch.endOffset, hbase, hcount], ?_⟩
  rw [hrecords, List.map_map]
  rfl

theorem Outcome.wrote {options : CommitLogOptions} {next : Int} {layout layout' : Layout} {records : List Record}
    {faults : IoFaults} {result : Result AppendResult}
    (h : Outcome options next layout records faults result layout') {acked : List Appended}
    (hwrote : List.Forall₂ Appended.Wrote acked layout.batches) :
    List.Forall₂ Appended.Wrote (acked ++ acknowledged records result) layout'.batches := by
  cases h with
  | refused status hroom =>
      rw [acknowledged, List.append_nil, hroom.batches_eq]
      exact hwrote
  | torn hbatch hroom hwrite =>
      rw [acknowledged, List.append_nil, Layout.batches_torn, hroom.batches_eq]
      exact hwrote
  | written hbatch hroom hfit =>
      rw [acknowledged, Layout.batches_extended, hroom.batches_eq]
      exact List.rel_append hwrote (.cons hbatch .nil)

theorem Outcome.clean {options : CommitLogOptions} {next : Int} {layout layout' : Layout} {records : List Record}
    {faults : IoFaults} {result : Result AppendResult}
    (h : Outcome options next layout records faults result layout') (hwritable : faults.writeBatch = none)
    (hclean : layout.Clean) : layout'.Clean := by
  cases h with
  | refused status hroom => exact hroom.clean hclean
  | torn hbatch hroom hwrite => cases hwritable.symm.trans hwrite
  | written hbatch hroom hfit => exact (hroom.clean hclean).extended _

/-- Related lists have related members. -/
theorem exists_related {α β : Type} {R : α → β → Prop} {left : List α} {right : List β}
    (h : List.Forall₂ R left right) {a : α} (hmem : a ∈ left) : ∃ b ∈ right, R a b := by
  induction h with
  | nil => exact absurd hmem List.not_mem_nil
  | cons hrel _ ih =>
      rcases List.mem_cons.mp hmem with rfl | hmem
      · exact ⟨_, List.mem_cons_self, hrel⟩
      · obtain ⟨b, hb, hab⟩ := ih hmem
        exact ⟨b, List.mem_cons_of_mem _ hb, hab⟩

namespace Tracks

variable {options : CommitLogOptions} {store : Store} {layout : Layout} {acked : List Appended}

/-- One call, successful or not, as long as segments can be opened. -/
theorem append (h : Tracks options store layout acked) (records : List Record) {faults : IoFaults}
    (hfaults : faults.openSegment = none) :
    ∃ layout', Tracks options (store.append records faults).2 layout'
        (acked ++ acknowledged records (store.append records faults).1) ∧
      (faults.writeBatch = none → layout.Clean → layout'.Clean) := by
  obtain ⟨layout', houtcome, hrep, hexact⟩ := h.rep.append_outcome records faults
  exact ⟨layout', ⟨hrep, hexact hfaults h.exact, houtcome.wrote h.wrote⟩, houtcome.clean⟩

/-- A successful call returns the old next offset and moves it past its records. -/
theorem append_ok (h : Tracks options store layout acked) {records : List Record} {faults : IoFaults}
    {result : AppendResult} {store' : Store} (happend : store.append records faults = (.ok result, store')) :
    result.baseOffset = store.log.nextOffset ∧
      store'.log.nextOffset = store.log.nextOffset + records.length := by
  obtain ⟨layout', houtcome, hrep, -⟩ := h.rep.append_outcome records faults
  rw [happend] at houtcome hrep
  cases houtcome with
  | written hbatch hroom hfit =>
      obtain ⟨hmade, hbase, hcount, -⟩ := makeRecordBatch_eq_ok hbatch
      have hchain := hrep.holds.chain
      rw [Layout.batches_extended, hroom.batches_eq] at hchain
      refine ⟨rfl, hchain.stop_unique ?_⟩
      rw [← hbase, ← hcount]
      exact h.rep.holds.chain.concat (hmade h.rep.next_le) hbase

/-- Closing writes index files only. -/
theorem close_logs (store : Store) : store.close.disk.logs = store.disk.logs := by
  have hfold : ∀ (indexes : List OffsetIndex) (disk : Disk),
      (indexes.foldl (fun disk index => disk.writeIndex index.baseOffset index.fileBytes) disk).logs =
        disk.logs := by
    intro indexes
    induction indexes with
    | nil => exact fun _ => rfl
    | cons index rest ih => exact fun disk => ih _
  unfold Store.close
  split_ifs
  · rfl
  · exact hfold _ _

/-- A recoverable directory is opened with the same acknowledged batches, under any options. -/
theorem reopen (h : Tracks options store layout acked) {reopened : CommitLogOptions}
    (hdir : reopened.dataDir ≠ "") (hsize : recordBatchHeaderBytes ≤ reopened.segmentBytes) {disk : Disk}
    (hlogs : disk.logs = store.disk.logs) (hrecover : layout.Recoverable reopened) :
    ∃ log disk', openLog reopened disk = (.ok log, disk') ∧ log.nextOffset = store.log.nextOffset ∧
      Tracks reopened ⟨log, disk'⟩ layout.clean acked := by
  obtain ⟨log, disk', hopen, hnext, hrep, hexact⟩ := openLog_layout hdir hsize h.rep.holds h.rep.next_le
    (by rw [hlogs]; exact h.exact) hrecover
  exact ⟨log, disk', hopen, hnext, hrep, hexact, layout.batches_clean.symm ▸ h.wrote⟩

/-- Reads of an acknowledged offset return the batch that was written there. -/
theorem read_acked (h : Tracks options store layout acked) {appended : Appended} (hmem : appended ∈ acked) :
    ∃ batch ∈ layout.batches, appended.Wrote batch ∧ ∀ offset, appended.Holds offset →
      ∀ maxBytes, batch.batchBytes ≤ maxBytes → options.indexIntervalBytes ≤ maxBytes →
        store.read offset maxBytes = .ok batch := by
  obtain ⟨batch, hbatch, hwrote⟩ := exists_related h.wrote hmem
  obtain ⟨hbase, hend, -⟩ := hwrote.batch_eq
  refine ⟨batch, hbatch, hwrote, fun offset hoffset maxBytes hsize hinterval => ?_⟩
  refine h.rep.read_batch hbatch (hbase ▸ hoffset.1) (hend ▸ hoffset.2) hsize ?_
  have hpos := (h.rep.holds.chain.valid batch hbatch).size_pos
  exact CommitLogOptions.normalized_interval_le (hpos.trans_le hsize) hinterval

/-- Every offset below the next one was acknowledged. -/
theorem exists_acked (h : Tracks options store layout acked) {offset : Int} (hzero : 0 ≤ offset)
    (hnext : offset < store.log.nextOffset) : ∃ appended ∈ acked, appended.Holds offset := by
  obtain ⟨batch, hbatch, hle, hlt⟩ := h.rep.exists_batch hzero hnext
  obtain ⟨appended, hmem, hwrote⟩ := exists_related h.wrote.flip hbatch
  obtain ⟨hbase, hend, -⟩ := Appended.Wrote.batch_eq hwrote
  exact ⟨appended, hmem, hbase ▸ hle, hend ▸ hlt⟩

end Tracks

/-- **Runs.** In every state reached by successful calls the log holds the acknowledged batches and
nothing else. -/
theorem Reaches.tracks {options : CommitLogOptions} {store : Store} {acked : List Appended}
    (h : Reaches options store acked) :
    options.dataDir ≠ "" ∧ recordBatchHeaderBytes ≤ options.segmentBytes ∧
      ∃ layout, Tracks options store layout acked ∧ layout.Clean := by
  induction h with
  | opened hopen =>
      obtain ⟨hdir, hsize⟩ := openLog_ok_options hopen
      obtain ⟨log, disk, hopen', hrep, hexact⟩ := openLog_empty hdir hsize .empty
      cases hopen.symm.trans hopen'
      refine ⟨hdir, hsize, Layout.initial, ⟨hrep, hexact, .nil⟩, fun chunk hmem => ?_⟩
      rw [List.mem_singleton.mp hmem]
      rfl
  | append hreaches happend ih =>
      obtain ⟨hdir, hsize, layout, htracks, hclean⟩ := ih
      obtain ⟨layout', htracks', hclean'⟩ := @Tracks.append _ _ _ _ htracks _ {} rfl
      rw [happend] at htracks'
      exact ⟨hdir, hsize, layout', htracks', hclean' rfl hclean⟩
  | reopen hreaches hopen ih =>
      obtain ⟨hdir, hsize, layout, htracks, hclean⟩ := ih
      obtain ⟨log, disk, hopen', -, htracks'⟩ := htracks.reopen hdir hsize (Tracks.close_logs _)
        (hclean.recoverable _)
      cases hopen.symm.trans hopen'
      exact ⟨hdir, hsize, _, htracks', layout.clean_clean⟩

/-- **Functional correctness of the log.** Offsets are handed out without gaps, every acknowledged
offset reads back the batch that was appended there, and nothing else can be read. -/
theorem reads_return_appended {options : CommitLogOptions} {store : Store} {acked : List Appended}
    (h : Reaches options store acked) :
    (∀ records result store', store.append records {} = (.ok result, store') →
        result.baseOffset = store.log.nextOffset ∧
          store'.log.nextOffset = store.log.nextOffset + records.length) ∧
      (∀ offset, 0 ≤ offset → offset < store.log.nextOffset → ∃ appended ∈ acked, appended.Holds offset) ∧
      (∀ appended ∈ acked, ∃ batch encoded,
        makeRecordBatch appended.result.baseOffset appended.records = .ok batch ∧
        encodeRecordBatch batch = .ok encoded ∧ batch.baseOffset = appended.result.baseOffset ∧
        batch.records.map Record.content = appended.records.map Record.content ∧
        ∀ offset, appended.Holds offset → ∀ maxBytes, max encoded.length options.indexIntervalBytes ≤ maxBytes →
          store.read offset maxBytes = .ok batch) ∧
      (∀ offset, store.log.nextOffset ≤ offset → ∀ maxBytes,
        ∃ message, store.read offset maxBytes = .error (.notFound message)) ∧
      ∃ log disk, openLog options store.close.disk = (.ok log, disk) := by
  obtain ⟨hdir, hsize, layout, htracks, hclean⟩ := h.tracks
  refine ⟨fun records result store' happend => htracks.append_ok happend,
    fun offset hzero hnext => htracks.exists_acked hzero hnext, fun appended hmem => ?_,
    fun offset hnext maxBytes => ⟨_, htracks.rep.read_past hnext maxBytes⟩, ?_⟩
  · obtain ⟨batch, hbatch, hwrote, hread⟩ := htracks.read_acked hmem
    obtain ⟨hbase, -, hcontent⟩ := hwrote.batch_eq
    have hvalid := htracks.rep.holds.chain.valid batch hbatch
    refine ⟨batch, batch.bytes, hwrote, hvalid.encodeRecordBatch, hbase, hcontent,
      fun offset hoffset maxBytes hmax => ?_⟩
    rw [hvalid.length_bytes] at hmax
    exact hread offset hoffset maxBytes (le_of_max_le_left hmax) (le_of_max_le_right hmax)
  · obtain ⟨log, disk, hopen, -⟩ := htracks.reopen hdir hsize (Tracks.close_logs store) (hclean.recoverable _)
    exact ⟨log, disk, hopen⟩

/-- A log that rolls, is closed and opened again, and keeps both batches. -/
theorem reads_return_appended_two :
    ∃ store acked, Reaches { dataDir := "log", segmentBytes := 60, indexIntervalBytes := 0 } store acked ∧
      store.log.segments.length = 2 ∧ acked.length = 2 ∧ ∃ appended ∈ acked, appended.Holds 1 := by
  have hrun : (runCalls { dataDir := "log", segmentBytes := 60, indexIntervalBytes := 0 }
      [.append [⟨7, [], [1], 0⟩], .reopen, .append [⟨8, [2], [], 0⟩]]).any (fun state =>
        decide (state.1.log.segments.length = 2 ∧ state.2.length = 2 ∧ 1 < state.1.log.nextOffset)) = true := by
    decide +kernel
  obtain ⟨⟨store, acked⟩, hstate, hcheck⟩ := Option.any_eq_true _ _ |>.mp hrun
  obtain ⟨hsegments, hacked, hnext⟩ := of_decide_eq_true hcheck
  have hreaches := reaches_of_runCalls hstate
  exact ⟨store, acked, hreaches, hsegments, hacked,
    (reads_return_appended hreaches).2.1 1 (by decide) hnext⟩

end LogMq
