import LogMq.StorageBatchFlip
import LogMq.StorageRecovered
import LogMq.StorageRuns

/-! One flipped bit in a segment file, and strict recovery. Every bit of a file belongs to a batch. Most
flips make that batch undecodable and the directory is refused; the two kinds that are not refused lose
or move the batch. -/

namespace LogMq

open SparseIndex Alteration LittleEndian

def flipBit (content : Bytes) (position : Nat) (bit : Fin 8) : Bytes :=
  content.modify position fun byte => byte ^^^ (1 <<< UInt8.ofNat bit)

theorem altered_flipBit {content : Bytes} {position : Nat} (h : position < content.length) (bit : Fin 8) :
    Altered position content (flipBit content position bit) := by
  have hmask : (1 <<< UInt8.ofNat bit : UInt8) ≠ 0 := by
    revert bit
    decide
  have hne : content[position] ≠ content[position] ^^^ (1 <<< UInt8.ofNat bit) := by
    intro heq
    refine hmask (UInt8.xor_right_inj content[position] |>.mp ?_)
    rw [UInt8.xor_zero, ← heq]
  refine ⟨content.take position, content[position], _, content.drop (position + 1), hne,
    List.length_take_of_le h.le, ?_, List.modify_eq_take_cons_drop h⟩
  rw [← List.drop_eq_getElem_cons h, List.take_append_drop]

/-! ### The altered base offset -/

/-- An altered base offset passes the checks of the index: it is not below the base offset of the segment,
it is above the last entry in front of the batch, and it is below the base offset of the next batch if the
batch itself becomes an entry. -/
def BaseAccepted (interval : Nat) (segmentBase : Int) (before after : List RecordBatch) (altered : Int) : Prop :=
  segmentBase ≤ altered ∧
    (∀ last, (build IndexEntry.position interval (placed 0 before)).getLast? = some last → last.offset < altered) ∧
    ((∀ last, (build IndexEntry.position interval (placed 0 before)).getLast? = some last →
        interval ≤ totalBytes before - last.position) →
      ∀ next rest, after = next :: rest → altered < next.baseOffset)

theorem offerAll_altered {interval : Nat} (hinterval : 0 < interval) {base stop altered : Int} (hbase : 0 ≤ base)
    {before after : List RecordBatch} {batch : RecordBatch} (hchain : Chain base (before ++ batch :: after) stop) :
    (∃ index, offerAll (placed 0 (before ++ { batch with baseOffset := altered } :: after))
        (OffsetIndex.create base interval) = .ok index) ↔
      BaseAccepted interval base before after altered := by
  obtain ⟨mid, hbefore, hvalid, rfl, hafter⟩ := chain_append.mp hchain
  have hcreate : OffsetIndex.create base interval = ⟨base, interval, []⟩ := by
    rw [OffsetIndex.create, if_neg hinterval.ne']
  have hfirst : offerAll (placed 0 before) ⟨base, interval, []⟩ =
      .ok ⟨base, interval, build IndexEntry.position interval (placed 0 before)⟩ :=
    hbefore.offerAll_eq hbase (le_refl _) (fun _ hlast => by cases hlast) hinterval
  have hold : ∀ last, (build IndexEntry.position interval (placed 0 before)).getLast? = some last →
      last.offset < batch.baseOffset ∧ last.position ≤ totalBytes before := by
    intro last hlast
    obtain ⟨pre, found, post, hsplit, rfl⟩ := mem_placed ((build_sublist _).subset (List.mem_of_getLast? hlast))
    have hmem : found ∈ before := hsplit ▸ List.mem_append_right _ List.mem_cons_self
    have hlt := (hbefore.valid found hmem).lt_endOffset
    have hend := (hbefore.bounds hmem).2
    refine ⟨hlt.trans_le hend, ?_⟩
    rw [hsplit, totalBytes_append, Nat.zero_add]
    exact Nat.le_add_right _ _
  rw [placed_append, Nat.zero_add, placed, offerAll_append, hcreate, hfirst]
  change (∃ index, (OffsetIndex.maybeAppend _ altered (totalBytes before) >>=
    offerAll (placed (totalBytes before + batch.batchBytes) after)) = .ok index) ↔ _
  constructor
  · rintro ⟨index, hindex⟩
    obtain ⟨added, hadded, hrest⟩ := Result.bind_eq_ok.mp hindex
    obtain ⟨⟨-, hlow, hlast⟩, rfl⟩ := OffsetIndex.maybeAppend_eq_ok.mp hadded
    refine ⟨hlow, fun last h => (hlast last h).1, fun henters next rest hnext => ?_⟩
    rw [hnext, placed, offerAll] at hrest
    obtain ⟨_, hnextAdded, -⟩ := Result.bind_eq_ok.mp hrest
    obtain ⟨-, -, haccepts⟩ := OffsetIndex.accepts_of_maybeAppend hnextAdded
    refine (haccepts ⟨altered, totalBytes before⟩ ?_).1
    change (add _ _ _ _).getLast? = _
    rw [add_of_far henters, List.getLast?_concat]
  · rintro ⟨hlow, hlast, henters⟩
    have haccepts : OffsetIndex.Accepts ⟨base, interval, build IndexEntry.position interval (placed 0 before)⟩
        altered (totalBytes before) := ⟨hbase, hlow, fun last h => ⟨hlast last h, (hold last h).2⟩⟩
    rw [OffsetIndex.maybeAppend_of_accepts haccepts]
    cases after with
    | nil => exact ⟨_, rfl⟩
    | cons next rest =>
        have hlt := hvalid.lt_endOffset
        refine ⟨_, hafter.offerAll_eq hbase ((hbefore.le.trans hlt.le) : base ≤ batch.endOffset)
          (fun last hadded => ?_) hinterval⟩
        obtain ⟨added, hget, hclose, hor⟩ := @getLast?_add _ IndexEntry.position _ hinterval
          (build IndexEntry.position interval (placed 0 before)) ⟨altered, totalBytes before⟩
        cases Option.some.inj (hget.symm.trans hadded)
        by_cases hfar : ∀ last, (build IndexEntry.position interval (placed 0 before)).getLast? = some last →
            interval ≤ totalBytes before - last.position
        · rw [add_of_far hfar, List.getLast?_concat] at hget
          cases Option.some.inj hget
          exact ⟨hafter.2.1 ▸ henters hfar next rest rfl, Nat.le_add_right _ _⟩
        · push Not at hfar
          obtain ⟨last, hlast', hnear⟩ := hfar
          rw [add, hlast'] at hget
          dsimp only at hget
          rw [if_pos hnear, hlast'] at hget
          cases Option.some.inj hget
          obtain ⟨hoffset, hposition⟩ := hold _ hlast'
          exact ⟨hoffset.trans hlt, hposition.trans (Nat.le_add_right _ _)⟩

/-! ### The damaged file -/

theorem exists_batch_at {batches : List RecordBatch} {position : Nat} (h : position < totalBytes batches) :
    ∃ before batch after field, batches = before ++ batch :: after ∧ position = totalBytes before + field ∧
      field < batch.batchBytes := by
  induction batches generalizing position with
  | nil => exact absurd h (Nat.not_lt_zero _)
  | cons head rest ih =>
      by_cases hlt : position < head.batchBytes
      · exact ⟨[], head, rest, position, rfl, (Nat.zero_add _).symm, hlt⟩
      · rw [totalBytes] at h
        obtain ⟨before, batch, after, field, rfl, hposition, hfield⟩ := ih (by omega :
          position - head.batchBytes < totalBytes rest)
        exact ⟨head :: before, batch, after, field, rfl, by rw [totalBytes]; omega, hfield⟩

/-- A changed byte of a segment file damages one batch and leaves the others. -/
theorem exists_damage {before after : List RecordBatch} {batch : RecordBatch}
    (hvalid : ∀ other ∈ before ++ batch :: after, other.Valid) {field : Nat} (hfield : field < batch.batchBytes)
    {content : Bytes}
    (h : Altered (totalBytes before + field) ((before ++ batch :: after).flatMap RecordBatch.bytes) content) :
    ∃ damaged, BatchDamage batch field damaged ∧
      content = before.flatMap RecordBatch.bytes ++ (damaged ++ after.flatMap RecordBatch.bytes) := by
  have hbefore := length_flatMap_bytes fun b hb => hvalid b (List.mem_append_left _ hb)
  have hbatch := hvalid batch (List.mem_append_right _ List.mem_cons_self)
  rw [List.flatMap_append, List.flatMap_cons] at h
  obtain ⟨tail, htail, rfl⟩ := h.split_right (by rw [hbefore]; exact Nat.le_add_right _ _)
  rw [hbefore, Nat.add_sub_cancel_left] at htail
  obtain ⟨damaged, hdamaged, rfl⟩ := htail.split_left (by rw [hbatch.length_bytes]; exact hfield)
  exact ⟨damaged, batchDamage_of_altered hdamaged, rfl⟩

theorem stops_of_length_le {content : Bytes} {position : Nat} (h : content.length ≤ position) :
    Stops content position := by
  rw [stops_iff, List.drop_eq_nil_of_le h]
  intro batch hdecodes
  exact absurd hdecodes.header (by decide)

/-- The batch at the offset its damaged header names. -/
def movedBatch (batch : RecordBatch) (data : Bytes) : RecordBatch :=
  { batch with baseOffset := offsetOfUInt64 (leField data 4 8) }

section File

variable {base : Int} {before after : List RecordBatch} {batch : RecordBatch} {damaged : Bytes} {field : Nat}
variable (hbase : 0 ≤ base) (hvalid : ∀ other ∈ before ++ batch :: after, other.Valid)
variable (hdamage : BatchDamage batch field damaged)

include hbase hvalid hdamage

/-- A file whose damaged batch still decodes is read to its end. -/
theorem exists_scan_moved (hfield : 4 ≤ field ∧ field < 12) :
    ∃ scan : Scan,
      scan.file = (base, before.flatMap RecordBatch.bytes ++ (damaged ++ after.flatMap RecordBatch.bytes)) ∧
      scan.batches = before ++ movedBatch batch (damaged ++ after.flatMap RecordBatch.bytes) :: after ∧
      scan.content.length ≤ totalBytes scan.batches := by
  have hbatch := hvalid batch (List.mem_append_right _ List.mem_cons_self)
  have hbefore : ∀ b ∈ before, b.Valid := fun b hb => hvalid b (List.mem_append_left _ hb)
  have hafter : ∀ b ∈ after, b.Valid := fun b hb =>
    hvalid b (List.mem_append_right _ (List.mem_cons_of_mem _ hb))
  have hfront : (before.flatMap RecordBatch.bytes ++ damaged).length = totalBytes before + batch.batchBytes := by
    rw [List.length_append, length_flatMap_bytes hbefore, hdamage.length_eq hbatch]
  have htotal : totalBytes (before ++ movedBatch batch (damaged ++ after.flatMap RecordBatch.bytes) :: after) =
      (before.flatMap RecordBatch.bytes ++ (damaged ++ after.flatMap RecordBatch.bytes)).length := by
    rw [← List.append_assoc, List.length_append, hfront, length_flatMap_bytes hafter, totalBytes_append, totalBytes,
      Nat.add_assoc]
    rfl
  have hlaid : LaidOut (before.flatMap RecordBatch.bytes ++ (damaged ++ after.flatMap RecordBatch.bytes)) 0
      (before ++ movedBatch batch (damaged ++ after.flatMap RecordBatch.bytes) :: after) := by
    refine laidOut_append.mpr ⟨laidOut_bytes hbefore [] _, ?_, ?_⟩
    · rw [Nat.zero_add, ← length_flatMap_bytes hbefore, List.drop_left]
      exact (hdamage.decodes hbatch _ hfield).2
    · have hrest := laidOut_bytes hafter (before.flatMap RecordBatch.bytes ++ damaged) []
      rw [List.append_nil, List.append_assoc, hfront] at hrest
      rw [Nat.zero_add]
      exact hrest
  exact ⟨⟨base, _, _, hbase, hlaid, stops_of_length_le htotal.ge⟩, rfl, rfl, htotal.ge⟩

/-- A file whose damaged batch does not decode is read up to that batch. -/
theorem readable_lost (hfield : ¬(4 ≤ field ∧ field < 12)) :
    Chunk.Readable ⟨base, before, damaged ++ after.flatMap RecordBatch.bytes⟩ := by
  have hbatch := hvalid batch (List.mem_append_right _ List.mem_cons_self)
  refine ⟨hbase, fun b hb => hvalid b (List.mem_append_left _ hb), ?_⟩
  rw [stops_iff]
  exact hdamage.not_decodes hbatch _ hfield

end File

/-! ### The damaged directory -/

/-- The flips that strict recovery lets pass: an altered base offset that the index accepts, and in the
active segment an altered size that points past the end of the file. `data` is the file from the front of
the damaged batch on, and `field` the position in it. -/
inductive Undetected (interval : Nat) (segmentBase : Int) (active : Prop) (before after : List RecordBatch)
    (field : Nat) (data : Bytes) : Prop
  | base (hfield : 4 ≤ field ∧ field < 12)
      (haccepted : BaseAccepted interval segmentBase before after (offsetOfUInt64 (leField data 4 8)))
  | size (hactive : active) (hfield : 20 ≤ field ∧ field < 28)
      (hlarge : data.length < leField data (4 + 8 + 8) 8)

/-- The damaged file is accepted exactly where the damage goes undetected, and then the batch is not found
at its offset. -/
theorem exists_scan_damaged {options : CommitLogOptions} (hinterval : 0 < options.indexIntervalBytes)
    (hstrict : options.strictRecovery = true) {base stop : Int} (hbase : 0 ≤ base)
    {before after : List RecordBatch} {batch : RecordBatch} (hchain : Chain base (before ++ batch :: after) stop)
    {field : Nat} {damaged : Bytes} (hdamage : BatchDamage batch field damaged) :
    ∃ scan : Scan,
      scan.file = (base, before.flatMap RecordBatch.bytes ++ (damaged ++ after.flatMap RecordBatch.bytes)) ∧
      (∀ active, scan.recover options active = .ok (scan.index options.indexIntervalBytes) ↔
        Undetected options.indexIntervalBytes base (active = true) before after field
          (damaged ++ after.flatMap RecordBatch.bytes)) ∧
      ∀ other ∈ scan.batches, other.baseOffset ≠ batch.baseOffset := by
  have hvalid := hchain.valid
  have hbatch := hvalid batch (List.mem_append_right _ List.mem_cons_self)
  obtain ⟨hpre, hpost⟩ := hchain.order
  have hbeforeNe : ∀ other ∈ before, other.baseOffset ≠ batch.baseOffset := by
    intro other hother
    have hlt := (hvalid other (List.mem_append_left _ hother)).lt_endOffset
    have hle := hpre other hother
    omega
  have hafterNe : ∀ other ∈ after, other.baseOffset ≠ batch.baseOffset := by
    intro other hother
    have hlt := hbatch.lt_endOffset
    have hle := hpost other hother
    omega
  by_cases hfield : 4 ≤ field ∧ field < 12
  · obtain ⟨scan, hfile, hbatches, hlength⟩ := exists_scan_moved hbase hvalid hdamage hfield
    refine ⟨scan, hfile, fun active => ?_, ?_⟩
    · have hcheck : checkStop options scan.content active (totalBytes scan.batches) = .ok () :=
        (checkStop_eq_ok scan.stops).mpr fun _ => Or.inl hlength
      have hscanBase : scan.base = base := congrArg Prod.fst hfile
      rw [Scan.recover_index_iff hinterval, hbatches, hscanBase, movedBatch, offerAll_altered hinterval hbase hchain]
      constructor
      · exact fun haccepted => .base hfield haccepted.1
      · rintro (⟨-, haccepted⟩ | ⟨-, hsize, -⟩)
        · exact ⟨haccepted, hbatches ▸ hcheck⟩
        · omega
    · rw [hbatches]
      intro other hother
      rcases List.mem_append.mp hother with hother | hother
      · exact hbeforeNe other hother
      · rcases List.mem_cons.mp hother with rfl | hother
        · exact (hdamage.decodes hbatch _ hfield).1
        · exact hafterNe other hother
  · have hreadable := readable_lost hbase hvalid hdamage hfield
    obtain ⟨mid, hbefore, -⟩ := chain_append.mp hchain
    refine ⟨Chunk.scan _ hreadable, rfl, fun active => ⟨fun hrecover => ?_, fun hundetected => ?_⟩, hbeforeNe⟩
    · have hdrop := Chunk.content_drop hreadable.valid
      rcases Scan.tail_of_recover hinterval hstrict hrecover with hnil | ⟨hactive, htorn⟩
      · have hlength := congrArg List.length (hdrop.symm.trans hnil)
        rw [List.length_append, hdamage.length_eq hbatch, List.length_nil] at hlength
        have hpos := hbatch.size_pos
        omega
      · obtain ⟨hsize, hlarge⟩ := (hdamage.torn_iff hbatch _).mp (hdrop ▸ htorn)
        exact .size hactive hsize hlarge
    · cases hundetected with
      | base hbaseField _ => exact absurd hbaseField hfield
      | size hactive hsize hlarge =>
          exact Chunk.recover_scan hreadable hinterval hbefore fun _ =>
            Or.inr ⟨hactive, (hdamage.torn_iff hbatch _).mpr ⟨hsize, hlarge⟩⟩

/-- `Open` fails, or every acknowledged batch reads back at its offset with its records. -/
def BatchesIntact (options : CommitLogOptions) (disk : Disk) (acked : List Appended) : Prop :=
  ∀ log disk', openLog options disk = (.ok log, disk') → ∀ appended ∈ acked, ∀ offset, appended.Holds offset →
    ∀ encoded maxBytes,
      makeRecordBatch appended.result.baseOffset appended.records >>= encodeRecordBatch = .ok encoded →
      max encoded.length options.indexIntervalBytes ≤ maxBytes →
      ∃ batch, Store.read ⟨log, disk'⟩ offset maxBytes = .ok batch ∧
        batch.baseOffset = appended.result.baseOffset ∧
        batch.records.map Record.content = appended.records.map Record.content

theorem isEmpty_of_map_eq {α β γ : Type} {left : List α} {right : List β} {f : α → γ} {g : β → γ}
    (h : left.map f = right.map g) : left.isEmpty = right.isEmpty := by
  rw [← List.isEmpty_map (f := f), h, List.isEmpty_map]

/-- Clean segments are accepted in any role. -/
theorem Tracks.exists_scans {options : CommitLogOptions} {store : Store} {layout : Layout} {acked : List Appended}
    (h : Tracks options store layout acked) (hclean : layout.Clean) {reopened : CommitLogOptions}
    (hinterval : 0 < reopened.indexIntervalBytes) {chunks : List Chunk}
    (hmem : ∀ chunk ∈ chunks, chunk ∈ layout.chunks) :
    ∃ scans : List Scan, scans.map Scan.file = chunks.map Chunk.file ∧
      scans.map Scan.batches = chunks.map Chunk.batches ∧
      ∀ scan ∈ scans, ∀ active, scan.recover reopened active = .ok (scan.index reopened.indexIntervalBytes) := by
  have hreadable : ∀ chunk ∈ chunks, chunk.Readable := fun chunk hchunk =>
    h.rep.holds.readable (hmem chunk hchunk) (hclean chunk (hmem chunk hchunk) ▸ stops_nil)
  refine ⟨chunks.pmap Chunk.scan hreadable, ?_, ?_, fun scan hscan active => ?_⟩
  · rw [List.map_pmap]
    exact List.pmap_eq_map (f := Chunk.file) hreadable
  · rw [List.map_pmap]
    exact List.pmap_eq_map (f := Chunk.batches) hreadable
  · obtain ⟨chunk, hchunk, rfl⟩ := List.mem_pmap.mp hscan
    obtain ⟨mid, hchain, -⟩ := h.rep.holds.chunk_chain (hmem chunk hchunk)
    exact Chunk.recover_scan _ hinterval hchain fun _ => Or.inl (hclean chunk (hmem chunk hchunk))

/-- A batch that recovery does not find at its offset is lost. -/
theorem Tracks.not_intact {options : CommitLogOptions} {store : Store} {layout : Layout} {acked : List Appended}
    (h : Tracks options store layout acked) (hclean : layout.Clean) {reopened : CommitLogOptions}
    (hdir : reopened.dataDir ≠ "") (hsize : recordBatchHeaderBytes ≤ reopened.segmentBytes)
    {before after : List Chunk} {chunk : Chunk} (hchunks : layout.chunks = before ++ chunk :: after)
    {front back : List RecordBatch} {batch : RecordBatch} (hbatches : chunk.batches = front ++ batch :: back)
    {disk : Disk} {scan : Scan}
    (hentries : disk.logs.entries = before.map Chunk.file ++ scan.file :: after.map Chunk.file)
    (hrecover : scan.recover reopened.normalized after.isEmpty =
      .ok (scan.index reopened.normalized.indexIntervalBytes))
    (hlost : ∀ other ∈ scan.batches, other.baseOffset ≠ batch.baseOffset) :
    ¬BatchesIntact reopened disk acked := by
  have hinterval := reopened.normalized_interval_pos
  obtain ⟨left, hleftFiles, hleftBatches, hleft⟩ := @Tracks.exists_scans _ _ _ _ h hclean _ hinterval before
    fun c hc => hchunks ▸ List.mem_append_left _ hc
  obtain ⟨right, hrightFiles, hrightBatches, hright⟩ := @Tracks.exists_scans _ _ _ _ h hclean _ hinterval after
    fun c hc => hchunks ▸ List.mem_append_right _ (List.mem_cons_of_mem _ hc)
  have hfiles : disk.logs.entries = (left ++ scan :: right).map Scan.file := by
    rw [hentries, List.map_append, List.map_cons, hleftFiles, hrightFiles]
  have hempty := isEmpty_of_map_eq hrightFiles
  have haccepted : Accepted reopened.normalized (left ++ scan :: right) :=
    accepted_append_cons (fun other hother => hleft other hother false) (hempty ▸ hrecover)
      (accepted_of_forall hright)
  obtain ⟨disk', hopen, hkept⟩ := openLog_of_accepted hdir hsize
    (List.append_ne_nil_of_right_ne_nil _ (List.cons_ne_nil _ _)) hfiles haccepted
  have hsorted : (left ++ scan :: right).Pairwise fun l r => l.base < r.base := by
    have hdisk := disk.logs.sorted
    rw [hfiles] at hdisk
    exact (List.pairwise_map (f := Scan.file) (R := fun l r => l.1 < r.1)).mp hdisk
  have hchain := h.rep.holds.chain
  have hall : layout.batches = (before.flatMap Chunk.batches ++ front) ++ batch ::
      (back ++ after.flatMap Chunk.batches) := by
    rw [Layout.batches, hchunks, List.flatMap_append, List.flatMap_cons, hbatches]
    simp only [List.append_assoc, List.cons_append]
  have hbatch : batch ∈ layout.batches := hall ▸ List.mem_append_right _ List.mem_cons_self
  obtain ⟨appended, happended, hwrote⟩ := exists_related h.wrote.flip hbatch
  obtain ⟨hbase, hend, -⟩ := Appended.Wrote.batch_eq hwrote
  have hvalid := hchain.valid
  have hlt := (hvalid batch hbatch).lt_endOffset
  intro hintact
  obtain ⟨found, hread, hfound, -⟩ := hintact _ _ hopen appended happended batch.baseOffset
    ⟨hbase.ge, hlt.trans_eq hend⟩ batch.bytes _
    (Result.bind_eq_ok.mpr ⟨batch, hwrote, (hvalid batch hbatch).encodeRecordBatch⟩) (le_refl _)
  rw [← hbase] at hfound
  obtain ⟨⟨other, hother, hmem⟩, -⟩ := read_recovered_mem hkept hsorted hread
  rw [hall] at hchain hvalid
  obtain ⟨hpre, hpost⟩ := hchain.order
  rcases List.mem_append.mp hother with hother | hother
  · obtain ⟨c, hc, hcbatches⟩ := List.mem_map.mp (hleftBatches ▸ List.mem_map_of_mem (f := Scan.batches) hother)
    have hin : found ∈ before.flatMap Chunk.batches := List.mem_flatMap.mpr ⟨c, hc, hcbatches ▸ hmem⟩
    have hle := hpre found (List.mem_append_left _ hin)
    have hfoundLt := (hvalid found (List.mem_append_left _ (List.mem_append_left _ hin))).lt_endOffset
    omega
  · rcases List.mem_cons.mp hother with rfl | hother
    · exact hlost found hmem hfound
    · obtain ⟨c, hc, hcbatches⟩ := List.mem_map.mp (hrightBatches ▸ List.mem_map_of_mem (f := Scan.batches) hother)
      have hin : found ∈ after.flatMap Chunk.batches := List.mem_flatMap.mpr ⟨c, hc, hcbatches ▸ hmem⟩
      have hle := hpost found (List.mem_append_right _ hin)
      omega

/-- A directory with one damaged file opens only if that file is accepted. -/
theorem Tracks.recover_of_openLog {options : CommitLogOptions} {store : Store} {layout : Layout}
    {acked : List Appended} (h : Tracks options store layout acked) (hclean : layout.Clean)
    {reopened : CommitLogOptions} (hdir : reopened.dataDir ≠ "")
    (hsize : recordBatchHeaderBytes ≤ reopened.segmentBytes) {before after : List Chunk} {chunk : Chunk}
    (hchunks : layout.chunks = before ++ chunk :: after) {disk disk' : Disk} {scan : Scan} {log : CommitLog}
    (hentries : disk.logs.entries = before.map Chunk.file ++ scan.file :: after.map Chunk.file)
    (hopen : openLog reopened disk = (.ok log, disk')) :
    scan.recover reopened.normalized after.isEmpty =
      .ok (scan.index reopened.normalized.indexIntervalBytes) := by
  have hinterval := reopened.normalized_interval_pos
  obtain ⟨left, hleft, -⟩ := @Tracks.exists_scans _ _ _ _ h hclean _ hinterval before
    fun c hc => hchunks ▸ List.mem_append_left _ hc
  obtain ⟨right, hright, -⟩ := @Tracks.exists_scans _ _ _ _ h hclean _ hinterval after
    fun c hc => hchunks ▸ List.mem_append_right _ (List.mem_cons_of_mem _ hc)
  have hfiles : disk.logs.entries = (left ++ scan :: right).map Scan.file := by
    rw [hentries, List.map_append, List.map_cons, hleft, hright]
  obtain ⟨haccepted, -⟩ := recovered_of_openLog hdir hsize
    (List.append_ne_nil_of_right_ne_nil _ (List.cons_ne_nil _ _)) hfiles hopen
  rw [← isEmpty_of_map_eq hright]
  exact haccepted.recover

/-- The last segment is the one with nothing behind it. -/
theorem Rep.getLast_iff {options : CommitLogOptions} {store : Store} {layout : Layout} (h : Rep options store layout)
    {before after : List Chunk} {chunk : Chunk} (hchunks : layout.chunks = before ++ chunk :: after) :
    store.log.segments.getLast? = some chunk.segment ↔ after.isEmpty = true := by
  rw [List.isEmpty_iff, h.segments, hchunks, List.map_append, List.map_cons]
  constructor
  · intro hlast
    rcases List.eq_nil_or_concat after with rfl | ⟨rest, last, rfl⟩
    · rfl
    · rw [List.concat_eq_append, List.map_append, List.map_singleton, ← List.cons_append, ← List.append_assoc,
        List.getLast?_concat] at hlast
      have hsorted := h.holds.bases_sorted
      rw [hchunks] at hsorted
      have hlt := (List.pairwise_cons.mp (List.pairwise_append.mp hsorted).2.1).1 last
        (by rw [List.concat_eq_append]; exact List.mem_append_right _ (List.mem_singleton_self _))
      exact absurd (congrArg Segment.baseOffset (Option.some.inj hlast)) hlt.ne'
  · rintro rfl
    exact List.getLast?_concat

/-- **Bit flips.** The flipped bit lies in some batch; strict recovery fails or keeps all batches intact
exactly if it is neither an altered base offset that the index accepts nor, in the active segment, an
altered size that points past the end of the file. -/
theorem flip_intact_iff {options : CommitLogOptions} {store : Store} {acked : List Appended}
    (h : Reaches options store acked) {segment : Segment} (hsegment : segment ∈ store.log.segments)
    {position : Nat} (hposition : position < (store.disk.content segment.baseOffset).length) (bit : Fin 8)
    {disk : Disk} (hdisk : disk.logs = store.disk.logs.insert segment.baseOffset
      (flipBit (store.disk.content segment.baseOffset) position bit)) :
    ∃ before batch after stop field, Chain segment.baseOffset (before ++ batch :: after) stop ∧
      store.disk.content segment.baseOffset = (before ++ batch :: after).flatMap RecordBatch.bytes ∧
      position = (before.flatMap RecordBatch.bytes).length + field ∧ field < batch.bytes.length ∧
      (BatchesIntact { options with strictRecovery := true } disk acked ↔
        ¬Undetected options.normalized.indexIntervalBytes segment.baseOffset
          (store.log.segments.getLast? = some segment) before after field
          ((flipBit (store.disk.content segment.baseOffset) position bit).drop
            (before.flatMap RecordBatch.bytes).length)) := by
  obtain ⟨hdir, hbytes, layout, htracks, hclean⟩ := h.tracks
  have hrep := htracks.rep
  rw [hrep.segments] at hsegment
  obtain ⟨chunk, hmem, rfl⟩ := List.mem_map.mp hsegment
  obtain ⟨prior, later, hchunks⟩ := List.append_of_mem hmem
  obtain ⟨stop, hchain, hbase, -⟩ := hrep.holds.chunk_chain hmem
  have hcontent : store.disk.content chunk.segment.baseOffset = chunk.batches.flatMap RecordBatch.bytes := by
    change store.disk.content chunk.base = _
    rw [Disk.content, hrep.files chunk hmem, Option.getD_some, Chunk.content, hclean chunk hmem, List.append_nil]
    rfl
  have hposition' := hposition
  rw [hcontent, length_flatMap_bytes hchain.valid] at hposition'
  obtain ⟨before, batch, after, field, hsplit, hfield, hlt⟩ := exists_batch_at hposition'
  have halter := altered_flipBit hposition bit
  rw [hsplit] at hchain hcontent
  have hvalid := hchain.valid
  have hbefore := length_flatMap_bytes fun b hb => hvalid b (List.mem_append_left _ hb)
  have hbatch := hvalid batch (List.mem_append_right _ List.mem_cons_self)
  rw [hfield, hcontent] at halter
  obtain ⟨damaged, hdamage, hflip⟩ := exists_damage hvalid hlt halter
  rw [← hcontent, ← hfield] at hflip
  have hdropped : (flipBit (store.disk.content chunk.segment.baseOffset) position bit).drop
      (before.flatMap RecordBatch.bytes).length = damaged ++ after.flatMap RecordBatch.bytes := by
    rw [hflip, List.drop_left]
  obtain ⟨scan, hfile, hkey, hlost⟩ := exists_scan_damaged
    (CommitLogOptions.normalized_interval_pos { options with strictRecovery := true })
    (CommitLogOptions.normalized_strict _) hbase hchain hdamage
  have hold : store.disk.logs.entries = prior.map Chunk.file ++ chunk.file :: later.map Chunk.file := by
    rw [htracks.exact, hchunks, List.map_append, List.map_cons]
  have hentries : disk.logs.entries = prior.map Chunk.file ++ scan.file :: later.map Chunk.file := by
    rw [hdisk, hfile, ← hflip]
    exact SortedMap.entries_insert_present hold _
  refine ⟨before, batch, after, stop, field, hchain, hcontent, hbefore ▸ hfield, hbatch.length_bytes ▸ hlt, ?_⟩
  rw [hdropped, ← options.normalized_strict_interval true, propext (hrep.getLast_iff hchunks),
    show chunk.segment.baseOffset = chunk.base from rfl, ← hkey]
  constructor
  · intro hintact hrecover
    exact @Tracks.not_intact _ _ _ _ htracks hclean { options with strictRecovery := true } hdir hbytes _ _ _ hchunks
      _ _ _ hsplit _ _ hentries hrecover hlost hintact
  · intro hrefused log disk' hopen
    exact absurd (@Tracks.recover_of_openLog _ _ _ _ htracks hclean { options with strictRecovery := true } hdir
      hbytes _ _ _ hchunks _ _ _ _ hentries hopen) hrefused

/-- A flipped bit of the magic number is noticed. -/
theorem flip_intact_magic :
    ∃ store acked, Reaches { dataDir := "log" } store acked ∧ acked.length = 1 ∧
      BatchesIntact { dataDir := "log", strictRecovery := true }
        { logs := store.disk.logs.insert 0 (flipBit (store.disk.content 0) 0 0) } acked := by
  have hrun : (runCalls { dataDir := "log" } [.append [⟨7, [], [], 0⟩]]).any (fun state =>
      decide (state.2.length = 1 ∧ state.1.log.segments = [⟨0, 52, false⟩] ∧
        (state.1.disk.content 0).length = 52)) = true := by
    decide +kernel
  obtain ⟨⟨store, acked⟩, hstate, hcheck⟩ := Option.any_eq_true _ _ |>.mp hrun
  obtain ⟨hacked, hsegments, hlength⟩ := of_decide_eq_true hcheck
  have hreaches := reaches_of_runCalls hstate
  obtain ⟨before, batch, after, stop, field, -, -, hposition, -, hiff⟩ := @flip_intact_iff _ _ _ hreaches
    ⟨0, 52, false⟩ (hsegments ▸ List.mem_singleton_self _) 0 (Nat.lt_of_lt_of_eq (by decide) hlength.symm) 0
    { logs := store.disk.logs.insert 0 (flipBit (store.disk.content 0) 0 0) } rfl
  refine ⟨store, acked, hreaches, hacked, hiff.mpr ?_⟩
  rintro (⟨hfield, -⟩ | ⟨-, hfield, -⟩)
  · omega
  · omega

/-- A flipped bit in the size of the only batch makes strict recovery drop the batch. -/
theorem flip_loses_batch :
    ∃ store acked, Reaches { dataDir := "log" } store acked ∧
      ¬BatchesIntact { dataDir := "log", strictRecovery := true }
        { logs := store.disk.logs.insert 0 (flipBit (store.disk.content 0) 27 7) } acked := by
  have hrun : (runCalls { dataDir := "log" } [.append [⟨7, [], [], 0⟩]]).any (fun state =>
      decide (state.2.map (fun appended => (appended.records, appended.result.baseOffset)) =
        [([⟨7, [], [], 0⟩], (0 : Int))]) &&
      (openLog { dataDir := "log", strictRecovery := true }
          { logs := state.1.disk.logs.insert 0 (flipBit (state.1.disk.content 0) 27 7) }).1.toOption.any fun log =>
        decide (log.nextOffset = (0 : Int))) = true := by
    decide +kernel
  obtain ⟨⟨store, acked⟩, hstate, hcheck⟩ := Option.any_eq_true _ _ |>.mp hrun
  obtain ⟨hacked, hopened⟩ := Bool.and_eq_true_iff.mp hcheck
  refine ⟨store, acked, reaches_of_runCalls hstate, fun hintact => ?_⟩
  obtain ⟨appended, hmem, happended⟩ := List.mem_map.mp
    (of_decide_eq_true hacked ▸ List.mem_singleton_self _)
  obtain ⟨hrecords, hbase⟩ := Prod.ext_iff.mp happended
  obtain ⟨encoded, hencoded⟩ : ∃ encoded,
      makeRecordBatch 0 [⟨7, [], [], 0⟩] >>= encodeRecordBatch = .ok encoded := ⟨_, rfl⟩
  obtain ⟨log, hlog, hempty⟩ := Option.any_eq_true _ _ |>.mp hopened
  have hnext : log.nextOffset = 0 := of_decide_eq_true hempty
  dsimp only at hrecords hbase
  obtain ⟨batch, hread, -⟩ := hintact log _ (Prod.ext (Result.toOption_eq_some.mp hlog) rfl) appended hmem 0
    ⟨hbase.le, by rw [hbase, hrecords]; decide⟩ encoded _ (by rw [hbase, hrecords]; exact hencoded) (le_refl _)
  unfold Store.read at hread
  split_ifs at hread with hclosed hneg hpast
  exact hpast hnext.le

end LogMq
