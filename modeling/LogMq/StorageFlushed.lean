import LogMq.StorageContents

/-! What a flush shelters from crashes. A mark is the base offset of the segment that was flushed, with the number of
its bytes. Appends, restarts and the crashes that keep the marked bytes all leave the sheltered offsets sheltered. -/

namespace LogMq

/-- Every crash that keeps the marked bytes keeps the batches that the active segment has below the offset. -/
def Store.Shelters (store : Store) (mark : Option (Int × Nat)) (offset : Int) : Prop :=
  ∀ kept, (∀ active bytes, store.log.segments.getLast? = some active → mark = some (active.baseOffset, bytes) →
    bytes ≤ kept) → store.KeepsBelow kept offset

/-- The same for a segment whose batches are known. -/
def Chunk.Shelters (chunk : Chunk) (mark : Option (Int × Nat)) (offset : Int) : Prop :=
  ∀ kept, (∀ bytes, mark = some (chunk.base, bytes) → bytes ≤ kept) →
    ∀ before batch after, chunk.batches = before ++ batch :: after → batch.baseOffset < offset →
      totalBytes before + batch.batchBytes ≤ kept

theorem LaidOut.unique {content : Bytes} {position : Nat} {left right : List RecordBatch}
    (hleft : LaidOut content position left) (hright : LaidOut content position right)
    (htotal : totalBytes left = totalBytes right) : left = right := by
  induction left generalizing position right with
  | nil =>
      cases right with
      | nil => rfl
      | cons batch rest =>
          have hheader := hright.1.header_le
          unfold totalBytes recordBatchHeaderBytes at *
          omega
  | cons batch rest ih =>
      cases right with
      | nil =>
          have hheader := hleft.1.header_le
          unfold totalBytes recordBatchHeaderBytes at *
          omega
      | cons other others =>
          obtain rfl := hleft.1.unique hright.1
          rw [ih hleft.2 hright.2 (Nat.add_left_cancel htotal)]

section Shelters

variable {options : CommitLogOptions} {store : Store} {layout : Layout} {mark : Option (Int × Nat)} {offset : Int}

theorem Rep.content_active (h : Rep options store layout) :
    store.disk.content layout.active.base = layout.active.content := by
  rw [Disk.content, h.files _ layout.active_mem, Option.getD_some]

/-- A log shelters what its active segment does. -/
theorem Rep.shelters_iff (h : Rep options store layout) : store.Shelters mark offset ↔ layout.active.Shelters mark offset := by
  have hlaid : LaidOut (store.disk.content layout.active.base) 0 layout.active.batches := by
    have hbytes := laidOut_bytes h.holds.active.valid [] layout.active.stale
    rwa [List.nil_append, ← Chunk.bytes, ← Chunk.content, ← h.content_active] at hbytes
  constructor
  · intro hshelters kept hmark
    refine hshelters kept (fun active bytes hactive hbytes => ?_) _ _ h.getLast_segments hlaid rfl
    cases h.getLast_segments.symm.trans hactive
    exact hmark bytes hbytes
  · intro hshelters kept hmark active batches hactive hbatches htotal
    cases h.getLast_segments.symm.trans hactive
    rw [hbatches.unique hlaid htotal]
    exact hshelters kept fun bytes hbytes => hmark _ bytes h.getLast_segments hbytes

/-- The batches of a segment that has just begun lie behind all earlier offsets. -/
theorem Chunk.shelters_of_le {chunk : Chunk} {next : Int} (h : Chain chunk.base chunk.batches next)
    (hle : offset ≤ chunk.base) (mark : Option (Int × Nat)) : chunk.Shelters mark offset := by
  intro kept _ before batch after hsplit hlt
  rw [hsplit] at h
  obtain ⟨mid, hbefore, -, rfl, -⟩ := chain_append.mp h
  have hstart := hbefore.le
  omega

/-- Fewer batches have nothing more to be sheltered. -/
theorem Chunk.Shelters.take {chunk : Chunk} (h : chunk.Shelters mark offset) {kept lost : List RecordBatch}
    (hsplit : chunk.batches = kept ++ lost) (stale : Bytes) : (⟨chunk.base, kept, stale⟩ : Chunk).Shelters mark offset := by
  intro size hmark before batch after hbatches hlt
  refine h size hmark before batch (after ++ lost) ?_ hlt
  change kept = before ++ batch :: after at hbatches
  rw [hsplit, hbatches, List.append_assoc, List.cons_append]

/-- A batch at the end of the log lies behind the offsets that the log had. -/
theorem Chunk.Shelters.concat {chunk : Chunk} (h : chunk.Shelters mark offset) {last : RecordBatch}
    (hle : offset ≤ last.baseOffset) (stale : Bytes) :
    (⟨chunk.base, chunk.batches ++ [last], stale⟩ : Chunk).Shelters mark offset := by
  intro kept hmark before batch after hsplit hlt
  change chunk.batches ++ [last] = before ++ batch :: after at hsplit
  rcases List.eq_nil_or_concat after with rfl | ⟨rest, final, rfl⟩
  · obtain ⟨-, hlast⟩ := List.append_inj' hsplit rfl
    cases hlast
    omega
  · refine h kept hmark before batch rest ?_ hlt
    rw [List.concat_eq_append, ← List.cons_append, ← List.append_assoc] at hsplit
    exact (List.append_inj' hsplit rfl).1

end Shelters

namespace Carries

variable {options : CommitLogOptions} {intact : Prop} {store : Store} {batches : List RecordBatch}
  {mark : Option (Int × Nat)} {offset : Int}

/-- **Appends**, successful or not, leave what is sheltered. -/
theorem shelters_append (h : Carries options intact store batches) (hshelters : store.Shelters mark offset)
    (hle : offset ≤ store.log.nextOffset) (records : List Record) (faults : IoFaults) :
    (store.append records faults).2.Shelters mark offset := by
  obtain ⟨layout, hrep, -, -⟩ := h
  obtain ⟨layout', houtcome, hrep', -⟩ := hrep.append_outcome records faults
  rw [hrep.shelters_iff] at hshelters
  rw [hrep'.shelters_iff]
  have hroom : ∀ {room}, Room layout store.log.nextOffset room → room.active.Shelters mark offset := by
    rintro room (rfl | ⟨-, rfl⟩)
    · exact hshelters
    · exact Chunk.shelters_of_le (show Chain store.log.nextOffset [] store.log.nextOffset from rfl) hle mark
  generalize (store.append records faults).1 = result at houtcome
  cases houtcome with
  | refused status hrefused => exact hroom hrefused
  | @torn room batch accepted status hbatch htorn hwrite =>
      have hactive : room.active.Shelters mark offset := hroom htorn
      exact hactive
  | written hbatch hwritten hfit =>
      obtain ⟨-, hbase, -, -⟩ := makeRecordBatch_eq_ok hbatch
      exact (hroom hwritten).concat (hbase.symm ▸ hle) _

/-- **Restarts** leave what is sheltered. -/
theorem shelters_reopen (h : Carries options intact store batches) (hintact : intact) {reopened : CommitLogOptions}
    {disk disk' : Disk} {log : CommitLog} (hlogs : disk.logs = store.disk.logs)
    (hopen : openLog reopened disk = (.ok log, disk')) (hshelters : store.Shelters mark offset) :
    (⟨log, disk'⟩ : Store).Shelters mark offset := by
  obtain ⟨layout, hrep, -, hexact⟩ := h
  obtain ⟨hexact, hclean⟩ := hexact hintact
  obtain ⟨hdir, hsize⟩ := openLog_ok_options hopen
  obtain ⟨_, _, hopened, -, hrep', -⟩ := openLog_layout hdir hsize hrep.holds hrep.next_le (by rw [hlogs]; exact hexact)
    (hclean.recoverable reopened)
  cases hopen.symm.trans hopened
  rw [hrep.shelters_iff] at hshelters
  exact hrep'.shelters_iff.mpr hshelters

/-- **Crashes** leave what is sheltered. -/
theorem shelters_cut (h : Carries options intact store batches) (hintact : intact) {reopened : CommitLogOptions}
    {disk : Disk} {log : CommitLog} {size : Nat} (hopen : openLog reopened (store.cut size) = (.ok log, disk))
    (hshelters : store.Shelters mark offset) : (⟨log, disk⟩ : Store).Shelters mark offset := by
  obtain ⟨layout, hrep, rfl, hexact⟩ := h
  obtain ⟨hexact, hclean⟩ := hexact hintact
  obtain ⟨hdir, hsize⟩ := openLog_ok_options hopen
  obtain ⟨kept, lost, mid, hsplit, hkept, hlost, hcontent, hkeptChain, hlostChain⟩ := hrep.exists_cut hclean size
  have hentries : Exact ⟨store.log, store.cut size⟩ (layout.cut kept lost size) := by
    refine @Rep.exact_writeActive _ _ _ _ _ hexact ?_ (by rw [Store.cut, hrep.getLast_segments]; rfl)
    change (layout.active.base, kept.flatMap RecordBatch.bytes ++ _) = _
    rw [cut_content hkeptChain.valid hkept, ← hcontent]
    rfl
  obtain ⟨_, _, hopened, -, hrep', -⟩ := @openLog_layout reopened _ _ _ hdir hsize
    (show (layout.cut kept lost size).Holds mid from ⟨hrep.holds.sealed, hkeptChain⟩)
    (hlostChain.le.trans hrep.next_le) hentries (hclean.cut_recoverable hlostChain.valid hkept hlost _)
  cases hopen.symm.trans hopened
  rw [hrep.shelters_iff] at hshelters
  exact hrep'.shelters_iff.mpr (hshelters.take hsplit _)

end Carries

end LogMq
