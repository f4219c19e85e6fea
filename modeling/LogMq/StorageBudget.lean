import LogMq.StorageFailedAppends
import LogMq.StorageInvariant

/-! The byte budget of a read. `Read` applies it to every batch between the index entry it starts from and the
batch it looks for, so whether a read succeeds depends on the batches in between. -/

namespace LogMq

open SparseIndex

/-- `Read` looks for an offset in an open segment, from some batch on, and comes across these batches. -/
structure ComesAcross (store : Store) (offset : Int) (batches : List RecordBatch) : Prop where
  opened : store.log.closed = false
  exists_start : ∃ i segment index position, findSegmentIndex store.log offset = .ok i ∧
    store.log.segments[i]? = some segment ∧ store.log.indexes[i]? = some index ∧ segment.closed = false ∧
    scanStart index offset = .ok position ∧ LaidOut (store.disk.content segment.baseOffset) position batches ∧
    position + totalBytes batches ≤ segment.writePosition

/-- A read past its checks scans a segment. -/
theorem Store.read_eq_scanSegment {store : Store} {offset : Int} {i : Nat} {segment : Segment} {index : OffsetIndex}
    {position : Nat} (hopened : store.log.closed = false) (hzero : 0 ≤ offset) (hnext : offset < store.log.nextOffset)
    (hfind : findSegmentIndex store.log offset = .ok i) (hsegment : store.log.segments[i]? = some segment)
    (hindex : store.log.indexes[i]? = some index) (hstart : scanStart index offset = .ok position) (maxBytes : Nat) :
    store.read offset maxBytes = scanSegment segment (store.disk.content segment.baseOffset) offset maxBytes
      (segment.writePosition + 1) position := by
  rw [Store.read, hopened, if_neg Bool.false_ne_true, if_neg (not_lt.mpr hzero), if_neg (not_le.mpr hnext), hfind]
  simp only [bind, Except.bind, hsegment, hindex, hstart]

/-- A successful read comes across its batch. -/
theorem Consistent.comesAcross {store : Store} {front : List Part} {last : Part} (h : Consistent store front last)
    {offset : Int} {maxBytes : Nat} {batch : RecordBatch} (hread : store.read offset maxBytes = .ok batch) :
    ∃ passed, ComesAcross store offset (passed ++ [batch]) ∧
      ∀ other ∈ passed, batchContainsOffset other offset = false ∧ other.batchBytes ≤ maxBytes := by
  have hstored := hread
  rw [Store.read] at hread
  split_ifs at hread with hclosed hneg hpast
  obtain ⟨i, hfind, hread⟩ := Result.bind_eq_ok.mp hread
  have hopened := Bool.not_eq_true _ ▸ hclosed
  cases hsegment : store.log.segments[i]? with
  | none =>
      rw [hsegment] at hread
      cases hread
  | some segment =>
      cases hindex : store.log.indexes[i]? with
      | none =>
          rw [hsegment, hindex] at hread
          cases hread
      | some index =>
          obtain ⟨part, -, skipped, rest, rfl, -, hstart, hlaid, hwritten⟩ := h.scanned hsegment hindex offset
          rw [Store.read_eq_scanSegment hopened (not_lt.mp hneg) (not_le.mp hpast) hfind hsegment hindex hstart] at hstored
          have hopen := open_of_scanSegment hstored
          rw [scanSegment_eq hopen hlaid hwritten (by omega)] at hstored
          obtain ⟨passed, others, rfl, hpassed, -⟩ := scanBatches_eq_ok.mp hstored
          refine ⟨passed, ⟨hopened, i, part.segment, _, _, hfind, hsegment, hindex, hopen, hstart, ?_, ?_⟩, hpassed⟩
          · rw [← List.singleton_append, ← List.append_assoc, laidOut_append] at hlaid
            exact hlaid.1
          · rw [← hwritten, totalBytes_append, totalBytes_append, totalBytes, totalBytes, totalBytes]
            omega

theorem Consistent.read_iff {store : Store} {front : List Part} {last : Part} (h : Consistent store front last)
    {offset : Int} (hnext : offset < store.log.nextOffset) {batch : RecordBatch}
    (hholds : batchContainsOffset batch offset = true) {maxBytes : Nat} (hsize : batch.batchBytes ≤ maxBytes) :
    store.read offset maxBytes = .ok batch ↔
      ∃ passed, ComesAcross store offset (passed ++ [batch]) ∧
        ∀ other ∈ passed, batchContainsOffset other offset = false ∧ other.batchBytes ≤ maxBytes := by
  constructor
  · exact h.comesAcross
  · rintro ⟨passed, ⟨hopened, i, segment, index, position, hfind, hsegment, hindex, hopen, hstart, hlaid, hwritten⟩,
      hpassed⟩
    obtain ⟨hbase, hle, -⟩ := batchContainsOffset_eq_true.mp hholds
    rw [Store.read_eq_scanSegment hopened (hbase.trans hle) hnext hfind hsegment hindex hstart]
    exact scanSegment_found hopen hlaid hpassed hholds hsize hwritten (by omega)

/-- What can be read at all can be read with a budget that covers every batch of the log. -/
theorem Consistent.read_small {store : Store} {front : List Part} {last : Part} (h : Consistent store front last)
    {offset : Int} {more maxBytes : Nat} {batch : RecordBatch} (hread : store.read offset more = .ok batch)
    (hsmall : ∀ part ∈ front ++ [last], ∀ other ∈ part.batches, other.batchBytes ≤ maxBytes) :
    store.read offset maxBytes = .ok batch := by
  have hstored := hread
  rw [Store.read] at hread
  split_ifs at hread with hclosed hzero hnext
  obtain ⟨i, hfind, hread⟩ := Result.bind_eq_ok.mp hread
  split at hread
  · rename_i segment index hsegment hindex
    obtain ⟨part, hpart, skipped, rest, rfl, hsplit, hstart, hlaid, hwritten⟩ := h.scanned hsegment hindex offset
    have hopened := Bool.not_eq_true _ ▸ hclosed
    have hscan := Store.read_eq_scanSegment hopened (not_lt.mp hzero) (not_le.mp hnext) hfind hsegment hindex hstart
    rw [hscan] at hstored
    have hopen := open_of_scanSegment hstored
    have heq : ∀ budget, scanSegment part.segment (store.disk.content part.segment.baseOffset) offset budget
        (part.segment.writePosition + 1) (totalBytes skipped) = scanBatches offset budget rest := fun budget =>
      scanSegment_eq hopen hlaid hwritten (by omega)
    rw [heq] at hstored
    rw [hscan, heq]
    obtain ⟨passed, others, hrest, hpassed, hholds, -⟩ := scanBatches_eq_ok.mp hstored
    have hsize : ∀ other ∈ passed ++ [batch], other.batchBytes ≤ maxBytes := by
      intro other hother
      apply hsmall part hpart
      rw [hsplit, hrest, List.append_cons]
      exact List.mem_append_right _ (List.mem_append_left _ hother)
    have hbatch := hsize batch (List.mem_append_right _ (List.mem_singleton_self _))
    rw [hrest, laidOut_append] at hlaid
    refine scanBatches_eq_ok.mpr ⟨passed, others, hrest, fun other hother => ⟨(hpassed other hother).1, ?_⟩, hholds,
      hbatch, hlaid.2.1.header_le.trans hbatch⟩
    exact hsize other (List.mem_append_left _ hother)
  · cases hread

theorem ComesAcross.unique {store : Store} {offset : Int} {left right : List RecordBatch} {batch other : RecordBatch}
    (hleft : ComesAcross store offset (left ++ [batch])) (hright : ComesAcross store offset (right ++ [other]))
    (hpassed : ∀ b ∈ left, batchContainsOffset b offset = false)
    (hpassed' : ∀ b ∈ right, batchContainsOffset b offset = false)
    (hfound : batchContainsOffset batch offset = true) (hfound' : batchContainsOffset other offset = true) :
    left = right := by
  obtain ⟨-, i, segment, index, position, hfind, hsegment, hindex, -, hstart, hlaid, -⟩ := hleft
  obtain ⟨-, i', segment', index', position', hfind', hsegment', hindex', -, hstart', hlaid', -⟩ := hright
  cases hfind.symm.trans hfind'
  cases hsegment.symm.trans hsegment'
  cases hindex.symm.trans hindex'
  cases hstart.symm.trans hstart'
  exact hlaid.passed_unique hlaid' hpassed hpassed' hfound hfound'

theorem FaultyReaches.logReaches {options : CommitLogOptions} {allowed : Store → List Record → IoFaults → Prop}
    {store : Store} {acked : List Appended} (h : FaultyReaches options allowed store acked) : LogReaches store := by
  induction h with
  | opened hopen => exact .opened hopen
  | @append _ _ _ records faults _ ih => exact ih.append records faults

/-- A batch of a hundred bytes and a small one behind it, less than an index interval apart. -/
def mixedSizes : Option (Store × List Appended) :=
  runAppends { dataDir := "log" } anyFaults [([⟨7, [], List.replicate 100 1, 0⟩], {}), ([⟨8, [], [], 0⟩], {})]

/-- The first batch does not fit into a budget that is enough for the second one. -/
theorem mixedSizes_read : ∃ store batch, (∃ acked, FaultyReaches { dataDir := "log" } anyFaults store acked) ∧
    1 < store.log.nextOffset ∧ batchContainsOffset batch 1 = true ∧ store.read 1 maxSize = .ok batch ∧
    store.read 1 batch.batchBytes ≠ .ok batch := by
  have hrun : mixedSizes.any (fun state => (state.1.read 1 maxSize).toOption.any fun batch =>
      decide ((1 : Int) < state.1.log.nextOffset) && (batchContainsOffset batch 1 &&
        (state.1.read 1 batch.batchBytes).toOption.isNone)) = true := by
    decide +kernel
  obtain ⟨⟨store, acked⟩, hstate, hfound⟩ := Option.any_eq_true _ _ |>.mp hrun
  obtain ⟨batch, hread, hcheck⟩ := Option.any_eq_true _ _ |>.mp hfound
  obtain ⟨hnext, hcheck⟩ := Bool.and_eq_true_iff.mp hcheck
  obtain ⟨hholds, hfails⟩ := Bool.and_eq_true_iff.mp hcheck
  refine ⟨store, batch, ⟨acked, faultyReaches_of_runAppends hstate⟩, of_decide_eq_true hnext, hholds,
    Result.toOption_eq_some.mp hread, ?_⟩
  intro hok
  rw [hok] at hfails
  cases hfails

/-- **Byte budgets.** A read of an offset returns the batch that holds it, when the budget covers that batch, if
and only if the budget covers every batch that `Read` comes across first, and none of these holds the offset too. -/
theorem read_within_budget_iff {store : Store} (h : LogReaches store) {offset : Int}
    (hnext : offset < store.log.nextOffset) {batch : RecordBatch} (hholds : batchContainsOffset batch offset = true)
    {maxBytes : Nat} (hsize : batch.batchBytes ≤ maxBytes) :
    store.read offset maxBytes = .ok batch ↔
      ∃ passed, ComesAcross store offset (passed ++ [batch]) ∧
        ∀ other ∈ passed, batchContainsOffset other offset = false ∧ other.batchBytes ≤ maxBytes := by
  obtain ⟨front, last, hconsistent⟩ := h.consistent
  exact hconsistent.read_iff hnext hholds hsize

theorem read_within_budget_iff_mixed : ∃ store batch, LogReaches store ∧
    (store.read 1 batch.batchBytes = .ok batch ↔
      ∃ passed, ComesAcross store 1 (passed ++ [batch]) ∧
        ∀ other ∈ passed, batchContainsOffset other 1 = false ∧ other.batchBytes ≤ batch.batchBytes) := by
  obtain ⟨store, batch, ⟨acked, hreaches⟩, hnext, hholds, -⟩ := mixedSizes_read
  exact ⟨store, batch, hreaches.logReaches, read_within_budget_iff hreaches.logReaches hnext hholds (le_refl _)⟩

/-- A budget that is enough for a batch is not enough to read it. -/
theorem budget_not_enough : ¬∀ store, LogReaches store → ∀ offset batch budget, store.read offset budget = .ok batch →
    ∀ maxBytes, batch.batchBytes ≤ maxBytes → store.read offset maxBytes = .ok batch := by
  intro h
  obtain ⟨store, batch, ⟨acked, hreaches⟩, -, -, hread, hfails⟩ := mixedSizes_read
  exact hfails (h store hreaches.logReaches 1 batch maxSize hread batch.batchBytes (le_refl _))

/-- In a log that was created and then appended to, whatever failed, the search for an offset below the next one
always comes across its batch, and the sizes of the batches in front of it decide. -/
theorem FaultyReaches.read_iff_sizes {options : CommitLogOptions}
    {allowed : Store → List Record → IoFaults → Prop} {store : Store} {acked : List Appended}
    (h : FaultyReaches options allowed store acked) {offset : Int} (hzero : 0 ≤ offset)
    (hnext : offset < store.log.nextOffset) :
    ∃ passed batch, ComesAcross store offset (passed ++ [batch]) ∧ batchContainsOffset batch offset = true ∧
      ∀ maxBytes, batch.batchBytes ≤ maxBytes →
        (store.read offset maxBytes = .ok batch ↔ ∀ other ∈ passed, other.batchBytes ≤ maxBytes) := by
  obtain ⟨layout, hrep, -⟩ := h.rep
  obtain ⟨batch, hbatch, hle, hlt⟩ := hrep.exists_batch hzero hnext
  have hholds : batchContainsOffset batch offset = true :=
    batchContainsOffset_eq_true.mpr ⟨(hrep.holds.chain.bounds hbatch).1, hle, hlt⟩
  have hlarge := hrep.read_batch hbatch hle hlt (Nat.le_add_right batch.batchBytes options.normalized.indexIntervalBytes)
    (Nat.le_add_left _ _)
  obtain ⟨passed, hacross, hpassed⟩ := hrep.consistent.comesAcross hlarge
  refine ⟨passed, batch, hacross, hholds, fun maxBytes hsize => ?_⟩
  have hmiss := fun other hother => (hpassed other hother).1
  rw [hrep.consistent.read_iff hnext hholds hsize]
  constructor
  · rintro ⟨others, hothers, hall⟩
    rw [hacross.unique hothers hmiss (fun other hother => (hall other hother).1) hholds hholds]
    exact fun other hother => (hall other hother).2
  · exact fun hall => ⟨passed, hacross, fun other hother => ⟨hmiss other hother, hall other hother⟩⟩

end LogMq
