import LogMq.StorageRecovery

/-! Offsets without gaps. A chain is a list of well-formed batches each of which starts where the one
before it ended; a layout distributes one chain over the segment files of a directory. -/

namespace LogMq

open SparseIndex

/-- Well-formed batches whose offsets follow each other from `start` to `stop`. -/
def Chain : Int → List RecordBatch → Int → Prop
  | start, [], stop => start = stop
  | start, batch :: rest, stop => batch.Valid ∧ batch.baseOffset = start ∧ Chain batch.endOffset rest stop

theorem chain_append {start stop : Int} {left right : List RecordBatch} :
    Chain start (left ++ right) stop ↔ ∃ mid, Chain start left mid ∧ Chain mid right stop := by
  induction left generalizing start with
  | nil => exact ⟨fun h => ⟨start, rfl, h⟩, fun ⟨_, hmid, h⟩ => hmid ▸ h⟩
  | cons batch rest ih =>
      rw [List.cons_append, Chain, ih]
      constructor
      · rintro ⟨hvalid, hbase, mid, hleft, hright⟩
        exact ⟨mid, ⟨hvalid, hbase, hleft⟩, hright⟩
      · rintro ⟨mid, ⟨hvalid, hbase, hleft⟩, hright⟩
        exact ⟨hvalid, hbase, mid, hleft, hright⟩

namespace Chain

variable {start stop : Int} {batches : List RecordBatch}

theorem valid (h : Chain start batches stop) : ∀ batch ∈ batches, batch.Valid := by
  induction batches generalizing start with
  | nil => exact fun _ hmem => absurd hmem List.not_mem_nil
  | cons head rest ih =>
      intro batch hmem
      rcases List.mem_cons.mp hmem with rfl | hmem
      · exact h.1
      · exact ih h.2.2 batch hmem

theorem concat (h : Chain start batches stop) {batch : RecordBatch} (hvalid : batch.Valid)
    (hbase : batch.baseOffset = stop) : Chain start (batches ++ [batch]) batch.endOffset :=
  chain_append.mpr ⟨stop, h, hvalid, hbase, rfl⟩

theorem le (h : Chain start batches stop) : start ≤ stop := by
  induction batches generalizing start with
  | nil => exact le_of_eq h
  | cons head rest ih =>
      have hlt := h.1.lt_endOffset
      have hle := ih h.2.2
      have hbase := h.2.1
      omega

theorem lt (h : Chain start batches stop) (hne : batches ≠ []) : start < stop := by
  cases batches with
  | nil => exact absurd rfl hne
  | cons head rest =>
      have hlt := h.1.lt_endOffset
      have hle := le h.2.2
      have hbase := h.2.1
      omega

/-- Every batch of a chain lies between its ends. -/
theorem bounds (h : Chain start batches stop) {batch : RecordBatch} (hmem : batch ∈ batches) :
    start ≤ batch.baseOffset ∧ batch.endOffset ≤ stop := by
  obtain ⟨before, after, rfl⟩ := List.append_of_mem hmem
  obtain ⟨mid, hbefore, -, hbase, hafter⟩ := chain_append.mp h
  exact ⟨hbase ▸ hbefore.le, hafter.le⟩

/-- Batches in front of a batch end before it, batches behind it start after it. -/
theorem order {before after : List RecordBatch} {batch : RecordBatch}
    (h : Chain start (before ++ batch :: after) stop) :
    (∀ other ∈ before, other.endOffset ≤ batch.baseOffset) ∧
      ∀ other ∈ after, batch.endOffset ≤ other.baseOffset := by
  obtain ⟨mid, hbefore, -, rfl, hafter⟩ := chain_append.mp h
  exact ⟨fun other hother => (hbefore.bounds hother).2, fun other hother => (hafter.bounds hother).1⟩

/-- Every offset between the ends of a chain is in one of its batches. -/
theorem exists_batch (h : Chain start batches stop) {offset : Int} (hstart : start ≤ offset)
    (hstop : offset < stop) :
    ∃ before batch after, batches = before ++ batch :: after ∧
      batch.baseOffset ≤ offset ∧ offset < batch.endOffset := by
  induction batches generalizing start with
  | nil => exact absurd (h ▸ hstop) (not_lt.mpr hstart)
  | cons head rest ih =>
      by_cases hlt : offset < head.endOffset
      · exact ⟨[], head, rest, rfl, h.2.1.trans_le hstart, hlt⟩
      · obtain ⟨before, batch, after, rfl, hcontains⟩ := ih h.2.2 (not_lt.mp hlt)
        exact ⟨head :: before, batch, after, rfl, hcontains⟩

/-- No offset is in two batches of a chain. -/
theorem eq_of_contains (h : Chain start batches stop) {offset : Int} {left right : RecordBatch}
    (hleft : left ∈ batches) (hright : right ∈ batches)
    (hl : left.baseOffset ≤ offset ∧ offset < left.endOffset)
    (hr : right.baseOffset ≤ offset ∧ offset < right.endOffset) : left = right := by
  obtain ⟨before, after, rfl⟩ := List.append_of_mem hleft
  obtain ⟨hbefore, hafter⟩ := h.order
  rcases List.mem_append.mp hright with hright | hright
  · have hle := hbefore right hright
    omega
  · rcases List.mem_cons.mp hright with rfl | hright
    · rfl
    · have hle := hafter right hright
      omega

/-- The next offset that recovery computes from a chain is its end. -/
theorem maxEnd_eq (h : Chain start batches stop) : maxEnd start batches = stop := by
  induction batches generalizing start with
  | nil => exact h
  | cons head rest ih =>
      have hlt := h.1.lt_endOffset
      have hbase := h.2.1
      rw [maxEnd, max_eq_right (by omega)]
      exact ih h.2.2

theorem stop_unique (h : Chain start batches stop) {other : Int} (hother : Chain start batches other) :
    stop = other := by
  rw [← h.maxEnd_eq, hother.maxEnd_eq]

/-- The index accepts every batch of a chain. -/
theorem offerAll_eq (h : Chain start batches stop) {position : Nat} {index : OffsetIndex}
    (hbase : 0 ≤ index.baseOffset) (hstart : index.baseOffset ≤ start)
    (hlast : ∀ last, index.entries.getLast? = some last → last.offset < start ∧ last.position ≤ position)
    (hinterval : 0 < index.intervalBytes) :
    offerAll (placed position batches) index = .ok { index with
      entries := (placed position batches).foldl (add IndexEntry.position index.intervalBytes) index.entries } := by
  induction batches generalizing start position index with
  | nil => rfl
  | cons head rest ih =>
      obtain ⟨hvalid, rfl, hrest⟩ := h
      have hlt := hvalid.lt_endOffset
      rw [placed, offerAll, OffsetIndex.maybeAppend_of_accepts ⟨hbase, hstart, hlast⟩]
      refine ih hrest hbase (hstart.trans hlt.le) (fun last hadded => ?_) hinterval
      obtain ⟨added, hget, -, hor⟩ := @getLast?_add _ IndexEntry.position _ hinterval index.entries
        ⟨head.baseOffset, position⟩
      cases Option.some.inj (hget.symm.trans hadded)
      rcases hor with rfl | hold
      · exact ⟨hlt, Nat.le_add_right _ _⟩
      · obtain ⟨hoffset, hposition⟩ := hlast _ hold
        exact ⟨hoffset.trans hlt, hposition.trans (Nat.le_add_right _ _)⟩

end Chain

/-! ### Segments -/

/-- A segment: the batches it holds, and the bytes that failed writes left behind them in its file. -/
structure Chunk where
  base : Int
  batches : List RecordBatch
  stale : Bytes
  deriving DecidableEq

namespace Chunk

def bytes (chunk : Chunk) : Bytes := chunk.batches.flatMap RecordBatch.bytes

def content (chunk : Chunk) : Bytes := chunk.bytes ++ chunk.stale

def file (chunk : Chunk) : Int × Bytes := (chunk.base, chunk.content)

def segment (chunk : Chunk) : Segment := ⟨chunk.base, totalBytes chunk.batches, false⟩

def index (interval : Nat) (chunk : Chunk) : OffsetIndex :=
  ⟨chunk.base, interval, build IndexEntry.position interval (placed 0 chunk.batches)⟩

/-- The segment without the bytes behind its batches. -/
def clean (chunk : Chunk) : Chunk := { chunk with stale := [] }

end Chunk

/-- Segments that are not empty and whose batches together are a chain. -/
def SealedChain : Int → List Chunk → Int → Prop
  | start, [], stop => start = stop
  | start, chunk :: rest, stop =>
      chunk.base = start ∧ chunk.batches ≠ [] ∧
        ∃ mid, Chain start chunk.batches mid ∧ SealedChain mid rest stop

theorem sealedChain_append {start stop : Int} {left right : List Chunk} :
    SealedChain start (left ++ right) stop ↔
      ∃ mid, SealedChain start left mid ∧ SealedChain mid right stop := by
  induction left generalizing start with
  | nil => exact ⟨fun h => ⟨start, rfl, h⟩, fun ⟨_, hmid, h⟩ => hmid ▸ h⟩
  | cons chunk rest ih =>
      simp only [List.cons_append, SealedChain, ih]
      constructor
      · rintro ⟨hbase, hne, mid, hchunk, stop', hleft, hright⟩
        exact ⟨stop', ⟨hbase, hne, mid, hchunk, hleft⟩, hright⟩
      · rintro ⟨stop', ⟨hbase, hne, mid, hchunk, hleft⟩, hright⟩
        exact ⟨hbase, hne, mid, hchunk, stop', hleft, hright⟩

namespace SealedChain

variable {start stop : Int} {chunks : List Chunk}

theorem le (h : SealedChain start chunks stop) : start ≤ stop := by
  induction chunks generalizing start with
  | nil => exact le_of_eq h
  | cons chunk rest ih =>
      obtain ⟨-, -, mid, hchunk, hrest⟩ := h
      exact hchunk.le.trans (ih hrest)

/-- Each segment is a chain of its own between the ends. -/
theorem chunk_chain (h : SealedChain start chunks stop) {chunk : Chunk} (hmem : chunk ∈ chunks) :
    ∃ mid, Chain chunk.base chunk.batches mid ∧ start ≤ chunk.base ∧ chunk.base < mid ∧ mid ≤ stop := by
  obtain ⟨before, after, rfl⟩ := List.append_of_mem hmem
  obtain ⟨begin, hbefore, rfl, hne, mid, hchunk, hafter⟩ := sealedChain_append.mp h
  exact ⟨mid, hchunk, hbefore.le, hchunk.lt hne, hafter.le⟩

theorem bases_sorted (h : SealedChain start chunks stop) :
    chunks.Pairwise fun left right => left.base < right.base := by
  induction chunks generalizing start with
  | nil => exact List.Pairwise.nil
  | cons chunk rest ih =>
      obtain ⟨rfl, hne, mid, hchunk, hrest⟩ := h
      refine List.pairwise_cons.mpr ⟨fun other hother => ?_, ih hrest⟩
      obtain ⟨-, -, hle, -⟩ := hrest.chunk_chain hother
      exact (hchunk.lt hne).trans_le hle

/-- Every offset between the ends is in a batch of a segment, and the segments behind that one start
after the offset. -/
theorem exists_chunk (h : SealedChain start chunks stop) {offset : Int} (hstart : start ≤ offset)
    (hstop : offset < stop) :
    ∃ before chunk after, chunks = before ++ chunk :: after ∧ (∀ other ∈ after, offset < other.base) ∧
      ∃ front batch back, chunk.batches = front ++ batch :: back ∧
        batch.baseOffset ≤ offset ∧ offset < batch.endOffset := by
  induction chunks generalizing start with
  | nil => exact absurd (h ▸ hstop) (not_lt.mpr hstart)
  | cons head rest ih =>
      obtain ⟨-, -, mid, hhead, hrest⟩ := h
      by_cases hlt : offset < mid
      · refine ⟨[], head, rest, rfl, fun other hother => ?_, hhead.exists_batch hstart hlt⟩
        obtain ⟨-, -, hle, -⟩ := hrest.chunk_chain hother
        exact hlt.trans_le hle
      · obtain ⟨before, chunk, after, rfl, hfound⟩ := ih hrest (not_lt.mp hlt)
        exact ⟨head :: before, chunk, after, rfl, hfound⟩

/-- The batches of all segments are one chain. -/
theorem chain (h : SealedChain start chunks stop) : Chain start (chunks.flatMap Chunk.batches) stop := by
  induction chunks generalizing start with
  | nil => exact h
  | cons chunk rest ih =>
      obtain ⟨-, -, mid, hchunk, hrest⟩ := h
      rw [List.flatMap_cons]
      exact chain_append.mpr ⟨mid, hchunk, ih hrest⟩

end SealedChain

/-- The segments of a log: all but the last are sealed. -/
structure Layout where
  sealed : List Chunk
  active : Chunk

namespace Layout

def chunks (layout : Layout) : List Chunk := layout.sealed ++ [layout.active]

/-- All batches in the order of their offsets. -/
def batches (layout : Layout) : List RecordBatch := layout.chunks.flatMap Chunk.batches

/-- The segments hold exactly the offsets from zero up to `next`. -/
structure Holds (layout : Layout) (next : Int) : Prop where
  sealed : SealedChain 0 layout.sealed layout.active.base
  active : Chain layout.active.base layout.active.batches next

variable {layout : Layout} {next : Int}

theorem active_mem (layout : Layout) : layout.active ∈ layout.chunks :=
  List.mem_append_right _ (List.mem_singleton_self _)

theorem mem_chunks {chunk : Chunk} :
    chunk ∈ layout.chunks ↔ chunk ∈ layout.sealed ∨ chunk = layout.active := by
  rw [chunks, List.mem_append, List.mem_singleton]

namespace Holds

theorem active_base_nonneg (h : layout.Holds next) : 0 ≤ layout.active.base := h.sealed.le

theorem next_nonneg (h : layout.Holds next) : 0 ≤ next := h.active_base_nonneg.trans h.active.le

/-- Each segment is a chain of its own. -/
theorem chunk_chain (h : layout.Holds next) {chunk : Chunk} (hmem : chunk ∈ layout.chunks) :
    ∃ mid, Chain chunk.base chunk.batches mid ∧ 0 ≤ chunk.base ∧ mid ≤ next := by
  rcases mem_chunks.mp hmem with hmem | rfl
  · obtain ⟨mid, hchain, hbase, -, hmid⟩ := h.sealed.chunk_chain hmem
    exact ⟨mid, hchain, hbase, hmid.trans h.active.le⟩
  · exact ⟨next, h.active, h.active_base_nonneg, le_refl _⟩

theorem valid (h : layout.Holds next) {chunk : Chunk} (hmem : chunk ∈ layout.chunks) :
    ∀ batch ∈ chunk.batches, batch.Valid := by
  obtain ⟨mid, hchain, -⟩ := h.chunk_chain hmem
  exact hchain.valid

/-- Base offsets increase from segment to segment. -/
theorem bases_sorted (h : layout.Holds next) :
    layout.chunks.Pairwise fun left right => left.base < right.base := by
  refine List.pairwise_append.mpr ⟨h.sealed.bases_sorted, List.pairwise_singleton _ _, ?_⟩
  intro chunk hchunk other hother
  obtain ⟨mid, -, -, hlt, hle⟩ := h.sealed.chunk_chain hchunk
  rw [List.mem_singleton.mp hother]
  exact hlt.trans_le hle

/-- Every offset below `next` is in a batch of a segment, and the segments behind that one start
after the offset. -/
theorem exists_chunk (h : layout.Holds next) {offset : Int} (hzero : 0 ≤ offset) (hnext : offset < next) :
    ∃ before chunk after, layout.chunks = before ++ chunk :: after ∧ (∀ other ∈ after, offset < other.base) ∧
      ∃ front batch back, chunk.batches = front ++ batch :: back ∧
        batch.baseOffset ≤ offset ∧ offset < batch.endOffset := by
  by_cases hactive : layout.active.base ≤ offset
  · exact ⟨layout.sealed, layout.active, [], rfl, fun _ hmem => absurd hmem List.not_mem_nil,
      h.active.exists_batch hactive hnext⟩
  · obtain ⟨before, chunk, after, hsplit, hafter, hfound⟩ := h.sealed.exists_chunk hzero (not_le.mp hactive)
    refine ⟨before, chunk, after ++ [layout.active], ?_, fun other hother => ?_, hfound⟩
    · rw [chunks, hsplit, List.append_assoc, List.cons_append]
    · rcases List.mem_append.mp hother with hother | hother
      · exact hafter other hother
      · rw [List.mem_singleton.mp hother]
        exact not_le.mp hactive

theorem chain (h : layout.Holds next) : Chain 0 layout.batches next := by
  rw [batches, chunks, List.flatMap_append]
  refine chain_append.mpr ⟨layout.active.base, h.sealed.chain, ?_⟩
  rw [List.flatMap_cons, List.flatMap_nil, List.append_nil]
  exact h.active

end Holds

end Layout

end LogMq
