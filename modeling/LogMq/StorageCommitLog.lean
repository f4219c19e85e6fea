import LogMq.LibSortedMap
import LogMq.StorageOffsetIndex
import LogMq.StorageSegment

/-! The partition log of `src/storage/commit_log.cpp`: a vector of segments and a parallel vector of
sparse indexes over one directory. Every operation takes the process state and the directory and
returns both; a failing system call is an argument. -/

namespace LogMq

open SparseIndex

/-! ### The directory -/

/-- The `.log` and `.index` files of a data directory, each under the base offset its name spells. A
listing of the directory, once sorted, is the list of entries. -/
structure Disk where
  logs : SortedMap Int Bytes := .empty
  indexes : SortedMap Int Bytes := .empty
  deriving DecidableEq

structure Path where
  directory : String
  name : String
  deriving DecidableEq, Repr

namespace Disk

/-- The content of a segment file; a missing file has none. -/
def content (disk : Disk) (baseOffset : Int) : Bytes := (disk.logs.find? baseOffset).getD []

def writeLog (disk : Disk) (baseOffset : Int) (bytes : Bytes) : Disk :=
  { disk with logs := disk.logs.insert baseOffset bytes }

def writeIndex (disk : Disk) (baseOffset : Int) (bytes : Bytes) : Disk :=
  { disk with indexes := disk.indexes.insert baseOffset bytes }

/-- `open` with `O_CREAT`: a missing segment file is created empty. -/
def touch (disk : Disk) (baseOffset : Int) : Disk :=
  match disk.logs.find? baseOffset with
  | some _ => disk
  | none => disk.writeLog baseOffset []

end Disk

structure CommitLogOptions where
  dataDir : String
  segmentBytes : Nat := 128 * 1024 * 1024
  indexIntervalBytes : Nat := 4 * 1024
  strictRecovery : Bool := false
  deriving DecidableEq, Repr

structure AppendResult where
  baseOffset : Int := -1
  position : Nat := 0
  segmentPath : Path
  deriving DecidableEq, Repr

structure CommitLog where
  options : CommitLogOptions
  segments : List Segment := []
  indexes : List OffsetIndex := []
  nextOffset : Int := 0
  closed : Bool := true
  deriving DecidableEq, Repr

/-- A log and the directory it works on. -/
structure Store where
  log : CommitLog
  disk : Disk
  deriving DecidableEq

/-- The system calls of one `Append` that fail, with the status each failure is reported as:
opening the next segment (and whether the file was created before the failure), rewriting its index
(and what the index file holds afterwards), writing the batch (and how many bytes reached the file). -/
structure IoFaults where
  openSegment : Option (Bool × Status) := none
  rewriteIndex : Option (Option Bytes × Status) := none
  writeBatch : Option (Nat × Status) := none
  deriving DecidableEq, Repr

def segmentPath (options : CommitLogOptions) (baseOffset : Int) : Path :=
  ⟨options.dataDir, String.leftpad 20 '0' (toString baseOffset) ++ ".log"⟩

/-! ### Opening and rolling segments -/

/-- `Segment::Open`. -/
def openSegment (disk : Disk) (baseOffset : Int) (failure : Option (Bool × Status)) : Result Segment × Disk :=
  if baseOffset < 0 then (.error (.invalidArgument "segment base_offset must not be negative"), disk)
  else
    match failure with
    | some (created, status) => (.error status, if created then disk.touch baseOffset else disk)
    | none => (.ok ⟨baseOffset, (disk.content baseOffset).length, false⟩, disk.touch baseOffset)

/-- `OffsetIndex::Rewrite`. -/
def rewriteIndex (disk : Disk) (index : OffsetIndex) (failure : Option (Option Bytes × Status)) :
    Result Unit × Disk :=
  match failure with
  | some (some bytes, status) => (.error status, disk.writeIndex index.baseOffset bytes)
  | some (none, status) => (.error status, disk)
  | none => (.ok (), disk.writeIndex index.baseOffset index.fileBytes)

namespace Store

/-- `RollSegment`. The new segment is in the vector even when its index file cannot be written. -/
def rollSegment (store : Store) (baseOffset : Int) (faults : IoFaults) : Result Unit × Store :=
  match openSegment store.disk baseOffset faults.openSegment with
  | (.error status, disk) => (.error status, { store with disk := disk })
  | (.ok segment, disk) =>
      let index := OffsetIndex.create baseOffset store.log.options.indexIntervalBytes
      let log := { store.log with
        segments := store.log.segments ++ [segment]
        indexes := store.log.indexes ++ [index] }
      let (result, disk) := rewriteIndex disk index faults.rewriteIndex
      (result, ⟨log, disk⟩)

/-! ### Append -/

/-- The first part of `Append`: a batch that would not fit rolls a segment that is not empty. -/
def makeRoom (store : Store) (batch : RecordBatch) (faults : IoFaults) : Result Unit × Store :=
  match store.log.segments.getLast? with
  | none => (.error (.internal "commit log has no active segment"), store)
  | some active =>
      if active.writePosition > 0 ∧
          active.writePosition + batch.batchBytes > store.log.options.segmentBytes then
        store.rollSegment batch.baseOffset faults
      else (.ok (), store)

/-- The second part of `Append`: the batch goes to the last segment and is offered to its index. -/
def appendBatch (store : Store) (batch : RecordBatch) (faults : IoFaults) : Result AppendResult × Store :=
  match store.log.segments.getLast?, store.log.indexes.getLast? with
  | some target, some index =>
      match target.append (store.disk.content target.baseOffset) batch faults.writeBatch with
      | (.error status, _, content) =>
          (.error status, { store with disk := store.disk.writeLog target.baseOffset content })
      | (.ok position, target, content) =>
          let disk := store.disk.writeLog target.baseOffset content
          let log := { store.log with segments := store.log.segments.dropLast ++ [target] }
          match index.maybeAppend batch.baseOffset position with
          | .error status => (.error status, ⟨log, disk⟩)
          | .ok index =>
              let log := { log with
                indexes := log.indexes.dropLast ++ [index]
                nextOffset := log.nextOffset + batch.recordCount }
              (.ok ⟨batch.baseOffset, position, segmentPath log.options target.baseOffset⟩, ⟨log, disk⟩)
  | _, _ => (.error (.internal "commit log has no active segment"), store)

def append (store : Store) (records : List Record) (faults : IoFaults) : Result AppendResult × Store :=
  if store.log.closed then (.error (.invalidArgument "append on closed commit log"), store)
  else if records.isEmpty then
    (.error (.invalidArgument "commit log append requires at least one record"), store)
  else if (records.length : Int) > maxOffset - store.log.nextOffset then
    (.error (.invalidArgument "commit log append would overflow offset"), store)
  else
    match makeRecordBatch store.log.nextOffset records with
    | .error status => (.error status, store)
    | .ok batch =>
        match store.makeRoom batch faults with
        | (.error status, store) => (.error status, store)
        | (.ok (), store) => store.appendBatch batch faults

end Store

/-! ### Read -/

def batchContainsOffset (batch : RecordBatch) (offset : Int) : Bool :=
  if batch.baseOffset < 0 then false
  else batch.baseOffset ≤ offset && offset < batch.baseOffset + batch.recordCount

/-- `FindSegmentIndex`: the segment before `std::upper_bound`. -/
def findSegmentIndex (log : CommitLog) (offset : Int) : Result Nat :=
  if log.segments.isEmpty then .error (.notFound "commit log has no segments")
  else
    let it := upperBound (fun segment : Segment => offset < segment.baseOffset) log.segments
    if it = 0 then .error (.notFound "commit log offset is before first segment") else .ok (it - 1)

/-- The scan of `Read`. Every batch takes at least its header, so the segment's length bounds the
number of turns. -/
def scanSegment (segment : Segment) (content : Bytes) (offset : Int) (maxBytes : Nat) :
    Nat → Nat → Result RecordBatch
  | 0, _ => .error (.notFound "commit log offset was not found in segment")
  | fuel + 1, position =>
      if position < segment.writePosition then do
        let batch ← segment.read content position maxBytes
        if batchContainsOffset batch offset then .ok batch
        else scanSegment segment content offset maxBytes fuel (position + batch.batchBytes)
      else .error (.notFound "commit log offset was not found in segment")

/-- Where `Read` starts to scan: the floor entry, or the front of the segment when there is none. -/
def scanStart (index : OffsetIndex) (offset : Int) : Result Nat :=
  match index.findFloor offset with
  | .ok entry => .ok entry.position
  | .error status => if status.code ≠ .notFound then .error status else .ok 0

namespace Store

def read (store : Store) (offset : Int) (maxBytes : Nat) : Result RecordBatch :=
  if store.log.closed then .error (.invalidArgument "read on closed commit log")
  else if offset < 0 then .error (.invalidArgument "commit log read offset must not be negative")
  else if offset ≥ store.log.nextOffset then .error (.notFound "commit log offset is not readable")
  else do
    let i ← findSegmentIndex store.log offset
    match store.log.segments[i]?, store.log.indexes[i]? with
    | some segment, some index =>
        let position ← scanStart index offset
        scanSegment segment (store.disk.content segment.baseOffset) offset maxBytes
          (segment.writePosition + 1) position
    | _, _ => .error (.notFound "commit log has no segments")

/-- `Close`: every index file is rewritten and every segment closed. -/
def close (store : Store) : Store :=
  if store.log.closed then store
  else
    { log := { store.log with
        segments := store.log.segments.map fun segment => { segment with closed := true }
        closed := true }
      disk := store.log.indexes.foldl (fun disk index => disk.writeIndex index.baseOffset index.fileBytes)
        store.disk }

end Store

/-! ### Recovery -/

/-- The loop variables of `RecoverSegment`. -/
structure Recovery where
  position : Nat
  index : OffsetIndex
  nextOffset : Int
  deriving DecidableEq, Repr

/-- The branch of `RecoverSegment` taken when a batch cannot be read: whether the rest of the file may
be cut off, or why the segment is refused. -/
def checkTail (options : CommitLogOptions) (content : Bytes) (active : Bool) (position : Nat)
    (status : Status) : Result Unit :=
  let remaining := content.length - position
  if options.strictRecovery then
    if !active || status.code = .ioError then .error status
    else if remaining < recordBatchHeaderBytes then .ok ()
    else
      let header := File.pread content recordBatchHeaderBytes position
      if header.length ≠ recordBatchHeaderBytes then .error status
      else
        match peekRecordBatchBytes header with
        | .error _ => .error status
        | .ok declaredBytes => if declaredBytes ≤ remaining then .error status else .ok ()
  else .ok ()

/-- The loop of `RecoverSegment`. The file is as long as `write_position` says, because the segment has just been opened,
and no longer than a `std::size_t` can say. The end of a batch is computed without the wrap of an `Offset`. -/
def recoverLoop (options : CommitLogOptions) (segment : Segment) (content : Bytes) (active : Bool) :
    Nat → Recovery → Result Recovery
  | 0, state => .ok state
  | fuel + 1, state =>
      if state.position < content.length then
        match segment.read content state.position (content.length - state.position) with
        | .error status => do
            checkTail options content active state.position status
            return state
        | .ok batch => do
            let index ← state.index.maybeAppend batch.baseOffset state.position
            recoverLoop options segment content active fuel
              { position := state.position + batch.batchBytes
                index := index
                nextOffset := max state.nextOffset (batch.baseOffset + batch.recordCount) }
      else .ok state

/-- `RecoverSegment`. -/
def recoverSegment (options : CommitLogOptions) (disk : Disk) (segment : Segment) (index : OffsetIndex)
    (active : Bool) : Result (Segment × OffsetIndex × Int) × Disk :=
  let content := disk.content segment.baseOffset
  match recoverLoop options segment content active (content.length + 1)
      ⟨0, index.clear, segment.baseOffset⟩ with
  | .error status => (.error status, disk)
  | .ok recovery =>
      let (segment, disk) :=
        if recovery.position ≠ content.length then
          ({ segment with writePosition := recovery.position },
            disk.writeLog segment.baseOffset (File.truncate content recovery.position))
        else (segment, disk)
      (.ok (segment, recovery.index, recovery.nextOffset),
        disk.writeIndex segment.baseOffset recovery.index.fileBytes)

/-- The loop of `LoadOrCreateSegments` over the sorted segment files. Only the last one is active. -/
def loadSegments : List Int → Store → Result CommitLog × Disk
  | [], store => (.ok store.log, store.disk)
  | baseOffset :: rest, store =>
      match openSegment store.disk baseOffset none with
      | (.error status, disk) => (.error status, disk)
      | (.ok segment, disk) =>
          match recoverSegment store.log.options disk segment
              (OffsetIndex.create baseOffset store.log.options.indexIntervalBytes) rest.isEmpty with
          | (.error status, disk) => (.error status, disk)
          | (.ok (segment, index, nextOffset), disk) =>
              loadSegments rest
                { log := { store.log with
                    segments := store.log.segments ++ [segment]
                    indexes := store.log.indexes ++ [index]
                    nextOffset := max store.log.nextOffset nextOffset }
                  disk := disk }

/-- A freshly created log is its first roll. -/
def createSegments (store : Store) : Result CommitLog × Disk :=
  match store.rollSegment 0 {} with
  | (.error status, store) => (.error status, store.disk)
  | (.ok (), store) => (.ok store.log, store.disk)

def loadOrCreateSegments (store : Store) : Result CommitLog × Disk :=
  match store.disk.logs.entries with
  | [] => createSegments store
  | entries => loadSegments (entries.map Prod.fst) store

/-- `CommitLog::Open` on a directory whose system calls succeed. -/
def openLog (options : CommitLogOptions) (disk : Disk) : Result CommitLog × Disk :=
  if options.dataDir = "" then
    (.error (.invalidArgument "commit log data_dir must not be empty"), disk)
  else if options.segmentBytes < recordBatchHeaderBytes then
    (.error (.invalidArgument "commit log segment_bytes is too small"), disk)
  else
    let options :=
      if options.indexIntervalBytes = 0 then { options with indexIntervalBytes := 1 } else options
    match loadOrCreateSegments ⟨{ options := options }, disk⟩ with
    | (.error status, disk) => (.error status, disk)
    | (.ok log, disk) => (.ok { log with closed := false }, disk)

end LogMq
