import LogMq.BrokerNames
import LogMq.ProtocolTypes
import LogMq.StorageContents

/-! The topics of a broker. A topic is a list of partition logs; every partition has a directory of its own
below the data directory, and the list of topics is kept in a file that is replaced as a whole. The file is
a list of lines here; its bytes and its entry in the directory are the subject of modules of their own. The manager
carries the files it works on. A failing system call is an argument. -/

namespace LogMq

/-! ### State -/

structure TopicManagerOptions where
  dataDir : String
  segmentBytes : Nat := 1024 * 1024 * 1024
  indexIntervalBytes : Nat := 4 * 1024
  deriving DecidableEq, Repr

structure Topic where
  partitions : List CommitLog
  nextPartition : UInt32 := 0

/-- What is below the data directory: the lines of `topics.meta`, the directory of each partition, and how
much of the active segment of a partition has been flushed, as its base offset and the number of bytes. -/
structure TopicFiles where
  metadata : Option (List TopicMetadata) := none
  partitions : Bytes → Nat → Disk := fun _ _ => {}
  flushed : Bytes → Nat → Option (Int × Nat) := fun _ _ => none

structure TopicManager where
  options : TopicManagerOptions
  topics : SortedMap Bytes Topic := .empty
  files : TopicFiles := {}

/-- The system calls of one `CreateTopic` that fail: opening a partition, and whether its first segment file
was created before, or writing the list of topics. -/
structure CreateFaults where
  openPartition : Option (Nat × Bool × Status) := none
  persist : Option Status := none
  deriving DecidableEq

/-- A topic without its internal marker. -/
def originalName (topic : Bytes) : Bytes :=
  if isInternalTopic topic then
    topic.drop (if isRetryTopic topic then retryTopicPrefix.length else dlqTopicPrefix.length)
  else topic

/-- `ValidateTopicName`. -/
def validateTopicName (topic : Bytes) : Result Unit := validateSafeName (originalName topic) "topic name"

/-- The bytes of a name as text. -/
def nameText (name : Bytes) : String := String.ofList (name.map Char.ofUInt8)

/-- `PartitionPath`. -/
def partitionPath (dataDir : String) (topic : Bytes) (id : Nat) : String :=
  dataDir ++ "/" ++ nameText topic ++ "/" ++ toString id

/-- The options `OpenTopic` gives to the log of a partition. -/
def TopicManagerOptions.log (options : TopicManagerOptions) (topic : Bytes) (id : Nat) : CommitLogOptions :=
  { dataDir := partitionPath options.dataDir topic id
    segmentBytes := options.segmentBytes
    indexIntervalBytes := options.indexIntervalBytes
    strictRecovery := isInternalTopic topic }

/-! ### Internal names -/

@[simp] theorem isRetryTopic_append (topic : Bytes) : isRetryTopic (retryTopicPrefix ++ topic) = true :=
  List.isPrefixOf_iff_prefix.mpr (List.prefix_append _ _)

@[simp] theorem isDlqTopic_append (topic : Bytes) : isDlqTopic (dlqTopicPrefix ++ topic) = true :=
  List.isPrefixOf_iff_prefix.mpr (List.prefix_append _ _)

/-- No topic is both a retry topic and a dead letter topic. -/
theorem isDlqTopic_of_retry {topic : Bytes} (h : isRetryTopic topic = true) : isDlqTopic topic = false := by
  obtain ⟨rest, rfl⟩ := List.isPrefixOf_iff_prefix.mp h
  rfl

theorem isRetryTopic_of_dlq {topic : Bytes} (h : isDlqTopic topic = true) : isRetryTopic topic = false := by
  by_contra hretry
  rw [isDlqTopic_of_retry (Bool.eq_true_of_not_eq_false hretry)] at h
  cases h

@[simp] theorem originalName_retry (topic : Bytes) : originalName (retryTopicPrefix ++ topic) = topic := by
  rw [originalName, isInternalTopic, isRetryTopic_append, Bool.true_or, if_pos rfl, if_pos rfl, List.drop_left]

@[simp] theorem originalName_dlq (topic : Bytes) : originalName (dlqTopicPrefix ++ topic) = topic := by
  rw [originalName, isInternalTopic, isDlqTopic_append, Bool.or_true, if_pos rfl,
    isRetryTopic_of_dlq (isDlqTopic_append topic), if_neg Bool.false_ne_true, List.drop_left]

theorem isInternalTopic_eq_false {topic : Bytes} :
    isInternalTopic topic = false ↔ isRetryTopic topic = false ∧ isDlqTopic topic = false :=
  Bool.or_eq_false_iff

namespace TopicFiles

def setDirectory (files : TopicFiles) (topic : Bytes) (id : Nat) (disk : Disk) : TopicFiles :=
  { files with partitions := fun t i => if t = topic ∧ i = id then disk else files.partitions t i }

@[simp] theorem setDirectory_self (files : TopicFiles) (topic : Bytes) (id : Nat) (disk : Disk) :
    (files.setDirectory topic id disk).partitions topic id = disk :=
  if_pos ⟨rfl, rfl⟩

theorem setDirectory_of_ne (files : TopicFiles) {topic other : Bytes} {id i : Nat} (disk : Disk)
    (h : ¬ (other = topic ∧ i = id)) :
    (files.setDirectory topic id disk).partitions other i = files.partitions other i :=
  if_neg h

end TopicFiles

/-! ### Opening topics -/

/-- One turn of the loop of `OpenTopic`. Every open log holds a file descriptor, so no process opens a
partition whose number is not an `int`. -/
def openPartition (options : TopicManagerOptions) (topic : Bytes) (fault : Option (Nat × Bool × Status)) (id : Nat)
    (disk : Disk) : Result CommitLog × Disk :=
  if maxInt32 < id then (.error (.ioError "open: Too many open files"), disk)
  else
    match fault with
    | none => openLog (options.log topic id) disk
    | some (failing, created, status) =>
        if failing = id then (.error status, if created then disk.touch 0 else disk)
        else openLog (options.log topic id) disk

/-- The loop of `OpenTopic`. -/
def openPartitions (options : TopicManagerOptions) (topic : Bytes) (fault : Option (Nat × Bool × Status)) :
    List Nat → TopicFiles → Result (List CommitLog) × TopicFiles
  | [], files => (.ok [], files)
  | id :: rest, files =>
      match openPartition options topic fault id (files.partitions topic id) with
      | (.error status, disk) => (.error status, files.setDirectory topic id disk)
      | (.ok log, disk) =>
          match openPartitions options topic fault rest (files.setDirectory topic id disk) with
          | (.error status, files) => (.error status, files)
          | (.ok logs, files) => (.ok (log :: logs), files)

namespace TopicManager

/-- `OpenTopic`. -/
def openTopic (manager : TopicManager) (topic : Bytes) (partitionCount : UInt32)
    (fault : Option (Nat × Bool × Status)) : Result Topic × TopicFiles :=
  match openPartitions manager.options topic fault (List.range partitionCount.toNat) manager.files with
  | (.error status, files) => (.error status, files)
  | (.ok partitions, files) => (.ok { partitions := partitions }, files)

/-- The list of all topics, by name. -/
def listing (manager : TopicManager) : List TopicMetadata :=
  manager.topics.entries.map fun entry => ⟨entry.1, UInt32.ofNat entry.2.partitions.length⟩

/-- `CreateTopic`. A topic that cannot be written to the list is forgotten, but its directories stay. For the names of
the list itself and of its temporary file that is always so: the entries of the data directory, which this manager does
not have, stand for faults (`TopicDirectory.createTopic_refines`, `TopicDirectory.faults_reserved`). -/
def createTopic (manager : TopicManager) (topic : Bytes) (partitionCount : UInt32) (faults : CreateFaults) :
    Result Unit × TopicManager :=
  match validateTopicName topic with
  | .error status => (.error status, manager)
  | .ok () =>
      if partitionCount = 0 then (.error (.invalidArgument "partition_count must be positive"), manager)
      else
        match manager.topics.find? topic with
        | some existing =>
            if existing.partitions.length = partitionCount.toNat then (.ok (), manager)
            else (.error (.invalidArgument "topic already exists with different partition count"), manager)
        | none =>
            match manager.openTopic topic partitionCount faults.openPartition with
            | (.error status, files) => (.error status, { manager with files := files })
            | (.ok opened, files) =>
                match faults.persist with
                | some status => (.error status, { manager with files := files })
                | none =>
                    let created := { manager with topics := manager.topics.insert topic opened, files := files }
                    (.ok (), { created with files := { files with metadata := some created.listing } })

/-- The loop of `Load` over the lines of the list. -/
def loadTopics : List TopicMetadata → TopicManager → Result TopicManager
  | [], manager => .ok manager
  | line :: rest, manager =>
      if line.partitionCount = 0 then .error (.corruption "invalid partition count in topic metadata")
      else
        match validateTopicName line.topic with
        | .error status => .error status
        | .ok () =>
            if (manager.topics.find? line.topic).isSome then
              .error (.corruption ("duplicate topic in metadata: " ++ nameText line.topic))
            else
              match manager.openTopic line.topic line.partitionCount none with
              | (.error status, _) => .error status
              | (.ok opened, files) =>
                  loadTopics rest { manager with topics := manager.topics.insert line.topic opened, files := files }

/-- `Load` in a new manager. Without a list there are no topics. -/
def load (options : TopicManagerOptions) (files : TopicFiles) : Result TopicManager :=
  loadTopics (files.metadata.getD []) { options := options, files := files }

/-! ### Partitions -/

/-- The log of a partition, with its directory. -/
def store? (manager : TopicManager) (topic : Bytes) (id : Nat) : Option Store :=
  (manager.topics.find? topic).bind fun found =>
    found.partitions[id]?.map fun log => ⟨log, manager.files.partitions topic id⟩

/-- The number of partitions of a topic. -/
def count? (manager : TopicManager) (topic : Bytes) : Option Nat :=
  (manager.topics.find? topic).map fun found => found.partitions.length

/-- What a log and its directory have become. -/
def setStore (manager : TopicManager) (topic : Bytes) (id : Nat) (store : Store) : TopicManager :=
  match manager.topics.find? topic with
  | none => manager
  | some found =>
      { manager with
        topics := manager.topics.insert topic { found with partitions := found.partitions.set id store.log }
        files := manager.files.setDirectory topic id store.disk }

/-- `GetPartition`. -/
def getPartition (manager : TopicManager) (topic : Bytes) (partitionId : Int) : Result Store :=
  match manager.count? topic with
  | none => .error (.notFound "topic not found")
  | some _ =>
      if partitionId < 0 then .error (.notFound "partition not found")
      else
        match manager.store? topic partitionId.toNat with
        | none => .error (.notFound "partition not found")
        | some store => .ok store

/-- `StableHash`: 64-bit FNV-1a. -/
def stableHash (value : Bytes) : UInt64 :=
  value.foldl (fun hash ch => (hash ^^^ ch.toUInt64) * 1099511628211) 14695981039346656037

/-- The partition `SelectPartition` turns to: the requested one, or the one of the key, or the next one. -/
def choosePartition (topic : Topic) (requested : Int) (key : Bytes) : Int × Topic :=
  if requested ≠ invalidPartitionId then (requested, topic)
  else if key ≠ [] then (((stableHash key).toNat % topic.partitions.length : Nat), topic)
  else ((topic.nextPartition.toNat % topic.partitions.length : Nat),
    { topic with nextPartition := topic.nextPartition + 1 })

/-- `SelectPartition`. -/
def selectPartition (manager : TopicManager) (topic : Bytes) (requested : Int) (key : Bytes) :
    Result (Int × Store) × TopicManager :=
  match manager.topics.find? topic with
  | none => (.error (.notFound "topic not found"), manager)
  | some found =>
      if found.partitions = [] then (.error (.internal "topic has no partitions"), manager)
      else
        let (selected, found) := choosePartition found requested key
        ((manager.getPartition topic selected).map (Prod.mk selected),
          { manager with topics := manager.topics.insert topic found })

/-- `GetMetadata`: one topic, or all of them for the empty name. -/
def getMetadata (manager : TopicManager) (topic : Bytes) : Result (List TopicMetadata) :=
  if topic ≠ [] then
    match manager.count? topic with
    | none => .error (.notFound "topic not found")
    | some count => .ok [⟨topic, UInt32.ofNat count⟩]
  else .ok manager.listing

end TopicManager

/-! ### Flushing and closing -/

/-- `CommitLog::Flush`: the segments are synced and the index files rewritten. -/
def Store.flush (store : Store) (failure : Option Status) : Result Unit × Store :=
  if store.log.closed then (.error (.invalidArgument "flush on closed commit log"), store)
  else
    match failure with
    | some status => (.error status, store)
    | none =>
        (.ok (), { store with
          disk := store.log.indexes.foldl (fun disk index => disk.writeIndex index.baseOffset index.fileBytes)
            store.disk })

namespace TopicManager

/-- All of the active segment is on disk. -/
def markFlushed (manager : TopicManager) (topic : Bytes) (id : Nat) (store : Store) : TopicManager :=
  { manager with
    files := { manager.files with
      flushed := fun t i =>
        if t = topic ∧ i = id then
          store.log.segments.getLast?.map fun segment => (segment.baseOffset, segment.writePosition)
        else manager.files.flushed t i } }

/-- The log of one partition is flushed. -/
def flushPartition (manager : TopicManager) (topic : Bytes) (id : Nat) (failure : Option Status) :
    Result Unit × TopicManager :=
  match manager.store? topic id with
  | none => (.ok (), manager)
  | some store =>
      match store.flush failure with
      | (.error status, _) => (.error status, manager)
      | (.ok (), store) => (.ok (), (manager.setStore topic id store).markFlushed topic id store)

/-- `Flush`, as the partitions it gets through before the first failure. -/
def flush (manager : TopicManager) (flushed : List (Bytes × Nat)) : TopicManager :=
  flushed.foldl (fun manager place => (manager.flushPartition place.1 place.2 none).2) manager

/-- `Close`: what is left is the files. -/
def close (manager : TopicManager) : TopicFiles :=
  { manager.files with
    partitions := fun topic id =>
      match manager.store? topic id with
      | none => manager.files.partitions topic id
      | some store => store.close.disk }

/-! ### What the operations leave alone -/

section Frame

variable {manager : TopicManager} {topic other : Bytes} {id i : Nat} {store : Store}

theorem store?_eq_some :
    manager.store? topic id = some store ↔ ∃ found, manager.topics.find? topic = some found ∧
      found.partitions[id]? = some store.log ∧ manager.files.partitions topic id = store.disk := by
  unfold store?
  rw [Option.bind_eq_some_iff]
  simp only [Option.map_eq_some_iff]
  constructor
  · rintro ⟨found, hfind, log, hlog, rfl⟩
    exact ⟨found, hfind, hlog, rfl⟩
  · rintro ⟨found, hfind, hlog, hdisk⟩
    exact ⟨found, hfind, store.log, hlog, by rw [hdisk]⟩

theorem count?_eq_some {count : Nat} :
    manager.count? topic = some count ↔ ∃ found, manager.topics.find? topic = some found ∧
      found.partitions.length = count :=
  Option.map_eq_some_iff

/-- A topic has the partitions from zero up to its number. -/
theorem exists_store? {count : Nat} (h : manager.count? topic = some count) (hid : id < count) :
    ∃ store, manager.store? topic id = some store := by
  obtain ⟨found, hfind, rfl⟩ := count?_eq_some.mp h
  exact ⟨⟨found.partitions[id], _⟩, store?_eq_some.mpr ⟨found, hfind, List.getElem?_eq_getElem hid, rfl⟩⟩

theorem lt_count (h : manager.store? topic id = some store) :
    ∃ count, manager.count? topic = some count ∧ id < count := by
  obtain ⟨found, hfind, hlog, -⟩ := store?_eq_some.mp h
  exact ⟨_, count?_eq_some.mpr ⟨found, hfind, rfl⟩, (List.getElem?_eq_some_iff.mp hlog).1⟩

theorem getPartition_ok {partitionId : Int} :
    manager.getPartition topic partitionId = .ok store ↔
      0 ≤ partitionId ∧ manager.store? topic partitionId.toNat = some store := by
  unfold getPartition
  constructor
  · intro h
    split at h
    · cases h
    · split_ifs at h with hneg
      split at h
      · cases h
      · cases h
        exact ⟨not_lt.mp hneg, ‹_›⟩
  · rintro ⟨hnonneg, hstore⟩
    obtain ⟨count, hcount, -⟩ := lt_count hstore
    rw [hcount, hstore]
    exact if_neg (not_lt.mpr hnonneg)

theorem options_setStore : (manager.setStore topic id store).options = manager.options := by
  unfold setStore
  split <;> rfl

theorem count?_setStore : (manager.setStore topic id store).count? other = manager.count? other := by
  unfold setStore
  split
  · rfl
  · rename_i found hfind
    unfold count?
    dsimp only
    by_cases hother : other = topic
    · subst hother
      rw [SortedMap.find?_insert_self, hfind, Option.map_some, Option.map_some, List.length_set]
    · rw [SortedMap.find?_insert_of_ne hother]

theorem store?_setStore_self {old : Store} (h : manager.store? topic id = some old) :
    (manager.setStore topic id store).store? topic id = some store := by
  obtain ⟨found, hfind, hlog, -⟩ := store?_eq_some.mp h
  unfold setStore
  rw [hfind]
  refine store?_eq_some.mpr ⟨_, SortedMap.find?_insert_self _ _ _, ?_, TopicFiles.setDirectory_self _ _ _ _⟩
  exact List.getElem?_set_self (List.getElem?_eq_some_iff.mp hlog).1

theorem store?_setStore_of_ne (h : ¬ (other = topic ∧ i = id)) :
    (manager.setStore topic id store).store? other i = manager.store? other i := by
  unfold setStore
  split
  · rfl
  · rename_i found hfind
    unfold store?
    dsimp only
    rw [TopicFiles.setDirectory_of_ne _ _ h]
    by_cases hother : other = topic
    · subst hother
      have hi : i ≠ id := fun hi => h ⟨rfl, hi⟩
      rw [SortedMap.find?_insert_self, hfind, Option.bind_some, Option.bind_some, List.getElem?_set_ne hi.symm]
    · rw [SortedMap.find?_insert_of_ne hother]

end Frame

end TopicManager

end LogMq
