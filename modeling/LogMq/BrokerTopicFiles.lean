import LogMq.BrokerLoad
import LogMq.BrokerOffsetFiles

/-! The names below the data directory of a topic manager. The directories of the topics, `topics.meta` and its
temporary file share them, so that a topic can take the name of a file and a file the name of a topic. -/

namespace LogMq

open Text

/-- An entry of the data directory. -/
inductive RootEntry where
  | file (content : Bytes)
  | directory
  deriving DecidableEq

/-- A manager with the entries of its data directory. The list of topics in its files is what `topics.meta` says. -/
structure TopicDirectory where
  manager : TopicManager
  entries : Bytes → Option RootEntry := fun _ => none

/-! ### The list of topics as a file -/

def topicMetadataMagic : Bytes := text "logmq_topic_metadata_v1"

/-- The name in `MetadataPath`. -/
def metadataName : Bytes := text "topics.meta"

/-- The name in `MetadataTempPath`. -/
def metadataTempName : Bytes := text "topics.meta.tmp"

/-- The line of a topic, without its end. -/
def topicLine (topic : TopicMetadata) : Bytes := topic.topic ++ 32 :: decimal topic.partitionCount.toNat

def metadataText (topics : List TopicMetadata) : Bytes :=
  topicMetadataMagic ++ 10 :: topics.flatMap fun topic => topicLine topic ++ [10]

/-- The two fields of a line; nothing may follow them. -/
def parseTopicLine (line : Bytes) : Option (Bytes × Nat) := do
  let (topic, rest) ← readWord line
  let (partitionCount, rest) ← readNat64 rest
  match readWord rest with
  | some _ => none
  | none => return (topic, partitionCount)

namespace TopicDirectory

/-- `OpenTopic` for at least one partition: every log first creates its directory below that of the topic. -/
def openTopic (directory : TopicDirectory) (topic : Bytes) (partitionCount : UInt32) : Result Topic × TopicDirectory :=
  if directory.manager.options.segmentBytes < recordBatchHeaderBytes then
    (.error (.invalidArgument "commit log segment_bytes is too small"), directory)
  else
    match directory.entries topic with
    | some (.file _) => (.error (.ioError "create commit log directory: Not a directory"), directory)
    | _ =>
        let (opened, files) := directory.manager.openTopic topic partitionCount none
        (opened, { manager := { directory.manager with files := files }
                   entries := Function.update directory.entries topic (some .directory) })

/-- `PersistMetadataLocked`. A directory cannot be opened for writing, and no file is renamed to one. -/
def persistMetadata (directory : TopicDirectory) : Result Unit × TopicDirectory :=
  if directory.entries metadataTempName = some .directory then
    (.error (.ioError ("open topic metadata temp " ++ directory.manager.options.dataDir ++ "/topics.meta.tmp")), directory)
  else
    let content := metadataText directory.manager.listing
    if directory.entries metadataName = some .directory then
      (.error (.ioError "rename topic metadata: Is a directory"),
        { directory with entries := Function.update directory.entries metadataTempName (some (.file content)) })
    else
      (.ok (), {
        manager := { directory.manager with
          files := { directory.manager.files with metadata := some directory.manager.listing } }
        entries := Function.update (Function.update directory.entries metadataTempName none) metadataName
          (some (.file content)) })

/-- `CreateTopic`. -/
def createTopic (directory : TopicDirectory) (topic : Bytes) (partitionCount : UInt32) :
    Result Unit × TopicDirectory :=
  match validateTopicName topic with
  | .error status => (.error status, directory)
  | .ok () =>
      if partitionCount = 0 then (.error (.invalidArgument "partition_count must be positive"), directory)
      else
        match directory.manager.topics.find? topic with
        | some existing =>
            if existing.partitions.length = partitionCount.toNat then (.ok (), directory)
            else (.error (.invalidArgument "topic already exists with different partition count"), directory)
        | none =>
            match directory.openTopic topic partitionCount with
            | (.error status, directory) => (.error status, directory)
            | (.ok opened, directory) =>
                let created : TopicDirectory :=
                  { directory with manager := { directory.manager with
                    topics := directory.manager.topics.insert topic opened } }
                match created.persistMetadata with
                | (.error status, after) =>
                    (.error status, { after with manager := { after.manager with
                      topics := after.manager.topics.erase topic } })
                | (.ok (), after) => (.ok (), after)

/-- The loop of `Load` over the lines of the file, behind a number of lines. -/
def loadLines : Nat → List Bytes → TopicDirectory → Result TopicDirectory
  | _, [], directory => .ok directory
  | number, line :: rest, directory =>
      if line = [] then loadLines (number + 1) rest directory
      else
        match parseTopicLine line with
        | none => .error (.corruption ("invalid topic metadata line " ++ toString (number + 1)))
        | some (topic, partitionCount) =>
            if partitionCount = 0 ∨ 2 ^ 32 ≤ partitionCount then
              .error (.corruption "invalid partition count in topic metadata")
            else
              match validateTopicName topic with
              | .error status => .error status
              | .ok () =>
                  if (directory.manager.topics.find? topic).isSome then
                    .error (.corruption ("duplicate topic in metadata: " ++ nameText topic))
                  else
                    match directory.openTopic topic (UInt32.ofNat partitionCount) with
                    | (.error status, _) => .error status
                    | (.ok opened, after) =>
                        loadLines (number + 1) rest { after with manager := { after.manager with
                          topics := after.manager.topics.insert topic opened } }

/-- A manager that has not loaded anything. -/
def fresh (directory : TopicDirectory) (options : TopicManagerOptions) : TopicDirectory :=
  { directory with manager := { options := options, files := directory.manager.files } }

/-- `Load` in a new manager. A directory can be opened for reading, but no line can be read from it. -/
def load (directory : TopicDirectory) (options : TopicManagerOptions) : Result TopicDirectory :=
  match directory.entries metadataName with
  | none => .ok (directory.fresh options)
  | some .directory => .error (.corruption "topic metadata is empty")
  | some (.file content) =>
      match lines content with
      | [] => .error (.corruption "topic metadata is empty")
      | magic :: rest =>
          if magic ≠ topicMetadataMagic then .error (.corruption "topic metadata has unsupported format")
          else loadLines 1 rest (directory.fresh options)

end TopicDirectory

/-! ### Reading the list back -/

theorem isWord_of_validateTopicName {topic : Bytes} (h : validateTopicName topic = .ok ()) : IsWord topic := by
  obtain ⟨hsome, hbytes⟩ := isWord_of_validateSafeName h
  unfold originalName at hsome hbytes
  by_cases hinternal : isInternalTopic topic = true
  · obtain ⟨marker, hmarker, hname⟩ := internalMarker_append hinternal
    rw [if_pos hinternal] at hsome hbytes
    generalize topic.drop _ = rest at hsome hbytes hname
    rw [hname]
    exact isWord_of_marker hmarker ⟨hsome, hbytes⟩
  · rw [if_neg hinternal] at hsome hbytes
    exact ⟨hsome, hbytes⟩

theorem parseTopicLine_topicLine {topic : TopicMetadata} (hword : IsWord topic.topic) :
    parseTopicLine (topicLine topic) = some (topic.topic, topic.partitionCount.toNat) := by
  have hcount := @readNat64_decimal topic.partitionCount.toNat [] (by
    have hlt := topic.partitionCount.toNat_lt
    omega) Ends.nil
  rw [List.append_nil] at hcount
  unfold parseTopicLine topicLine
  rw [readWord_word hword (Ends.space _)]
  simp only [Option.bind_eq_bind, Option.bind_some, readNat64_space, hcount]
  rfl

theorem newline_notMem_topicLine {topic : TopicMetadata} (hword : IsWord topic.topic) : 10 ∉ topicLine topic := by
  intro hmem
  rcases List.mem_append.mp hmem with hname | hcount
  · cases hword.2 10 hname
  · rcases List.mem_cons.mp hcount with hspace | hdigit
    · cases hspace
    · cases isDigit_of_mem_decimal hdigit

/-- The lines of `topics.meta`. -/
theorem lines_metadataText {topics : List TopicMetadata} (hwords : ∀ topic ∈ topics, IsWord topic.topic) :
    lines (metadataText topics) = topicMetadataMagic :: topics.map topicLine := by
  unfold metadataText
  rw [lines_line (by decide +kernel)]
  congr 1
  induction topics with
  | nil => rfl
  | cons topic rest ih =>
      rw [List.flatMap_cons, List.append_assoc, List.singleton_append,
        lines_line (newline_notMem_topicLine (hwords topic List.mem_cons_self)), List.map_cons,
        ih fun other hother => hwords other (List.mem_cons_of_mem _ hother)]

namespace TopicDirectory

variable {directory : TopicDirectory} {topic : Bytes} {count : UInt32}

/-- Opening a topic that has a directory leaves the entries alone. -/
theorem openTopic_directory (hsize : recordBatchHeaderBytes ≤ directory.manager.options.segmentBytes)
    (hentry : directory.entries topic = some .directory) :
    directory.openTopic topic count = ((directory.manager.openTopic topic count none).1,
      { directory with manager := { directory.manager with
        files := (directory.manager.openTopic topic count none).2 } }) := by
  unfold openTopic
  rw [if_neg (not_lt.mpr hsize), hentry]
  simp only
  rw [← hentry, Function.update_eq_self]

/-- **The list is loaded line by line.** Where every topic has a directory, the loop over the lines of a list is the
loop over its topics. -/
theorem loadLines_topics (topics : List TopicMetadata) (hwords : ∀ topic ∈ topics, IsWord topic.topic)
    (hentries : ∀ topic ∈ topics, directory.entries topic.topic = some .directory)
    (hsize : recordBatchHeaderBytes ≤ directory.manager.options.segmentBytes) (number : Nat) :
    loadLines number (topics.map topicLine) directory =
      (TopicManager.loadTopics topics directory.manager).map fun manager => { directory with manager := manager } := by
  induction topics generalizing directory number with
  | nil => rfl
  | cons topic rest ih =>
      have hsome : topicLine topic ≠ [] := List.append_ne_nil_of_right_ne_nil _ (List.cons_ne_nil _ _)
      have hrange : (topic.partitionCount.toNat = 0 ∨ 2 ^ 32 ≤ topic.partitionCount.toNat) ↔
          topic.partitionCount = 0 := by
        have hlt := topic.partitionCount.toNat_lt
        rw [← UInt32.toNat_inj]
        show _ ↔ topic.partitionCount.toNat = 0
        omega
      rw [List.map_cons, loadLines, if_neg hsome, parseTopicLine_topicLine (hwords topic List.mem_cons_self),
        TopicManager.loadTopics]
      simp only [hrange, UInt32.ofNat_toNat]
      by_cases hzero : topic.partitionCount = 0
      · rw [if_pos hzero, if_pos hzero]
        rfl
      rw [if_neg hzero, if_neg hzero]
      cases hvalid : validateTopicName topic.topic with
      | error status => rfl
      | ok _ =>
          by_cases hfound : (directory.manager.topics.find? topic.topic).isSome = true
          · simp only [if_pos hfound]
            rfl
          simp only [if_neg hfound]
          rw [openTopic_directory hsize (hentries topic List.mem_cons_self)]
          cases hopen : directory.manager.openTopic topic.topic topic.partitionCount none with
          | mk opened files =>
              cases opened with
              | error status => rfl
              | ok opened =>
                  exact @ih { directory with manager := { directory.manager with
                      files := files, topics := directory.manager.topics.insert topic.topic opened } }
                    (fun other hother => hwords other (List.mem_cons_of_mem _ hother))
                    (fun other hother => hentries other (List.mem_cons_of_mem _ hother)) hsize (number + 1)

/-- **`Load` refines the loading of a list.** -/
theorem load_eq {options : TopicManagerOptions} {topics : List TopicMetadata}
    (hmetadata : directory.entries metadataName = some (.file (metadataText topics)))
    (hwords : ∀ topic ∈ topics, IsWord topic.topic)
    (hentries : ∀ topic ∈ topics, directory.entries topic.topic = some .directory)
    (hsize : recordBatchHeaderBytes ≤ options.segmentBytes) :
    directory.load options = (TopicManager.loadTopics topics { options := options, files := directory.manager.files }).map
      fun manager => { directory with manager := manager } := by
  unfold load
  rw [hmetadata]
  simp only [lines_metadataText hwords]
  rw [if_neg (not_not.mpr rfl)]
  exact @loadLines_topics (directory.fresh options) topics hwords hentries hsize 1

end TopicDirectory

/-! ### Topics without records -/

namespace TopicManager

variable {manager : TopicManager} {topic : Bytes} {count : UInt32}

/-- No record has been written below the data directory. -/
def Unwritten (manager : TopicManager) : Prop := ∀ topic id, (manager.files.partitions topic id).Unwritten

theorem Unwritten.openTopic (h : manager.Unwritten) (topic : Bytes) (count : UInt32)
    (fault : Option (Nat × Bool × Status)) (other : Bytes) (id : Nat) :
    ((manager.openTopic topic count fault).2.partitions other id).Unwritten := by
  by_cases hother : other = topic
  · rw [hother, openTopic_files]
    exact openPartitions_keep (fun _ _ => openPartition_unwritten) (h topic) id
  · rw [openTopic_of_ne hother]
    exact h other id

/-- What a topic needs to be opened, if no record has been written. -/
theorem Unwritten.openTopic_ok (h : manager.Unwritten)
    (hsize : recordBatchHeaderBytes ≤ manager.options.segmentBytes) (hcount : count.toNat ≤ maxPartitions) :
    ∃ opened files, manager.openTopic topic count none = (.ok opened, files) ∧
      opened.partitions.length = count.toNat := by
  have hpartitions : ∀ id < count.toNat, ∃ log disk,
      openPartition manager.options topic none id (manager.files.partitions topic id) = (.ok log, disk) := by
    intro id hid
    obtain ⟨log, disk, hopen, -⟩ := openLog_unwritten (h topic id) (manager.options.log_dataDir topic id) hsize
    have hle : ¬ maxInt32 < (id : Int) := by
      unfold maxInt32
      unfold maxPartitions at hcount
      omega
    exact ⟨log, disk, by rw [openPartition, if_neg hle]; exact hopen⟩
  obtain ⟨opened, files, hopen⟩ := exists_openTopic hpartitions
  exact ⟨opened, files, hopen, (TopicManager.openTopic_ok hopen).1⟩

/-- A list that `CreateTopic` could have written. -/
structure Loadable (topics : List TopicMetadata) : Prop where
  valid : ∀ topic ∈ topics, validateTopicName topic.topic = .ok ()
  positive : ∀ topic ∈ topics, topic.partitionCount ≠ 0
  opens : ∀ topic ∈ topics, topic.partitionCount.toNat ≤ maxPartitions
  distinct : (topics.map TopicMetadata.topic).Nodup

/-- **Loading without records.** The manager has the topics of the list. -/
theorem Unwritten.loadTopics {topics : List TopicMetadata} (h : manager.Unwritten)
    (hsize : recordBatchHeaderBytes ≤ manager.options.segmentBytes) (htopics : Loadable topics)
    (hnew : ∀ topic ∈ topics, manager.count? topic.topic = none) :
    ∃ loaded, TopicManager.loadTopics topics manager = .ok loaded ∧ ∀ name n, loaded.count? name = some n ↔
      manager.count? name = some n ∨ ∃ topic ∈ topics, topic.topic = name ∧ topic.partitionCount.toNat = n := by
  induction topics generalizing manager with
  | nil => exact ⟨manager, rfl, fun name n => by simp⟩
  | cons first rest ih =>
      have hmem : first ∈ first :: rest := List.mem_cons_self
      obtain ⟨hfirst, hdistinct⟩ := List.nodup_cons.mp htopics.distinct
      have hrest : Loadable rest := {
        valid := fun topic htopic => htopics.valid topic (List.mem_cons_of_mem _ htopic)
        positive := fun topic htopic => htopics.positive topic (List.mem_cons_of_mem _ htopic)
        opens := fun topic htopic => htopics.opens topic (List.mem_cons_of_mem _ htopic)
        distinct := hdistinct }
      obtain ⟨opened, files, hopen, hlength⟩ := @Unwritten.openTopic_ok _ first.topic _ h hsize (htopics.opens _ hmem)
      have hfiles := h.openTopic first.topic first.partitionCount none
      rw [hopen] at hfiles
      have hnone := hnew first hmem
      have hcounts := @count?_insert manager first.topic opened files
      obtain ⟨loaded, hload, hloaded⟩ := @ih
        { manager with topics := manager.topics.insert first.topic opened, files := files } hfiles hsize hrest (by
          intro topic htopic
          have hne : topic.topic ≠ first.topic := by
            intro heq
            exact hfirst (heq ▸ List.mem_map_of_mem htopic)
          rw [hcounts, if_neg hne]
          exact hnew topic (List.mem_cons_of_mem _ htopic))
      refine ⟨loaded, ?_, fun name n => ?_⟩
      · rw [TopicManager.loadTopics, if_neg (htopics.positive _ hmem), htopics.valid _ hmem]
        simp only
        rw [count?_none.mp hnone, hopen]
        exact hload
      · rw [hloaded, hcounts, hlength]
        by_cases hname : name = first.topic
        · subst hname
          rw [if_pos rfl, hnone]
          have hothers : ¬ ∃ topic ∈ rest, topic.topic = first.topic ∧ topic.partitionCount.toNat = n := by
            rintro ⟨topic, htopic, heq, -⟩
            exact hfirst (heq ▸ List.mem_map_of_mem htopic)
          simp [hothers]
        · rw [if_neg hname]
          simp [Ne.symm hname]

/-- The list of a manager has its topics. -/
theorem mem_listing {line : TopicMetadata} :
    line ∈ manager.listing ↔ ∃ n, manager.count? line.topic = some n ∧ UInt32.ofNat n = line.partitionCount := by
  rw [listing_eq_counts, List.mem_map]
  constructor
  · rintro ⟨entry, hentry, rfl⟩
    exact ⟨entry.2, by rw [← find?_counts]; exact SortedMap.mem_entries.mp hentry, rfl⟩
  · rintro ⟨n, hcount, hpartitions⟩
    rw [← find?_counts] at hcount
    exact ⟨(line.topic, n), SortedMap.mem_entries.mpr hcount, by rw [hpartitions]⟩

/-- The topics of a manager are valid ones with some partitions. -/
def Valid (manager : TopicManager) : Prop :=
  ∀ {topic n}, manager.count? topic = some n → validateTopicName topic = .ok () ∧ 0 < n ∧ n ≤ maxPartitions

theorem Valid.loadable (h : manager.Valid) : Loadable manager.listing where
  valid := by
    intro topic htopic
    obtain ⟨n, hcount, -⟩ := mem_listing.mp htopic
    exact (h hcount).1
  positive := by
    intro topic htopic hzero
    obtain ⟨n, hcount, hpartitions⟩ := mem_listing.mp htopic
    obtain ⟨-, hpos, hmax⟩ := h hcount
    have hcast := toNat_ofNat_count hmax
    rw [hpartitions, hzero] at hcast
    exact hpos.ne hcast
  opens := by
    intro topic htopic
    obtain ⟨n, hcount, hpartitions⟩ := mem_listing.mp htopic
    rw [← hpartitions, toNat_ofNat_count (h hcount).2.2]
    exact (h hcount).2.2
  distinct := by
    rw [listing_eq_counts, List.map_map]
    exact (List.pairwise_map.mpr manager.counts.sorted).imp fun hlt => hlt.ne

end TopicManager

/-- **Loading the list of a manager.** The new manager has its topics. -/
theorem TopicDirectory.load_listing {directory : TopicDirectory} {options : TopicManagerOptions}
    (hmetadata : directory.entries metadataName = some (.file (metadataText directory.manager.listing)))
    (hvalid : directory.manager.Valid) (hunwritten : directory.manager.Unwritten)
    (hentries : ∀ topic n, directory.manager.count? topic = some n → directory.entries topic = some .directory)
    (hsize : recordBatchHeaderBytes ≤ options.segmentBytes) :
    ∃ loaded, directory.load options = .ok loaded ∧
      ∀ topic, loaded.manager.count? topic = directory.manager.count? topic := by
  have hlines : ∀ topic ∈ directory.manager.listing, ∃ n, directory.manager.count? topic.topic = some n ∧
      UInt32.ofNat n = topic.partitionCount := fun topic htopic => TopicManager.mem_listing.mp htopic
  have hwords : ∀ topic ∈ directory.manager.listing, IsWord topic.topic := by
    intro topic htopic
    obtain ⟨n, hcount, -⟩ := hlines topic htopic
    exact isWord_of_validateTopicName (hvalid hcount).1
  have hdirectories : ∀ topic ∈ directory.manager.listing, directory.entries topic.topic = some .directory := by
    intro topic htopic
    obtain ⟨n, hcount, -⟩ := hlines topic htopic
    exact hentries _ n hcount
  obtain ⟨loaded, hload, hcounts⟩ := @TopicManager.Unwritten.loadTopics
    { options := options, files := directory.manager.files } _ hunwritten hsize hvalid.loadable fun _ _ => rfl
  refine ⟨{ directory with manager := loaded }, ?_, fun topic => ?_⟩
  · rw [load_eq hmetadata hwords hdirectories hsize, hload]
    rfl
  · apply Option.ext
    intro n
    rw [hcounts]
    constructor
    · rintro (hstart | ⟨line, hline, rfl, rfl⟩)
      · cases hstart
      · obtain ⟨n, hcount, hpartitions⟩ := hlines line hline
        rw [hcount, ← hpartitions, TopicManager.toNat_ofNat_count (hvalid hcount).2.2]
    · intro hcount
      exact .inr ⟨⟨topic, UInt32.ofNat n⟩, TopicManager.mem_listing.mpr ⟨n, hcount, rfl⟩, rfl,
        TopicManager.toNat_ofNat_count (hvalid hcount).2.2⟩

/-! ### Creating topics -/

theorem TopicFiles.setDirectory_same (files : TopicFiles) (topic : Bytes) (id : Nat) :
    files.setDirectory topic id (files.partitions topic id) = files := by
  have hsame : (files.setDirectory topic id (files.partitions topic id)).partitions = files.partitions := by
    funext other i
    by_cases hplace : other = topic ∧ i = id
    · rw [hplace.1, hplace.2, TopicFiles.setDirectory_self]
    · exact TopicFiles.setDirectory_of_ne _ _ hplace
  unfold TopicFiles.setDirectory at hsame ⊢
  simp only at hsame
  rw [hsame]

/-- A topic whose first log fails before it touches its directory. -/
theorem TopicManager.openTopic_failed {manager : TopicManager} {topic : Bytes} {count : UInt32}
    {fault : Option (Nat × Bool × Status)} {status : Status} (hzero : count ≠ 0)
    (hfirst : openPartition manager.options topic fault 0 (manager.files.partitions topic 0) =
      (.error status, manager.files.partitions topic 0)) :
    manager.openTopic topic count fault = (.error status, manager.files) := by
  have hrange : List.range count.toNat = 0 :: (List.range (count.toNat - 1)).map Nat.succ := by
    have hpos : 0 < count.toNat := Nat.pos_of_ne_zero fun h => hzero (UInt32.toNat_inj.mp h)
    rw [← List.range_succ_eq_map]
    congr 1
    omega
  unfold TopicManager.openTopic
  rw [hrange, openPartitions, hfirst]
  simp only [TopicFiles.setDirectory_same]

namespace TopicDirectory

variable {directory : TopicDirectory} {topic : Bytes} {count : UInt32}

/-- The entries when the directory of a topic is there. -/
def entered (directory : TopicDirectory) (topic : Bytes) : Bytes → Option RootEntry :=
  Function.update directory.entries topic (some .directory)

/-- The directory when the logs of a topic have been opened, or one of them has not. -/
def opening (directory : TopicDirectory) (topic : Bytes) (count : UInt32) : TopicDirectory where
  manager := { directory.manager with files := (directory.manager.openTopic topic count none).2 }
  entries := directory.entered topic

/-- The system calls that fail because of the entries. -/
def faults (directory : TopicDirectory) (topic : Bytes) : CreateFaults where
  openPartition :=
    match directory.entries topic with
    | some (.file _) => some (0, false, .ioError "create commit log directory: Not a directory")
    | _ => none
  persist :=
    if directory.entered topic metadataTempName = some .directory then
      some (.ioError ("open topic metadata temp " ++ directory.manager.options.dataDir ++ "/topics.meta.tmp"))
    else if directory.entered topic metadataName = some .directory then
      some (.ioError "rename topic metadata: Is a directory")
    else none

/-- A topic with the name of the list, or of its temporary file, cannot be listed. -/
theorem faults_reserved (htopic : topic = metadataName ∨ topic = metadataTempName) :
    (directory.faults topic).persist ≠ none := by
  have hentered : directory.entered topic topic = some .directory := Function.update_self _ _ _
  unfold faults
  rcases htopic with rfl | rfl
  · simp only [hentered]
    split_ifs <;> exact Option.some_ne_none _
  · simp only [hentered, if_true]
    exact Option.some_ne_none _

theorem openTopic_of_file (hsize : recordBatchHeaderBytes ≤ directory.manager.options.segmentBytes) {content : Bytes}
    (hentry : directory.entries topic = some (.file content)) :
    directory.openTopic topic count = (.error (.ioError "create commit log directory: Not a directory"), directory) := by
  unfold openTopic
  rw [if_neg (not_lt.mpr hsize), hentry]

theorem openTopic_of_ne_file (hsize : recordBatchHeaderBytes ≤ directory.manager.options.segmentBytes)
    (hentry : ∀ content, directory.entries topic ≠ some (.file content)) :
    directory.openTopic topic count =
      ((directory.manager.openTopic topic count none).1, directory.opening topic count) := by
  unfold openTopic
  rw [if_neg (not_lt.mpr hsize)]
  cases hfound : directory.entries topic with
  | none => rfl
  | some entry =>
      cases entry with
      | directory => rfl
      | file content => exact absurd hfound (hentry content)

theorem faults_openPartition (hentry : ∀ content, directory.entries topic ≠ some (.file content)) :
    (directory.faults topic).openPartition = none := by
  unfold faults
  split
  · exact absurd ‹_› (hentry _)
  · rfl

theorem openTopic_pair {result : Result Topic} (hopen : (directory.manager.openTopic topic count none).1 = result) :
    directory.manager.openTopic topic count none = (result, (directory.opening topic count).manager.files) :=
  Prod.ext hopen rfl

/-- A topic that could not be listed is forgotten. -/
theorem erase_insert {topics : SortedMap Bytes Topic} (hnone : topics.find? topic = none) (opened : Topic) :
    (topics.insert topic opened).erase topic = topics := by
  apply SortedMap.ext_find?
  intro other
  rw [SortedMap.find?_erase]
  by_cases hother : other = topic
  · rw [if_pos hother, hother, hnone]
  · rw [if_neg hother, SortedMap.find?_insert_of_ne hother]

/-- The directory with one more topic in the list. -/
def created (directory : TopicDirectory) (topic : Bytes) (count : UInt32) (opened : Topic) : TopicDirectory :=
  let listed := { (directory.opening topic count).manager with topics := directory.manager.topics.insert topic opened }
  { manager := { listed with files := { listed.files with metadata := some listed.listing } }
    entries := Function.update (Function.update (directory.entered topic) metadataTempName none) metadataName
      (some (.file (metadataText listed.listing))) }

/-- The ways of creating a topic that is new. -/
inductive Creation (directory : TopicDirectory) (topic : Bytes) (count : UInt32) :
    Result Unit × TopicDirectory → Prop
  | notDirectory {content : Bytes} (hentry : directory.entries topic = some (.file content)) :
      Creation directory topic count (.error (.ioError "create commit log directory: Not a directory"), directory)
  | notOpened {status : Status} (hentry : ∀ content, directory.entries topic ≠ some (.file content))
      (hopen : (directory.manager.openTopic topic count none).1 = .error status) :
      Creation directory topic count (.error status, directory.opening topic count)
  | notWritten {opened : Topic} (hentry : ∀ content, directory.entries topic ≠ some (.file content))
      (hopen : (directory.manager.openTopic topic count none).1 = .ok opened)
      (htemp : directory.entered topic metadataTempName = some .directory) :
      Creation directory topic count
        (.error (.ioError ("open topic metadata temp " ++ directory.manager.options.dataDir ++ "/topics.meta.tmp")),
          directory.opening topic count)
  | notRenamed {opened : Topic} (hentry : ∀ content, directory.entries topic ≠ some (.file content))
      (hopen : (directory.manager.openTopic topic count none).1 = .ok opened)
      (htemp : directory.entered topic metadataTempName ≠ some .directory)
      (hmetadata : directory.entered topic metadataName = some .directory) (content : Bytes) :
      Creation directory topic count (.error (.ioError "rename topic metadata: Is a directory"),
        { directory.opening topic count with
          entries := Function.update (directory.entered topic) metadataTempName (some (.file content)) })
  | created {opened : Topic} (hentry : ∀ content, directory.entries topic ≠ some (.file content))
      (hopen : (directory.manager.openTopic topic count none).1 = .ok opened)
      (htemp : directory.entered topic metadataTempName ≠ some .directory)
      (hmetadata : directory.entered topic metadataName ≠ some .directory) :
      Creation directory topic count (.ok (), directory.created topic count opened)

/-- **Creating a topic that is new.** It fails on the name of a file, or while its logs are opened, or while the list
is written; otherwise the list is replaced. -/
theorem createTopic_new (hsize : recordBatchHeaderBytes ≤ directory.manager.options.segmentBytes)
    (hvalid : validateTopicName topic = .ok ()) (hzero : count ≠ 0)
    (hnone : directory.manager.topics.find? topic = none) :
    Creation directory topic count (directory.createTopic topic count) := by
  unfold createTopic
  rw [hvalid, hnone]
  simp only [if_neg hzero]
  by_cases hfile : ∃ content, directory.entries topic = some (.file content)
  · obtain ⟨content, hentry⟩ := hfile
    rw [openTopic_of_file hsize hentry]
    exact .notDirectory hentry
  have hentry : ∀ content, directory.entries topic ≠ some (.file content) := fun content h => hfile ⟨content, h⟩
  rw [openTopic_of_ne_file hsize hentry]
  cases hopen : (directory.manager.openTopic topic count none).1 with
  | error status => exact .notOpened hentry hopen
  | ok opened =>
      unfold persistMetadata opening
      by_cases htemp : directory.entered topic metadataTempName = some .directory
      · simp only [if_pos htemp, erase_insert hnone]
        exact .notWritten hentry hopen htemp
      by_cases hmetadata : directory.entered topic metadataName = some .directory
      · simp only [if_neg htemp, if_pos hmetadata, erase_insert hnone]
        exact .notRenamed hentry hopen htemp hmetadata _
      simp only [if_neg htemp, if_neg hmetadata]
      exact .created hentry hopen htemp hmetadata

/-- **`CreateTopic` refines the manager.** It does what the manager does with the faults that the entries stand for. -/
theorem createTopic_refines (hsize : recordBatchHeaderBytes ≤ directory.manager.options.segmentBytes) :
    ((directory.createTopic topic count).1, (directory.createTopic topic count).2.manager) =
      directory.manager.createTopic topic count (directory.faults topic) := by
  unfold TopicManager.createTopic
  cases hvalid : validateTopicName topic with
  | error status =>
      unfold createTopic
      rw [hvalid]
  | ok _ =>
      simp only
      by_cases hzero : count = 0
      · unfold createTopic
        rw [hvalid]
        simp only [if_pos hzero]
      rw [if_neg hzero]
      cases hfind : directory.manager.topics.find? topic with
      | some existing =>
          unfold createTopic
          rw [hvalid, hfind]
          simp only [if_neg hzero]
          split_ifs
          · rfl
          · rfl
      | none =>
          have hcreation := createTopic_new hsize hvalid hzero hfind
          generalize directory.createTopic topic count = result at hcreation
          cases hcreation with
          | notDirectory hentry =>
              have hopen : directory.manager.openTopic topic count (directory.faults topic).openPartition =
                  (.error (.ioError "create commit log directory: Not a directory"), directory.manager.files) := by
                unfold faults
                rw [hentry]
                exact TopicManager.openTopic_failed hzero rfl
              simp only [hopen]
          | notOpened hentry hopen =>
              rw [faults_openPartition hentry, openTopic_pair hopen]
              rfl
          | notWritten hentry hopen htemp =>
              rw [faults_openPartition hentry, openTopic_pair hopen]
              simp only [faults, if_pos htemp]
              rfl
          | notRenamed hentry hopen htemp hmetadata content =>
              rw [faults_openPartition hentry, openTopic_pair hopen]
              simp only [faults, if_neg htemp, if_pos hmetadata]
              rfl
          | created hentry hopen htemp hmetadata =>
              rw [faults_openPartition hentry, openTopic_pair hopen]
              simp only [faults, if_neg htemp, if_neg hmetadata]
              rfl

end TopicDirectory

end LogMq
