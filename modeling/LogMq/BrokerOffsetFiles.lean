import LogMq.BrokerOffsets
import LogMq.BrokerTopics
import LogMq.LibText

/-! The files of committed offsets. Every group has a directory below `__consumer_offsets`, and every topic and
partition has a file in it. `Commit` writes a temporary file and renames it; `Load` finds the topic and the
partition in the name of a file and compares them with its body. -/

namespace LogMq

open Text

/-! ### Names -/

def offsetMetadataMagic : Bytes := text "logmq_consumer_offset_v1"

/-- `std::to_string`. -/
def intText (n : Int) : Bytes := if n < 0 then 45 :: decimal n.natAbs else decimal n.natAbs

/-- The name in `OffsetPath`. -/
def offsetFileName (topic : Bytes) (partitionId : Int) : Bytes :=
  topic ++ (text "-" ++ (intText partitionId ++ text ".offset"))

/-- The name in `OffsetTempPath`. -/
def offsetTempName (topic : Bytes) (partitionId : Int) : Bytes :=
  topic ++ (text "-" ++ (intText partitionId ++ text ".offset.tmp"))

/-- `stem` and `extension` of a path with this file name. -/
def splitExtension (name : Bytes) : Bytes × Bytes :=
  match splitLast 46 name with
  | none => (name, [])
  | some (stem, extension) => if stem = [] ∨ name = text ".." then (name, []) else (stem, 46 :: extension)

/-- The loop over the digits of a partition, with its check against the maximum of an `int32_t`. -/
def parsePartition : Int → Bytes → Option Int
  | parsed, [] => some parsed
  | parsed, ch :: rest =>
      if ch < 48 ∨ 57 < ch then none
      else
        let digit : Int := ch.toNat - 48
        if parsed > (maxInt32 - digit) / 10 then none else parsePartition (parsed * 10 + digit) rest

/-- `ParseOffsetFilename`. -/
def parseOffsetFilename (name : Bytes) : Option (Bytes × Int) :=
  if (splitExtension name).2 ≠ text ".offset" then none
  else
    match splitLast 45 (splitExtension name).1 with
    | none => none
    | some (topic, partition) =>
        if topic = [] ∨ partition = [] then none
        else (parsePartition 0 partition).map fun partitionId => (topic, partitionId)

/-! ### Contents -/

def offsetFileText (key : ConsumerOffsetKey) (offset : Int) : Bytes :=
  offsetMetadataMagic ++ 10 :: (key.groupId ++ 32 :: (key.topic ++ 32 ::
    (intText key.partitionId ++ 32 :: (intText offset ++ [10]))))

/-- The four fields behind the first line; nothing may follow them. -/
def parseOffsetBody (body : Bytes) : Option (Bytes × Bytes × Int × Int) := do
  let (groupId, rest) ← readWord body
  let (topic, rest) ← readWord rest
  let (partitionId, rest) ← readInt64 rest
  let (offset, rest) ← readInt64 rest
  match readWord rest with
  | some _ => none
  | none => return (groupId, topic, partitionId, offset)

/-- What `Load` reads from a file whose name stands for a topic and a partition. -/
def readOffsetFile (groupId topic : Bytes) (partitionId : Int) (content : Bytes) : Result (ConsumerOffsetKey × Int) :=
  match readLine content with
  | none => .error (.corruption "consumer offset file is empty")
  | some (magic, body) =>
      if magic ≠ offsetMetadataMagic then .error (.corruption "consumer offset file has unsupported format")
      else
        match parseOffsetBody body with
        | none => .error (.corruption "invalid consumer offset file body")
        | some (fileGroup, fileTopic, filePartition, fileOffset) =>
            if fileGroup ≠ groupId ∨ fileTopic ≠ topic ∨ filePartition ≠ partitionId then
              .error (.corruption "consumer offset file does not match path")
            else do
              validateSafeName fileTopic "topic"
              if fileOffset < 0 then .error (.corruption "consumer offset must not be negative")
              else return (⟨fileGroup, fileTopic, filePartition⟩, fileOffset)

/-! ### Directories -/

/-- An entry of a group's directory. -/
inductive GroupEntry where
  | file (content : Bytes)
  | other

/-- An entry of `__consumer_offsets`. -/
inductive OffsetEntry where
  | directory (files : SortedMap Bytes GroupEntry)
  | other

/-- The directory `__consumer_offsets`. -/
abbrev OffsetRoot := SortedMap Bytes OffsetEntry

/-- The order in which the directories are read, which is unspecified. -/
structure OffsetListing (root : OffsetRoot) where
  groups : List (Bytes × OffsetEntry)
  files : Bytes → List (Bytes × GroupEntry)
  groups_perm : groups.Perm root.entries
  files_perm : ∀ groupId entries, root.find? groupId = some (.directory entries) →
    (files groupId).Perm entries.entries

/-- The order by name. -/
def OffsetListing.byName (root : OffsetRoot) : OffsetListing root where
  groups := root.entries
  files groupId :=
    match root.find? groupId with
    | some (.directory files) => files.entries
    | _ => []
  groups_perm := .refl _
  files_perm groupId entries h := by rw [h]

namespace OffsetRoot

/-- The offset of a key that has none yet. -/
def emplace (loaded : ConsumerOffsetKey → Option Int) (key : ConsumerOffsetKey) (offset : Int) :
    ConsumerOffsetKey → Option Int :=
  if (loaded key).isSome then loaded else OffsetStore.set loaded key offset

/-- The loop of `Load` over the files of a group. -/
def loadGroup (groupId : Bytes) : List (Bytes × GroupEntry) → (ConsumerOffsetKey → Option Int) →
    Result (ConsumerOffsetKey → Option Int)
  | [], loaded => .ok loaded
  | (_, .other) :: rest, loaded => loadGroup groupId rest loaded
  | (name, .file content) :: rest, loaded =>
      match parseOffsetFilename name with
      | none => loadGroup groupId rest loaded
      | some (topic, partitionId) => do
          validateSafeName topic "topic"
          let (key, offset) ← readOffsetFile groupId topic partitionId content
          loadGroup groupId rest (emplace loaded key offset)

/-- The loop of `Load` over the groups. -/
def loadGroups (files : Bytes → List (Bytes × GroupEntry)) : List (Bytes × OffsetEntry) →
    (ConsumerOffsetKey → Option Int) → Result (ConsumerOffsetKey → Option Int)
  | [], loaded => .ok loaded
  | (_, .other) :: rest, loaded => loadGroups files rest loaded
  | (groupId, .directory _) :: rest, loaded => do
      validateSafeName groupId "group_id"
      let loaded ← loadGroup groupId (files groupId) loaded
      loadGroups files rest loaded

/-- `Load` of what is in the directory. Reading it does not fail. -/
def load {root : OffsetRoot} (listing : OffsetListing root) : Result (ConsumerOffsetKey → Option Int) :=
  loadGroups listing.files listing.groups fun _ => none

/-- The system call of a `Commit` that fails: creating the group's directory, opening the temporary file, writing
it when some of its bytes have been written, or renaming it. -/
inductive CommitFault where
  | directory (reason : String)
  | open
  | write (count : Nat)
  | rename (reason : String)
  deriving DecidableEq

/-- The directory of a group, which may have to be created. -/
def groupFiles (root : OffsetRoot) (groupId : Bytes) : Option (SortedMap Bytes GroupEntry) :=
  match root.find? groupId with
  | none => some .empty
  | some (.directory files) => some files
  | some .other => none

def tempPath (dataDir : String) (key : ConsumerOffsetKey) : String :=
  dataDir ++ "/__consumer_offsets/" ++ nameText key.groupId ++ "/" ++
    nameText (offsetTempName key.topic key.partitionId)

/-- The part of `PersistLocked` behind the creation of the directory: its result and the files of the group. -/
def persistFile (dataDir : String) (files : SortedMap Bytes GroupEntry) (key : ConsumerOffsetKey) (offset : Int)
    (fault : Option CommitFault) : Result Unit × SortedMap Bytes GroupEntry :=
  let temp := offsetTempName key.topic key.partitionId
  let final := offsetFileName key.topic key.partitionId
  let content := offsetFileText key offset
  match fault, files.find? temp, files.find? final with
  | some .open, _, _ | _, some .other, _ =>
      (.error (.ioError ("open consumer offset temp " ++ tempPath dataDir key)), files)
  | some (.write count), _, _ =>
      (.error (.ioError ("write consumer offset temp " ++ tempPath dataDir key)),
        files.insert temp (.file (content.take count)))
  | some (.rename reason), _, _ =>
      (.error (.ioError ("rename consumer offset: " ++ reason)), files.insert temp (.file content))
  | _, _, some .other =>
      (.error (.ioError "rename consumer offset: Is a directory"), files.insert temp (.file content))
  | _, _, _ => (.ok (), (files.erase temp).insert final (.file content))

/-- `PersistLocked`. -/
def persist (dataDir : String) (root : OffsetRoot) (key : ConsumerOffsetKey) (offset : Int)
    (fault : Option CommitFault) : Result Unit × OffsetRoot :=
  match fault, groupFiles root key.groupId with
  | some (.directory reason), _ => (.error (.ioError ("create consumer offset group directory: " ++ reason)), root)
  | _, none => (.error (.ioError "create consumer offset group directory: Not a directory"), root)
  | _, some files =>
      let persisted := persistFile dataDir files key offset fault
      (persisted.1, root.insert key.groupId (.directory persisted.2))

/-- `Commit` on the files and on the offsets in memory. -/
def commit (dataDir : String) (root : OffsetRoot) (offsets : ConsumerOffsetKey → Option Int)
    (key : ConsumerOffsetKey) (offset : Int) (fault : Option CommitFault) :
    Result Unit × OffsetRoot × (ConsumerOffsetKey → Option Int) :=
  match OffsetStore.validateKey key with
  | .error status => (.error status, root, offsets)
  | .ok () =>
      if offset < 0 then (.error (.invalidArgument "offset must not be negative"), root, offsets)
      else
        match persist dataDir root key offset fault with
        | (.error status, root) => (.error status, root, offsets)
        | (.ok (), root) => (.ok (), root, OffsetStore.set offsets key offset)

end OffsetRoot

/-! ### Safe names are words -/

theorem isSpace_of_isSafeByte {b : UInt8} (h : isSafeByte b = true) : isSpace b = false := by
  have hall : ∀ n < 256, isSafeByte (UInt8.ofNat n) = true → isSpace (UInt8.ofNat n) = false := by decide +kernel
  have hb := hall b.toNat b.toNat_lt
  rw [UInt8.ofNat_toNat] at hb
  exact hb h

/-- An internal topic is its marker and a name. -/
theorem internalMarker_append {topic : Bytes} (h : isInternalTopic topic = true) :
    ∃ marker, (marker = retryTopicPrefix ∨ marker = dlqTopicPrefix) ∧
      topic = marker ++ topic.drop (if isRetryTopic topic then retryTopicPrefix.length else dlqTopicPrefix.length) := by
  by_cases hretry : isRetryTopic topic = true
  · obtain ⟨rest, rfl⟩ := List.isPrefixOf_iff_prefix.mp hretry
    refine ⟨retryTopicPrefix, .inl rfl, ?_⟩
    rw [if_pos hretry, List.drop_left]
  · have hdlq : isDlqTopic topic = true := by
      rw [isInternalTopic, Bool.or_eq_true] at h
      exact h.resolve_left hretry
    obtain ⟨rest, rfl⟩ := List.isPrefixOf_iff_prefix.mp hdlq
    refine ⟨dlqTopicPrefix, .inr rfl, ?_⟩
    rw [if_neg hretry, List.drop_left]

theorem isWord_of_safe {name : Bytes} (hsome : name ≠ []) (hall : name.all isSafeByte = true) : IsWord name :=
  ⟨hsome, fun b hb => isSpace_of_isSafeByte (List.all_eq_true.mp hall b hb)⟩

theorem isWord_of_marker {marker rest : Bytes} (hmarker : marker = retryTopicPrefix ∨ marker = dlqTopicPrefix)
    (hrest : IsWord rest) : IsWord (marker ++ rest) := by
  have hspaces : ∀ b ∈ marker, isSpace b = false := by
    rcases hmarker with rfl | rfl
    · decide +kernel
    · decide +kernel
  refine ⟨List.append_ne_nil_of_right_ne_nil _ hrest.1, fun b hb => ?_⟩
  rcases List.mem_append.mp hb with hfront | hback
  · exact hspaces b hfront
  · exact hrest.2 b hback

theorem isWord_of_validateSafeName {name : Bytes} {field : String} (h : validateSafeName name field = .ok ()) :
    IsWord name := by
  unfold validateSafeName at h
  by_cases hinternal : field = "topic" ∧ isInternalTopic name = true
  · simp only [if_pos hinternal] at h
    obtain ⟨marker, hmarker, hname⟩ := internalMarker_append hinternal.2
    generalize name.drop _ = rest at h hname
    split_ifs at h with hempty hdots hsafe
    rw [hname]
    exact isWord_of_marker hmarker (isWord_of_safe hempty hsafe)
  · simp only [if_neg hinternal] at h
    split_ifs at h with hempty hdots hsafe
    exact isWord_of_safe hempty hsafe

/-! ### What `Load` reads from the files of `Commit` -/

theorem intText_of_nonneg {n : Int} (h : 0 ≤ n) : intText n = decimal n.toNat := by
  rw [intText, if_neg (by omega)]
  congr 1
  omega

theorem parsePartition_eq (parsed : Int) (digits : Bytes) :
    parsePartition parsed digits = readBounded maxInt32 digits parsed := by
  induction digits generalizing parsed with
  | nil => rfl
  | cons ch rest ih => simp only [parsePartition, readBounded, ih]

theorem splitExtension_of_marked {front extension : Bytes} (hextension : 46 ∉ extension) (hfront : front ≠ [])
    (hlong : 2 ≤ front.length) : splitExtension (front ++ 46 :: extension) = (front, 46 :: extension) := by
  unfold splitExtension
  rw [splitLast_append hextension]
  refine if_neg (not_or.mpr ⟨hfront, fun hdots => ?_⟩)
  have hlength := congrArg List.length hdots
  have htwo : (text "..").length = 2 := by decide +kernel
  rw [List.length_append, List.length_cons, htwo] at hlength
  omega

/-- A topic and a partition with a dash between them. -/
theorem length_stem (topic : Bytes) (partitionId : Int) (htopic : topic ≠ []) :
    2 ≤ (topic ++ (text "-" ++ intText partitionId)).length := by
  have hsome := List.length_pos_of_ne_nil htopic
  have hdash : (text "-").length = 1 := by decide +kernel
  rw [List.length_append, List.length_append, hdash]
  omega

theorem parseOffsetFilename_offsetFileName {topic : Bytes} {partitionId : Int} (htopic : topic ≠ [])
    (hnonneg : 0 ≤ partitionId) (hle : partitionId ≤ maxInt32) :
    parseOffsetFilename (offsetFileName topic partitionId) = some (topic, partitionId) := by
  have hname : offsetFileName topic partitionId =
      (topic ++ (text "-" ++ intText partitionId)) ++ 46 :: text "offset" := by
    have hextension : text ".offset" = 46 :: text "offset" := by decide +kernel
    rw [offsetFileName, hextension]
    simp only [List.append_assoc]
  have hstem : topic ++ (text "-" ++ intText partitionId) = topic ++ 45 :: intText partitionId := by
    have hdash : text "-" = [45] := by decide +kernel
    rw [hdash]
    rfl
  have hlong := length_stem topic partitionId htopic
  have hsplit := @splitExtension_of_marked _ (text "offset") (by decide +kernel)
    (List.append_ne_nil_of_left_ne_nil htopic _) hlong
  have hdigits : 45 ∉ intText partitionId := by
    rw [intText_of_nonneg hnonneg]
    intro hmem
    cases isDigit_of_mem_decimal hmem
  have hparse : parsePartition 0 (intText partitionId) = some partitionId := by
    have hspells := @spells_decimal maxInt32 partitionId.toNat (by rwa [Int.toNat_of_nonneg hnonneg])
    rw [intText_of_nonneg hnonneg, parsePartition_eq, readBounded_iff_spells (by decide) hspells.nonempty]
    rwa [Int.toNat_of_nonneg hnonneg] at hspells
  have hsome : intText partitionId ≠ [] := by
    rw [intText_of_nonneg hnonneg]
    exact decimal_ne_nil _
  unfold parseOffsetFilename
  rw [hname, hsplit, if_neg (show ¬ (46 :: text "offset" ≠ text ".offset") by decide +kernel), hstem, splitLast_append hdigits]
  simp only
  rw [if_neg (not_or.mpr ⟨htopic, hsome⟩), hparse]
  rfl

theorem parseOffsetFilename_offsetTempName {topic : Bytes} {partitionId : Int} (htopic : topic ≠ []) :
    parseOffsetFilename (offsetTempName topic partitionId) = none := by
  have hname : offsetTempName topic partitionId =
      (topic ++ (text "-" ++ (intText partitionId ++ text ".offset"))) ++ 46 :: text "tmp" := by
    have hextension : text ".offset.tmp" = text ".offset" ++ 46 :: text "tmp" := by decide +kernel
    rw [offsetTempName, hextension]
    simp only [List.append_assoc]
  have hlong : 2 ≤ (topic ++ (text "-" ++ (intText partitionId ++ text ".offset"))).length := by
    have hstem := length_stem topic partitionId htopic
    simp only [List.length_append] at hstem ⊢
    omega
  have hsplit := @splitExtension_of_marked _ (text "tmp") (by decide +kernel)
    (List.append_ne_nil_of_left_ne_nil htopic _) hlong
  unfold parseOffsetFilename
  rw [hname, hsplit, if_pos (show 46 :: text "tmp" ≠ text ".offset" by decide +kernel)]

/-- A key that `Commit` accepts, with an offset that it accepts. -/
structure Storable (key : ConsumerOffsetKey) (offset : Int) : Prop where
  group : validateSafeName key.groupId "group_id" = .ok ()
  topic : validateSafeName key.topic "topic" = .ok ()
  partition_nonneg : 0 ≤ key.partitionId
  partition_le : key.partitionId ≤ maxInt32
  offset_nonneg : 0 ≤ offset
  offset_lt : offset < 2 ^ 63

theorem parseOffsetBody_offsetFileText {key : ConsumerOffsetKey} {offset : Int} (h : Storable key offset) :
    parseOffsetBody (key.groupId ++ 32 :: (key.topic ++ 32 :: (intText key.partitionId ++ 32 ::
      (intText offset ++ [10])))) = some (key.groupId, key.topic, key.partitionId, offset) := by
  have hpartition : key.partitionId.toNat < 2 ^ 63 := by
    have hle := h.partition_le
    unfold maxInt32 at hle
    omega
  have hoffset : offset.toNat < 2 ^ 63 := by
    have hlt := h.offset_lt
    omega
  unfold parseOffsetBody
  rw [intText_of_nonneg h.partition_nonneg, intText_of_nonneg h.offset_nonneg,
    readWord_word (isWord_of_validateSafeName h.group) (.space _)]
  show (do
    let (topic, rest) ← readWord (32 :: _)
    _) = _
  rw [readWord_space, readWord_word (isWord_of_validateSafeName h.topic) (.space _)]
  show (do
    let (partitionId, rest) ← readInt64 (32 :: _)
    _) = _
  rw [readInt64_space, readInt64_decimal hpartition (.space _)]
  show (do
    let (offset, rest) ← readInt64 (32 :: _)
    _) = _
  rw [readInt64_space, readInt64_decimal hoffset (.newline _)]
  show some _ = _
  rw [Int.toNat_of_nonneg h.partition_nonneg, Int.toNat_of_nonneg h.offset_nonneg]

/-- **A committed offset is read back.** -/
theorem readOffsetFile_offsetFileText {key : ConsumerOffsetKey} {offset : Int} (h : Storable key offset) :
    readOffsetFile key.groupId key.topic key.partitionId (offsetFileText key offset) = .ok (key, offset) := by
  unfold readOffsetFile offsetFileText
  rw [readLine_line (by decide +kernel)]
  simp only
  rw [if_neg (not_not.mpr rfl), parseOffsetBody_offsetFileText h]
  simp only
  rw [if_neg (by simp), h.topic]
  show (if offset < 0 then _ else _) = _
  rw [if_neg (by have := h.offset_nonneg; omega)]
  rfl

end LogMq
