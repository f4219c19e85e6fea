import LogMq.BrokerTopicFiles

/-! `topics.meta` as a text for a finite map. `PersistMetadataLocked` collects the topics from a hash table, in any
order, and sorts them by name; the loop of `Load` reads the map back. What `Load` does besides is to open each topic. -/

namespace LogMq

open Text

/-- What `PersistMetadataLocked` writes down, from the topics in the order of the hash table. -/
def sortedListing (order : List (Bytes × Nat)) : List TopicMetadata :=
  (order.map fun entry => ⟨entry.1, UInt32.ofNat entry.2⟩).mergeSort fun left right => decide (left.topic ≤ right.topic)

/-- The loop of `Load` over the lines of the file, behind a number of lines, without the opening of the topics. -/
def parseTopics : Nat → List Bytes → SortedMap Bytes Nat → Result (SortedMap Bytes Nat)
  | _, [], loaded => .ok loaded
  | number, line :: rest, loaded =>
      if line = [] then parseTopics (number + 1) rest loaded
      else
        match parseTopicLine line with
        | none => .error (.corruption ("invalid topic metadata line " ++ toString (number + 1)))
        | some (topic, partitionCount) =>
            if partitionCount = 0 ∨ 2 ^ 32 ≤ partitionCount then
              .error (.corruption "invalid partition count in topic metadata")
            else
              match validateTopicName topic with
              | .error status => .error status
              | .ok () =>
                  if (loaded.find? topic).isSome then
                    .error (.corruption ("duplicate topic in metadata: " ++ nameText topic))
                  else parseTopics (number + 1) rest (loaded.insert topic partitionCount)

/-- What `Load` reads from the file. -/
def parseMetadata (content : Bytes) : Result (SortedMap Bytes Nat) :=
  match lines content with
  | [] => .error (.corruption "topic metadata is empty")
  | magic :: rest =>
      if magic ≠ topicMetadataMagic then .error (.corruption "topic metadata has unsupported format")
      else parseTopics 1 rest .empty

/-- A map that the list of topics can hold: valid names, and counts that are positive and fit 32 bits. -/
structure Listable (map : SortedMap Bytes Nat) : Prop where
  valid : ∀ {topic count}, map.find? topic = some count → validateTopicName topic = .ok ()
  positive : ∀ {topic count}, map.find? topic = some count → 0 < count
  fits : ∀ {topic count}, map.find? topic = some count → count < 2 ^ 32

/-! ### The text -/

/-- The order of the hash table does not show. -/
theorem sortedListing_eq {map : SortedMap Bytes Nat} {order : List (Bytes × Nat)} (horder : order.Perm map.entries) :
    sortedListing order = map.entries.map fun entry => ⟨entry.1, UInt32.ofNat entry.2⟩ := by
  have hmap := @List.map_mergeSort _ _ (fun left right => decide (left.1 ≤ right.1))
    (fun left right => decide (left.topic ≤ right.topic))
    (fun entry : Bytes × Nat => (⟨entry.1, UInt32.ofNat entry.2⟩ : TopicMetadata)) order fun _ _ _ _ => rfl
  rw [sortedListing, ← hmap, SortedMap.mergeSort_entries horder]

/-- What is written for the counts of a manager is its list of topics. -/
theorem TopicManager.sortedListing_counts {manager : TopicManager} {order : List (Bytes × Nat)}
    (horder : order.Perm manager.counts.entries) : sortedListing order = manager.listing := by
  rw [sortedListing_eq horder, listing_eq_counts]

/-- One line is read back: the name is a word, and its number is written and read within the same bounds. -/
theorem parseTopics_cons {topic : Bytes} {count number : Nat} {rest : List Bytes} {loaded : SortedMap Bytes Nat}
    (hvalid : validateTopicName topic = .ok ()) (hpos : 0 < count) (hfits : count < 2 ^ 32)
    (hnew : loaded.find? topic = none) :
    parseTopics number (topicLine ⟨topic, UInt32.ofNat count⟩ :: rest) loaded =
      parseTopics (number + 1) rest (loaded.insert topic count) := by
  have hsome : topicLine ⟨topic, UInt32.ofNat count⟩ ≠ [] :=
    List.append_ne_nil_of_right_ne_nil _ (List.cons_ne_nil _ _)
  have hcount : (UInt32.ofNat count).toNat = count := Nat.mod_eq_of_lt hfits
  have hrange : ¬ (count = 0 ∨ 2 ^ 32 ≤ count) := by omega
  rw [parseTopics, if_neg hsome, parseTopicLine_topicLine (isWord_of_validateTopicName hvalid)]
  simp only [hcount, if_neg hrange, hvalid, hnew, Option.isSome_none]
  rfl

/-- The loop reads the rest of a map behind the topics it has read. -/
theorem parseTopics_entries {entries : List (Bytes × Nat)} {loaded : SortedMap Bytes Nat}
    (hsorted : (loaded.entries ++ entries).Pairwise fun left right => left.1 < right.1)
    (hvalid : ∀ entry ∈ entries, validateTopicName entry.1 = .ok ())
    (hcounts : ∀ entry ∈ entries, 0 < entry.2 ∧ entry.2 < 2 ^ 32) (number : Nat) :
    parseTopics number (entries.map fun entry => topicLine ⟨entry.1, UInt32.ofNat entry.2⟩) loaded =
      .ok ⟨loaded.entries ++ entries, hsorted⟩ := by
  induction entries generalizing loaded number with
  | nil =>
      rw [List.map_nil, parseTopics]
      exact congrArg Except.ok (SortedMap.entries_injective (List.append_nil _).symm)
  | cons entry rest ih =>
      have hlt : ∀ old ∈ loaded.entries, old.1 < entry.1 := fun old hold =>
        (List.pairwise_append.mp hsorted).2.2 old hold entry List.mem_cons_self
      have hnew : loaded.find? entry.1 = none := by
        apply Option.eq_none_iff_forall_ne_some.mpr
        intro count hcount
        exact (hlt _ (SortedMap.mem_entries.mpr hcount)).ne rfl
      obtain ⟨hpos, hfits⟩ := hcounts entry List.mem_cons_self
      have hentries : (loaded.insert entry.1 entry.2).entries ++ rest = loaded.entries ++ entry :: rest := by
        rw [SortedMap.entries_insert_of_lt _ hlt, List.append_assoc, List.singleton_append]
      rw [List.map_cons, parseTopics_cons (hvalid entry List.mem_cons_self) hpos hfits hnew,
        ih (hentries ▸ hsorted) (fun other hother => hvalid other (List.mem_cons_of_mem _ hother))
          fun other hother => hcounts other (List.mem_cons_of_mem _ hother)]
      exact congrArg Except.ok (SortedMap.entries_injective hentries)

/-- **The list of topics is read back.** Whatever the order of the hash table, what is written for a map of valid
names and counts of 32 bits is read as the same map. -/
theorem parseMetadata_metadataText {map : SortedMap Bytes Nat} {order : List (Bytes × Nat)} (hmap : Listable map)
    (horder : order.Perm map.entries) : parseMetadata (metadataText (sortedListing order)) = .ok map := by
  have hvalid : ∀ entry ∈ map.entries, validateTopicName entry.1 = .ok () := fun entry hentry =>
    hmap.valid (SortedMap.mem_entries.mp hentry)
  have hcounts : ∀ entry ∈ map.entries, 0 < entry.2 ∧ entry.2 < 2 ^ 32 := fun entry hentry =>
    ⟨hmap.positive (SortedMap.mem_entries.mp hentry), hmap.fits (SortedMap.mem_entries.mp hentry)⟩
  have hwords : ∀ topic ∈ sortedListing order, IsWord topic.topic := by
    intro topic htopic
    rw [sortedListing_eq horder] at htopic
    obtain ⟨entry, hentry, rfl⟩ := List.mem_map.mp htopic
    exact isWord_of_validateTopicName (hvalid entry hentry)
  have hread := @parseTopics_entries map.entries .empty map.sorted hvalid hcounts 1
  unfold parseMetadata
  rw [lines_metadataText hwords, sortedListing_eq horder, List.map_map]
  simp only [ne_eq, not_true_eq_false, if_false]
  exact hread

/-- A topic of each kind, one of them with the most partitions. -/
def mixedTopics : SortedMap Bytes Nat :=
  ((SortedMap.empty.insert (text "a-b") 3).insert (retryTopicPrefix ++ text "a-b") 1).insert
    (dlqTopicPrefix ++ text "c.1") (2 ^ 32 - 1)

theorem parseMetadata_metadataText_mixed :
    Listable mixedTopics ∧ mixedTopics.entries.reverse.Perm mixedTopics.entries ∧
      parseMetadata (metadataText (sortedListing mixedTopics.entries.reverse)) = .ok mixedTopics := by
  have hentries : ∀ entry ∈ mixedTopics.entries,
      validateTopicName entry.1 = .ok () ∧ 0 < entry.2 ∧ entry.2 < 2 ^ 32 := by
    decide +kernel
  have hlistable : Listable mixedTopics := {
    valid := fun hfind => (hentries _ (SortedMap.mem_entries.mpr hfind)).1
    positive := fun hfind => (hentries _ (SortedMap.mem_entries.mpr hfind)).2.1
    fits := fun hfind => (hentries _ (SortedMap.mem_entries.mpr hfind)).2.2 }
  exact ⟨hlistable, List.reverse_perm _, parseMetadata_metadataText hlistable (List.reverse_perm _)⟩

/-! ### What is read -/

/-- Whatever is read is a map that could have been written. -/
theorem Listable.parseTopics {lines : List Bytes} {number : Nat} {loaded parsed : SortedMap Bytes Nat}
    (hloaded : Listable loaded) (hparse : LogMq.parseTopics number lines loaded = .ok parsed) : Listable parsed := by
  induction lines generalizing number loaded with
  | nil =>
      cases hparse
      exact hloaded
  | cons line rest ih =>
      rw [LogMq.parseTopics] at hparse
      by_cases hempty : line = []
      · rw [if_pos hempty] at hparse
        exact ih hloaded hparse
      rw [if_neg hempty] at hparse
      cases hline : parseTopicLine line with
      | none =>
          rw [hline] at hparse
          cases hparse
      | some fields =>
          obtain ⟨topic, count⟩ := fields
          rw [hline] at hparse
          simp only at hparse
          by_cases hrange : count = 0 ∨ 2 ^ 32 ≤ count
          · rw [if_pos hrange] at hparse
            cases hparse
          rw [if_neg hrange] at hparse
          cases hvalid : validateTopicName topic with
          | error status =>
              rw [hvalid] at hparse
              cases hparse
          | ok _ =>
              rw [hvalid] at hparse
              simp only at hparse
              split_ifs at hparse
              apply ih ?_ hparse
              refine { valid := ?_, positive := ?_, fits := ?_ }
              all_goals
                intro other n hfind
                rw [SortedMap.find?_insert] at hfind
                split_ifs at hfind with hother
              · rw [hother]
                exact hvalid
              · exact hloaded.valid hfind
              · cases hfind
                omega
              · exact hloaded.positive hfind
              · cases hfind
                omega
              · exact hloaded.fits hfind

/-! ### Loading -/

theorem TopicManager.counts_insert {manager : TopicManager} {topic : Bytes} {opened : Topic} (files : TopicFiles) :
    { manager with topics := manager.topics.insert topic opened, files := files : TopicManager }.counts =
      manager.counts.insert topic opened.partitions.length := by
  apply SortedMap.ext_find?
  intro other
  rw [find?_counts, SortedMap.find?_insert, find?_counts, count?_insert]
  by_cases hother : other = topic
  · rw [if_pos hother, if_pos hother]
  · rw [if_neg hother, if_neg hother]

namespace TopicDirectory

/-- A topic that is opened has the partitions it was opened with. -/
theorem openTopic_length {directory after : TopicDirectory} {topic : Bytes} {count : UInt32} {opened : Topic}
    (hopen : directory.openTopic topic count = (.ok opened, after)) :
    opened.partitions.length = count.toNat ∧ after.manager.topics = directory.manager.topics := by
  unfold openTopic at hopen
  by_cases hsize : directory.manager.options.segmentBytes < recordBatchHeaderBytes
  · rw [if_pos hsize] at hopen
    cases hopen
  rw [if_neg hsize] at hopen
  split at hopen
  · cases hopen
  · obtain ⟨hresult, hafter⟩ := Prod.mk.inj hopen
    refine ⟨(@TopicManager.openTopic_ok directory.manager topic count none opened
      (directory.manager.openTopic topic count none).2 (Prod.ext hresult rfl)).1, ?_⟩
    rw [← hafter]

/-- **The loop of `Load` refines the reading of the list.** It gives the map that is read, or fails where a topic
could not be opened. -/
theorem loadLines_parseTopics (lines : List Bytes) (number : Nat) (directory : TopicDirectory) :
    (loadLines number lines directory).map (fun loaded => loaded.manager.counts) =
        parseTopics number lines directory.manager.counts ∨
      ∃ before topic count status, (openTopic before topic count).1 = .error status ∧
        loadLines number lines directory = .error status := by
  induction lines generalizing number directory with
  | nil => exact .inl rfl
  | cons line rest ih =>
      rw [loadLines, parseTopics]
      by_cases hempty : line = []
      · rw [if_pos hempty, if_pos hempty]
        exact ih (number + 1) directory
      rw [if_neg hempty, if_neg hempty]
      cases hline : parseTopicLine line with
      | none => exact .inl rfl
      | some fields =>
          obtain ⟨topic, count⟩ := fields
          by_cases hrange : count = 0 ∨ 2 ^ 32 ≤ count
          · simp only [if_pos hrange]
            exact .inl rfl
          simp only [if_neg hrange]
          cases hvalid : validateTopicName topic with
          | error status => exact .inl rfl
          | ok _ =>
              have hfound : (directory.manager.counts.find? topic).isSome =
                  (directory.manager.topics.find? topic).isSome := by
                rw [TopicManager.find?_counts, TopicManager.count?, Option.isSome_map]
              by_cases hknown : (directory.manager.topics.find? topic).isSome = true
              · simp only [hfound, if_pos hknown]
                exact .inl rfl
              simp only [hfound, if_neg hknown]
              cases hopen : directory.openTopic topic (UInt32.ofNat count) with
              | mk result after =>
                  cases result with
                  | error status => exact .inr ⟨directory, topic, UInt32.ofNat count, status, by rw [hopen], rfl⟩
                  | ok opened =>
                      obtain ⟨hlength, htopics⟩ := openTopic_length hopen
                      have hcount : (UInt32.ofNat count).toNat = count := Nat.mod_eq_of_lt (by omega)
                      have hcounts := @TopicManager.counts_insert after.manager topic opened after.manager.files
                      have hbefore : after.manager.counts = directory.manager.counts := by
                        rw [TopicManager.counts, htopics, TopicManager.counts]
                      rw [hbefore, hlength, hcount] at hcounts
                      rw [← hcounts]
                      exact ih (number + 1) _

/-- What `Load` has loaded is what the file says. -/
theorem parseMetadata_of_load {directory loaded : TopicDirectory} {options : TopicManagerOptions} {content : Bytes}
    (hmetadata : directory.entries metadataName = some (.file content))
    (hload : directory.load options = .ok loaded) : parseMetadata content = .ok loaded.manager.counts := by
  unfold load at hload
  unfold parseMetadata
  rw [hmetadata] at hload
  simp only at hload
  cases hlines : lines content with
  | nil =>
      rw [hlines] at hload
      cases hload
  | cons magic rest =>
      rw [hlines] at hload
      simp only at hload ⊢
      by_cases hmagic : magic ≠ topicMetadataMagic
      · rw [if_pos hmagic] at hload
        cases hload
      rw [if_neg hmagic] at hload ⊢
      rcases loadLines_parseTopics rest 1 (directory.fresh options) with hparse | ⟨_, _, _, _, -, herror⟩
      · rw [hload] at hparse
        exact hparse.symm
      · rw [hload] at herror
        cases herror

end TopicDirectory

end LogMq
