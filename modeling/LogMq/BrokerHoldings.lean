import LogMq.BrokerTopics

/-! What the partitions of a broker hold. The operations on topics keep every log represented; only an
append to a partition changes what is held, and a new manager on intact files holds the same. -/

namespace LogMq

/-! ### Opening partitions -/

section OpenPartitions

variable {options : TopicManagerOptions} {topic : Bytes} {fault : Option (Nat × Bool × Status)}

theorem openPartitions_frame (ids : List Nat) (files : TopicFiles) :
    (openPartitions options topic fault ids files).2.metadata = files.metadata ∧
      (openPartitions options topic fault ids files).2.flushed = files.flushed ∧
      ∀ other i, ¬ (other = topic ∧ i ∈ ids) →
        (openPartitions options topic fault ids files).2.partitions other i = files.partitions other i := by
  induction ids generalizing files with
  | nil => exact ⟨rfl, rfl, fun _ _ _ => rfl⟩
  | cons id rest ih =>
      have hset : ∀ (disk : Disk) other i, ¬ (other = topic ∧ i ∈ id :: rest) →
          (files.setDirectory topic id disk).partitions other i = files.partitions other i := by
        intro disk other i hne
        apply TopicFiles.setDirectory_of_ne
        rintro ⟨rfl, rfl⟩
        exact hne ⟨rfl, List.mem_cons_self⟩
      have hrest : ∀ (disk : Disk) other i, ¬ (other = topic ∧ i ∈ id :: rest) →
          (openPartitions options topic fault rest (files.setDirectory topic id disk)).2.partitions other i =
            files.partitions other i := by
        intro disk other i hne
        rw [(ih _).2.2 other i fun h => hne ⟨h.1, List.mem_cons_of_mem _ h.2⟩]
        exact hset disk other i hne
      rw [openPartitions]
      split
      · exact ⟨rfl, rfl, hset _⟩
      · rename_i log disk hopen
        have hfiles := ih (files.setDirectory topic id disk)
        have hframe := hrest disk
        split
        · rename_i heq
          rw [heq] at hfiles hframe
          exact ⟨hfiles.1, hfiles.2.1, hframe⟩
        · rename_i heq
          rw [heq] at hfiles hframe
          exact ⟨hfiles.1, hfiles.2.1, hframe⟩

/-- What opening one partition keeps of its directory, opening all of them keeps. -/
theorem openPartitions_keep {kept : Disk → Prop} {ids : List Nat} {files : TopicFiles}
    (hstep : ∀ id disk, kept disk → kept (openPartition options topic fault id disk).2)
    (h : ∀ id, kept (files.partitions topic id)) (id : Nat) :
    kept ((openPartitions options topic fault ids files).2.partitions topic id) := by
  induction ids generalizing files with
  | nil => exact h id
  | cons first rest ih =>
      have hset : ∀ i, kept ((files.setDirectory topic first
          (openPartition options topic fault first (files.partitions topic first)).2).partitions topic i) := by
        intro i
        by_cases hi : i = first
        · subst hi
          rw [TopicFiles.setDirectory_self]
          exact hstep _ _ (h i)
        · rw [TopicFiles.setDirectory_of_ne _ _ fun heq => hi heq.2]
          exact h i
      rw [openPartitions]
      split
      · rename_i heq
        rw [heq] at hset
        exact hset id
      · rename_i heq
        rw [heq] at hset
        have hrest := ih hset
        split <;> rename_i hopen <;> rw [hopen] at hrest <;> exact hrest

theorem openPartitions_ok {ids : List Nat} {files files' : TopicFiles} {logs : List CommitLog} (hnodup : ids.Nodup)
    (h : openPartitions options topic fault ids files = (.ok logs, files')) :
    List.Forall₂ (fun id log => openPartition options topic fault id (files.partitions topic id) =
      (.ok log, files'.partitions topic id)) ids logs := by
  induction ids generalizing files logs with
  | nil =>
      cases h
      exact .nil
  | cons id rest ih =>
      obtain ⟨hid, hrest⟩ := List.nodup_cons.mp hnodup
      rw [openPartitions] at h
      split at h
      · cases h
      · rename_i log disk hopen
        split at h
        · cases h
        · rename_i others files'' heq
          cases h
          have hframe := (@openPartitions_frame options topic fault rest (files.setDirectory topic id disk)).2.2
            topic id fun hmem => hid hmem.2
          rw [heq, TopicFiles.setDirectory_self] at hframe
          refine .cons (by rw [hopen, hframe]) ?_
          refine (List.forall₂_iff_zip.mp (ih hrest heq)).elim fun hlength hzip => ?_
          refine List.forall₂_iff_zip.mpr ⟨hlength, fun hmem => ?_⟩
          have hopened := hzip hmem
          rwa [TopicFiles.setDirectory_of_ne] at hopened
          rintro ⟨-, rfl⟩
          exact hid (List.of_mem_zip hmem).1

/-- If each partition can be opened, all of them can. -/
theorem exists_openPartitions {ids : List Nat} {files : TopicFiles} (hnodup : ids.Nodup)
    (h : ∀ id ∈ ids, ∃ log disk, openPartition options topic fault id (files.partitions topic id) = (.ok log, disk)) :
    ∃ logs files', openPartitions options topic fault ids files = (.ok logs, files') := by
  induction ids generalizing files with
  | nil => exact ⟨[], files, rfl⟩
  | cons id rest ih =>
      obtain ⟨hid, hrest⟩ := List.nodup_cons.mp hnodup
      obtain ⟨log, disk, hopen⟩ := h id List.mem_cons_self
      obtain ⟨logs, files', hlogs⟩ := @ih (files.setDirectory topic id disk) hrest (by
        intro other hother
        rw [TopicFiles.setDirectory_of_ne]
        · exact h other (List.mem_cons_of_mem _ hother)
        · rintro ⟨-, rfl⟩
          exact hid hother)
      exact ⟨log :: logs, files', by rw [openPartitions, hopen]; dsimp only; rw [hlogs]⟩

end OpenPartitions

/-! ### Logs of partitions -/

section Log

variable (options : TopicManagerOptions) (topic : Bytes) (id : Nat)

theorem TopicManagerOptions.log_dataDir : (options.log topic id).dataDir ≠ "" := by
  intro h
  have hlength := congrArg String.length h
  simp only [TopicManagerOptions.log, partitionPath, String.length_append] at hlength
  have hslash : "/".length = 1 := rfl
  have hempty : "".length = 0 := rfl
  omega

theorem TopicManagerOptions.log_normalized (h : 0 < options.indexIntervalBytes) :
    (options.log topic id).normalized = options.log topic id :=
  if_neg h.ne'

end Log

theorem openPartition_ok {options : TopicManagerOptions} {topic : Bytes} {fault : Option (Nat × Bool × Status)}
    {id : Nat} {disk disk' : Disk} {log : CommitLog}
    (h : openPartition options topic fault id disk = (.ok log, disk')) :
    openLog (options.log topic id) disk = (.ok log, disk') ∧ (id : Int) ≤ maxInt32 := by
  unfold openPartition at h
  split_ifs at h with hlarge
  · cases h
  · refine ⟨?_, not_lt.mp hlarge⟩
    split at h
    · exact h
    · split at h
      · cases h
      · exact h

/-- Whatever fails, an unwritten directory stays unwritten. -/
theorem openPartition_unwritten {options : TopicManagerOptions} {topic : Bytes}
    {fault : Option (Nat × Bool × Status)} {id : Nat} {disk : Disk} (h : disk.Unwritten) :
    (openPartition options topic fault id disk).2.Unwritten := by
  have htouch : (disk.touch 0).Unwritten := by
    rcases h with hnil | hfile
    · have hlogs : disk.logs = .empty := SortedMap.entries_injective hnil
      right
      rw [Disk.touch, hlogs]
      dsimp only [SortedMap.find?_empty]
      rw [Disk.writeLog, hlogs]
      rfl
    · have hfind : disk.logs.find? 0 = some [] := by
        rw [SortedMap.find?, hfile]
        rfl
      rw [Disk.touch, hfind]
      exact Or.inr hfile
  have hopened : (openLog (options.log topic id) disk).2.Unwritten := by
    by_cases hsize : (options.log topic id).segmentBytes < recordBatchHeaderBytes
    · rw [openLog, if_neg (options.log_dataDir topic id), if_pos hsize]
      exact h
    · obtain ⟨log, disk', hopen, -, hunwritten⟩ :=
        openLog_unwritten h (options.log_dataDir topic id) (not_lt.mp hsize)
      rw [hopen]
      exact hunwritten
  unfold openPartition
  split_ifs
  · exact h
  · split
    · exact hopened
    · split_ifs <;> assumption

/-! ### The invariant -/

/-- What each partition of each topic holds. -/
abbrev Holdings := Bytes → Nat → List RecordBatch

namespace Holdings

def set (held : Holdings) (topic : Bytes) (id : Nat) (batches : List RecordBatch) : Holdings :=
  fun t i => if t = topic ∧ i = id then batches else held t i

@[simp] theorem set_self (held : Holdings) (topic : Bytes) (id : Nat) (batches : List RecordBatch) :
    held.set topic id batches topic id = batches :=
  if_pos ⟨rfl, rfl⟩

theorem set_of_ne (held : Holdings) {topic other : Bytes} {id i : Nat} (batches : List RecordBatch)
    (h : ¬ (other = topic ∧ i = id)) : held.set topic id batches other i = held other i :=
  if_neg h

end Holdings

/-- The largest number of partitions a process can open. -/
def maxPartitions : Nat := 2 ^ 31

/-- Every log of the manager carries what it is said to hold. There is nothing outside of them, and the list
of topics is up to date. -/
structure TopicManager.Holds (manager : TopicManager) (intact : Prop) (held : Holdings) : Prop where
  interval : manager.options.indexIntervalBytes = 4 * 1024
  topic : ∀ {topic count}, manager.count? topic = some count →
    validateTopicName topic = .ok () ∧ 0 < count ∧ count ≤ maxPartitions
  sized : ∀ {topic count}, manager.count? topic = some count → recordBatchHeaderBytes ≤ manager.options.segmentBytes
  carries : ∀ {topic id store}, manager.store? topic id = some store →
    Carries (manager.options.log topic id) intact store (held topic id)
  outside : ∀ {topic id}, manager.store? topic id = none → held topic id = []
  unused : ∀ {topic}, manager.count? topic = none → ∀ id, (manager.files.partitions topic id).Unwritten
  listed : manager.files.metadata.getD [] = manager.listing

namespace TopicManager

variable {manager : TopicManager} {intact : Prop} {held : Holdings} {topic : Bytes} {id : Nat}

theorem Holds.mono (h : manager.Holds intact held) {intact' : Prop} (himp : intact' → intact) :
    manager.Holds intact' held :=
  { h with carries := fun hstore => (h.carries hstore).mono himp }

theorem count?_none : manager.count? topic = none ↔ manager.topics.find? topic = none := Option.map_eq_none_iff

theorem store?_none (h : manager.count? topic = none) : manager.store? topic id = none := by
  rw [store?, count?_none.mp h]
  rfl

theorem listing_setStore {store : Store} : (manager.setStore topic id store).listing = manager.listing := by
  unfold setStore
  split
  · rfl
  · rename_i found hfind
    unfold listing
    dsimp only
    refine SortedMap.map_entries_insert_present hfind ?_
    rw [List.length_set]

/-- A log is replaced. -/
theorem Holds.setStore (h : manager.Holds intact held) {intact' : Prop} (himp : intact' → intact) {old store : Store}
    (hold : manager.store? topic id = some old) {batches : List RecordBatch}
    (hstore : Carries (manager.options.log topic id) intact' store batches) :
    (manager.setStore topic id store).Holds intact' (held.set topic id batches) where
  interval := by rw [options_setStore]; exact h.interval
  topic := fun hcount => h.topic (count?_setStore ▸ hcount)
  sized := by
    intro topic count hcount
    rw [options_setStore]
    exact h.sized (count?_setStore ▸ hcount)
  carries := by
    intro other i found hfound
    rw [options_setStore]
    by_cases hplace : other = topic ∧ i = id
    · obtain ⟨rfl, rfl⟩ := hplace
      rw [store?_setStore_self hold] at hfound
      cases hfound
      rw [Holdings.set_self]
      exact hstore
    · rw [store?_setStore_of_ne hplace] at hfound
      rw [Holdings.set_of_ne _ _ hplace]
      exact (h.carries hfound).mono himp
  outside := by
    intro other i hnone
    by_cases hplace : other = topic ∧ i = id
    · obtain ⟨rfl, rfl⟩ := hplace
      rw [store?_setStore_self hold] at hnone
      cases hnone
    · rw [store?_setStore_of_ne hplace] at hnone
      rw [Holdings.set_of_ne _ _ hplace]
      exact h.outside hnone
  unused := by
    intro other hnone i
    rw [count?_setStore] at hnone
    have hne : ¬ (other = topic ∧ i = id) := by
      rintro ⟨rfl, rfl⟩
      rw [store?_none hnone] at hold
      cases hold
    unfold TopicManager.setStore
    split
    · exact h.unused hnone i
    · dsimp only
      rw [TopicFiles.setDirectory_of_ne _ _ hne]
      exact h.unused hnone i
  listed := by
    rw [listing_setStore, ← h.listed]
    unfold TopicManager.setStore
    split <;> rfl

/-! ### New topics -/

section OpenTopic

variable {count : UInt32} {fault : Option (Nat × Bool × Status)}

theorem openTopic_files :
    (manager.openTopic topic count fault).2 =
      (openPartitions manager.options topic fault (List.range count.toNat) manager.files).2 := by
  unfold openTopic
  split <;> rename_i heq <;> rw [heq]

theorem openTopic_ok {opened : Topic} {files : TopicFiles}
    (h : manager.openTopic topic count fault = (.ok opened, files)) :
    opened.partitions.length = count.toNat ∧ ∀ id log, opened.partitions[id]? = some log →
      openPartition manager.options topic fault id (manager.files.partitions topic id) =
        (.ok log, files.partitions topic id) := by
  unfold openTopic at h
  split at h
  · cases h
  · rename_i logs files' heq
    cases h
    have hopened := openPartitions_ok List.nodup_range heq
    have hlength := hopened.length_eq
    rw [List.length_range] at hlength
    refine ⟨hlength.symm, fun id log hlog => ?_⟩
    obtain ⟨hid, rfl⟩ := List.getElem?_eq_some_iff.mp hlog
    have hrange : id < (List.range count.toNat).length := by
      rw [List.length_range, hlength]
      exact hid
    have hget := (List.forall₂_iff_get.mp hopened).2 id hrange hid
    rw [List.get_eq_getElem, List.get_eq_getElem, List.getElem_range] at hget
    exact hget

/-- A topic is opened only if its partitions have numbers of 32 bits. -/
theorem openTopic_count {opened : Topic} {files : TopicFiles}
    (h : manager.openTopic topic count fault = (.ok opened, files)) : count.toNat ≤ maxPartitions := by
  obtain ⟨hlength, hopened⟩ := openTopic_ok h
  by_contra hlarge
  have hid : maxPartitions < opened.partitions.length := by omega
  obtain ⟨-, hle⟩ := openPartition_ok (hopened maxPartitions _ (List.getElem?_eq_getElem hid))
  exact absurd hle (by decide)

/-- A topic is opened only if its segments have room for a batch. -/
theorem openTopic_size {opened : Topic} {files : TopicFiles}
    (h : manager.openTopic topic count fault = (.ok opened, files)) (hzero : count ≠ 0) :
    recordBatchHeaderBytes ≤ manager.options.segmentBytes := by
  obtain ⟨hlength, hopened⟩ := openTopic_ok h
  have hpos : 0 < opened.partitions.length := by
    rw [hlength]
    exact Nat.pos_of_ne_zero fun h0 => hzero (UInt32.toNat_inj.mp h0)
  obtain ⟨hlog, -⟩ := openPartition_ok (hopened 0 _ (List.getElem?_eq_getElem hpos))
  exact (openLog_ok_options hlog).2

/-- Partitions that open are opened together. -/
theorem exists_openTopic (h : ∀ id < count.toNat, ∃ log disk,
    openPartition manager.options topic fault id (manager.files.partitions topic id) = (.ok log, disk)) :
    ∃ opened files, manager.openTopic topic count fault = (.ok opened, files) := by
  obtain ⟨logs, files, hopen⟩ := @exists_openPartitions manager.options topic fault (List.range count.toNat)
    manager.files List.nodup_range fun id hid => h id (List.mem_range.mp hid)
  exact ⟨⟨logs, 0⟩, files, by rw [openTopic, hopen]⟩

end OpenTopic

/-- Nothing but the files below a topic that is not in use has changed. -/
theorem store?_of_unused {files : TopicFiles} (hnone : manager.count? topic = none)
    (hfiles : ∀ other i, other ≠ topic → files.partitions other i = manager.files.partitions other i) (other : Bytes)
    (i : Nat) : ({ manager with files := files } : TopicManager).store? other i = manager.store? other i := by
  unfold store?
  dsimp only
  by_cases hother : other = topic
  · subst hother
    rw [count?_none.mp hnone]
    rfl
  · rw [hfiles other i hother]

/-- The counts of all topics, by name. -/
def counts (manager : TopicManager) : SortedMap Bytes Nat :=
  manager.topics.filterMap fun _ found => some found.partitions.length

theorem find?_counts (manager : TopicManager) (topic : Bytes) : manager.counts.find? topic = manager.count? topic := by
  rw [counts, SortedMap.find?_filterMap, count?]
  cases manager.topics.find? topic <;> rfl

theorem listing_eq_counts (manager : TopicManager) :
    manager.listing = manager.counts.entries.map fun entry => ⟨entry.1, UInt32.ofNat entry.2⟩ := by
  rw [listing, counts, SortedMap.filterMap]
  dsimp only
  induction manager.topics.entries with
  | nil => rfl
  | cons entry rest ih => rw [List.map_cons, ih]; rfl

/-- The list of topics shows no more than their numbers of partitions. -/
theorem listing_congr {left right : TopicManager} (h : ∀ topic, left.count? topic = right.count? topic) :
    left.listing = right.listing := by
  have hcounts : left.counts = right.counts := SortedMap.ext_find? fun topic => by
    rw [find?_counts, find?_counts, h]
  rw [listing_eq_counts, listing_eq_counts, hcounts]

section CreateTopic

variable (count : UInt32) (faults : CreateFaults)

/-- The ways `CreateTopic` can end: nothing happens to the topics, or the topic is new. -/
theorem createTopic_cases :
    (∃ result files, manager.createTopic topic count faults = (result, { manager with files := files }) ∧
      (files = manager.files ∨ manager.count? topic = none ∧
        files = (manager.openTopic topic count faults.openPartition).2) ∧
      (result = .ok () → manager.count? topic = some count.toNat ∧ files = manager.files)) ∨
    ∃ opened files, validateTopicName topic = .ok () ∧ count ≠ 0 ∧ manager.count? topic = none ∧
      manager.openTopic topic count faults.openPartition = (.ok opened, files) ∧
      manager.createTopic topic count faults = (.ok (),
        { manager with
          topics := manager.topics.insert topic opened
          files := { files with
            metadata := some ({ manager with topics := manager.topics.insert topic opened } : TopicManager).listing } }) := by
  unfold createTopic
  cases hvalid : validateTopicName topic with
  | error status => exact Or.inl ⟨_, manager.files, rfl, Or.inl rfl, fun h => nomatch h⟩
  | ok _ =>
      dsimp only
      split_ifs with hzero
      · exact Or.inl ⟨_, manager.files, rfl, Or.inl rfl, fun h => nomatch h⟩
      cases hfind : manager.topics.find? topic with
      | some existing =>
          dsimp only
          split_ifs with hcount
          · exact Or.inl ⟨_, manager.files, rfl, Or.inl rfl, fun _ =>
              ⟨count?_eq_some.mpr ⟨existing, hfind, hcount⟩, rfl⟩⟩
          · exact Or.inl ⟨_, manager.files, rfl, Or.inl rfl, fun h => nomatch h⟩
      | none =>
          have hnone := count?_none.mpr hfind
          dsimp only
          cases hopen : manager.openTopic topic count faults.openPartition with
          | mk result files =>
              cases result with
              | error status => exact Or.inl ⟨_, files, rfl, Or.inr ⟨hnone, rfl⟩, fun h => nomatch h⟩
              | ok opened =>
                  dsimp only
                  cases faults.persist with
                  | some status => exact Or.inl ⟨_, files, rfl, Or.inr ⟨hnone, rfl⟩, fun h => nomatch h⟩
                  | none => exact Or.inr ⟨opened, files, rfl, hzero, hnone, rfl, rfl⟩

end CreateTopic

theorem openTopic_of_ne {count : UInt32} {fault : Option (Nat × Bool × Status)} {other : Bytes} (h : other ≠ topic)
    (i : Nat) : (manager.openTopic topic count fault).2.partitions other i = manager.files.partitions other i := by
  rw [openTopic_files]
  exact (openPartitions_frame _ _).2.2 other i fun hmem => h hmem.1

/-- Directories that were not in use stay unwritten, whatever fails. -/
theorem Holds.openTopic_unused (h : manager.Holds intact held) {count : UInt32}
    {fault : Option (Nat × Bool × Status)} (hnone : manager.count? topic = none) {other : Bytes}
    (hother : manager.count? other = none) (i : Nat) :
    ((manager.openTopic topic count fault).2.partitions other i).Unwritten := by
  by_cases heq : other = topic
  · subst heq
    rw [openTopic_files]
    exact openPartitions_keep (fun _ _ => openPartition_unwritten) (fun id => h.unused hnone id) i
  · rw [openTopic_of_ne heq]
    exact h.unused hother i

/-- The manager with one more topic. -/
theorem count?_insert {opened : Topic} {files : TopicFiles} (other : Bytes) :
    ({ manager with topics := manager.topics.insert topic opened, files := files } : TopicManager).count? other =
      if other = topic then some opened.partitions.length else manager.count? other := by
  unfold count?
  dsimp only
  split_ifs with hother
  · rw [hother, SortedMap.find?_insert_self, Option.map_some]
  · rw [SortedMap.find?_insert_of_ne hother]

theorem store?_insert_of_ne {opened : Topic} {files : TopicFiles} {other : Bytes} (h : other ≠ topic) {i : Nat}
    (hfiles : files.partitions other i = manager.files.partitions other i) :
    ({ manager with topics := manager.topics.insert topic opened, files := files } : TopicManager).store? other i =
      manager.store? other i := by
  unfold store?
  dsimp only
  rw [SortedMap.find?_insert_of_ne h, hfiles]

theorem store?_insert_self {opened : Topic} {files : TopicFiles} {i : Nat} {store : Store} :
    ({ manager with topics := manager.topics.insert topic opened, files := files } : TopicManager).store? topic i =
      some store ↔ opened.partitions[i]? = some store.log ∧ files.partitions topic i = store.disk := by
  rw [store?_eq_some]
  dsimp only
  rw [SortedMap.find?_insert_self]
  simp only [Option.some.injEq, exists_eq_left']

/-- **New topics.** `CreateTopic` adds logs that hold nothing, or none. -/
theorem Holds.createTopic (h : manager.Holds intact held) (topic : Bytes) (count : UInt32) (faults : CreateFaults) :
    (manager.createTopic topic count faults).2.Holds intact held := by
  rcases @createTopic_cases manager topic count faults with
    ⟨result, files, heq, hfiles, -⟩ | ⟨opened, files, hvalid, hzero, hnone, hopen, heq⟩
  · rw [heq]
    rcases hfiles with rfl | ⟨hnone, rfl⟩
    · exact h
    · refine { h with carries := ?_, outside := ?_, unused := ?_, listed := ?_ }
      · intro other i store hstore
        rw [store?_of_unused hnone fun other i hne => openTopic_of_ne hne i] at hstore
        exact h.carries hstore
      · intro other i hstore
        rw [store?_of_unused hnone fun other i hne => openTopic_of_ne hne i] at hstore
        exact h.outside hstore
      · intro other hother i
        exact h.openTopic_unused hnone hother i
      · dsimp only
        rw [openTopic_files, (openPartitions_frame _ _).1]
        exact h.listed
  · obtain ⟨hlength, hlogs⟩ := openTopic_ok hopen
    have hfiles : files = (manager.openTopic topic count faults.openPartition).2 := by rw [hopen]
    rw [heq]
    have hsize := openTopic_size hopen hzero
    refine ⟨h.interval, ?_, fun _ => hsize, ?_, ?_, ?_, rfl⟩
    · intro other found hfound
      rw [count?_insert] at hfound
      split_ifs at hfound with hother
      · cases hfound
        rw [hother, hlength]
        refine ⟨hvalid, Nat.pos_of_ne_zero fun h0 => hzero (UInt32.toNat_inj.mp h0), openTopic_count hopen⟩
      · exact h.topic hfound
    · intro other i store hstore
      by_cases hother : other = topic
      · subst hother
        obtain ⟨hlog, hdisk⟩ := store?_insert_self.mp hstore
        have hopened := hlogs i _ hlog
        have hheld : held other i = [] := h.outside (store?_none hnone)
        have hopenLog : openLog (manager.options.log other i) (manager.files.partitions other i) =
            (.ok store.log, files.partitions other i) := (openPartition_ok hopened).1
        obtain ⟨hdir, hsize⟩ := openLog_ok_options hopenLog
        obtain ⟨log, disk', hok, hcarries, -⟩ := openLog_unwritten (h.unused hnone i) hdir hsize
        rw [hopenLog] at hok
        cases hok
        rw [TopicManagerOptions.log_normalized _ _ _ (by rw [h.interval]; decide)] at hcarries
        rw [hheld]
        have hstoreEq : store = ⟨store.log, files.partitions other i⟩ := by
          rw [show files.partitions other i = store.disk from hdisk]
        rw [hstoreEq]
        exact hcarries.mono fun _ => trivial
      · rw [store?_insert_of_ne hother (by dsimp only; rw [hfiles]; exact openTopic_of_ne hother i)] at hstore
        exact h.carries hstore
    · intro other i hstore
      by_cases hother : other = topic
      · subst hother
        exact h.outside (store?_none hnone)
      · rw [store?_insert_of_ne hother (by dsimp only; rw [hfiles]; exact openTopic_of_ne hother i)] at hstore
        exact h.outside hstore
    · intro other hother i
      rw [count?_insert] at hother
      split_ifs at hother with hne
      dsimp only
      rw [hfiles]
      exact h.openTopic_unused hnone hother i

/-- A topic that exists is not touched by `CreateTopic`. -/
theorem createTopic_frame (topic : Bytes) (count : UInt32) (faults : CreateFaults) :
    (manager.createTopic topic count faults).2.options = manager.options ∧
      (manager.createTopic topic count faults).2.files.flushed = manager.files.flushed ∧
      (∀ other n, manager.count? other = some n →
        (manager.createTopic topic count faults).2.count? other = some n) ∧
      (∀ other, (manager.createTopic topic count faults).2.count? other = manager.count? other ∨
        other = topic ∧ (manager.createTopic topic count faults).2.count? other = some count.toNat) ∧
      (∀ other i store, manager.store? other i = some store →
        (manager.createTopic topic count faults).2.store? other i = some store) ∧
      ((manager.createTopic topic count faults).1 = .ok () →
        (manager.createTopic topic count faults).2.count? topic = some count.toNat) := by
  rcases @createTopic_cases manager topic count faults with
    ⟨result, files, heq, hfiles, hok⟩ | ⟨opened, files, -, -, hnone, hopen, heq⟩
  · rw [heq]
    refine ⟨rfl, ?_, fun _ _ h => h, fun _ => Or.inl rfl, ?_, fun hresult => (hok hresult).1⟩
    · rcases hfiles with rfl | ⟨-, rfl⟩
      · rfl
      · dsimp only
        rw [openTopic_files]
        exact (openPartitions_frame _ _).2.1
    · intro other i store hstore
      rcases hfiles with rfl | ⟨hnone, rfl⟩
      · exact hstore
      · rw [store?_of_unused hnone fun other i hne => openTopic_of_ne hne i]
        exact hstore
  · have hfiles : files = (manager.openTopic topic count faults.openPartition).2 := by rw [hopen]
    have hne : ∀ {other n}, manager.count? other = some n → other ≠ topic := by
      rintro other n hcount rfl
      rw [hnone] at hcount
      cases hcount
    rw [heq]
    refine ⟨rfl, ?_, ?_, ?_, ?_, fun _ => ?_⟩
    · dsimp only
      rw [hfiles, openTopic_files]
      exact (openPartitions_frame _ _).2.1
    · intro other n hcount
      rw [count?_insert, if_neg (hne hcount)]
      exact hcount
    · intro other
      rw [count?_insert]
      split_ifs with hother
      · exact Or.inr ⟨hother, by rw [(openTopic_ok hopen).1]⟩
      · exact Or.inl rfl
    · intro other i store hstore
      obtain ⟨n, hcount, -⟩ := lt_count hstore
      rw [store?_insert_of_ne (hne hcount) (by dsimp only; rw [hfiles]; exact openTopic_of_ne (hne hcount) i)]
      exact hstore
    · rw [count?_insert, if_pos rfl, (openTopic_ok hopen).1]

end TopicManager

end LogMq
