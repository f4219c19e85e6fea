import LogMq.BrokerHoldings

/-! Operations that only look at the logs, and the way from a closed manager to a new one: `Load` on intact
files opens exactly the topics of the list, with what they held. -/

namespace LogMq

namespace TopicManager

variable {manager : TopicManager} {intact : Prop} {held : Holdings} {topic : Bytes} {id : Nat}

/-- The invariant looks only at the options, the logs and their directories, and the list of topics. -/
theorem Holds.congr (h : manager.Holds intact held) {other : TopicManager} (hoptions : other.options = manager.options)
    (hcount : ∀ topic, other.count? topic = manager.count? topic)
    (hstore : ∀ topic id, other.store? topic id = manager.store? topic id)
    (hpartitions : other.files.partitions = manager.files.partitions)
    (hmetadata : other.files.metadata = manager.files.metadata) : other.Holds intact held where
  interval := by rw [hoptions]; exact h.interval
  topic := fun hfound => h.topic (hcount _ ▸ hfound)
  sized := by
    intro topic count hfound
    rw [hoptions]
    exact h.sized (hcount topic ▸ hfound)
  carries := by
    intro topic id store hfound
    rw [hoptions]
    exact h.carries (hstore _ _ ▸ hfound)
  outside := fun hnone => h.outside (hstore _ _ ▸ hnone)
  unused := by
    intro topic hnone id
    rw [hpartitions]
    exact h.unused (hcount topic ▸ hnone) id
  listed := by
    rw [hmetadata, h.listed]
    exact (listing_congr hcount).symm

/-! ### Selecting -/

/-- The same logs and files, up to the partitions that keyless requests go to next. -/
structure Same (manager other : TopicManager) : Prop where
  options : other.options = manager.options
  files : other.files = manager.files
  count? : ∀ topic, other.count? topic = manager.count? topic
  store? : ∀ topic id, other.store? topic id = manager.store? topic id

theorem Same.refl (manager : TopicManager) : Same manager manager := ⟨rfl, rfl, fun _ => rfl, fun _ _ => rfl⟩

theorem Holds.same (h : manager.Holds intact held) {other : TopicManager} (hsame : Same manager other) :
    other.Holds intact held :=
  h.congr hsame.options hsame.count? hsame.store? (by rw [hsame.files]) (by rw [hsame.files])

theorem choosePartition_partitions (found : Topic) (requested : Int) (key : Bytes) :
    (choosePartition found requested key).2.partitions = found.partitions := by
  unfold choosePartition
  split_ifs <;> rfl

theorem selectPartition_same (topic : Bytes) (requested : Int) (key : Bytes) :
    Same manager (manager.selectPartition topic requested key).2 := by
  unfold selectPartition
  split
  · exact .refl manager
  · rename_i found hfind
    split_ifs
    · exact .refl manager
    · have hpartitions := choosePartition_partitions found requested key
      refine ⟨rfl, rfl, fun other => ?_, fun other i => ?_⟩
      · unfold TopicManager.count?
        dsimp only
        by_cases hother : other = topic
        · subst hother
          rw [SortedMap.find?_insert_self, hfind, Option.map_some, Option.map_some, hpartitions]
        · rw [SortedMap.find?_insert_of_ne hother]
      · unfold TopicManager.store?
        dsimp only
        by_cases hother : other = topic
        · subst hother
          rw [SortedMap.find?_insert_self, hfind, Option.bind_some, Option.bind_some, hpartitions]
        · rw [SortedMap.find?_insert_of_ne hother]

theorem selectPartition_ok {requested selected : Int} {key : Bytes} {store : Store}
    (h : (manager.selectPartition topic requested key).1 = .ok (selected, store)) :
    0 ≤ selected ∧ manager.store? topic selected.toNat = some store := by
  unfold selectPartition at h
  split at h
  · cases h
  · rename_i found hfind
    by_cases hempty : found.partitions = []
    · rw [if_pos hempty] at h
      cases h
    · rw [if_neg hempty] at h
      dsimp only at h
      generalize (choosePartition found requested key).1 = chosen at h
      cases hpartition : manager.getPartition topic chosen with
      | error status =>
          rw [hpartition] at h
          cases h
      | ok log =>
          rw [hpartition] at h
          cases h
          exact getPartition_ok.mp hpartition

/-! ### Flushing and closing -/

theorem foldl_writeIndex_logs (indexes : List OffsetIndex) (disk : Disk) :
    (indexes.foldl (fun disk index => disk.writeIndex index.baseOffset index.fileBytes) disk).logs = disk.logs := by
  induction indexes generalizing disk with
  | nil => rfl
  | cons index rest ih => exact ih _

theorem flush_store {store flushed : Store} {failure : Option Status} {result : Result Unit}
    (h : store.flush failure = (result, flushed)) :
    flushed.log = store.log ∧ flushed.disk.logs = store.disk.logs := by
  unfold Store.flush at h
  split_ifs at h
  · cases h
    exact ⟨rfl, rfl⟩
  · split at h
    · cases h
      exact ⟨rfl, rfl⟩
    · cases h
      exact ⟨rfl, foldl_writeIndex_logs _ _⟩

theorem Holdings.set_held (held : Holdings) (topic : Bytes) (id : Nat) : held.set topic id (held topic id) = held := by
  funext other i
  unfold Holdings.set
  split_ifs with hplace
  · rw [hplace.1, hplace.2]
  · rfl

theorem Holds.flushPartition (h : manager.Holds intact held) (topic : Bytes) (id : Nat) (failure : Option Status) :
    (manager.flushPartition topic id failure).2.Holds intact held := by
  unfold TopicManager.flushPartition
  split
  · exact h
  · rename_i store hstore
    split
    · exact h
    · rename_i flushed hflush
      obtain ⟨hlog, hlogs⟩ := flush_store hflush
      have hcarries : Carries (manager.options.log topic id) intact flushed (held topic id) := by
        have hfiles := (h.carries hstore).of_logs_eq hlogs
        rw [← hlog] at hfiles
        exact hfiles
      have hset := h.setStore (fun hintact => hintact) hstore hcarries
      rw [Holdings.set_held] at hset
      exact hset.congr rfl (fun _ => rfl) (fun _ _ => rfl) rfl rfl

theorem flushPartition_frame (topic : Bytes) (id : Nat) (failure : Option Status) :
    (manager.flushPartition topic id failure).2.options = manager.options ∧
      (∀ other, (manager.flushPartition topic id failure).2.count? other = manager.count? other) ∧
      ∀ other i, ((manager.flushPartition topic id failure).2.store? other i).map Store.log =
        (manager.store? other i).map Store.log := by
  unfold TopicManager.flushPartition
  split
  · exact ⟨rfl, fun _ => rfl, fun _ _ => rfl⟩
  · rename_i store hstore
    split
    · exact ⟨rfl, fun _ => rfl, fun _ _ => rfl⟩
    · rename_i flushed hflush
      obtain ⟨hlog, -⟩ := flush_store hflush
      refine ⟨options_setStore, fun _ => count?_setStore, fun other i => ?_⟩
      change ((manager.setStore topic id flushed).store? other i).map Store.log = _
      by_cases hplace : other = topic ∧ i = id
      · obtain ⟨rfl, rfl⟩ := hplace
        rw [store?_setStore_self hstore, hstore, Option.map_some, Option.map_some, hlog]
      · rw [store?_setStore_of_ne hplace]

/-- Closing changes no segment file. -/
theorem close_logs (manager : TopicManager) (topic : Bytes) (id : Nat) :
    (manager.close.partitions topic id).logs = (manager.files.partitions topic id).logs := by
  unfold TopicManager.close
  dsimp only
  split
  · rfl
  · rename_i store hstore
    obtain ⟨found, -, -, hdisk⟩ := store?_eq_some.mp hstore
    rw [Tracks.close_logs, hdisk]

/-! ### Loading -/

/-- A data directory with the topics of a manager, and what its logs hold when they are opened. -/
structure Opens (manager : TopicManager) (options : TopicManagerOptions) (directory : TopicFiles) (held : Holdings) :
    Prop where
  metadata : directory.metadata = manager.files.metadata
  flushed : directory.flushed = manager.files.flushed
  opens : recordBatchHeaderBytes ≤ options.segmentBytes →
    ∀ {topic id store}, manager.store? topic id = some store → ∃ log disk,
      openLog (options.log topic id) (directory.partitions topic id) = (.ok log, disk) ∧
        Carries (options.log topic id) True ⟨log, disk⟩ (held topic id)
  outside : ∀ {topic id}, manager.store? topic id = none → held topic id = []
  unused : ∀ {topic}, manager.count? topic = none → ∀ id, (directory.partitions topic id).Unwritten

/-- A new manager that has loaded some topics of a directory and not yet touched the others. -/
structure Loading (manager : TopicManager) (options : TopicManagerOptions) (directory : TopicFiles) (held : Holdings)
    (done : List Bytes) (loading : TopicManager) : Prop where
  options_eq : loading.options = options
  metadata : loading.files.metadata = directory.metadata
  flushed : loading.files.flushed = directory.flushed
  loaded : ∀ topic ∈ done, loading.count? topic = manager.count? topic ∧
    ∀ id store, loading.store? topic id = some store → Carries (options.log topic id) True store (held topic id)
  waiting : ∀ topic, topic ∉ done → loading.count? topic = none ∧
    ∀ id, loading.files.partitions topic id = directory.partitions topic id

theorem toNat_ofNat_count {count : Nat} (h : count ≤ maxPartitions) : (UInt32.ofNat count).toNat = count := by
  rw [UInt32.toNat_ofNat']
  exact Nat.mod_eq_of_lt (lt_of_le_of_lt h (by decide))

section Load

variable {options : TopicManagerOptions} {directory : TopicFiles} {later : Holdings} {done : List Bytes}
  {loading : TopicManager}

/-- One more topic is loaded. -/
theorem Loading.step (hload : Loading manager options directory later done loading) (h : manager.Holds intact held)
    (hopens : Opens manager options directory later) (hsize : recordBatchHeaderBytes ≤ options.segmentBytes)
    {count : Nat} (hcount : manager.count? topic = some count) (hnew : topic ∉ done) :
    ∃ opened files, loading.openTopic topic (UInt32.ofNat count) none = (.ok opened, files) ∧
      Loading manager options directory later (topic :: done)
        { loading with topics := loading.topics.insert topic opened, files := files } := by
  obtain ⟨-, -, hmax⟩ := h.topic hcount
  obtain ⟨hnone, hdisks⟩ := hload.waiting topic hnew
  have hpartition : ∀ id < count, ∃ log disk,
      openPartition loading.options topic none id (loading.files.partitions topic id) = (.ok log, disk) ∧
        Carries (options.log topic id) True ⟨log, disk⟩ (later topic id) := by
    intro id hid
    obtain ⟨store, hstore⟩ := exists_store? hcount hid
    obtain ⟨log, disk, hopen, hcarries⟩ := hopens.opens hsize hstore
    refine ⟨log, disk, ?_, hcarries⟩
    rw [openPartition, if_neg, hload.options_eq, hdisks id]
    · exact hopen
    · have hbound : (id : Int) ≤ maxInt32 := by
        unfold maxInt32
        unfold maxPartitions at hmax
        omega
      exact not_lt.mpr hbound
  have hcast := toNat_ofNat_count hmax
  obtain ⟨opened, files, hopen⟩ := @exists_openTopic loading topic (UInt32.ofNat count) none (by
    intro id hid
    obtain ⟨log, disk, hlog, -⟩ := hpartition id (hcast ▸ hid)
    exact ⟨log, disk, hlog⟩)
  obtain ⟨hlength, hopened⟩ := openTopic_ok hopen
  have hfiles : files = (loading.openTopic topic (UInt32.ofNat count) none).2 := by rw [hopen]
  have hframe := @openPartitions_frame loading.options topic none (List.range (UInt32.ofNat count).toNat) loading.files
  rw [← openTopic_files, ← hfiles] at hframe
  refine ⟨opened, files, hopen, hload.options_eq, hframe.1.trans hload.metadata, hframe.2.1.trans hload.flushed, ?_, ?_⟩
  · intro other hother
    by_cases heq : other = topic
    · subst heq
      refine ⟨by rw [count?_insert, if_pos rfl, hlength, hcast, hcount], fun id store hstore => ?_⟩
      obtain ⟨hlog, hdisk⟩ := store?_insert_self.mp hstore
      have hid : id < count := by
        have hlt := (List.getElem?_eq_some_iff.mp hlog).1
        omega
      obtain ⟨log, disk, hpart, hcarries⟩ := hpartition id hid
      rw [hopened id _ hlog] at hpart
      cases hpart
      rw [hdisk] at hcarries
      exact hcarries
    · have hmem := (List.mem_cons.mp hother).resolve_left heq
      obtain ⟨hold, hcarries⟩ := hload.loaded other hmem
      refine ⟨by rw [count?_insert, if_neg heq, hold], fun id store hstore => hcarries id store ?_⟩
      rwa [store?_insert_of_ne heq (by rw [hfiles]; exact openTopic_of_ne heq id)] at hstore
  · intro other hother
    obtain ⟨hne, hmem⟩ := not_or.mp (mt List.mem_cons.mpr hother)
    obtain ⟨hold, hsame⟩ := hload.waiting other hmem
    refine ⟨by rw [count?_insert, if_neg hne, hold], fun id => ?_⟩
    dsimp only
    rw [hfiles, openTopic_of_ne hne]
    exact hsame id

theorem Loading.run (h : manager.Holds intact held) (hopens : Opens manager options directory later)
    (hsize : recordBatchHeaderBytes ≤ options.segmentBytes) {entries : List (Bytes × Nat)}
    (hentries : ∀ entry ∈ entries, manager.count? entry.1 = some entry.2) (hnodup : (done ++ entries.map Prod.fst).Nodup) (hload : Loading manager options directory later done loading) :
    ∃ loaded, loadTopics (entries.map fun entry => ⟨entry.1, UInt32.ofNat entry.2⟩) loading = .ok loaded ∧
      ∃ all, Loading manager options directory later all loaded ∧ ∀ topic, topic ∈ all ↔
        topic ∈ done ∨ topic ∈ entries.map Prod.fst := by
  induction entries generalizing done loading with
  | nil => exact ⟨loading, rfl, done, hload, fun topic => by simp only [List.map_nil, List.not_mem_nil, or_false]⟩
  | cons entry rest ih =>
      obtain ⟨topic, count⟩ := entry
      have hcount := hentries _ List.mem_cons_self
      obtain ⟨hvalid, hpos, hmax⟩ := h.topic hcount
      have hperm : (done ++ (topic :: rest.map Prod.fst)).Perm (topic :: done ++ rest.map Prod.fst) :=
        List.perm_middle
      have hnodup' := hperm.nodup_iff.mp hnodup
      have hnew : topic ∉ done := fun hmem => (List.nodup_cons.mp hnodup').1 (List.mem_append_left _ hmem)
      obtain ⟨opened, files, hopen, hnext⟩ := hload.step h hopens hsize hcount hnew
      obtain ⟨loaded, hrun, all, hall, hmem⟩ := ih (fun entry hentry => hentries entry (List.mem_cons_of_mem _ hentry))
        hnodup' hnext
      refine ⟨loaded, ?_, all, hall, fun other => ?_⟩
      · have hzero : UInt32.ofNat count ≠ 0 := by
          intro hzero
          have hcast := toNat_ofNat_count hmax
          rw [hzero] at hcast
          exact hpos.ne' hcast.symm
        have hfind := count?_none.mp (hload.waiting topic hnew).1
        rw [List.map_cons, loadTopics]
        dsimp only
        rw [if_neg hzero, hvalid, hfind, hopen]
        exact hrun
      · rw [hmem, List.map_cons, List.mem_cons, List.mem_cons]
        tauto

/-- **Loading.** A new manager has the topics of the directory, with what their logs hold. -/
theorem Opens.load (hopens : Opens manager options directory later) (h : manager.Holds intact held)
    (hinterval : options.indexIntervalBytes = 4 * 1024) (hsize : recordBatchHeaderBytes ≤ options.segmentBytes) :
    ∃ loaded, TopicManager.load options directory = .ok loaded ∧ loaded.Holds True later ∧ loaded.options = options ∧
      loaded.files.flushed = manager.files.flushed ∧ ∀ topic, loaded.count? topic = manager.count? topic := by
  have hstart : Loading manager options directory later [] { options := options, files := directory } := {
    options_eq := rfl
    metadata := rfl
    flushed := rfl
    loaded := fun _ hmem => absurd hmem List.not_mem_nil
    waiting := fun topic _ => ⟨rfl, fun id => rfl⟩ }
  have hcounts : ∀ entry ∈ manager.counts.entries, manager.count? entry.1 = some entry.2 := by
    intro entry hentry
    rw [← find?_counts]
    exact SortedMap.mem_entries.mp hentry
  have hnodup : (([] : List Bytes) ++ manager.counts.entries.map Prod.fst).Nodup := by
    rw [List.nil_append]
    exact (List.pairwise_map.mpr manager.counts.sorted).imp fun hlt => hlt.ne
  obtain ⟨loaded, hrun, all, hall, hmem⟩ := Loading.run h hopens hsize hcounts hnodup hstart
  have hcount : ∀ topic, loaded.count? topic = manager.count? topic := by
    intro topic
    by_cases htopic : topic ∈ all
    · exact (hall.loaded topic htopic).1
    · rw [(hall.waiting topic htopic).1]
      cases hfound : manager.count? topic with
      | none => rfl
      | some count =>
          rw [← find?_counts] at hfound
          have hkey : topic ∈ manager.counts.entries.map Prod.fst :=
            List.mem_map_of_mem (f := Prod.fst) (SortedMap.mem_entries.mpr hfound)
          exact absurd ((hmem topic).mpr (Or.inr hkey)) htopic
  refine ⟨loaded, ?_, ⟨?_, ?_, ?_, ?_, ?_, ?_, ?_⟩, hall.options_eq, hall.flushed.trans hopens.flushed, hcount⟩
  · unfold TopicManager.load
    rw [hopens.metadata, h.listed, listing_eq_counts]
    exact hrun
  · rw [hall.options_eq]
    exact hinterval
  · intro topic count hfound
    exact h.topic (hcount topic ▸ hfound)
  · intro topic count _
    rw [hall.options_eq]
    exact hsize
  · intro topic id store hstore
    have htopic : topic ∈ all := by
      by_contra hnot
      obtain ⟨count, hfound, -⟩ := lt_count hstore
      rw [(hall.waiting topic hnot).1] at hfound
      cases hfound
    rw [hall.options_eq]
    exact (hall.loaded topic htopic).2 id store hstore
  · intro topic id hnone
    apply hopens.outside
    cases hold : manager.store? topic id with
    | none => rfl
    | some store =>
        obtain ⟨count, hfound, hid⟩ := lt_count hold
        rw [← hcount] at hfound
        obtain ⟨other, hother⟩ := exists_store? hfound hid
        rw [hnone] at hother
        cases hother
  · intro topic hnone id
    have htopic : topic ∉ all := by
      intro hin
      rw [hmem] at hin
      rcases hin with hin | hin
      · exact absurd hin List.not_mem_nil
      · obtain ⟨entry, hentry, rfl⟩ := List.mem_map.mp hin
        rw [hcount, hcounts entry hentry] at hnone
        cases hnone
    rw [(hall.waiting topic htopic).2 id]
    exact hopens.unused (hcount topic ▸ hnone) id
  · rw [hall.metadata, hopens.metadata, h.listed]
    exact (listing_congr hcount).symm

/-- Loading a topic takes options that its logs accept. -/
theorem load_size {files : TopicFiles} {loaded : TopicManager} (h : load options files = .ok loaded) :
    recordBatchHeaderBytes ≤ options.segmentBytes ∨ files.metadata.getD [] = [] := by
  unfold TopicManager.load at h
  generalize files.metadata.getD [] = lines at h
  cases lines with
  | nil => exact Or.inr rfl
  | cons line rest =>
      left
      rw [loadTopics] at h
      split at h
      · cases h
      rename_i hzero
      split at h
      · cases h
      · split at h
        · cases h
        split at h
        · cases h
        · rename_i opened files' hopen
          exact openTopic_size hopen hzero

/-- Without topics any options are accepted, and nothing is held. -/
theorem Opens.load_nil (hopens : Opens manager options directory later) (h : manager.Holds intact held)
    (hinterval : options.indexIntervalBytes = 4 * 1024) (hnil : manager.files.metadata.getD [] = []) :
    TopicManager.load options directory = .ok { options := options, files := directory } ∧
      ({ options := options, files := directory } : TopicManager).Holds True later ∧
      ∀ topic, manager.count? topic = none := by
  have hcounts : manager.counts.entries = [] := by
    have hlisting := h.listed
    rw [hnil, listing_eq_counts] at hlisting
    exact List.map_eq_nil_iff.mp hlisting.symm
  have hnone : ∀ topic, manager.count? topic = none := by
    intro topic
    rw [← find?_counts, SortedMap.find?, hcounts]
    rfl
  refine ⟨?_, ⟨hinterval, fun hcount => (by cases hcount), fun hcount => (by cases hcount),
    fun hstore => (by cases hstore), ?_, ?_, ?_⟩, hnone⟩
  · unfold TopicManager.load
    rw [hopens.metadata, hnil]
    rfl
  · exact fun _ => hopens.outside (store?_none (hnone _))
  · exact fun _ id => hopens.unused (hnone _) id
  · exact (congrArg (Option.getD · []) hopens.metadata).trans hnil

/-- Whatever a new manager loads from a directory is what the logs there hold. -/
theorem Opens.reload (hopens : Opens manager options directory later) (h : manager.Holds intact held)
    (hinterval : options.indexIntervalBytes = 4 * 1024) {loaded : TopicManager}
    (hload : TopicManager.load options directory = .ok loaded) :
    loaded.Holds True later ∧ loaded.options = options ∧ loaded.files.flushed = manager.files.flushed ∧
      ∀ topic, loaded.count? topic = manager.count? topic := by
  rcases load_size hload with hsize | hnil
  · obtain ⟨found, hfound, hrest⟩ := hopens.load h hinterval hsize
    cases hload.symm.trans hfound
    exact hrest
  · rw [hopens.metadata] at hnil
    obtain ⟨hfound, hholds, hnone⟩ := hopens.load_nil h hinterval hnil
    cases hload.symm.trans hfound
    exact ⟨hholds, rfl, hopens.flushed, fun topic => (hnone topic).symm⟩

/-- Options with room for a batch, or with the segments there were, can be loaded. -/
theorem Opens.exists_load (hopens : Opens manager options directory later) (h : manager.Holds intact held)
    (hinterval : options.indexIntervalBytes = 4 * 1024)
    (hsize : recordBatchHeaderBytes ≤ options.segmentBytes ∨ options.segmentBytes = manager.options.segmentBytes) :
    ∃ loaded, TopicManager.load options directory = .ok loaded := by
  cases hlines : manager.files.metadata.getD [] with
  | nil => exact ⟨_, (hopens.load_nil h hinterval hlines).1⟩
  | cons line rest =>
      have hcount : ∃ topic count, manager.count? topic = some count := by
        have hlisting := h.listed
        rw [hlines, listing_eq_counts] at hlisting
        obtain ⟨entry, hentry, -⟩ := List.mem_map.mp (hlisting ▸ List.mem_cons_self : line ∈ _)
        exact ⟨entry.1, entry.2, by rw [← find?_counts]; exact SortedMap.mem_entries.mp hentry⟩
      obtain ⟨topic, count, hcount⟩ := hcount
      have hroom : recordBatchHeaderBytes ≤ options.segmentBytes :=
        hsize.elim id fun hsame => hsame ▸ h.sized hcount
      obtain ⟨loaded, hload, -⟩ := hopens.load h hinterval hroom
      exact ⟨loaded, hload⟩

/-- **Restart.** The intact files of a closed manager hold what it held. -/
theorem Holds.opens_close (h : manager.Holds intact held) (hintact : intact)
    (hinterval : options.indexIntervalBytes = 4 * 1024) : Opens manager options manager.close held where
  metadata := rfl
  flushed := rfl
  opens := by
    intro hsize topic id store hstore
    obtain ⟨found, -, -, hdisk⟩ := store?_eq_some.mp hstore
    obtain ⟨log, disk, hopen, hcarries⟩ := (h.carries hstore).reopen hintact (options.log_dataDir topic id) hsize
      (show (manager.close.partitions topic id).logs = store.disk.logs by rw [manager.close_logs, hdisk])
    rw [options.log_normalized topic id (by rw [hinterval]; decide)] at hcarries
    exact ⟨log, disk, hopen, hcarries⟩
  outside := h.outside
  unused := by
    intro topic hnone id
    unfold Disk.Unwritten
    rw [manager.close_logs]
    exact h.unused hnone id

end Load

end TopicManager

end LogMq
