import LogMq.BrokerRequests

/-! `Start` of a broker on the directory of another one. The scan of the internal logs finds one task for every
stored offset of every retry partition, so the new schedule agrees with what is stored. -/

namespace LogMq

/-! ### Lists of tasks -/

/-- The tasks of a part of the retry partitions: each offset stored there once, with its deadline. -/
structure Lists (held : Holdings) (part : RetryTask → Prop) (tasks : List RetryTask) : Prop where
  nodup : (tasks.map RetryTask.place).Nodup
  mem_iff : ∀ task, task ∈ tasks ↔ part task ∧ isRetryTopic task.topic = true ∧ 0 ≤ task.partition ∧
    DueAt (held task.topic task.partition.toNat) task.offset task.time

namespace Lists

variable {held : Holdings} {part : RetryTask → Prop} {tasks : List RetryTask}

theorem congr (h : Lists held part tasks) {other : RetryTask → Prop}
    (hsame : ∀ task, isRetryTopic task.topic = true → 0 ≤ task.partition →
      DueAt (held task.topic task.partition.toNat) task.offset task.time → (other task ↔ part task)) :
    Lists held other tasks where
  nodup := h.nodup
  mem_iff := by
    intro task
    rw [h.mem_iff]
    constructor
    · rintro ⟨hpart, hretry, hpartition, hdue⟩
      exact ⟨(hsame task hretry hpartition hdue).mpr hpart, hretry, hpartition, hdue⟩
    · rintro ⟨hother, hretry, hpartition, hdue⟩
      exact ⟨(hsame task hretry hpartition hdue).mp hother, hretry, hpartition, hdue⟩

/-- Parts without tasks. -/
theorem nil (hpart : ∀ task, part task → isRetryTopic task.topic = false) : Lists held part [] where
  nodup := List.nodup_nil
  mem_iff := by
    intro task
    constructor
    · intro hmem
      exact absurd hmem List.not_mem_nil
    · rintro ⟨htask, hretry, -⟩
      rw [hpart task htask] at hretry
      cases hretry

/-- A loop over parts that have no offset in common lists them all. -/
theorem collect {α : Type} {turn : α → Result (List RetryTask)} (parts : α → RetryTask → Prop) {items : List α}
    (hturn : ∀ item ∈ items, ∀ tasks, turn item = .ok tasks → Lists held (parts item) tasks)
    (hapart : items.Pairwise fun left right =>
      ∀ task other, parts left task → parts right other → task.place ≠ other.place)
    (h : collect turn items = .ok tasks) : Lists held (fun task => ∃ item ∈ items, parts item task) tasks := by
  induction items generalizing tasks with
  | nil =>
      cases h
      refine ⟨List.nodup_nil, fun task => ?_⟩
      simp only [List.not_mem_nil, false_and, exists_false]
  | cons item rest ih =>
      rw [LogMq.collect] at h
      obtain ⟨first, hfirst, h⟩ := Result.bind_eq_ok.mp h
      obtain ⟨others, hothers, h⟩ := Result.bind_eq_ok.mp h
      cases Result.pure_eq_ok.mp h
      obtain ⟨hitem, hrest⟩ := List.pairwise_cons.mp hapart
      have hleft := hturn item List.mem_cons_self first hfirst
      have hright := ih (fun other hother => hturn other (List.mem_cons_of_mem _ hother)) hrest hothers
      refine ⟨?_, fun task => ?_⟩
      · rw [List.map_append]
        refine List.nodup_append.mpr ⟨hleft.nodup, hright.nodup, ?_⟩
        intro place hplace other hother
        obtain ⟨task, htask, rfl⟩ := List.mem_map.mp hplace
        obtain ⟨found, hfound, rfl⟩ := List.mem_map.mp hother
        obtain ⟨⟨owner, howner, hpart⟩, -⟩ := (hright.mem_iff found).mp hfound
        exact hitem owner howner task found ((hleft.mem_iff task).mp htask).1 hpart
      · rw [List.mem_append, hleft.mem_iff, hright.mem_iff]
        simp only [List.mem_cons, exists_eq_or_imp]
        tauto

end Lists

theorem exists_collect {α β : Type} {turn : α → Result (List β)} {items : List α}
    (h : ∀ item ∈ items, ∃ out, turn item = .ok out) : ∃ outs, collect turn items = .ok outs := by
  induction items with
  | nil => exact ⟨[], rfl⟩
  | cons item rest ih =>
      obtain ⟨first, hfirst⟩ := h item List.mem_cons_self
      obtain ⟨others, hothers⟩ := ih fun other hother => h other (List.mem_cons_of_mem _ hother)
      refine ⟨first ++ others, ?_⟩
      rw [collect, hfirst, hothers]
      rfl

theorem not_dueAt_nil {offset : Int} {time : UInt64} : ¬ DueAt [] offset time := by
  rintro ⟨stored, -, -, hstored, -⟩
  rw [storedAt, contents, List.flatMap_nil, List.getElem?_nil, ite_self] at hstored
  cases hstored

/-! ### The scan -/

/-- What the scan of `Start` relies on. -/
structure Scannable (manager : TopicManager) (mark : Bytes → RetryMetadata → Prop) (held : Holdings) : Prop where
  holds : ∃ intact, manager.Holds intact held
  original : ∀ {topic count}, isInternalTopic topic = true → manager.count? topic = some count →
    manager.count? (originalName topic) = some count
  rejected : ∀ {topic id batch}, isInternalTopic topic = true → batch ∈ held topic id →
    Rejected mark held topic id batch

namespace Scannable

open RetryScheduler

variable {manager : TopicManager} {mark : Bytes → RetryMetadata → Prop} {held : Holdings} {topic : Bytes} {id : Nat}
  {store : Store}

/-- The checks on the metadata of a stored envelope. -/
theorem recoverTask_envelope {offset : Nat} {stored : Record} {record : ProtocolRecord} {retry : RetryMetadata}
    (h : Envelope mark held topic id stored record retry) :
    recoverTask topic id offset record =
      if isRetryTopic topic = true ∧ retry.nextVisibleTime = 0 then
        .error (.corruption "retry metadata does not match internal topic")
      else .ok (if isRetryTopic topic then [⟨topic, id, offset, retry.nextVisibleTime⟩] else []) := by
  unfold recoverTask
  rw [h.envelope.retry_eq]
  dsimp only
  refine if_congr ?_ rfl rfl
  constructor
  · rintro (htopic | hpartition | hzero | ⟨hdlq, hdue⟩)
    · exact absurd h.topic_eq htopic
    · exact absurd h.partition_eq hpartition
    · exact hzero
    · exact absurd (h.dead hdlq) hdue
  · intro hzero
    exact Or.inr (Or.inr (Or.inl hzero))

/-- One turn of the innermost loop. -/
theorem recoverOffset_eq (h : Scannable manager mark held) (hinternal : isInternalTopic topic = true)
    (hstore : manager.store? topic id = some store) {offset : Nat} (hoffset : (offset : Int) < store.log.nextOffset) :
    ∃ stored record retry, storedAt (held topic id) offset = some stored ∧
      Envelope mark held topic id stored record retry ∧
      recoverOffset store topic id offset = recoverTask topic id offset record := by
  obtain ⟨intact, hholds⟩ := h.holds
  have hcarries := hholds.carries hstore
  obtain ⟨batch, hmem, hbase, stored, record, retry, hrecords, hstored, henvelope⟩ :=
    exists_rejected hcarries.chain (fun batch hbatch => h.rejected hinternal hbatch) (Int.natCast_nonneg offset) hoffset
  refine ⟨stored, record, retry, hstored, henvelope, ?_⟩
  have hvalid := hcarries.chain.valid batch hmem
  have hbytes : batch.batchBytes = recordBatchHeaderBytes + encodedRecordSize stored := by
    rw [hvalid.size_eq, hrecords, payloadOf_length_cons]
    rfl
  have hread : store.read offset maxRetryBatchBytes = .ok batch := by
    refine hcarries.read_complete hmem hbase.le ?_ ?_ ?_
    · have hcount := hvalid.count_eq
      rw [hrecords, List.length_singleton] at hcount
      rw [RecordBatch.endOffset, hcount, hbase]
      exact Int.lt_succ _
    · rw [hbytes]
      exact henvelope.envelope.encodedRecordSize_le
    · change manager.options.indexIntervalBytes ≤ maxRetryBatchBytes
      rw [hholds.interval]
      decide
  rw [recoverOffset, hread]
  simp only [bind, Except.bind]
  rw [hrecords]
  dsimp only
  rw [if_neg (not_not.mpr hbase), henvelope.decode]

theorem recoverOffset_lists (h : Scannable manager mark held) (hinternal : isInternalTopic topic = true)
    (hstore : manager.store? topic id = some store) {offset : Nat} (hoffset : (offset : Int) < store.log.nextOffset)
    {tasks : List RetryTask} (hrecover : recoverOffset store topic id offset = .ok tasks) :
    Lists held (fun task => task.place = (topic, (id : Int), (offset : Int))) tasks := by
  obtain ⟨stored, record, retry, hstored, henvelope, heq⟩ := h.recoverOffset_eq hinternal hstore hoffset
  rw [heq, recoverTask_envelope henvelope] at hrecover
  split at hrecover
  · cases hrecover
  cases hrecover
  split_ifs with hretry
  · have hdue : DueAt (held topic id) offset retry.nextVisibleTime :=
      ⟨stored, record, retry, hstored, henvelope.decode, henvelope.envelope.retry_eq, rfl⟩
    refine ⟨List.nodup_singleton _, fun task => ?_⟩
    rw [List.mem_singleton, RetryTask.place_eq]
    constructor
    · rintro rfl
      exact ⟨⟨rfl, rfl, rfl⟩, hretry, Int.natCast_nonneg id, hdue⟩
    · obtain ⟨taskTopic, partition, taskOffset, time⟩ := task
      rintro ⟨⟨rfl, rfl, rfl⟩, -, -, htask⟩
      rw [hdue.unique htask]
  · apply Lists.nil
    intro task htask
    rw [(RetryTask.place_eq.mp htask).1]
    exact Bool.eq_false_of_not_eq_true hretry

theorem toInt_ofNat {id : Nat} (h : id < maxPartitions) : (UInt32.ofNat id).toBitVec.toInt = id := by
  unfold maxPartitions at h
  have hmod : id % 2 ^ 32 = id := Nat.mod_eq_of_lt (by omega)
  simp only [UInt32.toBitVec_ofNat', BitVec.toInt_eq_toNat_cond, BitVec.toNat_ofNat]
  omega

theorem recoverPartition_eq (h : Scannable manager mark held) (hstore : manager.store? topic id = some store) :
    recoverPartition manager topic id =
      collect (recoverOffset store topic id) (List.range store.log.nextOffset.toNat) := by
  obtain ⟨intact, hholds⟩ := h.holds
  obtain ⟨count, hcount, hid⟩ := TopicManager.lt_count hstore
  have hmax := (hholds.topic hcount).2.2
  have hpartition : manager.getPartition topic (UInt32.ofNat id).toBitVec.toInt = .ok store := by
    rw [toInt_ofNat (hid.trans_le hmax)]
    exact TopicManager.getPartition_ok.mpr ⟨Int.natCast_nonneg id, hstore⟩
  rw [recoverPartition, hpartition]
  rfl

theorem recoverPartition_lists (h : Scannable manager mark held) (hinternal : isInternalTopic topic = true)
    (hstore : manager.store? topic id = some store) {tasks : List RetryTask}
    (hrecover : recoverPartition manager topic id = .ok tasks) :
    Lists held (fun task => task.topic = topic ∧ task.partition = id) tasks := by
  obtain ⟨intact, hholds⟩ := h.holds
  have hnext := (hholds.carries hstore).next_nonneg
  rw [h.recoverPartition_eq hstore] at hrecover
  refine (Lists.collect (fun (offset : Nat) task => task.place = (topic, (id : Int), (offset : Int)))
    (fun offset hoffset tasks hturn => ?_) ?_ hrecover).congr ?_
  · refine h.recoverOffset_lists hinternal hstore ?_ hturn
    have hlt := List.mem_range.mp hoffset
    omega
  · refine List.nodup_range.imp fun hne task other htask hother hplace => hne ?_
    rw [htask, hother] at hplace
    exact Int.ofNat_inj.mp (Prod.mk.inj (Prod.mk.inj hplace).2).2
  · intro task hretry hpartition hdue
    constructor
    · rintro ⟨rfl, hid⟩
      rw [hid, Int.toNat_natCast] at hdue
      obtain ⟨stored, -, -, hstored, -⟩ := hdue
      obtain ⟨hzero, hlt⟩ := (hholds.carries hstore).chain.storedAt_bounds hstored
      refine ⟨task.offset.toNat, List.mem_range.mpr (by omega), RetryTask.place_eq.mpr ⟨rfl, hid, ?_⟩⟩
      exact (Int.toNat_of_nonneg hzero).symm
    · rintro ⟨offset, -, hplace⟩
      obtain ⟨htopic, hid, -⟩ := RetryTask.place_eq.mp hplace
      exact ⟨htopic, hid⟩

/-- The loop over the partitions of an internal topic. -/
theorem recoverTopic_eq (h : Scannable manager mark held) {count : Nat} (hcount : manager.count? topic = some count)
    (hinternal : isInternalTopic topic = true) :
    recoverTopic manager ⟨topic, UInt32.ofNat count⟩ = collect (recoverPartition manager topic) (List.range count) := by
  obtain ⟨intact, hholds⟩ := h.holds
  obtain ⟨-, -, hmax⟩ := hholds.topic hcount
  have horiginal := h.original hinternal hcount
  have hname : originalName topic ≠ [] := by
    intro hempty
    have hvalid := (hholds.topic horiginal).1
    rw [hempty] at hvalid
    revert hvalid
    decide
  rw [recoverTopic, if_pos hinternal, TopicManager.getMetadata, if_pos hname, horiginal]
  dsimp only
  rw [if_neg (not_not.mpr rfl), TopicManager.toNat_ofNat_count hmax]

theorem recoverTopic_lists (h : Scannable manager mark held) {count : Nat} (hcount : manager.count? topic = some count)
    {tasks : List RetryTask} (hrecover : recoverTopic manager ⟨topic, UInt32.ofNat count⟩ = .ok tasks) :
    Lists held (fun task => task.topic = topic) tasks := by
  obtain ⟨intact, hholds⟩ := h.holds
  by_cases hinternal : isInternalTopic topic = true
  · rw [h.recoverTopic_eq hcount hinternal] at hrecover
    refine (Lists.collect (fun (id : Nat) task => task.topic = topic ∧ task.partition = id)
      (fun id hid tasks hturn => ?_) ?_ hrecover).congr ?_
    · obtain ⟨store, hstore⟩ := TopicManager.exists_store? hcount (List.mem_range.mp hid)
      exact h.recoverPartition_lists hinternal hstore hturn
    · refine List.nodup_range.imp fun hne task other htask hother hplace => hne ?_
      have hsame := (Prod.mk.inj (Prod.mk.inj hplace).2).1
      rw [htask.2, hother.2] at hsame
      exact Int.ofNat_inj.mp hsame
    · intro task hretry hpartition hdue
      constructor
      · rintro rfl
        have hstore : manager.store? task.topic task.partition.toNat ≠ none := by
          intro hnone
          rw [hholds.outside hnone] at hdue
          exact not_dueAt_nil hdue
        obtain ⟨store, hstore⟩ := Option.ne_none_iff_exists'.mp hstore
        obtain ⟨found, hfound, hid⟩ := TopicManager.lt_count hstore
        cases hcount.symm.trans hfound
        exact ⟨_, List.mem_range.mpr hid, rfl, (Int.toNat_of_nonneg hpartition).symm⟩
      · rintro ⟨id, -, htopic, -⟩
        exact htopic
  · have hretry : isRetryTopic topic = false := (isInternalTopic_eq_false.mp (Bool.eq_false_of_not_eq_true hinternal)).1
    rw [recoverTopic, if_neg hinternal] at hrecover
    cases hrecover
    apply Lists.nil
    rintro task rfl
    exact hretry

/-- **The scan.** What it finds is exactly what is stored. -/
theorem recoverTasks_lists (h : Scannable manager mark held) {tasks : List RetryTask}
    (hrecover : recoverTasks manager = .ok tasks) : Lists held (fun _ => True) tasks := by
  obtain ⟨intact, hholds⟩ := h.holds
  rw [recoverTasks, TopicManager.getMetadata, if_neg (not_not.mpr rfl)] at hrecover
  simp only [bind, Except.bind] at hrecover
  rw [TopicManager.listing_eq_counts] at hrecover
  refine (Lists.collect (fun line task => task.topic = line.topic)
    (fun line hline tasks hturn => ?_) ?_ hrecover).congr ?_
  · obtain ⟨entry, hentry, rfl⟩ := List.mem_map.mp hline
    refine h.recoverTopic_lists ?_ hturn
    rw [← TopicManager.find?_counts]
    exact SortedMap.mem_entries.mp hentry
  · rw [List.pairwise_map]
    refine manager.counts.sorted.imp fun hlt task other htask hother hplace => hlt.ne ?_
    exact htask.symm.trans ((Prod.mk.inj hplace).1.trans hother)
  · intro task hretry hpartition hdue
    refine ⟨fun _ => ?_, fun _ => trivial⟩
    cases hcount : manager.count? task.topic with
    | none =>
        rw [hholds.outside (TopicManager.store?_none hcount)] at hdue
        exact absurd hdue not_dueAt_nil
    | some count =>
        rw [← TopicManager.find?_counts] at hcount
        exact ⟨_, List.mem_map_of_mem (SortedMap.mem_entries.mpr hcount), rfl⟩

theorem exists_dueAt (h : Scannable manager mark held) (hretry : isRetryTopic topic = true)
    (hstore : manager.store? topic id = some store) {offset : Int} (hzero : 0 ≤ offset)
    (hnext : offset < store.log.nextOffset) : ∃ time, DueAt (held topic id) offset time := by
  obtain ⟨intact, hholds⟩ := h.holds
  have hinternal : isInternalTopic topic = true := by rw [isInternalTopic, hretry, Bool.true_or]
  obtain ⟨-, -, -, stored, record, retry, -, hstored, henvelope⟩ := exists_rejected (hholds.carries hstore).chain
    (fun batch hbatch => h.rejected hinternal hbatch) hzero hnext
  exact ⟨retry.nextVisibleTime, stored, record, retry, hstored, henvelope.decode, henvelope.envelope.retry_eq, rfl⟩

/-- The scan succeeds if no retry record is due at the epoch. -/
theorem exists_recoverTasks (h : Scannable manager mark held)
    (hmark : ∀ topic retry, isRetryTopic topic = true → mark topic retry → retry.nextVisibleTime ≠ 0) :
    ∃ tasks, recoverTasks manager = .ok tasks := by
  obtain ⟨intact, hholds⟩ := h.holds
  rw [recoverTasks, TopicManager.getMetadata, if_neg (not_not.mpr rfl)]
  simp only [bind, Except.bind]
  rw [TopicManager.listing_eq_counts]
  refine exists_collect fun line hline => ?_
  obtain ⟨⟨topic, count⟩, hentry, rfl⟩ := List.mem_map.mp hline
  have hcount : manager.count? topic = some count := by
    rw [← TopicManager.find?_counts]
    exact SortedMap.mem_entries.mp hentry
  by_cases hinternal : isInternalTopic topic = true
  · rw [h.recoverTopic_eq hcount hinternal]
    refine exists_collect fun id hid => ?_
    obtain ⟨store, hstore⟩ := TopicManager.exists_store? hcount (List.mem_range.mp hid)
    rw [h.recoverPartition_eq hstore]
    refine exists_collect fun offset hoffset => ?_
    have hlt := List.mem_range.mp hoffset
    obtain ⟨stored, record, retry, -, henvelope, heq⟩ :=
      h.recoverOffset_eq hinternal hstore (show (offset : Int) < store.log.nextOffset by omega)
    rw [heq, recoverTask_envelope henvelope, if_neg fun hzero => hmark topic retry hzero.1 henvelope.marked hzero.2]
    exact ⟨_, rfl⟩
  · exact ⟨[], if_neg hinternal⟩

end Scannable

/-! ### The new schedule -/

theorem foldl_push_perm (queue : TaskQueue) (tasks items : List RetryTask) :
    (tasks.foldl queue.push items).Perm (items ++ tasks) := by
  induction tasks generalizing items with
  | nil => rw [List.foldl_nil, List.append_nil]
  | cons task rest ih =>
      rw [List.foldl_cons]
      refine (ih _).trans (((queue.push_perm items task).append_right rest).trans ?_)
      exact List.perm_middle.symm

/-- The schedule of the tasks that were found. -/
theorem Lists.scheduled {held : Holdings} {tasks : List RetryTask} (h : Lists held (fun _ => True) tasks)
    (queue : TaskQueue) : Scheduled { tasks := tasks.foldl queue.push [] } held := by
  have hperm := foldl_push_perm queue tasks []
  rw [List.nil_append] at hperm
  have hnone : ∀ (topic : Bytes) (partition offset : Int), 0 ≤ offset →
      ¬ RetryScheduler.Released { tasks := tasks.foldl queue.push [] } topic partition offset := by
    rintro topic partition offset hzero (hlt | hready)
    · exact absurd hlt (not_lt.mpr hzero)
    · exact absurd hready (Finset.notMem_empty _)
  refine ⟨fun _ _ => Visibility.settled_default, ⟨?_, ?_⟩, fun _ _ _ hneg => Or.inl hneg, ?_, ?_, ?_⟩
  · exact (hperm.map RetryTask.place).nodup_iff.mpr h.nodup
  · intro task htask hreleased
    obtain ⟨-, -, -, stored, -, -, hstored, -⟩ := (h.mem_iff task).mp (hperm.mem_iff.mp htask)
    refine hnone _ _ _ ?_ hreleased
    by_contra hneg
    rw [storedAt, if_pos (not_le.mp hneg)] at hstored
    cases hstored
  · intro task htask
    exact ((h.mem_iff task).mp (hperm.mem_iff.mp htask)).2
  · intro topic partition offset hzero hreleased
    exact absurd hreleased (hnone topic partition offset hzero)
  · intro topic partition offset time hretry hpartition hdue
    exact Or.inr ⟨⟨topic, partition, offset, time⟩,
      hperm.mem_iff.mpr ((h.mem_iff _).mpr ⟨trivial, hretry, hpartition, hdue⟩), rfl⟩

/-! ### Restarts -/

/-- What `Start` has done when it succeeds. -/
theorem BrokerService.start_ok {queue : TaskQueue} {options : BrokerServiceOptions} {directory : DataDirectory}
    {now : UInt64} {broker : BrokerService} :
    BrokerService.start queue options directory now = .ok broker ↔ options.retry.Accepted ∧ ∃ topics tasks,
      TopicManager.load options.storage.topicManager directory.topics = .ok topics ∧
      RetryScheduler.recoverTasks topics = .ok tasks ∧
      broker = ⟨options, topics, RetryScheduler.makeDueVisible queue now { tasks := tasks.foldl queue.push [] },
        OffsetStore.load directory.offsets, { sessionTimeout := options.sessionTimeout }⟩ := by
  unfold BrokerService.start RetryScheduler.start
  simp only [Result.reject_eq_ok, Result.bind_eq_ok, Result.pure_eq_ok]
  unfold RetryOptions.Accepted
  rw [not_or, not_or, not_lt]
  refine and_congr Iff.rfl ?_
  constructor
  · rintro ⟨topics, hload, retries, ⟨tasks, htasks, rfl⟩, rfl⟩
    exact ⟨topics, tasks, hload, htasks, rfl⟩
  · rintro ⟨topics, tasks, hload, htasks, rfl⟩
    exact ⟨topics, hload, _, ⟨tasks, htasks, rfl⟩, rfl⟩

namespace Invariant

variable {queue : TaskQueue} {rules : Rules} {mark : Bytes → RetryMetadata → Prop} {system later : System}
  {held : Holdings} {options : BrokerServiceOptions} {now : UInt64} {broker : BrokerService}

theorem scannable (h : Invariant rules mark system held) : Scannable system.broker.topics mark held :=
  ⟨⟨_, h.holds⟩, h.original, h.rejected⟩

/-- The first start, on an empty directory. -/
theorem initial (hoptions : rules.options options) (hstart : BrokerService.start queue options {} now = .ok broker) :
    Invariant rules mark ⟨broker, true⟩ fun _ _ => [] := by
  obtain ⟨haccepted, topics, tasks, hload, htasks, rfl⟩ := BrokerService.start_ok.mp hstart
  cases hload
  cases htasks
  have hlists : Lists (fun _ _ => []) (fun _ => True) [] :=
    ⟨List.nodup_nil, fun task => ⟨fun hmem => absurd hmem List.not_mem_nil, fun h => absurd h.2.2.2 not_dueAt_nil⟩⟩
  exact {
    options := hoptions
    accepted := haccepted
    storage := rfl
    holds := ⟨rfl, fun hcount => (nomatch hcount), fun hcount => (nomatch hcount), fun hstore => (nomatch hstore),
      fun _ => rfl, fun _ _ => Or.inl rfl, rfl⟩
    original := fun _ hcount => nomatch hcount
    rejected := fun _ hmem => absurd hmem List.not_mem_nil
    scheduled := (hlists.scheduled queue).makeDueVisible queue now }

/-- **A restart** on an intact directory keeps what is held. -/
theorem restart (h : Invariant rules mark system held) (hintact : system.intact = true)
    (hoptions : rules.options options)
    (hstart : BrokerService.start queue options system.broker.close now = .ok broker) :
    Invariant rules mark ⟨broker, true⟩ held := by
  obtain ⟨haccepted, topics, tasks, hload, htasks, rfl⟩ := BrokerService.start_ok.mp hstart
  obtain ⟨hholds, hstorage, -, hcount⟩ := (h.holds.opens_close hintact rfl).reload h.holds rfl hload
  have hscannable : Scannable topics mark held := by
    refine ⟨⟨True, hholds⟩, ?_, h.rejected⟩
    intro topic count hinternal hfound
    rw [hcount] at hfound ⊢
    exact h.original hinternal hfound
  exact {
    options := hoptions
    accepted := haccepted
    storage := hstorage
    holds := hholds.mono fun _ => trivial
    original := hscannable.original
    rejected := h.rejected
    scheduled := ((hscannable.recoverTasks_lists htasks).scheduled queue).makeDueVisible queue now }

/-! ### Runs -/

/-- **One step** of a run keeps the invariant, and what is held only grows. -/
theorem ofStep (h : Invariant rules mark system held) (hmarks : rules.Marks mark)
    (hstep : BrokerStep queue rules system later) : ∃ grown, held.Extends grown ∧ Invariant rules mark later grown := by
  cases hstep with
  | request htyped hallowed => exact h.handle hmarks hallowed htyped
  | wake now => exact ⟨held, .refl held, h.wake now⟩
  | flush flushed => exact ⟨held, .refl held, h.flush flushed⟩
  | expire now => exact ⟨held, .refl held, h.keep id rfl rfl rfl⟩
  | restart hintact hoptions hstart => exact ⟨held, .refl held, h.restart hintact hoptions hstart⟩

theorem follows (h : Invariant rules mark system held) (hmarks : rules.Marks mark)
    (hfollows : BrokerFollows queue rules system later) :
    ∃ grown, held.Extends grown ∧ Invariant rules mark later grown := by
  induction hfollows with
  | refl => exact ⟨held, .refl held, h⟩
  | tail _ hstep ih =>
      obtain ⟨grown, hgrown, hinvariant⟩ := ih
      obtain ⟨last, hlast, hlater⟩ := hinvariant.ofStep hmarks hstep
      exact ⟨last, hgrown.trans hlast, hlater⟩

end Invariant

/-- **Runs.** Every reachable state meets the invariant. -/
theorem BrokerReaches.invariant {queue : TaskQueue} {rules : Rules} {mark : Bytes → RetryMetadata → Prop}
    {system : System} (h : BrokerReaches queue rules system) (hmarks : rules.Marks mark) :
    ∃ held, Invariant rules mark system held := by
  obtain ⟨options, now, broker, hoptions, hstart, hfollows⟩ := h
  obtain ⟨held, -, hinvariant⟩ := (Invariant.initial hoptions hstart).follows hmarks hfollows
  exact ⟨held, hinvariant⟩

end LogMq
