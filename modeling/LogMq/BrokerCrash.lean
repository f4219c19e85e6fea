import LogMq.BrokerCommits

/-! Crashes. The active segment of a partition may lose bytes that were not flushed; the files of the offsets
survive. `Start` never compares the two, so a committed offset stays behind the end of its log only if the
crash has kept the batches below it. -/

namespace LogMq

namespace TopicManager

/-- The files after a crash, for the number of bytes that each active segment keeps. -/
def crash (manager : TopicManager) (kept : Bytes → Nat → Nat) : TopicFiles :=
  { manager.files with
    partitions := fun topic id =>
      match manager.store? topic id with
      | none => manager.files.partitions topic id
      | some store => store.cut (kept topic id) }

/-- A crash loses nothing that was flushed. -/
def CanLose (manager : TopicManager) (kept : Bytes → Nat → Nat) : Prop :=
  ∀ topic id store active bytes, manager.store? topic id = some store →
    store.log.segments.getLast? = some active → manager.files.flushed topic id = some (active.baseOffset, bytes) →
    bytes ≤ kept topic id

end TopicManager

namespace BrokerService

/-- What a crash leaves behind. -/
def crash (broker : BrokerService) (kept : Bytes → Nat → Nat) : DataDirectory :=
  ⟨broker.topics.crash kept, broker.offsets.files⟩

/-- The crash keeps the batches that start below a committed offset. -/
def KeepsCommitted (broker : BrokerService) (kept : Bytes → Nat → Nat) : Prop :=
  ∀ key offset store, broker.offsets.offsets key = some offset →
    broker.topics.store? key.topic key.partitionId.toNat = some store →
    store.KeepsBelow (kept key.topic key.partitionId.toNat) offset

end BrokerService

/-- One step of a run in which brokers also crash, and are started on what is left: of each active segment as much as
was flushed or more, and everything else. As with restarts, this is only where no append and no topic creation has
failed. -/
inductive CrashStep (queue : TaskQueue) (allowed : BrokerService → (Bytes → Nat → Nat) → Prop) : System → System → Prop
  | step {system later : System} (hstep : BrokerStep queue {} system later) : CrashStep queue allowed system later
  | crash {system : System} (hintact : system.intact = true) {kept : Bytes → Nat → Nat}
      (hlose : system.broker.topics.CanLose kept) (hallowed : allowed system.broker kept)
      {options : BrokerServiceOptions} {now : UInt64} {broker : BrokerService}
      (hstart : BrokerService.start queue options (system.broker.crash kept) now = .ok broker) :
      CrashStep queue allowed system ⟨broker, true⟩

/-- The states a broker reaches that was first started on an empty data directory. -/
def CrashReaches (queue : TaskQueue) (allowed : BrokerService → (Bytes → Nat → Nat) → Prop) (system : System) : Prop :=
  ∃ options now broker, BrokerService.start queue options {} now = .ok broker ∧
    Relation.ReflTransGen (CrashStep queue allowed) ⟨broker, true⟩ system

/-! ### What is left -/

/-- What was written to the active segment is kept. -/
theorem Store.keepsBelow_of_le {store : Store} {kept : Nat}
    (h : ∀ active, store.log.segments.getLast? = some active → active.writePosition ≤ kept) (offset : Int) :
    store.KeepsBelow kept offset := by
  intro active batches hactive _ htotal before batch after hsplit _
  have hle := h active hactive
  rw [← htotal, hsplit, totalBytes_append, totalBytes] at hle
  omega

/-- After a crash the logs open with first parts of what they held. They go as far as any offset below which the
crash kept the batches. -/
theorem TopicManager.Holds.opens_crash {manager : TopicManager} {intact : Prop} {held : Holdings}
    (h : manager.Holds intact held) (hintact : intact) {options : TopicManagerOptions}
    (hinterval : options.indexIntervalBytes = 4 * 1024) (kept : Bytes → Nat → Nat) :
    ∃ later, Opens manager options (manager.crash kept) later ∧ (∀ topic id, later topic id <+: held topic id) ∧
      (recordBatchHeaderBytes ≤ options.segmentBytes → ∀ {topic id store}, manager.store? topic id = some store →
        ∀ offset ≤ store.log.nextOffset, store.KeepsBelow (kept topic id) offset →
          ∀ stop, Chain 0 (later topic id) stop → offset ≤ stop) := by
  have hcut : ∀ topic id, ∃ left, left <+: held topic id ∧
      (recordBatchHeaderBytes ≤ options.segmentBytes → ∀ store, manager.store? topic id = some store →
        ∃ log disk, openLog (options.log topic id) (store.cut (kept topic id)) = (.ok log, disk) ∧
          Carries (options.log topic id) True ⟨log, disk⟩ left ∧
          ∀ offset ≤ store.log.nextOffset, store.KeepsBelow (kept topic id) offset → offset ≤ log.nextOffset) := by
    intro topic id
    cases hstore : manager.store? topic id with
    | none => exact ⟨held topic id, List.prefix_refl _, fun _ _ habsurd => nomatch habsurd⟩
    | some store =>
        by_cases hsize : recordBatchHeaderBytes ≤ options.segmentBytes
        · obtain ⟨log, disk, left, hopen, hcarries, hleft, hends⟩ := (h.carries hstore).cut hintact
            (options.log_dataDir topic id) hsize (kept topic id)
          rw [options.log_normalized topic id (by rw [hinterval]; decide)] at hcarries
          refine ⟨left, hleft, fun _ found hfound => ?_⟩
          cases hfound
          exact ⟨log, disk, hopen, hcarries, hends⟩
        · exact ⟨held topic id, List.prefix_refl _, fun habsurd => absurd habsurd hsize⟩
  choose later hleft hopens using hcut
  have hdirectory : ∀ {topic id store}, manager.store? topic id = some store →
      (manager.crash kept).partitions topic id = store.cut (kept topic id) := by
    intro topic id store hstore
    unfold crash
    dsimp only
    rw [hstore]
  refine ⟨later, ⟨rfl, rfl, ?_, ?_, ?_⟩, hleft, ?_⟩
  · intro hsize topic id store hstore
    obtain ⟨log, disk, hopen, hcarries, -⟩ := hopens topic id hsize store hstore
    exact ⟨log, disk, by rw [hdirectory hstore]; exact hopen, hcarries⟩
  · intro topic id hnone
    have hprefix := hleft topic id
    rw [h.outside hnone] at hprefix
    exact List.prefix_nil.mp hprefix
  · intro topic hnone id
    have hfiles : (manager.crash kept).partitions topic id = manager.files.partitions topic id := by
      unfold crash
      dsimp only
      rw [store?_none hnone]
    rw [hfiles]
    exact h.unused hnone id
  · intro hsize topic id store hstore offset hoffset hbelow stop hchain
    obtain ⟨log, disk, -, hcarries, hends⟩ := hopens topic id hsize store hstore
    rw [hchain.stop_unique hcarries.chain]
    exact hends offset hoffset hbelow

namespace CommitInvariant

open TopicManager

variable {queue : TaskQueue} {system : System} {held later : Holdings} {options : BrokerServiceOptions} {now : UInt64}
  {broker : BrokerService}

theorem initial (hstart : BrokerService.start queue options {} now = .ok broker) :
    CommitInvariant ⟨broker, true⟩ fun _ _ => [] where
  holds := (@Invariant.initial queue {} (fun _ _ => True) options now broker trivial hstart).holds
  files := by
    obtain ⟨-, topics, tasks, -, -, rfl⟩ := BrokerService.start_ok.mp hstart
    rfl
  committed := by
    obtain ⟨-, topics, tasks, -, -, rfl⟩ := BrokerService.start_ok.mp hstart
    exact fun key offset hkey => nomatch hkey

/-- A new broker on a directory whose logs go as far as the committed offsets. -/
theorem started (h : CommitInvariant system held) {directory : DataDirectory}
    (hopens : Opens system.broker.topics options.storage.topicManager directory.topics later)
    (hoffsets : directory.offsets = system.broker.offsets.files)
    (hends : recordBatchHeaderBytes ≤ options.storage.segmentBytes → ∀ {key offset store},
      system.broker.offsets.offsets key = some offset →
      system.broker.topics.store? key.topic key.partitionId.toNat = some store → offset ≤ store.log.nextOffset →
      ∀ stop, Chain 0 (later key.topic key.partitionId.toNat) stop → offset ≤ stop)
    (hstart : BrokerService.start queue options directory now = .ok broker) : CommitInvariant ⟨broker, true⟩ later := by
  obtain ⟨-, topics, tasks, hload, -, rfl⟩ := BrokerService.start_ok.mp hstart
  obtain ⟨hholds, hstorage, -, hcount⟩ := hopens.reload h.holds rfl hload
  refine ⟨hholds.mono fun _ => trivial, rfl, fun key offset hkey => ?_⟩
  change directory.offsets key = some offset at hkey
  rw [hoffsets, h.files] at hkey
  obtain ⟨hpartition, store, hstore, hle⟩ := h.committed key offset hkey
  obtain ⟨count, hfound, hid⟩ := lt_count hstore
  rw [← hcount] at hfound
  obtain ⟨store', hstore'⟩ := exists_store? hfound hid
  have hsize := hholds.sized hfound
  rw [hstorage] at hsize
  exact ⟨hpartition, store', hstore', hends hsize hkey hstore hle _ (hholds.carries hstore').chain⟩

theorem restart (h : CommitInvariant system held) (hintact : system.intact = true)
    (hstart : BrokerService.start queue options system.broker.close now = .ok broker) :
    CommitInvariant ⟨broker, true⟩ held := by
  refine h.started (h.holds.opens_close hintact rfl) rfl ?_ hstart
  intro _ key offset store _ hstore hle stop hchain
  rwa [hchain.stop_unique (h.holds.carries hstore).chain]

/-- **A crash** that keeps the batches below the committed offsets keeps them within the logs. -/
theorem crash (h : CommitInvariant system held) (hintact : system.intact = true) {kept : Bytes → Nat → Nat}
    (hkept : system.broker.KeepsCommitted kept)
    (hstart : BrokerService.start queue options (system.broker.crash kept) now = .ok broker) :
    ∃ later, CommitInvariant ⟨broker, true⟩ later := by
  obtain ⟨later, hopens, -, hends⟩ := @Holds.opens_crash _ _ _ h.holds hintact options.storage.topicManager rfl kept
  refine ⟨later, h.started hopens rfl ?_ hstart⟩
  intro hsize key offset store hkey hstore hle
  exact hends hsize hstore offset hle (hkept key offset store hkey hstore)

theorem ofStep (h : CommitInvariant system held) {after : System}
    (hstep : CrashStep queue BrokerService.KeepsCommitted system after) : ∃ later, CommitInvariant after later := by
  cases hstep with
  | crash hintact hlose hallowed hstart => exact h.crash hintact hallowed hstart
  | step hstep =>
      cases hstep with
      | request htyped hallowed => exact h.handle _ _
      | wake now => exact ⟨held, h.grow (.refl h.holds) rfl⟩
      | flush flushed => exact ⟨held, h.grow (.flush h.holds flushed) rfl⟩
      | expire now => exact ⟨held, h.grow (.refl h.holds) rfl⟩
      | restart hintact hoptions hstart => exact ⟨held, h.restart hintact hstart⟩

end CommitInvariant

/-- **Committed offsets.** In a run whose crashes keep the batches below them they never pass the ends of the logs. -/
theorem committed_within_log {queue : TaskQueue} {system : System}
    (h : CrashReaches queue BrokerService.KeepsCommitted system) : system.broker.Committed := by
  obtain ⟨options, now, broker, hstart, hreach⟩ := h
  have hinvariant : ∃ held, CommitInvariant system held := by
    induction hreach with
    | refl => exact ⟨_, .initial hstart⟩
    | tail _ hstep ih =>
        obtain ⟨held, hinvariant⟩ := ih
        exact hinvariant.ofStep hstep
  obtain ⟨held, hinvariant⟩ := hinvariant
  exact hinvariant.committed

/-! ### The crash that loses the most -/

theorem BrokerReaches.crashReaches {queue : TaskQueue} {allowed : BrokerService → (Bytes → Nat → Nat) → Prop}
    {system : System} (h : BrokerReaches queue {} system) : CrashReaches queue allowed system := by
  obtain ⟨options, now, broker, -, hstart, hreach⟩ := h
  refine ⟨options, now, broker, hstart, ?_⟩
  exact Relation.ReflTransGen.mono (fun _ _ hstep => CrashStep.step hstep) _ _ hreach

/-- The bytes that were flushed. -/
def BrokerService.flushedBytes (broker : BrokerService) (topic : Bytes) (id : Nat) : Nat :=
  (broker.topics.files.flushed topic id).elim 0 Prod.snd

theorem BrokerService.canLose_flushedBytes (broker : BrokerService) : broker.topics.CanLose broker.flushedBytes := by
  intro topic id store active bytes _ _ hflushed
  rw [flushedBytes, hflushed]
  exact le_refl bytes

/-- A record is produced and its offset committed. -/
def commitOnce : List (Environment × RequestEnvelope) :=
  [({}, ⟨.createTopic, 1, 0, .createTopic ⟨text "a", 1⟩⟩),
    ({}, ⟨.produce, 1, 1, .produce ⟨text "a", 0, [{ value := text "v" }]⟩⟩),
    ({}, ⟨.commitOffset, 1, 2, .commitOffset ⟨text "g", text "a", 0, 1⟩⟩)]

/-- The broker that served these requests. -/
def committedOnce (policy : FlushPolicy) : System :=
  System.serve .inOrder ⟨.fresh { storage := { flushPolicy := policy } } 1, true⟩ commitOnce

theorem reaches_committedOnce (policy : FlushPolicy) : BrokerReaches .inOrder {} (committedOnce policy) :=
  .serve trivial (show RetryOptions.Accepted {} by decide) (fun _ _ => trivial) (by decide)

theorem keepsCommitted_committedOnce :
    (committedOnce .sync).broker.KeepsCommitted (committedOnce .sync).broker.flushedBytes := by
  intro key offset store _ hstore
  have hcounts : (committedOnce .sync).broker.topics.counts.entries = [(text "a", 1)] := by decide +kernel
  have hwritten : ((committedOnce .sync).broker.topics.store? (text "a") 0).bind
      (fun store => store.log.segments.getLast?.map Segment.writePosition) =
        some ((committedOnce .sync).broker.flushedBytes (text "a") 0) := by decide +kernel
  obtain ⟨count, hcount, hid⟩ := TopicManager.lt_count hstore
  rw [← TopicManager.find?_counts, ← SortedMap.mem_entries, hcounts, List.mem_singleton] at hcount
  obtain ⟨htopic, hone⟩ := Prod.mk.inj hcount
  have hzero : key.partitionId.toNat = 0 := by omega
  rw [htopic, hzero] at hstore ⊢
  rw [hstore, Option.bind_some] at hwritten
  refine Store.keepsBelow_of_le (fun active hactive => ?_) offset
  rw [hactive, Option.map_some] at hwritten
  exact (Option.some.inj hwritten).le

/-- With synchronous flushes the record outlives the crash. -/
theorem committed_within_log_sync :
    ∃ broker, BrokerService.start .inOrder {} ((committedOnce .sync).broker.crash
        (committedOnce .sync).broker.flushedBytes) 1 = .ok broker ∧
      broker.offsets.offsets ⟨text "g", text "a", 0⟩ = some 1 ∧
      ∃ store, broker.topics.store? (text "a") 0 = some store ∧ 1 ≤ store.log.nextOffset := by
  have hstarted : (BrokerService.start .inOrder {} ((committedOnce .sync).broker.crash
      (committedOnce .sync).broker.flushedBytes) 1).toOption.map
        (fun broker => broker.offsets.offsets ⟨text "g", text "a", 0⟩) = some (some 1) := by decide +kernel
  obtain ⟨broker, hbroker, hcommitted⟩ := Option.map_eq_some_iff.mp hstarted
  have hstart := Result.toOption_eq_some.mp hbroker
  have hwithin := @committed_within_log .inOrder ⟨broker, true⟩ (by
    obtain ⟨options, now, first, hfirst, hreach⟩ := (reaches_committedOnce .sync).crashReaches
    refine ⟨options, now, first, hfirst, hreach.tail ?_⟩
    exact .crash (by decide +kernel) (BrokerService.canLose_flushedBytes _) keepsCommitted_committedOnce hstart)
  obtain ⟨-, hstore⟩ := hwithin ⟨text "g", text "a", 0⟩ 1 hcommitted
  exact ⟨broker, hstart, hcommitted, hstore⟩

/-- With asynchronous ones the log starts anew below the committed offset. -/
theorem committed_beyond_log :
    ∃ broker, CrashReaches .inOrder (fun _ _ => True) ⟨broker, true⟩ ∧ ¬ broker.Committed := by
  have hstarted : (BrokerService.start .inOrder {} ((committedOnce .async).broker.crash
      (committedOnce .async).broker.flushedBytes) 1).toOption.map
        (fun broker => (broker.offsets.offsets ⟨text "g", text "a", 0⟩,
          (broker.topics.store? (text "a") 0).map (·.log.nextOffset))) = some (some 1, some 0) := by decide +kernel
  obtain ⟨broker, hbroker, hstate⟩ := Option.map_eq_some_iff.mp hstarted
  obtain ⟨hcommitted, hnext⟩ := Prod.mk.inj hstate
  refine ⟨broker, ?_, fun hwithin => ?_⟩
  · obtain ⟨options, now, first, hfirst, hreach⟩ := (reaches_committedOnce .async).crashReaches
    refine ⟨options, now, first, hfirst, hreach.tail ?_⟩
    exact .crash (by decide +kernel) (BrokerService.canLose_flushedBytes _) trivial
      (Result.toOption_eq_some.mp hbroker)
  · obtain ⟨-, store, hstore, hle⟩ := hwithin _ _ hcommitted
    change broker.topics.store? (text "a") 0 = some store at hstore
    rw [hstore, Option.map_some] at hnext
    rw [Option.some.inj hnext] at hle
    exact absurd hle (by decide)

end LogMq
