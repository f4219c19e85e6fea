import LogMq.BrokerCommits
import LogMq.BrokerRetryRuns

/-! Committed offsets and high watermarks. `HandleFetch` shows a retry partition up to the visible end of the
scheduler, while `HandleCommitOffset` compares with the end of the log, so a group may commit retry records that
still wait for their time. -/

namespace LogMq

namespace BrokerService

variable {broker : BrokerService}

/-- What an accepted commit has checked. -/
theorem handleCommitOffset_ok {environment : Environment} {request : CommitOffsetRequest}
    {response : CommitOffsetResponse} (h : (broker.handleCommitOffset environment request).1 = .ok response) :
    response = request ∧ broker.checkCommit request = .ok () := by
  unfold handleCommitOffset at h
  cases hcheck : broker.checkCommit request with
  | error reply =>
      rw [hcheck] at h
      cases h
  | ok _ =>
      rw [hcheck] at h
      obtain ⟨_, -, hreply⟩ := Result.bind_eq_ok.mp h
      exact ⟨Result.pure_eq_ok.mp hreply.symm ▸ rfl, rfl⟩

end BrokerService

/-- No record below the offset waits for its time. -/
def RetryScheduler.NoneWaits (scheduler : RetryScheduler) (topic : Bytes) (partition offset : Int) : Prop :=
  ∀ task ∈ scheduler.tasks, task.topic = topic → task.partition = partition → offset ≤ task.offset

namespace Invariant

variable {rules : Rules} {mark : Bytes → RetryMetadata → Prop} {system : System} {held : Holdings} {topic : Bytes}
  {partition : Int} {store : Store}

/-- A retry partition is visible up to an offset of its log exactly when no record below it waits. -/
theorem le_visibleEnd_iff (h : Invariant rules mark system held) (hretry : isRetryTopic topic = true)
    (hpartition : 0 ≤ partition) (hstore : system.broker.topics.store? topic partition.toNat = some store)
    {offset : Int} (hend : offset ≤ store.log.nextOffset) :
    offset ≤ system.broker.retries.visibleEnd topic partition ↔
      system.broker.retries.NoneWaits topic partition offset := by
  have hscheduled := h.scheduled
  constructor
  · rintro hvisible task htask rfl rfl
    by_contra hbelow
    exact hscheduled.exclusive.waiting task htask (Or.inl ((not_le.mp hbelow).trans_le hvisible))
  · intro hnone
    by_contra hbeyond
    have hnext := (not_le.mp hbeyond).trans_le hend
    obtain ⟨time, hdue⟩ := h.scannable.exists_dueAt hretry hstore hscheduled.visibleEnd_nonneg hnext
    rcases hscheduled.covered topic partition _ time hretry hpartition hdue with hreleased | ⟨task, htask, hplace⟩
    · exact (hscheduled.settled topic partition).not_released_end hreleased
    · obtain ⟨htopic, hpart, hoffset⟩ := RetryTask.place_eq.mp hplace
      have hle := hnone task htask htopic hpart
      rw [hoffset] at hle
      exact hbeyond hle

/-- The high watermark is no further than the end of the log. -/
theorem highWatermark_le (h : Invariant rules mark system held)
    (hstore : system.broker.topics.store? topic partition.toNat = some store) :
    system.broker.highWatermark topic partition store ≤ store.log.nextOffset := by
  unfold BrokerService.highWatermark
  split_ifs
  · exact h.scheduled.visibleEnd_le (h.chain hstore)
  · exact le_refl _

end Invariant

/-- **Commits and watermarks.** An accepted commit is within the high watermark that a Fetch of the partition reports
exactly when the topic is no retry topic or no record below the committed offset waits for its time. -/
theorem commit_within_watermark_iff {queue : TaskQueue} {system : System} (h : BrokerReaches queue {} system)
    {environment : Environment} {request : CommitOffsetRequest} {response : CommitOffsetResponse}
    (hcommit : (system.broker.handleCommitOffset environment request).1 = .ok response) :
    (∀ version (fetch : FetchRequest) fetched, fetch.topic = request.topic → fetch.partitionId = request.partitionId →
        system.broker.handleFetch version fetch = .ok fetched → request.offset ≤ fetched.highWatermark) ↔
      (isRetryTopic request.topic = true →
        system.broker.retries.NoneWaits request.topic request.partitionId request.offset) := by
  obtain ⟨held, hinvariant⟩ := h.invariant (Rules.marks_true _)
  obtain ⟨-, hcheck⟩ := BrokerService.handleCommitOffset_ok hcommit
  obtain ⟨hoffset, hpartition, store, hstore, hend⟩ := BrokerService.checkCommit_ok hcheck
  have hwatermark : (∀ version (fetch : FetchRequest) fetched, fetch.topic = request.topic →
      fetch.partitionId = request.partitionId → system.broker.handleFetch version fetch = .ok fetched →
        request.offset ≤ fetched.highWatermark) ↔
      request.offset ≤ system.broker.highWatermark request.topic request.partitionId store := by
    constructor
    · intro hall
      have hle := hinvariant.highWatermark_le hstore
      exact hall protocolVersion ⟨request.topic, request.partitionId, store.log.nextOffset, 1⟩ _ rfl rfl
        (BrokerService.handleFetch_ok.mpr ⟨hoffset.trans hend, show (1 : UInt32) ≠ 0 by decide, store, hpartition, hstore, le_refl _,
          Or.inl ⟨hle, rfl⟩⟩)
    · rintro hle version fetch fetched htopic hfetched hfetch
      obtain ⟨-, -, found, -, hfound, -, houtcome⟩ := BrokerService.handleFetch_ok.mp hfetch
      rw [htopic, hfetched] at hfound houtcome
      cases hstore.symm.trans hfound
      rcases houtcome with ⟨-, rfl⟩ | ⟨-, batch, records, -, -, rfl⟩
      · exact hle
      · exact hle
  rw [hwatermark]
  unfold BrokerService.highWatermark
  by_cases hretry : isRetryTopic request.topic = true
  · rw [if_pos hretry, hinvariant.le_visibleEnd_iff hretry hpartition hstore hend]
    exact ⟨fun hnone _ => hnone, fun hnone => hnone hretry⟩
  · rw [if_neg hretry]
    exact ⟨fun _ hyes => absurd hyes hretry, fun _ => hend⟩

/-- The commit of the rejected record, which waits for its time. -/
def commitRejected : CommitOffsetRequest := ⟨text "g", retryTopicPrefix ++ text "a", 0, 1⟩

theorem commit_within_watermark_iff_rejectedOnce :
    (∀ version (fetch : FetchRequest) fetched, fetch.topic = commitRejected.topic →
        fetch.partitionId = commitRejected.partitionId →
        rejectedOnce.broker.handleFetch version fetch = .ok fetched → commitRejected.offset ≤ fetched.highWatermark) ↔
      (isRetryTopic commitRejected.topic = true → rejectedOnce.broker.retries.NoneWaits commitRejected.topic
        commitRejected.partitionId commitRejected.offset) := by
  have hreaches : BrokerReaches .inOrder {} rejectedOnce :=
    .serve trivial (by decide) (fun _ _ => trivial) (by decide)
  exact @commit_within_watermark_iff .inOrder rejectedOnce hreaches {} commitRejected commitRejected
    (by decide +kernel)

/-- The broker accepts the commit, and a Fetch reports that nothing is visible. -/
theorem commit_beyond_watermark :
    BrokerReaches .inOrder {} rejectedOnce ∧
      (rejectedOnce.broker.handleCommitOffset {} commitRejected).1 = .ok commitRejected ∧
      ∃ fetched, rejectedOnce.broker.handleFetch 2 ⟨commitRejected.topic, commitRejected.partitionId, 0, 1024⟩ =
        .ok fetched ∧ fetched.highWatermark < commitRejected.offset :=
  ⟨.serve trivial (by decide) (fun _ _ => trivial) (by decide), by decide +kernel, ⟨0, 0, []⟩, by decide +kernel,
    by decide⟩

end LogMq
