import LogMq.BrokerSteps

/-! The invariant of a broker: every internal partition holds single records whose envelopes lead back to the
records they were made from, and the scheduler knows each of them exactly once. -/

namespace LogMq

/-! ### Stored envelopes -/

/-- A stored record of an internal partition: the envelope of a record, with metadata that name the place the
record was first stored at. What else is known of the metadata is left open. -/
structure Envelope (mark : Bytes → RetryMetadata → Prop) (held : Holdings) (topic : Bytes) (id : Nat)
    (stored : Record) (record : ProtocolRecord) (retry : RetryMetadata) : Prop where
  envelope : StoredRetry record retry stored
  typed : retry.Typed
  topic_eq : retry.originalTopic = originalName topic
  partition_eq : retry.originalPartition = id
  origin : ∃ source, storedAt (held (originalName topic) id) retry.originalOffset = some source ∧
    source.content = (record.timestamp, record.key, record.value)
  dead : isDlqTopic topic = true → retry.nextVisibleTime = 0
  marked : mark topic retry

/-- Partitions only grow. -/
def Holdings.Extends (held later : Holdings) : Prop := ∀ topic id, held topic id <+: later topic id

namespace Holdings.Extends

theorem refl (held : Holdings) : held.Extends held := fun _ _ => List.prefix_rfl

theorem trans {held later last : Holdings} (h : held.Extends later) (h' : later.Extends last) : held.Extends last :=
  fun topic id => (h topic id).trans (h' topic id)

theorem set (held : Holdings) (topic : Bytes) (id : Nat) (more : List RecordBatch) :
    held.Extends (held.set topic id (held topic id ++ more)) := by
  intro other i
  by_cases hplace : other = topic ∧ i = id
  · obtain ⟨rfl, rfl⟩ := hplace
    rw [Holdings.set_self]
    exact List.prefix_append _ _
  · rw [Holdings.set_of_ne _ _ hplace]

theorem storedAt {held later : Holdings} (h : held.Extends later) {topic : Bytes} {id : Nat} {offset : Int}
    {record : Record} (hstored : LogMq.storedAt (held topic id) offset = some record) :
    LogMq.storedAt (later topic id) offset = some record := by
  obtain ⟨more, hmore⟩ := h topic id
  rw [← hmore]
  exact storedAt_append hstored more

end Holdings.Extends

namespace Envelope

variable {mark : Bytes → RetryMetadata → Prop} {held : Holdings} {topic : Bytes} {id : Nat} {stored : Record}
  {record : ProtocolRecord} {retry : RetryMetadata}

theorem extend (h : Envelope mark held topic id stored record retry) {later : Holdings}
    (hlater : held.Extends later) : Envelope mark later topic id stored record retry := by
  obtain ⟨source, hsource, hcontent⟩ := h.origin
  exact { h with origin := ⟨source, hlater.storedAt hsource, hcontent⟩ }

theorem decode (h : Envelope mark held topic id stored record retry) : decodeRetryRecord stored = .ok record :=
  h.envelope.decode h.typed

end Envelope

/-- The batches of an internal partition. -/
def Rejected (mark : Bytes → RetryMetadata → Prop) (held : Holdings) (topic : Bytes) (id : Nat)
    (batch : RecordBatch) : Prop :=
  ∃ stored record retry, batch.records = [stored] ∧ Envelope mark held topic id stored record retry

section Rejected

variable {mark : Bytes → RetryMetadata → Prop} {held : Holdings} {topic : Bytes} {id : Nat}

theorem Rejected.extend {batch : RecordBatch} (h : Rejected mark held topic id batch) {later : Holdings}
    (hlater : held.Extends later) : Rejected mark later topic id batch := by
  obtain ⟨stored, record, retry, hrecords, henvelope⟩ := h
  exact ⟨stored, record, retry, hrecords, henvelope.extend hlater⟩

/-- A batch of one record has one offset. -/
theorem Chain.single {start stop offset : Int} {batches : List RecordBatch} (h : Chain start batches stop)
    {batch : RecordBatch} (hmem : batch ∈ batches) {stored : Record} (hsingle : batch.records = [stored])
    (hle : batch.baseOffset ≤ offset) (hlt : offset < batch.endOffset) : batch.baseOffset = offset := by
  have hcount := (h.valid batch hmem).count_eq
  rw [hsingle, List.length_singleton] at hcount
  rw [RecordBatch.endOffset, hcount] at hlt
  omega

/-- Every offset of an internal partition is a batch of its own. -/
theorem exists_rejected {next offset : Int} (hchain : Chain 0 (held topic id) next)
    (hrejected : ∀ batch ∈ held topic id, Rejected mark held topic id batch) (hzero : 0 ≤ offset)
    (hnext : offset < next) :
    ∃ batch ∈ held topic id, batch.baseOffset = offset ∧ ∃ stored record retry, batch.records = [stored] ∧
      storedAt (held topic id) offset = some stored ∧ Envelope mark held topic id stored record retry := by
  obtain ⟨before, batch, after, hsplit, hle, hlt⟩ := hchain.exists_batch hzero hnext
  have hmem : batch ∈ held topic id := hsplit ▸ List.mem_append_right _ List.mem_cons_self
  obtain ⟨stored, record, retry, hrecords, henvelope⟩ := hrejected batch hmem
  have hbase := hchain.single hmem hrecords hle hlt
  refine ⟨batch, hmem, hbase, stored, record, retry, hrecords, ?_, henvelope⟩
  rw [hchain.storedAt_batch hmem hle hlt, hrecords, hbase, Int.sub_self]
  rfl

end Rejected

/-! ### Deadlines -/

/-- The deadline stored at an offset of a partition. -/
def DueAt (batches : List RecordBatch) (offset : Int) (time : UInt64) : Prop :=
  ∃ stored record retry, storedAt batches offset = some stored ∧ decodeRetryRecord stored = .ok record ∧
    record.retry = some retry ∧ retry.nextVisibleTime = time

namespace DueAt

variable {batches : List RecordBatch} {offset : Int} {time : UInt64}

theorem unique (h : DueAt batches offset time) {other : UInt64} (h' : DueAt batches offset other) : time = other := by
  obtain ⟨stored, record, retry, hstored, hdecode, hretry, rfl⟩ := h
  obtain ⟨stored', record', retry', hstored', hdecode', hretry', rfl⟩ := h'
  cases hstored.symm.trans hstored'
  cases hdecode.symm.trans hdecode'
  cases hretry.symm.trans hretry'
  rfl

theorem append (h : DueAt batches offset time) (more : List RecordBatch) : DueAt (batches ++ more) offset time := by
  obtain ⟨stored, record, retry, hstored, hdecoded⟩ := h
  exact ⟨stored, record, retry, storedAt_append hstored more, hdecoded⟩

end DueAt

/-! ### The schedule -/

/-- The scheduler knows every stored offset of every retry partition once: as a task with the stored deadline,
or as released, which takes a clock reading that the deadline does not exceed. -/
structure Scheduled (scheduler : RetryScheduler) (held : Holdings) : Prop where
  settled : scheduler.Settled
  exclusive : scheduler.Exclusive
  below : ∀ topic partition offset, offset < 0 → scheduler.Released topic partition offset
  known : ∀ task ∈ scheduler.tasks, isRetryTopic task.topic = true ∧ 0 ≤ task.partition ∧
    DueAt (held task.topic task.partition.toNat) task.offset task.time
  released : ∀ topic partition offset, 0 ≤ offset → scheduler.Released topic partition offset →
    isRetryTopic topic = true ∧ 0 ≤ partition ∧ ∃ time, DueAt (held topic partition.toNat) offset time ∧
      ∃ reading ∈ scheduler.readings, time ≤ reading
  covered : ∀ topic partition offset time, isRetryTopic topic = true → 0 ≤ partition →
    DueAt (held topic partition.toNat) offset time → scheduler.Released topic partition offset ∨
      ∃ task ∈ scheduler.tasks, task.place = (topic, partition, offset)

namespace Scheduled

variable {scheduler : RetryScheduler} {held : Holdings} {queue : TaskQueue}

/-- Only the retry partitions matter. -/
theorem congr (h : Scheduled scheduler held) {later : Holdings}
    (hsame : ∀ topic id, isRetryTopic topic = true → later topic id = held topic id) : Scheduled scheduler later where
  settled := h.settled
  exclusive := h.exclusive
  below := h.below
  known := by
    intro task htask
    obtain ⟨hretry, hpartition, hdue⟩ := h.known task htask
    rw [← hsame _ _ hretry] at hdue
    exact ⟨hretry, hpartition, hdue⟩
  released := by
    intro topic partition offset hzero hreleased
    obtain ⟨hretry, hpartition, hdue⟩ := h.released topic partition offset hzero hreleased
    rw [← hsame _ _ hretry] at hdue
    exact ⟨hretry, hpartition, hdue⟩
  covered := by
    intro topic partition offset time hretry hpartition hdue
    rw [hsame _ _ hretry] at hdue
    exact h.covered topic partition offset time hretry hpartition hdue

/-- **A turn of the scheduler** moves tasks that are due to the released offsets. -/
theorem makeDueVisible (h : Scheduled scheduler held) (queue : TaskQueue) (now : UInt64) :
    Scheduled (RetryScheduler.makeDueVisible queue now scheduler) held where
  settled := RetryScheduler.makeDueVisible_settled h.settled now
  exclusive := h.exclusive.makeDueVisible queue now
  below := fun topic partition offset hneg =>
    RetryScheduler.makeDueVisible_released.mpr (Or.inl (h.below topic partition offset hneg))
  known := fun task htask => h.known task (RetryScheduler.mem_makeDueVisible.mp htask).1
  released := by
    intro topic partition offset hzero hreleased
    rcases RetryScheduler.makeDueVisible_released.mp hreleased with hold | ⟨task, htask, htime, hplace⟩
    · obtain ⟨hretry, hpartition, time, hdue, reading, hreading, hle⟩ := h.released topic partition offset hzero hold
      exact ⟨hretry, hpartition, time, hdue, reading, List.mem_cons_of_mem _ hreading, hle⟩
    · obtain ⟨rfl, rfl, rfl⟩ := RetryTask.place_eq.mp hplace
      obtain ⟨hretry, hpartition, hdue⟩ := h.known task htask
      exact ⟨hretry, hpartition, task.time, hdue, now, List.mem_cons_self, htime⟩
  covered := by
    intro topic partition offset time hretry hpartition hdue
    rcases h.covered topic partition offset time hretry hpartition hdue with hold | ⟨task, htask, hplace⟩
    · exact Or.inl (RetryScheduler.makeDueVisible_released.mpr (Or.inl hold))
    · by_cases htime : task.time ≤ now
      · exact Or.inl (RetryScheduler.makeDueVisible_released.mpr (Or.inr ⟨task, htask, htime, hplace⟩))
      · exact Or.inr ⟨task, RetryScheduler.mem_makeDueVisible.mpr ⟨htask, UInt64.not_le.mp htime⟩, hplace⟩

theorem foldl_makeDueVisible (h : Scheduled scheduler held) (queue : TaskQueue) (wakes : List UInt64) :
    Scheduled (wakes.foldl (fun retries now => retries.makeDueVisible queue now) scheduler) held := by
  induction wakes generalizing scheduler with
  | nil => exact h
  | cons now rest ih => exact ih (h.makeDueVisible queue now)

/-- **A record appended to a retry partition** and scheduled with its deadline. -/
theorem schedule (h : Scheduled scheduler held) (queue : TaskQueue) (now : UInt64) {topic : Bytes} {partition : Int}
    {batch : RecordBatch} {next : Int} {time : UInt64} (hretry : isRetryTopic topic = true)
    (hpartition : 0 ≤ partition) (hchain : Chain 0 (held topic partition.toNat) next)
    (hgrown : Chain 0 (held topic partition.toNat ++ [batch]) (next + 1))
    (hdue : DueAt (held topic partition.toNat ++ [batch]) next time) :
    Scheduled (RetryScheduler.schedule queue now scheduler ⟨topic, partition, next, time⟩)
      (held.set topic partition.toNat (held topic partition.toNat ++ [batch])) := by
  have hfresh : ∀ {time}, ¬ DueAt (held topic partition.toNat) next time := by
    rintro time ⟨stored, -, -, hstored, -⟩
    exact absurd (hchain.storedAt_bounds hstored).2 (lt_irrefl _)
  have hnext : 0 ≤ next := hchain.le
  have hgrow : ∀ {t : Bytes} {i : Nat} {offset : Int} {due : UInt64}, DueAt (held t i) offset due →
      DueAt (held.set topic partition.toNat (held topic partition.toNat ++ [batch]) t i) offset due := by
    intro t i offset due hold
    by_cases hplace : t = topic ∧ i = partition.toNat
    · obtain ⟨rfl, rfl⟩ := hplace
      rw [Holdings.set_self]
      exact hold.append [batch]
    · rw [Holdings.set_of_ne _ _ hplace]
      exact hold
  have hpush : Scheduled { scheduler with tasks := queue.push scheduler.tasks ⟨topic, partition, next, time⟩ }
      (held.set topic partition.toNat (held topic partition.toNat ++ [batch])) := by
    have hperm := queue.push_perm scheduler.tasks ⟨topic, partition, next, time⟩
    refine ⟨h.settled, h.exclusive.push queue ?_ ?_, h.below, ?_, ?_, ?_⟩
    · intro other hother hplace
      obtain ⟨-, -, hknown⟩ := h.known other hother
      obtain ⟨htopic, hother, hoffset⟩ := RetryTask.place_eq.mp hplace
      rw [htopic, hother, hoffset] at hknown
      exact hfresh hknown
    · intro hreleased
      obtain ⟨-, -, due, hknown, -⟩ := h.released _ _ _ hnext hreleased
      exact hfresh hknown
    · intro task htask
      rcases List.mem_cons.mp (hperm.mem_iff.mp htask) with rfl | htask
      · refine ⟨hretry, hpartition, ?_⟩
        rw [Holdings.set_self]
        exact hdue
      · obtain ⟨htopic, hnonneg, hknown⟩ := h.known task htask
        exact ⟨htopic, hnonneg, hgrow hknown⟩
    · intro other p offset hzero hreleased
      obtain ⟨htopic, hnonneg, due, hknown, hreading⟩ := h.released other p offset hzero hreleased
      exact ⟨htopic, hnonneg, due, hgrow hknown, hreading⟩
    · intro other p offset due htopic hnonneg hknown
      by_cases hplace : other = topic ∧ p.toNat = partition.toNat
      · obtain ⟨rfl, hp⟩ := hplace
        have hsame : p = partition := by omega
        subst hsame
        rw [Holdings.set_self] at hknown
        by_cases hoffset : offset = next
        · subst hoffset
          exact Or.inr ⟨_, hperm.mem_iff.mpr List.mem_cons_self, rfl⟩
        · obtain ⟨stored, record, retry, hstored, hrest⟩ := hknown
          obtain ⟨hlow, hhigh⟩ := hgrown.storedAt_bounds hstored
          obtain ⟨old, hold⟩ := hchain.exists_storedAt hlow (by omega)
          cases hstored.symm.trans (storedAt_append hold [batch])
          rcases h.covered other p offset due htopic hnonneg ⟨stored, record, retry, hold, hrest⟩ with
            hreleased | ⟨task, htask, htaskPlace⟩
          · exact Or.inl hreleased
          · exact Or.inr ⟨task, hperm.mem_iff.mpr (List.mem_cons_of_mem _ htask), htaskPlace⟩
      · rw [Holdings.set_of_ne _ _ hplace] at hknown
        rcases h.covered other p offset due htopic hnonneg hknown with hreleased | ⟨task, htask, htaskPlace⟩
        · exact Or.inl hreleased
        · exact Or.inr ⟨task, hperm.mem_iff.mpr (List.mem_cons_of_mem _ htask), htaskPlace⟩
  exact hpush.makeDueVisible queue now

/-! ### The visible prefix -/

variable {topic : Bytes} {partition : Int}

theorem visibleEnd_nonneg (h : Scheduled scheduler held) : 0 ≤ scheduler.visibleEnd topic partition := by
  by_contra hneg
  exact (h.settled topic partition).not_released_end (h.below topic partition _ (not_le.mp hneg))

/-- What is visible is stored. -/
theorem visibleEnd_le (h : Scheduled scheduler held) {next : Int}
    (hchain : Chain 0 (held topic partition.toNat) next) : scheduler.visibleEnd topic partition ≤ next := by
  by_contra hlt
  obtain ⟨-, -, time, ⟨stored, -, -, hstored, -⟩, -⟩ :=
    h.released topic partition next hchain.le (Or.inl (not_le.mp hlt))
  exact absurd (hchain.storedAt_bounds hstored).2 (lt_irrefl _)

/-- What is stored and not visible waits for its time, or for an offset below it. -/
theorem waits (h : Scheduled scheduler held) (hretry : isRetryTopic topic = true) (hpartition : 0 ≤ partition)
    {offset : Int} {time : UInt64} (hdue : DueAt (held topic partition.toNat) offset time)
    (hvisible : scheduler.visibleEnd topic partition ≤ offset) :
    Xor (⟨topic, partition, offset, time⟩ ∈ scheduler.tasks)
        (offset ∈ (scheduler.visibility topic partition).ready) ∧
      ∀ task ∈ scheduler.tasks, task.place = (topic, partition, offset) → task.time = time := by
  have hsame : ∀ task ∈ scheduler.tasks, task.place = (topic, partition, offset) → task.time = time := by
    intro task htask hplace
    obtain ⟨rfl, rfl, rfl⟩ := RetryTask.place_eq.mp hplace
    exact (h.known task htask).2.2.unique hdue
  refine ⟨?_, hsame⟩
  rcases h.covered topic partition offset time hretry hpartition hdue with hreleased | ⟨task, htask, hplace⟩
  · refine Or.inr ⟨?_, fun htask => h.exclusive.waiting _ htask hreleased⟩
    exact hreleased.resolve_left (not_lt.mpr hvisible)
  · have htime := hsame task htask hplace
    obtain ⟨rfl, rfl, rfl⟩ := RetryTask.place_eq.mp hplace
    subst htime
    exact Or.inl ⟨htask, fun hready => h.exclusive.waiting task htask (Or.inr hready)⟩

end Scheduled

end LogMq
