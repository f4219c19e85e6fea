import LogMq.BrokerScheduler

/-! Whole runs of the retry scheduler. Tasks come in any order and the clock may be set in either direction; what is
visible depends only on which tasks of a partition have met a reading that is not below their time. -/

namespace LogMq

/-- A step of the scheduler, with the reading of the clock that it takes. -/
inductive SchedulerEvent where
  | schedule (now : UInt64) (task : RetryTask)
  | makeDueVisible (now : UInt64)
  deriving DecidableEq

namespace SchedulerEvent

def now : SchedulerEvent → UInt64
  | schedule now _ => now
  | makeDueVisible now => now

/-- Only tasks of one partition are scheduled. -/
def only (topic : Bytes) (partition : Int) : SchedulerEvent → SchedulerEvent
  | schedule now task =>
      if topic = task.topic ∧ partition = task.partition then schedule now task else makeDueVisible now
  | makeDueVisible now => makeDueVisible now

end SchedulerEvent

/-- A task was scheduled, and these are the readings of the clock since. -/
def Arrived (events : List SchedulerEvent) (task : RetryTask) (readings : List UInt64) : Prop :=
  ∃ before now after, events = before ++ .schedule now task :: after ∧ readings = now :: after.map SchedulerEvent.now

/-- Some task for this offset has met its time. -/
def ReleasedBy (events : List SchedulerEvent) (topic : Bytes) (partition offset : Int) : Prop :=
  ∃ task readings, Arrived events task readings ∧ task.place = (topic, partition, offset) ∧
    ∃ reading ∈ readings, task.time ≤ reading

/-- The task was scheduled and has not met its time since. -/
def Waiting (events : List SchedulerEvent) (task : RetryTask) : Prop :=
  ∃ readings, Arrived events task readings ∧ ∀ reading ∈ readings, reading < task.time

namespace RetryScheduler

variable (queue : TaskQueue)

def step (scheduler : RetryScheduler) : SchedulerEvent → RetryScheduler
  | .schedule now task => schedule queue now scheduler task
  | .makeDueVisible now => makeDueVisible queue now scheduler

def run (events : List SchedulerEvent) : RetryScheduler := events.foldl (step queue) {}

end RetryScheduler

/-! ### Histories -/

theorem arrived_concat {events : List SchedulerEvent} {event : SchedulerEvent} {task : RetryTask}
    {readings : List UInt64} :
    Arrived (events ++ [event]) task readings ↔
      (∃ earlier, Arrived events task earlier ∧ readings = earlier ++ [event.now]) ∨
        ∃ now, event = .schedule now task ∧ readings = [now] := by
  constructor
  · rintro ⟨before, now, after, hsplit, rfl⟩
    rcases List.eq_nil_or_concat after with rfl | ⟨middle, last, rfl⟩
    · obtain ⟨-, hlast⟩ := List.append_inj' hsplit rfl
      exact Or.inr ⟨now, List.singleton_inj.mp hlast, rfl⟩
    · rw [List.concat_eq_append, ← List.cons_append, ← List.append_assoc] at hsplit
      obtain ⟨hfront, hlast⟩ := List.append_inj' hsplit rfl
      rw [List.singleton_inj.mp hlast, List.concat_eq_append, List.map_append, List.map_singleton]
      exact Or.inl ⟨now :: middle.map SchedulerEvent.now, ⟨before, now, middle, hfront, rfl⟩, rfl⟩
  · rintro (⟨earlier, ⟨before, now, after, rfl, rfl⟩, rfl⟩ | ⟨now, rfl, rfl⟩)
    · refine ⟨before, now, after ++ [event], by rw [List.append_assoc, List.cons_append], ?_⟩
      rw [List.map_append, List.map_singleton, List.cons_append]
    · exact ⟨events, now, [], rfl, rfl⟩

/-- The tasks an event finds in the queue. -/
def Meets (events : List SchedulerEvent) (event : SchedulerEvent) (task : RetryTask) : Prop :=
  Waiting events task ∨ event = .schedule event.now task

theorem waiting_concat {events : List SchedulerEvent} {event : SchedulerEvent} {task : RetryTask} :
    Waiting (events ++ [event]) task ↔ Meets events event task ∧ event.now < task.time := by
  constructor
  · rintro ⟨readings, harrived, hbelow⟩
    rcases arrived_concat.mp harrived with ⟨earlier, hearlier, rfl⟩ | ⟨now, rfl, rfl⟩
    · obtain ⟨hold, hnew⟩ := List.forall_mem_append.mp hbelow
      exact ⟨Or.inl ⟨earlier, hearlier, hold⟩, hnew _ (List.mem_singleton_self _)⟩
    · exact ⟨Or.inr rfl, hbelow _ (List.mem_singleton_self _)⟩
  · rintro ⟨⟨earlier, hearlier, hold⟩ | hevent, hlate⟩
    · refine ⟨earlier ++ [event.now], arrived_concat.mpr (Or.inl ⟨earlier, hearlier, rfl⟩), ?_⟩
      exact List.forall_mem_append.mpr ⟨hold, List.forall_mem_singleton.mpr hlate⟩
    · exact ⟨[event.now], arrived_concat.mpr (Or.inr ⟨event.now, hevent, rfl⟩), List.forall_mem_singleton.mpr hlate⟩

theorem releasedBy_concat {events : List SchedulerEvent} {event : SchedulerEvent} {topic : Bytes}
    {partition offset : Int} :
    ReleasedBy (events ++ [event]) topic partition offset ↔ ReleasedBy events topic partition offset ∨
      ∃ task, Meets events event task ∧ task.time ≤ event.now ∧ task.place = (topic, partition, offset) := by
  constructor
  · rintro ⟨task, readings, harrived, hplace, reading, hmem, hdue⟩
    rcases arrived_concat.mp harrived with ⟨earlier, hearlier, rfl⟩ | ⟨now, rfl, rfl⟩
    · by_cases hreleased : ∃ reading ∈ earlier, task.time ≤ reading
      · exact Or.inl ⟨task, earlier, hearlier, hplace, hreleased⟩
      · have hwaiting : ∀ reading ∈ earlier, reading < task.time := by
          intro other hother
          exact UInt64.not_le.mp fun hle => hreleased ⟨other, hother, hle⟩
        rcases List.mem_append.mp hmem with hold | hnew
        · exact absurd ⟨reading, hold, hdue⟩ hreleased
        · rw [List.mem_singleton.mp hnew] at hdue
          exact Or.inr ⟨task, Or.inl ⟨earlier, hearlier, hwaiting⟩, hdue, hplace⟩
    · rw [List.mem_singleton.mp hmem] at hdue
      exact Or.inr ⟨task, Or.inr rfl, hdue, hplace⟩
  · rintro (⟨task, earlier, hearlier, hplace, reading, hmem, hdue⟩ | ⟨task, hmeets, hdue, hplace⟩)
    · exact ⟨task, earlier ++ [event.now], arrived_concat.mpr (Or.inl ⟨earlier, hearlier, rfl⟩), hplace, reading,
        List.mem_append_left _ hmem, hdue⟩
    · rcases hmeets with ⟨earlier, hearlier, -⟩ | hevent
      · exact ⟨task, earlier ++ [event.now], arrived_concat.mpr (Or.inl ⟨earlier, hearlier, rfl⟩), hplace, event.now,
          List.mem_append_right _ (List.mem_singleton_self _), hdue⟩
      · exact ⟨task, [event.now], arrived_concat.mpr (Or.inr ⟨event.now, hevent, rfl⟩), hplace, event.now,
          List.mem_singleton_self _, hdue⟩

theorem not_arrived_nil {task : RetryTask} {readings : List UInt64} : ¬Arrived [] task readings := by
  rintro ⟨before, now, after, hsplit, -⟩
  exact absurd hsplit.symm (List.append_ne_nil_of_right_ne_nil _ (List.cons_ne_nil _ _))

theorem SchedulerEvent.now_only (topic : Bytes) (partition : Int) (event : SchedulerEvent) :
    (event.only topic partition).now = event.now := by
  cases event with
  | schedule now task =>
      rw [only]
      split_ifs <;> rfl
  | makeDueVisible now => rfl

theorem SchedulerEvent.only_eq_schedule {topic : Bytes} {partition : Int} {event : SchedulerEvent} {now : UInt64}
    {task : RetryTask} (htopic : task.topic = topic) (hpartition : task.partition = partition) :
    event.only topic partition = .schedule now task ↔ event = .schedule now task := by
  cases event with
  | schedule taken other =>
      rw [only]
      split_ifs with hplace
      · rfl
      · apply iff_of_false not_false
        rintro h
        cases h
        exact hplace ⟨htopic.symm, hpartition.symm⟩
  | makeDueVisible taken => exact Iff.rfl

/-- The tasks of one partition arrive whether or not there are others. -/
theorem arrived_only {events : List SchedulerEvent} {topic : Bytes} {partition : Int} {task : RetryTask}
    (htopic : task.topic = topic) (hpartition : task.partition = partition) {readings : List UInt64} :
    Arrived (events.map (SchedulerEvent.only topic partition)) task readings ↔ Arrived events task readings := by
  induction events using List.reverseRecOn generalizing readings with
  | nil => exact iff_of_false not_arrived_nil not_arrived_nil
  | append_singleton events event ih =>
      rw [List.map_append, List.map_singleton, arrived_concat, arrived_concat]
      simp only [ih, SchedulerEvent.now_only, SchedulerEvent.only_eq_schedule htopic hpartition]

theorem releasedBy_only {events : List SchedulerEvent} {topic : Bytes} {partition offset : Int} :
    ReleasedBy (events.map (SchedulerEvent.only topic partition)) topic partition offset ↔
      ReleasedBy events topic partition offset := by
  apply exists_congr
  intro task
  apply exists_congr
  intro readings
  rw [and_left_comm, @and_left_comm (Arrived events task readings)]
  apply and_congr_right
  intro hplace
  obtain ⟨htopic, hpartition, -⟩ := RetryTask.place_eq.mp hplace
  rw [arrived_only htopic hpartition]

/-- What has been released stays so. -/
theorem ReleasedBy.append {events : List SchedulerEvent} {topic : Bytes} {partition offset : Int}
    (h : ReleasedBy events topic partition offset) (more : List SchedulerEvent) :
    ReleasedBy (events ++ more) topic partition offset := by
  induction more using List.reverseRecOn with
  | nil =>
      rw [List.append_nil]
      exact h
  | append_singleton more event ih =>
      rw [← List.append_assoc]
      exact releasedBy_concat.mpr (Or.inl ih)

namespace RetryScheduler

open Visibility

variable {queue : TaskQueue}

/-! ### Runs -/

/-- The scheduler that a step drains. -/
theorem exists_drained (queue : TaskQueue) (scheduler : RetryScheduler) (event : SchedulerEvent) :
    ∃ drained : RetryScheduler, step queue scheduler event = makeDueVisible queue event.now drained ∧
      drained.visibility = scheduler.visibility ∧
      ∀ task, task ∈ drained.tasks ↔ task ∈ scheduler.tasks ∨ event = .schedule event.now task := by
  cases event with
  | schedule now task =>
      refine ⟨{ scheduler with tasks := queue.push scheduler.tasks task }, rfl, rfl, fun other => ?_⟩
      rw [(queue.push_perm scheduler.tasks task).mem_iff, List.mem_cons, or_comm, SchedulerEvent.schedule.injEq]
      simp only [SchedulerEvent.now, true_and, eq_comm]
  | makeDueVisible now =>
      refine ⟨scheduler, rfl, rfl, fun other => ?_⟩
      simp only [SchedulerEvent.now, reduceCtorEq, or_false]

theorem run_concat (queue : TaskQueue) (events : List SchedulerEvent) (event : SchedulerEvent) :
    run queue (events ++ [event]) = step queue (run queue events) event := by
  rw [run, List.foldl_append]
  rfl

/-- The queue holds the tasks that wait for their time. -/
theorem mem_run_tasks {events : List SchedulerEvent} {task : RetryTask} :
    task ∈ (run queue events).tasks ↔ Waiting events task := by
  induction events using List.reverseRecOn generalizing task with
  | nil =>
      apply iff_of_false List.not_mem_nil
      rintro ⟨readings, harrived, -⟩
      exact not_arrived_nil harrived
  | append_singleton events event ih =>
      obtain ⟨drained, hstep, -, htasks⟩ := exists_drained queue (run queue events) event
      rw [run_concat, hstep, mem_makeDueVisible, htasks, ih, waiting_concat, Meets]

theorem run_settled (queue : TaskQueue) (events : List SchedulerEvent) : (run queue events).Settled := by
  induction events using List.reverseRecOn with
  | nil => exact fun _ _ => settled_default
  | append_singleton events event ih =>
      obtain ⟨drained, hstep, hvisibility, -⟩ := exists_drained queue (run queue events) event
      rw [run_concat, hstep]
      apply makeDueVisible_settled
      intro topic partition
      rw [hvisibility]
      exact ih topic partition

/-- An offset counts as released when one of its tasks has met its time. -/
theorem run_released {events : List SchedulerEvent} {topic : Bytes} {partition offset : Int} :
    (run queue events).Released topic partition offset ↔ offset < 0 ∨ ReleasedBy events topic partition offset := by
  induction events using List.reverseRecOn generalizing topic partition offset with
  | nil =>
      apply or_congr Iff.rfl
      apply iff_of_false (Finset.notMem_empty _)
      rintro ⟨task, readings, harrived, -⟩
      exact not_arrived_nil harrived
  | append_singleton events event ih =>
      obtain ⟨drained, hstep, hvisibility, htasks⟩ := exists_drained queue (run queue events) event
      rw [run_concat, hstep, makeDueVisible_released, Released, hvisibility, releasedBy_concat, ← or_assoc, ← ih]
      apply or_congr Iff.rfl
      simp only [htasks, mem_run_tasks, Meets]

/-- What is visible ends at the first offset that has not been released. -/
theorem visibleEnd_isLeast (queue : TaskQueue) (events : List SchedulerEvent) (topic : Bytes) (partition : Int) :
    IsLeast {offset | 0 ≤ offset ∧ ¬ReleasedBy events topic partition offset}
      ((run queue events).visibleEnd topic partition) := by
  have hend := (run_settled queue events topic partition).not_released_end
  have hreleased : ∀ offset, (run queue events).Released topic partition offset ↔ _ := fun offset => run_released
  obtain ⟨hnonneg, hwaits⟩ := not_or.mp ((hreleased _).not.mp hend)
  refine ⟨⟨not_lt.mp hnonneg, hwaits⟩, fun offset hoffset => ?_⟩
  by_contra hlt
  rcases (hreleased offset).mp (Or.inl (not_le.mp hlt)) with hnegative | hdone
  · exact not_lt.mpr hoffset.1 hnegative
  · exact hoffset.2 hdone

theorem mem_run_ready {events : List SchedulerEvent} {topic : Bytes} {partition offset : Int} :
    offset ∈ ((run queue events).visibility topic partition).ready ↔
      ReleasedBy events topic partition offset ∧ (run queue events).visibleEnd topic partition < offset := by
  have hleast := visibleEnd_isLeast queue events topic partition
  constructor
  · intro hready
    have habove := run_settled queue events topic partition offset hready
    refine ⟨?_, habove⟩
    rcases run_released.mp (Or.inr hready) with hnegative | hdone
    · exact absurd (hleast.1.1.trans_lt habove) (not_lt.mpr hnegative.le)
    · exact hdone
  · rintro ⟨hdone, habove⟩
    rcases (@run_released queue events topic partition offset).mpr (Or.inr hdone) with hbelow | hready
    · exact absurd hbelow (not_lt.mpr (le_of_lt habove))
    · exact hready

/-- **Visibility.** After any calls, at any readings of the clock and with any order of equal tasks, a partition is
visible up to its first offset without a released task, whatever happens on other partitions; the end never moves
back, and what is ready are the released offsets above it. -/
theorem visibleEnd_spec (queue : TaskQueue) (events : List SchedulerEvent) (topic : Bytes) (partition : Int) :
    IsLeast {offset | 0 ≤ offset ∧ ¬ReleasedBy events topic partition offset}
        ((run queue events).visibleEnd topic partition) ∧
      (∀ more, (run queue events).visibleEnd topic partition ≤
        (run queue (events ++ more)).visibleEnd topic partition) ∧
      (∀ offset, offset ∈ ((run queue events).visibility topic partition).ready ↔
        ReleasedBy events topic partition offset ∧ (run queue events).visibleEnd topic partition < offset) ∧
      ∀ other : TaskQueue, (run other (events.map (SchedulerEvent.only topic partition))).visibility topic partition =
        (run queue events).visibility topic partition := by
  have hleast := visibleEnd_isLeast queue events topic partition
  refine ⟨hleast, fun more => ?_, fun offset => mem_run_ready, fun other => ?_⟩
  · obtain ⟨⟨hnonneg, hwaits⟩, -⟩ := visibleEnd_isLeast queue (events ++ more) topic partition
    exact hleast.2 ⟨hnonneg, fun hdone => hwaits (hdone.append more)⟩
  · have hsame : (run other (events.map (SchedulerEvent.only topic partition))).visibleEnd topic partition =
        (run queue events).visibleEnd topic partition := by
      have hother := visibleEnd_isLeast other (events.map (SchedulerEvent.only topic partition)) topic partition
      simp only [releasedBy_only] at hother
      exact hother.unique hleast
    have hready : ((run other (events.map (SchedulerEvent.only topic partition))).visibility topic partition).ready =
        ((run queue events).visibility topic partition).ready := by
      ext offset
      rw [mem_run_ready, mem_run_ready, releasedBy_only, hsame]
    unfold visibleEnd at hsame
    cases hleft : (run other (events.map (SchedulerEvent.only topic partition))).visibility topic partition with
    | mk leftEnd leftReady =>
        cases hright : (run queue events).visibility topic partition with
        | mk rightEnd rightReady =>
            rw [hleft, hright] at hsame hready
            exact congrArg₂ Visibility.mk hsame hready

/-- Three retries fall due out of order, and the clock is set back in between. -/
example : (run .inOrder [.schedule 5 ⟨[], 0, 0, 30⟩, .schedule 6 ⟨[], 0, 1, 10⟩, .makeDueVisible 12,
    .schedule 3 ⟨[], 0, 2, 20⟩, .makeDueVisible 40]).visibleEnd [] 0 = 3 := by decide +kernel

end RetryScheduler

end LogMq
