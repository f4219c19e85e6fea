import LogMq.LibMinQueue
import LogMq.Status

/-! The scheduler of retries. A task waits in a queue until its time has come; then its offset is ready,
and a partition is visible up to the first offset that is not. -/

namespace LogMq

structure RetryTask where
  topic : Bytes
  partition : Int
  offset : Int
  time : UInt64
  deriving DecidableEq

/-- A `std::priority_queue` ordered by `CompareByVisibleTime`. The order of tasks with one time is not
specified, and neither is the order of the underlying vector. -/
structure TaskQueue extends MinQueue RetryTask Nat where
  key_eq : ∀ task, key task = task.time.toNat

/-- The queue that keeps its tasks in the order they came. -/
def TaskQueue.inOrder : TaskQueue := ⟨MinQueue.first fun task => task.time.toNat, fun _ => rfl⟩

/-- `end` and `ready` of a partition. -/
structure Visibility where
  endOffset : Int := 0
  ready : Finset Int := ∅
  deriving DecidableEq

namespace Visibility

/-- The loop that erases `end` from `ready` and increments it. Every turn takes an offset out of the set. -/
def advance : Nat → Visibility → Visibility
  | 0, state => state
  | fuel + 1, state =>
      if state.endOffset ∈ state.ready then
        advance fuel ⟨state.endOffset + 1, state.ready.erase state.endOffset⟩
      else state

/-- The time of an offset has come. -/
def release (state : Visibility) (offset : Int) : Visibility :=
  let ready := if state.endOffset ≤ offset then insert offset state.ready else state.ready
  advance ready.card ⟨state.endOffset, ready⟩

end Visibility

/-- `RetryScheduler`. A partition that is not in the map has the default `Visibility`. The clock readings that
`MakeDueVisibleLocked` has taken are kept for reference only. -/
structure RetryScheduler where
  tasks : List RetryTask := []
  visibility : Bytes → Int → Visibility := fun _ _ => {}
  readings : List UInt64 := []

namespace RetryScheduler

variable (queue : TaskQueue)

/-- One popped task. -/
def publish (visibility : Bytes → Int → Visibility) (task : RetryTask) : Bytes → Int → Visibility :=
  fun topic partition =>
    if topic = task.topic ∧ partition = task.partition then (visibility topic partition).release task.offset
    else visibility topic partition

/-- `MakeDueVisibleLocked`. -/
def makeDueVisible (now : UInt64) (scheduler : RetryScheduler) : RetryScheduler :=
  let (tasks, visibility) :=
    queue.drain now.toNat publish scheduler.tasks.length scheduler.tasks scheduler.visibility
  ⟨tasks, visibility, now :: scheduler.readings⟩

/-- `Schedule`. -/
def schedule (now : UInt64) (scheduler : RetryScheduler) (task : RetryTask) : RetryScheduler :=
  makeDueVisible queue now { scheduler with tasks := queue.push scheduler.tasks task }

def visibleEnd (scheduler : RetryScheduler) (topic : Bytes) (partition : Int) : Int :=
  (scheduler.visibility topic partition).endOffset

end RetryScheduler

/-! ### Released offsets -/

namespace Visibility

/-- The offsets whose time has come: those below `end`, and those that wait for one below them. -/
def Released (state : Visibility) (offset : Int) : Prop := offset < state.endOffset ∨ offset ∈ state.ready

/-- What holds between two calls: `ready` starts above `end`. -/
def Settled (state : Visibility) : Prop := ∀ offset ∈ state.ready, state.endOffset < offset

theorem settled_default : ({} : Visibility).Settled := fun _ h => absurd h (Finset.notMem_empty _)

theorem Settled.not_released_end {state : Visibility} (h : state.Settled) : ¬ state.Released state.endOffset := by
  rintro (hlt | hready)
  · exact lt_irrefl _ hlt
  · exact lt_irrefl _ (h _ hready)

theorem advance_released {fuel : Nat} {state : Visibility} (offset : Int) :
    (advance fuel state).Released offset ↔ state.Released offset := by
  induction fuel generalizing state with
  | zero => exact Iff.rfl
  | succ fuel ih =>
      rw [advance]
      split_ifs with hready
      · rw [ih]
        simp only [Released, Finset.mem_erase]
        by_cases heq : offset = state.endOffset
        · subst heq
          simp only [hready, or_true, iff_true]
          exact Or.inl (lt_add_one _)
        · have hlt : offset < state.endOffset + 1 ↔ offset < state.endOffset := by omega
          simp only [hlt, ne_eq, heq, not_false_eq_true, true_and]
      · exact Iff.rfl

theorem advance_settled {fuel : Nat} {state : Visibility} (hfuel : state.ready.card ≤ fuel)
    (h : ∀ offset ∈ state.ready, state.endOffset ≤ offset) : (advance fuel state).Settled := by
  induction fuel generalizing state with
  | zero =>
      intro offset hoffset
      rw [advance, Finset.card_eq_zero.mp (Nat.le_zero.mp hfuel)] at hoffset
      exact absurd hoffset (Finset.notMem_empty _)
  | succ fuel ih =>
      rw [advance]
      split_ifs with hready
      · apply ih
        · have hcard := Finset.card_erase_of_mem hready
          dsimp only
          omega
        · intro offset hoffset
          obtain ⟨hne, hmem⟩ := Finset.mem_erase.mp hoffset
          have hle := h offset hmem
          dsimp only
          omega
      · intro offset hoffset
        have hle := h offset hoffset
        have hne : offset ≠ state.endOffset := fun heq => hready (heq ▸ hoffset)
        omega

/-- A release adds one offset. -/
theorem release_released {state : Visibility} (offset other : Int) :
    (state.release offset).Released other ↔ state.Released other ∨ other = offset := by
  unfold release
  rw [advance_released]
  simp only [Released]
  split_ifs with hle
  · rw [Finset.mem_insert]
    tauto
  · constructor
    · intro h
      exact Or.inl h
    · rintro (h | rfl)
      · exact h
      · exact Or.inl (not_le.mp hle)

theorem Settled.release {state : Visibility} (h : state.Settled) (offset : Int) : (state.release offset).Settled := by
  unfold Visibility.release
  refine @advance_settled _ ⟨_, _⟩ (le_refl _) ?_
  intro other hother
  dsimp only at hother ⊢
  split_ifs at hother with hle
  · rcases Finset.mem_insert.mp hother with rfl | hother
    · exact hle
    · exact (h other hother).le
  · exact (h other hother).le

end Visibility

/-! ### What the loop over due tasks does -/

/-- The offset of a partition that a task is for. -/
def RetryTask.place (task : RetryTask) : Bytes × Int × Int := (task.topic, task.partition, task.offset)

theorem RetryTask.place_eq {task : RetryTask} {topic : Bytes} {partition offset : Int} :
    task.place = (topic, partition, offset) ↔
      task.topic = topic ∧ task.partition = partition ∧ task.offset = offset := by
  simp only [place, Prod.mk.injEq]

namespace RetryScheduler

open Visibility

variable {queue : TaskQueue} {scheduler : RetryScheduler}

def Settled (scheduler : RetryScheduler) : Prop :=
  ∀ topic partition, (scheduler.visibility topic partition).Settled

/-- The time of an offset of a partition has come. -/
def Released (scheduler : RetryScheduler) (topic : Bytes) (partition offset : Int) : Prop :=
  (scheduler.visibility topic partition).Released offset

theorem publish_released (visibility : Bytes → Int → Visibility) (task : RetryTask) (topic : Bytes)
    (partition offset : Int) :
    (publish visibility task topic partition).Released offset ↔
      (visibility topic partition).Released offset ∨ task.place = (topic, partition, offset) := by
  rw [publish, RetryTask.place_eq]
  split_ifs with hplace
  · rw [release_released, hplace.1, hplace.2, eq_comm]
    simp only [true_and]
  · constructor
    · intro h
      exact Or.inl h
    · rintro (h | ⟨htopic, hpartition, -⟩)
      · exact h
      · exact absurd ⟨htopic.symm, hpartition.symm⟩ hplace

theorem foldl_publish_released (due : List RetryTask) (visibility : Bytes → Int → Visibility) (topic : Bytes)
    (partition offset : Int) :
    (due.foldl publish visibility topic partition).Released offset ↔
      (visibility topic partition).Released offset ∨ (topic, partition, offset) ∈ due.map RetryTask.place := by
  induction due generalizing visibility with
  | nil => simp only [List.foldl_nil, List.map_nil, List.not_mem_nil, or_false]
  | cons task rest ih =>
      rw [List.foldl_cons, ih, publish_released, List.map_cons, List.mem_cons, or_assoc]
      simp only [eq_comm]

theorem foldl_publish_settled (due : List RetryTask) {visibility : Bytes → Int → Visibility}
    (h : ∀ topic partition, (visibility topic partition).Settled) (topic : Bytes) (partition : Int) :
    (due.foldl publish visibility topic partition).Settled := by
  induction due generalizing visibility with
  | nil => exact h topic partition
  | cons task rest ih =>
      rw [List.foldl_cons]
      apply ih
      intro topic partition
      rw [publish]
      split_ifs
      · exact (h topic partition).release _
      · exact h topic partition

/-- **One turn of the scheduler.** The tasks that are due are released, each once, and the others wait on. -/
theorem makeDueVisible_eq (queue : TaskQueue) (now : UInt64) (scheduler : RetryScheduler) :
    ∃ due, scheduler.tasks.Perm (due ++ (makeDueVisible queue now scheduler).tasks) ∧
      (∀ task ∈ due, task.time ≤ now) ∧ (∀ task ∈ (makeDueVisible queue now scheduler).tasks, now < task.time) ∧
      (makeDueVisible queue now scheduler).visibility = due.foldl publish scheduler.visibility := by
  obtain ⟨due, hperm, hdue, hrest, hstate⟩ :=
    queue.drain_eq now.toNat publish (le_refl scheduler.tasks.length) scheduler.visibility
  refine ⟨due, hperm, fun task htask => ?_, fun task htask => ?_, hstate⟩
  · rw [UInt64.le_iff_toNat_le, ← queue.key_eq]
    exact hdue task htask
  · rw [UInt64.lt_iff_toNat_lt, ← queue.key_eq]
    exact hrest task htask

theorem makeDueVisible_settled (h : scheduler.Settled) (now : UInt64) :
    (makeDueVisible queue now scheduler).Settled := by
  obtain ⟨due, -, -, -, hvisibility⟩ := makeDueVisible_eq queue now scheduler
  intro topic partition
  rw [hvisibility]
  exact foldl_publish_settled due h topic partition

/-- The tasks that wait on are those that are not due. -/
theorem makeDueVisible_perm {now : UInt64} :
    (makeDueVisible queue now scheduler).tasks.Perm (scheduler.tasks.filter fun task => now < task.time) := by
  obtain ⟨due, hperm, hdue, hrest, -⟩ := makeDueVisible_eq queue now scheduler
  have hnone : (due.filter fun task => now < task.time) = [] :=
    List.filter_eq_nil_iff.mpr fun task htask => by
      rw [decide_eq_true_eq]
      exact UInt64.not_lt.mpr (hdue task htask)
  have hall : ((makeDueVisible queue now scheduler).tasks.filter fun task => now < task.time) =
      (makeDueVisible queue now scheduler).tasks :=
    List.filter_eq_self.mpr fun task htask => decide_eq_true (hrest task htask)
  have hfiltered := hperm.filter fun task => now < task.time
  rw [List.filter_append, hnone, hall, List.nil_append] at hfiltered
  exact hfiltered.symm

theorem mem_makeDueVisible {now : UInt64} {task : RetryTask} :
    task ∈ (makeDueVisible queue now scheduler).tasks ↔ task ∈ scheduler.tasks ∧ now < task.time := by
  rw [makeDueVisible_perm.mem_iff, List.mem_filter, decide_eq_true_eq]

/-- Every task is released or waits on. -/
theorem makeDueVisible_released {now : UInt64} {topic : Bytes} {partition offset : Int} :
    (makeDueVisible queue now scheduler).Released topic partition offset ↔
      scheduler.Released topic partition offset ∨
        ∃ task ∈ scheduler.tasks, task.time ≤ now ∧ task.place = (topic, partition, offset) := by
  obtain ⟨due, hperm, hdue, hrest, hvisibility⟩ := makeDueVisible_eq queue now scheduler
  rw [Released, hvisibility, foldl_publish_released, List.mem_map]
  apply or_congr_right
  constructor
  · rintro ⟨task, htask, hplace⟩
    exact ⟨task, hperm.mem_iff.mpr (List.mem_append_left _ htask), hdue task htask, hplace⟩
  · rintro ⟨task, htask, htime, hplace⟩
    rcases List.mem_append.mp (hperm.mem_iff.mp htask) with htask | htask
    · exact ⟨task, htask, hplace⟩
    · exact absurd htime (UInt64.not_le.mpr (hrest task htask))

/-- No offset has two tasks, and none has a task after its release. -/
structure Exclusive (scheduler : RetryScheduler) : Prop where
  nodup : (scheduler.tasks.map RetryTask.place).Nodup
  waiting : ∀ task ∈ scheduler.tasks, ¬ scheduler.Released task.topic task.partition task.offset

theorem Exclusive.makeDueVisible (h : scheduler.Exclusive) (queue : TaskQueue) (now : UInt64) :
    (makeDueVisible queue now scheduler).Exclusive := by
  obtain ⟨due, hperm, -, -, -⟩ := makeDueVisible_eq queue now scheduler
  have hnodup := (hperm.map RetryTask.place).nodup_iff.mp h.nodup
  rw [List.map_append] at hnodup
  refine ⟨(List.nodup_append.mp hnodup).2.1, ?_⟩
  intro task htask hreleased
  obtain ⟨hmem, hlate⟩ := mem_makeDueVisible.mp htask
  rcases makeDueVisible_released.mp hreleased with hold | ⟨other, hother, htime, hplace⟩
  · exact h.waiting task hmem hold
  · have heq : other = task := List.inj_on_of_nodup_map h.nodup hother hmem hplace
    subst heq
    exact absurd htime (UInt64.not_le.mpr hlate)

/-- A new task, for an offset that has none and is not released. -/
theorem Exclusive.push (h : scheduler.Exclusive) (queue : TaskQueue) {task : RetryTask}
    (hnew : ∀ other ∈ scheduler.tasks, other.place ≠ task.place)
    (hwaits : ¬ scheduler.Released task.topic task.partition task.offset) :
    Exclusive { scheduler with tasks := queue.push scheduler.tasks task } := by
  have hperm := queue.push_perm scheduler.tasks task
  constructor
  · rw [(hperm.map RetryTask.place).nodup_iff, List.map_cons, List.nodup_cons]
    refine ⟨fun hmem => ?_, h.nodup⟩
    obtain ⟨other, hother, hplace⟩ := List.mem_map.mp hmem
    exact hnew other hother hplace
  · intro other hother
    rcases List.mem_cons.mp (hperm.mem_iff.mp hother) with rfl | hother
    · exact hwaits
    · exact h.waiting other hother

end RetryScheduler

end LogMq
