import LogMq.LibSteps
import LogMq.NetConnection

/-! The threads of a worker pool. A thread holds the mutex from its look at the queue until it takes a task, blocks or
returns, so each of these is one step. A call of `notify_one` or `notify_all` comes after the mutex has been released,
and a blocked thread may also wake up by itself. -/

namespace LogMq

/-- Where a thread of the pool is: on its way to the mutex, blocked in `wait`, running a task, or at its end. -/
inductive WorkerThread (α : Type) where
  | awake
  | waiting
  | running (task : α)
  | returned
  deriving DecidableEq

namespace WorkerThread

variable {α : Type}

def task? : WorkerThread α → Option α
  | .running task => some task
  | _ => none

def isAwake : WorkerThread α → Bool
  | .awake => true
  | _ => false

def isWaiting : WorkerThread α → Bool
  | .waiting => true
  | _ => false

/-- A blocked thread goes for the mutex again. -/
def notified : WorkerThread α → WorkerThread α
  | .waiting => .awake
  | place => place

/-- The steps a thread can still make, if no task comes in between. -/
def size : WorkerThread α → Nat
  | .awake => 1
  | .waiting => 2
  | .running _ => 2
  | .returned => 0

end WorkerThread

/-- `WorkerPool` with its threads, and the calls of `notify_one` and `notify_all` that are still to come. The last three
fields are its history, which the code does not keep: the tasks in the order in which they were accepted, taken and
finished. -/
structure WorkerThreads (α : Type) where
  maxQueueSize : Nat
  threads : List (WorkerThread α)
  tasks : List α := []
  stopping : Bool := false
  notifyOne : Nat := 0
  notifyAll : Bool := false
  accepted : List α := []
  taken : List α := []
  finished : List α := []
  deriving DecidableEq

/-- What the callers of the pool, its threads and the condition variable do. -/
inductive WorkerEvent (α : Type) where
  | submit (task : α)
  | stop
  | notifyOne (thread : Nat)
  | notifyNone
  | notifyAll
  | wake (thread : Nat)
  | look (thread : Nat)
  | finish (thread : Nat)

/-- The steps that the threads, their notifications and the condition variable make. -/
def WorkerEvent.own {α : Type} : WorkerEvent α → Bool
  | .submit _ => false
  | .stop => false
  | _ => true

/-- The steps that do not wait for a thread to wake up by itself. -/
def WorkerEvent.certain {α : Type} : WorkerEvent α → Bool
  | .submit _ => false
  | .stop => false
  | .wake _ => false
  | _ => true

namespace WorkerThreads

variable {α : Type}

/-- The constructor. -/
def create (threadCount maxQueueSize : Nat) : WorkerThreads α :=
  { maxQueueSize := max 1 maxQueueSize, threads := List.replicate (max 1 threadCount) .awake }

section Operations

variable (pool : WorkerThreads α)

def setThread (thread : Nat) (place : WorkerThread α) : WorkerThreads α :=
  { pool with threads := pool.threads.set thread place }

/-- What `Submit` does under the mutex, and its result. -/
def submit (task : α) : Bool × WorkerThreads α :=
  if pool.stopping = true ∨ pool.maxQueueSize ≤ pool.tasks.length then (false, pool)
  else (true, { pool with
    tasks := pool.tasks ++ [task], notifyOne := pool.notifyOne + 1, accepted := pool.accepted ++ [task] })

/-- What `Stop` does under the mutex. Only its first call goes on to `notify_all`. -/
def stop : WorkerThreads α :=
  if pool.stopping = true then pool else { pool with stopping := true, notifyAll := true }

/-- A turn of the loop of `Run` up to the task, from where the predicate of `wait` is evaluated. -/
def look (thread : Nat) : WorkerThreads α :=
  match pool.tasks with
  | [] => pool.setThread thread (if pool.stopping = true then .returned else .waiting)
  | task :: rest => { pool with tasks := rest, taken := pool.taken ++ [task] }.setThread thread (.running task)

/-- The tasks that the threads are running. -/
def running : List α := pool.threads.filterMap WorkerThread.task?

/-- The threads on their way to the mutex. -/
def awake : Nat := pool.threads.countP WorkerThread.isAwake

/-- The steps of the threads that are left, once no task is accepted any more. -/
def size : Nat :=
  (pool.threads.map WorkerThread.size).sum + 2 * pool.tasks.length + pool.notifyOne + pool.notifyAll.toNat

end Operations

/-- One step, if it is possible. `notify_one` wakes one of the blocked threads, or none if there is none. -/
def step (pool : WorkerThreads α) : WorkerEvent α → Option (WorkerThreads α)
  | .submit task => some (pool.submit task).2
  | .stop => some pool.stop
  | .notifyOne thread =>
      match pool.notifyOne, pool.threads[thread]? with
      | calls + 1, some .waiting => some { pool.setThread thread .awake with notifyOne := calls }
      | _, _ => none
  | .notifyNone =>
      match pool.notifyOne, pool.threads.any WorkerThread.isWaiting with
      | calls + 1, false => some { pool with notifyOne := calls }
      | _, _ => none
  | .notifyAll =>
      match pool.notifyAll with
      | true => some { pool with notifyAll := false, threads := pool.threads.map WorkerThread.notified }
      | false => none
  | .wake thread =>
      match pool.threads[thread]? with
      | some .waiting => some (pool.setThread thread .awake)
      | _ => none
  | .look thread =>
      match pool.threads[thread]? with
      | some .awake => some (pool.look thread)
      | _ => none
  | .finish thread =>
      match pool.threads[thread]? with
      | some (.running task) => some { pool.setThread thread .awake with finished := pool.finished ++ [task] }
      | _ => none

/-! ### What a step does -/

section Steps

variable {pool next : WorkerThreads α}

/-- The ways a step can go. -/
inductive Move (pool : WorkerThreads α) : WorkerEvent α → WorkerThreads α → Prop
  | rejected {task : α} (hfull : pool.stopping = true ∨ pool.maxQueueSize ≤ pool.tasks.length) :
      Move pool (.submit task) pool
  | accepted {task : α} (hopen : pool.stopping = false) (hroom : pool.tasks.length < pool.maxQueueSize) :
      Move pool (.submit task) { pool with
        tasks := pool.tasks ++ [task], notifyOne := pool.notifyOne + 1, accepted := pool.accepted ++ [task] }
  | stopped (hstopping : pool.stopping = true) : Move pool .stop pool
  | stop (hopen : pool.stopping = false) : Move pool .stop { pool with stopping := true, notifyAll := true }
  | notifyOne {thread calls : Nat} (hcalls : pool.notifyOne = calls + 1) (hplace : pool.threads[thread]? = some .waiting) :
      Move pool (.notifyOne thread) { pool.setThread thread .awake with notifyOne := calls }
  | notifyNone {calls : Nat} (hcalls : pool.notifyOne = calls + 1) (hnone : .waiting ∉ pool.threads) :
      Move pool .notifyNone { pool with notifyOne := calls }
  | notifyAll (hcall : pool.notifyAll = true) :
      Move pool .notifyAll { pool with notifyAll := false, threads := pool.threads.map WorkerThread.notified }
  | wake {thread : Nat} (hplace : pool.threads[thread]? = some .waiting) :
      Move pool (.wake thread) (pool.setThread thread .awake)
  | block {thread : Nat} (hplace : pool.threads[thread]? = some .awake) (htasks : pool.tasks = [])
      (hopen : pool.stopping = false) : Move pool (.look thread) (pool.setThread thread .waiting)
  | leave {thread : Nat} (hplace : pool.threads[thread]? = some .awake) (htasks : pool.tasks = [])
      (hstopping : pool.stopping = true) : Move pool (.look thread) (pool.setThread thread .returned)
  | take {thread : Nat} {task : α} {rest : List α} (hplace : pool.threads[thread]? = some .awake)
      (htasks : pool.tasks = task :: rest) :
      Move pool (.look thread)
        ({ pool with tasks := rest, taken := pool.taken ++ [task] }.setThread thread (.running task))
  | finish {thread : Nat} {task : α} (hplace : pool.threads[thread]? = some (.running task)) :
      Move pool (.finish thread) { pool.setThread thread .awake with finished := pool.finished ++ [task] }

theorem waiting_mem {threads : List (WorkerThread α)} :
    .waiting ∈ threads ↔ threads.any WorkerThread.isWaiting = true := by
  rw [List.any_eq_true]
  constructor
  · exact fun h => ⟨_, h, rfl⟩
  · rintro ⟨place, hplace, hwaiting⟩
    cases place with
    | waiting => exact hplace
    | awake => cases hwaiting
    | running task => cases hwaiting
    | returned => cases hwaiting

theorem step_move {event : WorkerEvent α} (h : pool.step event = some next) : Move pool event next := by
  cases event with
  | submit task =>
      cases h
      unfold submit
      split
      · exact .rejected ‹_›
      · rename_i hfree
        obtain ⟨hopen, hroom⟩ := not_or.mp hfree
        exact .accepted (Bool.eq_false_of_not_eq_true hopen) (not_le.mp hroom)
  | stop =>
      cases h
      unfold stop
      split
      · exact .stopped ‹_›
      · exact .stop (Bool.eq_false_of_not_eq_true ‹_›)
  | notifyOne thread =>
      simp only [step] at h
      split at h
      · cases h
        exact .notifyOne ‹_› ‹_›
      · cases h
  | notifyNone =>
      simp only [step] at h
      split at h
      · rename_i hnone
        cases h
        exact .notifyNone ‹_› fun hwaiting => by simp [waiting_mem.mp hwaiting] at hnone
      · cases h
  | notifyAll =>
      simp only [step] at h
      split at h
      · cases h
        exact .notifyAll ‹_›
      · cases h
  | wake thread =>
      simp only [step] at h
      split at h
      · cases h
        exact .wake ‹_›
      · cases h
  | look thread =>
      simp only [step] at h
      split at h
      · cases h
        unfold look
        split
        · split
          · exact .leave ‹_› ‹_› ‹_›
          · exact .block ‹_› ‹_› (Bool.eq_false_of_not_eq_true ‹_›)
        · exact .take ‹_› ‹_›
      · cases h
  | finish thread =>
      simp only [step] at h
      split at h
      · cases h
        exact .finish ‹_›
      · cases h

end Steps

/-! ### What every step keeps -/

/-- The tasks are taken in the order of the queue and each of them once. While a thread is blocked, every task in the
queue has a thread on its way to it or a call of `notify_one` to come. No thread is blocked on a stopped pool, and none
ends before the queue is empty. -/
structure Orderly (pool : WorkerThreads α) : Prop where
  fifo : pool.accepted = pool.taken ++ pool.tasks
  once : pool.taken.Perm (pool.finished ++ pool.running)
  bounded : pool.tasks.length ≤ pool.maxQueueSize
  noticed : .waiting ∈ pool.threads → pool.tasks.length ≤ pool.awake + pool.notifyOne
  released : .waiting ∈ pool.threads → pool.stopping = true → pool.notifyAll = true
  drained : .returned ∈ pool.threads → pool.stopping = true ∧ pool.tasks = []

section Perm

variable {pool : WorkerThreads α} {place : WorkerThread α} {others : List (WorkerThread α)}

theorem running_perm (h : pool.threads.Perm (place :: others)) :
    pool.running.Perm (place.task?.toList ++ others.filterMap WorkerThread.task?) := by
  refine (h.filterMap WorkerThread.task?).trans (List.Perm.of_eq ?_)
  cases place <;> rfl

theorem awake_perm (h : pool.threads.Perm (place :: others)) :
    pool.awake = others.countP WorkerThread.isAwake + if place.isAwake = true then 1 else 0 :=
  (h.countP_eq WorkerThread.isAwake).trans List.countP_cons

end Perm

namespace Orderly

variable {pool next : WorkerThreads α}

theorem create (threadCount maxQueueSize : Nat) :
    (WorkerThreads.create threadCount maxQueueSize : WorkerThreads α).Orderly := by
  have hawake : ∀ place ∈ (WorkerThreads.create threadCount maxQueueSize : WorkerThreads α).threads, place = .awake :=
    fun place hplace => List.eq_of_mem_replicate hplace
  have hrunning : (WorkerThreads.create threadCount maxQueueSize : WorkerThreads α).running = [] :=
    List.filterMap_eq_nil_iff.mpr fun place hplace => by rw [hawake place hplace]; rfl
  refine ⟨rfl, ?_, Nat.zero_le _, ?_, ?_, ?_⟩
  · rw [hrunning]
    exact .refl _
  · exact fun hwaiting => by cases hawake _ hwaiting
  · exact fun hwaiting => by cases hawake _ hwaiting
  · exact fun hreturned => by cases hawake _ hreturned

/-- A thread of the pool after one of them has gone to another place. -/
theorem mem_moved {places others : List (WorkerThread α)} {old new place : WorkerThread α}
    (hold : pool.threads.Perm (old :: others)) (hnew : places.Perm (new :: others)) (hmem : place ∈ places) :
    place = new ∨ place ∈ pool.threads :=
  (List.mem_cons.mp (hnew.mem_iff.mp hmem)).imp_right fun hplace => hold.mem_iff.mpr (List.mem_cons_of_mem _ hplace)

/-- A blocked thread wakes up, by itself or by a call of `notify_one`. -/
theorem wake (h : pool.Orderly) {thread : Nat} (hplace : pool.threads[thread]? = some .waiting) {calls : Nat}
    (hcalls : pool.notifyOne ≤ calls + 1) : Orderly { pool.setThread thread .awake with notifyOne := calls } := by
  obtain ⟨others, hold, hmoved⟩ := Slots.exists_rest hplace
  have hnew : ({ pool.setThread thread .awake with notifyOne := calls } : WorkerThreads α).threads.Perm
      (.awake :: others) := hmoved .awake
  have hwaiting : .waiting ∈ pool.threads := List.mem_of_getElem? hplace
  refine ⟨h.fifo, h.once.trans (((running_perm hold).trans (running_perm hnew).symm).append_left _), h.bounded,
    fun _ => ?_, fun _ => h.released hwaiting, fun hreturned => ?_⟩
  · have hnoticed := h.noticed hwaiting
    rw [awake_perm hold] at hnoticed
    rw [awake_perm hnew]
    simp only [WorkerThread.isAwake, if_true, Bool.false_eq_true, if_false] at hnoticed ⊢
    change pool.tasks.length ≤ _ + 1 + calls
    omega
  · exact h.drained ((mem_moved hold hnew hreturned).resolve_left fun habsurd => by cases habsurd)

/-- A thread that finds the queue empty blocks. -/
theorem block (h : pool.Orderly) {thread : Nat} (hplace : pool.threads[thread]? = some .awake)
    (htasks : pool.tasks = []) (hopen : pool.stopping = false) : (pool.setThread thread .waiting).Orderly := by
  obtain ⟨others, hold, hmoved⟩ := Slots.exists_rest hplace
  have hnew : (pool.setThread thread .waiting).threads.Perm (.waiting :: others) := hmoved .waiting
  refine ⟨h.fifo, h.once.trans (((running_perm hold).trans (running_perm hnew).symm).append_left _), h.bounded,
    fun _ => ?_, fun _ hstopping => absurd (hopen.symm.trans hstopping) Bool.false_ne_true, fun hreturned => ?_⟩
  · change pool.tasks.length ≤ _
    rw [htasks]
    exact Nat.zero_le _
  · exact h.drained ((mem_moved hold hnew hreturned).resolve_left fun habsurd => by cases habsurd)

/-- On a stopped pool it returns. -/
theorem leave (h : pool.Orderly) {thread : Nat} (hplace : pool.threads[thread]? = some .awake)
    (htasks : pool.tasks = []) (hstopping : pool.stopping = true) : (pool.setThread thread .returned).Orderly := by
  obtain ⟨others, hold, hmoved⟩ := Slots.exists_rest hplace
  have hnew : (pool.setThread thread .returned).threads.Perm (.returned :: others) := hmoved .returned
  refine ⟨h.fifo, h.once.trans (((running_perm hold).trans (running_perm hnew).symm).append_left _), h.bounded,
    fun _ => ?_, fun hwaiting => ?_, fun _ => ⟨hstopping, htasks⟩⟩
  · change pool.tasks.length ≤ _
    rw [htasks]
    exact Nat.zero_le _
  · exact h.released ((mem_moved hold hnew hwaiting).resolve_left fun habsurd => by cases habsurd)

/-- A thread takes the first task of the queue. -/
theorem take (h : pool.Orderly) {thread : Nat} {task : α} {rest : List α}
    (hplace : pool.threads[thread]? = some .awake) (htasks : pool.tasks = task :: rest) :
    ({ pool with tasks := rest, taken := pool.taken ++ [task] }.setThread thread (.running task)).Orderly := by
  obtain ⟨others, hold, hmoved⟩ := Slots.exists_rest hplace
  have hnew : ({ pool with tasks := rest, taken := pool.taken ++ [task] }.setThread thread
      (.running task)).threads.Perm (.running task :: others) := hmoved _
  have hnone : .returned ∉ pool.threads := fun hreturned => by
    have hempty := (h.drained hreturned).2
    rw [htasks] at hempty
    cases hempty
  refine ⟨?_, ?_, ?_, fun hwaiting => ?_, fun hwaiting => ?_, fun hreturned => ?_⟩
  · change pool.accepted = pool.taken ++ [task] ++ rest
    rw [h.fifo, htasks, List.append_assoc]
    rfl
  · change (pool.taken ++ [task]).Perm (pool.finished ++ _)
    calc (pool.taken ++ [task]).Perm (pool.finished ++ others.filterMap WorkerThread.task? ++ [task]) :=
          (h.once.trans ((running_perm hold).append_left _)).append_right _
      _ |>.Perm (pool.finished ++ (task :: others.filterMap WorkerThread.task?)) := by
          rw [List.append_assoc]
          exact List.perm_append_comm.append_left _
      _ |>.Perm (pool.finished ++ _) := (running_perm hnew).symm.append_left _
  · have hbounded := h.bounded
    rw [htasks, List.length_cons] at hbounded
    exact (Nat.le_succ _).trans hbounded
  · have hnoticed := h.noticed ((mem_moved hold hnew hwaiting).resolve_left fun habsurd => by cases habsurd)
    rw [awake_perm hold, htasks, List.length_cons] at hnoticed
    rw [awake_perm hnew]
    simp only [WorkerThread.isAwake, if_true, Bool.false_eq_true, if_false] at hnoticed ⊢
    change rest.length ≤ _ + 0 + pool.notifyOne
    omega
  · exact h.released ((mem_moved hold hnew hwaiting).resolve_left fun habsurd => by cases habsurd)
  · exact absurd ((mem_moved hold hnew hreturned).resolve_left fun habsurd => by cases habsurd) hnone

theorem finish (h : pool.Orderly) {thread : Nat} {task : α} (hplace : pool.threads[thread]? = some (.running task)) :
    Orderly { pool.setThread thread .awake with finished := pool.finished ++ [task] } := by
  obtain ⟨others, hold, hmoved⟩ := Slots.exists_rest hplace
  have hnew : ({ pool.setThread thread .awake with finished := pool.finished ++ [task] } : WorkerThreads α).threads.Perm
      (.awake :: others) := hmoved .awake
  refine ⟨h.fifo, ?_, h.bounded, fun hwaiting => ?_, fun hwaiting => ?_, fun hreturned => ?_⟩
  · change pool.taken.Perm (pool.finished ++ [task] ++ _)
    rw [List.append_assoc]
    refine h.once.trans (.append_left _ ((running_perm hold).trans ?_))
    exact (running_perm hnew).symm.append_left _
  · have hnoticed := h.noticed ((mem_moved hold hnew hwaiting).resolve_left fun habsurd => by cases habsurd)
    rw [awake_perm hold] at hnoticed
    rw [awake_perm hnew]
    simp only [WorkerThread.isAwake, if_true, Bool.false_eq_true, if_false] at hnoticed ⊢
    change pool.tasks.length ≤ _ + 1 + pool.notifyOne
    omega
  · exact h.released ((mem_moved hold hnew hwaiting).resolve_left fun habsurd => by cases habsurd)
  · exact h.drained ((mem_moved hold hnew hreturned).resolve_left fun habsurd => by cases habsurd)

/-- All blocked threads wake up at once. -/
theorem notifyAll (h : pool.Orderly) :
    Orderly { pool with notifyAll := false, threads := pool.threads.map WorkerThread.notified } := by
  have htask : ∀ place : WorkerThread α, place.notified.task? = place.task? := fun place => by cases place <;> rfl
  have hnone : .waiting ∉ pool.threads.map WorkerThread.notified := fun hwaiting => by
    obtain ⟨place, -, hplace⟩ := List.mem_map.mp hwaiting
    cases place <;> cases hplace
  have hrunning : (pool.threads.map WorkerThread.notified).filterMap WorkerThread.task? = pool.running := by
    simp only [List.filterMap_map, running, Function.comp_def, htask]
  refine ⟨h.fifo, ?_, h.bounded, fun hwaiting => absurd hwaiting hnone, fun hwaiting => absurd hwaiting hnone,
    fun hreturned => ?_⟩
  · change pool.taken.Perm (pool.finished ++ (pool.threads.map WorkerThread.notified).filterMap WorkerThread.task?)
    rw [hrunning]
    exact h.once
  · obtain ⟨place, hplace, hnotified⟩ := List.mem_map.mp hreturned
    cases place with
    | returned => exact h.drained hplace
    | awake => cases hnotified
    | waiting => cases hnotified
    | running task => cases hnotified

/-- **What every step keeps.** -/
theorem step (h : pool.Orderly) {event : WorkerEvent α} (hstep : pool.step event = some next) : next.Orderly := by
  cases step_move hstep with
  | rejected hfull => exact h
  | accepted hopen hroom =>
      refine ⟨?_, h.once, ?_, fun hwaiting => ?_, fun _ hstopping => ?_, fun hreturned => ?_⟩
      · simp only [h.fifo, List.append_assoc]
      · simp only [List.length_append, List.length_singleton]
        exact hroom
      · simp only [List.length_append, List.length_singleton]
        exact Nat.succ_le_succ (h.noticed hwaiting)
      · exact absurd (hopen.symm.trans hstopping) Bool.false_ne_true
      · exact absurd (hopen.symm.trans (h.drained hreturned).1) Bool.false_ne_true
  | stopped hstopping => exact h
  | stop hopen => exact ⟨h.fifo, h.once, h.bounded, h.noticed, fun _ _ => rfl, fun hreturned =>
      absurd (hopen.symm.trans (h.drained hreturned).1) Bool.false_ne_true⟩
  | notifyOne hcalls hplace => exact h.wake hplace hcalls.le
  | notifyNone hcalls hnone =>
      exact ⟨h.fifo, h.once, h.bounded, fun hwaiting => absurd hwaiting hnone, h.released, h.drained⟩
  | notifyAll hcall => exact h.notifyAll
  | wake hplace => exact h.wake hplace (Nat.le_succ _)
  | block hplace htasks hopen => exact h.block hplace htasks hopen
  | leave hplace htasks hstopping => exact h.leave hplace htasks hstopping
  | take hplace htasks => exact h.take hplace htasks
  | finish hplace => exact h.finish hplace

end Orderly

/-- The states a pool reaches. -/
def Reached (threadCount maxQueueSize : Nat) (pool : WorkerThreads α) : Prop :=
  Steps.Reaches step (create threadCount maxQueueSize) pool

theorem Reached.orderly {threadCount maxQueueSize : Nat} {pool : WorkerThreads α}
    (h : Reached threadCount maxQueueSize pool) : pool.Orderly :=
  Steps.Reaches.keeps (fun hkept hstep => Orderly.step hkept hstep) h (.create _ _)

/-- The number of threads and the bound of the queue stay what they were. -/
theorem Reached.shape {threadCount maxQueueSize : Nat} {pool : WorkerThreads α}
    (h : Reached threadCount maxQueueSize pool) :
    pool.threads.length = max 1 threadCount ∧ pool.maxQueueSize = max 1 maxQueueSize := by
  have hstep : ∀ {pool : WorkerThreads α} {event : WorkerEvent α} {next : WorkerThreads α},
      pool.threads.length = max 1 threadCount ∧ pool.maxQueueSize = max 1 maxQueueSize →
      pool.step event = some next →
      next.threads.length = max 1 threadCount ∧ next.maxQueueSize = max 1 maxQueueSize := by
    intro pool event next hkept hstep
    cases step_move hstep <;> simpa [setThread] using hkept
  exact Steps.Reaches.keeps hstep h ⟨List.length_replicate, rfl⟩

/-- **First in, first out.** Every accepted task is taken once, in the order in which the tasks were accepted, by a
thread that runs it to its end; what has not been taken is in the queue, which stays within its bound. -/
theorem tasks_in_order {threadCount maxQueueSize : Nat} {pool : WorkerThreads α}
    (h : Reached threadCount maxQueueSize pool) :
    pool.taken ++ pool.tasks = pool.accepted ∧ pool.taken.Perm (pool.finished ++ pool.running) ∧
      pool.tasks.length ≤ max 1 maxQueueSize ∧ pool.running.length ≤ max 1 threadCount := by
  have horderly := h.orderly
  refine ⟨horderly.fifo.symm, horderly.once, h.shape.2 ▸ horderly.bounded, ?_⟩
  rw [← h.shape.1]
  exact List.length_filterMap_le _ _

/-- One thread and two tasks, the second of which waits while the first is running. -/
def twoTasks : List (WorkerEvent Nat) :=
  [.look 0, .submit 7, .submit 8, .notifyOne 0, .look 0]

/-- The thread runs them, and the pool is stopped meanwhile. -/
def lastTasks : List (WorkerEvent Nat) :=
  [.submit 9, .finish 0, .look 0, .notifyNone, .finish 0, .notifyAll, .look 0]

/-- The pool while the first task is running. -/
def busyPool : WorkerThreads Nat :=
  { create 1 2 with
    threads := [.running 7], tasks := [8], notifyOne := 1, accepted := [7, 8], taken := [7] }

theorem reached_busyPool : Reached 1 2 busyPool := ⟨twoTasks, by decide⟩

theorem tasks_in_order_busyPool :
    [7] ++ [8] = busyPool.accepted ∧ [7].Perm ([] ++ busyPool.running) ∧ busyPool.tasks.length ≤ max 1 2 ∧
      busyPool.running.length ≤ max 1 1 :=
  tasks_in_order reached_busyPool

/-! ### No lost notifications -/

/-- Unless it is awake, a thread that neither waits nor has returned runs a task. -/
theorem eq_running {place : WorkerThread α} (hawake : place.isAwake = false) (hwaiting : place ≠ .waiting)
    (hreturned : place ≠ .returned) : ∃ task, place = .running task := by
  cases place with
  | awake => cases hawake
  | waiting => exact absurd rfl hwaiting
  | running task => exact ⟨task, rfl⟩
  | returned => exact absurd rfl hreturned

/-- **No task is overlooked.** While some thread is blocked, there are at least as many threads on their way and calls
of `notify_one` to come as there are tasks in the queue. When no thread is on its way and no call is to come, the queue
is empty or every thread is busy. -/
theorem no_task_overlooked {threadCount maxQueueSize : Nat} {pool : WorkerThreads α}
    (h : Reached threadCount maxQueueSize pool) :
    (.waiting ∈ pool.threads → pool.tasks.length ≤ pool.awake + pool.notifyOne) ∧
      (pool.awake + pool.notifyOne = 0 →
        pool.tasks = [] ∨ ∀ place ∈ pool.threads, ∃ task, place = .running task) := by
  have horderly := h.orderly
  refine ⟨horderly.noticed, fun hquiet => ?_⟩
  by_cases htasks : pool.tasks = []
  · exact .inl htasks
  · refine .inr fun place hplace => eq_running ?_ ?_ ?_
    · have hnone : pool.threads.countP WorkerThread.isAwake = 0 := by
        change pool.awake = 0
        omega
      exact Bool.eq_false_of_not_eq_true (List.countP_eq_zero.mp hnone place hplace)
    · rintro rfl
      have hlength := horderly.noticed hplace
      exact htasks (List.length_eq_zero_iff.mp (by omega))
    · rintro rfl
      exact htasks (horderly.drained hplace).2

/-- Two threads, one of which is blocked while the call for the second task is to come. -/
def callingPool : WorkerThreads Nat :=
  { create 2 2 with
    threads := [.running 7, .waiting], tasks := [8], notifyOne := 1, accepted := [7, 8], taken := [7] }

theorem reached_callingPool : Reached 2 2 callingPool :=
  ⟨[.look 0, .look 1, .submit 7, .notifyOne 0, .look 0, .submit 8], by decide⟩

/-- The only thread is busy, and the call for the second task has found no one. -/
def calledPool : WorkerThreads Nat := { busyPool with notifyOne := 0 }

theorem reached_calledPool : Reached 1 2 calledPool := reached_busyPool.trans (Steps.Reaches.single .notifyNone rfl)

/-- The second task waits for a thread that will be called, or for one that is busy. -/
theorem no_task_overlooked_busyPool :
    (.waiting ∈ callingPool.threads ∧ callingPool.tasks.length ≤ callingPool.awake + callingPool.notifyOne) ∧
      calledPool.awake + calledPool.notifyOne = 0 ∧
        (calledPool.tasks = [] ∨ ∀ place ∈ calledPool.threads, ∃ task, place = .running task) :=
  ⟨⟨by decide, (no_task_overlooked reached_callingPool).1 (by decide)⟩, by decide,
    (no_task_overlooked reached_calledPool).2 (by decide)⟩

/-! ### Stopping -/

section Stop

variable {pool next : WorkerThreads α}

theorem setThread_size {thread : Nat} {old : WorkerThread α} (hplace : pool.threads[thread]? = some old)
    (new : WorkerThread α) : (pool.setThread thread new).size + old.size = pool.size + new.size := by
  have hsum := Slots.sum_set WorkerThread.size hplace new
  simp only [size, setThread] at hsum ⊢
  omega

theorem notified_size_le (threads : List (WorkerThread α)) :
    ((threads.map WorkerThread.notified).map WorkerThread.size).sum ≤ (threads.map WorkerThread.size).sum := by
  rw [List.map_map]
  refine List.sum_le_sum fun place _ => ?_
  cases place <;> simp [WorkerThread.notified, WorkerThread.size]

/-- A stopped pool stays stopped and accepts nothing, and each step of its threads brings it nearer to its end. -/
theorem step_stopped {event : WorkerEvent α} {accepted : List α}
    (h : pool.Orderly ∧ pool.stopping = true ∧ pool.accepted = accepted) (hstep : pool.step event = some next) :
    (next.Orderly ∧ next.stopping = true ∧ next.accepted = accepted) ∧
      next.size + (if WorkerEvent.own event = true then 1 else 0) ≤ pool.size + 0 := by
  obtain ⟨horderly, hstopping, haccepted⟩ := h
  refine ⟨⟨horderly.step hstep, ?_⟩, ?_⟩
  · cases step_move hstep with
    | accepted hopen hroom => exact absurd (hopen.symm.trans hstopping) Bool.false_ne_true
    | stop hopen => exact absurd (hopen.symm.trans hstopping) Bool.false_ne_true
    | rejected hfull => exact ⟨hstopping, haccepted⟩
    | stopped hstopped => exact ⟨hstopping, haccepted⟩
    | notifyOne hcalls hplace => exact ⟨hstopping, haccepted⟩
    | notifyNone hcalls hnone => exact ⟨hstopping, haccepted⟩
    | notifyAll hcall => exact ⟨hstopping, haccepted⟩
    | wake hplace => exact ⟨hstopping, haccepted⟩
    | block hplace htasks hopen => exact ⟨hstopping, haccepted⟩
    | leave hplace htasks hstopped => exact ⟨hstopping, haccepted⟩
    | take hplace htasks => exact ⟨hstopping, haccepted⟩
    | finish hplace => exact ⟨hstopping, haccepted⟩
  · cases step_move hstep with
    | accepted hopen hroom => exact absurd (hopen.symm.trans hstopping) Bool.false_ne_true
    | stop hopen => exact absurd (hopen.symm.trans hstopping) Bool.false_ne_true
    | block hplace htasks hopen => exact absurd (hopen.symm.trans hstopping) Bool.false_ne_true
    | rejected hfull => exact le_refl pool.size
    | stopped hstopped => exact le_refl pool.size
    | notifyOne hcalls hplace =>
        have hsize := setThread_size hplace .awake
        simp only [size, setThread, WorkerThread.size, WorkerEvent.own, hcalls] at hsize ⊢
        simp only [if_true]
        omega
    | notifyNone hcalls hnone =>
        simp only [size, WorkerEvent.own, hcalls, if_true]
        omega
    | notifyAll hcall =>
        have hthreads := notified_size_le pool.threads
        simp only [size, WorkerEvent.own, hcall, if_true, Bool.toNat_false, Bool.toNat_true]
        omega
    | wake hplace =>
        have hsize := setThread_size hplace .awake
        simp only [WorkerThread.size] at hsize
        simp only [WorkerEvent.own, if_true]
        omega
    | leave hplace htasks hstopped =>
        have hsize := setThread_size hplace .returned
        simp only [WorkerThread.size] at hsize
        simp only [WorkerEvent.own, if_true]
        omega
    | @take thread task rest hplace htasks =>
        have hsize := setThread_size hplace (.running task)
        simp only [size, setThread, WorkerThread.size, WorkerEvent.own, if_true, htasks, List.length_cons] at hsize ⊢
        omega
    | finish hplace =>
        have hsize := setThread_size hplace .awake
        simp only [size, setThread, WorkerThread.size, WorkerEvent.own, if_true] at hsize ⊢
        omega

/-- A pool whose threads have all returned has run everything it accepted. -/
theorem Orderly.drained_all (h : pool.Orderly) (hthreads : pool.threads ≠ [])
    (hreturned : ∀ place ∈ pool.threads, place = .returned) :
    pool.tasks = [] ∧ pool.finished.Perm pool.accepted := by
  obtain ⟨place, rest, hcons⟩ := List.exists_cons_of_ne_nil hthreads
  have hmem : place ∈ pool.threads := hcons ▸ List.mem_cons_self
  have htasks := (h.drained (hreturned place hmem ▸ hmem)).2
  have hrunning : pool.running = [] := List.filterMap_eq_nil_iff.mpr fun place hplace => by
    rw [hreturned place hplace]
    rfl
  have honce := h.once
  rw [hrunning, List.append_nil] at honce
  refine ⟨htasks, ?_⟩
  rw [h.fifo, htasks, List.append_nil]
  exact honce.symm

/-- On a stopped pool, threads that can do nothing more have returned: none is left blocked. -/
theorem Orderly.all_returned (h : pool.Orderly) (hstopping : pool.stopping = true)
    (hends : Steps.Ends WorkerThreads.step (fun event => WorkerEvent.certain event = true) pool) :
    ∀ place ∈ pool.threads, place = .returned := by
  intro place hplace
  obtain ⟨thread, hthread⟩ := List.mem_iff_getElem?.mp hplace
  cases place with
  | awake =>
      have hlook := hends (.look thread) rfl
      simp [WorkerThreads.step, hthread] at hlook
  | waiting =>
      have hcall := h.released hplace hstopping
      have hnotify := hends .notifyAll rfl
      simp [WorkerThreads.step, hcall] at hnotify
  | running task =>
      have hfinish := hends (.finish thread) rfl
      simp [WorkerThreads.step, hthread] at hfinish
  | returned => rfl

theorem Reached.threads_ne_nil {threadCount maxQueueSize : Nat} (h : Reached threadCount maxQueueSize pool) :
    pool.threads ≠ [] := by
  rintro hnone
  have hlength := h.shape.1
  rw [hnone, List.length_nil] at hlength
  omega

/-- **`Stop` drains the pool.** Once it has been called, the threads make a bounded number of steps, whatever else is
submitted; nothing more is accepted, and they can always go on without waking up by themselves, until they have all
returned after every accepted task has been run to its end. -/
theorem stop_drains {threadCount maxQueueSize : Nat} (h : Reached threadCount maxQueueSize pool)
    (hstopping : pool.stopping = true) {events : List (WorkerEvent α)} {later : WorkerThreads α}
    (hrun : Steps.run step pool events = some later) :
    events.countP WorkerEvent.own ≤ pool.size ∧ later.accepted = pool.accepted ∧
      (Steps.Ends step (fun event => WorkerEvent.certain event = true) later →
        (∀ place ∈ later.threads, place = .returned) ∧ later.tasks = [] ∧ later.finished.Perm pool.accepted) := by
  obtain ⟨⟨horderly, hstopped, haccepted⟩, hbound⟩ := @Steps.run_bounded _ _ step _ WorkerEvent.own
    (fun _ => 0) size (fun hkept hstep => step_stopped hkept hstep) _ _ _ hrun ⟨h.orderly, hstopping, rfl⟩
  rw [List.map_const', List.sum_replicate, smul_zero] at hbound
  refine ⟨by omega, haccepted, fun hends => ?_⟩
  have hreturned := horderly.all_returned hstopped hends
  obtain ⟨htasks, hfinished⟩ :=
    horderly.drained_all (Reached.threads_ne_nil (h.trans ⟨events, hrun⟩)) hreturned
  exact ⟨hreturned, htasks, haccepted ▸ hfinished⟩

/-- The pool is stopped while a task waits; it is run before the thread returns. -/
theorem stop_drains_busyPool :
    ∃ later, Steps.run step busyPool.stop lastTasks = some later ∧ lastTasks.countP WorkerEvent.own ≤ busyPool.stop.size ∧
      later.threads = [.returned] ∧ later.tasks = [] ∧ later.finished.Perm [7, 8] := by
  obtain ⟨later, hrun⟩ := Option.isSome_iff_exists.mp
    (by decide : (Steps.run step busyPool.stop lastTasks).isSome = true)
  have hthreads : (Steps.run step busyPool.stop lastTasks).map (fun later =>
      (later.threads, later.notifyOne, later.notifyAll)) = some ([.returned], 0, false) := by decide
  rw [hrun, Option.map_some] at hthreads
  obtain ⟨hreturned, hone, hall⟩ : later.threads = [.returned] ∧ later.notifyOne = 0 ∧ later.notifyAll = false := by
    simpa using hthreads
  have hreach : Reached 1 2 busyPool.stop :=
    reached_busyPool.trans (Steps.Reaches.single .stop rfl)
  obtain ⟨hbound, -, hended⟩ := stop_drains hreach rfl hrun
  have hends : Steps.Ends step (fun event => WorkerEvent.certain event = true) later := by
    have hnone : ∀ {thread : Nat} {place : WorkerThread Nat}, later.threads[thread]? = some place → place = .returned := by
      intro thread place hplace
      rw [hreturned] at hplace
      exact List.mem_singleton.mp (List.mem_of_getElem? hplace)
    intro event hown
    cases hnext : later.step event with
    | none => rfl
    | some next =>
        cases step_move hnext with
        | rejected hfull => cases hown
        | accepted hopen hroom => cases hown
        | stopped hstopping => cases hown
        | stop hopen => cases hown
        | notifyOne hcalls hplace => cases hnone hplace
        | notifyNone hcalls hwaiting => cases hone.symm.trans hcalls
        | notifyAll hcall => cases hall.symm.trans hcall
        | wake hplace => cases hown
        | block hplace htasks hopen => cases hnone hplace
        | leave hplace htasks hstopping => cases hnone hplace
        | take hplace htasks => cases hnone hplace
        | finish hplace => cases hnone hplace
  obtain ⟨-, htasks, hfinished⟩ := hended hends
  exact ⟨later, hrun, hbound, hreturned, htasks, hfinished⟩

end Stop

end WorkerThreads

/-! ### The pool of the server -/

/-- What happens to the pool as the connections and the server see it. -/
inductive PoolMove where
  | submit (task : WorkerTask)
  | take
  | finish (position : Nat)
  | stop

def WorkerPool.move (pool : WorkerPool) : PoolMove → Option WorkerPool
  | .submit task => some ((pool.submit task).getD pool)
  | .take => pool.take
  | .finish position =>
      if position < pool.running.length then some { pool with running := pool.running.eraseIdx position } else none
  | .stop => some { pool with stopping := true }

namespace WorkerThreads

/-- The pool without its threads. The order of the running tasks is lost. -/
structure Refines (pool : WorkerThreads WorkerTask) (seen : WorkerPool) : Prop where
  threads : seen.threads = pool.threads.length
  bound : seen.maxQueueSize = pool.maxQueueSize
  tasks : seen.tasks = pool.tasks
  running : seen.running.Perm pool.running
  stopping : seen.stopping = pool.stopping

namespace Refines

variable {pool next : WorkerThreads WorkerTask} {seen : WorkerPool}

/-- `Submit` has the same result and the same effect. -/
theorem submit (h : pool.Refines seen) (task : WorkerTask) :
    (pool.submit task).1 = (seen.submit task).isSome ∧ (pool.submit task).2.Refines ((seen.submit task).getD seen) := by
  unfold WorkerThreads.submit WorkerPool.submit
  rw [h.stopping, h.bound, h.tasks]
  split
  · exact ⟨rfl, h⟩
  · exact ⟨rfl, h.threads, rfl, rfl, h.running, rfl⟩

/-- A thread goes from one place without a task to another. -/
theorem pass (h : pool.Refines seen) {thread : Nat} {old new : WorkerThread WorkerTask}
    (hplace : pool.threads[thread]? = some old) (hold : old.task? = none) (hnew : new.task? = none) :
    (pool.setThread thread new).Refines seen := by
  obtain ⟨others, hbefore, hmoved⟩ := Slots.exists_rest hplace
  have hafter : (pool.setThread thread new).threads.Perm (new :: others) := hmoved new
  refine ⟨by rw [h.threads, setThread, List.length_set], h.bound, h.tasks, h.running.trans ?_, h.stopping⟩
  have hperm := running_perm hbefore
  rw [hold, ← hnew] at hperm
  exact hperm.trans (running_perm hafter).symm

/-- A thread on its way to the mutex is free to take a task. -/
theorem take (h : pool.Refines seen) {thread : Nat} {task : WorkerTask} {rest : List WorkerTask}
    (hplace : pool.threads[thread]? = some .awake) (htasks : pool.tasks = task :: rest) :
    ∃ after, seen.take = some after ∧
      ({ pool with tasks := rest, taken := pool.taken ++ [task] }.setThread thread (.running task)).Refines after := by
  obtain ⟨others, hbefore, hmoved⟩ := Slots.exists_rest hplace
  have hafter : ({ pool with tasks := rest, taken := pool.taken ++ [task] }.setThread thread
      (.running task)).threads.Perm (.running task :: others) := hmoved _
  have hfree : seen.running.length < seen.threads := by
    have hrunning := (h.running.trans (running_perm hbefore)).length_eq
    have hlength := hbefore.length_eq
    have hothers := List.length_filterMap_le WorkerThread.task? others
    rw [h.threads, hlength, hrunning, List.length_cons]
    simp only [WorkerThread.task?, Option.toList_none, List.nil_append]
    omega
  refine ⟨{ seen with tasks := rest, running := seen.running ++ [task] }, ?_, ?_⟩
  · rw [WorkerPool.take, h.tasks, htasks]
    exact if_pos hfree
  · refine ⟨by rw [h.threads, setThread, List.length_set], h.bound, rfl, ?_, h.stopping⟩
    have hrunning := (h.running.trans (running_perm hbefore)).append_right [task]
    exact hrunning.trans (List.perm_append_comm.trans (running_perm hafter).symm)

theorem finish (h : pool.Refines seen) {thread : Nat} {task : WorkerTask}
    (hplace : pool.threads[thread]? = some (.running task)) :
    ∃ position after, seen.running[position]? = some task ∧ seen.move (.finish position) = some after ∧
      Refines { pool.setThread thread .awake with finished := pool.finished ++ [task] } after := by
  obtain ⟨others, hbefore, hmoved⟩ := Slots.exists_rest hplace
  have hafter : ({ pool.setThread thread .awake with finished := pool.finished ++ [task] } :
      WorkerThreads WorkerTask).threads.Perm (.awake :: others) := hmoved _
  have hperm := h.running.trans (running_perm hbefore)
  have hmem : task ∈ seen.running := hperm.mem_iff.mpr (List.mem_append_left _ (List.mem_singleton_self task))
  obtain ⟨position, hposition⟩ := List.mem_iff_getElem?.mp hmem
  obtain ⟨hlt, heq⟩ := List.getElem?_eq_some_iff.mp hposition
  refine ⟨position, _, hposition, if_pos hlt,
    ⟨by rw [h.threads, setThread, List.length_set], h.bound, h.tasks, ?_, h.stopping⟩⟩
  have hcons : (task :: seen.running.eraseIdx position).Perm (task :: others.filterMap WorkerThread.task?) :=
    (heq ▸ List.getElem_cons_eraseIdx_perm hlt).trans hperm
  exact hcons.cons_inv.trans (running_perm hafter).symm

/-- Each step of the threads is one of the pool as it is seen, or nothing. -/
theorem step (h : pool.Refines seen) {event : WorkerEvent WorkerTask} (hstep : pool.step event = some next) :
    ∃ after, Steps.Reaches WorkerPool.move seen after ∧ next.Refines after := by
  cases step_move hstep with
  | rejected hfull => exact ⟨seen, .refl seen, h⟩
  | @accepted task hopen hroom =>
      have hsubmit := (h.submit task).2
      rw [WorkerThreads.submit, if_neg (not_or.mpr ⟨by simp [hopen], not_le.mpr hroom⟩)] at hsubmit
      exact ⟨_, .single (.submit task) rfl, hsubmit⟩
  | stopped hstopping => exact ⟨seen, .refl seen, h⟩
  | stop hopen => exact ⟨_, .single .stop rfl, h.threads, h.bound, h.tasks, h.running, rfl⟩
  | notifyOne hcalls hplace =>
      have hpass := h.pass hplace rfl (show WorkerThread.awake.task? = none from rfl)
      exact ⟨seen, .refl seen, hpass.threads, hpass.bound, hpass.tasks, hpass.running, hpass.stopping⟩
  | notifyNone hcalls hnone => exact ⟨seen, .refl seen, h.threads, h.bound, h.tasks, h.running, h.stopping⟩
  | notifyAll hcall =>
      refine ⟨seen, .refl seen, by rw [h.threads, List.length_map], h.bound, h.tasks, h.running.trans (.of_eq ?_),
        h.stopping⟩
      have htask : ∀ place : WorkerThread WorkerTask, place.notified.task? = place.task? := fun place => by
        cases place <;> rfl
      simp only [WorkerThreads.running, List.filterMap_map, Function.comp_def, htask]
  | wake hplace => exact ⟨seen, .refl seen, h.pass hplace rfl rfl⟩
  | block hplace htasks hopen => exact ⟨seen, .refl seen, h.pass hplace rfl rfl⟩
  | leave hplace htasks hstopping => exact ⟨seen, .refl seen, h.pass hplace rfl rfl⟩
  | take hplace htasks =>
      obtain ⟨after, htake, hafter⟩ := h.take hplace htasks
      exact ⟨after, .single .take htake, hafter⟩
  | finish hplace =>
      obtain ⟨position, after, -, hmove, hafter⟩ := h.finish hplace
      exact ⟨after, .single _ hmove, hafter⟩

end Refines

/-- **The threads refine the pool.** Whatever the threads, their notifications and the callers do, the server sees a
state that its pool reaches, and `Submit` has the result that the pool gives. -/
theorem threads_refine_pool {threadCount maxQueueSize : Nat} {pool : WorkerThreads WorkerTask}
    (h : Reached threadCount maxQueueSize pool) :
    ∃ seen, Steps.Reaches WorkerPool.move (WorkerPool.create threadCount maxQueueSize) seen ∧ pool.Refines seen ∧
      ∀ task, (pool.submit task).1 = (seen.submit task).isSome := by
  have hcreate : (WorkerThreads.create threadCount maxQueueSize).Refines (WorkerPool.create threadCount maxQueueSize) := by
    refine ⟨List.length_replicate.symm, rfl, rfl, .of_eq ?_, rfl⟩
    exact (List.filterMap_eq_nil_iff.mpr fun place hplace => by rw [List.eq_of_mem_replicate hplace]; rfl).symm
  obtain ⟨seen, hseen, hrefines⟩ := Steps.Reaches.simulated (fun hrelated hstep => Refines.step hrelated hstep) h hcreate
  exact ⟨seen, hseen, hrefines, fun task => (hrefines.submit task).1⟩

/-- A request is submitted and taken. -/
theorem threads_refine_pool_heartbeat :
    ∃ (pool : WorkerThreads WorkerTask) (seen : WorkerPool),
      Steps.run WorkerThreads.step (create 1 1) [.submit ⟨0, sampleHeartbeat⟩, .look 0] = some pool ∧
      Steps.Reaches WorkerPool.move (WorkerPool.create 1 1) seen ∧ pool.Refines seen ∧
      ∀ task, (pool.submit task).1 = (seen.submit task).isSome := by
  obtain ⟨pool, hrun⟩ : ∃ pool : WorkerThreads WorkerTask, Steps.run WorkerThreads.step (create 1 1)
      [.submit ⟨0, sampleHeartbeat⟩, .look 0] = some pool := ⟨_, rfl⟩
  obtain ⟨seen, hseen⟩ := @threads_refine_pool 1 1 pool ⟨_, hrun⟩
  exact ⟨pool, seen, hrun, hseen⟩

end WorkerThreads

end LogMq
