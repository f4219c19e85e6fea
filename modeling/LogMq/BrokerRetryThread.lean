import LogMq.BrokerSchedulerRuns
import LogMq.LibSteps

/-! The thread of the retry scheduler. It holds the mutex while it looks for tasks that are due and decides how long it
waits, so nothing is scheduled in between. The wall clock, which the tasks are compared with, may be set at any time;
the time of a wait is measured by a steady clock. -/

namespace LogMq

/-- Where the thread is: on its way to the mutex, between its look at the tasks and its wait, blocked, blocked up to a
time, or at its end. -/
inductive RetryThread where
  | awake
  | looked
  | waiting
  | sleeping (deadline : Nat)
  | returned
  deriving DecidableEq

namespace RetryThread

/-- A blocked thread goes for the mutex again. -/
def notified : RetryThread → RetryThread
  | .waiting => .awake
  | .sleeping _ => .awake
  | place => place

/-- The steps that are left, once the thread is to stop. -/
def size : RetryThread → Nat
  | .awake => 1
  | .looked => 3
  | .waiting => 2
  | .sleeping _ => 2
  | .returned => 0

def Blocked : RetryThread → Prop
  | .waiting => True
  | .sleeping _ => True
  | _ => False

end RetryThread

/-- `RetryScheduler` with its thread, the calls of `notify_all` that `Close` still makes, and both clocks in milliseconds.
The last two fields are the history: whether the wall clock was set since the thread has gone to sleep, and the steps of
the scheduler. -/
structure RetryLoop where
  scheduler : RetryScheduler
  clock : UInt64
  steady : Nat := 0
  stopped : Bool := false
  place : RetryThread := .awake
  notifyAll : Nat := 0
  adjusted : Bool := false
  events : List SchedulerEvent := []

/-- What the callers, the thread, the condition variable and the clocks do. -/
inductive RetryLoopEvent where
  | schedule (task : RetryTask)
  | close
  | notifyAll
  | wake
  | timeout
  | look
  | block
  | pass (elapsed : Nat)
  | adjust (clock : UInt64)

namespace RetryLoopEvent

/-- The steps of the thread, and the notifications on their way. -/
def own : RetryLoopEvent → Bool
  | .notifyAll | .wake | .timeout | .look | .block => true
  | _ => false

/-- Those that do not wait for the thread to wake up by itself. -/
def certain : RetryLoopEvent → Bool
  | .notifyAll | .timeout | .look | .block => true
  | _ => false

def cost : RetryLoopEvent → Nat
  | .close => 1
  | _ => 0

end RetryLoopEvent

namespace RetryLoop

variable (queue : TaskQueue)

/-- The milliseconds until a task is due. -/
def delay (clock time : UInt64) : Nat := if clock < time then (time - clock).toNat else 0

/-- The longest sleep: the clock is read again at least once per second. -/
def maxSleep : Nat := 1000

/-- The end of a turn of `Run`: without tasks the thread waits for a notification. A thread that is notified and finds
none waits on, which is a turn that changes nothing. -/
def blocked (loop : RetryLoop) : RetryThread :=
  match queue.pop loop.scheduler.tasks with
  | none => .waiting
  | some (task, _) => .sleeping (loop.steady + min (delay loop.clock task.time) maxSleep)

/-- One step, if it is possible. The mutex is held from `look` to `block`. -/
def step (loop : RetryLoop) : RetryLoopEvent → Option RetryLoop
  | .schedule task =>
      if loop.place = .looked then none
      else some { loop with
        scheduler := RetryScheduler.schedule queue loop.clock loop.scheduler task
        place := loop.place.notified
        events := loop.events ++ [.schedule loop.clock task] }
  | .close =>
      if loop.place = .looked then none else some { loop with stopped := true, notifyAll := loop.notifyAll + 1 }
  | .notifyAll =>
      match loop.notifyAll with
      | calls + 1 => some { loop with notifyAll := calls, place := loop.place.notified }
      | 0 => none
  | .wake =>
      match loop.place with
      | .waiting => some { loop with place := .awake }
      | .sleeping _ => some { loop with place := .awake }
      | _ => none
  | .timeout =>
      match loop.place with
      | .sleeping deadline => if deadline ≤ loop.steady then some { loop with place := .awake } else none
      | _ => none
  | .look =>
      match loop.place with
      | .awake =>
          if loop.stopped = true then some { loop with place := .returned }
          else some { loop with
            scheduler := RetryScheduler.makeDueVisible queue loop.clock loop.scheduler
            place := .looked
            events := loop.events ++ [.makeDueVisible loop.clock] }
      | _ => none
  | .block =>
      match loop.place with
      | .looked => some { loop with place := loop.blocked queue, adjusted := false }
      | _ => none
  | .pass elapsed =>
      if loop.clock.toNat + elapsed < 2 ^ 64 then
        some { loop with clock := loop.clock + UInt64.ofNat elapsed, steady := loop.steady + elapsed }
      else none
  | .adjust clock => some { loop with clock := clock, adjusted := true }

/-- The steps that are left, once the thread is to stop. -/
def size (loop : RetryLoop) : Nat := loop.place.size + loop.notifyAll

/-- The states that the scheduler reaches after its thread was started. -/
def Reached (first : RetryScheduler) (clock : UInt64) (loop : RetryLoop) : Prop :=
  Steps.Reaches (step queue) ⟨first, clock, 0, false, .awake, 0, false, []⟩ loop

/-! ### What a step does -/

section Steps

variable {queue} {loop next : RetryLoop}

/-- The ways a step can go. -/
inductive Move (queue : TaskQueue) (loop : RetryLoop) : RetryLoopEvent → RetryLoop → Prop
  | schedule {task : RetryTask} (hfree : loop.place ≠ .looked) : Move queue loop (.schedule task) { loop with
      scheduler := RetryScheduler.schedule queue loop.clock loop.scheduler task
      place := loop.place.notified
      events := loop.events ++ [.schedule loop.clock task] }
  | close (hfree : loop.place ≠ .looked) :
      Move queue loop .close { loop with stopped := true, notifyAll := loop.notifyAll + 1 }
  | notifyAll {calls : Nat} (hcalls : loop.notifyAll = calls + 1) :
      Move queue loop .notifyAll { loop with notifyAll := calls, place := loop.place.notified }
  | wake (hblocked : loop.place.Blocked) : Move queue loop .wake { loop with place := .awake }
  | timeout {deadline : Nat} (hplace : loop.place = .sleeping deadline) (hdue : deadline ≤ loop.steady) :
      Move queue loop .timeout { loop with place := .awake }
  | leave (hplace : loop.place = .awake) (hstopped : loop.stopped = true) :
      Move queue loop .look { loop with place := .returned }
  | look (hplace : loop.place = .awake) (hopen : loop.stopped = false) : Move queue loop .look { loop with
      scheduler := RetryScheduler.makeDueVisible queue loop.clock loop.scheduler
      place := .looked
      events := loop.events ++ [.makeDueVisible loop.clock] }
  | block (hplace : loop.place = .looked) :
      Move queue loop .block { loop with place := loop.blocked queue, adjusted := false }
  | pass {elapsed : Nat} (hrange : loop.clock.toNat + elapsed < 2 ^ 64) : Move queue loop (.pass elapsed)
      { loop with clock := loop.clock + UInt64.ofNat elapsed, steady := loop.steady + elapsed }
  | adjust {clock : UInt64} : Move queue loop (.adjust clock) { loop with clock := clock, adjusted := true }

theorem step_move {event : RetryLoopEvent} (h : loop.step queue event = some next) : Move queue loop event next := by
  cases event with
  | schedule task =>
      simp only [step] at h
      split at h
      · cases h
      · cases h
        exact .schedule ‹_›
  | close =>
      simp only [step] at h
      split at h
      · cases h
      · cases h
        exact .close ‹_›
  | notifyAll =>
      simp only [step] at h
      split at h
      · cases h
        exact .notifyAll ‹_›
      · cases h
  | wake =>
      simp only [step] at h
      split at h
      · rename_i hplace
        cases h
        exact .wake (by rw [hplace]; trivial)
      · rename_i hplace
        cases h
        exact .wake (by rw [hplace]; trivial)
      · cases h
  | timeout =>
      simp only [step] at h
      split at h
      · split at h
        · cases h
          exact .timeout ‹_› ‹_›
        · cases h
      · cases h
  | look =>
      simp only [step] at h
      split at h
      · split at h
        · cases h
          exact .leave ‹_› ‹_›
        · cases h
          exact .look ‹_› (Bool.eq_false_of_not_eq_true ‹_›)
      · cases h
  | block =>
      simp only [step] at h
      split at h
      · cases h
        exact .block ‹_›
      · cases h
  | pass elapsed =>
      simp only [step] at h
      split at h
      · cases h
        exact .pass ‹_›
      · cases h
  | adjust clock =>
      cases h
      exact .adjust

/-- A thread that is to stop is not told otherwise. -/
theorem stopped_stays {event : RetryLoopEvent} (h : loop.step queue event = some next) (hstopped : loop.stopped = true) :
    next.stopped = true := by
  cases step_move h with
  | close => rfl
  | _ => exact hstopped

/-- A thread that has returned is gone. -/
theorem returned_stays {event : RetryLoopEvent} (h : loop.step queue event = some next)
    (hreturned : loop.place = .returned) : next.place = .returned := by
  have hnotified : loop.place.notified = .returned := by
    rw [hreturned]
    rfl
  cases step_move h with
  | schedule => exact hnotified
  | close => exact hreturned
  | notifyAll => exact hnotified
  | leave => rfl
  | pass => exact hreturned
  | adjust => exact hreturned
  | wake hblocked =>
      rw [hreturned] at hblocked
      exact hblocked.elim
  | timeout hplace => cases hreturned.symm.trans hplace
  | look hplace => cases hreturned.symm.trans hplace
  | block hplace => cases hreturned.symm.trans hplace

end Steps

/-! ### What every step keeps -/

/-- A thread that waits has no tasks, and one that sleeps is not too late for any of them, unless the clock was set in
the meantime; then it looks again within a second. No thread is blocked once it is to stop, up to a call of
`notify_all`. -/
structure Orderly (first : RetryScheduler) (loop : RetryLoop) : Prop where
  trace : loop.scheduler = loop.events.foldl (RetryScheduler.step queue) first
  idle : loop.place = .waiting → loop.scheduler.tasks = []
  brief : ∀ deadline, loop.place = .sleeping deadline → deadline ≤ loop.steady + maxSleep
  prompt : ∀ deadline, loop.place = .sleeping deadline → loop.adjusted = false → ∀ task ∈ loop.scheduler.tasks,
    deadline ≤ loop.steady + (task.time.toNat - loop.clock.toNat)
  looking : loop.place = .looked → loop.stopped = false
  released : loop.place.Blocked → loop.stopped = true → 0 < loop.notifyAll
  ended : loop.place = .returned → loop.stopped = true

section Orderly

variable {queue} {first : RetryScheduler} {loop next : RetryLoop}

theorem delay_le (clock time : UInt64) : delay clock time ≤ time.toNat - clock.toNat := by
  unfold delay
  split_ifs with hlt
  · rw [UInt64.toNat_sub_of_le _ _ (UInt64.le_of_lt hlt)]
  · exact Nat.zero_le _

/-- The thread blocks for the first of its tasks. -/
theorem blocked_cases (queue : TaskQueue) (loop : RetryLoop) :
    (loop.blocked queue = .waiting ∧ loop.scheduler.tasks = []) ∨
      ∃ deadline, loop.blocked queue = .sleeping deadline ∧ deadline ≤ loop.steady + maxSleep ∧
        ∀ task ∈ loop.scheduler.tasks, deadline ≤ loop.steady + (task.time.toNat - loop.clock.toNat) := by
  unfold blocked
  cases hpop : queue.pop loop.scheduler.tasks with
  | none => exact .inl ⟨rfl, queue.pop_none _ hpop⟩
  | some popped =>
      obtain ⟨first, rest⟩ := popped
      have hfirst := delay_le loop.clock first.time
      refine .inr ⟨_, rfl, Nat.add_le_add_left (Nat.min_le_right _ _) _, fun task htask => ?_⟩
      have hleast : first.time.toNat ≤ task.time.toNat := by
        rcases List.mem_cons.mp ((queue.pop_perm _ _ _ hpop).mem_iff.mp htask) with rfl | hrest
        · exact le_refl _
        · have hkey := queue.pop_least _ _ _ hpop task hrest
          rwa [queue.key_eq, queue.key_eq] at hkey
      have hmin := Nat.min_le_left (delay loop.clock first.time) maxSleep
      omega

theorem not_blocked_notified (place : RetryThread) : ¬ place.notified.Blocked := by
  cases place <;> exact id

theorem notified_looked {place : RetryThread} (h : place.notified = .looked) : place = .looked := by
  cases place with
  | looked => rfl
  | awake => cases h
  | returned => cases h
  | waiting => cases h
  | sleeping deadline => cases h

theorem notified_returned {place : RetryThread} (h : place.notified = .returned) : place = .returned := by
  cases place with
  | returned => rfl
  | awake => cases h
  | looked => cases h
  | waiting => cases h
  | sleeping deadline => cases h

/-- A thread that is not blocked. -/
theorem Orderly.running (htrace : loop.scheduler = loop.events.foldl (RetryScheduler.step queue) first)
    (hrunning : ¬ loop.place.Blocked) (hlooking : loop.place = .looked → loop.stopped = false)
    (hended : loop.place = .returned → loop.stopped = true) : loop.Orderly queue first where
  trace := htrace
  idle h := absurd (h ▸ trivial) hrunning
  brief _ h := absurd (h ▸ trivial) hrunning
  prompt _ h := absurd (h ▸ trivial) hrunning
  looking := hlooking
  released h := absurd h hrunning
  ended := hended

theorem foldl_concat {events : List SchedulerEvent} {scheduler : RetryScheduler}
    (h : scheduler = events.foldl (RetryScheduler.step queue) first) (event : SchedulerEvent) :
    RetryScheduler.step queue scheduler event = (events ++ [event]).foldl (RetryScheduler.step queue) first := by
  rw [List.foldl_append, ← h]
  rfl

/-- **What every step keeps.** -/
theorem Orderly.step (h : loop.Orderly queue first) {event : RetryLoopEvent} (hstep : loop.step queue event = some next) :
    next.Orderly queue first := by
  cases step_move hstep with
  | schedule hfree =>
      exact .running (foldl_concat h.trace (.schedule _ _)) (not_blocked_notified _)
        (fun hplace => absurd (notified_looked hplace) hfree) fun hplace => h.ended (notified_returned hplace)
  | close hfree =>
      exact ⟨h.trace, h.idle, h.brief, h.prompt, fun hplace => absurd hplace hfree, fun _ _ => Nat.succ_pos _,
        fun _ => rfl⟩
  | notifyAll hcalls =>
      exact .running h.trace (not_blocked_notified _) (fun hplace => h.looking (notified_looked hplace))
        fun hplace => h.ended (notified_returned hplace)
  | wake hblocked => exact .running h.trace id (fun habsurd => by cases habsurd) fun habsurd => by cases habsurd
  | timeout hplace hdue => exact .running h.trace id (fun habsurd => by cases habsurd) fun habsurd => by cases habsurd
  | leave hplace hstopped => exact .running h.trace id (fun habsurd => by cases habsurd) fun _ => hstopped
  | look hplace hopen =>
      exact .running (foldl_concat h.trace (.makeDueVisible _)) id (fun _ => hopen) fun habsurd => by cases habsurd
  | block hplace =>
      have hopen := h.looking hplace
      have hreleased : ¬ loop.stopped = true := fun hstopped => Bool.false_ne_true (hopen.symm.trans hstopped)
      rcases blocked_cases queue loop with ⟨hwaiting, htasks⟩ | ⟨latest, hsleeping, hbrief, hprompt⟩
      · rw [hwaiting]
        exact ⟨h.trace, fun _ => htasks, fun _ habsurd => (by cases habsurd), fun _ habsurd => (by cases habsurd),
          fun habsurd => (by cases habsurd), fun _ hstopped => absurd hstopped hreleased, fun habsurd => (by cases habsurd)⟩
      · rw [hsleeping]
        refine ⟨h.trace, fun habsurd => (by cases habsurd), fun deadline hdeadline => ?_, fun deadline hdeadline _ => ?_,
          fun habsurd => (by cases habsurd), fun _ hstopped => absurd hstopped hreleased, fun habsurd => (by cases habsurd)⟩
        · cases hdeadline
          exact hbrief
        · cases hdeadline
          exact hprompt
  | @pass elapsed hrange =>
      refine ⟨h.trace, h.idle, fun deadline hplace => ?_, fun deadline hplace hsteady task htask => ?_, h.looking,
        h.released, h.ended⟩
      · exact (h.brief deadline hplace).trans (by dsimp only; omega)
      · have hprompt := h.prompt deadline hplace hsteady task htask
        have hclock : (loop.clock + UInt64.ofNat elapsed).toNat = loop.clock.toNat + elapsed := by
          rw [UInt64.toNat_add, UInt64.toNat_ofNat', Nat.mod_eq_of_lt (show elapsed < 2 ^ 64 by omega),
            Nat.mod_eq_of_lt hrange]
        dsimp only
        rw [hclock]
        omega
  | adjust =>
      exact ⟨h.trace, h.idle, h.brief, fun _ _ habsurd => absurd habsurd Bool.noConfusion, h.looking, h.released, h.ended⟩

theorem Orderly.start {clock : UInt64} : Orderly queue first ⟨first, clock, 0, false, .awake, 0, false, []⟩ :=
  .running rfl id (fun habsurd => by cases habsurd) fun habsurd => by cases habsurd

theorem Reached.orderly {clock : UInt64} (h : Reached queue first clock loop) : loop.Orderly queue first := by
  exact Steps.Reaches.keeps (fun hkept hstep => hkept.step hstep) h .start

end Orderly

/-! ### Due tasks -/

section Runs

variable {queue} {first : RetryScheduler} {clock : UInt64} {loop : RetryLoop}

/-- Where a thread is that has nothing to do. -/
theorem ends_cases (hends : Steps.Ends (RetryLoop.step queue) (fun event => event.certain = true) loop) :
    loop.notifyAll = 0 ∧ (loop.place = .returned ∨ loop.place = .waiting ∨
      ∃ deadline, loop.place = .sleeping deadline ∧ loop.steady < deadline) := by
  have hcalls : loop.notifyAll = 0 := by
    cases hcount : loop.notifyAll with
    | zero => rfl
    | succ calls =>
        have hnotify := hends .notifyAll rfl
        simp [RetryLoop.step, hcount] at hnotify
  refine ⟨hcalls, ?_⟩
  cases hplace : loop.place with
  | awake =>
      have hlook := hends .look rfl
      simp only [RetryLoop.step, hplace] at hlook
      split at hlook <;> cases hlook
  | looked =>
      have hblock := hends .block rfl
      simp [RetryLoop.step, hplace] at hblock
  | waiting => exact .inr (.inl rfl)
  | sleeping deadline =>
      have htimeout := hends .timeout rfl
      simp only [RetryLoop.step, hplace] at htimeout
      split at htimeout
      · cases htimeout
      · exact .inr (.inr ⟨deadline, rfl, not_le.mp ‹_›⟩)
  | returned => exact .inl rfl

/-- **No due task is overlooked.** While the thread has nothing to do, no task in the queue is due, unless the wall clock
was set while it sleeps; even then it sleeps for no more than a second. What it has done are steps of the scheduler. -/
theorem no_due_task_overlooked (h : Reached queue first clock loop) (hopen : loop.stopped = false)
    (hends : Steps.Ends (step queue) (fun event => event.certain = true) loop) :
    loop.scheduler = loop.events.foldl (RetryScheduler.step queue) first ∧
      ((∀ task ∈ loop.scheduler.tasks, loop.clock < task.time) ∨ loop.adjusted = true ∧ ∃ deadline,
        loop.place = .sleeping deadline ∧ loop.steady < deadline ∧ deadline ≤ loop.steady + maxSleep) := by
  have horderly := h.orderly
  refine ⟨horderly.trace, ?_⟩
  obtain ⟨-, hreturned | hwaiting | ⟨deadline, hsleeping, hlate⟩⟩ := ends_cases hends
  · exact absurd (hopen.symm.trans (horderly.ended hreturned)) Bool.false_ne_true
  · refine .inl fun task htask => ?_
    rw [horderly.idle hwaiting] at htask
    exact absurd htask List.not_mem_nil
  · cases hadjusted : loop.adjusted with
    | true => exact .inr ⟨rfl, deadline, hsleeping, hlate, horderly.brief deadline hsleeping⟩
    | false =>
        refine .inl fun task htask => ?_
        have hprompt := horderly.prompt deadline hsleeping hadjusted task htask
        rw [UInt64.lt_iff_toNat_lt]
        omega

/-- The thread waits, a task is scheduled, and the thread sleeps until it is due. -/
def oneTask : List RetryLoopEvent :=
  [.look, .block, .schedule ⟨[97], 0, 0, 150⟩, .look, .block, .pass 20]

theorem no_due_task_overlooked_oneTask :
    ∃ loop, Steps.run (step .inOrder) ⟨{}, 100, 0, false, .awake, 0, false, []⟩ oneTask = some loop ∧
      loop.place = .sleeping 50 ∧ ∀ task ∈ loop.scheduler.tasks, loop.clock < task.time := by
  obtain ⟨loop, hrun⟩ := Option.isSome_iff_exists.mp (by decide +kernel :
    (Steps.run (step .inOrder) ⟨{}, 100, 0, false, .awake, 0, false, []⟩ oneTask).isSome = true)
  have hstate : (Steps.run (step .inOrder) ⟨{}, 100, 0, false, .awake, 0, false, []⟩ oneTask).map (fun loop =>
      (loop.place, loop.steady, loop.notifyAll, loop.stopped, loop.adjusted)) = some (.sleeping 50, 20, 0, false, false) := by
    decide +kernel
  rw [hrun, Option.map_some, Option.some.injEq] at hstate
  obtain ⟨hplace, hsteady, hcalls, hopen, hadjusted⟩ : loop.place = .sleeping 50 ∧ loop.steady = 20 ∧
      loop.notifyAll = 0 ∧ loop.stopped = false ∧ loop.adjusted = false := by
    simpa using hstate
  have hends : Steps.Ends (step .inOrder) (fun event => event.certain = true) loop := by
    intro event hcertain
    cases event with
    | notifyAll => simp [step, hcalls]
    | timeout => simp [step, hplace, hsteady]
    | look => simp [step, hplace]
    | block => simp [step, hplace]
    | _ => cases hcertain
  obtain ⟨-, hwaiting | ⟨hset, -⟩⟩ := no_due_task_overlooked ⟨oneTask, hrun⟩ hopen hends
  · exact ⟨loop, hrun, hplace, hwaiting⟩
  · cases hadjusted.symm.trans hset

/-! ### `Close` -/

theorem notified_size_le (place : RetryThread) : place.notified.size ≤ place.size := by
  cases place <;> simp [RetryThread.notified, RetryThread.size]

/-- A thread that is to stop comes nearer to its end with each of its steps. -/
theorem step_stopped {event : RetryLoopEvent} {next : RetryLoop}
    (h : loop.Orderly queue first ∧ loop.stopped = true) (hstep : loop.step queue event = some next) :
    (next.Orderly queue first ∧ next.stopped = true) ∧
      next.size + (if event.own = true then 1 else 0) ≤ loop.size + event.cost := by
  obtain ⟨horderly, hstopped⟩ := h
  have hkept := horderly.step hstep
  cases step_move hstep with
  | schedule hfree =>
      have hsize := notified_size_le loop.place
      exact ⟨⟨hkept, hstopped⟩, Nat.add_le_add_right hsize _⟩
  | close hfree => exact ⟨⟨hkept, rfl⟩, le_refl _⟩
  | notifyAll hcalls =>
      have hsize := notified_size_le loop.place
      refine ⟨⟨hkept, hstopped⟩, ?_⟩
      simp only [size, RetryLoopEvent.own, RetryLoopEvent.cost, hcalls, if_true]
      omega
  | wake hblocked =>
      refine ⟨⟨hkept, hstopped⟩, ?_⟩
      have hsize : loop.place.size = 2 := by
        cases hplace : loop.place with
        | waiting => rfl
        | sleeping deadline => rfl
        | awake => rw [hplace] at hblocked; exact hblocked.elim
        | looked => rw [hplace] at hblocked; exact hblocked.elim
        | returned => rw [hplace] at hblocked; exact hblocked.elim
      simp only [RetryLoop.size, RetryLoopEvent.own, RetryLoopEvent.cost, hsize, if_true]
      change 1 + loop.notifyAll + 1 ≤ 2 + loop.notifyAll + 0
      omega
  | timeout hplace hdue =>
      refine ⟨⟨hkept, hstopped⟩, ?_⟩
      simp only [size, RetryThread.size, RetryLoopEvent.own, RetryLoopEvent.cost, hplace, if_true]
      omega
  | leave hplace =>
      refine ⟨⟨hkept, hstopped⟩, ?_⟩
      simp only [size, RetryThread.size, RetryLoopEvent.own, RetryLoopEvent.cost, hplace, if_true]
      omega
  | look hplace hopen => exact absurd (hopen.symm.trans hstopped) Bool.false_ne_true
  | block hplace => exact absurd ((horderly.looking hplace).symm.trans hstopped) Bool.false_ne_true
  | pass hrange => exact ⟨⟨hkept, hstopped⟩, le_refl _⟩
  | adjust => exact ⟨⟨hkept, hstopped⟩, le_refl _⟩

/-- **`Close` ends the thread.** Once it is to stop, the thread and the calls of `notify_all` make a bounded number of
steps, whatever is scheduled and however the clocks run, and they can always go on without the thread waking up by
itself, until it has returned. -/
theorem close_ends (h : Reached queue first clock loop) (hstopped : loop.stopped = true) {events : List RetryLoopEvent}
    {later : RetryLoop} (hrun : Steps.run (step queue) loop events = some later) :
    events.countP RetryLoopEvent.own ≤ loop.size + (events.map RetryLoopEvent.cost).sum ∧
      (Steps.Ends (step queue) (fun event => event.certain = true) later → later.place = .returned) := by
  obtain ⟨⟨horderly, hstill⟩, hbound⟩ := @Steps.run_bounded _ _ (step queue) _ RetryLoopEvent.own RetryLoopEvent.cost
    size (fun hkept hstep => step_stopped hkept hstep) _ _ _ hrun ⟨h.orderly, hstopped⟩
  refine ⟨by omega, fun hends => ?_⟩
  obtain ⟨hcalls, hreturned | hwaiting | ⟨deadline, hsleeping, -⟩⟩ := ends_cases hends
  · exact hreturned
  · exact absurd (horderly.released (hwaiting ▸ trivial) hstill) (by omega)
  · exact absurd (horderly.released (hsleeping ▸ trivial) hstill) (by omega)

/-- The scheduler is closed while its thread sleeps. -/
theorem close_ends_oneTask :
    ∃ loop later,
      Steps.run (step .inOrder) ⟨{}, 100, 0, false, .awake, 0, false, []⟩ (oneTask ++ [.close]) = some loop ∧
      Steps.run (step .inOrder) loop [.notifyAll, .look] = some later ∧ later.place = .returned := by
  obtain ⟨loop, hrun⟩ := Option.isSome_iff_exists.mp (by decide +kernel :
    (Steps.run (step .inOrder) ⟨{}, 100, 0, false, .awake, 0, false, []⟩ (oneTask ++ [.close])).isSome = true)
  have hstate : (Steps.run (step .inOrder) ⟨{}, 100, 0, false, .awake, 0, false, []⟩ (oneTask ++ [.close])).map
      (fun loop => (loop.stopped, loop.place, loop.notifyAll)) = some (true, .sleeping 50, 1) := by decide +kernel
  rw [hrun, Option.map_some, Option.some.injEq] at hstate
  obtain ⟨hstopped, hplace, hcalls⟩ : loop.stopped = true ∧ loop.place = .sleeping 50 ∧ loop.notifyAll = 1 := by
    simpa using hstate
  have hlast : Steps.run (step .inOrder) loop [.notifyAll, .look] =
      some { loop with notifyAll := 0, place := .returned } := by
    simp [Steps.run, step, hcalls, hplace, RetryThread.notified, hstopped]
  refine ⟨loop, _, hrun, hlast, (close_ends ⟨_, hrun⟩ hstopped hlast).2 fun event hcertain => ?_⟩
  cases event with
  | notifyAll => rfl
  | timeout => rfl
  | look => rfl
  | block => rfl
  | _ => cases hcertain

end Runs

end RetryLoop

end LogMq
