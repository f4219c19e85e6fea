import LogMq.BrokerRetryThread
import LogMq.GroupScanner

/-! How `BrokerService::Close` ends the threads of the broker. It tells the flusher to stop without the mutex that the
flusher waits with, and joins it; then it stops and joins the thread of the retry scheduler and the scanner of the
groups, and closes the topics at last. -/

namespace LogMq

/-- How far `Close` has come. -/
inductive ClosePhase where
  | running
  | joiningFlusher
  | stoppingRetries
  | joiningRetries
  | stoppingGroups
  | joiningGroups
  | closingTopics
  | closed
  deriving DecidableEq

def ClosePhase.rank : ClosePhase → Nat
  | .running => 0
  | .joiningFlusher => 1
  | .stoppingRetries => 2
  | .joiningRetries => 3
  | .stoppingGroups => 4
  | .joiningGroups => 5
  | .closingTopics => 6
  | .closed => 7

/-- The threads of `BrokerService`. There is a flusher only if the logs are flushed asynchronously. -/
structure BrokerThreads where
  flusher : Option Periodic.Thread
  retries : RetryLoop
  scanner : Periodic.Thread := {}
  phase : ClosePhase := .running

/-- What the threads, `Close` and the clocks do. -/
inductive BrokerThreadsEvent where
  | flusher (event : Periodic.Event)
  | retries (event : RetryLoopEvent)
  | scanner (event : Periodic.Event)
  | close
  | pass (elapsed : Nat)

/-- The callers of the scheduler, its thread and the wall clock, but not `Close` and the time. -/
def RetryLoopEvent.apart : RetryLoopEvent → Bool
  | .close => false
  | .pass _ => false
  | _ => true

namespace BrokerThreadsEvent

def certain : BrokerThreadsEvent → Bool
  | .flusher event => event.certain
  | .retries event => event.certain
  | .scanner event => event.certain
  | .close => true
  | .pass _ => false

/-- The steps of the flusher. -/
def flushes : BrokerThreadsEvent → Bool
  | .flusher event => event.own
  | _ => false

end BrokerThreadsEvent

namespace BrokerThreads

variable (queue : TaskQueue) (interval scan : Nat)

/-- The next step of `Close`. -/
def close (threads : BrokerThreads) : Option BrokerThreads :=
  match threads.phase with
  | .running =>
      match threads.flusher with
      | none => some { threads with phase := .stoppingRetries }
      | some thread => (Periodic.step interval false thread .close).map fun thread =>
          { threads with flusher := some thread, phase := .joiningFlusher }
  | .joiningFlusher =>
      match threads.flusher with
      | none => none
      | some thread =>
          if thread.place = .returned ∧ thread.notifyAll = 0 then some { threads with phase := .stoppingRetries } else none
  | .stoppingRetries => (threads.retries.step queue .close).map fun retries =>
      { threads with retries := retries, phase := .joiningRetries }
  | .joiningRetries =>
      if threads.retries.place = .returned ∧ threads.retries.notifyAll = 0 then
        some { threads with phase := .stoppingGroups }
      else none
  | .stoppingGroups => (Periodic.step scan true threads.scanner .close).map fun scanner =>
      { threads with scanner := scanner, phase := .joiningGroups }
  | .joiningGroups =>
      if threads.scanner.place = .returned ∧ threads.scanner.notifyAll = 0 then
        some { threads with phase := .closingTopics }
      else none
  | .closingTopics => some { threads with phase := .closed }
  | .closed => none

/-- One step, if it is possible. Time passes for all threads. -/
def step (threads : BrokerThreads) : BrokerThreadsEvent → Option BrokerThreads
  | .flusher event =>
      match threads.flusher with
      | none => none
      | some thread =>
          if event.own = true then
            (Periodic.step interval false thread event).map fun thread => { threads with flusher := some thread }
          else none
  | .retries event =>
      if event.apart = true then (threads.retries.step queue event).map fun retries => { threads with retries := retries }
      else none
  | .scanner event =>
      if event.own = true then
        (Periodic.step scan true threads.scanner event).map fun scanner => { threads with scanner := scanner }
      else none
  | .close => threads.close queue interval scan
  | .pass elapsed =>
      (threads.retries.step queue (.pass elapsed)).map fun retries => { threads with
        flusher := threads.flusher.map fun thread => { thread with steady := thread.steady + elapsed }
        retries := retries
        scanner := { threads.scanner with steady := threads.scanner.steady + elapsed } }

/-- What a broker reaches after its threads were started. -/
def Reached (first : RetryScheduler) (clock : UInt64) (async : Bool) (threads : BrokerThreads) : Prop :=
  Steps.Reaches (step queue interval scan)
    ⟨if async = true then some {} else none, ⟨first, clock, 0, false, .awake, 0, false, []⟩, {}, .running⟩ threads

/-! ### What every step keeps -/

/-- From some phase on a thread is to stop, and from the next one on it has returned. -/
def Told (phase : ClosePhase) (stops : Nat) (stop : Bool) (returned : Prop) : Prop :=
  (stops ≤ phase.rank → stop = true) ∧ (stops < phase.rank → returned)

/-- The phase of `Close` tells where the threads are. -/
structure Orderly (first : RetryScheduler) (threads : BrokerThreads) : Prop where
  flusher : ∀ thread, threads.flusher = some thread →
    Periodic.Orderly interval false thread ∧ Told threads.phase 1 thread.stop (thread.place = .returned)
  async : threads.phase = .joiningFlusher → threads.flusher.isSome
  retries : threads.retries.Orderly queue first ∧
    Told threads.phase 3 threads.retries.stopped (threads.retries.place = .returned)
  scanner : Periodic.Orderly scan true threads.scanner ∧
    Told threads.phase 5 threads.scanner.stop (threads.scanner.place = .returned)

section Told

variable {phase later : ClosePhase} {stops : Nat} {stop : Bool} {returned : Prop}

theorem Told.mono (h : Told phase stops stop returned) {stop' : Bool} {returned' : Prop}
    (hstop : stop = true → stop' = true) (hreturned : returned → returned') : Told phase stops stop' returned' :=
  ⟨fun hle => hstop (h.1 hle), fun hlt => hreturned (h.2 hlt)⟩

/-- A thread that has returned is not waited for again. -/
theorem Told.past (h : Told phase stops stop returned) (hlt : stops < phase.rank) : Told later stops stop returned :=
  ⟨fun _ => h.1 hlt.le, fun _ => h.2 hlt⟩

theorem Told.early (hlt : phase.rank < stops) : Told phase stops stop returned :=
  ⟨fun hle => absurd hle (not_le.mpr hlt), fun hafter => absurd hafter (not_lt.mpr hlt.le)⟩

theorem Told.stopping (hrank : phase.rank = stops) (hstop : stop = true) : Told phase stops stop returned :=
  ⟨fun _ => hstop, fun hlt => absurd hlt (not_lt.mpr hrank.le)⟩

theorem Told.joined (h : Told phase stops stop returned) (hrank : phase.rank = stops) (hreturned : returned) :
    Told later stops stop returned :=
  ⟨fun _ => h.1 hrank.ge, fun _ => hreturned⟩

end Told

variable {queue} {interval scan} {first : RetryScheduler} {threads next : BrokerThreads}

theorem stop_of_close {locked : Bool} {thread later : Periodic.Thread}
    (h : Periodic.step interval locked thread .close = some later) : later.stop = true := by
  cases Periodic.step_move h with
  | close => rfl
  | leave hown => rcases hown with habsurd | habsurd | habsurd <;> cases habsurd

theorem stopped_of_close {loop later : RetryLoop} (h : loop.step queue .close = some later) : later.stopped = true := by
  cases RetryLoop.step_move h with
  | close => rfl

/-- **`Close`** stops and joins one thread after the other. -/
theorem Orderly.close (h : threads.Orderly queue interval scan first)
    (hclose : threads.close queue interval scan = some next) : next.Orderly queue interval scan first := by
  obtain ⟨hflusher, hasync, hretries, hscanner⟩ := h
  obtain ⟨flusher, retries, scanner, phase⟩ := threads
  dsimp only at hflusher hasync hretries hscanner
  cases phase with
  | running =>
      simp only [BrokerThreads.close] at hclose
      split at hclose
      · cases hclose
        exact ⟨fun _ habsurd => (by cases habsurd), fun habsurd => (by cases habsurd),
          ⟨hretries.1, .early (by simp [ClosePhase.rank])⟩, ⟨hscanner.1, .early (by simp [ClosePhase.rank])⟩⟩
      · obtain ⟨thread, hthread, rfl⟩ := Option.map_eq_some_iff.mp hclose
        refine ⟨fun later hlater => ?_, fun _ => rfl, ⟨hretries.1, .early (by simp [ClosePhase.rank])⟩,
          ⟨hscanner.1, .early (by simp [ClosePhase.rank])⟩⟩
        cases hlater
        exact ⟨(hflusher _ rfl).1.step hthread, .stopping rfl (stop_of_close hthread)⟩
  | joiningFlusher =>
      simp only [BrokerThreads.close] at hclose
      split at hclose
      · cases hclose
      · split at hclose
        · rename_i thread hjoined
          cases hclose
          refine ⟨fun later hlater => ?_, fun habsurd => (by cases habsurd),
            ⟨hretries.1, .early (by simp [ClosePhase.rank])⟩, ⟨hscanner.1, .early (by simp [ClosePhase.rank])⟩⟩
          cases hlater
          obtain ⟨horderly, htold⟩ := hflusher _ rfl
          exact ⟨horderly, htold.joined rfl hjoined.1⟩
        · cases hclose
  | stoppingRetries =>
      obtain ⟨loop, hloop, rfl⟩ := Option.map_eq_some_iff.mp hclose
      exact ⟨fun later hlater => ⟨(hflusher _ hlater).1, (hflusher _ hlater).2.past (by decide)⟩,
        fun habsurd => (by cases habsurd), ⟨hretries.1.step hloop, .stopping rfl (stopped_of_close hloop)⟩,
        ⟨hscanner.1, .early (by simp [ClosePhase.rank])⟩⟩
  | joiningRetries =>
      simp only [BrokerThreads.close] at hclose
      split at hclose
      · rename_i hjoined
        cases hclose
        exact ⟨fun later hlater => ⟨(hflusher _ hlater).1, (hflusher _ hlater).2.past (by decide)⟩,
          fun habsurd => (by cases habsurd), ⟨hretries.1, hretries.2.joined rfl hjoined.1⟩,
          ⟨hscanner.1, .early (by simp [ClosePhase.rank])⟩⟩
      · cases hclose
  | stoppingGroups =>
      obtain ⟨later, hlater, rfl⟩ := Option.map_eq_some_iff.mp hclose
      exact ⟨fun thread hthread => ⟨(hflusher _ hthread).1, (hflusher _ hthread).2.past (by decide)⟩,
        fun habsurd => (by cases habsurd), ⟨hretries.1, hretries.2.past (by decide)⟩,
        ⟨hscanner.1.step hlater, .stopping rfl (stop_of_close hlater)⟩⟩
  | joiningGroups =>
      simp only [BrokerThreads.close] at hclose
      split at hclose
      · rename_i hjoined
        cases hclose
        exact ⟨fun later hlater => ⟨(hflusher _ hlater).1, (hflusher _ hlater).2.past (by decide)⟩,
          fun habsurd => (by cases habsurd), ⟨hretries.1, hretries.2.past (by decide)⟩,
          ⟨hscanner.1, hscanner.2.joined rfl hjoined.1⟩⟩
      · cases hclose
  | closingTopics =>
      cases hclose
      exact ⟨fun later hlater => ⟨(hflusher _ hlater).1, (hflusher _ hlater).2.past (by decide)⟩,
        fun habsurd => (by cases habsurd), ⟨hretries.1, hretries.2.past (by decide)⟩,
        ⟨hscanner.1, hscanner.2.past (by decide)⟩⟩
  | closed => cases hclose

/-- **What every step keeps.** -/
theorem Orderly.step (h : threads.Orderly queue interval scan first) {event : BrokerThreadsEvent}
    (hstep : threads.step queue interval scan event = some next) : next.Orderly queue interval scan first := by
  cases event with
  | flusher event =>
      simp only [BrokerThreads.step] at hstep
      split at hstep
      · cases hstep
      · rename_i thread hthread
        split at hstep
        · obtain ⟨later, hlater, rfl⟩ := Option.map_eq_some_iff.mp hstep
          obtain ⟨horderly, htold⟩ := h.flusher thread hthread
          refine ⟨fun other hother => ?_, fun _ => rfl, h.retries, h.scanner⟩
          cases hother
          exact ⟨horderly.step hlater, htold.mono (Periodic.stop_stays hlater) (Periodic.returned_stays hlater)⟩
        · cases hstep
  | retries event =>
      simp only [BrokerThreads.step] at hstep
      split at hstep
      · obtain ⟨loop, hloop, rfl⟩ := Option.map_eq_some_iff.mp hstep
        exact ⟨h.flusher, h.async, ⟨h.retries.1.step hloop,
          h.retries.2.mono (RetryLoop.stopped_stays hloop) (RetryLoop.returned_stays hloop)⟩, h.scanner⟩
      · cases hstep
  | scanner event =>
      simp only [BrokerThreads.step] at hstep
      split at hstep
      · obtain ⟨later, hlater, rfl⟩ := Option.map_eq_some_iff.mp hstep
        exact ⟨h.flusher, h.async, h.retries, ⟨h.scanner.1.step hlater,
          h.scanner.2.mono (Periodic.stop_stays hlater) (Periodic.returned_stays hlater)⟩⟩
      · cases hstep
  | close => exact h.close hstep
  | pass elapsed =>
      obtain ⟨loop, hloop, rfl⟩ := Option.map_eq_some_iff.mp hstep
      refine ⟨fun later hlater => ?_, fun hphase => ?_, ⟨h.retries.1.step hloop,
        h.retries.2.mono (RetryLoop.stopped_stays hloop) (RetryLoop.returned_stays hloop)⟩, ⟨h.scanner.1.pass elapsed,
        h.scanner.2⟩⟩
      · obtain ⟨thread, hthread, rfl⟩ := Option.map_eq_some_iff.mp hlater
        obtain ⟨horderly, htold⟩ := h.flusher thread hthread
        exact ⟨horderly.pass elapsed, htold⟩
      · rw [Option.isSome_map]
        exact h.async hphase

/-! ### The end of the threads -/

section Ends

variable (hends : Steps.Ends (BrokerThreads.step queue interval scan) (fun event => event.certain = true) threads)
include hends

theorem ends_flusher {thread : Periodic.Thread} (hthread : threads.flusher = some thread) :
    Steps.Ends (Periodic.step interval false) (fun event => event.certain = true) thread := by
  intro event hcertain
  have hown : event.own = true := Periodic.Event.own_of_certain hcertain
  have hflusher := hends (.flusher event) hcertain
  simp only [BrokerThreads.step, hthread, hown, if_true] at hflusher
  exact Option.map_eq_none_iff.mp hflusher

theorem ends_retries : Steps.Ends (RetryLoop.step queue) (fun event => event.certain = true) threads.retries := by
  intro event hcertain
  have hapart : event.apart = true := by cases event <;> first | rfl | cases hcertain
  have hretries := hends (.retries event) hcertain
  simp only [BrokerThreads.step, hapart, if_true] at hretries
  exact Option.map_eq_none_iff.mp hretries

theorem ends_scanner : Steps.Ends (Periodic.step scan true) (fun event => event.certain = true) threads.scanner := by
  intro event hcertain
  have hown : event.own = true := Periodic.Event.own_of_certain hcertain
  have hscanner := hends (.scanner event) hcertain
  simp only [BrokerThreads.step, hown, if_true] at hscanner
  exact Option.map_eq_none_iff.mp hscanner

/-- Threads that have nothing to do hold no mutex that `Close` waits for, and they wait for `Close` only, other than a
flusher that sleeps. -/
theorem Orderly.ends_cases (h : threads.Orderly queue interval scan first) (hclosing : threads.phase ≠ .running) :
    threads.phase = .closed ∨ ∃ thread, threads.flusher = some thread ∧ threads.phase = .joiningFlusher ∧
      thread.place = .blocked (thread.since + interval) ∧ thread.since ≤ thread.steady ∧
      thread.steady < thread.since + interval := by
  have hclose : threads.close queue interval scan = none := hends .close rfl
  cases hphase : threads.phase with
  | running => exact absurd hphase hclosing
  | joiningFlusher =>
      obtain ⟨thread, hthread⟩ := Option.isSome_iff_exists.mp (h.async hphase)
      obtain ⟨hcalls, ⟨hreturned, -⟩ | ⟨hplace, hpast, hearly, -⟩⟩ := (h.flusher thread hthread).1.ends_cases
        (ends_flusher hends hthread)
      · simp [BrokerThreads.close, hphase, hthread, hreturned, hcalls] at hclose
      · exact .inr ⟨thread, hthread, rfl, hplace, hpast, hearly⟩
  | stoppingRetries =>
      obtain ⟨-, hplaces⟩ := RetryLoop.ends_cases (ends_retries hends)
      simp only [BrokerThreads.close, hphase, Option.map_eq_none_iff] at hclose
      rcases hplaces with hplace | hplace | ⟨deadline, hplace, -⟩ <;> simp [RetryLoop.step, hplace] at hclose
  | joiningRetries =>
      have hstopped := h.retries.2.1 (by simp [hphase, ClosePhase.rank])
      obtain ⟨hcalls, hreturned | hwaiting | ⟨deadline, hsleeping, -⟩⟩ := RetryLoop.ends_cases (ends_retries hends)
      · simp [BrokerThreads.close, hphase, hreturned, hcalls] at hclose
      · exact absurd (h.retries.1.released (hwaiting ▸ trivial) hstopped) (by omega)
      · exact absurd (h.retries.1.released (hsleeping ▸ trivial) hstopped) (by omega)
  | stoppingGroups =>
      obtain ⟨-, hplaces⟩ := h.scanner.1.ends_cases (ends_scanner hends)
      simp only [BrokerThreads.close, hphase, Option.map_eq_none_iff] at hclose
      rcases hplaces with ⟨hplace, -⟩ | ⟨hplace, -⟩ <;> simp [Periodic.step, hplace, Periodic.Place.holds] at hclose
  | joiningGroups =>
      have hstop := h.scanner.2.1 (by simp [hphase, ClosePhase.rank])
      obtain ⟨hcalls, ⟨hreturned, -⟩ | ⟨-, -, -, hopen⟩⟩ := h.scanner.1.ends_cases (ends_scanner hends)
      · simp [BrokerThreads.close, hphase, hreturned, hcalls] at hclose
      · exact absurd (hstop.symm.trans (hopen rfl)) Bool.noConfusion
  | closingTopics => simp [BrokerThreads.close, hphase] at hclose
  | closed => exact .inl rfl

end Ends

/-- What is left of the flusher. -/
def flusherSize (threads : BrokerThreads) : Nat := (threads.flusher.map Periodic.Thread.size).getD 0

/-- `Close` does not go back to its beginning, and it leaves the flusher alone then. -/
theorem close_frame (h : threads.close queue interval scan = some next) (hclosing : threads.phase ≠ .running) :
    next.phase ≠ .running ∧ next.flusher = threads.flusher := by
  obtain ⟨flusher, retries, scanner, phase⟩ := threads
  cases phase with
  | running => exact absurd rfl hclosing
  | joiningFlusher =>
      simp only [BrokerThreads.close] at h
      split at h
      · cases h
      · split at h
        · cases h
          exact ⟨ClosePhase.noConfusion, rfl⟩
        · cases h
  | stoppingRetries =>
      obtain ⟨later, -, rfl⟩ := Option.map_eq_some_iff.mp h
      exact ⟨ClosePhase.noConfusion, rfl⟩
  | joiningRetries =>
      simp only [BrokerThreads.close] at h
      split at h
      · cases h
        exact ⟨ClosePhase.noConfusion, rfl⟩
      · cases h
  | stoppingGroups =>
      obtain ⟨later, -, rfl⟩ := Option.map_eq_some_iff.mp h
      exact ⟨ClosePhase.noConfusion, rfl⟩
  | joiningGroups =>
      simp only [BrokerThreads.close] at h
      split at h
      · cases h
        exact ⟨ClosePhase.noConfusion, rfl⟩
      · cases h
  | closingTopics =>
      cases h
      exact ⟨ClosePhase.noConfusion, rfl⟩
  | closed => cases h

/-- Once `Close` has begun, every step of the flusher is one of its last ones. -/
theorem step_closing {event : BrokerThreadsEvent}
    (h : threads.Orderly queue interval scan first ∧ threads.phase ≠ .running)
    (hstep : threads.step queue interval scan event = some next) :
    (next.Orderly queue interval scan first ∧ next.phase ≠ .running) ∧
      next.flusherSize + (if event.flushes = true then 1 else 0) ≤ threads.flusherSize + 0 := by
  obtain ⟨horderly, hclosing⟩ := h
  have hkept := horderly.step hstep
  cases event with
  | flusher event =>
      simp only [BrokerThreads.step] at hstep
      split at hstep
      · cases hstep
      · rename_i thread hthread
        split at hstep
        · rename_i hown
          obtain ⟨later, hlater, rfl⟩ := Option.map_eq_some_iff.mp hstep
          obtain ⟨hthreadOrderly, htold⟩ := horderly.flusher thread hthread
          have hrank : 1 ≤ threads.phase.rank := by
            cases hphase : threads.phase <;> first | exact absurd hphase hclosing | exact Nat.le_add_left 1 _
          obtain ⟨-, hsize⟩ := Periodic.step_stopped ⟨hthreadOrderly, htold.1 hrank⟩ hlater
          refine ⟨⟨hkept, hclosing⟩, ?_⟩
          have hcost : event.cost = 0 := Periodic.Event.cost_of_own hown
          simp only [flusherSize, hthread, Option.map_some, Option.getD_some, BrokerThreadsEvent.flushes, hown, if_true]
            at hsize ⊢
          omega
        · cases hstep
  | retries event =>
      simp only [BrokerThreads.step] at hstep
      split at hstep
      · obtain ⟨later, -, rfl⟩ := Option.map_eq_some_iff.mp hstep
        exact ⟨⟨hkept, hclosing⟩, le_refl _⟩
      · cases hstep
  | scanner event =>
      simp only [BrokerThreads.step] at hstep
      split at hstep
      · obtain ⟨later, -, rfl⟩ := Option.map_eq_some_iff.mp hstep
        exact ⟨⟨hkept, hclosing⟩, le_refl _⟩
      · cases hstep
  | close =>
      obtain ⟨hphase, hflusher⟩ := close_frame hstep hclosing
      refine ⟨⟨hkept, hphase⟩, ?_⟩
      simp [flusherSize, hflusher, BrokerThreadsEvent.flushes]
  | pass elapsed =>
      obtain ⟨later, -, rfl⟩ := Option.map_eq_some_iff.mp hstep
      refine ⟨⟨hkept, hclosing⟩, ?_⟩
      simp only [flusherSize, Option.map_map]
      exact le_refl _

theorem Reached.orderly {clock : UInt64} {async : Bool} (h : Reached queue interval scan first clock async threads) :
    threads.Orderly queue interval scan first := by
  refine Steps.Reaches.keeps (fun hkept hstep => hkept.step hstep) h ⟨fun thread hthread => ?_,
    fun habsurd => (by cases habsurd), ⟨.start, .early (by simp [ClosePhase.rank])⟩,
    ⟨.start, .early (by simp [ClosePhase.rank])⟩⟩
  dsimp only at hthread
  split_ifs at hthread
  cases hthread
  exact ⟨.start, .early (by simp [ClosePhase.rank])⟩

/-- **`Close` ends.** Once it has begun, the flusher makes a bounded number of steps, whatever requests are still
scheduled and however the clocks run. If nothing is left to do, all threads have returned and the topics are closed, or
`Close` waits for a flusher that sleeps to the end of its interval. -/
theorem close_joins {clock : UInt64} {async : Bool} (h : Reached queue interval scan first clock async threads)
    (hclosing : threads.phase ≠ .running) {events : List BrokerThreadsEvent} {later : BrokerThreads}
    (hrun : Steps.run (step queue interval scan) threads events = some later) :
    events.countP BrokerThreadsEvent.flushes ≤ threads.flusherSize ∧
      (Steps.Ends (step queue interval scan) (fun event => event.certain = true) later →
        (later.phase = .closed ∧ (∀ thread, later.flusher = some thread → thread.place = .returned) ∧
            later.retries.place = .returned ∧ later.scanner.place = .returned) ∨
          ∃ thread, later.flusher = some thread ∧ later.phase = .joiningFlusher ∧
            thread.place = .blocked (thread.since + interval) ∧ thread.since ≤ thread.steady ∧
            thread.steady < thread.since + interval) := by
  obtain ⟨⟨horderly, hstill⟩, hbound⟩ := @Steps.run_bounded _ _ (step queue interval scan) _
    BrokerThreadsEvent.flushes (fun _ => 0) flusherSize (fun hkept hstep => step_closing hkept hstep) _ _ _ hrun ⟨h.orderly, hclosing⟩
  have hfree : (events.map fun _ => 0).sum = 0 := by simp
  refine ⟨by omega, fun hends => (horderly.ends_cases hends hstill).imp_left fun hclosed => ?_⟩
  have hrank : later.phase.rank = 7 := by rw [hclosed]; rfl
  exact ⟨hclosed, fun thread hthread => (horderly.flusher thread hthread).2.2 (by omega),
    horderly.retries.2.2 (by omega), horderly.scanner.2.2 (by omega)⟩

/-- The threads of a broker that has just been started. -/
def started : BrokerThreads := ⟨some {}, ⟨{}, 100, 0, false, .awake, 0, false, []⟩, {}, .running⟩

/-- All threads wait, and `Close` begins. -/
def closing : List BrokerThreadsEvent :=
  [.retries .look, .retries .block, .scanner .enter, .scanner .block, .flusher .enter, .flusher .block, .close]

/-- The threads are notified and leave, one after the other. -/
def leaving : List BrokerThreadsEvent :=
  [.flusher .notifyAll, .flusher .check, .close, .close, .retries .notifyAll, .retries .look, .close, .close,
    .scanner .notifyAll, .scanner .check, .close, .close]

theorem close_joins_started :
    ∃ threads later, Steps.run (step .inOrder 1000 100) started closing = some threads ∧
      Steps.run (step .inOrder 1000 100) threads leaving = some later ∧ later.phase = .closed ∧
      later.retries.place = .returned ∧ later.scanner.place = .returned := by
  obtain ⟨threads, hrun⟩ := Option.isSome_iff_exists.mp (by decide +kernel :
    (Steps.run (step .inOrder 1000 100) started closing).isSome = true)
  have hphase : (Steps.run (step .inOrder 1000 100) started closing).map BrokerThreads.phase = some .joiningFlusher := by
    decide +kernel
  have hleft : ((Steps.run (step .inOrder 1000 100) started closing).bind fun threads =>
      Steps.run (step .inOrder 1000 100) threads leaving).map (fun later =>
        (later.phase, later.flusher, later.retries.place, later.retries.notifyAll, later.scanner)) =
      some (.closed, some { place := .returned, stop := true }, .returned, 0, { place := .returned, stop := true }) := by
    decide +kernel
  rw [hrun, Option.map_some, Option.some.injEq] at hphase
  rw [hrun, Option.bind_some] at hleft
  obtain ⟨later, hlater, hstate⟩ := Option.map_eq_some_iff.mp hleft
  obtain ⟨hclosed, hflusher, hplace, hcalls, hscanner⟩ : later.phase = .closed ∧
      later.flusher = some { place := .returned, stop := true } ∧ later.retries.place = .returned ∧
      later.retries.notifyAll = 0 ∧ later.scanner = { place := .returned, stop := true } := by simpa using hstate
  have hends : Steps.Ends (step .inOrder 1000 100) (fun event => event.certain = true) later := by
    intro event hcertain
    cases event with
    | flusher event => cases event <;> simp [step, hflusher, Periodic.step, Periodic.Event.own]
    | retries event => cases event <;> simp_all [step, BrokerThreadsEvent.certain, RetryLoopEvent.certain, RetryLoop.step]
    | scanner event => cases event <;> simp [step, hscanner, Periodic.step, Periodic.Event.own]
    | close => simp [step, BrokerThreads.close, hclosed]
    | pass elapsed => cases hcertain
  have hclosing : threads.phase ≠ .running := by
    rw [hphase]
    exact ClosePhase.noConfusion
  rcases (@close_joins .inOrder 1000 100 {} threads 100 true ⟨closing, hrun⟩ hclosing leaving later hlater).2 hends with
    ⟨hend, -, hretries, hscans⟩ | ⟨_, -, habsurd, -⟩
  · exact ⟨threads, later, hrun, hlater, hend, hretries, hscans⟩
  · cases hclosed.symm.trans habsurd

/-- The flusher can miss its notification: it has looked at its flag, but it is not blocked yet. -/
def overlooked : List BrokerThreadsEvent :=
  [.retries .look, .retries .block, .scanner .enter, .scanner .block, .flusher .enter, .close, .flusher .notifyAll,
    .flusher .block]

theorem close_waits :
    ∃ threads, Steps.run (step .inOrder 1000 100) started overlooked = some threads ∧ threads.phase = .joiningFlusher ∧
      Steps.Ends (step .inOrder 1000 100) (fun event => event.certain = true) threads := by
  have hstate : (Steps.run (step .inOrder 1000 100) started overlooked).map (fun threads =>
      (threads.phase, threads.flusher, threads.retries.place, threads.retries.notifyAll, threads.scanner)) =
      some (.joiningFlusher, some { place := .blocked 1000, stop := true }, .waiting, 0, { place := .blocked 100 }) := by
    decide +kernel
  obtain ⟨threads, hrun, hstate⟩ := Option.map_eq_some_iff.mp hstate
  obtain ⟨hphase, hflusher, hplace, hcalls, hscanner⟩ : threads.phase = .joiningFlusher ∧
      threads.flusher = some { place := .blocked 1000, stop := true } ∧ threads.retries.place = .waiting ∧
      threads.retries.notifyAll = 0 ∧ threads.scanner = { place := .blocked 100 } := by simpa using hstate
  refine ⟨threads, hrun, hphase, fun event hcertain => ?_⟩
  cases event with
  | flusher event =>
      cases event <;> simp_all [step, BrokerThreadsEvent.certain, Periodic.Event.certain, Periodic.step]
  | retries event => cases event <;> simp_all [step, BrokerThreadsEvent.certain, RetryLoopEvent.certain, RetryLoop.step]
  | scanner event =>
      cases event <;> simp_all [step, BrokerThreadsEvent.certain, Periodic.Event.certain, Periodic.step]
  | close => simp [step, BrokerThreads.close, hphase, hflusher]
  | pass elapsed => cases hcertain

end BrokerThreads

end LogMq
