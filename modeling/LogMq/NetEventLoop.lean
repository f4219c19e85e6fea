import LogMq.LibSteps

/-! An event loop: the functions queued in it by any thread, the descriptor that wakes it up, and the turns of its
thread. A caller of `QueueInLoop` or `Quit` writes to the descriptor after it has queued its function or set the flag,
and other steps may come in between. The descriptor holds a bounded number of signals; a write to a full one is lost. -/

namespace LogMq

/-- Where the thread of a loop is: at the test of `quit_`, in `Poll`, handling the active events, of which the wakeup
may be one, at the start of `DoPendingFunctors`, running what it has swapped out, or behind the loop. The last two
calls of `DoPendingFunctors` differ: one ends a turn, the other one comes after the last turn. -/
inductive LoopPhase (α : Type) where
  | testing
  | polling
  | dispatching (woken : Bool)
  | swapping (last : Bool)
  | calling (functors : List α) (last : Bool)
  | left
  deriving DecidableEq

namespace LoopPhase

variable {α : Type}

/-- The functions swapped out and not yet run. -/
def batch : LoopPhase α → List α
  | .calling functors _ => functors
  | _ => []

/-- The last turn is over. -/
def isLast : LoopPhase α → Bool
  | .swapping last => last
  | .calling _ last => last
  | .left => true
  | _ => false

/-- The wakeup has been handled, and what is pending is about to be swapped out. -/
def isAttending : LoopPhase α → Bool
  | .dispatching woken => !woken
  | .swapping _ => true
  | _ => false

/-- The steps to the end, once the flag is set, other than those that run functions. -/
def rank : LoopPhase α → Nat
  | .left => 0
  | .calling _ true => 1
  | .swapping true => 2
  | .testing => 3
  | .calling _ false => 4
  | .swapping false => 5
  | .dispatching false => 6
  | .dispatching true => 7
  | .polling => 8

end LoopPhase

/-- `EventLoop`, the signals in its wakeup descriptor, and the threads that have yet to write one. The last three fields
are its history, which the code does not keep: the functions queued and those run, and what had been queued when the
flag was first set. -/
structure EventLoop (α : Type) where
  pending : List α := []
  quit : Bool := false
  signals : Nat := 0
  callers : Nat := 0
  phase : LoopPhase α := .testing
  queued : List α := []
  called : List α := []
  beforeQuit : Option (List α) := none
  deriving DecidableEq

/-- The steps of the callers, and of the thread of the loop. -/
inductive LoopEvent (α : Type) where
  | queueInLoop (functor : α)
  | quit
  | write
  | test
  | pollFailed
  | polled (woken : Bool)
  | handleWakeup
  | dispatched
  | swap
  | call
  | doneCalling
  deriving DecidableEq

namespace LoopEvent

variable {α : Type}

/-- The steps of the thread of the loop, and the writes that are on their way. -/
def own : LoopEvent α → Bool
  | .queueInLoop _ => false
  | .quit => false
  | _ => true

/-- The steps of those that do not depend on other descriptors. -/
def certain : LoopEvent α → Bool
  | .queueInLoop _ => false
  | .quit => false
  | .pollFailed => false
  | .polled woken => woken
  | _ => true

/-- What a caller gives the thread to do. -/
def cost : LoopEvent α → Nat
  | .queueInLoop _ => 2
  | .quit => 1
  | _ => 0

end LoopEvent

namespace EventLoop

variable {α : Type}

/-- What `QueueInLoop` does under the mutex. The write of the signal comes later. -/
def queueInLoop (loop : EventLoop α) (functor : α) : EventLoop α :=
  { loop with
    pending := loop.pending ++ [functor], callers := loop.callers + 1, queued := loop.queued ++ [functor] }

/-- What `Quit` does before it writes the signal. -/
def setQuit (loop : EventLoop α) : EventLoop α :=
  { loop with quit := true, callers := loop.callers + 1, beforeQuit := loop.beforeQuit.or (some loop.queued) }

/-- One step, if it is possible, for a descriptor with room for some signals. `Poll` also returns for events on other
descriptors, and without any. -/
def step (room : Nat) (loop : EventLoop α) : LoopEvent α → Option (EventLoop α)
  | .queueInLoop functor => some (loop.queueInLoop functor)
  | .quit => some loop.setQuit
  | .write =>
      match loop.callers with
      | callers + 1 => some { loop with signals := min (loop.signals + 1) room, callers := callers }
      | 0 => none
  | .test =>
      match loop.phase with
      | .testing => some { loop with phase := if loop.quit = true then .swapping true else .polling }
      | _ => none
  | .pollFailed =>
      match loop.phase with
      | .polling => some { loop with phase := .testing }
      | _ => none
  | .polled woken =>
      match loop.phase with
      | .polling =>
          if woken = true → 0 < loop.signals then some { loop with phase := .dispatching woken } else none
      | _ => none
  | .handleWakeup =>
      match loop.phase with
      | .dispatching true => some { loop with signals := 0, phase := .dispatching false }
      | _ => none
  | .dispatched =>
      match loop.phase with
      | .dispatching false => some { loop with phase := .swapping false }
      | _ => none
  | .swap =>
      match loop.phase with
      | .swapping last => some { loop with pending := [], phase := .calling loop.pending last }
      | _ => none
  | .call =>
      match loop.phase with
      | .calling (functor :: rest) last =>
          some { loop with phase := .calling rest last, called := loop.called ++ [functor] }
      | _ => none
  | .doneCalling =>
      match loop.phase with
      | .calling [] last => some { loop with phase := if last = true then .left else .testing }
      | _ => none

/-- The steps that are left, once the flag is set and nothing more is queued. -/
def size (loop : EventLoop α) : Nat :=
  loop.phase.rank + loop.phase.batch.length + loop.pending.length + loop.callers

/-- The states a new loop reaches. -/
def Reached (room : Nat) (loop : EventLoop α) : Prop := Steps.Reaches (step room) {} loop

/-! ### What a step does -/

/-- The ways a step can go. -/
inductive Move (room : Nat) (loop : EventLoop α) : LoopEvent α → EventLoop α → Prop
  | queueInLoop {functor : α} : Move room loop (.queueInLoop functor) (loop.queueInLoop functor)
  | quit : Move room loop .quit loop.setQuit
  | write {callers : Nat} (hcallers : loop.callers = callers + 1) :
      Move room loop .write { loop with signals := min (loop.signals + 1) room, callers := callers }
  | leave (hphase : loop.phase = .testing) (hquit : loop.quit = true) :
      Move room loop .test { loop with phase := .swapping true }
  | poll (hphase : loop.phase = .testing) (hquit : loop.quit = false) :
      Move room loop .test { loop with phase := .polling }
  | pollFailed (hphase : loop.phase = .polling) : Move room loop .pollFailed { loop with phase := .testing }
  | polled {woken : Bool} (hphase : loop.phase = .polling) (hwoken : woken = true → 0 < loop.signals) :
      Move room loop (.polled woken) { loop with phase := .dispatching woken }
  | handleWakeup (hphase : loop.phase = .dispatching true) :
      Move room loop .handleWakeup { loop with signals := 0, phase := .dispatching false }
  | dispatched (hphase : loop.phase = .dispatching false) :
      Move room loop .dispatched { loop with phase := .swapping false }
  | swap {last : Bool} (hphase : loop.phase = .swapping last) :
      Move room loop .swap { loop with pending := [], phase := .calling loop.pending last }
  | call {functor : α} {rest : List α} {last : Bool} (hphase : loop.phase = .calling (functor :: rest) last) :
      Move room loop .call { loop with phase := .calling rest last, called := loop.called ++ [functor] }
  | nextTurn (hphase : loop.phase = .calling [] false) : Move room loop .doneCalling { loop with phase := .testing }
  | left (hphase : loop.phase = .calling [] true) : Move room loop .doneCalling { loop with phase := .left }

variable {room : Nat} {loop next : EventLoop α}

theorem step_move {event : LoopEvent α} (h : loop.step room event = some next) : Move room loop event next := by
  cases event with
  | queueInLoop functor =>
      cases h
      exact .queueInLoop
  | quit =>
      cases h
      exact .quit
  | write =>
      simp only [step] at h
      split at h
      · cases h
        exact .write ‹_›
      · cases h
  | test =>
      simp only [step] at h
      split at h
      · by_cases hquit : loop.quit = true
        · rw [if_pos hquit] at h
          cases h
          exact .leave ‹_› hquit
        · rw [if_neg hquit] at h
          cases h
          exact .poll ‹_› (Bool.eq_false_of_not_eq_true hquit)
      · cases h
  | pollFailed =>
      simp only [step] at h
      split at h
      · cases h
        exact .pollFailed ‹_›
      · cases h
  | polled woken =>
      simp only [step] at h
      split at h
      · split at h
        · cases h
          exact .polled ‹_› ‹_›
        · cases h
      · cases h
  | handleWakeup =>
      simp only [step] at h
      split at h
      · cases h
        exact .handleWakeup ‹_›
      · cases h
  | dispatched =>
      simp only [step] at h
      split at h
      · cases h
        exact .dispatched ‹_›
      · cases h
  | swap =>
      simp only [step] at h
      split at h
      · cases h
        exact .swap ‹_›
      · cases h
  | call =>
      simp only [step] at h
      split at h
      · cases h
        exact .call ‹_›
      · cases h
  | doneCalling =>
      simp only [step] at h
      split at h
      · rename_i last hphase
        cases last with
        | false =>
            cases h
            exact .nextTurn hphase
        | true =>
            cases h
            exact .left hphase
      · cases h

/-! ### What every step keeps -/

/-- The functions are run in the order in which they were queued. What is pending, or the flag before `Poll`, has a
signal or a caller on its way to write one, unless the thread is about to swap the functions out. What had been queued
when the flag was set is part of what the last call of `DoPendingFunctors` finds. -/
structure Orderly (loop : EventLoop α) : Prop where
  fifo : loop.queued = loop.called ++ (loop.phase.batch ++ loop.pending)
  heard : loop.pending ≠ [] → loop.phase.isAttending = false → 0 < loop.signals + loop.callers
  quitHeard : loop.quit = true → loop.phase = .polling → 0 < loop.signals + loop.callers
  last : loop.phase.isLast = true → loop.quit = true
  recorded : loop.quit = true → loop.beforeQuit.isSome = true
  early : ∀ early, loop.beforeQuit = some early → early <+: loop.queued
  final : ∀ early, loop.beforeQuit = some early → loop.phase.isLast = true → loop.phase.isAttending = false →
    early <+: loop.called ++ loop.phase.batch

namespace Orderly

theorem start : (({} : EventLoop α)).Orderly where
  fifo := rfl
  heard h := absurd rfl h
  quitHeard h := by cases h
  last h := by cases h
  recorded h := by cases h
  early early h := by cases h
  final early h := by cases h

theorem queueInLoop (h : loop.Orderly) (functor : α) : (loop.queueInLoop functor).Orderly where
  fifo := by simp only [EventLoop.queueInLoop, h.fifo, List.append_assoc]
  heard _ _ := Nat.lt_of_lt_of_le (Nat.succ_pos loop.callers) (Nat.le_add_left _ _)
  quitHeard _ _ := Nat.lt_of_lt_of_le (Nat.succ_pos loop.callers) (Nat.le_add_left _ _)
  last := h.last
  recorded := h.recorded
  early early hearly := (h.early early hearly).trans (List.prefix_append _ _)
  final := h.final

theorem setQuit (h : loop.Orderly) : loop.setQuit.Orderly where
  fifo := h.fifo
  heard _ _ := Nat.lt_of_lt_of_le (Nat.succ_pos loop.callers) (Nat.le_add_left _ _)
  quitHeard _ _ := Nat.lt_of_lt_of_le (Nat.succ_pos loop.callers) (Nat.le_add_left _ _)
  last _ := rfl
  recorded _ := by cases hquit : loop.beforeQuit <;> simp [EventLoop.setQuit, hquit]
  early early hearly := by
    change loop.beforeQuit.or (some loop.queued) = some early at hearly
    cases hquit : loop.beforeQuit with
    | none =>
        rw [hquit] at hearly
        cases hearly
        exact List.prefix_rfl
    | some first =>
        rw [hquit] at hearly
        cases hearly
        exact h.early _ hquit
  final early hearly hlast hattending := by
    -- a loop in its last turn has found the flag set
    obtain ⟨first, hfirst⟩ := Option.isSome_iff_exists.mp (h.recorded (h.last hlast))
    refine h.final early ?_ hlast hattending
    change loop.beforeQuit.or (some loop.queued) = some early at hearly
    rw [← hearly, hfirst]
    rfl

/-- A signal is written. -/
theorem write (h : loop.Orderly) (hroom : 0 < room) {callers : Nat} :
    Orderly { loop with signals := min (loop.signals + 1) room, callers := callers } where
  fifo := h.fifo
  heard _ _ := Nat.lt_of_lt_of_le (lt_min (Nat.succ_pos _) hroom) (Nat.le_add_right _ _)
  quitHeard _ _ := Nat.lt_of_lt_of_le (lt_min (Nat.succ_pos _) hroom) (Nat.le_add_right _ _)
  last := h.last
  recorded := h.recorded
  early := h.early
  final := h.final

/-- The thread goes on, and swaps nothing out and runs nothing. -/
theorem pass (h : loop.Orderly) {phase : LoopPhase α} {signals : Nat} (hbatch : phase.batch = loop.phase.batch)
    (hheard : phase.isAttending = false → loop.phase.isAttending = false ∧ signals = loop.signals)
    (hpolling : phase = .polling → loop.quit = false) (hlast : phase.isLast = true → loop.quit = true)
    (hfinal : phase.isLast = true → phase.isAttending = false → loop.phase.isLast = true ∧
      loop.phase.isAttending = false) : Orderly { loop with signals := signals, phase := phase } where
  fifo := by
    change loop.queued = loop.called ++ (phase.batch ++ loop.pending)
    rw [hbatch]
    exact h.fifo
  heard hpending hattending := by
    obtain ⟨hbefore, hsignals⟩ := hheard hattending
    change 0 < signals + loop.callers
    rw [hsignals]
    exact h.heard hpending hbefore
  quitHeard hquit hphase := absurd ((hpolling hphase).symm.trans hquit) Bool.false_ne_true
  last := hlast
  recorded := h.recorded
  early := h.early
  final early hearly hlast hattending := by
    obtain ⟨hbefore, hattended⟩ := hfinal hlast hattending
    change early <+: loop.called ++ phase.batch
    rw [hbatch]
    exact h.final early hearly hbefore hattended

theorem swap (h : loop.Orderly) {last : Bool} (hphase : loop.phase = .swapping last) :
    Orderly { loop with pending := [], phase := .calling loop.pending last } := by
  have hfifo : loop.queued = loop.called ++ loop.pending := by simpa [hphase, LoopPhase.batch] using h.fifo
  refine ⟨?_, fun habsurd => absurd rfl habsurd, fun _ habsurd => (by cases habsurd), fun hlast => ?_, h.recorded,
    h.early, fun early hearly _ _ => ?_⟩
  · simpa [LoopPhase.batch] using hfifo
  · exact h.last (by rw [hphase]; exact hlast)
  · change early <+: loop.called ++ loop.pending
    rw [← hfifo]
    exact h.early early hearly

theorem call (h : loop.Orderly) {functor : α} {rest : List α} {last : Bool}
    (hphase : loop.phase = .calling (functor :: rest) last) :
    Orderly { loop with phase := .calling rest last, called := loop.called ++ [functor] } := by
  have hmoved : loop.called ++ loop.phase.batch = loop.called ++ [functor] ++ rest := by
    simp [hphase, LoopPhase.batch]
  refine ⟨?_, fun hpending _ => ?_, fun _ habsurd => (by cases habsurd), fun hlast => ?_, h.recorded, h.early,
    fun early hearly hlast _ => ?_⟩
  · change loop.queued = loop.called ++ [functor] ++ (rest ++ loop.pending)
    rw [← List.append_assoc, ← hmoved, List.append_assoc]
    exact h.fifo
  · exact h.heard hpending (by rw [hphase]; rfl)
  · exact h.last (by rw [hphase]; exact hlast)
  · change early <+: loop.called ++ [functor] ++ rest
    rw [← hmoved]
    exact h.final early hearly (by rw [hphase]; exact hlast) (by rw [hphase]; rfl)

/-- **What every step keeps.** -/
theorem step (h : loop.Orderly) (hroom : 0 < room) {event : LoopEvent α} (hstep : loop.step room event = some next) :
    next.Orderly := by
  cases step_move hstep with
  | queueInLoop => exact h.queueInLoop _
  | quit => exact h.setQuit
  | write hcallers => exact h.write hroom
  | leave hphase hquit =>
      exact h.pass (by rw [hphase]; rfl) (fun habsurd => by cases habsurd) (fun habsurd => by cases habsurd)
        (fun _ => hquit) (fun _ habsurd => by cases habsurd)
  | poll hphase hquit =>
      exact h.pass (by rw [hphase]; rfl) (fun _ => ⟨by rw [hphase]; rfl, rfl⟩) (fun _ => hquit)
        (fun habsurd => by cases habsurd) (fun habsurd => by cases habsurd)
  | pollFailed hphase =>
      exact h.pass (by rw [hphase]; rfl) (fun _ => ⟨by rw [hphase]; rfl, rfl⟩) (fun habsurd => by cases habsurd)
        (fun habsurd => by cases habsurd) (fun habsurd => by cases habsurd)
  | polled hphase hwoken =>
      exact h.pass (by rw [hphase]; rfl) (fun _ => ⟨by rw [hphase]; rfl, rfl⟩) (fun habsurd => by cases habsurd)
        (fun habsurd => by cases habsurd) (fun habsurd => by cases habsurd)
  | handleWakeup hphase =>
      exact h.pass (by rw [hphase]; rfl) (fun habsurd => by cases habsurd) (fun habsurd => by cases habsurd)
        (fun habsurd => by cases habsurd) (fun habsurd => by cases habsurd)
  | dispatched hphase =>
      exact h.pass (by rw [hphase]; rfl) (fun habsurd => by cases habsurd) (fun habsurd => by cases habsurd)
        (fun habsurd => by cases habsurd) (fun habsurd => by cases habsurd)
  | swap hphase => exact h.swap hphase
  | call hphase => exact h.call hphase
  | nextTurn hphase =>
      exact h.pass (by rw [hphase]; rfl) (fun _ => ⟨by rw [hphase]; rfl, rfl⟩) (fun habsurd => by cases habsurd)
        (fun habsurd => by cases habsurd) (fun habsurd => by cases habsurd)
  | left hphase =>
      have hlast : loop.phase.isLast = true := by rw [hphase]; rfl
      exact h.pass (by rw [hphase]; rfl) (fun _ => ⟨by rw [hphase]; rfl, rfl⟩) (fun habsurd => by cases habsurd)
        (fun _ => h.last hlast) (fun _ _ => ⟨hlast, by rw [hphase]; rfl⟩)

end Orderly

theorem Reached.orderly (h : Reached room loop) (hroom : 0 < room) : loop.Orderly :=
  Steps.Reaches.keeps (fun hkept hstep => Orderly.step hkept hroom hstep) h .start

/-- **First in, first out.** Every function queued in a loop is run at most once, in the order in which the functions
were queued; those not yet run are what was swapped out last and what is pending. When the thread has left the loop, it
has run everything that was queued before `Quit`. -/
theorem functors_in_order (h : Reached room loop) (hroom : 0 < room) :
    loop.called ++ (loop.phase.batch ++ loop.pending) = loop.queued ∧
      (loop.phase = .left → ∀ early, loop.beforeQuit = some early → early <+: loop.called) := by
  have horderly := h.orderly hroom
  refine ⟨horderly.fifo.symm, fun hphase early hearly => ?_⟩
  have hfinal := horderly.final early hearly (by rw [hphase]; rfl) (by rw [hphase]; rfl)
  simpa [hphase, LoopPhase.batch] using hfinal

/-- A function is queued while the thread is in `Poll`, and another one while the first is run. -/
def queuedTwice : List (LoopEvent Nat) :=
  [.test, .queueInLoop 1, .write, .polled true, .handleWakeup, .dispatched, .swap, .queueInLoop 2, .call, .doneCalling,
    .test]

/-- The loop after that, again in `Poll`: the second caller has not written its signal yet. -/
def calledOnce : EventLoop Nat :=
  { pending := [2], callers := 1, phase := .polling, queued := [1, 2], called := [1] }

theorem reached_calledOnce : Reached 1 calledOnce := ⟨queuedTwice, by decide⟩

/-- The flag is set while a function is pending. -/
def quitted : EventLoop Nat :=
  { calledOnce with quit := true, callers := 2, beforeQuit := some [1, 2] }

theorem reached_quitted : Reached 1 quitted := reached_calledOnce.trans (Steps.Reaches.single .quit rfl)

/-- The steps to the end of the loop. -/
def lastTurns : List (LoopEvent Nat) :=
  [.write, .polled true, .handleWakeup, .write, .dispatched, .swap, .call, .doneCalling, .test, .swap, .doneCalling]

/-- The second function is pending, and run before the thread leaves the loop. -/
theorem functors_in_order_calledOnce :
    [1] ++ ([] ++ [2]) = calledOnce.queued ∧
      ∃ later, Steps.run (step 1) quitted lastTurns = some later ∧ later.phase = .left ∧ [1, 2] <+: later.called := by
  obtain ⟨later, hrun⟩ := Option.isSome_iff_exists.mp
    (by decide : (Steps.run (step 1) quitted lastTurns).isSome = true)
  have hstate : (Steps.run (step 1) quitted lastTurns).map (fun later => (later.phase, later.beforeQuit)) =
      some (.left, some [1, 2]) := by decide
  rw [hrun, Option.map_some] at hstate
  obtain ⟨hphase, hearly⟩ : later.phase = .left ∧ later.beforeQuit = some [1, 2] := by simpa using hstate
  obtain ⟨-, hleft⟩ := functors_in_order (reached_quitted.trans ⟨lastTurns, hrun⟩) (by decide)
  exact ⟨(functors_in_order reached_calledOnce (by decide)).1, later, hrun, hphase, hleft hphase _ hearly⟩

/-- **No lost wakeup.** While the thread is in `Poll` and the descriptor holds no signal, nothing is pending and the flag
is not set, or a caller is on its way to write a signal. -/
theorem no_lost_wakeup (h : Reached room loop) (hroom : 0 < room) (hphase : loop.phase = .polling)
    (hsignals : loop.signals = 0) : (loop.pending = [] ∧ loop.quit = false) ∨ 0 < loop.callers := by
  have horderly := h.orderly hroom
  by_cases hpending : loop.pending = []
  · cases hquit : loop.quit with
    | false => exact .inl ⟨hpending, rfl⟩
    | true =>
        have hheard := horderly.quitHeard hquit hphase
        exact .inr (by omega)
  · have hheard := horderly.heard hpending (by rw [hphase]; rfl)
    exact .inr (by omega)

theorem no_lost_wakeup_calledOnce : (calledOnce.pending = [] ∧ calledOnce.quit = false) ∨ 0 < calledOnce.callers :=
  no_lost_wakeup reached_calledOnce (by decide) rfl rfl

/-! ### Leaving the loop -/

/-- With the flag set, each step of the thread brings it nearer to its end. -/
theorem step_quitting (hroom : 0 < room) {event : LoopEvent α} {early : List α}
    (h : loop.Orderly ∧ loop.quit = true ∧ loop.beforeQuit = some early) (hstep : loop.step room event = some next) :
    (next.Orderly ∧ next.quit = true ∧ next.beforeQuit = some early) ∧
      next.size + (if event.own = true then 1 else 0) ≤ loop.size + event.cost := by
  obtain ⟨horderly, hquit, hearly⟩ := h
  refine ⟨⟨horderly.step hroom hstep, ?_⟩, ?_⟩
  · cases step_move hstep with
    | quit => exact ⟨rfl, by simp only [setQuit, hearly, Option.some_or]⟩
    | poll hphase hopen => exact absurd (hopen.symm.trans hquit) Bool.false_ne_true
    | queueInLoop => exact ⟨hquit, hearly⟩
    | write hcallers => exact ⟨hquit, hearly⟩
    | leave hphase hset => exact ⟨hquit, hearly⟩
    | pollFailed hphase => exact ⟨hquit, hearly⟩
    | polled hphase hwoken => exact ⟨hquit, hearly⟩
    | handleWakeup hphase => exact ⟨hquit, hearly⟩
    | dispatched hphase => exact ⟨hquit, hearly⟩
    | swap hphase => exact ⟨hquit, hearly⟩
    | call hphase => exact ⟨hquit, hearly⟩
    | nextTurn hphase => exact ⟨hquit, hearly⟩
    | left hphase => exact ⟨hquit, hearly⟩
  · cases step_move hstep with
    | poll hphase hopen => exact absurd (hopen.symm.trans hquit) Bool.false_ne_true
    | queueInLoop =>
        simp only [size, queueInLoop, LoopEvent.own, LoopEvent.cost, List.length_append, List.length_singleton,
          Bool.false_eq_true, if_false]
        omega
    | quit => exact le_refl (loop.size + 1)
    | write hcallers =>
        simp only [size, LoopEvent.own, LoopEvent.cost, hcallers, if_true]
        omega
    | @polled woken hphase hwoken =>
        cases woken <;>
          simp only [size, LoopEvent.own, LoopEvent.cost, hphase, LoopPhase.rank, LoopPhase.batch, if_true] <;> omega
    | @swap last hphase =>
        cases last <;>
          simp only [size, LoopEvent.own, LoopEvent.cost, hphase, LoopPhase.rank, LoopPhase.batch, if_true,
            List.length_nil] <;> omega
    | @call functor rest last hphase =>
        cases last <;>
          simp only [size, LoopEvent.own, LoopEvent.cost, hphase, LoopPhase.rank, LoopPhase.batch, if_true,
            List.length_cons] <;> omega
    | leave hphase hset | pollFailed hphase | handleWakeup hphase | dispatched hphase | nextTurn hphase | left hphase =>
        simp only [size, LoopEvent.own, LoopEvent.cost, hphase, LoopPhase.rank, LoopPhase.batch, if_true]
        omega

/-- A loop whose flag is set goes on until its thread has left it. -/
theorem Orderly.ended (h : loop.Orderly) (hquit : loop.quit = true)
    (hends : Steps.Ends (EventLoop.step room) (fun event => event.certain = true) loop) :
    loop.phase = .left ∧ loop.callers = 0 := by
  have hcallers : loop.callers = 0 := by
    cases hcount : loop.callers with
    | zero => rfl
    | succ callers =>
        have hwrite := hends .write rfl
        simp [EventLoop.step, hcount] at hwrite
  refine ⟨?_, hcallers⟩
  cases hphase : loop.phase with
  | testing =>
      have htest := hends .test rfl
      simp [EventLoop.step, hphase] at htest
  | polling =>
      have hheard := h.quitHeard hquit hphase
      have hpolled := hends (.polled true) rfl
      simp only [EventLoop.step, hphase] at hpolled
      rw [if_pos fun _ => by omega] at hpolled
      cases hpolled
  | dispatching woken =>
      cases woken with
      | true =>
          have hhandle := hends .handleWakeup rfl
          simp [EventLoop.step, hphase] at hhandle
      | false =>
          have hdispatched := hends .dispatched rfl
          simp [EventLoop.step, hphase] at hdispatched
  | swapping last =>
      have hswap := hends .swap rfl
      simp [EventLoop.step, hphase] at hswap
  | calling functors last =>
      cases functors with
      | nil =>
          have hdone := hends .doneCalling rfl
          simp [EventLoop.step, hphase] at hdone
      | cons functor rest =>
          have hcall := hends .call rfl
          simp [EventLoop.step, hphase] at hcall
  | left => rfl

/-- **`Quit` ends the loop.** Once the flag is set, the thread makes a bounded number of steps for what it is given to
do. It can always go on without other descriptors, until it has left the loop after everything that was queued before
`Quit`. -/
theorem quit_ends (h : Reached room loop) (hroom : 0 < room) (hquit : loop.quit = true) {events : List (LoopEvent α)}
    {later : EventLoop α} (hrun : Steps.run (step room) loop events = some later) :
    events.countP LoopEvent.own ≤ loop.size + (events.map LoopEvent.cost).sum ∧
      (Steps.Ends (step room) (fun event => event.certain = true) later →
        later.phase = .left ∧ later.callers = 0 ∧ ∃ early, loop.beforeQuit = some early ∧ early <+: later.called) := by
  obtain ⟨early, hearly⟩ := Option.isSome_iff_exists.mp ((h.orderly hroom).recorded hquit)
  obtain ⟨⟨horderly, hstill, hsame⟩, hbound⟩ := @Steps.run_bounded _ _ (step room) _ LoopEvent.own LoopEvent.cost size
    (fun hkept hstep => step_quitting hroom hkept hstep) _ _ _ hrun ⟨h.orderly hroom, hquit, hearly⟩
  refine ⟨by omega, fun hends => ?_⟩
  obtain ⟨hphase, hcallers⟩ := horderly.ended hstill hends
  refine ⟨hphase, hcallers, early, hearly, ?_⟩
  have hfinal := horderly.final early hsame (by rw [hphase]; rfl) (by rw [hphase]; rfl)
  simpa [hphase, LoopPhase.batch] using hfinal

theorem quit_ends_quitted :
    ∃ later, Steps.run (step 1) quitted lastTurns = some later ∧ lastTurns.countP LoopEvent.own ≤ quitted.size ∧
      later.phase = .left ∧ ∃ early, quitted.beforeQuit = some early ∧ early <+: later.called := by
  obtain ⟨later, hrun⟩ := Option.isSome_iff_exists.mp
    (by decide : (Steps.run (step 1) quitted lastTurns).isSome = true)
  have hstate : (Steps.run (step 1) quitted lastTurns).map (fun later => (later.phase, later.callers)) =
      some (.left, 0) := by decide
  rw [hrun, Option.map_some] at hstate
  obtain ⟨hphase, hcallers⟩ : later.phase = .left ∧ later.callers = 0 := by simpa using hstate
  obtain ⟨hbound, hended⟩ := quit_ends reached_quitted (by decide) rfl hrun
  have hends : Steps.Ends (step 1) (fun event => event.certain = true) later := by
    intro event hcertain
    cases event with
    | queueInLoop functor => cases hcertain
    | quit => cases hcertain
    | write => simp [step, hcallers]
    | _ => simp [step, hphase]
  obtain ⟨-, -, hearly⟩ := hended hends
  exact ⟨later, hrun, by simpa [lastTurns, LoopEvent.cost] using hbound, hphase, hearly⟩

end EventLoop

end LogMq
