import LogMq.LibSteps

/-! A thread that does its work once in every interval, until it is told to stop. In between it waits on a condition
variable with a predicate. Who stops it may hold the mutex that the thread waits with, or not; if not, the notification
may come after the predicate was evaluated and before the thread is blocked. -/

namespace Periodic

/-- Where the thread is: before its wait, behind a predicate that was false, blocked, on its way to the mutex again,
behind a wait that has timed out, at work, or at its end. -/
inductive Place where
  | starting
  | blocking (deadline : Nat)
  | blocked (deadline : Nat)
  | woken (deadline : Nat) (expired : Bool)
  | deciding
  | working
  | returned
  deriving DecidableEq

namespace Place

/-- The thread holds the mutex between two of its steps. -/
def holds : Place → Bool
  | .blocking _ => true
  | .deciding => true
  | _ => false

/-- A blocked thread goes for the mutex again. -/
def notified : Place → Place
  | .blocked deadline => .woken deadline false
  | place => place

/-- When the wait is over. -/
def deadline? : Place → Option Nat
  | .blocking deadline => some deadline
  | .blocked deadline => some deadline
  | .woken deadline _ => some deadline
  | _ => none

/-- The steps that are left, once the thread is to stop. -/
def size : Place → Nat
  | .starting => 1
  | .blocking _ => 3
  | .blocked _ => 2
  | .woken _ _ => 1
  | .deciding => 1
  | .working => 2
  | .returned => 0

end Place

/-- The thread, its flag, the calls of `notify_all` that are still to come, and a steady clock. The last two fields are
the history: how often the thread has worked, and when its last wait has begun. -/
structure Thread where
  place : Place := .starting
  stop : Bool := false
  notifyAll : Nat := 0
  steady : Nat := 0
  works : Nat := 0
  since : Nat := 0
  deriving DecidableEq

/-- What the thread, who stops it, the condition variable and the clock do. -/
inductive Event where
  | close
  | notifyAll
  | wake
  | timeout
  | enter
  | block
  | check
  | decide
  | finish
  | pass (elapsed : Nat)
  deriving DecidableEq

namespace Event

/-- The steps of the thread, and the notifications on their way. -/
def own : Event → Bool
  | .close => false
  | .pass _ => false
  | _ => true

/-- Those that do not wait for the thread to wake up by itself. -/
def certain : Event → Bool
  | .close => false
  | .pass _ => false
  | .wake => false
  | _ => true

def cost : Event → Nat
  | .close => 1
  | _ => 0

theorem own_of_certain {event : Event} (h : event.certain = true) : event.own = true := by
  cases event <;> first | rfl | cases h

theorem cost_of_own {event : Event} (h : event.own = true) : event.cost = 0 := by
  cases event <;> first | rfl | cases h

end Event

section Step

variable (interval : Nat) (locked : Bool)

/-- One step, if it is possible. If the flag is set under the mutex, this has to wait for the thread. -/
def step (thread : Thread) : Event → Option Thread
  | .close =>
      if locked = true ∧ thread.place.holds = true then none
      else some { thread with stop := true, notifyAll := thread.notifyAll + 1 }
  | .notifyAll =>
      match thread.notifyAll with
      | calls + 1 => some { thread with notifyAll := calls, place := thread.place.notified }
      | 0 => none
  | .wake =>
      match thread.place with
      | .blocked deadline => some { thread with place := .woken deadline false }
      | _ => none
  | .timeout =>
      match thread.place with
      | .blocked deadline => if deadline ≤ thread.steady then some { thread with place := .woken deadline true } else none
      | _ => none
  | .enter =>
      match thread.place with
      | .starting =>
          if thread.stop = true then some { thread with place := .returned }
          else some { thread with place := .blocking (thread.steady + interval), since := thread.steady }
      | _ => none
  | .block =>
      match thread.place with
      | .blocking deadline => some { thread with place := .blocked deadline }
      | _ => none
  | .check =>
      match thread.place with
      | .woken deadline expired =>
          some { thread with
            place := if thread.stop = true then .returned else if expired = true then .deciding else .blocking deadline }
      | _ => none
  | .decide =>
      match thread.place with
      | .deciding => some { thread with place := if thread.stop = true then .returned else .working }
      | _ => none
  | .finish =>
      match thread.place with
      | .working => some { thread with place := .starting, works := thread.works + 1 }
      | _ => none
  | .pass elapsed => some { thread with steady := thread.steady + elapsed }

end Step

/-- The steps that are left, once the thread is to stop. -/
def Thread.size (thread : Thread) : Nat := thread.place.size + thread.notifyAll

variable {interval : Nat} {locked : Bool} {thread next : Thread}

/-! ### What a step does -/

/-- The ways a step can go. -/
inductive Move (interval : Nat) (locked : Bool) (thread : Thread) : Event → Thread → Prop
  | close (hfree : locked = true → thread.place.holds = false) :
      Move interval locked thread .close { thread with stop := true, notifyAll := thread.notifyAll + 1 }
  | notifyAll {calls : Nat} (hcalls : thread.notifyAll = calls + 1) :
      Move interval locked thread .notifyAll { thread with notifyAll := calls, place := thread.place.notified }
  | wake {deadline : Nat} (hplace : thread.place = .blocked deadline) :
      Move interval locked thread .wake { thread with place := .woken deadline false }
  | timeout {deadline : Nat} (hplace : thread.place = .blocked deadline) (hdue : deadline ≤ thread.steady) :
      Move interval locked thread .timeout { thread with place := .woken deadline true }
  | enter (hplace : thread.place = .starting) (hopen : thread.stop = false) :
      Move interval locked thread .enter
        { thread with place := .blocking (thread.steady + interval), since := thread.steady }
  | block {deadline : Nat} (hplace : thread.place = .blocking deadline) :
      Move interval locked thread .block { thread with place := .blocked deadline }
  | again {deadline : Nat} (hplace : thread.place = .woken deadline false) (hopen : thread.stop = false) :
      Move interval locked thread .check { thread with place := .blocking deadline }
  | expired {deadline : Nat} (hplace : thread.place = .woken deadline true) (hopen : thread.stop = false) :
      Move interval locked thread .check { thread with place := .deciding }
  | decide (hplace : thread.place = .deciding) (hopen : thread.stop = false) :
      Move interval locked thread .decide { thread with place := .working }
  | leave {event : Event} (hown : event = .enter ∨ event = .check ∨ event = .decide) (hsize : thread.place.size = 1)
      (hstop : thread.stop = true) : Move interval locked thread event { thread with place := .returned }
  | finish (hplace : thread.place = .working) :
      Move interval locked thread .finish { thread with place := .starting, works := thread.works + 1 }
  | pass {elapsed : Nat} : Move interval locked thread (.pass elapsed) { thread with steady := thread.steady + elapsed }

theorem step_move {event : Event} (h : step interval locked thread event = some next) :
    Move interval locked thread event next := by
  cases event with
  | close =>
      simp only [step] at h
      split at h
      · cases h
      · rename_i hfree
        cases h
        exact .close fun hlocked => Bool.eq_false_of_not_eq_true fun hholds => hfree ⟨hlocked, hholds⟩
  | notifyAll =>
      simp only [step] at h
      split at h
      · cases h
        exact .notifyAll ‹_›
      · cases h
  | wake =>
      simp only [step] at h
      split at h
      · cases h
        exact .wake ‹_›
      · cases h
  | timeout =>
      simp only [step] at h
      split at h
      · split at h
        · cases h
          exact .timeout ‹_› ‹_›
        · cases h
      · cases h
  | enter =>
      simp only [step] at h
      split at h
      · rename_i hplace
        split at h
        · cases h
          exact .leave (.inl rfl) (by rw [hplace]; rfl) ‹_›
        · cases h
          exact .enter hplace (Bool.eq_false_of_not_eq_true ‹_›)
      · cases h
  | block =>
      simp only [step] at h
      split at h
      · cases h
        exact .block ‹_›
      · cases h
  | check =>
      simp only [step] at h
      split at h
      · rename_i expired hplace
        cases h
        split
        · exact .leave (.inr (.inl rfl)) (by rw [hplace]; rfl) ‹_›
        · rename_i hopen
          cases expired with
          | true => exact .expired hplace (Bool.eq_false_of_not_eq_true hopen)
          | false => exact .again hplace (Bool.eq_false_of_not_eq_true hopen)
      · cases h
  | decide =>
      simp only [step] at h
      split at h
      · rename_i hplace
        cases h
        split
        · exact .leave (.inr (.inr rfl)) (by rw [hplace]; rfl) ‹_›
        · exact .decide hplace (Bool.eq_false_of_not_eq_true ‹_›)
      · cases h
  | finish =>
      simp only [step] at h
      split at h
      · cases h
        exact .finish ‹_›
      · cases h
  | pass elapsed =>
      cases h
      exact .pass

/-- The clock does not go back. -/
theorem steady_le {event : Event} (h : step interval locked thread event = some next) : thread.steady ≤ next.steady := by
  cases step_move h with
  | pass => exact Nat.le_add_right _ _
  | _ => exact le_refl _

theorem Place.notified_deadline? (place : Place) : place.notified.deadline? = place.deadline? := by
  cases place <;> rfl

/-- A wait goes on, or it begins. -/
theorem since_cases {event : Event} (h : step interval locked thread event = some next) {deadline : Nat}
    (hdeadline : next.place.deadline? = some deadline) :
    (thread.place.deadline? = some deadline ∧ next.since = thread.since) ∨ next.since = thread.steady := by
  cases step_move h with
  | close => exact .inl ⟨hdeadline, rfl⟩
  | notifyAll => exact .inl ⟨(Place.notified_deadline? _).symm.trans hdeadline, rfl⟩
  | wake hplace => exact .inl ⟨by rw [hplace]; exact hdeadline, rfl⟩
  | timeout hplace => exact .inl ⟨by rw [hplace]; exact hdeadline, rfl⟩
  | enter => exact .inr rfl
  | block hplace => exact .inl ⟨by rw [hplace]; exact hdeadline, rfl⟩
  | again hplace => exact .inl ⟨by rw [hplace]; exact hdeadline, rfl⟩
  | expired => cases hdeadline
  | decide => cases hdeadline
  | leave => cases hdeadline
  | finish => cases hdeadline
  | pass => exact .inl ⟨hdeadline, rfl⟩

/-- Only its own last step ends the work. -/
theorem working_stays {event : Event} (h : step interval locked thread event = some next)
    (hworking : thread.place = .working) (hfinish : event ≠ .finish) : next.place = .working := by
  cases step_move h with
  | close => exact hworking
  | notifyAll =>
      dsimp only
      rw [hworking]
      rfl
  | finish => exact absurd rfl hfinish
  | pass => exact hworking
  | leave hown hsize =>
      rw [hworking] at hsize
      cases hsize
  | wake hplace => cases hworking.symm.trans hplace
  | timeout hplace => cases hworking.symm.trans hplace
  | enter hplace => cases hworking.symm.trans hplace
  | block hplace => cases hworking.symm.trans hplace
  | again hplace => cases hworking.symm.trans hplace
  | expired hplace => cases hworking.symm.trans hplace
  | decide hplace => cases hworking.symm.trans hplace

/-- A thread that is to stop is not told otherwise. -/
theorem stop_stays {event : Event} (h : step interval locked thread event = some next) (hstop : thread.stop = true) :
    next.stop = true := by
  cases step_move h with
  | close => rfl
  | _ => exact hstop

/-- A thread that has returned is gone. -/
theorem returned_stays {event : Event} (h : step interval locked thread event = some next)
    (hreturned : thread.place = .returned) : next.place = .returned := by
  cases step_move h with
  | close => exact hreturned
  | notifyAll =>
      dsimp only
      rw [hreturned]
      rfl
  | leave => rfl
  | pass => exact hreturned
  | wake hplace => cases hreturned.symm.trans hplace
  | timeout hplace => cases hreturned.symm.trans hplace
  | enter hplace => cases hreturned.symm.trans hplace
  | block hplace => cases hreturned.symm.trans hplace
  | again hplace => cases hreturned.symm.trans hplace
  | expired hplace => cases hreturned.symm.trans hplace
  | decide hplace => cases hreturned.symm.trans hplace
  | finish hplace => cases hreturned.symm.trans hplace

theorem place_of_finish (h : step interval locked thread .finish ≠ none) : thread.place = .working := by
  by_contra hplace
  refine h ?_
  simp only [step]

/-! ### What every step keeps -/

/-- What is known where the thread is. A wait ends an interval after it has begun, and the thread does not go on before
that. If the flag is set under the mutex, a thread that is to stop is not blocked, up to a call of `notify_all`. -/
def Place.Fits (interval : Nat) (locked : Bool) (thread : Thread) : Place → Prop
  | .starting => True
  | .blocking deadline =>
      deadline = thread.since + interval ∧ thread.works * interval ≤ thread.since ∧
        (locked = true → thread.stop = false)
  | .blocked deadline =>
      deadline = thread.since + interval ∧ thread.works * interval ≤ thread.since ∧
        (locked = true → thread.stop = true → 0 < thread.notifyAll)
  | .woken deadline expired =>
      deadline = thread.since + interval ∧ thread.works * interval ≤ thread.since ∧
        (expired = true → deadline ≤ thread.steady)
  | .deciding => (thread.works + 1) * interval ≤ thread.steady ∧ (locked = true → thread.stop = false)
  | .working => (thread.works + 1) * interval ≤ thread.steady
  | .returned => thread.stop = true

/-- The thread works no more than once in each interval. -/
structure Orderly (interval : Nat) (locked : Bool) (thread : Thread) : Prop where
  past : thread.since ≤ thread.steady
  rate : thread.works * interval ≤ thread.steady
  fits : thread.place.Fits interval locked thread

namespace Orderly

theorem fits_of_place (h : Orderly interval locked thread) {place : Place} (hplace : thread.place = place) :
    place.Fits interval locked thread := hplace ▸ h.fits

/-- A blocked thread is on its way again before its wait is over. -/
theorem woken (h : Orderly interval locked thread) {deadline : Nat} (hplace : thread.place = .blocked deadline)
    (calls : Nat) : Orderly interval locked { thread with place := .woken deadline false, notifyAll := calls } := by
  obtain ⟨htimed, hpaced, -⟩ := h.fits_of_place hplace
  exact ⟨h.past, h.rate, htimed, hpaced, fun habsurd => absurd habsurd Bool.noConfusion⟩

/-- A notification changes a blocked thread only. -/
theorem notified (h : Orderly interval locked thread) (calls : Nat) :
    Orderly interval locked { thread with place := thread.place.notified, notifyAll := calls } := by
  have hfits := h.fits
  cases hplace : thread.place with
  | blocked deadline => exact h.woken hplace calls
  | starting => exact ⟨h.past, h.rate, trivial⟩
  | blocking deadline =>
      rw [hplace] at hfits
      exact ⟨h.past, h.rate, hfits⟩
  | woken deadline expired =>
      rw [hplace] at hfits
      exact ⟨h.past, h.rate, hfits⟩
  | deciding =>
      rw [hplace] at hfits
      exact ⟨h.past, h.rate, hfits⟩
  | working =>
      rw [hplace] at hfits
      exact ⟨h.past, h.rate, hfits⟩
  | returned =>
      rw [hplace] at hfits
      exact ⟨h.past, h.rate, hfits⟩

theorem close (h : Orderly interval locked thread) (hfree : locked = true → thread.place.holds = false) :
    Orderly interval locked { thread with stop := true, notifyAll := thread.notifyAll + 1 } := by
  have hfits := h.fits
  refine ⟨h.past, h.rate, ?_⟩
  dsimp only
  cases hplace : thread.place with
  | starting => trivial
  | blocking deadline =>
      rw [hplace] at hfits hfree
      exact ⟨hfits.1, hfits.2.1, fun hlocked => absurd (hfree hlocked) Bool.noConfusion⟩
  | blocked deadline =>
      rw [hplace] at hfits
      exact ⟨hfits.1, hfits.2.1, fun _ _ => Nat.succ_pos _⟩
  | woken deadline expired =>
      rw [hplace] at hfits
      exact hfits
  | deciding =>
      rw [hplace] at hfits hfree
      exact ⟨hfits.1, fun hlocked => absurd (hfree hlocked) Bool.noConfusion⟩
  | working =>
      rw [hplace] at hfits
      exact hfits
  | returned => rfl

theorem pass (h : Orderly interval locked thread) (elapsed : Nat) :
    Orderly interval locked { thread with steady := thread.steady + elapsed } := by
  have hfits := h.fits
  have hlater : ∀ time, time ≤ thread.steady → time ≤ thread.steady + elapsed :=
    fun _ htime => htime.trans (Nat.le_add_right _ _)
  refine ⟨hlater _ h.past, hlater _ h.rate, ?_⟩
  dsimp only
  cases hplace : thread.place with
  | starting => trivial
  | blocking deadline =>
      rw [hplace] at hfits
      exact hfits
  | blocked deadline =>
      rw [hplace] at hfits
      exact hfits
  | woken deadline expired =>
      rw [hplace] at hfits
      exact ⟨hfits.1, hfits.2.1, fun hexpired => hlater _ (hfits.2.2 hexpired)⟩
  | deciding =>
      rw [hplace] at hfits
      exact ⟨hlater _ hfits.1, hfits.2⟩
  | working =>
      rw [hplace] at hfits
      exact hlater _ hfits
  | returned =>
      rw [hplace] at hfits
      exact hfits

/-- **What every step keeps.** -/
theorem step (h : Orderly interval locked thread) {event : Event}
    (hstep : Periodic.step interval locked thread event = some next) : Orderly interval locked next := by
  cases step_move hstep with
  | close hfree => exact h.close hfree
  | notifyAll hcalls => exact h.notified _
  | wake hplace => exact h.woken hplace _
  | timeout hplace hdue =>
      obtain ⟨htimed, hpaced, -⟩ := h.fits_of_place hplace
      exact ⟨h.past, h.rate, htimed, hpaced, fun _ => hdue⟩
  | enter hplace hopen => exact ⟨le_refl _, h.rate, rfl, h.rate, fun _ => hopen⟩
  | block hplace =>
      obtain ⟨htimed, hpaced, hheld⟩ := h.fits_of_place hplace
      refine ⟨h.past, h.rate, htimed, hpaced, fun hlocked hstop => ?_⟩
      exact absurd (hstop.symm.trans (hheld hlocked)) Bool.noConfusion
  | again hplace hopen =>
      obtain ⟨htimed, hpaced, -⟩ := h.fits_of_place hplace
      exact ⟨h.past, h.rate, htimed, hpaced, fun _ => hopen⟩
  | expired hplace hopen =>
      obtain ⟨rfl, hpaced, hdue⟩ := h.fits_of_place hplace
      refine ⟨h.past, h.rate, ?_, fun _ => hopen⟩
      calc (thread.works + 1) * interval = thread.works * interval + interval := Nat.succ_mul _ _
        _ ≤ thread.since + interval := Nat.add_le_add_right hpaced _
        _ ≤ thread.steady := hdue rfl
  | decide hplace hopen => exact ⟨h.past, h.rate, (h.fits_of_place hplace).1⟩
  | leave hown hsize hstop => exact ⟨h.past, h.rate, hstop⟩
  | finish hplace => exact ⟨h.past, h.fits_of_place hplace, trivial⟩
  | pass => exact h.pass _

end Orderly

theorem Orderly.start : Orderly interval locked {} where
  past := le_refl _
  rate := by simp
  fits := trivial

/-! ### A thread that has nothing to do -/

/-- Such a thread has returned, or it sleeps until an interval after its wait has begun. -/
theorem Orderly.ends_cases (h : Orderly interval locked thread)
    (hends : Steps.Ends (Periodic.step interval locked) (fun event => event.certain = true) thread) :
    thread.notifyAll = 0 ∧ (thread.place = .returned ∧ thread.stop = true ∨
      thread.place = .blocked (thread.since + interval) ∧ thread.since ≤ thread.steady ∧
        thread.steady < thread.since + interval ∧ (locked = true → thread.stop = false)) := by
  have hcalls : thread.notifyAll = 0 := by
    cases hcount : thread.notifyAll with
    | zero => rfl
    | succ calls =>
        have hnotify := hends .notifyAll rfl
        simp [Periodic.step, hcount] at hnotify
  refine ⟨hcalls, ?_⟩
  cases hplace : thread.place with
  | starting =>
      have henter := hends .enter rfl
      simp only [Periodic.step, hplace] at henter
      split at henter <;> cases henter
  | blocking deadline =>
      have hblock := hends .block rfl
      simp [Periodic.step, hplace] at hblock
  | blocked deadline =>
      obtain ⟨rfl, -, hreleased⟩ := h.fits_of_place hplace
      have htimeout := hends .timeout rfl
      simp only [Periodic.step, hplace] at htimeout
      split at htimeout
      · cases htimeout
      · refine .inr ⟨rfl, h.past, not_le.mp ‹_›, fun hlocked => Bool.eq_false_of_not_eq_true fun hstop => ?_⟩
        exact absurd (hreleased hlocked hstop) (by omega)
  | woken deadline expired =>
      have hcheck := hends .check rfl
      simp [Periodic.step, hplace] at hcheck
  | deciding =>
      have hdecide := hends .decide rfl
      simp [Periodic.step, hplace] at hdecide
  | working =>
      have hfinish := hends .finish rfl
      simp [Periodic.step, hplace] at hfinish
  | returned => exact .inl ⟨rfl, h.fits_of_place hplace⟩

/-! ### The end -/

theorem Place.notified_size_le (place : Place) : place.notified.size ≤ place.size := by
  cases place <;> simp [Place.notified, Place.size]

/-- A thread that is to stop comes nearer to its end with each of its steps, or it goes to sleep for the last time. -/
theorem step_stopped {event : Event} (h : Orderly interval locked thread ∧ thread.stop = true)
    (hstep : step interval locked thread event = some next) :
    (Orderly interval locked next ∧ next.stop = true) ∧
      next.size + (if event.own = true then 1 else 0) ≤ thread.size + event.cost := by
  obtain ⟨horderly, hstop⟩ := h
  have hkept := horderly.step hstep
  have hclosed : thread.stop ≠ false := by simp [hstop]
  cases step_move hstep with
  | close hfree => exact ⟨⟨hkept, rfl⟩, le_refl _⟩
  | notifyAll hcalls =>
      have hsize := thread.place.notified_size_le
      refine ⟨⟨hkept, hstop⟩, ?_⟩
      simp only [Thread.size, Event.own, Event.cost, hcalls, if_true]
      omega
  | enter hplace hopen => exact absurd hopen hclosed
  | again hplace hopen => exact absurd hopen hclosed
  | expired hplace hopen => exact absurd hopen hclosed
  | decide hplace hopen => exact absurd hopen hclosed
  | leave hown hsize =>
      refine ⟨⟨hkept, hstop⟩, ?_⟩
      have hcost : event.cost = 0 ∧ event.own = true := by rcases hown with rfl | rfl | rfl <;> exact ⟨rfl, rfl⟩
      simp only [Thread.size, hsize, hcost, if_true]
      change 0 + thread.notifyAll + 1 ≤ 1 + thread.notifyAll + 0
      omega
  | wake hplace =>
      refine ⟨⟨hkept, hstop⟩, ?_⟩
      simp only [Thread.size, Place.size, Event.own, Event.cost, hplace, if_true]
      omega
  | timeout hplace hdue =>
      refine ⟨⟨hkept, hstop⟩, ?_⟩
      simp only [Thread.size, Place.size, Event.own, Event.cost, hplace, if_true]
      omega
  | block hplace =>
      refine ⟨⟨hkept, hstop⟩, ?_⟩
      simp only [Thread.size, Place.size, Event.own, Event.cost, hplace, if_true]
      omega
  | finish hplace =>
      refine ⟨⟨hkept, hstop⟩, ?_⟩
      simp only [Thread.size, Place.size, Event.own, Event.cost, hplace, if_true]
      omega
  | pass => exact ⟨⟨hkept, hstop⟩, le_refl _⟩

end Periodic
