import LogMq.GroupDetector
import LogMq.LibPeriodic

/-! The thread that scans the groups for silent members. It reads the clock and then waits for the lock of the groups, as
`JoinGroup` does, so requests may be answered in between. -/

namespace LogMq

/-! ### Signs of life in a request -/

/-- When an event has read the clock. -/
def Event.reading? : Event → Option Int
  | .join _ _ now => some now
  | .sync _ now => some now
  | .heartbeat _ now => some now
  | .leave _ => none
  | .expire now => some now

/-- How long ago that was. -/
def Event.age (steady : Nat) (event : Event) : Nat :=
  match event.reading? with
  | some now => (steady - now).toNat
  | none => 0

/-- The requests read the clock under the lock, other than `JoinGroup`, which reads it before. -/
def Event.Timely (steady : Nat) : Event → Prop
  | .join _ _ now => now ≤ steady
  | .sync _ now => now = steady
  | .heartbeat _ now => now = steady
  | .leave _ => True
  | .expire _ => False

instance (steady : Nat) : DecidablePred (Event.Timely steady)
  | .join _ _ now => inferInstanceAs (Decidable (now ≤ (steady : Int)))
  | .sync _ now => inferInstanceAs (Decidable (now = (steady : Int)))
  | .heartbeat _ now => inferInstanceAs (Decidable (now = (steady : Int)))
  | .leave _ => inferInstanceAs (Decidable True)
  | .expire _ => inferInstanceAs (Decidable False)

namespace GroupCoordinator

variable {coordinator : GroupCoordinator} {groupId memberId : Bytes} {heard : Int}

theorem finishJoin_heard_eq (group : GroupState) (membershipChanged : Bool) (groupId memberId other : Bytes) :
    (finishJoin group membershipChanged groupId memberId).2.heard other = group.heard other := by
  unfold finishJoin
  split_ifs
  · rfl
  · exact GroupState.heard_assignLocked _ other
  · rfl

theorem addMember_heard_cases {group : GroupState} {topic other : Bytes} {now : Int}
    (h : (group.addMember topic now).heard other = some heard) : heard = now ∨ group.heard other = some heard := by
  unfold GroupState.addMember GroupState.heard SortedMap.emplace at h
  dsimp only at h
  split_ifs at h
  · exact .inr h
  · rw [SortedMap.find?_insert] at h
    split_ifs at h
    · exact .inl (Option.some.inj h).symm
    · exact .inr h

/-- A member that joins was heard at the reading, and the others as before. -/
theorem joinMember_heard_cases {group : GroupState} {request : JoinGroupRequest} {now : Int} {other : Bytes}
    (h : (joinMember group request now).2.heard other = some heard) : heard = now ∨ group.heard other = some heard := by
  unfold joinMember at h
  split_ifs at h
  · rw [finishJoin_heard_eq] at h
    exact addMember_heard_cases h
  · split at h
    · exact .inr h
    · rw [finishJoin_heard_eq, GroupState.heard_touch] at h
      split_ifs at h
      · exact .inl (Option.some.inj h).symm
      · exact .inr h

/-- A group is stored that has heard nobody since the coordinator, up to the reading. -/
theorem lastHeard_store_cases {group : GroupState} {target : Bytes} {now : Int}
    (hgroup : ∀ other heard, group.heard other = some heard →
      heard = now ∨ coordinator.lastHeard target other = some heard)
    (h : (coordinator.store target group).lastHeard groupId memberId = some heard) :
    heard = now ∨ coordinator.lastHeard groupId memberId = some heard := by
  by_cases htarget : groupId = target
  · subst htarget
    rw [lastHeard_of_group? (group?_store_self _ _ _)] at h
    exact hgroup _ _ h
  · rw [lastHeard_congr (group?_store_of_ne htarget _ _)] at h
    exact .inr h

theorem checkMember_heard_cases {request : MemberRequest} {now : Int}
    (h : (coordinator.checkMember request now).2.lastHeard groupId memberId = some heard) :
    heard = now ∨ coordinator.lastHeard groupId memberId = some heard := by
  rcases @checkMember_heard coordinator request now with ⟨_, -, hheard⟩ | ⟨status, herror⟩
  · rw [hheard] at h
    split_ifs at h
    · exact .inl (Option.some.inj h).symm
    · exact .inr h
  · rw [herror] at h
    exact .inr h

theorem joinGroup_heard_cases {request : JoinGroupRequest} {partitionCount : UInt32} {now : Int}
    (h : (coordinator.joinGroup request partitionCount now).2.lastHeard groupId memberId = some heard) :
    heard = now ∨ coordinator.lastHeard groupId memberId = some heard := by
  unfold joinGroup at h
  split at h
  · exact .inr h
  split at h
  · refine lastHeard_store_cases (fun other heard hother => ?_) h
    rcases joinMember_heard_cases hother with hnow | habsurd
    · exact .inl hnow
    · cases habsurd
  · rename_i group hgroup
    split_ifs at h
    · exact .inr h
    · exact .inr h
    · refine lastHeard_store_cases (fun other heard hother => ?_) h
      rw [lastHeard_of_group? hgroup]
      exact joinMember_heard_cases hother

theorem leaveGroup_heard_le {request : LeaveGroupRequest}
    (h : (coordinator.leaveGroup request).2.lastHeard groupId memberId = some heard) :
    coordinator.lastHeard groupId memberId = some heard := by
  unfold leaveGroup at h
  split at h
  · exact h
  split at h
  · exact h
  rename_i group hgroup
  split at h
  · exact h
  dsimp only at h
  -- whatever becomes of the group, it has heard nobody else
  have hothers : ∀ other time,
      ((group.members.erase request.memberId).find? other).map MemberState.lastHeartbeat = some time →
      coordinator.lastHeard request.groupId other = some time := by
    intro other time htime
    rw [SortedMap.find?_erase] at htime
    split_ifs at htime
    · cases htime
    · rw [lastHeard_of_group? hgroup]
      exact htime
  have hstored : ∀ left : GroupState, (∀ other, left.heard other =
      ((group.members.erase request.memberId).find? other).map MemberState.lastHeartbeat) →
      (coordinator.store request.groupId left).lastHeard groupId memberId = some heard →
      coordinator.lastHeard groupId memberId = some heard := by
    intro left hleft hstore
    by_cases htarget : groupId = request.groupId
    · subst htarget
      rw [lastHeard_of_group? (group?_store_self _ _ _), hleft] at hstore
      exact hothers _ _ hstore
    · rwa [lastHeard_congr (group?_store_of_ne htarget _ _)] at hstore
  split_ifs at h
  · exact hstored _ (fun _ => rfl) h
  · by_cases htarget : groupId = request.groupId
    · subst htarget
      rw [lastHeard, group?, SortedMap.find?_erase, if_pos rfl] at h
      cases h
    · rw [lastHeard, group?, SortedMap.find?_erase, if_neg htarget] at h
      exact h
  · exact hstored _ (fun _ => GroupState.heard_assignLocked _ _) h

/-- **One step**: a member was heard at the reading, or it was heard before. -/
theorem step_heard_cases {event : Event} (h : (coordinator.step event).lastHeard groupId memberId = some heard) :
    event.reading? = some heard ∨ coordinator.lastHeard groupId memberId = some heard := by
  cases event with
  | join request partitionCount now => exact (joinGroup_heard_cases h).imp_left fun hnow => congrArg some hnow.symm
  | sync request now =>
      rw [step, syncGroup_state] at h
      exact (checkMember_heard_cases h).imp_left fun hnow => congrArg some hnow.symm
  | heartbeat request now =>
      rw [step, heartbeat_state] at h
      exact (checkMember_heard_cases h).imp_left fun hnow => congrArg some hnow.symm
  | leave request => exact .inr (leaveGroup_heard_le h)
  | expire now =>
      rw [step, lastHeard_expire, Option.filter_eq_some_iff] at h
      exact .inr h.1

end GroupCoordinator

/-! ### The thread -/

/-- How far the thread is with a scan. -/
inductive ScanProgress where
  | due
  | read (now : Nat)
  | done
  deriving DecidableEq

/-- `GroupCoordinator` with its thread. The last two fields are the history: when the last scan has read the clock, and
how long a `JoinGroup` has waited for the lock at most. -/
structure GroupScanner where
  coordinator : GroupCoordinator
  thread : Periodic.Thread := {}
  scan : ScanProgress := .due
  scanned : Nat := 0
  lag : Nat := 0

/-- What requests and the thread do. -/
inductive ScannerEvent where
  | call (event : Event)
  | thread (event : Periodic.Event)
  | readClock
  | expire

namespace ScannerEvent

def certain : ScannerEvent → Bool
  | .call _ => false
  | .thread event => event.certain
  | .readClock => true
  | .expire => true

end ScannerEvent

/-- `ScanInterval`: a quarter of the timeout, at least 1 and at most 100 ms. -/
def scanInterval (sessionTimeout : Int) : Nat :=
  let quarter := sessionTimeout.tdiv 4
  if quarter ≤ 1 then 1 else (min quarter 100).toNat

namespace GroupScanner

variable (sessionTimeout : Int)

/-- One step, if it is possible. The work of the thread is done once it has scanned the groups. -/
def step (scanner : GroupScanner) : ScannerEvent → Option GroupScanner
  | .call event =>
      if event.Timely scanner.thread.steady then
        some { scanner with
          coordinator := scanner.coordinator.step event
          lag := max scanner.lag (event.age scanner.thread.steady) }
      else none
  | .thread event =>
      if event = .finish ∧ scanner.scan ≠ .done then none
      else (Periodic.step (scanInterval sessionTimeout) true scanner.thread event).map fun thread =>
        { scanner with thread := thread, scan := if event = .finish then .due else scanner.scan }
  | .readClock =>
      if scanner.thread.place = .working ∧ scanner.scan = .due then
        some { scanner with scan := .read scanner.thread.steady }
      else none
  | .expire =>
      match scanner.scan with
      | .read now =>
          some { scanner with
            coordinator := scanner.coordinator.step (.expire now)
            scan := .done
            scanned := now }
      | _ => none

def Reached (scanner : GroupScanner) : Prop :=
  Steps.Reaches (step sessionTimeout) { coordinator := ⟨sessionTimeout, SortedMap.empty⟩ } scanner

/-! ### What every step keeps -/

/-- Nobody was silent for longer than the timeout at the reading of the last scan, if no `JoinGroup` has waited for the
lock that long. -/
structure Orderly (scanner : GroupScanner) : Prop where
  thread : Periodic.Orderly (scanInterval sessionTimeout) true scanner.thread
  timeout : scanner.coordinator.sessionTimeout = sessionTimeout
  scanned : scanner.scanned ≤ scanner.thread.steady
  rested : ∀ deadline, scanner.thread.place.deadline? = some deadline → scanner.scanned ≤ scanner.thread.since
  read : ∀ now, scanner.scan = .read now →
    scanner.thread.place = .working ∧ scanner.scanned ≤ now ∧ now ≤ scanner.thread.steady
  silence : ∀ groupId memberId heard, scanner.coordinator.lastHeard groupId memberId = some heard →
    scanner.scanned ≤ heard + max sessionTimeout scanner.lag

variable {sessionTimeout} {scanner next : GroupScanner}

/-- A reading is not older than the age of its event. -/
theorem le_age {steady : Nat} {event : Event} {now : Int} (hreading : event.reading? = some now) :
    (steady : Int) ≤ now + event.age steady := by
  simp only [Event.age, hreading]
  omega

/-- **What every step keeps.** -/
theorem Orderly.step (h : scanner.Orderly sessionTimeout) {event : ScannerEvent}
    (hstep : scanner.step sessionTimeout event = some next) : next.Orderly sessionTimeout := by
  cases event with
  | call event =>
      simp only [GroupScanner.step] at hstep
      split at hstep
      · cases hstep
        refine ⟨h.thread, (GroupCoordinator.step_sessionTimeout _ event).trans h.timeout, h.scanned, h.rested, h.read,
          fun groupId memberId heard hheard => ?_⟩
        dsimp only
        have hlag := Nat.le_max_left scanner.lag (event.age scanner.thread.steady)
        have hage := Nat.le_max_right scanner.lag (event.age scanner.thread.steady)
        rcases GroupCoordinator.step_heard_cases hheard with hreading | hbefore
        · have hreached := @le_age scanner.thread.steady event heard hreading
          have hscanned := h.scanned
          omega
        · have hsilence := h.silence groupId memberId heard hbefore
          omega
      · cases hstep
  | thread event =>
      simp only [GroupScanner.step] at hstep
      split at hstep
      · cases hstep
      · rename_i hfinish
        obtain ⟨later, hlater, rfl⟩ := Option.map_eq_some_iff.mp hstep
        have hclock := Periodic.steady_le hlater
        refine ⟨h.thread.step hlater, h.timeout, h.scanned.trans hclock, fun deadline hdeadline => ?_, fun now hnow => ?_,
          h.silence⟩
        · rcases Periodic.since_cases hlater hdeadline with ⟨hbefore, hsince⟩ | hsince
          · exact hsince ▸ h.rested deadline hbefore
          · exact hsince ▸ h.scanned
        · dsimp only at hnow
          split_ifs at hnow
          obtain ⟨hplace, hafter, hbefore⟩ := h.read now hnow
          exact ⟨Periodic.working_stays hlater hplace ‹_›, hafter, hbefore.trans hclock⟩
  | readClock =>
      simp only [GroupScanner.step] at hstep
      split at hstep
      · cases hstep
        rename_i hworking
        refine ⟨h.thread, h.timeout, h.scanned, h.rested, fun now hnow => ?_, h.silence⟩
        cases hnow
        exact ⟨hworking.1, h.scanned, le_refl _⟩
      · cases hstep
  | expire =>
      simp only [GroupScanner.step] at hstep
      split at hstep
      · rename_i now hscan
        cases hstep
        obtain ⟨hplace, hafter, hbefore⟩ := h.read now hscan
        refine ⟨h.thread, (GroupCoordinator.step_sessionTimeout _ _).trans h.timeout, hbefore, fun deadline hdeadline => ?_,
          fun _ habsurd => (by cases habsurd), fun groupId memberId heard hheard => ?_⟩
        · dsimp only at hdeadline
          rw [hplace] at hdeadline
          cases hdeadline
        rw [GroupCoordinator.step, GroupCoordinator.lastHeard_expire, Option.filter_eq_some_iff, h.timeout] at hheard
        have hspared := of_decide_eq_true hheard.2
        dsimp only
        omega
      · cases hstep

theorem Reached.orderly (h : Reached sessionTimeout scanner) : scanner.Orderly sessionTimeout := by
  refine Steps.Reaches.keeps (fun hkept hstep => hkept.step hstep) h ?_
  exact ⟨.start, rfl, le_refl _, fun _ habsurd => (by cases habsurd), fun _ habsurd => (by cases habsurd),
    fun _ _ _ habsurd => (by cases habsurd)⟩

/-! ### Silent members -/

/-- If nothing is left to do for the scanner, nothing is left to do for its thread. -/
theorem ends_thread
    (hends : Steps.Ends (GroupScanner.step sessionTimeout) (fun event => event.certain = true) scanner) :
    Steps.Ends (Periodic.step (scanInterval sessionTimeout) true) (fun event => event.certain = true) scanner.thread := by
  intro event hcertain
  have hthread := hends (.thread event) hcertain
  simp only [GroupScanner.step] at hthread
  split at hthread
  · -- the thread works, so the scan can go on
    rename_i hfinish
    obtain ⟨rfl, hscan⟩ := hfinish
    by_contra hworks
    have hplace : scanner.thread.place = .working := Periodic.place_of_finish hworks
    cases hstate : scanner.scan with
    | due =>
        have hread := hends .readClock rfl
        simp [GroupScanner.step, hplace, hstate] at hread
    | read now =>
        have hexpire := hends .expire rfl
        simp [GroupScanner.step, hstate] at hexpire
    | done => exact hscan hstate
  · exact Option.map_eq_none_iff.mp hthread

/-- **Silence is bounded.** While the scanner is open and has nothing to do, it sleeps for no longer than its interval, it
has not scanned more than once in each interval, and every member was heard within the timeout, the interval and the
time that the last scan took. A `JoinGroup` that waits for the lock longer than the timeout adds its wait. -/
theorem silence_bounded (h : Reached sessionTimeout scanner) (hopen : scanner.thread.stop = false)
    (hends : Steps.Ends (step sessionTimeout) (fun event => event.certain = true) scanner) :
    scanner.thread.place = .blocked (scanner.thread.since + scanInterval sessionTimeout) ∧
      scanner.thread.works * scanInterval sessionTimeout ≤ scanner.thread.steady ∧
      scanner.scanned ≤ scanner.thread.since ∧ ∀ groupId memberId, scanner.coordinator.IsMember groupId memberId →
        ∃ heard, scanner.coordinator.lastHeard groupId memberId = some heard ∧
          scanner.thread.steady < heard + max sessionTimeout scanner.lag + scanInterval sessionTimeout +
            (scanner.thread.since - scanner.scanned) := by
  have horderly := h.orderly
  obtain ⟨-, ⟨-, hstop⟩ | ⟨hplace, -, hearly, -⟩⟩ := horderly.thread.ends_cases (ends_thread hends)
  · exact absurd (hopen.symm.trans hstop) Bool.false_ne_true
  · refine ⟨hplace, horderly.thread.rate, horderly.rested _ (by rw [hplace]; rfl), fun groupId memberId hmember => ?_⟩
    obtain ⟨heard, hheard⟩ := GroupCoordinator.isMember_iff.mp hmember
    have hsilence := horderly.silence groupId memberId heard hheard
    exact ⟨heard, hheard, by omega⟩

/-- A member joins before the first scan, and is still one after it. -/
def oneScan : List ScannerEvent :=
  [.thread .enter, .thread .block, .thread (.pass 30), .call (.join ⟨text "group", [], text "topic"⟩ 3 20),
    .thread (.pass 70), .thread .timeout, .thread .check, .thread .decide, .readClock, .expire, .thread .finish,
    .thread .enter, .thread .block]

theorem silence_bounded_oneScan :
    ∃ scanner, Steps.run (step 400) { coordinator := ⟨400, SortedMap.empty⟩ } oneScan = some scanner ∧
      ∃ heard, scanner.coordinator.lastHeard (text "group") (text "member-1") = some heard ∧
        scanner.thread.steady < heard + 500 := by
  obtain ⟨scanner, hrun⟩ := Option.isSome_iff_exists.mp (by decide +kernel :
    (Steps.run (step 400) { coordinator := ⟨400, SortedMap.empty⟩ } oneScan).isSome = true)
  have hstate : (Steps.run (step 400) { coordinator := ⟨400, SortedMap.empty⟩ } oneScan).map (fun scanner =>
      (scanner.thread, scanner.scan, scanner.scanned, scanner.lag)) =
      some ({ place := .blocked 200, steady := 100, works := 1, since := 100 }, .due, 100, 10) := by decide +kernel
  have hmember : (Steps.run (step 400) { coordinator := ⟨400, SortedMap.empty⟩ } oneScan).bind (fun scanner =>
      scanner.coordinator.lastHeard (text "group") (text "member-1")) = some 20 := by decide +kernel
  rw [hrun, Option.map_some, Option.some.injEq] at hstate
  rw [hrun, Option.bind_some] at hmember
  obtain ⟨hthread, hscan, hscanned, hlag⟩ : scanner.thread =
      { place := .blocked 200, steady := 100, works := 1, since := 100 } ∧ scanner.scan = .due ∧ scanner.scanned = 100 ∧
      scanner.lag = 10 := by simpa using hstate
  have hends : Steps.Ends (step 400) (fun event => event.certain = true) scanner := by
    intro event hcertain
    cases event with
    | call event => cases hcertain
    | readClock => simp [step, hthread]
    | expire => simp [step, hscan]
    | thread event => cases event <;> simp_all [step, ScannerEvent.certain, Periodic.Event.certain, Periodic.step]
  obtain ⟨-, -, -, hmembers⟩ := silence_bounded ⟨oneScan, hrun⟩ (by rw [hthread]) hends
  obtain ⟨heard, hheard, hbound⟩ := hmembers _ _ (GroupCoordinator.isMember_iff.mpr ⟨20, hmember⟩)
  refine ⟨scanner, hrun, heard, hheard, ?_⟩
  rw [hthread, hscanned, hlag] at hbound
  rw [hthread]
  have hinterval : scanInterval 400 = 100 := by decide
  simp only [hinterval] at hbound
  dsimp only
  omega

end GroupScanner

end LogMq
