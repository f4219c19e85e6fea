import LogMq.LibSteps

/-! Channels and the two pollers. A channel is what its owner wants to hear of a descriptor, a poller is what the kernel
has been told. The calls that register something may fail, and the loop ignores that; those that take something back do
not fail on what is registered. A channel is removed before its descriptor is closed. -/

namespace LogMq

/-! ### Channels -/

structure Channel where
  fd : Nat
  reading : Bool := false
  writing : Bool := false
  removed : Bool := false
  deriving DecidableEq

inductive EventFilter where
  | read
  | write
  deriving DecidableEq

/-- The methods that change the flags of a channel. -/
inductive FlagChange where
  | enableReading
  | enableWriting
  | disableWriting
  | disableAll

namespace Channel

def wants (channel : Channel) : EventFilter → Bool
  | .read => channel.reading
  | .write => channel.writing

def change (channel : Channel) : FlagChange → Channel
  | .enableReading => { channel with reading := true }
  | .enableWriting => { channel with writing := true }
  | .disableWriting => { channel with writing := false }
  | .disableAll => { channel with reading := false, writing := false }

end Channel

/-! ### epoll -/

def epollIn : UInt32 := 0x001
def epollPri : UInt32 := 0x002
def epollOut : UInt32 := 0x004
def epollRdHup : UInt32 := 0x2000

/-- `EventsForChannel`. -/
def Channel.events (channel : Channel) : UInt32 :=
  (if channel.reading = true then epollIn ||| epollPri ||| epollRdHup else 0) |||
    (if channel.writing = true then epollOut else 0)

/-- The descriptors in `registered_fds_`, and what the kernel knows: the events of a descriptor, and the number of the
channel in `data.ptr`. -/
structure EpollPoller where
  registered : List Nat := []
  interest : Nat → Option (UInt32 × Nat) := fun _ => none

namespace EpollPoller

/-- `epoll_ctl` with `EPOLL_CTL_ADD`, which fails on a descriptor that is there, and may fail otherwise. -/
def add (poller : EpollPoller) (fd : Nat) (entry : UInt32 × Nat) (fails : Bool) : Option EpollPoller :=
  if fails = true ∨ (poller.interest fd).isSome = true then none
  else some { poller with interest := Function.update poller.interest fd (some entry) }

/-- `EPOLL_CTL_MOD`, which fails on a descriptor that is not there. -/
def modify (poller : EpollPoller) (fd : Nat) (entry : UInt32 × Nat) (fails : Bool) : Option EpollPoller :=
  if fails = true ∨ (poller.interest fd).isNone = true then none
  else some { poller with interest := Function.update poller.interest fd (some entry) }

/-- `RemoveChannel`. That a descriptor is not there any more is no error. -/
def removeChannel (poller : EpollPoller) (channel : Channel) : EpollPoller :=
  if channel.fd ∈ poller.registered then
    { registered := poller.registered.filter (· ≠ channel.fd)
      interest := Function.update poller.interest channel.fd none }
  else poller

/-- `UpdateChannel`, for the channel with a number. -/
def updateChannel (poller : EpollPoller) (id : Nat) (channel : Channel) (fails : Bool) : EpollPoller :=
  if channel.events = 0 then
    if channel.fd ∈ poller.registered then poller.removeChannel channel else poller
  else if channel.fd ∈ poller.registered then
    (poller.modify channel.fd (channel.events, id) fails).getD poller
  else
    match poller.add channel.fd (channel.events, id) fails with
    | some added => { added with registered := channel.fd :: added.registered }
    | none => poller

/-- The active events that `epoll_wait` gives for descriptors that are ready: the channel of each, and the flags. -/
def active (poller : EpollPoller) (ready : List (Nat × UInt32)) : List (Nat × UInt32) :=
  ready.filterMap fun event => (poller.interest event.1).map fun entry => (entry.2, event.2)

/-- The kernel forgets a descriptor that is closed. -/
def closed (poller : EpollPoller) (fd : Nat) : EpollPoller :=
  { poller with interest := Function.update poller.interest fd none }

end EpollPoller

/-! ### kqueue -/

/-- What the kernel knows: the number of the channel in `udata`, for a descriptor and a filter. -/
structure KqueuePoller where
  notes : Nat → EventFilter → Option Nat := fun _ _ => none

namespace KqueuePoller

/-- `ApplyEvent`, with `EV_ADD` if the channel wants the filter and with `EV_DELETE` otherwise. Adding may fail. -/
def applyEvent (poller : KqueuePoller) (id : Nat) (channel : Channel) (filter : EventFilter) (fails : Bool) :
    Option KqueuePoller :=
  if channel.wants filter = true ∧ fails = true then none
  else some { notes := fun fd other =>
    if fd = channel.fd ∧ other = filter then (if channel.wants filter = true then some id else none)
    else poller.notes fd other }

/-- `UpdateChannel`. If the first change fails, the second one is not made. -/
def updateChannel (poller : KqueuePoller) (id : Nat) (channel : Channel) (fails : Bool × Bool) : KqueuePoller :=
  match poller.applyEvent id channel .read fails.1 with
  | none => poller
  | some read => (read.applyEvent id channel .write fails.2).getD read

/-- `RemoveChannel`. -/
def removeChannel (poller : KqueuePoller) (channel : Channel) : KqueuePoller :=
  { notes := fun fd filter => if fd = channel.fd then none else poller.notes fd filter }

def closed (poller : KqueuePoller) (fd : Nat) : KqueuePoller :=
  { notes := fun other filter => if other = fd then none else poller.notes other filter }

end KqueuePoller

/-! ### Either of them -/

/-- A platform's poller, and the channel that the kernel reports an event of a descriptor for. -/
structure PlatformPoller (κ : Type) where
  empty : κ
  updateChannel : κ → Nat → Channel → Bool × Bool → κ
  removeChannel : κ → Channel → κ
  closed : κ → Nat → κ
  reported : κ → Nat → EventFilter → Option Nat

def epoll : PlatformPoller EpollPoller where
  empty := {}
  updateChannel poller id channel fails := poller.updateChannel id channel fails.1
  removeChannel := EpollPoller.removeChannel
  closed := EpollPoller.closed
  reported poller fd filter :=
    match poller.interest fd with
    | some (events, id) =>
        if events &&& (match filter with | .read => epollIn | .write => epollOut) = 0 then none else some id
    | none => none

def kqueue : PlatformPoller KqueuePoller where
  empty := {}
  updateChannel := KqueuePoller.updateChannel
  removeChannel := KqueuePoller.removeChannel
  closed := KqueuePoller.closed
  reported poller := poller.notes

/-- The channels of a loop by number, and its poller. -/
structure Watching (κ : Type) where
  channels : List Channel := []
  poller : κ

inductive ChannelEvent where
  | create (fd : Nat)
  | change (id : Nat) (change : FlagChange) (fails : Bool × Bool)
  | remove (id : Nat)
  | close (fd : Nat)

/-- No call of the step fails. -/
def ChannelEvent.succeeds : ChannelEvent → Bool
  | .change _ _ fails => fails == (false, false)
  | _ => true

namespace Watching

variable {κ : Type}

/-- All channels of a descriptor have been removed. -/
def Free (channels : List Channel) (fd : Nat) : Prop := ∀ channel ∈ channels, channel.fd = fd → channel.removed = true

instance (channels : List Channel) (fd : Nat) : Decidable (Free channels fd) :=
  inferInstanceAs (Decidable (∀ channel ∈ channels, _))

/-- One step, if it is possible. A removed channel keeps its flags to itself. -/
def step (platform : PlatformPoller κ) (watching : Watching κ) : ChannelEvent → Option (Watching κ)
  | .create fd =>
      if Free watching.channels fd then some { watching with channels := watching.channels ++ [{ fd := fd }] } else none
  | .change id change fails => do
      let channel ← watching.channels[id]?
      let changed := channel.change change
      return ⟨watching.channels.set id changed,
        if channel.removed = true then watching.poller else platform.updateChannel watching.poller id changed fails⟩
  | .remove id => do
      let channel ← watching.channels[id]?
      return ⟨watching.channels.set id { channel with removed := true },
        if channel.removed = true then watching.poller else platform.removeChannel watching.poller channel⟩
  | .close fd =>
      if Free watching.channels fd then some { watching with poller := platform.closed watching.poller fd } else none

def Reached (platform : PlatformPoller κ) (watching : Watching κ) : Prop :=
  Steps.Reaches (step platform) { poller := platform.empty } watching

end Watching

/-! ### What a platform must do -/

/-- What the channels rely on. The poller may keep records of its own, which have to stay in order. -/
structure PlatformPoller.Lawful {κ : Type} (platform : PlatformPoller κ) (inOrder : κ → Prop) : Prop where
  empty : inOrder platform.empty ∧ ∀ fd filter, platform.reported platform.empty fd filter = none
  updated : ∀ {poller : κ} {id : Nat} {channel : Channel} {fails : Bool × Bool}, inOrder poller →
    inOrder (platform.updateChannel poller id channel fails) ∧
      ∀ filter, (fails = (false, false) → platform.reported (platform.updateChannel poller id channel fails)
          channel.fd filter = if channel.wants filter = true then some id else none) ∧
        (platform.reported (platform.updateChannel poller id channel fails) channel.fd filter = some id ∨
          platform.reported (platform.updateChannel poller id channel fails) channel.fd filter = none ∨
          platform.reported (platform.updateChannel poller id channel fails) channel.fd filter =
            platform.reported poller channel.fd filter)
  updated_other : ∀ {poller : κ} {id : Nat} {channel : Channel} {fails : Bool × Bool} {fd : Nat}, inOrder poller →
    fd ≠ channel.fd → ∀ filter,
      platform.reported (platform.updateChannel poller id channel fails) fd filter = platform.reported poller fd filter
  removed : ∀ {poller : κ} {channel : Channel}, inOrder poller →
    inOrder (platform.removeChannel poller channel) ∧
      ∀ fd filter, platform.reported (platform.removeChannel poller channel) fd filter =
        if fd = channel.fd then none else platform.reported poller fd filter
  closed : ∀ {poller : κ} {fd : Nat}, inOrder poller → (∀ filter, platform.reported poller fd filter = none) →
    inOrder (platform.closed poller fd) ∧ platform.reported (platform.closed poller fd) = platform.reported poller

namespace EpollPoller

/-- `registered_fds_` is what the kernel knows, and each entry is there for some filter. -/
structure InOrder (poller : EpollPoller) : Prop where
  registered : ∀ fd, fd ∈ poller.registered ↔ (poller.interest fd).isSome = true
  wanted : ∀ fd events id, poller.interest fd = some (events, id) → ¬ (events &&& epollIn = 0 ∧ events &&& epollOut = 0)

theorem events_and (channel : Channel) :
    (channel.events &&& epollIn = 0 ↔ channel.reading = false) ∧
      (channel.events &&& epollOut = 0 ↔ channel.writing = false) ∧
      (channel.events = 0 ↔ channel.reading = false ∧ channel.writing = false) := by
  obtain ⟨fd, reading, writing, removed⟩ := channel
  cases reading <;> cases writing <;> simp only [Channel.events, if_true, Bool.false_eq_true, if_false] <;> decide

/-- What the kernel reports for a descriptor it has an entry of a channel for. -/
theorem reported_channel {poller : EpollPoller} {channel : Channel} {id : Nat}
    (h : poller.interest channel.fd = some (channel.events, id)) (filter : EventFilter) :
    epoll.reported poller channel.fd filter = if channel.wants filter = true then some id else none := by
  obtain ⟨hin, hout, -⟩ := events_and channel
  cases filter with
  | read =>
      cases hreading : channel.reading <;> simp [epoll, h, hin, Channel.wants, hreading]
  | write =>
      cases hwriting : channel.writing <;> simp [epoll, h, hout, Channel.wants, hwriting]

theorem reported_none {poller : EpollPoller} {fd : Nat} (h : poller.interest fd = none) (filter : EventFilter) :
    epoll.reported poller fd filter = none := by
  simp [epoll, h]

/-- Only the entry of one descriptor has changed. -/
theorem reported_congr {poller other : EpollPoller} {fd : Nat} (h : other.interest fd = poller.interest fd)
    (filter : EventFilter) : epoll.reported other fd filter = epoll.reported poller fd filter := by
  simp only [epoll, h]

theorem removeChannel_interest {poller : EpollPoller} (h : poller.InOrder) (channel : Channel) (fd : Nat) :
    (poller.removeChannel channel).interest fd = if fd = channel.fd then none else poller.interest fd := by
  unfold removeChannel
  by_cases hfd : fd = channel.fd
  · rw [if_pos hfd, hfd]
    split
    · exact Function.update_self _ _ _
    · rename_i hmissing
      rw [h.registered] at hmissing
      exact Option.not_isSome_iff_eq_none.mp hmissing
  · rw [if_neg hfd]
    split
    · exact Function.update_of_ne hfd _ _
    · rfl

theorem InOrder.removeChannel {poller : EpollPoller} (h : poller.InOrder) (channel : Channel) :
    (poller.removeChannel channel).InOrder where
  registered fd := by
    rw [removeChannel_interest h]
    unfold EpollPoller.removeChannel
    by_cases hfd : fd = channel.fd
    · subst hfd
      split <;> simp_all
    · rw [if_neg hfd, ← h.registered]
      split
      · simp [hfd]
      · rfl
  wanted fd events id hinterest := by
    rw [removeChannel_interest h] at hinterest
    split at hinterest
    · cases hinterest
    · exact h.wanted fd events id hinterest

/-- The entry of one descriptor is set to that of a channel that wants something. -/
theorem InOrder.set {poller : EpollPoller} (h : poller.InOrder) {channel : Channel} (hevents : channel.events ≠ 0)
    (id : Nat) {registered : List Nat} (hregistered : ∀ fd, fd ∈ registered ↔ fd = channel.fd ∨ fd ∈ poller.registered) :
    InOrder ⟨registered, Function.update poller.interest channel.fd (some (channel.events, id))⟩ where
  registered fd := by
    rw [hregistered, h.registered]
    by_cases hfd : fd = channel.fd
    · subst hfd
      simp
    · simp [hfd]
  wanted fd events other hinterest := by
    by_cases hfd : fd = channel.fd
    · subst hfd
      simp only [Function.update_self] at hinterest
      cases hinterest
      obtain ⟨hin, hout, hzero⟩ := events_and channel
      exact fun hnone => hevents (hzero.mpr ⟨hin.mp hnone.1, hout.mp hnone.2⟩)
    · simp only [Function.update_of_ne hfd] at hinterest
      exact h.wanted fd events other hinterest

/-- What `UpdateChannel` leaves behind: nothing for a channel without flags, the events of the channel if the call
succeeds, and what was there if it fails. -/
theorem updateChannel_cases {poller : EpollPoller} (h : poller.InOrder) (id : Nat) (channel : Channel) (fails : Bool) :
    (poller.updateChannel id channel fails).InOrder ∧
      (∀ fd, fd ≠ channel.fd → (poller.updateChannel id channel fails).interest fd = poller.interest fd) ∧
      (channel.events = 0 ∧ (poller.updateChannel id channel fails).interest channel.fd = none ∨
        (poller.updateChannel id channel fails).interest channel.fd = some (channel.events, id) ∨
        fails = true ∧ poller.updateChannel id channel fails = poller) := by
  unfold updateChannel
  by_cases hevents : channel.events = 0
  · rw [if_pos hevents]
    by_cases hregistered : channel.fd ∈ poller.registered
    · rw [if_pos hregistered]
      refine ⟨h.removeChannel channel, fun fd hfd => ?_, .inl ⟨hevents, ?_⟩⟩
      · rw [removeChannel_interest h, if_neg hfd]
      · rw [removeChannel_interest h, if_pos rfl]
    · rw [if_neg hregistered]
      rw [h.registered] at hregistered
      exact ⟨h, fun _ _ => rfl, .inl ⟨hevents, Option.not_isSome_iff_eq_none.mp hregistered⟩⟩
  · rw [if_neg hevents]
    by_cases hregistered : channel.fd ∈ poller.registered
    · have hsome := (h.registered channel.fd).mp hregistered
      rw [if_pos hregistered]
      cases fails with
      | true => exact ⟨by simpa [modify] using h, by simp [modify], .inr (.inr ⟨rfl, by simp [modify]⟩)⟩
      | false =>
          have hmodify : poller.modify channel.fd (channel.events, id) false =
              some ⟨poller.registered, Function.update poller.interest channel.fd (some (channel.events, id))⟩ := by
            rw [modify, if_neg]
            simpa using Option.isSome_iff_ne_none.mp hsome
          rw [hmodify, Option.getD_some]
          refine ⟨h.set hevents id fun fd => ⟨.inr, fun hfd => hfd.elim (fun heq => heq ▸ hregistered) fun hmem => hmem⟩,
            fun fd hfd => Function.update_of_ne hfd _ _, .inr (.inl (Function.update_self _ _ _))⟩
    · have hnone : (poller.interest channel.fd).isSome = false := by
        rw [h.registered] at hregistered
        exact Bool.eq_false_of_not_eq_true hregistered
      rw [if_neg hregistered]
      cases fails with
      | true => exact ⟨by simpa [add] using h, by simp [add], .inr (.inr ⟨rfl, by simp [add]⟩)⟩
      | false =>
          have hadd : poller.add channel.fd (channel.events, id) false =
              some ⟨poller.registered, Function.update poller.interest channel.fd (some (channel.events, id))⟩ := by
            rw [add, if_neg]
            simp [hnone]
          simp only [hadd]
          exact ⟨h.set hevents id fun fd => List.mem_cons, fun fd hfd => Function.update_of_ne hfd _ _,
            .inr (.inl (Function.update_self _ _ _))⟩

/-- **epoll** does what the channels rely on. -/
theorem lawful : epoll.Lawful InOrder where
  empty := ⟨⟨fun fd => by simp [epoll], fun fd events id h => by cases h⟩, fun fd filter => rfl⟩
  updated {poller id channel fails} h := by
    obtain ⟨horder, -, hcases⟩ := updateChannel_cases h id channel fails.1
    refine ⟨horder, fun filter => ?_⟩
    change (fails = (false, false) → epoll.reported (poller.updateChannel id channel fails.1) _ _ = _) ∧
      (epoll.reported (poller.updateChannel id channel fails.1) _ _ = _ ∨
        epoll.reported (poller.updateChannel id channel fails.1) _ _ = _ ∨
        epoll.reported (poller.updateChannel id channel fails.1) _ _ = _)
    rcases hcases with ⟨hevents, hinterest⟩ | hinterest | ⟨hfails, hsame⟩
    · obtain ⟨hreading, hwriting⟩ := (events_and channel).2.2.mp hevents
      rw [reported_none hinterest]
      refine ⟨fun _ => ?_, .inr (.inl rfl)⟩
      cases filter <;> simp [Channel.wants, hreading, hwriting]
    · rw [reported_channel hinterest]
      refine ⟨fun _ => rfl, ?_⟩
      split
      · exact .inl rfl
      · exact .inr (.inl rfl)
    · rw [hsame]
      refine ⟨fun hsucceeds => ?_, .inr (.inr rfl)⟩
      rw [hsucceeds] at hfails
      cases hfails
  updated_other {poller id channel fails fd} h hfd filter :=
    reported_congr ((updateChannel_cases h id channel fails.1).2.1 fd hfd) filter
  removed {poller channel} h := by
    refine ⟨h.removeChannel channel, fun fd filter => ?_⟩
    change epoll.reported (poller.removeChannel channel) fd filter = _
    have hinterest := removeChannel_interest h channel fd
    split
    · rename_i hfd
      rw [if_pos hfd] at hinterest
      exact reported_none hinterest filter
    · rename_i hfd
      rw [if_neg hfd] at hinterest
      exact reported_congr hinterest filter
  closed {poller fd} h hnone := by
    have habsent : poller.interest fd = none := by
      cases hinterest : poller.interest fd with
      | none => rfl
      | some entry =>
          obtain ⟨events, id⟩ := entry
          have hread := hnone .read
          have hwrite := hnone .write
          simp only [epoll, hinterest] at hread hwrite
          refine absurd ⟨?_, ?_⟩ (h.wanted fd events id hinterest)
          · split at hread
            · assumption
            · cases hread
          · split at hwrite
            · assumption
            · cases hwrite
    have hsame : poller.closed fd = poller := by
      unfold EpollPoller.closed
      rw [← habsent, Function.update_eq_self]
    change (poller.closed fd).InOrder ∧ epoll.reported (poller.closed fd) = _
    rw [hsame]
    exact ⟨h, rfl⟩

end EpollPoller

namespace KqueuePoller

/-- One change fails, or it sets what is reported for its filter to what the channel wants. -/
theorem applyEvent_cases (poller : KqueuePoller) (id : Nat) (channel : Channel) (filter : EventFilter) (fails : Bool) :
    (fails = true ∧ poller.applyEvent id channel filter fails = none) ∨
      ∃ after, poller.applyEvent id channel filter fails = some after ∧
        after.notes channel.fd filter = (if channel.wants filter = true then some id else none) ∧
        ∀ fd other, ¬ (fd = channel.fd ∧ other = filter) → after.notes fd other = poller.notes fd other := by
  unfold applyEvent
  split
  · exact .inl ⟨(‹_ ∧ _› : channel.wants filter = true ∧ fails = true).2, rfl⟩
  · exact .inr ⟨_, rfl, if_pos ⟨rfl, rfl⟩, fun fd other hother => if_neg hother⟩

/-- What `UpdateChannel` does to each filter: it is set to what the channel wants, or left alone because of a failure. -/
theorem updateChannel_notes (poller : KqueuePoller) (id : Nat) (channel : Channel) (fails : Bool × Bool) :
    (∀ fd, fd ≠ channel.fd → (poller.updateChannel id channel fails).notes fd = poller.notes fd) ∧
      ∀ filter, (poller.updateChannel id channel fails).notes channel.fd filter =
          (if channel.wants filter = true then some id else none) ∨
        fails ≠ (false, false) ∧
          (poller.updateChannel id channel fails).notes channel.fd filter = poller.notes channel.fd filter := by
  obtain ⟨failsRead, failsWrite⟩ := fails
  unfold updateChannel
  rcases poller.applyEvent_cases id channel .read failsRead with ⟨rfl, hread⟩ | ⟨read, hread, hwanted, hothers⟩
  · simp only [hread]
    exact ⟨fun _ _ => trivial, fun filter => .inr ⟨by simp, trivial⟩⟩
  · simp only [hread]
    rcases read.applyEvent_cases id channel .write failsWrite with ⟨rfl, hwrite⟩ | ⟨write, hwrite, hwanted', hothers'⟩
    · rw [hwrite, Option.getD_none]
      refine ⟨fun fd hfd => funext fun filter => hothers fd filter fun h => hfd h.1, fun filter => ?_⟩
      cases filter with
      | read => exact .inl hwanted
      | write => exact .inr ⟨by simp, hothers _ _ fun h => by cases h.2⟩
    · rw [hwrite, Option.getD_some]
      refine ⟨fun fd hfd => funext fun filter => ?_, fun filter => .inl ?_⟩
      · rw [hothers' fd filter fun h => hfd h.1, hothers fd filter fun h => hfd h.1]
      · cases filter with
        | read => rw [hothers' _ _ fun h => (by cases h.2), hwanted]
        | write => exact hwanted'

/-- **kqueue** does what the channels rely on, without records of its own. -/
theorem lawful : kqueue.Lawful fun _ => True where
  empty := ⟨trivial, fun _ _ => rfl⟩
  updated {poller id channel fails} _ := by
    refine ⟨trivial, fun filter => ?_⟩
    change (fails = (false, false) → (poller.updateChannel id channel fails).notes channel.fd filter = _) ∧
      ((poller.updateChannel id channel fails).notes channel.fd filter = _ ∨
        (poller.updateChannel id channel fails).notes channel.fd filter = _ ∨
        (poller.updateChannel id channel fails).notes channel.fd filter = _)
    rcases (poller.updateChannel_notes id channel fails).2 filter with hwanted | ⟨hfails, hsame⟩
    · rw [hwanted]
      refine ⟨fun _ => rfl, ?_⟩
      split
      · exact .inl rfl
      · exact .inr (.inl rfl)
    · exact ⟨fun hsucceeds => absurd hsucceeds hfails, .inr (.inr hsame)⟩
  updated_other {poller id channel fails fd} _ hfd filter :=
    congrFun ((poller.updateChannel_notes id channel fails).1 fd hfd) filter
  removed {poller channel} _ := ⟨trivial, fun fd filter => rfl⟩
  closed {poller fd} _ hnone := by
    refine ⟨trivial, funext fun other => funext fun filter => ?_⟩
    change (if other = fd then none else poller.notes other filter) = poller.notes other filter
    split
    · rename_i hfd
      rw [hfd]
      exact (hnone filter).symm
    · rfl

end KqueuePoller

end LogMq
