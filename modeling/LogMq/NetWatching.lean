import LogMq.NetPoller

/-! What a loop is told of its channels, over whole runs: an event is reported for the one channel of its descriptor that
has not been removed, both pollers report the same, and an event of a turn finds its channel gone only if another thread
has destroyed it. -/

namespace LogMq

/-! ### What every step keeps -/

namespace Watching

variable {κ : Type} {platform : PlatformPoller κ} {inOrder : κ → Prop} {watching next : Watching κ}

/-- The channel with this number is there, is not removed, and has this descriptor. -/
def Live (channels : List Channel) (id fd : Nat) (channel : Channel) : Prop :=
  channels[id]? = some channel ∧ channel.fd = fd ∧ channel.removed = false

/-- The channel with this number wants to hear of this descriptor. -/
def Wants (channels : List Channel) (id fd : Nat) (filter : EventFilter) : Prop :=
  ∃ channel, Live channels id fd channel ∧ channel.wants filter = true

/-- What is reported is reported for the one channel of the descriptor that is not removed. If no call has failed, this
is what that channel wants. -/
structure Sound (platform : PlatformPoller κ) (inOrder : κ → Prop) (intact : Prop) (watching : Watching κ) : Prop where
  inOrder : inOrder watching.poller
  unique : ∀ {id other fd channel channel'}, Live watching.channels id fd channel →
    Live watching.channels other fd channel' → id = other
  alive : ∀ {id fd filter}, platform.reported watching.poller fd filter = some id →
    ∃ channel, Live watching.channels id fd channel
  exact : intact → ∀ {id fd filter}, Wants watching.channels id fd filter →
    platform.reported watching.poller fd filter = some id
  wanted : intact → ∀ {id fd filter}, platform.reported watching.poller fd filter = some id →
    Wants watching.channels id fd filter

section Channels

variable {channels : List Channel} {id other fd : Nat} {old new channel : Channel}

theorem live_append (hnew : new.removed = false) : Live (channels ++ [new]) id fd channel ↔
    Live channels id fd channel ∨ id = channels.length ∧ channel = new ∧ fd = new.fd := by
  unfold Live
  rcases lt_trichotomy id channels.length with hlt | rfl | hgt
  · rw [List.getElem?_append_left hlt]
    simp [hlt.ne]
  · rw [List.getElem?_append_right le_rfl, Nat.sub_self]
    constructor
    · rintro ⟨hplace, rfl, -⟩
      cases hplace
      exact .inr ⟨rfl, rfl, rfl⟩
    · rintro (⟨hplace, -⟩ | ⟨-, rfl, rfl⟩)
      · simp at hplace
      · exact ⟨rfl, rfl, hnew⟩
  · rw [List.getElem?_eq_none (by simp; omega), List.getElem?_eq_none hgt.le]
    simp [hgt.ne']

theorem live_set (hplace : channels[id]? = some old) : Live (channels.set id new) other fd channel ↔
    other ≠ id ∧ Live channels other fd channel ∨
      other = id ∧ channel = new ∧ fd = new.fd ∧ new.removed = false := by
  have hlt := (List.getElem?_eq_some_iff.mp hplace).1
  unfold Live
  by_cases hother : other = id
  · subst hother
    rw [List.getElem?_set_self hlt]
    constructor
    · rintro ⟨hnew, rfl, hremoved⟩
      cases hnew
      exact .inr ⟨rfl, rfl, rfl, hremoved⟩
    · rintro (⟨habsurd, -⟩ | ⟨-, rfl, rfl, hremoved⟩)
      · exact absurd rfl habsurd
      · exact ⟨rfl, rfl, hremoved⟩
  · rw [List.getElem?_set_ne (Ne.symm hother)]
    simp [hother]

theorem Free.not_live (h : Free channels fd) : ¬ Live channels id fd channel := fun hlive => by
  have hremoved := h channel (List.mem_of_getElem? hlive.1) hlive.2.1
  cases hremoved.symm.trans hlive.2.2

end Channels

namespace Sound

variable {intact : Prop}

theorem create (h : watching.Sound platform inOrder intact) {fd : Nat} (hfree : Free watching.channels fd) :
    Sound platform inOrder intact { watching with channels := watching.channels ++ [{ fd := fd }] } where
  inOrder := h.inOrder
  unique {id other fd' channel channel'} hlive hlive' := by
    rcases (live_append rfl).mp hlive with hold | ⟨hid, -, hfd⟩ <;>
      rcases (live_append rfl).mp hlive' with hold' | ⟨hid', -, hfd'⟩
    · exact h.unique hold hold'
    · rw [hfd'] at hold
      exact absurd hold hfree.not_live
    · rw [hfd] at hold'
      exact absurd hold' hfree.not_live
    · rw [hid, hid']
  alive hreported := by
    obtain ⟨channel, hlive⟩ := h.alive hreported
    exact ⟨channel, (live_append rfl).mpr (.inl hlive)⟩
  exact hintact {id fd' filter} hwants := by
    obtain ⟨channel, hlive, hfilter⟩ := hwants
    rcases (live_append rfl).mp hlive with hold | ⟨-, rfl, -⟩
    · exact h.exact hintact ⟨channel, hold, hfilter⟩
    · cases filter <;> cases hfilter
  wanted hintact {id fd' filter} hreported := by
    obtain ⟨channel, hlive, hfilter⟩ := h.wanted hintact hreported
    exact ⟨channel, (live_append rfl).mpr (.inl hlive), hfilter⟩

/-- A removed channel stays as it is for everyone else. -/
theorem quiet (h : watching.Sound platform inOrder intact) {id : Nat} {channel changed : Channel}
    (hplace : watching.channels[id]? = some channel) (hbefore : channel.removed = true)
    (hafter : changed.removed = true) :
    Sound platform inOrder intact { watching with channels := watching.channels.set id changed } := by
  have hlive : ∀ {other fd found}, Live (watching.channels.set id changed) other fd found ↔
      Live watching.channels other fd found := by
    intro other fd found
    rw [live_set hplace]
    constructor
    · rintro (⟨-, hlive⟩ | ⟨-, -, -, habsurd⟩)
      · exact hlive
      · cases hafter.symm.trans habsurd
    · refine fun hlive => .inl ⟨?_, hlive⟩
      rintro rfl
      cases hplace.symm.trans hlive.1
      cases hbefore.symm.trans hlive.2.2
  refine ⟨h.inOrder, fun hold hnew => h.unique (hlive.mp hold) (hlive.mp hnew), fun hreported => ?_,
    fun hintact _ _ _ hwants => ?_, fun hintact _ _ _ hreported => ?_⟩
  · obtain ⟨found, hfound⟩ := h.alive hreported
    exact ⟨found, hlive.mpr hfound⟩
  · obtain ⟨found, hfound, hfilter⟩ := hwants
    exact h.exact hintact ⟨found, hlive.mp hfound, hfilter⟩
  · obtain ⟨found, hfound, hfilter⟩ := h.wanted hintact hreported
    exact ⟨found, hlive.mpr hfound, hfilter⟩

/-- The flags of a channel change, and the poller is told. -/
theorem update (h : watching.Sound platform inOrder intact) (hlawful : platform.Lawful inOrder) {id : Nat}
    {channel changed : Channel} (hplace : watching.channels[id]? = some channel) (hbefore : channel.removed = false)
    (hfd : changed.fd = channel.fd) (hafter : changed.removed = false) (fails : Bool × Bool) :
    Sound platform inOrder (intact ∧ fails = (false, false)) ⟨watching.channels.set id changed,
      platform.updateChannel watching.poller id changed fails⟩ := by
  obtain ⟨horder, hupdated⟩ :=
    @PlatformPoller.Lawful.updated κ platform inOrder hlawful watching.poller id changed fails h.inOrder
  have hothers : ∀ {fd}, fd ≠ channel.fd → ∀ filter,
      platform.reported (platform.updateChannel watching.poller id changed fails) fd filter =
        platform.reported watching.poller fd filter := by
    intro fd hne
    exact hlawful.updated_other h.inOrder (hfd ▸ hne)
  have hmine : Live watching.channels id channel.fd channel := ⟨hplace, rfl, hbefore⟩
  have hchanged : Live (watching.channels.set id changed) id channel.fd changed :=
    (live_set hplace).mpr (.inr ⟨rfl, rfl, hfd.symm, hafter⟩)
  refine ⟨horder, fun {i j fd c c'} hold hnew => ?_, fun {i fd filter} hreported => ?_,
    fun hintact i fd filter hwants => ?_, fun hintact i fd filter hreported => ?_⟩
  · -- every live channel has a live channel of the same number and descriptor before the step
    have hback : ∀ {i fd c}, Live (watching.channels.set id changed) i fd c → ∃ c, Live watching.channels i fd c := by
      intro i fd c hlive
      rcases (live_set hplace).mp hlive with ⟨-, hother⟩ | ⟨rfl, -, rfl, -⟩
      · exact ⟨c, hother⟩
      · exact ⟨channel, hfd ▸ hmine⟩
    obtain ⟨_, hold'⟩ := hback hold
    obtain ⟨_, hnew'⟩ := hback hnew
    exact h.unique hold' hnew'
  · by_cases hne : fd = channel.fd
    · subst hne
      have hcases := (hupdated filter).2
      rw [hfd] at hcases
      rcases hcases with hself | hnone | hsame
      · cases hself.symm.trans hreported
        exact ⟨changed, hchanged⟩
      · cases hnone.symm.trans hreported
      · obtain ⟨c, hc⟩ := h.alive (hsame.symm.trans hreported)
        cases h.unique hc hmine
        exact ⟨changed, hchanged⟩
    · obtain ⟨c, hc⟩ := h.alive ((hothers hne filter).symm.trans hreported)
      refine ⟨c, (live_set hplace).mpr (.inl ⟨?_, hc⟩)⟩
      rintro rfl
      cases hplace.symm.trans hc.1
      exact hne hc.2.1.symm
  · obtain ⟨c, hc, hfilter⟩ := hwants
    rcases (live_set hplace).mp hc with ⟨hne, hold⟩ | ⟨rfl, rfl, rfl, -⟩
    · have hdiff : fd ≠ channel.fd := by
        rintro rfl
        exact hne (h.unique hold hmine)
      rw [hothers hdiff]
      exact h.exact hintact.1 ⟨c, hold, hfilter⟩
    · rw [(hupdated filter).1 hintact.2, if_pos hfilter]
  · by_cases hne : fd = channel.fd
    · subst hne
      have hset := (hupdated filter).1 hintact.2
      rw [hfd] at hset
      have hboth := hset.symm.trans hreported
      split at hboth
      · cases hboth
        exact ⟨changed, hchanged, ‹_›⟩
      · cases hboth
    · obtain ⟨c, hc, hfilter⟩ := h.wanted hintact.1 ((hothers hne filter).symm.trans hreported)
      refine ⟨c, (live_set hplace).mpr (.inl ⟨?_, hc⟩), hfilter⟩
      rintro rfl
      cases hplace.symm.trans hc.1
      exact hne hc.2.1.symm

/-- A channel is removed, and nothing is reported for its descriptor any more. -/
theorem remove (h : watching.Sound platform inOrder intact) (hlawful : platform.Lawful inOrder) {id : Nat}
    {channel : Channel} (hplace : watching.channels[id]? = some channel) (hbefore : channel.removed = false) :
    Sound platform inOrder intact ⟨watching.channels.set id { channel with removed := true },
      platform.removeChannel watching.poller channel⟩ := by
  obtain ⟨horder, hremoved⟩ :=
    @PlatformPoller.Lawful.removed κ platform inOrder hlawful watching.poller channel h.inOrder
  have hmine : Live watching.channels id channel.fd channel := ⟨hplace, rfl, hbefore⟩
  have hlive : ∀ {other fd found}, Live (watching.channels.set id { channel with removed := true }) other fd found ↔
      other ≠ id ∧ Live watching.channels other fd found := by
    intro other fd found
    rw [live_set hplace]
    exact or_iff_left fun habsurd => by cases habsurd.2.2.2
  have hreported : ∀ {fd filter i},
      platform.reported (platform.removeChannel watching.poller channel) fd filter = some i ↔
        fd ≠ channel.fd ∧ platform.reported watching.poller fd filter = some i := by
    intro fd filter i
    rw [hremoved]
    split
    · simp [‹fd = channel.fd›]
    · simp [‹¬ fd = channel.fd›]
  have hapart : ∀ {other fd found}, Live watching.channels other fd found → (other ≠ id ↔ fd ≠ channel.fd) := by
    intro other fd found hfound
    refine ⟨?_, ?_⟩
    · rintro hne rfl
      exact hne (h.unique hfound hmine)
    · rintro hne rfl
      cases hplace.symm.trans hfound.1
      exact hne hfound.2.1.symm
  refine ⟨horder, fun hold hnew => h.unique (hlive.mp hold).2 (hlive.mp hnew).2, fun hafter => ?_,
    fun hintact i fd filter hwants => ?_, fun hintact i fd filter hafter => ?_⟩
  · obtain ⟨hne, hold⟩ := hreported.mp hafter
    obtain ⟨c, hc⟩ := h.alive hold
    exact ⟨c, hlive.mpr ⟨(hapart hc).mpr hne, hc⟩⟩
  · obtain ⟨c, hc, hfilter⟩ := hwants
    obtain ⟨hne, hold⟩ := hlive.mp hc
    exact hreported.mpr ⟨(hapart hold).mp hne, h.exact hintact ⟨c, hold, hfilter⟩⟩
  · obtain ⟨hne, hold⟩ := hreported.mp hafter
    obtain ⟨c, hc, hfilter⟩ := h.wanted hintact hold
    exact ⟨c, hlive.mpr ⟨(hapart hc).mpr hne, hc⟩, hfilter⟩

/-- A descriptor without a live channel is closed. -/
theorem close (h : watching.Sound platform inOrder intact) (hlawful : platform.Lawful inOrder) {fd : Nat}
    (hfree : Free watching.channels fd) :
    Sound platform inOrder intact { watching with poller := platform.closed watching.poller fd } := by
  have hnone : ∀ filter, platform.reported watching.poller fd filter = none := by
    intro filter
    cases hreported : platform.reported watching.poller fd filter with
    | none => rfl
    | some id =>
        obtain ⟨channel, hlive⟩ := h.alive hreported
        exact absurd hlive hfree.not_live
  obtain ⟨horder, hsame⟩ := hlawful.closed h.inOrder hnone
  refine ⟨horder, h.unique, fun hreported => h.alive (hsame ▸ hreported), fun hintact _ _ _ hwants => ?_,
    fun hintact _ _ _ hreported => h.wanted hintact (hsame ▸ hreported)⟩
  exact hsame ▸ h.exact hintact hwants

theorem weaken (h : watching.Sound platform inOrder intact) {intact' : Prop} (himp : intact' → intact) :
    watching.Sound platform inOrder intact' :=
  ⟨h.inOrder, h.unique, h.alive, fun hintact => h.exact (himp hintact), fun hintact => h.wanted (himp hintact)⟩

/-- **What every step keeps.** -/
theorem step (h : watching.Sound platform inOrder intact) (hlawful : platform.Lawful inOrder) {event : ChannelEvent}
    (hstep : watching.step platform event = some next) :
    next.Sound platform inOrder (intact ∧ event.succeeds = true) := by
  cases event with
  | create fd =>
      rw [Watching.step] at hstep
      split at hstep
      · cases hstep
        exact (h.create ‹_›).weaken And.left
      · cases hstep
  | change id change fails =>
      obtain ⟨channel, hplace, hafter⟩ := Option.bind_eq_some_iff.mp hstep
      cases hafter
      have hchange : (channel.change change).fd = channel.fd ∧ (channel.change change).removed = channel.removed := by
        cases change <;> exact ⟨rfl, rfl⟩
      cases hremoved : channel.removed with
      | true =>
          simp only [if_true]
          exact (h.quiet hplace hremoved (hchange.2.trans hremoved)).weaken And.left
      | false =>
          simp only [Bool.false_eq_true, if_false]
          refine (h.update hlawful hplace hremoved hchange.1 (hchange.2.trans hremoved) fails).weaken ?_
          exact fun hintact => ⟨hintact.1, beq_iff_eq.mp hintact.2⟩
  | remove id =>
      obtain ⟨channel, hplace, hafter⟩ := Option.bind_eq_some_iff.mp hstep
      cases hafter
      cases hremoved : channel.removed with
      | true =>
          simp only [if_true]
          exact (h.quiet hplace hremoved rfl).weaken And.left
      | false =>
          simp only [Bool.false_eq_true, if_false]
          exact (h.remove hlawful hplace hremoved).weaken And.left
  | close fd =>
      rw [Watching.step] at hstep
      split at hstep
      · cases hstep
        exact (h.close hlawful ‹_›).weaken And.left
      · cases hstep

theorem run (h : watching.Sound platform inOrder intact) (hlawful : platform.Lawful inOrder)
    {events : List ChannelEvent} {later : Watching κ}
    (hrun : Steps.run (Watching.step platform) watching events = some later) :
    later.Sound platform inOrder (intact ∧ ∀ event ∈ events, event.succeeds = true) := by
  induction events generalizing watching intact with
  | nil =>
      cases hrun
      exact h.weaken And.left
  | cons event rest ih =>
      obtain ⟨middle, hstep, hrest⟩ := Option.bind_eq_some_iff.mp hrun
      refine (ih (h.step hlawful hstep) hrest).weaken fun hintact => ⟨⟨hintact.1, ?_⟩, fun other hother => ?_⟩
      · exact hintact.2 event List.mem_cons_self
      · exact hintact.2 other (List.mem_cons_of_mem _ hother)

theorem start (hlawful : platform.Lawful inOrder) : Sound platform inOrder True { poller := platform.empty } where
  inOrder := hlawful.empty.1
  unique hlive _ := by cases hlive.1
  alive {id fd filter} hreported := by cases (hlawful.empty.2 fd filter).symm.trans hreported
  exact _ {id fd filter} hwants := by
    obtain ⟨channel, hlive, -⟩ := hwants
    cases hlive.1
  wanted _ {id fd filter} hreported := by cases (hlawful.empty.2 fd filter).symm.trans hreported

end Sound

/-! ### Two pollers -/

/-- What becomes of the channels does not depend on the poller. -/
theorem run_channels {κ' : Type} {other : PlatformPoller κ'} {watching : Watching κ} {watching' : Watching κ'}
    (h : watching.channels = watching'.channels) {events : List ChannelEvent} {later : Watching κ} {later' : Watching κ'}
    (hrun : Steps.run (step platform) watching events = some later)
    (hrun' : Steps.run (step other) watching' events = some later') : later.channels = later'.channels := by
  induction events generalizing watching watching' with
  | nil =>
      cases hrun
      cases hrun'
      exact h
  | cons event rest ih =>
      obtain ⟨middle, hstep, hrest⟩ := Option.bind_eq_some_iff.mp hrun
      obtain ⟨middle', hstep', hrest'⟩ := Option.bind_eq_some_iff.mp hrun'
      refine ih ?_ hrest hrest'
      cases event with
      | create fd =>
          simp only [step, h] at hstep hstep'
          split at hstep
          · rw [if_pos ‹_›] at hstep'
            cases hstep
            cases hstep'
            rfl
          · cases hstep
      | change id change fails =>
          obtain ⟨channel, hplace, hafter⟩ := Option.bind_eq_some_iff.mp hstep
          obtain ⟨channel', hplace', hafter'⟩ := Option.bind_eq_some_iff.mp hstep'
          rw [h, hplace'] at hplace
          cases hplace
          cases hafter
          cases hafter'
          rw [h]
      | remove id =>
          obtain ⟨channel, hplace, hafter⟩ := Option.bind_eq_some_iff.mp hstep
          obtain ⟨channel', hplace', hafter'⟩ := Option.bind_eq_some_iff.mp hstep'
          rw [h, hplace'] at hplace
          cases hplace
          cases hafter
          cases hafter'
          rw [h]
      | close fd =>
          simp only [step, h] at hstep hstep'
          split at hstep
          · rw [if_pos ‹_›] at hstep'
            cases hstep
            cases hstep'
            rfl
          · cases hstep

/-- **The pollers agree.** After the same steps, none of whose calls has failed, both pollers are told of the same
descriptors, filters and channels: those that the channels that are not removed want. -/
theorem pollers_agree {events : List ChannelEvent} {byEpoll : Watching EpollPoller} {byKqueue : Watching KqueuePoller}
    (hepoll : Steps.run (step epoll) { poller := epoll.empty } events = some byEpoll)
    (hkqueue : Steps.run (step kqueue) { poller := kqueue.empty } events = some byKqueue)
    (hsucceeds : ∀ event ∈ events, event.succeeds = true) :
    byEpoll.channels = byKqueue.channels ∧ ∀ fd filter,
      epoll.reported byEpoll.poller fd filter = kqueue.reported byKqueue.poller fd filter ∧
        ∀ id, epoll.reported byEpoll.poller fd filter = some id ↔ Wants byEpoll.channels id fd filter := by
  have hempty : ({ poller := epoll.empty } : Watching EpollPoller).channels =
      ({ poller := kqueue.empty } : Watching KqueuePoller).channels := rfl
  have hchannels := run_channels hempty hepoll hkqueue
  have hsound := (Sound.start EpollPoller.lawful).run EpollPoller.lawful hepoll
  have hsound' := (Sound.start KqueuePoller.lawful).run KqueuePoller.lawful hkqueue
  have hintact : True ∧ ∀ event ∈ events, event.succeeds = true := ⟨trivial, hsucceeds⟩
  have hwants : ∀ fd filter id, epoll.reported byEpoll.poller fd filter = some id ↔
      Wants byEpoll.channels id fd filter := fun fd filter id => ⟨hsound.wanted hintact, hsound.exact hintact⟩
  have hwants' : ∀ fd filter id, kqueue.reported byKqueue.poller fd filter = some id ↔
      Wants byEpoll.channels id fd filter := fun fd filter id =>
    hchannels ▸ ⟨hsound'.wanted hintact, hsound'.exact hintact⟩
  refine ⟨hchannels, fun fd filter => ⟨Option.ext fun id => ?_, hwants fd filter⟩⟩
  exact (hwants fd filter id).trans (hwants' fd filter id).symm

/-- A descriptor is closed and given to a new channel, while another one is read and written. -/
def reusedDescriptor : List ChannelEvent :=
  [.create 5, .change 0 .enableReading (false, false), .create 6, .change 1 .enableReading (false, false),
    .change 1 .enableWriting (false, false), .change 0 .disableAll (false, false), .remove 0, .close 5, .create 5,
    .change 2 .enableReading (false, false)]

theorem pollers_agree_reusedDescriptor :
    ∃ (byEpoll : Watching EpollPoller) (byKqueue : Watching KqueuePoller),
      Steps.run (step epoll) { poller := epoll.empty } reusedDescriptor = some byEpoll ∧
      Steps.run (step kqueue) { poller := kqueue.empty } reusedDescriptor = some byKqueue ∧
      epoll.reported byEpoll.poller 5 .read = some 2 ∧ kqueue.reported byKqueue.poller 5 .read = some 2 := by
  obtain ⟨byEpoll, hepoll⟩ := Option.isSome_iff_exists.mp
    (by decide : (Steps.run (step epoll) { poller := epoll.empty } reusedDescriptor).isSome = true)
  obtain ⟨byKqueue, hkqueue⟩ := Option.isSome_iff_exists.mp
    (by decide : (Steps.run (step kqueue) { poller := kqueue.empty } reusedDescriptor).isSome = true)
  have hreported : (Steps.run (step epoll) { poller := epoll.empty } reusedDescriptor).bind (fun watching =>
      epoll.reported watching.poller 5 .read) = some 2 := by decide
  rw [hepoll, Option.bind_some] at hreported
  obtain ⟨-, hagree⟩ := pollers_agree hepoll hkqueue (by decide)
  exact ⟨byEpoll, byKqueue, hepoll, hkqueue, hreported, (hagree 5 .read).1 ▸ hreported⟩

/-! ### The events of one turn -/

/-- What happens in a turn after `epoll_wait`: the loop hands an event to its channel, or another thread destroys a
channel. `TcpServer::Stop` does, where it is the last owner of a connection that still has something to write. -/
inductive TurnStep where
  | handle (id : Nat) (flags : UInt32)
  | destroy (id : Nat)

def TurnStep.event? : TurnStep → Option (Nat × UInt32)
  | .handle id flags => some (id, flags)
  | .destroy _ => none

/-- Whether every event of a turn finds its channel, when the handlers of some events end the owner of their channel,
and the channel with it. -/
def handlesLive (ends : Nat → UInt32 → Bool) : List Nat → List TurnStep → Bool
  | _, [] => true
  | gone, .destroy id :: rest => handlesLive ends (id :: gone) rest
  | gone, .handle id flags :: rest =>
      decide (id ∉ gone) && handlesLive ends (if ends id flags = true then id :: gone else gone) rest

/-- The step after which the channel with this number is gone. -/
def TurnStep.Takes (ends : Nat → UInt32 → Bool) (id : Nat) : TurnStep → Prop
  | .handle other flags => ends other flags = true ∧ other = id
  | .destroy other => other = id

/-- It does unless a step that takes a channel comes before an event of that channel. -/
theorem handlesLive_iff {ends : Nat → UInt32 → Bool} {gone : List Nat} {steps : List TurnStep} :
    handlesLive ends gone steps = true ↔ (∀ id flags, .handle id flags ∈ steps → id ∉ gone) ∧
      steps.Pairwise fun step later => ∀ id flags, later = .handle id flags → ¬ step.Takes ends id := by
  induction steps generalizing gone with
  | nil => simp [handlesLive]
  | cons step rest ih =>
      rw [List.pairwise_cons]
      cases step with
      | destroy lost =>
          rw [handlesLive, ih]
          simp only [List.mem_cons, reduceCtorEq, false_or, not_or, TurnStep.Takes]
          constructor
          · rintro ⟨hgone, hpairwise⟩
            exact ⟨fun id flags hlater => (hgone id flags hlater).2,
              fun later hlater id flags heq => Ne.symm (hgone id flags (heq ▸ hlater)).1, hpairwise⟩
          · rintro ⟨hgone, hfirst, hpairwise⟩
            exact ⟨fun id flags hlater => ⟨Ne.symm (hfirst _ hlater id flags rfl), hgone id flags hlater⟩, hpairwise⟩
      | handle first flags =>
          rw [handlesLive, Bool.and_eq_true, decide_eq_true_eq, ih]
          simp only [List.mem_cons, TurnStep.Takes, TurnStep.handle.injEq]
          cases ends first flags with
          | false =>
              simp only [Bool.false_eq_true, if_false, false_and, not_false_eq_true, implies_true, true_and]
              constructor
              · rintro ⟨hid, hgone, hpairwise⟩
                exact ⟨fun id flags hlater => hlater.elim (fun heq => heq.1 ▸ hid) (hgone id flags), hpairwise⟩
              · rintro ⟨hgone, hpairwise⟩
                exact ⟨hgone first flags (.inl ⟨rfl, rfl⟩), fun id flags hlater => hgone id flags (.inr hlater),
                  hpairwise⟩
          | true =>
              simp only [if_true, List.mem_cons, not_or, true_and]
              constructor
              · rintro ⟨hid, hgone, hpairwise⟩
                exact ⟨fun id flags hlater => hlater.elim (fun heq => heq.1 ▸ hid) fun hmem => (hgone id flags hmem).2,
                  fun later hlater id flags heq => Ne.symm (hgone id flags (heq ▸ hlater)).1, hpairwise⟩
              · rintro ⟨hgone, hfirst, hpairwise⟩
                exact ⟨hgone first flags (.inl ⟨rfl, rfl⟩),
                  fun id flags hlater => ⟨Ne.symm (hfirst _ hlater id flags rfl), hgone id flags (.inr hlater)⟩,
                  hpairwise⟩

/-- An entry of the kernel belongs to the live channel of its descriptor. -/
theorem Sound.entry_live {watching : Watching EpollPoller} {intact : Prop}
    (h : watching.Sound epoll EpollPoller.InOrder intact) {fd id : Nat} {flags : UInt32}
    (hentry : watching.poller.interest fd = some (flags, id)) : ∃ channel, Live watching.channels id fd channel := by
  by_cases hread : flags &&& epollIn = 0
  · have hwrite : ¬ flags &&& epollOut = 0 := fun hnone => h.inOrder.wanted fd flags id hentry ⟨hread, hnone⟩
    have hreported : epoll.reported watching.poller fd .write = some id := by simp [epoll, hentry, hwrite]
    exact h.alive hreported
  · have hreported : epoll.reported watching.poller fd .read = some id := by simp [epoll, hentry, hread]
    exact h.alive hreported

/-- The events of a turn are for different channels. -/
theorem Sound.active_apart {watching : Watching EpollPoller} {intact : Prop}
    (h : watching.Sound epoll EpollPoller.InOrder intact) {ready : List (Nat × UInt32)}
    (hready : (ready.map Prod.fst).Nodup) :
    (watching.poller.active ready).Pairwise fun event later => event.1 ≠ later.1 := by
  have hpairwise : ready.Pairwise fun first second => first.1 ≠ second.1 := List.pairwise_map.mp hready
  refine List.Pairwise.filterMap _ ?_ hpairwise
  intro first second hne event hfirst later hsecond hsame
  obtain ⟨⟨flags, id⟩, hentry, rfl⟩ := Option.map_eq_some_iff.mp hfirst
  obtain ⟨⟨flags', id'⟩, hentry', rfl⟩ := Option.map_eq_some_iff.mp hsecond
  cases hsame
  obtain ⟨channel, hlive⟩ := h.entry_live hentry
  obtain ⟨channel', hlive'⟩ := h.entry_live hentry'
  cases hlive.1.symm.trans hlive'.1
  exact hne (hlive.2.1.symm.trans hlive'.2.1)

/-- **Where the events of epoll go.** Whichever calls have failed, the events of a turn, one for each descriptor that is
ready, are for channels that have not been removed. When they are handled, whatever the handlers end, an event finds
its channel gone exactly if another thread has destroyed that channel since `epoll_wait`. -/
theorem events_find_channels {events : List ChannelEvent} {watching : Watching EpollPoller}
    (hrun : Steps.run (step epoll) { poller := epoll.empty } events = some watching) {ready : List (Nat × UInt32)}
    (hready : (ready.map Prod.fst).Nodup) (ends : Nat → UInt32 → Bool) :
    (∀ event ∈ watching.poller.active ready, ∃ fd channel, Live watching.channels event.1 fd channel) ∧
      ∀ steps : List TurnStep, steps.filterMap TurnStep.event? <+: watching.poller.active ready →
        (handlesLive ends [] steps = true ↔
          steps.Pairwise fun step later => ∀ id flags, step = .destroy id → later ≠ .handle id flags) := by
  have hsound := (Sound.start EpollPoller.lawful).run EpollPoller.lawful hrun
  refine ⟨fun event hevent => ?_, fun steps hsteps => ?_⟩
  · obtain ⟨source, -, hsource⟩ := List.mem_filterMap.mp hevent
    obtain ⟨⟨flags, id⟩, hentry, rfl⟩ := Option.map_eq_some_iff.mp hsource
    exact ⟨source.1, hsound.entry_live hentry⟩
  · have hapart := List.pairwise_filterMap.mp ((hsound.active_apart hready).sublist hsteps.sublist)
    rw [handlesLive_iff]
    constructor
    · rintro ⟨-, hpairwise⟩
      refine hpairwise.imp ?_
      rintro step later htakes id flags rfl rfl
      exact htakes id flags rfl rfl
    · intro hdestroyed
      refine ⟨fun _ _ _ => List.not_mem_nil, (hapart.and hdestroyed).imp ?_⟩
      rintro (⟨other, flags'⟩ | other) later ⟨hdistinct, hlost⟩ id flags rfl htakes
      · exact hdistinct _ rfl _ rfl htakes.2
      · exact hlost id flags (congrArg TurnStep.destroy htakes) rfl

/-- Both channels have events in one turn. The first one ends its owner; another thread destroys the second one after
its event, or before it. -/
theorem events_find_channels_reusedDescriptor :
    ∃ watching : Watching EpollPoller,
      Steps.run (step epoll) { poller := epoll.empty } reusedDescriptor = some watching ∧
      (∀ event ∈ watching.poller.active [(5, epollIn), (6, epollOut)], ∃ fd channel,
        Live watching.channels event.1 fd channel) ∧
      handlesLive (fun id _ => id == 2) [] [.handle 2 epollIn, .handle 1 epollOut, .destroy 1] = true ∧
      handlesLive (fun id _ => id == 2) [] [.handle 2 epollIn, .destroy 1, .handle 1 epollOut] = false := by
  obtain ⟨watching, hrun⟩ := Option.isSome_iff_exists.mp
    (by decide : (Steps.run (step epoll) { poller := epoll.empty } reusedDescriptor).isSome = true)
  have hactive : (Steps.run (step epoll) { poller := epoll.empty } reusedDescriptor).map (fun watching =>
      watching.poller.active [(5, epollIn), (6, epollOut)]) = some [(2, epollIn), (1, epollOut)] := by decide
  rw [hrun, Option.map_some, Option.some_inj] at hactive
  obtain ⟨hlive, hturn⟩ := events_find_channels hrun
    (by decide : (([(5, epollIn), (6, epollOut)] : List (Nat × UInt32)).map Prod.fst).Nodup) (fun id _ => id == 2)
  rw [hactive] at hturn
  refine ⟨watching, hrun, hlive, (hturn _ ⟨[], rfl⟩).mpr ?_, Bool.eq_false_of_not_eq_true fun hfound => ?_⟩
  · simp
  · have hpairwise := (hturn [.handle 2 epollIn, .destroy 1, .handle 1 epollOut] ⟨[], rfl⟩).mp hfound
    simp at hpairwise

end Watching

end LogMq
