import LogMq.BrokerInvariant

/-! Runs of a broker: requests in any order, turns of the scheduler, flushes, expiries of group members, and
restarts on the same data directory. System calls may fail; a broker is restarted only on a directory on
which none has. -/

namespace LogMq

/-- What a run may contain: the options of the brokers and what their requests meet. -/
structure Rules where
  options : BrokerServiceOptions → Prop := fun _ => True
  environment : Environment → Prop := fun _ => True

/-- A broker, and whether no system call has failed on its directory. -/
structure System where
  broker : BrokerService
  intact : Bool := true

/-- No system call of the request fails, other than a flush or the commit of an offset. -/
def Environment.faultless (environment : Environment) : Bool :=
  decide (environment.create = {} ∧ environment.append = {})

namespace BrokerService

def wake (queue : TaskQueue) (broker : BrokerService) (now : UInt64) : BrokerService :=
  { broker with retries := broker.retries.makeDueVisible queue now }

def flush (broker : BrokerService) (flushed : List (Bytes × Nat)) : BrokerService :=
  { broker with topics := broker.topics.flush flushed }

def expire (broker : BrokerService) (now : Int) : BrokerService :=
  { broker with groups := broker.groups.expireTimedOutMembers now }

end BrokerService

/-- One step of a run. A broker is started again only where none of its appends and topic creations has failed, since a
failed write may leave bytes behind that a restart reads as records or cannot read past; flushes and commits may fail
at any time. -/
inductive BrokerStep (queue : TaskQueue) (rules : Rules) : System → System → Prop
  | request (system : System) {envelope : RequestEnvelope} (htyped : envelope.body.Typed) {environment : Environment}
      (hallowed : rules.environment environment) :
      BrokerStep queue rules system
        ⟨(system.broker.handle queue environment envelope).2, system.intact && environment.faultless⟩
  | wake (system : System) (now : UInt64) :
      BrokerStep queue rules system { system with broker := system.broker.wake queue now }
  | flush (system : System) (flushed : List (Bytes × Nat)) :
      BrokerStep queue rules system { system with broker := system.broker.flush flushed }
  | expire (system : System) (now : Int) :
      BrokerStep queue rules system { system with broker := system.broker.expire now }
  | restart {system : System} (hintact : system.intact = true) {options : BrokerServiceOptions}
      (hoptions : rules.options options) {now : UInt64} {broker : BrokerService}
      (hstart : BrokerService.start queue options system.broker.close now = .ok broker) :
      BrokerStep queue rules system ⟨broker, true⟩

/-- The states that follow one. -/
abbrev BrokerFollows (queue : TaskQueue) (rules : Rules) : System → System → Prop :=
  Relation.ReflTransGen (BrokerStep queue rules)

/-- The states a broker reaches that was first started on an empty data directory. -/
def BrokerReaches (queue : TaskQueue) (rules : Rules) (system : System) : Prop :=
  ∃ options now broker, rules.options options ∧ BrokerService.start queue options {} now = .ok broker ∧
    BrokerFollows queue rules ⟨broker, true⟩ system

theorem BrokerReaches.follows {queue : TaskQueue} {rules : Rules} {system later : System}
    (h : BrokerReaches queue rules system) (hfollows : BrokerFollows queue rules system later) :
    BrokerReaches queue rules later := by
  obtain ⟨options, now, broker, hoptions, hstart, hreach⟩ := h
  exact ⟨options, now, broker, hoptions, hstart, hreach.trans hfollows⟩

/-! ### Requests in a row -/

/-- The state after some requests, each with what it meets. -/
def System.serve (queue : TaskQueue) (system : System) (calls : List (Environment × RequestEnvelope)) : System :=
  calls.foldl (fun system call =>
    ⟨(system.broker.handle queue call.1 call.2).2, system.intact && call.1.faultless⟩) system

theorem BrokerFollows.serve {queue : TaskQueue} {rules : Rules} {calls : List (Environment × RequestEnvelope)}
    (hallowed : ∀ call ∈ calls, rules.environment call.1) (htyped : ∀ call ∈ calls, call.2.body.Typed)
    (system : System) : BrokerFollows queue rules system (system.serve queue calls) := by
  induction calls generalizing system with
  | nil => exact .refl
  | cons call rest ih =>
      refine .head (.request system (htyped call List.mem_cons_self) (hallowed call List.mem_cons_self)) (ih ?_ ?_ _)
      · exact fun other hother => hallowed other (List.mem_cons_of_mem _ hother)
      · exact fun other hother => htyped other (List.mem_cons_of_mem _ hother)

/-- A broker on an empty directory. -/
def BrokerService.fresh (options : BrokerServiceOptions) (now : UInt64) : BrokerService where
  options := options
  topics := { options := options.storage.topicManager }
  retries := { readings := [now] }
  offsets := OffsetStore.load fun _ => none
  groups := { sessionTimeout := options.sessionTimeout }

/-! ### The invariant -/

/-- The options `Start` accepts. -/
def RetryOptions.Accepted (options : RetryOptions) : Prop :=
  0 ≤ options.delay ∧ options.maxRetries ≠ 0 ∧ options.maxRetries.toNat ≠ maxUInt32

instance (options : RetryOptions) : Decidable options.Accepted := inferInstanceAs (Decidable (_ ∧ _ ∧ _))

theorem BrokerService.start_fresh (queue : TaskQueue) {options : BrokerServiceOptions} (h : options.retry.Accepted)
    (now : UInt64) : BrokerService.start queue options {} now = .ok (.fresh options now) := by
  unfold BrokerService.start
  rw [if_neg]
  · rfl
  · rintro (hdelay | hzero | hmax)
    · exact absurd h.1 (not_le.mpr hdelay)
    · exact h.2.1 hzero
    · exact h.2.2 hmax

theorem BrokerReaches.serve {queue : TaskQueue} {rules : Rules} {options : BrokerServiceOptions} {now : UInt64}
    (hoptions : rules.options options) (haccepted : options.retry.Accepted)
    {calls : List (Environment × RequestEnvelope)} (hallowed : ∀ call ∈ calls, rules.environment call.1)
    (htyped : ∀ call ∈ calls, call.2.body.Typed) :
    BrokerReaches queue rules (System.serve queue ⟨.fresh options now, true⟩ calls) :=
  ⟨options, now, _, hoptions, BrokerService.start_fresh queue haccepted now, BrokerFollows.serve hallowed htyped _⟩

/-- Every Nack allowed by the rules leaves a mark on the metadata it writes. -/
def Rules.Marks (rules : Rules) (mark : Bytes → RetryMetadata → Prop) : Prop :=
  ∀ ⦃options environment reason source retry deadLetter⦄, rules.options options → options.retry.Accepted →
    rules.environment environment →
    (source.retryCount = 0 ∨ mark (retryTopicPrefix ++ source.originalTopic) source) →
    BrokerService.nackMetadata options.retry environment.now reason source = (retry, deadLetter) →
    mark (BrokerService.destinationOf retry deadLetter) retry

theorem Rules.marks_true (rules : Rules) : rules.Marks fun _ _ => True := fun _ _ _ _ _ _ _ _ _ _ _ => trivial

/-- What holds in every state of a run, for what the partitions then hold. -/
structure Invariant (rules : Rules) (mark : Bytes → RetryMetadata → Prop) (system : System) (held : Holdings) :
    Prop where
  options : rules.options system.broker.options
  accepted : system.broker.options.retry.Accepted
  storage : system.broker.topics.options = system.broker.options.storage.topicManager
  holds : system.broker.topics.Holds (system.intact = true) held
  original : ∀ {topic count}, isInternalTopic topic = true → system.broker.topics.count? topic = some count →
    system.broker.topics.count? (originalName topic) = some count
  rejected : ∀ {topic id batch}, isInternalTopic topic = true → batch ∈ held topic id →
    Rejected mark held topic id batch
  scheduled : Scheduled system.broker.retries held

namespace Invariant

variable {queue : TaskQueue} {rules : Rules} {mark : Bytes → RetryMetadata → Prop} {system : System}
  {held : Holdings}

/-- The parts of the invariant that a step with the same topics keeps. -/
theorem step (h : Invariant rules mark system held) {later : System} {grown : Holdings}
    (hoptions : later.broker.options = system.broker.options)
    (hstorage : later.broker.topics.options = system.broker.topics.options)
    (hcount : ∀ topic, later.broker.topics.count? topic = system.broker.topics.count? topic)
    (hholds : later.broker.topics.Holds (later.intact = true) grown)
    (hrejected : ∀ {topic id batch}, isInternalTopic topic = true → batch ∈ grown topic id →
      Rejected mark grown topic id batch)
    (hscheduled : Scheduled later.broker.retries grown) : Invariant rules mark later grown where
  options := by rw [hoptions]; exact h.options
  accepted := by rw [hoptions]; exact h.accepted
  storage := by rw [hstorage, hoptions]; exact h.storage
  holds := hholds
  original := by
    intro topic count hinternal hfound
    rw [hcount] at hfound ⊢
    exact h.original hinternal hfound
  rejected := hrejected
  scheduled := hscheduled

/-- Steps that touch neither the topics nor the scheduler. -/
theorem keep (h : Invariant rules mark system held) {later : System} (hintact : later.intact = true → system.intact = true)
    (hoptions : later.broker.options = system.broker.options) (htopics : later.broker.topics = system.broker.topics)
    (hretries : later.broker.retries = system.broker.retries) : Invariant rules mark later held :=
  h.step hoptions (by rw [htopics]) (fun _ => by rw [htopics]) (by rw [htopics]; exact h.holds.mono hintact)
    h.rejected (by rw [hretries]; exact h.scheduled)

/-- The chain of an internal or ordinary partition in use. -/
theorem chain (h : Invariant rules mark system held) {topic : Bytes} {id : Nat} {store : Store}
    (hstore : system.broker.topics.store? topic id = some store) :
    Chain 0 (held topic id) store.log.nextOffset :=
  (h.holds.carries hstore).chain

theorem wake (h : Invariant rules mark system held) (now : UInt64) :
    Invariant rules mark { system with broker := system.broker.wake queue now } held :=
  h.step rfl rfl (fun _ => rfl) h.holds h.rejected (h.scheduled.makeDueVisible queue now)

theorem flush (h : Invariant rules mark system held) (flushed : List (Bytes × Nat)) :
    Invariant rules mark { system with broker := system.broker.flush flushed } held := by
  have hflush : ∀ topics : TopicManager, topics.Holds (system.intact = true) held →
      (topics.flush flushed).Holds (system.intact = true) held ∧ (topics.flush flushed).options = topics.options ∧
        ∀ topic, (topics.flush flushed).count? topic = topics.count? topic := by
    induction flushed with
    | nil => exact fun topics hholds => ⟨hholds, rfl, fun _ => rfl⟩
    | cons place rest ih =>
        intro topics hholds
        obtain ⟨hrest, hoptions, hcount⟩ := ih _ (hholds.flushPartition place.1 place.2 none)
        obtain ⟨hframe, hsame, -⟩ := @TopicManager.flushPartition_frame topics place.1 place.2 none
        exact ⟨hrest, hoptions.trans hframe, fun topic => (hcount topic).trans (hsame topic)⟩
  obtain ⟨hholds, hoptions, hcount⟩ := hflush _ h.holds
  exact h.step rfl hoptions hcount hholds h.rejected h.scheduled

/-! ### New topics -/

/-- A topic is created: an ordinary one, or an internal one with as many partitions as its original. -/
theorem createTopic (h : Invariant rules mark system held) {topic : Bytes} {count : UInt32} (faults : CreateFaults)
    (hinternal : isInternalTopic topic = true →
      system.broker.topics.count? (originalName topic) = some count.toNat) :
    Invariant rules mark
      { system with broker := { system.broker with topics := (system.broker.topics.createTopic topic count faults).2 } }
      held := by
  obtain ⟨hoptions, -, hkept, hcount, -⟩ := @TopicManager.createTopic_frame system.broker.topics topic count faults
  refine { h with
    storage := hoptions.trans h.storage
    holds := h.holds.createTopic topic count faults
    original := ?_ }
  intro other n hother hfound
  apply hkept
  rcases hcount other with hsame | ⟨rfl, hnew⟩
  · rw [← h.original hother (hsame ▸ hfound)]
  · rw [hinternal hother, ← hfound, hnew]

end Invariant

end LogMq
