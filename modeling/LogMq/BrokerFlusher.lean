import LogMq.BrokerDurability
import LogMq.LibPeriodic

/-! The thread that flushes the logs. A round of flushes goes through the partitions of all topics one by one, while
requests go on, and ends with the first flush that fails. What a round has found, no later crash can take back. -/

namespace LogMq

open TopicManager

/-- The partitions of all topics. -/
def TopicManager.places (manager : TopicManager) : List (Bytes × Nat) :=
  manager.topics.entries.flatMap fun entry => (List.range entry.2.partitions.length).map fun id => (entry.1, id)

theorem TopicManager.mem_places {manager : TopicManager} {topic : Bytes} {id : Nat} {store : Store}
    (h : manager.store? topic id = some store) : (topic, id) ∈ manager.places := by
  obtain ⟨found, hfound, hlog, -⟩ := store?_eq_some.mp h
  obtain ⟨hlt, -⟩ := List.getElem?_eq_some_iff.mp hlog
  exact List.mem_flatMap.mpr ⟨(topic, found), SortedMap.mem_entries.mpr hfound,
    List.mem_map.mpr ⟨id, List.mem_range.mpr hlt, rfl⟩⟩

/-! ### Partitions that are still there -/

/-- A partition begins with these batches. -/
structure Present (system : System) (topic : Bytes) (id : Nat) (kept : List RecordBatch) (stop : Int) : Prop where
  held : ∃ held, system.broker.topics.Holds (system.intact = true) held ∧ kept <+: held topic id
  chain : Chain 0 kept stop
  found : ∃ store, system.broker.topics.store? topic id = some store

namespace Present

variable {system later : System} {topic : Bytes} {id : Nat} {kept : List RecordBatch} {stop : Int}

/-- Its log goes as far as they do. -/
theorem le (h : Present system topic id kept stop) {store : Store}
    (hstore : system.broker.topics.store? topic id = some store) : stop ≤ store.log.nextOffset := by
  obtain ⟨held, hholds, more, hmore⟩ := h.held
  have hchain := (hholds.carries hstore).chain
  rw [← hmore] at hchain
  obtain ⟨middle, hbefore, hafter⟩ := chain_append.mp hchain
  rw [h.chain.stop_unique hbefore]
  exact hafter.le

theorem grows (h : Present system topic id kept stop)
    (hgrows : ∀ {held}, system.broker.topics.Holds (system.intact = true) held →
      ∃ grown, Grows system.broker.topics later.broker.topics (later.intact = true) held grown) :
    Present later topic id kept stop := by
  obtain ⟨held, hholds, hbegins⟩ := h.held
  obtain ⟨grown, hgrown⟩ := hgrows hholds
  obtain ⟨store, hstore⟩ := h.found
  obtain ⟨count, hcount, hid⟩ := lt_count hstore
  exact ⟨⟨grown, hgrown.holds, hbegins.trans (hgrown.grown topic id)⟩, h.chain,
    exists_store? (hgrown.kept hcount) hid⟩

/-- A flush makes it durable. -/
theorem flushed (h : Present system topic id kept stop)
    (hflush : (system.broker.topics.flushPartition topic id none).1 = .ok ()) :
    Durable { system with broker := system.broker.flush [(topic, id)] } topic id kept stop := by
  obtain ⟨held, hholds, hbegins⟩ := h.held
  obtain ⟨store, hstore⟩ := h.found
  exact ⟨⟨held, (Grows.flush hholds [(topic, id)]).holds, hbegins⟩, h.chain, .flushed hstore hflush (h.le hstore)⟩

end Present

/-! ### Rounds -/

/-- Since an earlier state no partition has lost anything, and those that are not to do are durable. -/
def Shelters (first system : System) (todo : List (Bytes × Nat)) : Prop :=
  ∃ held, first.broker.topics.Holds (first.intact = true) held ∧ ∀ topic id store,
    first.broker.topics.store? topic id = some store → Present system topic id (held topic id) store.log.nextOffset ∧
      ((topic, id) ∉ todo → Durable system topic id (held topic id) store.log.nextOffset)

namespace Shelters

variable {first system later : System} {todo : List (Bytes × Nat)} {held : Holdings}

theorem begin (h : first.broker.topics.Holds (first.intact = true) held)
    (hall : ∀ place ∈ first.broker.topics.places, place ∈ todo) : Shelters first first todo :=
  ⟨held, h, fun _ _ store hstore => ⟨⟨⟨held, h, List.prefix_refl _⟩, (h.carries hstore).chain, store, hstore⟩,
    fun hdone => absurd (hall _ (mem_places hstore)) hdone⟩⟩

/-- Requests leave a round where it is. -/
theorem move (h : Shelters first system todo) (hmoves : TopicMoves system.broker.topics later.broker.topics)
    (hgrows : ∀ {held}, system.broker.topics.Holds (system.intact = true) held →
      ∃ grown, Grows system.broker.topics later.broker.topics (later.intact = true) held grown) :
    Shelters first later todo := by
  obtain ⟨held, hholds, hstores⟩ := h
  refine ⟨held, hholds, fun topic id store hstore => ?_⟩
  obtain ⟨hpresent, hdurable⟩ := hstores topic id store hstore
  exact ⟨hpresent.grows hgrows, fun hdone => (hdurable hdone).move hmoves hgrows⟩

/-- A flush takes it one step further. -/
theorem flush {place : Bytes × Nat} (h : Shelters first system (place :: todo))
    (hflush : (system.broker.topics.flushPartition place.1 place.2 none).1 = .ok ()) :
    Shelters first { system with broker := system.broker.flush [place] } todo := by
  obtain ⟨held, hholds, hstores⟩ := h
  refine ⟨held, hholds, fun topic id store hstore => ?_⟩
  obtain ⟨hpresent, hdurable⟩ := hstores topic id store hstore
  refine ⟨hpresent.grows fun hholds => ⟨_, .flush hholds [place]⟩, fun hdone => ?_⟩
  by_cases hplace : (topic, id) = place
  · subst hplace
    exact hpresent.flushed hflush
  · have hbefore : (topic, id) ∉ place :: todo := fun hmem => (List.mem_cons.mp hmem).elim hplace hdone
    exact (hdurable hbefore).move (.flush _ [place]) fun hholds => ⟨_, .flush hholds [place]⟩

end Shelters

/-! ### The thread -/

/-- A round of `Flush`: what is left of it, and whether a flush has failed. The first two fields are the history: the
state and the clock when it has begun. -/
structure FlushRound where
  first : System
  began : Nat
  todo : List (Bytes × Nat)
  failed : Bool := false

/-- `BrokerService` with the thread of its flusher. The last field is the history: how the last round that has ended has
begun, unless it has failed. -/
structure AsyncFlusher where
  system : System
  thread : Periodic.Thread := {}
  round : Option FlushRound := none
  covered : Option (System × Nat) := none

/-- What requests, the other threads and the flusher do. `finish` is the end of a round. -/
inductive FlusherEvent where
  | request (environment : Environment) (envelope : RequestEnvelope)
  | wake (now : UInt64)
  | expire (now : Int)
  | thread (event : Periodic.Event)
  | begin (places : List (Bytes × Nat))
  | flush (failure : Option Status)
  | finish

namespace FlusherEvent

def certain : FlusherEvent → Bool
  | .thread event => event.certain
  | .begin _ => true
  | .flush _ => true
  | .finish => true
  | _ => false

end FlusherEvent

namespace AsyncFlusher

variable (queue : TaskQueue) (interval : Nat)

/-- One step, if it is possible. The topics are flushed in the order of their table, which is any order. -/
def step (flusher : AsyncFlusher) : FlusherEvent → Option AsyncFlusher
  | .request environment envelope =>
      if envelope.body.Typed then
        some { flusher with system := ⟨(flusher.system.broker.handle queue environment envelope).2,
          flusher.system.intact && environment.faultless⟩ }
      else none
  | .wake now => some { flusher with system := { flusher.system with broker := flusher.system.broker.wake queue now } }
  | .expire now => some { flusher with system := { flusher.system with broker := flusher.system.broker.expire now } }
  | .thread event =>
      if event = .finish then none
      else (Periodic.step interval false flusher.thread event).map fun thread => { flusher with thread := thread }
  | .begin places =>
      if flusher.thread.place = .working ∧ flusher.round.isNone ∧ places.Perm flusher.system.broker.topics.places then
        some { flusher with round := some ⟨flusher.system, flusher.thread.steady, places, false⟩ }
      else none
  | .flush failure =>
      match flusher.round with
      | some ⟨first, began, place :: rest, failed⟩ =>
          match flusher.system.broker.topics.flushPartition place.1 place.2 failure with
          | (.ok (), topics) => some { flusher with
              system := { flusher.system with broker := { flusher.system.broker with topics := topics } }
              round := some ⟨first, began, rest, failed⟩ }
          | (.error _, _) => some { flusher with round := some ⟨first, began, [], true⟩ }
      | _ => none
  | .finish =>
      match flusher.round with
      | some ⟨first, began, [], failed⟩ =>
          (Periodic.step interval false flusher.thread .finish).map fun thread => { flusher with
            thread := thread
            round := none
            covered := if failed = true then none else some (first, began) }
      | _ => none

/-- What the flusher reaches that is started with a broker. -/
def Reached (first : System) (flusher : AsyncFlusher) : Prop :=
  Steps.Reaches (step queue interval) ⟨first, {}, none, none⟩ flusher

/-! ### What every step keeps -/

/-- What a round has found since it began is still there, and what it has flushed is durable. -/
structure Orderly (flusher : AsyncFlusher) : Prop where
  thread : Periodic.Orderly interval false flusher.thread
  holds : ∃ held, flusher.system.broker.topics.Holds (flusher.system.intact = true) held
  working : ∀ round, flusher.round = some round →
    flusher.thread.place = .working ∧ round.began ≤ flusher.thread.steady
  shelters : ∀ round, flusher.round = some round → BrokerFollows queue {} round.first flusher.system ∧
    (round.failed = false → Shelters round.first flusher.system round.todo)
  covered : ∀ first began, flusher.covered = some (first, began) → BrokerFollows queue {} first flusher.system ∧
    Shelters first flusher.system [] ∧ began ≤ flusher.thread.steady ∧
    ∀ deadline, flusher.thread.place.deadline? = some deadline → began ≤ flusher.thread.since

variable {queue} {interval} {flusher next : AsyncFlusher}

/-- The flusher takes no part in a step of the broker. -/
theorem Orderly.moved (h : flusher.Orderly queue interval) {system : System}
    (hstep : BrokerStep queue {} flusher.system system)
    (hmoves : TopicMoves flusher.system.broker.topics system.broker.topics)
    (hgrows : ∀ {held}, flusher.system.broker.topics.Holds (flusher.system.intact = true) held →
      ∃ grown, Grows flusher.system.broker.topics system.broker.topics (system.intact = true) held grown) :
    Orderly queue interval { flusher with system := system } where
  thread := h.thread
  holds := by
    obtain ⟨held, hholds⟩ := h.holds
    obtain ⟨grown, hgrown⟩ := hgrows hholds
    exact ⟨grown, hgrown.holds⟩
  working := h.working
  shelters round hround := by
    obtain ⟨hfollows, hshelters⟩ := h.shelters round hround
    exact ⟨hfollows.tail hstep, fun hsound => (hshelters hsound).move hmoves hgrows⟩
  covered first began hcovered := by
    obtain ⟨hfollows, hshelters, htimes⟩ := h.covered first began hcovered
    exact ⟨hfollows.tail hstep, hshelters.move hmoves hgrows, htimes⟩

/-- A step of the thread changes nothing else. -/
theorem Orderly.turned (h : flusher.Orderly queue interval) {event : Periodic.Event} {thread : Periodic.Thread}
    (hstep : Periodic.step interval false flusher.thread event = some thread) (hother : event ≠ .finish) :
    Orderly queue interval { flusher with thread := thread } where
  thread := h.thread.step hstep
  holds := h.holds
  working round hround := by
    obtain ⟨hplace, hbegan⟩ := h.working round hround
    exact ⟨Periodic.working_stays hstep hplace hother, hbegan.trans (Periodic.steady_le hstep)⟩
  shelters := h.shelters
  covered first began hcovered := by
    obtain ⟨hfollows, hshelters, hbegan, hslept⟩ := h.covered first began hcovered
    refine ⟨hfollows, hshelters, hbegan.trans (Periodic.steady_le hstep), fun deadline hdeadline => ?_⟩
    rcases Periodic.since_cases hstep hdeadline with ⟨hbefore, hsince⟩ | hsince
    · exact hsince ▸ hslept deadline hbefore
    · exact hsince ▸ hbegan

/-- A flush that succeeds is one that no failure has met. -/
theorem flushPartition_ok {manager topics : TopicManager} {topic : Bytes} {id : Nat} {failure : Option Status}
    (h : manager.flushPartition topic id failure = (.ok (), topics)) :
    manager.flushPartition topic id none = (.ok (), topics) := by
  cases failure with
  | none => exact h
  | some status =>
      unfold flushPartition at h ⊢
      cases hstore : manager.store? topic id with
      | none =>
          rw [hstore] at h
          exact h
      | some store =>
          rw [hstore] at h
          dsimp only at h
          have hfails : ∃ error, (store.flush (some status)).1 = .error error := by
            unfold Store.flush
            split_ifs <;> exact ⟨_, rfl⟩
          obtain ⟨error, herror⟩ := hfails
          split at h
          · cases h
          · rename_i hflush
            rw [hflush] at herror
            cases herror

/-- **What every step keeps.** -/
theorem Orderly.step (h : flusher.Orderly queue interval) {event : FlusherEvent}
    (hstep : flusher.step queue interval event = some next) : next.Orderly queue interval := by
  cases event with
  | request environment envelope =>
      simp only [AsyncFlusher.step] at hstep
      split at hstep
      · rename_i htyped
        cases hstep
        exact h.moved (.request _ htyped trivial) (TopicMoves.handle _) fun hholds => handle_grows hholds _ _
      · cases hstep
  | wake now =>
      cases hstep
      exact h.moved (.wake _ now) .refl fun hholds => ⟨_, .refl hholds⟩
  | expire now =>
      cases hstep
      exact h.moved (.expire _ now) .refl fun hholds => ⟨_, .refl hholds⟩
  | thread event =>
      simp only [AsyncFlusher.step] at hstep
      split at hstep
      · cases hstep
      · obtain ⟨thread, hthread, rfl⟩ := Option.map_eq_some_iff.mp hstep
        exact h.turned hthread ‹_›
  | begin places =>
      simp only [AsyncFlusher.step] at hstep
      split at hstep
      · rename_i hbegin
        cases hstep
        refine ⟨h.thread, h.holds, fun round hround => ?_, fun round hround => ?_, h.covered⟩
        · cases hround
          exact ⟨hbegin.1, le_refl _⟩
        · cases hround
          obtain ⟨held, hholds⟩ := h.holds
          exact ⟨.refl, fun _ => .begin hholds fun place hplace => hbegin.2.2.mem_iff.mpr hplace⟩
      · cases hstep
  | flush failure =>
      simp only [AsyncFlusher.step] at hstep
      split at hstep
      · rename_i first began place rest failed hround
        obtain ⟨hplace, hbegan⟩ := h.working _ hround
        obtain ⟨hfollows, hshelters⟩ := h.shelters _ hround
        split at hstep
        · rename_i topics hflush
          cases hstep
          have hnone := flushPartition_ok hflush
          have hsame : topics = flusher.system.broker.topics.flush [place] := (congrArg Prod.snd hnone).symm
          subst hsame
          have hmoved : Orderly queue interval
              { flusher with system := { flusher.system with broker := flusher.system.broker.flush [place] } } :=
            h.moved (.flush _ [place]) (.flush _ [place]) fun hholds => ⟨_, .flush hholds [place]⟩
          refine ⟨hmoved.thread, hmoved.holds, fun round hnext => ?_, fun round hnext => ?_, hmoved.covered⟩
          · cases hnext
            exact ⟨hplace, hbegan⟩
          · cases hnext
            exact ⟨hfollows.tail (.flush _ [place]), fun hsound => (hshelters hsound).flush (congrArg Prod.fst hnone)⟩
        · cases hstep
          refine ⟨h.thread, h.holds, fun round hnext => ?_, fun round hnext => ?_, h.covered⟩
          · cases hnext
            exact ⟨hplace, hbegan⟩
          · cases hnext
            exact ⟨hfollows, fun habsurd => absurd habsurd Bool.noConfusion⟩
      · cases hstep
  | finish =>
      simp only [AsyncFlusher.step] at hstep
      split at hstep
      · rename_i first began failed hround
        obtain ⟨thread, hthread, rfl⟩ := Option.map_eq_some_iff.mp hstep
        obtain ⟨hplace, hbegan⟩ := h.working _ hround
        obtain ⟨hfollows, hshelters⟩ := h.shelters _ hround
        refine ⟨h.thread.step hthread, h.holds, fun _ habsurd => (by cases habsurd), fun _ habsurd => (by cases habsurd),
          fun first' began' hcovered => ?_⟩
        cases failed with
        | true => cases hcovered
        | false =>
            cases hcovered
            refine ⟨hfollows, hshelters rfl, hbegan.trans (Periodic.steady_le hthread), fun deadline hdeadline => ?_⟩
            rcases Periodic.since_cases hthread hdeadline with ⟨hbefore, -⟩ | hsince
            · rw [hplace] at hbefore
              cases hbefore
            · exact hsince ▸ hbegan
      · cases hstep

/-! ### What a crash can take -/

/-- If nothing is left to do for the flusher, nothing is left to do for its thread. -/
theorem ends_thread (hends : Steps.Ends (AsyncFlusher.step queue interval) (fun event => event.certain = true) flusher) :
    Steps.Ends (Periodic.step interval false) (fun event => event.certain = true) flusher.thread := by
  intro event hcertain
  have hthread := hends (.thread event) hcertain
  simp only [AsyncFlusher.step] at hthread
  split at hthread
  · -- the thread works, so the round can go on
    rename_i hfinish
    subst hfinish
    by_contra hworks
    have hplace : flusher.thread.place = .working := Periodic.place_of_finish hworks
    cases hround : flusher.round with
    | none =>
        have hbegin := hends (.begin flusher.system.broker.topics.places) rfl
        simp [AsyncFlusher.step, hplace, hround] at hbegin
    | some round =>
        obtain ⟨first, began, todo, failed⟩ := round
        cases todo with
        | nil =>
            have hlast := hends .finish rfl
            simp only [AsyncFlusher.step, hround] at hlast
            exact hworks (Option.map_eq_none_iff.mp hlast)
        | cons place rest =>
            have hflush := hends (.flush none) rfl
            simp only [AsyncFlusher.step, hround] at hflush
            split at hflush <;> cases hflush
  · exact Option.map_eq_none_iff.mp hthread

/-- **Losses are bounded.** While the flusher is open and has nothing to do, it sleeps for no longer than its interval, and
what could be read from any partition when its last round began can be read ever after, whatever requests, restarts and
crashes follow, unless a flush has failed in that round. -/
theorem loss_bounded {first covered later : System} {began : Nat} (hfirst : CrashReaches queue (fun _ _ => True) first)
    (h : Reached queue interval first flusher) (hopen : flusher.thread.stop = false)
    (hends : Steps.Ends (step queue interval) (fun event => event.certain = true) flusher)
    (hcovered : flusher.covered = some (covered, began))
    (hlater : Relation.ReflTransGen (CrashStep queue fun _ _ => True) flusher.system later) :
    BrokerFollows queue {} covered flusher.system ∧ began ≤ flusher.thread.since ∧
      flusher.thread.steady < flusher.thread.since + interval ∧
      ∀ topic id store, covered.broker.topics.store? topic id = some store → ∀ offset maxBytes batch,
        store.read offset maxBytes = .ok batch → 4 * 1024 ≤ maxBytes → ∃ last,
          later.broker.topics.store? topic id = some last ∧ store.log.nextOffset ≤ last.log.nextOffset ∧
            last.read offset maxBytes = .ok batch := by
  have horderly : flusher.Orderly queue interval := by
    refine Steps.Reaches.keeps (fun hkept hstep => hkept.step hstep) h ?_
    exact ⟨.start, hfirst.holds, fun _ habsurd => (by cases habsurd), fun _ habsurd => (by cases habsurd),
      fun _ _ habsurd => (by cases habsurd)⟩
  obtain ⟨hfollows, hshelters, -, hslept⟩ := horderly.covered covered began hcovered
  obtain ⟨-, ⟨-, hstop⟩ | ⟨hplace, -, hearly, -⟩⟩ := horderly.thread.ends_cases (ends_thread hends)
  · exact absurd (hopen.symm.trans hstop) Bool.false_ne_true
  refine ⟨hfollows, hslept _ (by rw [hplace]; rfl), hearly, ?_⟩
  intro topic id store hstore offset maxBytes batch hread hinterval
  obtain ⟨held, hholds, hstores⟩ := hshelters
  obtain ⟨hmem, hle, hlt, hsize⟩ := (hholds.carries hstore).read_sound hread
  have hlast := ((hstores topic id store hstore).2 List.not_mem_nil).follows hlater
  obtain ⟨last, hfound, hreads⟩ := hlast.read hmem hle hlt hsize hinterval
  obtain ⟨same, hsame, hend, -⟩ := hlast.covers
  cases hfound.symm.trans hsame
  exact ⟨last, hfound, hend, hreads.2⟩

/-- One round of a flusher with an interval of a second. -/
def oneRound : List FlusherEvent :=
  [.thread .enter, .thread .block, .thread (.pass 1000), .thread .timeout, .thread .check, .thread .decide,
    .begin [(text "a", 0)], .flush none, .finish, .thread .enter, .thread .block]

/-- A record is produced, the flusher has its turn, and a crash leaves what was flushed. -/
theorem loss_bounded_oneRound :
    ∃ flusher broker, Steps.run (step .inOrder 1000) ⟨producedAsync, {}, none, none⟩ oneRound = some flusher ∧
      BrokerService.start .inOrder {} (flusher.system.broker.crash flusher.system.broker.flushedBytes) 1 = .ok broker ∧
      ∃ last batch, broker.topics.store? (text "a") 0 = some last ∧ last.read 0 4096 = .ok batch ∧
        batch.records.map Record.value = [text "v"] := by
  obtain ⟨flusher, hrun⟩ := Option.isSome_iff_exists.mp (by decide +kernel :
    (Steps.run (step .inOrder 1000) ⟨producedAsync, {}, none, none⟩ oneRound).isSome = true)
  have hstate : (Steps.run (step .inOrder 1000) ⟨producedAsync, {}, none, none⟩ oneRound).map (fun flusher =>
      (flusher.thread, flusher.round.isNone, flusher.system.intact)) =
      some ({ place := .blocked 2000, steady := 1000, works := 1, since := 1000 }, true, true) := by decide +kernel
  have hread : ((Steps.run (step .inOrder 1000) ⟨producedAsync, {}, none, none⟩ oneRound).bind fun flusher =>
      flusher.covered.bind fun covered => (covered.1.broker.topics.store? (text "a") 0).bind fun store =>
        (store.read 0 4096).toOption).map (fun batch => batch.records.map Record.value) = some [text "v"] := by
    decide +kernel
  have hstarted : ((Steps.run (step .inOrder 1000) ⟨producedAsync, {}, none, none⟩ oneRound).bind fun flusher =>
      (BrokerService.start .inOrder {} (flusher.system.broker.crash flusher.system.broker.flushedBytes) 1).toOption).isSome =
      true := by decide +kernel
  rw [hrun, Option.map_some, Option.some.injEq] at hstate
  obtain ⟨hthread, hround, hintact⟩ : flusher.thread =
      { place := .blocked 2000, steady := 1000, works := 1, since := 1000 } ∧ flusher.round = none ∧
      flusher.system.intact = true := by simpa using hstate
  rw [hrun, Option.bind_some] at hread hstarted
  obtain ⟨broker, hbroker⟩ := Option.isSome_iff_exists.mp hstarted
  have hstart := Result.toOption_eq_some.mp hbroker
  obtain ⟨batch, hbatch, hrecords⟩ := Option.map_eq_some_iff.mp hread
  obtain ⟨⟨covered, began⟩, hcovered, hbatch⟩ := Option.bind_eq_some_iff.mp hbatch
  obtain ⟨store, hstore, hbatch⟩ := Option.bind_eq_some_iff.mp hbatch
  have hends : Steps.Ends (step .inOrder 1000) (fun event => event.certain = true) flusher := by
    intro event hcertain
    cases event with
    | thread event => cases event <;> simp_all [step, FlusherEvent.certain, Periodic.Event.certain, Periodic.step]
    | begin places => simp [step, hthread]
    | flush failure => simp [step, hround]
    | finish => simp [step, hround]
    | _ => cases hcertain
  obtain ⟨-, -, -, hsurvives⟩ := @loss_bounded .inOrder 1000 flusher producedAsync covered ⟨broker, true⟩ began
    crashReaches_producedAsync ⟨oneRound, hrun⟩ (by rw [hthread]) hends hcovered
    (.single (.crash hintact (BrokerService.canLose_flushedBytes _) trivial hstart))
  obtain ⟨last, hlast, -, hreads⟩ := hsurvives (text "a") 0 store hstore 0 4096 batch (Result.toOption_eq_some.mp hbatch)
    (by decide)
  exact ⟨flusher, broker, hrun, hstart, last, batch, hlast, hreads, hrecords⟩

end AsyncFlusher

end LogMq
