import LogMq.ClientWorld

/-! Steps of consumers and of their broker by the choices that determine them. What the relation allows can be run: every
choice gives a step, and every step comes from a choice. -/

namespace LogMq

open Interaction

/-! ### Steps of the broker -/

inductive BrokerMove where
  | request (environment : Environment) (envelope : RequestEnvelope)
  | wake (now : UInt64)
  | flush (flushed : List (Bytes × Nat))
  | expire (now : Int)
  | restart (options : BrokerServiceOptions) (now : UInt64)

namespace BrokerMove

def apply (queue : TaskQueue) (system : System) : BrokerMove → Option System
  | .request environment envelope =>
      if envelope.body.Typed then
        some ⟨(system.broker.handle queue environment envelope).2, system.intact && environment.faultless⟩
      else none
  | .wake now => some { system with broker := system.broker.wake queue now }
  | .flush flushed => some { system with broker := system.broker.flush flushed }
  | .expire now => some { system with broker := system.broker.expire now }
  | .restart options now =>
      if system.intact then
        match BrokerService.start queue options system.broker.close now with
        | .ok broker => some ⟨broker, true⟩
        | .error _ => none
      else none

/-- The rules hold for what the step meets. -/
def Allowed (rules : Rules) : BrokerMove → Prop
  | .request environment _ => rules.environment environment
  | .restart options _ => rules.options options
  | _ => True

variable {queue : TaskQueue} {rules : Rules} {system later : System} {move : BrokerMove}

theorem step (h : move.apply queue system = some later) (hallowed : move.Allowed rules) :
    BrokerStep queue rules system later := by
  cases move with
  | request environment envelope =>
      rw [apply] at h
      by_cases htyped : envelope.body.Typed
      · rw [if_pos htyped] at h
        cases h
        exact .request system htyped hallowed
      · rw [if_neg htyped] at h
        cases h
  | wake now =>
      cases h
      exact .wake system now
  | flush flushed =>
      cases h
      exact .flush system flushed
  | expire now =>
      cases h
      exact .expire system now
  | restart options now =>
      rw [apply] at h
      by_cases hintact : system.intact = true
      · rw [if_pos hintact] at h
        cases hstart : BrokerService.start queue options system.broker.close now with
        | error status =>
            rw [hstart] at h
            cases h
        | ok broker =>
            rw [hstart] at h
            cases h
            exact .restart hintact hallowed hstart
      · rw [if_neg hintact] at h
        cases h

theorem allowed_any (move : BrokerMove) : move.Allowed {} := by
  cases move <;> trivial

theorem exists_of_step (h : BrokerStep queue rules system later) :
    ∃ move : BrokerMove, move.Allowed rules ∧ move.apply queue system = some later := by
  cases h with
  | @request envelope htyped environment hallowed => exact ⟨.request environment envelope, hallowed, if_pos htyped⟩
  | wake now => exact ⟨.wake now, trivial, rfl⟩
  | flush flushed => exact ⟨.flush flushed, trivial, rfl⟩
  | expire now => exact ⟨.expire now, trivial, rfl⟩
  | @restart hintact options hoptions now broker hstart =>
      refine ⟨.restart options now, hoptions, ?_⟩
      rw [apply, if_pos hintact, hstart]

end BrokerMove

/-! ### Steps of consumers -/

/-- What becomes of a request. -/
inductive Fate where
  | answered (requestId : UInt64) (environment : Environment)
  | replaced (requestId : UInt64) (environment : Environment) (message : String)
  | lost (requestId : UInt64) (environment : Environment) (status : Status)
  | unsent (status : Status)

namespace Fate

/-- The broker after a request, and its response. -/
def serve (queue : TaskQueue) (system : System) (requestId : UInt64) (environment : Environment) (version : UInt16)
    (body : RequestBody) : ResponseEnvelope × System :=
  let (response, broker) := system.broker.handle queue environment ⟨body.apiKey, version, requestId, body⟩
  (response, ⟨broker, system.intact && environment.faultless⟩)

def apply (queue : TaskQueue) (version : UInt16) (body : RequestBody) (system : System) :
    Fate → Option (Result ResponseEnvelope × System)
  | .answered requestId environment =>
      if body.Typed then
        let (response, later) := serve queue system requestId environment version body
        some (.ok response, later)
      else none
  | .replaced requestId environment message =>
      if body.Typed then
        some (.ok (makeError ⟨body.apiKey, version, requestId, body⟩ .internal message),
          (serve queue system requestId environment version body).2)
      else none
  | .lost requestId environment status =>
      if body.Typed then some (.error status, (serve queue system requestId environment version body).2) else none
  | .unsent status => some (.error status, system)

def Allowed (rules : Rules) : Fate → Prop
  | .answered _ environment | .replaced _ environment _ | .lost _ environment _ => rules.environment environment
  | .unsent _ => True

variable {queue : TaskQueue} {rules : Rules} {version : UInt16} {body : RequestBody} {system later : System}
  {reply : Result ResponseEnvelope} {fate : Fate}

theorem roundTrips (h : fate.apply queue version body system = some (reply, later)) (hallowed : fate.Allowed rules) :
    RoundTrips queue rules version body system reply later := by
  cases fate with
  | answered requestId environment =>
      rw [apply] at h
      by_cases htyped : body.Typed
      · rw [if_pos htyped] at h
        cases h
        exact .answered system htyped requestId hallowed
      · rw [if_neg htyped] at h
        cases h
  | replaced requestId environment message =>
      rw [apply] at h
      by_cases htyped : body.Typed
      · rw [if_pos htyped] at h
        cases h
        exact .replaced system htyped requestId hallowed message
      · rw [if_neg htyped] at h
        cases h
  | lost requestId environment status =>
      rw [apply] at h
      by_cases htyped : body.Typed
      · rw [if_pos htyped] at h
        cases h
        exact .lost system htyped requestId hallowed status
      · rw [if_neg htyped] at h
        cases h
  | unsent status =>
      cases h
      exact .unsent system status

theorem exists_of_roundTrips (h : RoundTrips queue rules version body system reply later) :
    ∃ fate : Fate, fate.Allowed rules ∧ fate.apply queue version body system = some (reply, later) := by
  cases h with
  | @answered htyped requestId environment hallowed => exact ⟨.answered requestId environment, hallowed, if_pos htyped⟩
  | @replaced htyped requestId environment hallowed message =>
      exact ⟨.replaced requestId environment message, hallowed, if_pos htyped⟩
  | @lost htyped requestId environment hallowed status =>
      exact ⟨.lost requestId environment status, hallowed, if_pos htyped⟩
  | unsent status => exact ⟨.unsent status, trivial, rfl⟩

end Fate

/-- A choice: a step of the broker alone, a delayed request that arrives, a call that begins, a round of a heartbeat thread
that begins, the next action of a thread, its next request that is delayed, or the end of its program. -/
inductive ConsumerMove where
  | outside (move : BrokerMove)
  | arrive (index : Nat) (requestId : UInt64) (environment : Environment)
  | call (id : Nat) (made : ConsumerCall)
  | beat (id : Nat)
  | act (thread : ConsumerThread) (fate : Fate)
  | delay (thread : ConsumerThread) (status : Status)
  | finish (thread : ConsumerThread)

namespace ConsumerMove

/-- The effect of an action, with the fate of its request. -/
def perform (queue : TaskQueue) (thread : ConsumerThread) (fate : Fate) (world : World) :
    (action : ConsumerAction) → Option (action.Reply × World)
  | .request version body =>
      (fate.apply queue version body world.system).map fun after => (after.1, world.setSystem after.2)
  | .locked update =>
      some (world.consumers thread.client, world.setConsumer thread.client (update (world.consumers thread.client)))
  | .joinHeartbeat =>
      if (world.consumers thread.client).heartbeatRunning then none
      else some ((), world.setConsumer thread.client { world.consumers thread.client with heartbeatJoinable := false })

def begin (pool : ConsumerPool) (thread : ConsumerThread)
    (program : Program ConsumerAction ConsumerAction.Reply Status thread.Output) : Option ConsumerPool :=
  match pool.programs thread with
  | none => some { pool with programs := Function.update pool.programs thread (some program) }
  | some _ => none

def apply (queue : TaskQueue) (pool : ConsumerPool) : ConsumerMove → Option ConsumerPool
  | .outside move =>
      (move.apply queue pool.shared.system).map fun system => { pool with shared := pool.shared.setSystem system }
  | .arrive index requestId environment =>
      match pool.shared.delayed[index]? with
      | some (version, body) =>
          if body.Typed then
            let system := (Fate.serve queue pool.shared.system requestId environment version body).2
            some { pool with shared := (pool.shared.arrive index).setSystem system }
          else none
      | none => none
  | .call id made => begin pool (.application id) made.program
  | .beat id =>
      if (pool.shared.consumers id).heartbeatRunning then begin pool (.heartbeat id) Consumer.heartbeatRound else none
  | .act thread fate =>
      match pool.programs thread with
      | some (.act action next) =>
          (perform queue thread fate pool.shared action).map fun after =>
            ⟨after.2, Function.update pool.programs thread (some (next after.1))⟩
      | _ => none
  | .delay thread status =>
      match pool.programs thread with
      | some (.act (.request version body) next) =>
          some ⟨pool.shared.delay version body, Function.update pool.programs thread (some (next (.error status)))⟩
      | _ => none
  | .finish thread =>
      match pool.programs thread with
      | some (.done result) =>
          some ⟨thread.finish result pool.shared, Function.update pool.programs thread none⟩
      | _ => none

def Allowed (rules : Rules) (calls : Nat → ConsumerCall → Prop) : ConsumerMove → Prop
  | .arrive _ _ environment => rules.environment environment
  | .call id made => calls id made
  | .act _ fate => fate.Allowed rules
  | .outside _ | .beat _ | .delay _ _ | .finish _ => True

variable {queue : TaskQueue} {rules : Rules} {outside : System → System → Prop} {calls : Nat → ConsumerCall → Prop}
  {pool later : ConsumerPool} {move : ConsumerMove}

theorem begin_eq {thread : ConsumerThread} {program : Program ConsumerAction ConsumerAction.Reply Status thread.Output} :
    begin pool thread program = some later ↔ pool.programs thread = none ∧
      later = { pool with programs := Function.update pool.programs thread (some program) } := by
  unfold begin
  cases pool.programs thread with
  | none => simp [eq_comm]
  | some running => simp

theorem effect {thread : ConsumerThread} {fate : Fate} {world after : World} {action : ConsumerAction}
    {reply : action.Reply} (h : perform queue thread fate world action = some (reply, after))
    (hallowed : fate.Allowed rules) : consumerEffect queue rules thread action world reply after := by
  cases action with
  | request version body =>
      obtain ⟨⟨response, system⟩, hfate, heq⟩ := Option.map_eq_some_iff.mp h
      cases heq
      exact .inl ⟨system, fate.roundTrips hfate hallowed, rfl⟩
  | locked update =>
      cases h
      exact ⟨rfl, rfl⟩
  | joinHeartbeat =>
      rw [perform] at h
      by_cases hrunning : (world.consumers thread.client).heartbeatRunning = true
      · rw [if_pos hrunning] at h
        cases h
      · rw [if_neg hrunning] at h
        cases h
        exact ⟨Bool.eq_false_of_not_eq_true hrunning, rfl⟩

theorem exists_of_act {thread : ConsumerThread} {action : ConsumerAction}
    {next : action.Reply → Program ConsumerAction ConsumerAction.Reply Status thread.Output} {reply : action.Reply}
    {world : World} (hprogram : pool.programs thread = some (.act action next))
    (h : consumerEffect queue rules thread action pool.shared reply world) :
    ∃ move : ConsumerMove, move.Allowed rules calls ∧
      move.apply queue pool = some ⟨world, Function.update pool.programs thread (some (next reply))⟩ := by
  -- the fate is of a request only
  have hact : ∀ fate : Fate, fate.Allowed rules → perform queue thread fate pool.shared action = some (reply, world) →
      ∃ move : ConsumerMove, move.Allowed rules calls ∧
        move.apply queue pool = some ⟨world, Function.update pool.programs thread (some (next reply))⟩ := by
    intro fate hallowed hperform
    refine ⟨.act thread fate, hallowed, ?_⟩
    rw [apply, hprogram]
    dsimp only
    rw [hperform]
    rfl
  cases action with
  | request version body =>
      rcases h with ⟨system, htrip, rfl⟩ | ⟨⟨status, rfl⟩, rfl⟩
      · obtain ⟨fate, hallowed, hfate⟩ := Fate.exists_of_roundTrips htrip
        refine hact fate hallowed ?_
        rw [perform, hfate]
        rfl
      · refine ⟨.delay thread status, trivial, ?_⟩
        rw [apply, hprogram]
  | locked update =>
      obtain ⟨rfl, rfl⟩ := h
      exact hact (.unsent ⟨.ok, ""⟩) trivial rfl
  | joinHeartbeat =>
      obtain ⟨hrunning, rfl⟩ := h
      refine hact (.unsent ⟨.ok, ""⟩) trivial ?_
      rw [perform, if_neg (by rw [hrunning]; exact Bool.false_ne_true)]
      rfl

theorem arrive_eq {index : Nat} {requestId : UInt64} {environment : Environment}
    (h : (arrive index requestId environment).apply queue pool = some later) :
    ∃ version body, pool.shared.delayed[index]? = some (version, body) ∧ body.Typed ∧
      let served := Fate.serve queue pool.shared.system requestId environment version body
      later = { pool with shared := (pool.shared.arrive index).setSystem served.2 } := by
  rw [apply] at h
  split at h
  · rename_i version body hdelayed
    split at h
    · rename_i htyped
      exact ⟨version, body, hdelayed, htyped, (Option.some.inj h).symm⟩
    · cases h
  · cases h

theorem delay_eq {thread : ConsumerThread} {status : Status} :
    (delay thread status).apply queue pool = some later ↔ ∃ version body next,
      pool.programs thread = some (.act (.request version body) next) ∧
        later = ⟨pool.shared.delay version body, Function.update pool.programs thread (some (next (.error status)))⟩ := by
  rw [apply]
  constructor
  · intro h
    split at h
    · rename_i version body next hprogram
      exact ⟨version, body, next, hprogram, (Option.some.inj h).symm⟩
    · cases h
  · rintro ⟨version, body, next, hprogram, rfl⟩
    rw [hprogram]

/-- **Choices are steps.** -/
theorem step (h : move.apply queue pool = some later) (hallowed : move.Allowed rules calls)
    (houtside : ∀ chosen, move = .outside chosen → ∀ system, chosen.apply queue pool.shared.system = some system →
      outside pool.shared.system system) : (consumerMachine queue rules outside calls).Step pool later := by
  cases move with
  | outside chosen =>
      obtain ⟨system, hsystem, rfl⟩ := Option.map_eq_some_iff.mp h
      exact .outside (.other (houtside chosen rfl system hsystem))
  | arrive index requestId environment =>
      obtain ⟨version, body, hdelayed, htyped, rfl⟩ := arrive_eq h
      exact .outside (.arrival hdelayed htyped requestId hallowed)
  | call id made =>
      obtain ⟨hidle, rfl⟩ := begin_eq.mp h
      exact .start hidle ⟨made, hallowed, rfl⟩
  | beat id =>
      rw [apply] at h
      by_cases hrunning : (pool.shared.consumers id).heartbeatRunning = true
      · rw [if_pos hrunning] at h
        obtain ⟨hidle, rfl⟩ := begin_eq.mp h
        exact .start hidle ⟨hrunning, rfl⟩
      · rw [if_neg hrunning] at h
        cases h
  | act thread fate =>
      rw [apply] at h
      split at h
      · rename_i action next hprogram
        obtain ⟨⟨reply, after⟩, hperform, rfl⟩ := Option.map_eq_some_iff.mp h
        exact .act hprogram (effect hperform hallowed)
      · cases h
  | delay thread status =>
      obtain ⟨version, body, next, hprogram, rfl⟩ := delay_eq.mp h
      exact .act hprogram (.inr ⟨⟨status, rfl⟩, rfl⟩)
  | finish thread =>
      rw [apply] at h
      split at h
      · rename_i result hprogram
        cases h
        exact .finish hprogram
      · cases h

/-- **Steps are choices.** -/
theorem exists_of_step (houtside : ∀ {before after}, outside before after → BrokerStep queue rules before after)
    (h : (consumerMachine queue rules outside calls).Step pool later) :
    ∃ move : ConsumerMove, move.Allowed rules calls ∧ move.apply queue pool = some later := by
  cases h with
  | outside hstep =>
      cases hstep with
      | other hstep =>
          obtain ⟨move, -, hmove⟩ := BrokerMove.exists_of_step (houtside hstep)
          refine ⟨.outside move, trivial, ?_⟩
          rw [apply, hmove]
          rfl
      | @arrival index version body hdelayed htyped requestId environment hallowed =>
          refine ⟨.arrive index requestId environment, hallowed, ?_⟩
          rw [apply, hdelayed]
          exact if_pos htyped
  | @start thread program hidle hstarts =>
      cases thread with
      | application id =>
          obtain ⟨made, hmade, rfl⟩ := hstarts
          exact ⟨.call id made, hmade, begin_eq.mpr ⟨hidle, rfl⟩⟩
      | heartbeat id =>
          obtain ⟨hrunning, rfl⟩ := hstarts
          refine ⟨.beat id, trivial, ?_⟩
          rw [apply, if_pos hrunning]
          exact begin_eq.mpr ⟨hidle, rfl⟩
  | @act thread action next reply world hprogram heffect => exact exists_of_act hprogram heffect
  | @finish thread result hprogram =>
      refine ⟨.finish thread, trivial, ?_⟩
      rw [apply, hprogram]
      rfl

/-! ### Schedules -/

/-- The moves of a schedule one after another, as long as the states are of some kind. -/
def run (queue : TaskQueue) (kind : World → Prop) [DecidablePred kind] :
    List ConsumerMove → ConsumerPool → Option ConsumerPool
  | [], pool => some pool
  | move :: rest, pool =>
      match move.apply queue pool with
      | none => none
      | some later => if kind later.shared then run queue kind rest later else none

/-- **Schedules are runs.** -/
theorem run_follows {kind : World → Prop} [DecidablePred kind] {moves : List ConsumerMove} (h : run queue kind moves pool = some later)
    (hallowed : ∀ move ∈ moves, move.Allowed rules calls)
    (houtside : ∀ chosen, ConsumerMove.outside chosen ∈ moves → ∀ before after,
      chosen.apply queue before = some after → outside before after) :
    ((consumerMachine queue rules outside calls).within kind).Follows pool later := by
  induction moves generalizing pool with
  | nil =>
      cases h
      exact .refl
  | cons move rest ih =>
      rw [run] at h
      cases hmove : move.apply queue pool with
      | none =>
          rw [hmove] at h
          cases h
      | some next =>
          rw [hmove] at h
          dsimp only at h
          by_cases hkind : kind next.shared
          · rw [if_pos hkind] at h
            have hstep : (consumerMachine queue rules outside calls).Step pool next :=
              step hmove (hallowed move List.mem_cons_self) fun chosen hchosen system hsystem =>
                houtside chosen (hchosen ▸ List.mem_cons_self) _ system hsystem
            refine .head (hstep.within hkind) (ih h ?_ ?_)
            · exact fun other hother => hallowed other (List.mem_cons_of_mem _ hother)
            · exact fun chosen hchosen => houtside chosen (List.mem_cons_of_mem _ hchosen)
          · rw [if_neg hkind] at h
            cases h

/-- The moves of a schedule one after another, as long as each of them may be made. -/
def runWhile (queue : TaskQueue) (may : ConsumerPool → ConsumerMove → Bool) :
    List ConsumerMove → ConsumerPool → Option ConsumerPool
  | [], pool => some pool
  | move :: rest, pool => if may pool move then (move.apply queue pool).bind (runWhile queue may rest) else none

/-- Such schedules are runs of any machine that can make their moves. -/
theorem runWhile_follows {machine : Machine ConsumerThread World ConsumerAction ConsumerAction.Reply Status
    ConsumerThread.Output} {may : ConsumerPool → ConsumerMove → Bool}
    (hstep : ∀ {pool later : ConsumerPool} {move : ConsumerMove}, may pool move = true →
      move.apply queue pool = some later → machine.Step pool later)
    {moves : List ConsumerMove} (h : runWhile queue may moves pool = some later) : machine.Follows pool later := by
  induction moves generalizing pool with
  | nil =>
      cases h
      exact .refl
  | cons move rest ih =>
      rw [runWhile] at h
      split at h
      · rename_i hmay
        obtain ⟨next, hnext, hrest⟩ := Option.bind_eq_some_iff.mp h
        exact .head (hstep hmay hnext) (ih hrest)
      · cases h

/-- The call that a move begins. -/
def call? : ConsumerMove → Option (Nat × ConsumerCall)
  | .call id made => some (id, made)
  | _ => none

/-- The step of the broker that a move is. -/
def broker? : ConsumerMove → Option BrokerMove
  | .outside move => some move
  | _ => none

/-- Without rules, a schedule is a run if its calls and its steps of the broker are possible. -/
theorem run_any {kind : World → Prop} [DecidablePred kind] {moves : List ConsumerMove}
    (h : run queue kind moves pool = some later)
    (hcalls : ∀ made ∈ moves.filterMap call?, calls made.1 made.2)
    (houtside : ∀ chosen ∈ moves.filterMap broker?, ∀ before after,
      chosen.apply queue before = some after → outside before after) :
    ((consumerMachine queue {} outside calls).within kind).Follows pool later := by
  refine run_follows h (fun move hmove => ?_) fun chosen hchosen => houtside chosen ?_
  · cases move with
    | call id made => exact hcalls (id, made) (List.mem_filterMap.mpr ⟨_, hmove, rfl⟩)
    | act thread fate => cases fate <;> trivial
    | arrive index requestId environment => trivial
    | outside chosen => trivial
    | beat id => trivial
    | delay thread status => trivial
    | finish thread => trivial
  · exact List.mem_filterMap.mpr ⟨_, hchosen, rfl⟩

/-- Any schedule of new consumers reaches its end. -/
theorem run_reached {world : World} (hinitial : World.Initial queue {} world) {moves : List ConsumerMove}
    (h : run queue (fun _ => True) moves (.idle world) = some pool) :
    pool.Reached queue {} (BrokerStep queue {}) fun _ _ => True := by
  have hfollows : ((consumerMachine queue {} (BrokerStep queue {}) fun _ _ => True).within fun _ => True).Follows
      (.idle world) pool :=
    run_any h (fun _ _ => trivial) fun chosen _ before after happly => chosen.step happly chosen.allowed_any
  exact ⟨world, hinitial, Machine.Follows.of_within hfollows⟩

/-- The consumer whose call a move ends. -/
def finished? : ConsumerMove → Option Nat
  | .finish (.application id) => some id
  | _ => none

theorem apply_results {id : Nat} (h : move.apply queue pool = some later) (hother : move.finished? ≠ some id) :
    later.shared.results id = pool.shared.results id := by
  cases move with
  | outside chosen =>
      obtain ⟨system, -, rfl⟩ := Option.map_eq_some_iff.mp h
      rfl
  | arrive index requestId environment =>
      obtain ⟨version, body, -, -, rfl⟩ := arrive_eq h
      rfl
  | call own made =>
      obtain ⟨-, rfl⟩ := begin_eq.mp h
      rfl
  | beat own =>
      rw [apply] at h
      split at h
      · obtain ⟨-, rfl⟩ := begin_eq.mp h
        rfl
      · cases h
  | act thread fate =>
      rw [apply] at h
      split at h
      · rename_i action next hprogram
        obtain ⟨⟨reply, world⟩, hperform, rfl⟩ := Option.map_eq_some_iff.mp h
        cases action with
        | request version body =>
            obtain ⟨after, -, heq⟩ := Option.map_eq_some_iff.mp hperform
            cases heq
            rfl
        | locked update =>
            cases hperform
            rfl
        | joinHeartbeat =>
            rw [perform] at hperform
            split at hperform
            · cases hperform
            · cases hperform
              rfl
      · cases h
  | delay thread status =>
      obtain ⟨version, body, next, -, rfl⟩ := delay_eq.mp h
      rfl
  | finish thread =>
      rw [apply] at h
      split at h
      · rename_i result hprogram
        cases h
        cases thread with
        | heartbeat own => rfl
        | application own =>
            refine World.returnResult_of_ne ?_
            rintro rfl
            exact hother rfl
      · cases h

/-- Consumers none of whose calls ends have no new results. -/
theorem run_results {kind : World → Prop} [DecidablePred kind] {moves : List ConsumerMove} {id : Nat}
    (h : run queue kind moves pool = some later) (hother : id ∉ moves.filterMap finished?) :
    later.shared.results id = pool.shared.results id := by
  induction moves generalizing pool with
  | nil =>
      cases h
      rfl
  | cons move rest ih =>
      rw [run] at h
      cases hmove : move.apply queue pool with
      | none =>
          rw [hmove] at h
          cases h
      | some next =>
          rw [hmove] at h
          dsimp only at h
          split at h
          · have hrest : id ∉ rest.filterMap finished? := fun hmem => by
              obtain ⟨found, hfound, heq⟩ := List.mem_filterMap.mp hmem
              exact hother (List.mem_filterMap.mpr ⟨found, List.mem_cons_of_mem _ hfound, heq⟩)
            rw [ih h hrest]
            exact apply_results hmove fun heq => hother (List.mem_filterMap.mpr ⟨move, List.mem_cons_self, heq⟩)
          · cases h

end ConsumerMove

end LogMq
