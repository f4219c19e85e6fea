import LogMq.BrokerRuns
import LogMq.ClientConsumer
import LogMq.LibPool

/-! Consumers and their broker. Every consumer has a thread of the application, which calls one method after another,
and a heartbeat thread that runs while the consumer has one. A round trip may fail after the broker has handled the
request or before, and then the request may never reach it, or arrive later. -/

namespace LogMq

open Interaction

/-! ### Calls -/

/-- A method with its arguments. The timeout of `Poll` is given by the number of turns it leaves time for. -/
inductive ConsumerCall where
  | subscribe (topic : Bytes)
  | poll (turns : Nat)
  | seek (topic : Bytes) (partitionId offset : Int)
  | nack (record : ConsumerRecord) (reason : Bytes)
  | commitSync
  | close

/-- A call returns records if it is a `Poll`. -/
def ConsumerCall.program : ConsumerCall → ConsumerProgram (List ConsumerRecord)
  | .subscribe topic => do
      Consumer.subscribe topic
      return []
  | .poll turns => Consumer.poll turns
  | .seek topic partitionId offset => do
      Consumer.seek topic partitionId offset
      return []
  | .nack record reason => do
      let _ ← Consumer.nack record reason
      return []
  | .commitSync => do
      Consumer.commitSync
      return []
  | .close => do
      Consumer.close
      return []

def ConsumerCall.IsSeek : ConsumerCall → Prop
  | .seek _ _ _ => True
  | _ => False

instance : (call : ConsumerCall) → Decidable call.IsSeek
  | .seek _ _ _ => inferInstanceAs (Decidable True)
  | .subscribe _ | .poll _ | .nack _ _ | .commitSync | .close => inferInstanceAs (Decidable False)

/-! ### States -/

/-- A broker with its consumers, what the calls of each consumer have returned so far, and the requests that are still on
their way to the broker although their round trips have failed. -/
structure World where
  system : System
  consumers : Nat → Consumer
  results : Nat → List (Result (List ConsumerRecord)) := fun _ => []
  delayed : List (UInt16 × RequestBody) := []

namespace World

def setSystem (world : World) (system : System) : World := { world with system := system }

def setConsumer (world : World) (id : Nat) (consumer : Consumer) : World :=
  { world with consumers := Function.update world.consumers id consumer }

def returnResult (world : World) (id : Nat) (result : Result (List ConsumerRecord)) : World :=
  { world with results := Function.update world.results id (world.results id ++ [result]) }

def delay (world : World) (version : UInt16) (body : RequestBody) : World :=
  { world with delayed := world.delayed ++ [(version, body)] }

/-- One of the delayed requests is not on its way any more. -/
def arrive (world : World) (index : Nat) : World := { world with delayed := world.delayed.eraseIdx index }

variable {world : World} {system : System} {consumer : Consumer} {result : Result (List ConsumerRecord)} {id other : Nat}

@[simp] theorem setSystem_system : (world.setSystem system).system = system := rfl

@[simp] theorem setSystem_consumers : (world.setSystem system).consumers = world.consumers := rfl

@[simp] theorem setSystem_results : (world.setSystem system).results = world.results := rfl

@[simp] theorem setConsumer_system : (world.setConsumer id consumer).system = world.system := rfl

@[simp] theorem setConsumer_results : (world.setConsumer id consumer).results = world.results := rfl

@[simp] theorem setConsumer_self : (world.setConsumer id consumer).consumers id = consumer := Function.update_self _ _ _

@[simp] theorem setConsumer_of_ne (h : other ≠ id) :
    (world.setConsumer id consumer).consumers other = world.consumers other := Function.update_of_ne h _ _

@[simp] theorem returnResult_system : (world.returnResult id result).system = world.system := rfl

@[simp] theorem returnResult_consumers : (world.returnResult id result).consumers = world.consumers := rfl

@[simp] theorem returnResult_self : (world.returnResult id result).results id = world.results id ++ [result] :=
  Function.update_self _ _ _

@[simp] theorem returnResult_of_ne (h : other ≠ id) :
    (world.returnResult id result).results other = world.results other := Function.update_of_ne h _ _

end World

/-- The threads of the consumers. -/
inductive ConsumerThread where
  | application (id : Nat)
  | heartbeat (id : Nat)
  deriving DecidableEq

abbrev ConsumerThread.Output : ConsumerThread → Type
  | .application _ => List ConsumerRecord
  | .heartbeat _ => Unit

/-- The consumer of a thread. -/
def ConsumerThread.client : ConsumerThread → Nat
  | .application id => id
  | .heartbeat id => id

/-! ### Steps -/

/-- What becomes of a request while its sender waits: it is answered, or its response is replaced because it cannot be
encoded, or the round trip fails after the broker has handled it or before. -/
inductive RoundTrips (queue : TaskQueue) (rules : Rules) (version : UInt16) (body : RequestBody) :
    System → Result ResponseEnvelope → System → Prop
  | answered (system : System) (htyped : body.Typed) (requestId : UInt64) {environment : Environment}
      (hallowed : rules.environment environment) :
      RoundTrips queue rules version body system
        (.ok (system.broker.handle queue environment ⟨body.apiKey, version, requestId, body⟩).1)
        ⟨(system.broker.handle queue environment ⟨body.apiKey, version, requestId, body⟩).2,
          system.intact && environment.faultless⟩
  | replaced (system : System) (htyped : body.Typed) (requestId : UInt64) {environment : Environment}
      (hallowed : rules.environment environment) (message : String) :
      RoundTrips queue rules version body system
        (.ok (makeError ⟨body.apiKey, version, requestId, body⟩ .internal message))
        ⟨(system.broker.handle queue environment ⟨body.apiKey, version, requestId, body⟩).2,
          system.intact && environment.faultless⟩
  | lost (system : System) (htyped : body.Typed) (requestId : UInt64) {environment : Environment}
      (hallowed : rules.environment environment) (status : Status) :
      RoundTrips queue rules version body system (.error status)
        ⟨(system.broker.handle queue environment ⟨body.apiKey, version, requestId, body⟩).2,
          system.intact && environment.faultless⟩
  | unsent (system : System) (status : Status) : RoundTrips queue rules version body system (.error status) system

/-- One action of a thread of a consumer. A request whose round trip fails before the broker has handled it may be on its
way still. The heartbeat thread is joined once it does not run any more. -/
def consumerEffect (queue : TaskQueue) (rules : Rules) (thread : ConsumerThread) :
    (action : ConsumerAction) → World → action.Reply → World → Prop
  | .request version body, before, reply, after =>
      (∃ system, RoundTrips queue rules version body before.system reply system ∧ after = before.setSystem system) ∨
        (∃ status, reply = .error status) ∧ after = before.delay version body
  | .locked update, before, reply, after =>
      reply = before.consumers thread.client ∧
        after = before.setConsumer thread.client (update (before.consumers thread.client))
  | .joinHeartbeat, before, _, after =>
      (before.consumers thread.client).heartbeatRunning = false ∧
        after = before.setConsumer thread.client { before.consumers thread.client with heartbeatJoinable := false }

/-- A request moves nothing but the broker. -/
theorem consumerEffect_request {queue : TaskQueue} {rules : Rules} {thread : ConsumerThread} {version : UInt16}
    {body : RequestBody} {before after : World} {reply : Result ResponseEnvelope}
    (h : consumerEffect queue rules thread (.request version body) before reply after) :
    RoundTrips queue rules version body before.system reply after.system ∧ after.consumers = before.consumers ∧
      after.results = before.results := by
  rcases h with ⟨system, htrip, rfl⟩ | ⟨⟨status, rfl⟩, rfl⟩
  · exact ⟨htrip, rfl, rfl⟩
  · exact ⟨.unsent before.system status, rfl, rfl⟩

/-- What happens to the broker while no consumer acts: something else, or a delayed request arrives. -/
inductive World.Outside (queue : TaskQueue) (rules : Rules) (outside : System → System → Prop) (before : World) :
    World → Prop
  | other {system : System} (hstep : outside before.system system) :
      World.Outside queue rules outside before (before.setSystem system)
  | arrival {index : Nat} {version : UInt16} {body : RequestBody}
      (hdelayed : before.delayed[index]? = some (version, body)) (htyped : body.Typed) (requestId : UInt64)
      {environment : Environment} (hallowed : rules.environment environment) :
      World.Outside queue rules outside before ((before.arrive index).setSystem
        ⟨(before.system.broker.handle queue environment ⟨body.apiKey, version, requestId, body⟩).2,
          before.system.intact && environment.faultless⟩)

theorem World.Outside.step {queue : TaskQueue} {rules : Rules} {outside : System → System → Prop} {before after : World}
    (houtside : ∀ {before after}, outside before after → BrokerStep queue rules before after)
    (h : World.Outside queue rules outside before after) :
    BrokerStep queue rules before.system after.system ∧ after.consumers = before.consumers ∧
      after.results = before.results := by
  cases h with
  | other hstep => exact ⟨houtside hstep, rfl, rfl⟩
  | arrival hdelayed htyped requestId hallowed => exact ⟨.request before.system htyped hallowed, rfl, rfl⟩

/-- What becomes of the result of a program. -/
def ConsumerThread.finish : (thread : ConsumerThread) → Result thread.Output → World → World
  | .application id, result, world => world.returnResult id result
  | .heartbeat _, _, world => world

/-- What the threads of consumers can do: the applications make `calls`, and `outside` is what else happens to the
broker. -/
def consumerMachine (queue : TaskQueue) (rules : Rules) (outside : System → System → Prop)
    (calls : Nat → ConsumerCall → Prop) :
    Machine ConsumerThread World ConsumerAction ConsumerAction.Reply Status ConsumerThread.Output where
  effect := consumerEffect queue rules
  starts
    | .application id, program, _ => ∃ call, calls id call ∧ program = call.program
    | .heartbeat id, program, world =>
        (world.consumers id).heartbeatRunning = true ∧ program = Consumer.heartbeatRound
  finish := ConsumerThread.finish
  outside := World.Outside queue rules outside

/-- Consumers with what their threads have left to do. -/
abbrev ConsumerPool := Pool ConsumerThread World ConsumerAction ConsumerAction.Reply Status ConsumerThread.Output

/-- A broker on an empty data directory with new consumers. -/
inductive World.Initial (queue : TaskQueue) (rules : Rules) : World → Prop
  | start {options : BrokerServiceOptions} (hoptions : rules.options options) {now : UInt64} {broker : BrokerService}
      (hstart : BrokerService.start queue options {} now = .ok broker) (groupId : Nat → Bytes)
      (maxBytes : Nat → UInt32) :
      World.Initial queue rules
        { system := ⟨broker, true⟩, consumers := fun id => { groupId := groupId id, maxBytes := maxBytes id } }

/-- The states that they reach. -/
def ConsumerPool.Reached (queue : TaskQueue) (rules : Rules) (outside : System → System → Prop)
    (calls : Nat → ConsumerCall → Prop) (pool : ConsumerPool) : Prop :=
  ∃ world, World.Initial queue rules world ∧ (consumerMachine queue rules outside calls).Follows (.idle world) pool

end LogMq
