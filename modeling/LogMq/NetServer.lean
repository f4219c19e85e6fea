import LogMq.NetConnection

/-! The server: its connections, the workers they share, and the functions queued in the IO loops. Every step is one
callback of a loop or one move of a worker. A worker may find the broker in any state, since other connections and
the scheduler use it at the same time. The functions queued in the loops may run in any order. -/

namespace LogMq

/-- A function queued in a loop for a connection. -/
inductive QueuedCall where
  | onResponse (bytes : Bytes)
  | shutdown

/-- The connections by number. A number is never used again, unlike a descriptor. -/
structure TcpServer where
  connections : Nat → Option TcpConnection
  workers : WorkerPool
  queued : List (Nat × QueuedCall)

inductive NetEvent where
  | accept (id : Nat)
  | read (id : Nat) (results : List ReadResult)
  | write (id : Nat) (count : Nat) (failed : Bool)
  | close (id : Nat)
  | take
  | finish (position : Nat) (broker : BrokerService) (environment : Environment)
  | call (position : Nat)
  | shutdown (id : Nat)
  | stop

namespace TcpServer

def create (threadCount maxQueueSize : Nat) : TcpServer :=
  ⟨fun _ => none, WorkerPool.create threadCount maxQueueSize, []⟩

def setConnection (server : TcpServer) (id : Nat) (connection : TcpConnection) : TcpServer :=
  { server with connections := Function.update server.connections id (some connection) }

/-- The state after a callback that may have used the workers. -/
def afterCallback (server : TcpServer) (id : Nat) (after : WorkerPool × TcpConnection) : TcpServer :=
  { server with workers := after.1 }.setConnection id after.2

/-- One step, if it is possible. -/
def step (queue : TaskQueue) (server : TcpServer) : NetEvent → Option TcpServer
  | .accept id =>
      match server.connections id with
      | none => some (server.setConnection id {})
      | some _ => none
  | .read id results => do
      let connection ← server.connections id
      return server.afterCallback id (connection.handleRead id server.workers results)
  | .write id count failed => do
      let connection ← server.connections id
      return server.setConnection id (connection.handleWrite count failed)
  | .close id => do
      let connection ← server.connections id
      return server.setConnection id connection.handleClose
  | .take => do
      let workers ← server.workers.take
      return { server with workers := workers }
  | .finish position broker environment => do
      let task ← server.workers.running[position]?
      return { server with
        workers := { server.workers with running := server.workers.running.eraseIdx position }
        queued := server.queued ++
          [(task.connection, .onResponse (workerBytes queue broker environment task.request))] }
  | .call position => do
      let (id, call) ← server.queued[position]?
      let connection ← server.connections id
      let rest := { server with queued := server.queued.eraseIdx position }
      match call with
      | .onResponse bytes => return rest.afterCallback id (connection.onResponse id server.workers bytes)
      | .shutdown => return rest.setConnection id connection.runShutdown
  | .shutdown id => do
      let _ ← server.connections id
      return { server with queued := server.queued ++ [(id, .shutdown)] }
  | .stop => some { server with workers := { server.workers with stopping := true } }

/-- The states a server can reach. -/
inductive Reachable (queue : TaskQueue) (threadCount maxQueueSize : Nat) : TcpServer → Prop
  | start : Reachable queue threadCount maxQueueSize (create threadCount maxQueueSize)
  | step {server server' : TcpServer} {event : NetEvent} (h : Reachable queue threadCount maxQueueSize server)
      (hstep : server.step queue event = some server') : Reachable queue threadCount maxQueueSize server'

/-! ### Requests in progress -/

/-- What a queued call answers: the connection and the id in the header of the response. -/
def answers : Nat × QueuedCall → Option (Nat × UInt64)
  | (id, .onResponse bytes) => some (id, frameRequestId bytes)
  | (_, .shutdown) => none

def asked (task : WorkerTask) : Nat × UInt64 := (task.connection, task.request.requestId)

/-- The requests handed to the workers whose responses have not come back: queued, running or on their way. -/
def pending (server : TcpServer) : List (Nat × UInt64) :=
  server.workers.tasks.map asked ++ (server.workers.running.map asked ++ server.queued.filterMap answers)

/-- The ids of the pending requests of a connection. -/
def inProgress (server : TcpServer) (id : Nat) : List UInt64 :=
  (server.pending.filter fun request => request.1 = id).map Prod.snd

end TcpServer

end LogMq
