import LogMq.BrokerService
import LogMq.ProtocolErrorResponse
import LogMq.ProtocolFrameDecoder

/-! Connections and the worker pool. All callbacks of a connection run on one IO loop, so each of them is one step.
A connection hands one request at a time to the workers, which are shared by all connections; a worker sends the
bytes of its response back to the loop. -/

namespace LogMq

/-! ### Workers -/

/-- A request handed to the workers, and the connection it came from. -/
structure WorkerTask where
  connection : Nat
  request : RequestEnvelope

/-- `WorkerPool`: the queue, and the tasks its threads are running. -/
structure WorkerPool where
  threads : Nat
  maxQueueSize : Nat
  tasks : List WorkerTask := []
  running : List WorkerTask := []
  stopping : Bool := false

namespace WorkerPool

def create (threadCount maxQueueSize : Nat) : WorkerPool :=
  { threads := max 1 threadCount, maxQueueSize := max 1 maxQueueSize }

/-- `Submit`; a full or stopping pool rejects the task. -/
def submit (pool : WorkerPool) (task : WorkerTask) : Option WorkerPool :=
  if pool.stopping = true ∨ pool.maxQueueSize ≤ pool.tasks.length then none
  else some { pool with tasks := pool.tasks ++ [task] }

/-- An idle thread takes the first task of the queue. -/
def take (pool : WorkerPool) : Option WorkerPool :=
  match pool.tasks with
  | [] => none
  | task :: rest =>
      if pool.running.length < pool.threads then some { pool with tasks := rest, running := pool.running ++ [task] }
      else none

end WorkerPool

/-- The bytes a worker sends back: the encoded response, or an error response if it cannot be encoded. -/
def workerBytes (queue : TaskQueue) (broker : BrokerService) (environment : Environment)
    (request : RequestEnvelope) : Bytes :=
  match encodeResponse (broker.handle queue environment request).1 with
  | .ok bytes => bytes
  | .error status =>
      match encodeErrorResponse request.apiKey protocolVersion request.requestId .internal (text status.message) with
      | .ok bytes => bytes
      | .error _ => []

/-! ### Connections -/

/-- A connection whose descriptor is open or closed. The last three fields are its history, which the code does not
keep: the bytes it has read, the frames it has appended to its output, and the bytes it has written. -/
structure TcpConnection where
  isOpen : Bool := true
  decoder : FrameDecoder := FrameDecoder.fresh
  requests : List RequestEnvelope := []
  processing : Bool := false
  closing : Bool := false
  output : Bytes := []
  input : Bytes := []
  appended : List Bytes := []
  written : Bytes := []

/-- What one call of `read` returns. -/
inductive ReadResult where
  | bytes (chunk : Bytes)
  | interrupted
  | again
  | eof
  | failed

namespace TcpConnection

def append (connection : TcpConnection) (frame : Bytes) : TcpConnection :=
  { connection with output := connection.output ++ frame, appended := connection.appended ++ [frame] }

/-- Only what could be encoded is appended. -/
def appendEncoded (connection : TcpConnection) : Result Bytes → TcpConnection
  | .ok frame => connection.append frame
  | .error _ => connection

def handleClose (connection : TcpConnection) : TcpConnection := { connection with isOpen := false }

def queueErrorAndClose (connection : TcpConnection) (code : ProtocolErrorCode) (message : Bytes) : TcpConnection :=
  let answered := connection.appendEncoded (encodeErrorResponse .produce protocolVersion 0 code message)
  { answered with closing := true, decoder := answered.decoder.clear, requests := [] }

/-- `SubmitNext` of the connection with number `id`. -/
def submitNext (id : Nat) (pool : WorkerPool) (connection : TcpConnection) : WorkerPool × TcpConnection :=
  if connection.processing = true ∨ connection.closing = true then (pool, connection)
  else
    match connection.requests with
    | [] => (pool, connection)
    | request :: rest =>
        match pool.submit ⟨id, request⟩ with
        | some pool => (pool, { connection with processing := true, requests := rest })
        | none =>
            let answered := { connection with requests := rest }.appendEncoded
              (encodeErrorResponse request.apiKey protocolVersion request.requestId .internal
                (text "worker queue is full"))
            (pool, { answered with closing := true })

def onResponse (id : Nat) (pool : WorkerPool) (connection : TcpConnection) (response : Bytes) :
    WorkerPool × TcpConnection :=
  let idle := { connection with processing := false }
  submitNext id pool (if response = [] then idle else idle.append response)

/-- The loop of `HandleRead`. It says whether `SubmitNext` is reached. -/
def readLoop (connection : TcpConnection) : List ReadResult → TcpConnection × Bool
  | [] | .again :: _ => (connection, true)
  | .interrupted :: rest => connection.readLoop rest
  | .failed :: _ | .eof :: _ => (connection.handleClose, false)
  | .bytes chunk :: rest =>
      let read := { connection with input := connection.input ++ chunk }
      match connection.decoder.push chunk with
      | (.error status, decoder) =>
          ({ read with decoder := decoder }.queueErrorAndClose .invalidRequest (text status.message), false)
      | (.ok requests, decoder) =>
          { read with decoder := decoder, requests := connection.requests ++ requests }.readLoop rest

/-- `HandleRead`. On a closed descriptor `read` fails, and nothing changes. -/
def handleRead (id : Nat) (pool : WorkerPool) (connection : TcpConnection) (results : List ReadResult) :
    WorkerPool × TcpConnection :=
  if connection.isOpen = false then (pool, connection)
  else
    match connection.readLoop results with
    | (connection, true) => submitNext id pool connection
    | (connection, false) => (pool, connection)

/-- `HandleWrite`, when the calls of `write` take `count` bytes in total and the last one may fail. -/
def handleWrite (connection : TcpConnection) (count : Nat) (failed : Bool) : TcpConnection :=
  if connection.isOpen = false then connection
  else
    let flushed := { connection with
      output := connection.output.drop count, written := connection.written ++ connection.output.take count }
    if failed = true then flushed.handleClose
    else if flushed.output = [] ∧ flushed.closing = true then flushed.handleClose
    else flushed

/-- What `Shutdown` queues in the loop. -/
def runShutdown (connection : TcpConnection) : TcpConnection :=
  let closing := { connection with closing := true }
  if closing.output = [] then closing.handleClose else closing

end TcpConnection

end LogMq
