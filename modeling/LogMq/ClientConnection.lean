import LogMq.ProtocolCanonical
import LogMq.ProtocolErrorResponse

/-! The connection of a client. It sends one request at a time and waits for the answer; every failure on the way
closes the socket. What system calls return is an argument, and so is what the server does before they return. A server
answers the requests of a connection one by one; an answer is one frame with the api key and the id of its request. -/

namespace LogMq

open BigEndian

/-! ### The two ends of a socket -/

/-- The frame at the front of a stream, once all of it is there. -/
def nextFrame (stream : Bytes) : Option Bytes :=
  let length := beValue (stream.take 4)
  if frameHeaderBytes ≤ length ∧ length ≤ stream.length then some (stream.take length) else none

/-- One whole frame, as its length prefix says. -/
structure IsFrame (frame : Bytes) : Prop where
  header : frameHeaderBytes ≤ frame.length
  prefixed : beValue (frame.take 4) = frame.length

/-- One frame that answers a request. -/
structure IsAnswer (request answer : Bytes) : Prop extends IsFrame answer where
  apiKey : frameApiKey answer = frameApiKey request
  requestId : frameRequestId answer = frameRequestId request

instance (request answer : Bytes) : Decidable (IsAnswer request answer) :=
  decidable_of_iff (frameHeaderBytes ≤ answer.length ∧ beValue (answer.take 4) = answer.length ∧
      frameApiKey answer = frameApiKey request ∧ frameRequestId answer = frameRequestId request)
    ⟨fun h => ⟨⟨h.1, h.2.1⟩, h.2.2.1, h.2.2.2⟩, fun h => ⟨h.header, h.prefixed, h.apiKey, h.requestId⟩⟩

/-- An open socket: the bytes that are on the way to the server and back, and the requests of the connection with
their answers. -/
structure Socket where
  toServer : Bytes := []
  toClient : Bytes := []
  answered : List (Bytes × Bytes) := []
  deriving DecidableEq

namespace Socket

/-- The server answers the next request, if it has arrived. -/
def answer (socket : Socket) (answer : Bytes) : Socket :=
  match nextFrame socket.toServer with
  | none => socket
  | some request =>
      if IsAnswer request answer then
        { toServer := socket.toServer.drop request.length
          toClient := socket.toClient ++ answer
          answered := socket.answered ++ [(request, answer)] }
      else socket

def serve (socket : Socket) (answers : List Bytes) : Socket := answers.foldl answer socket

/-- Every request has been answered, and every answer has been received. -/
def Settled (socket : Socket) : Prop := socket.toServer = [] ∧ socket.toClient = []

end Socket

/-! ### System calls -/

inductive Errno where
  | interrupted
  | wouldBlock
  | timedOut
  | other (message : String)
  deriving DecidableEq

/-- `std::strerror`. -/
def Errno.message : Errno → String
  | .interrupted => "Interrupted system call"
  | .wouldBlock => "Resource temporarily unavailable"
  | .timedOut => "Connection timed out"
  | .other message => message

/-- The status of a failed call that may have timed out. -/
def Errno.status (errno : Errno) (operation : String) : Status :=
  if errno = .wouldBlock ∨ errno = .timedOut then .timeout (operation ++ ": " ++ errno.message)
  else .ioError (operation ++ ": " ++ errno.message)

/-- How the calls of `Connect` end. -/
inductive ConnectOutcome where
  | noSocket (errno : Errno)
  | noReceiveTimeout (errno : Errno)
  | noSendTimeout (errno : Errno)
  | invalidHost
  | refused (errno : Errno)
  | connected

/-- `Connect`. -/
def connect : ConnectOutcome → Result Socket
  | .noSocket errno => .error (.ioError ("socket: " ++ errno.message))
  | .noReceiveTimeout errno => .error (.ioError ("setsockopt SO_RCVTIMEO: " ++ errno.message))
  | .noSendTimeout errno => .error (.ioError ("setsockopt SO_SNDTIMEO: " ++ errno.message))
  | .invalidHost => .error (.invalidArgument "host must be an IPv4 address")
  | .refused errno => .error (errno.status "connect")
  | .connected => .ok {}

/-- One call of `send` or `recv`: what the server has answered before it returns, and the number of bytes it takes or
the error it returns. -/
structure Turn where
  answers : List Bytes := []
  outcome : Except Errno Nat

/-- `WriteAll`, for the bytes that are left. A socket has a timeout, so that a call nothing else ends is timed out. -/
def writeAll : List Turn → Bytes → Socket → Result Unit × Socket × List Turn
  | turns, [], socket => (.ok (), socket, turns)
  | [], _ :: _, socket => (.error (Errno.wouldBlock.status "send"), socket, [])
  | turn :: turns, byte :: rest, socket =>
      let socket := socket.serve turn.answers
      match turn.outcome with
      | .error .interrupted => writeAll turns (byte :: rest) socket
      | .error errno => (.error (errno.status "send"), socket, turns)
      | .ok 0 => (.error (.ioError "send: connection closed"), socket, turns)
      | .ok count =>
          writeAll turns ((byte :: rest).drop count)
            { socket with toServer := socket.toServer ++ (byte :: rest).take count }

/-- `ReadExact`, for the number of bytes that are left. -/
def readExact : List Turn → Nat → Socket → Result Bytes × Socket × List Turn
  | turns, 0, socket => (.ok [], socket, turns)
  | [], _ + 1, socket => (.error (Errno.wouldBlock.status "recv"), socket, [])
  | turn :: turns, size + 1, socket =>
      let socket := socket.serve turn.answers
      match turn.outcome with
      | .error .interrupted => readExact turns (size + 1) socket
      | .error errno => (.error (errno.status "recv"), socket, turns)
      | .ok count =>
          let received := socket.toClient.take (min count (size + 1))
          if received = [] then (.error (.ioError "connection closed while reading response"), socket, turns)
          else
            match readExact turns (size + 1 - received.length)
                { socket with toClient := socket.toClient.drop received.length } with
            | (.error status, socket, turns) => (.error status, socket, turns)
            | (.ok rest, socket, turns) => (.ok (received ++ rest), socket, turns)

def readFrameLength (bytes : Bytes) : UInt32 :=
  bytes.foldl (fun value byte => value <<< 8 ||| byte.toUInt32) 0

/-! ### Connections -/

/-- A connection whose descriptor is open or not. -/
structure ClientConnection where
  socket : Option Socket := none

/-- The arguments of one call of `RoundTrip`, with what its system calls do. -/
structure Exchange where
  request : RequestEnvelope
  connecting : ConnectOutcome := .connected
  turns : List Turn

namespace ClientConnection

def disconnect (_ : ClientConnection) : ClientConnection := {}

/-- The open socket, or a new one. -/
def openSocket (connection : ClientConnection) (connecting : ConnectOutcome) : Result Socket :=
  match connection.socket with
  | some socket => .ok socket
  | none => connect connecting

/-- `RoundTrip`. -/
def roundTrip (connection : ClientConnection) (exchange : Exchange) : Result ResponseEnvelope × ClientConnection :=
  match encodeRequest exchange.request with
  | .error status => (.error status, connection)
  | .ok encoded =>
      match connection.openSocket exchange.connecting with
      | .error status => (.error status, connection)
      | .ok socket =>
          match writeAll exchange.turns encoded socket with
          | (.error status, _, _) => (.error status, connection.disconnect)
          | (.ok (), socket, turns) =>
              match readExact turns 4 socket with
              | (.error status, _, _) => (.error status, connection.disconnect)
              | (.ok header, socket, turns) =>
                  let frameLength := (readFrameLength header).toNat
                  if frameLength < frameHeaderBytes ∨ maxFrameBytes < frameLength then
                    (.error (.invalidArgument "invalid response frame length"), connection.disconnect)
                  else
                    match readExact turns (frameLength - 4) socket with
                    | (.error status, _, _) => (.error status, connection.disconnect)
                    | (.ok rest, socket, _) =>
                        match decodeResponse (header ++ rest) with
                        | .error status => (.error status, connection.disconnect)
                        | .ok decoded =>
                            if decoded.requestId ≠ exchange.request.requestId ∨
                                decoded.apiKey ≠ exchange.request.apiKey then
                              (.error (.internal "response does not match request"), connection.disconnect)
                            else (.ok decoded, { connection with socket := some socket })

/-- The connection after a run of calls. -/
def run (connection : ClientConnection) (exchanges : List Exchange) : ClientConnection :=
  exchanges.foldl (fun connection exchange => (connection.roundTrip exchange).2) connection

end ClientConnection

end LogMq
