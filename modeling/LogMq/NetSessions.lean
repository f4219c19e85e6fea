import LogMq.LibSteps
import LogMq.NetOrder

/-! The server with its broker. The worker that finishes a request has the broker handle it, in the state the broker is
then in; the scheduler, the flusher and the detector of dead members take their turns in between. What a connection has
received is executed in the order of its arrival, each request at most once, and each response is the answer to its
request. -/

namespace LogMq

open ChunkedParser

/-! ### The server and its broker -/

/-- A request that was handled, with the state it was handled in. -/
structure ServedRequest where
  connection : Nat
  request : RequestEnvelope
  environment : Environment
  before : System

namespace ServedRequest

variable (queue : TaskQueue) (served : ServedRequest)

/-- What the worker sends back. -/
def bytes : Bytes := workerBytes queue served.before.broker served.environment served.request

def after : System :=
  ⟨(served.before.broker.handle queue served.environment served.request).2,
    served.before.intact && served.environment.faultless⟩

end ServedRequest

/-- The server, its broker, and the requests that were handled, which the code does not keep. -/
structure BrokerServer where
  net : TcpServer
  system : System
  served : List ServedRequest := []

inductive BrokerServerEvent where
  | net (event : NetEvent)
  | serve (position : Nat) (environment : Environment)
  | wake (now : UInt64)
  | flush (flushed : List (Bytes × Nat))
  | expire (now : Int)

/-- The events of the network in which no request is handled. -/
def NetEvent.outside : NetEvent → Bool
  | .finish _ _ _ => false
  | _ => true

namespace BrokerServer

def withBroker (state : BrokerServer) (broker : BrokerService) : BrokerServer :=
  { state with system := { state.system with broker := broker } }

/-- One step, if it is possible. -/
def step (queue : TaskQueue) (state : BrokerServer) : BrokerServerEvent → Option BrokerServer
  | .net event =>
      if event.outside = true then (state.net.step queue event).map fun net => { state with net := net } else none
  | .serve position environment => do
      let task ← state.net.workers.running[position]?
      let net ← state.net.step queue (.finish position state.system.broker environment)
      let served : ServedRequest := ⟨task.connection, task.request, environment, state.system⟩
      return ⟨net, served.after queue, state.served ++ [served]⟩
  | .wake now => some (state.withBroker (state.system.broker.wake queue now))
  | .flush flushed => some (state.withBroker (state.system.broker.flush flushed))
  | .expire now => some (state.withBroker (state.system.broker.expire now))

/-- A server in front of a broker that has started. -/
def start (threadCount maxQueueSize : Nat) (system : System) : BrokerServer :=
  ⟨TcpServer.create threadCount maxQueueSize, system, []⟩

def Reached (queue : TaskQueue) (threadCount maxQueueSize : Nat) (system : System) (state : BrokerServer) : Prop :=
  Steps.Reaches (step queue) (start threadCount maxQueueSize system) state

/-! ### What belongs to a connection -/

/-- The requests of a connection that the workers have, queued or running. -/
def submitted (net : TcpServer) (id : Nat) : List RequestEnvelope :=
  ((net.workers.tasks ++ net.workers.running).filter fun task => task.connection = id).map WorkerTask.request

def answerOf (id : Nat) : Nat × QueuedCall → Option Bytes
  | (other, .onResponse bytes) => if other = id then some bytes else none
  | (_, .shutdown) => none

/-- The responses of a connection that are on their way to it. -/
def answers (net : TcpServer) (id : Nat) : List Bytes := net.queued.filterMap (answerOf id)

/-- The requests of a connection that were handled, with their responses. -/
def executed (queue : TaskQueue) (served : List ServedRequest) (id : Nat) : List (RequestEnvelope × Bytes) :=
  (served.filter fun entry => entry.connection = id).map fun entry => (entry.request, entry.bytes queue)

end BrokerServer

/-- The answer to a request that the workers do not take. -/
def refusal (request : RequestEnvelope) : Bytes :=
  match encodeErrorResponse request.apiKey protocolVersion request.requestId .internal (text "worker queue is full") with
  | .ok frame => frame
  | .error _ => []

/-! ### Decoded requests -/

/-- What the decoder checks of a request. -/
def RequestEnvelope.Decoded (request : RequestEnvelope) : Prop := request.Framed ∧ request.body.Decodable

theorem RequestEnvelope.Decoded.typed {request : RequestEnvelope} (h : request.Decoded) : request.body.Typed := h.2.2.1

theorem FrameDecoder.pushLoop_decoded {fuel : Nat} {decoder : FrameDecoder} {requests new : List RequestEnvelope}
    (h : (pushLoop fuel decoder requests).1 = .ok new) (hsofar : ∀ request ∈ requests, request.Decoded) :
    ∀ request ∈ new, request.Decoded := by
  induction fuel generalizing decoder requests with
  | zero =>
      cases h
      exact hsofar
  | succ fuel ih =>
      rw [pushLoop] at h
      split at h
      · cases h
        exact hsofar
      split at h
      · cases h
      split at h
      · cases h
      split at h
      · cases h
      split at h
      · cases h
        exact hsofar
      split at h
      · cases h
      · rename_i request hdecode
        refine ih h fun other hother => ?_
        rcases List.mem_append.mp hother with hold | hnew
        · exact hsofar other hold
        · cases List.mem_singleton.mp hnew
          obtain ⟨hframed, hdecodable, -⟩ := decodeRequest_ok.mp hdecode
          exact ⟨hframed, hdecodable⟩

/-- What the decoder returns has passed its checks. -/
theorem FrameDecoder.push_decoded {decoder after : FrameDecoder} {chunk : Bytes} {new : List RequestEnvelope}
    (h : decoder.push chunk = (.ok new, after)) : ∀ request ∈ new, request.Decoded :=
  pushLoop_decoded (congrArg Prod.fst h) fun _ hnone => absurd hnone List.not_mem_nil

/-! ### What a connection keeps -/

/-- What is known of a connection, given its requests that the workers have, the responses on their way to it, and what
was handled for it. As long as it has read no malformed frame, the requests it has received are those that were
handled, the one that the workers have, the one they refused, and those that wait, in this order. -/
structure TcpConnection.Session (connection : TcpConnection) (submitted : List RequestEnvelope) (answers : List Bytes)
    (executed : List (RequestEnvelope × Bytes)) : Prop where
  busy : submitted.length + answers.length = if connection.processing = true then 1 else 0
  decoded : ∀ request ∈ connection.requests, request.Decoded
  ordered : ∃ refused : Option RequestEnvelope,
    (refused ≠ none → connection.closing = true ∧ connection.processing = false) ∧
    ∀ received total, Clean (frames maxFrameBytes) connection.input received total →
      connection.decoder = ⟨maxFrameBytes, connection.input.drop total⟩ ∧
        received = executed.map Prod.fst ++ (submitted ++ (refused.toList ++ connection.requests)) ∧
        connection.appended ++ answers = executed.map Prod.snd ++ refused.toList.map refusal

namespace TcpConnection.Session

variable {connection : TcpConnection} {submitted : List RequestEnvelope} {answers : List Bytes}
  {executed : List (RequestEnvelope × Bytes)}

theorem accepted : Session {} [] [] [] where
  busy := rfl
  decoded _ h := absurd h List.not_mem_nil
  ordered := by
    refine ⟨none, fun h => absurd rfl h, fun received total h => ?_⟩
    obtain ⟨rfl, rfl⟩ := h.splits.eq_nil (frames_front_nil _)
    exact ⟨fresh_eq, rfl, rfl⟩

theorem length_le (h : connection.Session submitted answers executed) : submitted.length + answers.length ≤ 1 := by
  rw [h.busy]
  split <;> omega

/-- Their order does not matter, since there is at most one. -/
theorem perm (h : connection.Session submitted answers executed) {submitted' : List RequestEnvelope}
    {answers' : List Bytes} (hsubmitted : submitted'.Perm submitted) (hanswers : answers'.Perm answers) :
    connection.Session submitted' answers' executed := by
  have hlength := h.length_le
  have hsame : ∀ {α : Type} {left right : List α}, left.Perm right → right.length ≤ 1 → left = right := by
    intro α left right hperm hle
    match right, hle with
    | [], _ => exact hperm.eq_nil
    | [_], _ => exact hperm.eq_singleton
  rw [hsame hsubmitted (by omega), hsame hanswers (by omega)]
  exact h

theorem handleClose (h : connection.Session submitted answers executed) :
    connection.handleClose.Session submitted answers executed :=
  ⟨h.busy, h.decoded, h.ordered⟩

theorem handleWrite (h : connection.Session submitted answers executed) (count : Nat) (failed : Bool) :
    (connection.handleWrite count failed).Session submitted answers executed := by
  unfold TcpConnection.handleWrite
  simp only
  split_ifs <;> exact ⟨h.busy, h.decoded, h.ordered⟩

theorem runShutdown (h : connection.Session submitted answers executed) :
    connection.runShutdown.Session submitted answers executed := by
  have hclosing : Session { connection with closing := true } submitted answers executed := by
    obtain ⟨refused, hrefused, hordered⟩ := h.ordered
    exact ⟨h.busy, h.decoded, refused, fun hsome => ⟨rfl, (hrefused hsome).2⟩, hordered⟩
  unfold TcpConnection.runShutdown
  simp only
  split_ifs
  · exact hclosing.handleClose
  · exact hclosing

/-- While a request is in progress none has been refused. -/
theorem refused_none (h : connection.Session submitted answers executed) (hbusy : 0 < submitted.length + answers.length)
    {refused : Option RequestEnvelope} (hrefused : refused ≠ none → connection.closing = true ∧ connection.processing = false) :
    refused = none := by
  by_contra hsome
  have hlength := h.busy
  rw [(hrefused hsome).2, if_neg Bool.false_ne_true] at hlength
  omega

/-- A worker handles the request in progress. -/
theorem execute {request : RequestEnvelope} (h : connection.Session [request] answers executed) (bytes : Bytes) :
    connection.Session [] (answers ++ [bytes]) (executed ++ [(request, bytes)]) := by
  obtain ⟨refused, hrefused, hordered⟩ := h.ordered
  have hlength := h.length_le
  obtain rfl : answers = [] := List.length_eq_zero_iff.mp (by rw [List.length_singleton] at hlength; omega)
  have hnone := h.refused_none (by simp) hrefused
  refine ⟨h.busy, h.decoded, refused, hrefused, fun received total hclean => ?_⟩
  obtain ⟨hdecoder, hreceived, hframes⟩ := hordered received total hclean
  rw [hnone] at hreceived hframes ⊢
  refine ⟨hdecoder, ?_, ?_⟩
  · simp [hreceived]
  · simpa using hframes

/-- Its response reaches the connection. -/
theorem answer {bytes : Bytes} (h : connection.Session [] [bytes] executed) :
    ({ connection with processing := false }.append bytes).Session [] [] executed := by
  obtain ⟨refused, hrefused, hordered⟩ := h.ordered
  have hnone := h.refused_none (by simp) hrefused
  refine ⟨rfl, h.decoded, none, fun habsurd => absurd rfl habsurd, fun received total hclean => ?_⟩
  obtain ⟨hdecoder, hreceived, hframes⟩ := hordered received total hclean
  rw [hnone] at hreceived hframes
  refine ⟨hdecoder, hreceived, ?_⟩
  change connection.appended ++ [bytes] ++ [] = _
  rw [List.append_nil]
  exact hframes

/-- What `SubmitNext` does: nothing of this, an answer to a refused request, or a new request in progress. -/
theorem submitNext {id : Nat} {pool : WorkerPool} (h : connection.Session submitted answers executed) :
    (∃ after, TcpConnection.submitNext id pool connection = (pool, after) ∧ after.Session submitted answers executed) ∨
      ∃ request after pool', pool.submit ⟨id, request⟩ = some pool' ∧ submitted = [] ∧ request.Decoded ∧
        TcpConnection.submitNext id pool connection = (pool', after) ∧ after.Session [request] answers executed := by
  unfold TcpConnection.submitNext
  by_cases hidle : connection.processing = true ∨ connection.closing = true
  · rw [if_pos hidle]
    exact .inl ⟨connection, rfl, h⟩
  rw [if_neg hidle]
  obtain ⟨hprocessing, hclosing⟩ := not_or.mp hidle
  obtain ⟨refused, hrefused, hordered⟩ := h.ordered
  have hbusy := h.busy
  rw [if_neg hprocessing] at hbusy
  obtain rfl : submitted = [] := List.length_eq_zero_iff.mp (by omega)
  obtain rfl : answers = [] := List.length_eq_zero_iff.mp (by omega)
  have hnone : refused = none := by
    by_contra hsome
    exact hclosing (hrefused hsome).1
  subst hnone
  cases hrequests : connection.requests with
  | nil => exact .inl ⟨connection, rfl, h⟩
  | cons request rest =>
      have hdecoded := h.decoded
      rw [hrequests] at hdecoded
      have hrest : ∀ other ∈ rest, other.Decoded := fun other hother => hdecoded other (List.mem_cons_of_mem _ hother)
      cases hsubmit : pool.submit ⟨id, request⟩ with
      | some pool' =>
          simp only [hsubmit]
          refine .inr ⟨request, _, pool', hsubmit, trivial, hdecoded request List.mem_cons_self, rfl, ?_⟩
          refine ⟨rfl, hrest, none, fun habsurd => absurd rfl habsurd, fun received total hclean => ?_⟩
          obtain ⟨hdecoder, hreceived, hframes⟩ := hordered received total hclean
          rw [hrequests] at hreceived
          exact ⟨hdecoder, hreceived, hframes⟩
      | none =>
          obtain ⟨frame, hframe, -⟩ := @encodeErrorResponse_ok request.apiKey protocolVersion
            request.requestId .internal (text "worker queue is full") (.inl rfl)
            (by decide +kernel : (text "worker queue is full").length ≤ 100)
          simp only [hsubmit, hframe, TcpConnection.appendEncoded]
          refine .inl ⟨_, rfl, ?_⟩
          refine ⟨(if_neg hprocessing).symm, hrest, some request,
            fun _ => ⟨rfl, Bool.eq_false_of_not_eq_true hprocessing⟩, fun received total hclean => ?_⟩
          obtain ⟨hdecoder, hreceived, hframes⟩ := hordered received total hclean
          rw [hrequests] at hreceived
          refine ⟨hdecoder, hreceived, ?_⟩
          change connection.appended ++ [frame] ++ [] = executed.map Prod.snd ++ [refusal request]
          rw [List.append_nil] at hframes
          rw [List.append_nil, hframes, refusal, hframe]
          simp

/-- After a malformed frame nothing is said about the order. -/
theorem queueErrorAndClose {code : ProtocolErrorCode} {message : Bytes}
    (h : connection.Session submitted answers executed)
    (hmalformed : ∀ received total, ¬ Clean (frames maxFrameBytes) connection.input received total) :
    (connection.queueErrorAndClose code message).Session submitted answers executed := by
  unfold TcpConnection.queueErrorAndClose TcpConnection.appendEncoded
  cases encodeErrorResponse .produce protocolVersion 0 code message with
  | error status =>
      exact ⟨h.busy, fun _ hnone => absurd hnone List.not_mem_nil, none, fun habsurd => absurd rfl habsurd,
        fun received total hclean => absurd hclean (hmalformed received total)⟩
  | ok frame =>
      exact ⟨h.busy, fun _ hnone => absurd hnone List.not_mem_nil, none, fun habsurd => absurd rfl habsurd,
        fun received total hclean => absurd hclean (hmalformed received total)⟩

/-- A chunk behind an input without malformed frames. -/
theorem push_eq (h : connection.Session submitted answers executed) {chunk : Bytes} {received : List RequestEnvelope}
    {total : Nat} (hclean : Clean (frames maxFrameBytes) (connection.input ++ chunk) received total) :
    ∃ before used new, Clean (frames maxFrameBytes) connection.input before used ∧ received = before ++ new ∧
      connection.decoder.push chunk = (.ok new, ⟨maxFrameBytes, (connection.input ++ chunk).drop total⟩) := by
  obtain ⟨before, used, hbefore⟩ := hclean.beginning
  obtain ⟨refused, -, hordered⟩ := h.ordered
  obtain ⟨new, rfl, hpush⟩ := hbefore.push hclean
  refine ⟨before, used, new, hbefore, rfl, ?_⟩
  rw [(hordered before used hbefore).1, FrameDecoder.push_eq, hpush]

theorem readLoop {results : List ReadResult} (h : connection.Session submitted answers executed) :
    (connection.readLoop results).1.Session submitted answers executed := by
  induction results generalizing connection with
  | nil => exact h
  | cons result rest ih =>
      cases result with
      | again => exact h
      | interrupted => exact ih h
      | failed => exact h.handleClose
      | eof => exact h.handleClose
      | bytes chunk =>
          rw [TcpConnection.readLoop]
          obtain ⟨refused, hrefused, hordered⟩ := h.ordered
          rcases hpush : connection.decoder.push chunk with ⟨status | new, decoder⟩
          · have hmalformed : ∀ received total,
                ¬ Clean (frames maxFrameBytes) (connection.input ++ chunk) received total := by
              intro received total hclean
              obtain ⟨before, used, new, -, -, hok⟩ := h.push_eq hclean
              cases hpush.symm.trans hok
            refine queueErrorAndClose ⟨h.busy, h.decoded, refused, hrefused, ?_⟩ hmalformed
            exact fun received total hclean => absurd hclean (hmalformed received total)
          · refine ih ⟨h.busy, fun request hrequest => ?_, refused, hrefused, fun received total hclean => ?_⟩
            · rcases List.mem_append.mp hrequest with hold | hnew
              · exact h.decoded request hold
              · exact FrameDecoder.push_decoded hpush request hnew
            · obtain ⟨before, used, others, hbefore, rfl, hok⟩ := h.push_eq hclean
              cases hpush.symm.trans hok
              obtain ⟨-, hreceived, hframes⟩ := hordered before used hbefore
              refine ⟨rfl, ?_, hframes⟩
              rw [hreceived]
              simp only [List.append_assoc]

end TcpConnection.Session

/-! ### What the server keeps -/

namespace BrokerServer

variable {queue : TaskQueue} {net net' : TcpServer} {served served' : List ServedRequest}

/-- All connections, their requests and their responses. -/
structure Sessions (queue : TaskQueue) (net : TcpServer) (served : List ServedRequest) : Prop where
  unused : ∀ id, net.connections id = none →
    submitted net id = [] ∧ answers net id = [] ∧ executed queue served id = []
  sessions : ∀ id connection, net.connections id = some connection →
    connection.Session (submitted net id) (answers net id) (executed queue served id)
  nonempty : ∀ id, ∀ bytes ∈ answers net id, bytes ≠ []
  decoded : ∀ id, ∀ request ∈ submitted net id, request.Decoded

theorem filterMap_eraseIdx {α β : Type} {f : α → Option β} {items : List α} {position : Nat} {item : α}
    (h : items[position]? = some item) (hnone : f item = none) :
    (items.eraseIdx position).filterMap f = items.filterMap f := by
  obtain ⟨hlt, rfl⟩ := List.getElem?_eq_some_iff.mp h
  calc (items.eraseIdx position).filterMap f
      = (items.take position ++ items.drop (position + 1)).filterMap f := by rw [List.eraseIdx_eq_take_drop_succ]
    _ = (items.take position ++ items[position] :: items.drop (position + 1)).filterMap f := by
        rw [List.filterMap_append, List.filterMap_append, List.filterMap_cons_none hnone]
    _ = items.filterMap f := by rw [← List.drop_eq_getElem_cons hlt, List.take_append_drop]

theorem submitted_cons {task : WorkerTask} {tasks : List WorkerTask} (id : Nat)
    (h : (net'.workers.tasks ++ net'.workers.running).Perm (task :: tasks)) :
    (submitted net' id).Perm (if task.connection = id then
      task.request :: (tasks.filter fun task => task.connection = id).map WorkerTask.request
      else (tasks.filter fun task => task.connection = id).map WorkerTask.request) := by
  refine ((h.filter _).map _).trans (.of_eq ?_)
  rw [List.filter_cons]
  by_cases hid : task.connection = id <;> simp [hid]

namespace Sessions

theorem create (threadCount maxQueueSize : Nat) : Sessions queue (TcpServer.create threadCount maxQueueSize) [] where
  unused _ _ := ⟨rfl, rfl, rfl⟩
  sessions id connection h := by cases h
  nonempty id bytes h := by cases h
  decoded id request h := by cases h

/-- A step that concerns one connection. -/
theorem update (h : Sessions queue net served) {id : Nat} {connection : TcpConnection}
    (hconnections : net'.connections = Function.update net.connections id (some connection))
    (hsession : connection.Session (submitted net' id) (answers net' id) (executed queue served' id))
    (hnonempty : ∀ bytes ∈ answers net' id, bytes ≠ []) (hdecoded : ∀ request ∈ submitted net' id, request.Decoded)
    (hothers : ∀ other, other ≠ id → (submitted net' other).Perm (submitted net other) ∧
      (answers net' other).Perm (answers net other) ∧ executed queue served' other = executed queue served other) :
    Sessions queue net' served' where
  unused other hother := by
    by_cases hsame : other = id
    · rw [hconnections, hsame, Function.update_self] at hother
      cases hother
    · rw [hconnections, Function.update_of_ne hsame] at hother
      obtain ⟨hsubmitted, hanswers, hexecuted⟩ := hothers other hsame
      obtain ⟨hnone, hnoAnswer, hnever⟩ := h.unused other hother
      rw [hnone] at hsubmitted
      rw [hnoAnswer] at hanswers
      exact ⟨hsubmitted.eq_nil, hanswers.eq_nil, hexecuted.trans hnever⟩
  sessions other found hother := by
    by_cases hsame : other = id
    · rw [hconnections, hsame, Function.update_self] at hother
      cases hother
      rw [hsame]
      exact hsession
    · rw [hconnections, Function.update_of_ne hsame] at hother
      obtain ⟨hsubmitted, hanswers, hexecuted⟩ := hothers other hsame
      rw [hexecuted]
      exact (h.sessions other found hother).perm hsubmitted hanswers
  nonempty other bytes hbytes := by
    by_cases hsame : other = id
    · exact hnonempty bytes (hsame ▸ hbytes)
    · exact h.nonempty other bytes ((hothers other hsame).2.1.mem_iff.mp hbytes)
  decoded other request hrequest := by
    by_cases hsame : other = id
    · exact hdecoded request (hsame ▸ hrequest)
    · exact h.decoded other request ((hothers other hsame).1.mem_iff.mp hrequest)

/-- A step that leaves the connections alone. -/
theorem same (h : Sessions queue net served) (hconnections : net'.connections = net.connections)
    (hsubmitted : ∀ id, (submitted net' id).Perm (submitted net id)) (hanswers : ∀ id, answers net' id = answers net id) :
    Sessions queue net' served where
  unused id hid := by
    obtain ⟨hnone, hnoAnswer, hnever⟩ := h.unused id (by rw [← hconnections]; exact hid)
    have hperm := hsubmitted id
    rw [hnone] at hperm
    exact ⟨hperm.eq_nil, (hanswers id).trans hnoAnswer, hnever⟩
  sessions id connection hid := by
    rw [hconnections] at hid
    exact (h.sessions id connection hid).perm (hsubmitted id) (.of_eq (hanswers id))
  nonempty id bytes hbytes := h.nonempty id bytes (hanswers id ▸ hbytes)
  decoded id request hrequest := h.decoded id request ((hsubmitted id).mem_iff.mp hrequest)

/-- A step that changes one connection only. -/
theorem setConnection (h : Sessions queue net served) {id : Nat} {connection : TcpConnection}
    (hsession : connection.Session (submitted net id) (answers net id) (executed queue served id)) :
    Sessions queue (net.setConnection id connection) served :=
  h.update rfl hsession (h.nonempty id) (h.decoded id) fun _ _ => ⟨.refl _, .refl _, rfl⟩

/-- A callback that ends in `SubmitNext`. -/
theorem submitNext (h : Sessions queue net served) {id : Nat} {connection : TcpConnection}
    (hsession : connection.Session (submitted net id) (answers net id) (executed queue served id)) :
    Sessions queue (net.afterCallback id (TcpConnection.submitNext id net.workers connection)) served := by
  rcases @TcpConnection.Session.submitNext _ _ _ _ id net.workers hsession with
    ⟨after, hsame, hafter⟩ | ⟨request, after, pool, hsubmit, hnone, hdecoded, hnext, hafter⟩
  · rw [hsame]
    exact h.setConnection hafter
  · rw [hnext]
    have hperm : (pool.tasks ++ pool.running).Perm (⟨id, request⟩ :: (net.workers.tasks ++ net.workers.running)) := by
      unfold WorkerPool.submit at hsubmit
      split at hsubmit
      · cases hsubmit
      · cases hsubmit
        change ((net.workers.tasks ++ [WorkerTask.mk id request]) ++ net.workers.running).Perm _
        rw [List.append_assoc]
        exact List.perm_middle
    have hmine := @submitted_cons (net.afterCallback id (pool, after)) _ _ id hperm
    rw [if_pos rfl] at hmine
    change (submitted (net.afterCallback id (pool, after)) id).Perm (request :: submitted net id) at hmine
    rw [hnone] at hmine
    refine h.update rfl (hafter.perm hmine (.refl _)) (h.nonempty id) ?_ fun other hother => ⟨?_, .refl _, rfl⟩
    · intro found hfound
      cases List.mem_singleton.mp (hmine.mem_iff.mp hfound)
      exact hdecoded
    · have hothers := @submitted_cons (net.afterCallback id (pool, after)) _ _ other hperm
      rw [if_neg (Ne.symm hother)] at hothers
      exact hothers

theorem take (h : Sessions queue net served) {pool : WorkerPool} (htake : net.workers.take = some pool) :
    Sessions queue { net with workers := pool } served := by
  refine h.same rfl (fun id => List.Perm.map _ (List.Perm.filter _ ?_)) fun _ => rfl
  unfold WorkerPool.take at htake
  split at htake
  · cases htake
  rename_i task rest htasks
  split at htake
  · cases htake
    change (rest ++ (net.workers.running ++ [task])).Perm (net.workers.tasks ++ net.workers.running)
    rw [htasks, ← List.append_assoc]
    exact List.perm_append_singleton task (rest ++ net.workers.running)
  · cases htake

/-- The loop runs `OnResponse`. -/
theorem onResponse (h : Sessions queue net served) {position id : Nat} {connection : TcpConnection} {bytes : Bytes}
    (hcall : net.queued[position]? = some (id, .onResponse bytes))
    (hconnection : net.connections id = some connection) :
    Sessions queue ({ net with queued := net.queued.eraseIdx position }.afterCallback id
      (connection.onResponse id net.workers bytes)) served := by
  have hqueued : ∀ other, (answers net other).Perm ((answerOf other (id, .onResponse bytes)).toList ++
      answers { net with queued := net.queued.eraseIdx position } other) := by
    intro other
    have hperm := (TcpServer.Sound.perm_eraseIdx hcall).filterMap (answerOf other)
    rw [List.filterMap_cons] at hperm
    refine hperm.trans (.of_eq ?_)
    cases answerOf other (id, .onResponse bytes) <;> rfl
  have hmine := hqueued id
  simp only [answerOf, if_true, Option.toList_some, List.singleton_append] at hmine
  have hsession := (h.sessions id connection hconnection).perm (.refl _) hmine.symm
  have hlength := hsession.length_le
  rw [List.length_cons] at hlength
  have hnone : answers { net with queued := net.queued.eraseIdx position } id = [] :=
    List.length_eq_zero_iff.mp (by omega)
  have hidle : submitted net id = [] := List.length_eq_zero_iff.mp (by omega)
  rw [hnone, hidle] at hsession
  have hbytes := h.nonempty id bytes (hmine.mem_iff.mpr List.mem_cons_self)
  have hothers : ∀ other, other ≠ id →
      (answers { net with queued := net.queued.eraseIdx position } other).Perm (answers net other) := by
    intro other hother
    have hperm := hqueued other
    simp only [answerOf, if_neg (Ne.symm hother), Option.toList_none, List.nil_append] at hperm
    exact hperm.symm
  have hanswered : Sessions queue ({ net with queued := net.queued.eraseIdx position }.setConnection id
      ({ connection with processing := false }.append bytes)) served := by
    refine h.update rfl ?_ ?_ (h.decoded id) fun other hother => ⟨.refl _, hothers other hother, rfl⟩
    · change TcpConnection.Session _ (submitted net id)
        (answers { net with queued := net.queued.eraseIdx position } id) _
      rw [hnone, hidle]
      exact hsession.answer
    · change ∀ bytes ∈ answers { net with queued := net.queued.eraseIdx position } id, bytes ≠ []
      rw [hnone]
      exact fun _ habsurd => absurd habsurd List.not_mem_nil
  simp only [TcpConnection.onResponse, if_neg hbytes]
  rw [← TcpServer.Sound.afterCallback_setConnection _ id ({ connection with processing := false }.append bytes)]
  exact hanswered.submitNext (hanswered.sessions id _ (Function.update_self _ _ _))

/-- **Every event of the network** keeps the sessions. -/
theorem outside (h : Sessions queue net served) {event : NetEvent} (houtside : event.outside = true)
    (hstep : net.step queue event = some net') : Sessions queue net' served := by
  cases event with
  | finish position broker environment => cases houtside
  | accept id =>
      rw [TcpServer.step] at hstep
      split at hstep
      · rename_i hnone
        cases hstep
        refine h.setConnection ?_
        obtain ⟨hsubmitted, hanswers, hexecuted⟩ := h.unused id hnone
        rw [hsubmitted, hanswers, hexecuted]
        exact .accepted
      · cases hstep
  | read id results =>
      obtain ⟨connection, hconnection, hafter⟩ := Option.bind_eq_some_iff.mp hstep
      cases hafter
      have hsession := h.sessions id connection hconnection
      unfold TcpConnection.handleRead
      by_cases hopen : connection.isOpen = false
      · rw [if_pos hopen]
        exact h.setConnection hsession
      · rw [if_neg hopen]
        have hread := @TcpConnection.Session.readLoop _ _ _ _ results hsession
        rcases hloop : connection.readLoop results with ⟨after, reached⟩
        rw [hloop] at hread
        cases reached with
        | true => exact h.submitNext hread
        | false => exact h.setConnection hread
  | write id count failed =>
      obtain ⟨connection, hconnection, hafter⟩ := Option.bind_eq_some_iff.mp hstep
      cases hafter
      exact h.setConnection ((h.sessions id connection hconnection).handleWrite count failed)
  | close id =>
      obtain ⟨connection, hconnection, hafter⟩ := Option.bind_eq_some_iff.mp hstep
      cases hafter
      exact h.setConnection (h.sessions id connection hconnection).handleClose
  | take =>
      obtain ⟨pool, hpool, hafter⟩ := Option.bind_eq_some_iff.mp hstep
      cases hafter
      exact h.take hpool
  | call position =>
      obtain ⟨⟨id, call⟩, hcall, hrest⟩ := Option.bind_eq_some_iff.mp hstep
      obtain ⟨connection, hconnection, hafter⟩ := Option.bind_eq_some_iff.mp hrest
      cases call with
      | onResponse bytes =>
          cases hafter
          exact h.onResponse hcall hconnection
      | shutdown =>
          cases hafter
          have hrest : Sessions queue { net with queued := net.queued.eraseIdx position } served := by
            refine h.same rfl (fun _ => .refl _) fun other => ?_
            -- the function that is taken out of the queue answers no one
            exact filterMap_eraseIdx hcall rfl
          exact hrest.setConnection (hrest.sessions id connection hconnection).runShutdown
  | shutdown id =>
      obtain ⟨connection, hconnection, hafter⟩ := Option.bind_eq_some_iff.mp hstep
      cases hafter
      refine h.same rfl (fun _ => .refl _) fun other => ?_
      change (net.queued ++ [(id, QueuedCall.shutdown)]).filterMap (answerOf other) = _
      rw [List.filterMap_append]
      exact List.append_nil _
  | stop =>
      cases hstep
      exact h.same rfl (fun _ => .refl _) fun _ => rfl

/-- **A worker** has the broker handle a request. -/
theorem serve (h : Sessions queue net served) {position : Nat} {environment : Environment} {system : System}
    {task : WorkerTask} (htask : net.workers.running[position]? = some task)
    (hstep : net.step queue (.finish position system.broker environment) = some net') :
    Sessions queue net' (served ++ [⟨task.connection, task.request, environment, system⟩]) := by
  obtain ⟨found, hfound, hafter⟩ := Option.bind_eq_some_iff.mp hstep
  cases htask.symm.trans hfound
  cases hafter
  have hbytes := (workerBytes_requestId queue system.broker environment task.request).2
  generalize hresponse : workerBytes queue system.broker environment task.request = bytes at hbytes ⊢
  have hperm : (net.workers.tasks ++ net.workers.running).Perm
      (task :: (net.workers.tasks ++ net.workers.running.eraseIdx position)) :=
    ((TcpServer.Sound.perm_eraseIdx htask).append_left _).trans List.perm_middle
  have hsubmitted : (submitted net task.connection).Perm (task.request ::
      ((net.workers.tasks ++ net.workers.running.eraseIdx position).filter
        fun other => other.connection = task.connection).map WorkerTask.request) := by
    have hmine := submitted_cons task.connection hperm
    rwa [if_pos rfl] at hmine
  cases hconnection : net.connections task.connection with
  | none =>
      rw [(h.unused _ hconnection).1] at hsubmitted
      cases hsubmitted.symm.eq_nil
  | some connection =>
      have hsession := (h.sessions _ connection hconnection).perm hsubmitted.symm (.refl _)
      have hlength := hsession.length_le
      rw [List.length_cons] at hlength
      have hnone := List.length_eq_zero_iff.mp
        (show (((net.workers.tasks ++ net.workers.running.eraseIdx position).filter
          fun other => other.connection = task.connection).map WorkerTask.request).length = 0 by omega)
      have hnoAnswer : answers net task.connection = [] := List.length_eq_zero_iff.mp (by omega)
      rw [hnone] at hsession
      have hexecuted := hsession.execute bytes
      have hcall : ∀ id, [(task.connection, QueuedCall.onResponse bytes)].filterMap (answerOf id) =
          if task.connection = id then [bytes] else [] := by
        intro id
        by_cases hid : task.connection = id <;> simp [answerOf, hid]
      have hanswers : ∀ id, (net.queued ++ [(task.connection, QueuedCall.onResponse bytes)]).filterMap (answerOf id) =
          answers net id ++ if task.connection = id then [bytes] else [] := by
        intro id
        rw [List.filterMap_append, hcall]
        rfl
      have hserved : ∀ id, executed queue (served ++ [⟨task.connection, task.request, environment, system⟩]) id =
          executed queue served id ++ if task.connection = id then [(task.request, bytes)] else [] := by
        intro id
        unfold executed ServedRequest.bytes
        by_cases hid : task.connection = id <;> simp [hid, hresponse]
      refine @update queue net _ served _ h task.connection connection ?_ ?_ ?_ ?_ fun other hother => ⟨?_, ?_, ?_⟩
      · exact (Function.update_eq_self_iff.mpr hconnection.symm).symm
      · change connection.Session (List.map _ _) (List.filterMap _ _) _
        rw [hnone, hanswers, hserved, if_pos rfl, if_pos rfl]
        exact hexecuted
      · change ∀ other ∈ List.filterMap _ _, other ≠ []
        rw [hanswers, hnoAnswer, if_pos rfl]
        intro other hother
        rw [List.mem_singleton.mp hother]
        exact hbytes
      · change ∀ request : RequestEnvelope, request ∈ List.map _ _ → request.Decoded
        rw [hnone]
        exact fun _ habsurd => absurd habsurd List.not_mem_nil
      · have hothers := submitted_cons other hperm
        rw [if_neg (Ne.symm hother)] at hothers
        exact hothers.symm
      · change (List.filterMap _ _).Perm _
        rw [hanswers, if_neg (Ne.symm hother), List.append_nil]
      · rw [hserved, if_neg (Ne.symm hother), List.append_nil]

/-- A request that a worker has was decoded. -/
theorem running_decoded (h : Sessions queue net served) {position : Nat} {task : WorkerTask}
    (htask : net.workers.running[position]? = some task) : task.request.Decoded := by
  refine h.decoded task.connection task.request (List.mem_map_of_mem (List.mem_filter.mpr ⟨?_, by simp⟩))
  exact List.mem_append_right _ (List.mem_of_getElem? htask)

end Sessions

/-! ### The broker behind the server -/

/-- What the broker does between two requests. -/
inductive Background (queue : TaskQueue) : System → System → Prop
  | wake (system : System) (now : UInt64) :
      Background queue system { system with broker := system.broker.wake queue now }
  | flush (system : System) (flushed : List (Bytes × Nat)) :
      Background queue system { system with broker := system.broker.flush flushed }
  | expire (system : System) (now : Int) :
      Background queue system { system with broker := system.broker.expire now }

/-- The broker has handled these requests one after the other, each as the decoder has
checked it. -/
def Handled (queue : TaskQueue) : System → List ServedRequest → System → Prop
  | first, [], last => Relation.ReflTransGen (Background queue) first last
  | first, entry :: rest, last =>
      Relation.ReflTransGen (Background queue) first entry.before ∧ entry.request.Decoded ∧
        Handled queue (entry.after queue) rest last

theorem Handled.concat {first system : System} {entry : ServedRequest} (h : Handled queue first served system)
    (hbefore : entry.before = system) (hdecoded : entry.request.Decoded) :
    Handled queue first (served ++ [entry]) (entry.after queue) := by
  induction served generalizing first with
  | nil => exact ⟨hbefore ▸ h, hdecoded, .refl⟩
  | cons head rest ih => exact ⟨h.1, h.2.1, ih h.2.2⟩

theorem Handled.background {first system later : System} (h : Handled queue first served system)
    (hstep : Background queue system later) : Handled queue first served later := by
  induction served generalizing first with
  | nil => exact h.tail hstep
  | cons head rest ih => exact ⟨h.1, h.2.1, ih h.2.2⟩

/-- The invariant of the server and its broker. -/
structure Sound (queue : TaskQueue) (first : System) (state : BrokerServer) : Prop where
  sessions : Sessions queue state.net state.served
  handled : Handled queue first state.served state.system

/-- **What one step keeps.** -/
theorem Sound.step {first : System} {state next : BrokerServer} {event : BrokerServerEvent}
    (h : Sound queue first state) (hstep : state.step queue event = some next) : Sound queue first next := by
  cases event with
  | net event =>
      simp only [BrokerServer.step] at hstep
      split at hstep
      · rename_i houtside
        obtain ⟨net, hnet, rfl⟩ := Option.map_eq_some_iff.mp hstep
        exact ⟨h.sessions.outside houtside hnet, h.handled⟩
      · cases hstep
  | serve position environment =>
      obtain ⟨task, htask, hrest⟩ := Option.bind_eq_some_iff.mp hstep
      obtain ⟨net, hnet, hafter⟩ := Option.bind_eq_some_iff.mp hrest
      cases hafter
      exact ⟨h.sessions.serve htask hnet, h.handled.concat rfl (h.sessions.running_decoded htask)⟩
  | wake now =>
      cases hstep
      exact ⟨h.sessions, h.handled.background (.wake _ now)⟩
  | flush flushed =>
      cases hstep
      exact ⟨h.sessions, h.handled.background (.flush _ flushed)⟩
  | expire now =>
      cases hstep
      exact ⟨h.sessions, h.handled.background (.expire _ now)⟩

/-- **What every run keeps.** -/
theorem Reached.sound {threadCount maxQueueSize : Nat} {first : System} {state : BrokerServer}
    (h : Reached queue threadCount maxQueueSize first state) : Sound queue first state :=
  Steps.Reaches.keeps (fun hkept hstep => hkept.step hstep) h ⟨.create _ _, .refl⟩

/-- **Requests are executed in order.** As long as a connection has read no malformed frame, the requests that were
handled for it are the first ones it has received, in order and each once, and the frames it has appended are the
responses to them: all but perhaps the last one, or all of them and the refusal of the next request. -/
theorem executed_in_order {threadCount maxQueueSize : Nat} {first : System} {state : BrokerServer}
    (h : Reached queue threadCount maxQueueSize first state) {id : Nat} {connection : TcpConnection}
    (hconnection : state.net.connections id = some connection) {received : List RequestEnvelope} {total : Nat}
    (hinput : Clean (frames maxFrameBytes) connection.input received total) :
    Handled queue first state.served state.system ∧
      (executed queue state.served id).map Prod.fst <+: received ∧
      (connection.appended <+: (executed queue state.served id).map Prod.snd ∧
          (executed queue state.served id).length ≤ connection.appended.length + 1 ∨
        ∃ request, (executed queue state.served id).map Prod.fst ++ [request] <+: received ∧
          connection.appended = (executed queue state.served id).map Prod.snd ++ [refusal request]) := by
  have hsound := h.sound
  have hsession := hsound.sessions.sessions id connection hconnection
  obtain ⟨refused, hrefused, hordered⟩ := hsession.ordered
  obtain ⟨-, hreceived, hframes⟩ := hordered received total hinput
  refine ⟨hsound.handled, hreceived ▸ List.prefix_append _ _, ?_⟩
  cases refused with
  | none =>
      have hlength := hsession.length_le
      rw [Option.toList_none, List.map_nil, List.append_nil] at hframes
      refine .inl ⟨⟨_, hframes⟩, ?_⟩
      have hcount := congrArg List.length hframes
      rw [List.length_append, List.length_map] at hcount
      omega
  | some request =>
      have hidle := hsession.busy
      rw [(hrefused (by simp)).2, if_neg Bool.false_ne_true] at hidle
      have hnone : submitted state.net id = [] := List.length_eq_zero_iff.mp (by omega)
      have hnoAnswer : answers state.net id = [] := List.length_eq_zero_iff.mp (by omega)
      rw [hnoAnswer, List.append_nil] at hframes
      refine .inr ⟨request, ⟨connection.requests, ?_⟩, hframes⟩
      rw [hreceived, hnone]
      simp

/-- Two requests come stuck together; the first one has been answered, and a worker has the second one. -/
def twoRequests : List BrokerServerEvent :=
  [.net (.accept 0), .net (.read 0 [.bytes (sampleHeartbeat.frame ++ sampleProduce.frame), .again]), .net .take,
    .serve 0 {}, .net (.call 0), .net .take]

/-- The frames of requests are clean. -/
theorem clean_frames {requests : List RequestEnvelope} (htyped : ∀ request ∈ requests, request.body.Typed)
    (hencode : ∀ request ∈ requests, encodeRequest request = .ok request.frame) :
    Clean (frames maxFrameBytes) (requests.map RequestEnvelope.frame).flatten (requests.map RequestEnvelope.received)
      (requests.map RequestEnvelope.frame).flatten.length := by
  have hsplits := splits_encoded htyped (List.forall₂_map_right_iff.mpr (List.forall₂_same.mpr hencode)) []
  rw [List.append_nil] at hsplits
  refine ⟨hsplits, ?_⟩
  rw [List.drop_length]
  rfl

theorem executed_in_order_twoRequests :
    ∃ state connection, Steps.run (step .inOrder) (start 1 1 ⟨.fresh {} 1, true⟩) twoRequests = some state ∧
      state.net.connections 0 = some connection ∧ connection.appended.map frameRequestId = [9] ∧
      (executed .inOrder state.served 0).map Prod.fst <+: [sampleHeartbeat.received, sampleProduce.received] := by
  obtain ⟨state, hrun⟩ := Option.isSome_iff_exists.mp
    (by decide +kernel :
      (Steps.run (step .inOrder) (start 1 1 ⟨.fresh {} 1, true⟩) twoRequests).isSome = true)
  have hevaluated : (Steps.run (step .inOrder) (start 1 1 ⟨.fresh {} 1, true⟩) twoRequests).bind (fun state =>
      (state.net.connections 0).map fun connection => (connection.input, connection.appended.map frameRequestId)) =
      some (sampleHeartbeat.frame ++ sampleProduce.frame, [9]) := by decide +kernel
  rw [hrun, Option.bind_some] at hevaluated
  obtain ⟨connection, hconnection, hpair⟩ := Option.map_eq_some_iff.mp hevaluated
  obtain ⟨hinput, happended⟩ := Prod.mk.inj hpair
  have htyped : ∀ request ∈ [sampleHeartbeat, sampleProduce], request.body.Typed := by decide
  have hencode : ∀ request ∈ [sampleHeartbeat, sampleProduce], encodeRequest request = .ok request.frame := by decide +kernel
  have hclean := clean_frames htyped hencode
  rw [List.map_cons, List.map_singleton, List.flatten_cons, List.flatten_singleton, ← hinput] at hclean
  obtain ⟨-, hbegins, -⟩ := @executed_in_order .inOrder 1 1 _ _ ⟨twoRequests, hrun⟩ 0 connection hconnection _ _ hclean
  exact ⟨state, connection, hrun, hconnection, happended, hbegins⟩

end BrokerServer

end LogMq
