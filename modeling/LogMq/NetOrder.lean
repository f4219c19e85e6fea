import LogMq.BrokerRuns
import LogMq.NetServer

/-! The order of responses. A connection has at most one request in progress, and the responses it has appended, the
request in progress and the waiting requests are together the requests it has received, in order. Every callback
keeps this, whatever the workers and the other connections do in between. -/

namespace LogMq

open ChunkedParser

/-- What all callbacks of a connection keep, given the ids of its requests in progress. What has been read counts as
long as it contains no malformed frame. -/
structure TcpConnection.Keeps (connection : TcpConnection) (inProgress : List UInt64) : Prop where
  busy : inProgress.length = if connection.processing = true then 1 else 0
  sent : connection.written ++ connection.output = connection.appended.flatten
  ordered : ∀ requests total, Clean (frames maxFrameBytes) connection.input requests total →
    connection.decoder = ⟨maxFrameBytes, connection.input.drop total⟩ ∧
      requests.map RequestEnvelope.requestId = connection.appended.map frameRequestId ++
        (inProgress ++ connection.requests.map RequestEnvelope.requestId)

namespace TcpConnection.Keeps

variable {connection : TcpConnection} {inProgress : List UInt64}

theorem accepted : Keeps {} [] where
  busy := rfl
  sent := rfl
  ordered requests total h := by
    obtain ⟨rfl, rfl⟩ := h.splits.eq_nil (frames_front_nil _)
    exact ⟨fresh_eq, rfl⟩

theorem length_le (h : connection.Keeps inProgress) : inProgress.length ≤ 1 := by
  rw [h.busy]
  split <;> omega

/-- Their order does not matter, since there is at most one. -/
theorem perm {other : List UInt64} (h : connection.Keeps inProgress) (hperm : other.Perm inProgress) :
    connection.Keeps other := by
  have hlength := h.length_le
  have hsame : other = inProgress := by
    match inProgress, hlength with
    | [], _ => exact hperm.eq_nil
    | [id], _ => exact hperm.eq_singleton
  rw [hsame]
  exact h

theorem handleClose (h : connection.Keeps inProgress) : connection.handleClose.Keeps inProgress :=
  ⟨h.busy, h.sent, h.ordered⟩

theorem handleWrite (h : connection.Keeps inProgress) (count : Nat) (failed : Bool) :
    (connection.handleWrite count failed).Keeps inProgress := by
  unfold TcpConnection.handleWrite
  by_cases hopen : connection.isOpen = false
  · rw [if_pos hopen]
    exact h
  · have hflushed : TcpConnection.Keeps { connection with
        output := connection.output.drop count, written := connection.written ++ connection.output.take count }
        inProgress := by
      refine ⟨h.busy, ?_, h.ordered⟩
      show connection.written ++ connection.output.take count ++ connection.output.drop count = _
      rw [List.append_assoc, List.take_append_drop]
      exact h.sent
    rw [if_neg hopen]
    simp only
    split_ifs
    · exact hflushed.handleClose
    · exact hflushed.handleClose
    · exact hflushed

theorem runShutdown (h : connection.Keeps inProgress) : connection.runShutdown.Keeps inProgress := by
  have hclosing : TcpConnection.Keeps { connection with closing := true } inProgress := ⟨h.busy, h.sent, h.ordered⟩
  unfold TcpConnection.runShutdown
  simp only
  split_ifs
  · exact hclosing.handleClose
  · exact hclosing

/-- The response of the request in progress. -/
theorem answer {frame : Bytes} (h : connection.Keeps [frameRequestId frame]) :
    ({ connection with processing := false }.append frame).Keeps [] := by
  refine ⟨rfl, ?_, fun requests total hclean => ?_⟩
  · show connection.written ++ (connection.output ++ frame) = (connection.appended ++ [frame]).flatten
    rw [← List.append_assoc, h.sent, List.flatten_append, List.flatten_singleton]
  · obtain ⟨hdecoder, hrequests⟩ := h.ordered requests total hclean
    refine ⟨hdecoder, ?_⟩
    show _ = (connection.appended ++ [frame]).map frameRequestId ++ _
    rw [hrequests, List.map_append, List.append_assoc]
    rfl

/-- What `SubmitNext` does: nothing, an answer to a rejected request, or a new request in progress. -/
theorem submitNext {id : Nat} {pool : WorkerPool} (h : connection.Keeps inProgress) :
    (∃ after, TcpConnection.submitNext id pool connection = (pool, after) ∧ after.Keeps inProgress) ∨
      ∃ request after pool', pool.submit ⟨id, request⟩ = some pool' ∧ inProgress = [] ∧
        TcpConnection.submitNext id pool connection = (pool', after) ∧ after.Keeps [request.requestId] := by
  unfold TcpConnection.submitNext
  by_cases hidle : connection.processing = true ∨ connection.closing = true
  · rw [if_pos hidle]
    exact .inl ⟨connection, rfl, h⟩
  · rw [if_neg hidle]
    obtain ⟨hprocessing, -⟩ := not_or.mp hidle
    have hnone : inProgress = [] := by
      have hbusy := h.busy
      rw [if_neg hprocessing] at hbusy
      exact List.length_eq_zero_iff.mp hbusy
    subst hnone
    cases hrequests : connection.requests with
    | nil => exact .inl ⟨connection, rfl, h⟩
    | cons request rest =>
        -- the first waiting request goes to the workers
        have htaken : TcpConnection.Keeps { connection with processing := true, requests := rest }
            [request.requestId] := by
          refine ⟨rfl, h.sent, fun requests total hclean => ?_⟩
          obtain ⟨hdecoder, hall⟩ := h.ordered requests total hclean
          refine ⟨hdecoder, ?_⟩
          rw [hall, hrequests]
          rfl
        cases hsubmit : pool.submit ⟨id, request⟩ with
        | some pool' =>
            simp only [hsubmit]
            exact .inr ⟨request, _, pool', hsubmit, trivial, rfl, htaken⟩
        | none =>
            obtain ⟨frame, hframe, hid, -⟩ := @encodeErrorResponse_ok request.apiKey protocolVersion
              request.requestId .internal (text "worker queue is full") (.inl rfl)
              (by decide +kernel : (text "worker queue is full").length ≤ 100)
            rw [← hid] at htaken
            have hanswered := htaken.answer
            simp only [hsubmit, hframe, TcpConnection.appendEncoded]
            refine .inl ⟨_, rfl, ⟨?_, hanswered.sent, hanswered.ordered⟩⟩
            show 0 = if connection.processing = true then 1 else 0
            rw [if_neg hprocessing]

theorem queueErrorAndClose {code : ProtocolErrorCode} {message : Bytes} (h : connection.Keeps inProgress)
    (hmalformed : ∀ requests total, ¬ Clean (frames maxFrameBytes) connection.input requests total) :
    (connection.queueErrorAndClose code message).Keeps inProgress := by
  unfold TcpConnection.queueErrorAndClose TcpConnection.appendEncoded
  cases encodeErrorResponse .produce protocolVersion 0 code message with
  | error status => exact ⟨h.busy, h.sent, fun requests total hclean => absurd hclean (hmalformed requests total)⟩
  | ok frame =>
      refine ⟨h.busy, ?_, fun requests total hclean => absurd hclean (hmalformed requests total)⟩
      show connection.written ++ (connection.output ++ frame) = (connection.appended ++ [frame]).flatten
      rw [← List.append_assoc, h.sent, List.flatten_append, List.flatten_singleton]

/-- A chunk behind an input without malformed frames. -/
theorem push_eq (h : connection.Keeps inProgress) {chunk : Bytes} {requests : List RequestEnvelope} {total : Nat}
    (hclean : Clean (frames maxFrameBytes) (connection.input ++ chunk) requests total) :
    ∃ new, connection.decoder.push chunk = (.ok new, ⟨maxFrameBytes, (connection.input ++ chunk).drop total⟩) ∧
      requests.map RequestEnvelope.requestId = connection.appended.map frameRequestId ++
        (inProgress ++ (connection.requests ++ new).map RequestEnvelope.requestId) := by
  obtain ⟨before, used, hbefore⟩ := hclean.beginning
  obtain ⟨hdecoder, hids⟩ := h.ordered before used hbefore
  obtain ⟨new, rfl, hpush⟩ := hbefore.push hclean
  refine ⟨new, ?_, ?_⟩
  · rw [hdecoder, FrameDecoder.push_eq, hpush]
  · rw [List.map_append, hids, List.map_append]
    simp only [List.append_assoc]

theorem readLoop {results : List ReadResult} (h : connection.Keeps inProgress) :
    (connection.readLoop results).1.Keeps inProgress := by
  induction results generalizing connection with
  | nil => exact h
  | cons result rest ih =>
      cases result with
      | again => exact h
      | interrupted => exact ih h
      | failed => exact h.handleClose
      | eof => exact h.handleClose
      | bytes chunk =>
          rw [TcpConnection.readLoop]
          rcases hpush : connection.decoder.push chunk with ⟨status | new, decoder⟩
          · refine queueErrorAndClose ⟨h.busy, h.sent, ?_⟩ ?_
            all_goals
              intro requests total hclean
              obtain ⟨new, hok, -⟩ := h.push_eq hclean
              cases hpush.symm.trans hok
          · refine ih ⟨h.busy, h.sent, fun requests total hclean => ?_⟩
            obtain ⟨others, hok, hids⟩ := h.push_eq hclean
            cases hpush.symm.trans hok
            exact ⟨rfl, hids⟩

end TcpConnection.Keeps

/-! ### The bytes of a worker -/

theorem makeResponse_requestId {α : Type} (envelope : RequestEnvelope) (wrap : α → ResponseBody) (reply : Reply α) :
    (makeResponse envelope wrap reply).requestId = envelope.requestId := by
  rcases reply with ⟨code, message⟩ | value
  · rfl
  · rfl

/-- The broker answers under the id of the request. -/
theorem BrokerService.handle_requestId (queue : TaskQueue) (environment : Environment) (broker : BrokerService)
    (envelope : RequestEnvelope) : (broker.handle queue environment envelope).1.requestId = envelope.requestId := by
  unfold BrokerService.handle
  by_cases hversion : SupportedVersion envelope.version
  · rw [if_neg (not_not.mpr hversion)]
    by_cases hkey : envelope.apiKey = envelope.body.apiKey
    · rw [if_neg (not_not.mpr hkey)]
      unfold BrokerService.handleBody
      cases envelope.body <;> exact makeResponse_requestId _ _ _
    · rw [if_pos hkey]
      rfl
  · rw [if_pos hversion]
    rfl

/-- A worker always sends a response, and under the id of its request. -/
theorem workerBytes_requestId (queue : TaskQueue) (broker : BrokerService) (environment : Environment)
    (request : RequestEnvelope) : frameRequestId (workerBytes queue broker environment request) = request.requestId ∧
      workerBytes queue broker environment request ≠ [] := by
  unfold workerBytes
  cases hencode : encodeResponse (broker.handle queue environment request).1 with
  | ok bytes =>
      obtain ⟨hid, hsome⟩ := frameRequestId_encodeResponse hencode
      rw [BrokerService.handle_requestId] at hid
      exact ⟨hid, hsome⟩
  | error status =>
      obtain ⟨frame, hframe, hid, hsome⟩ := @encodeErrorResponse_ok request.apiKey protocolVersion
        request.requestId .internal (text status.message) (.inl rfl)
        (encodeResponse_failsShortly _ status hencode)
      simp only [hframe]
      exact ⟨hid, hsome⟩

/-! ### The server -/

namespace TcpServer

variable {server server' : TcpServer}

theorem inProgress_perm (h : server'.pending.Perm server.pending) (id : Nat) :
    (server'.inProgress id).Perm (server.inProgress id) :=
  (h.filter _).map _

/-- One request of a connection more in progress. -/
theorem inProgress_cons {id : Nat} {requestId : UInt64} (h : server'.pending.Perm ((id, requestId) :: server.pending)) :
    (server'.inProgress id).Perm (requestId :: server.inProgress id) ∧
      ∀ other, other ≠ id → (server'.inProgress other).Perm (server.inProgress other) := by
  constructor
  · have hperm := (h.filter fun request => request.1 = id).map Prod.snd
    rw [List.filter_cons_of_pos (by simp), List.map_cons] at hperm
    exact hperm
  · intro other hother
    have hperm := (h.filter fun request => request.1 = other).map Prod.snd
    rw [List.filter_cons_of_neg (by simpa using hother.symm)] at hperm
    exact hperm

/-- The invariant of the server. -/
structure Sound (server : TcpServer) : Prop where
  unused : ∀ id, server.connections id = none → server.inProgress id = []
  keeps : ∀ id connection, server.connections id = some connection → connection.Keeps (server.inProgress id)
  responses : ∀ id bytes, (id, QueuedCall.onResponse bytes) ∈ server.queued → bytes ≠ []

namespace Sound

theorem create (threadCount maxQueueSize : Nat) : Sound (TcpServer.create threadCount maxQueueSize) where
  unused _ _ := rfl
  keeps id connection h := by cases h
  responses id bytes h := by cases h

/-- A step that leaves the connections and what is in progress alone. -/
theorem same (h : server.Sound) (hconnections : server'.connections = server.connections)
    (hpending : server'.pending.Perm server.pending)
    (hresponses : ∀ id bytes, (id, QueuedCall.onResponse bytes) ∈ server'.queued → bytes ≠ []) : server'.Sound where
  unused id hid := by
    have hperm := inProgress_perm hpending id
    rw [h.unused id (by rw [← hconnections]; exact hid)] at hperm
    exact hperm.eq_nil
  keeps id connection hid := by
    rw [hconnections] at hid
    exact (h.keeps id connection hid).perm (inProgress_perm hpending id)
  responses := hresponses

/-- A step that changes one connection and what it has in progress. -/
theorem update (h : server.Sound) {id : Nat} {connection : TcpConnection}
    (hconnections : server'.connections = Function.update server.connections id (some connection))
    (hkeeps : connection.Keeps (server'.inProgress id))
    (hothers : ∀ other, other ≠ id → (server'.inProgress other).Perm (server.inProgress other))
    (hresponses : ∀ other bytes, (other, QueuedCall.onResponse bytes) ∈ server'.queued → bytes ≠ []) :
    server'.Sound where
  unused other hother := by
    by_cases hsame : other = id
    · rw [hconnections, hsame, Function.update_self] at hother
      cases hother
    · rw [hconnections, Function.update_of_ne hsame] at hother
      have hperm := hothers other hsame
      rw [h.unused other hother] at hperm
      exact hperm.eq_nil
  keeps other found hother := by
    by_cases hsame : other = id
    · rw [hconnections, hsame, Function.update_self] at hother
      cases hother
      rw [hsame]
      exact hkeeps
    · rw [hconnections, Function.update_of_ne hsame] at hother
      exact (h.keeps other found hother).perm (hothers other hsame)
  responses := hresponses

/-- A step that changes one connection only. -/
theorem setConnection (h : server.Sound) {id : Nat} {connection : TcpConnection}
    (hkeeps : connection.Keeps (server.inProgress id)) : (server.setConnection id connection).Sound :=
  h.update rfl hkeeps (fun _ _ => .refl _) h.responses

theorem pending_submit {pool : WorkerPool} {task : WorkerTask} (hsubmit : server.workers.submit task = some pool) :
    ({ server with workers := pool }.pending).Perm (asked task :: server.pending) := by
  unfold WorkerPool.submit at hsubmit
  split at hsubmit
  · cases hsubmit
  · cases hsubmit
    show ((server.workers.tasks ++ [task]).map asked ++ _).Perm _
    rw [List.map_append, List.append_assoc]
    exact List.perm_middle

/-- A callback that ends in `SubmitNext`. -/
theorem submitNext (h : server.Sound) {id : Nat} {connection : TcpConnection}
    (hkeeps : connection.Keeps (server.inProgress id)) :
    (server.afterCallback id (TcpConnection.submitNext id server.workers connection)).Sound := by
  rcases @TcpConnection.Keeps.submitNext _ _ id server.workers hkeeps with
    ⟨after, hsame, hafter⟩ | ⟨request, after, pool, hsubmit, hnone, hnext, hafter⟩
  · rw [hsame]
    exact h.setConnection hafter
  · rw [hnext]
    obtain ⟨hmine, hothers⟩ := inProgress_cons (pending_submit hsubmit)
    rw [hnone] at hmine
    exact h.update rfl (hafter.perm hmine) hothers h.responses

/-- Taking the entry at a position out of a list. -/
theorem perm_eraseIdx {α : Type} {items : List α} {position : Nat} {item : α} (h : items[position]? = some item) :
    items.Perm (item :: items.eraseIdx position) := by
  obtain ⟨hlt, rfl⟩ := List.getElem?_eq_some_iff.mp h
  exact (List.getElem_cons_eraseIdx_perm hlt).symm

theorem take (h : server.Sound) {pool : WorkerPool} (htake : server.workers.take = some pool) :
    ({ server with workers := pool } : TcpServer).Sound := by
  refine h.same rfl ?_ h.responses
  unfold WorkerPool.take at htake
  split at htake
  · cases htake
  case h_2 task rest htasks =>
    split at htake
    · cases htake
      show (rest.map asked ++ ((server.workers.running ++ [task]).map asked ++ _)).Perm
        (server.workers.tasks.map asked ++ (server.workers.running.map asked ++ _))
      simp only [htasks, List.map_append, List.map_cons, List.map_nil, List.append_assoc, List.cons_append]
      rw [← List.append_assoc, ← List.append_assoc (rest.map asked)]
      exact List.perm_middle
    · cases htake

/-- A worker sends its response. -/
theorem finish (h : server.Sound) {position : Nat} {task : WorkerTask} {bytes : Bytes}
    (htask : server.workers.running[position]? = some task) (hid : frameRequestId bytes = task.request.requestId)
    (hbytes : bytes ≠ []) :
    Sound { server with
      workers := { server.workers with running := server.workers.running.eraseIdx position }
      queued := server.queued ++ [(task.connection, .onResponse bytes)] } := by
  refine h.same rfl ?_ ?_
  · show (server.workers.tasks.map asked ++ ((server.workers.running.eraseIdx position).map asked ++
      (server.queued ++ [(task.connection, QueuedCall.onResponse bytes)]).filterMap answers)).Perm
        (server.workers.tasks.map asked ++ (server.workers.running.map asked ++ server.queued.filterMap answers))
    have hrunning := (perm_eraseIdx htask).map asked
    have hanswer : [(task.connection, QueuedCall.onResponse bytes)].filterMap answers = [asked task] := by
      rw [asked, ← hid]
      rfl
    rw [List.filterMap_append, hanswer]
    apply List.Perm.append_left
    calc (server.workers.running.eraseIdx position).map asked ++ (server.queued.filterMap answers ++ [asked task])
        = ((server.workers.running.eraseIdx position).map asked ++ server.queued.filterMap answers) ++ [asked task] :=
          (List.append_assoc _ _ _).symm
      _ |>.Perm ([asked task] ++ ((server.workers.running.eraseIdx position).map asked ++
            server.queued.filterMap answers)) := List.perm_append_comm
      _ |>.Perm (server.workers.running.map asked ++ server.queued.filterMap answers) :=
          (hrunning.symm.append_right _)
  · intro id other hother
    rcases List.mem_append.mp hother with hold | hnew
    · exact h.responses id other hold
    · cases List.mem_singleton.mp hnew
      exact hbytes

theorem afterCallback_setConnection (server : TcpServer) (id : Nat) (connection : TcpConnection)
    (after : WorkerPool × TcpConnection) :
    (server.setConnection id connection).afterCallback id after = server.afterCallback id after := by
  unfold afterCallback TcpServer.setConnection
  simp only [Function.update_idem]

/-- The loop runs `OnResponse`. -/
theorem onResponse (h : server.Sound) {position id : Nat} {connection : TcpConnection} {bytes : Bytes}
    (hcall : server.queued[position]? = some (id, .onResponse bytes))
    (hconnection : server.connections id = some connection) :
    ({ server with queued := server.queued.eraseIdx position }.afterCallback id
      (connection.onResponse id server.workers bytes)).Sound := by
  have hpending : server.pending.Perm
      ((id, frameRequestId bytes) :: { server with queued := server.queued.eraseIdx position }.pending) := by
    show (server.workers.tasks.map asked ++ (server.workers.running.map asked ++
      server.queued.filterMap answers)).Perm (_ :: (server.workers.tasks.map asked ++
        (server.workers.running.map asked ++ (server.queued.eraseIdx position).filterMap answers)))
    have hqueued := (perm_eraseIdx hcall).filterMap answers
    rw [List.filterMap_cons_some (show answers (id, .onResponse bytes) = some (id, frameRequestId bytes) from rfl)]
      at hqueued
    rw [← List.append_assoc, ← List.append_assoc]
    exact (hqueued.append_left _).trans List.perm_middle
  obtain ⟨hmine, hothers⟩ := inProgress_cons hpending
  have hkeeps := (h.keeps id connection hconnection).perm hmine.symm
  have hlength := hkeeps.length_le
  rw [List.length_cons] at hlength
  have hnone : TcpServer.inProgress { server with queued := server.queued.eraseIdx position } id = [] :=
    List.length_eq_zero_iff.mp (by omega)
  rw [hnone] at hkeeps
  have hbytes := h.responses id bytes (List.mem_of_getElem? hcall)
  have hanswered : TcpServer.Sound ({ server with queued := server.queued.eraseIdx position }.setConnection id
      ({ connection with processing := false }.append bytes)) := by
    refine h.update rfl ?_ (fun other hother => (hothers other hother).symm) ?_
    · show TcpConnection.Keeps _ (TcpServer.inProgress { server with queued := server.queued.eraseIdx position } id)
      rw [hnone]
      exact hkeeps.answer
    · intro other found hfound
      exact h.responses other found (List.mem_of_mem_eraseIdx hfound)
  simp only [TcpConnection.onResponse, if_neg hbytes]
  rw [← afterCallback_setConnection _ id ({ connection with processing := false }.append bytes)]
  exact hanswered.submitNext (hanswered.keeps id _ (Function.update_self _ _ _))

/-- **What one step keeps.** -/
theorem step {queue : TaskQueue} {event : NetEvent} (h : server.Sound)
    (hstep : server.step queue event = some server') : server'.Sound := by
  cases event with
  | accept id =>
      rw [TcpServer.step] at hstep
      split at hstep
      case h_1 hnone =>
        cases hstep
        refine h.setConnection ?_
        rw [h.unused id hnone]
        exact .accepted
      case h_2 => cases hstep
  | read id results =>
      obtain ⟨connection, hconnection, hafter⟩ := Option.bind_eq_some_iff.mp hstep
      cases hafter
      have hkeeps := h.keeps id connection hconnection
      unfold TcpConnection.handleRead
      by_cases hopen : connection.isOpen = false
      · rw [if_pos hopen]
        exact h.setConnection hkeeps
      · rw [if_neg hopen]
        have hread := @TcpConnection.Keeps.readLoop _ _ results hkeeps
        rcases hloop : connection.readLoop results with ⟨after, reached⟩
        rw [hloop] at hread
        cases reached with
        | true => exact h.submitNext hread
        | false => exact h.setConnection hread
  | write id count failed =>
      obtain ⟨connection, hconnection, hafter⟩ := Option.bind_eq_some_iff.mp hstep
      cases hafter
      exact h.setConnection ((h.keeps id connection hconnection).handleWrite count failed)
  | close id =>
      obtain ⟨connection, hconnection, hafter⟩ := Option.bind_eq_some_iff.mp hstep
      cases hafter
      exact h.setConnection (h.keeps id connection hconnection).handleClose
  | take =>
      obtain ⟨pool, hpool, hafter⟩ := Option.bind_eq_some_iff.mp hstep
      cases hafter
      exact h.take hpool
  | finish position broker environment =>
      obtain ⟨task, htask, hafter⟩ := Option.bind_eq_some_iff.mp hstep
      cases hafter
      obtain ⟨hid, hbytes⟩ := workerBytes_requestId queue broker environment task.request
      exact h.finish htask hid hbytes
  | call position =>
      obtain ⟨⟨id, call⟩, hcall, hrest⟩ := Option.bind_eq_some_iff.mp hstep
      obtain ⟨connection, hconnection, hafter⟩ := Option.bind_eq_some_iff.mp hrest
      cases call with
      | onResponse bytes =>
          cases hafter
          exact h.onResponse hcall hconnection
      | shutdown =>
          cases hafter
          have hrest : TcpServer.Sound { server with queued := server.queued.eraseIdx position } := by
            refine h.same rfl ?_ fun other found hfound =>
              h.responses other found (List.mem_of_mem_eraseIdx hfound)
            have hqueued := (perm_eraseIdx hcall).filterMap answers
            rw [List.filterMap_cons_none (show answers (id, .shutdown) = none from rfl)] at hqueued
            exact (hqueued.symm.append_left _).append_left _
          exact hrest.setConnection (hrest.keeps id connection hconnection).runShutdown
  | shutdown id =>
      obtain ⟨connection, hconnection, hafter⟩ := Option.bind_eq_some_iff.mp hstep
      cases hafter
      refine h.same rfl ?_ ?_
      · show (_ ++ (_ ++ (server.queued ++ [(id, QueuedCall.shutdown)]).filterMap answers)).Perm _
        rw [List.filterMap_append]
        show (_ ++ (_ ++ (server.queued.filterMap answers ++ []))).Perm _
        rw [List.append_nil]
        exact .refl _
      · intro other found hfound
        rcases List.mem_append.mp hfound with hold | hnew
        · exact h.responses other found hold
        · cases List.mem_singleton.mp hnew
  | stop =>
      cases hstep
      exact h.same rfl (.refl _) h.responses

end Sound

/-- **What every run keeps.** -/
theorem Reachable.sound {queue : TaskQueue} {threadCount maxQueueSize : Nat}
    (h : Reachable queue threadCount maxQueueSize server) : server.Sound := by
  induction h with
  | start => exact .create _ _
  | step _ hstep ih => exact ih.step hstep

/-- **Responses in order.** A connection that has read no malformed frame has at most one request in progress, and
the responses it has appended carry the ids of its first requests, in order and each once. -/
theorem responses_in_order {queue : TaskQueue} {threadCount maxQueueSize : Nat}
    (h : Reachable queue threadCount maxQueueSize server) {id : Nat} {connection : TcpConnection}
    (hconnection : server.connections id = some connection) {received : List RequestEnvelope} {total : Nat}
    (hinput : Clean (frames maxFrameBytes) connection.input received total) :
    (server.inProgress id).length ≤ 1 ∧
      connection.appended.map frameRequestId <+: received.map RequestEnvelope.requestId ∧
      connection.written ++ connection.output = connection.appended.flatten := by
  have hkeeps := h.sound.keeps id connection hconnection
  refine ⟨hkeeps.length_le, ?_, hkeeps.sent⟩
  rw [(hkeeps.ordered received total hinput).2]
  exact List.prefix_append _ _

/-- Two requests come stuck together. The first one has been answered, and the second one waits in the queue. -/
def stuckTogether : List NetEvent :=
  [.accept 0, .read 0 [.bytes (sampleHeartbeat.frame ++ sampleProduce.frame), .again], .take,
    .finish 0 (.fresh {} 1) {}, .call 0]

theorem Reachable.foldlM {queue : TaskQueue} {threadCount maxQueueSize : Nat} {events : List NetEvent}
    (h : Reachable queue threadCount maxQueueSize server)
    (hrun : events.foldlM (TcpServer.step queue) server = some server') :
    Reachable queue threadCount maxQueueSize server' := by
  induction events generalizing server with
  | nil =>
      cases hrun
      exact h
  | cons event rest ih =>
      obtain ⟨middle, hstep, hrest⟩ := Option.bind_eq_some_iff.mp hrun
      exact ih (.step h hstep) hrest

theorem responses_in_order_stuckTogether :
    ∃ server connection, stuckTogether.foldlM (TcpServer.step .inOrder) (create 1 1) = some server ∧
      server.connections 0 = some connection ∧ connection.appended.map frameRequestId = [9] ∧
      (server.inProgress 0).length ≤ 1 ∧ connection.appended.map frameRequestId <+: [9, 7] := by
  obtain ⟨server, hrun⟩ := Option.isSome_iff_exists.mp
    (by decide +kernel : (stuckTogether.foldlM (TcpServer.step .inOrder) (create 1 1)).isSome = true)
  have hevaluated : (stuckTogether.foldlM (TcpServer.step .inOrder) (create 1 1)).bind (fun server =>
      (server.connections 0).map fun connection =>
        (connection.input, connection.appended.map frameRequestId)) =
      some (sampleHeartbeat.frame ++ sampleProduce.frame, [9]) := by decide +kernel
  rw [hrun, Option.bind_some] at hevaluated
  obtain ⟨connection, hconnection, hpair⟩ := Option.map_eq_some_iff.mp hevaluated
  obtain ⟨hinput, happended⟩ := Prod.mk.inj hpair
  obtain ⟨heartbeat, hheartbeat⟩ : ∃ frame, encodeRequest sampleHeartbeat = .ok frame := ⟨_, rfl⟩
  obtain ⟨produce, hproduce⟩ : ∃ frame, encodeRequest sampleProduce = .ok frame := ⟨_, rfl⟩
  have htyped : ∀ request ∈ [sampleHeartbeat, sampleProduce], request.body.Typed := by
    intro request hrequest
    rcases List.mem_pair.mp hrequest with rfl | rfl
    · exact show IsInt32 4 by decide
    · exact show IsInt32 (-1) by decide
  have hsplits := splits_encoded htyped (.cons hheartbeat (.cons hproduce .nil)) []
  rw [List.append_nil, (encodeRequest_ok.mp hheartbeat).2.2, (encodeRequest_ok.mp hproduce).2.2] at hsplits
  have hclean : Clean (frames maxFrameBytes) connection.input
      ([sampleHeartbeat, sampleProduce].map RequestEnvelope.received)
      [sampleHeartbeat.frame, sampleProduce.frame].flatten.length := by
    rw [hinput]
    refine ⟨hsplits, ?_⟩
    rw [List.drop_eq_nil_of_le (by simp)]
    rfl
  obtain ⟨hone, hids, -⟩ :=
    @responses_in_order _ .inOrder _ _ (Reachable.start.foldlM hrun) _ _ hconnection _ _ hclean
  exact ⟨server, connection, hrun, hconnection, happended, hone, hids⟩

end TcpServer

end LogMq
