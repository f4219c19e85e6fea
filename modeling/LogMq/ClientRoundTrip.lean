import LogMq.ClientConnection

/-! Round trips on one connection. Between two calls an open socket is settled: the server has answered all requests,
and the client has received all answers. A call that fails on the way leaves no socket behind, so that what a later call
receives is the answer to its own request, even where the ids of requests repeat. -/

namespace LogMq

open BigEndian

/-! ### Frames -/

theorem readFrameLength_step {value : UInt32} (byte : UInt8) (h : value.toNat < 2 ^ 24) :
    (value <<< 8 ||| byte.toUInt32).toNat = value.toNat * 256 + byte.toNat := by
  have hshift : (value <<< 8).toNat = value.toNat <<< 8 := by
    rw [UInt32.toNat_shiftLeft]
    apply Nat.mod_eq_of_lt
    show value.toNat <<< 8 < 2 ^ 32
    rw [Nat.shiftLeft_eq]
    omega
  rw [UInt32.toNat_or, hshift, UInt8.toNat_toUInt32, ← Nat.shiftLeft_add_eq_or_of_lt byte.toNat_lt, Nat.shiftLeft_eq]

theorem foldl_readFrameLength {bytes : Bytes} {value : UInt32} {read : Nat} (hread : read + bytes.length = 4)
    (hvalue : value.toNat < 256 ^ read) :
    (bytes.foldl (fun (value : UInt32) (byte : UInt8) => value <<< 8 ||| byte.toUInt32) value).toNat =
      value.toNat * 256 ^ bytes.length + beValue bytes := by
  induction bytes generalizing value read with
  | nil => exact (Nat.mul_one _).symm
  | cons byte rest ih =>
      rw [List.length_cons] at hread
      have hbound : 256 ^ read ≤ 256 ^ 3 := Nat.pow_le_pow_right (by decide) (by omega)
      have hstep := readFrameLength_step byte (lt_of_lt_of_le hvalue hbound)
      have hbyte := byte.toNat_lt
      have hnext : (value <<< 8 ||| byte.toUInt32).toNat < 256 ^ (read + 1) := by
        rw [hstep, pow_succ]
        omega
      rw [List.foldl_cons, ih (by omega) hnext, hstep, beValue_cons, List.length_cons, pow_succ]
      ring

/-- The length prefix is read as a number of four bytes. -/
theorem toNat_readFrameLength {header : Bytes} (h : header.length = 4) :
    (readFrameLength header).toNat = beValue header := by
  have hfold := @foldl_readFrameLength header 0 0 (by omega) (by decide)
  rw [readFrameLength, hfold, UInt32.toNat_zero, Nat.zero_mul, Nat.zero_add]

theorem isFrame_encodeRequest {request : RequestEnvelope} {frame : Bytes} (h : encodeRequest request = .ok frame) :
    IsFrame frame := by
  obtain ⟨⟨-, -, hfits⟩, -, hframe⟩ := encodeRequest_ok.mp h
  have hlength : frame.length = frameHeaderBytes + request.body.layout.length := by
    rw [hframe, RequestEnvelope.frame, frameBytes_length]
  refine ⟨by omega, ?_⟩
  rw [(field_frameBytes hframe).1, beValue_beBytes (lt_of_le_of_lt hfits (by decide)), hlength]

theorem IsFrame.nextFrame {frame : Bytes} (h : IsFrame frame) : nextFrame frame = some frame := by
  rw [LogMq.nextFrame, h.prefixed]
  simp only [h.header, le_refl, and_self, if_true, List.take_length]

/-- The server waits for the rest of a request. -/
theorem IsFrame.nextFrame_beginning {sent rest : Bytes} (h : IsFrame (sent ++ rest)) (hrest : rest ≠ []) :
    LogMq.nextFrame sent = none := by
  have hpos : 0 < rest.length := List.length_pos_iff.mpr hrest
  have hheader := h.header
  have hprefixed := h.prefixed
  rw [List.length_append] at hheader hprefixed
  unfold LogMq.nextFrame
  rw [if_neg]
  rintro ⟨hmin, hmax⟩
  by_cases hshort : sent.length < 4
  · have hfour : frameHeaderBytes = 16 := rfl
    omega
  · rw [List.take_append_of_le_length (by omega)] at hprefixed
    omega

/-! ### The server -/

namespace Socket

variable {socket : Socket}

theorem serve_of_none (h : nextFrame socket.toServer = none) (answers : List Bytes) : socket.serve answers = socket := by
  induction answers with
  | nil => rfl
  | cons first rest ih =>
      have hfirst : socket.answer first = socket := by
        unfold Socket.answer
        rw [h]
      rw [serve, List.foldl_cons, hfirst]
      exact ih

/-- **One request on its way.** The socket was settled before it. Either the server has not answered it, or what has
been received and what is on the way back are its answer. -/
inductive Awaiting (encoded : Bytes) (before : List (Bytes × Bytes)) : Bytes → Socket → Prop
  | unanswered : Awaiting encoded before [] ⟨encoded, [], before⟩
  | answered {answer received left : Bytes} (hanswer : IsAnswer encoded answer) (hsplit : received ++ left = answer) :
      Awaiting encoded before received ⟨[], left, before ++ [(encoded, answer)]⟩

variable {encoded received : Bytes} {before : List (Bytes × Bytes)}

theorem Awaiting.answer (h : Awaiting encoded before received socket) (hframe : IsFrame encoded) (answer : Bytes) :
    Awaiting encoded before received (socket.answer answer) := by
  cases h with
  | unanswered =>
      unfold Socket.answer
      rw [hframe.nextFrame]
      by_cases hanswer : IsAnswer encoded answer
      · simp only [if_pos hanswer, List.drop_length, List.nil_append]
        exact .answered hanswer rfl
      · simp only [if_neg hanswer]
        exact .unanswered
  | answered hanswer hsplit => exact .answered hanswer hsplit

theorem Awaiting.serve (h : Awaiting encoded before received socket) (hframe : IsFrame encoded)
    (answers : List Bytes) : Awaiting encoded before received (socket.serve answers) := by
  induction answers generalizing socket with
  | nil => exact h
  | cons first rest ih => exact ih (h.answer hframe first)

/-- Some of the answer is received. -/
theorem Awaiting.receive (h : Awaiting encoded before received socket) {count : Nat}
    (hsome : socket.toClient.take count ≠ []) :
    Awaiting encoded before (received ++ socket.toClient.take count)
      { socket with toClient := socket.toClient.drop (socket.toClient.take count).length } := by
  cases h with
  | unanswered => exact absurd List.take_nil hsome
  | @answered answer _ left hanswer hsplit =>
      refine .answered hanswer ?_
      dsimp only
      rw [List.length_take, List.append_assoc, ← hsplit]
      congr 1
      by_cases hcount : count ≤ left.length
      · rw [min_eq_left hcount, List.take_append_drop]
      · rw [min_eq_right (by omega), List.drop_length, List.append_nil, List.take_of_length_le (by omega)]

/-- Once all of the answer is received, the socket is settled. -/
theorem Awaiting.settled (h : Awaiting encoded before received socket) (hsome : received ≠ []) :
    ∃ answer, IsAnswer encoded answer ∧ received <+: answer ∧ socket.answered = before ++ [(encoded, answer)] ∧
      (received.length = answer.length → received = answer ∧ socket.Settled) := by
  cases h with
  | unanswered => exact absurd rfl hsome
  | @answered answer _ left hanswer hsplit =>
      refine ⟨answer, hanswer, ⟨left, hsplit⟩, rfl, fun hlength => ?_⟩
      have hleft : left = [] := by
        rw [← hsplit, List.length_append] at hlength
        exact List.length_eq_zero_iff.mp (by omega)
      subst hleft
      rw [List.append_nil] at hsplit
      exact ⟨hsplit, rfl, rfl⟩

end Socket

/-! ### Sending and receiving -/

section Calls

variable {encoded : Bytes} {before : List (Bytes × Bytes)}

/-- Nothing is answered while a request is being sent. -/
theorem writeAll_ok {turns rest : List Turn} {sent left : Bytes} {after : Socket} (hframe : IsFrame (sent ++ left))
    (h : writeAll turns left ⟨sent, [], before⟩ = (.ok (), after, rest)) : after = ⟨sent ++ left, [], before⟩ := by
  induction turns generalizing sent left with
  | nil =>
      cases left with
      | nil =>
          cases h
          rw [List.append_nil]
      | cons byte left => cases h
  | cons turn turns ih =>
      cases left with
      | nil =>
          cases h
          rw [List.append_nil]
      | cons byte left =>
          rw [writeAll] at h
          have hserve := @Socket.serve_of_none ⟨sent, [], before⟩
            (hframe.nextFrame_beginning (List.cons_ne_nil _ _)) turn.answers
          simp only [hserve] at h
          split at h
          · exact ih hframe h
          · cases h
          · cases h
          · rename_i count _ _
            have hwhole : sent ++ (byte :: left).take count ++ (byte :: left).drop count = sent ++ byte :: left := by
              rw [List.append_assoc, List.take_append_drop]
            rw [ih (hwhole ▸ hframe) h, hwhole]

/-- What is received on the way is the beginning of the answer. -/
theorem readExact_ok {turns rest : List Turn} {size : Nat} {socket after : Socket} {received bytes : Bytes}
    (hframe : IsFrame encoded) (hawaiting : Socket.Awaiting encoded before received socket)
    (h : readExact turns size socket = (.ok bytes, after, rest)) :
    bytes.length = size ∧ Socket.Awaiting encoded before (received ++ bytes) after := by
  induction turns generalizing size socket received bytes with
  | nil =>
      cases size with
      | zero =>
          cases h
          rw [List.append_nil]
          exact ⟨rfl, hawaiting⟩
      | succ size => cases h
  | cons turn turns ih =>
      cases size with
      | zero =>
          cases h
          rw [List.append_nil]
          exact ⟨rfl, hawaiting⟩
      | succ size =>
          rw [readExact] at h
          have hserved := hawaiting.serve hframe turn.answers
          generalize socket.serve turn.answers = served at h hserved
          dsimp only at h
          split at h
          · exact ih hserved h
          · cases h
          · rename_i count _
            by_cases hnone : served.toClient.take (min count (size + 1)) = []
            · rw [if_pos hnone] at h
              cases h
            rw [if_neg hnone] at h
            have hreceived := hserved.receive hnone
            have hle : (served.toClient.take (min count (size + 1))).length ≤ size + 1 := by
              rw [List.length_take]
              omega
            split at h
            · cases h
            · rename_i more _ _ hmore
              cases h
              obtain ⟨hlength, hafter⟩ := ih hreceived hmore
              rw [List.append_assoc] at hafter
              refine ⟨?_, hafter⟩
              rw [List.length_append, hlength]
              omega

end Calls

/-! ### Round trips -/

namespace ClientConnection

variable {connection after : ClientConnection} {exchange : Exchange}

/-- The requests and answers of the open socket. -/
def history (connection : ClientConnection) : List (Bytes × Bytes) :=
  (connection.socket.map Socket.answered).getD []

/-- An open socket is settled. -/
def Settled (connection : ClientConnection) : Prop := ∀ socket ∈ connection.socket, socket.Settled

theorem settled_disconnect (connection : ClientConnection) : connection.disconnect.Settled := fun _ h => nomatch h

theorem Settled.openSocket {connecting : ConnectOutcome} {socket : Socket} (h : connection.Settled)
    (hopen : connection.openSocket connecting = .ok socket) : socket = ⟨[], [], connection.history⟩ := by
  unfold ClientConnection.openSocket at hopen
  unfold history
  cases hsocket : connection.socket with
  | some found =>
      rw [hsocket] at hopen
      cases hopen
      obtain ⟨hserver, hclient⟩ := h socket hsocket
      cases socket
      cases hserver
      cases hclient
      rfl
  | none =>
      rw [hsocket] at hopen
      cases connecting with
      | connected =>
          cases hopen
          rfl
      | _ => cases hopen

/-- A call that fails has not encoded its request, or leaves no socket behind. -/
theorem roundTrip_error {status : Status} (h : connection.roundTrip exchange = (.error status, after)) :
    encodeRequest exchange.request = .error status ∧ after = connection ∨ after = connection.disconnect := by
  unfold roundTrip at h
  split at h
  · rename_i hencode
    obtain ⟨hstatus, hafter⟩ := Prod.mk.inj h
    exact .inl ⟨hencode.trans (congrArg Except.error (Except.error.inj hstatus)), hafter.symm⟩
  apply Or.inr
  split at h
  · rename_i hopen
    -- a socket that is open is not opened again
    rw [← (Prod.mk.inj h).2]
    obtain ⟨socket⟩ := connection
    cases socket with
    | none => rfl
    | some socket => cases hopen
  split at h
  · exact (Prod.mk.inj h).2.symm
  split at h
  · exact (Prod.mk.inj h).2.symm
  dsimp only at h
  split at h
  · exact (Prod.mk.inj h).2.symm
  split at h
  · exact (Prod.mk.inj h).2.symm
  split at h
  · exact (Prod.mk.inj h).2.symm
  split at h
  · exact (Prod.mk.inj h).2.symm
  · cases h

/-- **A call that succeeds on a settled socket** returns the answer to its own request, and leaves the socket settled. -/
theorem Settled.roundTrip_ok {response : ResponseEnvelope} (hsettled : connection.Settled)
    (h : connection.roundTrip exchange = (.ok response, after)) :
    after.Settled ∧ ∃ encoded answer, encodeRequest exchange.request = .ok encoded ∧ IsAnswer encoded answer ∧
      decodeResponse answer = .ok response ∧ after.history = connection.history ++ [(encoded, answer)] := by
  unfold roundTrip at h
  split at h
  · cases h
  rename_i encoded hencode
  have hframe := isFrame_encodeRequest hencode
  split at h
  · cases h
  rename_i socket hopen
  rw [hsettled.openSocket hopen] at h
  split at h
  · cases h
  rename_i sent turns hwrite
  obtain rfl := @writeAll_ok _ _ _ [] _ _ hframe hwrite
  rw [List.nil_append] at h
  split at h
  · cases h
  rename_i header reading turns hheader
  obtain ⟨hfour, hawaiting⟩ := readExact_ok hframe .unanswered hheader
  rw [List.nil_append] at hawaiting
  dsimp only at h
  split at h
  · cases h
  split at h
  · cases h
  rename_i body received turns hbody
  obtain ⟨hrest, hreceived⟩ := readExact_ok hframe hawaiting hbody
  have hsome : header ++ body ≠ [] := by
    intro hnil
    rw [(List.append_eq_nil_iff.mp hnil).1] at hfour
    cases hfour
  obtain ⟨answer, hanswer, hbeginning, hanswered, hwhole⟩ := hreceived.settled hsome
  -- the length prefix is that of the answer
  have hlength : (readFrameLength header).toNat = answer.length := by
    have htake : answer.take 4 = header := by
      rw [← hfour]
      exact (List.prefix_iff_eq_take.mp ((List.prefix_append header body).trans hbeginning)).symm
    rw [toNat_readFrameLength hfour, ← htake, hanswer.prefixed]
  have hfits : 4 ≤ answer.length := le_trans (by decide) hanswer.header
  obtain ⟨hall, hend⟩ := hwhole (by rw [List.length_append]; omega)
  rw [hall] at h
  split at h
  · cases h
  rename_i decoded hdecode
  split at h
  · cases h
  obtain ⟨hresponse, hafter⟩ := Prod.mk.inj h
  cases hresponse
  subst hafter
  refine ⟨fun other hother => ?_, encoded, answer, hencode, hanswer, hdecode, ?_⟩
  · cases hother
    exact hend
  · rw [← hanswered]
    rfl

theorem Settled.roundTrip (h : connection.Settled) (exchange : Exchange) : (connection.roundTrip exchange).2.Settled := by
  cases hresult : connection.roundTrip exchange with
  | mk result after =>
      cases result with
      | ok response => exact (h.roundTrip_ok hresult).1
      | error status =>
          rcases roundTrip_error hresult with ⟨-, heq⟩ | heq
          · rw [heq]
            exact h
          · rw [heq]
            exact settled_disconnect connection

theorem Settled.run (h : connection.Settled) (exchanges : List Exchange) : (connection.run exchanges).Settled := by
  induction exchanges generalizing connection with
  | nil => exact h
  | cons exchange rest ih => exact ih (h.roundTrip exchange)

/-- **No answer is taken for another.** Whatever the calls before it, a call that finds an open socket finds all its
requests answered and the answers received, and a call that succeeds returns what the server has answered to the
request of that call. -/
theorem roundTrip_answered (earlier : List Exchange) (exchange : Exchange) :
    (∀ socket ∈ (run {} earlier).socket, socket.Settled) ∧
      ∀ response, ((run {} earlier).roundTrip exchange).1 = .ok response → ∃ encoded answer,
        encodeRequest exchange.request = .ok encoded ∧ IsAnswer encoded answer ∧ decodeResponse answer = .ok response ∧
          ((run {} earlier).roundTrip exchange).2.history = (run {} earlier).history ++ [(encoded, answer)] := by
  have hsettled : (run {} earlier).Settled := @Settled.run {} (settled_disconnect {}) earlier
  refine ⟨hsettled, fun response hresponse => ?_⟩
  exact (hsettled.roundTrip_ok (Prod.ext hresponse rfl)).2

/-- A request that is made three times. -/
def probe : RequestEnvelope := ⟨.heartbeat, 2, 9, .heartbeat ⟨text "g", text "m", 4⟩⟩

/-- An answer to it. -/
def refusal (message : String) : ResponseEnvelope :=
  ⟨.heartbeat, 2, 9, ⟨.unknownMember, text message⟩, emptyResponseBodyFor .heartbeat⟩

def refusalFrame (message : String) : Bytes := ((encodeResponse (refusal message)).toOption).getD []

/-- It is sent in two parts, and the answer arrives in three. -/
def answeredProbe (message : String) : Exchange where
  request := probe
  turns := [⟨[], .ok 7⟩, ⟨[], .error .interrupted⟩, ⟨[], .ok 100⟩, ⟨[refusalFrame message], .ok 2⟩, ⟨[], .ok 2⟩,
    ⟨[], .ok 9⟩, ⟨[], .ok 100⟩]

/-- The answer arrives, but the rest of it is not read in time. -/
def abandonedProbe (message : String) : Exchange where
  request := probe
  turns := [⟨[], .ok 100⟩, ⟨[refusalFrame message], .ok 4⟩, ⟨[], .ok 3⟩, ⟨[], .error .timedOut⟩]

theorem roundTrip_answered_resent :
    let before := run {} [answeredProbe "first", abandonedProbe "second"]
    (before.roundTrip (answeredProbe "third")).1 = .ok (refusal "third") ∧ ∃ encoded answer,
      encodeRequest probe = .ok encoded ∧ IsAnswer encoded answer ∧ decodeResponse answer = .ok (refusal "third") ∧
        (before.roundTrip (answeredProbe "third")).2.history = before.history ++ [(encoded, answer)] := by
  have hok : ((run {} [answeredProbe "first", abandonedProbe "second"]).roundTrip (answeredProbe "third")).1 =
      .ok (refusal "third") := by
    apply Result.toOption_eq_some.mp
    decide +kernel
  exact ⟨hok, (roundTrip_answered [answeredProbe "first", abandonedProbe "second"] (answeredProbe "third")).2 _ hok⟩

end ClientConnection

end LogMq
