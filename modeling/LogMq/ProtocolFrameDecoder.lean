import LogMq.LibChunkedParser
import LogMq.ProtocolRequestLayout

/-! The frame decoder of a connection. It buffers what arrives, decodes the whole frames at the front of its buffer
and keeps the beginning of the next one. A push that meets a malformed frame returns an error and drops the
requests that the same push has already decoded; their bytes have left the buffer. -/

namespace LogMq

open BigEndian ChunkedParser

def peekFrameLength (data : Bytes) : Result Nat :=
  if data.length < 4 then throw (.invalidArgument "protocol frame length is incomplete")
  else readBigEndian 4 data 0

structure FrameDecoder where
  maxFrameBytes : Nat
  buffer : Bytes
  deriving DecidableEq

namespace FrameDecoder

/-- The constructor of the decoder: it accepts a header at least. -/
def create (limit : UInt32) : FrameDecoder := ⟨max limit.toNat frameHeaderBytes, []⟩

/-- A decoder with the default limit. -/
def fresh : FrameDecoder := create (UInt32.ofNat LogMq.maxFrameBytes)

def bufferedBytes (decoder : FrameDecoder) : Nat := decoder.buffer.length

def clear (decoder : FrameDecoder) : FrameDecoder := { decoder with buffer := [] }

/-- The loop of `Push`. Every round but the last takes a frame off the buffer, so `fuel` is never used up. -/
def pushLoop : Nat → FrameDecoder → List RequestEnvelope → Result (List RequestEnvelope) × FrameDecoder
  | 0, decoder, requests => (.ok requests, decoder)
  | fuel + 1, decoder, requests =>
      if decoder.buffer.length < 4 then (.ok requests, decoder)
      else
        match peekFrameLength decoder.buffer with
        | .error status => (.error status, decoder)
        | .ok frameLength =>
            if frameLength < frameHeaderBytes then
              (.error (.invalidArgument "protocol frame length is smaller than header"), decoder)
            else if frameLength > decoder.maxFrameBytes then
              (.error (.invalidArgument "protocol frame length exceeds max frame size"), decoder)
            else if decoder.buffer.length < frameLength then (.ok requests, decoder)
            else
              match decodeRequest (decoder.buffer.take frameLength) with
              | .error status => (.error status, decoder)
              | .ok request =>
                  pushLoop fuel { decoder with buffer := decoder.buffer.drop frameLength } (requests ++ [request])

def push (decoder : FrameDecoder) (data : Bytes) : Result (List RequestEnvelope) × FrameDecoder :=
  pushLoop ((decoder.buffer ++ data).length + 1) { decoder with buffer := decoder.buffer ++ data } []

/-- What a decoder has returned for each chunk, the error that stopped it, and the decoder itself. -/
structure Received where
  returned : List (List RequestEnvelope)
  verdict : Option Status
  decoder : FrameDecoder

/-- Chunks are pushed until the first error. -/
def receive : FrameDecoder → List Bytes → Received
  | decoder, [] => ⟨[], none, decoder⟩
  | decoder, chunk :: rest =>
      match decoder.push chunk with
      | (.error status, decoder) => ⟨[], some status, decoder⟩
      | (.ok requests, decoder) =>
          let received := decoder.receive rest
          ⟨requests :: received.returned, received.verdict, received.decoder⟩

end FrameDecoder

/-! ### The frame at the front of a buffer -/

/-- What the decoder finds at the front of its buffer. -/
def frameFront (limit : Nat) (buffer : Bytes) : Front Status RequestEnvelope :=
  if buffer.length < 4 then .more
  else if beValue (buffer.take 4) < frameHeaderBytes then
    .bad (.invalidArgument "protocol frame length is smaller than header")
  else if beValue (buffer.take 4) > limit then
    .bad (.invalidArgument "protocol frame length exceeds max frame size")
  else if buffer.length < beValue (buffer.take 4) then .more
  else
    match decodeRequest (buffer.take (beValue (buffer.take 4))) with
    | .error status => .bad status
    | .ok request => .item request (beValue (buffer.take 4))

theorem frameFront_item {limit size : Nat} {buffer : Bytes} {request : RequestEnvelope} :
    frameFront limit buffer = .item request size ↔
      frameHeaderBytes ≤ size ∧ size ≤ limit ∧ size ≤ buffer.length ∧ beValue (buffer.take 4) = size ∧
        decodeRequest (buffer.take size) = .ok request := by
  unfold frameFront
  constructor
  · intro h
    split_ifs at h with hlength hheader hlimit hframe
    cases hdecode : decodeRequest (buffer.take (beValue (buffer.take 4))) with
    | error status =>
        rw [hdecode] at h
        cases h
    | ok decoded =>
        rw [hdecode] at h
        cases h
        exact ⟨by omega, by omega, by omega, rfl, hdecode⟩
  · intro ⟨hheader, hlimit, hframe, hsize, hdecode⟩
    have hlength : 4 ≤ frameHeaderBytes := by decide
    rw [hsize, hdecode, if_neg (by omega), if_neg (by omega), if_neg (by omega), if_neg (by omega)]

theorem frameFront_bad {limit : Nat} {buffer : Bytes} {reason : Status} (h : frameFront limit buffer = .bad reason) :
    ∃ used, 4 ≤ used ∧ used ≤ buffer.length ∧
      ∀ other, other.take used = buffer.take used → frameFront limit other = .bad reason := by
  have htake4 : ∀ {other : Bytes} {used : Nat}, 4 ≤ used → other.take used = buffer.take used →
      other.take 4 = buffer.take 4 := by
    intro other used hused hsame
    have hcut := congrArg (List.take 4) hsame
    rwa [List.take_take, List.take_take, Nat.min_eq_left hused] at hcut
  have hlong : ∀ {other : Bytes} {used : Nat}, used ≤ buffer.length → other.take used = buffer.take used →
      used ≤ other.length := by
    intro other used hused hsame
    have hlength := congrArg List.length hsame
    rw [List.length_take, List.length_take] at hlength
    omega
  unfold frameFront at h
  split_ifs at h with hlength hheader hlimit hframe
  · refine ⟨4, le_refl _, by omega, fun other hsame => ?_⟩
    have hother := hlong (by omega) hsame
    rw [frameFront, if_neg (by omega), hsame, if_pos hheader]
    exact h
  · refine ⟨4, le_refl _, by omega, fun other hsame => ?_⟩
    have hother := hlong (by omega) hsame
    rw [frameFront, if_neg (by omega), hsame, if_neg hheader, if_pos hlimit]
    exact h
  · have hfour : 4 ≤ frameHeaderBytes := by decide
    refine ⟨beValue (buffer.take 4), by omega, by omega, fun other hsame => ?_⟩
    have hother := hlong (by omega) hsame
    rw [frameFront, if_neg (by omega), htake4 (by omega) hsame, if_neg hheader, if_neg hlimit, if_neg (by omega), hsame]
    exact h

/-- The frames of a stream. -/
def frames (limit : Nat) : Splitter UInt8 Status RequestEnvelope where
  front := frameFront limit
  size_pos h := Nat.lt_of_lt_of_le (by decide) (frameFront_item.mp h).1
  size_le h := (frameFront_item.mp h).2.2.1
  item_append := by
    intro buffer request size h behind
    obtain ⟨hheader, hlimit, hlength, hsize, hdecode⟩ := frameFront_item.mp h
    have hfour : 4 ≤ frameHeaderBytes := by decide
    apply frameFront_item.mpr
    rw [List.take_append_of_le_length (by omega), List.take_append_of_le_length hlength, List.length_append]
    exact ⟨hheader, hlimit, by omega, hsize, hdecode⟩
  item_take := by
    intro buffer request size h
    obtain ⟨hheader, hlimit, hlength, hsize, hdecode⟩ := frameFront_item.mp h
    have hfour : 4 ≤ frameHeaderBytes := by decide
    apply frameFront_item.mpr
    rw [List.take_take, List.take_take, Nat.min_eq_left (by omega), Nat.min_self, List.length_take_of_le hlength]
    exact ⟨hheader, hlimit, le_refl _, hsize, hdecode⟩
  bad_append := by
    intro buffer reason h behind
    obtain ⟨used, -, hused, hsame⟩ := frameFront_bad h
    exact hsame _ (List.take_append_of_le_length hused)

theorem frames_front_nil (limit : Nat) : (frames limit).front [] = .more := rfl

namespace FrameDecoder

/-- The loop drains the buffer. -/
theorem pushLoop_eq (fuel limit : Nat) (buffer : Bytes) (requests : List RequestEnvelope) :
    pushLoop fuel ⟨limit, buffer⟩ requests =
      ((drain (frames limit) fuel buffer requests).1, ⟨limit, (drain (frames limit) fuel buffer requests).2⟩) := by
  induction fuel generalizing buffer requests with
  | zero => rfl
  | succ fuel ih =>
      rw [pushLoop, drain]
      simp only [frames, frameFront, peekFrameLength, readBigEndian, Nat.zero_add, List.drop_zero]
      split_ifs with hlength hheader hlimit hframe
      · rfl
      · simp only [pure, Except.pure, if_pos hheader]
      · simp only [pure, Except.pure, if_neg hheader, if_pos hlimit]
      · simp only [pure, Except.pure, if_neg hheader, if_neg hlimit, if_pos hframe]
      · simp only [pure, Except.pure, if_neg hheader, if_neg hlimit, if_neg hframe]
        cases decodeRequest (buffer.take (beValue (buffer.take 4))) with
        | error status => rfl
        | ok request => exact ih _ _

theorem push_eq (limit : Nat) (buffer chunk : Bytes) :
    push ⟨limit, buffer⟩ chunk =
      ((ChunkedParser.push (frames limit) buffer chunk).1, ⟨limit, (ChunkedParser.push (frames limit) buffer chunk).2⟩) :=
  pushLoop_eq _ limit _ []

/-- **The decoder is a parser of frames.** -/
theorem receive_eq (limit : Nat) (buffer : Bytes) (chunks : List Bytes) :
    receive ⟨limit, buffer⟩ chunks =
      ⟨(feed (frames limit) buffer chunks).returned, (feed (frames limit) buffer chunks).verdict,
        ⟨limit, (feed (frames limit) buffer chunks).buffer⟩⟩ := by
  induction chunks generalizing buffer with
  | nil => rfl
  | cons chunk rest ih =>
      rw [receive, push_eq, feed]
      rcases ChunkedParser.push (frames limit) buffer chunk with ⟨status | requests, buffer⟩
      · rfl
      · simp only [ih]

end FrameDecoder

/-! ### Encoded requests -/

theorem frameFront_encoded {request : RequestEnvelope} {frame : Bytes} (htyped : request.body.Typed)
    (hencode : encodeRequest request = .ok frame) (behind : Bytes) :
    frameFront maxFrameBytes (frame ++ behind) = .item request.received frame.length := by
  have hdecode := RequestEnvelope.decodeRequest_frame htyped hencode
  obtain ⟨⟨-, -, hfits⟩, -, hframe⟩ := encodeRequest_ok.mp hencode
  have hlength : frame.length = frameHeaderBytes + request.body.layout.length := by
    rw [hframe, RequestEnvelope.frame, frameBytes_length]
  have hfour : 4 ≤ frameHeaderBytes := by decide
  have hsize : beValue (frame.take 4) = frame.length := by
    rw [(field_frameBytes hframe).1, beValue_beBytes (lt_of_le_of_lt hfits (by decide)), hlength]
  apply frameFront_item.mpr
  rw [List.take_append_of_le_length (by omega), List.take_left, List.length_append]
  exact ⟨by omega, by omega, by omega, hsize, hdecode⟩

/-- The beginning of a frame waits for the rest. -/
theorem frameFront_beginning {request : RequestEnvelope} {frame beginning : Bytes}
    (hencode : encodeRequest request = .ok frame) (hbeginning : beginning <+: frame) (hproper : beginning ≠ frame) :
    frameFront maxFrameBytes beginning = .more := by
  obtain ⟨⟨-, -, hfits⟩, -, hframe⟩ := encodeRequest_ok.mp hencode
  have hlength : frame.length = frameHeaderBytes + request.body.layout.length := by
    rw [hframe, RequestEnvelope.frame, frameBytes_length]
  have hshort : beginning.length < frame.length :=
    lt_of_le_of_ne hbeginning.length_le fun h => hproper (hbeginning.eq_of_length h)
  unfold frameFront
  by_cases hfour : beginning.length < 4
  · exact if_pos hfour
  · obtain ⟨rest, rfl⟩ := hbeginning
    have hsize : beValue (beginning.take 4) = (beginning ++ rest).length := by
      rw [← @List.take_append_of_le_length _ beginning rest 4 (by omega), (field_frameBytes hframe).1,
        beValue_beBytes (lt_of_le_of_lt hfits (by decide)), hlength]
    rw [if_neg hfour, hsize, if_neg (by omega), if_neg (by omega), if_pos hshort]

theorem splits_encoded {requests : List RequestEnvelope} {sent : List Bytes}
    (htyped : ∀ request ∈ requests, request.body.Typed)
    (hsent : List.Forall₂ (fun request frame => encodeRequest request = .ok frame) requests sent) (tail : Bytes) :
    Splits (frames maxFrameBytes) (sent.flatten ++ tail) (requests.map RequestEnvelope.received)
      sent.flatten.length := by
  induction hsent with
  | nil => exact .nil _
  | @cons request frame requests sent hencode _ ih =>
      rw [List.flatten_cons, List.length_append, List.map_cons, List.append_assoc]
      refine .cons (frameFront_encoded (htyped request List.mem_cons_self) hencode _) ?_
      rw [List.drop_left]
      exact ih fun request hrequest => htyped request (List.mem_cons_of_mem _ hrequest)

theorem map_decodeRequest {requests : List RequestEnvelope} {sent : List Bytes}
    (htyped : ∀ request ∈ requests, request.body.Typed)
    (hsent : List.Forall₂ (fun request frame => encodeRequest request = .ok frame) requests sent) :
    sent.map decodeRequest = (requests.map RequestEnvelope.received).map .ok := by
  induction hsent with
  | nil => rfl
  | @cons request frame requests sent hencode _ ih =>
      simp only [List.map_cons]
      rw [RequestEnvelope.decodeRequest_frame (htyped request List.mem_cons_self) hencode,
        ih fun request hrequest => htyped request (List.mem_cons_of_mem _ hrequest)]

/-- What waits in the buffer is the beginning of a frame. -/
theorem length_lt_of_more {limit : Nat} {buffer : Bytes} (hlimit : frameHeaderBytes ≤ limit)
    (h : frameFront limit buffer = .more) : buffer.length < limit := by
  have hfour : 4 ≤ frameHeaderBytes := by decide
  unfold frameFront at h
  split_ifs at h with hlength hheader hlimit hframe
  · omega
  · omega
  · cases hdecode : decodeRequest (buffer.take (beValue (buffer.take 4))) with
    | error status =>
        rw [hdecode] at h
        cases h
    | ok request =>
        rw [hdecode] at h
        cases h

theorem fresh_eq : FrameDecoder.fresh = ⟨maxFrameBytes, []⟩ := by decide

/-- **Encoded requests come out however their bytes are cut.** -/
theorem receive_encoded {requests : List RequestEnvelope} {sent chunks : List Bytes} {next : RequestEnvelope}
    {last tail : Bytes} (htyped : ∀ request ∈ requests, request.body.Typed)
    (hsent : List.Forall₂ (fun request frame => encodeRequest request = .ok frame) requests sent)
    (hlast : encodeRequest next = .ok last) (htail : tail <+: last) (hproper : tail ≠ last)
    (hchunks : chunks.flatten = sent.flatten ++ tail) :
    (FrameDecoder.fresh.receive chunks).verdict = none ∧
      (FrameDecoder.fresh.receive chunks).returned.flatten = requests.map RequestEnvelope.received ∧
      sent.map decodeRequest = (FrameDecoder.fresh.receive chunks).returned.flatten.map .ok ∧
      (FrameDecoder.fresh.receive chunks).decoder.bufferedBytes = tail.length ∧
      ∀ before, before <+: chunks → (FrameDecoder.fresh.receive before).verdict = none ∧
        (FrameDecoder.fresh.receive before).decoder.bufferedBytes < maxFrameBytes := by
  have hsplits := splits_encoded htyped hsent tail
  have hmore : (frames maxFrameBytes).front ((sent.flatten ++ tail).drop sent.flatten.length) = .more := by
    rw [List.drop_left]
    exact frameFront_beginning hlast htail hproper
  rw [← hchunks] at hsplits hmore
  obtain ⟨hreturned, hverdict, hbuffer⟩ :=
    @feed_of_more _ _ _ (frames maxFrameBytes) chunks [] _ _ hsplits hmore (frames_front_nil maxFrameBytes)
  rw [List.nil_append, hchunks, List.drop_left] at hbuffer
  rw [fresh_eq, FrameDecoder.receive_eq]
  refine ⟨hverdict, hreturned, ?_, congrArg List.length hbuffer, ?_⟩
  · rw [hreturned]
    exact map_decodeRequest htyped hsent
  · rintro before ⟨after, rfl⟩
    rw [List.flatten_append] at hsplits hmore
    obtain ⟨first, used, hfirst, hexhausted⟩ := @exists_splits _ _ _ (frames maxFrameBytes) before.flatten
    have hfront := more_of_append hsplits hmore hfirst hexhausted
    obtain ⟨-, hverdict, hbuffer⟩ :=
      @feed_of_more _ _ _ (frames maxFrameBytes) before [] _ _ hfirst hfront (frames_front_nil maxFrameBytes)
    rw [FrameDecoder.receive_eq]
    refine ⟨hverdict, ?_⟩
    show (feed (frames maxFrameBytes) [] before).buffer.length < maxFrameBytes
    rw [hbuffer]
    exact length_lt_of_more (by decide) hfront

def sampleHeartbeat : RequestEnvelope := ⟨.heartbeat, 2, 9, .heartbeat ⟨[103], [109], 4⟩⟩

/-- Two requests and the beginning of a third, cut in the middle of two headers. -/
theorem receive_encoded_cut :
    ∃ heartbeat produce : Bytes, encodeRequest sampleHeartbeat = .ok heartbeat ∧
      encodeRequest sampleProduce = .ok produce ∧
      (FrameDecoder.fresh.receive
        [heartbeat.take 3, heartbeat.drop 3 ++ produce.take 20, produce.drop 20 ++ heartbeat.take 17]).returned.flatten =
        [sampleHeartbeat.received, sampleProduce.received] := by
  obtain ⟨heartbeat, hheartbeat⟩ : ∃ frame, encodeRequest sampleHeartbeat = .ok frame := ⟨_, rfl⟩
  obtain ⟨produce, hproduce⟩ : ∃ frame, encodeRequest sampleProduce = .ok frame := ⟨_, rfl⟩
  have hlong : heartbeat.length = 30 := by
    rw [(encodeRequest_ok.mp hheartbeat).2.2]
    rfl
  have htyped : ∀ request ∈ [sampleHeartbeat, sampleProduce], request.body.Typed := by
    intro request hrequest
    rcases List.mem_pair.mp hrequest with rfl | rfl
    · exact show IsInt32 4 by decide
    · exact show IsInt32 (-1) by decide
  have hproper : heartbeat.take 17 ≠ heartbeat := by
    intro h
    have hlength := congrArg List.length h
    rw [List.length_take, hlong] at hlength
    omega
  refine ⟨heartbeat, produce, hheartbeat, hproduce, ?_⟩
  refine (receive_encoded htyped (.cons hheartbeat (.cons hproduce .nil)) hheartbeat (List.take_prefix 17 heartbeat)
    hproper ?_).2.1
  simp only [List.flatten_cons, List.flatten_nil, List.append_nil, List.append_assoc, ← List.append_assoc (produce.take 20),
    List.take_append_drop, ← List.append_assoc (heartbeat.take 3)]

/-! ### Malformed frames -/

/-- Behind the first `total` bytes of the stream, which are whole frames, stands a malformed one that shows in its
first `evidence` bytes. -/
def MalformedAt (limit : Nat) (stream : Bytes) (requests : List RequestEnvelope) (total evidence : Nat) : Prop :=
  Splits (frames limit) stream requests total ∧
    ∃ reason, Malformed (frames limit) (stream.drop total) evidence reason

/-- The chunks in which the two cuttings of a stream show its malformed frame start behind the same frames. -/
def CutAlike (limit : Nat) (chunks chunks' : List Bytes) : Prop :=
  ∀ requests total evidence, MalformedAt limit chunks.flatten requests total evidence →
    ∀ others size, Splits (frames limit) chunks.flatten others size →
      (size ≤ chunkStart (total + evidence) chunks ↔ size ≤ chunkStart (total + evidence) chunks')

/-- No whole frame ends in the chunk in which the malformed frame of the stream shows. -/
def CutBefore (limit : Nat) (chunks : List Bytes) : Prop :=
  ∀ requests total evidence, MalformedAt limit chunks.flatten requests total evidence →
    total ≤ chunkStart (total + evidence) chunks

namespace FrameDecoder

/-- Either no frame of the stream is malformed, or there is a first one. -/
theorem more_or_malformedAt (limit : Nat) (stream : Bytes) :
    ∃ requests total, Splits (frames limit) stream requests total ∧
      ((frames limit).front (stream.drop total) = .more ∨
        ∃ evidence, MalformedAt limit stream requests total evidence) := by
  obtain ⟨requests, total, hsplits, hexhausted⟩ := @exists_splits _ _ _ (frames limit) stream
  refine ⟨requests, total, hsplits, ?_⟩
  cases hfront : (frames limit).front (stream.drop total) with
  | more => exact .inl rfl
  | item request size => exact absurd hfront (hexhausted request size)
  | bad reason =>
      obtain ⟨evidence, hevidence⟩ := exists_malformed hfront
      exact .inr ⟨evidence, hsplits, reason, hevidence⟩

theorem malformedAt_unique {limit total total' evidence evidence' : Nat} {stream : Bytes}
    {requests requests' : List RequestEnvelope} (h : MalformedAt limit stream requests total evidence)
    (h' : MalformedAt limit stream requests' total' evidence') :
    requests' = requests ∧ total' = total ∧ evidence' = evidence := by
  obtain ⟨hsplits, reason, hbad⟩ := h
  obtain ⟨hsplits', reason', hbad'⟩ := h'
  obtain ⟨rfl, rfl⟩ := hsplits.unique_of_exhausted (exhausted_of_bad hbad.front) hsplits' (exhausted_of_bad hbad'.front)
  refine ⟨rfl, rfl, ?_⟩
  rcases Nat.lt_trichotomy evidence evidence' with hlt | heq | hlt
  · cases hbad.bad.symm.trans (hbad'.waiting evidence hlt)
  · exact heq.symm
  · cases hbad'.bad.symm.trans (hbad.waiting evidence' hlt)

theorem not_malformedAt_of_more {limit total : Nat} {stream : Bytes} {requests : List RequestEnvelope}
    (hsplits : Splits (frames limit) stream requests total)
    (hmore : (frames limit).front (stream.drop total) = .more) {requests' : List RequestEnvelope}
    {total' evidence : Nat} : ¬ MalformedAt limit stream requests' total' evidence := by
  intro ⟨hsplits', reason, hbad⟩
  obtain ⟨rfl, rfl⟩ :=
    hsplits.unique_of_exhausted (exhausted_of_more hmore) hsplits' (exhausted_of_bad hbad.front)
  cases hmore.symm.trans hbad.front

variable {limit : UInt32} {chunks chunks' : List Bytes}

theorem receive_of_more {requests : List RequestEnvelope} {total : Nat}
    (hsplits : Splits (frames (create limit).maxFrameBytes) chunks.flatten requests total)
    (hmore : (frames (create limit).maxFrameBytes).front (chunks.flatten.drop total) = .more) :
    ((create limit).receive chunks).returned.flatten = requests ∧ ((create limit).receive chunks).verdict = none := by
  obtain ⟨hreturned, hverdict, -⟩ :=
    @feed_of_more _ _ _ (frames (create limit).maxFrameBytes) chunks [] _ _ hsplits hmore (frames_front_nil _)
  rw [create, receive_eq]
  exact ⟨hreturned, hverdict⟩

theorem receive_verdict {requests : List RequestEnvelope} {total evidence : Nat} {reason : Status}
    (hsplits : Splits (frames (create limit).maxFrameBytes) chunks.flatten requests total)
    (hbad : Malformed (frames (create limit).maxFrameBytes) (chunks.flatten.drop total) evidence reason) :
    ((create limit).receive chunks).verdict = some reason := by
  rw [create, receive_eq]
  exact (@feed_of_malformed _ _ _ (frames (create limit).maxFrameBytes) chunks [] _ _ _ _ hsplits hbad
    (frames_front_nil _)).1

theorem receive_verdict_eq (hcut : chunks'.flatten = chunks.flatten) :
    ((create limit).receive chunks).verdict = ((create limit).receive chunks').verdict := by
  obtain ⟨requests, total, hsplits, hmore | ⟨evidence, -, reason, hbad⟩⟩ :=
    more_or_malformedAt (create limit).maxFrameBytes chunks.flatten
  · have hverdict := (receive_of_more hsplits hmore).2
    rw [← hcut] at hsplits hmore
    rw [hverdict, (receive_of_more hsplits hmore).2]
  · have hverdict := receive_verdict hsplits hbad
    rw [← hcut] at hsplits hbad
    rw [hverdict, receive_verdict hsplits hbad]

theorem receive_returned_eq_iff (hcut : chunks'.flatten = chunks.flatten) :
    ((create limit).receive chunks).returned.flatten = ((create limit).receive chunks').returned.flatten ↔
      CutAlike (create limit).maxFrameBytes chunks chunks' := by
  obtain ⟨requests, total, hsplits, hmore | ⟨evidence, hat⟩⟩ :=
    more_or_malformedAt (create limit).maxFrameBytes chunks.flatten
  · have hreturned := (receive_of_more hsplits hmore).1
    have hsplits' := hsplits
    have hmore' := hmore
    rw [← hcut] at hsplits' hmore'
    rw [hreturned, (receive_of_more hsplits' hmore').1]
    refine ⟨fun _ requests' total' evidence h => ?_, fun _ => rfl⟩
    exact absurd h (not_malformedAt_of_more hsplits hmore)
  · obtain ⟨reason, hbad⟩ := hat.2
    rw [create, receive_eq, receive_eq]
    refine Iff.trans (feed_eq_iff hcut hsplits hbad (frames_front_nil _)) ⟨?_, ?_⟩
    · intro hsame requests' total' evidence' h
      obtain ⟨rfl, rfl, rfl⟩ := malformedAt_unique hat h
      exact hsame
    · intro halike
      exact halike requests total evidence hat

theorem receive_complete_iff :
    (∀ requests total evidence, MalformedAt (create limit).maxFrameBytes chunks.flatten requests total evidence →
      ((create limit).receive chunks).returned.flatten = requests) ↔
      CutBefore (create limit).maxFrameBytes chunks := by
  refine forall₄_congr fun requests total evidence h => ?_
  obtain ⟨hsplits, reason, hbad⟩ := h
  rw [create, receive_eq]
  exact feed_complete_iff hsplits hbad (frames_front_nil _)

/-- **Cutting a stream.** Two cuttings of a stream give the same requests and the same verdict if and only if the
chunks in which a malformed frame shows start behind the same frames. A malformed frame takes no request in front
of it along if and only if no frame ends in the chunk in which it shows. -/
theorem receive_cut_iff (limit : UInt32) (chunks chunks' : List Bytes) (hcut : chunks'.flatten = chunks.flatten) :
    ((((create limit).receive chunks).returned.flatten = ((create limit).receive chunks').returned.flatten ∧
        ((create limit).receive chunks).verdict = ((create limit).receive chunks').verdict) ↔
      CutAlike (create limit).maxFrameBytes chunks chunks') ∧
    ((∀ requests total evidence, MalformedAt (create limit).maxFrameBytes chunks.flatten requests total evidence →
        ((create limit).receive chunks).returned.flatten = requests) ↔
      CutBefore (create limit).maxFrameBytes chunks) :=
  ⟨(and_iff_left (receive_verdict_eq hcut)).trans (receive_returned_eq_iff hcut), receive_complete_iff⟩

/-- A heartbeat and a malformed frame behind it. -/
def heartbeatAndNoise : Bytes := sampleHeartbeat.frame ++ [0, 0, 0, 0]

/-- The heartbeat is lost if the malformed frame comes in the same chunk. -/
theorem receive_cut_loses :
    [sampleHeartbeat.frame, [0, 0, 0, 0]].flatten = [heartbeatAndNoise].flatten ∧
      (fresh.receive [heartbeatAndNoise]).returned.flatten = [] ∧
      (fresh.receive [sampleHeartbeat.frame, [0, 0, 0, 0]]).returned.flatten = [sampleHeartbeat] ∧
      (fresh.receive [heartbeatAndNoise]).verdict =
        (fresh.receive [sampleHeartbeat.frame, [0, 0, 0, 0]]).verdict := by
  decide +kernel

theorem receive_cut_iff_alike :
    ¬ CutAlike (create 1000).maxFrameBytes [heartbeatAndNoise] [sampleHeartbeat.frame, [0, 0, 0, 0]] := by
  rw [← (receive_cut_iff 1000 [heartbeatAndNoise] [sampleHeartbeat.frame, [0, 0, 0, 0]] (by decide +kernel)).1]
  decide +kernel

end FrameDecoder

end LogMq
