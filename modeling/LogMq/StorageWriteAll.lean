import LogMq.StorageSegment

/-! `WriteAll` of `include/logmq/storage/file.h`, with any writer that a caller may pass. A writer has a state of its
own and answers a call as it likes; what the loop makes of the answers puts every byte in its place. -/

namespace LogMq

namespace File

variable {σ : Type}

/-- What a call of the writer returns: a number of bytes, or a failure that sets `errno`. -/
inductive WriteReturn where
  | count (n : Nat)
  | failed (errno : Int)
  deriving DecidableEq, Repr

/-- `EINTR`. -/
def interrupted : Int := 4

/-- A call of the writer: the bytes that it is offered, where they belong, and what it returns. -/
structure WriteCall where
  bytes : Bytes
  offset : UInt64
  returned : WriteReturn
  deriving DecidableEq

/-- The bytes that a call accepts. A number that is too large accepts nothing. -/
def WriteCall.accepted (call : WriteCall) : Bytes :=
  match call.returned with
  | .count n => if n > call.bytes.length then [] else call.bytes.take n
  | .failed _ => []

/-- The calls of the writer, the status once the loop has returned, and the state that the writer is left in. -/
structure WriteRun (σ : Type) where
  calls : List WriteCall
  status : Option (Result Unit)
  state : σ

def WriteRun.after (call : WriteCall) (run : WriteRun σ) : WriteRun σ := { run with calls := call :: run.calls }

/-- `WriteAll`, for at most `fuel` rounds of its loop. -/
def writeAll (strerror : Int → String) (writer : σ → Bytes → UInt64 → WriteReturn × σ) (data : Bytes)
    (offset : UInt64) : Nat → Nat → σ → WriteRun σ
  | 0, _, state => ⟨[], none, state⟩
  | fuel + 1, written, state =>
      if written < data.length then
        let answer := writer state (data.drop written) (offset + UInt64.ofNat written)
        let call : WriteCall := ⟨data.drop written, offset + UInt64.ofNat written, answer.1⟩
        match answer.1 with
        | .failed errno =>
            if errno = interrupted then (writeAll strerror writer data offset fuel written answer.2).after call
            else ⟨[call], some (.error (.ioError ("pwrite failed: " ++ strerror errno))), answer.2⟩
        | .count n =>
            if n = 0 then ⟨[call], some (.error (.ioError "pwrite made no progress")), answer.2⟩
            else if n > data.length - written then
              ⟨[call], some (.error (.internal "pwrite returned more bytes than requested")), answer.2⟩
            else (writeAll strerror writer data offset fuel (written + n) answer.2).after call
      else ⟨[], some (.ok ()), state⟩

/-! ### Pieces -/

/-- The pieces that calls accept, each with its offset. -/
def pieces (calls : List WriteCall) : List (UInt64 × Bytes) := calls.map fun call => (call.offset, call.accepted)

/-- The bytes of some pieces. -/
def joined (pieces : List (UInt64 × Bytes)) : Bytes := (pieces.map Prod.snd).flatten

/-- Each piece begins where the one before it ends. -/
def Contiguous : UInt64 → List (UInt64 × Bytes) → Prop
  | _, [] => True
  | offset, piece :: rest => piece.1 = offset ∧ Contiguous (offset + UInt64.ofNat piece.2.length) rest

/-- A call is offered the rest of the data from some position on, at the offset of this position. -/
def WriteCall.InPlace (data : Bytes) (offset : UInt64) (call : WriteCall) : Prop :=
  ∃ written ≤ data.length, call.bytes = data.drop written ∧ call.offset = offset + UInt64.ofNat written

/-- A part of a list that is not all of it. -/
def ProperPrefix (part data : Bytes) : Prop := part <+: data ∧ part ≠ data

@[simp] theorem pieces_nil : pieces [] = [] := rfl

@[simp] theorem pieces_cons (call : WriteCall) (rest : List WriteCall) :
    pieces (call :: rest) = (call.offset, call.accepted) :: pieces rest := rfl

@[simp] theorem joined_nil : joined [] = [] := rfl

@[simp] theorem joined_cons (piece : UInt64 × Bytes) (rest : List (UInt64 × Bytes)) :
    joined (piece :: rest) = piece.2 ++ joined rest := rfl

@[simp] theorem WriteRun.after_calls (call : WriteCall) (run : WriteRun σ) :
    (run.after call).calls = call :: run.calls := rfl

@[simp] theorem WriteRun.after_status (call : WriteCall) (run : WriteRun σ) :
    (run.after call).status = run.status := rfl

@[simp] theorem WriteRun.after_state (call : WriteCall) (run : WriteRun σ) : (run.after call).state = run.state := rfl

theorem uint64_add_ofNat (offset : UInt64) (left right : Nat) :
    offset + UInt64.ofNat left + UInt64.ofNat right = offset + UInt64.ofNat (left + right) := by
  rw [UInt64.ofNat_add, UInt64.add_assoc]

/-! ### One round of the loop -/

section

variable {strerror : Int → String} {writer : σ → Bytes → UInt64 → WriteReturn × σ} {data : Bytes} {offset : UInt64}

/-- The call of a round. -/
def nextCall (writer : σ → Bytes → UInt64 → WriteReturn × σ) (data : Bytes) (offset : UInt64) (written : Nat)
    (state : σ) : WriteCall :=
  ⟨data.drop written, offset + UInt64.ofNat written,
    (writer state (data.drop written) (offset + UInt64.ofNat written)).1⟩

/-- The state of the writer behind the call of a round. -/
def nextState (writer : σ → Bytes → UInt64 → WriteReturn × σ) (data : Bytes) (offset : UInt64) (written : Nat)
    (state : σ) : σ :=
  (writer state (data.drop written) (offset + UInt64.ofNat written)).2

theorem writeAll_done {fuel written : Nat} {state : σ} (h : data.length ≤ written) :
    writeAll strerror writer data offset (fuel + 1) written state = ⟨[], some (.ok ()), state⟩ := by
  rw [writeAll, if_neg (by omega)]

/-- A round goes on behind what its call has accepted, or its call has accepted nothing and is the last one. -/
theorem writeAll_round {fuel written : Nat} {state : σ} (h : written < data.length) :
    (∃ n ≤ data.length - written, (nextCall writer data offset written state).accepted = (data.drop written).take n ∧
      (n = 0 → (nextCall writer data offset written state).returned = .failed interrupted) ∧
      writeAll strerror writer data offset (fuel + 1) written state =
        (writeAll strerror writer data offset fuel (written + n) (nextState writer data offset written state)).after
          (nextCall writer data offset written state)) ∨
    (nextCall writer data offset written state).accepted = [] ∧ ∃ status,
      writeAll strerror writer data offset (fuel + 1) written state =
        ⟨[nextCall writer data offset written state], some (.error status),
          nextState writer data offset written state⟩ := by
  rw [writeAll, if_pos h]
  unfold nextCall nextState WriteCall.accepted
  cases hreturned : (writer state (data.drop written) (offset + UInt64.ofNat written)).1 with
  | failed errno =>
      simp only [hreturned]
      split_ifs with hinterrupted
      · subst hinterrupted
        exact Or.inl ⟨0, Nat.zero_le _, (List.take_zero).symm, fun _ => rfl, rfl⟩
      · exact Or.inr ⟨trivial, _, rfl⟩
  | count n =>
      simp only [hreturned, List.length_drop]
      by_cases hzero : n = 0
      · rw [if_pos hzero, hzero, List.take_zero, ite_self]
        exact Or.inr ⟨rfl, _, rfl⟩
      · rw [if_neg hzero]
        split_ifs with hlarge
        · exact Or.inr ⟨rfl, _, rfl⟩
        · exact Or.inl ⟨n, Nat.le_of_not_gt hlarge, rfl, fun hn => absurd hn hzero, rfl⟩

/-! ### Runs of the loop -/

/-- What a run makes of some bytes at an offset: its pieces follow each other, they are a part of the bytes, all of
them if the run ends well and less if it fails. -/
structure Covers (offset : UInt64) (bytes : Bytes) (run : WriteRun σ) : Prop where
  contiguous : Contiguous offset (pieces run.calls)
  part : joined (pieces run.calls) <+: bytes
  ok : run.status = some (.ok ()) → joined (pieces run.calls) = bytes
  error : ∀ status, run.status = some (.error status) → joined (pieces run.calls) ≠ bytes

theorem Covers.after {offset : UInt64} {bytes : Bytes} {run : WriteRun σ} {call : WriteCall}
    (h : Covers (offset + UInt64.ofNat call.accepted.length) bytes run) (hoffset : call.offset = offset) :
    Covers offset (call.accepted ++ bytes) (run.after call) where
  contiguous := ⟨hoffset, h.contiguous⟩
  part := (List.prefix_append_right_inj _).mpr h.part
  ok hstatus := by
    rw [WriteRun.after_calls, pieces_cons, joined_cons, h.ok hstatus]
  error status hstatus := by
    rw [WriteRun.after_calls, pieces_cons, joined_cons, Ne, List.append_cancel_left_eq]
    exact h.error status hstatus

theorem writeAll_covers {fuel written : Nat} {state : σ} (hle : written ≤ data.length) :
    Covers (offset + UInt64.ofNat written) (data.drop written)
      (writeAll strerror writer data offset fuel written state) := by
  induction fuel generalizing written state with
  | zero => exact ⟨trivial, List.nil_prefix, nofun, nofun⟩
  | succ fuel ih =>
      rcases Nat.lt_or_ge written data.length with hlt | hge
      · rcases @writeAll_round _ strerror writer data offset fuel written state hlt with
          ⟨n, hn, haccepted, -, hround⟩ | ⟨haccepted, status, hround⟩
        · have hlength : (nextCall writer data offset written state).accepted.length = n := by
            rw [haccepted, List.length_take, List.length_drop]
            omega
          have hsplit : data.drop written = (nextCall writer data offset written state).accepted ++
              data.drop (written + n) := by
            rw [haccepted, ← List.drop_drop, List.take_append_drop]
          have hnext : Covers
              (offset + UInt64.ofNat written + UInt64.ofNat (nextCall writer data offset written state).accepted.length)
              (data.drop (written + n))
              (writeAll strerror writer data offset fuel (written + n)
                (nextState writer data offset written state)) := by
            rw [hlength, uint64_add_ofNat]
            exact ih (by omega)
          rw [hround, hsplit]
          exact hnext.after rfl
        · have hsome : data.drop written ≠ [] := by
            rw [Ne, List.drop_eq_nil_iff]
            omega
          have hnone : joined (pieces [nextCall writer data offset written state]) = [] := by
            simp only [pieces_cons, pieces_nil, joined_cons, joined_nil, haccepted, List.append_nil]
          rw [hround]
          refine ⟨⟨rfl, trivial⟩, ?_, nofun, fun _ _ => ?_⟩
          · rw [hnone]
            exact List.nil_prefix
          · rw [hnone]
            exact hsome.symm
      · rw [writeAll_done hge, List.drop_of_length_le hge]
        exact ⟨trivial, List.nil_prefix, fun _ => rfl, nofun⟩

/-- Every call is in its place. -/
theorem writeAll_inPlace {fuel written : Nat} {state : σ} :
    ∀ call ∈ (writeAll strerror writer data offset fuel written state).calls, call.InPlace data offset := by
  induction fuel generalizing written state with
  | zero => exact List.forall_mem_nil _
  | succ fuel ih =>
      rcases Nat.lt_or_ge written data.length with hlt | hge
      · have hnext : (nextCall writer data offset written state).InPlace data offset := ⟨written, hlt.le, rfl, rfl⟩
        rcases @writeAll_round _ strerror writer data offset fuel written state hlt with
          ⟨n, -, -, -, hround⟩ | ⟨-, status, hround⟩
        · rw [hround, WriteRun.after_calls, List.forall_mem_cons]
          exact ⟨hnext, ih⟩
        · rw [hround, List.forall_mem_singleton]
          exact hnext
      · rw [writeAll_done hge]
        exact List.forall_mem_nil _

/-- **Every byte in its place.** The pieces that the writer accepts begin at the given offset and follow each other. If
the loop returns without an error they are the data, otherwise only a part in front. No call is offered bytes that
belong to another offset. -/
theorem writeAll_places (strerror : Int → String) (writer : σ → Bytes → UInt64 → WriteReturn × σ) (data : Bytes)
    (offset : UInt64) (fuel : Nat) (state : σ) :
    Contiguous offset (pieces (writeAll strerror writer data offset fuel 0 state).calls) ∧
      ((writeAll strerror writer data offset fuel 0 state).status = some (.ok ()) →
        joined (pieces (writeAll strerror writer data offset fuel 0 state).calls) = data) ∧
      (∀ status, (writeAll strerror writer data offset fuel 0 state).status = some (.error status) →
        ProperPrefix (joined (pieces (writeAll strerror writer data offset fuel 0 state).calls)) data) ∧
      ∀ call ∈ (writeAll strerror writer data offset fuel 0 state).calls, call.InPlace data offset := by
  have hstart : offset + UInt64.ofNat 0 = offset := UInt64.add_zero offset
  have hcovers := @writeAll_covers _ strerror writer data offset fuel 0 state (Nat.zero_le _)
  rw [hstart, List.drop_zero] at hcovers
  exact ⟨hcovers.contiguous, hcovers.ok, fun status hstatus => ⟨hcovers.part, hcovers.error status hstatus⟩,
    writeAll_inPlace⟩

/-- A writer for some more calls: the ninth from the end is interrupted, the others take up to three bytes, and then the
disk is full. -/
def threeBytes (calls : Nat) (bytes : Bytes) (_ : UInt64) : WriteReturn × Nat :=
  match calls with
  | 0 => (.failed 28, 0)
  | 9 => (.failed interrupted, 8)
  | calls + 1 => (.count (min 3 bytes.length), calls)

theorem writeAll_places_value :
    joined (pieces (writeAll (fun _ => "") threeBytes [1, 2, 3, 4, 5, 6, 7] 42 9 0 9).calls) = [1, 2, 3, 4, 5, 6, 7] ∧
      ProperPrefix (joined (pieces (writeAll (fun _ => "") threeBytes [1, 2, 3, 4, 5, 6, 7] 42 9 0 2).calls))
        [1, 2, 3, 4, 5, 6, 7] :=
  ⟨(writeAll_places (fun _ => "") threeBytes [1, 2, 3, 4, 5, 6, 7] 42 9 9).2.1 (by decide +kernel),
    (writeAll_places (fun _ => "") threeBytes [1, 2, 3, 4, 5, 6, 7] 42 9 2).2.2.1
      (.ioError ("pwrite failed: ")) (by decide +kernel)⟩

/-- A loop that has not returned yet has been interrupted once for each round that accepted nothing. -/
theorem writeAll_rounds {fuel written : Nat} {state : σ} (hle : written ≤ data.length)
    (hstatus : (writeAll strerror writer data offset fuel written state).status = none) :
    fuel + written ≤ data.length +
      ((writeAll strerror writer data offset fuel written state).calls.countP
        fun call => call.returned = .failed interrupted) := by
  induction fuel generalizing written state with
  | zero => omega
  | succ fuel ih =>
      rcases Nat.lt_or_ge written data.length with hlt | hge
      · rcases @writeAll_round _ strerror writer data offset fuel written state hlt with
          ⟨n, hn, -, hzero, hround⟩ | ⟨-, status, hround⟩
        · rw [hround, WriteRun.after_status] at hstatus
          have hrest := ih (by omega) hstatus
          rw [hround, WriteRun.after_calls, List.countP_cons]
          by_cases hn0 : n = 0
          · rw [if_pos (by simpa using hzero hn0)]
            subst hn0
            omega
          · omega
        · rw [hround] at hstatus
          exact nomatch hstatus
      · rw [writeAll_done hge] at hstatus
        exact nomatch hstatus

end

/-! ### Files -/

theorem getElem?_pwrite {content data : Bytes} (hdata : data ≠ []) (offset i : Nat) :
    (pwrite content data offset)[i]? =
      if i < offset then if i < content.length then content[i]? else some 0
      else if i < offset + data.length then data[i - offset]? else content[i]? := by
  have hfront : (content.take offset ++ List.replicate (offset - content.length) 0).length = offset := by
    rw [List.length_append, List.length_take, List.length_replicate]
    omega
  rw [pwrite, if_neg (by rwa [List.isEmpty_iff]), List.append_assoc, List.getElem?_append, hfront]
  split_ifs with hbefore hcontent hwithin
  · rw [List.getElem?_append_left (by rw [List.length_take]; omega), List.getElem?_take_of_lt hbefore]
  · rw [List.getElem?_append_right (by rw [List.length_take]; omega), List.getElem?_replicate, List.length_take,
      if_pos (by omega)]
  · rw [List.getElem?_append_left (by omega)]
  · rw [List.getElem?_append_right (by omega), List.getElem?_drop]
    congr 1
    omega

/-- Two writes, the second at the end of the first, are one. -/
theorem pwrite_pwrite (content front back : Bytes) (offset : Nat) :
    pwrite (pwrite content front offset) back (offset + front.length) = pwrite content (front ++ back) offset := by
  by_cases hfront : front = []
  · subst hfront
    rfl
  by_cases hback : back = []
  · subst hback
    rw [List.append_nil]
    rfl
  have hlength : offset + front.length ≤ (pwrite content front offset).length := by
    rw [pwrite, if_neg (by rwa [List.isEmpty_iff])]
    simp only [List.length_append, List.length_take, List.length_replicate]
    omega
  ext i : 1
  rw [getElem?_pwrite hback, getElem?_pwrite hfront, getElem?_pwrite (List.append_ne_nil_of_left_ne_nil hfront _),
    List.length_append, List.getElem?_append]
  rw [Nat.sub_add_eq, Nat.add_assoc]
  split_ifs <;> first | rfl | omega

/-- A writer of a file writes the bytes that it accepts, and nothing else. -/
def WritesFile (content : σ → Bytes) (writer : σ → Bytes → UInt64 → WriteReturn × σ) : Prop :=
  ∀ state bytes offset, content (writer state bytes offset).2 =
    pwrite (content state) (WriteCall.accepted ⟨bytes, offset, (writer state bytes offset).1⟩) offset.toNat

/-- What a run leaves in a file is one write of the bytes that it accepted. -/
theorem writeAll_content {strerror : Int → String} {content : σ → Bytes}
    {writer : σ → Bytes → UInt64 → WriteReturn × σ} (hwriter : WritesFile content writer) {data : Bytes}
    {offset : UInt64} (hroom : offset.toNat + data.length < 2 ^ 64) {fuel written : Nat} {state : σ}
    (hle : written ≤ data.length) :
    content (writeAll strerror writer data offset fuel written state).state =
      pwrite (content state) (joined (pieces (writeAll strerror writer data offset fuel written state).calls))
        (offset.toNat + written) := by
  induction fuel generalizing written state with
  | zero => rfl
  | succ fuel ih =>
      rcases Nat.lt_or_ge written data.length with hlt | hge
      · have hoffset : (offset + UInt64.ofNat written).toNat = offset.toNat + written := by
          rw [UInt64.toNat_add, UInt64.toNat_ofNat_of_lt' (show written < 2 ^ 64 by omega), Nat.mod_eq_of_lt (by omega)]
        have hnext : content (nextState writer data offset written state) =
            pwrite (content state) (nextCall writer data offset written state).accepted (offset.toNat + written) := by
          rw [← hoffset]
          exact hwriter state _ _
        rcases @writeAll_round _ strerror writer data offset fuel written state hlt with
          ⟨n, hn, haccepted, -, hround⟩ | ⟨haccepted, status, hround⟩
        · have hlength : (nextCall writer data offset written state).accepted.length = n := by
            rw [haccepted, List.length_take, List.length_drop]
            omega
          rw [hround, WriteRun.after_state, ih (by omega), hnext, WriteRun.after_calls, pieces_cons, joined_cons,
            ← pwrite_pwrite, hlength, Nat.add_assoc]
        · rw [hround]
          simp only [pieces_cons, pieces_nil, joined_cons, joined_nil, List.append_nil]
          exact hnext
      · rw [writeAll_done hge]
        rfl

end File

/-- **`Segment::Append`** leaves in the file what its calls of the writer have written, whether it succeeds or
fails. -/
theorem Segment.append_eq_writeAll {σ : Type} {strerror : Int → String} {content : σ → Bytes}
    {writer : σ → Bytes → UInt64 → File.WriteReturn × σ} (hwriter : File.WritesFile content writer) {segment : Segment}
    (hopen : segment.closed = false) {batch : RecordBatch} {encoded : Bytes}
    (hencode : encodeRecordBatch batch = .ok encoded) (hroom : segment.writePosition + encoded.length < 2 ^ 64)
    {fuel : Nat} {state : σ} {run : File.WriteRun σ}
    (hrun : File.writeAll strerror writer encoded (UInt64.ofNat segment.writePosition) fuel 0 state = run) :
    (run.status = some (.ok ()) → segment.append (content state) batch none =
      (.ok segment.writePosition, { segment with writePosition := segment.writePosition + encoded.length },
        content run.state)) ∧
    (∀ status, run.status = some (.error status) →
      segment.append (content state) batch (some ((File.joined (File.pieces run.calls)).length, status)) =
        (.error status, segment, content run.state)) := by
  have hposition : (UInt64.ofNat segment.writePosition).toNat = segment.writePosition :=
    UInt64.toNat_ofNat_of_lt' (show segment.writePosition < 2 ^ 64 by omega)
  have hcovers := @File.writeAll_covers _ strerror writer encoded (UInt64.ofNat segment.writePosition) fuel 0 state
    (Nat.zero_le _)
  have hcontent := @File.writeAll_content _ strerror _ _ hwriter encoded (UInt64.ofNat segment.writePosition)
    (by rwa [hposition]) fuel 0 state (Nat.zero_le _)
  rw [hrun, List.drop_zero] at hcovers
  rw [hrun, hposition, Nat.add_zero] at hcontent
  have htake := List.prefix_iff_eq_take.mp hcovers.part
  constructor
  · intro hok
    rw [hcontent, hcovers.ok hok]
    simp only [Segment.append, hopen, hencode, Bool.false_eq_true, if_false]
  · intro status _
    rw [hcontent]
    simp only [Segment.append, hopen, hencode, Bool.false_eq_true, if_false]
    rw [← htake]

end LogMq
