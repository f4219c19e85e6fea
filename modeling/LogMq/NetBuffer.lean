import LogMq.LibRuns
import LogMq.NetConnection

/-! The output buffer of a connection. It stores its bytes behind a read index and moves them to the front from time to
time; from outside it is a queue of bytes. -/

namespace LogMq

/-- `Buffer`. -/
structure Buffer where
  data : Bytes := []
  readerIndex : Nat := 0
  deriving DecidableEq, Repr

/-- What a call of `write` returns. -/
inductive WriteResult where
  | count (n : Nat)
  | again
  | failed (reason : String)
  deriving DecidableEq, Repr

namespace Buffer

def readableBytes (buffer : Buffer) : Nat := buffer.data.length - buffer.readerIndex

def readableSpan (buffer : Buffer) : Bytes := (buffer.data.drop buffer.readerIndex).take buffer.readableBytes

def append (buffer : Buffer) (data : Bytes) : Buffer := { buffer with data := buffer.data ++ data }

def clear (_ : Buffer) : Buffer := { data := [], readerIndex := 0 }

def compactIfNeeded (buffer : Buffer) : Buffer :=
  if buffer.readerIndex = 0 then buffer
  else if buffer.readerIndex = buffer.data.length then buffer.clear
  else if buffer.readerIndex > buffer.data.length / 2 then
    { data := buffer.data.drop buffer.readerIndex, readerIndex := 0 }
  else buffer

def consume (buffer : Buffer) (bytes : Nat) : Buffer :=
  { buffer with readerIndex := buffer.readerIndex + min bytes buffer.readableBytes }.compactIfNeeded

/-- `WriteToFd`, with the bytes that reach the descriptor. A call that nothing is given for would block. -/
def writeToFd : List WriteResult → Buffer → Result Unit × Buffer × Bytes
  | [], buffer => (.ok (), buffer, [])
  | result :: rest, buffer =>
      if buffer.readableBytes > 0 then
        match result with
        | .again => (.ok (), buffer, [])
        | .failed reason => (.error (.ioError ("write: " ++ reason)), buffer, [])
        | .count n =>
            if n = 0 then (.ok (), buffer, [])
            else
              let (status, left, written) := writeToFd rest (buffer.consume n)
              (status, left, buffer.readableSpan.take n ++ written)
      else (.ok (), buffer, [])

/-! ### The readable bytes -/

/-- The read index is within the stored bytes. -/
def Valid (buffer : Buffer) : Prop := buffer.readerIndex ≤ buffer.data.length

theorem readableSpan_eq (buffer : Buffer) : buffer.readableSpan = buffer.data.drop buffer.readerIndex := by
  apply List.take_of_length_le
  rw [List.length_drop, readableBytes]

theorem length_readableSpan (buffer : Buffer) : buffer.readableSpan.length = buffer.readableBytes := by
  rw [readableSpan_eq, List.length_drop, readableBytes]

theorem Valid.append {buffer : Buffer} (h : buffer.Valid) (data : Bytes) :
    (buffer.append data).Valid ∧ (buffer.append data).readableSpan = buffer.readableSpan ++ data := by
  constructor
  · show buffer.readerIndex ≤ (buffer.data ++ data).length
    rw [List.length_append]
    exact Nat.le_add_right_of_le h
  · rw [readableSpan_eq, readableSpan_eq]
    exact List.drop_append_of_le_length h

/-- Compaction keeps the readable bytes: it drops what is in front of them. -/
theorem Valid.compactIfNeeded {buffer : Buffer} (h : buffer.Valid) :
    buffer.compactIfNeeded.Valid ∧ buffer.compactIfNeeded.readableSpan = buffer.readableSpan := by
  unfold Buffer.compactIfNeeded
  split_ifs with hzero hall hhalf
  · exact ⟨h, rfl⟩
  · refine ⟨Nat.le_refl _, ?_⟩
    rw [readableSpan_eq, readableSpan_eq, hall, List.drop_length]
    rfl
  · refine ⟨Nat.zero_le _, ?_⟩
    rw [readableSpan_eq, readableSpan_eq]
    rfl
  · exact ⟨h, rfl⟩

theorem Valid.consume {buffer : Buffer} (h : buffer.Valid) (bytes : Nat) :
    (buffer.consume bytes).Valid ∧ (buffer.consume bytes).readableSpan = buffer.readableSpan.drop bytes := by
  have hmoved : Valid { buffer with readerIndex := buffer.readerIndex + min bytes buffer.readableBytes } := by
    unfold Valid readableBytes at *
    dsimp only
    omega
  refine ⟨hmoved.compactIfNeeded.1, hmoved.compactIfNeeded.2.trans ?_⟩
  rw [readableSpan_eq, readableSpan_eq, List.drop_drop]
  rcases Nat.le_total bytes buffer.readableBytes with hle | hge
  · rw [Nat.min_eq_left hle]
  · unfold readableBytes at hge ⊢
    dsimp only
    rw [List.drop_of_length_le (by omega), List.drop_of_length_le (by omega)]

end Buffer

/-! ### A queue of bytes -/

/-- The operations of a buffer. -/
inductive BufferOperation where
  | append (data : Bytes)
  | consume (bytes : Nat)
  | clear
  | writeToFd (results : List WriteResult)

/-- An operation that removes nothing but what it writes. -/
def BufferOperation.isTransfer : BufferOperation → Bool
  | .append _ | .writeToFd _ => true
  | .consume _ | .clear => false

/-- The bytes that an operation brings in. -/
def BufferOperation.appended : BufferOperation → Bytes
  | .append data => data
  | _ => []

/-- How many of `left` bytes some calls of `write` take. -/
def accepted : List WriteResult → Nat → Nat
  | .count n :: rest, left => if left = 0 ∨ n = 0 then 0 else min n left + accepted rest (left - min n left)
  | _, _ => 0

namespace ByteQueue

/-- The bytes that an operation removes from the front of the queue. -/
def removed (queue : Bytes) : BufferOperation → Bytes
  | .append _ => []
  | .consume bytes => queue.take bytes
  | .clear => queue
  | .writeToFd results => queue.take (accepted results queue.length)

/-- The bytes that an operation writes. -/
def written (queue : Bytes) : BufferOperation → Bytes
  | .writeToFd results => removed queue (.writeToFd results)
  | _ => []

/-- An operation takes bytes from the front of the queue or puts bytes behind it. -/
def step (queue : Bytes) : BufferOperation → Bytes
  | .append data => queue ++ data
  | .consume bytes => queue.drop bytes
  | .clear => []
  | .writeToFd results => queue.drop (accepted results queue.length)

theorem removed_append_step (queue : Bytes) (operation : BufferOperation) :
    removed queue operation ++ step queue operation = queue ++ operation.appended := by
  cases operation with
  | append data => rfl
  | consume bytes => exact (List.take_append_drop _ _).trans (List.append_nil _).symm
  | clear => rfl
  | writeToFd results => exact (List.take_append_drop _ _).trans (List.append_nil _).symm

theorem written_of_isTransfer (queue : Bytes) {operation : BufferOperation} (h : operation.isTransfer = true) :
    written queue operation = removed queue operation := by
  cases operation with
  | append data => rfl
  | consume bytes => exact nomatch h
  | clear => exact nomatch h
  | writeToFd results => rfl

end ByteQueue

/-! ### The buffer is a queue -/

namespace Buffer

def step (buffer : Buffer) : BufferOperation → Buffer
  | .append data => buffer.append data
  | .consume bytes => buffer.consume bytes
  | .clear => buffer.clear
  | .writeToFd results => (writeToFd results buffer).2.1

/-- The bytes that an operation writes. -/
def written (buffer : Buffer) : BufferOperation → Bytes
  | .writeToFd results => (writeToFd results buffer).2.2
  | _ => []

/-- A buffer holds a queue. -/
def Holds (buffer : Buffer) (queue : Bytes) : Prop := buffer.Valid ∧ buffer.readableSpan = queue

theorem Holds.writeToFd {buffer : Buffer} {queue : Bytes} (h : buffer.Holds queue) (results : List WriteResult) :
    (writeToFd results buffer).2.1.Holds (queue.drop (accepted results queue.length)) ∧
      (writeToFd results buffer).2.2 = queue.take (accepted results queue.length) := by
  induction results generalizing buffer queue with
  | nil => exact ⟨h, rfl⟩
  | cons result rest ih =>
      obtain ⟨hvalid, rfl⟩ := h
      have hunmoved : buffer.Holds (buffer.readableSpan.drop 0) := ⟨hvalid, rfl⟩
      cases result with
      | again =>
          rw [Buffer.writeToFd, ite_self]
          exact ⟨hunmoved, rfl⟩
      | failed reason =>
          rw [Buffer.writeToFd]
          split_ifs
          · exact ⟨hunmoved, rfl⟩
          · exact ⟨hunmoved, rfl⟩
      | count n =>
          rw [Buffer.writeToFd, accepted, ← length_readableSpan]
          by_cases hnone : buffer.readableSpan.length = 0
          · rw [if_neg (by omega), if_pos (Or.inl hnone)]
            exact ⟨hunmoved, rfl⟩
          by_cases hzero : n = 0
          · rw [if_pos (by omega), if_pos hzero, if_pos (Or.inr hzero)]
            exact ⟨hunmoved, rfl⟩
          have hconsumed : (buffer.consume n).Holds (buffer.readableSpan.drop n) := hvalid.consume n
          obtain ⟨hleft, hwritten⟩ := ih hconsumed
          have hlength : (buffer.readableSpan.drop n).length =
              buffer.readableSpan.length - min n buffer.readableSpan.length := by
            rw [List.length_drop]
            omega
          rw [hlength] at hleft hwritten
          rw [if_pos (by omega), if_neg hzero, if_neg (by omega), List.take_add, ← List.take_eq_take_min,
            ← List.drop_drop, ← List.drop_eq_drop_min, ← hwritten]
          exact ⟨hleft, rfl⟩

/-- Every operation does to the readable bytes what it does to the queue. -/
theorem Holds.step {buffer : Buffer} {queue : Bytes} (h : buffer.Holds queue) (operation : BufferOperation) :
    buffer.written operation = ByteQueue.written queue operation ∧
      (buffer.step operation).Holds (ByteQueue.step queue operation) := by
  cases operation with
  | append data => exact ⟨rfl, (h.1.append data).1, (h.1.append data).2.trans (congrArg (· ++ data) h.2)⟩
  | consume bytes => exact ⟨rfl, (h.1.consume bytes).1, (h.1.consume bytes).2.trans (congrArg (List.drop bytes) h.2)⟩
  | clear => exact ⟨rfl, Nat.le_refl _, rfl⟩
  | writeToFd results => exact ⟨(h.writeToFd results).2, (h.writeToFd results).1⟩

theorem holds_fresh : Holds {} [] := ⟨Nat.le_refl _, rfl⟩

/-! ### The output of a connection -/

theorem handleWrite_output {connection : TcpConnection} (hopen : connection.isOpen = true) (count : Nat)
    (failed : Bool) :
    (connection.handleWrite count failed).output = connection.output.drop count ∧
      (connection.handleWrite count failed).written = connection.written ++ connection.output.take count ∧
      (connection.handleWrite count failed).appended = connection.appended := by
  rw [TcpConnection.handleWrite, if_neg (by rw [hopen]; exact nofun)]
  dsimp only
  split_ifs
  · exact ⟨rfl, rfl, rfl⟩
  · exact ⟨rfl, rfl, rfl⟩
  · exact ⟨rfl, rfl, rfl⟩

/-- What happens to the output of a connection: a frame is appended, or the socket is writable. -/
inductive OutputEvent where
  | frame (bytes : Bytes)
  | writable (results : List WriteResult)

/-- A connection with the buffer of its output. A closed one writes nothing. -/
def outputStep : TcpConnection × Buffer → OutputEvent → TcpConnection × Buffer
  | (connection, buffer), .frame bytes => (connection.append bytes, buffer.append bytes)
  | (connection, buffer), .writable results =>
      if connection.isOpen = false then (connection, buffer)
      else
        (connection.handleWrite (accepted results connection.output.length) (!(writeToFd results buffer).1.isOk),
          (writeToFd results buffer).2.1)

/-- The buffer holds the output, which is what has been appended and not written. -/
def HoldsOutput (state : TcpConnection × Buffer) : Prop :=
  state.2.Holds state.1.output ∧ state.1.written ++ state.1.output = state.1.appended.flatten

theorem HoldsOutput.step {state : TcpConnection × Buffer} (h : HoldsOutput state) (event : OutputEvent) :
    HoldsOutput (outputStep state event) := by
  obtain ⟨connection, buffer⟩ := state
  obtain ⟨hheld, hwritten⟩ := h
  cases event with
  | frame bytes =>
      refine ⟨(hheld.step (.append bytes)).2, ?_⟩
      show connection.written ++ (connection.output ++ bytes) = (connection.appended ++ [bytes]).flatten
      rw [← List.append_assoc, hwritten, List.flatten_append, List.flatten_singleton]
  | writable results =>
      rw [outputStep]
      split_ifs with hclosed
      · exact ⟨hheld, hwritten⟩
      · obtain ⟨houtput, hstream, happended⟩ := handleWrite_output (Bool.eq_true_of_not_eq_false hclosed)
          (accepted results connection.output.length) (!(writeToFd results buffer).1.isOk)
        refine ⟨?_, ?_⟩
        · rw [houtput]
          exact (hheld.writeToFd results).1
        · rw [hstream, houtput, happended, List.append_assoc, List.take_append_drop]
          exact hwritten

/-- **The output of a connection is its buffer**: what has been written, followed by what the buffer holds, is what has
been appended. -/
theorem written_append_readableSpan (events : List OutputEvent) :
    (Runs.run outputStep ({}, {}) events).1.written ++ (Runs.run outputStep ({}, {}) events).2.readableSpan =
      (Runs.run outputStep ({}, {}) events).1.appended.flatten := by
  have hholds : HoldsOutput (Runs.run outputStep ({}, {}) events) :=
    Runs.run_invariant outputStep ⟨holds_fresh, rfl⟩ fun _ event _ h => h.step event
  rw [hholds.1.2]
  exact hholds.2

end Buffer

/-! ### Runs -/

/-- **A buffer is a queue.** After any operations the readable bytes are the content of the queue, the read index is
within the stored bytes, and the same bytes have been written. Whatever the operations have removed, followed by the
readable bytes, is what they have appended; if they only append and write, then so are the bytes that they have
written. -/
theorem buffer_is_queue (operations : List BufferOperation) :
    (Runs.run Buffer.step {} operations).readableSpan = Runs.run ByteQueue.step [] operations ∧
      (Runs.run Buffer.step {} operations).readerIndex ≤ (Runs.run Buffer.step {} operations).data.length ∧
      (∀ buffer : Buffer, buffer.readerIndex ≤ buffer.data.length →
        buffer.compactIfNeeded.readableSpan = buffer.readableSpan) ∧
      Runs.outputs Buffer.step Buffer.written {} operations =
        Runs.outputs ByteQueue.step ByteQueue.written [] operations ∧
      Runs.outputs ByteQueue.step ByteQueue.removed [] operations ++ (Runs.run Buffer.step {} operations).readableSpan =
        (operations.map BufferOperation.appended).flatten ∧
      ((∀ operation ∈ operations, operation.isTransfer = true) →
        Runs.outputs Buffer.step Buffer.written {} operations ++ (Runs.run Buffer.step {} operations).readableSpan =
          (operations.map BufferOperation.appended).flatten) := by
  obtain ⟨hvalid, hspan⟩ := Runs.run_related Buffer.step Buffer.holds_fresh
    (fun _ _ operation h => (h.step operation).2) operations
  have hwritten : Runs.outputs Buffer.step Buffer.written {} operations =
      Runs.outputs ByteQueue.step ByteQueue.written [] operations :=
    Runs.outputs_related Buffer.step Buffer.holds_fresh fun _ _ operation _ h => h.step operation
  have hremoved : Runs.outputs ByteQueue.step ByteQueue.removed [] operations ++
      (Runs.run Buffer.step {} operations).readableSpan = (operations.map BufferOperation.appended).flatten := by
    rw [hspan]
    exact @Runs.outputs_append_content _ _ ByteQueue.step _ _ id _ ByteQueue.removed_append_step [] operations
  refine ⟨hspan, hvalid, fun buffer h => (Buffer.Valid.compactIfNeeded h).2, hwritten, hremoved, fun htransfer => ?_⟩
  have hsame : Runs.outputs ByteQueue.step ByteQueue.written [] operations =
      Runs.outputs ByteQueue.step ByteQueue.removed [] operations := by
    apply Runs.outputs_related ByteQueue.step (Eq.refl [])
    rintro queue _ operation hoperation rfl
    exact ⟨ByteQueue.written_of_isTransfer queue (htransfer operation hoperation), rfl⟩
  rw [hwritten, hsame, hremoved]

/-- Two chunks, of which two bytes, one byte and then nothing are taken. -/
theorem buffer_is_queue_value :
    Runs.outputs Buffer.step Buffer.written {}
          [.append [1, 2, 3], .writeToFd [.count 2, .again], .append [4, 5], .writeToFd [.count 1, .failed "reset"]] ++
        (Runs.run Buffer.step {}
          [.append [1, 2, 3], .writeToFd [.count 2, .again], .append [4, 5],
            .writeToFd [.count 1, .failed "reset"]]).readableSpan = [1, 2, 3, 4, 5] ∧
      (Buffer.compactIfNeeded ⟨[1, 2, 3], 2⟩).readableSpan = [3] := by
  obtain ⟨-, -, hcompact, -, -, htransfer⟩ := buffer_is_queue
    [.append [1, 2, 3], .writeToFd [.count 2, .again], .append [4, 5], .writeToFd [.count 1, .failed "reset"]]
  exact ⟨htransfer (by decide +kernel), hcompact ⟨[1, 2, 3], 2⟩ (by decide)⟩

end LogMq
