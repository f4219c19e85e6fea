import LogMq.LibByteCodec

/-! Readers that leave a log. A logged reader reads like an ordinary one and notes entries on its way; what it has
noted before a failure stays in the log. Forgetting the log gives the ordinary reader. -/

namespace ByteCodec

/-- A reader and the entries it notes. -/
def Logged (ω ε α : Type) := List UInt8 → List ω × Except ε (α × List UInt8)

namespace Logged

variable {ω ε α β : Type}

/-- A failure keeps the log. -/
def andThen (first : Logged ω ε α) (next : α → Logged ω ε β) : Logged ω ε β := fun data =>
  match first data with
  | (log, .error e) => (log, .error e)
  | (log, .ok (a, rest)) => (log ++ (next a rest).1, (next a rest).2)

instance : Monad (Logged ω ε) where
  pure a := fun data => ([], .ok (a, data))
  bind := andThen

/-- A reader that notes nothing. -/
def lift (reader : Reader ε α) : Logged ω ε α := fun data => ([], reader data)

/-- An entry about the unread bytes. -/
def note (entry : List UInt8 → ω) : Logged ω ε Unit := fun data => ([entry data], .ok ((), data))

/-- The reader without its log. -/
def erase (reader : Logged ω ε α) : Reader ε α := fun data => (reader data).2

@[simp] theorem erase_lift (reader : Reader ε α) : erase (lift reader : Logged ω ε α) = reader := rfl

@[simp] theorem erase_pure (a : α) : erase (pure a : Logged ω ε α) = pure a := rfl

@[simp] theorem erase_bind (first : Logged ω ε α) (next : α → Logged ω ε β) :
    erase (first >>= next) = erase first >>= fun a => erase (next a) := by
  funext data
  show (andThen first next data).2 = (first data).2 >>= fun p => (next p.1 p.2).2
  unfold andThen
  rcases first data with ⟨log, e | ⟨a, rest⟩⟩
  · rfl
  · rfl

@[simp] theorem erase_note (entry : List UInt8 → ω) : erase (note entry : Logged ω ε Unit) = pure () := rfl

/-! ### What is noted -/

/-- A logged reader notes the entry on these bytes. -/
def Notes (reader : Logged ω ε α) (data : List UInt8) (entry : ω) : Prop := entry ∈ (reader data).1

theorem not_notes_lift (reader : Reader ε α) (data : List UInt8) (entry : ω) :
    ¬ Notes (lift reader : Logged ω ε α) data entry :=
  List.not_mem_nil

theorem not_notes_pure (a : α) (data : List UInt8) (entry : ω) : ¬ Notes (pure a : Logged ω ε α) data entry :=
  List.not_mem_nil

/-- What comes behind a silent reader notes if the reader succeeds. -/
theorem notes_lift_bind {reader : Reader ε α} {next : α → Logged ω ε β} {data : List UInt8} {entry : ω} :
    Notes (lift reader >>= next) data entry ↔ ∃ a rest, reader data = .ok (a, rest) ∧ Notes (next a) rest entry := by
  show entry ∈ (andThen (lift reader) next data).1 ↔ _
  unfold andThen lift
  cases hread : reader data with
  | error e =>
      constructor
      · intro h
        cases h
      · rintro ⟨a, rest, h, -⟩
        cases h
  | ok p =>
      constructor
      · intro h
        exact ⟨p.1, p.2, rfl, h⟩
      · rintro ⟨a, rest, h, hnotes⟩
        cases h
        exact hnotes

/-- A result computed from what was read notes nothing more. -/
theorem notes_bind_pure {first : Logged ω ε α} {result : α → β} {data : List UInt8} {entry : ω} :
    Notes (first >>= fun a => pure (result a)) data entry ↔ Notes first data entry := by
  show entry ∈ (andThen first (fun a => pure (result a)) data).1 ↔ entry ∈ (first data).1
  unfold andThen
  rcases first data with ⟨log, e | ⟨a, rest⟩⟩
  · rfl
  · show entry ∈ log ++ [] ↔ entry ∈ log
    rw [List.append_nil]

theorem notes_reads_bind {reader : Reader ε α} {admits : α → Prop} {layout : α → List UInt8}
    (h : Reads reader admits layout) {next : α → Logged ω ε β} {data : List UInt8} {entry : ω} :
    Notes (lift reader >>= next) data entry ↔
      ∃ a rest, (admits a ∧ data = layout a ++ rest) ∧ Notes (next a) rest entry := by
  simp only [notes_lift_bind, h.iff]

theorem notes_note_bind {write : List UInt8 → ω} {next : Unit → Logged ω ε β} {data : List UInt8} {entry : ω} :
    Notes (note write >>= next) data entry ↔ entry = write data ∨ Notes (next ()) data entry :=
  List.mem_cons

end Logged

end ByteCodec
