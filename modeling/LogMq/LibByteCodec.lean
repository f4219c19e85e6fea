import Mathlib.Tactic

/-! Writers and readers of byte strings that may fail, and what it means that they write and read a
layout. A writer appends the bytes of the values it admits and fails on the others. A reader succeeds
exactly on the strings that start with the bytes of an admitted value, and returns that value and the
bytes after it. A reader of a layout inverts its writer and accepts one spelling of each value. -/

namespace ByteCodec

variable {ε α β : Type}

/-- A reader consumes bytes from the front of the unread ones. -/
abbrev Reader (ε α : Type) := StateT (List UInt8) (Except ε) α

/-- The reader succeeds with `a` exactly on the bytes of an admitted `a`, whatever follows them. -/
def Reads (reader : Reader ε α) (admits : α → Prop) (layout : α → List UInt8) : Prop :=
  ∀ data a rest, reader data = .ok (a, rest) ↔ admits a ∧ data = layout a ++ rest

theorem Reads.iff {reader : Reader ε α} {admits : α → Prop} {layout : α → List UInt8}
    (h : Reads reader admits layout) {data : List UInt8} {a : α} {rest : List UInt8} :
    reader data = .ok (a, rest) ↔ admits a ∧ data = layout a ++ rest := h data a rest

theorem Reads.congr {reader : Reader ε α} {admits admits' : α → Prop} {layout layout' : α → List UInt8}
    (h : Reads reader admits layout) (hadmits : ∀ a, admits a ↔ admits' a) (hlayout : ∀ a, layout a = layout' a) :
    Reads reader admits' layout' := by
  intro data a rest
  rw [h.iff, hadmits, hlayout]

/-! ### Sequences -/

theorem bind_ok {reader : Reader ε α} {next : α → Reader ε β} {data : List UInt8} {b : β} {rest : List UInt8} :
    (reader >>= next) data = .ok (b, rest) ↔
      ∃ a middle, reader data = .ok (a, middle) ∧ next a middle = .ok (b, rest) := by
  show (reader data >>= fun p => next p.1 p.2) = .ok (b, rest) ↔ _
  cases hread : reader data with
  | error e =>
      constructor
      · intro h
        cases h
      · rintro ⟨a, middle, h, -⟩
        cases h
  | ok p =>
      constructor
      · intro h
        exact ⟨p.1, p.2, rfl, h⟩
      · rintro ⟨a, middle, h, hnext⟩
        cases h
        exact hnext

theorem pure_ok {a b : α} {data rest : List UInt8} :
    (pure a : Reader ε α) data = .ok (b, rest) ↔ b = a ∧ data = rest := by
  show Except.ok (a, data) = .ok (b, rest) ↔ _
  rw [Except.ok.injEq, Prod.mk.injEq, @eq_comm _ a b]

/-- A check that reads nothing. -/
def require (condition : Prop) [Decidable condition] (error : ε) : Reader ε Unit :=
  if condition then pure () else throw error

theorem require_ok {condition : Prop} [Decidable condition] {error : ε} {u : Unit} {data rest : List UInt8} :
    require condition error data = .ok (u, rest) ↔ condition ∧ data = rest := by
  unfold require
  by_cases h : condition
  · rw [if_pos h, pure_ok]
    exact and_congr_left fun _ => ⟨fun _ => h, fun _ => rfl⟩
  · rw [if_neg h]
    constructor
    · intro hthrow
      cases hthrow
    · rintro ⟨hc, -⟩
      exact absurd hc h

/-! ### Records, field by field

A record is read one field after the other. `known` collects what the fields read so far say about it. -/

/-- `Reads` for a record of which `known` holds already. -/
def ReadsGiven (known : α → Prop) (reader : Reader ε α) (admits : α → Prop) (layout : α → List UInt8) : Prop :=
  ∀ data a rest, reader data = .ok (a, rest) ↔ known a ∧ admits a ∧ data = layout a ++ rest

theorem ReadsGiven.reads {reader : Reader ε α} {admits : α → Prop} {layout : α → List UInt8}
    (h : ReadsGiven (fun _ => True) reader admits layout) : Reads reader admits layout := by
  intro data a rest
  rw [h data a rest]
  exact ⟨fun h => h.2, fun h => ⟨trivial, h⟩⟩

/-- What is admitted may be stated with what is known. -/
theorem ReadsGiven.restate {known : α → Prop} {reader : Reader ε α} {admits : α → Prop} {layout : α → List UInt8}
    (admits' : α → Prop) (h : ReadsGiven known reader admits layout)
    (hadmits : ∀ a, known a → (admits a ↔ admits' a)) : ReadsGiven known reader admits' layout := by
  intro data a rest
  rw [h data a rest]
  exact and_congr_right fun hknown => and_congr_left fun _ => hadmits a hknown

/-- The next field of the record. -/
theorem ReadsGiven.field {known : β → Prop} {first : Reader ε α} {next : α → Reader ε β}
    {admits : α → Prop} {layout : α → List UInt8} {restAdmits : β → Prop} {restLayout : β → List UInt8}
    (project : β → α) (hfirst : Reads first admits layout)
    (hnext : ∀ a, admits a → ReadsGiven (fun b => known b ∧ project b = a) (next a) restAdmits restLayout) :
    ReadsGiven known (first >>= next) (fun b => admits (project b) ∧ restAdmits b)
      (fun b => layout (project b) ++ restLayout b) := by
  intro data b rest
  rw [bind_ok]
  constructor
  · rintro ⟨a, middle, ha, hb⟩
    obtain ⟨hadmits, rfl⟩ := hfirst.iff.mp ha
    obtain ⟨⟨hknown, rfl⟩, hrest, rfl⟩ := (hnext a hadmits middle b rest).mp hb
    exact ⟨hknown, ⟨hadmits, hrest⟩, (List.append_assoc _ _ _).symm⟩
  · rintro ⟨hknown, ⟨hadmits, hrest⟩, rfl⟩
    refine ⟨project b, restLayout b ++ rest, hfirst.iff.mpr ⟨hadmits, List.append_assoc _ _ _⟩, ?_⟩
    exact (hnext _ hadmits _ _ _).mpr ⟨⟨hknown, rfl⟩, hrest, rfl⟩

/-- A check on what is known of the record. -/
theorem ReadsGiven.check {known : α → Prop} {condition : Prop} [Decidable condition] {error : ε}
    {next : Unit → Reader ε α} {restAdmits : α → Prop} {restLayout : α → List UInt8} (checked : α → Prop)
    (hchecked : ∀ a, known a → (condition ↔ checked a))
    (hnext : condition → ReadsGiven known (next ()) restAdmits restLayout) :
    ReadsGiven known (require condition error >>= next) (fun a => checked a ∧ restAdmits a) restLayout := by
  intro data a rest
  simp only [bind_ok, require_ok]
  constructor
  · rintro ⟨_, _, ⟨hcondition, rfl⟩, ha⟩
    obtain ⟨hknown, hrest, rfl⟩ := (hnext hcondition _ _ _).mp ha
    exact ⟨hknown, ⟨(hchecked a hknown).mp hcondition, hrest⟩, rfl⟩
  · rintro ⟨hknown, ⟨hcheck, hrest⟩, rfl⟩
    have hcondition := (hchecked a hknown).mpr hcheck
    exact ⟨(), _, ⟨hcondition, rfl⟩, (hnext hcondition _ _ _).mpr ⟨hknown, hrest, rfl⟩⟩

/-- A check on the unread bytes, which reads none of them. -/
def requireUnread (condition : List UInt8 → Prop) [DecidablePred condition] (error : ε) : Reader ε Unit :=
  fun data => if condition data then .ok ((), data) else .error error

theorem requireUnread_ok {condition : List UInt8 → Prop} [DecidablePred condition] {error : ε} {u : Unit}
    {data rest : List UInt8} :
    requireUnread condition error data = .ok (u, rest) ↔ condition data ∧ data = rest := by
  unfold requireUnread
  by_cases h : condition data
  · rw [if_pos h]
    constructor
    · intro hok
      cases hok
      exact ⟨h, rfl⟩
    · rintro ⟨-, rfl⟩
      rfl
  · rw [if_neg h]
    constructor
    · intro hok
      cases hok
    · rintro ⟨hc, -⟩
      exact absurd hc h

/-- A check on the unread bytes that the bytes of an admitted record always pass. -/
theorem ReadsGiven.checkUnread {known : α → Prop} {condition : List UInt8 → Prop} [DecidablePred condition]
    {error : ε} {next : Unit → Reader ε α} {admits : α → Prop} {layout : α → List UInt8}
    (hnext : ReadsGiven known (next ()) admits layout)
    (hcondition : ∀ a, known a → admits a → ∀ rest, condition (layout a ++ rest)) :
    ReadsGiven known (requireUnread condition error >>= next) admits layout := by
  intro data a rest
  simp only [bind_ok, requireUnread_ok]
  constructor
  · rintro ⟨_, _, ⟨-, rfl⟩, ha⟩
    exact (hnext _ _ _).mp ha
  · rintro ⟨hknown, hadmits, rfl⟩
    refine ⟨(), _, ⟨hcondition a hknown hadmits rest, rfl⟩, ?_⟩
    exact (hnext _ _ _).mpr ⟨hknown, hadmits, rfl⟩

/-- The record is complete: what is known and its other fields determine it. -/
theorem ReadsGiven.done {known : α → Prop} {a : α} (others : α → Prop) (hknown : ∀ b, b = a ↔ known b ∧ others b) :
    ReadsGiven known (pure a : Reader ε α) others (fun _ => []) := by
  intro data b rest
  rw [pure_ok, hknown, and_assoc]
  rfl

/-! ### Counted items -/

/-- A number of items, one after the other. -/
def readMany (item : Reader ε α) : Nat → Reader ε (List α)
  | 0 => pure []
  | count + 1 => do
      let a ← item
      let rest ← readMany item count
      return a :: rest

theorem Reads.many {item : Reader ε α} {admits : α → Prop} {layout : α → List UInt8}
    (h : Reads item admits layout) (count : Nat) :
    Reads (readMany item count) (fun items => items.length = count ∧ ∀ a ∈ items, admits a)
      (fun items => items.flatMap layout) := by
  induction count with
  | zero =>
      intro data items rest
      rw [readMany, pure_ok]
      constructor
      · rintro ⟨rfl, rfl⟩
        exact ⟨⟨rfl, fun a ha => by cases ha⟩, rfl⟩
      · rintro ⟨⟨hlength, -⟩, hdata⟩
        cases List.length_eq_zero_iff.mp hlength
        exact ⟨rfl, hdata⟩
  | succ count ih =>
      intro data items rest
      simp only [readMany, bind_ok, pure_ok, h.iff, ih.iff]
      constructor
      · rintro ⟨a, _, ⟨ha, rfl⟩, tail, _, ⟨⟨rfl, htail⟩, rfl⟩, rfl, rfl⟩
        refine ⟨⟨rfl, ?_⟩, ?_⟩
        · intro b hb
          cases hb with
          | head => exact ha
          | tail _ hmem => exact htail b hmem
        · rw [List.flatMap_cons, List.append_assoc]
      · rintro ⟨⟨hlength, hall⟩, rfl⟩
        cases items with
        | nil => cases hlength
        | cons a tail =>
            refine ⟨a, tail.flatMap layout ++ rest, ⟨hall a List.mem_cons_self, ?_⟩, tail, rest,
              ⟨⟨Nat.succ.inj hlength, fun b hb => hall b (List.mem_cons_of_mem _ hb)⟩, rfl⟩, rfl, rfl⟩
            rw [List.flatMap_cons, List.append_assoc]

/-! ### Writers -/

/-- The writer appends the bytes of `a` if it admits `a`, and fails otherwise. -/
def Writes (writer : α → List UInt8 → Except ε (List UInt8)) (admits : α → Prop)
    (layout : α → List UInt8) : Prop :=
  ∀ a output bytes, writer a output = .ok bytes ↔ admits a ∧ bytes = output ++ layout a

theorem Writes.iff {writer : α → List UInt8 → Except ε (List UInt8)} {admits : α → Prop}
    {layout : α → List UInt8} (h : Writes writer admits layout) {a : α} {output bytes : List UInt8} :
    writer a output = .ok bytes ↔ admits a ∧ bytes = output ++ layout a := h a output bytes

theorem Writes.many {writer : α → List UInt8 → Except ε (List UInt8)} {admits : α → Prop}
    {layout : α → List UInt8} (h : Writes writer admits layout) :
    Writes (fun (items : List α) output => items.foldlM (fun output a => writer a output) output)
      (fun items => ∀ a ∈ items, admits a) (fun items => items.flatMap layout) := by
  intro items
  induction items with
  | nil =>
      intro output bytes
      show Except.ok output = .ok bytes ↔ _
      simp [eq_comm]
  | cons a tail ih =>
      intro output bytes
      show (writer a output >>= fun output => tail.foldlM _ output) = .ok bytes ↔ _
      simp only [List.forall_mem_cons, List.flatMap_cons]
      constructor
      · intro hbytes
        cases hhead : writer a output with
        | error e =>
            rw [hhead] at hbytes
            cases hbytes
        | ok middle =>
            rw [hhead] at hbytes
            obtain ⟨ha, rfl⟩ := (h a output middle).mp hhead
            obtain ⟨htail, rfl⟩ := (ih _ bytes).mp hbytes
            exact ⟨⟨ha, htail⟩, by rw [List.append_assoc]⟩
      · rintro ⟨⟨ha, htail⟩, rfl⟩
        rw [(h a output _).mpr ⟨ha, rfl⟩]
        exact (ih _ _).mpr ⟨htail, by rw [List.append_assoc]⟩

end ByteCodec
