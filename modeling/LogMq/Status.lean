import Mathlib.Tactic

/-! Result values, byte strings and the fixed-width numbers the sources share. A `Status` other than
ok travels as the error of a `Result`. -/

namespace LogMq

/-- A byte buffer, file content or `std::string`. -/
abbrev Bytes := List UInt8

inductive ErrorCode where
  | ok
  | invalidArgument
  | notFound
  | ioError
  | corruption
  | timeout
  | notLeader
  | internal
  deriving DecidableEq, Repr

structure Status where
  code : ErrorCode
  message : String
  deriving DecidableEq, Repr

namespace Status

def invalidArgument (message : String) : Status := ⟨.invalidArgument, message⟩

def notFound (message : String) : Status := ⟨.notFound, message⟩

def ioError (message : String) : Status := ⟨.ioError, message⟩

def corruption (message : String) : Status := ⟨.corruption, message⟩

def timeout (message : String) : Status := ⟨.timeout, message⟩

def internal (message : String) : Status := ⟨.internal, message⟩

end Status

abbrev Result (α : Type) := Except Status α

/-- Success of a sequence is success of both parts. -/
theorem Result.bind_eq_ok {ε α β : Type} {x : Except ε α} {f : α → Except ε β} {r : β} :
    (x >>= f) = .ok r ↔ ∃ a, x = .ok a ∧ f a = .ok r := by
  constructor
  · intro h
    cases x with
    | error e => cases h
    | ok a => exact ⟨a, rfl, h⟩
  · rintro ⟨a, rfl, hf⟩
    exact hf

/-- A check that rejects, followed by the rest. -/
theorem Result.reject_eq_ok {ε α : Type} {c : Prop} [Decidable c] {e : ε} {x : Except ε α} {r : α} :
    (if c then throw e else x) = .ok r ↔ ¬ c ∧ x = .ok r := by
  by_cases h : c
  · rw [if_pos h]
    constructor
    · intro hthrow
      cases hthrow
    · rintro ⟨hc, -⟩
      exact absurd h hc
  · rw [if_neg h]
    exact ⟨fun hx => ⟨h, hx⟩, fun hx => hx.2⟩

theorem Result.pure_eq_ok {ε α : Type} {a r : α} : (pure a : Except ε α) = .ok r ↔ r = a := by
  show Except.ok a = .ok r ↔ _
  rw [Except.ok.injEq, eq_comm]

theorem Result.toOption_eq_some {ε α : Type} {x : Except ε α} {r : α} : x.toOption = some r ↔ x = .ok r := by
  cases x with
  | error e => exact ⟨fun h => (nomatch h), fun h => (nomatch h)⟩
  | ok a => exact ⟨fun h => congrArg Except.ok (Option.some.inj h), fun h => congrArg some (Except.ok.inj h)⟩

/-! ### Fixed-width limits and casts

Offsets are `int64_t` values, modelled by `Int`; sizes, counts and positions are unsigned and modelled
by `Nat`. -/

/-- `std::numeric_limits<Offset>::max()`. -/
def maxOffset : Int := 2 ^ 63 - 1

/-- `std::numeric_limits<std::size_t>::max()`, also the largest `std::uint64_t`. -/
def maxSize : Nat := 2 ^ 64 - 1

/-- `std::numeric_limits<std::uint32_t>::max()`. -/
def maxUInt32 : Nat := 2 ^ 32 - 1

/-- `static_cast<std::uint64_t>` of an offset. -/
def offsetToUInt64 (offset : Int) : Nat := (offset % 2 ^ 64).toNat

/-- `static_cast<Offset>` of an unsigned 64-bit number. -/
def offsetOfUInt64 (value : Nat) : Int := if value < 2 ^ 63 then value else value - 2 ^ 64

theorem offsetToUInt64_lt (offset : Int) : offsetToUInt64 offset < 256 ^ 8 := by
  unfold offsetToUInt64
  omega

theorem offsetToUInt64_of_nonneg {offset : Int} (h0 : 0 ≤ offset) (hmax : offset ≤ maxOffset) :
    (offsetToUInt64 offset : Int) = offset := by
  unfold offsetToUInt64
  unfold maxOffset at hmax
  omega

theorem offsetOfUInt64_toUInt64 {offset : Int} (h0 : 0 ≤ offset) (hmax : offset ≤ maxOffset) :
    offsetOfUInt64 (offsetToUInt64 offset) = offset := by
  have hcast := offsetToUInt64_of_nonneg h0 hmax
  unfold offsetOfUInt64
  unfold maxOffset at hmax
  rw [if_pos (by omega), hcast]

theorem offsetOfUInt64_injective {left right : Nat} (hl : left < 256 ^ 8) (hr : right < 256 ^ 8)
    (h : offsetOfUInt64 left = offsetOfUInt64 right) : left = right := by
  unfold offsetOfUInt64 at h
  split_ifs at h <;> omega

end LogMq
