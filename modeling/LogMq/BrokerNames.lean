import LogMq.LibText
import LogMq.Status

/-! Names of topics, groups and members. A `std::string` is a list of bytes, compared byte by byte as a
`std::map` key. -/

namespace LogMq

/-- Bytes in their unsigned order. -/
instance instLinearOrderUInt8 : LinearOrder UInt8 where
  le_refl := UInt8.le_refl
  le_trans := fun _ _ _ => UInt8.le_trans
  le_antisymm := fun _ _ => UInt8.le_antisymm
  le_total := UInt8.le_total
  lt_iff_le_not_ge := fun left right => by
    rw [UInt8.le_iff_toNat_le, UInt8.le_iff_toNat_le, UInt8.lt_iff_toNat_lt]
    omega
  toDecidableLE := inferInstance

/-- The bytes of a string literal. -/
def text (literal : String) : Bytes := literal.toUTF8.data.toList

theorem text_injective {left right : String} (h : text left = text right) : left = right :=
  String.toByteArray_inj.mp (ByteArray.ext (Array.toList_inj.mp h))

theorem text_append (left right : String) : text (left ++ right) = text left ++ text right := by
  change (left ++ right).toByteArray.data.toList = _
  rw [String.toByteArray_append, ByteArray.data_append, Array.toList_append]
  rfl

/-- A digit is one byte. -/
theorem text_ofList {chars : List Char} (h : ∀ c ∈ chars, c.isDigit = true) :
    text (String.ofList chars) = chars.map fun c => UInt8.ofNat c.toNat := by
  change (String.ofList chars).toByteArray.data.toList = _
  rw [String.toByteArray_ofList]
  induction chars with
  | nil => rfl
  | cons c rest ih =>
      have hdigit := (Text.toNat_ofNat_of_isDigit (h c List.mem_cons_self)).2.2
      have hsize : c.utf8Size = 1 := by
        rw [Char.utf8Size_eq_one_iff, UInt32.le_iff_toNat_le]
        exact hdigit.trans (by decide)
      have hrest := ih fun d hd => h d (List.mem_cons_of_mem _ hd)
      rw [List.utf8Encode_cons, List.utf8Encode_singleton, String.utf8EncodeChar_eq_singleton hsize,
        ByteArray.data_append, Array.toList_append, hrest]
      rfl

/-! ### Internal topics -/

def retryTopicPrefix : Bytes := text "%RETRY%"

def dlqTopicPrefix : Bytes := text "%DLQ%"

def isRetryTopic (topic : Bytes) : Bool := retryTopicPrefix.isPrefixOf topic

def isDlqTopic (topic : Bytes) : Bool := dlqTopicPrefix.isPrefixOf topic

def isInternalTopic (topic : Bytes) : Bool := isRetryTopic topic || isDlqTopic topic

/-! ### Safe names -/

/-- `std::isalnum` in the classic locale. -/
def isAlnum (ch : UInt8) : Bool :=
  (48 ≤ ch && ch ≤ 57) || (65 ≤ ch && ch ≤ 90) || (97 ≤ ch && ch ≤ 122)

/-- A letter, a digit, `.`, `_` or `-`. -/
def isSafeByte (ch : UInt8) : Bool := isAlnum ch || ch == 46 || ch == 95 || ch == 45

/-- `ValidateSafeName`: a topic is checked without its internal marker. -/
def validateSafeName (name : Bytes) (field : String) : Result Unit :=
  let name :=
    if field = "topic" ∧ isInternalTopic name = true then
      name.drop (if isRetryTopic name then retryTopicPrefix.length else dlqTopicPrefix.length)
    else name
  if name = [] then .error (.invalidArgument (field ++ " must not be empty"))
  else if name = text "." ∨ name = text ".." then .error (.invalidArgument (field ++ " must not be . or .."))
  else if name.all isSafeByte then .ok ()
  else .error (.invalidArgument (field ++ " may only contain letters, digits, '.', '_' and '-'"))

end LogMq
