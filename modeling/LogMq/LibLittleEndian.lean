import Mathlib.Tactic

/-! Fixed-width little-endian byte strings. A width and a natural number determine the bytes, the
bytes determine the number below the wrap, and every byte string is the encoding of its own value
at its own width. -/

namespace LittleEndian

/-- The lowest `width` bytes of a value, least significant first. -/
def leBytes : Nat → Nat → List UInt8
  | 0, _ => []
  | width + 1, value => UInt8.ofNat value :: leBytes width (value / 256)

/-- The number a byte string spells, least significant byte first. -/
def leValue : List UInt8 → Nat
  | [] => 0
  | byte :: rest => byte.toNat + 256 * leValue rest

@[simp] theorem leBytes_length (width value : Nat) : (leBytes width value).length = width := by
  induction width generalizing value with
  | zero => rfl
  | succ width ih => rw [leBytes, List.length_cons, ih]

theorem leValue_leBytes_mod (width value : Nat) :
    leValue (leBytes width value) = value % 256 ^ width := by
  induction width generalizing value with
  | zero => rw [leBytes, leValue, pow_zero, Nat.mod_one]
  | succ width ih =>
      rw [leBytes, leValue, ih, UInt8.toNat_ofNat', show 2 ^ 8 = 256 from rfl,
        show 256 ^ (width + 1) = 256 * 256 ^ width from pow_succ' 256 width, Nat.mod_mul]

theorem leValue_leBytes {width value : Nat} (hvalue : value < 256 ^ width) :
    leValue (leBytes width value) = value := by
  rw [leValue_leBytes_mod, Nat.mod_eq_of_lt hvalue]

theorem leValue_lt (bytes : List UInt8) : leValue bytes < 256 ^ bytes.length := by
  induction bytes with
  | nil => exact Nat.one_pos
  | cons byte rest ih =>
      have hbyte := byte.toNat_lt
      rw [leValue, List.length_cons, pow_succ']
      omega

/-- Every byte string is the encoding of its value at its own width. -/
theorem leBytes_leValue (bytes : List UInt8) : leBytes bytes.length (leValue bytes) = bytes := by
  induction bytes with
  | nil => rfl
  | cons byte rest ih =>
      have hbyte := byte.toNat_lt
      have hdiv : (byte.toNat + 256 * leValue rest) / 256 = leValue rest := by omega
      have hmod : UInt8.ofNat (byte.toNat + 256 * leValue rest) = byte := by
        apply UInt8.toNat_inj.mp
        rw [UInt8.toNat_ofNat']
        omega
      rw [leValue, List.length_cons, leBytes, hdiv, hmod, ih]

theorem leValue_injective {left right : List UInt8} (hlength : left.length = right.length)
    (hvalue : leValue left = leValue right) : left = right := by
  rw [← leBytes_leValue left, ← leBytes_leValue right, hlength, hvalue]

/-! ### Fields of a longer string -/

/-- The number in the `width` bytes at `offset`. -/
def leField (data : List UInt8) (offset width : Nat) : Nat := leValue ((data.drop offset).take width)

theorem leField_lt (data : List UInt8) (offset width : Nat) : leField data offset width < 256 ^ width :=
  (leValue_lt _).trans_le (Nat.pow_le_pow_right (by decide) (List.length_take_le _ _))

/-- A field at the front of a string. -/
theorem leField_leBytes {width value : Nat} (hvalue : value < 256 ^ width) (rest : List UInt8) :
    leField (leBytes width value ++ rest) 0 width = value := by
  rw [leField, List.drop_zero, List.take_append_of_le_length (by simp),
    List.take_of_length_le (by simp), leValue_leBytes hvalue]

/-- A field behind a prefix of known length. -/
theorem leField_skip {front : List UInt8} {length : Nat} (hlength : front.length = length)
    (rest : List UInt8) (offset width : Nat) :
    leField (front ++ rest) (length + offset) width = leField rest offset width := by
  rw [leField, ← hlength, ← List.drop_drop, List.drop_left, leField]

/-- A field that lies inside a prefix does not see what follows. -/
theorem leField_append {data : List UInt8} {offset width : Nat} (h : offset + width ≤ data.length)
    (rest : List UInt8) : leField (data ++ rest) offset width = leField data offset width := by
  rw [leField, leField, List.drop_append_of_le_length (by omega),
    List.take_append_of_le_length (by rw [List.length_drop]; omega)]

/-- The bytes of a field are the encoding of its value. -/
theorem leBytes_leField {data : List UInt8} {offset width : Nat} (h : offset + width ≤ data.length) :
    leBytes width (leField data offset width) = (data.drop offset).take width := by
  have hlength : ((data.drop offset).take width).length = width := by
    rw [List.length_take, List.length_drop]
    omega
  have hbytes := leBytes_leValue ((data.drop offset).take width)
  rw [hlength] at hbytes
  exact hbytes

end LittleEndian
