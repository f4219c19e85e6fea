import LogMq.LibLittleEndian
import LogMq.Status

/-! The checksum of `src/storage/crc32.cpp`, one bit of the register at a time. A shift of the
register can be undone, because the polynomial's top bit tells which branch was taken, and it is linear, so up to
four bytes enter the register as one word. Two strings that differ within four bytes never share a checksum. -/

namespace LogMq

open LittleEndian

/-- One turn of the inner loop of `Crc32`. -/
def crcBit (crc : UInt32) : UInt32 := (crc >>> 1) ^^^ (0xEDB88320 &&& (0 - (crc &&& 1)))

/-- One turn of the outer loop of `Crc32`: a byte enters and eight bits leave. -/
def crcByte (crc : UInt32) (byte : UInt8) : UInt32 := crcBit^[8] (crc ^^^ byte.toUInt32)

def crc32 (data : Bytes) : UInt32 := data.foldl crcByte 0xFFFFFFFF ^^^ 0xFFFFFFFF

example : crc32 [0x31, 0x32, 0x33, 0x34, 0x35, 0x36, 0x37, 0x38, 0x39] = 0xCBF43926 := by decide +kernel

theorem low_bit_cases (crc : UInt32) : crc &&& 1 = 0 ∨ crc &&& 1 = 1 := by
  have hnat : (crc &&& 1).toNat = crc.toNat % 2 := by
    rw [UInt32.toNat_and]
    exact Nat.and_one_is_mod _
  rcases Nat.mod_two_eq_zero_or_one crc.toNat with h | h
  · exact Or.inl (UInt32.toNat_inj.mp (hnat.trans h))
  · exact Or.inr (UInt32.toNat_inj.mp (hnat.trans h))

/-- The register before a shift, from its low bit and the rest. -/
theorem eq_of_shift_of_low {left right : UInt32} (hshift : left >>> 1 = right >>> 1)
    (hlow : left &&& 1 = right &&& 1) : left = right := by
  have hs := congrArg UInt32.toNat hshift
  have hl := congrArg UInt32.toNat hlow
  rw [UInt32.toNat_shiftRight, UInt32.toNat_shiftRight] at hs
  rw [UInt32.toNat_and, UInt32.toNat_and] at hl
  have hs' : left.toNat / 2 = right.toNat / 2 := hs
  have hl' : left.toNat % 2 = right.toNat % 2 := by
    rw [← Nat.and_one_is_mod, ← Nat.and_one_is_mod]
    exact hl
  exact UInt32.toNat_inj.mp (by omega)

/-- A shifted register never has its top bit, a register that took the polynomial does. -/
theorem shift_ne_shift_xor_poly (left right : UInt32) : left >>> 1 ≠ (right >>> 1) ^^^ 0xEDB88320 := by
  intro h
  have hnat := congrArg (fun word : UInt32 => word.toNat.testBit 31) h
  have hl := left.toNat_lt
  have hr := right.toNat_lt
  have hsl : ((left >>> 1).toNat).testBit 31 = false :=
    Nat.testBit_lt_two_pow (by rw [UInt32.toNat_shiftRight]; change left.toNat / 2 < _; omega)
  have hsr : ((right >>> 1).toNat).testBit 31 = false :=
    Nat.testBit_lt_two_pow (by rw [UInt32.toNat_shiftRight]; change right.toNat / 2 < _; omega)
  simp only [UInt32.toNat_xor, Nat.testBit_xor, hsl, hsr] at hnat
  exact absurd hnat (by decide)

theorem crcBit_of_low_zero {crc : UInt32} (h : crc &&& 1 = 0) : crcBit crc = crc >>> 1 := by
  rw [crcBit, h]
  exact UInt32.xor_zero

theorem crcBit_of_low_one {crc : UInt32} (h : crc &&& 1 = 1) :
    crcBit crc = (crc >>> 1) ^^^ 0xEDB88320 := by
  rw [crcBit, h]
  rfl

theorem crcBit_injective : Function.Injective crcBit := by
  intro left right h
  rcases low_bit_cases left with hl | hl <;> rcases low_bit_cases right with hr | hr
  · rw [crcBit_of_low_zero hl, crcBit_of_low_zero hr] at h
    exact eq_of_shift_of_low h (hl.trans hr.symm)
  · rw [crcBit_of_low_zero hl, crcBit_of_low_one hr] at h
    exact absurd h (shift_ne_shift_xor_poly left right)
  · rw [crcBit_of_low_one hl, crcBit_of_low_zero hr] at h
    exact absurd h.symm (shift_ne_shift_xor_poly right left)
  · rw [crcBit_of_low_one hl, crcBit_of_low_one hr, UInt32.xor_left_inj] at h
    exact eq_of_shift_of_low h (hl.trans hr.symm)

theorem crcByte_injective (byte : UInt8) : Function.Injective fun crc => crcByte crc byte := by
  intro left right h
  exact (UInt32.xor_left_inj _).mp (crcBit_injective.iterate 8 h)

theorem foldl_crcByte_injective (data : Bytes) :
    Function.Injective fun crc => data.foldl crcByte crc := by
  induction data with
  | nil => exact fun _ _ h => h
  | cons byte rest ih => exact fun _ _ h => crcByte_injective byte (ih h)

theorem low_bit_xor (left right : UInt32) : (left ^^^ right) &&& 1 = (left &&& 1) ^^^ (right &&& 1) := by
  apply UInt32.toNat_inj.mp
  rw [UInt32.toNat_and, UInt32.toNat_xor, UInt32.toNat_xor, UInt32.toNat_and, UInt32.toNat_and]
  exact Nat.and_xor_distrib_right

/-- **The shift is linear.** -/
theorem crcBit_xor (left right : UInt32) : crcBit (left ^^^ right) = crcBit left ^^^ crcBit right := by
  have hlow := low_bit_xor left right
  rcases low_bit_cases left with hl | hl <;> rcases low_bit_cases right with hr | hr <;> rw [hl, hr] at hlow
  · rw [crcBit_of_low_zero hlow, crcBit_of_low_zero hl, crcBit_of_low_zero hr, UInt32.shiftRight_xor]
  · rw [crcBit_of_low_one hlow, crcBit_of_low_zero hl, crcBit_of_low_one hr, UInt32.shiftRight_xor, UInt32.xor_assoc]
  · rw [crcBit_of_low_one hlow, crcBit_of_low_one hl, crcBit_of_low_zero hr, UInt32.shiftRight_xor]
    ac_rfl
  · have hcancel : ∀ a b poly : UInt32, a ^^^ b = (a ^^^ poly) ^^^ (b ^^^ poly) := by
      intro a b poly
      calc a ^^^ b = a ^^^ b ^^^ (poly ^^^ poly) := by rw [UInt32.xor_self, UInt32.xor_zero]
        _ = (a ^^^ poly) ^^^ (b ^^^ poly) := by ac_rfl
    rw [crcBit_of_low_zero hlow, crcBit_of_low_one hl, crcBit_of_low_one hr, UInt32.shiftRight_xor]
    exact hcancel _ _ _

/-- An even number only moves down. -/
theorem crcBit_double {word : Nat} (h : 2 * word < 2 ^ 32) : crcBit (UInt32.ofNat (2 * word)) = UInt32.ofNat word := by
  have hvalue : (UInt32.ofNat (2 * word)).toNat = 2 * word := UInt32.toNat_ofNat_of_lt' h
  have heven : UInt32.ofNat (2 * word) &&& 1 = 0 := by
    apply UInt32.toNat_inj.mp
    rw [UInt32.toNat_and, hvalue]
    change 2 * word &&& 1 = 0
    rw [Nat.and_one_is_mod, Nat.mul_mod_right]
  rw [crcBit_of_low_zero heven]
  apply UInt32.toNat_inj.mp
  rw [UInt32.toNat_shiftRight, hvalue, UInt32.toNat_ofNat_of_lt' (show word < 2 ^ 32 by omega)]
  change (2 * word) >>> 1 = word
  rw [Nat.shiftRight_one, Nat.mul_div_cancel_left _ (by decide)]

/-- What enters the register behind some shifts may as well enter before them, further up. -/
theorem crcBit_iterate_xor (shifts : Nat) (crc : UInt32) {word : Nat} (h : 2 ^ shifts * word < 2 ^ 32) :
    crcBit^[shifts] (crc ^^^ UInt32.ofNat (2 ^ shifts * word)) = crcBit^[shifts] crc ^^^ UInt32.ofNat word := by
  induction shifts generalizing crc with
  | zero => rw [pow_zero, one_mul, Function.iterate_zero, id, id]
  | succ shifts ih =>
      have hdouble : 2 ^ (shifts + 1) * word = 2 * (2 ^ shifts * word) := by rw [pow_succ', mul_assoc]
      rw [hdouble] at h ⊢
      rw [Function.iterate_succ_apply, Function.iterate_succ_apply, crcBit_xor, crcBit_double h]
      exact ih (crcBit crc) (by omega)

/-- The lowest byte of a word. -/
theorem ofNat_byte_add (byte : UInt8) {word : Nat} (h : 2 ^ 8 * word < 2 ^ 32) :
    UInt32.ofNat (byte.toNat + 256 * word) = byte.toUInt32 ^^^ UInt32.ofNat (2 ^ 8 * word) := by
  have hbyte : byte.toNat < 2 ^ 8 := byte.toNat_lt
  have hword : (UInt32.ofNat (2 ^ 8 * word)).toNat = 2 ^ 8 * word := UInt32.toNat_ofNat_of_lt' h
  have hsum : (UInt32.ofNat (byte.toNat + 256 * word)).toNat = 2 ^ 8 * word + byte.toNat := by
    rw [UInt32.toNat_ofNat_of_lt' (show _ < 2 ^ 32 by omega)]
    omega
  apply UInt32.toNat_inj.mp
  rw [UInt32.toNat_xor, UInt8.toNat_toUInt32, hword, hsum]
  apply Nat.eq_of_testBit_eq
  intro i
  rw [Nat.testBit_xor, Nat.testBit_two_pow_mul_add word hbyte, Nat.testBit_two_pow_mul]
  by_cases hi : i < 8
  · rw [if_pos hi, decide_eq_false (Nat.not_le.mpr hi), Bool.false_and, Bool.xor_false]
  · have hhigh : byte.toNat.testBit i = false :=
      Nat.testBit_lt_two_pow (hbyte.trans_le (Nat.pow_le_pow_right (by decide) (Nat.not_lt.mp hi)))
    rw [if_neg hi, hhigh, decide_eq_true (Nat.not_lt.mp hi), Bool.true_and, Bool.false_xor]

/-- **Up to four bytes** enter the register as one word. -/
theorem foldl_crcByte_word (crc : UInt32) {data : Bytes} (h : data.length ≤ 4) :
    data.foldl crcByte crc = crcBit^[8 * data.length] (crc ^^^ UInt32.ofNat (leValue data)) := by
  induction data generalizing crc with
  | nil => exact (UInt32.xor_zero (a := crc)).symm
  | cons byte rest ih =>
      rw [List.length_cons] at h ⊢
      have hvalue := leValue_lt rest
      have hpow : 256 ^ rest.length ≤ 256 ^ 3 := Nat.pow_le_pow_right (by decide) (by omega)
      have hfits : 2 ^ 8 * leValue rest < 2 ^ 32 := by omega
      calc (byte :: rest).foldl crcByte crc
          = crcBit^[8 * rest.length] (crcByte crc byte ^^^ UInt32.ofNat (leValue rest)) := ih _ (by omega)
        _ = crcBit^[8 * rest.length] (crcBit^[8] (crc ^^^ byte.toUInt32 ^^^ UInt32.ofNat (2 ^ 8 * leValue rest))) := by
            rw [crcByte, crcBit_iterate_xor 8 _ hfits]
        _ = crcBit^[8 * (rest.length + 1)] (crc ^^^ UInt32.ofNat (leValue (byte :: rest))) := by
            rw [← Function.iterate_add_apply, ← Nat.mul_succ, leValue, ofNat_byte_add byte hfits, UInt32.xor_assoc]

/-- A register tells the bytes apart that have entered it. -/
theorem foldl_crcByte_word_injective (crc : UInt32) {left right : Bytes} (hlength : left.length = right.length)
    (hshort : left.length ≤ 4) (h : left.foldl crcByte crc = right.foldl crcByte crc) : left = right := by
  have hlt : ∀ data : Bytes, data.length ≤ 4 → leValue data < 2 ^ 32 := by
    intro data hdata
    have hpow : 256 ^ data.length ≤ 256 ^ 4 := Nat.pow_le_pow_right (by decide) hdata
    exact (leValue_lt data).trans_le hpow
  rw [foldl_crcByte_word crc hshort, foldl_crcByte_word crc (hlength ▸ hshort), ← hlength] at h
  have hword := congrArg UInt32.toNat ((UInt32.xor_right_inj crc).mp (crcBit_injective.iterate _ h))
  rw [UInt32.toNat_ofNat_of_lt' (hlt left hshort), UInt32.toNat_ofNat_of_lt' (hlt right (hlength ▸ hshort))] at hword
  exact leValue_injective hlength hword

/-- **Two strings that differ within four bytes** have different checksums. -/
theorem crc32_window {before after left right : Bytes} (hlength : left.length = right.length) (hshort : left.length ≤ 4)
    (h : crc32 (before ++ (left ++ after)) = crc32 (before ++ (right ++ after))) : left = right := by
  unfold crc32 at h
  rw [UInt32.xor_left_inj, List.foldl_append, List.foldl_append, List.foldl_append, List.foldl_append] at h
  exact foldl_crcByte_word_injective _ hlength hshort (foldl_crcByte_injective after h)

theorem crc32_single_byte {before after : Bytes} {left right : UInt8}
    (h : crc32 (before ++ left :: after) = crc32 (before ++ right :: after)) : left = right :=
  (List.cons.inj (@crc32_window before after [left] [right] rfl (Nat.le_of_ble_eq_true rfl) h)).1

end LogMq
