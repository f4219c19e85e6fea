import LogMq.LibLittleEndian

/-! Fixed-width big-endian byte strings: the little-endian ones in reverse. The leading byte carries
the highest bit, so it decides on which side of half the range a value lies. -/

namespace BigEndian

open LittleEndian

/-- The lowest `width` bytes of a value, most significant first. -/
def beBytes (width value : Nat) : List UInt8 := (leBytes width value).reverse

/-- The number a byte string spells, most significant byte first. -/
def beValue (bytes : List UInt8) : Nat := leValue bytes.reverse

@[simp] theorem beBytes_length (width value : Nat) : (beBytes width value).length = width := by
  rw [beBytes, List.length_reverse, leBytes_length]

theorem beValue_beBytes {width value : Nat} (hvalue : value < 256 ^ width) :
    beValue (beBytes width value) = value := by
  rw [beValue, beBytes, List.reverse_reverse, leValue_leBytes hvalue]

theorem beValue_lt (bytes : List UInt8) : beValue bytes < 256 ^ bytes.length := by
  have h := leValue_lt bytes.reverse
  rwa [List.length_reverse] at h

/-- Every byte string is the encoding of its value at its own width. -/
theorem beBytes_beValue (bytes : List UInt8) : beBytes bytes.length (beValue bytes) = bytes := by
  have h := leBytes_leValue bytes.reverse
  rw [List.length_reverse] at h
  rw [beBytes, beValue, h, List.reverse_reverse]

/-! ### The leading byte -/

theorem beValue_cons (byte : UInt8) (rest : List UInt8) :
    beValue (byte :: rest) = byte.toNat * 256 ^ rest.length + beValue rest := by
  have hsplit : ∀ front : List UInt8, leValue (front ++ [byte]) = leValue front + byte.toNat * 256 ^ front.length := by
    intro front
    induction front with
    | nil => simp [leValue]
    | cons head tail ih =>
        rw [List.cons_append, leValue, ih, leValue, List.length_cons, pow_succ']
        ring
  rw [beValue, List.reverse_cons, hsplit, List.length_reverse, Nat.add_comm, beValue]

/-- The value is in the lower half of the range exactly if the leading byte is. -/
theorem leading_lt_iff {width value : Nat} (hvalue : value < 256 ^ (width + 1)) (rest : List UInt8) :
    (∃ byte, (beBytes (width + 1) value ++ rest)[0]? = some byte ∧ byte < 128) ↔ value < 128 * 256 ^ width := by
  cases hbytes : beBytes (width + 1) value with
  | nil =>
      have hlength := beBytes_length (width + 1) value
      rw [hbytes] at hlength
      cases hlength
  | cons byte tail =>
      have hlength := beBytes_length (width + 1) value
      rw [hbytes, List.length_cons, Nat.add_right_cancel_iff] at hlength
      have hspell := beValue_beBytes hvalue
      rw [hbytes, beValue_cons, hlength] at hspell
      have htail := beValue_lt tail
      rw [hlength] at htail
      simp only [List.cons_append, List.getElem?_cons_zero, Option.some.injEq, exists_eq_left', UInt8.lt_iff_toNat_lt]
      rw [← hspell, show (128 : UInt8).toNat = 128 from rfl]
      constructor
      · intro hbyte
        calc byte.toNat * 256 ^ width + beValue tail
            < byte.toNat * 256 ^ width + 256 ^ width := by omega
          _ = (byte.toNat + 1) * 256 ^ width := by ring
          _ ≤ 128 * 256 ^ width := Nat.mul_le_mul_right _ hbyte
      · intro hlt
        by_contra hbyte
        have hle : 128 * 256 ^ width ≤ byte.toNat * 256 ^ width := Nat.mul_le_mul_right _ (by omega)
        omega

end BigEndian
