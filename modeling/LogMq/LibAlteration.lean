import LogMq.LibLittleEndian

/-! Strings that differ in exactly one place, or within some places in a row. A change inside a concatenation is a
change inside one of its parts, and a change of a little-endian field is a change of its value. -/

namespace Alteration

open LittleEndian

variable {ε : Type}

/-- The two lists are equal except for one item at this position. -/
def Altered (position : Nat) (old new : List ε) : Prop :=
  ∃ front before after back, before ≠ after ∧ front.length = position ∧
    old = front ++ before :: back ∧ new = front ++ after :: back

theorem Altered.length_eq {position : Nat} {old new : List ε} (h : Altered position old new) :
    new.length = old.length := by
  obtain ⟨front, before, after, back, -, -, rfl, rfl⟩ := h
  rw [List.length_append, List.length_append, List.length_cons, List.length_cons]

theorem Altered.ne {position : Nat} {old new : List ε} (h : Altered position old new) : new ≠ old := by
  obtain ⟨front, before, after, back, hne, -, rfl, rfl⟩ := h
  intro heq
  exact hne (List.cons.inj (List.append_cancel_left heq)).1.symm

/-- A change in the first part of a concatenation. -/
theorem Altered.split_left {position : Nat} {left right new : List ε} (h : Altered position (left ++ right) new)
    (hposition : position < left.length) : ∃ left', Altered position left left' ∧ new = left' ++ right := by
  obtain ⟨front, before, after, back, hne, rfl, hold, rfl⟩ := h
  rcases List.append_eq_append_iff.mp hold with ⟨rest, rfl, hrest⟩ | ⟨rest, rfl, hrest⟩
  · rw [List.length_append] at hposition
    omega
  · cases rest with
    | nil => exact absurd hposition (by rw [List.append_nil]; exact Nat.lt_irrefl _)
    | cons item rest =>
        obtain ⟨rfl, rfl⟩ := List.cons.inj hrest
        refine ⟨front ++ after :: rest, ⟨front, before, after, rest, hne, rfl, rfl, rfl⟩, ?_⟩
        rw [List.append_assoc, List.cons_append]
        rfl

/-- A change in the second part of a concatenation. -/
theorem Altered.split_right {position : Nat} {left right new : List ε} (h : Altered position (left ++ right) new)
    (hposition : left.length ≤ position) :
    ∃ right', Altered (position - left.length) right right' ∧ new = left ++ right' := by
  obtain ⟨front, before, after, back, hne, rfl, hold, rfl⟩ := h
  rcases List.append_eq_append_iff.mp hold with ⟨rest, rfl, hrest⟩ | ⟨rest, rfl, hrest⟩
  · refine ⟨rest ++ after :: back, ⟨rest, before, after, back, hne, ?_, hrest, rfl⟩, ?_⟩
    · rw [List.length_append, Nat.add_sub_cancel_left]
    · rw [List.append_assoc]
  · cases rest with
    | nil =>
        rw [List.append_nil, Nat.sub_self]
        exact ⟨after :: back, ⟨[], before, after, back, hne, rfl, hrest.symm, rfl⟩, rfl⟩
    | cons item rest =>
        rw [List.length_append, List.length_cons] at hposition
        omega

/-- A change of a field is a change of its value. -/
theorem Altered.leBytes {position width value : Nat} {new : List UInt8}
    (h : Altered position (leBytes width value) new) :
    ∃ value', value' < 256 ^ width ∧ value' ≠ value ∧ new = LittleEndian.leBytes width value' := by
  have hlength : new.length = width := h.length_eq.trans (leBytes_length width value)
  have hnew : LittleEndian.leBytes width (leValue new) = new := by
    rw [← hlength]
    exact leBytes_leValue new
  refine ⟨leValue new, hlength ▸ leValue_lt new, fun heq => h.ne ?_, hnew.symm⟩
  rw [← hnew, heq]

/-- The two lists are as long as each other, differ, and are equal except for at most `limit` items in a row. -/
def Burst (limit : Nat) (old new : List ε) : Prop :=
  ∃ front before after back, before ≠ after ∧ before.length = after.length ∧ before.length ≤ limit ∧
    old = front ++ (before ++ back) ∧ new = front ++ (after ++ back)

theorem Burst.length_eq {limit : Nat} {old new : List ε} (h : Burst limit old new) : new.length = old.length := by
  obtain ⟨front, before, after, back, -, hlength, -, rfl, rfl⟩ := h
  rw [List.length_append, List.length_append, List.length_append, List.length_append, hlength]

end Alteration
