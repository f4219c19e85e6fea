import LogMq.LibLittleEndian
import LogMq.LibSparseIndex
import LogMq.Status

/-! The sparse offset index of `src/storage/offset_index.cpp`. It is kept in memory, written to a file
nothing reads back, and rebuilt from the segment at every start. -/

namespace LogMq

open LittleEndian SparseIndex

structure IndexEntry where
  offset : Int := -1
  position : Nat := 0
  deriving DecidableEq, Repr

structure OffsetIndex where
  baseOffset : Int := -1
  intervalBytes : Nat := 4096
  entries : List IndexEntry := []
  deriving DecidableEq, Repr

namespace OffsetIndex

/-- The constructor `OffsetIndex(path, base_offset, interval_bytes)`. -/
def create (baseOffset : Int) (intervalBytes : Nat) : OffsetIndex :=
  { baseOffset := baseOffset, intervalBytes := if intervalBytes = 0 then 1 else intervalBytes }

/-- `FindFloor`: the entry before `std::upper_bound`. -/
def findFloor (index : OffsetIndex) (offset : Int) : Result IndexEntry :=
  match index.entries with
  | [] => .error (.notFound "offset index has no floor entry")
  | front :: _ =>
      if offset < front.offset then .error (.notFound "offset index has no floor entry")
      else
        match (index.entries.take (upperBound (fun entry => offset < entry.offset) index.entries)).getLast? with
        | some entry => .ok entry
        | none => .error (.notFound "offset index has no floor entry")

def maybeAppend (index : OffsetIndex) (offset : Int) (position : Nat) : Result OffsetIndex :=
  if index.baseOffset < 0 then
    .error (.invalidArgument "offset index base_offset must not be negative")
  else if offset < index.baseOffset then
    .error (.invalidArgument "offset index entry is before base_offset")
  else
    match index.entries.getLast? with
    | none => .ok { index with entries := index.entries ++ [⟨offset, position⟩] }
    | some last =>
        if offset ≤ last.offset then
          .error (.invalidArgument "offset index entries must be increasing")
        else if position < last.position then
          .error (.invalidArgument "offset index positions must be increasing")
        else if position - last.position < index.intervalBytes then .ok index
        else .ok { index with entries := index.entries ++ [⟨offset, position⟩] }

def clear (index : OffsetIndex) : OffsetIndex := { index with entries := [] }

/-- `EncodeEntry`. -/
def encodeEntry (entry : IndexEntry) : Bytes :=
  leBytes 8 (offsetToUInt64 entry.offset) ++ leBytes 8 entry.position

/-- What `Rewrite` puts into the index file. -/
def fileBytes (index : OffsetIndex) : Bytes := index.entries.flatMap encodeEntry

/-! ### Appending -/

/-- What the last entry must look like for `MaybeAppend` to accept an offset and a position. -/
def Accepts (index : OffsetIndex) (offset : Int) (position : Nat) : Prop :=
  0 ≤ index.baseOffset ∧ index.baseOffset ≤ offset ∧
    ∀ last, index.entries.getLast? = some last → last.offset < offset ∧ last.position ≤ position

/-- An accepted offset is added to a sparse index. -/
theorem maybeAppend_of_accepts {index : OffsetIndex} {offset : Int} {position : Nat}
    (h : index.Accepts offset position) :
    index.maybeAppend offset position = .ok { index with
      entries := add IndexEntry.position index.intervalBytes index.entries ⟨offset, position⟩ } := by
  obtain ⟨hbase, hbefore, hlast⟩ := h
  rw [maybeAppend, if_neg (Int.not_lt.mpr hbase), if_neg (Int.not_lt.mpr hbefore), add]
  cases hentries : index.entries.getLast? with
  | none => rfl
  | some last =>
      obtain ⟨hoffset, hposition⟩ := hlast last hentries
      dsimp only
      rw [if_neg (Int.not_le.mpr hoffset), if_neg (Nat.not_lt.mpr hposition)]
      split_ifs <;> rfl

theorem accepts_of_maybeAppend {index result : OffsetIndex} {offset : Int} {position : Nat}
    (h : index.maybeAppend offset position = .ok result) : index.Accepts offset position := by
  unfold maybeAppend at h
  split_ifs at h with hbase hbefore
  refine ⟨Int.not_lt.mp hbase, Int.not_lt.mp hbefore, fun last hlast => ?_⟩
  rw [hlast] at h
  dsimp only at h
  by_cases hoffset : offset ≤ last.offset
  · rw [if_pos hoffset] at h
    cases h
  by_cases hposition : position < last.position
  · rw [if_neg hoffset, if_pos hposition] at h
    cases h
  exact ⟨Int.not_le.mp hoffset, Nat.not_lt.mp hposition⟩

/-- `MaybeAppend` succeeds exactly on what the last entry allows. -/
theorem maybeAppend_eq_ok {index result : OffsetIndex} {offset : Int} {position : Nat} :
    index.maybeAppend offset position = .ok result ↔
      index.Accepts offset position ∧ result = { index with
        entries := add IndexEntry.position index.intervalBytes index.entries ⟨offset, position⟩ } := by
  constructor
  · intro h
    have haccepts := accepts_of_maybeAppend h
    rw [maybeAppend_of_accepts haccepts] at h
    exact ⟨haccepts, (Except.ok.inj h).symm⟩
  · rintro ⟨haccepts, rfl⟩
    exact maybeAppend_of_accepts haccepts

/-! ### Lookups -/

/-- When the entries split at the offset, the floor is the last of the first part. -/
theorem findFloor_of_take {index : OffsetIndex} {offset : Int} {front : List IndexEntry} {last : IndexEntry}
    (h : index.entries.take (upperBound (fun entry => offset < entry.offset) index.entries) = front ++ [last]) :
    index.findFloor offset = .ok last := by
  unfold findFloor
  cases hentries : index.entries with
  | nil =>
      rw [hentries, List.take_nil] at h
      exact absurd h.symm (List.append_ne_nil_of_right_ne_nil _ (List.cons_ne_nil _ _))
  | cons head rest =>
      rw [hentries] at h
      have hhead : ¬offset < head.offset := by
        intro hlt
        rw [upperBound, List.takeWhile_cons] at h
        simp [hlt] at h
      dsimp only
      rw [if_neg hhead, h, List.getLast?_concat]

end OffsetIndex

end LogMq
