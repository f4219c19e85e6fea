import LogMq.BrokerNames

/-! Committed offsets. Every offset has a file of its own that is written aside and renamed, so a commit
changes both the file and the memory or neither. -/

namespace LogMq

structure ConsumerOffsetKey where
  groupId : Bytes
  topic : Bytes
  partitionId : Int
  deriving DecidableEq

/-- The offsets in the files, which a restart reads back, and in memory. -/
structure OffsetStore where
  files : ConsumerOffsetKey → Option Int := fun _ => none
  offsets : ConsumerOffsetKey → Option Int := fun _ => none

namespace OffsetStore

/-- The checks that `Commit` and `Fetch` share. -/
def validateKey (key : ConsumerOffsetKey) : Result Unit := do
  validateSafeName key.groupId "group_id"
  validateSafeName key.topic "topic"
  if key.partitionId < 0 then throw (.invalidArgument "partition_id must not be negative")

def set (offsets : ConsumerOffsetKey → Option Int) (key : ConsumerOffsetKey) (offset : Int) :
    ConsumerOffsetKey → Option Int :=
  fun other => if other = key then some offset else offsets other

/-- `Commit`; writing the file may fail. -/
def commit (store : OffsetStore) (key : ConsumerOffsetKey) (offset : Int) (failure : Option Status) :
    Result Unit × OffsetStore :=
  match validateKey key with
  | .error status => (.error status, store)
  | .ok () =>
      if offset < 0 then (.error (.invalidArgument "offset must not be negative"), store)
      else
        match failure with
        | some status => (.error status, store)
        | none => (.ok (), ⟨set store.files key offset, set store.offsets key offset⟩)

/-- `Fetch`. -/
def fetch (store : OffsetStore) (key : ConsumerOffsetKey) : Result (Option Int) := do
  validateKey key
  return store.offsets key

/-- `Load` in a new store. -/
def load (files : ConsumerOffsetKey → Option Int) : OffsetStore := ⟨files, files⟩

/-- A commit changes one offset, in the file and in memory, or nothing. -/
theorem commit_cases (store : OffsetStore) (key : ConsumerOffsetKey) (offset : Int) (failure : Option Status) :
    (∃ status, store.commit key offset failure = (.error status, store)) ∨
      store.commit key offset failure = (.ok (), ⟨set store.files key offset, set store.offsets key offset⟩) := by
  unfold commit
  cases validateKey key with
  | error status => exact Or.inl ⟨status, rfl⟩
  | ok _ =>
      dsimp only
      split_ifs
      · exact Or.inl ⟨_, rfl⟩
      · cases failure with
        | some status => exact Or.inl ⟨status, rfl⟩
        | none => exact Or.inr rfl

end OffsetStore

end LogMq
