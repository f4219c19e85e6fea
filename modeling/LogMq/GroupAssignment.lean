import LogMq.GroupCoordinator
import LogMq.LibBalancedSplit

/-! What `AssignLocked` achieves: the partitions are split into consecutive ranges, one for each member in
the order of the member ids. The numbers involved fit their 32 bits as long as the member count does. -/

namespace LogMq

open BalancedSplit

/-! ### Partition numbers -/

/-- A partition number as it is stored, a signed 32-bit `PartitionId`. -/
def partitionId (number : Nat) : Int := (BitVec.ofNat 32 number).toInt

theorem partitionId_of_lt {number : Nat} (h : number < 2 ^ 31) : partitionId number = number := by
  rw [partitionId, BitVec.toInt_eq_toNat_cond, BitVec.toNat_ofNat, Nat.mod_eq_of_lt (by omega), if_pos (by omega)]

theorem partitionId_injective {left right : Nat} (hl : left < 2 ^ 32) (hr : right < 2 ^ 32)
    (h : partitionId left = partitionId right) : left = right := by
  have heq := congrArg BitVec.toNat (BitVec.eq_of_toInt_eq h)
  rwa [BitVec.toNat_ofNat, BitVec.toNat_ofNat, Nat.mod_eq_of_lt hl, Nat.mod_eq_of_lt hr] at heq

section Range

variable {partitionCount : UInt32} {memberCount memberIndex : Nat}
variable (hcount : memberCount < 2 ^ 32) (hindex : memberIndex < memberCount)

include hcount hindex

theorem rangeCount_toNat :
    (partitionCount / UInt32.ofNat memberCount +
        if UInt32.ofNat memberIndex < partitionCount % UInt32.ofNat memberCount then 1 else 0).toNat =
      count partitionCount.toNat memberCount memberIndex := by
  have hm : (UInt32.ofNat memberCount).toNat = memberCount := UInt32.toNat_ofNat_of_lt' hcount
  have hi : (UInt32.ofNat memberIndex).toNat = memberIndex := UInt32.toNat_ofNat_of_lt' (hindex.trans hcount)
  have hend := end_le (n := partitionCount.toNat) hindex
  have hlt := partitionCount.toNat_lt
  unfold count at hend ⊢
  rw [UInt32.toNat_add, UInt32.toNat_div, hm]
  by_cases hextra : memberIndex < partitionCount.toNat % memberCount
  · rw [if_pos hextra] at hend ⊢
    rw [if_pos (UInt32.lt_iff_toNat_lt.mpr (by rwa [UInt32.toNat_mod, hm, hi])), UInt32.toNat_one]
    exact Nat.mod_eq_of_lt (by omega)
  · rw [if_neg hextra] at hend ⊢
    rw [if_neg (mt UInt32.lt_iff_toNat_lt.mp (by rwa [UInt32.toNat_mod, hm, hi])), UInt32.toNat_zero]
    exact Nat.mod_eq_of_lt (by omega)

theorem rangeStart_toNat :
    (UInt32.ofNat memberIndex * (partitionCount / UInt32.ofNat memberCount) +
        if UInt32.ofNat memberIndex ≤ partitionCount % UInt32.ofNat memberCount then UInt32.ofNat memberIndex
        else partitionCount % UInt32.ofNat memberCount).toNat =
      start partitionCount.toNat memberCount memberIndex := by
  have hm : (UInt32.ofNat memberCount).toNat = memberCount := UInt32.toNat_ofNat_of_lt' hcount
  have hi : (UInt32.ofNat memberIndex).toNat = memberIndex := UInt32.toNat_ofNat_of_lt' (hindex.trans hcount)
  have hmin : (if UInt32.ofNat memberIndex ≤ partitionCount % UInt32.ofNat memberCount then
      UInt32.ofNat memberIndex else partitionCount % UInt32.ofNat memberCount).toNat =
        min memberIndex (partitionCount.toNat % memberCount) := by
    split_ifs with hle
    · rw [UInt32.le_iff_toNat_le, UInt32.toNat_mod, hm, hi] at hle
      rw [hi, Nat.min_eq_left hle]
    · rw [UInt32.le_iff_toNat_le, UInt32.toNat_mod, hm, hi] at hle
      rw [UInt32.toNat_mod, hm, Nat.min_eq_right (not_le.mp hle).le]
  have hend := end_le (n := partitionCount.toNat) hindex
  have hlt := partitionCount.toNat_lt
  rw [UInt32.toNat_add, UInt32.toNat_mul, UInt32.toNat_div, hm, hi, hmin, Nat.mod_add_mod]
  exact Nat.mod_eq_of_lt (by unfold start at hend; omega)

/-- The range of a member, in plain numbers. -/
theorem partitionRange_eq :
    partitionRange (partitionCount / UInt32.ofNat memberCount) (partitionCount % UInt32.ofNat memberCount)
        (UInt32.ofNat memberIndex) =
      (List.range (count partitionCount.toNat memberCount memberIndex)).map fun i =>
        partitionId (start partitionCount.toNat memberCount memberIndex + i) := by
  unfold partitionRange
  dsimp only
  rw [rangeCount_toNat hcount hindex]
  refine List.map_congr_left fun i _ => congrArg BitVec.toInt (BitVec.eq_of_toNat_eq ?_)
  rw [UInt32.toNat_toBitVec, UInt32.toNat_add, rangeStart_toNat hcount hindex, UInt32.toNat_ofNat', Nat.add_mod_mod,
    BitVec.toNat_ofNat]

end Range

/-! ### Assigned groups -/

def GroupState.memberIds (group : GroupState) : List Bytes := group.members.keys

/-- Who has what. -/
def GroupState.roster (group : GroupState) : List (Bytes × PartitionAssignment) :=
  group.members.entries.map fun entry => (entry.1, entry.2.assignment)

/-- The assignment of the member at some place. -/
def assignmentAt (group : GroupState) (memberIndex : Nat) : PartitionAssignment :=
  ⟨group.topic, partitionRange (group.partitionCount / UInt32.ofNat group.memberIds.length)
    (group.partitionCount % UInt32.ofNat group.memberIds.length) (UInt32.ofNat memberIndex)⟩

/-- The state `AssignLocked` leaves a group in. -/
structure Assigned (group : GroupState) : Prop where
  leader : group.leaderId = group.memberIds.headD []
  roster : group.roster = group.memberIds.mapIdx fun i memberId => (memberId, assignmentAt group i)

theorem memberIds_assignLocked (group : GroupState) : (assignLocked group).memberIds = group.memberIds := by
  unfold assignLocked
  split
  · rfl
  · exact SortedMap.keys_mapIdx _ _

@[simp] theorem topic_assignLocked (group : GroupState) : (assignLocked group).topic = group.topic := by
  unfold assignLocked
  split <;> rfl

@[simp] theorem partitionCount_assignLocked (group : GroupState) :
    (assignLocked group).partitionCount = group.partitionCount := by
  unfold assignLocked
  split <;> rfl

@[simp] theorem generationId_assignLocked (group : GroupState) :
    (assignLocked group).generationId = group.generationId := by
  unfold assignLocked
  split <;> rfl

@[simp] theorem nextMemberSequence_assignLocked (group : GroupState) :
    (assignLocked group).nextMemberSequence = group.nextMemberSequence := by
  unfold assignLocked
  split <;> rfl

theorem assigned_assignLocked (group : GroupState) : Assigned (assignLocked group) := by
  have hat : ∀ i, assignmentAt (assignLocked group) i = assignmentAt group i := by
    intro i
    rw [assignmentAt, memberIds_assignLocked, topic_assignLocked, partitionCount_assignLocked, assignmentAt]
  constructor
  · rw [memberIds_assignLocked, GroupState.memberIds, SortedMap.keys]
    unfold assignLocked
    split
    · rename_i hnil
      rw [hnil]
      rfl
    · rename_i hcons
      rw [hcons]
      rfl
  · simp only [hat]
    rw [memberIds_assignLocked, GroupState.roster]
    unfold assignLocked
    split
    · rename_i hnil
      rw [GroupState.memberIds, SortedMap.keys, hnil]
      rfl
    · apply List.ext_getElem?
      intro i
      simp only [SortedMap.mapIdx, List.getElem?_map, List.getElem?_mapIdx, GroupState.memberIds, SortedMap.keys, assignmentAt,
        Option.map_map, List.length_map]
      rfl

namespace Assigned

variable {group : GroupState} (h : Assigned group) (hcount : group.memberIds.length < 2 ^ 32)

include h

theorem mem_roster {entry : Bytes × PartitionAssignment} (hentry : entry ∈ group.roster) :
    ∃ i, ∃ hi : i < group.memberIds.length, entry = (group.memberIds[i], assignmentAt group i) := by
  rw [h.roster] at hentry
  obtain ⟨i, hi, rfl⟩ := List.mem_mapIdx.mp hentry
  exact ⟨i, hi, rfl⟩

theorem roster_mem {i : Nat} (hi : i < group.memberIds.length) :
    (group.memberIds[i], assignmentAt group i) ∈ group.roster := by
  rw [h.roster]
  exact List.mem_mapIdx.mpr ⟨i, hi, rfl⟩

include hcount

omit h in
theorem mem_assignmentAt {i : Nat} (hi : i < group.memberIds.length) {p : Int} :
    p ∈ (assignmentAt group i).partitionIds ↔
      ∃ number, start group.partitionCount.toNat group.memberIds.length i ≤ number ∧
        number < start group.partitionCount.toNat group.memberIds.length i +
          count group.partitionCount.toNat group.memberIds.length i ∧ partitionId number = p := by
  rw [assignmentAt, partitionRange_eq hcount hi, List.mem_map]
  constructor
  · rintro ⟨j, hj, rfl⟩
    exact ⟨_, Nat.le_add_right _ _, Nat.add_lt_add_left (List.mem_range.mp hj) _, rfl⟩
  · rintro ⟨number, hle, hlt, rfl⟩
    exact ⟨number - start group.partitionCount.toNat group.memberIds.length i, List.mem_range.mpr (by omega),
      by rw [Nat.add_sub_cancel' hle]⟩

/-- Different members have different partitions. -/
theorem disjoint :
    group.roster.Pairwise fun left right => List.Disjoint left.2.partitionIds right.2.partitionIds := by
  rw [h.roster, List.pairwise_iff_getElem]
  intro i j hi hj hij p hleft hright
  rw [List.length_mapIdx] at hi hj
  rw [List.getElem_mapIdx] at hleft hright
  obtain ⟨left, -, hlt, rfl⟩ := (mem_assignmentAt hcount hi).mp hleft
  obtain ⟨right, hle, hright, heq⟩ := (mem_assignmentAt hcount hj).mp hright
  have hend := end_le (n := group.partitionCount.toNat) hj
  have hmax := group.partitionCount.toNat_lt
  have hbehind := end_le_start (n := group.partitionCount.toNat) (k := group.memberIds.length) hij
  have hsame := partitionId_injective (by omega) (by omega) heq
  omega

end Assigned

/-- Every partition belongs to exactly one member, in consecutive ranges of nearly equal size, and the
leader is one of the members. -/
structure Balanced (group : GroupState) : Prop where
  disjoint : group.roster.Pairwise fun left right => List.Disjoint left.2.partitionIds right.2.partitionIds
  cover : ∀ p : Int, (∃ entry ∈ group.roster, p ∈ entry.2.partitionIds) ↔ 0 ≤ p ∧ p < group.partitionCount.toNat
  range : ∀ entry ∈ group.roster, entry.2.topic = group.topic ∧
    ∃ first size : Nat, entry.2.partitionIds = (List.range size).map fun i => ((first + i : Nat) : Int)
  even : ∀ left ∈ group.roster, ∀ right ∈ group.roster,
    left.2.partitionIds.length ≤ right.2.partitionIds.length + 1
  leader : group.leaderId ∈ group.memberIds

/-- **Assignment.** -/
theorem Assigned.balanced {group : GroupState} (h : Assigned group) (hcount : group.memberIds.length < 2 ^ 32)
    (hmembers : group.memberIds ≠ []) (hpartitions : group.partitionCount.toNat < 2 ^ 31) : Balanced group where
  disjoint := h.disjoint hcount
  cover p := by
    have hpos : 0 < group.memberIds.length := List.length_pos_iff.mpr hmembers
    constructor
    · rintro ⟨entry, hentry, hp⟩
      obtain ⟨i, hi, rfl⟩ := h.mem_roster hentry
      obtain ⟨number, -, hlt, rfl⟩ := (mem_assignmentAt hcount hi).mp hp
      have hend := end_le (n := group.partitionCount.toNat) hi
      rw [partitionId_of_lt (by omega)]
      omega
    · rintro ⟨hzero, hlt⟩
      obtain ⟨number, rfl⟩ := Int.eq_ofNat_of_zero_le hzero
      obtain ⟨i, hi, hle, hend⟩ := (lt_iff_exists_range hpos).mp (Int.ofNat_lt.mp hlt)
      exact ⟨_, h.roster_mem hi, (mem_assignmentAt hcount hi).mpr
        ⟨number, hle, hend, partitionId_of_lt (by omega)⟩⟩
  range entry hentry := by
    obtain ⟨i, hi, rfl⟩ := h.mem_roster hentry
    refine ⟨rfl, start group.partitionCount.toNat group.memberIds.length i,
      count group.partitionCount.toNat group.memberIds.length i, ?_⟩
    rw [assignmentAt, partitionRange_eq hcount hi]
    refine List.map_congr_left fun j hj => partitionId_of_lt ?_
    have hend := end_le (n := group.partitionCount.toNat) hi
    have hsize := List.mem_range.mp hj
    omega
  even left hleft right hright := by
    obtain ⟨i, hi, rfl⟩ := h.mem_roster hleft
    obtain ⟨j, hj, rfl⟩ := h.mem_roster hright
    rw [assignmentAt, assignmentAt, partitionRange_eq hcount hi, partitionRange_eq hcount hj, List.length_map,
      List.length_map, List.length_range, List.length_range]
    exact count_le_succ _ _ _ _
  leader := by
    rw [h.leader]
    cases hids : group.memberIds with
    | nil => exact absurd hids hmembers
    | cons first rest => exact List.mem_cons_self

end LogMq
