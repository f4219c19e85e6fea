import LogMq.GroupSteps

/-! What holds of every group in every reachable state, until its generation reaches the last 32-bit
number. Then `JoinGroup` and `LeaveGroup` stop in the middle of their work, and nothing is promised. -/

namespace LogMq

open Runs

/-! ### Member names -/

theorem repr_injective {left right : Nat} (h : Nat.repr left = Nat.repr right) : left = right := by
  rw [Nat.repr_eq_ofList_toDigits, Nat.repr_eq_ofList_toDigits] at h
  rw [← Nat.ofDigitChars_ten_toDigits (n := left), String.ofList_injective h, Nat.ofDigitChars_ten_toDigits]

/-- Different sequence numbers name different members. -/
theorem memberName_injective {left right : UInt64} (h : memberName left = memberName right) : left = right :=
  UInt64.toNat_inj.mp (repr_injective ((String.append_right_inj _).mp (text_injective h)))

/-- Every member got its id from an earlier sequence number. -/
def Named (group : GroupState) : Prop :=
  ∀ memberId ∈ group.memberIds, ∃ sequence, sequence < group.nextMemberSequence ∧ memberId = memberName sequence

theorem mem_memberIds_addMember {group : GroupState} {topic memberId : Bytes} {now : Int} :
    memberId ∈ (group.addMember topic now).memberIds ↔
      memberId = memberName group.nextMemberSequence ∨ memberId ∈ group.memberIds :=
  SortedMap.mem_keys_emplace

theorem lt_succ_sequence {sequence : UInt64} (h : sequence.toNat + 1 < 2 ^ 64) : sequence < sequence + 1 := by
  rw [UInt64.lt_iff_toNat_lt, UInt64.toNat_add, UInt64.toNat_one, Nat.mod_eq_of_lt h]
  exact Nat.lt_succ_self _

/-- A group that takes its next member keeps its names, unless the sequence number wraps. -/
theorem Named.next {before group : GroupState} (h : Named before)
    (hwrap : before.nextMemberSequence.toNat + 1 < 2 ^ 64)
    (hsequence : group.nextMemberSequence = before.nextMemberSequence + 1)
    (hmembers : ∀ memberId ∈ group.memberIds,
      memberId = memberName before.nextMemberSequence ∨ memberId ∈ before.memberIds) : Named group := by
  intro memberId hmem
  rw [hsequence]
  rcases hmembers memberId hmem with rfl | hmem
  · exact ⟨_, lt_succ_sequence hwrap, rfl⟩
  · obtain ⟨sequence, hlt, rfl⟩ := h memberId hmem
    exact ⟨sequence, UInt64.lt_trans hlt (lt_succ_sequence hwrap), rfl⟩

/-! ### Sound groups -/

structure Sound (group : GroupState) : Prop where
  sequence : (group.nextMemberSequence.toNat : Int) ≤ group.generationId + 1
  size : (group.memberIds.length : Int) ≤ group.generationId
  named : Named group
  assigned : Assigned group

namespace Sound

theorem of_view {group other : GroupState} (hview : other.view = group.view) (h : Sound group) : Sound other where
  sequence := by
    rw [show other.nextMemberSequence = group.nextMemberSequence from congrArg GroupView.nextMemberSequence hview,
      show other.generationId = group.generationId from congrArg GroupView.generationId hview]
    exact h.sequence
  size := by
    rw [memberIds_of_view hview, show other.generationId = group.generationId from
      congrArg GroupView.generationId hview]
    exact h.size
  named := by
    rw [Named, memberIds_of_view hview, show other.nextMemberSequence = group.nextMemberSequence from
      congrArg GroupView.nextMemberSequence hview]
    exact h.named
  assigned := h.assigned.of_view hview

theorem create (groupId topic : Bytes) (partitionCount : UInt32) :
    Sound (.create groupId topic partitionCount) where
  sequence := show ((1 : Nat) : Int) ≤ 0 + 1 by decide
  size := le_refl _
  named := fun _ hmem => absurd hmem List.not_mem_nil
  assigned := ⟨rfl, rfl⟩

theorem sequence_lt {group : GroupState} (h : Sound group) (hbelow : group.generationId < maxInt32) :
    group.nextMemberSequence.toNat + 1 < 2 ^ 64 := by
  have hsequence := h.sequence
  unfold maxInt32 at hbelow
  omega

theorem sequence_grown {group : GroupState} (h : Sound group) (hbelow : group.generationId < maxInt32) (topic : Bytes)
    (now : Int) : (group.grown topic now).nextMemberSequence.toNat = group.nextMemberSequence.toNat + 1 := by
  rw [GroupState.grown, nextMemberSequence_assignLocked]
  change (group.nextMemberSequence + 1).toNat = _
  rw [UInt64.toNat_add, UInt64.toNat_one, Nat.mod_eq_of_lt (h.sequence_lt hbelow)]

theorem grown {group : GroupState} (h : Sound group) (hbelow : group.generationId < maxInt32) (topic : Bytes)
    (now : Int) : Sound (group.grown topic now) := by
  constructor
  · have hsequence := h.sequence
    rw [h.sequence_grown hbelow, GroupState.grown, generationId_assignLocked]
    change _ ≤ group.generationId + 1 + 1
    omega
  · have hsize := h.size
    have hlength : (group.addMember topic now).memberIds.length ≤ group.memberIds.length + 1 :=
      SortedMap.length_keys_emplace_le _ _ _
    rw [GroupState.grown, memberIds_assignLocked, generationId_assignLocked]
    change ((group.addMember topic now).memberIds.length : Int) ≤ group.generationId + 1
    omega
  · refine h.named.next (h.sequence_lt hbelow) (nextMemberSequence_assignLocked _) fun memberId hmem => ?_
    rw [GroupState.grown, memberIds_assignLocked] at hmem
    exact mem_memberIds_addMember.mp hmem
  · exact assigned_assignLocked _

theorem shrunk {group : GroupState} (h : Sound group) (keep : Bytes → MemberState → Bool) :
    Sound (group.shrunk keep (group.generationId + 1)) := by
  have hsub : (group.members.filter keep).keys.Sublist group.memberIds := SortedMap.keys_filter_sublist _ _
  constructor
  · have hsequence := h.sequence
    rw [GroupState.shrunk, nextMemberSequence_assignLocked, generationId_assignLocked]
    exact hsequence.trans (Int.le_add_one (le_refl _))
  · have hsize := h.size
    have hlength := hsub.length_le
    rw [GroupState.shrunk, memberIds_assignLocked, generationId_assignLocked]
    change ((group.members.filter keep).keys.length : Int) ≤ group.generationId + 1
    omega
  · rw [Named, GroupState.shrunk, memberIds_assignLocked, nextMemberSequence_assignLocked]
    exact fun memberId hmem => h.named memberId (hsub.subset hmem)
  · exact assigned_assignLocked _

end Sound

/-- A group is sound until its generation reaches the last number. -/
def SoundBelow (group : GroupState) : Prop :=
  0 ≤ group.generationId ∧ (group.generationId < maxInt32 → Sound group)

/-- The group a first join works on, which it may have to create. -/
theorem SoundBelow.getD {old : Option GroupState} (hold : ∀ group ∈ old, SoundBelow group) (groupId topic : Bytes)
    (partitionCount : UInt32) : SoundBelow (old.getD (.create groupId topic partitionCount)) := by
  cases old with
  | none => exact ⟨le_refl _, fun _ => .create _ _ _⟩
  | some group => exact hold group rfl

/-- Groups that only differ in heartbeats exist together. -/
theorem exists_of_view {old new : Option GroupState} (hview : new.map GroupState.view = old.map GroupState.view)
    {group : GroupState} (hgroup : group ∈ new) : ∃ before ∈ old, group.view = before.view := by
  cases hgroup
  obtain ⟨before, hbefore, heq⟩ := Option.map_eq_some_iff.mp hview.symm
  exact ⟨before, hbefore, heq.symm⟩

/-- Every change keeps a group sound. -/
theorem Change.soundBelow {groupId : Bytes} {event : Event} {old new : Option GroupState}
    (hchange : Change groupId event old new) (hold : ∀ group ∈ old, SoundBelow group) :
    ∀ group ∈ new, SoundBelow group := by
  intro group hgroup
  cases hchange with
  | keep hview =>
      obtain ⟨before, hbefore, heq⟩ := exists_of_view hview hgroup
      obtain ⟨hzero, hsound⟩ := hold before hbefore
      have hgeneration : group.generationId = before.generationId := congrArg GroupView.generationId heq
      rw [SoundBelow, hgeneration]
      exact ⟨hzero, fun hbelow => (hsound hbelow).of_view heq⟩
  | create hevent =>
      cases hgroup
      exact ⟨le_refl _, fun _ => .create _ _ _⟩
  | @grow _ topic partitionCount now hevent hmax =>
      cases hgroup
      obtain ⟨hzero, hsound⟩ := SoundBelow.getD hold groupId topic partitionCount
      rw [SoundBelow, GroupState.grown, generationId_assignLocked]
      refine ⟨Int.le_add_one hzero, fun hbelow => ?_⟩
      have hlt : (old.getD (.create groupId topic partitionCount)).generationId < maxInt32 :=
        (Int.lt_succ _).trans hbelow
      exact (hsound hlt).grown hlt topic now
  | overflow hevent hmax =>
      cases hgroup
      obtain ⟨hzero, -⟩ := hold _ rfl
      exact ⟨hzero, fun hbelow => absurd hmax hbelow.ne⟩
  | @restart before memberId member now hmember hzero =>
      -- a group whose generation is still 0 has no members
      obtain ⟨-, hsound⟩ := hold before rfl
      have hsize := (hsound (hzero ▸ by decide)).size
      have hpos : 0 < before.memberIds.length := List.length_pos_of_mem (SortedMap.mem_keys.mpr ⟨member, hmember⟩)
      omega
  | @shrink before keep generationId hbelow hle =>
      cases hgroup
      obtain ⟨hzero, hsound⟩ := hold before rfl
      rw [SoundBelow, GroupState.shrunk, generationId_assignLocked]
      refine ⟨hzero.trans hle, fun hlt => ?_⟩
      have hbefore : before.generationId < maxInt32 := hle.trans_lt hlt
      rw [hbelow hbefore]
      exact (hsound hbefore).shrunk keep
  | strand hmax =>
      cases hgroup
      obtain ⟨hzero, -⟩ := hold _ rfl
      exact ⟨hzero, fun hbelow => absurd hmax hbelow.ne⟩
  | drop => cases hgroup

theorem Change.partitionCount_le {groupId : Bytes} {event : Event} {old new : Option GroupState} {bound : Nat}
    (hchange : Change groupId event old new)
    (hevent : ∀ request partitionCount now, event = .join request partitionCount now → partitionCount.toNat ≤ bound)
    (hold : ∀ group ∈ old, group.partitionCount.toNat ≤ bound) :
    ∀ group ∈ new, group.partitionCount.toNat ≤ bound := by
  intro group hgroup
  cases hchange with
  | keep hview =>
      obtain ⟨before, hbefore, heq⟩ := exists_of_view hview hgroup
      rw [show group.partitionCount = before.partitionCount from congrArg GroupView.partitionCount heq]
      exact hold before hbefore
  | create hjoin =>
      cases hgroup
      exact hevent _ _ _ hjoin
  | grow hjoin hmax =>
      cases hgroup
      rw [GroupState.grown, partitionCount_assignLocked]
      cases old with
      | none => exact hevent _ _ _ hjoin
      | some before => exact hold before rfl
  | @overflow before _ _ _ hjoin hmax =>
      cases hgroup
      exact hold before rfl
  | @restart before _ _ _ hmember hzero =>
      cases hgroup
      rw [partitionCount_assignLocked]
      exact hold before rfl
  | @shrink before _ _ hbelow hle =>
      cases hgroup
      rw [GroupState.shrunk, partitionCount_assignLocked]
      exact hold before rfl
  | @strand before _ hmax =>
      cases hgroup
      exact hold before rfl
  | drop => cases hgroup

/-! ### Runs -/

namespace GroupCoordinator

/-- The state after some events, from a coordinator without groups. -/
def reached (sessionTimeout : Int) (events : List Event) : GroupCoordinator :=
  run step ⟨sessionTimeout, SortedMap.empty⟩ events

/-- All groups are sound. -/
def AllSound (coordinator : GroupCoordinator) : Prop :=
  ∀ groupId, ∀ group ∈ coordinator.group? groupId, SoundBelow group

theorem AllSound.step {coordinator : GroupCoordinator} (h : AllSound coordinator) (event : Event) :
    AllSound (coordinator.step event) :=
  fun groupId => (step_change coordinator event groupId).soundBelow (h groupId)

theorem AllSound.run {coordinator : GroupCoordinator} (h : AllSound coordinator) (events : List Event) :
    AllSound (Runs.run GroupCoordinator.step coordinator events) :=
  run_invariant _ h fun _ event _ hsound => hsound.step event

theorem reached_sound (sessionTimeout : Int) (events : List Event) : AllSound (reached sessionTimeout events) := by
  refine AllSound.run (fun groupId group hgroup => ?_) events
  cases hgroup

/-- Partition counts come from the requests. -/
theorem reached_partitionCount {sessionTimeout : Int} {events : List Event} {bound : Nat}
    (hevents : ∀ request partitionCount now, .join request partitionCount now ∈ events → partitionCount.toNat ≤ bound)
    {groupId : Bytes} {group : GroupState} (h : (reached sessionTimeout events).group? groupId = some group) :
    group.partitionCount.toNat ≤ bound := by
  refine @run_invariant _ _ step (fun coordinator => ∀ groupId, ∀ group ∈ coordinator.group? groupId,
    group.partitionCount.toNat ≤ bound) _ _ ?_ ?_ groupId group h
  · intro groupId group hgroup
    cases hgroup
  · intro coordinator event hmem hold groupId
    exact (step_change coordinator event groupId).partitionCount_le
      (fun request partitionCount now hevent => hevents request partitionCount now (hevent ▸ hmem)) (hold groupId)

/-- **Assignments.** In every reachable state every group with members divides all partitions of its
topic evenly among them, as long as its generation can still grow. -/
theorem groups_balanced (sessionTimeout : Int) (events : List Event)
    (hpartitions : ∀ request partitionCount now, .join request partitionCount now ∈ events →
      partitionCount.toNat ≤ 2 ^ 31 - 1)
    {groupId : Bytes} {group : GroupState} (hgroup : (reached sessionTimeout events).group? groupId = some group)
    (hgeneration : group.generationId < maxInt32) (hmembers : group.memberIds ≠ []) : Balanced group := by
  have hsound := (reached_sound sessionTimeout events groupId group hgroup).2 hgeneration
  have hcount := reached_partitionCount hpartitions hgroup
  refine hsound.assigned.balanced ?_ hmembers (by omega)
  have hsize := hsound.size
  unfold maxInt32 at hgeneration
  omega

/-- A first join of a group on a topic of some partitions. -/
def firstJoin (partitionCount : UInt32) : Event := .join ⟨text "group", [], text "topic"⟩ partitionCount 0

/-- Two members share three partitions. -/
theorem groups_balanced_two :
    ∃ group, (reached 10 [firstJoin 3, firstJoin 3]).group? (text "group") = some group ∧
      group.memberIds.length = 2 ∧ Balanced group := by
  have hrun : ((reached 10 [firstJoin 3, firstJoin 3]).group? (text "group")).any (fun group =>
      decide (group.generationId < maxInt32 ∧ group.memberIds.length = 2)) = true := by
    decide +kernel
  obtain ⟨group, hgroup, hcheck⟩ := Option.any_eq_true _ _ |>.mp hrun
  obtain ⟨hgeneration, hlength⟩ := of_decide_eq_true hcheck
  refine ⟨group, hgroup, hlength, groups_balanced 10 _ ?_ hgroup hgeneration ?_⟩
  · intro request partitionCount now hmem
    simp only [firstJoin, List.mem_cons, Event.join.injEq, List.not_mem_nil, or_false, or_self] at hmem
    rw [hmem.2.1]
    decide
  · intro hnil
    rw [hnil] at hlength
    cases hlength

end GroupCoordinator

end LogMq
