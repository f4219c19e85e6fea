import LogMq.GroupInvariant

/-! Stretches of a run in which a group is not removed and its generation can still grow. The generation is
a version number of the membership and of all assignments: what two requests see of the same generation
is the same, whenever they are made. -/

namespace LogMq

open Runs

/-! ### Versions -/

/-- The generation of a group, below all others if there is none. -/
def generationOf (group : Option GroupState) : Int := (group.map GroupState.generationId).getD (-1)

/-- The sequence number of the next member, which is 1 in a new group. -/
def sequenceOf (group : Option GroupState) : Nat :=
  (group.map fun group => group.nextMemberSequence.toNat).getD 1

theorem sequenceOf_getD (old : Option GroupState) (groupId topic : Bytes) (partitionCount : UInt32) :
    sequenceOf old = (old.getD (.create groupId topic partitionCount)).nextMemberSequence.toNat := by
  cases old with
  | none => rfl
  | some group => rfl

theorem below_getD {old : Option GroupState} (hold : ∀ group ∈ old, group.generationId < maxInt32)
    (groupId topic : Bytes) (partitionCount : UInt32) :
    (old.getD (.create groupId topic partitionCount)).generationId < maxInt32 := by
  cases old with
  | none => exact show (0 : Int) < maxInt32 by decide
  | some group => exact hold group rfl

section Changes

variable {groupId : Bytes} {event : Event} {old new : Option GroupState}
variable (hchange : Change groupId event old new) (hold : ∀ group ∈ old, group.generationId < maxInt32)

include hchange hold

/-- As long as it can grow, the generation is a version of the roster. -/
theorem Change.advances (hnew : ∀ group ∈ new, group.generationId < maxInt32)
    (hstays : old.isSome → new.isSome) : Advances generationOf (Option.map GroupState.roster) old new := by
  cases hchange with
  | keep hview =>
      have hgeneration : old.map GroupState.generationId = new.map GroupState.generationId := by
        have hfield := congrArg (Option.map GroupView.generationId) hview.symm
        rwa [Option.map_map, Option.map_map] at hfield
      have hroster : old.map GroupState.roster = new.map GroupState.roster := by
        have hfield := congrArg (Option.map GroupView.roster) hview.symm
        rwa [Option.map_map, Option.map_map] at hfield
      exact Or.inr ⟨congrArg (Option.getD · (-1)) hgeneration, hroster⟩
  | create hevent => exact Or.inl (show (-1 : Int) < 0 by decide)
  | @grow _ topic partitionCount now hevent hmax =>
      refine Or.inl ?_
      change generationOf old < (GroupState.grown _ _ _).generationId
      rw [GroupState.grown, generationId_assignLocked]
      cases old with
      | none => exact show (-1 : Int) < 0 + 1 by decide
      | some before => exact Int.lt_succ _
  | overflow hevent hmax => exact absurd hmax (hold _ rfl).ne
  | restart hmember hzero =>
      refine Or.inl ?_
      change _ < (assignLocked _).generationId
      rw [generationId_assignLocked]
      exact Int.lt_succ _
  | @shrink before keep generationId hbelow hle =>
      refine Or.inl ?_
      change before.generationId < (GroupState.shrunk _ _ _).generationId
      rw [GroupState.shrunk, generationId_assignLocked]
      exact hbelow (hold before rfl) ▸ Int.lt_succ _
  | strand hmax => exact absurd hmax (hold _ rfl).ne
  | drop => cases hstays rfl

/-- As long as the generation can grow, the sequence number does not wrap. -/
theorem Change.sequence_le (hsound : ∀ group ∈ old, SoundBelow group) (hstays : old.isSome → new.isSome) :
    sequenceOf old ≤ sequenceOf new := by
  cases hchange with
  | keep hview =>
      have hsequence : old.map (fun group => group.nextMemberSequence.toNat) =
          new.map (fun group => group.nextMemberSequence.toNat) := by
        have hfield := congrArg (Option.map fun view : GroupView => view.nextMemberSequence.toNat) hview.symm
        rwa [Option.map_map, Option.map_map] at hfield
      exact (congrArg (Option.getD · 1) hsequence).le
  | create hevent => exact le_refl 1
  | @grow _ topic partitionCount now hevent hmax =>
      have hbelow := below_getD hold groupId topic partitionCount
      have hgrown := ((SoundBelow.getD hsound groupId topic partitionCount).2 hbelow).sequence_grown hbelow topic now
      rw [sequenceOf_getD old groupId topic partitionCount]
      exact (Nat.le_succ _).trans_eq hgrown.symm
  | overflow hevent hmax => exact absurd hmax (hold _ rfl).ne
  | restart hmember hzero =>
      change _ ≤ (assignLocked _).nextMemberSequence.toNat
      rw [nextMemberSequence_assignLocked]
      exact le_refl _
  | shrink hbelow hle =>
      change _ ≤ (GroupState.shrunk _ _ _).nextMemberSequence.toNat
      rw [GroupState.shrunk, nextMemberSequence_assignLocked]
      exact le_refl _
  | strand hmax => exact absurd hmax (hold _ rfl).ne
  | drop => cases hstays rfl

end Changes

/-! ### Stretches -/

namespace GroupCoordinator

/-- The event neither removes the group nor is its last generation reached. -/
structure Continues (groupId : Bytes) (coordinator : GroupCoordinator) (event : Event) : Prop where
  before : ∀ group ∈ coordinator.group? groupId, group.generationId < maxInt32
  after : ∀ group ∈ (coordinator.step event).group? groupId, group.generationId < maxInt32
  stays : (coordinator.group? groupId).isSome → ((coordinator.step event).group? groupId).isSome

instance (groupId : Bytes) (coordinator : GroupCoordinator) (event : Event) :
    Decidable (Continues groupId coordinator event) :=
  decidable_of_iff
    ((∀ group ∈ coordinator.group? groupId, group.generationId < maxInt32) ∧
      (∀ group ∈ (coordinator.step event).group? groupId, group.generationId < maxInt32) ∧
      ((coordinator.group? groupId).isSome → ((coordinator.step event).group? groupId).isSome))
    ⟨fun h => ⟨h.1, h.2.1, h.2.2⟩, fun h => ⟨h.before, h.after, h.stays⟩⟩

section Stretch

variable {groupId : Bytes} {coordinator : GroupCoordinator} {events : List Event}
variable (h : Along step (Continues groupId) coordinator events)

include h

theorem advances_run : Advances (fun c => generationOf (c.group? groupId))
    (fun c => (c.group? groupId).map GroupState.roster) coordinator (run step coordinator events) :=
  Along.related step Advances.refl Advances.trans
    (fun state event hcontinues => (step_change state event groupId).advances hcontinues.before hcontinues.after
      hcontinues.stays) h

theorem sequence_le_run (hsound : AllSound coordinator) :
    sequenceOf (coordinator.group? groupId) ≤ sequenceOf ((run step coordinator events).group? groupId) := by
  have hrelated := @Along.related _ _ step (Continues groupId) (fun a b : GroupCoordinator =>
      AllSound a → AllSound b ∧ sequenceOf (a.group? groupId) ≤ sequenceOf (b.group? groupId))
    (fun _ hall => ⟨hall, le_refl _⟩)
    (fun hab hbc hall => ⟨(hbc (hab hall).1).1, (hab hall).2.trans (hbc (hab hall).1).2⟩)
    (fun state event hcontinues hall => ⟨hall.step event,
      (step_change state event groupId).sequence_le hcontinues.before (hall groupId) hcontinues.stays⟩) _ _ h
  exact (hrelated hsound).2

end Stretch

/-! ### What a stretch promises -/

/-- The event is a first join of the group that is answered with a new member id. -/
def Issues (groupId : Bytes) (coordinator : GroupCoordinator) (event : Event) (memberId : Bytes) : Prop :=
  ∃ request partitionCount now response, event = .join request partitionCount now ∧ request.groupId = groupId ∧
    request.memberId = [] ∧ (coordinator.joinGroup request partitionCount now).1 = .ok response ∧
    response.memberId = memberId

/-- The event is a `SyncGroup` of the group that is answered with an assignment. -/
def Syncs (groupId : Bytes) (coordinator : GroupCoordinator) (event : Event) (response : SyncGroupResponse) : Prop :=
  ∃ request now, event = .sync request now ∧ request.groupId = groupId ∧
    (coordinator.syncGroup request now).1 = .ok response

structure Orderly (groupId : Bytes) (coordinator : GroupCoordinator) (events : List Event) : Prop where
  generations : ∀ before middle after, events = before ++ middle ++ after → ∀ group group',
    (run step coordinator before).group? groupId = some group →
    (run step coordinator (before ++ middle)).group? groupId = some group' →
      group.generationId ≤ group'.generationId ∧
      (group.memberIds ≠ group'.memberIds → group.generationId < group'.generationId)
  ids : ∀ before first middle second after, events = before ++ first :: (middle ++ second :: after) →
    ∀ memberId memberId', Issues groupId (run step coordinator before) first memberId →
    Issues groupId (run step coordinator (before ++ first :: middle)) second memberId' → memberId ≠ memberId'
  syncs : ∀ before first middle second after, events = before ++ first :: (middle ++ second :: after) →
    ∀ response response', Syncs groupId (run step coordinator before) first response →
    Syncs groupId (run step coordinator (before ++ first :: middle)) second response' →
    response.generationId = response'.generationId →
      (response.memberId = response'.memberId → response.assignment = response'.assignment) ∧
      (response.memberId ≠ response'.memberId →
        List.Disjoint response.assignment.partitionIds response'.assignment.partitionIds)

theorem roster_unique {group : GroupState} {memberId : Bytes} {left right : PartitionAssignment}
    (hleft : (memberId, left) ∈ group.roster) (hright : (memberId, right) ∈ group.roster) : left = right := by
  obtain ⟨⟨k, member⟩, hmem, heq⟩ := List.mem_map.mp hleft
  obtain ⟨⟨k', member'⟩, hmem', heq'⟩ := List.mem_map.mp hright
  cases heq
  cases heq'
  rw [SortedMap.mem_entries] at hmem hmem'
  rw [Option.some.inj (hmem.symm.trans hmem')]

/-- A sound group gives different members different partitions. -/
theorem Sound.disjoint {group : GroupState} (h : Sound group) (hbelow : group.generationId < maxInt32)
    {left right : Bytes × PartitionAssignment} (hleft : left ∈ group.roster) (hright : right ∈ group.roster)
    (hne : left.1 ≠ right.1) : List.Disjoint left.2.partitionIds right.2.partitionIds := by
  have hcount : group.memberIds.length < 2 ^ 32 := by
    have hsize := h.size
    unfold maxInt32 at hbelow
    omega
  have hsymm : Std.Symm fun left right : Bytes × PartitionAssignment =>
      List.Disjoint left.2.partitionIds right.2.partitionIds := ⟨fun _ _ hdisjoint => hdisjoint.symm⟩
  exact (h.assigned.disjoint hcount).forall hleft hright fun heq => hne (congrArg Prod.fst heq)

section Orderly

variable {groupId : Bytes} {coordinator : GroupCoordinator}

theorem stretch_generations {events : List Event} (h : Along step (Continues groupId) coordinator events)
    {group group' : GroupState} (hgroup : coordinator.group? groupId = some group)
    (hgroup' : (run step coordinator events).group? groupId = some group') :
    group.generationId ≤ group'.generationId ∧
      (group.memberIds ≠ group'.memberIds → group.generationId < group'.generationId) := by
  have hadvances := advances_run h
  have hgeneration : generationOf (coordinator.group? groupId) = group.generationId := by rw [hgroup]; rfl
  have hgeneration' : generationOf ((run step coordinator events).group? groupId) = group'.generationId := by
    rw [hgroup']; rfl
  have hle := hadvances.le
  rw [hgeneration, hgeneration'] at hle
  refine ⟨hle, fun hids => lt_of_le_of_ne hle fun heq => hids ?_⟩
  have hroster := hadvances.content_eq (by rw [hgeneration, hgeneration', heq])
  rw [hgroup, hgroup'] at hroster
  rw [group.memberIds_eq, group'.memberIds_eq, show group.roster = group'.roster from Option.some.inj hroster]

theorem stretch_ids (hsound : AllSound coordinator) {first second : Event} {middle : List Event}
    (h : Along step (Continues groupId) coordinator (first :: middle)) {memberId memberId' : Bytes}
    (hfirst : Issues groupId coordinator first memberId)
    (hsecond : Issues groupId (run step coordinator (first :: middle)) second memberId') : memberId ≠ memberId' := by
  obtain ⟨request, partitionCount, now, response, rfl, rfl, hid, hok, rfl⟩ := hfirst
  obtain ⟨request', partitionCount', now', response', rfl, hgroupId', hid', hok', rfl⟩ := hsecond
  obtain ⟨group, hgroup, -, -, hmember, -, hstate⟩ := joinGroup_fresh hid hok
  obtain ⟨group', hgroup', -, -, hmember', -, -⟩ := joinGroup_fresh hid' hok'
  have hbelow := below_getD h.1.before request.groupId request.topic partitionCount
  have hgrown := ((SoundBelow.getD (hsound request.groupId) request.groupId request.topic partitionCount).2
    hbelow).sequence_grown hbelow request.topic now
  rw [← hgroup] at hgrown
  have hle := sequence_le_run h.2 (hsound.step _)
  change sequenceOf ((coordinator.joinGroup request partitionCount now).2.group? request.groupId) ≤ _ at hle
  rw [hstate] at hle
  have hnext : sequenceOf ((run step coordinator (.join request partitionCount now :: middle)).group?
      request.groupId) = group'.nextMemberSequence.toNat := by
    rw [← hgroupId', hgroup', ← sequenceOf_getD]
  intro heq
  rw [hmember, hmember'] at heq
  have hsame := congrArg UInt64.toNat (memberName_injective heq)
  have hlt : group.nextMemberSequence.toNat + 1 ≤ group'.nextMemberSequence.toNat :=
    hgrown.symm.trans_le (hle.trans_eq hnext)
  omega

theorem stretch_syncs (hsound : AllSound coordinator) {first second : Event} {middle : List Event}
    (h : Along step (Continues groupId) coordinator (first :: middle)) {response response' : SyncGroupResponse}
    (hfirst : Syncs groupId coordinator first response)
    (hsecond : Syncs groupId (run step coordinator (first :: middle)) second response')
    (hgeneration : response.generationId = response'.generationId) :
    (response.memberId = response'.memberId → response.assignment = response'.assignment) ∧
      (response.memberId ≠ response'.memberId →
        List.Disjoint response.assignment.partitionIds response'.assignment.partitionIds) := by
  obtain ⟨request, now, rfl, rfl, hok⟩ := hfirst
  obtain ⟨request', now', rfl, hgroupId', hok'⟩ := hsecond
  obtain ⟨group, hgroup, hgen, hmem, -, -⟩ := syncGroup_ok hok
  obtain ⟨group', hgroup', hgen', hmem', -, -⟩ := syncGroup_ok hok'
  rw [hgroupId'] at hgroup'
  -- both requests see the same roster, since the generation is its version
  have hroster := (advances_run h).content_eq (by
    rw [hgroup, hgroup']
    exact hgen.symm.trans (hgeneration.trans hgen'))
  rw [hgroup, hgroup'] at hroster
  rw [← show group.roster = group'.roster from Option.some.inj hroster] at hmem'
  have hbelow := h.1.before group hgroup
  refine ⟨fun hsame => roster_unique (hsame ▸ hmem) hmem', fun hne => ?_⟩
  exact Sound.disjoint ((hsound request.groupId group hgroup).2 hbelow) hbelow hmem hmem' hne

end Orderly

/-- **Generations.** In every run, whatever happened before, every stretch without removal of the group is
orderly. -/
theorem stretch_orderly (sessionTimeout : Int) (past events : List Event) {groupId : Bytes}
    (h : Along step (Continues groupId) (reached sessionTimeout past) events) :
    Orderly groupId (reached sessionTimeout past) events where
  generations before middle after hevents group group' hgroup hgroup' := by
    rw [hevents, along_append, along_append] at h
    rw [run_append] at hgroup'
    exact stretch_generations h.1.2 hgroup hgroup'
  ids before first middle second after hevents memberId memberId' hfirst hsecond := by
    rw [hevents, ← List.cons_append, along_append, along_append] at h
    rw [run_append] at hsecond
    exact stretch_ids ((reached_sound sessionTimeout past).run before) h.2.1 hfirst hsecond
  syncs before first middle second after hevents response response' hfirst hsecond hgeneration := by
    rw [hevents, ← List.cons_append, along_append, along_append] at h
    rw [run_append] at hsecond
    exact stretch_syncs ((reached_sound sessionTimeout past).run before) h.2.1 hfirst hsecond hgeneration

/-- Two members join, one leaves, and those who are left see their assignments. -/
theorem stretch_orderly_leave :
    Along step (Continues (text "group")) (reached 10 [])
        [firstJoin 3, firstJoin 3, .sync ⟨text "group", text "member-1", 2⟩ 1,
          .leave ⟨text "group", text "member-2"⟩, .sync ⟨text "group", text "member-1", 3⟩ 2] ∧
      Orderly (text "group") (reached 10 [])
        [firstJoin 3, firstJoin 3, .sync ⟨text "group", text "member-1", 2⟩ 1,
          .leave ⟨text "group", text "member-2"⟩, .sync ⟨text "group", text "member-1", 3⟩ 2] := by
  have hstretch : Along step (Continues (text "group")) (reached 10 [])
      [firstJoin 3, firstJoin 3, .sync ⟨text "group", text "member-1", 2⟩ 1,
        .leave ⟨text "group", text "member-2"⟩, .sync ⟨text "group", text "member-1", 3⟩ 2] := by
    decide +kernel
  exact ⟨hstretch, stretch_orderly 10 [] _ hstretch⟩

end GroupCoordinator

end LogMq
