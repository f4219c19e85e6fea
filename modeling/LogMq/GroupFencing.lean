import LogMq.GroupInvariant

/-! Removed members. Within one lifetime of a group's state a member id is given out once, so who was
removed stays out. A group without members is forgotten, though, and starts with member 1 and generation 1
when it is joined again. -/

namespace LogMq

open Runs

/-! ### Membership -/

/-- Members are only added by first joins, and a first join adds one member. -/
theorem Change.membership {groupId : Bytes} {event : Event} {old : Option GroupState} {group : GroupState}
    (h : Change groupId event old (some group)) :
    ((∀ before ∈ old, group.nextMemberSequence = before.nextMemberSequence) ∧
      ∀ memberId ∈ group.memberIds, ∃ before ∈ old, memberId ∈ before.memberIds) ∨
    ∃ topic partitionCount now before, event = .join ⟨groupId, [], topic⟩ partitionCount now ∧
      before = old.getD (.create groupId topic partitionCount) ∧
      group.nextMemberSequence = before.nextMemberSequence + 1 ∧
      ∀ memberId, memberId ∈ group.memberIds ↔
        memberId = memberName before.nextMemberSequence ∨ memberId ∈ before.memberIds := by
  generalize hnew : some group = new at h
  cases h with
  | keep hview =>
      obtain ⟨before, hbefore, heq⟩ := exists_of_view hview hnew.symm
      refine Or.inl ⟨fun other hother => ?_, fun memberId hmem => ⟨before, hbefore, memberIds_of_view heq ▸ hmem⟩⟩
      rw [Option.mem_unique hother hbefore]
      exact congrArg GroupView.nextMemberSequence heq
  | create hevent =>
      cases hnew
      exact Or.inl ⟨fun _ hbefore => (nomatch hbefore), fun _ hmem => absurd hmem List.not_mem_nil⟩
  | @grow _ topic partitionCount now hevent hmax =>
      cases hnew
      refine Or.inr ⟨topic, partitionCount, now, _, hevent, rfl, nextMemberSequence_assignLocked _, fun memberId => ?_⟩
      rw [GroupState.grown, memberIds_assignLocked]
      exact mem_memberIds_addMember
  | @overflow before topic partitionCount now hevent hmax =>
      cases hnew
      exact Or.inr ⟨topic, partitionCount, now, before, hevent, rfl, rfl, fun memberId => mem_memberIds_addMember⟩
  | @restart before memberId member now hmember hzero =>
      cases hnew
      refine Or.inl ⟨fun other hother => ?_, fun id hmem => ⟨before, rfl, ?_⟩⟩
      · cases hother
        exact nextMemberSequence_assignLocked _
      · rw [memberIds_assignLocked] at hmem
        exact memberIds_of_view (GroupState.view_touch hmember now) ▸ hmem
  | @shrink before keep generationId hbelow hle =>
      cases hnew
      refine Or.inl ⟨fun other hother => ?_, fun id hmem => ⟨before, rfl, ?_⟩⟩
      · cases hother
        exact nextMemberSequence_assignLocked _
      · rw [GroupState.shrunk, memberIds_assignLocked] at hmem
        exact (SortedMap.keys_filter_sublist _ _).subset hmem
  | @strand before memberId hmax =>
      cases hnew
      refine Or.inl ⟨fun other hother => ?_, fun id hmem => ⟨before, rfl, ?_⟩⟩
      · cases hother
        rfl
      · exact (SortedMap.keys_filter_sublist _ _).subset hmem
  | drop => cases hnew

namespace GroupCoordinator

def IsMember (coordinator : GroupCoordinator) (groupId memberId : Bytes) : Prop :=
  ∃ group, coordinator.group? groupId = some group ∧ memberId ∈ group.memberIds

/-! ### Fencing -/

/-- A `JoinGroup` among the events was answered with the member id and the generation. -/
def Issued (coordinator : GroupCoordinator) (events : List Event) (groupId memberId : Bytes)
    (generationId : Int) : Prop :=
  ∃ before request partitionCount now after leaderId, events = before ++ .join request partitionCount now :: after ∧
    ((run step coordinator before).joinGroup request partitionCount now).1 =
      .ok ⟨groupId, memberId, generationId, leaderId⟩

/-- A `LeaveGroup` or a scan for timed out members removes the member. -/
def Removes (coordinator : GroupCoordinator) (event : Event) (groupId memberId : Bytes) : Prop :=
  ((∃ request, event = .leave request) ∨ ∃ now, event = .expire now) ∧
    coordinator.IsMember groupId memberId ∧ ¬(coordinator.step event).IsMember groupId memberId

/-- A request with the member id and the generation is rejected, and a first join is not given both. -/
structure Refuses (coordinator : GroupCoordinator) (event : Event) (groupId memberId : Bytes)
    (generationId : Int) : Prop where
  sync : ∀ now, event = .sync ⟨groupId, memberId, generationId⟩ now →
    ∃ status, (coordinator.syncGroup ⟨groupId, memberId, generationId⟩ now).1 = .error status
  heartbeat : ∀ now, event = .heartbeat ⟨groupId, memberId, generationId⟩ now →
    ∃ status, (coordinator.heartbeat ⟨groupId, memberId, generationId⟩ now).1 = .error status
  join : ∀ topic partitionCount now leaderId, event = .join ⟨groupId, [], topic⟩ partitionCount now →
    (coordinator.joinGroup ⟨groupId, [], topic⟩ partitionCount now).1 ≠
      .ok ⟨groupId, memberId, generationId, leaderId⟩

/-- Who is removed in a run stays out of it. -/
def Fences (coordinator : GroupCoordinator) (events : List Event) : Prop :=
  ∀ before removal later event after groupId memberId generationId,
    events = before ++ removal :: (later ++ event :: after) →
    Issued coordinator before groupId memberId generationId →
    Removes (run step coordinator before) removal groupId memberId →
    Refuses (run step coordinator (before ++ removal :: later)) event groupId memberId generationId

/-- The coordinator dropped the state of the group. -/
def Dropped (coordinator : GroupCoordinator) (events : List Event) (groupId : Bytes) : Prop :=
  ∃ before event after, events = before ++ event :: after ∧
    ((run step coordinator before).group? groupId).isSome ∧
    (run step coordinator (before ++ [event])).group? groupId = none

/-- A `JoinGroup` passes the checks of its arguments, and the group that is there has its topic and partition count. -/
def Admits (coordinator : GroupCoordinator) (request : JoinGroupRequest) (partitionCount : UInt32) : Prop :=
  validateJoin request partitionCount = .ok () ∧
    ∀ group ∈ coordinator.group? request.groupId, group.topic = request.topic ∧ group.partitionCount = partitionCount

/-- No first join that is admitted meets a group whose state was dropped before, or the last sequence number. -/
def JoinsOnce (coordinator : GroupCoordinator) (events : List Event) : Prop :=
  ∀ before request partitionCount now after, events = before ++ .join request partitionCount now :: after →
    request.memberId = [] → (run step coordinator before).Admits request partitionCount →
    ¬Dropped coordinator before request.groupId ∧
      ∀ group ∈ (run step coordinator before).group? request.groupId, group.nextMemberSequence.toNat + 1 < 2 ^ 64

theorem joinGroup_of_not_admits {coordinator : GroupCoordinator} {request : JoinGroupRequest} {partitionCount : UInt32}
    (h : ¬coordinator.Admits request partitionCount) (now : Int) :
    ∃ status, coordinator.joinGroup request partitionCount now = (.error status, coordinator) := by
  unfold joinGroup
  cases hvalid : validateJoin request partitionCount with
  | error status => exact ⟨status, rfl⟩
  | ok =>
      cases hgroup : coordinator.group? request.groupId with
      | none =>
          refine absurd ⟨hvalid, fun group habsurd => ?_⟩ h
          rw [hgroup] at habsurd
          cases habsurd
      | some group =>
          have hfind : coordinator.groups.find? request.groupId = some group := hgroup
          dsimp only
          rw [hfind]
          dsimp only
          by_cases htopic : group.topic = request.topic
          · by_cases hcount : group.partitionCount = partitionCount
            · refine absurd ⟨hvalid, fun other hother => ?_⟩ h
              cases hgroup.symm.trans hother
              exact ⟨htopic, hcount⟩
            · rw [if_neg (not_not.mpr htopic), if_pos hcount]
              exact ⟨_, rfl⟩
          · rw [if_pos htopic]
            exact ⟨_, rfl⟩

/-- Members are only added by first joins that are admitted. -/
theorem step_membership {coordinator : GroupCoordinator} {event : Event} {groupId : Bytes} {group : GroupState}
    (hnew : (step coordinator event).group? groupId = some group) :
    ((∀ before ∈ coordinator.group? groupId, group.nextMemberSequence = before.nextMemberSequence) ∧
      ∀ memberId ∈ group.memberIds, ∃ before ∈ coordinator.group? groupId, memberId ∈ before.memberIds) ∨
    ∃ topic partitionCount now before, event = .join ⟨groupId, [], topic⟩ partitionCount now ∧
      coordinator.Admits ⟨groupId, [], topic⟩ partitionCount ∧
      before = (coordinator.group? groupId).getD (.create groupId topic partitionCount) ∧
      group.nextMemberSequence = before.nextMemberSequence + 1 ∧
      ∀ memberId, memberId ∈ group.memberIds ↔
        memberId = memberName before.nextMemberSequence ∨ memberId ∈ before.memberIds := by
  have hchange := step_change coordinator event groupId
  rw [hnew] at hchange
  rcases hchange.membership with hkept | ⟨topic, partitionCount, now, before, rfl, hbefore, hmembers⟩
  · exact Or.inl hkept
  · by_cases hadmits : coordinator.Admits ⟨groupId, [], topic⟩ partitionCount
    · exact Or.inr ⟨topic, partitionCount, now, before, rfl, hadmits, hbefore, hmembers⟩
    · obtain ⟨status, hrefused⟩ := joinGroup_of_not_admits hadmits now
      have hsame : coordinator.group? groupId = some group := by
        rw [← hnew, step, hrefused]
      refine Or.inl ⟨fun old hold => ?_, fun memberId hmem => ⟨group, hsame, hmem⟩⟩
      cases hsame.symm.trans hold
      rfl

theorem Dropped.append {coordinator : GroupCoordinator} {events : List Event} {groupId : Bytes}
    (h : Dropped coordinator events groupId) (more : List Event) : Dropped coordinator (events ++ more) groupId := by
  obtain ⟨before, event, after, rfl, hgroup⟩ := h
  exact ⟨before, event, after ++ more, by rw [List.append_assoc, List.cons_append], hgroup⟩

theorem JoinsOnce.front {coordinator : GroupCoordinator} {events more : List Event}
    (h : JoinsOnce coordinator (events ++ more)) : JoinsOnce coordinator events := by
  rintro before request partitionCount now after rfl hid hadmits
  exact h before request partitionCount now (after ++ more) (by rw [List.append_assoc, List.cons_append]) hid hadmits

/-- Without repeated sequence numbers all members are named by earlier ones. -/
theorem JoinsOnce.named {sessionTimeout : Int} {events : List Event}
    (h : JoinsOnce ⟨sessionTimeout, SortedMap.empty⟩ events) (groupId : Bytes) :
    ∀ group ∈ (reached sessionTimeout events).group? groupId, Named group := by
  induction events using List.reverseRecOn with
  | nil =>
      intro group hgroup
      cases hgroup
  | append_singleton events event ih =>
      intro group hgroup
      have hnamed := ih h.front
      rw [reached, run_concat] at hgroup
      rcases step_membership hgroup with ⟨hsequence, hmembers⟩ | ⟨topic, partitionCount, now, before, rfl, hadmits,
        hbefore, hsequence, hmembers⟩
      · intro memberId hmem
        obtain ⟨before, hbefore, hmem⟩ := hmembers memberId hmem
        rw [hsequence before hbefore]
        exact hnamed before hbefore memberId hmem
      · obtain ⟨-, hwrap⟩ := h events ⟨groupId, [], topic⟩ partitionCount now [] rfl rfl hadmits
        have hnamed' : Named before ∧ before.nextMemberSequence.toNat + 1 < 2 ^ 64 := by
          rw [hbefore]
          cases hold : (run step ⟨sessionTimeout, SortedMap.empty⟩ events).group? groupId with
          | none => exact ⟨(Sound.create groupId topic partitionCount).named, show 1 + 1 < 2 ^ 64 by decide⟩
          | some old => exact ⟨hnamed old hold, hwrap old hold⟩
        exact hnamed'.1.next hnamed'.2 hsequence fun memberId => (hmembers memberId).mp

/-- A member id is out for good: nobody has it, and it is not given out again while the group exists. -/
structure Out (coordinator : GroupCoordinator) (events : List Event) (groupId : Bytes) (sequence : UInt64) : Prop where
  absent : ¬(run step coordinator events).IsMember groupId (memberName sequence)
  past : Dropped coordinator events groupId ∨
    ∃ group, (run step coordinator events).group? groupId = some group ∧ sequence < group.nextMemberSequence

section Out

variable {coordinator : GroupCoordinator} {groupId : Bytes} {sequence : UInt64}

/-- A group that existed and is gone was dropped. -/
theorem dropped_concat {events : List Event} {event : Event} {group : GroupState}
    (hgroup : (run step coordinator events).group? groupId = some group)
    (hnone : (step (run step coordinator events) event).group? groupId = none) :
    Dropped coordinator (events ++ [event]) groupId :=
  ⟨events, event, [], rfl, by rw [hgroup]; rfl, by rw [run_concat]; exact hnone⟩

theorem Out.concat {events : List Event} (h : Out coordinator events groupId sequence) {event : Event}
    (hjoins : JoinsOnce coordinator (events ++ [event])) :
    Out coordinator (events ++ [event]) groupId sequence := by
  cases hnew : (step (run step coordinator events) event).group? groupId with
  | none =>
      refine ⟨?_, Or.inl ?_⟩
      · rw [run_concat]
        rintro ⟨group, hgroup, -⟩
        rw [hnew] at hgroup
        cases hgroup
      · rcases h.past with hdropped | ⟨group, hgroup, -⟩
        · exact hdropped.append [event]
        · exact dropped_concat hgroup hnew
  | some group =>
      rcases step_membership hnew with ⟨hsequence, hmembers⟩ | ⟨topic, partitionCount, now, before, rfl, hadmits,
        hbefore, hsequence, hmembers⟩
      · constructor
        · rw [run_concat]
          rintro ⟨group', hgroup', hmem⟩
          cases hnew.symm.trans hgroup'
          exact h.absent (hmembers _ hmem)
        · rcases h.past with hdropped | ⟨old, hold, hlt⟩
          · exact Or.inl (hdropped.append [event])
          · refine Or.inr ⟨group, by rw [run_concat]; exact hnew, ?_⟩
            rw [hsequence old hold]
            exact hlt
      · -- a first join only meets a group that was never dropped, and takes a later sequence number
        obtain ⟨hnever, hwrap⟩ := hjoins events ⟨groupId, [], topic⟩ partitionCount now [] rfl rfl hadmits
        obtain ⟨old, hold, hlt⟩ := h.past.resolve_left hnever
        have hwrap := hwrap old hold
        rw [hold, Option.getD_some] at hbefore
        subst hbefore
        constructor
        · rw [run_concat]
          rintro ⟨group', hgroup', hmem⟩
          cases hnew.symm.trans hgroup'
          rcases (hmembers _).mp hmem with heq | hmem
          · exact absurd (memberName_injective heq) (UInt64.ne_of_lt hlt)
          · exact h.absent ⟨before, hold, hmem⟩
        · refine Or.inr ⟨group, by rw [run_concat]; exact hnew, ?_⟩
          rw [hsequence]
          exact UInt64.lt_trans hlt (lt_succ_sequence hwrap)

theorem Out.append {events more : List Event} (h : Out coordinator events groupId sequence)
    (hjoins : JoinsOnce coordinator (events ++ more)) : Out coordinator (events ++ more) groupId sequence := by
  induction more using List.reverseRecOn with
  | nil => exact (List.append_nil events).symm ▸ h
  | append_singleton more event ih =>
      rw [← List.append_assoc] at hjoins ⊢
      exact (ih hjoins.front).concat hjoins

/-- Removal puts a member out. -/
theorem Removes.out {sessionTimeout : Int} {events : List Event} {removal : Event} {memberId : Bytes}
    (hjoins : JoinsOnce ⟨sessionTimeout, SortedMap.empty⟩ events)
    (h : Removes (reached sessionTimeout events) removal groupId memberId) :
    ∃ sequence, memberId = memberName sequence ∧
      Out ⟨sessionTimeout, SortedMap.empty⟩ (events ++ [removal]) groupId sequence := by
  obtain ⟨hevent, ⟨group, hgroup, hmem⟩, habsent⟩ := h
  obtain ⟨sequence, hlt, rfl⟩ := hjoins.named groupId group hgroup memberId hmem
  refine ⟨sequence, rfl, by rw [run_concat]; exact habsent, ?_⟩
  cases hnew : (step (reached sessionTimeout events) removal).group? groupId with
  | none => exact Or.inl (dropped_concat hgroup hnew)
  | some after =>
      rcases step_membership hnew with ⟨hsequence, -⟩ | ⟨topic, partitionCount, now, before, rfl, -⟩
      · refine Or.inr ⟨after, by rw [run_concat]; exact hnew, ?_⟩
        rw [hsequence group hgroup]
        exact hlt
      · rcases hevent with ⟨request, hleave⟩ | ⟨clock, hexpire⟩
        · cases hleave
        · cases hexpire

end Out

/-- **Fencing.** In every run in which no first join is admitted to a group that was dropped, and in which
the sequence numbers do not wrap, a removed member stays out. -/
theorem fences_of_joinsOnce {sessionTimeout : Int} {events : List Event}
    (h : JoinsOnce ⟨sessionTimeout, SortedMap.empty⟩ events) : Fences ⟨sessionTimeout, SortedMap.empty⟩ events := by
  rintro before removal later event after groupId memberId generationId rfl - hremoves
  obtain ⟨sequence, rfl, hout⟩ := Removes.out h.front hremoves
  have hsplit : before ++ removal :: (later ++ event :: after) =
      (before ++ [removal] ++ later) ++ event :: after := by
    rw [List.append_assoc, List.append_assoc, List.singleton_append]
  rw [hsplit] at h
  have hlater := hout.append h.front
  have hevents : before ++ removal :: later = before ++ [removal] ++ later := by
    rw [List.append_assoc, List.singleton_append]
  rw [hevents]
  have habsent : ∀ group, (run step ⟨sessionTimeout, SortedMap.empty⟩ (before ++ [removal] ++ later)).group? groupId =
      some group → memberName sequence ∉ group.memberIds :=
    fun group hgroup hmem => hlater.absent ⟨group, hgroup, hmem⟩
  constructor
  · rintro now rfl
    exact syncGroup_of_not_mem habsent
  · rintro now rfl
    exact heartbeat_of_not_mem habsent
  · rintro topic partitionCount now leaderId rfl hok
    obtain ⟨group, hgroup, -, -, hmember, -, -⟩ := joinGroup_fresh rfl hok
    have hadmits : (run step ⟨sessionTimeout, SortedMap.empty⟩ (before ++ [removal] ++ later)).Admits
        ⟨groupId, [], topic⟩ partitionCount := by
      by_contra hrefused
      obtain ⟨status, hfails⟩ := joinGroup_of_not_admits hrefused now
      rw [hfails] at hok
      cases hok
    obtain ⟨hnever, -⟩ := h _ ⟨groupId, [], topic⟩ partitionCount now after rfl rfl hadmits
    obtain ⟨old, hold, hlt⟩ := hlater.past.resolve_left hnever
    rw [hold, Option.getD_some] at hgroup
    subst hgroup
    exact absurd (memberName_injective hmember) (UInt64.ne_of_lt hlt)

/-- The only member of the group leaves it. -/
def lastLeave : Event := .leave ⟨text "group", text "member-1"⟩

theorem issued_first (events : List Event) :
    Issued ⟨10, SortedMap.empty⟩ (firstJoin 1 :: events) (text "group") (text "member-1") 1 :=
  ⟨[], ⟨text "group", [], text "topic"⟩, 1, 0, events, text "member-1", rfl, rfl⟩

theorem removes_last : Removes (reached 10 [firstJoin 1]) lastLeave (text "group") (text "member-1") := by
  have hmember : ((reached 10 [firstJoin 1]).group? (text "group")).any
      (fun group => decide (text "member-1" ∈ group.memberIds)) = true := by
    decide +kernel
  have hgone : (step (reached 10 [firstJoin 1]) lastLeave).group? (text "group") = none := by
    decide +kernel
  obtain ⟨group, hgroup, hmem⟩ := Option.any_eq_true _ _ |>.mp hmember
  refine ⟨Or.inl ⟨_, rfl⟩, ⟨group, hgroup, of_decide_eq_true hmem⟩, ?_⟩
  rintro ⟨other, hother, -⟩
  rw [hgone] at hother
  cases hother

/-- A first join that asks for a topic without partitions. -/
def emptyJoin : Event := .join ⟨text "group", [], text "topic"⟩ 0 0

/-- A member that left is not heard any more. The first join that came after it was refused. -/
theorem fences_of_joinsOnce_left :
    Refuses (reached 10 [firstJoin 1, lastLeave, emptyJoin]) (.heartbeat ⟨text "group", text "member-1", 1⟩ 0)
      (text "group") (text "member-1") 1 := by
  have hjoins : JoinsOnce ⟨10, SortedMap.empty⟩
      [firstJoin 1, lastLeave, emptyJoin, .heartbeat ⟨text "group", text "member-1", 1⟩ 0] := by
    intro before request partitionCount now after hevents hid hadmits
    rcases before with _ | ⟨first, _ | ⟨second, _ | ⟨third, _ | ⟨fourth, rest⟩⟩⟩⟩
    · refine ⟨?_, fun group hgroup => (nomatch hgroup)⟩
      rintro ⟨front, event, back, hnil, -⟩
      exact absurd hnil (List.append_ne_nil_of_right_ne_nil _ (List.cons_ne_nil _ _)).symm
    · cases hevents
    · -- the topic has no partitions
      simp only [List.cons_append, List.nil_append, List.cons.injEq] at hevents
      cases hevents.2.2.1
      exact absurd hadmits.1 (by decide)
    · cases hevents
    · have hlength := congrArg List.length hevents
      rw [List.length_append] at hlength
      simp only [List.length_cons, List.length_nil] at hlength
      omega
  exact fences_of_joinsOnce hjoins [firstJoin 1] lastLeave [emptyJoin] _ [] _ _ _ rfl (issued_first []) removes_last

/-- A group that is joined again after its last member left gives out the same id and generation. -/
theorem removed_member_reissued : ¬Fences ⟨10, SortedMap.empty⟩ [firstJoin 1, lastLeave, firstJoin 1] := by
  intro hfences
  have hrefuses := hfences [firstJoin 1] lastLeave [] (firstJoin 1) [] _ _ _ rfl (issued_first []) removes_last
  exact hrefuses.join (text "topic") 1 0 (text "member-1") rfl rfl

end GroupCoordinator

end LogMq
