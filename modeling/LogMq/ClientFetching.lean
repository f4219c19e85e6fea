import LogMq.ClientAnswers

/-! What one turn of a `Poll` fetches. Every source of an assignment gives the records from its position on, without a
gap, up to its new position. -/

namespace LogMq

open Interaction

/-! ### Offsets in a row -/

/-- The offsets from `start` up to `stop`, each of them once. -/
def Consecutive : Int → List Int → Int → Prop
  | start, [], stop => stop = start
  | start, offset :: rest, stop => offset = start ∧ Consecutive (start + 1) rest stop

namespace Consecutive

variable {start middle stop : Int} {offsets more : List Int}

theorem append (h : Consecutive start offsets middle) (hmore : Consecutive middle more stop) :
    Consecutive start (offsets ++ more) stop := by
  induction offsets generalizing start with
  | nil =>
      cases h
      exact hmore
  | cons offset rest ih => exact ⟨h.1, ih h.2⟩

/-- The end is as far away as there are offsets. -/
theorem stop_eq (h : Consecutive start offsets stop) : stop = start + offsets.length := by
  induction offsets generalizing start with
  | nil =>
      rw [List.length_nil, Nat.cast_zero, add_zero]
      exact h
  | cons offset rest ih =>
      rw [ih h.2, List.length_cons]
      omega

/-- Nothing is left out. -/
theorem mem (h : Consecutive start offsets stop) {offset : Int} (hstart : start ≤ offset) (hstop : offset < stop) :
    offset ∈ offsets := by
  induction offsets generalizing start with
  | nil =>
      cases h
      exact absurd hstop (not_lt.mpr hstart)
  | cons first rest ih =>
      rcases hstart.eq_or_lt with rfl | hlt
      · exact List.mem_cons.mpr (Or.inl h.1.symm)
      · exact List.mem_cons_of_mem _ (ih h.2 (Int.add_one_le_of_lt hlt))

end Consecutive

/-! ### Sources -/

/-- The offsets of the records from one partition. -/
def offsetsOf (topic : Bytes) (partitionId : Int) (records : List ConsumerRecord) : List Int :=
  (records.filter fun record => record.topic = topic ∧ record.partitionId = partitionId).map ConsumerRecord.offset

@[simp] theorem offsetsOf_nil (topic : Bytes) (partitionId : Int) : offsetsOf topic partitionId [] = [] := rfl

@[simp] theorem offsetsOf_append (topic : Bytes) (partitionId : Int) (records more : List ConsumerRecord) :
    offsetsOf topic partitionId (records ++ more) = offsetsOf topic partitionId records ++ offsetsOf topic partitionId more := by
  simp [offsetsOf]

theorem offsetsOf_all {topic : Bytes} {partitionId : Int} {records : List ConsumerRecord}
    (h : ∀ record ∈ records, record.topic = topic ∧ record.partitionId = partitionId) :
    offsetsOf topic partitionId records = records.map ConsumerRecord.offset := by
  unfold offsetsOf
  rw [List.filter_eq_self.mpr fun record hrecord => decide_eq_true (h record hrecord)]

theorem offsetsOf_none {topic : Bytes} {partitionId : Int} {records : List ConsumerRecord}
    (h : ∀ record ∈ records, record.topic = topic → record.partitionId ≠ partitionId) :
    offsetsOf topic partitionId records = [] := by
  unfold offsetsOf
  rw [List.filter_eq_nil_iff.mpr, List.map_nil]
  intro record hrecord
  simpa using h record hrecord

theorem mem_offsetsOf {topic : Bytes} {partitionId offset : Int} {records : List ConsumerRecord} :
    offset ∈ offsetsOf topic partitionId records ↔
      ∃ record ∈ records, record.topic = topic ∧ record.partitionId = partitionId ∧ record.offset = offset := by
  simp [offsetsOf, and_assoc]

/-- A topic has its retry topic as a second source, unless it is internal. -/
def IsSource (topic : Bytes) (retry : Bool) : Prop := retry = true → isInternalTopic topic = false

def sourceTopic (topic : Bytes) : Bool → Bytes
  | false => topic
  | true => retryTopicPrefix ++ topic

def Assignment.position (assignment : Assignment) : Bool → Int
  | false => assignment.nextOffset
  | true => assignment.retryNextOffset

theorem retryTopic_ne (topic : Bytes) : retryTopicPrefix ++ topic ≠ topic := by
  intro h
  have hempty : retryTopicPrefix = [] := List.append_left_eq_self.mp h
  exact absurd hempty (by decide +kernel)

/-! ### Assignments -/

/-- Some records take the positions of an assignment further. -/
structure Advances (topic : Bytes) (records : List ConsumerRecord) (before after : Assignment) : Prop where
  partition_eq : after.partitionId = before.partitionId
  consecutive : ∀ retry, IsSource topic retry → Consecutive (before.position retry)
    (offsetsOf (sourceTopic topic retry) before.partitionId records) (after.position retry)
  internal : isInternalTopic topic = true → after.retryNextOffset = before.retryNextOffset

namespace Advances

variable {topic : Bytes} {records more : List ConsumerRecord} {before middle after : Assignment}

theorem refl (topic : Bytes) (assignment : Assignment) : Advances topic [] assignment assignment :=
  ⟨rfl, fun _ _ => rfl, fun _ => rfl⟩

theorem trans (h : Advances topic records before middle) (hmore : Advances topic more middle after) :
    Advances topic (records ++ more) before after where
  partition_eq := hmore.partition_eq.trans h.partition_eq
  consecutive := by
    intro retry hsource
    have hnext := hmore.consecutive retry hsource
    rw [h.partition_eq] at hnext
    rw [offsetsOf_append]
    exact (h.consecutive retry hsource).append hnext
  internal := fun hinternal => (hmore.internal hinternal).trans (h.internal hinternal)

/-- Records of other partitions do not matter. -/
theorem congr (h : Advances topic records before after)
    (hmore : ∀ retry, offsetsOf (sourceTopic topic retry) before.partitionId more =
      offsetsOf (sourceTopic topic retry) before.partitionId records) : Advances topic more before after where
  partition_eq := h.partition_eq
  consecutive := by
    intro retry hsource
    rw [hmore]
    exact h.consecutive retry hsource
  internal := h.internal

/-- Without records nothing moves. -/
theorem eq_of_nil (h : Advances topic [] before after) : after = before := by
  have hnext : after.nextOffset = before.nextOffset := h.consecutive false (nofun)
  have hretry : after.retryNextOffset = before.retryNextOffset := by
    cases hinternal : isInternalTopic topic with
    | true => exact h.internal hinternal
    | false => exact h.consecutive true fun _ => hinternal
  cases after
  cases before
  simp only [Assignment.mk.injEq]
  exact ⟨h.partition_eq, hnext, hretry⟩

end Advances

/-- Some records take all positions further. -/
def Delivered (topic : Bytes) (records : List ConsumerRecord) (before after : List Assignment) : Prop :=
  List.Forall₂ (Advances topic records) before after

namespace Delivered

variable {topic : Bytes} {records more : List ConsumerRecord} {before middle after : List Assignment}

theorem refl (topic : Bytes) (assignments : List Assignment) : Delivered topic [] assignments assignments :=
  List.forall₂_same.mpr fun assignment _ => .refl topic assignment

theorem trans (h : Delivered topic records before middle) (hmore : Delivered topic more middle after) :
    Delivered topic (records ++ more) before after := by
  induction h generalizing after with
  | nil =>
      cases hmore
      exact .nil
  | cons hfirst _ ih =>
      cases hmore with
      | cons hsecond hothers => exact .cons (hfirst.trans hsecond) (ih hothers)

theorem eq_of_nil (h : Delivered topic [] before after) : after = before := by
  induction h with
  | nil => rfl
  | cons hfirst _ ih => rw [hfirst.eq_of_nil, ih]

theorem partitions (h : Delivered topic records before after) :
    after.map Assignment.partitionId = before.map Assignment.partitionId := by
  induction h with
  | nil => rfl
  | cons hfirst _ ih => rw [List.map_cons, List.map_cons, hfirst.partition_eq, ih]

theorem exists_before (h : Delivered topic records before after) {assignment : Assignment} (hmem : assignment ∈ after) :
    ∃ old ∈ before, Advances topic records old assignment := by
  induction h with
  | nil => cases hmem
  | cons hfirst _ ih =>
      rcases List.mem_cons.mp hmem with rfl | hrest
      · exact ⟨_, List.mem_cons_self, hfirst⟩
      · obtain ⟨old, hold, hadvances⟩ := ih hrest
        exact ⟨old, List.mem_cons_of_mem _ hold, hadvances⟩

theorem exists_after (h : Delivered topic records before after) {assignment : Assignment} (hmem : assignment ∈ before) :
    ∃ moved ∈ after, Advances topic records assignment moved := by
  induction h with
  | nil => cases hmem
  | cons hfirst _ ih =>
      rcases List.mem_cons.mp hmem with rfl | hrest
      · exact ⟨_, List.mem_cons_self, hfirst⟩
      · obtain ⟨moved, hmoved, hadvances⟩ := ih hrest
        exact ⟨moved, List.mem_cons_of_mem _ hmoved, hadvances⟩

/-- Records of other partitions do not matter. -/
theorem congr (h : Delivered topic records before after)
    (hmore : ∀ retry, ∀ assignment ∈ before, offsetsOf (sourceTopic topic retry) assignment.partitionId more =
      offsetsOf (sourceTopic topic retry) assignment.partitionId records) : Delivered topic more before after := by
  induction h with
  | nil => exact .nil
  | cons hfirst _ ih =>
      refine .cons (hfirst.congr fun retry => hmore retry _ List.mem_cons_self) (ih fun retry other hother => ?_)
      exact hmore retry other (List.mem_cons_of_mem _ hother)

end Delivered

/-! ### Fetching -/

namespace Consumer

variable {queue : TaskQueue} {rules : Rules}

/-- The records of a fetch from the position on. -/
theorem takeRecords_spec (topic : Bytes) (partitionId : Int) (stored : List ProtocolRecord) {offset next : Int}
    (hle : offset ≤ next) :
    (∀ record ∈ (takeRecords topic partitionId offset stored next).1,
        record.topic = topic ∧ record.partitionId = partitionId) ∧
      Consecutive next ((takeRecords topic partitionId offset stored next).1.map ConsumerRecord.offset)
        (takeRecords topic partitionId offset stored next).2 := by
  induction stored generalizing offset next with
  | nil => exact ⟨fun record hrecord => (nomatch hrecord), rfl⟩
  | cons record rest ih =>
      unfold takeRecords
      by_cases hlt : offset < next
      · rw [if_pos hlt]
        exact ih (Int.add_one_le_of_lt hlt)
      · rw [if_neg hlt]
        obtain ⟨hrecords, hconsecutive⟩ := ih (le_refl (offset + 1))
        have heq : offset = next := le_antisymm hle (not_lt.mp hlt)
        subst heq
        refine ⟨?_, rfl, hconsecutive⟩
        intro found hfound
        rcases List.mem_cons.mp hfound with rfl | hrest
        · exact ⟨rfl, rfl⟩
        · exact hrecords found hrest

theorem roundTrip_meets {allowed : ConsumerAction → Prop} {contract : (action : ConsumerAction) → action.Reply → Prop}
    {version : UInt16} {body : RequestBody} {post : Result (Result ResponseEnvelope) → Prop} :
    (roundTrip version body).Meets allowed contract post ↔ allowed (.request version body) ∧
      ∀ reply : Result ResponseEnvelope, contract (.request version body) reply → post (.ok reply) := Iff.rfl

theorem typed_meets {allowed : ConsumerAction → Prop} {contract : (action : ConsumerAction) → action.Reply → Prop}
    {α : Type} {holds : ResponseBody → Option α} {expectedApiKey : ApiKey} {expectedName : String}
    {response : Result ResponseEnvelope} {post : Result α → Prop} :
    (typed holds expectedApiKey expectedName response).Meets allowed contract post ↔
      post (typedResponse holds expectedApiKey expectedName response) := Iff.rfl

/-- What one source has given. -/
def SourcePolled (topic : Bytes) (partitionId next : Int) (output : List ConsumerRecord) (after : Int) : Prop :=
  (∀ record ∈ output, record.topic = topic ∧ record.partitionId = partitionId) ∧
    Consecutive next (output.map ConsumerRecord.offset) after

theorem pollSource_meets (maxBytes : UInt32) (topic : Bytes) (retry : Bool) (partitionId next : Int) :
    Requests queue rules (pollSource maxBytes topic retry partitionId next) fun result =>
      ∀ output after, result = .ok (output, after) → SourcePolled topic partitionId next output after := by
  unfold pollSource
  rw [Requests, Program.meets_bind, roundTrip_meets]
  refine ⟨fun _ => nofun, fun reply hreply => ?_⟩
  dsimp only
  by_cases hmissing : (retry && topicMissing reply) = true
  · rw [if_pos hmissing]
    intro output after heq
    cases heq
    exact ⟨fun record hrecord => (nomatch hrecord), rfl⟩
  · rw [if_neg hmissing, Program.meets_bind, typed_meets]
    cases htyped : typedResponse fetch? .fetch "fetch" reply with
    | error status =>
        intro output after heq
        cases heq
    | ok fetch =>
        intro output after heq
        have hpolled := takeRecords_spec topic partitionId fetch.records (hreply.fetch_le htyped)
        rw [Except.ok.inj heq] at hpolled
        exact hpolled

/-- **One assignment.** -/
theorem pollAssignment_meets (maxBytes : UInt32) (topic : Bytes) (assignment : Assignment) :
    Requests queue rules (pollAssignment maxBytes topic assignment) fun result =>
      ∀ output polled, result = .ok (output, polled) →
        (∀ record ∈ output, record.partitionId = assignment.partitionId) ∧ Advances topic output assignment polled := by
  unfold pollAssignment
  rw [Requests, Program.meets_bind]
  refine (pollSource_meets maxBytes topic false _ _).mono fun result hfirst => ?_
  cases result with
  | error status =>
      intro output polled heq
      cases heq
  | ok first =>
      obtain ⟨output, next⟩ := first
      obtain ⟨htopic, hconsecutive⟩ := hfirst output next rfl
      dsimp only
      by_cases hinternal : isInternalTopic topic = true
      · rw [if_pos hinternal]
        intro found polled heq
        cases heq
        refine ⟨fun record hrecord => (htopic record hrecord).2, rfl, ?_, fun _ => rfl⟩
        intro retry hsource
        cases retry with
        | true => exact absurd hinternal (by rw [hsource rfl]; exact Bool.false_ne_true)
        | false =>
            show Consecutive _ (offsetsOf topic _ _) _
            rw [offsetsOf_all htopic]
            exact hconsecutive
      · rw [if_neg hinternal, Program.meets_bind]
        refine (pollSource_meets maxBytes (retryTopicPrefix ++ topic) true _ _).mono fun result hsecond => ?_
        cases result with
        | error status =>
            intro output polled heq
            cases heq
        | ok second =>
            obtain ⟨more, retryNext⟩ := second
            obtain ⟨hretryTopic, hretry⟩ := hsecond more retryNext rfl
            intro found polled heq
            cases heq
            refine ⟨?_, rfl, ?_, fun h => absurd h hinternal⟩
            · intro record hrecord
              rcases List.mem_append.mp hrecord with hrecord | hrecord
              · exact (htopic record hrecord).2
              · exact (hretryTopic record hrecord).2
            · intro retry _
              rw [offsetsOf_append]
              cases retry with
              | false =>
                  have hnone : offsetsOf (sourceTopic topic false) assignment.partitionId more = [] :=
                    offsetsOf_none fun record hrecord heq =>
                      absurd ((hretryTopic record hrecord).1.symm.trans heq) (retryTopic_ne topic)
                  rw [hnone, List.append_nil]
                  show Consecutive _ (offsetsOf topic _ _) _
                  rw [offsetsOf_all htopic]
                  exact hconsecutive
              | true =>
                  have hnone : offsetsOf (sourceTopic topic true) assignment.partitionId output = [] :=
                    offsetsOf_none fun record hrecord heq =>
                      absurd (heq.symm.trans (htopic record hrecord).1) (retryTopic_ne topic)
                  rw [hnone, List.nil_append]
                  show Consecutive _ (offsetsOf (retryTopicPrefix ++ topic) _ _) _
                  rw [offsetsOf_all hretryTopic]
                  exact hretry

/-- **All assignments**, none of which has the partition of another one. -/
theorem pollAssignments_meets (maxBytes : UInt32) (topic : Bytes) {assignments : List Assignment}
    (hdistinct : (assignments.map Assignment.partitionId).Nodup) :
    Requests queue rules (pollAssignments maxBytes topic assignments) fun result =>
      ∀ output polled, result = .ok (output, polled) →
        (∀ record ∈ output, record.partitionId ∈ assignments.map Assignment.partitionId) ∧
          Delivered topic output assignments polled := by
  induction assignments with
  | nil =>
      intro output polled heq
      cases heq
      exact ⟨fun record hrecord => (nomatch hrecord), .nil⟩
  | cons assignment rest ih =>
      obtain ⟨hnew, hrest⟩ := List.nodup_cons.mp hdistinct
      unfold pollAssignments
      rw [Requests, Program.meets_bind]
      refine (pollAssignment_meets maxBytes topic assignment).mono fun result hfirst => ?_
      cases result with
      | error status =>
          intro output polled heq
          cases heq
      | ok first =>
          obtain ⟨output, polled⟩ := first
          obtain ⟨hpartition, hadvances⟩ := hfirst output polled rfl
          dsimp only
          rw [Program.meets_bind]
          refine (ih hrest).mono fun result hothers => ?_
          cases result with
          | error status =>
              intro output polled heq
              cases heq
          | ok others =>
              obtain ⟨more, after⟩ := others
              obtain ⟨hmember, hdelivered⟩ := hothers more after rfl
              intro found all heq
              cases heq
              refine ⟨?_, .cons ?_ ?_⟩
              · intro record hrecord
                rcases List.mem_append.mp hrecord with hrecord | hrecord
                · exact List.mem_cons.mpr (Or.inl (hpartition record hrecord))
                · exact List.mem_cons_of_mem _ (hmember record hrecord)
              · refine hadvances.congr fun retry => ?_
                have hnone : offsetsOf (sourceTopic topic retry) assignment.partitionId more = [] :=
                  offsetsOf_none fun record hrecord _ heq => hnew (heq ▸ hmember record hrecord)
                rw [offsetsOf_append, hnone, List.append_nil]
              · refine hdelivered.congr fun retry other hother => ?_
                have hnone : offsetsOf (sourceTopic topic retry) other.partitionId output = [] :=
                  offsetsOf_none fun record hrecord _ heq =>
                    hnew (hpartition record hrecord ▸ heq ▸ List.mem_map_of_mem hother)
                rw [offsetsOf_append, hnone, List.nil_append]

end Consumer

end LogMq
