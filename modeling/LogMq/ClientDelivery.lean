import LogMq.ClientInvariant
import LogMq.ClientSchedule

/-! What the calls of a consumer return while it keeps its subscription. Each source is read on from where it stood, and
a call that fails leaves all positions where they are. -/

namespace LogMq

open Interaction

/-! ### Subscriptions that stay -/

/-- Topic, generation and assigned partitions have not changed. -/
structure Consumer.SameSubscription (before after : Consumer) : Prop where
  topic : after.topic = before.topic
  generation : after.generationId = before.generationId
  partitions : after.assignments.map Assignment.partitionId = before.assignments.map Assignment.partitionId

instance (before after : Consumer) : Decidable (before.SameSubscription after) :=
  decidable_of_iff (after.topic = before.topic ∧ after.generationId = before.generationId ∧
      after.assignments.map Assignment.partitionId = before.assignments.map Assignment.partitionId)
    ⟨fun h => ⟨h.1, h.2.1, h.2.2⟩, fun h => ⟨h.topic, h.generation, h.partitions⟩⟩

theorem Consumer.SameSubscription.symm {before after : Consumer} (h : before.SameSubscription after) :
    after.SameSubscription before := ⟨h.topic.symm, h.generation.symm, h.partitions.symm⟩

theorem Consumer.SameSubscription.trans {first second third : Consumer} (h : first.SameSubscription second)
    (hnext : second.SameSubscription third) : first.SameSubscription third :=
  ⟨hnext.topic.trans h.topic, hnext.generation.trans h.generation, hnext.partitions.trans h.partitions⟩

/-- What consumers can do while consumer `id` keeps the subscription it has in `start` and does not seek. -/
def steadyMachine (queue : TaskQueue) (rules : Rules) (outside : System → System → Prop) (id : Nat) (start : World) :
    Machine ConsumerThread World ConsumerAction ConsumerAction.Reply Status ConsumerThread.Output :=
  (consumerMachine queue rules outside fun other call => other = id → ¬ call.IsSeek).within
    fun world => (start.consumers id).SameSubscription (world.consumers id)

/-- The records of the calls that have succeeded. -/
def recordsOf (results : List (Result (List ConsumerRecord))) : List ConsumerRecord :=
  results.flatMap fun result => result.toOption.getD []

@[simp] theorem recordsOf_append (results : List (Result (List ConsumerRecord)))
    (result : Result (List ConsumerRecord)) :
    recordsOf (results ++ [result]) = recordsOf results ++ result.toOption.getD [] := by
  simp [recordsOf]

/-- How far some results have taken the assignments of a consumer. -/
structure Progress (topic : Bytes) (before : List Assignment) (results : List (Result (List ConsumerRecord)))
    (after : List Assignment) : Prop where
  delivered : Delivered topic (recordsOf results) before after
  failed : (∀ result ∈ results, result.toOption = none) → after = before

/-- What a single call does to the assignments. -/
def Performs (topic : Bytes) (before : List Assignment) : Result (List ConsumerRecord) → List Assignment → Prop
  | .ok records, after => Delivered topic records before after
  | .error _, after => after = before

namespace Progress

variable {topic : Bytes} {before middle after : List Assignment} {results : List (Result (List ConsumerRecord))}

theorem nil (topic : Bytes) (assignments : List Assignment) : Progress topic assignments [] assignments :=
  ⟨.refl topic assignments, fun _ => rfl⟩

/-- One more call. -/
theorem append (h : Progress topic before results middle) {result : Result (List ConsumerRecord)}
    (hresult : Performs topic middle result after) : Progress topic before (results ++ [result]) after := by
  cases result with
  | ok records =>
      refine ⟨?_, fun hall => ?_⟩
      · rw [recordsOf_append]
        exact h.delivered.trans hresult
      · exact absurd (hall (.ok records) (List.mem_append_right _ List.mem_cons_self)) (nofun)
  | error status =>
      cases hresult
      refine ⟨?_, fun hall => h.failed fun result hresult => hall result (List.mem_append_left _ hresult)⟩
      rw [recordsOf_append]
      show Delivered topic (recordsOf results ++ []) before _
      rw [List.append_nil]
      exact h.delivered

end Progress

/-! ### The outline -/

/-- Beside what holds in every run, the subscription stays, and so far the consumer has made progress. -/
def steadyOutline (queue : TaskQueue) (rules : Rules) (id : Nat) (start : World) :
    Outline ConsumerThread World Status ConsumerThread.Output where
  invariant world := (positionsOutline queue rules).invariant world ∧
    (start.consumers id).SameSubscription (world.consumers id)
  rely := (positionsOutline queue rules).rely
  idle
    | .application other, world => other = id → ∃ results, world.results id = start.results id ++ results ∧
        Progress (start.consumers id).topic (start.consumers id).assignments results (world.consumers id).assignments
    | .heartbeat _, _ => True
  post
    | .application other, result, world => other = id → ∃ results, world.results id = start.results id ++ results ∧
        Progress (start.consumers id).topic (start.consumers id).assignments (results ++ [result])
          (world.consumers id).assignments
    | .heartbeat _, _, _ => True

section Steady

variable {queue : TaskQueue} {rules : Rules} {id : Nat} {start : World}

/-- A program of consumer `id` under the outline. -/
abbrev SteadySafe {α : Type} (queue : TaskQueue) (rules : Rules) (id : Nat) (start : World) (program : ConsumerProgram α)
    (post : Result α → World → Prop) (world : World) : Prop :=
  program.Safe (fun action before reply after => consumerEffect queue rules (.application id) action before reply after ∧
      (start.consumers id).SameSubscription (after.consumers id))
    ((steadyOutline queue rules id start).Relied (.application id))
    ((steadyOutline queue rules id start).Guaranteed (.application id)) post world

/-- The assignments and the results of consumer `id`. -/
def Stands (id : Nat) (assignments : List Assignment) (results : List (Result (List ConsumerRecord))) (world : World) :
    Prop := (world.consumers id).assignments = assignments ∧ world.results id = results

variable {assignments : List Assignment} {results : List (Result (List ConsumerRecord))} {world : World}

theorem Stands.relied (h : Stands id assignments results world) {later : World}
    (hrely : (steadyOutline queue rules id start).Relied (.application id) world later) :
    Stands id assignments results later :=
  ⟨hrely.2.1.assignments.trans h.1, hrely.2.2.trans h.2⟩

/-- Requests move nothing. -/
theorem Consumer.AnyRequests.steady {α : Type} {program : ConsumerProgram α} {post : Result α → Prop}
    (h : Consumer.AnyRequests queue rules program post) (hstands : Stands id assignments results world) :
    SteadySafe queue rules id start program (fun result world => post result ∧ Stands id assignments results world)
      world := by
  refine Program.Meets.safe h ?_ hstands
  intro action state before reply after hallowed hstands hrely heffect
  cases action with
  | request version body =>
      obtain ⟨heffect, hsame⟩ := heffect
      obtain ⟨hguaranteed, hanswers, hconsumers, hresults⟩ := positionsOutline_request hrely.1.1 heffect
      have hbefore := hstands.relied hrely
      refine ⟨⟨⟨hguaranteed.1, hsame⟩, hguaranteed.2⟩, hanswers, ?_, ?_⟩
      · rw [hconsumers]
        exact hbefore.1
      · rw [hresults]
        exact hbefore.2
  | locked update => exact hallowed.elim
  | joinHeartbeat => exact hallowed.elim

/-- A block under the mutex. -/
theorem steady_locked {update : Consumer → Consumer} {post : Result Consumer → World → Prop}
    (hregular : ∀ consumer : Consumer, consumer.Regular → (update consumer).Regular)
    (hstands : Stands id assignments results world)
    (hpost : ∀ {before : World}, (before.consumers id).Regular → Stands id assignments results before →
      (start.consumers id).SameSubscription (before.consumers id) →
      (start.consumers id).SameSubscription (update (before.consumers id)) →
        post (.ok (before.consumers id)) (before.setConsumer id (update (before.consumers id)))) :
    SteadySafe queue rules id start (Consumer.locked update) post world := by
  intro before reply after hrely heffect
  obtain ⟨⟨rfl, rfl⟩, hsame⟩ := heffect
  have hold := hrely.1.1.2 id
  have hguaranteed : (positionsOutline queue rules).Guaranteed (.application id) before
      (before.setConsumer id (update (before.consumers id))) :=
    positionsOutline_set hrely.1.1 (hregular _ hold) (nofun)
  change (start.consumers id).SameSubscription ((before.setConsumer id _).consumers id) at hsame
  rw [World.setConsumer_self] at hsame
  refine ⟨⟨⟨hguaranteed.1, ?_⟩, hguaranteed.2⟩, hpost hold (hstands.relied hrely) hrely.1.2 hsame⟩
  change (start.consumers id).SameSubscription ((before.setConsumer id _).consumers id)
  rw [World.setConsumer_self]
  exact hsame

/-- A block that moves no position as long as the subscription stays. -/
theorem steady_unmoved {update : Consumer → Consumer}
    (hregular : ∀ consumer : Consumer, consumer.Regular → (update consumer).Regular)
    (hunmoved : ∀ consumer : Consumer, consumer.SameSubscription (update consumer) →
      (update consumer).assignments = consumer.assignments) (hstands : Stands id assignments results world) :
    SteadySafe queue rules id start (Consumer.locked update) (fun _ world => Stands id assignments results world)
      world := by
  refine steady_locked hregular hstands fun {before} _ hbefore hsame hafter => ⟨?_, hbefore.2⟩
  rw [World.setConsumer_self, ← hbefore.1]
  exact hunmoved _ (hsame.symm.trans hafter)

theorem steady_joinHeartbeat (hstands : Stands id assignments results world) :
    SteadySafe queue rules id start Consumer.joinHeartbeat (fun _ world => Stands id assignments results world)
      world := by
  intro before reply after hrely heffect
  obtain ⟨⟨-, rfl⟩, hsame⟩ := heffect
  have hold := hrely.1.1.2 id
  have hguaranteed : (positionsOutline queue rules).Guaranteed (.application id) before
      (before.setConsumer id { before.consumers id with heartbeatJoinable := false }) :=
    positionsOutline_set hrely.1.1 ⟨hold.rejoins, hold.distinct⟩ (nofun)
  refine ⟨⟨⟨hguaranteed.1, hsame⟩, hguaranteed.2⟩, ?_, (hstands.relied hrely).2⟩
  change ((before.setConsumer id _).consumers id).assignments = assignments
  rw [World.setConsumer_self]
  exact (hstands.relied hrely).1

/-! ### Sequences -/

section Bind

variable {α β : Type} {program : ConsumerProgram α} {rest : α → ConsumerProgram β} {post : Result β → World → Prop}

/-- What follows a part that has moved nothing. -/
theorem steady_bind
    (hfirst : SteadySafe queue rules id start program (fun _ world => Stands id assignments results world) world)
    (herror : ∀ status world, Stands id assignments results world → post (.error status) world)
    (hrest : ∀ value world, Stands id assignments results world → SteadySafe queue rules id start (rest value) post world) :
    SteadySafe queue rules id start (program >>= rest) post world := by
  rw [SteadySafe, Program.safe_bind]
  refine Program.Safe.mono hfirst fun result world hstands => ?_
  cases result with
  | error status => exact herror status world hstands
  | ok value => exact hrest value world hstands

/-- What follows requests. -/
theorem Consumer.Requests.steady_bind {spec : Result α → Prop} (h : Consumer.Requests queue rules program spec)
    (hstands : Stands id assignments results world)
    (herror : ∀ status world, Stands id assignments results world → post (.error status) world)
    (hrest : ∀ value world, spec (.ok value) → Stands id assignments results world →
      SteadySafe queue rules id start (rest value) post world) :
    SteadySafe queue rules id start (program >>= rest) post world := by
  rw [SteadySafe, Program.safe_bind]
  refine (h.any.steady hstands).mono fun result world hboth => ?_
  cases result with
  | error status => exact herror status world hboth.2
  | ok value => exact hrest value world hboth.1 hboth.2

/-- What follows a look at the consumer. -/
theorem steady_bind_look {rest : Consumer → ConsumerProgram β} (hstands : Stands id assignments results world)
    (hrest : ∀ consumer world, consumer.Regular → consumer.assignments = assignments →
      (start.consumers id).SameSubscription consumer → Stands id assignments results world →
        SteadySafe queue rules id start (rest consumer) post world) :
    SteadySafe queue rules id start (Consumer.locked (fun consumer => consumer) >>= rest) post world := by
  rw [SteadySafe, Program.safe_bind]
  refine steady_locked (fun _ h => h) hstands fun {before} hregular hbefore hsame _ => ?_
  refine hrest _ _ hregular hbefore.1 hsame ⟨?_, hbefore.2⟩
  rw [World.setConsumer_self]
  exact hbefore.1

end Bind

/-! ### Calls that move nothing -/

/-- A part of a call that moves nothing, whatever comes out of it. -/
abbrev SteadyUnmoved {α : Type} (queue : TaskQueue) (rules : Rules) (id : Nat) (start : World)
    (assignments : List Assignment) (results : List (Result (List ConsumerRecord))) (program : ConsumerProgram α) :
    Prop :=
  ∀ world, Stands id assignments results world →
    SteadySafe queue rules id start program (fun _ world => Stands id assignments results world) world

theorem SteadyUnmoved.bind {α β : Type} {program : ConsumerProgram α} {rest : α → ConsumerProgram β}
    (h : SteadyUnmoved queue rules id start assignments results program)
    (hrest : ∀ value, SteadyUnmoved queue rules id start assignments results (rest value)) :
    SteadyUnmoved queue rules id start assignments results (program >>= rest) :=
  fun world hstands => steady_bind (h world hstands) (fun _ _ hstands => hstands) hrest

theorem SteadyUnmoved.attempt {α : Type} {program : ConsumerProgram α}
    (h : SteadyUnmoved queue rules id start assignments results program) :
    SteadyUnmoved queue rules id start assignments results program.attempt :=
  fun world hstands => Program.safe_attempt.mpr (h world hstands)

theorem SteadyUnmoved.done {α : Type} (result : Result α) :
    SteadyUnmoved queue rules id start assignments results (.done result) := fun _ hstands => hstands

theorem Consumer.AnyRequests.unmoved {α : Type} {program : ConsumerProgram α} {spec : Result α → Prop}
    (h : Consumer.AnyRequests queue rules program spec) :
    SteadyUnmoved queue rules id start assignments results program :=
  fun _ hstands => (h.steady hstands).mono fun _ _ hboth => hboth.2

theorem Consumer.Requests.unmoved {α : Type} {program : ConsumerProgram α} {spec : Result α → Prop}
    (h : Consumer.Requests queue rules program spec) :
    SteadyUnmoved queue rules id start assignments results program := h.any.unmoved

namespace Consumer

/-- **Joining** again would give a consumer without a generation one; without partitions it has no positions. -/
theorem joinAndSync_unmoved (hlost : (start.consumers id).generationId = 0 ∨ assignments = []) :
    SteadyUnmoved queue rules id start assignments results joinAndSync := by
  intro world hstands
  unfold joinAndSync
  refine steady_bind_look hstands fun consumer world _ _ _ hstands => ?_
  split
  · exact hstands
  refine (join_meets _ _ _).steady_bind hstands (fun _ _ h => h) fun joined world hjoined hstands => ?_
  refine (sendSyncGroup_meets _ _).steady_bind hstands (fun _ _ h => h) fun synced world hsynced hstands => ?_
  refine (fetchPositions_meets _ _ _ _).steady_bind hstands (fun _ _ h => h) fun fetched world hfetched hstands => ?_
  have hdistinct : (fetched.map Assignment.partitionId).Nodup := by
    rw [hfetched fetched rfl]
    exact hsynced synced rfl
  rw [SteadySafe, Program.safe_bind]
  refine steady_locked (fun _ _ => .adopt _ _ hdistinct) hstands fun {before} _ hbefore hsame hafter => ?_
  refine ⟨?_, hbefore.2⟩
  rcases hlost with hzero | rfl
  · have hgeneration : joined.generationId = 0 := hafter.generation.trans hzero
    have hpos := hjoined joined rfl
    omega
  · have hnone : fetched.map Assignment.partitionId = [] := by
      have hstart := hsame.partitions
      rw [hbefore.1] at hstart
      exact hafter.partitions.trans hstart.symm
    rw [World.setConsumer_self]
    exact List.map_eq_nil_iff.mp hnone

theorem locked_unmoved {update : Consumer → Consumer}
    (hregular : ∀ consumer : Consumer, consumer.Regular → (update consumer).Regular)
    (hunmoved : ∀ consumer : Consumer, consumer.SameSubscription (update consumer) →
      (update consumer).assignments = consumer.assignments) :
    SteadyUnmoved queue rules id start assignments results (locked update) :=
  fun _ hstands => steady_unmoved hregular hunmoved hstands

theorem startHeartbeat_unmoved : SteadyUnmoved queue rules id start assignments results startHeartbeat := by
  refine (locked_unmoved (fun _ h => h.runHeartbeat) fun consumer _ => ?_).bind fun _ => .done _
  unfold runHeartbeat
  split <;> rfl

theorem leavePrevious_unmoved (groupId memberId : Bytes) :
    SteadyUnmoved queue rules id start assignments results (leavePrevious groupId memberId) := by
  have hforget : SteadyUnmoved queue rules id start assignments results
      (do let _ ← locked forgetMember : ConsumerProgram Unit) :=
    (locked_unmoved (fun _ h => h.forgetMember) fun _ _ => rfl).bind fun _ => .done _
  unfold leavePrevious
  refine SteadyUnmoved.bind (fun _ hstands => steady_joinHeartbeat hstands) fun _ => ?_
  refine (sendLeaveGroup_meets _ _).unmoved.attempt.bind fun left => ?_
  split
  · exact hforget
  · split
    · exact hforget
    · exact startHeartbeat_unmoved.bind fun _ => .done _

/-- `Subscribe` and `Close` give up the assigned partitions, so there are none if the subscription stays. -/
theorem cleared_unmoved {consumer cleared : Consumer} (hnone : cleared.assignments = [])
    (hsame : consumer.SameSubscription cleared) : cleared.assignments = consumer.assignments := by
  have hpartitions := hsame.partitions
  rw [hnone] at hpartitions
  rw [hnone, List.map_eq_nil_iff.mp hpartitions.symm]

theorem leave_unmoved (groupId memberId : Bytes) :
    SteadyUnmoved queue rules id start assignments results (leave groupId memberId) := by
  have hclear : SteadyUnmoved queue rules id start assignments results
      (do let _ ← locked clear : ConsumerProgram Unit) :=
    (locked_unmoved (fun consumer _ => .clear consumer) fun _ => cleared_unmoved rfl).bind fun _ => .done _
  unfold leave
  split
  · exact hclear
  · refine (sendLeaveGroup_meets _ _).unmoved.attempt.bind fun left => ?_
    split
    · exact hclear
    · split
      · exact hclear
      · exact .done _

theorem close_unmoved : SteadyUnmoved queue rules id start assignments results close := by
  unfold close
  refine (locked_unmoved (fun _ h => h.shut) fun consumer _ => ?_).bind fun consumer => ?_
  · unfold shut
    split <;> rfl
  split
  · exact .done _
  · exact SteadyUnmoved.bind (fun _ hstands => steady_joinHeartbeat hstands) fun _ => leave_unmoved _ _

/-- A consumer that changes its topic has no positions, or is closed. -/
theorem subscribeTo_unmoved (topic : Bytes) :
    SteadyUnmoved queue rules id start assignments results (subscribeTo topic) := by
  intro world hstands
  unfold subscribeTo
  rw [SteadySafe, Program.safe_bind]
  refine steady_locked (fun _ h => h.changeTopic topic) hstands fun {before} _ hbefore hsame hafter => ?_
  have hassignments : ((before.consumers id).changeTopic topic).assignments = assignments ∧
      ((before.consumers id).closed = false → assignments = []) := by
    rw [← hbefore.1]
    unfold changeTopic at hafter ⊢
    split
    · rename_i hclosed
      exact ⟨rfl, fun hopen => absurd hclosed (by rw [hopen]; exact Bool.false_ne_true)⟩
    · rename_i hclosed
      rw [if_neg hclosed] at hafter
      have hnone := cleared_unmoved rfl (hsame.symm.trans hafter)
      exact ⟨hnone, fun _ => hnone.symm⟩
  have hstands : Stands id assignments results
      (before.setConsumer id ((before.consumers id).changeTopic topic)) := by
    refine ⟨?_, hbefore.2⟩
    rw [World.setConsumer_self]
    exact hassignments.1
  dsimp only
  split
  · exact hstands
  · rename_i hclosed
    have hnone := hassignments.2 (Bool.eq_false_of_not_eq_true hclosed)
    exact ((joinAndSync_unmoved (Or.inr hnone)).bind fun _ => startHeartbeat_unmoved) _ hstands

theorem subscribe_unmoved (topic : Bytes) :
    SteadyUnmoved queue rules id start assignments results (subscribe topic) := by
  unfold subscribe
  refine (metadata_meets topic).unmoved.bind fun response => (SteadyUnmoved.done _).bind fun metadata => ?_
  split
  · exact .done _
  refine (locked_unmoved (fun _ h => h.prepareLeave topic) fun consumer _ => ?_).bind fun consumer => ?_
  · unfold prepareLeave
    split <;> rfl
  split
  · exact .done _
  split
  · exact (leavePrevious_unmoved _ _).bind fun _ => subscribeTo_unmoved topic
  · exact subscribeTo_unmoved topic

theorem nack_unmoved (record : ConsumerRecord) (reason : Bytes) :
    SteadyUnmoved queue rules id start assignments results (nack record reason) := by
  unfold nack
  refine (locked_unmoved (fun _ h => h) fun _ _ => rfl).bind fun consumer => ?_
  split
  · exact .done _
  · exact (nack_request_meets _).unmoved.bind fun _ => .done _

theorem commitSync_unmoved : SteadyUnmoved queue rules id start assignments results commitSync := by
  unfold commitSync
  refine (locked_unmoved (fun _ h => h) fun _ _ => rfl).bind fun consumer => ?_
  split
  · exact .done _
  split
  · exact .done _
  · exact (commitAssignments_meets _ _ _).unmoved

/-! ### Polling -/

theorem foldl_advance_cons {polled : List Assignment} {current : Assignment}
    (h : ∀ updated ∈ polled, updated.partitionId ≠ current.partitionId) (rest : List Assignment) :
    polled.foldl (fun current updated => advance updated current) (current :: rest) =
      current :: polled.foldl (fun current updated => advance updated current) rest := by
  induction polled generalizing rest with
  | nil => rfl
  | cons updated others ih =>
      have hskip : advance updated (current :: rest) = current :: advance updated rest := by
        rw [advance, if_neg (h updated List.mem_cons_self).symm]
      rw [List.foldl_cons, hskip, ih fun other hother => h other (List.mem_cons_of_mem _ hother), List.foldl_cons]

/-- The positions of distinct partitions are all copied. -/
theorem foldl_advance_eq {polled assignments : List Assignment}
    (hpartitions : polled.map Assignment.partitionId = assignments.map Assignment.partitionId)
    (hdistinct : (assignments.map Assignment.partitionId).Nodup) :
    polled.foldl (fun current updated => advance updated current) assignments = polled := by
  induction polled generalizing assignments with
  | nil => exact (List.map_eq_nil_iff.mp hpartitions.symm)
  | cons updated others ih =>
      cases assignments with
      | nil => cases hpartitions
      | cons current rest =>
          rw [List.map_cons, List.map_cons, List.cons.injEq] at hpartitions
          obtain ⟨hnew, hrest⟩ := List.nodup_cons.mp hdistinct
          have hfirst : advance updated (current :: rest) = updated :: rest := by
            rw [advance, if_pos hpartitions.1.symm, ← hpartitions.1]
          have hothers : ∀ other ∈ others, other.partitionId ≠ updated.partitionId := by
            intro other hother heq
            rw [← hpartitions.2, ← hpartitions.1, ← heq] at hnew
            exact hnew (List.mem_map_of_mem hother)
          rw [List.foldl_cons, hfirst, foldl_advance_cons hothers, ih hpartitions.2 hrest]

/-- A consumer that is to join again has no generation, and gets none while its subscription stays. -/
theorem pollStart_unmoved : SteadyUnmoved queue rules id start assignments results pollStart := by
  intro world hstands
  unfold pollStart
  refine steady_bind_look hstands fun consumer world hregular _ hsame hstands => ?_
  split
  · exact hstands
  split
  · exact hstands
  split
  · rename_i hrejoin
    exact joinAndSync_unmoved (Or.inl (hsame.generation.symm.trans (hregular.rejoins hrejoin))) world hstands
  · exact hstands

/-- What a call has done to the positions, with the results as they were. -/
def Performed (id : Nat) (topic : Bytes) (assignments : List Assignment)
    (results : List (Result (List ConsumerRecord))) (result : Result (List ConsumerRecord)) (world : World) : Prop :=
  Performs topic assignments result (world.consumers id).assignments ∧ world.results id = results

/-- **One turn.** The positions are written back as they have been read on. -/
theorem pollRound_performs (hstands : Stands id assignments results world) :
    SteadySafe queue rules id start pollRound (Performed id (start.consumers id).topic assignments results) world := by
  unfold pollRound
  refine steady_bind_look hstands fun consumer world hregular hassignments hsame hstands => ?_
  rw [← hassignments, ← hsame.topic] at *
  refine (pollAssignments_meets _ _ hregular.distinct).steady_bind hstands (fun _ _ h => h)
    fun polled world hpolled hstands => ?_
  obtain ⟨output, after⟩ := polled
  obtain ⟨-, hdelivered⟩ := hpolled output after rfl
  dsimp only
  rw [SteadySafe, Program.safe_bind]
  refine steady_locked (fun _ h => h.writeBack _ _ _) hstands fun {before} hregular hbefore hnow _ => ⟨?_, hbefore.2⟩
  have hwritten : ((before.consumers id).writeBack consumer.topic consumer.generationId after).assignments = after := by
    unfold writeBack
    rw [if_pos ⟨hsame.topic.trans hnow.topic.symm, hsame.generation.trans hnow.generation.symm⟩]
    show after.foldl (fun current updated => advance updated current) (before.consumers id).assignments = after
    refine foldl_advance_eq ?_ hregular.distinct
    rw [hbefore.1]
    exact hdelivered.partitions
  rw [World.setConsumer_self, hwritten]
  exact hdelivered

/-- **`Poll`.** -/
theorem poll_performs (turns : Nat) (hstands : Stands id assignments results world) :
    SteadySafe queue rules id start (poll turns) (Performed id (start.consumers id).topic assignments results) world := by
  induction turns generalizing world with
  | zero =>
      refine steady_bind (pollStart_unmoved world hstands) (fun _ _ h => h) fun _ world hstands => ?_
      exact pollRound_performs hstands
  | succ turns ih =>
      unfold poll
      refine steady_bind (pollStart_unmoved world hstands) (fun _ _ h => h) fun _ world hstands => ?_
      rw [SteadySafe, Program.safe_bind]
      refine (pollRound_performs hstands).mono fun result world hperformed => ?_
      cases result with
      | error status => exact hperformed
      | ok output =>
          dsimp only
          split
          · rename_i hnone
            subst hnone
            exact ih ⟨hperformed.1.eq_of_nil, hperformed.2⟩
          · exact hperformed

end Consumer

/-- **Calls** other than `Seek`. -/
theorem ConsumerCall.performs {call : ConsumerCall} (hseek : ¬ call.IsSeek)
    (hstands : Stands id assignments results world) :
    SteadySafe queue rules id start call.program
      (Consumer.Performed id (start.consumers id).topic assignments results) world := by
  have hunmoved : ∀ {α : Type} {program : ConsumerProgram α},
      SteadyUnmoved queue rules id start assignments results program →
        SteadySafe queue rules id start (do let _ ← program; return [])
          (Consumer.Performed id (start.consumers id).topic assignments results) world := by
    intro α program hprogram
    refine steady_bind (hprogram world hstands) (fun _ _ h => h) fun _ world hstands => ⟨?_, hstands.2⟩
    rw [hstands.1]
    exact .refl _ _
  cases call with
  | subscribe topic => exact hunmoved (Consumer.subscribe_unmoved topic)
  | poll turns => exact Consumer.poll_performs turns hstands
  | seek topic partitionId offset => exact absurd trivial hseek
  | nack record reason => exact hunmoved (Consumer.nack_unmoved record reason)
  | commitSync => exact hunmoved Consumer.commitSync_unmoved
  | close => exact hunmoved Consumer.close_unmoved

/-! ### Runs -/

variable {outside : System → System → Prop}

/-- A program within the outline of every run, as long as the subscription of consumer `id` stays. -/
theorem steadyOutline_secure {thread : ConsumerThread} (hthread : thread ≠ .application id)
    {program : Program ConsumerAction ConsumerAction.Reply Status thread.Output}
    (h : program.Safe (consumerEffect queue rules thread) ((positionsOutline queue rules).Relied thread)
      ((positionsOutline queue rules).Guaranteed thread) (fun _ _ => True) world) :
    (steadyOutline queue rules id start).Secure (steadyMachine queue rules outside id start) thread program world := by
  have hpost : ∀ result world, (steadyOutline queue rules id start).post thread result world := by
    intro result world
    cases thread with
    | application other => exact fun heq => absurd (congrArg ConsumerThread.application heq) hthread
    | heartbeat other => trivial
  refine (Program.Safe.weaken h (fun hrely => ⟨hrely.1.1, hrely.2⟩) fun hrely heffect => ?_).mono fun _ _ _ => hpost _ _
  exact ⟨heffect.1, fun hguaranteed => ⟨⟨hguaranteed.1, heffect.2⟩, hguaranteed.2⟩⟩

theorem steadyOutline_valid (houtside : ∀ {before after}, outside before after → BrokerStep queue rules before after) :
    (steadyOutline queue rules id start).Valid (steadyMachine queue rules outside id start) := by
  have hpositions : (positionsOutline queue rules).Valid (consumerMachine queue rules outside fun _ _ => True) :=
    positionsOutline_valid houtside
  refine ⟨hpositions.refl, hpositions.trans, ?_, ?_, ?_, ?_, ?_⟩
  · intro thread before after hidle hrely
    cases thread with
    | heartbeat other => trivial
    | application other =>
        rintro rfl
        obtain ⟨found, hresults, hprogress⟩ := hidle rfl
        refine ⟨found, hrely.2.2.trans hresults, ?_⟩
        rw [hrely.2.1.assignments]
        exact hprogress
  · intro thread result before after hpost hrely
    cases thread with
    | heartbeat other => trivial
    | application other =>
        rintro rfl
        obtain ⟨found, hresults, hprogress⟩ := hpost rfl
        refine ⟨found, hrely.2.2.trans hresults, ?_⟩
        rw [hrely.2.1.assignments]
        exact hprogress
  · intro before after hinvariant hstep
    obtain ⟨hkept, hrely⟩ := hpositions.outside hinvariant.1 hstep
    refine ⟨⟨hkept, ?_⟩, hrely⟩
    rw [(hstep.step houtside).2.1]
    exact hinvariant.2
  · intro thread program world hinvariant hidle hstarts
    cases thread with
    | heartbeat other =>
        obtain ⟨-, rfl⟩ := hstarts
        apply steadyOutline_secure
        · exact nofun
        · exact Consumer.keeps_heartbeatRound other world
    | application other =>
        obtain ⟨call, hcall, rfl⟩ := hstarts
        by_cases hother : other = id
        · subst hother
          obtain ⟨found, hresults, hprogress⟩ := hidle rfl
          refine (call.performs (hcall rfl) ⟨rfl, rfl⟩).mono fun result later hperformed _ => ?_
          exact ⟨found, hperformed.2.trans hresults, hprogress.append hperformed.1⟩
        · refine steadyOutline_secure ?_ (call.keepsPositions other world)
          exact fun heq => hother (ConsumerThread.application.inj heq)
  · intro thread result world hinvariant hpost
    have hfinish : (positionsOutline queue rules).Guaranteed thread world
        ((consumerMachine queue rules outside fun _ _ => True).finish thread result world) :=
      (hpositions.finish hinvariant.1 trivial).1
    cases thread with
    | heartbeat other => exact ⟨⟨hinvariant, hfinish.2⟩, trivial⟩
    | application other =>
        refine ⟨⟨hinvariant, hfinish.2⟩, ?_⟩
        rintro rfl
        obtain ⟨found, hresults, hprogress⟩ := hpost rfl
        refine ⟨found ++ [result], ?_, hprogress⟩
        show (world.returnResult other result).results other = _
        rw [World.returnResult_self, hresults, List.append_assoc]

end Steady

/-- **Deliveries.** A consumer that is between two calls goes on with calls other than `Seek`, while its topic, its
generation and its assigned partitions stay: every source is read on from its position without a gap, and calls that have
all failed have left the positions where they were. -/
theorem ConsumerPool.Reached.delivers {queue : TaskQueue} {rules : Rules} {pool later : ConsumerPool}
    (hreached : pool.Reached queue rules (BrokerStep queue rules) fun _ _ => True) {id : Nat}
    (hidle : pool.programs (.application id) = none)
    (hfollows : (steadyMachine queue rules (BrokerStep queue rules) id pool.shared).Follows pool later)
    (hended : later.programs (.application id) = none) :
    ∃ results, later.shared.results id = pool.shared.results id ++ results ∧
      (∀ assignment ∈ (pool.shared.consumers id).assignments, ∃ after ∈ (later.shared.consumers id).assignments,
        after.partitionId = assignment.partitionId ∧
          ∀ retry, IsSource (pool.shared.consumers id).topic retry → Consecutive (assignment.position retry)
            (offsetsOf (sourceTopic (pool.shared.consumers id).topic retry) assignment.partitionId (recordsOf results))
            (after.position retry)) ∧
      ((∀ result ∈ results, result.toOption = none) →
        (later.shared.consumers id).assignments = (pool.shared.consumers id).assignments) := by
  have hpositions := hreached.positions fun hstep => hstep
  have hholds : (steadyOutline queue rules id pool.shared).Holds
      (steadyMachine queue rules (BrokerStep queue rules) id pool.shared) pool := by
    refine ⟨⟨hpositions.1, rfl, rfl, rfl⟩, fun thread => ?_⟩
    have hthread := hpositions.2 thread
    cases hprogram : pool.programs thread with
    | some program =>
        rw [hprogram] at hthread
        refine steadyOutline_secure ?_ hthread
        rintro rfl
        rw [hidle] at hprogram
        cases hprogram
    | none =>
        cases thread with
        | heartbeat other => trivial
        | application other =>
            rintro rfl
            exact ⟨[], (List.append_nil _).symm, .nil _ _⟩
  have hlater := ((steadyOutline_valid fun hstep => hstep).follows hholds hfollows).2 (.application id)
  rw [hended] at hlater
  obtain ⟨results, hresults, hprogress⟩ := hlater rfl
  refine ⟨results, hresults, ?_, hprogress.failed⟩
  intro assignment hassignment
  obtain ⟨after, hafter, hadvances⟩ := hprogress.delivered.exists_after hassignment
  exact ⟨after, hafter, hadvances.partition_eq, hadvances.consecutive⟩

/-! A broker with a topic of two records, and a consumer that subscribes to it and polls twice. -/

def pollingWorld : World where
  system := ⟨.fresh {} 1, true⟩
  consumers := fun _ => { groupId := text "g" }

def pollingThread (count : Nat) : List ConsumerMove :=
  List.replicate count (.act (.application 0) (.answered 1 {})) ++ [.finish (.application 0)]

def pollingSetup : List ConsumerMove :=
  [.outside (.request {} ⟨.createTopic, protocolVersion, 1, .createTopic ⟨text "x", 1⟩⟩),
    .outside (.request {} ⟨.produce, protocolVersion, 1,
      .produce ⟨text "x", 0, [{ timestamp := 1, key := [], value := [65] }, { timestamp := 2, key := [], value := [66] }]⟩⟩),
    .call 0 (.subscribe (text "x"))] ++ pollingThread 10

def pollingStart : ConsumerPool :=
  (ConsumerMove.run .inOrder (fun _ => True) pollingSetup (.idle pollingWorld)).getD (.idle pollingWorld)

def pollingCalls : List ConsumerMove :=
  .call 0 (.poll 0) :: pollingThread 5 ++ .call 0 (.poll 0) :: pollingThread 5

def pollingEnd : ConsumerPool :=
  (ConsumerMove.run .inOrder (fun world => (pollingStart.shared.consumers 0).SameSubscription (world.consumers 0))
    pollingCalls pollingStart).getD pollingStart

theorem ConsumerPool.Reached.delivers_two :
    ∃ results, pollingEnd.shared.results 0 = pollingStart.shared.results 0 ++ results ∧
      (∀ assignment ∈ (pollingStart.shared.consumers 0).assignments,
        ∃ after ∈ (pollingEnd.shared.consumers 0).assignments, after.partitionId = assignment.partitionId ∧
          ∀ retry, IsSource (pollingStart.shared.consumers 0).topic retry → Consecutive (assignment.position retry)
            (offsetsOf (sourceTopic (pollingStart.shared.consumers 0).topic retry) assignment.partitionId
              (recordsOf results)) (after.position retry)) ∧
      ((∀ result ∈ results, result.toOption = none) →
        (pollingEnd.shared.consumers 0).assignments = (pollingStart.shared.consumers 0).assignments) := by
  have hsome : ∀ {found : Option ConsumerPool} {pool : ConsumerPool}, found.isSome = true →
      found = some (found.getD pool) := by
    intro found pool h
    cases found with
    | none => cases h
    | some _ => rfl
  have hsetup : ConsumerMove.run .inOrder (fun _ => True) pollingSetup (.idle pollingWorld) = some pollingStart :=
    hsome (by decide +kernel)
  have hpolls : ConsumerMove.run .inOrder
      (fun world => (pollingStart.shared.consumers 0).SameSubscription (world.consumers 0))
      pollingCalls pollingStart = some pollingEnd := hsome (by decide +kernel)
  have hreached := ConsumerMove.run_reached (.start trivial (BrokerService.start_fresh _ (by decide) 1) _ _) hsetup
  refine hreached.delivers (Option.isNone_iff_eq_none.mp (by decide +kernel)) ?_
    (Option.isNone_iff_eq_none.mp (by decide +kernel))
  exact ConsumerMove.run_any hpolls (by decide) fun chosen _ before after happly =>
    chosen.step happly chosen.allowed_any

end LogMq
