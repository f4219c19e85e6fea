import LogMq.BrokerWrites
import LogMq.NetDelivery

/-! The logs of ordinary topics as the histories of their requests. What a partition holds is what Produce requests have
written, one batch each, in the order in which they were handled; whatever else the broker does adds nothing, and a Fetch
returns what one of them has written. -/

namespace LogMq

open TopicManager

namespace ServedRequest

/-- The batch has the records of this Produce. -/
def Wrote (served : ServedRequest) (topic : Bytes) (batch : RecordBatch) : Prop :=
  ∃ request, served.request.body = .produce request ∧ request.topic = topic ∧
    batch.records = request.records.map fun record => (toStorageRecord record).sealed

/-- This Produce was acknowledged, with the partition and the first offset. -/
def Acknowledged (served : ServedRequest) (topic : Bytes) (id : Nat) (baseOffset : Int) : Prop :=
  ∃ request acknowledged, served.request.body = .produce request ∧ request.topic = topic ∧
    (served.before.broker.handleProduce served.environment request).1 = .ok acknowledged ∧
    acknowledged.partitionId.toNat = id ∧ acknowledged.baseOffset = baseOffset

/-- What the request makes of the batches of a partition: it adds the one it has written, or leaves them alone. -/
def Adds (served : ServedRequest) (topic : Bytes) (id : Nat) (batches later : List RecordBatch) : Prop :=
  (later = batches ∧ ∀ baseOffset, ¬ served.Acknowledged topic id baseOffset) ∨
    ∃ batch, later = batches ++ [batch] ∧ served.Wrote topic batch ∧
      ∀ baseOffset, served.Acknowledged topic id baseOffset → batch.baseOffset = baseOffset

variable {queue : TaskQueue} {served : ServedRequest} {held : Holdings} {topic : Bytes} {id : Nat}

theorem Adds.same {batches : List RecordBatch} (h : ∀ request, served.request.body ≠ .produce request) :
    served.Adds topic id batches batches := by
  refine .inl ⟨rfl, ?_⟩
  rintro _ ⟨request, _, hbody, _⟩
  exact h request hbody

theorem adds_produce {request : ProduceRequest} (hbody : served.request.body = .produce request)
    (hholds : served.before.broker.topics.Holds (served.before.intact = true) held) :
    ∃ later, (served.before.broker.handleProduce served.environment request).2.topics.Holds
        ((served.before.intact && served.environment.faultless) = true) later ∧
      ∀ topic id, served.Adds topic id (held topic id) (later topic id) := by
  obtain ⟨later, hlater, hwrites⟩ := @handleProduce_writes served.environment _ _ _ hholds request
  have hown : ∀ {topic id baseOffset}, served.Acknowledged topic id baseOffset → request.topic = topic ∧
      ∃ acknowledged, (served.before.broker.handleProduce served.environment request).1 = .ok acknowledged ∧
        acknowledged.partitionId.toNat = id ∧ acknowledged.baseOffset = baseOffset := by
    rintro topic id baseOffset ⟨other, acknowledged, hother, htopic, hreply⟩
    cases hbody.symm.trans hother
    exact ⟨htopic, acknowledged, hreply⟩
  refine ⟨later, hlater, fun topic id => ?_⟩
  rcases hwrites with ⟨rfl, hnever⟩ | ⟨-, selected, batch, rfl, hrecords, hanswer⟩
  · refine .inl ⟨rfl, fun baseOffset hacknowledged => ?_⟩
    obtain ⟨-, acknowledged, hreply, -⟩ := hown hacknowledged
    exact hnever acknowledged hreply
  · by_cases hplace : topic = request.topic ∧ id = selected
    · obtain ⟨rfl, rfl⟩ := hplace
      refine .inr ⟨batch, Holdings.set_self _ _ _ _, ⟨request, hbody, rfl, hrecords⟩, fun baseOffset hacknowledged => ?_⟩
      obtain ⟨-, acknowledged, hreply, -, hbase⟩ := hown hacknowledged
      exact (hanswer acknowledged hreply).2.symm.trans hbase
    · refine .inl ⟨Holdings.set_of_ne _ _ hplace, fun baseOffset hacknowledged => hplace ?_⟩
      obtain ⟨htopic, acknowledged, hreply, hid, -⟩ := hown hacknowledged
      exact ⟨htopic.symm, hid.symm.trans (hanswer acknowledged hreply).1⟩

/-- **One request** adds to each ordinary partition what it has written, and nothing else. -/
theorem adds (hdecoded : served.request.Decoded)
    (hholds : served.before.broker.topics.Holds (served.before.intact = true) held) :
    ∃ later, (served.after queue).broker.topics.Holds ((served.after queue).intact = true) later ∧
      ∀ topic id, isInternalTopic topic = false → served.Adds topic id (held topic id) (later topic id) := by
  have hsame : served.before.broker.topics.Holds
      ((served.before.intact && served.environment.faultless) = true) held :=
    hholds.mono Environment.faultless_intact
  unfold ServedRequest.after
  rw [hdecoded.handle]
  cases hbody : served.request.body with
  | produce request =>
      obtain ⟨later, hlater, hadds⟩ := adds_produce hbody hholds
      exact ⟨later, hlater, fun topic id _ => hadds topic id⟩
  | nack request =>
      obtain ⟨later, hlater, hkept⟩ := @handleNack_ordinary queue served.environment _ _ _ hholds request
      refine ⟨later, hlater, fun topic id hordinary => ?_⟩
      rw [hkept topic id hordinary]
      exact .same fun _ habsurd => by cases hbody.symm.trans habsurd
  | createTopic request =>
      refine ⟨held, (@handleCreateTopic_grows served.environment _ _ _ hholds request).holds, fun topic id _ => ?_⟩
      exact .same fun _ habsurd => by cases hbody.symm.trans habsurd
  | commitOffset request =>
      refine ⟨held, ?_, fun topic id _ => .same fun _ habsurd => by cases hbody.symm.trans habsurd⟩
      change (served.before.broker.handleCommitOffset served.environment request).2.topics.Holds _ held
      unfold BrokerService.handleCommitOffset
      split <;> exact hsame
  | joinGroup request =>
      refine ⟨held, ?_, fun topic id _ => .same fun _ habsurd => by cases hbody.symm.trans habsurd⟩
      change (served.before.broker.handleJoinGroup served.environment request).2.topics.Holds _ held
      unfold BrokerService.handleJoinGroup
      split <;> exact hsame
  | _ => exact ⟨held, hsame, fun topic id _ => .same fun _ habsurd => by cases hbody.symm.trans habsurd⟩

end ServedRequest

/-! ### What a run writes -/

/-- Batches that follow each other, from an offset to another one, each with its request. -/
def Contiguous : Int → List (ServedRequest × RecordBatch) → Int → Prop
  | start, [], stop => start = stop
  | start, (_, batch) :: rest, stop =>
      batch.baseOffset = start ∧ Contiguous (batch.baseOffset + batch.records.length) rest stop

/-- The history of a partition: the requests that have written its batches, in the order in which they were handled. -/
structure PartitionHistory (served : List ServedRequest) (topic : Bytes) (id : Nat)
    (history : List (ServedRequest × RecordBatch)) : Prop where
  sublist : (history.map Prod.fst).Sublist served
  wrote : ∀ entry ∈ history, entry.1.Wrote topic entry.2
  acknowledged : ∀ entry ∈ served, ∀ baseOffset, entry.Acknowledged topic id baseOffset →
    ∃ batch, (entry, batch) ∈ history ∧ batch.baseOffset = baseOffset

namespace BrokerServer

variable {queue : TaskQueue} {served : List ServedRequest} {topic : Bytes} {id : Nat} {held : Holdings}

theorem background_holds {system after : System} (hsteps : Relation.ReflTransGen (Background queue) system after)
    (h : system.broker.topics.Holds (system.intact = true) held) :
    after.broker.topics.Holds (after.intact = true) held := by
  induction hsteps with
  | refl => exact h
  | tail _ hstep ih =>
      cases hstep with
      | wake now => exact ih
      | flush flushed => exact (Grows.flush ih flushed).holds
      | expire now => exact ih

/-- **A run** adds to each ordinary partition what its requests have written. -/
theorem Handled.history {first last : System} (h : Handled queue first served last)
    (hholds : first.broker.topics.Holds (first.intact = true) held) (hordinary : isInternalTopic topic = false) (id : Nat) :
    ∃ grown history, last.broker.topics.Holds (last.intact = true) grown ∧
      grown topic id = held topic id ++ history.map Prod.snd ∧ PartitionHistory served topic id history := by
  induction served generalizing first held with
  | nil =>
      refine ⟨held, [], background_holds h hholds, (List.append_nil _).symm, List.Sublist.refl _, ?_, ?_⟩
      · exact fun _ hmem => absurd hmem List.not_mem_nil
      · exact fun _ hmem => absurd hmem List.not_mem_nil
  | cons entry rest ih =>
      obtain ⟨hbefore, hdecoded, hrest⟩ := h
      obtain ⟨later, hlater, hadds⟩ := @ServedRequest.adds queue entry held hdecoded (background_holds hbefore hholds)
      obtain ⟨grown, history, hgrown, hbatches, hhistory⟩ := ih hrest hlater
      rcases hadds topic id hordinary with ⟨hsame, hnever⟩ | ⟨batch, hadded, hwrote, hbase⟩
      · refine ⟨grown, history, hgrown, hsame ▸ hbatches, hhistory.sublist.cons entry, hhistory.wrote, ?_⟩
        intro other hother baseOffset hacknowledged
        rcases List.mem_cons.mp hother with rfl | hold
        · exact absurd hacknowledged (hnever baseOffset)
        · exact hhistory.acknowledged other hold baseOffset hacknowledged
      · refine ⟨grown, (entry, batch) :: history, hgrown, ?_, hhistory.sublist.cons_cons entry, ?_, ?_⟩
        · rw [hbatches, hadded, List.append_assoc, List.map_cons, List.singleton_append]
        · exact List.forall_mem_cons.mpr ⟨hwrote, hhistory.wrote⟩
        · intro other hother baseOffset hacknowledged
          rcases List.mem_cons.mp hother with rfl | hold
          · exact ⟨batch, List.mem_cons_self, hbase baseOffset hacknowledged⟩
          · obtain ⟨found, hfound, hfoundBase⟩ := hhistory.acknowledged other hold baseOffset hacknowledged
            exact ⟨found, List.mem_cons_of_mem _ hfound, hfoundBase⟩

theorem contiguous_of_chain {history : List (ServedRequest × RecordBatch)} {start stop : Int}
    (h : Chain start (history.map Prod.snd) stop) : Contiguous start history stop := by
  induction history generalizing start with
  | nil => exact h
  | cons entry rest ih =>
      obtain ⟨hvalid, hbase, hrest⟩ := h
      refine ⟨hbase, ih ?_⟩
      rw [← hvalid.count_eq]
      exact hrest

/-- The end of a log, if there is one. -/
def endOf (broker : BrokerService) (topic : Bytes) (id : Nat) : Int :=
  ((broker.topics.store? topic id).map fun store => store.log.nextOffset).getD 0

/-- What is held goes as far as the end of the log. -/
theorem chain_endOf {broker : BrokerService} {intact : Prop} (h : broker.topics.Holds intact held) (topic : Bytes) (id : Nat) :
    Chain 0 (held topic id) (endOf broker topic id) := by
  unfold endOf
  cases hstore : broker.topics.store? topic id with
  | none =>
      rw [h.outside hstore]
      rfl
  | some store => exact (h.carries hstore).chain

/-- **Logs are histories.** What the partition of an ordinary topic holds beyond its first state is what Produce
requests have written since, one batch each, without gaps and in the order in which they were handled. Those that were
acknowledged are among them, at the offset that their response has named, and whatever a Fetch returns was written by one
of them. -/
theorem log_is_history {threadCount maxQueueSize : Nat} {first : System} {state : BrokerServer}
    (hfirst : BrokerReaches queue {} first) (h : Reached queue threadCount maxQueueSize first state)
    (hordinary : isInternalTopic topic = false) (partitionId : Int) :
    ∃ history, PartitionHistory state.served topic partitionId.toNat history ∧
      Contiguous (endOf first.broker topic partitionId.toNat) history
        (endOf state.system.broker topic partitionId.toNat) ∧
      ∀ version offset maxBytes response,
        state.system.broker.handleFetch version ⟨topic, partitionId, offset, maxBytes⟩ = .ok response →
        endOf first.broker topic partitionId.toNat ≤ offset → offset < endOf state.system.broker topic partitionId.toNat →
        ∃ entry ∈ history, entry.2.baseOffset ≤ offset ∧ offset < entry.2.baseOffset + entry.2.records.length ∧
          response.baseOffset = entry.2.baseOffset ∧ ∃ request, entry.1.request.body = .produce request ∧
            request.topic = topic ∧ response.records = request.records.map ProtocolRecord.dropRetry := by
  obtain ⟨held, hinvariant⟩ := hfirst.invariant (Rules.marks_true _)
  obtain ⟨grown, history, hgrown, hbatches, hhistory⟩ :=
    h.sound.handled.history hinvariant.holds hordinary partitionId.toNat
  have hchain := chain_endOf hgrown topic partitionId.toNat
  rw [hbatches] at hchain
  obtain ⟨middle, hleft, hright⟩ := chain_append.mp hchain
  have hmiddle := hleft.stop_unique (chain_endOf hinvariant.holds topic partitionId.toNat)
  rw [hmiddle] at hright
  refine ⟨history, hhistory, contiguous_of_chain hright, fun version offset maxBytes response hfetch hle hlt => ?_⟩
  obtain ⟨-, -, store, -, hstore, -, houtcome⟩ := BrokerService.handleFetch_ok.mp hfetch
  have hend : endOf state.system.broker topic partitionId.toNat = store.log.nextOffset := by
    unfold endOf
    rw [hstore]
    rfl
  have hmark : state.system.broker.highWatermark topic partitionId store = store.log.nextOffset := by
    rw [BrokerService.highWatermark, (isInternalTopic_eq_false.mp hordinary).1, if_neg Bool.false_ne_true]
  dsimp only at houtcome
  rw [hmark, ← hend] at houtcome
  rcases houtcome with ⟨hbehind, -⟩ | ⟨-, batch, records, hread, hrecords, rfl⟩
  · omega
  · obtain ⟨hmem, hbatchLe, hbatchLt, -⟩ := (hgrown.carries hstore).read_sound hread
    rw [hbatches] at hmem
    rcases List.mem_append.mp hmem with hold | hnew
    · have hbounds := (hleft.bounds hold).2
      omega
    · obtain ⟨entry, hentry, rfl⟩ := List.mem_map.mp hnew
      obtain ⟨request, hbody, htopic, hwritten⟩ := hhistory.wrote entry hentry
      have hcount := (hright.valid entry.2 hnew).count_eq
      rw [RecordBatch.endOffset, hcount] at hbatchLt
      refine ⟨entry, hentry, hbatchLe, hbatchLt, rfl, request, hbody, htopic, ?_⟩
      rw [BrokerService.fetchRecords_ordinary hordinary] at hrecords
      cases hrecords
      rw [hwritten, List.map_map]
      rfl

theorem log_is_history_once :
    ∃ state history, Steps.run (step .inOrder) (start 1 1 oneTopic) (exchange 0 produceOne) = some state ∧
      PartitionHistory state.served (text "a") 0 history ∧ Contiguous 0 history 1 := by
  obtain ⟨state, hrun⟩ := Option.isSome_iff_exists.mp (by decide +kernel :
    (Steps.run (step .inOrder) (start 1 1 oneTopic) (exchange 0 produceOne)).isSome = true)
  have hend : (Steps.run (step .inOrder) (start 1 1 oneTopic) (exchange 0 produceOne)).map (fun state =>
      endOf state.system.broker (text "a") 0) = some 1 := by decide +kernel
  have hstart : endOf oneTopic.broker (text "a") 0 = 0 := by decide +kernel
  rw [hrun, Option.map_some, Option.some.injEq] at hend
  obtain ⟨history, hhistory, hcontiguous, -⟩ := @log_is_history .inOrder (text "a") 1 1 oneTopic state reaches_oneTopic
    ⟨_, hrun⟩ (by decide) 0
  rw [show (0 : Int).toNat = 0 from rfl, hstart, hend] at hcontiguous
  exact ⟨state, history, hrun, hhistory, hcontiguous⟩

end BrokerServer

end LogMq
