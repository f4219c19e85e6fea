import LogMq.BrokerCommits
import LogMq.BrokerRequests

/-! What requests write. A Produce writes one batch to a partition of its ordinary topic, a Nack one record to a partition
of an internal topic, or they write nothing; no other request writes. -/

namespace LogMq

open TopicManager

variable {queue : TaskQueue} {environment : Environment} {broker : BrokerService} {intact : Bool} {held : Holdings}

theorem isInternalTopic_destinationOf (retry : RetryMetadata) (deadLetter : Bool) :
    isInternalTopic (BrokerService.destinationOf retry deadLetter) = true := by
  obtain ⟨hdlq, hretry, -⟩ := Invariant.isDlqTopic_destinationOf retry deadLetter
  rw [isInternalTopic, hdlq, hretry, Bool.not_or_self]

/-- A Nack writes the record it has prepared to its destination, or nothing. -/
theorem handleNack_writes (h : broker.topics.Holds (intact = true) held) (request : NackRequest) :
    ∃ later, (broker.handleNack queue environment request).2.topics.Holds ((intact && environment.faultless) = true) later ∧
      (later = held ∨ ∃ encoded retry deadLetter partitionCount batch,
        broker.nackRecord environment request = .ok (encoded, retry, deadLetter, partitionCount) ∧
        batch.records = [encoded.sealed] ∧
        later = held.set (BrokerService.destinationOf retry deadLetter) request.partitionId.toNat
          (held (BrokerService.destinationOf retry deadLetter) request.partitionId.toNat ++ [batch])) := by
  have hweaken := @Environment.faultless_intact environment intact
  unfold BrokerService.handleNack
  cases hrecord : broker.nackRecord environment request with
  | error reply => exact ⟨held, h.mono hweaken, .inl rfl⟩
  | ok prepared =>
      obtain ⟨encoded, retry, deadLetter, partitionCount⟩ := prepared
      dsimp only
      have hcreated := h.createTopic (BrokerService.destinationOf retry deadLetter) partitionCount environment.create
      cases hcreate : broker.topics.createTopic (BrokerService.destinationOf retry deadLetter) partitionCount
          environment.create with
      | mk result topics =>
          rw [hcreate] at hcreated
          cases result with
          | error status => exact ⟨held, hcreated.mono hweaken, .inl rfl⟩
          | ok _ =>
              dsimp only
              cases hpartition : topics.getPartition (BrokerService.destinationOf retry deadLetter)
                  request.partitionId with
              | error status => exact ⟨held, hcreated.mono hweaken, .inl rfl⟩
              | ok target =>
                  obtain ⟨-, hstore⟩ := getPartition_ok.mp hpartition
                  have happend := hcreated.append hstore [encoded] environment.append
                  dsimp only
                  cases happended : target.append [encoded] environment.append with
                  | mk result grown =>
                      rw [happended] at happend
                      rcases happend with ⟨status, herror, hholds⟩ | ⟨appended, batch, hok, -, hbatch, hholds⟩
                      · cases herror
                        exact ⟨held, hholds.mono (@Environment.faultless_append environment intact), .inl rfl⟩
                      · cases hok
                        obtain ⟨-, -, -, hrecords⟩ := makeRecordBatch_eq_ok hbatch
                        exact ⟨_, BrokerService.flushAppended_holds
                          (hholds.mono (@Environment.faultless_append environment intact)) _ _,
                          .inr ⟨encoded, retry, deadLetter, partitionCount, batch, rfl, hrecords, rfl⟩⟩

/-- It leaves ordinary topics alone. -/
theorem handleNack_ordinary (h : broker.topics.Holds (intact = true) held) (request : NackRequest) :
    ∃ later, (broker.handleNack queue environment request).2.topics.Holds ((intact && environment.faultless) = true) later ∧
      ∀ topic id, isInternalTopic topic = false → later topic id = held topic id := by
  obtain ⟨later, hlater, hwrites⟩ := @handleNack_writes queue environment _ _ _ h request
  refine ⟨later, hlater, fun topic id hordinary => ?_⟩
  rcases hwrites with rfl | ⟨_, retry, deadLetter, _, batch, -, -, rfl⟩
  · rfl
  · refine Holdings.set_of_ne _ _ ?_
    rintro ⟨rfl, -⟩
    rw [isInternalTopic_destinationOf] at hordinary
    cases hordinary

/-- A Produce writes one batch to a partition of its topic, or nothing. -/
theorem handleProduce_writes (h : broker.topics.Holds (intact = true) held) (request : ProduceRequest) :
    ∃ later, (broker.handleProduce environment request).2.topics.Holds ((intact && environment.faultless) = true) later ∧
      (later = held ∧ (∀ acknowledged, (broker.handleProduce environment request).1 ≠ .ok acknowledged) ∨
        isInternalTopic request.topic = false ∧
        ∃ selected batch, later = held.set request.topic selected (held request.topic selected ++ [batch]) ∧
          batch.records = request.records.map (fun record => (toStorageRecord record).sealed) ∧
          ∀ acknowledged, (broker.handleProduce environment request).1 = .ok acknowledged →
            acknowledged.partitionId.toNat = selected ∧ acknowledged.baseOffset = batch.baseOffset) := by
  have hweaken := @Environment.faultless_intact environment intact
  unfold BrokerService.handleProduce
  split
  · exact ⟨held, h.mono hweaken, .inl ⟨rfl, fun _ hok => by cases hok⟩⟩
  rename_i hordinary
  split
  · exact ⟨held, h.mono hweaken, .inl ⟨rfl, fun _ hok => by cases hok⟩⟩
  rename_i first rest hrecords
  have hsame := @selectPartition_same broker.topics request.topic request.partitionId first.key
  have hselected := h.same hsame
  split
  · rename_i status topics heq
    rw [heq] at hselected
    exact ⟨held, hselected.mono hweaken, .inl ⟨rfl, fun _ hok => by cases hok⟩⟩
  rename_i selected store topics heq
  obtain ⟨-, hstore⟩ := selectPartition_ok (by rw [heq])
  rw [← hsame.store?, heq] at hstore
  rw [heq] at hselected
  have happend := hselected.append hstore (request.records.map toStorageRecord) environment.append
  split
  · rename_i status grown happended
    rw [happended] at happend
    rcases happend with ⟨_, -, hholds⟩ | ⟨_, _, hok, -⟩
    · exact ⟨held, hholds.mono (@Environment.faultless_append environment intact), .inl ⟨rfl, fun _ hok => by cases hok⟩⟩
    · cases hok
  · rename_i result grown happended
    rw [happended] at happend
    rcases happend with ⟨_, herror, -⟩ | ⟨_, batch, hok, hbase, hbatch, hholds⟩
    · cases herror
    · cases hok
      obtain ⟨-, hstart, -, hbatchRecords⟩ := makeRecordBatch_eq_ok hbatch
      refine ⟨_, BrokerService.flushAppended_holds (hholds.mono (@Environment.faultless_append environment intact)) _ _,
        .inr ⟨Bool.eq_false_of_not_eq_true hordinary, selected.toNat, batch, rfl,
          by rw [hbatchRecords, List.map_map]; rfl, fun acknowledged hreply => ?_⟩⟩
      obtain ⟨_, -, hreply⟩ := Result.bind_eq_ok.mp hreply
      cases Result.pure_eq_ok.mp hreply
      exact ⟨rfl, hbase.trans hstart.symm⟩

end LogMq
