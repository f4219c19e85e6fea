import LogMq.BrokerRetryRuns
import LogMq.BrokerWrites

/-! How rejected records come about. Every copy of a record in an internal topic was made from the copy before it, which
is still there: the copies of a dead letter lie in its retry topic, one for every retry. -/

namespace LogMq

open TopicManager

/-! ### Copies -/

/-- A record with these metadata is stored in the partition. -/
def TopicManager.Copies (manager : TopicManager) (topic : Bytes) (id : Nat) (retry : RetryMetadata) : Prop :=
  ∃ offset stored record, manager.Stores topic id offset stored ∧ decodeRetryRecord stored = .ok record ∧
    record.retry = some retry

/-- The copy before this one: it was counted one less, leads back to the same record, and lies in the retry topic. -/
def TopicManager.Precedes (manager : TopicManager) (id : Nat) (source retry : RetryMetadata) : Prop :=
  manager.Copies (retryTopicPrefix ++ retry.originalTopic) id source ∧
    source.retryCount.toNat + 1 = retry.retryCount.toNat ∧ source.location = retry.location

/-- Every copy is the first one, or was made from another one. -/
def TopicManager.Descends (manager : TopicManager) : Prop :=
  ∀ topic id retry, isInternalTopic topic = true → manager.Copies topic id retry →
    retry.retryCount.toNat = 1 ∨ ∃ source, manager.Precedes id source retry

theorem storedAt_concat {batches : List RecordBatch} {batch : RecordBatch} {offset : Int} {stored : Record}
    (h : storedAt (batches ++ [batch]) offset = some stored) :
    storedAt batches offset = some stored ∨ stored ∈ batch.records := by
  unfold storedAt at h ⊢
  split_ifs at h ⊢
  rw [contents_append] at h
  by_cases hlt : offset.toNat < (contents batches).length
  · rw [List.getElem?_append_left hlt] at h
    exact .inl h
  · rw [List.getElem?_append_right (not_lt.mp hlt), contents, List.flatMap_singleton] at h
    exact .inr (List.mem_of_getElem? h)

section Grow

variable {before after : TopicManager} {intact intact' : Prop} {held later : Holdings} {id : Nat}
  {source retry : RetryMetadata}

/-- Copies stay. -/
theorem TopicManager.Copies.extend {topic : Bytes} (h : before.Copies topic id retry) (hbefore : before.Holds intact held)
    (hafter : after.Holds intact' later) (hextends : held.Extends later) : after.Copies topic id retry := by
  obtain ⟨offset, stored, record, hstored, hdecoded⟩ := h
  exact ⟨offset, stored, record, hafter.stores.mpr (hextends.storedAt (hbefore.stores.mp hstored)), hdecoded⟩

theorem TopicManager.Precedes.extend (h : before.Precedes id source retry) (hbefore : before.Holds intact held)
    (hafter : after.Holds intact' later) (hextends : held.Extends later) : after.Precedes id source retry :=
  ⟨h.1.extend hbefore hafter hextends, h.2⟩

/-- What is not new has its copies before it already. -/
theorem TopicManager.Descends.extend (h : before.Descends) (hbefore : before.Holds intact held)
    (hafter : after.Holds intact' later) (hextends : held.Extends later)
    (hnew : ∀ topic id offset stored record retry, isInternalTopic topic = true →
      storedAt (later topic id) offset = some stored → storedAt (held topic id) offset ≠ some stored →
      decodeRetryRecord stored = .ok record → record.retry = some retry →
        retry.retryCount.toNat = 1 ∨ ∃ source, before.Precedes id source retry) : after.Descends := by
  intro topic id retry hinternal hcopy
  obtain ⟨offset, stored, record, hstored, hdecode, hretry⟩ := hcopy
  have hlater := hafter.stores.mp hstored
  have hdescends : retry.retryCount.toNat = 1 ∨ ∃ source, before.Precedes id source retry := by
    by_cases hold : storedAt (held topic id) offset = some stored
    · exact h topic id retry hinternal ⟨offset, stored, record, hbefore.stores.mpr hold, hdecode, hretry⟩
    · exact hnew topic id offset stored record retry hinternal hlater hold hdecode hretry
  rcases hdescends with hone | ⟨source, hprecedes⟩
  · exact .inl hone
  · exact .inr ⟨source, hprecedes.extend hbefore hafter hextends⟩

/-- Nothing is written to internal topics. -/
theorem TopicManager.Descends.same (h : before.Descends) (hbefore : before.Holds intact held)
    (hafter : after.Holds intact' later) (hextends : held.Extends later)
    (hsame : ∀ topic id, isInternalTopic topic = true → later topic id = held topic id) : after.Descends :=
  h.extend hbefore hafter hextends fun topic id _ _ _ _ hinternal hstored hold =>
    absurd (hsame topic id hinternal ▸ hstored) hold

end Grow

/-! ### Runs -/

section Runs

variable {queue : TaskQueue} {options : RetryOptions} {system later : System} {held : Holdings}

/-- **A Nack** writes the next copy. -/
theorem TopicManager.Descends.nack (h : system.broker.topics.Descends)
    (hinvariant : Invariant (retryRules options) (Counted options) system held) {environment : Environment}
    {request : NackRequest} (htyped : (RequestBody.nack request).Typed) :
    (system.broker.handleNack queue environment request).2.topics.Descends := by
  obtain ⟨grown, hgrown, hwrites⟩ := @handleNack_writes queue environment _ _ _ hinvariant.holds request
  rcases hwrites with rfl | ⟨encoded, retry, deadLetter, partitionCount, batch, hrecord, hrecords, rfl⟩
  · exact h.same hinvariant.holds hgrown (.refl _) fun _ _ _ => rfl
  obtain ⟨record, source, count, hsource, hmetadata, henvelope, -⟩ :=
    hinvariant.nackRecord_envelope (retryRules_marks options) trivial htyped hrecord
  obtain ⟨hcount, htopic, hpartition, horigin, -⟩ := Invariant.nackMetadata_origin hmetadata
  have hnext : retry.retryCount.toNat = source.retryCount.toNat + 1 :=
    toNat_retryCount hinvariant.accepted (hinvariant.options ▸ Counted.le hsource.marked) hcount
  have hsealed := { henvelope with
    envelope := henvelope.envelope.of_content (Record.content_sealed encoded) : Envelope _ _ _ _ encoded.sealed _ _ }
  refine h.extend hinvariant.holds hgrown (.set _ _ _ _) fun topic id offset stored decoded found _ hstored hold
    hdecode hfound => ?_
  by_cases hplace : topic = BrokerService.destinationOf retry deadLetter ∧ id = request.partitionId.toNat
  · obtain ⟨rfl, rfl⟩ := hplace
    rw [Holdings.set_self] at hstored
    obtain hnew := (storedAt_concat hstored).resolve_left hold
    rw [hrecords, List.mem_singleton] at hnew
    subst hnew
    cases hsealed.decode.symm.trans hdecode
    cases hfound
    obtain ⟨origin, hat, horiginal⟩ := hsource.stored
    rcases horiginal with ⟨hretry, hname, hcopied⟩ | ⟨-, -, rfl⟩
    · refine .inr ⟨source, ⟨request.offset, origin, record, ?_, hcopied.decode, hcopied.envelope.retry_eq⟩, hnext.symm, ?_⟩
      · rw [htopic, ← hname]
        exact hinvariant.holds.stores.mpr hat
      · rw [RetryMetadata.location, RetryMetadata.location, htopic, hpartition, horigin]
    · exact .inl hnext
  · rw [Holdings.set_of_ne _ _ hplace] at hstored
    exact absurd hstored hold

/-- **Every request** leaves each copy with the one before it. -/
theorem TopicManager.Descends.handle (h : system.broker.topics.Descends)
    (hinvariant : Invariant (retryRules options) (Counted options) system held) {environment : Environment}
    {envelope : RequestEnvelope} (htyped : envelope.body.Typed) :
    (system.broker.handle queue environment envelope).2.topics.Descends := by
  refine @BrokerService.handle_cases queue environment system.broker (fun later => later.topics.Descends) envelope
    (fun _ => h) (fun request hbody => ?_) (fun request => ?_) (fun request => ?_) fun request => ?_
  · rw [hbody] at htyped
    exact h.nack hinvariant htyped
  · obtain ⟨grown, hgrown, hwrites⟩ := @handleProduce_writes environment _ _ _ hinvariant.holds request
    rcases hwrites with ⟨rfl, -⟩ | ⟨hordinary, selected, batch, rfl, -⟩
    · exact h.same hinvariant.holds hgrown (.refl _) fun _ _ _ => rfl
    · refine h.same hinvariant.holds hgrown (.set _ _ _ _) fun topic id hinternal => Holdings.set_of_ne _ _ ?_
      rintro ⟨rfl, -⟩
      rw [hinternal] at hordinary
      cases hordinary
  · have hgrows := @handleCreateTopic_grows environment _ _ _ hinvariant.holds request
    exact h.same hinvariant.holds hgrows.holds (.refl _) fun _ _ _ => rfl
  · unfold BrokerService.handleCommitOffset
    split <;> exact h

/-- **One step** of a run. -/
theorem TopicManager.Descends.step (h : system.broker.topics.Descends)
    (hinvariant : Invariant (retryRules options) (Counted options) system held)
    (hstep : BrokerStep queue (retryRules options) system later) : later.broker.topics.Descends := by
  cases hstep with
  | request htyped hallowed => exact h.handle hinvariant htyped
  | wake now => exact h
  | flush flushed =>
      exact h.same hinvariant.holds (Grows.flush hinvariant.holds flushed).holds (.refl _) fun _ _ _ => rfl
  | expire now => exact h
  | restart hintact hoptions hstart =>
      exact h.same hinvariant.holds (hinvariant.restart hintact hoptions hstart).holds (.refl _) fun _ _ _ => rfl

/-- **Every reachable state.** -/
theorem BrokerReaches.descends (h : BrokerReaches queue (retryRules options) system) : system.broker.topics.Descends := by
  obtain ⟨service, now, broker, hoptions, hstart, hfollows⟩ := h
  have hmarks := retryRules_marks options
  have hinitial := @Invariant.initial queue (retryRules options) (Counted options) _ _ _ hoptions hstart
  induction hfollows with
  | refl =>
      rintro topic id retry - ⟨offset, stored, record, hstored, -⟩
      have hnone := hinitial.holds.stores.mp hstored
      rw [storedAt, contents, List.flatMap_nil, List.getElem?_nil, ite_self] at hnone
      cases hnone
  | tail hfollows hstep ih =>
      obtain ⟨held, -, hinvariant⟩ := hinitial.follows hmarks hfollows
      exact ih.step hinvariant hstep

/-- All the copies before a copy. -/
theorem TopicManager.Descends.exists_copy {manager : TopicManager} (h : manager.Descends) {topic : Bytes} {id : Nat}
    {retry : RetryMetadata} (hinternal : isInternalTopic topic = true) (hcopy : manager.Copies topic id retry) {count : Nat}
    (hpositive : 1 ≤ count) (hlt : count < retry.retryCount.toNat) :
    ∃ source, manager.Copies (retryTopicPrefix ++ retry.originalTopic) id source ∧ source.retryCount.toNat = count ∧
      source.location = retry.location := by
  generalize hcounted : retry.retryCount.toNat = bound at hlt
  induction bound generalizing topic retry with
  | zero => omega
  | succ bound ih =>
      rcases h topic id retry hinternal hcopy with hone | ⟨source, hsource, hnext, hlocation⟩
      · omega
      · by_cases hlast : count = bound
        · exact ⟨source, hsource, by omega, hlocation⟩
        · have hretry : isInternalTopic (retryTopicPrefix ++ retry.originalTopic) = true := by
            rw [isInternalTopic, isRetryTopic_append, Bool.true_or]
          have hname : source.originalTopic = retry.originalTopic := congrArg Prod.fst hlocation
          obtain ⟨first, hfirst, hcount, hsame⟩ := ih hretry hsource (by omega) (by omega)
          rw [hname] at hfirst
          exact ⟨first, hfirst, hcount, hsame.trans hlocation⟩

end Runs

/-- **Every rejection leaves its copy.** A record of an internal topic that was rejected several times is preceded by the
copies of all its earlier rejections: they lie in the same partition of the retry topic, one for every count, and lead
back to the same record. A dead letter has been through all retries. Runs restart a broker only where no append has
failed: the bytes that one leaves behind may be read as a record later. -/
theorem rejections_leave_copies {queue : TaskQueue} {options : RetryOptions} {system : System}
    (h : BrokerReaches queue (retryRules options) system) {topic : Bytes} {id : Nat} {offset : Int} {stored : Record}
    (hinternal : isInternalTopic topic = true) (hstored : system.broker.topics.Stores topic id offset stored) :
    ∃ retry, system.broker.topics.Rejects (originalName topic) id stored retry ∧
      (isDlqTopic topic = true → retry.retryCount.toNat = options.maxRetries.toNat + 1) ∧
      ∀ count, 1 ≤ count → count < retry.retryCount.toNat → ∃ place copy source,
        system.broker.topics.Stores (retryTopicPrefix ++ originalName topic) id place copy ∧
        system.broker.topics.Rejects (originalName topic) id copy source ∧ source.retryCount.toNat = count ∧
        source.location = retry.location := by
  obtain ⟨held, hinvariant⟩ := h.invariant (retryRules_marks options)
  obtain ⟨retry, hrejects, hcounted, -⟩ := hinvariant.rejects hinternal hstored
  refine ⟨retry, hrejects, hcounted.2, fun count hpositive hlt => ?_⟩
  obtain ⟨record, -, hdecode, hretry, -⟩ := hrejects.decoded
  obtain ⟨source, ⟨place, copy, copied, hcopy, hcopied, hsource⟩, hcount, hlocation⟩ :=
    h.descends.exists_copy hinternal ⟨offset, stored, record, hstored, hdecode, hretry⟩ hpositive hlt
  rw [hrejects.topic_eq] at hcopy
  have hretryTopic : isInternalTopic (retryTopicPrefix ++ originalName topic) = true := by
    rw [isInternalTopic, isRetryTopic_append, Bool.true_or]
  obtain ⟨found, hfound, -⟩ := hinvariant.rejects hretryTopic hcopy
  rw [originalName_retry] at hfound
  obtain ⟨again, -, hagain, hsame, -⟩ := hfound.decoded
  cases hcopied.symm.trans hagain
  cases hsource.symm.trans hsame
  exact ⟨place, copy, source, hcopy, hfound, hcount, hlocation⟩

/-- A record is rejected until it is dead, with two retries and no delay. -/
def rejectedThrice : System :=
  System.serve .inOrder ⟨.fresh { retry := { delay := 0, maxRetries := 2 } } 1, true⟩
    [({}, ⟨.createTopic, 1, 0, .createTopic ⟨text "a", 1⟩⟩),
      ({}, ⟨.produce, 1, 1, .produce ⟨text "a", 0, [{ value := text "v" }]⟩⟩),
      ({}, ⟨.nack, 2, 2, .nack ⟨text "a", 0, 0, text "busy"⟩⟩),
      ({}, ⟨.nack, 2, 3, .nack ⟨retryTopicPrefix ++ text "a", 0, 0, text "busy"⟩⟩),
      ({}, ⟨.nack, 2, 4, .nack ⟨retryTopicPrefix ++ text "a", 0, 1, text "dead"⟩⟩)]

theorem rejections_leave_copies_thrice :
    BrokerReaches .inOrder (retryRules { delay := 0, maxRetries := 2 }) rejectedThrice ∧
      ∃ stored place copy source, rejectedThrice.broker.topics.Stores (dlqTopicPrefix ++ text "a") 0 0 stored ∧
        rejectedThrice.broker.topics.Stores (retryTopicPrefix ++ text "a") 0 place copy ∧
        rejectedThrice.broker.topics.Rejects (text "a") 0 copy source ∧ source.retryCount.toNat = 2 := by
  have hreaches : BrokerReaches .inOrder (retryRules { delay := 0, maxRetries := 2 }) rejectedThrice :=
    .serve rfl (by decide) (fun _ _ => trivial) (by decide)
  have hinternal : isInternalTopic (dlqTopicPrefix ++ text "a") = true := by
    rw [isInternalTopic, isDlqTopic_append, Bool.or_true]
  have hnext : (rejectedThrice.broker.topics.store? (dlqTopicPrefix ++ text "a") 0).map (·.log.nextOffset) = some 1 := by
    decide +kernel
  obtain ⟨store, hstore, hone⟩ := Option.map_eq_some_iff.mp hnext
  obtain ⟨held, hinvariant⟩ := hreaches.invariant (retryRules_marks _)
  obtain ⟨stored, hstored⟩ := hinvariant.stored hstore (le_refl 0) (hone ▸ zero_lt_one)
  obtain ⟨retry, hrejects, hdead, hcopies⟩ := rejections_leave_copies hreaches hinternal hstored
  have hcount := hdead (isDlqTopic_append _)
  change retry.retryCount.toNat = 3 at hcount
  obtain ⟨place, copy, source, hcopy, hsource, htwo, -⟩ := hcopies 2 (by omega) (by omega)
  rw [originalName_dlq] at hcopy hsource
  exact ⟨hreaches, stored, place, copy, source, hstored, hcopy, hsource, htwo⟩

end LogMq
