import LogMq.BrokerRetryRecord
import LogMq.StorageBudget

/-! Retry records in a log. A rejected record goes through three codecs, a Fetch response inside a storage record
inside a batch of one record, and comes back out of them as it was; the byte budget retry topics are read with
covers every such batch. -/

namespace LogMq

/-! ### Runs of a log -/

/-- Whatever fails on the way, a log holds the batches of the acknowledged appends. -/
theorem FaultyReaches.wrote {options : CommitLogOptions} {allowed : Store → List Record → IoFaults → Prop}
    {store : Store} {acked : List Appended} (h : FaultyReaches options allowed store acked) :
    ∃ layout, Rep options.normalized store layout ∧ List.Forall₂ Appended.Wrote acked layout.batches := by
  induction h with
  | opened hopen =>
      obtain ⟨hdir, hsize⟩ := openLog_ok_options hopen
      obtain ⟨log, disk, hopen', hrep, -⟩ := openLog_empty hdir hsize .empty
      cases hopen.symm.trans hopen'
      exact ⟨Layout.initial, hrep, .nil⟩
  | @append _ _ _ records faults _ ih =>
      obtain ⟨layout, hrep, hwrote⟩ := ih
      obtain ⟨layout', houtcome, hrep', -⟩ := hrep.append_outcome records faults
      exact ⟨layout', hrep', houtcome.wrote hwrote⟩

/-- A budget that covers all batches of a log is enough to read each of them. -/
theorem Rep.read_small {options : CommitLogOptions} {store : Store} {layout : Layout} (h : Rep options store layout)
    {maxBytes : Nat} (hsmall : ∀ other ∈ layout.batches, other.batchBytes ≤ maxBytes) {batch : RecordBatch}
    (hbatch : batch ∈ layout.batches) {offset : Int} (hle : batch.baseOffset ≤ offset)
    (hlt : offset < batch.endOffset) : store.read offset maxBytes = .ok batch := by
  have hlarge := h.read_batch hbatch hle hlt (Nat.le_add_right batch.batchBytes options.indexIntervalBytes)
    (Nat.le_add_left _ _)
  apply h.consistent.read_small hlarge
  intro part hpart other hother
  apply hsmall
  rw [← List.map_singleton, ← List.map_append] at hpart
  obtain ⟨chunk, hchunk, rfl⟩ := List.mem_map.mp hpart
  exact List.mem_flatMap.mpr ⟨chunk, hchunk, hother⟩

/-! ### Batches of one retry record -/

theorem payloadOf_singleton_length (record : Record) : (payloadOf [record]).length = encodedRecordSize record := by
  rw [payloadOf_length_cons]
  rfl

/-- A batch of one record takes its header and the record. -/
theorem batchBytes_of_singleton {base : Int} {record : Record} {batch : RecordBatch}
    (h : makeRecordBatch base [record] = .ok batch) (hbase : base ≤ maxOffset) :
    batch.batchBytes = recordBatchHeaderBytes + encodedRecordSize record := by
  obtain ⟨hvalid, -, -, hrecords⟩ := makeRecordBatch_eq_ok h
  rw [(hvalid hbase).size_eq, hrecords, payloadOf_sealed, payloadOf_singleton_length]

/-- An encoded retry record fits into a batch, and the batch into the budget. -/
theorem StoredRetry.batch {record : ProtocolRecord} {retry : RetryMetadata} {stored : Record}
    (h : StoredRetry record retry stored) {base : Int} (hbase : 0 ≤ base) (hmax : base ≤ maxOffset) :
    ∃ batch, makeRecordBatch base [stored] = .ok batch ∧ batch.Valid ∧ batch.batchBytes ≤ maxRetryBatchBytes := by
  have hsize := h.encodedRecordSize_le
  have hlarge : maxRetryBatchBytes ≤ maxUInt32 := by decide
  have hvector : maxRetryBatchBytes ≤ vectorMaxBytes := by decide
  have hfits : stored.Fits := by
    unfold encodedRecordSize at hsize
    exact ⟨by omega, by omega⟩
  obtain ⟨batch, hbatch⟩ := exists_makeRecordBatch hbase (List.cons_ne_nil stored [])
    (List.forall_mem_singleton.mpr hfits) (by rw [payloadOf_singleton_length]; omega)
  refine ⟨batch, hbatch, (makeRecordBatch_eq_ok hbatch).1 hmax, ?_⟩
  rw [batchBytes_of_singleton hbatch hmax]
  exact hsize

/-- Every append of these was of one encoded retry record. -/
def RetryAppends (acked : List Appended) : Prop :=
  ∀ appended ∈ acked, ∃ record stored, encodeRetryRecord record = .ok stored ∧ appended.records = [stored]

theorem RetryAppends.small {acked : List Appended} (h : RetryAppends acked) {options : CommitLogOptions} {store : Store}
    {layout : Layout} (hrep : Rep options store layout)
    (hwrote : List.Forall₂ Appended.Wrote acked layout.batches) :
    ∀ batch ∈ layout.batches, batch.batchBytes ≤ maxRetryBatchBytes := by
  intro batch hbatch
  obtain ⟨appended, hmem, hmade⟩ := exists_related hwrote.flip hbatch
  obtain ⟨record, stored, hstored, hrecords⟩ := h appended hmem
  obtain ⟨retry, hretry⟩ := encodeRetryRecord_ok hstored
  have hvalid := hrep.holds.chain.valid batch hbatch
  have hbase : appended.result.baseOffset ≤ maxOffset := by
    rw [← (Appended.Wrote.batch_eq hmade).1]
    exact hvalid.base_le
  have hsingle : makeRecordBatch appended.result.baseOffset appended.records = .ok batch := hmade
  rw [hrecords] at hsingle
  rw [batchBytes_of_singleton hsingle hbase]
  exact hretry.encodedRecordSize_le

/-- **Retry records.** What is encoded decodes to itself, also after it has been stored; a batch that holds it is
within the budget of retry reads, and so each record of a log of such batches can be read back. -/
theorem retryRecord_round_trip {record : ProtocolRecord} (htyped : ∀ retry, record.retry = some retry → retry.Typed)
    {stored : Record} (hstored : encodeRetryRecord record = .ok stored) :
    decodeRetryRecord stored = .ok record ∧
      (∀ base, 0 ≤ base → base ≤ maxOffset → ∃ batch encoding, makeRecordBatch base [stored] = .ok batch ∧
        encodeRecordBatch batch = .ok encoding ∧ encoding.length ≤ maxRetryBatchBytes) ∧
      ∀ options store acked, Reaches options store acked ∨ FaultyReaches options anyFaults store acked →
        RetryAppends acked → ∀ appended ∈ acked, appended.records = [stored] →
          ∃ batch kept, store.read appended.result.baseOffset maxRetryBatchBytes = .ok batch ∧
            batch.records = [kept] ∧ decodeRetryRecord kept = .ok record := by
  obtain ⟨retry, hretry⟩ := encodeRetryRecord_ok hstored
  have hdecode := hretry.decode (htyped retry hretry.retry_eq)
  refine ⟨hdecode, fun base hbase hmax => ?_, fun options store acked hreaches hretries appended hmem hrecords => ?_⟩
  · obtain ⟨batch, hbatch, hvalid, hsize⟩ := hretry.batch hbase hmax
    refine ⟨batch, batch.bytes, hbatch, hvalid.encodeRecordBatch, ?_⟩
    rw [hvalid.length_bytes]
    exact hsize
  · obtain ⟨layout, hrep, hwrote⟩ : ∃ layout, Rep options.normalized store layout ∧
        List.Forall₂ Appended.Wrote acked layout.batches := by
      rcases hreaches with hreaches | hreaches
      · obtain ⟨-, -, layout, htracks, -⟩ := hreaches.tracks
        exact ⟨layout, htracks.rep, htracks.wrote⟩
      · exact hreaches.wrote
    obtain ⟨batch, hbatch, hmade⟩ := exists_related hwrote hmem
    obtain ⟨hbase, hend, -⟩ := Appended.Wrote.batch_eq hmade
    have hcontents := (makeRecordBatch_eq_ok hmade).2.2.2
    rw [hrecords] at hcontents hend
    refine ⟨batch, stored.sealed, hrep.read_small (hretries.small hrep hwrote) hbatch hbase.le ?_, hcontents, ?_⟩
    · rw [hend]
      exact Int.lt_succ _
    · rw [decodeRetryRecord_content stored.content_sealed]
      exact hdecode

/-- A record that was rejected once. -/
def busyRecord : ProtocolRecord :=
  { timestamp := 7
    key := text "k"
    value := text "v"
    retry := some
      { retryCount := 1
        nextVisibleTime := 5000
        originalTopic := text "orders"
        failureReason := text "busy"
        originalPartition := 0
        originalOffset := 3 } }

theorem retryRecord_round_trip_once : ∃ stored, encodeRetryRecord busyRecord = .ok stored ∧
    decodeRetryRecord stored = .ok busyRecord := by
  have hencoded : (encodeRetryRecord busyRecord).toOption.isSome = true := by decide +kernel
  obtain ⟨stored, hstored⟩ := Option.isSome_iff_exists.mp hencoded
  have hok := Result.toOption_eq_some.mp hstored
  refine ⟨stored, hok, (retryRecord_round_trip (fun retry hretry => ?_) hok).1⟩
  cases hretry
  exact ⟨by decide, by decide⟩

end LogMq
