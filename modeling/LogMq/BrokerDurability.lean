import LogMq.BrokerMoves
import LogMq.BrokerDelivery

/-! What survives crashes. A partition whose log was flushed keeps every batch it had then, in whatever order requests,
restarts and crashes follow; so a record that was acknowledged under synchronous flushes can be fetched ever after, and
its offset is never given to another one. -/

namespace LogMq

open TopicManager

/-! ### Sheltered partitions -/

/-- The log of the partition goes as far as the offset, and no crash can take that back. -/
def TopicManager.Covers (manager : TopicManager) (topic : Bytes) (id : Nat) (offset : Int) : Prop :=
  ∃ store, manager.store? topic id = some store ∧ offset ≤ store.log.nextOffset ∧
    store.Shelters (manager.files.flushed topic id) offset

namespace TopicManager.Covers

variable {before after loaded : TopicManager} {intact : Prop} {held : Holdings} {topic : Bytes} {id : Nat} {offset : Int}
  {options : TopicManagerOptions}

theorem setStore_of_ne (h : before.Covers topic id offset) {other : Bytes} {i : Nat} (hne : ¬ (topic = other ∧ id = i))
    (store : Store) : (before.setStore other i store).Covers topic id offset := by
  obtain ⟨found, hfound, hle, hshelters⟩ := h
  refine ⟨found, (store?_setStore_of_ne hne).trans hfound, hle, ?_⟩
  unfold TopicManager.setStore
  split <;> exact hshelters

theorem setStore_self {old store : Store} (hold : before.store? topic id = some old)
    (hle : offset ≤ store.log.nextOffset) (hshelters : store.Shelters (before.files.flushed topic id) offset) :
    (before.setStore topic id store).Covers topic id offset := by
  refine ⟨store, store?_setStore_self hold, hle, ?_⟩
  unfold TopicManager.setStore
  split <;> exact hshelters

/-- A flush of the partition covers all of its log. -/
theorem flushed {store : Store} (hstore : before.store? topic id = some store) {failure : Option Status}
    (hflush : (before.flushPartition topic id failure).1 = .ok ()) (hle : offset ≤ store.log.nextOffset) :
    (before.flushPartition topic id failure).2.Covers topic id offset := by
  unfold flushPartition at hflush ⊢
  rw [hstore] at hflush ⊢
  dsimp only at hflush ⊢
  cases hresult : store.flush failure with
  | mk result synced =>
      rw [hresult] at hflush
      cases result with
      | error status => cases hflush
      | ok _ =>
          obtain ⟨hlog, -⟩ := flush_store hresult
          refine ⟨synced, store?_setStore_self hstore, by rw [hlog]; exact hle, fun kept hmark => ?_⟩
          refine Store.keepsBelow_of_le (fun active hactive => hmark active _ hactive ?_) offset
          change (if topic = topic ∧ id = id then synced.log.segments.getLast?.map
            fun segment => (segment.baseOffset, segment.writePosition) else _) = _
          rw [if_pos ⟨rfl, rfl⟩, hactive]
          rfl

/-- The mark of another partition does not matter. -/
theorem flushed_of_ne (h : before.Covers topic id offset) {other : Bytes} {i : Nat} (hne : ¬ (topic = other ∧ id = i))
    (failure : Option Status) : (before.flushPartition other i failure).2.Covers topic id offset := by
  unfold flushPartition
  split
  · exact h
  split
  · exact h
  · rename_i store hstore _ synced hflush
    obtain ⟨found, hfound, hle, hshelters⟩ := h.setStore_of_ne hne synced
    refine ⟨found, hfound, hle, ?_⟩
    change found.Shelters (if topic = other ∧ id = i then _ else _) offset
    rw [if_neg hne]
    exact hshelters

/-- **Every change** of the topics leaves the partition covered. -/
theorem move (h : before.Covers topic id offset) (hholds : before.Holds intact held) (hmove : TopicMove before after) :
    after.Covers topic id offset := by
  have hcovers := h
  obtain ⟨store, hstore, hle, hshelters⟩ := hcovers
  cases hmove with
  | select other requested key =>
      have hsame := @selectPartition_same before other requested key
      exact ⟨store, (hsame.store? topic id).trans hstore, hle, by rw [hsame.files]; exact hshelters⟩
  | create other count faults =>
      obtain ⟨-, hflushed, -, -, hkept, -⟩ := @createTopic_frame before other count faults
      exact ⟨store, hkept topic id store hstore, hle, by rw [hflushed]; exact hshelters⟩
  | @append other i found hfound records faults =>
      by_cases hplace : topic = other ∧ id = i
      · obtain ⟨rfl, rfl⟩ := hplace
        cases hstore.symm.trans hfound
        have hcarries := hholds.carries hstore
        refine .setStore_self hstore ?_ (hcarries.shelters_append hshelters hle records faults)
        rcases hcarries.append records faults with ⟨_, -, hsame⟩ | ⟨_, batch, -, -, -, hgrown⟩
        · rw [hsame.chain.stop_unique hcarries.chain]
          exact hle
        · obtain ⟨mid, hleft, hright⟩ := chain_append.mp hgrown.chain
          rw [hleft.stop_unique hcarries.chain] at hright
          exact hle.trans hright.le
      · exact h.setStore_of_ne hplace _
  | flush other i failure =>
      by_cases hplace : topic = other ∧ id = i
      · obtain ⟨rfl, rfl⟩ := hplace
        cases hresult : (before.flushPartition topic id failure).1 with
        | ok _ => exact .flushed hstore hresult hle
        | error status =>
            unfold flushPartition at hresult ⊢
            rw [hstore] at hresult ⊢
            dsimp only at hresult ⊢
            cases hflush : store.flush failure with
            | mk result synced =>
                rw [hflush] at hresult
                cases result with
                | error _ => exact h
                | ok _ => cases hresult
      · exact h.flushed_of_ne hplace failure

/-- A round of flushes covers the partitions that it reaches. -/
theorem flush (hholds : before.Holds intact held) {flushed : List (Bytes × Nat)} (hmem : (topic, id) ∈ flushed)
    {store : Store} (hstore : before.store? topic id = some store) (hle : offset ≤ store.log.nextOffset) :
    (before.flush flushed).Covers topic id offset := by
  induction flushed generalizing before store with
  | nil => exact absurd hmem List.not_mem_nil
  | cons place rest ih =>
      have hfirst := hholds.flushPartition place.1 place.2 none
      have hwhole : before.flush (place :: rest) = (before.flushPartition place.1 place.2 none).2.flush rest := rfl
      rw [hwhole]
      by_cases hplace : place = (topic, id)
      · subst hplace
        have hresult : (before.flushPartition topic id none).1 = .ok () := by
          obtain ⟨layout, hrep, -⟩ := hholds.carries hstore
          unfold flushPartition Store.flush
          rw [hstore]
          dsimp only
          rw [if_neg (by rw [hrep.opened]; exact Bool.false_ne_true)]
        refine @TopicMoves.keeps (fun manager => manager.Covers topic id offset)
          (fun hholds hmove hcovers => hcovers.move hholds hmove) _ _ (.flush _ rest) _ (hfirst.mono False.elim) ?_
        exact .flushed hstore hresult hle
      · have hlogs := (@flushPartition_frame before place.1 place.2 none).2.2 topic id
        rw [hstore, Option.map_some] at hlogs
        obtain ⟨found, hfound, hlog⟩ := Option.map_eq_some_iff.mp hlogs
        exact ih hfirst ((List.mem_cons.mp hmem).resolve_left (Ne.symm hplace)) hfound (by rw [hlog]; exact hle)

/-- **A restart** leaves the partition covered. -/
theorem restart (h : before.Covers topic id offset) (hholds : before.Holds intact held) (hintact : intact)
    (hinterval : options.indexIntervalBytes = 4 * 1024) (hload : TopicManager.load options before.close = .ok loaded) :
    loaded.Covers topic id offset := by
  obtain ⟨store, hstore, hle, hshelters⟩ := h
  obtain ⟨hloaded, -, hflushed, hcount⟩ := (hholds.opens_close hintact hinterval).reload hholds hinterval hload
  obtain ⟨count, hfound, hid⟩ := lt_count hstore
  obtain ⟨store', hstore'⟩ := exists_store? ((hcount topic).trans hfound) hid
  have hopen := (OpenedFrom.load hload).opened topic id store' hstore'
  have hlogs : (before.close.partitions topic id).logs = store.disk.logs := by
    obtain ⟨found, -, -, hdisk⟩ := store?_eq_some.mp hstore
    rw [before.close_logs, hdisk]
  refine ⟨store', hstore', ?_, ?_⟩
  · rw [(hloaded.carries hstore').chain.stop_unique (hholds.carries hstore).chain]
    exact hle
  · rw [hflushed]
    exact (hholds.carries hstore).shelters_reopen hintact hlogs hopen hshelters

/-- **A crash** that keeps the flushed bytes leaves the partition covered. -/
theorem crash (h : before.Covers topic id offset) (hholds : before.Holds intact held) (hintact : intact)
    (hinterval : options.indexIntervalBytes = 4 * 1024) {kept : Bytes → Nat → Nat} (hlose : before.CanLose kept)
    (hload : TopicManager.load options (before.crash kept) = .ok loaded) : loaded.Covers topic id offset := by
  obtain ⟨store, hstore, hle, hshelters⟩ := h
  obtain ⟨later, hopens, -, hends⟩ := hholds.opens_crash hintact hinterval kept
  obtain ⟨hloaded, hoptions, hflushed, hcount⟩ := hopens.reload hholds hinterval hload
  obtain ⟨count, hfound, hid⟩ := lt_count hstore
  have hcounted := (hcount topic).trans hfound
  obtain ⟨store', hstore'⟩ := exists_store? hcounted hid
  have hopen := (OpenedFrom.load hload).opened topic id store' hstore'
  have hcut : (before.crash kept).partitions topic id = store.cut (kept topic id) := by
    unfold TopicManager.crash
    dsimp only
    rw [hstore]
  have hkept := hshelters (kept topic id) fun active bytes => hlose topic id store active bytes hstore
  refine ⟨store', hstore', ?_, ?_⟩
  · have hsize := hloaded.sized hcounted
    rw [hoptions] at hsize
    exact hends hsize hstore offset hle hkept _ (hloaded.carries hstore').chain
  · rw [hcut] at hopen
    rw [hflushed]
    exact (hholds.carries hstore).shelters_cut hintact hopen hshelters

end TopicManager.Covers

/-! ### Runs with crashes -/

section Runs

variable {queue : TaskQueue} {allowed : BrokerService → (Bytes → Nat → Nat) → Prop} {system later : System}
  {held : Holdings}

/-- Every request lets the topics grow. -/
theorem handle_grows {broker : BrokerService} {intact : Bool} (h : broker.topics.Holds (intact = true) held)
    (environment : Environment) (envelope : RequestEnvelope) :
    ∃ grown, Grows broker.topics (broker.handle queue environment envelope).2.topics
      ((intact && environment.faultless) = true) held grown := by
  have hsame : Grows broker.topics broker.topics ((intact && environment.faultless) = true) held held :=
    .refl (h.mono Environment.faultless_intact)
  refine @BrokerService.handle_cases queue environment broker (fun later => ∃ grown, Grows broker.topics later.topics
    ((intact && environment.faultless) = true) held grown) envelope (fun _ => ⟨held, hsame⟩)
    (fun request _ => handleNack_grows h request) (handleProduce_grows h)
    (fun request => ⟨held, handleCreateTopic_grows h request⟩) fun request => ?_
  unfold BrokerService.handleCommitOffset
  split <;> exact ⟨held, hsame⟩

/-- What is known of a partition for good: it begins with these batches, and no crash can take them back. -/
structure Durable (system : System) (topic : Bytes) (id : Nat) (kept : List RecordBatch) (stop : Int) : Prop where
  held : ∃ held, system.broker.topics.Holds (system.intact = true) held ∧ kept <+: held topic id
  chain : Chain 0 kept stop
  covers : system.broker.topics.Covers topic id stop

/-- Two chains that begin with the same batches. -/
theorem Chain.prefix_of_le {left right whole : List RecordBatch} {start middle stop : Int}
    (hleft : Chain start left middle) (hright : Chain start right stop) (hle : middle ≤ stop) (h : left <+: whole)
    (h' : right <+: whole) : left <+: right := by
  rcases List.prefix_or_prefix_of_prefix h h' with hbegins | ⟨more, rfl⟩
  · exact hbegins
  · obtain ⟨mid, hbefore, hafter⟩ := chain_append.mp hleft
    rw [hbefore.stop_unique hright] at hafter
    have hnil : more = [] := by
      by_contra hne
      exact absurd (hafter.lt hne) (not_lt.mpr hle)
    rw [hnil, List.append_nil]

namespace Durable

variable {topic : Bytes} {id : Nat} {kept : List RecordBatch} {stop : Int}

/-- The topics change step by step. -/
theorem move (h : Durable system topic id kept stop) (hmoves : TopicMoves system.broker.topics later.broker.topics)
    (hgrows : ∀ {held}, system.broker.topics.Holds (system.intact = true) held →
      ∃ grown, Grows system.broker.topics later.broker.topics (later.intact = true) held grown) :
    Durable later topic id kept stop := by
  obtain ⟨held, hholds, hbegins⟩ := h.held
  obtain ⟨grown, hgrown⟩ := hgrows hholds
  refine ⟨⟨grown, hgrown.holds, hbegins.trans (hgrown.grown topic id)⟩, h.chain, ?_⟩
  exact @TopicMoves.keeps (fun manager => manager.Covers topic id stop)
    (fun hholds hmove hcovers => hcovers.move hholds hmove) _ _ hmoves _ (hholds.mono False.elim) h.covers

/-- A new broker on a directory whose logs hold no less than these batches. -/
theorem started (h : Durable system topic id kept stop) {directory : DataDirectory} {options : BrokerServiceOptions}
    {now : UInt64} {broker : BrokerService} {held opened : Holdings}
    (hholds : system.broker.topics.Holds (system.intact = true) held) (hbegins : kept <+: held topic id)
    (hopens : Opens system.broker.topics options.storage.topicManager directory.topics opened)
    (hopened : opened topic id <+: held topic id)
    (hcovers : ∀ loaded, TopicManager.load options.storage.topicManager directory.topics = .ok loaded →
      loaded.Covers topic id stop)
    (hstart : BrokerService.start queue options directory now = .ok broker) :
    Durable ⟨broker, true⟩ topic id kept stop := by
  obtain ⟨-, topics, tasks, hload, -, rfl⟩ := BrokerService.start_ok.mp hstart
  obtain ⟨hloaded, -⟩ := hopens.reload hholds rfl hload
  obtain ⟨store, hstore, hle, hshelters⟩ := hcovers topics hload
  refine ⟨⟨opened, hloaded.mono fun _ => trivial, ?_⟩, h.chain, store, hstore, hle, hshelters⟩
  exact h.chain.prefix_of_le (hloaded.carries hstore).chain hle hbegins hopened

/-- **One step** of a run leaves the partition what is known of it. -/
theorem ofStep (h : Durable system topic id kept stop) (hstep : CrashStep queue allowed system later) :
    Durable later topic id kept stop := by
  obtain ⟨held, hholds, hbegins⟩ := h.held
  cases hstep with
  | @crash hintact lost hlose hallowed options now broker hstart =>
      obtain ⟨opened, hopens, hopened, -⟩ := @Holds.opens_crash _ _ _ hholds hintact options.storage.topicManager rfl lost
      exact h.started hholds hbegins hopens (hopened topic id)
        (fun loaded hload => h.covers.crash hholds hintact rfl hlose hload) hstart
  | step hstep =>
      cases hstep with
      | request htyped hallowed => exact h.move (TopicMoves.handle _) fun hholds => handle_grows hholds _ _
      | wake now => exact h.move .refl fun hholds => ⟨_, .refl hholds⟩
      | flush flushed => exact h.move (.flush _ flushed) fun hholds => ⟨_, .flush hholds flushed⟩
      | expire now => exact h.move .refl fun hholds => ⟨_, .refl hholds⟩
      | @restart hintact options hoptions now broker hstart =>
          exact h.started hholds hbegins (hholds.opens_close hintact rfl) (List.prefix_refl _)
            (fun loaded hload => h.covers.restart hholds hintact rfl hload) hstart

theorem follows (h : Durable system topic id kept stop)
    (hfollows : Relation.ReflTransGen (CrashStep queue allowed) system later) : Durable later topic id kept stop := by
  induction hfollows with
  | refl => exact h
  | tail _ hstep ih => exact ih.ofStep hstep

/-- What is known of a partition can be read. -/
theorem read (h : Durable system topic id kept stop) {batch : RecordBatch} (hmem : batch ∈ kept) {offset : Int}
    (hle : batch.baseOffset ≤ offset) (hlt : offset < batch.endOffset) {maxBytes : Nat}
    (hsize : batch.batchBytes ≤ maxBytes) (hinterval : 4 * 1024 ≤ maxBytes) :
    ∃ store, system.broker.topics.store? topic id = some store ∧ batch.endOffset ≤ store.log.nextOffset ∧
      store.read offset maxBytes = .ok batch := by
  obtain ⟨held, hholds, hbegins⟩ := h.held
  obtain ⟨store, hstore, -⟩ := h.covers
  have hcarries := hholds.carries hstore
  have hheld := hbegins.mem hmem
  refine ⟨store, hstore, (hcarries.chain.bounds hheld).2, hcarries.read_complete hheld hle hlt hsize ?_⟩
  rw [TopicManagerOptions.log, hholds.interval]
  exact hinterval

/-- It can be fetched from an ordinary topic. -/
theorem fetch {request : FetchRequest} (h : Durable system request.topic request.partitionId.toNat kept stop)
    (hordinary : isInternalTopic request.topic = false) (hpartition : 0 ≤ request.partitionId) {batch : RecordBatch}
    (hmem : batch ∈ kept) (hle : batch.baseOffset ≤ request.offset) (hlt : request.offset < batch.endOffset)
    (hsize : batch.batchBytes ≤ request.maxBytes.toNat) (hinterval : 4 * 1024 ≤ request.maxBytes.toNat)
    (version : UInt16) :
    ∃ watermark, system.broker.handleFetch version request =
      .ok ⟨batch.baseOffset, watermark, batch.records.map toProtocolRecord⟩ := by
  obtain ⟨store, hstore, hend, hread⟩ := h.read hmem hle hlt hsize hinterval
  have hbase := (h.chain.valid batch hmem).base_nonneg
  have hmark : system.broker.highWatermark request.topic request.partitionId store = store.log.nextOffset := by
    rw [BrokerService.highWatermark, (isInternalTopic_eq_false.mp hordinary).1, if_neg Bool.false_ne_true]
  have hpositive : request.maxBytes ≠ 0 := by
    intro hzero
    rw [hzero] at hinterval
    exact absurd hinterval (by decide)
  have hbudget : store.read request.offset (BrokerService.readBudget request) = .ok batch := by
    rw [BrokerService.readBudget, hordinary, if_neg Bool.false_ne_true]
    exact hread
  exact ⟨_, BrokerService.handleFetch_ok.mpr ⟨hbase.trans hle, hpositive, store, hpartition, hstore, by omega,
    Or.inr ⟨by rw [hmark]; omega, batch, _, hbudget, BrokerService.fetchRecords_ordinary hordinary _, rfl⟩⟩⟩

end Durable

end Runs

/-! ### Acknowledged records -/

section Acknowledged

variable {queue : TaskQueue} {environment : Environment} {broker : BrokerService} {request : ProduceRequest}
  {acknowledged : ProduceResponse}

/-- What an acknowledged Produce has done to the topics. -/
theorem BrokerService.handleProduce_ok (h : (broker.handleProduce environment request).1 = .ok acknowledged) :
    isInternalTopic request.topic = false ∧ 0 ≤ acknowledged.partitionId ∧ ∃ topics store grown result,
      Same broker.topics topics ∧ topics.store? request.topic acknowledged.partitionId.toNat = some store ∧
      store.append (request.records.map toStorageRecord) environment.append = (.ok result, grown) ∧
      acknowledged.baseOffset = result.baseOffset ∧
      broker.flushAppended environment (topics.setStore request.topic acknowledged.partitionId.toNat grown)
        request.topic acknowledged.partitionId.toNat =
          (.ok (), (broker.handleProduce environment request).2.topics) := by
  unfold BrokerService.handleProduce at h ⊢
  by_cases hinternal : isInternalTopic request.topic = true
  · rw [if_pos hinternal] at h
    cases h
  rw [if_neg hinternal] at h ⊢
  split at h
  · cases h
  rename_i first rest hrecords
  rw [hrecords] at h ⊢
  dsimp only at h ⊢
  have hsame := @selectPartition_same broker.topics request.topic request.partitionId first.key
  cases hselect : broker.topics.selectPartition request.topic request.partitionId first.key with
  | mk selection topics =>
      rw [hselect] at h hsame
      cases selection with
      | error status => cases h
      | ok found =>
          obtain ⟨selected, store⟩ := found
          obtain ⟨hselected, hstore⟩ := selectPartition_ok (by rw [hselect])
          rw [← hsame.store?] at hstore
          dsimp only at h ⊢
          cases happend : store.append ((first :: rest).map toStorageRecord) environment.append with
          | mk outcome grown =>
              rw [happend] at h
              cases outcome with
              | error status => cases h
              | ok result =>
                  dsimp only at h ⊢
                  obtain ⟨_, hflushed, h⟩ := Result.bind_eq_ok.mp h
                  cases Result.pure_eq_ok.mp h
                  refine ⟨Bool.eq_false_of_not_eq_true hinternal, hselected, topics, store, grown, result, hsame, hstore,
                    happend, rfl, ?_⟩
                  exact Prod.ext hflushed rfl

/-- **Acknowledged under synchronous flushes** the records are the last batch of a partition that is covered. -/
theorem Durable.produced {intact : Bool} {held : Holdings} (h : broker.topics.Holds (intact = true) held)
    (hacknowledged : (broker.handleProduce environment request).1 = .ok acknowledged)
    (hsync : broker.options.storage.flushPolicy = .sync) :
    ∃ batch, batch.baseOffset = acknowledged.baseOffset ∧
      batch.records = request.records.map (fun record => (toStorageRecord record).sealed) ∧
      Durable ⟨(broker.handleProduce environment request).2, intact && environment.faultless⟩ request.topic
        acknowledged.partitionId.toNat (held request.topic acknowledged.partitionId.toNat ++ [batch]) batch.endOffset := by
  obtain ⟨-, -, topics, store, grown, result, hsame, hstore, happend, hbase, hflushed⟩ :=
    BrokerService.handleProduce_ok hacknowledged
  have happended := (h.same hsame).append hstore (request.records.map toStorageRecord) environment.append
  rw [happend] at happended
  rcases happended with ⟨_, herror, -⟩ | ⟨_, batch, hok, hnext, hbatch, hholds⟩
  · cases herror
  cases hok
  obtain ⟨-, hstart, -, hrecords⟩ := makeRecordBatch_eq_ok hbatch
  have hholds := hholds.mono (@Environment.faultless_append environment intact)
  have hgrown := hholds.carries (store?_setStore_self hstore)
  rw [Holdings.set_self] at hgrown
  have hchain : Chain 0 (held request.topic acknowledged.partitionId.toNat ++ [batch]) batch.endOffset := by
    obtain ⟨mid, hleft, hvalid, hmid, -⟩ := chain_append.mp hgrown.chain
    exact chain_append.mpr ⟨mid, hleft, hvalid, hmid, rfl⟩
  have hafter := @BrokerService.flushAppended_holds environment broker _ _ _ hholds request.topic
    acknowledged.partitionId.toNat
  rw [hflushed] at hafter
  refine ⟨batch, by rw [hstart, hbase, hnext], by rw [hrecords, List.map_map]; rfl,
    ⟨_, hafter, by rw [Holdings.set_self]⟩, hchain, ?_⟩
  have hcovered : (broker.flushAppended environment (topics.setStore request.topic acknowledged.partitionId.toNat grown)
      request.topic acknowledged.partitionId.toNat).2.Covers request.topic acknowledged.partitionId.toNat
        batch.endOffset := by
    unfold BrokerService.flushAppended at hflushed ⊢
    rw [if_pos hsync] at hflushed ⊢
    refine .flushed (store?_setStore_self hstore) ?_ (hchain.stop_unique hgrown.chain).le
    exact Result.orReply_ok.mp (congrArg Prod.fst hflushed)
  rw [hflushed] at hcovered
  exact hcovered

/-- A Produce is given the offsets from the end of the log on. -/
theorem BrokerService.handleProduce_base {intact : Prop} {held : Holdings} (h : broker.topics.Holds intact held)
    (hacknowledged : (broker.handleProduce environment request).1 = .ok acknowledged) :
    ∃ store, broker.topics.store? request.topic acknowledged.partitionId.toNat = some store ∧
      acknowledged.baseOffset = store.log.nextOffset := by
  obtain ⟨-, -, topics, store, grown, result, hsame, hstore, happend, hbase, -⟩ := handleProduce_ok hacknowledged
  have happended := (h.same hsame).append hstore (request.records.map toStorageRecord) environment.append
  rw [happend] at happended
  rcases happended with ⟨_, herror, -⟩ | ⟨_, batch, hok, hnext, -, -⟩
  · cases herror
  · cases hok
    exact ⟨store, (hsame.store? _ _).symm.trans hstore, hbase.trans hnext⟩

/-- Every state of a run with crashes holds some batches. -/
theorem CrashReaches.holds {system : System} {allowed : BrokerService → (Bytes → Nat → Nat) → Prop}
    (h : CrashReaches queue allowed system) : ∃ held, system.broker.topics.Holds (system.intact = true) held := by
  obtain ⟨options, now, broker, hstart, hreach⟩ := h
  induction hreach with
  | refl => exact ⟨_, (CommitInvariant.initial hstart).holds⟩
  | tail _ hstep ih =>
      obtain ⟨held, hholds⟩ := ih
      cases hstep with
      | @crash hintact kept hlose hallowed options now broker hstart =>
          obtain ⟨opened, hopens, -⟩ := @Holds.opens_crash _ _ _ hholds hintact options.storage.topicManager rfl kept
          obtain ⟨-, topics, tasks, hload, -, rfl⟩ := BrokerService.start_ok.mp hstart
          exact ⟨opened, (hopens.reload hholds rfl hload).1.mono fun _ => trivial⟩
      | step hstep =>
          cases hstep with
          | request htyped hallowed =>
              obtain ⟨grown, hgrows⟩ := handle_grows hholds _ _
              exact ⟨grown, hgrows.holds⟩
          | wake now => exact ⟨held, hholds⟩
          | flush flushed => exact ⟨held, (Grows.flush hholds flushed).holds⟩
          | expire now => exact ⟨held, hholds⟩
          | @restart hintact options hoptions now broker hstart =>
              obtain ⟨-, topics, tasks, hload, -, rfl⟩ := BrokerService.start_ok.mp hstart
              exact ⟨held, ((hholds.opens_close hintact rfl).reload hholds rfl hload).1.mono fun _ => trivial⟩

end Acknowledged

section Survival

variable {queue : TaskQueue} {system later : System} {environment : Environment} {request : ProduceRequest}
  {acknowledged : ProduceResponse}

/-- **Durability.** Under synchronous flushes an acknowledged record can be fetched ever after, by a Fetch with room for
its batch and for what one index entry may skip, whatever requests, restarts and crashes follow. -/
theorem acknowledged_survives (h : CrashReaches queue (fun _ _ => True) system)
    (hsync : system.broker.options.storage.flushPolicy = .sync)
    (hacknowledged : (system.broker.handleProduce environment request).1 = .ok acknowledged)
    (hlater : Relation.ReflTransGen (CrashStep queue fun _ _ => True)
      ⟨(system.broker.handleProduce environment request).2, system.intact && environment.faultless⟩ later)
    {index : Nat} (hindex : index < request.records.length) {maxBytes : UInt32}
    (hbudget : recordBatchHeaderBytes + (payloadOf (request.records.map toStorageRecord)).length ≤ maxBytes.toNat)
    (hinterval : 4 * 1024 ≤ maxBytes.toNat) (version : UInt16) :
    ∃ watermark, later.broker.handleFetch version
        ⟨request.topic, acknowledged.partitionId, acknowledged.baseOffset + index, maxBytes⟩ =
      .ok ⟨acknowledged.baseOffset, watermark, request.records.map ProtocolRecord.dropRetry⟩ := by
  obtain ⟨held, hholds⟩ := h.holds
  obtain ⟨hordinary, hpartition, -⟩ := BrokerService.handleProduce_ok hacknowledged
  obtain ⟨batch, hbase, hrecords, hdurable⟩ := Durable.produced hholds hacknowledged hsync
  have hlast := hdurable.follows hlater
  have hmem := List.mem_append_right (held request.topic acknowledged.partitionId.toNat) (List.mem_singleton_self batch)
  have hvalid := hlast.chain.valid batch hmem
  have hcount : batch.recordCount = request.records.length := by rw [hvalid.count_eq, hrecords, List.length_map]
  have hsealed : batch.records = (request.records.map toStorageRecord).map Record.sealed := by
    rw [hrecords, List.map_map]
    rfl
  have hend : acknowledged.baseOffset + index < batch.endOffset := by
    rw [RecordBatch.endOffset, hcount, hbase]
    omega
  obtain ⟨watermark, hfetch⟩ := @Durable.fetch later _ _
    ⟨request.topic, acknowledged.partitionId, acknowledged.baseOffset + index, maxBytes⟩ hlast hordinary hpartition batch
    hmem (by dsimp only; omega) hend (by rw [hvalid.size_eq, hsealed, payloadOf_sealed]; exact hbudget) hinterval version
  refine ⟨watermark, hfetch.trans ?_⟩
  rw [hbase, hrecords, List.map_map]
  rfl

/-- **Offsets are not given twice.** Whatever follows an acknowledged Produce under synchronous flushes, no later Produce
to the partition is given one of its offsets. -/
theorem offsets_not_reused (h : CrashReaches queue (fun _ _ => True) system)
    (hsync : system.broker.options.storage.flushPolicy = .sync)
    (hacknowledged : (system.broker.handleProduce environment request).1 = .ok acknowledged)
    (hlater : Relation.ReflTransGen (CrashStep queue fun _ _ => True)
      ⟨(system.broker.handleProduce environment request).2, system.intact && environment.faultless⟩ later)
    {other : Environment} {next : ProduceRequest} {following : ProduceResponse}
    (hfollowing : (later.broker.handleProduce other next).1 = .ok following) (htopic : next.topic = request.topic)
    (hsame : following.partitionId = acknowledged.partitionId) :
    acknowledged.baseOffset + request.records.length ≤ following.baseOffset := by
  obtain ⟨held, hholds⟩ := h.holds
  obtain ⟨batch, hbase, hrecords, hdurable⟩ := Durable.produced hholds hacknowledged hsync
  have hlast := hdurable.follows hlater
  have hmem := List.mem_append_right (held request.topic acknowledged.partitionId.toNat) (List.mem_singleton_self batch)
  have hvalid := hlast.chain.valid batch hmem
  have hcount : batch.recordCount = request.records.length := by rw [hvalid.count_eq, hrecords, List.length_map]
  obtain ⟨held', hholds', -⟩ := hlast.held
  obtain ⟨store, hstore, hle, -⟩ := hlast.covers
  obtain ⟨found, hfound, hnext⟩ := BrokerService.handleProduce_base hholds' hfollowing
  rw [htopic, hsame, hstore] at hfound
  cases hfound
  rw [RecordBatch.endOffset, hcount, hbase] at hle
  omega

/-- **Flushes.** What a partition held when it was flushed can be read ever after, with room for what one index entry
may skip. -/
theorem flushed_survives (h : CrashReaches queue (fun _ _ => True) system) {topic : Bytes} {id : Nat}
    {flushed : List (Bytes × Nat)} (hflushed : (topic, id) ∈ flushed)
    (hlater : Relation.ReflTransGen (CrashStep queue fun _ _ => True)
      { system with broker := system.broker.flush flushed } later)
    {store : Store} (hstore : system.broker.topics.store? topic id = some store) {offset : Int} {maxBytes : Nat}
    {batch : RecordBatch} (hread : store.read offset maxBytes = .ok batch) (hinterval : 4 * 1024 ≤ maxBytes) :
    ∃ last, later.broker.topics.store? topic id = some last ∧ store.log.nextOffset ≤ last.log.nextOffset ∧
      last.read offset maxBytes = .ok batch := by
  obtain ⟨held, hholds⟩ := h.holds
  have hcarries := hholds.carries hstore
  obtain ⟨hmem, hle, hlt, hsize⟩ := hcarries.read_sound hread
  have hdurable : Durable { system with broker := system.broker.flush flushed } topic id (held topic id)
      store.log.nextOffset :=
    ⟨⟨held, (Grows.flush hholds flushed).holds, List.prefix_refl _⟩, hcarries.chain, .flush hholds hflushed hstore le_rfl⟩
  have hlast := hdurable.follows hlater
  obtain ⟨last, hfound, hreads⟩ := hlast.read hmem hle hlt hsize hinterval
  obtain ⟨same, hsame, hcovered, -⟩ := hlast.covers
  cases hfound.symm.trans hsame
  exact ⟨last, hfound, hcovered, hreads.2⟩

/-- **What a crash takes.** The topics and the committed offsets are still there, and what can be read afterwards was
there before: a log may have lost its end, nothing else. -/
theorem crash_takes_ends (h : CrashReaches queue (fun _ _ => True) system) (hintact : system.intact = true)
    {kept : Bytes → Nat → Nat} {options : BrokerServiceOptions} {now : UInt64} {broker : BrokerService}
    (hstart : BrokerService.start queue options (system.broker.crash kept) now = .ok broker) :
    (∀ topic, broker.topics.count? topic = system.broker.topics.count? topic) ∧
      broker.offsets.offsets = system.broker.offsets.files ∧
      ∀ topic id last, broker.topics.store? topic id = some last → ∃ store,
        system.broker.topics.store? topic id = some store ∧ last.log.nextOffset ≤ store.log.nextOffset ∧
          ∀ offset < last.log.nextOffset, ∀ maxBytes, 4 * 1024 ≤ maxBytes → ∀ batch,
            last.read offset maxBytes = .ok batch ↔ store.read offset maxBytes = .ok batch := by
  obtain ⟨held, hholds⟩ := h.holds
  obtain ⟨opened, hopens, hbegins, -⟩ := @Holds.opens_crash _ _ _ hholds hintact options.storage.topicManager rfl kept
  obtain ⟨-, topics, tasks, hload, -, rfl⟩ := BrokerService.start_ok.mp hstart
  obtain ⟨hloaded, -, -, hcount⟩ := hopens.reload hholds rfl hload
  refine ⟨hcount, rfl, fun topic id last hlast => ?_⟩
  obtain ⟨count, hfound, hid⟩ := lt_count hlast
  obtain ⟨store, hstore⟩ := exists_store? ((hcount topic).symm.trans hfound) hid
  have hcarries := hholds.carries hstore
  have hleft := hloaded.carries hlast
  refine ⟨store, hstore, ?_, fun offset hoffset maxBytes hinterval batch => ⟨fun hread => ?_, fun hread => ?_⟩⟩
  · have hchain := hcarries.chain
    obtain ⟨more, hmore⟩ := hbegins topic id
    rw [← hmore] at hchain
    obtain ⟨mid, hbefore, hafter⟩ := chain_append.mp hchain
    rw [hbefore.stop_unique hleft.chain] at hafter
    exact hafter.le
  · obtain ⟨hmem, hle, hlt, hsize⟩ := hleft.read_sound hread
    refine hcarries.read_complete ((hbegins topic id).mem hmem) hle hlt hsize ?_
    rw [TopicManagerOptions.log, hholds.interval]
    exact hinterval
  · obtain ⟨hmem, hle, hlt, hsize⟩ := hcarries.read_sound hread
    have hzero := ((hcarries.chain.valid batch hmem).base_nonneg).trans hle
    obtain ⟨before, found, after, hsplit, hfoundLe, hfoundLt⟩ := hleft.chain.exists_batch hzero hoffset
    have hfound : found ∈ opened topic id := by simp [hsplit]
    cases hcarries.chain.eq_of_contains hmem ((hbegins topic id).mem hfound) ⟨hle, hlt⟩ ⟨hfoundLe, hfoundLt⟩
    refine hleft.read_complete hfound hle hlt hsize ?_
    rw [TopicManagerOptions.log, hloaded.interval]
    exact hinterval

end Survival

/-! ### A crash -/

/-- A broker that flushes after every append, with one topic. -/
def syncTopic : System :=
  System.serve .inOrder ⟨.fresh { storage := { flushPolicy := .sync } } 1, true⟩
    [({}, ⟨.createTopic, 1, 0, .createTopic ⟨text "a", 1⟩⟩)]

theorem crashReaches_syncTopic : CrashReaches .inOrder (fun _ _ => True) syncTopic :=
  (BrokerReaches.serve trivial (show RetryOptions.Accepted {} by decide) (fun _ _ => trivial) (by decide)).crashReaches

/-- A record is produced. -/
def producedSync : BrokerService := (syncTopic.broker.handleProduce {} ⟨text "a", 0, [{ value := text "v" }]⟩).2

/-- The broker that is started after a crash that left only what had been flushed. -/
theorem crashed_producedSync : ∃ broker,
    BrokerService.start .inOrder {} (producedSync.crash producedSync.flushedBytes) 1 = .ok broker ∧
      Relation.ReflTransGen (CrashStep .inOrder fun _ _ => True) ⟨producedSync, true⟩ ⟨broker, true⟩ := by
  have hstarted : (BrokerService.start .inOrder {} (producedSync.crash producedSync.flushedBytes) 1).toOption.isSome =
      true := by decide +kernel
  obtain ⟨broker, hbroker⟩ := Option.isSome_iff_exists.mp hstarted
  have hstart := Result.toOption_eq_some.mp hbroker
  exact ⟨broker, hstart, .single (.crash rfl (BrokerService.canLose_flushedBytes _) trivial hstart)⟩

theorem acknowledged_producedSync :
    (syncTopic.broker.handleProduce {} ⟨text "a", 0, [{ value := text "v" }]⟩).1 = .ok ⟨0, 0, 1⟩ := by
  decide +kernel

/-- The record outlives the crash. -/
theorem acknowledged_survives_crash :
    ∃ broker, BrokerService.start .inOrder {} (producedSync.crash producedSync.flushedBytes) 1 = .ok broker ∧
      ∃ watermark, broker.handleFetch 1 ⟨text "a", 0, 0, 4096⟩ = .ok ⟨0, watermark, [{ value := text "v" }]⟩ := by
  obtain ⟨broker, hstart, hfollows⟩ := crashed_producedSync
  have hsurvives := @acknowledged_survives .inOrder syncTopic ⟨broker, true⟩ {} ⟨text "a", 0, [{ value := text "v" }]⟩
    ⟨0, 0, 1⟩ crashReaches_syncTopic (by decide +kernel) acknowledged_producedSync hfollows 0 (by decide) 4096
    (by decide +kernel) (by decide) 1
  exact ⟨broker, hstart, hsurvives⟩

/-- The next one follows it, also after the crash. -/
theorem offsets_not_reused_crash :
    ∃ broker, BrokerService.start .inOrder {} (producedSync.crash producedSync.flushedBytes) 1 = .ok broker ∧
      ∀ following, (broker.handleProduce {} ⟨text "a", 0, [{ value := text "w" }]⟩).1 = .ok following →
        following.partitionId = 0 → 1 ≤ following.baseOffset := by
  obtain ⟨broker, hstart, hfollows⟩ := crashed_producedSync
  refine ⟨broker, hstart, fun following hfollowing hpartition => ?_⟩
  exact @offsets_not_reused .inOrder syncTopic ⟨broker, true⟩ {} ⟨text "a", 0, [{ value := text "v" }]⟩ ⟨0, 0, 1⟩
    crashReaches_syncTopic (by decide +kernel) acknowledged_producedSync hfollows {} ⟨text "a", 0, [{ value := text "w" }]⟩
    following hfollowing rfl hpartition

/-- A record is produced by a broker that leaves its flushes to the system. -/
def producedAsync : System :=
  { broker := (oneTopic.broker.handleProduce {} ⟨text "a", 0, [{ value := text "v" }]⟩).2 }

theorem crashReaches_producedAsync : CrashReaches .inOrder (fun _ _ => True) producedAsync := by
  refine BrokerReaches.crashReaches (reaches_oneTopic.follows (.single ?_))
  exact @BrokerStep.request .inOrder {} oneTopic ⟨.produce, 1, 0, .produce ⟨text "a", 0, [{ value := text "v" }]⟩⟩
    (by decide) {} trivial

/-- If the partition is flushed, a crash leaves the record. -/
theorem flushed_survives_crash :
    ∃ broker, BrokerService.start .inOrder {} ((producedAsync.broker.flush [(text "a", 0)]).crash
        (producedAsync.broker.flush [(text "a", 0)]).flushedBytes) 1 = .ok broker ∧
      ∃ last batch, broker.topics.store? (text "a") 0 = some last ∧ last.read 0 4096 = .ok batch ∧
        batch.records.map Record.value = [text "v"] := by
  have hstarted : (BrokerService.start .inOrder {} ((producedAsync.broker.flush [(text "a", 0)]).crash
      (producedAsync.broker.flush [(text "a", 0)]).flushedBytes) 1).toOption.isSome = true := by decide +kernel
  obtain ⟨broker, hbroker⟩ := Option.isSome_iff_exists.mp hstarted
  have hstart := Result.toOption_eq_some.mp hbroker
  have hread : ((producedAsync.broker.topics.store? (text "a") 0).bind fun store => (store.read 0 4096).toOption).map
      (fun batch => batch.records.map Record.value) = some [text "v"] := by decide +kernel
  obtain ⟨batch, hbatch, hrecords⟩ := Option.map_eq_some_iff.mp hread
  obtain ⟨store, hstore, hread⟩ := Option.bind_eq_some_iff.mp hbatch
  obtain ⟨last, hlast, -, hreads⟩ := @flushed_survives .inOrder producedAsync ⟨broker, true⟩ crashReaches_producedAsync
    (text "a") 0 [(text "a", 0)] List.mem_cons_self
    (.single (.crash rfl (BrokerService.canLose_flushedBytes _) trivial hstart)) store hstore 0 4096 batch
    (Result.toOption_eq_some.mp hread) (by decide)
  exact ⟨broker, hstart, last, batch, hlast, hreads, hrecords⟩

/-- Otherwise it may take the record, but not the topic. -/
theorem crash_takes_ends_unflushed :
    ∃ broker, BrokerService.start .inOrder {} (producedAsync.broker.crash producedAsync.broker.flushedBytes) 1 =
        .ok broker ∧
      broker.topics.count? (text "a") = producedAsync.broker.topics.count? (text "a") ∧
      (broker.topics.store? (text "a") 0).map (·.log.nextOffset) = some 0 := by
  have hstarted : (BrokerService.start .inOrder {} (producedAsync.broker.crash producedAsync.broker.flushedBytes)
      1).toOption.map (fun broker => (broker.topics.store? (text "a") 0).map (·.log.nextOffset)) = some (some 0) := by
    decide +kernel
  obtain ⟨broker, hbroker, hnext⟩ := Option.map_eq_some_iff.mp hstarted
  have hstart := Result.toOption_eq_some.mp hbroker
  exact ⟨broker, hstart, (crash_takes_ends crashReaches_producedAsync rfl hstart).1 (text "a"), hnext⟩

end LogMq
