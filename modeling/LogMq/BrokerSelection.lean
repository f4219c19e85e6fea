import LogMq.BrokerLoad
import LogMq.LibRoundRobin

/-! Runs of `SelectPartition` on one topic. A requested partition is looked up, a key is hashed, and keyless requests
take turns. The turns are counted by 32 bits, so that they are uneven where the count wraps around, unless the number
of partitions divides `2 ^ 32`. -/

namespace LogMq

open RoundRobin

/-- The arguments of one call of `SelectPartition`. -/
structure SelectionRequest where
  requestedPartition : Int := invalidPartitionId
  key : Bytes := []
  deriving DecidableEq

/-- Neither a partition nor a key. -/
def SelectionRequest.keyless (request : SelectionRequest) : Bool :=
  decide (request.requestedPartition = invalidPartitionId) && request.key.isEmpty

/-- The partition that was selected, if there is one. -/
def selectedId (selection : Result (Int × Store)) : Option Int := selection.toOption.map Prod.fst

/-- The partitions of a topic as those that can be selected. -/
def partitionIds (n : Nat) : List (Option Int) := (List.range n).map fun (id : Nat) => some (id : Int)

namespace TopicManager

/-- The selections of a run of calls, each with its arguments. -/
def selections (topic : Bytes) : List SelectionRequest → TopicManager → List (SelectionRequest × Result (Int × Store))
  | [], _ => []
  | request :: rest, manager =>
      let (selection, after) := manager.selectPartition topic request.requestedPartition request.key
      (request, selection) :: selections topic rest after

/-- The partitions of the keyless selections of a run. -/
def keylessIds (topic : Bytes) (requests : List SelectionRequest) (manager : TopicManager) : List (Option Int) :=
  ((selections topic requests manager).filter fun entry => entry.1.keyless).map fun entry => selectedId entry.2

/-- What a run of selections on a topic of `n` partitions should be like. -/
structure SelectsEvenly (topic : Bytes) (n : Nat) (requests : List SelectionRequest) (manager : TopicManager) :
    Prop where
  /-- Without a requested partition, one of the topic is selected. -/
  inRange : ∀ entry ∈ selections topic requests manager, entry.1.requestedPartition = invalidPartitionId →
    ∃ id store, entry.2 = .ok (id, store) ∧ 0 ≤ id ∧ id < n
  /-- Equal keys select the same partition. -/
  sameKey : ∀ first ∈ selections topic requests manager, ∀ second ∈ selections topic requests manager,
    first.1.requestedPartition = invalidPartitionId → second.1.requestedPartition = invalidPartitionId →
      first.1.key ≠ [] → first.1.key = second.1.key → first.2 = second.2
  /-- The keyless selections are those of a run without any others. -/
  undisturbed : keylessIds topic requests manager =
    (selections topic (requests.filter SelectionRequest.keyless) manager).map fun entry => selectedId entry.2
  /-- Any `n` consecutive keyless selections take every partition once. -/
  fair : Fair (partitionIds n) (keylessIds topic requests manager)

/-! ### One selection -/

/-- A topic with its number of partitions and the count of its keyless selections. -/
def Turning (manager : TopicManager) (topic : Bytes) (n count : Nat) : Prop :=
  ∃ found, manager.topics.find? topic = some found ∧ found.partitions.length = n ∧
    found.nextPartition.toNat = count % 2 ^ 32

/-- The partition that is chosen without a requested one. -/
def chosenId (n count : Nat) (key : Bytes) : Nat :=
  if key = [] then turn (2 ^ 32) n count else (stableHash key).toNat % n

variable {manager : TopicManager} {topic : Bytes} {n count : Nat}

theorem chosenId_lt (hpos : 0 < n) (key : Bytes) : chosenId n count key < n := by
  unfold chosenId turn
  split_ifs
  · exact Nat.mod_lt _ hpos
  · exact Nat.mod_lt _ hpos

theorem keyless_iff {request : SelectionRequest} :
    request.keyless = true ↔ request.requestedPartition = invalidPartitionId ∧ request.key = [] := by
  rw [SelectionRequest.keyless, Bool.and_eq_true, decide_eq_true_eq, List.isEmpty_iff]

theorem Turning.nonempty {found : Topic} (hpos : 0 < n) (hlength : found.partitions.length = n) :
    found.partitions ≠ [] := by
  intro hnil
  rw [hnil, List.length_nil] at hlength
  omega

/-- **A selection counts keyless requests only.** -/
theorem Turning.selectPartition (h : Turning manager topic n count) (hpos : 0 < n) (request : SelectionRequest) :
    Turning (manager.selectPartition topic request.requestedPartition request.key).2 topic n
      (count + if request.keyless then 1 else 0) := by
  obtain ⟨found, hfind, hlength, hnext⟩ := h
  refine ⟨(choosePartition found request.requestedPartition request.key).2, ?_, ?_, ?_⟩
  · rw [TopicManager.selectPartition, hfind]
    simp only [if_neg (Turning.nonempty hpos hlength)]
    exact SortedMap.find?_insert_self _ _ _
  · rw [choosePartition_partitions, hlength]
  · unfold choosePartition
    by_cases hrequested : request.requestedPartition = invalidPartitionId
    · by_cases hkey : request.key = []
      · rw [if_neg (not_not.mpr hrequested), if_neg (not_not.mpr hkey), if_pos (keyless_iff.mpr ⟨hrequested, hkey⟩)]
        show (found.nextPartition + 1).toNat = _
        rw [UInt32.toNat_add, hnext]
        exact Nat.mod_add_mod _ _ _
      · rw [if_neg (not_not.mpr hrequested), if_pos hkey, if_neg fun hkeyless => hkey (keyless_iff.mp hkeyless).2]
        exact hnext
    · rw [if_pos hrequested, if_neg fun hkeyless => hrequested (keyless_iff.mp hkeyless).1]
      exact hnext

/-- **A selection without a requested partition** finds the one of the key, or the one whose turn it is. -/
theorem Turning.selectPartition_ok (h : Turning manager topic n count) (hpos : 0 < n) {request : SelectionRequest}
    (hrequested : request.requestedPartition = invalidPartitionId) :
    ∃ store, manager.store? topic (chosenId n count request.key) = some store ∧
      (manager.selectPartition topic request.requestedPartition request.key).1 =
        .ok ((chosenId n count request.key : Int), store) := by
  obtain ⟨found, hfind, hlength, hnext⟩ := h
  have hchosen : (choosePartition found request.requestedPartition request.key).1 =
      (chosenId n count request.key : Int) := by
    unfold choosePartition chosenId turn
    rw [if_neg (not_not.mpr hrequested), hlength, hnext]
    by_cases hkey : request.key = []
    · rw [if_neg (not_not.mpr hkey), if_pos hkey]
    · rw [if_pos hkey, if_neg hkey]
  obtain ⟨store, hstore⟩ := exists_store? (count?_eq_some.mpr ⟨found, hfind, hlength⟩) (chosenId_lt hpos request.key)
  have hget : manager.getPartition topic (chosenId n count request.key : Int) = .ok store :=
    getPartition_ok.mpr ⟨Int.natCast_nonneg _, hstore⟩
  refine ⟨store, hstore, ?_⟩
  rw [TopicManager.selectPartition, hfind]
  simp only [if_neg (Turning.nonempty hpos hlength)]
  rw [hchosen, hget]
  rfl

/-! ### Runs -/

theorem selections_fst (requests : List SelectionRequest) :
    (selections topic requests manager).map Prod.fst = requests := by
  induction requests generalizing manager with
  | nil => rfl
  | cons request rest ih => exact congrArg (request :: ·) ih

theorem keylessIds_cons_of_keyless {request : SelectionRequest} {rest : List SelectionRequest}
    (h : request.keyless = true) :
    keylessIds topic (request :: rest) manager =
      selectedId (manager.selectPartition topic request.requestedPartition request.key).1 ::
        keylessIds topic rest (manager.selectPartition topic request.requestedPartition request.key).2 := by
  simp [keylessIds, selections, h]

theorem keylessIds_cons_of_not_keyless {request : SelectionRequest} {rest : List SelectionRequest}
    (h : ¬ request.keyless = true) :
    keylessIds topic (request :: rest) manager =
      keylessIds topic rest (manager.selectPartition topic request.requestedPartition request.key).2 := by
  simp [keylessIds, selections, h]

/-- The selections of a run without a requested partition. -/
theorem Turning.mem_selections {requests : List SelectionRequest} (h : Turning manager topic n count) (hpos : 0 < n)
    {entry : SelectionRequest × Result (Int × Store)} (hentry : entry ∈ selections topic requests manager)
    (hrequested : entry.1.requestedPartition = invalidPartitionId) :
    ∃ turns store, manager.store? topic (chosenId n turns entry.1.key) = some store ∧
      entry.2 = .ok ((chosenId n turns entry.1.key : Int), store) := by
  induction requests generalizing manager count with
  | nil => cases hentry
  | cons request rest ih =>
      rcases List.mem_cons.mp hentry with hhead | hrest
      · subst hhead
        obtain ⟨store, hstore, hselect⟩ := h.selectPartition_ok hpos hrequested
        exact ⟨count, store, hstore, hselect⟩
      · obtain ⟨turns, store, hstore, hselect⟩ := ih (h.selectPartition hpos request) hrest
        rw [(selectPartition_same topic request.requestedPartition request.key).store?] at hstore
        exact ⟨turns, store, hstore, hselect⟩

/-- **The keyless selections of a run take turns.** -/
theorem Turning.keylessIds_eq (requests : List SelectionRequest) (h : Turning manager topic n count) (hpos : 0 < n) :
    keylessIds topic requests manager =
      (turns (2 ^ 32) n count (requests.filter SelectionRequest.keyless).length).map
        fun (id : Nat) => some (id : Int) := by
  induction requests generalizing manager count with
  | nil => rfl
  | cons request rest ih =>
      have hrest := ih (h.selectPartition hpos request)
      by_cases hkeyless : request.keyless = true
      · obtain ⟨hrequested, hkey⟩ := keyless_iff.mp hkeyless
        obtain ⟨store, -, hselect⟩ := h.selectPartition_ok hpos hrequested
        rw [if_pos hkeyless] at hrest
        rw [keylessIds_cons_of_keyless hkeyless, hrest, List.filter_cons_of_pos hkeyless, List.length_cons, turns_succ,
          List.map_cons, hselect, chosenId, if_pos hkey]
        rfl
      · rw [if_neg hkeyless, Nat.add_zero] at hrest
        rw [keylessIds_cons_of_not_keyless hkeyless, hrest, List.filter_cons_of_neg hkeyless]

/-- In a run of keyless requests, all selections are keyless. -/
theorem keylessIds_of_keyless {requests : List SelectionRequest}
    (h : ∀ request ∈ requests, request.keyless = true) :
    keylessIds topic requests manager = (selections topic requests manager).map fun entry => selectedId entry.2 := by
  unfold keylessIds
  rw [List.filter_eq_self.mpr]
  intro entry hentry
  exact h entry.1 (selections_fst requests ▸ List.mem_map_of_mem hentry)

theorem Turning.fair_iff (requests : List SelectionRequest) (h : Turning manager topic n count) (hpos : 0 < n)
    (hmax : n < 2 ^ 32) (hcount : count < 2 ^ 32) :
    Fair (partitionIds n) (keylessIds topic requests manager) ↔
      n ∣ 2 ^ 32 ∨ (requests.filter SelectionRequest.keyless).length < n ∨
        count + (requests.filter SelectionRequest.keyless).length ≤ 2 ^ 32 := by
  have hinjective : Function.Injective fun (id : Nat) => some (id : Int) := fun _ _ heq =>
    Int.ofNat_inj.mp (Option.some.inj heq)
  rw [h.keylessIds_eq requests hpos, partitionIds, fair_map hinjective]
  exact fair_turns_iff hpos hmax.le hcount

/-- **Selecting evenly.** A run of selections is as it should be, whatever modes are mixed in it, exactly if the number
of partitions divides `2 ^ 32`, or there are fewer keyless requests than partitions, or the count of the keyless
selections does not wrap around. -/
theorem selectsEvenly_iff {found : Topic} (requests : List SelectionRequest)
    (hfind : manager.topics.find? topic = some found) (hpos : 1 ≤ found.partitions.length)
    (hmax : found.partitions.length ≤ 2 ^ 31 - 1) :
    SelectsEvenly topic found.partitions.length requests manager ↔
      found.partitions.length ∣ 2 ^ 32 ∨
        (requests.filter SelectionRequest.keyless).length < found.partitions.length ∨
          found.nextPartition.toNat + (requests.filter SelectionRequest.keyless).length ≤ 2 ^ 32 := by
  have hlt := found.nextPartition.toNat_lt
  have hturning : Turning manager topic found.partitions.length found.nextPartition.toNat :=
    ⟨found, hfind, rfl, (Nat.mod_eq_of_lt hlt).symm⟩
  have hfair := hturning.fair_iff requests hpos (by omega) hlt
  refine ⟨fun h => hfair.mp h.fair, fun hturns => ?_⟩
  refine { inRange := ?_, sameKey := ?_, undisturbed := ?_, fair := hfair.mpr hturns }
  · intro entry hentry hrequested
    obtain ⟨turns, store, -, hselect⟩ := hturning.mem_selections hpos hentry hrequested
    exact ⟨_, store, hselect, Int.natCast_nonneg _, Int.ofNat_lt.mpr (chosenId_lt hpos _)⟩
  · intro first hfirst second hsecond hrequested hrequested' hkey hequal
    obtain ⟨turns, store, hstore, hselect⟩ := hturning.mem_selections hpos hfirst hrequested
    obtain ⟨turns', store', hstore', hselect'⟩ := hturning.mem_selections hpos hsecond hrequested'
    have hchosen : ∀ turns, chosenId found.partitions.length turns first.1.key =
        (stableHash first.1.key).toNat % found.partitions.length := fun _ => if_neg hkey
    rw [hchosen] at hstore hselect
    rw [← hequal, hchosen] at hstore' hselect'
    rw [hselect, hselect', Option.some.inj (hstore.symm.trans hstore')]
  · have hkeyless : ∀ request ∈ requests.filter SelectionRequest.keyless, request.keyless = true :=
      fun request hrequest => (List.mem_filter.mp hrequest).2
    rw [← keylessIds_of_keyless hkeyless, hturning.keylessIds_eq requests hpos,
      hturning.keylessIds_eq (requests.filter SelectionRequest.keyless) hpos, List.filter_filter]
    simp only [Bool.and_self]

/-- A manager that has created a topic of three partitions. -/
def threePartitions : TopicManager :=
  (createTopic { options := { dataDir := "data" } } (text "a") 3 {}).2

theorem find?_threePartitions : ∃ found, threePartitions.topics.find? (text "a") = some found ∧
    found.partitions.length = 3 ∧ found.nextPartition = 0 := by
  have hshape : (threePartitions.topics.find? (text "a")).map (fun found => (found.partitions.length,
      found.nextPartition)) = some (3, 0) := by
    decide +kernel
  obtain ⟨found, hfind, hfound⟩ := Option.map_eq_some_iff.mp hshape
  obtain ⟨hlength, hnext⟩ := Prod.mk.inj hfound
  exact ⟨found, hfind, hlength, hnext⟩

theorem selectsEvenly_iff_mixed :
    SelectsEvenly (text "a") 3 [{}, { requestedPartition := 2 }, { key := text "k" }, {}, { requestedPartition := 7 },
      { key := text "k" }, {}, {}] threePartitions := by
  obtain ⟨found, hfind, hlength, hnext⟩ := find?_threePartitions
  have hiff := selectsEvenly_iff [{}, { requestedPartition := 2 }, { key := text "k" }, {},
    { requestedPartition := 7 }, { key := text "k" }, {}, {}] hfind (by omega) (by omega)
  rw [hlength, hnext] at hiff
  exact hiff.mpr (.inr (.inr (by decide +kernel)))

/-- On the first wrap of the count, partition zero is selected twice in a row. -/
theorem not_selectsEvenly_wrapped :
    ¬ SelectsEvenly (text "a") 3 (List.replicate (2 ^ 32 + 1) {}) threePartitions := by
  intro h
  obtain ⟨found, hfind, hlength, hnext⟩ := find?_threePartitions
  have hturning : Turning threePartitions (text "a") 3 0 := ⟨found, hfind, hlength, by rw [hnext]; rfl⟩
  have hkeyless : SelectionRequest.keyless {} = true := by decide
  have hfair := (hturning.fair_iff _ (by omega) (by omega) (by omega)).mp h.fair
  rw [List.filter_replicate_of_pos hkeyless, List.length_replicate] at hfair
  omega

end TopicManager

end LogMq
