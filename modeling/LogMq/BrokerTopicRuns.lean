import LogMq.BrokerTopicFiles

/-! Requests for topics on a data directory that was empty. Two valid names are the names of the manager's own files.
The requests for them decide whether the list of topics can be read, and whether another topic can be created. -/

namespace LogMq

open Text

/-- A name that the manager has for a file. -/
def IsReserved (name : Bytes) : Prop := name = metadataName ∨ name = metadataTempName

instance : DecidablePred IsReserved := fun name => inferInstanceAs (Decidable (name = _ ∨ name = _))

theorem metadataTempName_ne : metadataTempName ≠ metadataName := by decide +kernel

theorem IsReserved.valid {name : Bytes} (h : IsReserved name) : validateTopicName name = .ok () := by
  rcases h with rfl | rfl
  · decide +kernel
  · decide +kernel

/-! ### Runs -/

/-- A manager after some requests, with the acknowledged ones. -/
structure TopicRun where
  directory : TopicDirectory
  acknowledged : List (Bytes × UInt32) := []

namespace TopicRun

/-- A manager on an empty data directory. -/
def start (options : TopicManagerOptions) : TopicRun where
  directory := { manager := { options := options } }

/-- One `CreateTopic`. -/
def request (run : TopicRun) (request : Bytes × UInt32) : TopicRun :=
  match run.directory.createTopic request.1 request.2 with
  | (.ok (), directory) => ⟨directory, run.acknowledged ++ [request]⟩
  | (.error _, directory) => ⟨directory, run.acknowledged⟩

def requestAll (options : TopicManagerOptions) (requests : List (Bytes × UInt32)) : TopicRun :=
  requests.foldl request (start options)

/-- `Load` in a new manager finds the acknowledged topics and no others. -/
def LoadsAcknowledged (run : TopicRun) : Prop :=
  ∃ loaded, run.directory.load run.directory.manager.options = .ok loaded ∧
    ∀ topic n, loaded.manager.count? topic = some n ↔
      ∃ count : UInt32, (topic, count) ∈ run.acknowledged ∧ count.toNat = n

/-- A topic can be created, with some number of partitions. -/
def CanCreate (run : TopicRun) (topic : Bytes) : Prop :=
  ∃ count : UInt32, count ≠ 0 ∧ (run.directory.createTopic topic count).1 = .ok ()

end TopicRun

/-- What the requests must not spoil: the list of topics, and the names of a permitted length that are left. -/
structure RequestsHarmless (options : TopicManagerOptions) (limit : Nat) (requests : List (Bytes × UInt32)) : Prop where
  loads : (TopicRun.requestAll options requests).LoadsAcknowledged
  creates : ∀ name, validateTopicName name = .ok () → name.length ≤ limit → name ∉ requests.map Prod.fst →
    (TopicRun.requestAll options requests).CanCreate name

/-- A request that changes what the manager's files can be: it is for one of their names, or its topic can be opened. -/
def decisive (request : Bytes × UInt32) : Bool :=
  decide (validateTopicName request.1 = .ok () ∧ (IsReserved request.1 ∨ request.2.toNat ≤ maxPartitions))

/-- `topics.meta` is requested, and the first decisive request is for a reserved name. -/
def MetadataBlocked (requests : List (Bytes × UInt32)) : Prop :=
  metadataName ∈ requests.map Prod.fst ∧ ∃ first, requests.find? decisive = some first ∧ IsReserved first.1

/-! ### What the requests leave behind -/

section Standing

variable {requests : List (Bytes × UInt32)} {directory : TopicDirectory} {topic : Bytes} {count : UInt32}

/-- What has become of the manager's files. -/
inductive Standing (requests : List (Bytes × UInt32)) (directory : TopicDirectory) : Prop
  | untouched (hfirst : requests.find? decisive = none) (hmetadata : directory.entries metadataName = none)
      (htemp : directory.entries metadataTempName = none) (hempty : ∀ topic, directory.manager.count? topic = none)
  | listed {first : Bytes × UInt32} (hfirst : requests.find? decisive = some first) (hordinary : ¬ IsReserved first.1)
      (hmetadata : directory.entries metadataName = some (.file (metadataText directory.manager.listing)))
      (htemp : directory.entries metadataTempName =
        if metadataTempName ∈ requests.map Prod.fst then some .directory else none)
  | unlisted {first : Bytes × UInt32} (hfirst : requests.find? decisive = some first) (hreserved : IsReserved first.1)
      (hnot : metadataName ∉ requests.map Prod.fst) (hmetadata : directory.entries metadataName = none)
      (htemp : directory.entries metadataTempName = some .directory)
      (hempty : ∀ topic, directory.manager.count? topic = none)
  | blocked {first : Bytes × UInt32} (hfirst : requests.find? decisive = some first) (hreserved : IsReserved first.1)
      (hmem : metadataName ∈ requests.map Prod.fst) (hmetadata : directory.entries metadataName = some .directory)
      (hempty : ∀ topic, directory.manager.count? topic = none)

theorem decisive_reserved (hreserved : IsReserved topic) : decisive (topic, count) = true :=
  decide_eq_true ⟨hreserved.valid, .inl hreserved⟩

theorem decisive_ordinary (hvalid : validateTopicName topic = .ok ()) (hordinary : ¬ IsReserved topic) :
    decisive (topic, count) = true ↔ count.toNat ≤ maxPartitions := by
  unfold decisive
  simp [hvalid, hordinary]

theorem find?_append_some {first : Bytes × UInt32} (hfirst : requests.find? decisive = some first)
    (request : Bytes × UInt32) : (requests ++ [request]).find? decisive = some first := by
  rw [List.find?_append, hfirst, Option.some_or]

theorem find?_append_none (hfirst : requests.find? decisive = none) (request : Bytes × UInt32) :
    (requests ++ [request]).find? decisive = if decisive request = true then some request else none := by
  rw [List.find?_append, hfirst, Option.none_or, List.find?_singleton]

theorem notMem_of_find?_none (hfirst : requests.find? decisive = none) {name : Bytes} (hreserved : IsReserved name) :
    name ∉ requests.map Prod.fst := by
  intro hmem
  obtain ⟨earlier, hearlier, hname⟩ := List.mem_map.mp hmem
  have hnone := List.find?_eq_none.mp hfirst earlier hearlier
  exact hnone (@decisive_reserved earlier.1 earlier.2 (hname ▸ hreserved))

theorem mem_append_names {name : Bytes} {request : Bytes × UInt32} :
    name ∈ (requests ++ [request]).map Prod.fst ↔ name ∈ requests.map Prod.fst ∨ name = request.1 := by
  simp

theorem entered_eq (other : Bytes) :
    directory.entered topic other = if other = topic then some .directory else directory.entries other :=
  Function.update_apply _ _ _ _

theorem opening_entries (other : Bytes) : (directory.opening topic count).entries other =
    if other = topic then some .directory else directory.entries other :=
  entered_eq other

theorem opening_self : (directory.opening topic count).entries topic = some .directory := Function.update_self _ _ _

theorem created_entries {opened : Topic} (other : Bytes) : (directory.created topic count opened).entries other =
    if other = metadataName then some (.file (metadataText (directory.created topic count opened).manager.listing))
    else if other = metadataTempName then none
    else directory.entered topic other := by
  unfold TopicDirectory.created
  simp only [Function.update_apply]
  rfl

/-- A request that leaves the directory alone. -/
theorem Standing.same (h : Standing requests directory)
    (hsame : validateTopicName topic ≠ .ok () ∨ (∃ n, directory.manager.count? topic = some n) ∧ ¬ IsReserved topic) :
    Standing (requests ++ [(topic, count)]) directory := by
  have hother : ∀ {name}, IsReserved name → name ≠ topic := by
    rintro name hreserved rfl
    rcases hsame with hinvalid | ⟨-, hordinary⟩
    · exact hinvalid hreserved.valid
    · exact hordinary hreserved
  have hmetadataName : metadataName ≠ topic := hother (.inl rfl)
  have htempName : metadataTempName ≠ topic := hother (.inr rfl)
  cases h with
  | untouched hfirst hmetadata htemp hempty =>
      have hindecisive : ¬ decisive (topic, count) = true := by
        rcases hsame with hinvalid | ⟨⟨n, hcount⟩, -⟩
        · unfold decisive
          simp [hinvalid]
        · rw [hempty] at hcount
          cases hcount
      exact .untouched (by rw [find?_append_none hfirst, if_neg hindecisive]) hmetadata htemp hempty
  | listed hfirst hordinary hmetadata htemp =>
      refine .listed (find?_append_some hfirst _) hordinary hmetadata ?_
      simp only [mem_append_names, htempName, or_false]
      exact htemp
  | unlisted hfirst hreserved hnot hmetadata htemp hempty =>
      refine .unlisted (find?_append_some hfirst _) hreserved ?_ hmetadata htemp hempty
      simp only [mem_append_names, hmetadataName, or_false]
      exact hnot
  | blocked hfirst hreserved hmem hmetadata hempty =>
      exact .blocked (find?_append_some hfirst _) hreserved (mem_append_names.mpr (.inl hmem)) hmetadata hempty

/-- A request whose topic gets a directory and is not listed. -/
theorem Standing.opening (h : Standing requests directory) (hvalid : validateTopicName topic = .ok ())
    (hentry : ∀ content, directory.entries topic ≠ some (.file content))
    (hindecisive : ¬ IsReserved topic → requests.find? decisive = none → maxPartitions < count.toNat) :
    Standing (requests ++ [(topic, count)]) (directory.opening topic count) := by
  cases h with
  | untouched hfirst hmetadata htemp hempty =>
      by_cases hreserved : IsReserved topic
      · have hnext : (requests ++ [(topic, count)]).find? decisive = some (topic, count) := by
          rw [find?_append_none hfirst, if_pos (decisive_reserved hreserved)]
        rcases hreserved with rfl | rfl
        · exact .blocked hnext (.inl rfl) (mem_append_names.mpr (.inr rfl)) opening_self hempty
        · refine .unlisted hnext (.inr rfl) ?_ ?_ opening_self hempty
          · rw [mem_append_names, not_or]
            exact ⟨notMem_of_find?_none hfirst (.inl rfl), metadataTempName_ne.symm⟩
          · rw [opening_entries, if_neg metadataTempName_ne.symm, hmetadata]
      · have hlarge := hindecisive hreserved hfirst
        refine .untouched ?_ ?_ ?_ hempty
        · rw [find?_append_none hfirst, if_neg]
          rw [decisive_ordinary hvalid hreserved]
          exact not_le.mpr hlarge
        · rw [opening_entries, if_neg (fun heq => hreserved (.inl heq.symm)), hmetadata]
        · rw [opening_entries, if_neg (fun heq => hreserved (.inr heq.symm)), htemp]
  | listed hfirst hordinary hmetadata htemp =>
      have hne : metadataName ≠ topic := by
        rintro rfl
        exact hentry _ hmetadata
      refine .listed (find?_append_some hfirst _) hordinary ?_ ?_
      · rw [opening_entries, if_neg hne, hmetadata]
        rfl
      · by_cases htopic : metadataTempName = topic
        · rw [← htopic, opening_self, if_pos (mem_append_names.mpr (.inr rfl))]
        · rw [opening_entries, if_neg htopic, htemp]
          simp only [mem_append_names, htopic, or_false]
  | unlisted hfirst hreserved hnot hmetadata htemp hempty =>
      have hnext := find?_append_some hfirst (topic, count)
      by_cases htopic : metadataName = topic
      · subst htopic
        exact .blocked hnext hreserved (mem_append_names.mpr (.inr rfl)) opening_self hempty
      · refine .unlisted hnext hreserved ?_ ?_ ?_ hempty
        · rw [mem_append_names, not_or]
          exact ⟨hnot, htopic⟩
        · rw [opening_entries, if_neg htopic, hmetadata]
        · rw [opening_entries, htemp, ite_self]
  | blocked hfirst hreserved hmem hmetadata hempty =>
      refine .blocked (find?_append_some hfirst _) hreserved (mem_append_names.mpr (.inl hmem)) ?_ hempty
      rw [opening_entries, hmetadata, ite_self]

theorem Standing.of_find?_none (h : Standing requests directory) (hfirst : requests.find? decisive = none) :
    directory.entries metadataName = none ∧ directory.entries metadataTempName = none := by
  cases h with
  | untouched _ hmetadata htemp _ => exact ⟨hmetadata, htemp⟩
  | listed hsome => cases hfirst.symm.trans hsome
  | unlisted hsome => cases hfirst.symm.trans hsome
  | blocked hsome => cases hfirst.symm.trans hsome

/-- A request that finds a file in the place of its directory. -/
theorem Standing.notDirectory (h : Standing requests directory) {content : Bytes}
    (hentry : directory.entries topic = some (.file content)) (hreserved : IsReserved topic) :
    Standing (requests ++ [(topic, count)]) directory := by
  cases h with
  | untouched hfirst hmetadata htemp hempty =>
      rcases hreserved with rfl | rfl
      · cases hentry.symm.trans hmetadata
      · cases hentry.symm.trans htemp
  | listed hfirst hordinary hmetadata htemp =>
      have hne : metadataTempName ≠ topic := by
        rintro rfl
        rw [hentry] at htemp
        split_ifs at htemp
        cases htemp
      refine .listed (find?_append_some hfirst _) hordinary hmetadata ?_
      simp only [mem_append_names, hne, or_false]
      exact htemp
  | unlisted hfirst hfirstReserved hnot hmetadata htemp hempty =>
      rcases hreserved with rfl | rfl
      · cases hentry.symm.trans hmetadata
      · cases hentry.symm.trans htemp
  | blocked hfirst hfirstReserved hmem hmetadata hempty =>
      exact .blocked (find?_append_some hfirst _) hfirstReserved (mem_append_names.mpr (.inl hmem)) hmetadata hempty

/-- A request whose temporary file could not be renamed. -/
theorem Standing.notRenamed (h : Standing requests directory)
    (hdirectory : directory.entries metadataName = some .directory) (content : Bytes) :
    Standing requests { directory with
      entries := Function.update directory.entries metadataTempName (some (.file content)) } := by
  cases h with
  | untouched hfirst hmetadata htemp hempty => cases hdirectory.symm.trans hmetadata
  | listed hfirst hordinary hmetadata htemp => cases hdirectory.symm.trans hmetadata
  | unlisted hfirst hreserved hnot hmetadata htemp hempty => cases hdirectory.symm.trans hmetadata
  | blocked hfirst hreserved hmem hmetadata hempty =>
      refine .blocked hfirst hreserved hmem ?_ hempty
      show Function.update directory.entries metadataTempName (some (.file content)) metadataName = some .directory
      rw [Function.update_of_ne metadataTempName_ne.symm, hmetadata]

/-- A request that is acknowledged with a new list. -/
theorem Standing.created (h : Standing requests directory) (hvalid : validateTopicName topic = .ok ())
    (hcount : count.toNat ≤ maxPartitions) (hordinary : ¬ IsReserved topic)
    (htemp : directory.entries metadataTempName ≠ some .directory)
    (hmetadata : directory.entries metadataName ≠ some .directory) (opened : Topic) :
    Standing (requests ++ [(topic, count)]) (directory.created topic count opened) := by
  have hlisted := @created_entries directory topic count opened metadataName
  rw [if_pos rfl] at hlisted
  have hgone := @created_entries directory topic count opened metadataTempName
  rw [if_neg metadataTempName_ne, if_pos rfl] at hgone
  have hother : metadataTempName ≠ topic := fun heq => hordinary (.inr heq.symm)
  cases h with
  | untouched hfirst _ _ hempty =>
      have hnext : (requests ++ [(topic, count)]).find? decisive = some (topic, count) := by
        rw [find?_append_none hfirst, if_pos ((decisive_ordinary hvalid hordinary).mpr hcount)]
      refine .listed hnext hordinary hlisted ?_
      rw [hgone, if_neg]
      rw [mem_append_names, not_or]
      exact ⟨notMem_of_find?_none hfirst (.inr rfl), hother⟩
  | listed hfirst hfirstOrdinary _ hentry =>
      refine .listed (find?_append_some hfirst _) hfirstOrdinary hlisted ?_
      rw [hgone, if_neg]
      rw [mem_append_names, not_or]
      refine ⟨fun hmem => htemp ?_, hother⟩
      rw [hentry, if_pos hmem]
  | unlisted _ _ _ _ hentry _ => exact absurd hentry htemp
  | blocked _ _ _ hentry _ => exact absurd hentry hmetadata

end Standing

/-! ### The invariant -/

/-- What holds after any requests. -/
structure TopicRun.Sound (options : TopicManagerOptions) (requests : List (Bytes × UInt32)) (run : TopicRun) : Prop where
  options_eq : run.directory.manager.options = options
  unwritten : run.directory.manager.Unwritten
  valid : run.directory.manager.Valid
  topic : ∀ {topic n}, run.directory.manager.count? topic = some n →
    topic ∈ requests.map Prod.fst ∧ ¬ IsReserved topic ∧ run.directory.entries topic = some .directory
  acknowledged : ∀ topic n, run.directory.manager.count? topic = some n ↔
    ∃ count : UInt32, (topic, count) ∈ run.acknowledged ∧ count.toNat = n
  ordinary : ∀ {topic content}, run.directory.entries topic = some (.file content) → IsReserved topic
  standing : Standing requests run.directory

namespace TopicRun.Sound

variable {options : TopicManagerOptions} {requests : List (Bytes × UInt32)} {run : TopicRun} {topic : Bytes}
  {count : UInt32}

theorem start : Sound options [] (TopicRun.start options) where
  options_eq := rfl
  unwritten topic id := .inl rfl
  valid h := (by cases h)
  topic h := (by cases h)
  acknowledged topic n := ⟨fun h => (by cases h), fun ⟨_, h, _⟩ => (by cases h)⟩
  ordinary h := (by cases h)
  standing := .untouched rfl rfl rfl fun _ => rfl

/-- A request that lists no topic. -/
theorem refused (h : Sound options requests run) (request : Bytes × UInt32) {after : TopicDirectory}
    (hoptions : after.manager.options = run.directory.manager.options)
    (htopics : after.manager.topics = run.directory.manager.topics) (hunwritten : after.manager.Unwritten)
    (hentries : ∀ name, after.entries name = run.directory.entries name ∨ after.entries name = some .directory ∨
      IsReserved name) (hstanding : Standing (requests ++ [request]) after) :
    Sound options (requests ++ [request]) ⟨after, run.acknowledged⟩ := by
  have hcount : ∀ name, after.manager.count? name = run.directory.manager.count? name := by
    intro name
    unfold TopicManager.count?
    rw [htopics]
  refine {
    options_eq := hoptions.trans h.options_eq
    unwritten := hunwritten
    valid := fun hfound => h.valid (hcount _ ▸ hfound)
    topic := ?_
    acknowledged := fun name n => by rw [← h.acknowledged, ← hcount]
    ordinary := ?_
    standing := hstanding }
  · intro name n hfound
    obtain ⟨hmem, hordinary, hentry⟩ := h.topic (hcount _ ▸ hfound)
    refine ⟨mem_append_names.mpr (.inl hmem), hordinary, ?_⟩
    rcases hentries name with hsame | hdirectory | hreserved
    · exact hsame.trans hentry
    · exact hdirectory
    · exact absurd hreserved hordinary
  · intro name content hentry
    rcases hentries name with hsame | hdirectory | hreserved
    · exact h.ordinary (hsame ▸ hentry)
    · cases hdirectory.symm.trans hentry
    · exact hreserved

/-- A request for a topic that exists with as many partitions. -/
theorem repeated (h : Sound options requests run)
    (hfound : run.directory.manager.count? topic = some count.toNat) :
    Sound options (requests ++ [(topic, count)]) ⟨run.directory, run.acknowledged ++ [(topic, count)]⟩ := by
  have hstanding := @Standing.same _ _ topic count h.standing (.inr ⟨⟨_, hfound⟩, (h.topic hfound).2.1⟩)
  have hsame := h.refused (topic, count) rfl rfl h.unwritten (fun _ => .inl rfl) hstanding
  refine { hsame with acknowledged := fun name n => ?_ }
  rw [h.acknowledged]
  constructor
  · rintro ⟨listed, hmem, hn⟩
    exact ⟨listed, List.mem_append_left _ hmem, hn⟩
  · rintro ⟨listed, hmem, hn⟩
    rcases List.mem_append.mp hmem with hold | hnew
    · exact ⟨listed, hold, hn⟩
    · cases List.mem_singleton.mp hnew
      rw [← h.acknowledged, hfound, hn]

/-- A request whose topic is listed. -/
theorem listed (h : Sound options requests run) (hvalid : validateTopicName topic = .ok ()) (hzero : count ≠ 0)
    (hnone : run.directory.manager.count? topic = none) {opened : Topic}
    (hopen : (run.directory.manager.openTopic topic count none).1 = .ok opened)
    (htemp : run.directory.entered topic metadataTempName ≠ some .directory)
    (hmetadata : run.directory.entered topic metadataName ≠ some .directory) :
    Sound options (requests ++ [(topic, count)])
      ⟨run.directory.created topic count opened, run.acknowledged ++ [(topic, count)]⟩ := by
  have hpair := TopicDirectory.openTopic_pair hopen
  have hlength := (TopicManager.openTopic_ok hpair).1
  have hmax := TopicManager.openTopic_count hpair
  have hordinary : ¬ IsReserved topic := by
    rintro (rfl | rfl)
    · exact hmetadata (Function.update_self _ _ _)
    · exact htemp (Function.update_self _ _ _)
  rw [entered_eq, if_neg fun heq => hordinary (.inr heq.symm)] at htemp
  rw [entered_eq, if_neg fun heq => hordinary (.inl heq.symm)] at hmetadata
  have hcount : ∀ name, (run.directory.created topic count opened).manager.count? name =
      if name = topic then some count.toNat else run.directory.manager.count? name := by
    intro name
    rw [← hlength]
    exact TopicManager.count?_insert name
  refine {
    options_eq := h.options_eq
    unwritten := h.unwritten.openTopic topic count none
    valid := ?_
    topic := ?_
    acknowledged := ?_
    ordinary := ?_
    standing := h.standing.created hvalid hmax hordinary htemp hmetadata opened }
  · intro name n hfound
    rw [hcount] at hfound
    split_ifs at hfound with hname
    · cases hfound
      exact ⟨hname ▸ hvalid, Nat.pos_of_ne_zero fun h0 => hzero (UInt32.toNat_inj.mp h0), hmax⟩
    · exact h.valid hfound
  · intro name n hfound
    rw [hcount] at hfound
    split_ifs at hfound with hname
    · subst hname
      refine ⟨mem_append_names.mpr (.inr rfl), hordinary, ?_⟩
      rw [created_entries, if_neg fun heq => hordinary (.inl heq), if_neg fun heq => hordinary (.inr heq), entered_eq,
        if_pos rfl]
    · obtain ⟨hmem, hother, hentry⟩ := h.topic hfound
      refine ⟨mem_append_names.mpr (.inl hmem), hother, ?_⟩
      rw [created_entries, if_neg fun heq => hother (.inl heq), if_neg fun heq => hother (.inr heq), entered_eq,
        if_neg hname, hentry]
  · intro name n
    rw [hcount]
    constructor
    · intro hfound
      split_ifs at hfound with hname
      · cases hfound
        exact ⟨count, List.mem_append_right _ (List.mem_singleton.mpr (by rw [hname])), rfl⟩
      · obtain ⟨listed, hmem, hn⟩ := (h.acknowledged name n).mp hfound
        exact ⟨listed, List.mem_append_left _ hmem, hn⟩
    · rintro ⟨listed, hmem, hn⟩
      rcases List.mem_append.mp hmem with hold | hnew
      · have hfound := (h.acknowledged name n).mpr ⟨listed, hold, hn⟩
        rw [if_neg, hfound]
        rintro rfl
        cases hnone.symm.trans hfound
      · cases List.mem_singleton.mp hnew
        rw [if_pos rfl, hn]
  · intro name content hentry
    by_contra hname
    rw [created_entries, if_neg fun heq => hname (.inl heq), if_neg fun heq => hname (.inr heq), entered_eq] at hentry
    split_ifs at hentry
    · cases hentry
    · exact hname (h.ordinary hentry)

/-- **What one request keeps.** -/
theorem step (h : Sound options requests run) (hsize : recordBatchHeaderBytes ≤ options.segmentBytes)
    (hzero : count ≠ 0) : Sound options (requests ++ [(topic, count)]) (run.request (topic, count)) := by
  unfold TopicRun.request
  simp only
  cases hvalid : validateTopicName topic with
  | error status =>
      have hinvalid : validateTopicName topic ≠ .ok () := by
        rw [hvalid]
        exact fun heq => (by cases heq)
      unfold TopicDirectory.createTopic
      rw [hvalid]
      exact h.refused _ rfl rfl h.unwritten (fun _ => .inl rfl) (h.standing.same (.inl hinvalid))
  | ok _ =>
      cases hfind : run.directory.manager.topics.find? topic with
      | some existing =>
          have hfound : run.directory.manager.count? topic = some existing.partitions.length :=
            TopicManager.count?_eq_some.mpr ⟨existing, hfind, rfl⟩
          unfold TopicDirectory.createTopic
          rw [hvalid, hfind]
          simp only [if_neg hzero]
          by_cases hcount : existing.partitions.length = count.toNat
          · rw [if_pos hcount]
            exact h.repeated (hfound.trans (congrArg some hcount))
          · rw [if_neg hcount]
            exact h.refused _ rfl rfl h.unwritten (fun _ => .inl rfl)
              (h.standing.same (.inr ⟨⟨_, hfound⟩, (h.topic hfound).2.1⟩))
      | none =>
          have hroom : recordBatchHeaderBytes ≤ run.directory.manager.options.segmentBytes := by
            rw [h.options_eq]
            exact hsize
          have hentered : ∀ name, (run.directory.opening topic count).entries name = run.directory.entries name ∨
              (run.directory.opening topic count).entries name = some .directory ∨ IsReserved name := by
            intro name
            rw [opening_entries]
            split_ifs
            · exact .inr (.inl rfl)
            · exact .inl rfl
          have hunwritten : (run.directory.opening topic count).manager.Unwritten := h.unwritten.openTopic topic count none
          have hcreation := TopicDirectory.createTopic_new hroom hvalid hzero hfind
          generalize run.directory.createTopic topic count = result at hcreation
          cases hcreation with
          | notDirectory hentry =>
              exact h.refused _ rfl rfl h.unwritten (fun _ => .inl rfl)
                (h.standing.notDirectory hentry (h.ordinary hentry))
          | notOpened hentry hopen =>
              refine h.refused _ rfl rfl hunwritten hentered (h.standing.opening hvalid hentry fun _ _ => ?_)
              by_contra hle
              obtain ⟨opened, files, hok, -⟩ := @TopicManager.Unwritten.openTopic_ok _ topic count h.unwritten hroom
                (not_lt.mp hle)
              rw [hok] at hopen
              cases hopen
          | notWritten hentry hopen htemp =>
              refine h.refused _ rfl rfl hunwritten hentered
                (h.standing.opening hvalid hentry fun hordinary hfirst => ?_)
              rw [entered_eq, if_neg fun heq => hordinary (.inr heq.symm), (h.standing.of_find?_none hfirst).2] at htemp
              cases htemp
          | notRenamed hentry hopen htemp hmetadata content =>
              refine h.refused _ rfl rfl hunwritten (fun name => ?_) (Standing.notRenamed
                (h.standing.opening hvalid hentry fun hordinary hfirst => ?_) hmetadata content)
              · by_cases hname : name = metadataTempName
                · exact .inr (.inr (.inr hname))
                · simp only [Function.update_of_ne hname]
                  exact hentered name
              · rw [entered_eq, if_neg fun heq => hordinary (.inl heq.symm),
                  (h.standing.of_find?_none hfirst).1] at hmetadata
                cases hmetadata
          | created hentry hopen htemp hmetadata =>
              exact h.listed hvalid hzero (TopicManager.count?_none.mpr hfind) hopen htemp hmetadata

end TopicRun.Sound

/-- **What any requests keep.** -/
theorem TopicRun.sound {options : TopicManagerOptions} (hsize : recordBatchHeaderBytes ≤ options.segmentBytes)
    {requests : List (Bytes × UInt32)} (hpositive : ∀ request ∈ requests, request.2 ≠ 0) :
    Sound options requests (requestAll options requests) := by
  induction requests using List.reverseRecOn with
  | nil => exact .start
  | append_singleton requests last ih =>
      have hlast : last.2 ≠ 0 := hpositive last (List.mem_append_right _ List.mem_cons_self)
      unfold requestAll
      rw [List.foldl_append]
      exact (ih fun request hrequest => hpositive request (List.mem_append_left _ hrequest)).step hsize hlast

/-! ### What becomes of the list and of new topics -/

namespace TopicRun.Sound

variable {options : TopicManagerOptions} {requests : List (Bytes × UInt32)} {run : TopicRun}

/-- **Loading.** A new manager finds the acknowledged topics unless `topics.meta` has become a directory. -/
theorem loads_iff (h : Sound options requests run) (hsize : recordBatchHeaderBytes ≤ options.segmentBytes) :
    run.LoadsAcknowledged ↔ ¬ MetadataBlocked requests := by
  have hfresh : run.directory.entries metadataName = none → (∀ topic, run.directory.manager.count? topic = none) →
      run.LoadsAcknowledged := by
    intro hmetadata hempty
    refine ⟨run.directory.fresh run.directory.manager.options, ?_, fun topic n => ?_⟩
    · unfold TopicDirectory.load
      rw [hmetadata]
    · rw [← h.acknowledged, hempty]
      rfl
  cases h.standing with
  | untouched hfirst hmetadata _ hempty =>
      refine iff_of_true (hfresh hmetadata hempty) ?_
      rintro ⟨-, first, hsome, -⟩
      cases hfirst.symm.trans hsome
  | listed hfirst hordinary hmetadata _ =>
      refine iff_of_true ?_ ?_
      · have hroom : recordBatchHeaderBytes ≤ run.directory.manager.options.segmentBytes := by
          rw [h.options_eq]
          exact hsize
        obtain ⟨loaded, hload, hcounts⟩ := TopicDirectory.load_listing hmetadata h.valid h.unwritten
          (fun topic n hcount => (h.topic hcount).2.2) hroom
        exact ⟨loaded, hload, fun topic n => by rw [hcounts, h.acknowledged]⟩
      · rintro ⟨-, first, hsome, hreserved⟩
        cases hfirst.symm.trans hsome
        exact hordinary hreserved
  | unlisted _ _ hnot hmetadata _ hempty => exact iff_of_true (hfresh hmetadata hempty) fun hblocked => hnot hblocked.1
  | blocked hfirst hreserved hmem hmetadata _ =>
      refine iff_of_false ?_ (not_not.mpr ⟨hmem, _, hfirst, hreserved⟩)
      rintro ⟨loaded, hload, -⟩
      unfold TopicDirectory.load at hload
      rw [hmetadata] at hload
      cases hload

/-- The manager's files are in their places as long as no request has taken one of them. -/
theorem entries_iff (h : Sound options requests run) :
    (run.directory.entries metadataTempName ≠ some .directory ∧ run.directory.entries metadataName ≠ some .directory) ↔
      metadataTempName ∉ requests.map Prod.fst ∧ ¬ MetadataBlocked requests := by
  cases h.standing with
  | untouched hfirst hmetadata htemp _ =>
      rw [hmetadata, htemp]
      refine iff_of_true ⟨nofun, nofun⟩ ⟨notMem_of_find?_none hfirst (.inr rfl), ?_⟩
      rintro ⟨-, first, hsome, -⟩
      cases hfirst.symm.trans hsome
  | listed hfirst hordinary hmetadata htemp =>
      have hunblocked : ¬ MetadataBlocked requests := by
        rintro ⟨-, first, hsome, hreserved⟩
        cases hfirst.symm.trans hsome
        exact hordinary hreserved
      rw [hmetadata, htemp]
      simp [hunblocked]
  | unlisted hfirst hreserved hnot _ htemp _ =>
      have hmem := List.mem_map_of_mem (f := Prod.fst) (List.mem_of_find?_eq_some hfirst)
      rcases hreserved with hname | hname
      · exact absurd (hname ▸ hmem) hnot
      · exact iff_of_false (fun hentries => hentries.1 htemp) fun hmissing => hmissing.1 (hname ▸ hmem)
  | blocked hfirst hreserved hmem hmetadata _ =>
      exact iff_of_false (fun hentries => hentries.2 hmetadata) fun hmissing => hmissing.2 ⟨hmem, _, hfirst, hreserved⟩

/-- **Creating.** A name that is new can be created if no file of the manager has it and no request has taken the
place of such a file. -/
theorem canCreate_iff (h : Sound options requests run) (hsize : recordBatchHeaderBytes ≤ options.segmentBytes)
    {name : Bytes} (hvalid : validateTopicName name = .ok ()) (hnew : name ∉ requests.map Prod.fst) :
    run.CanCreate name ↔
      ¬ IsReserved name ∧ metadataTempName ∉ requests.map Prod.fst ∧ ¬ MetadataBlocked requests := by
  have hroom : recordBatchHeaderBytes ≤ run.directory.manager.options.segmentBytes := by
    rw [h.options_eq]
    exact hsize
  have hfind : run.directory.manager.topics.find? name = none := by
    cases hfound : run.directory.manager.topics.find? name with
    | none => rfl
    | some existing => exact absurd (h.topic (TopicManager.count?_eq_some.mpr ⟨existing, hfound, rfl⟩)).1 hnew
  rw [← h.entries_iff]
  have hentered : ¬ IsReserved name → ∀ {reserved}, IsReserved reserved →
      run.directory.entered name reserved = run.directory.entries reserved := by
    intro hordinary reserved hreserved
    rw [entered_eq, if_neg]
    rintro rfl
    exact hordinary hreserved
  constructor
  · rintro ⟨count, hzero, hok⟩
    have hcreation := TopicDirectory.createTopic_new hroom hvalid hzero hfind
    generalize run.directory.createTopic name count = result at hcreation hok
    cases hcreation with
    | created hentry hopen htemp hmetadata =>
        have hordinary : ¬ IsReserved name := by
          rintro (rfl | rfl)
          · exact hmetadata (Function.update_self _ _ _)
          · exact htemp (Function.update_self _ _ _)
        rw [hentered hordinary (.inr rfl)] at htemp
        rw [hentered hordinary (.inl rfl)] at hmetadata
        exact ⟨hordinary, htemp, hmetadata⟩
    | notDirectory => cases hok
    | notOpened => cases hok
    | notWritten => cases hok
    | notRenamed => cases hok
  · rintro ⟨hordinary, htempEntry, hmetadataEntry⟩
    refine ⟨1, by decide, ?_⟩
    have hcreation := TopicDirectory.createTopic_new hroom hvalid (by decide : (1 : UInt32) ≠ 0) hfind
    generalize run.directory.createTopic name 1 = result at hcreation
    cases hcreation with
    | created => rfl
    | notDirectory hentry => exact absurd (h.ordinary hentry) hordinary
    | notOpened hentry hopen =>
        obtain ⟨opened, files, hok, -⟩ := @TopicManager.Unwritten.openTopic_ok _ name 1 h.unwritten hroom (by decide)
        rw [hok] at hopen
        cases hopen
    | notWritten hentry hopen htemp =>
        rw [hentered hordinary (.inr rfl)] at htemp
        exact absurd htemp htempEntry
    | notRenamed hentry hopen htemp hmetadata =>
        rw [hentered hordinary (.inl rfl)] at hmetadata
        exact absurd hmetadata hmetadataEntry

end TopicRun.Sound

/-- **When requests for topics are harmless.** The list can be loaded unless `topics.meta` is requested before it is
written. A new name can be created unless a file of the manager has it or has lost its place. So the requests are
harmless only if no valid name of a permitted length is left. -/
theorem requestsHarmless_iff {options : TopicManagerOptions} (hsize : recordBatchHeaderBytes ≤ options.segmentBytes)
    {limit : Nat} (hlimit : metadataTempName.length ≤ limit) {requests : List (Bytes × UInt32)}
    (hpositive : ∀ request ∈ requests, request.2 ≠ 0) :
    ((TopicRun.requestAll options requests).LoadsAcknowledged ↔ ¬ MetadataBlocked requests) ∧
      (∀ name, validateTopicName name = .ok () → name ∉ requests.map Prod.fst →
        ((TopicRun.requestAll options requests).CanCreate name ↔
          ¬ IsReserved name ∧ metadataTempName ∉ requests.map Prod.fst ∧ ¬ MetadataBlocked requests)) ∧
      (RequestsHarmless options limit requests ↔
        (∀ name, validateTopicName name = .ok () → name.length ≤ limit → name ∈ requests.map Prod.fst) ∧
          ¬ MetadataBlocked requests) := by
  have hsound := TopicRun.sound hsize hpositive
  refine ⟨hsound.loads_iff hsize, fun name hvalid hnew => hsound.canCreate_iff hsize hvalid hnew, ?_⟩
  constructor
  · intro h
    refine ⟨fun name hvalid hlength => ?_, (hsound.loads_iff hsize).mp h.loads⟩
    by_contra hnew
    -- the name of the temporary file is left as well, and it cannot be created
    obtain ⟨-, htemp, -⟩ := (hsound.canCreate_iff hsize hvalid hnew).mp (h.creates name hvalid hlength hnew)
    have hreserved : IsReserved metadataTempName := .inr rfl
    have hcreates := h.creates metadataTempName hreserved.valid hlimit htemp
    exact ((hsound.canCreate_iff hsize hreserved.valid htemp).mp hcreates).1 hreserved
  · rintro ⟨hall, hunblocked⟩
    exact ⟨(hsound.loads_iff hsize).mpr hunblocked, fun name hvalid hlength hnew =>
      absurd (hall name hvalid hlength) hnew⟩

/-- One ordinary topic: the list is loaded and `invoices` can be created, but `topics.meta.tmp` cannot. -/
theorem requestsHarmless_iff_orders :
    (TopicRun.requestAll { dataDir := "data" } [(text "orders", 3)]).LoadsAcknowledged ∧
      (TopicRun.requestAll { dataDir := "data" } [(text "orders", 3)]).CanCreate (text "invoices") ∧
      ¬ RequestsHarmless { dataDir := "data" } 255 [(text "orders", 3)] := by
  have hunblocked : ¬ MetadataBlocked [(text "orders", 3)] := fun hblocked => absurd hblocked.1 (by decide +kernel)
  obtain ⟨hloads, hcreates, hharmless⟩ := @requestsHarmless_iff { dataDir := "data" } (by decide) 255 (by decide +kernel)
    [(text "orders", 3)] (by decide +kernel)
  refine ⟨hloads.mpr hunblocked, (hcreates _ (by decide +kernel) (by decide +kernel)).mpr
    ⟨by decide +kernel, by decide +kernel, hunblocked⟩, fun h => ?_⟩
  have hall := (hharmless.mp h).1 (text "invoices") (by decide +kernel) (by decide +kernel)
  exact absurd hall (by decide +kernel)

/-- `topics.meta` is requested first. The request is refused, and so is every later one; and the next start finds a
directory where the list should be. -/
theorem requestedMetadata_blocks :
    (TopicRun.requestAll { dataDir := "data" } [(metadataName, 1)]).acknowledged = [] ∧
      ((TopicRun.requestAll { dataDir := "data" } [(metadataName, 1)]).directory.createTopic (text "orders") 1).1 =
        .error (.ioError "rename topic metadata: Is a directory") ∧
      (TopicRun.requestAll { dataDir := "data" } [(metadataName, 1)]).directory.load { dataDir := "data" } =
        .error (.corruption "topic metadata is empty") ∧
      ¬ RequestsHarmless { dataDir := "data" } 255 [(metadataName, 1)] := by
  have hentry : (TopicRun.requestAll { dataDir := "data" } [(metadataName, 1)]).directory.entries metadataName =
      some .directory := by decide +kernel
  have hload : ∀ options, (TopicRun.requestAll { dataDir := "data" } [(metadataName, 1)]).directory.load options =
      .error (.corruption "topic metadata is empty") := by
    intro options
    unfold TopicDirectory.load
    rw [hentry]
  refine ⟨by decide +kernel, by decide +kernel, hload _, fun h => ?_⟩
  obtain ⟨loaded, hloaded, -⟩ := h.loads
  rw [hload] at hloaded
  cases hloaded

end LogMq
