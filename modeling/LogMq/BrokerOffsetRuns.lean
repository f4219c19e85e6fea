import LogMq.BrokerOffsetFiles

/-! Runs of commits that may fail or crash anywhere, and what `Load` finds afterwards: for every key the offset of
the last commit whose file was renamed. -/

namespace LogMq

open Text

/-! ### Files that stand for offsets -/

/-- A file of a group is temporary, whatever it holds, or it stands for one of these offsets. -/
inductive StandsFor (groupId : Bytes) (offsets : ConsumerOffsetKey → Option Int) : Bytes → GroupEntry → Prop
  | temp {topic : Bytes} {partitionId : Int} {content : Bytes} (htopic : topic ≠ []) :
      StandsFor groupId offsets (offsetTempName topic partitionId) (.file content)
  | committed {topic : Bytes} {partitionId offset : Int}
      (hoffset : offsets ⟨groupId, topic, partitionId⟩ = some offset) :
      StandsFor groupId offsets (offsetFileName topic partitionId)
        (.file (offsetFileText ⟨groupId, topic, partitionId⟩ offset))

/-- The files of a group stand for its offsets. -/
structure GroupStores (groupId : Bytes) (files : SortedMap Bytes GroupEntry)
    (offsets : ConsumerOffsetKey → Option Int) : Prop where
  sound : ∀ name entry, files.find? name = some entry → StandsFor groupId offsets name entry
  complete : ∀ topic partitionId offset, offsets ⟨groupId, topic, partitionId⟩ = some offset →
    files.find? (offsetFileName topic partitionId) =
      some (.file (offsetFileText ⟨groupId, topic, partitionId⟩ offset))

/-- The directory stands for these offsets. -/
structure Stores (root : OffsetRoot) (offsets : ConsumerOffsetKey → Option Int) : Prop where
  storable : ∀ key offset, offsets key = some offset → Storable key offset
  groups : ∀ groupId entry, root.find? groupId = some entry → validateSafeName groupId "group_id" = .ok () ∧
    ∃ files, entry = .directory files ∧ GroupStores groupId files offsets
  absent : ∀ key, root.find? key.groupId = none → offsets key = none

theorem ne_nil_of_validateSafeName {name : Bytes} {field : String} (h : validateSafeName name field = .ok ()) :
    name ≠ [] :=
  (isWord_of_validateSafeName h).1

theorem offsetFileName_injective {key other : ConsumerOffsetKey} {offset otherOffset : Int} (h : Storable key offset)
    (hother : Storable other otherOffset) (hgroup : other.groupId = key.groupId)
    (hname : offsetFileName other.topic other.partitionId = offsetFileName key.topic key.partitionId) :
    other = key := by
  have hparse := parseOffsetFilename_offsetFileName (ne_nil_of_validateSafeName hother.topic) hother.partition_nonneg
    hother.partition_le
  rw [hname, parseOffsetFilename_offsetFileName (ne_nil_of_validateSafeName h.topic) h.partition_nonneg
    h.partition_le] at hparse
  obtain ⟨htopic, hpartition⟩ := Prod.mk.inj (Option.some.inj hparse)
  cases key
  cases other
  simp only at hgroup htopic hpartition
  rw [hgroup, htopic, hpartition]

theorem offsetFileName_ne_temp {key : ConsumerOffsetKey} {offset : Int} (h : Storable key offset) {topic : Bytes}
    {partitionId : Int} (htopic : topic ≠ []) :
    offsetFileName key.topic key.partitionId ≠ offsetTempName topic partitionId := by
  intro hname
  have hparse := parseOffsetFilename_offsetFileName (ne_nil_of_validateSafeName h.topic) h.partition_nonneg
    h.partition_le
  rw [hname, parseOffsetFilename_offsetTempName htopic] at hparse
  cases hparse

namespace OffsetRoot

/-! ### Loading -/

/-- One offset holds what the other one does. -/
def Within (loaded offsets : ConsumerOffsetKey → Option Int) : Prop :=
  ∀ key offset, loaded key = some offset → offsets key = some offset

theorem emplace_within {loaded offsets : ConsumerOffsetKey → Option Int} {key : ConsumerOffsetKey} {offset : Int}
    (h : Within loaded offsets) (hkey : offsets key = some offset) :
    Within (emplace loaded key offset) offsets ∧ Within loaded (emplace loaded key offset) ∧
      emplace loaded key offset key = some offset := by
  unfold emplace
  cases hloaded : loaded key with
  | some old =>
      rw [if_pos Option.isSome_some]
      refine ⟨h, fun _ _ hfound => hfound, ?_⟩
      rw [hloaded, ← hkey, h key old hloaded]
  | none =>
      rw [if_neg (by simp)]
      refine ⟨fun other found hfound => ?_, fun other found hfound => ?_, if_pos rfl⟩
      · unfold OffsetStore.set at hfound
        split_ifs at hfound with hother
        · rw [hother, hkey]
          exact hfound
        · exact h other found hfound
      · unfold OffsetStore.set
        rw [if_neg (by rintro rfl; rw [hloaded] at hfound; cases hfound)]
        exact hfound

theorem Within.trans {first second third : ConsumerOffsetKey → Option Int} (h : Within first second)
    (h' : Within second third) : Within first third :=
  fun key offset hfound => h' key offset (h key offset hfound)

/-- The loop over the files of a group finds the offsets of its files. -/
theorem loadGroup_ok {groupId : Bytes} {offsets loaded : ConsumerOffsetKey → Option Int}
    {entries : List (Bytes × GroupEntry)} (hstorable : ∀ key offset, offsets key = some offset → Storable key offset)
    (hsound : ∀ name entry, (name, entry) ∈ entries → StandsFor groupId offsets name entry)
    (hloaded : Within loaded offsets) :
    ∃ after, loadGroup groupId entries loaded = .ok after ∧ Within after offsets ∧ Within loaded after ∧
      ∀ topic partitionId entry, (offsetFileName topic partitionId, entry) ∈ entries →
        ∀ offset, offsets ⟨groupId, topic, partitionId⟩ = some offset →
          after ⟨groupId, topic, partitionId⟩ = some offset := by
  induction entries generalizing loaded with
  | nil => exact ⟨loaded, rfl, hloaded, fun _ _ hfound => hfound, fun _ _ _ hmem => by cases hmem⟩
  | cons head rest ih =>
      obtain ⟨name, entry⟩ := head
      have hrest := fun other found hmem => hsound other found (List.mem_cons_of_mem _ hmem)
      cases hsound name entry List.mem_cons_self with
      | temp htopic =>
        obtain ⟨after, hload, hwithin, hkept, hfound⟩ := ih hrest hloaded
        refine ⟨after, ?_, hwithin, hkept, fun otherTopic otherPartition found hmem otherOffset hother => ?_⟩
        · rw [loadGroup, parseOffsetFilename_offsetTempName htopic]
          exact hload
        · rcases List.mem_cons.mp hmem with hhead | htail
          · exact absurd (congrArg Prod.fst hhead)
              (offsetFileName_ne_temp (hstorable _ _ hother) htopic)
          · exact hfound _ _ _ htail _ hother
      | committed hoffset =>
        have hkey := hstorable _ _ hoffset
        obtain ⟨hnext, hgrown, hthis⟩ := emplace_within hloaded hoffset
        obtain ⟨after, hload, hwithin, hkept, hfound⟩ := ih hrest hnext
        refine ⟨after, ?_, hwithin, hgrown.trans hkept, fun otherTopic otherPartition found hmem otherOffset hother => ?_⟩
        · rw [loadGroup, parseOffsetFilename_offsetFileName (ne_nil_of_validateSafeName hkey.topic)
            hkey.partition_nonneg hkey.partition_le]
          simp only
          rw [hkey.topic, readOffsetFile_offsetFileText hkey]
          exact hload
        · rcases List.mem_cons.mp hmem with hhead | htail
          · have hsame := offsetFileName_injective hkey (hstorable _ _ hother) rfl (congrArg Prod.fst hhead)
            rw [hsame] at hother ⊢
            rw [hoffset] at hother
            cases hother
            exact hkept _ _ hthis
          · exact hfound _ _ _ htail _ hother

/-- **What `Load` finds.** Whatever the order of the directories, it finds the offsets they stand for. -/
theorem load_ok {root : OffsetRoot} {offsets : ConsumerOffsetKey → Option Int} (h : Stores root offsets)
    (listing : OffsetListing root) : load listing = .ok offsets := by
  have hgroups : ∀ groups loaded, (∀ entry ∈ groups, entry ∈ root.entries) → Within loaded offsets →
      ∃ after, loadGroups listing.files groups loaded = .ok after ∧ Within after offsets ∧ Within loaded after ∧
        ∀ key offset, offsets key = some offset → (∃ entry, (key.groupId, entry) ∈ groups) →
          after key = some offset := by
    intro groups
    induction groups with
    | nil =>
        intro loaded _ hloaded
        exact ⟨loaded, rfl, hloaded, fun _ _ hfound => hfound, fun _ _ _ hmem => by
          obtain ⟨_, hmem⟩ := hmem
          cases hmem⟩
    | cons head rest ih =>
        intro loaded hmem hloaded
        obtain ⟨groupId, entry⟩ := head
        have hfind := SortedMap.mem_entries.mp (hmem _ List.mem_cons_self)
        obtain ⟨hgroup, files, rfl, hfiles⟩ := h.groups groupId entry hfind
        have hperm := listing.files_perm groupId files hfind
        obtain ⟨middle, hmiddle, hwithin, hkept, hall⟩ := @loadGroup_ok groupId _ loaded
          (listing.files groupId) h.storable
          (fun name entry hentry => hfiles.sound name entry (SortedMap.mem_entries.mp (hperm.subset hentry))) hloaded
        obtain ⟨after, hafter, hwithin', hkept', hall'⟩ :=
          ih middle (fun entry hentry => hmem entry (List.mem_cons_of_mem _ hentry)) hwithin
        refine ⟨after, ?_, hwithin', hkept.trans hkept', fun key offset hkey hlisted => ?_⟩
        · rw [loadGroups, hgroup]
          show (loadGroup groupId (listing.files groupId) loaded >>= fun loaded =>
            loadGroups listing.files rest loaded) = _
          rw [hmiddle]
          exact hafter
        · obtain ⟨entry, hentry⟩ := hlisted
          rcases List.mem_cons.mp hentry with hhead | htail
          · obtain ⟨rfl, -⟩ := Prod.mk.inj hhead
            have hfile := hfiles.complete key.topic key.partitionId offset hkey
            exact hkept' _ _ (hall _ _ _ (hperm.symm.subset (SortedMap.mem_entries.mpr hfile)) _ hkey)
          · exact hall' key offset hkey ⟨entry, htail⟩
  obtain ⟨after, hafter, hwithin, -, hall⟩ :=
    hgroups listing.groups (fun _ => none) (fun entry hentry => listing.groups_perm.subset hentry)
      (fun _ _ hnone => by cases hnone)
  have hsame : after = offsets := by
    funext key
    cases hoffset : offsets key with
    | some offset =>
        apply hall key offset hoffset
        cases hgroup : root.find? key.groupId with
        | none =>
            rw [h.absent key hgroup] at hoffset
            cases hoffset
        | some entry => exact ⟨entry, listing.groups_perm.symm.subset (SortedMap.mem_entries.mpr hgroup)⟩
    | none =>
        cases hloaded : after key with
        | none => rfl
        | some offset => cases (hwithin key offset hloaded).symm.trans hoffset
  rw [load, hafter, hsame]

/-! ### Committing -/

end OffsetRoot

section Commit

variable {groupId : Bytes} {files : SortedMap Bytes GroupEntry} {offsets : ConsumerOffsetKey → Option Int}
  {key : ConsumerOffsetKey} {offset : Int}

theorem StandsFor.set {name : Bytes} {entry : GroupEntry} (h : StandsFor key.groupId offsets name entry)
    (offset : Int) (hname : name ≠ offsetFileName key.topic key.partitionId) :
    StandsFor key.groupId (OffsetStore.set offsets key offset) name entry := by
  cases h with
  | temp htopic => exact .temp htopic
  | committed hoffset =>
      refine .committed ?_
      unfold OffsetStore.set
      rw [if_neg fun hsame => hname (by rw [← hsame])]
      exact hoffset

/-- A temporary file does not matter. -/
theorem GroupStores.insertTemp (h : GroupStores groupId files offsets)
    (hstorable : ∀ key offset, offsets key = some offset → Storable key offset) {topic : Bytes} (htopic : topic ≠ [])
    (partitionId : Int) (content : Bytes) :
    GroupStores groupId (files.insert (offsetTempName topic partitionId) (.file content)) offsets where
  sound name entry hfind := by
    rw [SortedMap.find?_insert] at hfind
    split_ifs at hfind with hname
    · cases hfind
      rw [hname]
      exact .temp htopic
    · exact h.sound name entry hfind
  complete otherTopic otherPartition found hfound := by
    rw [SortedMap.find?_insert_of_ne (offsetFileName_ne_temp (hstorable _ _ hfound) htopic)]
    exact h.complete otherTopic otherPartition found hfound

/-- A renamed file takes the place of the old one. -/
theorem GroupStores.rename (h : GroupStores key.groupId files offsets)
    (hstorable : ∀ key offset, offsets key = some offset → Storable key offset) (hkey : Storable key offset) :
    GroupStores key.groupId ((files.erase (offsetTempName key.topic key.partitionId)).insert
      (offsetFileName key.topic key.partitionId) (.file (offsetFileText key offset)))
      (OffsetStore.set offsets key offset) where
  sound name entry hfind := by
    rw [SortedMap.find?_insert, SortedMap.find?_erase] at hfind
    split_ifs at hfind with hname htemp
    · cases hfind
      rw [hname]
      exact .committed (if_pos rfl)
    · exact (h.sound name entry hfind).set offset hname
  complete topic partitionId found hfound := by
    unfold OffsetStore.set at hfound
    split_ifs at hfound with hsame
    · cases hfound
      rw [← hsame]
      exact SortedMap.find?_insert_self _ _ _
    · have hother := hstorable _ _ hfound
      have hname : offsetFileName topic partitionId ≠ offsetFileName key.topic key.partitionId :=
        fun hname => hsame (offsetFileName_injective hkey hother rfl hname)
      rw [SortedMap.find?_insert_of_ne hname, SortedMap.find?_erase,
        if_neg (offsetFileName_ne_temp hother (ne_nil_of_validateSafeName hkey.topic))]
      exact h.complete topic partitionId found hfound

namespace Stores

variable {root : OffsetRoot}

/-- The directory of a group, which may have to be created. -/
theorem groupFiles (h : Stores root offsets) (groupId : Bytes) :
    ∃ files, OffsetRoot.groupFiles root groupId = some files ∧ GroupStores groupId files offsets := by
  unfold OffsetRoot.groupFiles
  cases hfind : root.find? groupId with
  | none =>
      refine ⟨.empty, rfl, ⟨fun name entry hfound => ?_, fun topic partitionId offset hoffset => ?_⟩⟩
      · cases hfound
      · rw [h.absent ⟨groupId, topic, partitionId⟩ hfind] at hoffset
        cases hoffset
  | some entry =>
      obtain ⟨-, files, rfl, hfiles⟩ := h.groups groupId entry hfind
      exact ⟨files, rfl, hfiles⟩

/-- Other files for the group of a key. -/
theorem insert (h : Stores root offsets) {after : ConsumerOffsetKey → Option Int}
    (hgroup : validateSafeName groupId "group_id" = .ok ()) (hfiles : GroupStores groupId files after)
    (hstorable : ∀ key offset, after key = some offset → Storable key offset)
    (hothers : ∀ key, key.groupId ≠ groupId → after key = offsets key) :
    Stores (root.insert groupId (.directory files)) after where
  storable := hstorable
  groups other entry hfind := by
    rw [SortedMap.find?_insert] at hfind
    split_ifs at hfind with hsame
    · cases hfind
      rw [hsame]
      exact ⟨hgroup, files, rfl, hfiles⟩
    · obtain ⟨hname, found, rfl, hfound⟩ := h.groups other entry hfind
      refine ⟨hname, found, rfl, fun name entry hentry => ?_, fun topic partitionId offset hoffset => ?_⟩
      · cases hfound.sound name entry hentry with
        | temp htopic => exact .temp htopic
        | committed hoffset =>
            refine .committed ?_
            rw [hothers _ hsame]
            exact hoffset
      · rw [hothers _ hsame] at hoffset
        exact hfound.complete topic partitionId offset hoffset
  absent key hfind := by
    rw [SortedMap.find?_insert] at hfind
    split_ifs at hfind with hsame
    rw [hothers key hsame]
    exact h.absent key hfind

end Stores

/-- What `PersistLocked` leaves behind: nothing new, a temporary file, or the renamed file. -/
theorem OffsetRoot.persistFile_cases (dataDir : String) (files : SortedMap Bytes GroupEntry)
    (key : ConsumerOffsetKey) (offset : Int) (fault : Option CommitFault) :
    (∃ status, persistFile dataDir files key offset fault = (.error status, files)) ∨
      (∃ status content, persistFile dataDir files key offset fault =
        (.error status, files.insert (offsetTempName key.topic key.partitionId) (.file content))) ∨
      persistFile dataDir files key offset fault =
        (.ok (), (files.erase (offsetTempName key.topic key.partitionId)).insert
          (offsetFileName key.topic key.partitionId) (.file (offsetFileText key offset))) := by
  unfold persistFile
  simp only
  split
  · exact .inl ⟨_, rfl⟩
  · exact .inl ⟨_, rfl⟩
  · exact .inr (.inl ⟨_, _, rfl⟩)
  · exact .inr (.inl ⟨_, _, rfl⟩)
  · exact .inr (.inl ⟨_, _, rfl⟩)
  · exact .inr (.inr rfl)

/-- `PersistLocked` fails and the directory stands for the same offsets, or it has renamed the file. -/
theorem Stores.persist {root : OffsetRoot} (h : Stores root offsets) (hkey : Storable key offset) (dataDir : String)
    (fault : Option OffsetRoot.CommitFault) :
    (∃ status after, OffsetRoot.persist dataDir root key offset fault = (.error status, after) ∧
        Stores after offsets) ∨
      ∃ after, OffsetRoot.persist dataDir root key offset fault = (.ok (), after) ∧
        Stores after (OffsetStore.set offsets key offset) := by
  obtain ⟨files, hgroup, hfiles⟩ := h.groupFiles key.groupId
  have hsome := ne_nil_of_validateSafeName hkey.topic
  have hset : ∀ other found, OffsetStore.set offsets key offset other = some found → Storable other found := by
    intro other found hfound
    unfold OffsetStore.set at hfound
    split_ifs at hfound with hsame
    · cases hfound
      rw [hsame]
      exact hkey
    · exact h.storable other found hfound
  have hothers : ∀ other : ConsumerOffsetKey, other.groupId ≠ key.groupId →
      OffsetStore.set offsets key offset other = offsets other :=
    fun other hother => if_neg fun hsame => hother (by rw [hsame])
  by_cases hdirectory : ∃ reason, fault = some (.directory reason)
  · obtain ⟨reason, rfl⟩ := hdirectory
    exact .inl ⟨_, _, rfl, h⟩
  · have hfile : OffsetRoot.persist dataDir root key offset fault =
        ((OffsetRoot.persistFile dataDir files key offset fault).1,
          root.insert key.groupId (.directory (OffsetRoot.persistFile dataDir files key offset fault).2)) := by
      unfold OffsetRoot.persist
      rw [hgroup]
      rcases fault with _ | _ | _ | _ | _
      case some.directory reason => exact absurd ⟨reason, rfl⟩ hdirectory
      all_goals rfl
    rcases OffsetRoot.persistFile_cases dataDir files key offset fault with
      ⟨status, hpersist⟩ | ⟨status, content, hpersist⟩ | hpersist
    · rw [hfile, hpersist]
      exact .inl ⟨status, _, rfl, h.insert hkey.group hfiles h.storable fun _ _ => rfl⟩
    · rw [hfile, hpersist]
      exact .inl ⟨status, _, rfl,
        h.insert hkey.group (hfiles.insertTemp h.storable hsome _ _) h.storable fun _ _ => rfl⟩
    · rw [hfile, hpersist]
      exact .inr ⟨_, rfl, h.insert hkey.group (hfiles.rename h.storable hkey) hset hothers⟩

/-- **`Commit` refines the store.** On files that stand for the offsets of a store, it does what the store does with
some outcome of writing the file. -/
theorem Stores.commit {root : OffsetRoot} {store : OffsetStore} (h : Stores root store.files)
    (hpartition : IsInt32 key.partitionId) (hoffset : IsInt64 offset) (dataDir : String)
    (fault : Option OffsetRoot.CommitFault) :
    ∃ failure after, OffsetRoot.commit dataDir root store.offsets key offset fault =
        ((store.commit key offset failure).1, after, (store.commit key offset failure).2.offsets) ∧
      Stores after (store.commit key offset failure).2.files := by
  unfold OffsetRoot.commit OffsetStore.commit
  cases hvalid : OffsetStore.validateKey key with
  | error status => exact ⟨none, root, rfl, h⟩
  | ok _ =>
      simp only
      by_cases hnegative : offset < 0
      · simp only [if_pos hnegative]
        exact ⟨none, root, rfl, h⟩
      · simp only [if_neg hnegative]
        obtain ⟨_, hgroup, hrest⟩ := Result.bind_eq_ok.mp hvalid
        obtain ⟨_, htopic, hsign⟩ := Result.bind_eq_ok.mp hrest
        have hnonneg : 0 ≤ key.partitionId := by
          by_contra hlt
          rw [if_pos (by omega)] at hsign
          cases hsign
        have hkey : Storable key offset := by
          refine ⟨hgroup, htopic, hnonneg, ?_, by omega, hoffset.2⟩
          have hlt := hpartition.2
          unfold maxInt32
          omega
        rcases h.persist hkey dataDir fault with ⟨status, after, hpersist, hafter⟩ | ⟨after, hpersist, hafter⟩
        · rw [hpersist]
          exact ⟨some status, after, rfl, hafter⟩
        · rw [hpersist]
          exact ⟨none, after, rfl, hafter⟩

end Commit

/-! ### Runs -/

/-- A data directory and the store that runs on it, if any. The last two fields are the history of the run: the
commits whose file was renamed, and those that were acknowledged, each with the newest one last. -/
structure OffsetHost where
  root : OffsetRoot := .empty
  memory : Option (ConsumerOffsetKey → Option Int) := some fun _ => none
  renamed : List (ConsumerOffsetKey × Int) := []
  acknowledged : List (ConsumerOffsetKey × Int) := []

namespace OffsetHost

/-- A list of commits, with one more if it succeeded. -/
def record (commits : List (ConsumerOffsetKey × Int)) (key : ConsumerOffsetKey) (offset : Int) :
    Result Unit → List (ConsumerOffsetKey × Int)
  | .ok () => commits ++ [(key, offset)]
  | .error _ => commits

/-- A `Commit` that returns. -/
def commit (dataDir : String) (host : OffsetHost) (memory : ConsumerOffsetKey → Option Int)
    (key : ConsumerOffsetKey) (offset : Int) (fault : Option OffsetRoot.CommitFault) : OffsetHost :=
  let (result, root, offsets) := OffsetRoot.commit dataDir host.root memory key offset fault
  { root := root
    memory := some offsets
    renamed := record host.renamed key offset result
    acknowledged := record host.acknowledged key offset result }

/-- A crash inside a `Commit`: where the fault would have been, or behind the rename. -/
def crash (dataDir : String) (host : OffsetHost) (memory : ConsumerOffsetKey → Option Int)
    (key : ConsumerOffsetKey) (offset : Int) (fault : Option OffsetRoot.CommitFault) : OffsetHost :=
  let (result, root, _) := OffsetRoot.commit dataDir host.root memory key offset fault
  { host with root := root, memory := none, renamed := record host.renamed key offset result }

end OffsetHost

/-- The steps of a run. The types of the arguments are those of a partition id and of an offset. -/
inductive OffsetStep (dataDir : String) : OffsetHost → OffsetHost → Prop
  | commit {host : OffsetHost} {memory : ConsumerOffsetKey → Option Int} (hmemory : host.memory = some memory)
      {key : ConsumerOffsetKey} (hpartition : IsInt32 key.partitionId) {offset : Int} (hoffset : IsInt64 offset)
      (fault : Option OffsetRoot.CommitFault) : OffsetStep dataDir host (host.commit dataDir memory key offset fault)
  | crash {host : OffsetHost} {memory : ConsumerOffsetKey → Option Int} (hmemory : host.memory = some memory)
      {key : ConsumerOffsetKey} (hpartition : IsInt32 key.partitionId) {offset : Int} (hoffset : IsInt64 offset)
      (fault : Option OffsetRoot.CommitFault) : OffsetStep dataDir host (host.crash dataDir memory key offset fault)
  | restart {host : OffsetHost} (listing : OffsetListing host.root) {loaded : ConsumerOffsetKey → Option Int}
      (hload : OffsetRoot.load listing = .ok loaded) : OffsetStep dataDir host { host with memory := some loaded }

/-- A run from an empty directory. -/
def OffsetReaches (dataDir : String) (host : OffsetHost) : Prop :=
  Relation.ReflTransGen (OffsetStep dataDir) {} host

/-- The offset of the last commit of a key. -/
def lastOffset (commits : List (ConsumerOffsetKey × Int)) (key : ConsumerOffsetKey) : Option Int :=
  (commits.reverse.find? fun commit => commit.1 = key).map Prod.snd

theorem lastOffset_append (commits : List (ConsumerOffsetKey × Int)) (key : ConsumerOffsetKey) (offset : Int) :
    lastOffset (commits ++ [(key, offset)]) = OffsetStore.set (lastOffset commits) key offset := by
  funext other
  unfold lastOffset OffsetStore.set
  rw [List.reverse_append, List.reverse_singleton, List.singleton_append, List.find?_cons]
  by_cases hsame : other = key
  · rw [if_pos hsame, decide_eq_true hsame.symm]
    rfl
  · rw [if_neg hsame, decide_eq_false (Ne.symm hsame)]

/-- The files and the store agree on the commits whose file was renamed. -/
structure OffsetHost.Agrees (host : OffsetHost) : Prop where
  stores : Stores host.root (lastOffset host.renamed)
  memory : ∀ memory, host.memory = some memory → memory = lastOffset host.renamed
  acknowledged : host.acknowledged.Sublist host.renamed

namespace OffsetHost.Agrees

variable {host : OffsetHost} {memory : ConsumerOffsetKey → Option Int} {key : ConsumerOffsetKey} {offset : Int}

theorem start : Agrees {} where
  stores := ⟨fun key offset h => (by cases h), fun groupId entry h => (by cases h), fun key _ => rfl⟩
  memory memory h := by
    cases h
    rfl
  acknowledged := List.Sublist.refl _

/-- What a `Commit` does to the files, in memory and in the history. -/
theorem afterCommit (h : host.Agrees) (hmemory : host.memory = some memory) (hpartition : IsInt32 key.partitionId)
    (hoffset : IsInt64 offset) (dataDir : String) (fault : Option OffsetRoot.CommitFault) :
    ∃ result root, OffsetRoot.commit dataDir host.root memory key offset fault =
        (result, root, lastOffset (record host.renamed key offset result)) ∧
      Stores root (lastOffset (record host.renamed key offset result)) := by
  rw [h.memory memory hmemory]
  obtain ⟨failure, root, hcommit, hroot⟩ :=
    @Stores.commit _ _ _ ⟨lastOffset host.renamed, lastOffset host.renamed⟩ h.stores hpartition hoffset dataDir fault
  rcases OffsetStore.commit_cases ⟨lastOffset host.renamed, lastOffset host.renamed⟩ key offset failure with
    ⟨status, hfailed⟩ | hsucceeded
  · rw [hfailed] at hcommit hroot
    exact ⟨.error status, root, hcommit, hroot⟩
  · rw [hsucceeded, ← lastOffset_append] at hcommit hroot
    exact ⟨.ok (), root, hcommit, hroot⟩

theorem record_sublist {acknowledged renamed : List (ConsumerOffsetKey × Int)} (h : acknowledged.Sublist renamed)
    (result : Result Unit) : (record acknowledged key offset result).Sublist (record renamed key offset result) := by
  cases result with
  | error status => exact h
  | ok _ => exact h.append_right _

theorem sublist_record {acknowledged renamed : List (ConsumerOffsetKey × Int)} (h : acknowledged.Sublist renamed)
    (result : Result Unit) : acknowledged.Sublist (record renamed key offset result) := by
  cases result with
  | error status => exact h
  | ok _ => exact h.trans (List.sublist_append_left _ _)

/-- **What one step keeps.** -/
theorem step {dataDir : String} {after : OffsetHost} (h : host.Agrees) (hstep : OffsetStep dataDir host after) :
    after.Agrees := by
  cases hstep with
  | commit hmemory hpartition hoffset fault =>
      obtain ⟨result, root, hcommit, hroot⟩ := h.afterCommit hmemory hpartition hoffset dataDir fault
      unfold OffsetHost.commit
      rw [hcommit]
      exact ⟨hroot, fun memory hsame => (Option.some.inj hsame).symm, record_sublist h.acknowledged result⟩
  | crash hmemory hpartition hoffset fault =>
      obtain ⟨result, root, hcommit, hroot⟩ := h.afterCommit hmemory hpartition hoffset dataDir fault
      unfold OffsetHost.crash
      rw [hcommit]
      exact ⟨hroot, fun memory hnone => (by cases hnone), sublist_record h.acknowledged result⟩
  | restart listing hload =>
      refine ⟨h.stores, fun memory hsame => ?_, h.acknowledged⟩
      cases hsame
      rw [OffsetRoot.load_ok h.stores listing] at hload
      cases hload
      rfl

theorem memory_eq (h : host.Agrees) (hrunning : host.memory.isSome = true) :
    host.memory = some (lastOffset host.renamed) := by
  obtain ⟨memory, hmemory⟩ := Option.isSome_iff_exists.mp hrunning
  rw [hmemory, h.memory memory hmemory]

end OffsetHost.Agrees

theorem OffsetReaches.agrees {dataDir : String} {host : OffsetHost} (h : OffsetReaches dataDir host) :
    host.Agrees := by
  induction h with
  | refl => exact .start
  | tail _ hstep ih => exact ih.step hstep

/-- **Commits that fail or crash anywhere.** `Load` succeeds, whatever the order of the directories, and finds for
every key the offset of the last commit whose file was renamed. Every acknowledged commit is one of these, and a
store that has not crashed holds the same offsets. -/
theorem load_after_commits {dataDir : String} {host : OffsetHost} (h : OffsetReaches dataDir host)
    (listing : OffsetListing host.root) :
    OffsetRoot.load listing = .ok (lastOffset host.renamed) ∧ host.acknowledged.Sublist host.renamed ∧
      ∀ memory, host.memory = some memory → OffsetRoot.load listing = .ok memory := by
  have hload := OffsetRoot.load_ok h.agrees.stores listing
  refine ⟨hload, h.agrees.acknowledged, fun memory hmemory => ?_⟩
  rw [hload, h.agrees.memory memory hmemory]

/-- A key whose topic ends like the partition of another one. -/
def dashedKey : ConsumerOffsetKey := ⟨text "g", retryTopicPrefix ++ text "a-1", 0⟩

/-- A first commit that is acknowledged. -/
def acknowledgedHost : OffsetHost := OffsetHost.commit "data" {} (fun _ => none) dashedKey 5 none

/-- A second commit that fails after seven bytes of its file. -/
def failedHost : OffsetHost :=
  OffsetHost.commit "data" acknowledgedHost (lastOffset acknowledgedHost.renamed) dashedKey 6 (some (.write 7))

/-- A commit is acknowledged, a second one fails after seven bytes, and a third one crashes behind the rename. -/
theorem load_after_commits_crash :
    ∃ host, OffsetReaches "data" host ∧ host.acknowledged = [(dashedKey, 5)] ∧
      OffsetRoot.load (OffsetListing.byName host.root) = .ok (lastOffset host.renamed) ∧
      lastOffset host.renamed dashedKey = some 7 := by
  have hpartition : IsInt32 dashedKey.partitionId := by decide
  have hfirst : OffsetStep "data" {} acknowledgedHost :=
    .commit rfl hpartition (show IsInt64 5 by decide) none
  have hstarted := (OffsetReaches.agrees (.single hfirst)).memory_eq (by decide +kernel)
  have hsecond : OffsetStep "data" acknowledgedHost failedHost :=
    .commit hstarted hpartition (show IsInt64 6 by decide) (some (.write 7))
  have htwice := (Relation.ReflTransGen.single hfirst).tail hsecond
  have hstill := (OffsetReaches.agrees htwice).memory_eq (by decide +kernel)
  have hthird : OffsetStep "data" failedHost _ :=
    .crash hstill hpartition (show IsInt64 7 by decide) none
  have hreaches : OffsetReaches "data" _ := htwice.tail hthird
  exact ⟨_, hreaches, by decide +kernel, (load_after_commits hreaches _).1, by decide +kernel⟩

end LogMq
