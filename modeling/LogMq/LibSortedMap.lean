import Mathlib.Tactic

/-! Finite maps kept as lists in increasing key order, as an ordered tree map presents them to an
iteration. Lookups determine the map. -/

/-- A finite map whose entries are listed in strictly increasing key order. -/
structure SortedMap (κ α : Type) [LinearOrder κ] where
  entries : List (κ × α)
  sorted : entries.Pairwise fun left right => left.1 < right.1

namespace SortedMap

variable {κ α β : Type} [LinearOrder κ]

instance [DecidableEq α] : DecidableEq (SortedMap κ α) := fun left right =>
  decidable_of_iff (left.entries = right.entries)
    ⟨fun h => by cases left; cases right; cases h; rfl, fun h => h ▸ rfl⟩

theorem entries_injective {left right : SortedMap κ α} (h : left.entries = right.entries) :
    left = right := by
  cases left
  cases right
  cases h
  rfl

/-! ### Lists of entries -/

def lookup (key : κ) : List (κ × α) → Option α
  | [] => none
  | entry :: rest => if entry.1 = key then some entry.2 else lookup key rest

def insertEntry (key : κ) (value : α) : List (κ × α) → List (κ × α)
  | [] => [(key, value)]
  | entry :: rest =>
      if key < entry.1 then (key, value) :: entry :: rest
      else if key = entry.1 then (key, value) :: rest
      else entry :: insertEntry key value rest

theorem mem_of_mem_insertEntry {key : κ} {value : α} {entry : κ × α} {entries : List (κ × α)}
    (h : entry ∈ insertEntry key value entries) : entry = (key, value) ∨ entry ∈ entries := by
  induction entries with
  | nil => exact Or.inl (List.mem_singleton.mp h)
  | cons head rest ih =>
      rw [insertEntry] at h
      split_ifs at h
      · exact List.mem_cons.mp h
      · rcases List.mem_cons.mp h with h | h
        · exact Or.inl h
        · exact Or.inr (List.mem_cons_of_mem _ h)
      · rcases List.mem_cons.mp h with h | h
        · exact Or.inr (h ▸ List.mem_cons_self)
        · exact (ih h).imp_right (List.mem_cons_of_mem _)

theorem insertEntry_sorted {key : κ} {value : α} {entries : List (κ × α)}
    (h : entries.Pairwise fun left right => left.1 < right.1) :
    (insertEntry key value entries).Pairwise fun left right => left.1 < right.1 := by
  induction entries with
  | nil => exact List.pairwise_singleton _ _
  | cons head rest ih =>
      obtain ⟨hhead, hrest⟩ := List.pairwise_cons.mp h
      rw [insertEntry]
      split_ifs with hlt heq
      · refine List.pairwise_cons.mpr ⟨fun entry hentry => ?_, h⟩
        rcases List.mem_cons.mp hentry with rfl | hentry
        · exact hlt
        · exact hlt.trans (hhead entry hentry)
      · exact List.pairwise_cons.mpr ⟨fun entry hentry => heq ▸ hhead entry hentry, hrest⟩
      · refine List.pairwise_cons.mpr ⟨fun entry hentry => ?_, ih hrest⟩
        rcases mem_of_mem_insertEntry hentry with rfl | hentry
        · exact lt_of_le_of_ne (not_lt.mp hlt) (Ne.symm heq)
        · exact hhead entry hentry

theorem lookup_insertEntry (key target : κ) (value : α) (entries : List (κ × α)) :
    lookup target (insertEntry key value entries) =
      if target = key then some value else lookup target entries := by
  induction entries with
  | nil => simp [insertEntry, lookup, eq_comm]
  | cons head rest ih =>
      rw [insertEntry]
      by_cases hlt : key < head.1
      · rw [if_pos hlt, lookup]
        exact if_congr eq_comm rfl rfl
      · rw [if_neg hlt]
        by_cases heq : key = head.1
        · rw [if_pos heq, lookup, lookup, ← heq]
          by_cases htarget : target = key
          · rw [if_pos htarget.symm, if_pos htarget]
          · rw [if_neg (Ne.symm htarget), if_neg htarget, if_neg (Ne.symm htarget)]
        · rw [if_neg heq, lookup, lookup, ih]
          by_cases htarget : target = key
          · rw [if_pos htarget, if_pos htarget, if_neg fun h => heq (htarget.symm.trans h.symm)]
          · rw [if_neg htarget, if_neg htarget]

theorem lookup_eq_some {key : κ} {value : α} {entries : List (κ × α)}
    (h : entries.Pairwise fun left right => left.1 < right.1) :
    lookup key entries = some value ↔ (key, value) ∈ entries := by
  induction entries with
  | nil => simp [lookup]
  | cons head rest ih =>
      obtain ⟨hhead, hrest⟩ := List.pairwise_cons.mp h
      rw [lookup, List.mem_cons]
      split_ifs with hkey
      · constructor
        · intro hvalue
          exact Or.inl (Prod.ext hkey.symm (Option.some.inj hvalue).symm)
        · rintro (hentry | hentry)
          · exact congrArg (fun entry => some entry.2) hentry.symm
          · exact absurd hkey (hhead _ hentry).ne
      · rw [ih hrest]
        exact ⟨Or.inr, fun hor => hor.resolve_left fun hentry => hkey (congrArg Prod.fst hentry).symm⟩

theorem insertEntry_of_lt {key : κ} {value : α} {entries : List (κ × α)}
    (h : ∀ entry ∈ entries, entry.1 < key) :
    insertEntry key value entries = entries ++ [(key, value)] := by
  induction entries with
  | nil => rfl
  | cons head rest ih =>
      have hhead := h head List.mem_cons_self
      rw [insertEntry, if_neg hhead.le.not_gt, if_neg hhead.ne',
        ih fun entry hentry => h entry (List.mem_cons_of_mem _ hentry), List.cons_append]

theorem insertEntry_present {key : κ} {value old : α} {front back : List (κ × α)}
    (h : ∀ entry ∈ front, entry.1 < key) :
    insertEntry key value (front ++ (key, old) :: back) = front ++ (key, value) :: back := by
  induction front with
  | nil => rw [List.nil_append, insertEntry, if_neg (lt_irrefl _), if_pos rfl, List.nil_append]
  | cons head rest ih =>
      have hhead := h head List.mem_cons_self
      rw [List.cons_append, insertEntry, if_neg hhead.le.not_gt, if_neg hhead.ne',
        ih fun entry hentry => h entry (List.mem_cons_of_mem _ hentry), List.cons_append]

/-! ### Maps -/

def empty : SortedMap κ α := ⟨[], List.Pairwise.nil⟩

def find? (map : SortedMap κ α) (key : κ) : Option α := lookup key map.entries

def insert (map : SortedMap κ α) (key : κ) (value : α) : SortedMap κ α :=
  ⟨insertEntry key value map.entries, insertEntry_sorted map.sorted⟩

def filter (map : SortedMap κ α) (keep : κ → α → Bool) : SortedMap κ α :=
  ⟨map.entries.filter fun entry => keep entry.1 entry.2, map.sorted.filter _⟩

def erase (map : SortedMap κ α) (key : κ) : SortedMap κ α := map.filter fun k _ => decide (k ≠ key)

def keys (map : SortedMap κ α) : List κ := map.entries.map Prod.fst

/-- Insertion that leaves a present value alone. -/
def emplace (map : SortedMap κ α) (key : κ) (value : α) : SortedMap κ α :=
  if (map.find? key).isSome then map else map.insert key value

theorem sorted_of_keys {entries : List (κ × α)} {entries' : List (κ × β)}
    (h : (entries'.map Prod.fst).Sublist (entries.map Prod.fst))
    (hsorted : entries.Pairwise fun left right => left.1 < right.1) :
    entries'.Pairwise fun left right => left.1 < right.1 :=
  List.pairwise_map.mp ((List.pairwise_map.mpr hsorted).sublist h)

omit [LinearOrder κ] in
theorem keys_entries_filterMap (f : κ → α → Option β) (entries : List (κ × α)) :
    ((entries.filterMap fun entry => (f entry.1 entry.2).map (Prod.mk entry.1)).map Prod.fst).Sublist
      (entries.map Prod.fst) := by
  induction entries with
  | nil => exact List.Sublist.slnil
  | cons head rest ih =>
      rw [List.filterMap_cons, List.map_cons]
      cases f head.1 head.2 with
      | none => exact ih.cons _
      | some value => exact ih.cons_cons _

/-- Every value is replaced or removed. -/
def filterMap (map : SortedMap κ α) (f : κ → α → Option β) : SortedMap κ β :=
  ⟨map.entries.filterMap fun entry => (f entry.1 entry.2).map (Prod.mk entry.1),
    sorted_of_keys (keys_entries_filterMap f map.entries) map.sorted⟩

omit [LinearOrder κ] in
theorem keys_entries_mapIdx (f : Nat → α → β) (entries : List (κ × α)) :
    (entries.mapIdx fun i entry => (entry.1, f i entry.2)).map Prod.fst = entries.map Prod.fst := by
  apply List.ext_getElem?
  intro i
  rw [List.getElem?_map, List.getElem?_mapIdx, List.getElem?_map, Option.map_map]
  rfl

/-- Every value is replaced, with its place in the order of the keys at hand. -/
def mapIdx (map : SortedMap κ α) (f : Nat → α → β) : SortedMap κ β :=
  ⟨map.entries.mapIdx fun i entry => (entry.1, f i entry.2),
    sorted_of_keys (keys_entries_mapIdx f map.entries ▸ List.Sublist.refl _) map.sorted⟩

theorem keys_mapIdx (map : SortedMap κ α) (f : Nat → α → β) :
    (map.mapIdx f).keys = map.keys :=
  keys_entries_mapIdx f map.entries

theorem mem_entries {map : SortedMap κ α} {key : κ} {value : α} :
    (key, value) ∈ map.entries ↔ map.find? key = some value :=
  (lookup_eq_some map.sorted).symm

@[simp] theorem find?_empty (key : κ) : (empty : SortedMap κ α).find? key = none := rfl

theorem find?_insert (map : SortedMap κ α) (key target : κ) (value : α) :
    (map.insert key value).find? target = if target = key then some value else map.find? target :=
  lookup_insertEntry key target value map.entries

@[simp] theorem find?_insert_self (map : SortedMap κ α) (key : κ) (value : α) :
    (map.insert key value).find? key = some value := by
  rw [find?_insert, if_pos rfl]

theorem find?_insert_of_ne {key target : κ} (h : target ≠ key) (map : SortedMap κ α) (value : α) :
    (map.insert key value).find? target = map.find? target := by
  rw [find?_insert, if_neg h]

theorem find?_filter (map : SortedMap κ α) (keep : κ → α → Bool) (key : κ) :
    (map.filter keep).find? key = (map.find? key).filter (keep key) := by
  apply Option.ext
  intro value
  rw [← mem_entries, filter, List.mem_filter, mem_entries, Option.filter_eq_some_iff]

theorem find?_erase (map : SortedMap κ α) (key target : κ) :
    (map.erase key).find? target = if target = key then none else map.find? target := by
  rw [erase, find?_filter]
  split_ifs with h
  · simp [h]
  · cases map.find? target <;> simp [h, Option.filter]

theorem find?_filterMap (map : SortedMap κ α) (f : κ → α → Option β) (key : κ) :
    (map.filterMap f).find? key = (map.find? key).bind (f key) := by
  apply Option.ext
  intro value
  rw [← mem_entries, filterMap, List.mem_filterMap, Option.bind_eq_some_iff]
  constructor
  · rintro ⟨entry, hentry, hvalue⟩
    obtain ⟨found, hfound, heq⟩ := Option.map_eq_some_iff.mp hvalue
    cases heq
    exact ⟨entry.2, mem_entries.mp hentry, hfound⟩
  · rintro ⟨old, hold, hvalue⟩
    exact ⟨(key, old), mem_entries.mpr hold, by rw [hvalue]; rfl⟩

theorem entries_insert_of_lt {map : SortedMap κ α} {key : κ} (value : α)
    (h : ∀ entry ∈ map.entries, entry.1 < key) :
    (map.insert key value).entries = map.entries ++ [(key, value)] :=
  insertEntry_of_lt h

/-- Inserting under a key that is present replaces its value in place. -/
theorem entries_insert_present {map : SortedMap κ α} {key : κ} {old : α} {front back : List (κ × α)}
    (h : map.entries = front ++ (key, old) :: back) (value : α) :
    (map.insert key value).entries = front ++ (key, value) :: back := by
  have hsorted := map.sorted
  rw [h] at hsorted
  change insertEntry key value map.entries = _
  rw [h]
  exact insertEntry_present fun entry hentry =>
    (List.pairwise_append.mp hsorted).2.2 entry hentry (key, old) List.mem_cons_self

/-- What a replaced value does not change of the entries. -/
theorem map_entries_insert_present {γ : Type} {map : SortedMap κ α} {key : κ} {old value : α} {f : κ × α → γ}
    (h : map.find? key = some old) (hf : f (key, value) = f (key, old)) :
    (map.insert key value).entries.map f = map.entries.map f := by
  obtain ⟨front, back, hentries⟩ := List.append_of_mem (mem_entries.mpr h)
  rw [entries_insert_present hentries, hentries, List.map_append, List.map_append, List.map_cons, List.map_cons, hf]

/-- A map is determined by its lookups. -/
theorem ext_find? {left right : SortedMap κ α} (h : ∀ key, left.find? key = right.find? key) : left = right := by
  apply entries_injective
  have hirrefl : ∀ map : SortedMap κ α, map.entries.Nodup := fun map =>
    map.sorted.imp fun hlt heq => absurd hlt (by rw [heq]; exact lt_irrefl _)
  have hperm : left.entries.Perm right.entries := by
    refine (List.perm_ext_iff_of_nodup (hirrefl left) (hirrefl right)).mpr ?_
    rintro ⟨key, value⟩
    rw [mem_entries, mem_entries, h]
  refine hperm.eq_of_pairwise (fun a b _ _ hab hba => ?_) left.sorted right.sorted
  exact absurd (hab.trans hba) (lt_irrefl _)

/-- Sorting the entries by their keys gives the order of the map, whatever order they come in. -/
theorem mergeSort_entries {map : SortedMap κ α} {order : List (κ × α)} (horder : order.Perm map.entries) :
    (order.mergeSort fun left right => decide (left.1 ≤ right.1)) = map.entries := by
  have hperm := (List.mergeSort_perm order fun left right => decide (left.1 ≤ right.1)).trans horder
  refine hperm.eq_of_pairwise (fun left right hleft hright hle hge => ?_) (List.pairwise_mergeSort ?_ ?_ order)
    (map.sorted.imp fun hlt => decide_eq_true hlt.le)
  · have hkey : left.1 = right.1 := le_antisymm (of_decide_eq_true hle) (of_decide_eq_true hge)
    have hfirst : map.find? left.1 = some left.2 := mem_entries.mp (hperm.subset hleft)
    have hsecond : map.find? right.1 = some right.2 := mem_entries.mp hright
    rw [hkey, hsecond] at hfirst
    exact Prod.ext hkey (Option.some.inj hfirst).symm
  · intro a b c hab hbc
    exact decide_eq_true ((of_decide_eq_true hab).trans (of_decide_eq_true hbc))
  · intro a b
    simp only [Bool.or_eq_true, decide_eq_true_eq]
    exact le_total _ _

theorem mem_keys {map : SortedMap κ α} {key : κ} : key ∈ map.keys ↔ ∃ value, map.find? key = some value := by
  rw [keys, List.mem_map]
  constructor
  · rintro ⟨⟨k, value⟩, hentry, rfl⟩
    exact ⟨value, mem_entries.mp hentry⟩
  · rintro ⟨value, hvalue⟩
    exact ⟨(key, value), mem_entries.mpr hvalue, rfl⟩

theorem find?_emplace_of_ne {key target : κ} (h : target ≠ key) (map : SortedMap κ α) (value : α) :
    (map.emplace key value).find? target = map.find? target := by
  unfold emplace
  split_ifs
  · rfl
  · exact find?_insert_of_ne h map value

theorem mem_keys_emplace {map : SortedMap κ α} {key target : κ} {value : α} :
    target ∈ (map.emplace key value).keys ↔ target = key ∨ target ∈ map.keys := by
  by_cases h : target = key
  · refine iff_of_true (mem_keys.mpr ?_) (Or.inl h)
    subst h
    unfold emplace
    split_ifs with hsome
    · exact Option.isSome_iff_exists.mp hsome
    · exact ⟨value, find?_insert_self map target value⟩
  · rw [mem_keys, mem_keys, find?_emplace_of_ne h]
    exact ⟨Or.inr, fun hor => hor.resolve_left h⟩

theorem length_insertEntry_le (key : κ) (value : α) (entries : List (κ × α)) :
    (insertEntry key value entries).length ≤ entries.length + 1 := by
  induction entries with
  | nil => exact le_refl _
  | cons head rest ih =>
      rw [insertEntry]
      split_ifs
      · exact le_refl _
      · exact Nat.le_succ _
      · exact Nat.succ_le_succ ih

theorem length_keys_emplace_le (map : SortedMap κ α) (key : κ) (value : α) :
    (map.emplace key value).keys.length ≤ map.keys.length + 1 := by
  rw [keys, keys, List.length_map, List.length_map]
  unfold emplace
  split_ifs
  · exact Nat.le_succ _
  · exact length_insertEntry_le key value map.entries

/-- A lookup sees of the values what the entries show of them. -/
theorem map_find?_congr {γ : Type} {left : SortedMap κ α} {right : SortedMap κ β} {f : α → γ} {g : β → γ}
    (h : left.entries.map (fun entry => (entry.1, f entry.2)) = right.entries.map fun entry => (entry.1, g entry.2))
    (key : κ) : (left.find? key).map f = (right.find? key).map g := by
  have hlookup : ∀ {δ : Type} (f : δ → γ) (entries : List (κ × δ)),
      (lookup key entries).map f = lookup key (entries.map fun entry => (entry.1, f entry.2)) := by
    intro δ f entries
    induction entries with
    | nil => rfl
    | cons head rest ih =>
        rw [List.map_cons, lookup, lookup]
        split_ifs
        · rfl
        · exact ih
  rw [find?, find?, hlookup, hlookup, h]

theorem keys_filter_sublist (map : SortedMap κ α) (keep : κ → α → Bool) :
    (map.filter keep).keys.Sublist map.keys :=
  List.filter_sublist.map Prod.fst

end SortedMap
