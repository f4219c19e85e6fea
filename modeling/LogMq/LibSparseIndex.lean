import Mathlib.Tactic

/-! Sparse indexes over items laid out in increasing position: an item enters the index only when it
lies at least one interval behind the last one that did. Looking up the last entry not past a target
therefore lands at most one interval before the item that answers the target. -/

namespace SparseIndex

variable {ε : Type}

/-! ### Upper bounds -/

/-- The number of leading items that are not past the target: on a partitioned list, the position of
the first item past it. -/
def upperBound (past : ε → Bool) (items : List ε) : Nat := (items.takeWhile fun item => !past item).length

theorem upperBound_append {past : ε → Bool} {front back : List ε} (hfront : ∀ item ∈ front, past item = false)
    (hback : ∀ item ∈ back, past item = true) : upperBound past (front ++ back) = front.length := by
  have hstop : back.takeWhile (fun item => !past item) = [] := by
    cases back with
    | nil => rfl
    | cons item rest => rw [List.takeWhile_cons, hback item List.mem_cons_self]; rfl
  rw [upperBound, List.takeWhile_append_of_pos (fun item hitem => by rw [hfront item hitem]; rfl), hstop,
    List.append_nil]

/-- Items that are all past the target do not matter at the end. -/
theorem upperBound_append_past {past : ε → Bool} (front : List ε) {back : List ε}
    (hback : ∀ item ∈ back, past item = true) : upperBound past (front ++ back) = upperBound past front := by
  have hstop : back.takeWhile (fun item => !past item) = [] := by
    cases back with
    | nil => rfl
    | cons item rest => rw [List.takeWhile_cons, hback item List.mem_cons_self]; rfl
  induction front with
  | nil => rw [List.nil_append, upperBound, hstop, upperBound, List.takeWhile_nil]
  | cons head rest ih =>
      rw [upperBound, upperBound] at ih ⊢
      rw [List.cons_append, List.takeWhile_cons, List.takeWhile_cons]
      cases past head with
      | true => rfl
      | false => simp [ih]

/-- Every list sorted by a key splits at a target into the items not past it and the items past it. -/
theorem exists_split {κ : Type} [LinearOrder κ] {key : ε → κ} {items : List ε}
    (hsorted : items.Pairwise fun left right => key left < key right) (target : κ) :
    ∃ front back, items = front ++ back ∧ (∀ item ∈ front, key item ≤ target) ∧
      ∀ item ∈ back, target < key item := by
  induction items with
  | nil => exact ⟨[], [], rfl, fun _ h => (List.not_mem_nil h).elim, fun _ h => (List.not_mem_nil h).elim⟩
  | cons head rest ih =>
      obtain ⟨hhead, hrest⟩ := List.pairwise_cons.mp hsorted
      by_cases hle : key head ≤ target
      · obtain ⟨front, back, rfl, hfront, hback⟩ := ih hrest
        refine ⟨head :: front, back, rfl, fun item hitem => ?_, hback⟩
        rcases List.mem_cons.mp hitem with rfl | hitem
        · exact hle
        · exact hfront item hitem
      · refine ⟨[], head :: rest, rfl, fun _ h => (List.not_mem_nil h).elim, fun item hitem => ?_⟩
        rcases List.mem_cons.mp hitem with rfl | hitem
        · exact not_le.mp hle
        · exact (not_le.mp hle).trans (hhead item hitem)

/-! ### Building -/

variable (position : ε → Nat) (interval : Nat)

/-- Enter an item unless it lies less than one interval behind the last entry. -/
def add (entries : List ε) (item : ε) : List ε :=
  match entries.getLast? with
  | none => entries ++ [item]
  | some last => if position item - position last < interval then entries else entries ++ [item]

/-- The index over a list of items. -/
def build (items : List ε) : List ε := items.foldl (add position interval) []

variable {position interval}

theorem add_cases (entries : List ε) (item : ε) :
    add position interval entries item = entries ∨
      add position interval entries item = entries ++ [item] := by
  unfold add
  split
  · exact Or.inr rfl
  · split_ifs
    · exact Or.inl rfl
    · exact Or.inr rfl

/-- An item that is far enough from the last entry is entered. -/
theorem add_of_far {entries : List ε} {item : ε}
    (h : ∀ last, entries.getLast? = some last → interval ≤ position item - position last) :
    add position interval entries item = entries ++ [item] := by
  unfold add
  split
  · rfl
  · exact if_neg (Nat.not_lt.mpr (h _ ‹_›))

/-- The last entry after an item has been offered lies less than one interval before the item. -/
theorem getLast?_add (hinterval : 0 < interval) (entries : List ε) (item : ε) :
    ∃ last, (add position interval entries item).getLast? = some last ∧
      position item - position last < interval ∧ (last = item ∨ entries.getLast? = some last) := by
  have hself : position item - position item < interval := by omega
  unfold add
  split
  · exact ⟨item, List.getLast?_concat, hself, Or.inl rfl⟩
  · rename_i last hlast
    split_ifs with hclose
    · exact ⟨last, hlast, hclose, Or.inr hlast⟩
    · exact ⟨item, List.getLast?_concat, hself, Or.inl rfl⟩

/-- Offering items only adds entries, and only from among the items offered. -/
theorem foldl_add_extends (items entries : List ε) :
    ∃ added, items.foldl (add position interval) entries = entries ++ added ∧ added.Sublist items := by
  induction items generalizing entries with
  | nil => exact ⟨[], (List.append_nil _).symm, List.Sublist.slnil⟩
  | cons item rest ih =>
      obtain ⟨added, hadded, hsub⟩ := ih (add position interval entries item)
      rw [List.foldl_cons, hadded]
      rcases add_cases entries item with h | h
      · exact ⟨added, by rw [h], hsub.cons item⟩
      · exact ⟨item :: added, by rw [h, List.append_assoc, List.singleton_append], hsub.cons_cons item⟩

theorem build_sublist (items : List ε) : (build position interval items).Sublist items := by
  obtain ⟨added, hadded, hsub⟩ := @foldl_add_extends _ position interval items []
  rw [build, hadded, List.nil_append]
  exact hsub

theorem build_append (before after : List ε) :
    ∃ added, build position interval (before ++ after) = build position interval before ++ added ∧
      added.Sublist after := by
  rw [build, List.foldl_append]
  exact foldl_add_extends after _

theorem build_concat (items : List ε) (item : ε) :
    build position interval (items ++ [item]) = add position interval (build position interval items) item := by
  rw [build, List.foldl_append]
  rfl

/-- **The floor lemma.** If every item up to `item` is not past the target and every later one is, the
entry before the upper bound is one of the items up to `item` and lies less than an interval before it. -/
theorem build_floor (hinterval : 0 < interval) {past : ε → Bool} {before after : List ε} {item : ε}
    (hle : ∀ other ∈ before ++ [item], past other = false) (hafter : ∀ other ∈ after, past other = true) :
    ∃ front last, (build position interval (before ++ item :: after)).take
          (upperBound past (build position interval (before ++ item :: after))) = front ++ [last] ∧
      last ∈ before ++ [item] ∧ position item - position last < interval := by
  obtain ⟨added, hbuild, hsub⟩ := @build_append _ position interval
    (before ++ [item]) after
  rw [List.append_assoc, List.singleton_append] at hbuild
  have hsubset := (@build_sublist _ position interval (before ++ [item])).subset
  obtain ⟨last, hlast, hclose, -⟩ := @getLast?_add _ position _ hinterval
    (build position interval before) item
  rw [← build_concat] at hlast
  obtain ⟨front, hfront⟩ := List.getLast?_eq_some_iff.mp hlast
  refine ⟨front, last, ?_, hsubset ?_, hclose⟩
  · rw [hbuild, upperBound_append (fun other h => hle other (hsubset h))
      (fun other h => hafter other (hsub.subset h)), List.take_left, hfront]
  · rw [hfront]
    exact List.mem_append_right _ (List.mem_singleton_self _)

end SparseIndex
