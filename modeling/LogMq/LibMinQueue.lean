import Mathlib.Tactic

/-! Priority queues that hand out an item with the least key. Which of several such items comes first, and
how the items are kept, is left open. -/

structure MinQueue (α κ : Type) [LinearOrder κ] where
  key : α → κ
  push : List α → α → List α
  pop : List α → Option (α × List α)
  push_perm : ∀ items item, (push items item).Perm (item :: items)
  pop_none : ∀ items, pop items = none → items = []
  pop_perm : ∀ items item rest, pop items = some (item, rest) → items.Perm (item :: rest)
  pop_least : ∀ items item rest, pop items = some (item, rest) → ∀ other ∈ rest, key item ≤ key other

namespace MinQueue

variable {α κ σ : Type} [LinearOrder κ] (queue : MinQueue α κ)

/-- Items are taken out and used as long as the key of the first one is within the bound. -/
def drain (bound : κ) (use : σ → α → σ) : Nat → List α → σ → List α × σ
  | 0, items, state => (items, state)
  | fuel + 1, items, state =>
      match queue.pop items with
      | none => (items, state)
      | some (item, rest) =>
          if queue.key item ≤ bound then drain bound use fuel rest (use state item) else (items, state)

/-- **Draining.** With a turn for each item, exactly the items within the bound are used, each once. -/
theorem drain_eq (bound : κ) (use : σ → α → σ) {fuel : Nat} {items : List α} (hfuel : items.length ≤ fuel)
    (state : σ) :
    ∃ due, items.Perm (due ++ (queue.drain bound use fuel items state).1) ∧
      (∀ item ∈ due, queue.key item ≤ bound) ∧
      (∀ item ∈ (queue.drain bound use fuel items state).1, bound < queue.key item) ∧
      (queue.drain bound use fuel items state).2 = due.foldl use state := by
  induction fuel generalizing items state with
  | zero =>
      cases List.eq_nil_of_length_eq_zero (Nat.le_zero.mp hfuel)
      exact ⟨[], .refl _, fun _ h => absurd h List.not_mem_nil, fun _ h => absurd h List.not_mem_nil, rfl⟩
  | succ fuel ih =>
      rw [drain]
      cases hpop : queue.pop items with
      | none =>
          cases queue.pop_none _ hpop
          exact ⟨[], .refl _, fun _ h => absurd h List.not_mem_nil, fun _ h => absurd h List.not_mem_nil, rfl⟩
      | some popped =>
          obtain ⟨item, rest⟩ := popped
          have hperm := queue.pop_perm _ _ _ hpop
          by_cases hdue : queue.key item ≤ bound
          · have hlength := hperm.length_eq
            rw [List.length_cons] at hlength
            obtain ⟨due, hrest, hwithin, hbeyond, hstate⟩ := @ih rest (by omega) (use state item)
            simp only [if_pos hdue]
            refine ⟨item :: due, hperm.trans (hrest.cons item), ?_, hbeyond, hstate⟩
            intro other hother
            rcases List.mem_cons.mp hother with rfl | hother
            · exact hdue
            · exact hwithin other hother
          · simp only [if_neg hdue]
            refine ⟨[], .refl _, fun _ h => absurd h List.not_mem_nil, ?_, rfl⟩
            intro other hother
            rcases List.mem_cons.mp (hperm.mem_iff.mp hother) with rfl | hother
            · exact not_le.mp hdue
            · exact (not_le.mp hdue).trans_le (queue.pop_least _ _ _ hpop other hother)

/-- The first item with the least key, and the others. -/
def popFirst (key : α → κ) : List α → Option (α × List α)
  | [] => none
  | item :: rest =>
      match popFirst key rest with
      | none => some (item, [])
      | some (best, others) => if key item ≤ key best then some (item, rest) else some (best, item :: others)

theorem popFirst_none {key : α → κ} {items : List α} (h : popFirst key items = none) : items = [] := by
  cases items with
  | nil => rfl
  | cons item rest =>
      rw [popFirst] at h
      split at h
      · cases h
      · split_ifs at h

theorem popFirst_some {key : α → κ} {items : List α} {item : α} {rest : List α}
    (h : popFirst key items = some (item, rest)) :
    items.Perm (item :: rest) ∧ ∀ other ∈ rest, key item ≤ key other := by
  induction items generalizing item rest with
  | nil => cases h
  | cons head tail ih =>
      rw [popFirst] at h
      cases htail : popFirst key tail with
      | none =>
          rw [htail] at h
          cases h
          cases popFirst_none htail
          exact ⟨.refl _, fun _ hmem => absurd hmem List.not_mem_nil⟩
      | some popped =>
          obtain ⟨best, others⟩ := popped
          obtain ⟨hperm, hleast⟩ := ih htail
          rw [htail] at h
          dsimp only at h
          split_ifs at h with hle
          · cases h
            refine ⟨.refl _, fun other hother => ?_⟩
            rcases List.mem_cons.mp (hperm.mem_iff.mp hother) with rfl | hother
            · exact hle
            · exact hle.trans (hleast other hother)
          · cases h
            refine ⟨(hperm.cons head).trans (.swap _ _ _), fun other hother => ?_⟩
            rcases List.mem_cons.mp hother with rfl | hother
            · exact (not_le.mp hle).le
            · exact hleast other hother

/-- A queue that keeps its items in the order they came. -/
def first (key : α → κ) : MinQueue α κ where
  key := key
  push := fun items item => items ++ [item]
  pop := popFirst key
  push_perm := fun items item => List.perm_append_singleton item items
  pop_none := fun _ => popFirst_none
  pop_perm := fun _ _ _ h => (popFirst_some h).1
  pop_least := fun _ _ _ h => (popFirst_some h).2

end MinQueue
