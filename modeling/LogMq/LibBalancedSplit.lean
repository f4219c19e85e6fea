import Mathlib.Tactic

/-! Splitting `0, …, n - 1` into `k` consecutive ranges whose sizes differ by at most one. The first
`n % k` ranges take one more than the others. -/

namespace BalancedSplit

/-- The size of range `i`. -/
def count (n k i : Nat) : Nat := n / k + if i < n % k then 1 else 0

/-- The first number of range `i`. -/
def start (n k i : Nat) : Nat := i * (n / k) + min i (n % k)

theorem start_zero (n k : Nat) : start n k 0 = 0 := by
  unfold start
  omega

/-- Every range starts where the one before it ends. -/
theorem start_succ (n k i : Nat) : start n k (i + 1) = start n k i + count n k i := by
  unfold start count
  rw [Nat.add_mul, Nat.one_mul]
  split_ifs <;> omega

theorem start_mono {n k i j : Nat} (h : i ≤ j) : start n k i ≤ start n k j := by
  induction h with
  | refl => exact le_refl _
  | step _ ih => exact ih.trans (by rw [start_succ]; exact Nat.le_add_right _ _)

/-- The last range ends at `n`. -/
theorem start_last {n k : Nat} (hk : 0 < k) : start n k k = n := by
  have hmod := Nat.mod_lt n hk
  have hdiv := Nat.div_add_mod n k
  unfold start
  rw [Nat.min_eq_right hmod.le]
  exact hdiv

theorem end_le {n k i : Nat} (h : i < k) : start n k i + count n k i ≤ n := by
  rw [← start_succ]
  exact (start_mono (n := n) (k := k) h).trans_eq (start_last (Nat.zero_lt_of_lt h))

theorem count_le_succ (n k i j : Nat) : count n k i ≤ count n k j + 1 := by
  unfold count
  split_ifs <;> omega

/-- Later ranges lie behind earlier ones. -/
theorem end_le_start {n k i j : Nat} (h : i < j) : start n k i + count n k i ≤ start n k j := by
  rw [← start_succ]
  exact start_mono h

/-- The ranges cover what lies below the start of the first one left out. -/
theorem exists_range {n k p : Nat} : ∀ {j : Nat}, p < start n k j →
    ∃ i, i < j ∧ start n k i ≤ p ∧ p < start n k i + count n k i := by
  intro j
  induction j with
  | zero =>
      intro h
      rw [start_zero] at h
      exact absurd h (Nat.not_lt_zero _)
  | succ j ih =>
      intro h
      by_cases hlt : p < start n k j
      · obtain ⟨i, hi, hrange⟩ := ih hlt
        exact ⟨i, Nat.lt_succ_of_lt hi, hrange⟩
      · exact ⟨j, Nat.lt_succ_self j, not_lt.mp hlt, start_succ n k j ▸ h⟩

/-- **Cover.** Exactly the numbers below `n` are in one of the `k` ranges. -/
theorem lt_iff_exists_range {n k p : Nat} (hk : 0 < k) :
    p < n ↔ ∃ i, i < k ∧ start n k i ≤ p ∧ p < start n k i + count n k i := by
  constructor
  · intro h
    exact exists_range ((start_last hk).symm ▸ h)
  · rintro ⟨i, hi, -, hlt⟩
    exact hlt.trans_le (end_le hi)

end BalancedSplit
