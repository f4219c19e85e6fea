import Mathlib.Tactic

/-! Taking turns with a counter that wraps around. The turns are those of a counter modulo one number, taken modulo
another, which is the number of places. -/

namespace RoundRobin

/-- As many consecutive choices as there are places take every place as often as it is listed. -/
def Fair {α : Type} (places choices : List α) : Prop :=
  ∀ i, i + places.length ≤ choices.length → ((choices.drop i).take places.length).Perm places

theorem fair_map {α β : Type} {f : α → β} (hf : Function.Injective f) {places choices : List α} :
    Fair (places.map f) (choices.map f) ↔ Fair places choices := by
  unfold Fair
  simp only [List.length_map, ← List.map_drop, ← List.map_take, List.map_perm_map_iff hf]

/-- The place whose turn it is at a count. -/
def turn (modulus n count : Nat) : Nat := count % modulus % n

/-- The turns behind a count. -/
def turns (modulus n start length : Nat) : List Nat := (List.range length).map fun i => turn modulus n (start + i)

variable {modulus n start length : Nat}

@[simp] theorem length_turns : (turns modulus n start length).length = length := by
  rw [turns, List.length_map, List.length_range]

theorem turns_succ : turns modulus n start (length + 1) = turn modulus n start :: turns modulus n (start + 1) length := by
  rw [turns, List.range_succ_eq_map, List.map_cons, List.map_map, Nat.add_zero]
  congr 1
  apply List.map_congr_left
  intro i _
  rw [Function.comp_apply, Nat.succ_eq_add_one, Nat.add_right_comm, Nat.add_assoc]

/-- Some turns in the middle. -/
theorem take_drop_turns {i window : Nat} (h : i + window ≤ length) :
    ((turns modulus n start length).drop i).take window = turns modulus n (start + i) window := by
  apply List.ext_getElem
  · rw [List.length_take, List.length_drop, length_turns, length_turns]
    omega
  · intro j hleft hright
    simp only [turns, List.getElem_take, List.getElem_drop, List.getElem_map, List.getElem_range, Nat.add_assoc]

/-! ### Without a wrap -/

/-- Consecutive numbers modulo `n` are a rotation of the numbers below `n`. -/
theorem perm_of_mod (h : ∀ i < n, turn modulus n (start + i) = (start + i) % n) :
    (turns modulus n start n).Perm (List.range n) := by
  have hrotate : turns modulus n start n = (List.range n).rotate start := by
    apply List.ext_getElem
    · rw [length_turns, List.length_rotate, List.length_range]
    · intro i hleft hright
      rw [length_turns] at hleft
      simp only [turns, List.getElem_map, List.getElem_range, List.getElem_rotate, List.length_range]
      rw [h i hleft, Nat.add_comm]
  rw [hrotate]
  exact List.rotate_perm _ _

theorem perm_of_dvd (h : n ∣ modulus) : (turns modulus n start n).Perm (List.range n) :=
  perm_of_mod fun _ _ => Nat.mod_mod_of_dvd _ h

theorem perm_of_le (h : start + n ≤ modulus) : (turns modulus n start n).Perm (List.range n) := by
  apply perm_of_mod
  intro i hi
  rw [turn, Nat.mod_eq_of_lt (by omega : start + i < modulus)]

/-! ### Across the wrap -/

/-- Turns across the wrap miss a place. With `r` the remainder of the modulus, those before it take the places below
`r`, downwards and around, and those behind it the places from zero. -/
theorem not_perm_of_wrap (hn : n ≤ modulus) (hdvd : ¬ n ∣ modulus) (hstart : start < modulus)
    (hwrap : modulus < start + n) : ¬ (turns modulus n start n).Perm (List.range n) := by
  intro hperm
  obtain ⟨q, r, hmodulus, hr, hlt⟩ : ∃ q r, modulus = n * q + r ∧ 0 < r ∧ r < n :=
    ⟨modulus / n, modulus % n, (Nat.div_add_mod _ _).symm, Nat.pos_of_ne_zero fun h => hdvd (Nat.dvd_of_mod_eq_zero h),
      Nat.mod_lt _ (by omega)⟩
  -- the place that is missed
  have hmissed : max r (start + n - modulus) ∈ List.range n := List.mem_range.mpr (by omega)
  obtain ⟨i, hi, hturn⟩ := List.mem_map.mp (hperm.symm.subset hmissed)
  rw [List.mem_range] at hi
  by_cases hbefore : start + i < modulus
  · rw [turn, Nat.mod_eq_of_lt hbefore] at hturn
    have hdiff : n ∣ modulus - (start + i) + (max r (start + n - modulus) - r) := by
      have hdivided := Nat.div_add_mod (start + i) n
      have hdvd := Nat.dvd_sub (dvd_mul_right n q) (dvd_mul_right n ((start + i) / n))
      rw [hturn] at hdivided
      convert hdvd using 1
      omega
    have hle := Nat.le_of_dvd (by omega) hdiff
    omega
  · have hcount : (start + i) % modulus = start + i - modulus := by
      rw [Nat.mod_eq_sub_mod (by omega), Nat.mod_eq_of_lt (by omega)]
    rw [turn, hcount, Nat.mod_eq_of_lt (by omega)] at hturn
    omega

/-- **Turns are fair** if the modulus is a multiple of `n`, or they are too few to tell, or the counter does not wrap
around. -/
theorem fair_turns_iff (hpos : 0 < n) (hn : n ≤ modulus) (hstart : start < modulus) :
    Fair (List.range n) (turns modulus n start length) ↔ n ∣ modulus ∨ length < n ∨ start + length ≤ modulus := by
  unfold Fair
  rw [List.length_range, length_turns]
  constructor
  · intro hfair
    by_contra hnot
    obtain ⟨hdvd, hlong, hwrap⟩ : ¬ n ∣ modulus ∧ n ≤ length ∧ modulus < start + length := by
      simpa only [not_or, not_lt, not_le] using hnot
    have hone : n ≠ 1 := fun h => hdvd (h ▸ one_dvd _)
    -- a window with the last count before the wrap and the first one behind it
    have hwindow := hfair (min (modulus - start - 1) (length - n)) (by omega)
    rw [take_drop_turns (by omega)] at hwindow
    exact not_perm_of_wrap hn hdvd (by omega) (by omega) hwindow
  · intro hor i hi
    rw [take_drop_turns hi]
    rcases hor with hdvd | hshort | hle
    · exact perm_of_dvd hdvd
    · omega
    · exact perm_of_le (by omega)

end RoundRobin
