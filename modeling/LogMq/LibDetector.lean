import LogMq.LibRuns

/-! A detector of parties that have gone silent. It notes when a party was last heard, and gives it up at the first scan
that reads a clock more than the timeout later. -/

namespace Detector

open Runs

/-- What the detector sees of one party. -/
inductive Observation (τ : Type) where
  | heard (now : τ)
  | left
  | scan (now : τ)
  | other
  deriving DecidableEq

variable {τ : Type} [Sub τ] [LinearOrder τ]

/-- When the party was last heard, as long as it is not given up. -/
def observe (timeout : τ) (last : Option τ) : Observation τ → Option τ
  | .heard now => some now
  | .left => none
  | .scan now => last.filter fun heard => decide (now - heard ≤ timeout)
  | .other => last

/-- A party that was heard at some time is left alone. -/
def Spares (timeout heard : τ) : Observation τ → Prop
  | .heard _ => False
  | .left => False
  | .scan now => now - heard ≤ timeout
  | .other => True

instance (timeout heard : τ) : DecidablePred (Spares timeout heard)
  | .heard _ => inferInstanceAs (Decidable False)
  | .left => inferInstanceAs (Decidable False)
  | .scan now => inferInstanceAs (Decidable (now - heard ≤ timeout))
  | .other => inferInstanceAs (Decidable True)

theorem observe_eq_some {timeout heard : τ} {last : Option τ} {observation : Observation τ} :
    observe timeout last observation = some heard ↔
      observation = .heard heard ∨ last = some heard ∧ Spares timeout heard observation := by
  cases observation with
  | heard now => simp [observe, Spares]
  | left => simp [observe, Spares]
  | scan now => simp [observe, Spares, Option.filter_eq_some_iff]
  | other => simp [observe, Spares]

section Runs

variable {σ ε : Type} {step : σ → ε → σ} {seen : σ → Option τ} {sees : σ → ε → Observation τ} {timeout : τ}

/-- **The party is kept.** A machine that follows the detector knows the party exactly if it has heard it, and since
then the party has not left and no scan came too late. -/
theorem seen_eq_some {start : σ} {events : List ε} {heard : τ} (hstart : seen start = none)
    (hfollows : Along step (fun state event => seen (step state event) = observe timeout (seen state) (sees state event))
      start events) :
    seen (run step start events) = some heard ↔ ∃ before event after, events = before ++ event :: after ∧
      sees (run step start before) event = .heard heard ∧
      Along step (fun state event => Spares timeout heard (sees state event)) (run step start (before ++ [event]))
        after := by
  induction events using List.reverseRecOn with
  | nil =>
      constructor
      · intro h
        cases hstart.symm.trans h
      · rintro ⟨before, event, after, hnil, -⟩
        exact absurd hnil.symm (List.append_ne_nil_of_right_ne_nil _ (List.cons_ne_nil _ _))
  | append_singleton events last ih =>
      obtain ⟨hbefore, hlast, -⟩ := (along_append step).mp hfollows
      rw [run_concat, hlast, observe_eq_some, ih hbefore]
      constructor
      · rintro (hheard | ⟨⟨before, event, after, rfl, hheard, hquiet⟩, hspares⟩)
        · exact ⟨events, last, [], rfl, hheard, trivial⟩
        · refine ⟨before, event, after ++ [last], by simp, hheard, (along_append step).mpr ⟨hquiet, ?_, trivial⟩⟩
          have hrun : run step (run step start (before ++ [event])) after = run step start (before ++ event :: after) := by
            rw [← run_append, List.append_assoc, List.singleton_append]
          rw [hrun]
          exact hspares
      · rintro ⟨before, event, after, hevents, hheard, hquiet⟩
        rcases List.eq_nil_or_concat after with rfl | ⟨front, final, rfl⟩
        · obtain ⟨rfl, hcons⟩ := List.append_inj' hevents rfl
          cases hcons
          exact .inl hheard
        · rw [List.concat_eq_append] at hevents hquiet
          rw [← List.cons_append, ← List.append_assoc] at hevents
          obtain ⟨rfl, hcons⟩ := List.append_inj' hevents rfl
          cases hcons
          obtain ⟨hfront, hspares, -⟩ := (along_append step).mp hquiet
          rw [← run_append, List.append_assoc, List.singleton_append] at hspares
          exact .inr ⟨⟨before, event, front, rfl, hheard, hfront⟩, hspares⟩

end Runs

end Detector
