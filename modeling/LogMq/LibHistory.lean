import LogMq.LibPool

/-! Pools of threads that keep a history. It is written by the actions of the threads and by the ends of their programs,
and it changes nothing: every run is a run with a history. -/

namespace Interaction

variable {ι σ Action : Type} {Reply : Action → Type} {ε γ : Type} {α : ι → Type}

/-- What becomes of a history when a thread acts, from what it has met and left behind, and when its program ends. -/
structure History (ι σ Action : Type) (Reply : Action → Type) (γ : Type) where
  acted : ι → (action : Action) → σ → Reply action → σ → γ → γ
  finished : ι → γ → γ := fun _ past => past

/-- A pool with its history. -/
def Pool.remember (pool : Pool ι σ Action Reply ε α) (past : γ) : Pool ι (σ × γ) Action Reply ε α :=
  ⟨(pool.shared, past), pool.programs⟩

namespace Machine

/-- A machine that keeps a history. -/
def withHistory (machine : Machine ι σ Action Reply ε α) (history : History ι σ Action Reply γ) :
    Machine ι (σ × γ) Action Reply ε α where
  effect thread action before reply after := machine.effect thread action before.1 reply after.1 ∧
    after.2 = history.acted thread action before.1 reply after.1 before.2
  starts thread program state := machine.starts thread program state.1
  finish thread result state := (machine.finish thread result state.1, history.finished thread state.2)
  outside before after := machine.outside before.1 after.1 ∧ after.2 = before.2

variable [DecidableEq ι] {machine : Machine ι σ Action Reply ε α} {history : History ι σ Action Reply γ}

/-- A step can be taken with any history. -/
theorem Step.remember {pool later : Pool ι σ Action Reply ε α} (h : machine.Step pool later) (past : γ) :
    ∃ now, (machine.withHistory history).Step (pool.remember past) (later.remember now) := by
  cases h with
  | @outside state houtside =>
      have hkept : (machine.withHistory history).outside (pool.remember past).shared (state, past) := ⟨houtside, rfl⟩
      exact ⟨past, .outside hkept⟩
  | @start thread program hidle hstarts => exact ⟨past, .start hidle hstarts⟩
  | @act thread action next reply state hprogram heffect =>
      have hacted : (machine.withHistory history).effect thread action (pool.remember past).shared reply
          (state, history.acted thread action pool.shared reply state past) := ⟨heffect, rfl⟩
      exact ⟨_, .act hprogram hacted⟩
  | @finish thread result hprogram => exact ⟨_, .finish hprogram⟩

/-- **Every run has a history.** -/
theorem Follows.remember {pool later : Pool ι σ Action Reply ε α} (h : machine.Follows pool later) (past : γ) :
    ∃ now, (machine.withHistory history).Follows (pool.remember past) (later.remember now) := by
  induction h with
  | refl => exact ⟨past, .refl⟩
  | tail _ hstep ih =>
      obtain ⟨middle, hmiddle⟩ := ih
      obtain ⟨now, hnow⟩ := hstep.remember middle
      exact ⟨now, .tail hmiddle hnow⟩

end Machine

end Interaction
