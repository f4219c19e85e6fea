import LogMq.LibProgram

/-! Pools of threads. Each thread runs one program after another on a state that all of them share; the steps of the
threads and of the outside come in any order. Proofs about a pool are outlines in the manner of rely and guarantee: what
every thread may assume of the others, and what it owes them. -/

namespace Interaction

/-- What the threads of a pool can do: the effects of their actions, the programs they may start with, and what becomes
of the results of these. -/
structure Machine (ι σ Action : Type) (Reply : Action → Type) (ε : Type) (α : ι → Type) where
  effect : ι → (action : Action) → σ → Reply action → σ → Prop
  starts : (thread : ι) → Program Action Reply ε (α thread) → σ → Prop
  finish : (thread : ι) → Except ε (α thread) → σ → σ
  outside : σ → σ → Prop

/-- The shared state, and what each thread has left to do. -/
structure Pool (ι σ Action : Type) (Reply : Action → Type) (ε : Type) (α : ι → Type) where
  shared : σ
  programs : (thread : ι) → Option (Program Action Reply ε (α thread))

variable {ι σ Action : Type} {Reply : Action → Type} {ε : Type} {α : ι → Type}

/-- No thread runs. -/
def Pool.idle (state : σ) : Pool ι σ Action Reply ε α := ⟨state, fun _ => none⟩

namespace Machine

variable (machine : Machine ι σ Action Reply ε α)

/-- The same machine, as far as its actions lead to states of some kind. -/
def within (kind : σ → Prop) : Machine ι σ Action Reply ε α :=
  { machine with
    effect := fun thread action before reply after => machine.effect thread action before reply after ∧ kind after }

variable [DecidableEq ι]

/-- One step of a pool. -/
inductive Step : Pool ι σ Action Reply ε α → Pool ι σ Action Reply ε α → Prop
  | outside {pool : Pool ι σ Action Reply ε α} {state : σ} (houtside : machine.outside pool.shared state) :
      Step pool { pool with shared := state }
  | start {pool : Pool ι σ Action Reply ε α} {thread : ι} {program : Program Action Reply ε (α thread)}
      (hidle : pool.programs thread = none) (hstarts : machine.starts thread program pool.shared) :
      Step pool { pool with programs := Function.update pool.programs thread (some program) }
  | act {pool : Pool ι σ Action Reply ε α} {thread : ι} {action : Action}
      {next : Reply action → Program Action Reply ε (α thread)} {reply : Reply action} {state : σ}
      (hprogram : pool.programs thread = some (.act action next))
      (heffect : machine.effect thread action pool.shared reply state) :
      Step pool ⟨state, Function.update pool.programs thread (some (next reply))⟩
  | finish {pool : Pool ι σ Action Reply ε α} {thread : ι} {result : Except ε (α thread)}
      (hprogram : pool.programs thread = some (.done result)) :
      Step pool ⟨machine.finish thread result pool.shared, Function.update pool.programs thread none⟩

/-- A step into a state of some kind. -/
theorem Step.within {machine : Machine ι σ Action Reply ε α} {pool later : Pool ι σ Action Reply ε α}
    (h : machine.Step pool later) {kind : σ → Prop} (hkind : kind later.shared) :
    (machine.within kind).Step pool later := by
  cases h with
  | outside houtside => exact .outside houtside
  | start hidle hstarts => exact .start hidle hstarts
  | act hprogram heffect => exact .act hprogram ⟨heffect, hkind⟩
  | finish hprogram => exact .finish hprogram

/-- The same machine with fewer effects takes no other steps. -/
theorem Step.of_effect {machine : Machine ι σ Action Reply ε α} {pool later : Pool ι σ Action Reply ε α}
    {effect : ι → (action : Action) → σ → Reply action → σ → Prop}
    (heffect : ∀ {thread action before reply after}, effect thread action before reply after →
      machine.effect thread action before reply after)
    (h : ({ machine with effect := effect } : Machine ι σ Action Reply ε α).Step pool later) :
    machine.Step pool later := by
  cases h with
  | outside houtside => exact .outside houtside
  | start hidle hstarts => exact .start hidle hstarts
  | act hprogram hacted => exact .act hprogram (heffect hacted)
  | finish hprogram => exact .finish hprogram

/-- The pools that follow one. -/
abbrev Follows : Pool ι σ Action Reply ε α → Pool ι σ Action Reply ε α → Prop := Relation.ReflTransGen machine.Step

theorem Follows.of_effect {machine : Machine ι σ Action Reply ε α} {pool later : Pool ι σ Action Reply ε α}
    {effect : ι → (action : Action) → σ → Reply action → σ → Prop}
    (heffect : ∀ {thread action before reply after}, effect thread action before reply after →
      machine.effect thread action before reply after)
    (h : ({ machine with effect := effect } : Machine ι σ Action Reply ε α).Follows pool later) :
    machine.Follows pool later := by
  induction h with
  | refl => exact .refl
  | tail _ hstep ih => exact .tail ih (hstep.of_effect heffect)

/-- The kind of the states does not matter. -/
theorem Follows.of_within {machine : Machine ι σ Action Reply ε α} {pool later : Pool ι σ Action Reply ε α}
    {kind : σ → Prop} (h : (machine.within kind).Follows pool later) : machine.Follows pool later :=
  Follows.of_effect And.left h

end Machine

/-! ### Outlines -/

/-- An outline: what holds of the state in every step, what a thread relies on beyond that, what holds between two of its
programs and at the end of one. -/
structure Outline (ι σ ε : Type) (α : ι → Type) where
  invariant : σ → Prop
  rely : ι → σ → σ → Prop := fun _ _ _ => True
  idle : ι → σ → Prop := fun _ _ => True
  post : (thread : ι) → Except ε (α thread) → σ → Prop := fun _ _ _ => True

namespace Outline

variable (outline : Outline ι σ ε α) (machine : Machine ι σ Action Reply ε α)

/-- What a thread meets between two of its actions. -/
def Relied (thread : ι) (before after : σ) : Prop := outline.invariant after ∧ outline.rely thread before after

/-- What an action of a thread owes the others. -/
def Guaranteed (thread : ι) (before after : σ) : Prop :=
  outline.invariant after ∧ ∀ other, other ≠ thread → outline.rely other before after

/-- A program that follows the outline. -/
def Secure (thread : ι) (program : Program Action Reply ε (α thread)) (state : σ) : Prop :=
  program.Safe (machine.effect thread) (outline.Relied thread) (outline.Guaranteed thread) (outline.post thread) state

/-- A thread that follows the outline. -/
def Guarded (thread : ι) (state : σ) : Option (Program Action Reply ε (α thread)) → Prop
  | none => outline.idle thread state
  | some program => outline.Secure machine thread program state

/-- A pool that follows the outline. -/
def Holds (pool : Pool ι σ Action Reply ε α) : Prop :=
  outline.invariant pool.shared ∧ ∀ thread, outline.Guarded machine thread pool.shared (pool.programs thread)

/-- What has to be shown of an outline. -/
structure Valid : Prop where
  refl : ∀ thread state, outline.rely thread state state
  trans : ∀ {thread first second third}, outline.rely thread first second → outline.rely thread second third →
    outline.rely thread first third
  idle : ∀ {thread before after}, outline.idle thread before → outline.Relied thread before after →
    outline.idle thread after
  post : ∀ {thread result before after}, outline.post thread result before → outline.Relied thread before after →
    outline.post thread result after
  outside : ∀ {before after}, outline.invariant before → machine.outside before after →
    outline.invariant after ∧ ∀ thread, outline.rely thread before after
  start : ∀ {thread program state}, outline.invariant state → outline.idle thread state →
    machine.starts thread program state → outline.Secure machine thread program state
  finish : ∀ {thread result state}, outline.invariant state → outline.post thread result state →
    outline.Guaranteed thread state (machine.finish thread result state) ∧
      outline.idle thread (machine.finish thread result state)

namespace Valid

variable {outline machine} {pool later : Pool ι σ Action Reply ε α}

theorem guarded (h : outline.Valid machine) {thread : ι} {before after : σ}
    {program : Option (Program Action Reply ε (α thread))} (hguarded : outline.Guarded machine thread before program)
    (hinvariant : outline.invariant after) (hrely : outline.rely thread before after) :
    outline.Guarded machine thread after program := by
  cases program with
  | none => exact h.idle hguarded ⟨hinvariant, hrely⟩
  | some program =>
      exact hguarded.relied (fun hfirst hsecond => ⟨hsecond.1, h.trans hfirst.2 hsecond.2⟩) h.post ⟨hinvariant, hrely⟩

variable [DecidableEq ι]

/-- A thread has moved, the others stay as they are. -/
theorem moved (h : outline.Valid machine) (hholds : outline.Holds machine pool) {thread : ι} {state : σ}
    (hguaranteed : outline.Guaranteed thread pool.shared state) {program : Option (Program Action Reply ε (α thread))}
    (hguarded : outline.Guarded machine thread state program) :
    outline.Holds machine ⟨state, Function.update pool.programs thread program⟩ := by
  refine ⟨hguaranteed.1, fun other => ?_⟩
  show outline.Guarded machine other state (Function.update pool.programs thread program other)
  by_cases hother : other = thread
  · subst hother
    rw [Function.update_self]
    exact hguarded
  · rw [Function.update_of_ne hother]
    exact h.guarded (hholds.2 other) hguaranteed.1 (hguaranteed.2 other hother)

/-- **Steps.** A pool that follows a valid outline does so after every step. -/
theorem step (h : outline.Valid machine) (hholds : outline.Holds machine pool) (hstep : machine.Step pool later) :
    outline.Holds machine later := by
  cases hstep with
  | outside houtside =>
      obtain ⟨hinvariant, hrely⟩ := h.outside hholds.1 houtside
      exact ⟨hinvariant, fun thread => h.guarded (hholds.2 thread) hinvariant (hrely thread)⟩
  | @start thread program hidle hstarts =>
      have hthread := hholds.2 thread
      rw [hidle] at hthread
      exact h.moved hholds ⟨hholds.1, fun other _ => h.refl other _⟩ (h.start hholds.1 hthread hstarts)
  | @act thread action next reply state hprogram heffect =>
      have hthread := hholds.2 thread
      rw [hprogram] at hthread
      obtain ⟨hguaranteed, hnext⟩ := hthread pool.shared reply state ⟨hholds.1, h.refl thread _⟩ heffect
      exact h.moved hholds hguaranteed hnext
  | @finish thread result hprogram =>
      have hthread := hholds.2 thread
      rw [hprogram] at hthread
      obtain ⟨hguaranteed, hidle⟩ := h.finish hholds.1 hthread
      exact h.moved hholds hguaranteed hidle

/-- **Runs.** -/
theorem follows (h : outline.Valid machine) (hholds : outline.Holds machine pool) (hfollows : machine.Follows pool later) :
    outline.Holds machine later := by
  induction hfollows with
  | refl => exact hholds
  | tail _ hstep ih => exact h.step ih hstep

end Valid

theorem holds_idle {state : σ} (hinvariant : outline.invariant state) (hidle : ∀ thread, outline.idle thread state) :
    outline.Holds machine (.idle state) := ⟨hinvariant, hidle⟩

end Outline

end Interaction
