import Mathlib.Tactic

/-! Programs of threads that share a state. A program is a sequence of atomic actions; each of them gives a reply, on
which the rest depends. Between two actions of a thread the others may change the state, within what the thread relies
on; what the thread itself does to the state is what it guarantees. -/

namespace Interaction

/-- A program that ends with a result or an error. -/
inductive Program (Action : Type) (Reply : Action → Type) (ε α : Type) : Type where
  | done (result : Except ε α)
  | act (action : Action) (next : Reply action → Program Action Reply ε α)

namespace Program

variable {Action : Type} {Reply : Action → Type} {ε α β : Type}

/-- The rest does not run after an error. -/
def bind : Program Action Reply ε α → (α → Program Action Reply ε β) → Program Action Reply ε β
  | done (.ok result), rest => rest result
  | done (.error reason), _ => done (.error reason)
  | act action next, rest => act action fun reply => (next reply).bind rest

instance : Monad (Program Action Reply ε) where
  pure result := done (.ok result)
  bind := bind

/-- A program that fails. -/
def fail (reason : ε) : Program Action Reply ε α := done (.error reason)

/-- One action. -/
def perform (action : Action) : Program Action Reply ε (Reply action) := act action fun reply => done (.ok reply)

/-- An error of a program as its result. -/
def attempt : Program Action Reply ε α → Program Action Reply ε (Except ε α)
  | done result => done (.ok result)
  | act action next => act action fun reply => (next reply).attempt

/-! ### Safety -/

section Safe

variable {σ : Type} (effect : (action : Action) → σ → Reply action → σ → Prop) (rely guarantee : σ → σ → Prop)

/-- Whatever the others do within `rely`, every action keeps the guarantee, and the end meets the postcondition. -/
def Safe : Program Action Reply ε α → (Except ε α → σ → Prop) → σ → Prop
  | done result, post, state => post result state
  | act action next, post, state => ∀ before reply after, rely state before → effect action before reply after →
      guarantee before after ∧ Safe (next reply) post after

variable {effect rely guarantee} {program : Program Action Reply ε α} {post : Except ε α → σ → Prop} {state : σ}

theorem Safe.mono (h : program.Safe effect rely guarantee post state) {post' : Except ε α → σ → Prop}
    (hpost : ∀ result state, post result state → post' result state) :
    program.Safe effect rely guarantee post' state := by
  induction program generalizing state with
  | done result => exact hpost result state h
  | act action next ih =>
      intro before reply after hrely heffect
      obtain ⟨hguarantee, hnext⟩ := h before reply after hrely heffect
      exact ⟨hguarantee, ih reply hnext⟩

/-- **Sequences.** The rest starts where the first part has ended. -/
theorem safe_bind {rest : α → Program Action Reply ε β} {post : Except ε β → σ → Prop} :
    (program >>= rest).Safe effect rely guarantee post state ↔
      program.Safe effect rely guarantee (fun result state =>
        match result with
        | .ok result => (rest result).Safe effect rely guarantee post state
        | .error reason => post (.error reason) state) state := by
  show (program.bind rest).Safe effect rely guarantee post state ↔ _
  induction program generalizing state with
  | done result => cases result <;> exact Iff.rfl
  | act action next ih =>
      simp only [bind, Safe, ih]

theorem safe_attempt {post : Except ε (Except ε α) → σ → Prop} :
    program.attempt.Safe effect rely guarantee post state ↔
      program.Safe effect rely guarantee (fun result => post (.ok result)) state := by
  induction program generalizing state with
  | done result => exact Iff.rfl
  | act action next ih => simp only [attempt, Safe, ih]

/-- **Steps of others.** A safe program stays safe while the others act. -/
theorem Safe.relied (h : program.Safe effect rely guarantee post state)
    (htrans : ∀ {first second third}, rely first second → rely second third → rely first third)
    (hpost : ∀ {result first second}, post result first → rely first second → post result second) {later : σ}
    (hrely : rely state later) : program.Safe effect rely guarantee post later := by
  cases program with
  | done result => exact hpost h hrely
  | act action next => exact fun before reply after hbefore heffect => h before reply after (htrans hrely hbefore) heffect

/-- Fewer effects among calmer others, and a guarantee that these effects meet. -/
theorem Safe.weaken {effect' : (action : Action) → σ → Reply action → σ → Prop} {rely' guarantee' : σ → σ → Prop}
    (h : program.Safe effect rely guarantee post state) (hrely : ∀ {first second}, rely' first second → rely first second)
    (hact : ∀ {first before action reply after}, rely' first before → effect' action before reply after →
      effect action before reply after ∧ (guarantee before after → guarantee' before after)) :
    program.Safe effect' rely' guarantee' post state := by
  induction program generalizing state with
  | done result => exact h
  | act action next ih =>
      intro before reply after hbefore heffect
      obtain ⟨heffect, hguarantee⟩ := hact hbefore heffect
      obtain ⟨hkept, hnext⟩ := h before reply after (hrely hbefore) heffect
      exact ⟨hguarantee hkept, ih reply hnext⟩

/-- **Frames.** What every step leaves related stays related to the beginning. -/
theorem Safe.frame {related : σ → σ → Prop} (h : program.Safe effect rely guarantee post state)
    (hrefl : ∀ state, related state state)
    (htrans : ∀ {first second third}, related first second → related second third → related first third)
    (hrely : ∀ {before after}, rely before after → related before after)
    (heffect : ∀ {action before reply after}, effect action before reply after → related before after) :
    program.Safe effect rely guarantee (fun result later => post result later ∧ related state later) state := by
  induction program generalizing state with
  | done result => exact ⟨h, hrefl state⟩
  | act action next ih =>
      intro before reply after hbefore hafter
      obtain ⟨hguarantee, hnext⟩ := h before reply after hbefore hafter
      have hrelated : related state after := htrans (hrely hbefore) (heffect hafter)
      exact ⟨hguarantee, (ih reply hnext).mono fun _ _ hboth => ⟨hboth.1, htrans hrelated hboth.2⟩⟩

/-- A program that may end anyhow. -/
abbrev Keeps (effect : (action : Action) → σ → Reply action → σ → Prop) (rely guarantee : σ → σ → Prop)
    (program : Program Action Reply ε α) : Prop := ∀ state, program.Safe effect rely guarantee (fun _ _ => True) state

theorem keeps_done (result : Except ε α) : (done result).Keeps effect rely guarantee := fun _ => trivial

theorem Keeps.bind {rest : α → Program Action Reply ε β} (h : program.Keeps effect rely guarantee)
    (hrest : ∀ result, (rest result).Keeps effect rely guarantee) :
    (program >>= rest).Keeps effect rely guarantee := by
  intro state
  rw [safe_bind]
  refine (h state).mono fun result later _ => ?_
  cases result with
  | ok result => exact hrest result later
  | error reason => trivial

theorem Keeps.attempt (h : program.Keeps effect rely guarantee) : program.attempt.Keeps effect rely guarantee :=
  fun state => safe_attempt.mpr (h state)

end Safe

/-! ### Contracts -/

section Meets

variable (allowed : Action → Prop) (contract : (action : Action) → Reply action → Prop)

/-- All actions are allowed, and as long as the replies are as the contract says, the result is as required. -/
def Meets : Program Action Reply ε α → (Except ε α → Prop) → Prop
  | done result, post => post result
  | act action next, post => allowed action ∧ ∀ reply, contract action reply → Meets (next reply) post

variable {allowed contract} {program : Program Action Reply ε α} {post : Except ε α → Prop}

theorem Meets.mono (h : program.Meets allowed contract post) {post' : Except ε α → Prop}
    (hpost : ∀ result, post result → post' result) : program.Meets allowed contract post' := by
  induction program with
  | done result => exact hpost result h
  | act action next ih => exact ⟨h.1, fun reply hreply => ih reply (h.2 reply hreply)⟩

theorem Meets.imp (h : program.Meets allowed contract post) {allowed' : Action → Prop}
    (hallowed : ∀ action, allowed action → allowed' action) : program.Meets allowed' contract post := by
  induction program with
  | done result => exact h
  | act action next ih => exact ⟨hallowed action h.1, fun reply hreply => ih reply (h.2 reply hreply)⟩

theorem meets_bind {rest : α → Program Action Reply ε β} {post : Except ε β → Prop} :
    (program >>= rest).Meets allowed contract post ↔
      program.Meets allowed contract fun result =>
        match result with
        | .ok result => (rest result).Meets allowed contract post
        | .error reason => post (.error reason) := by
  show (program.bind rest).Meets allowed contract post ↔ _
  induction program with
  | done result => cases result <;> exact Iff.rfl
  | act action next ih => simp only [bind, Meets, ih]

theorem meets_attempt {post : Except ε (Except ε α) → Prop} :
    program.attempt.Meets allowed contract post ↔ program.Meets allowed contract fun result => post (.ok result) := by
  induction program with
  | done result => exact Iff.rfl
  | act action next ih => simp only [attempt, Meets, ih]

/-- **Contracts among others.** Where the replies to allowed actions are as the contract says and an assertion on the
state is kept, a program that meets the contract is safe. -/
theorem Meets.safe {σ : Type} {effect : (action : Action) → σ → Reply action → σ → Prop} {rely guarantee : σ → σ → Prop}
    {assertion : σ → Prop} (h : program.Meets allowed contract post)
    (hact : ∀ {action state before reply after}, allowed action → assertion state → rely state before →
      effect action before reply after → guarantee before after ∧ contract action reply ∧ assertion after)
    {state : σ} (hstate : assertion state) :
    program.Safe effect rely guarantee (fun result state => post result ∧ assertion state) state := by
  induction program generalizing state with
  | done result => exact ⟨h, hstate⟩
  | act action next ih =>
      intro before reply after hrely heffect
      obtain ⟨hguarantee, hreply, hafter⟩ := hact h.1 hstate hrely heffect
      exact ⟨hguarantee, ih reply (h.2 reply hreply) hafter⟩

end Meets

end Program

end Interaction
