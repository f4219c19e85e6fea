import Mathlib.Tactic

/-! Runs of a deterministic machine, and what they inherit from its single steps. -/

namespace Runs

variable {σ ε : Type} (step : σ → ε → σ)

/-- The state after some events. -/
def run (state : σ) (events : List ε) : σ := events.foldl step state

theorem run_append (state : σ) (events more : List ε) :
    run step state (events ++ more) = run step (run step state events) more :=
  List.foldl_append

theorem run_concat (state : σ) (events : List ε) (event : ε) :
    run step state (events ++ [event]) = step (run step state events) event := by
  rw [run_append]
  rfl

/-- What every step keeps holds after every run. -/
theorem run_invariant {invariant : σ → Prop} {state : σ} {events : List ε} (h : invariant state)
    (hstep : ∀ state, ∀ event ∈ events, invariant state → invariant (step state event)) :
    invariant (run step state events) := by
  induction events generalizing state with
  | nil => exact h
  | cons event rest ih =>
      exact ih (hstep state event List.mem_cons_self h) fun state event hevent =>
        hstep state event (List.mem_cons_of_mem _ hevent)

/-- A run all of whose steps are allowed where they are taken. -/
def Along (allowed : σ → ε → Prop) : σ → List ε → Prop
  | _, [] => True
  | state, event :: rest => allowed state event ∧ Along allowed (step state event) rest

instance decidableAlong (allowed : σ → ε → Prop) [∀ state event, Decidable (allowed state event)] :
    ∀ (state : σ) (events : List ε), Decidable (Along step allowed state events)
  | _, [] => isTrue trivial
  | state, event :: rest =>
      have := decidableAlong allowed (step state event) rest
      inferInstanceAs (Decidable (allowed state event ∧ Along step allowed (step state event) rest))

theorem along_append {allowed : σ → ε → Prop} {state : σ} {events more : List ε} :
    Along step allowed state (events ++ more) ↔
      Along step allowed state events ∧ Along step allowed (run step state events) more := by
  induction events generalizing state with
  | nil => exact ⟨fun h => ⟨trivial, h⟩, fun h => h.2⟩
  | cons event rest ih =>
      rw [List.cons_append, Along, Along, ih, and_assoc]
      rfl

/-- A preorder that every allowed step follows relates the ends of an allowed run. -/
theorem Along.related {allowed : σ → ε → Prop} {relation : σ → σ → Prop} (hrefl : ∀ state, relation state state)
    (htrans : ∀ {a b c}, relation a b → relation b c → relation a c)
    (hstep : ∀ state event, allowed state event → relation state (step state event)) {state : σ} {events : List ε}
    (h : Along step allowed state events) : relation state (run step state events) := by
  induction events generalizing state with
  | nil => exact hrefl state
  | cons event rest ih => exact htrans (hstep state event h.1) (ih h.2)

/-- What an invariant makes of the steps of an allowed run. -/
theorem Along.imp {allowed allowed' : σ → ε → Prop} {invariant : σ → Prop}
    (hinvariant : ∀ state event, invariant state → invariant (step state event))
    (himp : ∀ state event, invariant state → allowed state event → allowed' state event) {state : σ} {events : List ε}
    (hstate : invariant state) (h : Along step allowed state events) : Along step allowed' state events := by
  induction events generalizing state with
  | nil => trivial
  | cons event rest ih => exact ⟨himp state event hstate h.1, ih (hinvariant state event hstate) h.2⟩

/-- A relation between the states of two machines that every event keeps holds after the same events. -/
theorem run_related {τ : Type} {other : τ → ε → τ} {relation : σ → τ → Prop} {state : σ} {state' : τ}
    (h : relation state state')
    (hstep : ∀ state state' event, relation state state' → relation (step state event) (other state' event))
    (events : List ε) : relation (run step state events) (run other state' events) := by
  induction events generalizing state state' with
  | nil => exact h
  | cons event rest ih => exact ih (hstep state state' event h)

/-- What the steps of a run put out, one after another. -/
def outputs {α : Type} (output : σ → ε → List α) : σ → List ε → List α
  | _, [] => []
  | state, event :: rest => output state event ++ outputs output (step state event) rest

/-- Related machines whose steps put out the same do so along the same events. -/
theorem outputs_related {τ α : Type} {other : τ → ε → τ} {relation : σ → τ → Prop} {output : σ → ε → List α}
    {output' : τ → ε → List α} {state : σ} {state' : τ} {events : List ε} (h : relation state state')
    (hstep : ∀ state state', ∀ event ∈ events, relation state state' →
      output state event = output' state' event ∧ relation (step state event) (other state' event)) :
    outputs step output state events = outputs other output' state' events := by
  induction events generalizing state state' with
  | nil => rfl
  | cons event rest ih =>
      obtain ⟨houtput, hnext⟩ := hstep state state' event List.mem_cons_self h
      rw [outputs, outputs, houtput,
        ih hnext fun state state' event hevent => hstep state state' event (List.mem_cons_of_mem _ hevent)]

/-- **First in, first out.** If what a step takes in comes behind the content of the state and what it puts out was in
front, then a run puts out what it has taken in, up to what is left. -/
theorem outputs_append_content {α : Type} {output : σ → ε → List α} {content : σ → List α} {input : ε → List α}
    (hstep : ∀ state event, output state event ++ content (step state event) = content state ++ input event)
    (state : σ) (events : List ε) :
    outputs step output state events ++ content (run step state events) =
      content state ++ (events.map input).flatten := by
  induction events generalizing state with
  | nil => exact (List.append_nil _).symm
  | cons event rest ih =>
      calc output state event ++ outputs step output (step state event) rest ++
            content (run step (step state event) rest)
          = output state event ++ (content (step state event) ++ (rest.map input).flatten) := by
            rw [List.append_assoc, ih]
        _ = content state ++ (input event ++ (rest.map input).flatten) := by
            rw [← List.append_assoc, hstep, List.append_assoc]

end Runs

/-! ### Versions -/

section Versions

variable {σ ι ν : Type} [LinearOrder ι]

/-- The version grows, or it stays and the content with it. -/
def Advances (version : σ → ι) (content : σ → ν) (old new : σ) : Prop :=
  version old < version new ∨ version old = version new ∧ content old = content new

namespace Advances

variable {version : σ → ι} {content : σ → ν} {a b c : σ}

theorem refl (state : σ) : Advances version content state state := Or.inr ⟨rfl, rfl⟩

theorem trans (hab : Advances version content a b) (hbc : Advances version content b c) :
    Advances version content a c := by
  rcases hab with hlt | ⟨hversion, hcontent⟩
  · rcases hbc with hlt' | ⟨hversion', -⟩
    · exact Or.inl (hlt.trans hlt')
    · exact Or.inl (hversion' ▸ hlt)
  · rcases hbc with hlt' | ⟨hversion', hcontent'⟩
    · exact Or.inl (hversion.symm ▸ hlt')
    · exact Or.inr ⟨hversion.trans hversion', hcontent.trans hcontent'⟩

theorem le (h : Advances version content a b) : version a ≤ version b := by
  rcases h with hlt | ⟨hversion, -⟩
  · exact hlt.le
  · exact hversion.le

/-- One version has one content. -/
theorem content_eq (h : Advances version content a b) (hversion : version a = version b) :
    content a = content b := by
  rcases h with hlt | ⟨-, hcontent⟩
  · exact absurd hversion hlt.ne
  · exact hcontent

end Advances

end Versions
