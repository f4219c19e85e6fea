import Mathlib.Tactic

/-! Machines whose steps are not always possible: what their runs keep, how long these can be, and how one machine
follows another. The last part is about states that are lists of slots, one of which changes at a time. -/

namespace Steps

variable {σ ε : Type} (step : σ → ε → Option σ)

/-- The state after some events, if all of them are possible in turn. -/
def run (state : σ) : List ε → Option σ
  | [] => some state
  | event :: rest => (step state event).bind fun next => run next rest

/-- The states that some run ends in. -/
def Reaches (state later : σ) : Prop := ∃ events, run step state events = some later

/-- None of these events is possible. -/
def Ends (own : ε → Prop) (state : σ) : Prop := ∀ event, own event → step state event = none

section Runs

variable {step}

theorem run_append {state : σ} {events more : List ε} :
    run step state (events ++ more) = (run step state events).bind fun next => run step next more := by
  induction events generalizing state with
  | nil => rfl
  | cons event rest ih =>
      simp only [List.cons_append, run, Option.bind_assoc]
      exact congrArg _ (funext fun next => ih)

theorem Reaches.refl (state : σ) : Reaches step state state := ⟨[], rfl⟩

theorem Reaches.single {state later : σ} (event : ε) (h : step state event = some later) :
    Reaches step state later :=
  ⟨[event], by simp [run, h]⟩

theorem Reaches.trans {state middle later : σ} (h : Reaches step state middle) (h' : Reaches step middle later) :
    Reaches step state later := by
  obtain ⟨events, hevents⟩ := h
  obtain ⟨more, hmore⟩ := h'
  exact ⟨events ++ more, by rw [run_append, hevents, Option.bind_some, hmore]⟩

/-- What every step keeps holds after every run. -/
theorem run_keeps {kept : σ → Prop}
    (hstep : ∀ {state event next}, kept state → step state event = some next → kept next)
    {state later : σ} {events : List ε} (hrun : run step state events = some later) (h : kept state) : kept later := by
  induction events generalizing state with
  | nil =>
      cases hrun
      exact h
  | cons event rest ih =>
      obtain ⟨next, hnext, hrest⟩ := Option.bind_eq_some_iff.mp hrun
      exact ih hrest (hstep h hnext)

theorem Reaches.keeps {kept : σ → Prop}
    (hstep : ∀ {state event next}, kept state → step state event = some next → kept next)
    {state later : σ} (hreach : Reaches step state later) (h : kept state) : kept later := by
  obtain ⟨events, hevents⟩ := hreach
  exact run_keeps hstep hevents h

/-- **Progress is bounded.** If each event of some kind makes the state smaller, and no event makes it larger by more
than its cost, then a run has no more events of that kind than its first state is large and its events cost. -/
theorem run_bounded {kept : σ → Prop} {own : ε → Bool} {cost : ε → Nat} {size : σ → Nat}
    (hstep : ∀ {state event next}, kept state → step state event = some next →
      kept next ∧ size next + (if own event = true then 1 else 0) ≤ size state + cost event)
    {state later : σ} {events : List ε} (hrun : run step state events = some later) (h : kept state) :
    kept later ∧ size later + events.countP own ≤ size state + (events.map cost).sum := by
  induction events generalizing state with
  | nil =>
      cases hrun
      exact ⟨h, by simp⟩
  | cons event rest ih =>
      obtain ⟨next, hnext, hrest⟩ := Option.bind_eq_some_iff.mp hrun
      obtain ⟨hkept, hsize⟩ := hstep h hnext
      obtain ⟨hlater, hbound⟩ := ih hrest hkept
      refine ⟨hlater, ?_⟩
      rw [List.countP_cons, List.map_cons, List.sum_cons]
      omega

/-- A machine whose every step is matched by a run of another one only reaches states that the other one reaches. -/
theorem Reaches.simulated {τ ι : Type} {other : τ → ι → Option τ} {related : σ → τ → Prop}
    (hstep : ∀ {state event next state'}, related state state' → step state event = some next →
      ∃ next', Reaches other state' next' ∧ related next next')
    {state later : σ} {state' : τ} (hreach : Reaches step state later) (h : related state state') :
    ∃ later', Reaches other state' later' ∧ related later later' := by
  obtain ⟨events, hevents⟩ := hreach
  induction events generalizing state state' with
  | nil =>
      cases hevents
      exact ⟨state', .refl state', h⟩
  | cons event rest ih =>
      obtain ⟨next, hnext, hrest⟩ := Option.bind_eq_some_iff.mp hevents
      obtain ⟨next', hfirst, hrelated⟩ := hstep h hnext
      obtain ⟨later', hothers, hlater⟩ := ih hrelated hrest
      exact ⟨later', hfirst.trans hothers, hlater⟩

end Runs

end Steps

/-! ### Slots -/

namespace Slots

variable {α : Type} {items : List α} {position : Nat} {old : α}

/-- A list up to order: one slot, and the others. -/
theorem exists_rest (h : items[position]? = some old) :
    ∃ rest, items.Perm (old :: rest) ∧ ∀ new, (items.set position new).Perm (new :: rest) := by
  have hperm : ∀ {items : List α} {old : α}, items[position]? = some old →
      items.Perm (old :: items.eraseIdx position) := by
    intro items old hold
    obtain ⟨hlt, rfl⟩ := List.getElem?_eq_some_iff.mp hold
    exact (List.getElem_cons_eraseIdx_perm hlt).symm
  refine ⟨items.eraseIdx position, hperm h, fun new => ?_⟩
  have hlt := (List.getElem?_eq_some_iff.mp h).1
  have hnew := @hperm (items.set position new) new (List.getElem?_set_self hlt)
  rwa [List.eraseIdx_set_eq] at hnew

/-- What is added up over the slots changes by what the one slot contributes. -/
theorem sum_set (size : α → Nat) (h : items[position]? = some old) (new : α) :
    ((items.set position new).map size).sum + size old = (items.map size).sum + size new := by
  obtain ⟨rest, hold, hnew⟩ := exists_rest h
  have hbefore := (hold.map size).sum_eq
  have hafter := ((hnew new).map size).sum_eq
  rw [List.map_cons, List.sum_cons] at hbefore hafter
  omega

end Slots
