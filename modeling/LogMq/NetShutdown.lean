import LogMq.NetEventLoop
import LogMq.NetWorkerPool

/-! The order in which a server stops: first the workers, which queue the responses of their tasks in the IO loops, and
only when all of their threads have returned the loops themselves. -/

namespace LogMq

/-- What is queued in an IO loop: the creation of a connection, its shutdown, or the response of a task. -/
inductive IoCall (τ : Type) where
  | create (fd : Nat)
  | shutdown (connection : Nat)
  | onResponse (task : τ)
  deriving DecidableEq

/-- The task whose response is queued. -/
def IoCall.task? {τ : Type} : IoCall τ → Option τ
  | .onResponse task => some task
  | _ => none

/-- The threads of a server: the workers and the IO loops. -/
structure ServerThreads (τ : Type) where
  workers : WorkerThreads τ
  loops : Nat → EventLoop (IoCall τ)

inductive ServerThreadsEvent (τ : Type) where
  | worker (event : WorkerEvent τ)
  | loop (index : Nat) (event : LoopEvent (IoCall τ))

namespace ServerThreads

variable {τ : Type}

def create (threadCount maxQueueSize : Nat) : ServerThreads τ :=
  ⟨WorkerThreads.create threadCount maxQueueSize, fun _ => {}⟩

/-- `workers_.Stop()` has come back: all threads have returned. -/
def Joined (server : ServerThreads τ) : Prop :=
  server.workers.stopping = true ∧ ∀ place ∈ server.workers.threads, place = .returned

instance [DecidableEq τ] (server : ServerThreads τ) : Decidable server.Joined := inferInstanceAs (Decidable (_ ∧ _))

section Step

variable [DecidableEq τ] (room : Nat) (loopOf : τ → Nat)

def queueInLoop (server : ServerThreads τ) (index : Nat) (call : IoCall τ) : Nat → EventLoop (IoCall τ) :=
  Function.update server.loops index ((server.loops index).queueInLoop call)

/-- The last action of the task a thread is running: its response goes to the loop of its connection. -/
def respond (server : ServerThreads τ) (thread : Nat) : Nat → EventLoop (IoCall τ) :=
  match server.workers.threads[thread]? with
  | some (.running task) => server.queueInLoop (loopOf task) (.onResponse task)
  | _ => server.loops

/-- One step, if it is possible. Only tasks queue responses, and `Stop` ends the loops after the workers. -/
def step (server : ServerThreads τ) : ServerThreadsEvent τ → Option (ServerThreads τ)
  | .worker event => do
      let workers ← server.workers.step event
      match event with
      | .finish thread => return ⟨workers, server.respond loopOf thread⟩
      | _ => return ⟨workers, server.loops⟩
  | .loop index event => do
      let loop ← (server.loops index).step room event
      match event with
      | .queueInLoop (.onResponse _) => none
      | .quit => if server.Joined then some ⟨server.workers, Function.update server.loops index loop⟩ else none
      | _ => return ⟨server.workers, Function.update server.loops index loop⟩

def Reached (threadCount maxQueueSize : Nat) (server : ServerThreads τ) : Prop :=
  Steps.Reaches (step room loopOf) (create threadCount maxQueueSize) server

end Step

/-! ### What every step keeps -/

/-- The responses queued in each loop are those of the finished tasks of its connections, and a loop is told to quit
only when there will be no more of them. -/
structure Delivering (loopOf : τ → Nat) (server : ServerThreads τ) : Prop where
  workers : server.workers.Orderly
  threads : server.workers.threads ≠ []
  loops : ∀ index, (server.loops index).Orderly
  responses : ∀ index, (server.loops index).queued.filterMap IoCall.task? =
    server.workers.finished.filter fun task => loopOf task = index
  quitting : ∀ index, (server.loops index).quit = true → server.Joined
  early : ∀ index early, (server.loops index).beforeQuit = some early →
    server.Joined ∧ early.filterMap IoCall.task? = server.workers.finished.filter fun task => loopOf task = index

namespace Delivering

variable {loopOf : τ → Nat} {server next : ServerThreads τ} {room : Nat}

/-- Joined workers do nothing more. -/
theorem joined_step (hjoined : server.Joined) {event : WorkerEvent τ} {workers : WorkerThreads τ}
    (hstep : server.workers.step event = some workers) :
    (⟨workers, server.loops⟩ : ServerThreads τ).Joined ∧ workers.finished = server.workers.finished := by
  obtain ⟨hstopping, hreturned⟩ := hjoined
  have hnone : ∀ {thread : Nat} {place : WorkerThread τ}, server.workers.threads[thread]? = some place →
      place = .returned := fun hplace => hreturned _ (List.mem_of_getElem? hplace)
  cases WorkerThreads.step_move hstep with
  | rejected hfull => exact ⟨⟨hstopping, hreturned⟩, rfl⟩
  | accepted hopen hroom => exact absurd (hopen.symm.trans hstopping) Bool.false_ne_true
  | stopped hstopped => exact ⟨⟨hstopping, hreturned⟩, rfl⟩
  | stop hopen => exact absurd (hopen.symm.trans hstopping) Bool.false_ne_true
  | notifyOne hcalls hplace => cases hnone hplace
  | notifyNone hcalls hwaiting => exact ⟨⟨hstopping, hreturned⟩, rfl⟩
  | notifyAll hcall =>
      refine ⟨⟨hstopping, fun place hplace => ?_⟩, rfl⟩
      obtain ⟨old, hold, rfl⟩ := List.mem_map.mp hplace
      rw [hreturned old hold]
      rfl
  | wake hplace => cases hnone hplace
  | block hplace htasks hopen => cases hnone hplace
  | leave hplace htasks hstopped => cases hnone hplace
  | take hplace htasks => cases hnone hplace
  | finish hplace => cases hnone hplace

/-- Only a finished task is new among the finished ones. -/
theorem finished_step {event : WorkerEvent τ} {pool workers : WorkerThreads τ} (hstep : pool.step event = some workers)
    (hother : ∀ thread, event ≠ .finish thread) : workers.finished = pool.finished := by
  cases WorkerThreads.step_move hstep with
  | finish hplace => exact absurd rfl (hother _)
  | _ => rfl

theorem threads_step {event : WorkerEvent τ} {pool workers : WorkerThreads τ} (hstep : pool.step event = some workers)
    (h : pool.threads ≠ []) : workers.threads ≠ [] := by
  have hlength : workers.threads.length = pool.threads.length := by
    cases WorkerThreads.step_move hstep <;> simp [WorkerThreads.setThread]
  exact fun hnone => h (List.length_eq_zero_iff.mp (by rw [← hlength, hnone]; rfl))

/-- A step of the workers that finishes no task. -/
theorem worker (h : server.Delivering loopOf) {event : WorkerEvent τ} {workers : WorkerThreads τ}
    (hstep : server.workers.step event = some workers) (hother : ∀ thread, event ≠ .finish thread) :
    Delivering loopOf ⟨workers, server.loops⟩ where
  workers := h.workers.step hstep
  threads := threads_step hstep h.threads
  loops := h.loops
  responses index := by
    rw [finished_step hstep hother]
    exact h.responses index
  quitting index hquit := (joined_step (h.quitting index hquit) hstep).1
  early index early hearly := by
    obtain ⟨hjoined, hresponses⟩ := h.early index early hearly
    rw [finished_step hstep hother]
    exact ⟨(joined_step hjoined hstep).1, hresponses⟩

/-- A task ends, and its response is queued. -/
theorem finish (h : server.Delivering loopOf) {thread : Nat} {workers : WorkerThreads τ}
    (hstep : server.workers.step (.finish thread) = some workers) :
    Delivering loopOf ⟨workers, server.respond loopOf thread⟩ := by
  have horderly := h.workers.step hstep
  have hthreads := threads_step hstep h.threads
  cases WorkerThreads.step_move hstep with
  | @finish _ task hplace =>
      have hopen : ∀ index, (server.loops index).quit = true → False := fun index hquit => by
        cases (h.quitting index hquit).2 _ (List.mem_of_getElem? hplace)
      have hnone : ∀ index, (server.loops index).beforeQuit = none := fun index => by
        cases hearly : (server.loops index).beforeQuit with
        | none => rfl
        | some early => cases (h.early index early hearly).1.2 _ (List.mem_of_getElem? hplace)
      have hrespond : server.respond loopOf thread = server.queueInLoop (loopOf task) (.onResponse task) := by
        rw [respond, hplace]
      have hloop : ∀ index, server.queueInLoop (loopOf task) (.onResponse task) index =
          if index = loopOf task then (server.loops index).queueInLoop (.onResponse task) else server.loops index := by
        intro index
        by_cases hindex : index = loopOf task
        · rw [if_pos hindex, hindex]
          exact Function.update_self _ _ _
        · rw [if_neg hindex]
          exact Function.update_of_ne hindex _ _
      rw [hrespond]
      refine ⟨horderly, hthreads, fun index => ?_, fun index => ?_, fun index hquit => ?_, fun index early hearly => ?_⟩
      · simp only [hloop index]
        split
        · exact (h.loops index).queueInLoop _
        · exact h.loops index
      · simp only [hloop index, List.filter_append]
        by_cases hindex : index = loopOf task
        · rw [if_pos hindex]
          subst hindex
          simp [EventLoop.queueInLoop, h.responses (loopOf task), IoCall.task?]
        · rw [if_neg hindex, h.responses index]
          simp [Ne.symm hindex]
      · simp only [hloop index] at hquit
        refine (hopen index ?_).elim
        split at hquit <;> exact hquit
      · simp only [hloop index] at hearly
        have habsurd : (server.loops index).beforeQuit = some early := by split at hearly <;> exact hearly
        cases (hnone index).symm.trans habsurd

/-- A step of a loop. Its queue gets no response, and if it is told to quit the workers have been joined. -/
theorem loop (h : server.Delivering loopOf) (hroom : 0 < room) {index : Nat} {event : LoopEvent (IoCall τ)}
    {loop : EventLoop (IoCall τ)} (hstep : (server.loops index).step room event = some loop)
    (hresponse : ∀ task, event ≠ .queueInLoop (.onResponse task)) (hquit : event = .quit → server.Joined) :
    Delivering loopOf ⟨server.workers, Function.update server.loops index loop⟩ := by
  have horderly := (h.loops index).step hroom hstep
  have hqueued : loop.queued.filterMap IoCall.task? = (server.loops index).queued.filterMap IoCall.task? := by
    cases EventLoop.step_move hstep with
    | @queueInLoop functor =>
        simp only [EventLoop.queueInLoop, List.filterMap_append]
        cases functor with
        | onResponse task => exact absurd rfl (hresponse task)
        | create fd => exact List.append_nil _
        | shutdown connection => exact List.append_nil _
    | _ => rfl
  have hflags : (loop.quit = true → (server.loops index).quit = true ∨ server.Joined) ∧
      ∀ early, loop.beforeQuit = some early → (server.loops index).beforeQuit = some early ∨
        server.Joined ∧ early = (server.loops index).queued := by
    cases EventLoop.step_move hstep with
    | quit =>
        refine ⟨fun _ => .inr (hquit rfl), fun early hearly => ?_⟩
        simp only [EventLoop.setQuit] at hearly
        cases hbefore : (server.loops index).beforeQuit with
        | none =>
            rw [hbefore] at hearly
            cases hearly
            exact .inr ⟨hquit rfl, rfl⟩
        | some first =>
            rw [hbefore] at hearly
            exact .inl hearly
    | _ => exact ⟨.inl, fun early => .inl⟩
  refine ⟨h.workers, h.threads, fun other => ?_, fun other => ?_, fun other hset => ?_, fun other early hearly => ?_⟩
  · by_cases hother : other = index
    · subst hother
      simpa only [Function.update_self] using horderly
    · simpa only [Function.update_of_ne hother] using h.loops other
  · by_cases hother : other = index
    · subst hother
      simp only [Function.update_self, hqueued]
      exact h.responses other
    · simpa only [Function.update_of_ne hother] using h.responses other
  · by_cases hother : other = index
    · subst hother
      simp only [Function.update_self] at hset
      exact (hflags.1 hset).elim (h.quitting other) id
    · simp only [Function.update_of_ne hother] at hset
      exact h.quitting other hset
  · by_cases hother : other = index
    · subst hother
      simp only [Function.update_self] at hearly
      rcases hflags.2 early hearly with hbefore | ⟨hjoined, rfl⟩
      · exact h.early other early hbefore
      · exact ⟨hjoined, h.responses other⟩
    · simp only [Function.update_of_ne hother] at hearly
      exact h.early other early hearly

theorem create (threadCount maxQueueSize : Nat) :
    (ServerThreads.create threadCount maxQueueSize : ServerThreads τ).Delivering loopOf where
  workers := .create threadCount maxQueueSize
  threads := @WorkerThreads.Reached.threads_ne_nil τ _ threadCount maxQueueSize (.refl _)
  loops _ := .start
  responses _ := rfl
  quitting index h := by cases h
  early index early h := by cases h

variable [DecidableEq τ]

/-- **What every step keeps.** -/
theorem step (h : server.Delivering loopOf) (hroom : 0 < room) {event : ServerThreadsEvent τ}
    (hstep : server.step room loopOf event = some next) : next.Delivering loopOf := by
  cases event with
  | worker event =>
      obtain ⟨workers, hworkers, hafter⟩ := Option.bind_eq_some_iff.mp hstep
      cases event with
      | finish thread =>
          cases hafter
          exact h.finish hworkers
      | _ =>
          cases hafter
          exact h.worker hworkers fun thread habsurd => by cases habsurd
  | loop index event =>
      obtain ⟨loop, hloop, hafter⟩ := Option.bind_eq_some_iff.mp hstep
      cases event with
      | quit =>
          by_cases hjoined : server.Joined
          · rw [if_pos hjoined] at hafter
            cases hafter
            exact h.loop hroom hloop (fun task habsurd => by cases habsurd) fun _ => hjoined
          · rw [if_neg hjoined] at hafter
            cases hafter
      | queueInLoop functor =>
          cases functor with
          | onResponse task => cases hafter
          | create fd =>
              cases hafter
              exact h.loop hroom hloop (fun task habsurd => by cases habsurd) fun habsurd => by cases habsurd
          | shutdown connection =>
              cases hafter
              exact h.loop hroom hloop (fun task habsurd => by cases habsurd) fun habsurd => by cases habsurd
      | _ =>
          cases hafter
          exact h.loop hroom hloop (fun task habsurd => by cases habsurd) fun habsurd => by cases habsurd

end Delivering

section Stop

variable [DecidableEq τ] {room : Nat} {loopOf : τ → Nat} {threadCount maxQueueSize : Nat} {server : ServerThreads τ}

theorem Reached.delivering (h : Reached room loopOf threadCount maxQueueSize server) (hroom : 0 < room) :
    server.Delivering loopOf :=
  Steps.Reaches.keeps (fun hkept hstep => Delivering.step hkept hroom hstep) h (.create _ _)

/-- **No response is left behind.** When the thread of a loop has left it, the workers have returned, and the loop has
run the response of every accepted task of its connections once, in the order in which these tasks were finished. -/
theorem no_response_left_behind (h : Reached room loopOf threadCount maxQueueSize server) (hroom : 0 < room)
    {index : Nat} (hleft : (server.loops index).phase = .left) :
    server.Joined ∧ server.workers.finished.Perm server.workers.accepted ∧
      (server.loops index).called.filterMap IoCall.task? =
        server.workers.finished.filter fun task => loopOf task = index := by
  have hdelivering := h.delivering hroom
  have horderly := hdelivering.loops index
  have hquit := horderly.last (by rw [hleft]; rfl)
  obtain ⟨early, hearly⟩ := Option.isSome_iff_exists.mp (horderly.recorded hquit)
  obtain ⟨hjoined, hresponses⟩ := hdelivering.early index early hearly
  refine ⟨hjoined, (hdelivering.workers.drained_all hdelivering.threads hjoined.2).2, ?_⟩
  -- what was run lies between what had been queued when the loop was told to quit and what has been queued in all
  have hlower : early <+: (server.loops index).called := by
    have hfinal := horderly.final early hearly (by rw [hleft]; rfl) (by rw [hleft]; rfl)
    simpa [hleft, LoopPhase.batch] using hfinal
  have hupper : (server.loops index).called <+: (server.loops index).queued :=
    horderly.fifo ▸ List.prefix_append _ _
  have hsame := hlower.filterMap IoCall.task?
  rw [hresponses, ← hdelivering.responses index] at hsame
  rw [← hdelivering.responses index]
  exact (hupper.filterMap IoCall.task?).eq_of_length_le hsame.length_le

/-- A task ends, the workers are stopped and joined, and then the loop is told to quit. -/
def stopInOrder : List (ServerThreadsEvent Nat) :=
  [.worker (.submit 7), .worker (.look 0), .worker (.finish 0), .worker .stop, .worker (.look 0), .loop 0 .quit,
    .loop 0 .test, .loop 0 .swap, .loop 0 .call, .loop 0 .doneCalling]

theorem no_response_left_behind_stopInOrder :
    ∃ server : ServerThreads Nat, Steps.run (step 1 fun _ => 0) (ServerThreads.create 1 1) stopInOrder = some server ∧
      server.Joined ∧ (server.loops 0).called.filterMap IoCall.task? = [7] := by
  obtain ⟨server, hrun⟩ := Option.isSome_iff_exists.mp
    (by decide : (Steps.run (step 1 fun _ => 0) (ServerThreads.create 1 1) stopInOrder).isSome = true)
  have hstate : (Steps.run (step 1 fun _ => 0) (ServerThreads.create 1 1) stopInOrder).map (fun server =>
      ((server.loops 0).phase, server.workers.finished)) = some (.left, [7]) := by decide
  rw [hrun, Option.map_some] at hstate
  obtain ⟨hleft, hfinished⟩ := Prod.mk.inj (Option.some.inj hstate)
  obtain ⟨hjoined, -, hcalled⟩ := @no_response_left_behind Nat _ 1 (fun _ => 0) 1 1 server ⟨_, hrun⟩ (by decide) 0 hleft
  refine ⟨server, hrun, hjoined, ?_⟩
  rw [hcalled, hfinished]
  rfl

end Stop

end ServerThreads

end LogMq
