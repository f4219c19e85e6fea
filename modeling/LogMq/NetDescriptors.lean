import LogMq.LibSteps

/-! The descriptors of a server: those on their way to an IO loop, those of its connections, and the table of
connections by descriptor. The main loop, the IO loops and the thread that stops the server take their steps in any
order. `HandleAccept` lets go of `connections_mutex_` between the check of `max_connections` and `QueueInLoop`, so the
two are separate steps, with the main loop as the only thread that takes them; `accept` itself and the check are one,
since until then no other thread knows of the descriptor. `HandleClose` is three steps, since others may run between
its call of `RemoveConnection` and its call of `close`. The kernel gives out any descriptor that is not open. -/

namespace LogMq

/-- How far a connection is with its descriptor: it has it, it has begun `HandleClose` and set `fd_` to -1, it has taken
itself out of the table, or it has closed it. -/
inductive SocketPhase where
  | owned
  | closing
  | unlisted
  | closed
  deriving DecidableEq

/-- The steps to the closed descriptor. -/
def SocketPhase.rank : SocketPhase → Nat
  | .owned => 3
  | .closing => 2
  | .unlisted => 1
  | .closed => 0

structure ServerSocket where
  fd : Nat
  phase : SocketPhase := .owned
  deriving DecidableEq

/-- The descriptor a connection has yet to close. -/
def ServerSocket.held? (socket : ServerSocket) : Option Nat :=
  match socket.phase with
  | .closed => none
  | _ => some socket.fd

/-- The descriptors that are open for clients, the one that has passed the check of `HandleAccept` and is not queued
yet, those queued for the creation of a connection, the connections by number, and `connections_`. The last field is
its history, which the code does not keep: the largest number of sockets that had passed the check and had no
connection yet. -/
structure SocketTable where
  maxConnections : Nat
  isOpen : Nat → Bool := fun _ => false
  checked : Option Nat := none
  creating : List Nat := []
  connections : List ServerSocket := []
  table : List (Nat × Nat) := []
  stopping : Bool := false
  peak : Nat := 0

inductive SocketEvent where
  | accept (fd : Nat)
  | enqueue
  | refuse
  | create (position : Nat)
  | beginClose (id : Nat)
  | removeConnection (id : Nat)
  | closeDescriptor (id : Nat)
  | destroy (id : Nat)
  | stop
  | clear
  deriving DecidableEq

/-- The steps on the way to closed descriptors. -/
def SocketEvent.closes : SocketEvent → Bool
  | .enqueue => true
  | .refuse => true
  | .create _ => true
  | .removeConnection _ => true
  | .closeDescriptor _ => true
  | .destroy _ => true
  | _ => false

namespace SocketTable

variable (server : SocketTable)

def close (fd : Nat) : SocketTable := { server with isOpen := Function.update server.isOpen fd false }

def setPhase (id fd : Nat) (phase : SocketPhase) : SocketTable :=
  { server with connections := server.connections.set id ⟨fd, phase⟩ }

/-- `emplace`, which leaves an entry that is there alone. -/
def emplace (fd id : Nat) : SocketTable :=
  if (server.table.map Prod.fst).contains fd then server else { server with table := server.table ++ [(fd, id)] }

/-- `RemoveConnection`. -/
def erase (fd : Nat) : SocketTable := { server with table := server.table.filter fun entry => entry.1 ≠ fd }

/-- An accepted socket passes the check, or is closed at once. -/
def accept (fd : Nat) : SocketTable :=
  if server.stopping = true ∨ server.maxConnections ≤ server.table.length then server
  else { server with
    isOpen := Function.update server.isOpen fd true
    checked := some fd
    peak := max server.peak (server.creating.length + 1) }

/-- What `HandleAccept` has queued, for a descriptor that was taken from the queue. -/
def create (fd : Nat) : SocketTable :=
  if server.stopping = true then server.close fd
  else { server.emplace fd server.connections.length with connections := server.connections ++ [{ fd := fd }] }

/-- One step, if it is possible. `refuse` is the end of a socket that cannot be made non-blocking. A connection is
destroyed only when the table has let go of it, and not while it runs `HandleClose`. -/
def step (server : SocketTable) : SocketEvent → Option SocketTable
  | .accept fd =>
      if server.isOpen fd = true ∨ server.checked.isSome = true then none else some (server.accept fd)
  | .enqueue => do
      let fd ← server.checked
      return { server with checked := none, creating := server.creating ++ [fd] }
  | .refuse => do
      let fd ← server.checked
      return { server with checked := none }.close fd
  | .create position => do
      let fd ← server.creating[position]?
      return { server with creating := server.creating.eraseIdx position }.create fd
  | .beginClose id => do
      let socket ← server.connections[id]?
      if socket.phase = .owned then return server.setPhase id socket.fd .closing else none
  | .removeConnection id => do
      let socket ← server.connections[id]?
      if socket.phase = .closing then return (server.setPhase id socket.fd .unlisted).erase socket.fd else none
  | .closeDescriptor id => do
      let socket ← server.connections[id]?
      if socket.phase = .unlisted then return (server.setPhase id socket.fd .closed).close socket.fd else none
  | .destroy id => do
      let socket ← server.connections[id]?
      if socket.phase = .owned ∧ (socket.fd, id) ∉ server.table then
        return (server.setPhase id socket.fd .closed).close socket.fd
      else none
  | .stop => some { server with stopping := true }
  | .clear => if server.stopping = true then some { server with table := [] } else none

/-- The sockets that have passed the check and have no connection yet. -/
def pending : List Nat := server.checked.toList ++ server.creating

/-- The descriptors that someone has yet to close. -/
def held : List Nat := server.pending ++ server.connections.filterMap ServerSocket.held?

/-- The steps that are left of a server that is stopping. -/
def size : Nat :=
  2 * server.checked.toList.length + server.creating.length +
    (server.connections.map fun socket => socket.phase.rank).sum

def Reached (maxConnections : Nat) (server : SocketTable) : Prop :=
  Steps.Reaches step { maxConnections := maxConnections } server

/-! ### What a step does -/

/-- The ways a step can go. -/
inductive Move (server : SocketTable) : SocketEvent → SocketTable → Prop
  | rejected {fd : Nat} (hfull : server.stopping = true ∨ server.maxConnections ≤ server.table.length) :
      Move server (.accept fd) server
  | accepted {fd : Nat} (hclosed : ¬ server.isOpen fd = true) (hidle : server.checked = none)
      (hopen : server.stopping = false) (hroom : server.table.length < server.maxConnections) :
      Move server (.accept fd) { server with
        isOpen := Function.update server.isOpen fd true
        checked := some fd
        peak := max server.peak (server.creating.length + 1) }
  | queued {fd : Nat} (hchecked : server.checked = some fd) :
      Move server .enqueue { server with checked := none, creating := server.creating ++ [fd] }
  | refused {fd : Nat} (hchecked : server.checked = some fd) :
      Move server .refuse (close { server with checked := none } fd)
  | dropped {position fd : Nat} (hplace : server.creating[position]? = some fd) (hstopping : server.stopping = true) :
      Move server (.create position) (close { server with creating := server.creating.eraseIdx position } fd)
  | created {position fd : Nat} (hplace : server.creating[position]? = some fd) (hopen : server.stopping = false) :
      Move server (.create position)
        { emplace { server with creating := server.creating.eraseIdx position } fd server.connections.length with
          connections := server.connections ++ [{ fd := fd }] }
  | beginClose {id : Nat} {socket : ServerSocket} (hplace : server.connections[id]? = some socket)
      (hphase : socket.phase = .owned) : Move server (.beginClose id) (server.setPhase id socket.fd .closing)
  | removeConnection {id : Nat} {socket : ServerSocket} (hplace : server.connections[id]? = some socket)
      (hphase : socket.phase = .closing) :
      Move server (.removeConnection id) ((server.setPhase id socket.fd .unlisted).erase socket.fd)
  | closeDescriptor {id : Nat} {socket : ServerSocket} (hplace : server.connections[id]? = some socket)
      (hphase : socket.phase = .unlisted) :
      Move server (.closeDescriptor id) ((server.setPhase id socket.fd .closed).close socket.fd)
  | destroy {id : Nat} {socket : ServerSocket} (hplace : server.connections[id]? = some socket)
      (hphase : socket.phase = .owned) (hlost : (socket.fd, id) ∉ server.table) :
      Move server (.destroy id) ((server.setPhase id socket.fd .closed).close socket.fd)
  | stop : Move server .stop { server with stopping := true }
  | clear (hstopping : server.stopping = true) : Move server .clear { server with table := [] }

variable {next : SocketTable}

theorem step_move {server : SocketTable} {event : SocketEvent} (hstep : server.step event = some next) :
    Move server event next := by
  cases event with
  | accept fd =>
      simp only [step] at hstep
      split at hstep
      · cases hstep
      · cases hstep
        unfold accept
        split
        · exact .rejected ‹_›
        · rename_i hfree haccepted
          obtain ⟨hclosed, hidle⟩ := not_or.mp hfree
          obtain ⟨hopen, hroom⟩ := not_or.mp haccepted
          exact .accepted hclosed (Option.not_isSome_iff_eq_none.mp hidle) (Bool.eq_false_of_not_eq_true hopen)
            (not_le.mp hroom)
  | enqueue =>
      obtain ⟨fd, hchecked, hafter⟩ := Option.bind_eq_some_iff.mp hstep
      cases hafter
      exact .queued hchecked
  | refuse =>
      obtain ⟨fd, hchecked, hafter⟩ := Option.bind_eq_some_iff.mp hstep
      cases hafter
      exact .refused hchecked
  | create position =>
      obtain ⟨fd, hplace, hafter⟩ := Option.bind_eq_some_iff.mp hstep
      cases hafter
      unfold create
      dsimp only
      split
      · exact .dropped hplace ‹_›
      · exact .created hplace (Bool.eq_false_of_not_eq_true ‹_›)
  | beginClose id =>
      obtain ⟨socket, hplace, hafter⟩ := Option.bind_eq_some_iff.mp hstep
      split at hafter
      · cases hafter
        exact .beginClose hplace ‹_›
      · cases hafter
  | removeConnection id =>
      obtain ⟨socket, hplace, hafter⟩ := Option.bind_eq_some_iff.mp hstep
      split at hafter
      · cases hafter
        exact .removeConnection hplace ‹_›
      · cases hafter
  | closeDescriptor id =>
      obtain ⟨socket, hplace, hafter⟩ := Option.bind_eq_some_iff.mp hstep
      split at hafter
      · cases hafter
        exact .closeDescriptor hplace ‹_›
      · cases hafter
  | destroy id =>
      obtain ⟨socket, hplace, hafter⟩ := Option.bind_eq_some_iff.mp hstep
      split at hafter
      · rename_i hlost
        cases hafter
        exact .destroy hplace hlost.1 hlost.2
      · cases hafter
  | stop =>
      cases hstep
      exact .stop
  | clear =>
      simp only [step] at hstep
      split at hstep
      · cases hstep
        exact .clear ‹_›
      · cases hstep

/-! ### What every step keeps -/

/-- A descriptor is open exactly if someone has yet to close it, and then there is only one. The table leads from each
of its descriptors to the connection that has it, and until the server stops it has every connection that has not begun
to close. -/
structure Sound (server : SocketTable) : Prop where
  once : server.held.Nodup
  exact : ∀ fd, server.isOpen fd = true ↔ fd ∈ server.held
  keys : (server.table.map Prod.fst).Nodup
  listed : ∀ fd id, (fd, id) ∈ server.table → ∃ socket, server.connections[id]? = some socket ∧ socket.fd = fd ∧
    (socket.phase = .owned ∨ socket.phase = .closing)
  kept : server.stopping = false → ∀ id socket, server.connections[id]? = some socket → socket.phase = .owned →
    (socket.fd, id) ∈ server.table
  queued : server.pending.length ≤ server.peak
  bounded : server.table.length + server.pending.length ≤ server.maxConnections - 1 + server.peak

namespace Sound

variable {server next : SocketTable}

theorem start (maxConnections : Nat) : Sound { maxConnections := maxConnections } where
  once := List.nodup_nil
  exact fd := by simp [held, pending]
  keys := List.nodup_nil
  listed fd id h := by cases h
  kept _ id socket hplace := by cases hplace
  queued := le_refl 0
  bounded := Nat.zero_le _

/-- What is held, seen from one connection. -/
theorem held_perm {id : Nat} {socket : ServerSocket} (hplace : server.connections[id]? = some socket) :
    ∃ others, server.held.Perm (socket.held?.toList ++ others) ∧ ∀ phase,
      (server.pending ++ (server.connections.set id ⟨socket.fd, phase⟩).filterMap ServerSocket.held?).Perm
        ((⟨socket.fd, phase⟩ : ServerSocket).held?.toList ++ others) := by
  obtain ⟨rest, hold, hnew⟩ := Slots.exists_rest hplace
  have hfirst : ∀ {sockets : List ServerSocket} {first : ServerSocket}, sockets.Perm (first :: rest) →
      (server.pending ++ sockets.filterMap ServerSocket.held?).Perm
        (first.held?.toList ++ (server.pending ++ rest.filterMap ServerSocket.held?)) := by
    intro sockets first hperm
    refine ((hperm.filterMap ServerSocket.held?).append_left _).trans ?_
    cases hheld : first.held? with
    | none =>
        rw [List.filterMap_cons_none hheld]
        exact .refl _
    | some fd =>
        rw [List.filterMap_cons_some hheld]
        exact List.perm_middle
  exact ⟨server.pending ++ rest.filterMap ServerSocket.held?, hfirst hold, fun phase => hfirst (hnew _)⟩

theorem held_of_phase {socket : ServerSocket} (h : socket.phase ≠ .closed) : socket.held? = some socket.fd := by
  unfold ServerSocket.held?
  split
  · exact absurd ‹_› h
  · rfl

/-- An entry of the table belongs to the connection that has the descriptor. -/
theorem listed_held (h : server.Sound) {fd id : Nat} (hentry : (fd, id) ∈ server.table) :
    ∃ socket, server.connections[id]? = some socket ∧ socket.held? = some fd := by
  obtain ⟨socket, hplace, rfl, hphase⟩ := h.listed fd id hentry
  refine ⟨socket, hplace, held_of_phase ?_⟩
  rcases hphase with hphase | hphase <;> rw [hphase] <;> simp

/-- Two connections that have yet to close the same descriptor are one. -/
theorem held_unique (h : server.Sound) {id other fd : Nat} {socket socket' : ServerSocket}
    (hplace : server.connections[id]? = some socket) (hplace' : server.connections[other]? = some socket')
    (hheld : socket.held? = some fd) (hheld' : socket'.held? = some fd) : other = id := by
  by_contra hother
  obtain ⟨hlt, rfl⟩ := List.getElem?_eq_some_iff.mp hplace
  have hnodup := (List.nodup_append.mp h.once).2.1
  have hperm := (List.getElem_cons_eraseIdx_perm hlt).symm.filterMap ServerSocket.held?
  rw [List.filterMap_cons_some hheld] at hperm
  refine (List.nodup_cons.mp (hperm.nodup_iff.mp hnodup)).1 (List.mem_filterMap.mpr ⟨socket', ?_, hheld'⟩)
  exact List.mem_eraseIdx_iff_getElem?.mpr ⟨other, hother, hplace'⟩

/-- A connection goes on to another phase. If it has closed its descriptor, this was open and is held by no one else. -/
theorem rephase (h : server.Sound) {id : Nat} {socket : ServerSocket} (hplace : server.connections[id]? = some socket)
    (hbefore : socket.phase ≠ .closed) {phase : SocketPhase} {table : List (Nat × Nat)} {isOpen : Nat → Bool}
    (htable : table.Sublist server.table)
    (hmine : ∀ fd, (fd, id) ∈ table → phase = .owned ∨ phase = .closing) (hleft : phase ≠ .owned)
    (hothers : ∀ fd other, other ≠ id → (fd, other) ∈ server.table → (fd, other) ∈ table)
    (hopen : phase ≠ .closed ∧ isOpen = server.isOpen ∨
      phase = .closed ∧ isOpen = Function.update server.isOpen socket.fd false) :
    Sound { server with connections := server.connections.set id ⟨socket.fd, phase⟩, table := table, isOpen := isOpen } := by
  obtain ⟨others, hold, hnew⟩ := held_perm hplace
  rw [held_of_phase hbefore, Option.toList_some] at hold
  have honce := hold.nodup_iff.mp h.once
  have hlt := (List.getElem?_eq_some_iff.mp hplace).1
  refine ⟨?_, fun fd => ?_, h.keys.sublist (htable.map _), fun fd other hentry => ?_,
    fun hrunning other found hfound howned => ?_, h.queued, ?_⟩
  · refine (hnew phase).nodup_iff.mpr ?_
    by_cases hphase : phase = .closed
    · rw [hphase]
      exact (List.nodup_cons.mp honce).2
    · rw [held_of_phase hphase]
      exact honce
  · refine Iff.trans ?_ (hnew phase).mem_iff.symm
    rcases hopen with ⟨hphase, rfl⟩ | ⟨rfl, rfl⟩
    · rw [held_of_phase hphase]
      exact (h.exact fd).trans hold.mem_iff
    · change Function.update server.isOpen socket.fd false fd = true ↔ fd ∈ others
      by_cases hfd : fd = socket.fd
      · subst hfd
        simpa using (List.nodup_cons.mp honce).1
      · rw [Function.update_of_ne hfd, h.exact, hold.mem_iff]
        simp [hfd]
  · obtain ⟨found, hfound, hfd, hphase⟩ := h.listed fd other (htable.subset hentry)
    by_cases hother : other = id
    · subst hother
      cases hplace.symm.trans hfound
      exact ⟨⟨socket.fd, phase⟩, List.getElem?_set_self hlt, hfd, hmine fd hentry⟩
    · exact ⟨found, by rw [List.getElem?_set_ne (Ne.symm hother)]; exact hfound, hfd, hphase⟩
  · by_cases hother : other = id
    · subst hother
      cases (List.getElem?_set_self hlt).symm.trans hfound
      exact absurd howned hleft
    · rw [List.getElem?_set_ne (Ne.symm hother)] at hfound
      exact hothers _ _ hother (h.kept hrunning other found hfound howned)
  · have hlength := htable.length_le
    have hbounded := h.bounded
    change table.length + server.pending.length ≤ server.maxConnections - 1 + server.peak
    omega

theorem accepted (h : server.Sound) {fd : Nat} (hclosed : ¬ server.isOpen fd = true) (hidle : server.checked = none)
    (hroom : server.table.length < server.maxConnections) :
    Sound { server with
      isOpen := Function.update server.isOpen fd true
      checked := some fd
      peak := max server.peak (server.creating.length + 1) } := by
  have hpending : server.pending = server.creating := by rw [pending, hidle, Option.toList_none, List.nil_append]
  have hheld : server.held = server.creating ++ server.connections.filterMap ServerSocket.held? := by
    rw [held, hpending]
  have hfresh : fd ∉ server.held := fun hmem => hclosed ((h.exact fd).mpr hmem)
  refine ⟨?_, fun other => ?_, h.keys, h.listed, h.kept, ?_, ?_⟩
  · change (fd :: (server.creating ++ server.connections.filterMap ServerSocket.held?)).Nodup
    rw [← hheld]
    exact List.nodup_cons.mpr ⟨hfresh, h.once⟩
  · change Function.update server.isOpen fd true other = true ↔
      other ∈ fd :: (server.creating ++ server.connections.filterMap ServerSocket.held?)
    rw [← hheld, List.mem_cons]
    by_cases hother : other = fd
    · subst hother
      simp
    · rw [Function.update_of_ne hother, h.exact]
      simp [hother]
  · exact le_max_right _ _
  · have hpeak := le_max_right server.peak (server.creating.length + 1)
    change server.table.length + (server.creating.length + 1) ≤ server.maxConnections - 1 + max server.peak _
    omega

/-- A socket goes from the accepting thread to the queue. -/
theorem enqueued (h : server.Sound) {fd : Nat} (hchecked : server.checked = some fd) :
    Sound { server with checked := none, creating := server.creating ++ [fd] } := by
  have hperm : server.pending.Perm (server.creating ++ [fd]) := by
    rw [pending, hchecked]
    exact List.perm_append_comm
  have hheld : server.held.Perm (server.creating ++ [fd] ++ server.connections.filterMap ServerSocket.held?) :=
    hperm.append_right _
  have hlength := hperm.length_eq
  exact ⟨hheld.nodup_iff.mp h.once, fun other => (h.exact other).trans hheld.mem_iff, h.keys, h.listed, h.kept,
    hlength ▸ h.queued, hlength ▸ h.bounded⟩

/-- A descriptor comes out of the queue. -/
theorem pending_perm {position fd : Nat} (hplace : server.creating[position]? = some fd) :
    server.pending.Perm (fd :: (server.checked.toList ++ server.creating.eraseIdx position)) := by
  obtain ⟨hlt, rfl⟩ := List.getElem?_eq_some_iff.mp hplace
  exact ((List.getElem_cons_eraseIdx_perm hlt).symm.append_left _).trans List.perm_middle

theorem checked_perm {fd : Nat} (hchecked : server.checked = some fd) :
    server.pending.Perm (fd :: ((none : Option Nat).toList ++ server.creating)) := by
  rw [pending, hchecked]
  exact .refl _

/-- What has no connection yet is not in the table, so that `emplace` adds an entry. -/
theorem emplace_pending (h : server.Sound) {fd : Nat} (hmem : fd ∈ server.pending) :
    fd ∉ server.table.map Prod.fst := by
  intro hkey
  obtain ⟨⟨found, id⟩, hentry, rfl⟩ := List.mem_map.mp hkey
  obtain ⟨socket, hsocket, hheld⟩ := h.listed_held hentry
  have hconnection := List.mem_filterMap.mpr ⟨socket, List.mem_of_getElem? hsocket, hheld⟩
  exact List.disjoint_of_nodup_append h.once hmem hconnection

theorem creating_length {position fd : Nat} (hplace : server.creating[position]? = some fd) :
    (server.creating.eraseIdx position).length + 1 = server.creating.length :=
  List.length_eraseIdx_add_one (List.getElem?_eq_some_iff.mp hplace).1

/-- A socket that has no connection yet is closed. -/
theorem dropped (h : server.Sound) {checked : Option Nat} {creating : List Nat} {fd : Nat}
    (hperm : server.pending.Perm (fd :: (checked.toList ++ creating))) :
    (close { server with checked := checked, creating := creating } fd).Sound := by
  have hheld := hperm.append_right (server.connections.filterMap ServerSocket.held?)
  have honce := List.nodup_cons.mp (hheld.nodup_iff.mp h.once)
  have hlength := hperm.length_eq
  have hqueued := h.queued
  have hbounded := h.bounded
  rw [List.length_cons] at hlength
  refine ⟨honce.2, fun other => ?_, h.keys, h.listed, h.kept, ?_, ?_⟩
  · change Function.update server.isOpen fd false other = true ↔
      other ∈ checked.toList ++ creating ++ server.connections.filterMap ServerSocket.held?
    by_cases hother : other = fd
    · subst hother
      simpa using honce.1
    · rw [Function.update_of_ne hother, h.exact, held, hheld.mem_iff]
      simp [hother]
  · change (checked.toList ++ creating).length ≤ server.peak
    omega
  · change server.table.length + (checked.toList ++ creating).length ≤ server.maxConnections - 1 + server.peak
    omega

theorem created (h : server.Sound) {position fd : Nat} (hplace : server.creating[position]? = some fd) :
    Sound { emplace { server with creating := server.creating.eraseIdx position } fd server.connections.length with
      connections := server.connections ++ [{ fd := fd }] } := by
  have hperm := pending_perm hplace
  have hlength := hperm.length_eq
  have hqueued := h.queued
  have hbounded := h.bounded
  have hkey := h.emplace_pending (hperm.mem_iff.mpr List.mem_cons_self)
  have hemplace : emplace { server with creating := server.creating.eraseIdx position } fd server.connections.length =
      { server with
        creating := server.creating.eraseIdx position
        table := server.table ++ [(fd, server.connections.length)] } := by
    unfold emplace
    rw [if_neg (by simpa using hkey)]
  rw [hemplace]
  have hheld : (server.checked.toList ++ server.creating.eraseIdx position ++
      (server.connections ++ [({ fd := fd } : ServerSocket)]).filterMap ServerSocket.held?).Perm server.held := by
    refine List.Perm.trans ?_ (hperm.append_right _).symm
    rw [List.filterMap_append, ← List.append_assoc]
    exact List.perm_append_comm
  rw [List.length_cons] at hlength
  refine ⟨hheld.nodup_iff.mpr h.once, fun other => (h.exact other).trans hheld.mem_iff.symm, ?_, ?_, ?_, ?_, ?_⟩
  · rw [List.map_append]
    refine List.nodup_append.mpr ⟨h.keys, List.nodup_singleton _, fun key hmem other hother heq => hkey ?_⟩
    rw [List.map_singleton, List.mem_singleton] at hother
    rwa [heq, hother] at hmem
  · intro other id hentry
    rcases List.mem_append.mp hentry with hold | hnew
    · obtain ⟨socket, hsocket, hrest⟩ := h.listed other id hold
      exact ⟨socket, by rw [List.getElem?_append_left (List.getElem?_eq_some_iff.mp hsocket).1]; exact hsocket, hrest⟩
    · cases List.mem_singleton.mp hnew
      exact ⟨{ fd := fd }, List.getElem?_concat_length, rfl, .inl rfl⟩
  · intro hrunning id socket hsocket howned
    rcases lt_or_ge id server.connections.length with hlt | hge
    · rw [List.getElem?_append_left hlt] at hsocket
      exact List.mem_append_left _ (h.kept hrunning id socket hsocket howned)
    · have hlast : id = server.connections.length := by
        have hlt := (List.getElem?_eq_some_iff.mp hsocket).1
        rw [List.length_append, List.length_singleton] at hlt
        omega
      subst hlast
      cases List.getElem?_concat_length.symm.trans hsocket
      exact List.mem_append_right _ (List.mem_singleton_self _)
  · change (server.checked.toList ++ server.creating.eraseIdx position).length ≤ server.peak
    omega
  · change (server.table ++ [(fd, server.connections.length)]).length +
      (server.checked.toList ++ server.creating.eraseIdx position).length ≤ server.maxConnections - 1 + server.peak
    rw [List.length_append, List.length_singleton]
    omega

/-- **What every step keeps.** -/
theorem step (h : server.Sound) {event : SocketEvent} (hstep : server.step event = some next) : next.Sound := by
  cases step_move hstep with
  | rejected hfull => exact h
  | accepted hclosed hidle hopen hroom => exact h.accepted hclosed hidle hroom
  | queued hchecked => exact h.enqueued hchecked
  | refused hchecked => exact h.dropped (checked_perm hchecked)
  | dropped hplace hstopping => exact h.dropped (pending_perm hplace)
  | created hplace hopen => exact h.created hplace
  | beginClose hplace hphase =>
      exact h.rephase hplace (by simp [hphase]) (List.Sublist.refl _) (fun _ _ => .inr rfl) (by simp)
        (fun _ _ _ hentry => hentry) (.inl ⟨by simp, rfl⟩)
  | @removeConnection id socket hplace hphase =>
      refine h.rephase hplace (by simp [hphase]) List.filter_sublist (fun fd hentry => ?_) (by simp)
        (fun fd other hother hentry => ?_) (.inl ⟨by simp, rfl⟩)
      · obtain ⟨hmem, hne⟩ := List.mem_filter.mp hentry
        obtain ⟨found, hfound, rfl, -⟩ := h.listed fd id hmem
        cases hplace.symm.trans hfound
        simp at hne
      · -- an entry of another connection has another descriptor, and stays
        refine List.mem_filter.mpr ⟨hentry, decide_eq_true fun hfd => hother ?_⟩
        obtain ⟨found, hfound, hheld⟩ := h.listed_held hentry
        exact h.held_unique hplace hfound (held_of_phase (by simp [hphase])) (hheld.trans (congrArg some hfd))
  | @closeDescriptor id socket hplace hphase =>
      refine h.rephase hplace (by simp [hphase]) (List.Sublist.refl _) (fun fd hentry => ?_) (by simp)
        (fun _ _ _ hentry => hentry) (.inr ⟨rfl, rfl⟩)
      obtain ⟨found, hfound, -, hlisted⟩ := h.listed fd id hentry
      cases hplace.symm.trans hfound
      simp [hphase] at hlisted
  | @destroy id socket hplace hphase hlost =>
      refine h.rephase hplace (by simp [hphase]) (List.Sublist.refl _) (fun fd hentry => ?_) (by simp)
        (fun _ _ _ hentry => hentry) (.inr ⟨rfl, rfl⟩)
      obtain ⟨found, hfound, rfl, -⟩ := h.listed fd id hentry
      cases hplace.symm.trans hfound
      exact absurd hentry hlost
  | stop => exact ⟨h.once, h.exact, h.keys, h.listed, fun habsurd => (by cases habsurd), h.queued, h.bounded⟩
  | clear hstopping =>
      refine ⟨h.once, h.exact, List.nodup_nil, fun fd id hentry => (by cases hentry),
        fun hrunning => absurd (hrunning.symm.trans hstopping) Bool.false_ne_true, h.queued, ?_⟩
      have hbounded := h.bounded
      change 0 + server.pending.length ≤ server.maxConnections - 1 + server.peak
      omega

end Sound

theorem Reached.sound {maxConnections : Nat} {server : SocketTable} (h : Reached maxConnections server) :
    server.Sound :=
  Steps.Reaches.keeps (fun hkept hstep => Sound.step hkept hstep) h (.start _)

section Results

variable {maxConnections : Nat} {server next : SocketTable}

/-- **One owner for each descriptor.** In every order of accepting, creating, closing and destroying connections and of
stopping the server, a descriptor is open exactly if it is on its way to an IO loop or has yet to be closed by a
connection, and never for two of these at once. What is on its way is not in the table, so that `emplace` always adds
the connection; and the entry that a closing connection takes out of the table is its own. Until the server stops the
table has every connection that has not begun to close, so that no other thread destroys one with its channel. -/
theorem descriptors_owned (h : Reached maxConnections server) :
    server.held.Nodup ∧ (∀ fd, server.isOpen fd = true ↔ fd ∈ server.held) ∧
      (∀ fd ∈ server.pending, fd ∉ server.table.map Prod.fst) ∧
      (∀ id socket, server.connections[id]? = some socket → socket.phase = .closing →
        ∀ other, (socket.fd, other) ∈ server.table → other = id) ∧
      (server.stopping = false → ∀ id socket, server.connections[id]? = some socket → socket.phase = .owned →
        (socket.fd, id) ∈ server.table ∧ server.step (.destroy id) = none) := by
  have hsound := h.sound
  refine ⟨hsound.once, hsound.exact, fun fd hfd => hsound.emplace_pending hfd,
    fun id socket hplace hphase other hentry => ?_, fun hrunning id socket hplace howned => ?_⟩
  · obtain ⟨found, hfound, hheld⟩ := hsound.listed_held hentry
    exact hsound.held_unique hplace hfound (Sound.held_of_phase (by simp [hphase])) hheld
  · have hlisted := hsound.kept hrunning id socket hplace howned
    exact ⟨hlisted, by simp [step, hplace, hlisted]⟩

/-- **Beyond `max_connections`.** The table may hold more connections than allowed, since a socket is counted only when
its loop has created the connection; but no more of them than had passed the check and had no connection at one time,
less one. -/
theorem connections_bounded (h : Reached maxConnections server) :
    server.table.length + server.pending.length ≤ maxConnections - 1 + server.peak := by
  have hstep : ∀ {server : SocketTable} {event : SocketEvent} {next : SocketTable},
      server.maxConnections = maxConnections → server.step event = some next → next.maxConnections = maxConnections := by
    intro server event next hkept hstep
    cases step_move hstep with
    | created hplace hopen =>
        unfold emplace
        dsimp only
        split <;> exact hkept
    | _ => exact hkept
  exact Steps.Reaches.keeps hstep h rfl ▸ h.sound.bounded

/-! ### Stopping -/

theorem setPhase_size {id : Nat} {socket : ServerSocket} (hplace : server.connections[id]? = some socket)
    (phase : SocketPhase) : (server.setPhase id socket.fd phase).size + socket.phase.rank = server.size + phase.rank := by
  have hsum := Slots.sum_set (fun socket : ServerSocket => socket.phase.rank) hplace ⟨socket.fd, phase⟩
  simp only [size, setPhase] at hsum ⊢
  omega

/-- When the server is stopping and its table has been cleared, no connection is added, and what is held comes nearer
to being closed. -/
theorem step_stopping {event : SocketEvent} (h : server.Sound ∧ server.stopping = true ∧ server.table = [])
    (hstep : server.step event = some next) : (next.Sound ∧ next.stopping = true ∧ next.table = []) ∧
      next.size + (if event.closes = true then 1 else 0) ≤ server.size + 0 := by
  obtain ⟨hsound, hstopping, htable⟩ := h
  refine ⟨⟨hsound.step hstep, ?_⟩, ?_⟩
  · cases step_move hstep with
    | accepted hclosed hidle hopen hroom => exact absurd (hopen.symm.trans hstopping) Bool.false_ne_true
    | created hplace hopen => exact absurd (hopen.symm.trans hstopping) Bool.false_ne_true
    | rejected hfull => exact ⟨hstopping, htable⟩
    | queued hchecked => exact ⟨hstopping, htable⟩
    | refused hchecked => exact ⟨hstopping, htable⟩
    | dropped hplace hstop => exact ⟨hstopping, htable⟩
    | beginClose hplace hphase => exact ⟨hstopping, htable⟩
    | removeConnection hplace hphase => exact ⟨hstopping, by simp [erase, setPhase, htable]⟩
    | closeDescriptor hplace hphase => exact ⟨hstopping, htable⟩
    | destroy hplace hphase hlost => exact ⟨hstopping, htable⟩
    | stop => exact ⟨rfl, htable⟩
    | clear hstop => exact ⟨hstopping, rfl⟩
  · cases step_move hstep with
    | accepted hclosed hidle hopen hroom => exact absurd (hopen.symm.trans hstopping) Bool.false_ne_true
    | created hplace hopen => exact absurd (hopen.symm.trans hstopping) Bool.false_ne_true
    | rejected hfull => exact le_refl server.size
    | stop => exact le_refl server.size
    | clear hstop => exact le_refl server.size
    | queued hchecked =>
        simp only [size, hchecked, SocketEvent.closes, if_true, Option.toList_some, Option.toList_none, List.length_nil,
          List.length_append, List.length_singleton]
        omega
    | refused hchecked =>
        simp only [size, close, hchecked, SocketEvent.closes, if_true, Option.toList_some, Option.toList_none,
          List.length_nil, List.length_singleton]
        omega
    | dropped hplace hstop =>
        have hlength := Sound.creating_length hplace
        simp only [size, close, SocketEvent.closes, if_true]
        omega
    | beginClose hplace hphase =>
        have hsize := setPhase_size hplace .closing
        simp only [hphase, SocketPhase.rank] at hsize
        simp only [SocketEvent.closes, Bool.false_eq_true, if_false]
        omega
    | @removeConnection id socket hplace hphase =>
        have hsize := setPhase_size hplace .unlisted
        simp only [hphase, SocketPhase.rank] at hsize
        change (server.setPhase id socket.fd .unlisted).size +
          (if SocketEvent.closes (.removeConnection id) = true then 1 else 0) ≤ _
        simp only [SocketEvent.closes, if_true]
        omega
    | @closeDescriptor id socket hplace hphase =>
        have hsize := setPhase_size hplace .closed
        simp only [hphase, SocketPhase.rank] at hsize
        change (server.setPhase id socket.fd .closed).size +
          (if SocketEvent.closes (.closeDescriptor id) = true then 1 else 0) ≤ _
        simp only [SocketEvent.closes, if_true]
        omega
    | @destroy id socket hplace hphase hlost =>
        have hsize := setPhase_size hplace .closed
        simp only [hphase, SocketPhase.rank] at hsize
        change (server.setPhase id socket.fd .closed).size + (if SocketEvent.closes (.destroy id) = true then 1 else 0) ≤ _
        simp only [SocketEvent.closes, if_true]
        omega

/-- Nothing is held when no descriptor can be closed any more. -/
theorem held_nil (htable : server.table = []) (hends : Steps.Ends step (fun event => event.closes = true) server) :
    server.held = [] := by
  have hchecked : server.checked = none := by
    cases haccepted : server.checked with
    | none => rfl
    | some fd =>
        have henqueue := hends .enqueue rfl
        simp [step, haccepted] at henqueue
  have hcreating : server.creating = [] := by
    cases hqueue : server.creating with
    | nil => rfl
    | cons fd rest =>
        have hcreate := hends (.create 0) rfl
        simp [step, hqueue] at hcreate
  have hclosed : ∀ socket ∈ server.connections, socket.held? = none := by
    intro socket hmem
    obtain ⟨id, hplace⟩ := List.mem_iff_getElem?.mp hmem
    cases hphase : socket.phase with
    | owned =>
        have hdestroy := hends (.destroy id) rfl
        simp [step, hplace, hphase, htable] at hdestroy
    | closing =>
        have hremove := hends (.removeConnection id) rfl
        simp [step, hplace, hphase] at hremove
    | unlisted =>
        have hclose := hends (.closeDescriptor id) rfl
        simp [step, hplace, hphase] at hclose
    | closed => simp [ServerSocket.held?, hphase]
  rw [held, pending, hchecked, hcreating, Option.toList_none, List.nil_append, List.nil_append]
  exact List.filterMap_eq_nil_iff.mpr hclosed

/-- **A stopped server leaves nothing open.** Once it is stopping and has cleared its table, it closes descriptors in a
bounded number of steps, whatever is accepted in between; and when nothing is left to close, no descriptor is open. -/
theorem stop_closes_all (h : Reached maxConnections server) (hstopping : server.stopping = true)
    (htable : server.table = []) {events : List SocketEvent} {later : SocketTable}
    (hrun : Steps.run step server events = some later) :
    events.countP SocketEvent.closes ≤ server.size ∧
      (Steps.Ends step (fun event => event.closes = true) later → ∀ fd, later.isOpen fd = false) := by
  obtain ⟨⟨hsound, -, hcleared⟩, hbound⟩ := @Steps.run_bounded _ _ step _ SocketEvent.closes (fun _ => 0) size
    (fun hkept hstep => step_stopping hkept hstep) _ _ _ hrun ⟨h.sound, hstopping, htable⟩
  rw [List.map_const', List.sum_replicate, smul_zero] at hbound
  refine ⟨by omega, fun hends fd => Bool.eq_false_of_not_eq_true fun hopen => ?_⟩
  rw [hsound.exact, held_nil hcleared hends] at hopen
  exact List.not_mem_nil hopen

/-! ### A burst of clients -/

/-- Two clients come before the loops have created a connection: the second one is checked before and queued after the
first one has its connection. The first one leaves while its descriptor is about to be used again. -/
def burst : List SocketEvent :=
  [.accept 5, .enqueue, .accept 6, .create 0, .enqueue, .create 0, .beginClose 0, .removeConnection 0]

/-- The server stops then, and a third client is turned away. -/
def shutdown : List SocketEvent := [.accept 7, .closeDescriptor 0, .destroy 1]

theorem reached_burst : ∃ server, Steps.run step { maxConnections := 1 } burst = some server ∧ Reached 1 server := by
  obtain ⟨server, hrun⟩ := Option.isSome_iff_exists.mp
    (by decide : (Steps.run step { maxConnections := 1 } burst).isSome = true)
  exact ⟨server, hrun, burst, hrun⟩

theorem descriptors_owned_burst :
    ∃ server, Steps.run step { maxConnections := 1 } burst = some server ∧ server.held.Nodup ∧
      (∀ fd, server.isOpen fd = true ↔ fd ∈ server.held) := by
  obtain ⟨server, hrun, hreach⟩ := reached_burst
  obtain ⟨honce, hexact, -, -⟩ := descriptors_owned hreach
  exact ⟨server, hrun, honce, hexact⟩

/-- Two connections where one is allowed: two sockets had passed the check and had no connection. -/
theorem connections_bounded_burst :
    ∃ server, Steps.run step { maxConnections := 1 } (burst.take 6) = some server ∧ server.table.length = 2 ∧
      server.table.length + server.pending.length ≤ 1 - 1 + server.peak := by
  obtain ⟨server, hrun⟩ := Option.isSome_iff_exists.mp
    (by decide : (Steps.run step { maxConnections := 1 } (burst.take 6)).isSome = true)
  have htable : (Steps.run step { maxConnections := 1 } (burst.take 6)).map (fun server => server.table.length) =
      some 2 := by decide
  rw [hrun, Option.map_some] at htable
  exact ⟨server, hrun, Option.some.inj htable, connections_bounded ⟨_, hrun⟩⟩

theorem stop_closes_all_burst :
    ∃ server later, Steps.run step { maxConnections := 1 } (burst ++ [.stop, .clear]) = some server ∧
      Steps.run step server shutdown = some later ∧ shutdown.countP SocketEvent.closes ≤ server.size ∧
      later.held = [] := by
  obtain ⟨server, hrun⟩ := Option.isSome_iff_exists.mp
    (by decide : (Steps.run step { maxConnections := 1 } (burst ++ [.stop, .clear])).isSome = true)
  have hstate : (Steps.run step { maxConnections := 1 } (burst ++ [.stop, .clear])).bind (fun server =>
      (Steps.run step server shutdown).map fun later => (server.stopping, server.table, later.held)) =
        some (true, [], []) := by decide
  rw [hrun, Option.bind_some] at hstate
  obtain ⟨later, hlater, hpair⟩ := Option.map_eq_some_iff.mp hstate
  obtain ⟨hstopping, htable, hheld⟩ : server.stopping = true ∧ server.table = [] ∧ later.held = [] := by
    simpa using hpair
  exact ⟨server, later, hrun, hlater, (stop_closes_all ⟨_, hrun⟩ hstopping htable hlater).1, hheld⟩

end Results

end SocketTable

end LogMq
