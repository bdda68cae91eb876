import OperatingSys.Foundations.Machine

/-!
The TCP server of `os_02/lab_08/src/net/server.c`.

The main loop builds a descriptor set from the table of clients, passes it to
`select`, takes a new connection if the master descriptor is ready, and then goes
through the table. A state is between two of the calls the loop makes; a mover is
an answer of the kernel, so that connections, data, errors and disconnections come
in any order. `select` reports a subset of the descriptors it was given, and
`accept` returns a positive descriptor that is not open.

* `buildSet`: the loop that fills `readfds` and finds `max_sd`.
* `handleConnection`, `handleClient`: the two functions of the source.
* `program`: the loop, `ServerStep` the list of its steps.
-/

namespace OperatingSys

namespace TcpServer

/-- `MAX_CLIENTS_COUNT`. -/
def MAX_CLIENTS_COUNT : ℕ := 10

/-- `BUF_SIZE`, the size of `msg`. -/
def BUF_SIZE : ℕ := 256

/-- The table `clients`, `0` marking an empty slot. -/
abbrev Table := Fin MAX_CLIENTS_COUNT → ℤ

/-- The places of the main loop. -/
inductive Pc where
  /-- At the top of the loop. -/
  | building
  /-- At `select`, with `max_sd`. -/
  | selecting (maxSd : ℤ)
  /-- At the test of the master descriptor. -/
  | connecting
  /-- At the slot `i` of the second `for`. -/
  | scanning (i : ℕ)
  | exited
  deriving DecidableEq, Repr

/-- The answer of the kernel to the call a step makes; `goes` stands for steps
that make none. -/
inductive Answer where
  | goes | selected (ready : Finset ℤ) | accepted (sd : ℤ) | received (bytes : ℤ) | fails

/-- What a step shows to the outside. -/
inductive Event where
  | builds
  /-- `select` was given the set `passed` and reports `ready`. -/
  | selects (passed ready : Finset ℤ)
  | accepts (sd : ℤ)
  /-- `handle_client` was called for the descriptor `sd`, and `recv` has returned
  `bytes`. -/
  | handles (sd : ℤ) (bytes : ℤ)
  | skips | exits
  deriving DecidableEq

/-- The state of the server: the table, the descriptors the process has open,
`readfds` and the place. -/
structure Server where
  clients : Table
  opened : Finset ℤ
  readfds : Finset ℤ
  pc : Pc

/-- The first `for`: the set of the master and the clients, and the greatest of
them. -/
def buildSet (masterSd : ℤ) (clients : Table) : Finset ℤ × ℤ :=
  (List.finRange MAX_CLIENTS_COUNT).foldl
    (fun (fds, maxSd) i =>
      (if 0 < clients i then insert (clients i) fds else fds,
        if maxSd < clients i then clients i else maxSd))
    ({masterSd}, masterSd)

/-- `perror_exit`, and the exit of a full `handle_connection`: the master is
closed. -/
def exits (masterSd : ℤ) (s : Server) : Event × Server :=
  (.exits, { s with opened := s.opened.erase masterSd, pc := .exited })

/-- The first empty slot. -/
def emptySlot (clients : Table) : Option (Fin MAX_CLIENTS_COUNT) :=
  (List.finRange MAX_CLIENTS_COUNT).find? fun i => clients i = 0

/-- `handle_connection` when `accept` has returned `sd`. -/
def handleConnection (masterSd : ℤ) (s : Server) (sd : ℤ) : Event × Server :=
  match emptySlot s.clients with
  | some i => (.accepts sd, { s with
      clients := Function.update s.clients i sd
      opened := insert sd s.opened
      pc := .scanning 0 })
  | none => exits masterSd { s with opened := insert sd s.opened }

/-- `handle_client(i)` when `recv` has returned `bytes`: a disconnected client is
closed and its slot emptied. -/
def handleClient (s : Server) (i : Fin MAX_CLIENTS_COUNT) (bytes : ℤ) : Event × Server :=
  (.handles (s.clients i) bytes,
    if bytes = 0 then
      { s with
        clients := Function.update s.clients i 0
        opened := s.opened.erase (s.clients i)
        pc := .scanning (i + 1) }
    else { s with pc := .scanning (i + 1) })

/-- The call of `select` with `nfds = max_sd + 1`, which looks at the descriptors
below. -/
def select (masterSd maxSd : ℤ) (s : Server) : Answer → Option (Event × Server)
  | .selected ready =>
      if ready ⊆ s.readfds.filter (· < maxSd + 1) then
        some (.selects s.readfds ready, { s with readfds := ready, pc := .connecting })
      else none
  | .fails => some (exits masterSd s)
  | .goes | .accepted _ | .received _ => none

/-- The test of the master descriptor, and `handle_connection` if it is ready. -/
def connect (masterSd : ℤ) (s : Server) (a : Answer) : Option (Event × Server) :=
  if masterSd ∈ s.readfds then
    match a with
    | .accepted sd =>
        if 0 < sd ∧ sd ∉ s.opened then some (handleConnection masterSd s sd) else none
    | .fails => some (exits masterSd s)
    | .goes | .selected _ | .received _ => none
  else
    match a with
    | .goes => some (.skips, { s with pc := .scanning 0 })
    | .selected _ | .accepted _ | .received _ | .fails => none

/-- One turn of the second `for`, with `handle_client` if the client is ready. -/
def scan (s : Server) (i : Fin MAX_CLIENTS_COUNT) (a : Answer) : Option (Event × Server) :=
  if s.clients i ≠ 0 ∧ s.clients i ∈ s.readfds then
    match a with
    | .received bytes =>
        if -1 ≤ bytes ∧ bytes ≤ BUF_SIZE then some (handleClient s i bytes) else none
    | .goes | .selected _ | .accepted _ | .fails => none
  else
    match a with
    | .goes => some (.skips, { s with pc := .scanning (i + 1) })
    | .selected _ | .accepted _ | .received _ | .fails => none

/-- One step of the main loop. -/
def serve (masterSd : ℤ) (s : Server) (a : Answer) : Option (Event × Server) :=
  match s.pc with
  | .building =>
      match a with
      | .goes => some (.builds, { s with
          readfds := (buildSet masterSd s.clients).1
          pc := .selecting (buildSet masterSd s.clients).2 })
      | .selected _ | .accepted _ | .received _ | .fails => none
  | .selecting maxSd => select masterSd maxSd s a
  | .connecting => connect masterSd s a
  | .scanning i =>
      if hi : i < MAX_CLIENTS_COUNT then scan s ⟨i, hi⟩ a
      else
        match a with
        | .goes => some (.skips, { s with pc := .building })
        | .selected _ | .accepted _ | .received _ | .fails => none
  | .exited => none

/-- The main loop, moved by the answers of the kernel. -/
def program (masterSd : ℤ) : Machine Server Answer Event where
  step := serve masterSd

/-- The server before its first round: `clients` is a static table, and the
process has `others` open beside the master. -/
def initial (masterSd : ℤ) (others : Finset ℤ) : Server where
  clients := fun _ => 0
  opened := insert masterSd others
  readfds := ∅
  pc := .building

/-! ### What a step can be -/

/-- What a step of the main loop can be. -/
inductive ServerStep (masterSd : ℤ) (s : Server) : Event → Server → Prop
  | builds (h : s.pc = .building) : ServerStep masterSd s .builds { s with
      readfds := (buildSet masterSd s.clients).1
      pc := .selecting (buildSet masterSd s.clients).2 }
  | selects {maxSd : ℤ} (h : s.pc = .selecting maxSd) (ready : Finset ℤ)
      (hr : ready ⊆ s.readfds) : ServerStep masterSd s (.selects s.readfds ready)
        { s with readfds := ready, pc := .connecting }
  | accepts (h : s.pc = .connecting) (sd : ℤ) (hpos : 0 < sd) (hnew : sd ∉ s.opened)
      (i : Fin MAX_CLIENTS_COUNT) (hi : s.clients i = 0) : ServerStep masterSd s (.accepts sd)
        { s with
          clients := Function.update s.clients i sd
          opened := insert sd s.opened
          pc := .scanning 0 }
  | starts (h : s.pc = .connecting) : ServerStep masterSd s .skips { s with pc := .scanning 0 }
  | closes (i : Fin MAX_CLIENTS_COUNT) (h : s.pc = .scanning i) (h0 : s.clients i ≠ 0)
      (hr : s.clients i ∈ s.readfds) : ServerStep masterSd s (.handles (s.clients i) 0)
        { s with
          clients := Function.update s.clients i 0
          opened := s.opened.erase (s.clients i)
          pc := .scanning (i + 1) }
  | receives (i : Fin MAX_CLIENTS_COUNT) (h : s.pc = .scanning i) (bytes : ℤ) (hb : bytes ≠ 0)
      (h0 : s.clients i ≠ 0) (hr : s.clients i ∈ s.readfds) :
      ServerStep masterSd s (.handles (s.clients i) bytes) { s with pc := .scanning (i + 1) }
  | skips (i : Fin MAX_CLIENTS_COUNT) (h : s.pc = .scanning i) :
      ServerStep masterSd s .skips { s with pc := .scanning (i + 1) }
  | ends {k : ℕ} (h : s.pc = .scanning k) :
      ServerStep masterSd s .skips { s with pc := .building }
  | exits (t : Server) (h : t.pc = .exited) : ServerStep masterSd s .exits t

variable {masterSd : ℤ} {s s' : Server} {a : Answer} {e : Event}

lemma serverStep_of_select {maxSd : ℤ} (hpc : s.pc = .selecting maxSd)
    (h : select masterSd maxSd s a = some (e, s')) : ServerStep masterSd s e s' := by
  cases a with
  | selected ready =>
      rw [select] at h
      split_ifs at h with hr
      cases h
      exact .selects hpc ready (hr.trans (Finset.filter_subset _ _))
  | fails => cases h; exact .exits _ rfl
  | goes | accepted | received => cases h

lemma serverStep_of_handleConnection (hpc : s.pc = .connecting) {sd : ℤ} (hpos : 0 < sd)
    (hnew : sd ∉ s.opened) :
    ServerStep masterSd s (handleConnection masterSd s sd).1
      (handleConnection masterSd s sd).2 := by
  rw [handleConnection]
  cases hslot : emptySlot s.clients with
  | some i => exact .accepts hpc sd hpos hnew i (by simpa using List.find?_some hslot)
  | none => exact .exits _ rfl

lemma serverStep_of_connect (hpc : s.pc = .connecting)
    (h : connect masterSd s a = some (e, s')) : ServerStep masterSd s e s' := by
  unfold connect at h
  split_ifs at h with hm
  · cases a with
    | accepted sd =>
        dsimp only at h
        split_ifs at h with hsd
        have hstep : ServerStep masterSd s (handleConnection masterSd s sd).1
            (handleConnection masterSd s sd).2 :=
          serverStep_of_handleConnection hpc hsd.1 hsd.2
        rw [Option.some.inj h] at hstep
        exact hstep
    | fails => cases h; exact .exits _ rfl
    | goes | selected | received => cases h
  · cases a with
    | goes => cases h; exact .starts hpc
    | selected | accepted | received | fails => cases h

lemma serverStep_of_scan {i : Fin MAX_CLIENTS_COUNT} (hpc : s.pc = .scanning i)
    (h : scan s i a = some (e, s')) : ServerStep masterSd s e s' := by
  unfold scan at h
  split_ifs at h with hready
  · cases a with
    | received bytes =>
        dsimp only at h
        split_ifs at h
        rw [handleClient] at h
        split_ifs at h with hb
        · cases h
          rw [hb]
          exact .closes i hpc hready.1 hready.2
        · cases h
          exact .receives i hpc bytes hb hready.1 hready.2
    | goes | selected | accepted | fails => cases h
  · cases a with
    | goes => cases h; exact .skips i hpc
    | selected | accepted | received | fails => cases h

/-- The loop's code takes no other step. -/
lemma serverStep_of_serve (h : serve masterSd s a = some (e, s')) :
    ServerStep masterSd s e s' := by
  unfold serve at h
  cases hpc : s.pc with
  | building =>
      rw [hpc] at h
      cases a with
      | goes => cases h; exact .builds hpc
      | selected | accepted | received | fails => cases h
  | selecting maxSd =>
      rw [hpc] at h
      exact serverStep_of_select hpc h
  | connecting =>
      rw [hpc] at h
      exact serverStep_of_connect hpc h
  | scanning i =>
      rw [hpc] at h
      dsimp only at h
      split_ifs at h with hi
      · exact serverStep_of_scan (i := ⟨i, hi⟩) hpc h
      · cases a with
        | goes => cases h; exact .ends hpc
        | selected | accepted | received | fails => cases h
  | exited =>
      rw [hpc] at h
      cases h

/-- The server does nothing after its exit. -/
lemma pc_ne_exited (h : serve masterSd s a = some (e, s')) : s.pc ≠ .exited := by
  intro hpc
  unfold serve at h
  rw [hpc] at h
  cases h

end TcpServer

end OperatingSys
