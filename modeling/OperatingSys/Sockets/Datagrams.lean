import OperatingSys.Foundations.Since
import OperatingSys.Sockets.Client

/-!
The servers and the clients of `os_02/lab_08/src/unix`.

A server binds its socket to `SOCKET_NAME`, and prints what it receives. A client sends one
datagram to the socket that is behind the name when it sends. `cleanup` closes the socket and
removes the name, whoever has bound it: a server that is started while another one goes on
cannot bind its socket, and on its way out removes the name of the other.

* `network`: servers that are started, interrupted and fail, and clients, in any order.
* `shown_of_run`: a server prints what has been sent to it, in order, and loses nothing before
  its end.
* `reached_iff`: it is reached just as long as no server has cleaned up behind its `bind`.
-/

namespace OperatingSys

namespace Sockets

namespace Datagrams

open TcpServer (BUF_SIZE)

/-! ### The network -/

/-- Where a server is. `closing` and `unlinking` are the calls of `cleanup`, and `leaving` is
behind it. -/
inductive Pc where
  | socket | bind | signal | recv
  | shows (text : Option (List UInt8))
  | closing | unlinking | leaving | exited
  deriving DecidableEq

/-- What `SIGINT` does to a server: it ends it, runs `sighandler`, or waits for it to return. -/
inductive Sigint where
  | default | handler | masked
  deriving DecidableEq, Repr

/-- A server, and the datagrams its socket holds. -/
structure Daemon where
  pc : Pc
  sigint : Sigint
  isOpen : Bool
  queue : List (List UInt8)

/-- What is behind `SOCKET_NAME`: nothing, a socket of an earlier run, or that of a server. -/
inductive Name (ι : Type*) where
  | free | stale | of (i : ι)
  deriving DecidableEq

variable {ι κ : Type*}

/-- What happens in the network. -/
inductive Event (ι κ : Type*) where
  | binds (i : ι) | unlinks (i : ι)
  | sends (k : κ) (i : ι) (text : List UInt8) | fails (k : κ)
  | shows (i : ι) (text : Option (List UInt8)) | works
  deriving DecidableEq

/-- Who moves: a client or a server with what its `msg` holds, and whether the kernel grants
the call; or a server is interrupted. -/
inductive Mover (ι κ : Type*) where
  | client (k : κ) (msg : Msg) (ok : Bool)
  | server (i : ι) (msg : Msg) (ok : Bool)
  | interrupt (i : ι)

/-- The servers, the name, and the clients that have come to their end. -/
structure Net (ι κ : Type*) where
  servers : ι → Daemon
  name : Name ι
  ended : κ → Bool

/-- What `recv` brings of a datagram. -/
def received (data : List UInt8) : Received := .bytes (data.take BUF_SIZE) (List.length_take_le _ _)

section Program

variable [DecidableEq ι] [DecidableEq κ]

/-- A server goes on. -/
def Net.set (s : Net ι κ) (i : ι) (v : Daemon) : Net ι κ :=
  { s with servers := Function.update s.servers i v }

/-- The socket behind the name, if it is still open. -/
def Net.bound (s : Net ι κ) : Option ι :=
  match s.name with
  | .of i => if (s.servers i).isOpen then some i else none
  | .free | .stale => none

/-- `client.c`. -/
def client (pid : κ → ℕ) (s : Net ι κ) (k : κ) (msg : Msg) (ok : Bool) :
    Option (Event ι κ × Net ι κ) :=
  if s.ended k then none
  else
    let s' : Net ι κ := { s with ended := Function.update s.ended k true }
    match ok, s.bound with
    | true, some i => (clientMessage msg (pid k)).map fun text =>
        (.sends k i text,
          s'.set i { s.servers i with queue := (s.servers i).queue ++ [text] })
    | _, _ => some (.fails k, s')

/-- `server.c`. -/
def server (s : Net ι κ) (i : ι) (msg : Msg) (ok : Bool) : Option (Event ι κ × Net ι κ) :=
  let v := s.servers i
  match v.pc with
  | .socket =>
      some (.works, s.set i (if ok then { v with pc := .bind, isOpen := true }
        else { v with pc := .exited }))
  | .bind =>
      if ok ∧ s.name = .free then
        some (.binds i, { s.set i { v with pc := .signal } with name := .of i })
      else some (.works, s.set i { v with pc := .closing })
  | .signal =>
      some (.works, s.set i (if ok then { v with pc := .recv, sigint := .handler }
        else { v with pc := .closing }))
  | .recv =>
      if ok then
        match v.queue with
        | [] => none
        | data :: rest => some (.works, s.set i { v with
            pc := .shows (endAndShow msg (received data))
            queue := rest })
      else some (.works, s.set i { v with pc := .closing })
  | .shows text => some (.shows i text, s.set i { v with pc := .recv })
  | .closing => some (.works, s.set i { v with pc := .unlinking, isOpen := false, queue := [] })
  | .unlinking => some (.unlinks i, { s.set i { v with pc := .leaving } with name := .free })
  | .leaving => some (.works, s.set i { v with pc := .exited })
  | .exited => none

/-- `SIGINT`. -/
def interrupt (s : Net ι κ) (i : ι) : Option (Event ι κ × Net ι κ) :=
  let v := s.servers i
  match v.pc, v.sigint with
  | .exited, _ | _, .masked => none
  | _, .default => some (.works, s.set i { v with pc := .exited, isOpen := false, queue := [] })
  | _, .handler => some (.works, s.set i { v with pc := .closing, sigint := .masked })

/-- The servers and the clients. -/
def network (pid : κ → ℕ) : Machine (Net ι κ) (Mover ι κ) (Event ι κ) where
  step s
    | .client k msg ok => client pid s k msg ok
    | .server i msg ok => server s i msg ok
    | .interrupt i => interrupt s i

/-- No server has been started. The name may be there from an earlier run. -/
def started (stale : Bool) : Net ι κ where
  servers := fun _ => ⟨.socket, .default, false, []⟩
  name := if stale then .stale else .free
  ended := fun _ => false

/-! ### What is sent and what is shown -/

/-- The text that is sent to the server `i` in a step. -/
def Event.sentTo (i : ι) : Event ι κ → Option (List UInt8)
  | .sends _ j text => if j = i then some text else none
  | .binds _ | .unlinks _ | .fails _ | .shows _ _ | .works => none

/-- The text that the server `i` prints in a step. -/
def Event.shownBy (i : ι) : Event ι κ → Option (Option (List UInt8))
  | .shows j text => if j = i then some text else none
  | .binds _ | .unlinks _ | .fails _ | .sends _ _ _ | .works => none

/-- The client that sends in a step. -/
def Event.sender : Event ι κ → Option κ
  | .sends k _ _ => some k
  | .binds _ | .unlinks _ | .fails _ | .shows _ _ | .works => none

/-- What has been sent to the server `i`. -/
def sent (i : ι) (tr : List (Mover ι κ × Event ι κ)) : List (List UInt8) :=
  tr.filterMap fun q => q.2.sentTo i

/-- What the server `i` has printed. -/
def shown (i : ι) (tr : List (Mover ι κ × Event ι κ)) : List (Option (List UInt8)) :=
  tr.filterMap fun q => q.2.shownBy i

/-- The clients that have sent. -/
def senders (tr : List (Mover ι κ × Event ι κ)) : List κ := tr.filterMap fun q => q.2.sender

/-- The text that a server has received and not printed. -/
def Pc.held : Pc → List (Option (List UInt8))
  | .shows text => [text]
  | .socket | .bind | .signal | .recv | .closing | .unlinking | .leaving | .exited => []

/-- The server is on its way to its loop or in it. -/
def Pc.serving : Pc → Bool
  | .socket | .bind | .signal | .recv | .shows _ => true
  | .closing | .unlinking | .leaving | .exited => false

/-- The server is in its loop, or has only `signal` in front of it. -/
def Pc.listening : Pc → Bool
  | .signal | .recv | .shows _ => true
  | .socket | .bind | .closing | .unlinking | .leaving | .exited => false

/-- What is behind the name after a step. -/
def Name.after (name : Name ι) : Event ι κ → Name ι
  | .binds i => .of i
  | .unlinks _ => .free
  | .sends _ _ _ | .fails _ | .shows _ _ | .works => name

end Program

/-! ### A step of a server -/

variable {pid : κ → ℕ} {s s' : Net ι κ} {m : Mover ι κ} {e : Event ι κ} {i : ι} {v v' : Daemon}
  {tr : List (Mover ι κ × Event ι κ)}

/-- What a step of a server can be, with an interrupt. -/
inductive Turn (i : ι) (v : Daemon) : Event ι κ → Daemon → Prop
  | opens (hpc : v.pc = .socket) : Turn i v .works { v with pc := .bind, isOpen := true }
  | binds (hpc : v.pc = .bind) : Turn i v (.binds i) { v with pc := .signal }
  | enters (hpc : v.pc = .signal) : Turn i v .works { v with pc := .recv, sigint := .handler }
  | takes (msg : Msg) (data : List UInt8) (rest : List (List UInt8)) (hpc : v.pc = .recv)
      (hq : v.queue = data :: rest) :
      Turn i v .works { v with pc := .shows (endAndShow msg (received data)), queue := rest }
  | shows (text : Option (List UInt8)) (hpc : v.pc = .shows text) :
      Turn i v (.shows i text) { v with pc := .recv }
  | cleans (sigint : Sigint) : Turn i v .works { v with pc := .closing, sigint := sigint }
  | closes (hpc : v.pc = .closing) :
      Turn i v .works { v with pc := .unlinking, isOpen := false, queue := [] }
  | unlinks (hpc : v.pc = .unlinking) : Turn i v (.unlinks i) { v with pc := .leaving }
  | leaves (hpc : v.pc = .leaving) : Turn i v .works { v with pc := .exited }
  | fails (hpc : v.pc = .socket) : Turn i v .works { v with pc := .exited }
  | killed (sigint : Sigint) : Turn i v .works ⟨.exited, sigint, false, []⟩

lemma Turn.sender {j : ι} (h : Turn j v e v') : e.sender = none := by
  cases h <;> rfl

lemma endAndShow_pidText (msg : Msg) (n : ℕ) :
    endAndShow msg (received (pidText n)) = some (pidText n) := by
  have hlen : (pidText n).length < BUF_SIZE := by
    rw [pidText, List.length_take]
    exact (min_le_left _ _).trans_lt (by decide)
  have hdata : (received (pidText n)).data = pidText n := List.take_of_length_le hlen.le
  have hroom : (received (pidText n)).LeavesRoom := by
    refine ⟨Int.natCast_nonneg _, ?_⟩
    change (((pidText n).take BUF_SIZE).length : ℤ) < (BUF_SIZE : ℕ)
    rw [List.take_of_length_le hlen.le]
    exact_mod_cast hlen
  rw [endAndShow_eq msg hroom, Received.text, hdata]
  congr 1
  rw [List.takeWhile_eq_self_iff]
  intro x hx
  exact decide_eq_true fun h0 => zero_notMem_pidText n (h0 ▸ hx)

/-- **What a server has printed** of what has been sent to it. -/
structure Delivered (sent : List (List UInt8)) (shown : List (Option (List UInt8))) (v : Daemon) :
    Prop where
  texts : ∀ d ∈ v.queue, ∃ n, d = pidText n
  front : shown <+: sent.map some
  serving : v.pc.serving = true → sent.map some = shown ++ v.pc.held ++ v.queue.map some

variable {texts : List (List UInt8)} {out : List (Option (List UInt8))}

/-- A step that neither takes a datagram nor prints. -/
lemma Delivered.of_eq (h : Delivered texts out v) (hq : ∀ d ∈ v'.queue, d ∈ v.queue)
    (hkeep : v'.pc.serving = true →
      v.pc.serving = true ∧ v'.pc.held = v.pc.held ∧ v'.queue = v.queue) :
    Delivered texts out v' := by
  refine ⟨fun d hd => h.texts d (hq d hd), h.front, fun hs => ?_⟩
  obtain ⟨hv, hheld, hqueue⟩ := hkeep hs
  rw [hheld, hqueue]
  exact h.serving hv

/-- A datagram comes. -/
lemma Delivered.arrive (h : Delivered texts out v) (n : ℕ) :
    Delivered (texts ++ [pidText n]) out { v with queue := v.queue ++ [pidText n] } := by
  refine ⟨fun d hd => ?_, ?_, fun hs => ?_⟩
  · rcases List.mem_append.mp hd with hd | hd
    · exact h.texts d hd
    · exact ⟨n, List.mem_singleton.mp hd⟩
  · rw [List.map_append]
    exact h.front.trans (List.prefix_append _ _)
  · rw [List.map_append, h.serving hs, List.map_append, List.append_assoc]

lemma senders_snoc (tr : List (Mover ι κ × Event ι κ)) (m : Mover ι κ) (e : Event ι κ) :
    senders (tr ++ [(m, e)]) = senders tr ++ e.sender.toList :=
  filterMap_snoc _ tr (m, e)

/-! ### The name -/

/-- The server `i` has bound its socket. -/
def Binds (i : ι) (q : Mover ι κ × Event ι κ) : Prop := q.2 = .binds i

/-- Some server has cleaned up. -/
def CleansUp (q : Mover ι κ × Event ι κ) : Prop := ∃ j, q.2 = .unlinks j

/-- What holds of the name in every run. -/
structure Named (tr : List (Mover ι κ × Event ι κ)) (s : Net ι κ) : Prop where
  name : ∀ i, s.name = .of i ↔ Since (Binds i) CleansUp tr
  isOpen : ∀ i, (s.servers i).pc.listening = true ∨ (s.servers i).pc = .bind →
    (s.servers i).isOpen = true

lemma named_started (stale : Bool) : Named ([] : List (Mover ι κ × Event ι κ)) (started stale) := by
  refine ⟨fun i => iff_of_false ?_ not_since_nil, fun i hi => ?_⟩
  · cases stale <;> exact nofun
  · rcases hi with hi | hi <;> cases hi

/-- The name after a step goes by the past. -/
lemma Named.after (h : Named tr s) (hfree : ∀ j, e = .binds j → s.name = .free) (i : ι) :
    s.name.after e = .of i ↔ Since (Binds i) CleansUp (tr ++ [(m, e)]) := by
  rw [since_append_singleton, ← h.name i]
  cases e with
  | binds j =>
      have hname := hfree j rfl
      simp [Name.after, Binds, CleansUp, hname]
  | unlinks j => simp [Name.after, Binds, CleansUp]
  | sends | fails | shows | works => simp [Name.after, Binds, CleansUp]

/-- A server on its way has an open socket. -/
lemma Turn.isOpen (h : Turn i v e v')
    (hv : v.pc.listening = true ∨ v.pc = .bind → v.isOpen = true)
    (hv' : v'.pc.listening = true ∨ v'.pc = .bind) : v'.isOpen = true := by
  cases h with
  | opens => rfl
  | binds hpc => exact hv (Or.inr hpc)
  | enters hpc | takes _ _ _ hpc | shows _ hpc => exact hv (Or.inl (by rw [hpc]; rfl))
  | cleans | closes | unlinks | leaves | fails | killed => rcases hv' with hv' | hv' <;> cases hv'

/-! ### What a server sends and prints -/

section Servers

variable [DecidableEq ι]

lemma sent_snoc (i : ι) (tr : List (Mover ι κ × Event ι κ)) (m : Mover ι κ) (e : Event ι κ) :
    sent i (tr ++ [(m, e)]) = sent i tr ++ (e.sentTo i).toList :=
  filterMap_snoc _ tr (m, e)

lemma shown_snoc (i : ι) (tr : List (Mover ι κ × Event ι κ)) (m : Mover ι κ) (e : Event ι κ) :
    shown i (tr ++ [(m, e)]) = shown i tr ++ (e.shownBy i).toList :=
  filterMap_snoc _ tr (m, e)

/-- A turn of another server. -/
lemma Turn.of_ne {j : ι} (h : Turn j v e v') (hne : j ≠ i) :
    e.sentTo i = none ∧ e.shownBy i = none := by
  cases h with
  | shows text hpc => exact ⟨rfl, if_neg hne⟩
  | opens | binds | enters | takes | cleans | closes | unlinks | leaves | fails | killed =>
      exact ⟨rfl, rfl⟩

lemma Delivered.turn (h : Delivered texts out v) (ht : Turn i v e v') :
    Delivered (texts ++ (e.sentTo i).toList) (out ++ (e.shownBy i).toList) v' := by
  cases ht with
  | shows text hpc =>
      have hall := h.serving (by rw [hpc]; rfl)
      rw [hpc, Pc.held] at hall
      simp only [Event.sentTo, Event.shownBy, if_pos, Option.toList_none, List.append_nil,
        Option.toList_some]
      refine ⟨h.texts, ⟨v.queue.map some, hall.symm⟩, fun _ => ?_⟩
      rw [hall, Pc.held, List.append_nil]
  | opens hpc | binds hpc | enters hpc =>
      simp only [Event.sentTo, Event.shownBy, Option.toList_none, List.append_nil]
      refine h.of_eq (fun d hd => hd) fun _ => ?_
      rw [hpc]
      exact ⟨rfl, rfl, rfl⟩
  | takes msg data rest hpc hq =>
      simp only [Event.sentTo, Event.shownBy, Option.toList_none, List.append_nil]
      obtain ⟨n, rfl⟩ := h.texts data (by rw [hq]; exact List.mem_cons_self)
      have hall := h.serving (by rw [hpc]; rfl)
      rw [hpc, hq, Pc.held, List.append_nil] at hall
      refine ⟨fun d hd => h.texts d (by rw [hq]; exact List.mem_cons_of_mem _ hd), h.front,
        fun _ => ?_⟩
      rw [hall, endAndShow_pidText, Pc.held, List.append_assoc]
      rfl
  | cleans | unlinks | leaves | fails =>
      simp only [Event.sentTo, Event.shownBy, Option.toList_none, List.append_nil]
      exact h.of_eq (fun d hd => hd) nofun
  | closes | killed =>
      simp only [Event.sentTo, Event.shownBy, Option.toList_none, List.append_nil]
      exact h.of_eq nofun nofun

end Servers

/-! ### A step of the network -/

variable [DecidableEq ι] [DecidableEq κ]

/-- What a step of the network can be. -/
inductive NetStep (pid : κ → ℕ) (s : Net ι κ) : Event ι κ → Net ι κ → Prop
  | sends (k : κ) (i : ι) (hk : s.ended k = false) (hb : s.bound = some i) :
      NetStep pid s (.sends k i (pidText (pid k)))
        ⟨Function.update s.servers i { s.servers i with
          queue := (s.servers i).queue ++ [pidText (pid k)] }, s.name,
          Function.update s.ended k true⟩
  | fails (k : κ) (hk : s.ended k = false) :
      NetStep pid s (.fails k) ⟨s.servers, s.name, Function.update s.ended k true⟩
  | turns (i : ι) {e : Event ι κ} {v : Daemon} (h : Turn i (s.servers i) e v)
      (hfree : e = .binds i → s.name = .free) :
      NetStep pid s e ⟨Function.update s.servers i v, s.name.after e, s.ended⟩

lemma netStep_of_client {k : κ} {msg : Msg} {ok : Bool}
    (h : client pid s k msg ok = some (e, s')) : NetStep pid s e s' := by
  rw [client] at h
  split_ifs at h with hk
  rw [Bool.not_eq_true] at hk
  cases ok with
  | false =>
      cases h
      exact .fails k hk
  | true =>
      cases hb : s.bound with
      | none =>
          simp only [hb] at h
          cases h
          exact .fails k hk
      | some i =>
          simp only [hb, clientMessage_eq, Option.map_some] at h
          cases h
          exact .sends k i hk hb

lemma netStep_of_server {msg : Msg} {ok : Bool} (h : server s i msg ok = some (e, s')) :
    NetStep pid s e s' := by
  rw [server] at h
  cases hpc : (s.servers i).pc with
  | socket =>
      simp only [hpc] at h
      cases h
      cases ok with
      | true => exact .turns i (.opens hpc) nofun
      | false => exact .turns i (.fails hpc) nofun
  | bind =>
      simp only [hpc] at h
      split_ifs at h with hgo
      · cases h
        exact .turns i (.binds hpc) fun _ => hgo.2
      · cases h
        exact .turns i (.cleans (s.servers i).sigint) nofun
  | signal =>
      simp only [hpc] at h
      cases h
      cases ok with
      | true => exact .turns i (.enters hpc) nofun
      | false => exact .turns i (.cleans (s.servers i).sigint) nofun
  | recv =>
      simp only [hpc] at h
      split_ifs at h
      · cases hq : (s.servers i).queue with
        | nil => simp only [hq] at h; cases h
        | cons data rest =>
            simp only [hq] at h
            cases h
            exact .turns i (.takes msg data rest hpc hq) nofun
      · cases h
        exact .turns i (.cleans (s.servers i).sigint) nofun
  | shows text =>
      simp only [hpc] at h
      cases h
      exact .turns i (.shows text hpc) nofun
  | closing =>
      simp only [hpc] at h
      cases h
      exact .turns i (.closes hpc) nofun
  | unlinking =>
      simp only [hpc] at h
      cases h
      exact .turns i (.unlinks hpc) nofun
  | leaving =>
      simp only [hpc] at h
      cases h
      exact .turns i (.leaves hpc) nofun
  | exited =>
      simp only [hpc] at h
      cases h

lemma netStep_of_interrupt (h : interrupt s i = some (e, s')) : NetStep pid s e s' := by
  rw [interrupt] at h
  cases hpc : (s.servers i).pc with
  | exited => simp only [hpc] at h; cases h
  | socket | bind | signal | recv | shows | closing | unlinking | leaving =>
      cases hsig : (s.servers i).sigint with
      | default =>
          simp only [hpc, hsig] at h
          cases h
          exact .turns i (.killed .default) nofun
      | handler =>
          simp only [hpc, hsig] at h
          cases h
          exact .turns i (.cleans .masked) nofun
      | masked => simp only [hpc, hsig] at h; cases h

lemma netStep_of_step (h : (network pid).step s m = some (e, s')) : NetStep pid s e s' := by
  cases m with
  | client k msg ok => exact netStep_of_client h
  | server i msg ok => exact netStep_of_server h
  | interrupt i => exact netStep_of_interrupt h

/-! ### What a server prints -/

/-- What holds of the datagrams in every run. -/
structure Kept (pid : κ → ℕ) (tr : List (Mover ι κ × Event ι κ)) (s : Net ι κ) : Prop where
  delivered : ∀ i, Delivered (sent i tr) (shown i tr) (s.servers i)
  nodup : (senders tr).Nodup
  ended : ∀ k ∈ senders tr, s.ended k = true
  text : ∀ k i text, .sends k i text ∈ tr.map Prod.snd → text = pidText (pid k)

/-- A step keeps it. -/
lemma Kept.step (h : Kept pid tr s) (hs : NetStep pid s e s') : Kept pid (tr ++ [(m, e)]) s' := by
  -- a text is sent by the step of a client only
  have htexts : ∀ {e : Event ι κ}, (∀ k i text, e = .sends k i text → text = pidText (pid k)) →
      ∀ k i text, .sends k i text ∈ (tr ++ [(m, e)]).map Prod.snd → text = pidText (pid k) := by
    intro e he k i text hmem
    rw [List.map_append, List.mem_append] at hmem
    rcases hmem with hmem | hmem
    · exact h.text k i text hmem
    · exact he k i text (List.mem_singleton.mp hmem).symm
  cases hs with
  | sends k j hk hb =>
      refine ⟨fun i => ?_, ?_, fun k' hk' => ?_, htexts fun _ _ _ heq => ?_⟩
      · rw [sent_snoc, shown_snoc]
        -- the datagram is in the queue of one server
        by_cases hi : j = i
        · subst hi
          have harr := (h.delivered j).arrive (pid k)
          simpa [Event.sentTo, Event.shownBy] using harr
        · simpa [Event.sentTo, Event.shownBy, hi, Function.update_of_ne (Ne.symm hi)]
            using h.delivered i
      · rw [senders_snoc]
        -- a client that has sent has ended
        refine List.nodup_append.mpr ⟨h.nodup, List.nodup_singleton k, fun a ha b hb => ?_⟩
        rw [List.mem_singleton.mp hb]
        rintro rfl
        rw [h.ended a ha] at hk
        cases hk
      · rw [senders_snoc, List.mem_append] at hk'
        dsimp only
        rcases hk' with hk' | hk'
        · by_cases hkk : k' = k
          · rw [hkk, Function.update_self]
          · rw [Function.update_of_ne hkk, h.ended k' hk']
        · rw [List.mem_singleton.mp hk', Function.update_self]
      · cases heq
        rfl
  | fails k hk =>
      refine ⟨fun i => ?_, ?_, fun k' hk' => ?_, htexts nofun⟩
      · rw [sent_snoc, shown_snoc]
        simpa [Event.sentTo, Event.shownBy] using h.delivered i
      · rw [senders_snoc]
        exact (List.append_nil (senders tr)).symm ▸ h.nodup
      · rw [senders_snoc] at hk'
        dsimp only
        by_cases hkk : k' = k
        · rw [hkk, Function.update_self]
        · rw [Function.update_of_ne hkk]
          exact h.ended k' ((List.append_nil (senders tr)) ▸ hk')
  | turns j ht hfree =>
      refine ⟨fun i => ?_, ?_, ?_, htexts fun k i text heq => ?_⟩
      · rw [sent_snoc, shown_snoc]
        dsimp only
        by_cases hi : j = i
        · subst hi
          rw [Function.update_self]
          exact (h.delivered j).turn ht
        · obtain ⟨hsent, hshown⟩ := ht.of_ne hi
          rw [Function.update_of_ne (Ne.symm hi), hsent, hshown, Option.toList_none,
            Option.toList_none, List.append_nil, List.append_nil]
          exact h.delivered i
      · rw [senders_snoc, ht.sender, Option.toList_none, List.append_nil]
        exact h.nodup
      · rw [senders_snoc, ht.sender, Option.toList_none, List.append_nil]
        exact h.ended
      · rw [heq] at ht
        cases ht

lemma kept_of_run {stale : Bool} (h : (network pid).Run (started stale) tr s) : Kept pid tr s := by
  refine h.induct_trace (I := fun tr s => Kept pid tr s) ?_ fun tr s m e s' hI hs =>
    hI.step (netStep_of_step hs)
  exact ⟨fun i => ⟨nofun, List.prefix_rfl, fun _ => rfl⟩, List.nodup_nil, nofun, nofun⟩

/-- **What a server prints**: in every run it has printed texts that have been sent to it, in the
order in which they were sent, and in front of `recv` all of them but those that its socket
holds. Each client sends once at most, and the text is its number, by which it is known. -/
theorem shown_of_run {stale : Bool} (h : (network pid).Run (started stale) tr s) (i : ι) :
    shown i tr <+: (sent i tr).map some
      ∧ ((s.servers i).pc = .recv →
        (sent i tr).map some = shown i tr ++ (s.servers i).queue.map some)
      ∧ (senders tr).Nodup
      ∧ (∀ k j text, .sends k j text ∈ tr.map Prod.snd → text = pidText (pid k))
      ∧ ∀ k k' j j' text, .sends k j text ∈ tr.map Prod.snd → .sends k' j' text ∈ tr.map Prod.snd →
        pid k < 2 ^ 31 → pid k' < 2 ^ 31 → pid k = pid k' := by
  have hk := kept_of_run h
  refine ⟨(hk.delivered i).front, fun hpc => ?_, hk.nodup, hk.text, ?_⟩
  · have hall := (hk.delivered i).serving (by rw [hpc]; rfl)
    rwa [hpc, Pc.held, List.append_nil] at hall
  · intro k k' j j' text hsent hsent' hpid hpid'
    have hsame : pidText (pid k) = pidText (pid k') :=
      (hk.text k j text hsent).symm.trans (hk.text k' j' text hsent')
    exact pidText_injective hpid hpid' hsame

/-! ### Whom a client reaches -/

lemma Named.step (h : Named tr s) (hs : NetStep pid s e s') : Named (tr ++ [(m, e)]) s' := by
  cases hs with
  | sends k j hk hb =>
      have hfree : ∀ j', Event.sends k j (pidText (pid k)) = .binds j' → s.name = .free := nofun
      refine ⟨fun i => h.after hfree i, fun i hi => ?_⟩
      dsimp only at hi ⊢
      by_cases hij : i = j
      · subst hij
        rw [Function.update_self] at hi ⊢
        exact h.isOpen i hi
      · rw [Function.update_of_ne hij] at hi ⊢
        exact h.isOpen i hi
  | fails k hk =>
      have hfree : ∀ j', (Event.fails k : Event ι κ) = .binds j' → s.name = .free := nofun
      exact ⟨fun i => h.after hfree i, h.isOpen⟩
  | turns j ht hfree =>
      refine ⟨fun i => h.after (fun j' hj' => ?_) i, fun i hi => ?_⟩
      · subst hj'
        cases ht with
        | binds => exact hfree rfl
      · dsimp only at hi ⊢
        by_cases hij : i = j
        · subst hij
          rw [Function.update_self] at hi ⊢
          exact ht.isOpen (h.isOpen i) hi
        · rw [Function.update_of_ne hij] at hi ⊢
          exact h.isOpen i hi

lemma named_of_run {stale : Bool} (h : (network pid).Run (started stale) tr s) : Named tr s :=
  h.induct_trace (I := fun tr s => Named tr s) (named_started stale) fun _ _ _ _ _ hI hs =>
    hI.step (netStep_of_step hs)

/-- A client reaches the socket that is bound. -/
lemma exists_sends_iff {k : κ} (hk : s.ended k = false) (msg : Msg) :
    (∃ t, (network pid).step s (.client k msg true) = some (.sends k i (pidText (pid k)), t))
      ↔ s.bound = some i := by
  have hstep : (network pid).step s (.client k msg true) = client pid s k msg true := rfl
  rw [hstep, client, if_neg (by rw [hk]; exact Bool.false_ne_true)]
  cases hb : s.bound with
  | none => simp
  | some j => simp [clientMessage_eq]

/-- **Whom a client reaches**: in every run a client that sends reaches a server in its loop
exactly if no server has cleaned up since this one has bound its socket. -/
theorem reached_iff {stale : Bool} (h : (network pid).Run (started stale) tr s)
    (hi : (s.servers i).pc.listening = true) {k : κ} (hk : s.ended k = false) (msg : Msg) :
    (∃ t, (network pid).step s (.client k msg true) = some (.sends k i (pidText (pid k)), t))
      ↔ Since (Binds i) CleansUp tr := by
  have hn := named_of_run h
  rw [exists_sends_iff hk msg, ← hn.name i, Net.bound]
  cases hname : s.name with
  | free | stale => simp
  | of j =>
      simp only [Option.ite_none_right_eq_some, Option.some.injEq, Name.of.injEq]
      refine ⟨And.right, ?_⟩
      rintro rfl
      exact ⟨hn.isOpen _ (Or.inl hi), rfl⟩

/-- Two clients send to a server. A second server cannot bind its socket and removes the name, and
a third one takes it and prints the text of the third client. -/
theorem shown_of_run_three : ∃ tr s, (network fun k : Fin 3 => 7 + k.val).Run
    (started false : Net (Fin 3) (Fin 3)) tr s
      ∧ shown 0 tr = [some (pidText 7), some (pidText 8)] ∧ shown 2 tr = [some (pidText 9)]
      ∧ (senders tr).Nodup := by
  let first : Mover (Fin 3) (Fin 3) := .server 0 cleared true
  let second : Mover (Fin 3) (Fin 3) := .server 1 cleared true
  let third : Mover (Fin 3) (Fin 3) := .server 2 cleared true
  obtain ⟨tr, s, h, hp⟩ := Machine.exists_run (show (((network fun k : Fin 3 => 7 + k.val).exec
    ([first, first, first, .client 0 cleared true, .client 1 cleared true, first, first]
      ++ List.replicate 4 second ++ [first, first, third, third, third, .client 2 cleared true,
        third, third])
    (started false : Net (Fin 3) (Fin 3))).any fun r =>
      (sent 0 r.1 = [pidText 7, pidText 8] && sent 2 r.1 = [pidText 9])
      && ((r.2.servers 0).pc = .recv && (r.2.servers 0).queue = [])
      && ((r.2.servers 2).pc = .recv && (r.2.servers 2).queue = [])) = true by decide +kernel)
  simp only [Bool.and_eq_true, decide_eq_true_eq] at hp
  obtain ⟨⟨⟨hsent, hsent'⟩, hpc, hqueue⟩, hpc', hqueue'⟩ := hp
  obtain ⟨-, hall, hnodup, -⟩ := shown_of_run h 0
  obtain ⟨-, hall', -, -⟩ := shown_of_run h 2
  have hshown := hall hpc
  have hshown' := hall' hpc'
  rw [hqueue, hsent, List.map_nil, List.append_nil] at hshown
  rw [hqueue', hsent', List.map_nil, List.append_nil] at hshown'
  exact ⟨tr, s, h, hshown.symm, hshown'.symm, hnodup⟩

/-- A second server cannot bind its socket, and removes the name of the first. -/
theorem reached_iff_second : ∃ tr s, (network fun _ : Unit => 7).Run
    (started false : Net Bool Unit) tr s ∧ (s.servers false).pc = .recv
      ∧ ¬ ∃ t, (network fun _ : Unit => 7).step s (.client () cleared true)
        = some (.sends () false (pidText 7), t) := by
  obtain ⟨tr, s, h, hp⟩ := Machine.exists_run (show (((network fun _ : Unit => 7).exec
    [.server false cleared true, .server false cleared true, .server false cleared true,
      .server true cleared true, .server true cleared true, .server true cleared true,
      .server true cleared true]
    (started false : Net Bool Unit)).any fun r => (r.2.servers false).pc = .recv
      && r.2.ended () = false && r.2.name = .free) = true by decide +kernel)
  simp only [Bool.and_eq_true, decide_eq_true_eq] at hp
  obtain ⟨⟨hpc, hended⟩, hfree⟩ := hp
  refine ⟨tr, s, h, hpc, ?_⟩
  rw [reached_iff h (by rw [hpc]; rfl) hended cleared, ← (named_of_run h).name false, hfree]
  exact nofun

end Datagrams

end Sockets

end OperatingSys
