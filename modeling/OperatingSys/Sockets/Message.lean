import OperatingSys.Foundations.CString
import OperatingSys.TcpServer.Basic

/-!
The messages of the two socket servers of `os_02/lab_08/src`.

Both servers receive into `msg`, store a terminator at the index `recv` has returned, and
print `msg` as a string (`endAndShow`). Neither looks whether the index lies inside `msg`
(`endAndShow_eq_none`): the index is `-1` after an error, which the TCP server does not
test for, and `BUF_SIZE` after a message that fills `msg`. `none` is an access outside
`msg`. The time in front of every line is left out.

* `handleClient`: the function of `net/server.c`, with the table of `TcpServer`.
* `serve`: the loop of `unix/server.c`.
-/

namespace OperatingSys

namespace Sockets

open TcpServer (Server BUF_SIZE MAX_CLIENTS_COUNT)

/-- What `recv` on a buffer of `BUF_SIZE` bytes comes to. No bytes stand for a client that
has disconnected, or for an empty datagram. -/
inductive Received where
  | error
  | bytes (data : List UInt8) (le : data.length ≤ BUF_SIZE)

namespace Received

/-- The value returned. -/
def ret : Received → ℤ
  | .error => -1
  | .bytes data _ => data.length

/-- The bytes stored. -/
def data : Received → List UInt8
  | .error => []
  | .bytes data _ => data

/-- The text that belongs to a message: its bytes up to the first terminator. -/
def text (r : Received) : List UInt8 := r.data.takeWhile (· ≠ 0)

/-- Bytes have come that leave room for a terminator. -/
def LeavesRoom (r : Received) : Prop := 0 ≤ r.ret ∧ r.ret < BUF_SIZE

instance : DecidablePred LeavesRoom := fun _ => inferInstanceAs (Decidable (_ ∧ _))

lemma ret_eq_length {r : Received} (h : 0 ≤ r.ret) : r.ret = r.data.length := by
  cases r with
  | error => exact absurd h (by decide)
  | bytes data le => rfl

end Received

/-- `char msg[BUF_SIZE]`, whatever it holds. -/
structure Msg where
  bytes : List UInt8
  size : bytes.length = BUF_SIZE

/-! ### The terminator -/

/-- `recv(.., msg, ..)`, `msg[bytes] = '\0'` and the `%s` that prints `msg`. -/
def endAndShow (msg : Msg) (r : Received) : Option (List UInt8) :=
  (blit msg.bytes 0 r.data).bind fun m => (poke m r.ret 0).bind fun m => cstr m 0

lemma endAndShow_eq (msg : Msg) {r : Received} (h : r.LeavesRoom) :
    endAndShow msg r = some r.text := by
  have hlen := Received.ret_eq_length h.1
  have hlt : r.data.length < msg.bytes.length := by
    have := h.2
    rw [msg.size]
    omega
  rw [endAndShow, blit_front hlt.le, Option.bind_some, hlen, List.drop_eq_getElem_cons hlt,
    poke_append, Option.bind_some, cstr_zero, frontString_ended]
  rfl

lemma endAndShow_eq_none (msg : Msg) {r : Received} (h : ¬ r.LeavesRoom) :
    endAndShow msg r = none := by
  rw [endAndShow, Option.bind_eq_none_iff]
  intro m hm
  have hout : poke m r.ret 0 = none := by
    refine if_neg fun hin => h ⟨hin.1, ?_⟩
    rw [blit_length hm, msg.size] at hin
    exact hin.2
  rw [hout]
  rfl

/-! ### The TCP server -/

/-- What the TCP server prints: of which slot, which descriptor and which message. -/
inductive Notice where
  | disconnected (i : Fin MAX_CLIENTS_COUNT) (sd : ℤ)
  | message (i : Fin MAX_CLIENTS_COUNT) (sd : ℤ) (text : List UInt8)
  deriving DecidableEq

/-- A call of `handle_client`: the slot, what `msg` holds, and what `recv` comes to. -/
structure Call where
  slot : Fin MAX_CLIENTS_COUNT
  msg : Msg
  received : Received

/-- `handle_client`. -/
def handleClient (s : Server) (k : Call) : Option (Notice × Server) :=
  let s' := (TcpServer.handleClient s k.slot k.received.ret).2
  if k.received.ret = 0 then some (.disconnected k.slot (s.clients k.slot), s')
  else (endAndShow k.msg k.received).map fun text =>
    (.message k.slot (s.clients k.slot) text, s')

/-- The server moved by the calls. -/
def clientCalls : Machine Server Call Notice where
  step := handleClient

/-- What is asked of a call: what is printed as a message is the text of bytes received, and
bytes received are printed as a message. -/
def Proper (k : Call) : Notice → Prop
  | .disconnected _ _ => k.received.data = []
  | .message _ _ text => k.received.data ≠ [] ∧ text = k.received.text

lemma step_of_leavesRoom (s : Server) {k : Call} (h : k.received.LeavesRoom) :
    ∃ n s', clientCalls.step s k = some (n, s') ∧ Proper k n := by
  have hlen := Received.ret_eq_length h.1
  change ∃ n s', handleClient s k = some (n, s') ∧ Proper k n
  rw [handleClient]
  by_cases h0 : k.received.ret = 0
  · rw [if_pos h0]
    refine ⟨_, _, rfl, List.length_eq_zero_iff.mp ?_⟩
    omega
  · rw [if_neg h0, endAndShow_eq k.msg h]
    refine ⟨_, _, rfl, fun hnil => h0 ?_, rfl⟩
    rw [hlen, hnil]
    rfl

lemma step_of_not_leavesRoom (s : Server) {k : Call} (h : ¬ k.received.LeavesRoom) :
    clientCalls.step s k = none := by
  have hne : k.received.ret ≠ 0 := fun h0 => h ⟨h0.ge, h0.trans_lt (by decide)⟩
  change handleClient s k = none
  rw [handleClient, if_neg hne, endAndShow_eq_none k.msg h]
  rfl

/-! ### The UNIX server -/

/-- What the UNIX server does with what it receives. -/
inductive Action where
  | message (text : List UInt8)
  | exits
  deriving DecidableEq

/-- The loop of `main`, for what it finds in `msg` and receives in turn. -/
def serve : List (Msg × Received) → Option (List Action)
  | [] => some []
  | (msg, r) :: rest =>
      if r.ret = -1 then some [.exits]
      else (endAndShow msg r).bind fun text => (serve rest).map (.message text :: ·)

/-- What is asked of the loop: the text of every message up to the first error. -/
def wanted : List (Msg × Received) → List Action
  | [] => []
  | (_, .error) :: _ => [.exits]
  | (_, .bytes data le) :: rest => .message (Received.bytes data le).text :: wanted rest

/-- `recv` has not failed. -/
def succeeded (k : Msg × Received) : Bool := k.2.ret ≠ -1

lemma serve_eq_wanted_iff (ks : List (Msg × Received)) :
    serve ks = some (wanted ks) ↔ ∀ k ∈ ks.takeWhile succeeded, k.2.LeavesRoom := by
  induction ks with
  | nil => simp [serve, wanted]
  | cons k ks ih =>
      obtain ⟨msg, r⟩ := k
      cases r with
      | error => exact iff_of_true rfl (by simp [succeeded, Received.ret])
      | bytes data le =>
          have hne : (Received.bytes data le).ret ≠ -1 := by
            rw [Received.ret]
            omega
          have hs : succeeded (msg, .bytes data le) = true := decide_eq_true hne
          rw [serve, if_neg hne, wanted, List.takeWhile_cons_of_pos hs, List.forall_mem_cons, ← ih]
          by_cases hroom : (Received.bytes data le).LeavesRoom
          · rw [endAndShow_eq msg hroom, Option.bind_some, and_iff_right hroom]
            cases serve ks with
            | none => simp
            | some actions => simp
          · rw [endAndShow_eq_none msg hroom]
            exact iff_of_false (by simp) fun h => hroom h.1

/-! ### Both servers -/

/-- **The defect of the terminator, exactly**: over a sequence of calls the TCP server stays
inside `msg`, prints every message as its text and no error as a message, just when no
`recv` has failed or filled `msg`; and the UNIX server does the like just when none has
filled `msg` before the first that failed. -/
theorem messages_kept_iff (s : Server) (calls : List Call) (ks : List (Msg × Received)) :
    ((∃ tr t, clientCalls.exec calls s = some (tr, t) ∧ ∀ q ∈ tr, Proper q.1 q.2)
        ↔ ∀ k ∈ calls, 0 ≤ k.received.ret ∧ k.received.ret < BUF_SIZE)
      ∧ (serve ks = some (wanted ks)
        ↔ ∀ k ∈ ks.takeWhile succeeded, 0 ≤ k.2.ret ∧ k.2.ret < BUF_SIZE) :=
  ⟨Machine.exec_and_iff step_of_leavesRoom step_of_not_leavesRoom, serve_eq_wanted_iff ks⟩

/-- The first slot. -/
def firstSlot : Fin MAX_CLIENTS_COUNT := ⟨0, by decide⟩

/-- A server with one client. -/
def oneClient : Server where
  clients := Function.update (fun _ => 0) firstSlot 4
  opened := {3, 4}
  readfds := {4}
  pc := .scanning 0

/-- `msg` before anything has been received. -/
def cleared : Msg := ⟨List.replicate BUF_SIZE 0, List.length_replicate⟩

/-- A message of `BUF_SIZE` letters. -/
def full : Received := .bytes (List.replicate BUF_SIZE 65) List.length_replicate.le

/-- An error ends `msg` in front of it and a full message behind it. -/
theorem terminator_outside :
    (¬ ∃ tr t, clientCalls.exec [⟨firstSlot, cleared, .error⟩] oneClient = some (tr, t)
        ∧ ∀ q ∈ tr, Proper q.1 q.2)
      ∧ (¬ ∃ tr t, clientCalls.exec [⟨firstSlot, cleared, full⟩] oneClient = some (tr, t)
        ∧ ∀ q ∈ tr, Proper q.1 q.2)
      ∧ serve [(cleared, full)] ≠ some (wanted [(cleared, full)]) := by
  have hfull : ¬ full.LeavesRoom := by
    rintro ⟨-, hlt⟩
    rw [full, Received.ret, List.length_replicate] at hlt
    exact lt_irrefl _ hlt
  have herror : ¬ Received.error.LeavesRoom := by decide
  refine ⟨?_, ?_, ?_⟩
  · rintro ⟨tr, t, he, -⟩
    rw [Machine.exec_cons_none (step_of_not_leavesRoom _ herror)] at he
    cases he
  · rintro ⟨tr, t, he, -⟩
    rw [Machine.exec_cons_none (step_of_not_leavesRoom _ hfull)] at he
    cases he
  · rw [Ne, serve_eq_wanted_iff]
    exact fun h => hfull (h _ List.mem_cons_self)

end Sockets

end OperatingSys
