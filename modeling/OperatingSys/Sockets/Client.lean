import OperatingSys.Foundations.Decimal
import OperatingSys.Sockets.Message

/-!
What the clients of `os_02/lab_08/src` send.

Both `unix/client.c` and `net/client.c` print `pid %d` into `msg` and send `strlen(msg)` bytes
of it (`clientMessage`). Whatever `msg` held, that is the text with the number of the process,
cut where `msg` ends (`clientMessage_eq`), and it tells the process
(`pidText_injective`).
-/

namespace OperatingSys

namespace Sockets

open TcpServer (BUF_SIZE)

/-- `"pid "`. -/
def pidWord : List UInt8 := [112, 105, 100, 32]

/-- `snprintf(msg, ARRAY_SIZE(msg), "pid %d", getpid())` and what `sendto` is given of it. -/
def clientMessage (msg : Msg) (pid : ℕ) : Option (List UInt8) :=
  (snprintf msg.bytes 0 BUF_SIZE (pidWord ++ decimal pid)).bind fun m => cstr m 0

/-- The text of a process. -/
def pidText (pid : ℕ) : List UInt8 := (pidWord ++ decimal pid).take (BUF_SIZE - 1)

lemma zero_notMem_pidText (pid : ℕ) : (0 : UInt8) ∉ pidText pid := by
  intro h
  rcases List.mem_append.mp (List.mem_of_mem_take h) with hword | hpid
  · exact absurd hword (by decide)
  · exact zero_notMem_decimal pid hpid

lemma clientMessage_eq (msg : Msg) (pid : ℕ) : clientMessage msg pid = some (pidText pid) := by
  have hsize : (0 : ℕ) < BUF_SIZE := by decide
  have hlen : (pidText pid).length < msg.bytes.length := by
    rw [msg.size, pidText, List.length_take]
    omega
  have hcut : snprintf ([] ++ msg.bytes) 0 BUF_SIZE (pidWord ++ decimal pid)
      = some ([] ++ (pidText pid ++ 0 :: msg.bytes.drop ((pidText pid).length + 1))) :=
    snprintf_append hsize hlen
  rw [List.nil_append, List.nil_append] at hcut
  rw [clientMessage, hcut, Option.bind_some, cstr_front (zero_notMem_pidText pid)]

/-- The number of a process fits into `msg`. -/
lemma pidText_eq {pid : ℕ} (h : pid < 2 ^ 31) : pidText pid = pidWord ++ decimal pid := by
  have hlen : (decimal pid).length ≤ 10 :=
    decimal_length_le (by omega) (h.trans (by norm_num))
  refine List.take_of_length_le ?_
  rw [List.length_append]
  exact (Nat.add_le_add_left hlen _).trans (by decide)

/-- **The text tells the process.** -/
lemma pidText_injective {m n : ℕ} (hm : m < 2 ^ 31) (hn : n < 2 ^ 31)
    (h : pidText m = pidText n) : m = n := by
  rw [pidText_eq hm, pidText_eq hn] at h
  exact decimal_injective (List.append_cancel_left h)

end Sockets

end OperatingSys
