import OperatingSys.Foundations.Machine
import OperatingSys.Fortune.Basic

/-!
The module `fort_proc.c`: a proc file whose writes store cookies and whose
reads deliver them.

The names of the two offsets are the source's: `nextFortune` is where the next
write goes and `cookieIndex` where the next read starts. `none` is an access
outside the `PAGE_SIZE` bytes of `cookie_pot`. The formatting buffer `tmp` is
overwritten by every read and keeps nothing between calls, so it is no part of
the state; what is formatted into it is `tmpText`.

* `writeProc`, `readProc`: the two handlers.
* `Good`: the invariant of the states reached without leaving the pot, kept by
  both handlers (`good_writeProc`, `good_readProc`).
* `handlers`: the machine moved by calls of the handlers, and `good_exec` the
  invariant along them.
-/

namespace OperatingSys

namespace Fortune

namespace Proc

/-- The static variables of the module. -/
structure State where
  cookiePot : List UInt8
  cookieIndex : ℤ
  nextFortune : ℤ

/-- The state a successful `init_proc_module` leaves. -/
def initProcModule : State := ⟨List.replicate MAX_COOKIE_LEN 0, 0, 0⟩

/-- `write__proc`: the value returned and the state afterwards. The free space
is computed from `cookie_index`, the message goes to `next_fortune`. -/
def writeProc (s : State) (buf : List UInt8) (c : UserCopy) : Option (ℤ × State) :=
  (storeMessage s.cookiePot s.cookieIndex s.nextFortune buf c).map fun (ret, pot, next) =>
    (ret, { s with cookiePot := pot, nextFortune := next })

/-- What `sprintf(tmp, "%s\n", &cookie_pot[cookie_index])` writes before its
terminator. -/
def tmpText (pot : List UInt8) (cookieIndex : ℤ) : Option (List UInt8) :=
  (cstr pot cookieIndex).map fun t => t ++ [10]

/-- What a call of `read__proc` leaves: the value returned, the bytes the user
received, `*offp` and the state. -/
structure ReadResult where
  ret : ℤ
  out : List UInt8
  offp : ℤ
  state : State

/-- The read offset after `if (next_fortune <= cookie_index) cookie_index = 0`. -/
def State.wrapped (s : State) : ℤ :=
  if s.nextFortune ≤ s.cookieIndex then 0 else s.cookieIndex

/-- The end of `read__proc`, once `tmp` holds the line. -/
def deliver (s : State) (tmp : List UInt8) (offp : ℤ) (c : UserCopy) : ReadResult :=
  if (copyToUser tmp c).1 ≠ 0 then
    ⟨-EFAULT, (copyToUser tmp c).2, offp, { s with cookieIndex := s.wrapped }⟩
  else
    ⟨tmp.length, (copyToUser tmp c).2, offp + tmp.length,
      { s with cookieIndex := s.wrapped + tmp.length }⟩

/-- `read__proc`. The code does not look at `count`. -/
def readProc (s : State) (_count : ℕ) (offp : ℤ) (c : UserCopy) : Option ReadResult :=
  if 0 < offp ∨ s.nextFortune = 0 then some ⟨0, [], offp, s⟩
  else (tmpText s.cookiePot s.wrapped).map fun tmp => deliver s tmp offp c

/-! ### The states reached inside the pot -/

/-- **The invariant of the module** while no access has left the pot: the pot is
in order up to the write offset `n`, and the read offset `i` is not past it. -/
structure Good (s : State) (i n : ℕ) : Prop where
  index : s.cookieIndex = i
  next : s.nextFortune = n
  le : i ≤ n
  kept : Kept s.cookiePot n

lemma good_init : Good initProcModule 0 0 := ⟨rfl, rfl, le_rfl, kept_init⟩

/-- What a write comes to in a good state. -/
lemma writeProc_outcome {s : State} {i n : ℕ} (hs : Good s i n) (buf : List UInt8)
    (c : UserCopy) : Outcome s.cookiePot i n buf
      (storeMessage s.cookiePot s.cookieIndex s.nextFortune buf c) := by
  rw [hs.index, hs.next]
  have hle := hs.le
  have hb := hs.kept.bound
  exact storeMessage_outcome hs.kept (by omega) buf c

/-- What a write that returns has stored. -/
lemma of_writeProc {s s' : State} {buf : List UInt8} {c : UserCopy} {ret : ℤ}
    (h : writeProc s buf c = some (ret, s')) : ∃ pot next,
      storeMessage s.cookiePot s.cookieIndex s.nextFortune buf c = some (ret, pot, next)
        ∧ s' = { s with cookiePot := pot, nextFortune := next } := by
  obtain ⟨⟨ret', pot, next⟩, hm, he⟩ := Option.map_eq_some_iff.mp h
  cases he
  exact ⟨pot, next, hm, rfl⟩

/-- A write that returns leaves a good state, with the write offset where it was
or advanced by the message. -/
lemma good_writeProc {s s' : State} {i n : ℕ} {buf : List UInt8} {c : UserCopy} {ret : ℤ}
    (hs : Good s i n) (h : writeProc s buf c = some (ret, s')) :
    (ret < 0 ∧ Good s' i n) ∨ (ret = buf.length ∧ Good s' i (n + buf.length)) := by
  obtain ⟨pot, next, ho, rfl⟩ := of_writeProc h
  have hout := writeProc_outcome hs buf c
  rw [ho] at hout
  have hle := hs.le
  cases hout with
  | full h => exact Or.inl ⟨by decide, hs.index, rfl, hle, hs.kept⟩
  | faulted h h' h0 hk => exact Or.inl ⟨by decide, hs.index, rfl, hle, hk⟩
  | stored h h' h0 hk => exact Or.inr ⟨rfl, hs.index, rfl, by omega, hk⟩

/-- In a good state that is not empty the read offset is before the terminator
of the last message. -/
lemma Good.wrapped_eq {s : State} {i n : ℕ} (hs : Good s i n) (hn : 0 < n) :
    ∃ j : ℕ, s.wrapped = j ∧ j < n := by
  have hle := hs.le
  rw [State.wrapped, hs.index, hs.next]
  split_ifs with hw
  · exact ⟨0, rfl, hn⟩
  · exact ⟨i, rfl, by omega⟩

/-- A read in a good state stays in the pot and leaves a good state with the
same write offset. -/
lemma good_readProc {s : State} {i n : ℕ} (hs : Good s i n) (count : ℕ) (offp : ℤ)
    (c : UserCopy) : ∃ r i', readProc s count offp c = some r ∧ Good r.state i' n := by
  rw [readProc]
  by_cases hoff : 0 < offp ∨ s.nextFortune = 0
  · exact ⟨_, i, by rw [if_pos hoff], hs⟩
  · have hnext := (not_or.mp hoff).2
    rw [hs.next] at hnext
    have hn : 0 < n := by omega
    obtain ⟨j, hj, hjn⟩ := hs.wrapped_eq hn
    obtain ⟨t, ht, hlen⟩ := cstr_of_getElem? (n := j) (by omega) (hs.kept.last hn)
    rw [if_neg hoff, hj, tmpText, ht, Option.map_some, Option.map_some]
    by_cases hcopy : (copyToUser (t ++ [10]) c).1 = 0
    · refine ⟨_, j + (t.length + 1), rfl, ?_⟩
      rw [deliver, if_neg (not_not.mpr hcopy)]
      exact ⟨by simp [hj], hs.next, by omega, hs.kept⟩
    · refine ⟨_, j, rfl, ?_⟩
      rw [deliver, if_pos hcopy]
      exact ⟨hj, hs.next, by omega, hs.kept⟩

/-! ### Sequences of calls -/

/-- A call of one of the two handlers with its arguments and the way its user
copy comes out. -/
inductive Call where
  | write (buf : List UInt8) (c : UserCopy)
  | read (count : ℕ) (offp : ℤ) (c : UserCopy)

/-- The module as a machine moved by calls; a call shows the value it returns and
the bytes the user received. -/
def handlers : Machine State Call (ℤ × List UInt8) where
  step s
    | .write buf c => (writeProc s buf c).map fun q => ((q.1, []), q.2)
    | .read count offp c => (readProc s count offp c).map fun r => ((r.ret, r.out), r.state)

lemma step_write (s : State) (buf : List UInt8) (c : UserCopy) :
    handlers.step s (.write buf c)
      = (writeProc s buf c).map fun q => ((q.1, []), q.2) := by
  simp only [handlers]

lemma step_read (s : State) (count : ℕ) (offp : ℤ) (c : UserCopy) :
    handlers.step s (.read count offp c)
      = (readProc s count offp c).map fun r => ((r.ret, r.out), r.state) := by
  simp only [handlers]

/-- A write that returns shows its value. -/
lemma of_step_write {s s' : State} {buf : List UInt8} {c : UserCopy} {e : ℤ × List UInt8}
    (h : handlers.step s (.write buf c) = some (e, s')) :
    ∃ ret, writeProc s buf c = some (ret, s') ∧ e = (ret, []) := by
  rw [step_write] at h
  obtain ⟨⟨ret, u⟩, hw, he⟩ := Option.map_eq_some_iff.mp h
  cases he
  exact ⟨ret, hw, rfl⟩

/-- A read that returns shows its value and what the user has received. -/
lemma of_step_read {s s' : State} {count : ℕ} {offp : ℤ} {c : UserCopy} {e : ℤ × List UInt8}
    (h : handlers.step s (.read count offp c) = some (e, s')) :
    ∃ r, readProc s count offp c = some r ∧ s' = r.state ∧ e = (r.ret, r.out) := by
  rw [step_read] at h
  obtain ⟨r, hr, he⟩ := Option.map_eq_some_iff.mp h
  cases he
  exact ⟨r, hr, rfl, rfl⟩

/-- The bytes stored by the writes of a run that returned their length. -/
def storedBytes : List (Call × ℤ × List UInt8) → ℕ
  | [] => 0
  | (.write buf _, ret, _) :: tr =>
      (if ret = buf.length then buf.length else 0) + storedBytes tr
  | (.read _ _ _, _) :: tr => storedBytes tr

lemma storedBytes_append (tr tr' : List (Call × ℤ × List UInt8)) :
    storedBytes (tr ++ tr') = storedBytes tr + storedBytes tr' := by
  induction tr with
  | nil => simp [storedBytes]
  | cons q tr ih =>
      obtain ⟨k, ret, out⟩ := q
      cases k with
      | write buf c => simp only [List.cons_append, storedBytes, ih]; omega
      | read count offp c => simp only [List.cons_append, storedBytes, ih]

/-- A call that returns keeps the state good, the write offset being the number
of bytes stored. -/
lemma good_step {tr : List (Call × ℤ × List UInt8)} {s s' : State} {i : ℕ} {k : Call}
    {e : ℤ × List UInt8} (hs : Good s i (storedBytes tr)) (h : handlers.step s k = some (e, s')) :
    ∃ i', Good s' i' (storedBytes (tr ++ [(k, e)])) := by
  cases k with
  | write buf c =>
      obtain ⟨ret, hw, rfl⟩ := of_step_write h
      rw [storedBytes_append, storedBytes, storedBytes, Nat.add_zero]
      rcases good_writeProc hs hw with ⟨hneg, hg⟩ | ⟨hlen, hg⟩
      · exact ⟨i, by rwa [if_neg (by omega), Nat.add_zero]⟩
      · exact ⟨i, by rwa [if_pos hlen]⟩
  | read count offp c =>
      obtain ⟨r, hr, rfl, rfl⟩ := of_step_read h
      obtain ⟨r', i', hr', hg⟩ := good_readProc hs count offp c
      rw [hr] at hr'
      obtain rfl := Option.some.inj hr'
      exact ⟨i', by rwa [storedBytes_append, storedBytes, storedBytes, Nat.add_zero]⟩

/-- Every state a sequence of calls reaches inside the pot is good. -/
lemma good_exec {ks : List Call} {tr : List (Call × ℤ × List UInt8)} {s : State}
    (h : handlers.exec ks initProcModule = some (tr, s)) : ∃ i, Good s i (storedBytes tr) :=
  (Machine.run_of_exec h).induct_trace (I := fun tr s => ∃ i, Good s i (storedBytes tr))
    ⟨0, good_init⟩ fun _ _ _ _ _ ⟨_, hg⟩ hstep => good_step hg hstep

end Proc

end Fortune

end OperatingSys
