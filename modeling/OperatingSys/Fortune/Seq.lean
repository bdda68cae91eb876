import OperatingSys.Foundations.Machine
import OperatingSys.Fortune.Basic

/-!
The module `fort_seq.c`: a sequence file whose writes store cookies and whose
every read shows one of them.

The two offsets have the roles `fort_proc.c` gives them the other way round:
`cookieIndex` is where the next write goes and `nextFortune` where the next line
is read. `none` is an access outside the `PAGE_SIZE` bytes of `cookie_pot`.

* `writeSeq`, `showSeq`: the write handler and the one operation of the sequence
  that reads the pot.
* `Good`: the invariant of the states reached without leaving the pot.
* `handlers`: the machine moved by calls of the two, `good_exec` the invariant
  along them, and `inside_iff` when a run of calls stays in the pot.
-/

namespace OperatingSys

namespace Fortune

namespace Seq

/-- The static variables of the module. -/
structure State where
  cookiePot : List UInt8
  cookieIndex : ℤ
  nextFortune : ℤ

/-- The state a successful `init_seq_module` leaves. -/
def initSeqModule : State := ⟨List.replicate MAX_COOKIE_LEN 0, 0, 0⟩

/-- `write__seq`: the value returned and the state afterwards. Here the free
space is computed from the offset the message goes to. -/
def writeSeq (s : State) (buf : List UInt8) (c : UserCopy) : Option (ℤ × State) :=
  (storeMessage s.cookiePot s.cookieIndex s.cookieIndex buf c).map fun (ret, pot, index) =>
    (ret, { s with cookiePot := pot, cookieIndex := index })

/-- The bytes of `"seq: "`. -/
def label : List UInt8 := [115, 101, 113, 58, 32]

/-- A cookie as it is shown. -/
def line (t : List UInt8) : List UInt8 := label ++ t ++ [10]

@[simp] lemma line_length (t : List UInt8) : (line t).length = t.length + 6 := by
  simp only [line, label, List.length_append, List.length_cons, List.length_nil]
  omega

lemma line_inj {t u : List UInt8} : line t = line u ↔ t = u := by
  rw [line, line, List.append_left_inj, List.append_right_inj]

/-- The read offset after `if (next_fortune >= cookie_index) next_fortune = 0`. -/
def State.wrapped (s : State) : ℤ :=
  if s.nextFortune ≥ s.cookieIndex then 0 else s.nextFortune

/-- What a call of `show__seq` leaves: the value returned, the bytes given to
`seq_printf` and the state. -/
structure ShowResult where
  ret : ℤ
  out : List UInt8
  state : State

/-- `show__seq`. `snprintf` keeps what fits `tmp` with a terminator and returns
the length of the whole text. -/
def showSeq (s : State) : Option ShowResult :=
  if s.cookieIndex = 0 then some ⟨s.cookieIndex, [], s⟩
  else (cstr s.cookiePot s.wrapped).map fun t =>
    ⟨0, (line t).take (MAX_COOKIE_LEN - 1),
      { s with nextFortune := s.wrapped + (line t).length }⟩

/-! ### The states reached inside the pot -/

/-- **The invariant of the module** while no access has left the pot: the pot is
in order up to the write offset `n`, and the read offset is some `f`. -/
structure Good (s : State) (n f : ℕ) : Prop where
  index : s.cookieIndex = n
  next : s.nextFortune = f
  kept : Kept s.cookiePot n

lemma good_init : Good initSeqModule 0 0 := ⟨rfl, rfl, kept_init⟩

lemma writeSeq_outcome {s : State} {n f : ℕ} (hs : Good s n f) (buf : List UInt8)
    (c : UserCopy) : Outcome s.cookiePot n n buf
      (storeMessage s.cookiePot s.cookieIndex s.cookieIndex buf c) := by
  rw [hs.index]
  have hb := hs.kept.bound
  exact storeMessage_outcome hs.kept (by omega) buf c

/-- What a write that returns has stored. -/
lemma of_writeSeq {s s' : State} {buf : List UInt8} {c : UserCopy} {ret : ℤ}
    (h : writeSeq s buf c = some (ret, s')) : ∃ pot index,
      storeMessage s.cookiePot s.cookieIndex s.cookieIndex buf c = some (ret, pot, index)
        ∧ s' = { s with cookiePot := pot, cookieIndex := index } := by
  obtain ⟨⟨ret', pot, index⟩, hm, he⟩ := Option.map_eq_some_iff.mp h
  cases he
  exact ⟨pot, index, hm, rfl⟩

/-- A write that returns leaves a good state. -/
lemma good_writeSeq {s s' : State} {n f : ℕ} {buf : List UInt8} {c : UserCopy} {ret : ℤ}
    (hs : Good s n f) (h : writeSeq s buf c = some (ret, s')) :
    (ret < 0 ∧ Good s' n f) ∨ (ret = buf.length ∧ Good s' (n + buf.length) f) := by
  obtain ⟨pot, index, ho, rfl⟩ := of_writeSeq h
  have hout := writeSeq_outcome hs buf c
  rw [ho] at hout
  cases hout with
  | full h => exact Or.inl ⟨by decide, rfl, hs.next, hs.kept⟩
  | faulted h h' h0 hk => exact Or.inl ⟨by decide, rfl, hs.next, hk⟩
  | stored h h' h0 hk => exact Or.inr ⟨rfl, rfl, hs.next, hk⟩

/-- The read offset of a good state that is not empty, set back or not, is before
the terminator of the last message. -/
lemma Good.wrapped_eq {s : State} {n f : ℕ} (hs : Good s n f) :
    s.wrapped = (if n ≤ f then 0 else f : ℕ) := by
  rw [State.wrapped, hs.index, hs.next]
  by_cases h : n ≤ f
  · rw [if_pos h, if_pos (by omega)]
    rfl
  · rw [if_neg h, if_neg (by omega)]

/-- A call of `show__seq` in a good state stays in the pot and leaves a good state
with the same write offset. -/
lemma good_showSeq {s : State} {n f : ℕ} (hs : Good s n f) :
    ∃ r f', showSeq s = some r ∧ Good r.state n f' := by
  rw [showSeq]
  by_cases h0 : s.cookieIndex = 0
  · exact ⟨_, f, by rw [if_pos h0], hs⟩
  · rw [hs.index] at h0
    have hlt : (if n ≤ f then 0 else f) ≤ n - 1 := by split_ifs <;> omega
    obtain ⟨t, ht, -⟩ := cstr_of_getElem? hlt (hs.kept.last (by omega))
    rw [if_neg (by rwa [hs.index]), hs.wrapped_eq, ht, Option.map_some]
    exact ⟨_, _, rfl, hs.index, (Nat.cast_add _ _).symm, hs.kept⟩

/-! ### Sequences of calls -/

/-- A write with its arguments and the way its user copy comes out, or a read of
the file, which makes one call of `show__seq`. -/
inductive Call where
  | write (buf : List UInt8) (c : UserCopy)
  | read

/-- The module as a machine moved by calls; a call shows the value it returns and
the bytes it puts out. -/
def handlers : Machine State Call (ℤ × List UInt8) where
  step s
    | .write buf c => (writeSeq s buf c).map fun q => ((q.1, []), q.2)
    | .read => (showSeq s).map fun r => ((r.ret, r.out), r.state)

lemma step_write (s : State) (buf : List UInt8) (c : UserCopy) :
    handlers.step s (.write buf c) = (writeSeq s buf c).map fun q => ((q.1, []), q.2) := by
  simp only [handlers]

lemma step_read (s : State) :
    handlers.step s .read = (showSeq s).map fun r => ((r.ret, r.out), r.state) := by
  simp only [handlers]

/-- A write that returns shows its value. -/
lemma of_step_write {s s' : State} {buf : List UInt8} {c : UserCopy} {e : ℤ × List UInt8}
    (h : handlers.step s (.write buf c) = some (e, s')) :
    ∃ ret, writeSeq s buf c = some (ret, s') ∧ e = (ret, []) := by
  rw [step_write] at h
  obtain ⟨⟨ret, u⟩, hw, he⟩ := Option.map_eq_some_iff.mp h
  cases he
  exact ⟨ret, hw, rfl⟩

/-- A read that returns shows its value and what it puts out. -/
lemma of_step_read {s s' : State} {e : ℤ × List UInt8}
    (h : handlers.step s .read = some (e, s')) :
    ∃ r, showSeq s = some r ∧ s' = r.state ∧ e = (r.ret, r.out) := by
  rw [step_read] at h
  obtain ⟨r, hr, he⟩ := Option.map_eq_some_iff.mp h
  cases he
  exact ⟨r, hr, rfl, rfl⟩

lemma good_step {s s' : State} {n f : ℕ} {k : Call} {e : ℤ × List UInt8} (hs : Good s n f)
    (h : handlers.step s k = some (e, s')) : ∃ n' f', Good s' n' f' := by
  cases k with
  | write buf c =>
      obtain ⟨ret, hw, -⟩ := of_step_write h
      rcases good_writeSeq hs hw with ⟨-, hg⟩ | ⟨-, hg⟩
      · exact ⟨n, f, hg⟩
      · exact ⟨n + buf.length, f, hg⟩
  | read =>
      obtain ⟨r, hr, rfl, -⟩ := of_step_read h
      obtain ⟨r', f', hr', hg⟩ := good_showSeq hs
      obtain rfl := Option.some.inj (hr.symm.trans hr')
      exact ⟨n, f', hg⟩

/-- Every state a sequence of calls reaches inside the pot is good. -/
lemma good_exec {ks : List Call} {tr : List (Call × ℤ × List UInt8)} {s : State}
    (h : handlers.exec ks initSeqModule = some (tr, s)) : ∃ n f, Good s n f :=
  (Machine.run_of_exec h).induct_trace (I := fun _ s => ∃ n f, Good s n f)
    ⟨0, 0, good_init⟩ fun _ _ _ _ _ ⟨_, _, hg⟩ hstep => good_step hg hstep

/-! ### When a run stays in the pot -/

/-- Every call of the sequence returns with all its accesses in the pot, and
leaves `cookie_index` in its bounds. -/
def Inside (ks : List Call) : Prop :=
  ∀ js, js <+: ks → ∃ tr s, handlers.exec js initSeqModule = some (tr, s)
    ∧ 0 ≤ s.cookieIndex ∧ s.cookieIndex ≤ PAGE_SIZE

/-- A write that does not put the terminator before the pot and whose end is not
the one byte behind the pot that the computed free space has too many. -/
def Clear (s : State) : Call → Prop
  | .write buf _ => 0 < s.cookieIndex + buf.length ∧ s.cookieIndex + buf.length ≠ PAGE_SIZE + 1
  | .read => True

/-- In a good state exactly the clear calls return. -/
lemma Good.step_iff {s : State} {n f : ℕ} (hs : Good s n f) (k : Call) :
    (∃ e s', handlers.step s k = some (e, s')) ↔ Clear s k := by
  cases k with
  | write buf c =>
      have hout := writeSeq_outcome hs buf c
      rw [step_write, writeSeq, Clear, hs.index]
      rw [hs.index] at hout
      generalize storeMessage s.cookiePot n n buf c = o at hout
      cases hout with
      | outside h h' => simp only [Option.map_none, reduceCtorEq, exists_false, false_iff]; omega
      | full h => exact iff_of_true ⟨_, _, rfl⟩ (by omega)
      | faulted h h' h0 hk => exact iff_of_true ⟨_, _, rfl⟩ (by omega)
      | stored h h' h0 hk => exact iff_of_true ⟨_, _, rfl⟩ (by omega)
  | read =>
      obtain ⟨r, f', hr, -⟩ := good_showSeq hs
      exact iff_of_true ⟨_, _, by rw [step_read, hr, Option.map_some]⟩ trivial

/-- The calls of a sequence that stays in the pot are clear. -/
lemma Inside.clear {pre : List Call} {k : Call} (h : Inside (pre ++ [k]))
    {tr : List (Call × ℤ × List UInt8)} {s : State}
    (he : handlers.exec pre initSeqModule = some (tr, s)) : Clear s k := by
  obtain ⟨n, f, hg⟩ := good_exec he
  obtain ⟨tr', s', he', -⟩ := h _ List.prefix_rfl
  rw [Machine.exec_append, he] at he'
  obtain ⟨⟨e, u⟩, hstep, -⟩ := Option.map_eq_some_iff.mp he'
  exact (hg.step_iff k).mp ⟨e, u, hstep⟩

/-- **When the module stays in its pot**: a sequence of calls does, with
`cookie_index` in its bounds after each of them, if and only if every write of it
is clear in the state it is made in. -/
theorem inside_iff (ks : List Call) : Inside ks ↔ handlers.Meets Clear ks initSeqModule := by
  constructor
  · intro h pre k hpre tr s he
    have hin : Inside (pre ++ [k]) := fun js hjs => h js (hjs.trans hpre)
    exact hin.clear he
  · intro h js hjs
    obtain ⟨tr, s, he, n, f, hg⟩ := Machine.exec_of_meets (I := fun _ s => ∃ n f, Good s n f)
      ⟨0, 0, good_init⟩
      (fun _ _ k ⟨_, _, hg⟩ hP => by
        obtain ⟨e, s', hstep⟩ := (hg.step_iff k).mpr hP
        exact ⟨e, s', hstep, good_step hg hstep⟩) (h.of_prefix hjs)
    have hb := hg.kept.bound
    exact ⟨tr, s, he, by rw [hg.index]; omega, by rw [hg.index]; omega⟩

/-- The two ways out of the pot at once: an empty first message puts its
terminator before it, a first message of one byte more than the pot is let in. -/
theorem first_write_outside : ¬ Inside [.write [] .complete]
    ∧ ¬ Inside [.write (List.replicate 4097 10) .complete] := by
  constructor
  · intro h
    exact (@Inside.clear [] _ h _ _ rfl).1.ne rfl
  · intro h
    apply (@Inside.clear [] _ h _ _ rfl).2
    rw [List.length_replicate]
    rfl

end Seq

end Fortune

end OperatingSys
