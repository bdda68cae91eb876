import OperatingSys.Fortune.Proc

/-!
Where the writes of `fort_proc.c` go.

`write__proc` takes the free space from `cookie_index`, the offset that moves
with the reads, and copies to `next_fortune`, the offset behind the bytes
stored. So a write is let in although it does not fit exactly when its length
lies above what is free behind `next_fortune` and not above what the code
believes to be free; `write_in_pot_iff` says that these are the only runs that
leave the pot, and `second_write_outside` is the shortest of them.
-/

namespace OperatingSys

namespace Fortune

namespace Proc

/-- `write__proc` lets a message of this length in. -/
def Accepts (s : State) (len : ℕ) : Prop := overflows s.cookieIndex len = false

/-- What is asked of a write after a run: it is let in exactly when the bytes
stored so far leave room for it, and then goes to a range inside the pot. -/
def WritesInPot (tr : List (Call × ℤ × List UInt8)) (s : State) : Call → Prop
  | .write buf _ =>
      (Accepts s buf.length ↔ storedBytes tr + buf.length ≤ PAGE_SIZE)
        ∧ (Accepts s buf.length → 0 ≤ s.nextFortune
            ∧ s.nextFortune + buf.length ≤ PAGE_SIZE)
  | .read _ _ _ => True

/-- The length is not between what is free behind `next_fortune` and what
`cookie_index` makes it look like. -/
def Clear (s : State) : Call → Prop
  | .write buf _ =>
      ¬ (PAGE_SIZE < s.nextFortune + buf.length
          ∧ s.cookieIndex + buf.length ≤ PAGE_SIZE + 1)
  | .read _ _ _ => True

/-- The messages of the writes have at least one byte. -/
def Nonempty : Call → Prop
  | .write buf _ => buf ≠ []
  | .read _ _ _ => True

lemma Good.accepts_iff {s : State} {i n : ℕ} (hs : Good s i n) (len : ℕ) :
    Accepts s len ↔ i + len ≤ PAGE_SIZE + 1 := by
  have hle := hs.le
  have hb := hs.kept.bound
  rw [Accepts, hs.index, overflows_eq (by omega), decide_eq_false_iff_not]
  omega

/-- In a good state the length of a write is clear exactly when the write does
what is asked. -/
lemma Good.writesInPot_iff {tr : List (Call × ℤ × List UInt8)} {s : State} {i : ℕ}
    (hs : Good s i (storedBytes tr)) (k : Call) : WritesInPot tr s k ↔ Clear s k := by
  have hle := hs.le
  cases k with
  | write buf c =>
      simp only [WritesInPot, Clear, hs.accepts_iff, hs.index, hs.next]
      omega
  | read count offp c => exact Iff.rfl

/-- A call with a clear length and a message of at least one byte stays in the
pot. -/
lemma Good.step_of_clear {s : State} {i n : ℕ} (hs : Good s i n) {k : Call} (hc : Clear s k)
    (hne : Nonempty k) : ∃ e s', handlers.step s k = some (e, s') := by
  cases k with
  | write buf c =>
      have hpos : 0 < buf.length := List.length_pos_iff.mpr hne
      have hout := writeProc_outcome hs buf c
      simp only [Clear, hs.index, hs.next] at hc
      rw [step_write, writeProc]
      generalize storeMessage s.cookiePot s.cookieIndex s.nextFortune buf c = o at hout
      cases hout with
      | outside h h' => omega
      | full | faulted | stored => exact ⟨_, _, rfl⟩
  | read count offp c =>
      obtain ⟨r, i', hr, -⟩ := good_readProc hs count offp c
      exact ⟨_, _, by rw [step_read, hr, Option.map_some]⟩

/-- **When the writes stay in the pot**: along a run with messages of at least
one byte, every write is reached, is let in exactly when the bytes stored leave
room for it, and then goes inside the pot, if and only if no write has a length
between the two free spaces. -/
theorem write_in_pot_iff (ks : List Call) (hne : ∀ k ∈ ks, Nonempty k) :
    handlers.Everywhere WritesInPot ks initProcModule
      ↔ handlers.Meets Clear ks initProcModule := by
  constructor
  · intro h pre k hpre tr s he
    obtain ⟨tr', s', he', hin⟩ := h pre k hpre
    rw [he, Option.some.injEq, Prod.mk.injEq] at he'
    obtain ⟨rfl, rfl⟩ := he'
    obtain ⟨i, hg⟩ := good_exec he
    exact (hg.writesInPot_iff k).mp hin
  · intro h pre k hpre
    have hmeets : handlers.Meets (fun s k => Clear s k ∧ Nonempty k) pre initProcModule :=
      fun pre' k' hpre' tr s he =>
        have hks : pre' ++ [k'] <+: ks := hpre'.trans ((List.prefix_append _ _).trans hpre)
        ⟨h pre' k' hks tr s he, hne k' (hks.subset (by simp))⟩
    obtain ⟨tr, s, he, i, hg⟩ := Machine.exec_of_meets
      (I := fun tr s => ∃ i, Good s i (storedBytes tr)) ⟨0, good_init⟩
      (fun tr s k ⟨i, hg⟩ hP => by
        obtain ⟨e, s', hstep⟩ := hg.step_of_clear hP.1 hP.2
        exact ⟨e, s', hstep, good_step hg hstep⟩) hmeets
    exact ⟨tr, s, he, (hg.writesInPot_iff k).mpr (h pre k hpre tr s he)⟩

/-- A cookie is written, read and followed by another one. -/
theorem write_in_pot_iff_three_calls :
    handlers.Everywhere WritesInPot
        [.write [97, 10] .complete, .read 16 0 .complete, .write [98, 10] .complete]
        initProcModule
      ↔ handlers.Meets Clear
        [.write [97, 10] .complete, .read 16 0 .complete, .write [98, 10] .complete]
        initProcModule :=
  write_in_pot_iff _ (by simp [Nonempty])

/-- After a first message that fills the pot, a second one of one byte is let in
and goes to the byte behind the pot. -/
lemma outside_of_full {m : List UInt8} (hm : m.length = PAGE_SIZE) (b : UInt8) :
    ¬ handlers.Everywhere WritesInPot [.write m .complete, .write [b] .complete]
      initProcModule := by
  intro h
  obtain ⟨tr, s, he, hin⟩ := h [.write m .complete] (.write [b] .complete) List.prefix_rfl
  have hpos : 0 < m.length := by rw [hm, PAGE_SIZE]; omega
  have hw : storeMessage initProcModule.cookiePot initProcModule.cookieIndex
      initProcModule.nextFortune m .complete = some ((m.length : ℤ), _, _) :=
    @storeMessage_row [] (List.replicate MAX_COOKIE_LEN 0) m 0
      List.length_replicate (Nat.zero_le _) hpos ((Nat.zero_add _).trans_le hm.le)
  have hnext := terminated_concat_length [] hpos
  rw [Machine.exec, step_write, writeProc, hw] at he
  simp only [Option.map_some, Machine.exec, Option.some.injEq, Prod.mk.injEq] at he
  obtain ⟨-, rfl⟩ := he
  have haccepts : overflows initProcModule.cookieIndex [b].length = false :=
    (overflows_eq (Nat.zero_le _) 1).trans rfl
  have hlast := (hin.2 haccepts).2
  rw [terminated_nil, List.length_nil, hm] at hnext
  simp only [hnext, List.length_singleton] at hlast
  omega

/-- Two messages, of `4096` bytes and of one byte: the second is let in and goes
to the byte behind the pot. -/
theorem second_write_outside : ¬ handlers.Everywhere WritesInPot
    [.write (List.replicate 4095 97 ++ [10]) .complete, .write [10] .complete]
    initProcModule :=
  outside_of_full (by rw [List.length_append, List.length_replicate]; rfl) 10

end Proc

end Fortune

end OperatingSys
