import OperatingSys.Fortune.Proc

/-!
What `fort_proc.c` is for: a list of cookies read round and round.

`Store` is the abstract module, a list of cookies and a cursor that is never
past its end; a write appends the message without its last byte, a read
delivers the cookie at the cursor as a line and advances, starting over once
the cursor has reached the end. `Rep` says how the pot and the two offsets of
the module keep such a store, and `proc_refines_store` that on messages that
fit the two machines return and deliver the same.
-/

namespace OperatingSys

namespace Fortune

/-- **The abstract store**: the cookies written and the place of the next one to
be read. -/
structure Store where
  cookies : List (List UInt8)
  cursor : ℕ
  le : cursor ≤ cookies.length

namespace Store

def empty : Store := ⟨[], 0, le_rfl⟩

/-- A write appends a cookie. -/
def append (st : Store) (t : List UInt8) : Store where
  cookies := st.cookies ++ [t]
  cursor := st.cursor
  le := st.le.trans (by simp)

/-- The cursor, set back when it has reached the end. -/
def place (st : Store) : ℕ := if st.cursor = st.cookies.length then 0 else st.cursor

/-- A read delivers the next cookie as a line; an empty store delivers
nothing. -/
def read (st : Store) : List UInt8 × Store :=
  if h : st.place < st.cookies.length then
    (st.cookies[st.place] ++ [10], ⟨st.cookies, st.place + 1, h⟩)
  else ([], st)

lemma place_lt {st : Store} (h : st.cookies ≠ []) : st.place < st.cookies.length := by
  have hpos := List.length_pos_iff.mpr h
  have hle := st.le
  rw [place]
  split_ifs with hc <;> omega

lemma read_of_lt {st : Store} (h : st.place < st.cookies.length) :
    st.read = (st.cookies[st.place] ++ [10], ⟨st.cookies, st.place + 1, h⟩) := by
  rw [read, dif_pos h]

lemma read_of_nil {st : Store} (h : st.cookies = []) : st.read = ([], st) := by
  rw [read, dif_neg (by simp [h])]

/-- The store as a machine moved by the same calls as the module. -/
def machine : Machine Store Proc.Call (ℤ × List UInt8) where
  step st
    | .write buf _ => some (((buf.length : ℤ), []), st.append buf.dropLast)
    | .read _ _ _ => some (((st.read.1.length : ℤ), st.read.1), st.read.2)

lemma step_write (st : Store) (buf : List UInt8) (c : UserCopy) :
    machine.step st (.write buf c) = some (((buf.length : ℤ), []), st.append buf.dropLast) := rfl

lemma step_read (st : Store) (count : ℕ) (offp : ℤ) (c : UserCopy) :
    machine.step st (.read count offp c)
      = some (((st.read.1.length : ℤ), st.read.1), st.read.2) := rfl

/-- The lines delivered by a sequence of calls since the cursor was last set
back, `acc` being those delivered before it. -/
def sinceWrap : List Proc.Call → Store → List (List UInt8) → List (List UInt8)
  | [], _, acc => acc
  | .write buf _ :: ks, st, acc => sinceWrap ks (st.append buf.dropLast) acc
  | .read _ _ _ :: ks, st, acc =>
      if st.cookies = [] then sinceWrap ks st acc
      else sinceWrap ks st.read.2
        ((if st.cursor = st.cookies.length then [] else acc) ++ [st.read.1])

/-- The cookies before the cursor, as lines. -/
def passed (st : Store) : List (List UInt8) := (st.cookies.take st.cursor).map (· ++ [10])

/-- A read passes one more cookie, the first one after the cursor was set
back. -/
lemma passed_read {st : Store} (h : st.cookies ≠ []) :
    st.read.2.passed
      = (if st.cursor = st.cookies.length then [] else st.passed) ++ [st.read.1] := by
  rw [read_of_lt (place_lt h), passed]
  simp only [List.take_succ_eq_append_getElem (place_lt h), List.map_append, List.map_singleton]
  congr 1
  rw [place, passed]
  split_ifs with hc
  · rw [List.take_zero, List.map_nil]
  · rfl

/-- Since the cursor was last set back exactly the cookies before it have been
delivered, each once and in order. -/
lemma sinceWrap_eq_passed {tr : List (Proc.Call × ℤ × List UInt8)} {ks : List Proc.Call}
    {st st' : Store} (h : machine.exec ks st = some (tr, st')) :
    sinceWrap ks st st.passed = st'.passed := by
  induction ks generalizing st tr with
  | nil =>
      simp only [Machine.exec, Option.some.injEq, Prod.mk.injEq] at h
      rw [sinceWrap, h.2]
  | cons k ks ih =>
      cases k with
      | write buf c =>
          obtain ⟨e, st₁, tr', hs, he, -⟩ := Machine.exec_first h
          cases (step_write st buf c).symm.trans hs
          rw [sinceWrap, ← ih he]
          congr 1
          rw [passed, passed, append, List.take_append_of_le_length st.le]
      | read count offp c =>
          obtain ⟨e, st₁, tr', hs, he, -⟩ := Machine.exec_first h
          cases (step_read st count offp c).symm.trans hs
          rw [sinceWrap]
          by_cases hnil : st.cookies = []
          · rw [read_of_nil hnil] at he
            rw [if_pos hnil]
            exact ih he
          · rw [if_neg hnil, ← passed_read hnil]
            exact ih he

end Store

/-! ### The pot keeps a store -/

namespace Proc

/-- The pot begins with the cookies, each with its terminator, `next_fortune` is behind the
last of them and `cookie_index` behind those before the cursor. -/
structure Stocked (st : Store) (s : State) : Prop where
  pot : ∃ rest, s.cookiePot = terminated st.cookies ++ rest
  size : s.cookiePot.length = PAGE_SIZE
  index : s.cookieIndex = (terminated (st.cookies.take st.cursor)).length
  next : s.nextFortune = (terminated st.cookies).length
  clean : ∀ t ∈ st.cookies, (0 : UInt8) ∉ t

/-- The read offset of the next read is behind the cookies before its place. -/
lemma Stocked.wrapped_eq {st : Store} {s : State} (hs : Stocked st s) :
    s.wrapped = (terminated (st.cookies.take st.place)).length := by
  rw [State.wrapped, hs.index, hs.next, Store.place]
  by_cases hc : st.cursor = st.cookies.length
  · rw [if_pos hc, hc, List.take_length, if_pos le_rfl]
    rfl
  · have hlt : st.cursor < st.cookies.length := lt_of_le_of_ne st.le hc
    have hlen := congrArg List.length (terminated_eq_of_lt hlt)
    rw [List.length_append, List.length_append, List.length_cons] at hlen
    rw [if_neg hc, if_neg (by omega)]

/-- The pot from the read offset on. -/
lemma Stocked.pot_eq {st : Store} {s : State} (hs : Stocked st s)
    (hlt : st.place < st.cookies.length) : ∃ rest, s.cookiePot
      = terminated (st.cookies.take st.place) ++ (st.cookies[st.place] ++ 0 :: rest) := by
  obtain ⟨rest, hpot⟩ := hs.pot
  refine ⟨terminated (st.cookies.drop (st.place + 1)) ++ rest, ?_⟩
  rw [hpot, terminated_eq_of_lt hlt, List.append_assoc, List.append_assoc, List.cons_append]

/-- The next read formats the cookie at the place. -/
lemma Stocked.tmpText_eq {st : Store} {s : State} (hs : Stocked st s)
    (hlt : st.place < st.cookies.length) :
    tmpText s.cookiePot s.wrapped = some (st.cookies[st.place] ++ [10]) := by
  obtain ⟨rest, hpot⟩ := hs.pot_eq hlt
  rw [tmpText, hpot, hs.wrapped_eq, cstr_append (hs.clean _ (List.getElem_mem hlt))]
  rfl

/-- The read offset behind the cookie at the place. -/
lemma Stocked.advanced {st : Store} {s : State} (hs : Stocked st s)
    (hlt : st.place < st.cookies.length) :
    s.wrapped + ((st.cookies[st.place] ++ [10]).length : ℕ)
      = (terminated (st.cookies.take (st.place + 1))).length := by
  rw [hs.wrapped_eq, List.take_succ_eq_append_getElem hlt, terminated_append]
  simp

/-- **The representation**: the pot is stocked with the cookies, and each of them fits the
formatting buffer with the end of its line and a terminator. -/
structure Rep (st : Store) (s : State) : Prop extends Stocked st s where
  short : ∀ t ∈ st.cookies, t.length + 2 ≤ PAGE_SIZE

lemma rep_init : Rep .empty initProcModule where
  pot := ⟨_, rfl⟩
  size := List.length_replicate
  index := rfl
  next := rfl
  clean := by simp [Store.empty]
  short := by simp [Store.empty]

/-- The messages and the reads the store is stated for: a message is copied
whole, has between `1` and `PAGE_SIZE - 1` bytes and no `0` before its last one;
a read is the first one of its open and its copy completes. -/
def Admissible : Call → Prop
  | .write buf c => 1 ≤ buf.length ∧ buf.length ≤ PAGE_SIZE - 1 ∧ (0 : UInt8) ∉ buf.dropLast
      ∧ c = .complete
  | .read _ offp c => offp = 0 ∧ c = .complete

/-- The bytes a call asks to store. -/
def Call.size : Call → ℕ
  | .write buf _ => buf.length
  | .read _ _ _ => 0

/-- A write of an admissible message that fits keeps the representation. -/
lemma Rep.write {st : Store} {s : State} (hr : Rep st s) {buf : List UInt8} {c : UserCopy}
    (ha : Admissible (.write buf c)) (hfit : (terminated st.cookies).length + buf.length
      ≤ PAGE_SIZE) :
    ∃ s', handlers.step s (.write buf c) = some (((buf.length : ℤ), []), s')
      ∧ Rep (st.append buf.dropLast) s' := by
  obtain ⟨hpos, hlen, h0, rfl⟩ := ha
  obtain ⟨rest, hpot⟩ := hr.pot
  have hsize := hr.size
  rw [hpot] at hsize
  rw [step_write, writeProc, hpot, hr.index, hr.next,
    storeMessage_row hsize (terminated_take_length_le _ _) hpos hfit]
  refine ⟨_, rfl, ⟨⟨rest.drop buf.length, rfl⟩, row_length hsize hpos hfit, ?_, rfl, ?_⟩, ?_⟩
  · rw [Store.append, List.take_append_of_le_length st.le]
  · intro u hu
    rcases List.mem_append.mp hu with hu | hu
    · exact hr.clean u hu
    · rwa [List.mem_singleton.mp hu]
  · intro u hu
    rcases List.mem_append.mp hu with hu | hu
    · exact hr.short u hu
    · rw [List.mem_singleton.mp hu, List.length_dropLast]
      omega

/-- A read that is the first one of its open keeps the representation. -/
lemma Rep.read {st : Store} {s : State} (hr : Rep st s) (count : ℕ) :
    ∃ s', handlers.step s (.read count 0 .complete)
        = some (((st.read.1.length : ℤ), st.read.1), s') ∧ Rep st.read.2 s' := by
  rw [step_read, readProc]
  by_cases hnil : st.cookies = []
  · have hn : s.nextFortune = 0 := by rw [hr.next, hnil]; rfl
    rw [if_pos (Or.inr hn), Store.read_of_nil hnil]
    exact ⟨s, rfl, hr⟩
  · have hn : 0 < (terminated st.cookies).length := terminated_length_pos hnil
    have hnext := hr.next
    have hlt := Store.place_lt hnil
    rw [if_neg (by omega), hr.tmpText_eq hlt, Option.map_some, Option.map_some,
      Store.read_of_lt hlt]
    exact ⟨_, rfl, ⟨hr.pot, hr.size, hr.advanced hlt, hr.next, hr.clean⟩, hr.short⟩

/-- A call that is admissible returns and shows what the store does, and what it
delivers fits the formatting buffer with its terminator. -/
lemma Rep.step {st : Store} {s : State} (hr : Rep st s) {k : Call} (ha : Admissible k)
    (hfit : (terminated st.cookies).length + k.size ≤ PAGE_SIZE) :
    ∃ e st' s', handlers.step s k = some (e, s') ∧ Store.machine.step st k = some (e, st')
      ∧ Rep st' s' ∧ (terminated st'.cookies).length = (terminated st.cookies).length + k.size
      ∧ e.2.length + 1 ≤ PAGE_SIZE := by
  cases k with
  | write buf c =>
      obtain ⟨s', hs, hr'⟩ := hr.write ha hfit
      refine ⟨_, _, s', hs, Store.step_write st buf c, hr', ?_, by simp [PAGE_SIZE]⟩
      have hpos := ha.1
      simp only [Store.append, terminated_append, terminated_cons, terminated_nil, Call.size,
        List.length_append, List.length_cons, List.length_nil, List.length_dropLast]
      omega
  | read count offp c =>
      obtain ⟨rfl, rfl⟩ := ha
      obtain ⟨s', hs, hr'⟩ := hr.read count
      refine ⟨_, _, s', hs, Store.step_read st count 0 .complete, hr', ?_⟩
      by_cases hnil : st.cookies = []
      · rw [Store.read_of_nil hnil]
        exact ⟨rfl, by simp [PAGE_SIZE]⟩
      · rw [Store.read_of_lt (Store.place_lt hnil)]
        have hlen := hr.short _ (List.getElem_mem (Store.place_lt hnil))
        refine ⟨rfl, ?_⟩
        rw [List.length_append, List.length_singleton]
        omega

/-- The calls of a sequence return and show what the store does. -/
lemma Rep.exec {ks : List Call} {st : Store} {s : State} (hr : Rep st s)
    (ha : ∀ k ∈ ks, Admissible k)
    (hfit : (terminated st.cookies).length + (ks.map Call.size).sum ≤ PAGE_SIZE) :
    ∃ tr s' st', handlers.exec ks s = some (tr, s') ∧ Store.machine.exec ks st = some (tr, st')
      ∧ Rep st' s' ∧ ∀ q ∈ tr, q.2.2.length + 1 ≤ PAGE_SIZE := by
  induction ks generalizing st s with
  | nil => exact ⟨[], s, st, rfl, rfl, hr, by simp⟩
  | cons k ks ih =>
      rw [List.map_cons, List.sum_cons] at hfit
      obtain ⟨e, st₁, s₁, hs, hst, hr₁, hlen, he⟩ := hr.step (ha k List.mem_cons_self) (by omega)
      obtain ⟨tr, s', st', hs', hst', hr', hall⟩ :=
        ih hr₁ (fun k' hk' => ha k' (List.mem_cons_of_mem _ hk')) (by omega)
      refine ⟨(k, e) :: tr, s', st', Machine.exec_cons_of_exec hs hs',
        Machine.exec_cons_of_exec hst hst', hr', ?_⟩
      rintro q (_ | ⟨_, hq⟩)
      · exact he
      · exact hall q hq

/-- **The module is a store of cookies.** On admissible messages that fit together
the module and the store return and deliver the same, call by call; since the
cursor was last set back the cookies before it have been delivered as lines, each
once and in order; and every line fits the formatting buffer. -/
theorem proc_refines_store (ks : List Call) (ha : ∀ k ∈ ks, Admissible k)
    (hsum : (ks.map Call.size).sum ≤ PAGE_SIZE) :
    ∃ tr s st, handlers.exec ks initProcModule = some (tr, s)
      ∧ Store.machine.exec ks .empty = some (tr, st)
      ∧ Store.sinceWrap ks .empty [] = (st.cookies.take st.cursor).map (· ++ [10])
      ∧ ∀ q ∈ tr, q.2.2.length + 1 ≤ PAGE_SIZE := by
  obtain ⟨tr, s, st, hs, hst, -, hall⟩ := rep_init.exec ha
    (by rwa [Store.empty, terminated_nil, List.length_nil, Nat.zero_add])
  exact ⟨tr, s, st, hs, hst, Store.sinceWrap_eq_passed hst, hall⟩

/-- Two cookies, the second written after the first was read, and a third read. -/
theorem proc_refines_store_two_cookies :
    ∃ tr s st, handlers.exec [.write [97, 10] .complete, .read 5 0 .complete,
        .write [98, 10] .complete, .read 5 0 .complete, .read 5 0 .complete] initProcModule
        = some (tr, s)
      ∧ Store.machine.exec [.write [97, 10] .complete, .read 5 0 .complete,
        .write [98, 10] .complete, .read 5 0 .complete, .read 5 0 .complete] .empty
        = some (tr, st)
      ∧ Store.sinceWrap [.write [97, 10] .complete, .read 5 0 .complete,
        .write [98, 10] .complete, .read 5 0 .complete, .read 5 0 .complete] .empty []
        = (st.cookies.take st.cursor).map (· ++ [10])
      ∧ ∀ q ∈ tr, q.2.2.length + 1 ≤ PAGE_SIZE :=
  proc_refines_store _ (by simp [Admissible, PAGE_SIZE]) (by simp [Call.size, PAGE_SIZE])

end Proc

end Fortune

end OperatingSys
