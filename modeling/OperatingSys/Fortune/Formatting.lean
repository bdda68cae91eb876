import OperatingSys.Fortune.Added
import OperatingSys.Fortune.ProcBounds
import OperatingSys.Fortune.Seq
import OperatingSys.Fortune.Store

/-!
The formatting buffers of the fortune modules.

A text that is read behind the first byte of the pot is short enough for its line to fit
`tmp`: in `fort_seq.c` because the first read has gone on by at least the six bytes that its
format adds. So only the text at the first byte counts, which is fixed by the first message
that is stored (`Front`, `storeMessage_front`). `formatted_iff` says for which first messages
the lines fit throughout a run.
-/

namespace OperatingSys

namespace Fortune

variable {pot pot' buf : List UInt8} {check next ret : ℤ} {c : UserCopy} {n d : ℕ}

/-! ### The text at the front of the pot -/

/-- The text of a message: what is in front of its first terminator when its last byte has
been replaced by one. -/
def textOf (buf : List UInt8) : List UInt8 := buf.dropLast.takeWhile (· ≠ 0)

/-- The text at the front of a pot that is not empty leaves room for `d` bytes. -/
def Front (d : ℕ) (pot : List UInt8) (n : ℕ) : Prop :=
  0 < n → ∃ t, cstr pot 0 = some t ∧ t.length + d ≤ PAGE_SIZE

/-- The copy of so many bytes completes. -/
def UserCopy.Whole (len : ℕ) : UserCopy → Prop
  | .complete => True
  | .fault copied _ => len ≤ copied

/-- The condition on a message that comes to the front of the pot: if it is one that fits and
its copy completes, its text leaves room for `d` bytes. -/
def Short (d : ℕ) (index : ℤ) (buf : List UInt8) (c : UserCopy) : Prop :=
  index = 0 → buf.length ≤ PAGE_SIZE → c.Whole buf.length →
    (textOf buf).length + d ≤ PAGE_SIZE

/-- A write that returns the length has copied the whole message. -/
lemma whole_of_storeMessage
    (h : storeMessage pot check n buf c = some ((buf.length : ℤ), pot', next)) :
    c.Whole buf.length := by
  rw [storeMessage] at h
  split_ifs at h with hov
  · simp only [Option.some.injEq, Prod.mk.injEq] at h
    have : (-ENOSPC : ℤ) < 0 := by decide
    omega
  · obtain ⟨⟨left, q⟩, hc, hq⟩ := Option.bind_eq_some_iff.mp h
    have hneg : (-EFAULT : ℤ) < 0 := by decide
    cases c with
    | complete => trivial
    | fault copied left =>
        obtain ⟨m, -, hm⟩ := Option.map_eq_some_iff.mp hc
        cases hm
        dsimp only at hq
        split_ifs at hq with h0
        · simp only [Option.some.injEq, Prod.mk.injEq] at hq
          omega
        · exact Nat.sub_eq_zero_iff_le.mp (not_not.mp h0)

/-- The bytes stored are closed. -/
lemma Kept.closed (hk : Kept pot n) : Closed (pot.take n) := by
  intro b hb
  have hlen : (pot.take n).length = n := List.length_take_of_le (hk.length ▸ hk.bound)
  rw [List.getLast?_eq_getElem?, hlen, Option.mem_def] at hb
  obtain ⟨hlt, -⟩ := List.getElem?_eq_some_iff.mp hb
  rw [List.getElem?_take_of_lt (by omega), hk.last (by omega)] at hb
  exact (Option.some.inj hb).symm

/-- The text at the front lies in the bytes stored. -/
lemma frontString_take (hk : Kept pot n) (hn : 0 < n) :
    frontString (pot.take n) = frontString pot := by
  have hlast : (pot.take n)[n - 1]? = some 0 := by
    rw [List.getElem?_take_of_lt (by omega), hk.last hn]
  obtain ⟨t, ht, -⟩ := frontString_of_getElem? hlast
  have hall := frontString_append_of_some ht (pot.drop n)
  rw [List.take_append_drop] at hall
  rw [ht, hall]

/-- **A write keeps the front**, if the message is short when it comes there. -/
lemma storeMessage_front (hk : Kept pot n) (hfront : Front d pot n) (hshort : Short d n buf c)
    (h : storeMessage pot check n buf c = some (ret, pot', next)) : Front d pot' next.toNat := by
  have hbytes : (pot.take n).length = n := List.length_take_of_le (hk.length ▸ hk.bound)
  have hsize : (pot.take n ++ pot.drop n).length = PAGE_SIZE := by
    rw [List.take_append_drop, hk.length]
  have hsplit : storeMessage (pot.take n ++ pot.drop n) check (pot.take n).length buf c
      = some (ret, pot', next) := by
    rw [List.take_append_drop, hbytes, h]
  obtain ⟨⟨rest, hpot⟩, hnext⟩ := storeMessage_added hsize hk.closed hsplit
  intro hpos
  rw [hnext, Int.toNat_natCast] at hpos
  rw [hpot, cstr_zero, List.append_assoc]
  rcases Nat.eq_zero_or_pos n with rfl | hn
  · -- the message is the first one
    rw [List.take_zero, List.nil_append] at hpos ⊢
    have hret : ret = buf.length := by
      by_contra hne
      rw [added, if_neg hne] at hpos
      exact absurd hpos (lt_irrefl 0)
    have hnil : buf ≠ [] := by
      rintro rfl
      rw [added, if_pos hret] at hpos
      exact absurd hpos (lt_irrefl 0)
    rw [added, if_pos hret, stored, if_neg hnil, List.append_assoc, List.singleton_append,
      frontString_ended]
    subst hret
    have hfit : buf.length ≤ PAGE_SIZE := by
      have hlen := storeMessage_length h
      rw [hpot, List.length_append, List.length_append, added, if_pos rfl, stored_length,
        hk.length] at hlen
      omega
    exact ⟨_, rfl, hshort rfl hfit (whole_of_storeMessage h)⟩
  · obtain ⟨t, ht, hlen⟩ := hfront hn
    rw [cstr_zero, ← frontString_take hk hn] at ht
    exact ⟨t, frontString_append_of_some ht _, hlen⟩

/-- A first message that fits, copied whole. -/
lemma storeMessage_first (hlen : pot.length = PAGE_SIZE) (hfit : buf.length ≤ PAGE_SIZE)
    (hwhole : c.Whole buf.length) (hbuf : buf ≠ []) : ∃ pot',
      storeMessage pot 0 0 buf c = some ((buf.length : ℤ), pot', (buf.length : ℤ))
        ∧ cstr pot' 0 = some (textOf buf) := by
  have hcopy : copyFromUser pot 0 buf c = copyFromUser pot 0 buf .complete := by
    cases c with
    | complete => rfl
    | fault copied left =>
        have hle : buf.length ≤ copied := hwhole
        rw [copyFromUser, copyFromUser, List.take_of_length_le hle, Nat.sub_eq_zero_of_le hle,
          List.range_zero, List.map_nil, List.append_nil]
  have hsame : storeMessage pot 0 0 buf c = storeMessage pot 0 0 buf .complete := by
    rw [storeMessage, storeMessage, hcopy]
  have hrow := @storeMessage_row [] pot buf 0 hlen (Nat.zero_le _) (List.length_pos_iff.mpr hbuf)
    ((Nat.zero_add _).trans_le hfit)
  have hend := terminated_concat_length [] (List.length_pos_iff.mpr hbuf)
  rw [terminated_nil, List.nil_append, List.length_nil, Nat.zero_add] at hend
  rw [terminated_nil, List.nil_append, List.nil_append, hend] at hrow
  refine ⟨_, hsame.trans hrow, ?_⟩
  rw [cstr_zero, terminated_cons, List.append_assoc, List.cons_append, frontString_ended]
  rfl

/-! ### `fort_proc.c` -/

namespace Proc

/-- The text that the next read formats fits `tmp` with its terminator. -/
def TmpFits (s : State) : Prop :=
  s.nextFortune ≠ 0 →
    ∃ text, tmpText s.cookiePot s.wrapped = some text ∧ text.length + 1 ≤ PAGE_SIZE

/-- The message that comes to the front of the pot leaves room for a newline and a
terminator. -/
def FirstShort (s : State) : Call → Prop
  | .write buf c => Short 2 s.nextFortune buf c
  | .read _ _ _ => True

/-- A good state with a short text at the front. -/
def Fronted (s : State) : Prop := ∃ i n, Good s i n ∧ Front 2 s.cookiePot n

lemma fronted_init : Fronted initProcModule :=
  ⟨0, 0, good_init, fun h => absurd h (lt_irrefl 0)⟩

lemma Fronted.tmpFits {s : State} (h : Fronted s) : TmpFits s := by
  obtain ⟨i, n, hg, hfront⟩ := h
  intro hne
  have hn : 0 < n := by
    have := hg.next
    omega
  have hbound := hg.kept.bound
  obtain ⟨j, hj, hlt⟩ := hg.wrapped_eq hn
  have htext : ∃ t, cstr s.cookiePot j = some t ∧ t.length + 2 ≤ PAGE_SIZE := by
    rcases Nat.eq_zero_or_pos j with rfl | hpos
    · exact hfront hn
    · obtain ⟨t, ht, hlen⟩ := cstr_of_getElem? (n := j) (by omega) (hg.kept.last hn)
      exact ⟨t, ht, by omega⟩
  obtain ⟨t, ht, hlen⟩ := htext
  refine ⟨t ++ [10], by rw [tmpText, hj, ht, Option.map_some], ?_⟩
  rw [List.length_append, List.length_singleton]
  exact hlen

lemma readProc_pot {s : State} {count : ℕ} {offp : ℤ} {c : UserCopy} {r : ReadResult}
    (h : readProc s count offp c = some r) : r.state.cookiePot = s.cookiePot := by
  rw [readProc] at h
  split_ifs at h
  · rw [← Option.some.inj h]
  · obtain ⟨tmp, -, rfl⟩ := Option.map_eq_some_iff.mp h
    rw [deliver]
    split_ifs <;> rfl

lemma Fronted.step {s s' : State} {k : Call} {e : ℤ × List UInt8} (h : Fronted s)
    (hk : FirstShort s k) (hs : handlers.step s k = some (e, s')) : Fronted s' := by
  obtain ⟨i, n, hg, hfront⟩ := h
  cases k with
  | write buf c =>
      obtain ⟨ret, hw, -⟩ := of_step_write hs
      obtain ⟨pot, next, hm, rfl⟩ := of_writeProc hw
      rw [hg.next] at hm
      have hshort : Short 2 n buf c := hg.next ▸ hk
      have hfront' := storeMessage_front hg.kept hfront hshort hm
      rcases good_writeProc hg hw with ⟨-, hg'⟩ | ⟨-, hg'⟩
      · rw [show next = n from hg'.next] at hfront'
        exact ⟨i, n, hg', hfront'⟩
      · rw [show next = (n + buf.length : ℕ) from hg'.next] at hfront'
        exact ⟨i, _, hg', hfront'⟩
  | read count offp c =>
      obtain ⟨r, hr, rfl, -⟩ := of_step_read hs
      obtain ⟨r', i', hr', hg'⟩ := good_readProc hg count offp c
      cases hr.symm.trans hr'
      exact ⟨i', n, hg', by rwa [readProc_pot hr]⟩

/-- A first message that is not short is stored, and its line does not fit. -/
lemma Fronted.overrun {s : State} {k : Call} (h : Fronted s) (hk : ¬ FirstShort s k) :
    ∃ e s', handlers.step s k = some (e, s') ∧ ¬ TmpFits s' := by
  obtain ⟨i, n, hg, -⟩ := h
  cases k with
  | read count offp c => exact absurd trivial hk
  | write buf c =>
      simp only [FirstShort, Short, not_forall, not_le] at hk
      obtain ⟨hzero, hfit, hwhole, hlong⟩ := hk
      have hn := hg.next
      have hle := hg.le
      have hindex : s.cookieIndex = 0 := by
        rw [hg.index]
        omega
      have hbuf : buf ≠ [] := by
        rintro rfl
        exact absurd hlong (by decide)
      obtain ⟨pot, hm, hstr⟩ := storeMessage_first hg.kept.length hfit hwhole hbuf
      have hpos := List.length_pos_iff.mpr hbuf
      refine ⟨((buf.length : ℤ), []), ⟨pot, 0, buf.length⟩, ?_, fun hfits => ?_⟩
      · rw [step_write, writeProc, hindex, hzero, hm, Option.map_some, Option.map_some]
      · have hnext : ¬ ((buf.length : ℤ) ≤ 0) := by omega
        obtain ⟨text, htext, hlen⟩ := hfits (by change (buf.length : ℤ) ≠ 0; omega)
        rw [State.wrapped, if_neg hnext, tmpText, hstr, Option.map_some] at htext
        rw [← Option.some.inj htext, List.length_append, List.length_singleton] at hlen
        omega

/-- A message that fits stays in the pot. -/
lemma step_of_fits {s : State} {i n : ℕ} (hg : Good s i n) {k : Call} (hne : Nonempty k)
    (hfit : n + k.size ≤ PAGE_SIZE) : ∃ e s' i' n', handlers.step s k = some (e, s')
      ∧ Good s' i' n' ∧ n' ≤ n + k.size := by
  have hclear : Clear s k := by
    cases k with
    | write buf c =>
        rw [Call.size] at hfit
        rw [Clear, hg.next]
        omega
    | read count offp c => trivial
  obtain ⟨e, s', hs⟩ := hg.step_of_clear hclear hne
  cases k with
  | write buf c =>
      obtain ⟨ret, hw, -⟩ := of_step_write hs
      rcases good_writeProc hg hw with ⟨-, hg'⟩ | ⟨-, hg'⟩
      · exact ⟨e, s', i, n, hs, hg', Nat.le_add_right _ _⟩
      · exact ⟨e, s', i, _, hs, hg', le_rfl⟩
  | read count offp c =>
      obtain ⟨r, hr, rfl, -⟩ := of_step_read hs
      obtain ⟨r', i', hr', hg'⟩ := good_readProc hg count offp c
      cases hr.symm.trans hr'
      exact ⟨e, _, i', n, hs, hg', Nat.le_add_right _ _⟩

/-- Messages that fit together stay in the pot. -/
lemma exec_of_fits {ks : List Call} (hne : ∀ k ∈ ks, Nonempty k)
    (hsum : (ks.map Call.size).sum ≤ PAGE_SIZE) :
    ∃ tr s, handlers.exec ks initProcModule = some (tr, s) := by
  obtain ⟨tr, s, n, he, -⟩ := Machine.exec_of_size (I := fun n s => ∃ i, Good s i n)
    ⟨0, good_init⟩ (fun n s k ⟨i, hg⟩ hk hfit => by
      obtain ⟨e, s', i', n', hs, hg', hn⟩ := step_of_fits hg hk hfit
      exact ⟨e, s', n', hs, ⟨i', hg'⟩, hn⟩) hne hsum
  exact ⟨tr, s, he⟩

lemma throughout_tmpFits (ks : List Call) :
    handlers.Throughout (fun _ s => TmpFits s) ks initProcModule
      ↔ handlers.Meets FirstShort ks initProcModule :=
  Machine.throughout_iff_meets (I := fun _ s => Fronted s)
    ⟨fronted_init.tmpFits, fronted_init⟩
    (fun _ _ _ _ _ _ h hk hs => ⟨(h.step hk hs).tmpFits, h.step hk hs⟩)
    (fun _ _ _ _ h hk => h.overrun hk)

end Proc

/-! ### `fort_seq.c` -/

namespace Seq

/-- The next read puts out the whole line of the text at the read offset. -/
def ShowsWhole (s : State) : Prop :=
  s.cookieIndex ≠ 0 → ∃ t r, cstr s.cookiePot s.wrapped = some t ∧ showSeq s = some r
    ∧ r.out = line t

/-- The message that comes to the front of the pot leaves room for the label, a newline and
a terminator. -/
def FirstShort (s : State) : Call → Prop
  | .write buf c => Short 7 s.cookieIndex buf c
  | .read => True

/-- A good state with a short text at the front, whose read offset is at the front or at
least a line behind it. -/
def Fronted (s : State) : Prop :=
  ∃ n f, Good s n f ∧ Front 7 s.cookiePot n ∧ (f = 0 ∨ 6 ≤ f) ∧ (n = 0 → f = 0)

lemma fronted_init : Fronted initSeqModule :=
  ⟨0, 0, good_init, fun h => absurd h (lt_irrefl 0), Or.inl rfl, fun _ => rfl⟩

/-- The text at the read offset is short. -/
lemma Fronted.text {s : State} (h : Fronted s) (hne : s.cookieIndex ≠ 0) :
    ∃ t, cstr s.cookiePot s.wrapped = some t ∧ t.length + 7 ≤ PAGE_SIZE := by
  obtain ⟨n, f, hg, hfront, hf, -⟩ := h
  have hn : 0 < n := by
    have := hg.index
    omega
  have hbound := hg.kept.bound
  rw [hg.wrapped_eq]
  rcases Nat.eq_zero_or_pos (if n ≤ f then 0 else f) with h0 | hpos
  · rw [h0]
    exact hfront hn
  · have hoff : 6 ≤ (if n ≤ f then 0 else f) ∧ (if n ≤ f then 0 else f) ≤ n - 1 := by
      split_ifs at hpos ⊢ with hw <;> omega
    obtain ⟨t, ht, hlen⟩ := cstr_of_getElem? hoff.2 (hg.kept.last hn)
    exact ⟨t, ht, by omega⟩

lemma Fronted.showsWhole {s : State} (h : Fronted s) : ShowsWhole s := by
  intro hne
  obtain ⟨t, ht, hlen⟩ := h.text hne
  refine ⟨t, _, ht, by rw [showSeq, if_neg hne, ht, Option.map_some], ?_⟩
  refine List.take_of_length_le ?_
  rw [line_length, MAX_COOKIE_LEN]
  omega

/-- A read that shows a line goes on by its length. -/
lemma Fronted.read {s : State} {r : ShowResult} (h : Fronted s) (hr : showSeq s = some r) :
    Fronted r.state := by
  rw [showSeq] at hr
  split_ifs at hr with h0
  · rw [← Option.some.inj hr]
    exact h
  · obtain ⟨t, ht, -⟩ := h.text h0
    obtain ⟨n, f, hg, hfront, hf, hzero⟩ := h
    rw [ht, Option.map_some] at hr
    obtain rfl := Option.some.inj hr
    refine ⟨n, (if n ≤ f then 0 else f) + (line t).length, ⟨hg.index, ?_, hg.kept⟩, hfront,
      Or.inr ?_, fun hn => ?_⟩
    · change s.wrapped + _ = _
      rw [hg.wrapped_eq, Nat.cast_add]
    · rw [line_length]
      omega
    · have := hg.index
      omega

lemma Fronted.step {s s' : State} {k : Call} {e : ℤ × List UInt8} (h : Fronted s)
    (hk : FirstShort s k) (hs : handlers.step s k = some (e, s')) : Fronted s' := by
  cases k with
  | write buf c =>
      obtain ⟨n, f, hg, hfront, hf, hzero⟩ := h
      obtain ⟨ret, hw, -⟩ := of_step_write hs
      obtain ⟨pot, next, hm, rfl⟩ := of_writeSeq hw
      rw [hg.index] at hm
      have hshort : Short 7 n buf c := hg.index ▸ hk
      have hfront' := storeMessage_front hg.kept hfront hshort hm
      rcases good_writeSeq hg hw with ⟨-, hg'⟩ | ⟨-, hg'⟩
      · rw [show next = n from hg'.index] at hfront'
        exact ⟨n, f, hg', hfront', hf, hzero⟩
      · rw [show next = (n + buf.length : ℕ) from hg'.index] at hfront'
        exact ⟨_, f, hg', hfront', hf, fun hn => hzero (by omega)⟩
  | read =>
      obtain ⟨r, hr, rfl, -⟩ := of_step_read hs
      exact h.read hr

/-- A first message that is not short is stored, and its line is cut off. -/
lemma Fronted.cut {s : State} {k : Call} (h : Fronted s) (hk : ¬ FirstShort s k) :
    ∃ e s', handlers.step s k = some (e, s') ∧ ¬ ShowsWhole s' := by
  obtain ⟨n, f, hg, -, -, hempty⟩ := h
  cases k with
  | read => exact absurd trivial hk
  | write buf c =>
      simp only [FirstShort, Short, not_forall, not_le] at hk
      obtain ⟨hzero, hfit, hwhole, hlong⟩ := hk
      have hn := hg.index
      have hnext : s.nextFortune = 0 := by
        rw [hg.next, hempty (by omega)]
        rfl
      have hbuf : buf ≠ [] := by
        rintro rfl
        exact absurd hlong (by decide)
      obtain ⟨pot, hm, hstr⟩ := storeMessage_first hg.kept.length hfit hwhole hbuf
      have hpos := List.length_pos_iff.mpr hbuf
      refine ⟨((buf.length : ℤ), []), ⟨pot, buf.length, 0⟩, ?_, fun hshows => ?_⟩
      · rw [step_write, writeSeq, hzero, hm, Option.map_some, Option.map_some, hnext]
      · -- the whole line would not fit into what is put out
        have hne : (buf.length : ℤ) ≠ 0 := by omega
        have hwrap : State.wrapped ⟨pot, buf.length, 0⟩ = 0 := ite_self 0
        obtain ⟨t, r, ht, hr, hout⟩ := hshows hne
        rw [showSeq, if_neg hne, ht, Option.map_some] at hr
        rw [hwrap, hstr] at ht
        cases ht
        rw [← Option.some.inj hr] at hout
        have hlen := congrArg List.length hout
        rw [List.length_take, line_length, MAX_COOKIE_LEN] at hlen
        omega

/-- The messages have at least one byte. -/
def Nonempty : Call → Prop
  | .write buf _ => buf ≠ []
  | .read => True

/-- The bytes a call asks to store. -/
def Call.size : Call → ℕ
  | .write buf _ => buf.length
  | .read => 0

/-- A message that fits stays in the pot. -/
lemma step_of_fits {s : State} {n f : ℕ} (hg : Good s n f) {k : Call} (hne : Nonempty k)
    (hfit : n + k.size ≤ PAGE_SIZE) : ∃ e s' n' f', handlers.step s k = some (e, s')
      ∧ Good s' n' f' ∧ n' ≤ n + k.size := by
  have hclear : Clear s k := by
    cases k with
    | write buf c =>
        have hpos : 0 < buf.length := List.length_pos_iff.mpr hne
        rw [Call.size] at hfit
        rw [Clear, hg.index]
        omega
    | read => trivial
  obtain ⟨e, s', hs⟩ := (hg.step_iff k).mpr hclear
  cases k with
  | write buf c =>
      obtain ⟨ret, hw, -⟩ := of_step_write hs
      rcases good_writeSeq hg hw with ⟨-, hg'⟩ | ⟨-, hg'⟩
      · exact ⟨e, s', n, f, hs, hg', Nat.le_add_right _ _⟩
      · exact ⟨e, s', _, f, hs, hg', le_rfl⟩
  | read =>
      obtain ⟨r, hr, rfl, -⟩ := of_step_read hs
      obtain ⟨r', f', hr', hg'⟩ := good_showSeq hg
      cases hr.symm.trans hr'
      exact ⟨e, _, n, f', hs, hg', Nat.le_add_right _ _⟩

/-- Messages that fit together stay in the pot. -/
lemma exec_of_fits {ks : List Call} (hne : ∀ k ∈ ks, Nonempty k)
    (hsum : (ks.map Call.size).sum ≤ PAGE_SIZE) :
    ∃ tr s, handlers.exec ks initSeqModule = some (tr, s) := by
  obtain ⟨tr, s, n, he, -⟩ := Machine.exec_of_size (I := fun n s => ∃ f, Good s n f)
    ⟨0, good_init⟩ (fun n s k ⟨f, hg⟩ hk hfit => by
      obtain ⟨e, s', n', f', hs, hg', hn⟩ := step_of_fits hg hk hfit
      exact ⟨e, s', n', hs, ⟨f', hg'⟩, hn⟩) hne hsum
  exact ⟨tr, s, he⟩

lemma throughout_showsWhole (ks : List Call) :
    handlers.Throughout (fun _ s => ShowsWhole s) ks initSeqModule
      ↔ handlers.Meets FirstShort ks initSeqModule :=
  Machine.throughout_iff_meets (I := fun _ s => Fronted s)
    ⟨fronted_init.showsWhole, fronted_init⟩
    (fun _ _ _ _ _ _ h hk hs => ⟨(h.step hk hs).showsWhole, h.step hk hs⟩)
    (fun _ _ _ _ h hk => h.cut hk)

end Seq

/-! ### Both modules -/

/-- The first calls of a sequence that fits, fit. -/
lemma sum_size_le {κ : Type*} (size : κ → ℕ) {js ks : List κ} (h : js <+: ks) :
    (js.map size).sum ≤ (ks.map size).sum := by
  obtain ⟨rest, rfl⟩ := h
  rw [List.map_append, List.sum_append]
  exact Nat.le_add_right _ _

/-- **The defect of the formatting buffers, exactly**: along sequences of writes of messages
that fit the pot together and reads, the text that `read__proc` formats always fits `tmp`
with its terminator just when every message that comes to the front of the pot leaves room
for two more bytes; and what `show__seq` puts out is always the whole line just when every
such message leaves room for seven. -/
theorem formatted_iff (ks : List Proc.Call) (hne : ∀ k ∈ ks, Proc.Nonempty k)
    (hsum : (ks.map Proc.Call.size).sum ≤ PAGE_SIZE) (ks' : List Seq.Call)
    (hne' : ∀ k ∈ ks', Seq.Nonempty k) (hsum' : (ks'.map Seq.Call.size).sum ≤ PAGE_SIZE) :
    ((∀ js, js <+: ks → ∃ tr s, Proc.handlers.exec js Proc.initProcModule = some (tr, s)
        ∧ Proc.TmpFits s) ↔ Proc.handlers.Meets Proc.FirstShort ks Proc.initProcModule)
      ∧ ((∀ js, js <+: ks' → ∃ tr s, Seq.handlers.exec js Seq.initSeqModule = some (tr, s)
        ∧ Seq.ShowsWhole s) ↔ Seq.handlers.Meets Seq.FirstShort ks' Seq.initSeqModule) := by
  constructor
  · rw [← Proc.throughout_tmpFits, Machine.throughout_iff_exec]
    intro js hjs
    exact Proc.exec_of_fits (fun k hk => hne k (hjs.subset hk))
      ((sum_size_le _ hjs).trans hsum)
  · rw [← Seq.throughout_showsWhole, Machine.throughout_iff_exec]
    intro js hjs
    exact Seq.exec_of_fits (fun k hk => hne' k (hjs.subset hk))
      ((sum_size_le _ hjs).trans hsum')

/-- A short cookie is written to each module and read. -/
theorem formatted_iff_two_calls :
    ((∀ js, js <+: [.write [97, 10] .complete, .read 16 0 .complete] →
        ∃ tr s, Proc.handlers.exec js Proc.initProcModule = some (tr, s) ∧ Proc.TmpFits s)
      ↔ Proc.handlers.Meets Proc.FirstShort [.write [97, 10] .complete, .read 16 0 .complete]
        Proc.initProcModule)
      ∧ ((∀ js, js <+: [.write [97, 10] .complete, .read] →
        ∃ tr s, Seq.handlers.exec js Seq.initSeqModule = some (tr, s) ∧ Seq.ShowsWhole s)
      ↔ Seq.handlers.Meets Seq.FirstShort [.write [97, 10] .complete, .read]
        Seq.initSeqModule) :=
  formatted_iff _ (by simp [Proc.Nonempty]) (by simp [Proc.Call.size, PAGE_SIZE])
    _ (by simp [Seq.Nonempty]) (by simp [Seq.Call.size, PAGE_SIZE])

/-- A message that fills the pot, without a terminator. -/
def fullMessage : List UInt8 := List.replicate 4095 97 ++ [10]

lemma not_short_fullMessage (hd : 2 ≤ d) : ¬ Short d 0 fullMessage .complete := by
  intro h
  have hclean : (0 : UInt8) ∉ List.replicate 4095 97 := fun h0 =>
    absurd (List.eq_of_mem_replicate h0) (by decide)
  have htext : (textOf fullMessage).length = 4095 := by
    rw [textOf, fullMessage, List.dropLast_concat, List.takeWhile_eq_self_iff.mpr,
      List.length_replicate]
    exact fun x hx => decide_eq_true fun h0 => hclean (h0 ▸ hx)
  have hfit : fullMessage.length ≤ PAGE_SIZE := by
    rw [fullMessage, List.length_append, List.length_replicate]
    rfl
  have hroom := h rfl hfit trivial
  rw [htext, PAGE_SIZE] at hroom
  omega

/-- One message that fills the pot: its line with the terminator has a byte more than `tmp`
in `fort_proc.c`, and is cut off in `fort_seq.c`. -/
theorem full_message_unformatted :
    (¬ ∀ js, js <+: [.write fullMessage .complete, .read 4097 0 .complete] →
        ∃ tr s, Proc.handlers.exec js Proc.initProcModule = some (tr, s) ∧ Proc.TmpFits s)
      ∧ ¬ ∀ js, js <+: [.write fullMessage .complete, .read] →
        ∃ tr s, Seq.handlers.exec js Seq.initSeqModule = some (tr, s) ∧ Seq.ShowsWhole s := by
  constructor
  · obtain ⟨e, s, hstep, hnot⟩ := Proc.fronted_init.overrun (k := .write fullMessage .complete)
      (not_short_fullMessage le_rfl)
    exact Machine.not_forall_exec hstep hnot _
  · obtain ⟨e, s, hstep, hnot⟩ := Seq.fronted_init.cut (k := .write fullMessage .complete)
      (not_short_fullMessage (by decide))
    exact Machine.not_forall_exec hstep hnot _

end Fortune

end OperatingSys
