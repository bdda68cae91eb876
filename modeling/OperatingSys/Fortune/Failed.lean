import OperatingSys.Foundations.TwoRuns
import OperatingSys.Fortune.Proc
import OperatingSys.Fortune.Seq

/-!
What a failed call of the fortune modules leaves behind.

A write that fails may have overwritten any bytes behind the write offset. The
strings that are read end below it, and the next message that is stored begins at
it, so two states with the same offsets whose pots agree below the write offset
(`Twins`) are never told apart (`Seq.step_twins`, `Proc.step_twins`). A failed write
leaves the state in such a pair with the one before it (`exec_after_failed`).

A read of `fort_proc.c` that fails has set its offset back at most, and the next
one starts from the same cookie (`Proc.reads_keep_cookie`).
-/

namespace OperatingSys

namespace Fortune

/-! ### Storing a message in two pots -/

lemma copyFromUser_alike {pot pot' : List UInt8} {n : ℕ} (h : Alike n pot pot')
    (src : List UInt8) (c : UserCopy) :
    Option.Rel (fun p q => p.1 = q.1 ∧ Alike (n + src.length) p.2 q.2)
      (copyFromUser pot n src c) (copyFromUser pot' n src c) := by
  cases c with
  | complete => exact rel_map (fun _ _ hab => ⟨rfl, hab⟩) (h.blit src)
  | fault copied left =>
      refine rel_map (fun _ _ hab => ⟨rfl, hab.mono ?_⟩) (h.blit _)
      simp only [List.length_append, List.length_take, List.length_map, List.length_range]
      omega

/-- The same value and offset, and pots that agree below it. -/
def SameStored (p q : ℤ × List UInt8 × ℤ) : Prop :=
  p.1 = q.1 ∧ p.2.2 = q.2.2 ∧ ∃ n : ℕ, p.2.2 = n ∧ Alike n p.2.1 q.2.1

/-- A message is stored alike in two pots that agree below the offset it goes to. -/
lemma storeMessage_alike {pot pot' : List UInt8} {n : ℕ} (h : Alike n pot pot')
    (hlen : pot.length = PAGE_SIZE) (check : ℤ) (buf : List UInt8) (c : UserCopy) :
    Option.Rel SameStored (storeMessage pot check n buf c) (storeMessage pot' check n buf c) := by
  by_cases hfit : n + buf.length ≤ PAGE_SIZE
  · simp only [storeMessage]
    split_ifs with hov
    · exact .some ⟨rfl, rfl, n, rfl, h⟩
    refine rel_bind ?_ (copyFromUser_alike h buf c)
    rintro ⟨left, q⟩ ⟨left', q'⟩ ⟨hl, hq⟩
    obtain rfl : left = left' := hl
    dsimp only
    split_ifs with hleft
    · exact .some ⟨rfl, rfl, n, rfl, hq.mono (Nat.le_add_right _ _)⟩
    · rw [advance_eq hfit]
      exact rel_map (fun _ _ hab => ⟨rfl, rfl, n + buf.length, rfl, hab⟩)
        (hq.poke (by omega) 0)
  · have hlen' := h.length_eq
    have hnone : ∀ m : List UInt8, m.length = PAGE_SIZE → copyFromUser m n buf c = none :=
      fun m hm => copyFromUser_eq_none_iff.mpr (by omega)
    simp only [storeMessage, hnone pot hlen, hnone pot' (by omega), Option.bind_none]
    split_ifs with hov
    · exact .some ⟨rfl, rfl, n, rfl, h⟩
    · exact .none

/-- A failed store leaves the offset and the bytes below it. -/
lemma storeMessage_failed {pot pot' : List UInt8} {check offset : ℤ} {n : ℕ} {next : ℤ}
    {buf : List UInt8} {c : UserCopy} {ret : ℤ} (hoff : offset = n) (hn : n ≤ pot.length)
    (hret : ret = -ENOSPC ∨ ret = -EFAULT)
    (h : storeMessage pot check offset buf c = some (ret, pot', next)) :
    next = offset ∧ Alike n pot' pot := by
  subst hoff
  rw [storeMessage] at h
  split_ifs at h with hov
  · simp only [Option.some.injEq, Prod.mk.injEq] at h
    obtain ⟨-, rfl, rfl⟩ := h
    exact ⟨rfl, .refl hn⟩
  · obtain ⟨⟨left, q⟩, hc, hq⟩ := Option.bind_eq_some_iff.mp h
    obtain ⟨hlen, hframe, -⟩ := copyFromUser_frame hc
    dsimp only at hq
    split_ifs at hq with hleft
    · simp only [Option.some.injEq, Prod.mk.injEq] at hq
      obtain ⟨-, rfl, rfl⟩ := hq
      exact ⟨rfl, .of_agree hlen hn hframe⟩
    · obtain ⟨q', -, he⟩ := Option.map_eq_some_iff.mp hq
      -- a store that is made returns a length
      simp only [Prod.mk.injEq] at he
      have hpos : (0 : ℤ) ≤ ret := by omega
      rcases hret with rfl | rfl <;> exact absurd hpos (by decide)

/-! ### Two states that are never told apart -/

section Twins

variable {σ κ : Type*}

/-- Two states nobody can tell apart: the same offsets, and pots that agree below
the write offset. -/
structure Twins (pot : σ → List UInt8) (write read : σ → ℤ) (s s' : σ) : Prop where
  writes : write s = write s'
  reads : read s = read s'
  alike : ∃ n : ℕ, write s = n ∧ Alike n (pot s) (pot s')

variable {pot : σ → List UInt8} {write read : σ → ℤ} {M : Machine σ κ (ℤ × List UInt8)}
  {G : σ → Prop}

/-- A failed store leaves a twin. -/
lemma twins_of_storeMessage {s s' : σ} {check : ℤ} {n : ℕ} {buf : List UInt8} {c : UserCopy}
    {ret : ℤ} (hwrite : write s = n) (hn : n ≤ (pot s).length)
    (hret : ret = -ENOSPC ∨ ret = -EFAULT)
    (h : storeMessage (pot s) check (write s) buf c = some (ret, pot s', write s'))
    (hread : read s' = read s) : Twins pot write read s' s := by
  obtain ⟨hsame, halike⟩ := storeMessage_failed hwrite hn hret h
  exact ⟨hsame, hread, n, hsame.trans hwrite, halike⟩

/-- After a call that leaves a twin every later sequence of calls goes as without it, where `G`
holds of all states and twins answer alike. -/
lemma exec_after_failed
    (hgood : ∀ s k e s', G s → M.step s k = some (e, s') → G s')
    (htwins : ∀ s s' k, G s → Twins pot write read s s' →
      Option.Rel (Machine.Same (Twins pot write read)) (M.step s k) (M.step s' k))
    {s s' : σ} {k : κ} {e : ℤ × List UInt8} (hs : G s) (h : M.step s k = some (e, s'))
    (htwin : Twins pot write read s' s) (ks : List κ) :
    (M.exec ks s').map Prod.fst = (M.exec ks s).map Prod.fst :=
  Machine.exec_trace_eq hgood htwins (hgood s k e s' hs h) htwin ks

end Twins

/-! ### The sequence file -/

namespace Seq

/-- Every call is the same for twins. -/
lemma step_twins {s s' : State} {n f : ℕ} (hg : Good s n f)
    (h : Twins State.cookiePot State.cookieIndex State.nextFortune s s') (k : Call) :
    Option.Rel (Machine.Same (Twins State.cookiePot State.cookieIndex State.nextFortune))
      (handlers.step s k) (handlers.step s' k) := by
  obtain ⟨hi, hf, m, hm, ha⟩ := h
  obtain rfl : m = n := by
    have := hg.index
    omega
  cases k with
  | write buf c =>
      rw [step_write, step_write, writeSeq, writeSeq, ← hi, hm, Option.map_map, Option.map_map]
      refine rel_map ?_ (storeMessage_alike ha hg.kept.length m buf c)
      rintro ⟨ret, pot, index⟩ ⟨ret', pot', index'⟩ ⟨hr, hx, hp⟩
      exact ⟨congrArg (·, []) hr, hx, hf, hp⟩
  | read =>
      have hw : s'.wrapped = s.wrapped := by
        rw [State.wrapped, State.wrapped, hi, hf]
      rw [step_read, step_read, showSeq, showSeq, ← hi, hw]
      split_ifs with h0
      · exact .some ⟨rfl, hi, hf, m, hm, ha⟩
      · -- the string that is shown ends below the write offset
        rw [hm] at h0
        have hlt : (if m ≤ f then 0 else f) ≤ m - 1 := by split_ifs <;> omega
        rw [hg.wrapped_eq, ← ha.cstr_eq hlt (by omega) (hg.kept.last (by omega))]
        obtain ⟨t, ht, -⟩ := cstr_of_getElem? hlt (hg.kept.last (by omega))
        rw [ht]
        exact .some ⟨rfl, rfl, rfl, m, hm, ha⟩

/-- A failed write leaves a twin. -/
lemma twins_of_failed {s s' : State} {n f : ℕ} (hg : Good s n f) {buf : List UInt8}
    {c : UserCopy} {ret : ℤ} (hw : writeSeq s buf c = some (ret, s'))
    (hret : ret = -ENOSPC ∨ ret = -EFAULT) :
    Twins State.cookiePot State.cookieIndex State.nextFortune s' s := by
  obtain ⟨pot, index, ho, rfl⟩ := of_writeSeq hw
  have hb := hg.kept.bound
  have hlen := hg.kept.length
  exact twins_of_storeMessage hg.index (by omega) hret ho rfl

lemma good_reachable {s : State} (h : handlers.Reachable initSeqModule s) : ∃ n f, Good s n f :=
  h.invariant (I := fun s => ∃ n f, Good s n f) ⟨0, 0, good_init⟩
    fun _ _ _ _ ⟨_, _, hg⟩ hstep => good_step hg hstep

end Seq

/-! ### The proc file -/

namespace Proc

/-- Every call is the same for twins. -/
lemma step_twins {s s' : State} {i n : ℕ} (hg : Good s i n)
    (h : Twins State.cookiePot State.nextFortune State.cookieIndex s s') (k : Call) :
    Option.Rel (Machine.Same (Twins State.cookiePot State.nextFortune State.cookieIndex))
      (handlers.step s k) (handlers.step s' k) := by
  obtain ⟨hf, hi, m, hm, ha⟩ := h
  obtain rfl : m = n := by
    have := hg.next
    omega
  cases k with
  | write buf c =>
      rw [step_write, step_write, writeProc, writeProc, ← hi, ← hf, hm, Option.map_map,
        Option.map_map]
      refine rel_map ?_ (storeMessage_alike ha hg.kept.length s.cookieIndex buf c)
      rintro ⟨ret, pot, next⟩ ⟨ret', pot', next'⟩ ⟨hr, hx, hp⟩
      exact ⟨congrArg (·, []) hr, hx, rfl, hp⟩
  | read count offp c =>
      have hw : s'.wrapped = s.wrapped := by
        rw [State.wrapped, State.wrapped, hi, hf]
      rw [step_read, step_read, readProc, readProc, ← hf]
      split_ifs with h0
      · -- nothing is delivered
        exact .some ⟨rfl, hf, hi, m, hm, ha⟩
      · -- the string that is delivered ends below the write offset
        have hpos : 0 < m := by
          have := (not_or.mp h0).2
          omega
        obtain ⟨j, hj, hjm⟩ := hg.wrapped_eq hpos
        have hlast := hg.kept.last hpos
        rw [hw, hj, tmpText, tmpText, ← ha.cstr_eq (by omega) (by omega) hlast]
        obtain ⟨t, ht, -⟩ := cstr_of_getElem? (n := j) (by omega) hlast
        rw [ht]
        simp only [Option.map_some, deliver, hw]
        split_ifs with hcopy
        · exact .some ⟨rfl, hf, rfl, m, hm, ha⟩
        · exact .some ⟨rfl, hf, rfl, m, hm, ha⟩

/-- A failed write leaves a twin. -/
lemma twins_of_failed {s s' : State} {i n : ℕ} (hg : Good s i n) {buf : List UInt8}
    {c : UserCopy} {ret : ℤ} (hw : writeProc s buf c = some (ret, s'))
    (hret : ret = -ENOSPC ∨ ret = -EFAULT) :
    Twins State.cookiePot State.nextFortune State.cookieIndex s' s := by
  obtain ⟨pot, next, ho, rfl⟩ := of_writeProc hw
  have hb := hg.kept.bound
  have hlen := hg.kept.length
  exact twins_of_storeMessage hg.next (by omega) hret ho rfl

lemma good_of_step {s s' : State} {k : Call} {e : ℤ × List UInt8} (hs : ∃ i n, Good s i n)
    (h : handlers.step s k = some (e, s')) : ∃ i n, Good s' i n := by
  obtain ⟨i, n, hg⟩ := hs
  cases k with
  | write buf c =>
      obtain ⟨ret, hw, -⟩ := of_step_write h
      rcases good_writeProc hg hw with ⟨-, hg'⟩ | ⟨-, hg'⟩
      · exact ⟨i, n, hg'⟩
      · exact ⟨i, n + buf.length, hg'⟩
  | read count offp c =>
      obtain ⟨r, hr, rfl, -⟩ := of_step_read h
      obtain ⟨r', i', hr', hg'⟩ := good_readProc hg count offp c
      obtain rfl := Option.some.inj (hr.symm.trans hr')
      exact ⟨i', n, hg'⟩

lemma good_reachable {s : State} (h : handlers.Reachable initProcModule s) :
    ∃ i n, Good s i n :=
  h.invariant (I := fun s => ∃ i n, Good s i n) ⟨0, 0, good_init⟩
    fun _ _ _ _ hs hstep => good_of_step hs hstep

/-! ### A failed read -/

/-- A call that may come between a failed read and the next first read that
succeeds: a read that fails or is not the first one of its open. -/
def Between : Call × ℤ × List UInt8 → Prop
  | (.write _ _, _) => False
  | (.read _ offp _, ret, _) => 0 < offp ∨ ret = -EFAULT

/-- The next first read finds the same cookie. -/
structure SameCookie (s t : State) : Prop where
  pot : t.cookiePot = s.cookiePot
  next : t.nextFortune = s.nextFortune
  wrapped : t.wrapped = s.wrapped

lemma State.wrapped_wrapped (s : State) :
    State.wrapped { s with cookieIndex := s.wrapped } = s.wrapped := by
  simp only [State.wrapped]
  split_ifs <;> rfl

/-- What a read that delivers something returns is not the error. -/
lemma deliver_ret {s : State} {tmp : List UInt8} {offp : ℤ} {c : UserCopy}
    (h : (deliver s tmp offp c).ret ≠ -EFAULT) :
    (deliver s tmp offp c).ret = tmp.length ∧ (deliver s tmp offp c).out = tmp := by
  have hall : (copyToUser tmp c).1 = 0 → (copyToUser tmp c).2 = tmp := by
    cases c with
    | complete => exact fun _ => rfl
    | fault copied left => exact fun h0 => List.take_of_length_le (Nat.sub_eq_zero_iff_le.mp h0)
  rw [deliver] at h ⊢
  split_ifs at h ⊢ with h0
  · exact absurd rfl h
  · exact ⟨rfl, hall (not_not.mp h0)⟩

/-- A read that fails, or is not a first one, leaves the next cookie. -/
lemma sameCookie_readProc {s : State} {count : ℕ} {offp : ℤ} {c : UserCopy} {r : ReadResult}
    (h : readProc s count offp c = some r) (hb : 0 < offp ∨ r.ret = -EFAULT) :
    SameCookie s r.state := by
  rw [readProc] at h
  split_ifs at h with h0
  · obtain rfl := Option.some.inj h
    exact ⟨rfl, rfl, rfl⟩
  · obtain ⟨tmp, -, rfl⟩ := Option.map_eq_some_iff.mp h
    have hret := hb.resolve_left (not_or.mp h0).1
    rw [deliver] at hret ⊢
    split_ifs at hret ⊢ with hcopy
    · exact ⟨rfl, rfl, s.wrapped_wrapped⟩
    · have hneg : (tmp.length : ℤ) = -EFAULT := hret
      rw [EFAULT] at hneg
      omega

lemma SameCookie.trans {s t u : State} (h : SameCookie s t) (h' : SameCookie t u) :
    SameCookie s u :=
  ⟨h'.pot.trans h.pot, h'.next.trans h.next, h'.wrapped.trans h.wrapped⟩

/-- Calls that may come between leave the next cookie. -/
lemma sameCookie_exec {ks : List Call} {s t : State} {tr : List (Call × ℤ × List UInt8)}
    (h : handlers.exec ks s = some (tr, t)) (hb : ∀ q ∈ tr, Between q) : SameCookie s t := by
  refine (Machine.run_of_exec h).induct_trace
    (I := fun tr t => (∀ q ∈ tr, Between q) → SameCookie s t) (fun _ => ⟨rfl, rfl, rfl⟩)
    (fun tr t k e u ih hstep hb => ?_) hb
  have hk : Between (k, e) := hb _ (by simp)
  refine (ih fun q hq => hb q (List.mem_append_left _ hq)).trans ?_
  cases k with
  | write buf c => exact hk.elim
  | read count offp c =>
      obtain ⟨r, hr, rfl, rfl⟩ := of_step_read hstep
      exact sameCookie_readProc hr hk

/-- A first read that delivers something delivers the cookie at the read offset. -/
lemma readProc_ret {s : State} {count : ℕ} {offp : ℤ} {c : UserCopy} {r : ReadResult}
    {tmp : List UInt8} (hoff : ¬ 0 < offp) (hn : s.nextFortune ≠ 0)
    (ht : tmpText s.cookiePot s.wrapped = some tmp)
    (h : readProc s count offp c = some r) (hok : r.ret ≠ -EFAULT) :
    r.ret = tmp.length ∧ r.out = tmp := by
  rw [readProc, if_neg (not_or.mpr ⟨hoff, hn⟩), ht, Option.map_some] at h
  obtain rfl := Option.some.inj h
  exact deliver_ret hok

/-- **A failed read keeps its cookie**: the next first read that succeeds, if no write
comes between, delivers what the failed one would have delivered. -/
lemma reads_keep_cookie {s t : State} {count count' : ℕ} {offp offp' : ℤ} {c c' : UserCopy}
    {r r' : ReadResult} {ks : List Call} {tr : List (Call × ℤ × List UInt8)}
    (h : readProc s count offp c = some r) (hfail : r.ret = -EFAULT)
    (he : handlers.exec ks r.state = some (tr, t)) (hb : ∀ q ∈ tr, Between q)
    (hoff' : ¬ 0 < offp') (h' : readProc t count' offp' c' = some r') (hok : r'.ret ≠ -EFAULT) :
    ∃ r₀, readProc s count offp .complete = some r₀ ∧ r'.ret = r₀.ret ∧ r'.out = r₀.out := by
  have hsame := (sameCookie_readProc h (Or.inr hfail)).trans (sameCookie_exec he hb)
  by_cases h0 : 0 < offp ∨ s.nextFortune = 0
  · rw [readProc, if_pos h0] at h
    obtain rfl := Option.some.inj h
    have hzero : (0 : ℤ) = -EFAULT := hfail
    exact absurd hzero (by decide)
  · obtain ⟨hoff, hn⟩ := not_or.mp h0
    have hread := h
    rw [readProc, if_neg h0] at hread
    obtain ⟨tmp, ht, -⟩ := Option.map_eq_some_iff.mp hread
    have ht' : tmpText t.cookiePot t.wrapped = some tmp := by
      rw [hsame.pot, hsame.wrapped, ht]
    obtain ⟨hret', hout'⟩ := readProc_ret hoff' (hsame.next ▸ hn) ht' h' hok
    refine ⟨deliver s tmp offp .complete, ?_, hret', hout'⟩
    rw [readProc, if_neg h0, ht, Option.map_some]

end Proc

/-- **Failed calls lose nothing**: after a failed write of either module every later
sequence of calls returns and puts out what it would have without it, and a failed
read of the proc file keeps its cookie for the next one. -/
theorem failed_calls_lose_nothing :
    (∀ s, Seq.handlers.Reachable Seq.initSeqModule s → ∀ buf c ret s',
      Seq.writeSeq s buf c = some (ret, s') → ret = -ENOSPC ∨ ret = -EFAULT →
      ∀ ks, (Seq.handlers.exec ks s').map Prod.fst = (Seq.handlers.exec ks s).map Prod.fst)
    ∧ (∀ s, Proc.handlers.Reachable Proc.initProcModule s → ∀ buf c ret s',
      Proc.writeProc s buf c = some (ret, s') → ret = -ENOSPC ∨ ret = -EFAULT →
      ∀ ks, (Proc.handlers.exec ks s').map Prod.fst = (Proc.handlers.exec ks s).map Prod.fst)
    ∧ (∀ s, Proc.handlers.Reachable Proc.initProcModule s → ∀ count offp c r,
      Proc.readProc s count offp c = some r → r.ret = -EFAULT →
      ∀ ks tr t, Proc.handlers.exec ks r.state = some (tr, t) → (∀ q ∈ tr, Proc.Between q) →
      ∀ count' offp' c' r', ¬ 0 < offp' → Proc.readProc t count' offp' c' = some r' →
      r'.ret ≠ -EFAULT →
      ∃ r₀, Proc.readProc s count offp .complete = some r₀ ∧ r'.ret = r₀.ret
        ∧ r'.out = r₀.out) := by
  refine ⟨fun s h buf c ret s' hw hret => ?_, fun s h buf c ret s' hw hret => ?_,
    fun _ _ _ _ _ _ h hfail _ _ _ he hb _ _ _ _ hoff h' hok =>
      Proc.reads_keep_cookie h hfail he hb hoff h' hok⟩
  · -- the failed write leaves a twin of the state before
    obtain ⟨n, f, hg⟩ := Seq.good_reachable h
    have hstep : Seq.handlers.step s (.write buf c) = some ((ret, []), s') := by
      rw [Seq.step_write, hw]
      rfl
    exact exec_after_failed (G := fun s => ∃ n f, Seq.Good s n f)
      (fun _ _ _ _ ⟨_, _, hg⟩ hs => Seq.good_step hg hs)
      (fun _ _ k ⟨_, _, hg⟩ ht => Seq.step_twins hg ht k) ⟨n, f, hg⟩ hstep
      (Seq.twins_of_failed hg hw hret)
  · obtain ⟨i, n, hg⟩ := Proc.good_reachable h
    have hstep : Proc.handlers.step s (.write buf c) = some ((ret, []), s') := by
      rw [Proc.step_write, hw]
      rfl
    exact exec_after_failed (G := fun s => ∃ i n, Proc.Good s i n)
      (fun _ _ _ _ hs hstep => Proc.good_of_step hs hstep)
      (fun _ _ k ⟨_, _, hg⟩ ht => Proc.step_twins hg ht k) ⟨i, n, hg⟩ hstep
      (Proc.twins_of_failed hg hw hret)

/-- A message that fits and is copied in part fails. -/
lemma storeMessage_fault (pot buf : List UInt8) (check n copied : ℕ) (left : ℕ → UInt8)
    (hc : check + buf.length ≤ PAGE_SIZE) (hfit : n + buf.length ≤ pot.length)
    (hcopied : copied < buf.length) : ∃ pot', storeMessage pot check n buf (.fault copied left)
      = some (-EFAULT, pot', (n : ℤ)) := by
  have hov : overflows check buf.length = false := by
    rw [overflows_eq (by omega), decide_eq_false_iff_not]
    omega
  have hleft : buf.length - copied ≠ 0 := by omega
  cases hb : blit pot n (buf.take copied ++ (List.range (buf.length - copied)).map left) with
  | none =>
      rw [blit_eq_none_iff] at hb
      simp only [List.length_append, List.length_take, List.length_map, List.length_range] at hb
      omega
  | some pot' =>
      refine ⟨pot', ?_⟩
      simp only [storeMessage, hov, copyFromUser, hb, Option.map_some, Option.bind_some]
      rw [if_neg Bool.false_ne_true, if_pos hleft]

/-- The cookie `"a\n"` in an empty pot. -/
lemma writeProc_first : ∃ rest, Proc.writeProc Proc.initProcModule [97, 10] .complete
    = some (2, ⟨97 :: 0 :: rest, 0, 2⟩) := by
  have hrow := storeMessage_row (L := []) (m := [97, 10]) (i := 0)
    (show ([] ++ List.replicate MAX_COOKIE_LEN (0 : UInt8)).length = PAGE_SIZE from
      List.length_replicate) (Nat.zero_le _) (by decide) (by decide)
  exact ⟨_, congrArg (Option.map _) hrow⟩

/-- It is the line a read makes. -/
lemma readProc_first (rest : List UInt8) (c : UserCopy) :
    Proc.readProc ⟨97 :: 0 :: rest, 0, 2⟩ 16 0 c
      = some (Proc.deliver ⟨97 :: 0 :: rest, 0, 2⟩ [97, 10] 0 c) := by
  have hstr : cstr (97 :: 0 :: rest : List UInt8) 0 = some [97] :=
    (cstr_front (by decide) rest : cstr ([97] ++ 0 :: rest) 0 = some [97])
  have htmp : Proc.tmpText (97 :: 0 :: rest) 0 = some [97, 10] :=
    congrArg (Option.map (· ++ [10])) hstr
  rw [Proc.readProc, if_neg (by simp)]
  exact congrArg (Option.map _) htmp

/-- A first write of `"a\n"` of which one byte arrives; and a cookie `"a\n"`, read first
with a fault and then without. -/
theorem failed_calls_lose_nothing_first_write :
    (∃ s', Seq.writeSeq Seq.initSeqModule [97, 10] (.fault 1 fun _ => 7) = some (-EFAULT, s')
      ∧ ∀ ks, (Seq.handlers.exec ks s').map Prod.fst
        = (Seq.handlers.exec ks Seq.initSeqModule).map Prod.fst)
    ∧ (∃ s', Proc.writeProc Proc.initProcModule [97, 10] (.fault 1 fun _ => 7)
        = some (-EFAULT, s')
      ∧ ∀ ks, (Proc.handlers.exec ks s').map Prod.fst
        = (Proc.handlers.exec ks Proc.initProcModule).map Prod.fst)
    ∧ (∃ s r, Proc.handlers.Reachable Proc.initProcModule s
      ∧ Proc.readProc s 16 0 (.fault 1 fun _ => 7) = some r ∧ r.ret = -EFAULT
      ∧ ∃ r', Proc.readProc r.state 16 0 .complete = some r'
      ∧ ∃ r₀, Proc.readProc s 16 0 .complete = some r₀ ∧ r'.ret = r₀.ret ∧ r'.out = r₀.out) := by
  have hfault := storeMessage_fault (List.replicate MAX_COOKIE_LEN 0) [97, 10] 0 0 1 (fun _ => 7)
    (by decide) (by rw [List.length_replicate]; decide) (by decide)
  obtain ⟨pot, hpot⟩ := hfault
  refine ⟨⟨⟨pot, 0, 0⟩, congrArg (Option.map _) hpot, ?_⟩,
    ⟨⟨pot, 0, 0⟩, congrArg (Option.map _) hpot, ?_⟩, ?_⟩
  · exact failed_calls_lose_nothing.1 _ (.refl _) [97, 10] (.fault 1 fun _ => 7) (-EFAULT) _
      (congrArg (Option.map _) hpot) (Or.inr rfl)
  · exact failed_calls_lose_nothing.2.1 _ (.refl _) [97, 10] (.fault 1 fun _ => 7) (-EFAULT) _
      (congrArg (Option.map _) hpot) (Or.inr rfl)
  · obtain ⟨rest, hw⟩ := writeProc_first
    have hreach : Proc.handlers.Reachable Proc.initProcModule ⟨97 :: 0 :: rest, 0, 2⟩ :=
      (Machine.Reachable.refl _).step (i := .write [97, 10] .complete)
        (by rw [Proc.step_write, hw]; rfl)
    have hfirst := readProc_first rest (.fault 1 fun _ => 7)
    have hsecond := readProc_first rest .complete
    exact ⟨_, _, hreach, hfirst, rfl, _, hsecond,
      failed_calls_lose_nothing.2.2 _ hreach 16 0 _ _ hfirst rfl [] [] _ rfl (by simp) 16 0
        .complete _ (lt_irrefl 0) hsecond (show (2 : ℤ) ≠ -EFAULT by decide)⟩

end Fortune

end OperatingSys
