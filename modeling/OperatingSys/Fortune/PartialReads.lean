import OperatingSys.Fortune.Added
import OperatingSys.Fortune.Store

/-!
Reading a cookie of `fort_proc.c` in pieces.

In every state that is reached the pot is a row of cookies (`stocked_of_reachable`), also
after messages with terminators inside and after failed calls. `read__proc` does not look at
`count`: the first read of an open file delivers the whole next cookie and the second one
nothing, so a reader gets what it asks for just when the cookie and its newline fit the
count of its first call (`pieces_kept_iff`).
-/

namespace OperatingSys

namespace Fortune

namespace Proc

variable {st : Store} {s s' : State}

/-! ### The pot is a row of cookies -/

/-- A row is closed. -/
lemma closed_terminated (L : List (List UInt8)) : Closed (terminated L) := by
  induction L with
  | nil => exact closed_nil
  | cons t L ih =>
      have hfirst : Closed (t ++ [0]) := by simp [Closed]
      have hrow : terminated (t :: L) = (t ++ [0]) ++ terminated L := by simp
      rw [hrow]
      exact hfirst.append ih

/-- What a write adds is a row. -/
lemma exists_added (buf : List UInt8) (ret : ℤ) :
    ∃ L, terminated L = added buf ret ∧ ∀ t ∈ L, (0 : UInt8) ∉ t := by
  rw [added, stored]
  split_ifs
  · exact ⟨[], rfl, by simp⟩
  · exact exists_terminated buf.dropLast
  · exact ⟨[], rfl, by simp⟩

lemma Stocked.write_kept (hs : Stocked st s) {buf : List UInt8} {c : UserCopy} {ret : ℤ}
    (h : writeProc s buf c = some (ret, s')) : ∃ st', Stocked st' s' := by
  obtain ⟨pot, next, hm, rfl⟩ := of_writeProc h
  obtain ⟨rest, hpot⟩ := hs.pot
  have hsize := hs.size
  have hlen := storeMessage_length hm
  rw [hpot] at hsize
  rw [hpot, hs.next] at hm
  obtain ⟨⟨rest', hpot'⟩, hnext⟩ := storeMessage_added hsize (closed_terminated st.cookies) hm
  obtain ⟨L, hL, hclean⟩ := exists_added buf ret
  refine ⟨⟨st.cookies ++ L, st.cursor, st.le.trans (by simp)⟩, ⟨rest', ?_⟩, hlen.trans hs.size, ?_,
    ?_, ?_⟩
  · rw [terminated_append, hL]
    exact hpot'
  · rw [List.take_append_of_le_length st.le]
    exact hs.index
  · rw [terminated_append, hL]
    exact hnext
  · intro t ht
    exact (List.mem_append.mp ht).elim (hs.clean t) (hclean t)

lemma Stocked.cookies_ne_nil (hs : Stocked st s) (h : s.nextFortune ≠ 0) : st.cookies ≠ [] := by
  intro hnil
  apply h
  rw [hs.next, hnil]
  rfl

lemma Stocked.read_kept (hs : Stocked st s) {count : ℕ} {offp : ℤ} {c : UserCopy}
    {r : ReadResult} (h : readProc s count offp c = some r) : ∃ st', Stocked st' r.state := by
  rw [readProc] at h
  split_ifs at h with h0
  · obtain rfl := Option.some.inj h
    exact ⟨st, hs⟩
  · have hlt := Store.place_lt (hs.cookies_ne_nil (not_or.mp h0).2)
    rw [hs.tmpText_eq hlt, Option.map_some] at h
    obtain rfl := Option.some.inj h
    rw [deliver]
    split_ifs
    · exact ⟨⟨st.cookies, st.place, hlt.le⟩, hs.pot, hs.size, hs.wrapped_eq, hs.next, hs.clean⟩
    · exact ⟨⟨st.cookies, st.place + 1, hlt⟩, hs.pot, hs.size, hs.advanced hlt, hs.next, hs.clean⟩

/-- **Every state that is reached is stocked.** -/
lemma stocked_of_reachable (h : handlers.Reachable initProcModule s) : ∃ st, Stocked st s := by
  refine h.invariant (I := fun s => ∃ st, Stocked st s)
    ⟨.empty, ⟨_, rfl⟩, List.length_replicate, rfl, rfl, by simp [Store.empty]⟩ ?_
  rintro t k e u ⟨st, hst⟩ hstep
  cases k with
  | write buf c =>
      obtain ⟨ret, hw, -⟩ := of_step_write hstep
      exact hst.write_kept hw
  | read count offp c =>
      obtain ⟨r, hr, rfl, -⟩ := of_step_read hstep
      exact hst.read_kept hr

/-! ### The reads of an open file -/

/-- The cookies in the pot: the strings below `next_fortune`, each up to its terminator. -/
def storedCookies (s : State) : List (List UInt8) :=
  ((s.cookiePot.take s.nextFortune.toNat).splitOn 0).dropLast

/-- The cookie at the read offset. -/
def nextCookie (s : State) : List UInt8 :=
  (s.cookiePot.drop s.wrapped.toNat).takeWhile (· ≠ 0)

/-- The calls of one open file with the counts from number `i` on, up to the first that
returns `0`; `none` when that is not among `n` calls. -/
def readFile (counts : ℕ → ℕ) : ℕ → ℕ → State → ℤ → Option (List (ℕ × ReadResult))
  | 0, _, _, _ => none
  | n + 1, i, s, offp =>
      (readProc s (counts i) offp .complete).bind fun r =>
        if r.ret = 0 then some [(counts i, r)]
        else (readFile counts n (i + 1) r.state r.offp).map ((counts i, r) :: ·)

lemma Stocked.storedCookies_eq (hs : Stocked st s) : storedCookies s = st.cookies := by
  obtain ⟨rest, hpot⟩ := hs.pot
  rw [storedCookies, hpot, hs.next, Int.toNat_natCast, List.take_left, splitOn_terminated hs.clean,
    List.dropLast_concat]

lemma Stocked.nextCookie_eq (hs : Stocked st s) (hlt : st.place < st.cookies.length) :
    nextCookie s = st.cookies[st.place] := by
  obtain ⟨rest, hpot⟩ := hs.pot_eq hlt
  rw [nextCookie, hs.wrapped_eq, Int.toNat_natCast, hpot, List.drop_left,
    takeWhile_terminated (hs.clean _ (List.getElem_mem hlt))]

/-- The first read of an open file, with the next cookie. -/
def firstRead (s : State) : ReadResult := deliver s (nextCookie s ++ [10]) 0 .complete

/-- A second read of the file. -/
def secondRead (r : ReadResult) : ReadResult := ⟨0, [], r.offp, r.state⟩

lemma firstRead_ret (s : State) : (firstRead s).ret = (nextCookie s).length + 1 := by
  change ((nextCookie s ++ [10]).length : ℤ) = _
  rw [List.length_append, List.length_singleton]
  rfl

lemma firstRead_ret_ne (s : State) : (firstRead s).ret ≠ 0 := by
  rw [firstRead_ret]
  omega

/-- The first read does not look at its count. -/
lemma Stocked.readProc_first (hs : Stocked st s) (hlt : st.place < st.cookies.length)
    (count : ℕ) : readProc s count 0 .complete = some (firstRead s) := by
  have hpos := terminated_length_pos (List.ne_nil_of_length_pos (Nat.zero_lt_of_lt hlt))
  have hnext : s.nextFortune ≠ 0 := by
    rw [hs.next]
    omega
  rw [readProc, if_neg (not_or.mpr ⟨lt_irrefl 0, hnext⟩), hs.tmpText_eq hlt, firstRead,
    hs.nextCookie_eq hlt]
  rfl

/-- One call does not end the file. -/
lemma Stocked.readFile_short (hs : Stocked st s) (hlt : st.place < st.cookies.length)
    (counts : ℕ → ℕ) {n : ℕ} (hn : n < 2) : readFile counts n 0 s 0 = none := by
  interval_cases n
  · rfl
  · rw [readFile, hs.readProc_first hlt, Option.bind_some, if_neg (firstRead_ret_ne s)]
    rfl

/-- A cookie is delivered whole, whatever the counts. -/
lemma Stocked.readFile_eq (hs : Stocked st s) (hlt : st.place < st.cookies.length)
    (counts : ℕ → ℕ) {n : ℕ} (hn : 2 ≤ n) : readFile counts n 0 s 0
      = some [(counts 0, firstRead s), (counts 1, secondRead (firstRead s))] := by
  obtain ⟨m, rfl⟩ := Nat.exists_eq_add_of_le' hn
  have hoff : 0 < (firstRead s).offp := by
    change 0 < 0 + (firstRead s).ret
    rw [firstRead_ret]
    omega
  rw [readFile, hs.readProc_first hlt, Option.bind_some, if_neg (firstRead_ret_ne s), readFile,
    readProc, if_pos (Or.inl hoff)]
  rfl

/-- **The defect of partial reads, exactly**: whatever the counts, the reads of an open file
end after the second call. They keep to their counts and deliver a stored cookie with a
newline just when the next cookie with its newline fits the first count. -/
theorem pieces_kept_iff (s : State) (hs : handlers.Reachable initProcModule s)
    (hne : storedCookies s ≠ []) (counts : ℕ → ℕ) :
    ∃ calls, (∀ n, 2 ≤ n → readFile counts n 0 s 0 = some calls)
      ∧ (((∀ q ∈ calls, q.2.ret ≤ q.1 ∧ q.2.out.length ≤ q.1)
          ∧ ∃ t ∈ storedCookies s, calls.flatMap (fun q => q.2.out) = t ++ [10])
        ↔ (nextCookie s).length + 1 ≤ counts 0) := by
  obtain ⟨st, hst⟩ := stocked_of_reachable hs
  rw [hst.storedCookies_eq] at hne ⊢
  have hlt := Store.place_lt hne
  refine ⟨[(counts 0, firstRead s), (counts 1, secondRead (firstRead s))],
    fun n hn => hst.readFile_eq hlt counts hn, ?_⟩
  have hout : (firstRead s).out = nextCookie s ++ [10] := rfl
  have hret := firstRead_ret s
  constructor
  · -- the first read returns the length of the whole cookie with its newline
    rintro ⟨hkept, -⟩
    have hfirst := (hkept _ List.mem_cons_self).1
    rw [hret] at hfirst
    omega
  · -- the first read brings all of it, and the second finds the end
    intro hfit
    refine ⟨?_, nextCookie s, ?_, ?_⟩
    · refine List.forall_mem_cons.mpr ⟨⟨?_, ?_⟩, List.forall_mem_cons.mpr ⟨?_, by simp⟩⟩
      · rw [hret]
        omega
      · rw [hout, List.length_append]
        exact hfit
      · exact ⟨Int.natCast_nonneg _, Nat.zero_le _⟩
    · rw [hst.nextCookie_eq hlt]
      exact List.getElem_mem hlt
    · rw [List.flatMap_cons, hout, List.flatMap_singleton]
      exact List.append_nil _

/-! ### A reader with small counts -/

/-- The state after `ab` and a newline have been written. -/
def oneCookie : State :=
  ⟨terminated [[97, 98]] ++ (List.replicate MAX_COOKIE_LEN 0).drop 3, 0, 3⟩

lemma oneCookie_reachable : handlers.Reachable initProcModule oneCookie := by
  have hm : storeMessage initProcModule.cookiePot initProcModule.cookieIndex
      initProcModule.nextFortune [97, 98, 10] .complete
      = some (3, oneCookie.cookiePot, oneCookie.nextFortune) :=
    @storeMessage_row [] (List.replicate MAX_COOKIE_LEN 0) [97, 98, 10] 0 List.length_replicate
      (Nat.zero_le _) (by decide) (by decide)
  refine (Machine.Reachable.refl _).step (i := .write [97, 98, 10] .complete) (e := (3, [])) ?_
  rw [step_write, writeProc, hm]
  rfl

lemma oneCookie_stocked : Stocked ⟨[[97, 98]], 0, Nat.zero_le _⟩ oneCookie :=
  ⟨⟨_, rfl⟩, by rw [oneCookie, List.length_append, List.length_drop, List.length_replicate]; rfl,
    rfl, rfl, by decide⟩

lemma oneCookie_next : nextCookie oneCookie = [97, 98] :=
  oneCookie_stocked.nextCookie_eq (Nat.zero_lt_one)

/-- Three bytes are enough for `ab`. -/
theorem pieces_kept_iff_three_bytes :
    ∃ calls, (∀ n, 2 ≤ n → readFile (fun _ => 3) n 0 oneCookie 0 = some calls)
      ∧ (((∀ q ∈ calls, q.2.ret ≤ q.1 ∧ q.2.out.length ≤ q.1)
          ∧ ∃ t ∈ storedCookies oneCookie, calls.flatMap (fun q => q.2.out) = t ++ [10])
        ↔ (nextCookie oneCookie).length + 1 ≤ 3) := by
  refine pieces_kept_iff oneCookie oneCookie_reachable ?_ fun _ => 3
  rw [oneCookie_stocked.storedCookies_eq]
  exact List.cons_ne_nil _ _

/-- A reader that asks for one byte is given three. -/
theorem one_byte_overrun : handlers.Reachable initProcModule oneCookie
    ∧ storedCookies oneCookie ≠ []
    ∧ ¬ ∃ n calls, readFile (fun _ => 1) n 0 oneCookie 0 = some calls
      ∧ (∀ q ∈ calls, q.2.ret ≤ q.1 ∧ q.2.out.length ≤ q.1)
      ∧ ∃ t ∈ storedCookies oneCookie, calls.flatMap (fun q => q.2.out) = t ++ [10] := by
  refine ⟨oneCookie_reachable, ?_, ?_⟩
  · rw [oneCookie_stocked.storedCookies_eq]
    exact List.cons_ne_nil _ _
  · rintro ⟨n, calls, hrun, hkept, -⟩
    rcases Nat.lt_or_ge n 2 with hn | hn
    · rw [oneCookie_stocked.readFile_short Nat.zero_lt_one _ hn] at hrun
      cases hrun
    · rw [oneCookie_stocked.readFile_eq Nat.zero_lt_one _ hn] at hrun
      cases hrun
      have hfirst := (hkept _ List.mem_cons_self).1
      rw [firstRead_ret, oneCookie_next] at hfirst
      exact absurd hfirst (by decide)

end Proc

end Fortune

end OperatingSys
