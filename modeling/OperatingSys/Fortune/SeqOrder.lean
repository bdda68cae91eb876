import OperatingSys.Foundations.Rounds
import OperatingSys.Fortune.Seq

/-!
In which order `fort_seq.c` shows its cookies.

`show__seq` advances `next_fortune` by what `snprintf` returns, the length of the
line with the label, and so goes five bytes too far behind every cookie. The
module is a reader of the row of its cookies with that shift, and
`show_in_order_iff` says for which messages it still shows them in order:
`not_delivered_of_nodup` that two or more different ones are not among them.
-/

namespace OperatingSys

namespace Fortune

namespace Seq

/-- The messages considered: at least one byte, no `0` before the last one, and
short enough that the line with its terminator fits `tmp`. -/
structure Message (m : List UInt8) : Prop where
  pos : 0 < m.length
  clean : (0 : UInt8) ∉ m.dropLast
  fits : m.length + 6 ≤ PAGE_SIZE

/-- The texts of the messages, each without its last byte. -/
def texts (ms : List (List UInt8)) : List (List UInt8) := ms.map List.dropLast

/-- The messages written one after the other, and then `i` reads. -/
def session (ms : List (List UInt8)) (i : ℕ) : List Call :=
  ms.map (Call.write · .complete) ++ List.replicate i .read

/-- **In order**: after the messages have been written and `i` reads made, the
next read shows the line of message number `i`, counted round and round. -/
def Delivered (ms : List (List UInt8)) : Prop :=
  ∀ i, ∃ tr s s', handlers.exec (session ms i) initSeqModule = some (tr, s)
    ∧ handlers.step s .read = some ((0, line (cyclic (texts ms) i)), s')

/-! ### The pot after the writes -/

lemma texts_concat (ms : List (List UInt8)) (m : List UInt8) :
    texts (ms ++ [m]) = texts ms ++ [m.dropLast] := by
  rw [texts, List.map_append, List.map_singleton, texts]

lemma texts_clean {ms : List (List UInt8)} (hm : ∀ m ∈ ms, Message m) :
    ∀ t ∈ texts ms, (0 : UInt8) ∉ t ∧ t.length + 7 ≤ PAGE_SIZE := by
  intro t ht
  obtain ⟨m, hmem, rfl⟩ := List.mem_map.mp ht
  have hpos := (hm m hmem).pos
  have hfits := (hm m hmem).fits
  exact ⟨(hm m hmem).clean, by rw [List.length_dropLast]; omega⟩

/-- The pot keeps the row of the texts, and nothing has been shown. -/
structure Filled (L : List (List UInt8)) (s : State) : Prop where
  pot : ∃ rest, s.cookiePot = terminated L ++ rest
  size : s.cookiePot.length = PAGE_SIZE
  index : s.cookieIndex = (terminated L).length
  next : s.nextFortune = 0

/-- A message that fits adds its text to the row. -/
lemma Filled.write {L : List (List UInt8)} {s : State} (hs : Filled L s) {m : List UInt8}
    (hpos : 0 < m.length) (hfit : (terminated L).length + m.length ≤ PAGE_SIZE) :
    ∃ e s', handlers.step s (.write m .complete) = some (e, s')
      ∧ Filled (L ++ [m.dropLast]) s' := by
  obtain ⟨rest, hpot⟩ := hs.pot
  have hsize := hs.size
  rw [hpot] at hsize
  rw [step_write, writeSeq, hpot, hs.index, storeMessage_row hsize le_rfl hpos hfit]
  exact ⟨_, _, rfl, ⟨rest.drop m.length, rfl⟩, row_length hsize hpos hfit, rfl, hs.next⟩

/-- The messages fill the pot with the row of their texts. -/
lemma exec_writes {ms : List (List UInt8)} (hm : ∀ m ∈ ms, Message m)
    (hsum : (ms.map List.length).sum ≤ PAGE_SIZE) :
    (terminated (texts ms)).length = (ms.map List.length).sum
      ∧ ∃ tr s, handlers.exec (ms.map (Call.write · .complete)) initSeqModule = some (tr, s)
        ∧ Filled (texts ms) s := by
  induction ms using List.reverseRecOn with
  | nil => exact ⟨rfl, [], initSeqModule, rfl, ⟨_, rfl⟩, List.length_replicate, rfl, rfl⟩
  | append_singleton ms m ih =>
      have hpos := (hm m (by simp)).pos
      rw [List.map_append, List.sum_append, List.map_singleton, List.sum_singleton] at hsum ⊢
      obtain ⟨hlen, tr, s, he, hf⟩ :=
        ih (fun m' hm' => hm m' (List.mem_append_left _ hm')) (by omega)
      obtain ⟨e, s', hstep, hf'⟩ := hf.write hpos (by omega)
      rw [texts_concat, List.map_append, List.map_singleton]
      refine ⟨?_, _, s', Machine.exec_snoc he hstep, hf'⟩
      rw [terminated_concat_length _ hpos, hlen]

/-! ### The reads -/

/-- After `i` reads: the row is as the writes left it, and the next read is at the
offset of a reader that goes five bytes too far. -/
structure Shown (L : List (List UInt8)) (i : ℕ) (s : State) : Prop where
  pot : ∃ rest, s.cookiePot = terminated L ++ rest
  index : s.cookieIndex = (terminated L).length
  wrapped : s.wrapped = spot 5 (terminated L) i

lemma Filled.shown {L : List (List UInt8)} {s : State} (hs : Filled L s) : Shown L 0 s where
  pot := hs.pot
  index := hs.index
  wrapped := by rw [State.wrapped, hs.next, ite_self]; rfl

/-- A read shows the string at that offset and goes on. -/
lemma Shown.read {L : List (List UInt8)} (hne : L ≠ [])
    (hclean : ∀ t ∈ L, (0 : UInt8) ∉ t ∧ t.length + 7 ≤ PAGE_SIZE) {i : ℕ} {s : State}
    (hs : Shown L i s) :
    ∃ s', handlers.step s .read
        = some ((0, line (strAt (terminated L) (spot 5 (terminated L) i))), s')
      ∧ Shown L (i + 1) s' := by
  obtain ⟨rest, hpot⟩ := hs.pot
  have hpos := terminated_length_pos hne
  have hspot := spot_lt (d := 5) hpos i
  have hfront := frontString_drop_terminated hspot
  obtain ⟨u, hu, hsuf⟩ := exists_suffix_of_frontString (fun t ht => (hclean t ht).1) hfront
  have hshort := (hclean u hu).2
  have hle := hsuf.length_le
  have hcstr : cstr s.cookiePot s.wrapped
      = some (strAt (terminated L) (spot 5 (terminated L) i)) := by
    rw [hpot, hs.wrapped, cstr_natCast, List.drop_append_of_le_length hspot.le]
    exact frontString_append_of_some hfront rest
  have hindex : s.cookieIndex ≠ 0 := by rw [hs.index]; omega
  have htake : ∀ t : List UInt8, t.length + 7 ≤ PAGE_SIZE →
      (line t).take (MAX_COOKIE_LEN - 1) = line t := fun t ht =>
    List.take_of_length_le (by rw [line_length, MAX_COOKIE_LEN]; omega)
  rw [step_read, showSeq, if_neg hindex, hcstr, Option.map_some, Option.map_some,
    htake _ (by omega)]
  refine ⟨_, rfl, hs.pot, hs.index, ?_⟩
  rw [hs.wrapped, hs.index, line_length, spot]
  simp only [State.wrapped, ge_iff_le]
  by_cases hwrap : (terminated L).length ≤ spot 5 (terminated L) i
      + (strAt (terminated L) (spot 5 (terminated L) i)).length + 1 + 5
  · rw [if_pos hwrap, if_pos (by omega)]
    rfl
  · rw [if_neg hwrap, if_neg (by omega)]
    push_cast
    ring

/-- The reads of a session. -/
lemma exec_session {ms : List (List UInt8)} (hne : ms ≠ []) (hm : ∀ m ∈ ms, Message m)
    (hsum : (ms.map List.length).sum ≤ PAGE_SIZE) (i : ℕ) :
    ∃ tr s, handlers.exec (session ms i) initSeqModule = some (tr, s) ∧ Shown (texts ms) i s := by
  induction i with
  | zero =>
      obtain ⟨-, tr, s, he, hf⟩ := exec_writes hm hsum
      exact ⟨tr, s, by rwa [session, List.replicate_zero, List.append_nil], hf.shown⟩
  | succ i ih =>
      obtain ⟨tr, s, he, hs⟩ := ih
      obtain ⟨s', hstep, hs'⟩ := hs.read (by simpa [texts] using hne) (texts_clean hm)
      have hnext := Machine.exec_snoc he hstep
      rw [session, List.append_assoc, ← List.replicate_succ'] at hnext
      exact ⟨_, s', hnext, hs'⟩

/-- The module delivers in order what a reader that goes five bytes too far reads
in order. -/
lemma delivered_iff_reads {ms : List (List UInt8)} (hne : ms ≠ []) (hm : ∀ m ∈ ms, Message m)
    (hsum : (ms.map List.length).sum ≤ PAGE_SIZE) :
    Delivered ms ↔ ∀ i, strAt (terminated (texts ms)) (spot 5 (terminated (texts ms)) i)
      = cyclic (texts ms) i := by
  refine forall_congr' fun i => ?_
  obtain ⟨tr, s, he, hs⟩ := exec_session hne hm hsum i
  obtain ⟨s', hstep, -⟩ := hs.read (by simpa [texts] using hne) (texts_clean hm)
  constructor
  · rintro ⟨tr₁, s₁, s₂, he₁, hstep₁⟩
    obtain ⟨-, rfl⟩ := Prod.mk.injEq .. ▸ Option.some.inj (he.symm.trans he₁)
    rw [hstep, Option.some.injEq, Prod.mk.injEq, Prod.mk.injEq, line_inj] at hstep₁
    exact hstep₁.1.2
  · intro hread
    exact ⟨tr, s, s', he, by rw [← hread]; exact hstep⟩

/-- **When the cookies are shown in order**: a nonempty list of messages that fit
is shown in order if and only if its texts are in step with a reader that goes
five bytes too far. -/
theorem show_in_order_iff (ms : List (List UInt8)) (hne : ms ≠ []) (hm : ∀ m ∈ ms, Message m)
    (hsum : (ms.map List.length).sum ≤ PAGE_SIZE) : Delivered ms ↔ InStep 5 (texts ms) :=
  (delivered_iff_reads hne hm hsum).trans <|
    reads_iff_inStep 5 (by simpa [texts] using hne) fun t ht => (texts_clean hm t ht).1

/-- The same short message twice: the row is so short that each read begins at its front. -/
theorem show_in_order_iff_twice : Delivered [[97, 98, 10], [97, 98, 10]] := by
  refine (show_in_order_iff [[97, 98, 10], [97, 98, 10]] (by simp) (fun m hm => ?_)
    (by simp [PAGE_SIZE])).mpr ⟨1, Nat.one_pos, by decide, fun j hj => ?_, fun i => ?_⟩
  · rw [List.mem_cons, List.mem_singleton, or_self] at hm
    rw [hm]
    exact ⟨by simp, by simp, by simp [PAGE_SIZE]⟩
  · rw [Nat.lt_one_iff.mp hj]
    exact ⟨by decide, by decide⟩
  · rw [Nat.mod_one]
    rcases Nat.mod_two_eq_zero_or_one i with hi | hi
    · change (texts [[97, 98, 10], [97, 98, 10]]).getD (i % 2) [] = _
      rw [hi]
    · change (texts [[97, 98, 10], [97, 98, 10]]).getD (i % 2) [] = _
      rw [hi]
      rfl

/-- Two or more messages with different texts are not shown in order. -/
theorem not_delivered_of_nodup {ms : List (List UInt8)} (hm : ∀ m ∈ ms, Message m)
    (hsum : (ms.map List.length).sum ≤ PAGE_SIZE) (h2 : 2 ≤ ms.length)
    (hnd : (texts ms).Nodup) : ¬ Delivered ms := by
  have hne : ms ≠ [] := by rintro rfl; simp at h2
  rw [delivered_iff_reads hne hm hsum,
    reads_iff_inStep 5 (by simpa [texts] using hne) fun t ht => (texts_clean hm t ht).1]
  exact not_inStep_of_nodup (by omega) (by simpa [texts] using h2) hnd

/-- Two messages of nine bytes: the second read shows the second text from its
sixth byte on. -/
theorem second_line_cut :
    ¬ Delivered [List.replicate 8 97 ++ [10], List.replicate 8 98 ++ [10]] := by
  apply not_delivered_of_nodup
  · simp only [List.mem_cons, List.not_mem_nil, or_false, forall_eq_or_imp, forall_eq]
    exact ⟨⟨by decide, by decide, by decide⟩, ⟨by decide, by decide, by decide⟩⟩
  · decide
  · decide
  · decide

end Seq

end Fortune

end OperatingSys
