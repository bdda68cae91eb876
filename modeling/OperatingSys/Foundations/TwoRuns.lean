import OperatingSys.Foundations.CString
import OperatingSys.Foundations.Machine

/-!
Two runs of one schedule.

Two computations are related when both fail or both come to related results
(`Option.Rel`), and this passes through `map` and `bind`. Two machines whose steps
are related play out every schedule to related ends, with the same trace
(`Machine.exec_rel`), so that what they show is the same (`Machine.exec_trace_eq`).

`Alike n` relates two arrays of one length that agree below `n`: a copy to `n`, a
store below it and a string that ends below it are the same in both.
-/

namespace OperatingSys

variable {α β γ δ : Type*}

lemma rel_map {r : α → β → Prop} {q : γ → δ → Prop} {f : α → γ} {g : β → δ}
    (h : ∀ a b, r a b → q (f a) (g b)) {x : Option α} {y : Option β} (hxy : Option.Rel r x y) :
    Option.Rel q (x.map f) (y.map g) := by
  cases hxy with
  | none => exact .none
  | some hab => exact .some (h _ _ hab)

lemma rel_bind {r : α → β → Prop} {q : γ → δ → Prop} {f : α → Option γ} {g : β → Option δ}
    (h : ∀ a b, r a b → Option.Rel q (f a) (g b)) {x : Option α} {y : Option β}
    (hxy : Option.Rel r x y) : Option.Rel q (x.bind f) (y.bind g) := by
  cases hxy with
  | none => exact .none
  | some hab => exact h _ _ hab

namespace Machine

variable {σ τ ι ε : Type*} {M : Machine σ ι ε} {M' : Machine τ ι ε} {R : σ → τ → Prop}

/-- What two steps or two schedules come to: the same shown, and related states. -/
def Same (R : σ → τ → Prop) (p : α × σ) (q : α × τ) : Prop := p.1 = q.1 ∧ R p.2 q.2

/-- **The rule of two runs**: a relation that is kept by every move, both machines
making it or neither, is kept by every schedule. An invariant of the first machine
may be used. -/
theorem exec_rel {I : σ → Prop} (hI : ∀ s i e u, I s → M.step s i = some (e, u) → I u)
    (hR : ∀ s t i, I s → R s t → Option.Rel (Same R) (M.step s i) (M'.step t i))
    {s : σ} {t : τ} (h0 : I s) (h : R s t) (is : List ι) :
    Option.Rel (Same R) (M.exec is s) (M'.exec is t) := by
  induction is generalizing s t with
  | nil => exact .some ⟨rfl, h⟩
  | cons i is ih =>
      have hi := hR s t i h0 h
      cases hs : M.step s i with
      | none =>
          cases ht : M'.step t i with
          | none => simpa only [exec, hs, ht] using Option.Rel.none
          | some q => rw [hs, ht] at hi; cases hi
      | some p =>
          obtain ⟨e, s'⟩ := p
          cases ht : M'.step t i with
          | none => rw [hs, ht] at hi; cases hi
          | some q =>
              obtain ⟨e', t'⟩ := q
              rw [hs, ht] at hi
              cases hi with
              | some hq =>
                  obtain ⟨rfl, hq⟩ : e = e' ∧ R s' t' := hq
                  rw [exec_cons hs, exec_cons ht]
                  exact rel_map (fun a b hab => ⟨congrArg _ hab.1, hab.2⟩)
                    (ih (hI s i e s' h0 hs) hq)

theorem exec_trace_eq {I : σ → Prop} (hI : ∀ s i e u, I s → M.step s i = some (e, u) → I u)
    (hR : ∀ s t i, I s → R s t → Option.Rel (Same R) (M.step s i) (M'.step t i))
    {s : σ} {t : τ} (h0 : I s) (h : R s t) (is : List ι) :
    (M.exec is s).map Prod.fst = (M'.exec is t).map Prod.fst := by
  have hrel := exec_rel hI hR h0 h is
  generalize M.exec is s = x at hrel
  generalize M'.exec is t = y at hrel
  cases hrel with
  | none => rfl
  | some hpq => rw [Option.map_some, Option.map_some, hpq.1]

end Machine

/-! ### Arrays that agree below an index -/

/-- Two arrays of one length that agree below `n`. -/
def Alike (n : ℕ) (m m' : List α) : Prop :=
  ∃ pre rest rest', m = pre ++ rest ∧ m' = pre ++ rest' ∧ pre.length = n
    ∧ rest.length = rest'.length

namespace Alike

variable {n : ℕ} {m m' : List α}

lemma of_agree (hlen : m'.length = m.length) (hn : n ≤ m.length)
    (h : ∀ k < n, m'[k]? = m[k]?) : Alike n m' m := by
  refine ⟨m.take n, m'.drop n, m.drop n, ?_, (List.take_append_drop n m).symm,
    List.length_take_of_le hn, by simp [hlen]⟩
  conv_lhs => rw [← List.take_append_drop n m']
  congr 1
  refine List.ext_getElem? fun k => ?_
  rw [List.getElem?_take, List.getElem?_take]
  split_ifs with hk
  · exact h k hk
  · rfl

lemma refl (hn : n ≤ m.length) : Alike n m m := of_agree rfl hn fun _ _ => rfl

lemma length_eq (h : Alike n m m') : m.length = m'.length := by
  obtain ⟨pre, rest, rest', rfl, rfl, -, hlen⟩ := h
  rw [List.length_append, List.length_append, hlen]

lemma mono (h : Alike n m m') {k : ℕ} (hk : k ≤ n) : Alike k m m' := by
  obtain ⟨pre, rest, rest', rfl, rfl, rfl, hlen⟩ := h
  refine ⟨pre.take k, pre.drop k ++ rest, pre.drop k ++ rest', ?_, ?_, ?_, ?_⟩
  · rw [← List.append_assoc, List.take_append_drop]
  · rw [← List.append_assoc, List.take_append_drop]
  · exact List.length_take_of_le hk
  · rw [List.length_append, List.length_append, hlen]

/-- A copy to `n`. -/
lemma blit (h : Alike n m m') (data : List α) :
    Option.Rel (Alike (n + data.length)) (blit m n data) (blit m' n data) := by
  by_cases hfit : n + data.length ≤ m.length
  · obtain ⟨pre, rest, rest', rfl, rfl, rfl, hlen⟩ := h
    rw [List.length_append] at hfit
    rw [blit_append (by omega), blit_append (by omega)]
    refine .some ⟨pre ++ data, rest.drop data.length, rest'.drop data.length, ?_, ?_, ?_, ?_⟩
    · rw [List.append_assoc]
    · rw [List.append_assoc]
    · rw [List.length_append]
    · rw [List.length_drop, List.length_drop, hlen]
  · have hlen := h.length_eq
    rw [blit_eq_none_iff.mpr (by omega), blit_eq_none_iff.mpr (by omega)]
    exact .none

/-- A store below `n`. -/
lemma poke (h : Alike n m m') {i : ℤ} (hi : i < n) (x : α) :
    Option.Rel (Alike n) (poke m i x) (poke m' i x) := by
  by_cases hneg : i < 0
  · rw [poke_eq_none hneg, poke_eq_none hneg]
    exact .none
  · obtain ⟨pre, rest, rest', rfl, rfl, rfl, hlen⟩ := h
    obtain ⟨k, rfl⟩ : ∃ k : ℕ, i = k := ⟨i.toNat, by omega⟩
    have hk : k < pre.length := by omega
    rw [poke_of_lt (by rw [List.length_append]; omega),
      poke_of_lt (by rw [List.length_append]; omega), List.set_append_left _ _ hk,
      List.set_append_left _ _ hk]
    exact .some ⟨pre.set k x, rest, rest', rfl, rfl, List.length_set, hlen⟩

/-- A string that ends below `n`. -/
lemma cstr_eq [Zero α] [DecidableEq α] (h : Alike n m m') {j k : ℕ} (hj : j ≤ k) (hk : k < n)
    (h0 : m[k]? = some 0) : cstr m j = cstr m' j := by
  obtain ⟨pre, rest, rest', rfl, rfl, rfl, hlen⟩ := h
  rw [List.getElem?_append_left hk] at h0
  obtain ⟨t, ht, -⟩ := cstr_of_getElem? hj h0
  rw [cstr_natCast] at ht
  rw [cstr_natCast, cstr_natCast, List.drop_append_of_le_length (by omega),
    List.drop_append_of_le_length (by omega), frontString_append_of_some ht,
    frontString_append_of_some ht]

end Alike

end OperatingSys
