import OperatingSys.Foundations.CString

/-!
`strtok` of the C library, with one delimiter.

The words of a list are what the delimiter `d` leaves of it (`words`). `strtok` looks for
the next one from the pointer it has saved, stores a terminator over the delimiter behind
it, and goes outside the array when no terminator stops it. On a string it gives the words
of the string one after the other (`strtok_words`), whatever lies behind the string; in an
array without a terminator it gives words only until it goes outside
(`strtok_outside`).
-/

namespace OperatingSys

variable {α : Type*} [DecidableEq α]

/-! ### Words -/

/-- The words of a list: the pieces between delimiters that are not empty. -/
def words (d : α) (u : List α) : List (List α) := (u.splitOn d).filter (· ≠ [])

@[simp] lemma words_nil (d : α) : words d [] = [] := by
  simp [words, List.splitOn_nil]

/-- A delimiter at the front. -/
lemma words_delimiter (d : α) (u : List α) : words d (d :: u) = words d u := by
  have h : (d :: u).splitOn d = [] :: u.splitOn d :=
    List.splitOn_append_cons_self_of_not_mem List.not_mem_nil u
  rw [words, h, List.filter_cons_of_neg (by simp), ← words]

/-- A word at the front. -/
lemma words_cons {d : α} {w : List α} (hw : w ≠ []) (hd : d ∉ w) (u : List α) :
    words d (w ++ d :: u) = w :: words d u := by
  rw [words, List.splitOn_append_cons_self_of_not_mem hd, List.filter_cons_of_pos (by simpa),
    ← words]

/-- The words on both sides of a delimiter. -/
lemma words_append (d : α) (u v : List α) : words d (u ++ d :: v) = words d u ++ words d v := by
  rw [words, List.splitOn_append_cons_self, List.filter_append, ← words, ← words]

lemma words_single {d : α} {w : List α} (hw : w ≠ []) (hd : d ∉ w) : words d w = [w] := by
  rw [words, List.splitOn_eq_singleton hd, List.filter_cons_of_pos (by simpa), List.filter_nil]

omit [DecidableEq α] in
/-- What is in words put together. -/
lemma eq_or_mem_of_mem_intercalate {c d : α} : ∀ {ws : List (List α)},
    c ∈ [d].intercalate ws → c = d ∨ ∃ w ∈ ws, c ∈ w
  | [], h => by simp at h
  | [w], h => Or.inr ⟨w, List.mem_singleton_self w, by simpa using h⟩
  | w :: w' :: ws, h => by
      rw [List.intercalate_cons_cons, List.mem_append, List.mem_append, List.mem_singleton] at h
      rcases h with (h | h) | h
      · exact Or.inr ⟨w, List.mem_cons_self, h⟩
      · exact Or.inl h
      · exact (eq_or_mem_of_mem_intercalate h).imp_right fun ⟨v, hv, hc⟩ =>
          ⟨v, List.mem_cons_of_mem _ hv, hc⟩

/-- Words put together, one delimiter between each two of them. -/
lemma words_intercalate {d : α} {ws : List (List α)} (h : ∀ w ∈ ws, w ≠ [] ∧ d ∉ w) :
    words d ([d].intercalate ws) = ws := by
  by_cases hnil : ws = []
  · simp [hnil]
  · rw [words, List.splitOn_intercalate d (fun w hw => (h w hw).2) hnil, List.filter_eq_self]
    exact fun w hw => by simpa using (h w hw).1

/-- Where the first word of a list ends: it has none, or there are delimiters, a word, and
the end or a delimiter. -/
lemma words_cases (d : α) (u : List α) :
    (∃ k, u = List.replicate k d)
      ∨ ∃ k w, w ≠ [] ∧ d ∉ w ∧ (u = List.replicate k d ++ w
        ∨ ∃ u', u = List.replicate k d ++ (w ++ d :: u')) := by
  induction u with
  | nil => exact Or.inl ⟨0, rfl⟩
  | cons c u ih =>
      by_cases hc : c = d
      · subst hc
        rcases ih with ⟨k, rfl⟩ | ⟨k, w, hw, hd, h⟩
        · exact Or.inl ⟨k + 1, rfl⟩
        · refine Or.inr ⟨k + 1, w, hw, hd, ?_⟩
          rcases h with rfl | ⟨u', rfl⟩
          · exact Or.inl rfl
          · exact Or.inr ⟨u', rfl⟩
      · refine Or.inr ⟨0, ?_⟩
        by_cases hd : d ∈ u
        · obtain ⟨v, u', rfl, hv⟩ := List.eq_append_cons_of_mem hd
          exact ⟨c :: v, List.cons_ne_nil _ _, by simp [hv, Ne.symm hc], Or.inr ⟨u', rfl⟩⟩
        · exact ⟨c :: u, List.cons_ne_nil _ _, by simp [hd, Ne.symm hc], Or.inl rfl⟩

lemma words_replicate_append (d : α) (k : ℕ) (u : List α) :
    words d (List.replicate k d ++ u) = words d u := by
  induction k with
  | zero => rfl
  | succ k ih => rw [List.replicate_succ, List.cons_append, words_delimiter, ih]

/-- A list with a value that is no delimiter has a word. -/
lemma words_ne_nil {c d : α} {u : List α} (hc : c ∈ u) (hd : c ≠ d) : words d u ≠ [] := by
  rcases words_cases d u with ⟨k, rfl⟩ | ⟨k, w, hw, hdw, rfl | ⟨u', rfl⟩⟩
  · exact absurd (List.eq_of_mem_replicate hc) hd
  · rw [words_replicate_append, words_single hw hdw]
    exact List.cons_ne_nil _ _
  · rw [words_replicate_append, words_cons hw hdw]
    exact List.cons_ne_nil _ _

/-! ### The search -/

/-- The first index from `x` on whose value fails the test, `none` when the search goes
outside the array. -/
def searchFrom (p : α → Bool) (m : List α) (x : ℕ) : Option ℕ :=
  ((m.drop x).findIdx? fun c => !p c).map (x + ·)

omit [DecidableEq α] in
/-- Values that pass the test, and one that does not. -/
lemma searchFrom_append {p : α → Bool} {pre w rest : List α} {c : α} (hw : ∀ a ∈ w, p a = true)
    (hc : p c = false) : searchFrom p (pre ++ (w ++ c :: rest)) pre.length
      = some (pre ++ w).length := by
  have hnone : w.findIdx? (fun c => !p c) = none := by
    rw [List.findIdx?_eq_none_iff]
    exact fun a ha => by simp [hw a ha]
  rw [searchFrom, List.drop_left, List.findIdx?_append, hnone, List.findIdx?_cons]
  simp [hc]

omit [DecidableEq α] in
/-- Where a search stops. -/
lemma searchFrom_eq_some {p : α → Bool} {m : List α} {x y : ℕ}
    (h : searchFrom p m x = some y) : x ≤ y ∧ (∃ c, m[y]? = some c ∧ p c = false)
      ∧ ∀ i c, x ≤ i → i < y → m[i]? = some c → p c = true := by
  obtain ⟨k, hk, rfl⟩ := Option.map_eq_some_iff.mp h
  obtain ⟨hlt, hp, hpass⟩ := List.findIdx?_eq_some_iff_getElem.mp hk
  rw [List.getElem_drop] at hp
  rw [List.length_drop] at hlt
  refine ⟨Nat.le_add_right _ _, ⟨m[x + k], List.getElem?_eq_getElem _, by simpa using hp⟩, ?_⟩
  intro i c hxi hi hc
  obtain ⟨j, rfl⟩ := Nat.exists_eq_add_of_le hxi
  have hj := hpass j (by omega)
  rw [List.getElem_drop, Bool.not_eq_true', Bool.not_eq_false] at hj
  obtain ⟨hlen, rfl⟩ := List.getElem?_eq_some_iff.mp hc
  exact hj

/-! ### The function -/

variable [Zero α]

/-- `strtok` from the pointer `saved` on, which is where its argument points or what the
last call has saved: the token found, the array and the new pointer. -/
def strtok (d : α) (b : List α) (saved : ℕ) : Option (Option ℕ × List α × ℕ) :=
  (searchFrom (· = d) b saved).bind fun start =>
    if b[start]? = some 0 then some (none, b, start)
    else
      (searchFrom (fun c => c ≠ d ∧ c ≠ 0) b start).map fun stop =>
        if b[stop]? = some 0 then (some start, b, stop)
        else (some start, b.set stop 0, stop + 1)

variable {d : α} {b b' : List α} {s s' p : ℕ}

/-- Delimiters and a terminator: there is no token. -/
lemma strtok_end (hd : d ≠ 0) (pre : List α) (k : ℕ) (rest : List α) :
    strtok d (pre ++ (List.replicate k d ++ 0 :: rest)) pre.length
      = some (none, pre ++ (List.replicate k d ++ 0 :: rest),
        (pre ++ List.replicate k d).length) := by
  have hstart : searchFrom (· = d) (pre ++ (List.replicate k d ++ 0 :: rest)) pre.length
      = some (pre ++ List.replicate k d).length :=
    searchFrom_append (by simp) (by simpa using hd.symm)
  rw [strtok, hstart, Option.bind_some, if_pos]
  rw [← List.append_assoc, List.getElem?_append_right le_rfl, Nat.sub_self,
    List.getElem?_cons_zero]

/-- Delimiters, a word, and the delimiter or the terminator that ends it. -/
lemma strtok_token (pre : List α) (k : ℕ) {w : List α} (hw : w ≠ []) (hdw : d ∉ w)
    (h0w : (0 : α) ∉ w) {c : α} (hc : c = d ∨ c = 0) (rest : List α) :
    strtok d (pre ++ (List.replicate k d ++ (w ++ c :: rest))) pre.length
      = some (some (pre ++ List.replicate k d).length,
        pre ++ List.replicate k d ++ (w ++ 0 :: rest),
        (pre ++ List.replicate k d ++ w).length + if c = 0 then 0 else 1) := by
  obtain ⟨a, v, rfl⟩ := List.exists_cons_of_ne_nil hw
  have ha : a ≠ d := fun h => hdw (h ▸ List.mem_cons_self)
  have ha0 : a ≠ 0 := fun h => h0w (h ▸ List.mem_cons_self)
  -- the delimiters are skipped
  have hstart : searchFrom (· = d) (pre ++ (List.replicate k d ++ ((a :: v) ++ c :: rest)))
      pre.length = some (pre ++ List.replicate k d).length :=
    searchFrom_append (by simp) (by simpa using ha)
  -- the word goes on up to the delimiter or the terminator
  have hstop : searchFrom (fun c => c ≠ d ∧ c ≠ 0)
      (pre ++ List.replicate k d ++ ((a :: v) ++ c :: rest)) (pre ++ List.replicate k d).length
      = some (pre ++ List.replicate k d ++ (a :: v)).length := by
    refine searchFrom_append (fun x hx => ?_) ?_
    · rw [decide_eq_true_eq]
      exact ⟨fun h => hdw (h ▸ hx), fun h => h0w (h ▸ hx)⟩
    · rw [decide_eq_false_iff_not]
      tauto
  set q := pre ++ List.replicate k d with hq
  have hfirst : (q ++ ((a :: v) ++ c :: rest))[q.length]? = some a := by
    rw [List.getElem?_append_right le_rfl, Nat.sub_self, List.cons_append,
      List.getElem?_cons_zero]
  have hlast : (q ++ ((a :: v) ++ c :: rest))[(q ++ (a :: v)).length]? = some c := by
    rw [← List.append_assoc, List.getElem?_append_right le_rfl, Nat.sub_self,
      List.getElem?_cons_zero]
  rw [strtok, hstart, Option.bind_some, ← List.append_assoc pre, ← hq, hfirst,
    if_neg (by simpa using ha0), hstop, Option.map_some, hlast]
  by_cases hc0 : c = 0
  · rw [if_pos (by rw [hc0]), if_pos hc0, hc0, Nat.add_zero]
  · rw [if_neg (by simpa using hc0), if_neg hc0, ← List.append_assoc,
      List.set_append_right _ _ le_rfl, Nat.sub_self, List.set_cons_zero, List.append_assoc]

/-- **The words of a string** come one after the other: there is none left, or the next one
is the token, and the string at the new pointer has those that follow it. -/
theorem strtok_words (hd : d ≠ 0) {u : List α} (h : cstr b s = some u) :
    (words d u = [] ∧ ∃ s', strtok d b s = some (none, b, s'))
      ∨ ∃ w ws p b' s' u', words d u = w :: ws ∧ strtok d b s = some (some p, b', s')
        ∧ cstr b' p = some w ∧ cstr b' s' = some u' ∧ words d u' = ws := by
  obtain ⟨h0, pre, rest, rfl, rfl⟩ := eq_append_of_cstr h
  rcases words_cases d u with ⟨k, rfl⟩ | ⟨k, w, hw, hdw, rfl | ⟨u', rfl⟩⟩
  · refine Or.inl ⟨?_, _, strtok_end hd pre k rest⟩
    rw [← List.append_nil (List.replicate k d), words_replicate_append, words_nil]
  · -- the terminator of the string ends the word
    have h0w : (0 : α) ∉ w := fun hm => h0 (List.mem_append_right _ hm)
    have htok := strtok_token pre k hw hdw h0w (Or.inr rfl) rest
    rw [if_pos rfl, Nat.add_zero] at htok
    refine Or.inr ⟨w, [], _, _, _, [], ?_, by rw [List.append_assoc]; exact htok,
      cstr_append h0w rest, ?_, words_nil d⟩
    · rw [words_replicate_append, words_single hw hdw]
    · rw [← List.append_assoc]
      exact cstr_append (t := []) List.not_mem_nil rest
  · -- a delimiter ends it, and the rest of the string is behind that
    rw [List.mem_append, List.mem_append, List.mem_cons] at h0
    push Not at h0
    obtain ⟨-, h0w, -, h0u⟩ := h0
    have htok := strtok_token pre k hw hdw h0w (Or.inl rfl) (u' ++ 0 :: rest)
    rw [if_neg hd] at htok
    have hb : pre ++ (List.replicate k d ++ (w ++ d :: u') ++ 0 :: rest)
        = pre ++ (List.replicate k d ++ (w ++ d :: (u' ++ 0 :: rest))) := by simp
    refine Or.inr ⟨w, words d u', _, _, _, u', ?_, by rw [hb]; exact htok,
      cstr_append h0w _, ?_, rfl⟩
    · rw [words_replicate_append, words_cons hw hdw]
    · have hb' : pre ++ List.replicate k d ++ (w ++ 0 :: (u' ++ 0 :: rest))
          = pre ++ List.replicate k d ++ w ++ [0] ++ (u' ++ 0 :: rest) := by simp
      have hs' : (pre ++ List.replicate k d ++ w).length + 1
          = (pre ++ List.replicate k d ++ w ++ [0]).length := by
        simp only [List.length_append, List.length_singleton]
      rw [hb', hs']
      exact cstr_append h0u rest

/-- A token has no delimiter. -/
lemma delimiter_notMem_token (h : strtok d b s = some (some p, b', s')) {w : List α}
    (hw : cstr b' p = some w) : d ∉ w := by
  rw [strtok, Option.bind_eq_some_iff] at h
  obtain ⟨start, -, h⟩ := h
  split_ifs at h with hz
  · cases h
  obtain ⟨stop, hstop, h⟩ := Option.map_eq_some_iff.mp h
  obtain ⟨hle, ⟨c, hc, -⟩, hpass⟩ := searchFrom_eq_some hstop
  obtain ⟨h0, pre, rest, hb', hp⟩ := eq_append_of_cstr hw
  have key : start = p ∧ b'[stop]? = some 0 ∧ ∀ i < stop, b'[i]? = b[i]? := by
    split_ifs at h with hend
    · cases h
      exact ⟨rfl, hend, fun _ _ => rfl⟩
    · cases h
      refine ⟨rfl, ?_, fun i hi => List.getElem?_set_ne (by omega)⟩
      rw [List.getElem?_set_self (List.getElem?_eq_some_iff.mp hc).1]
  obtain ⟨rfl, hend, hsame⟩ := key
  have hread : ∀ i < w.length, b'[start + i]? = w[i]? := by
    intro i hi
    rw [hb', List.getElem?_append_right (by omega), List.getElem?_append_left (by omega)]
    congr 1
    omega
  intro hdw
  obtain ⟨i, hi, hget⟩ := List.mem_iff_getElem.mp hdw
  -- the terminator the search stopped at is behind the word
  have hlt : start + w.length ≤ stop := by
    by_contra hlt
    obtain ⟨j, rfl⟩ := Nat.exists_eq_add_of_le hle
    have := hread j (by omega)
    rw [hend, List.getElem?_eq_getElem (by omega), Option.some.injEq] at this
    exact h0 (this ▸ List.getElem_mem _)
  have hbi : b[start + i]? = some d := by
    rw [← hsame _ (by omega), hread i hi, List.getElem?_eq_getElem hi, hget]
  have := hpass _ d (by omega) (by omega) hbi
  simp at this

/-- Without a terminator from the pointer on `strtok` goes outside, or it finds a token and
leaves no terminator from the new pointer on. -/
lemma strtok_outside (hz : (0 : α) ∉ b.drop s) : strtok d b s = none
    ∨ ∃ p b' s', strtok d b s = some (some p, b', s') ∧ (0 : α) ∉ b'.drop s' := by
  have hne : ∀ {i c : _}, s ≤ i → b[i]? = some c → c ≠ 0 := by
    rintro i c hsi hc rfl
    obtain ⟨j, rfl⟩ := Nat.exists_eq_add_of_le hsi
    exact hz (List.mem_iff_getElem?.mpr ⟨j, by rw [List.getElem?_drop, hc]⟩)
  rw [strtok]
  cases hstart : searchFrom (· = d) b s with
  | none => exact Or.inl rfl
  | some start =>
      obtain ⟨hle, ⟨c, hc, -⟩, -⟩ := searchFrom_eq_some hstart
      rw [Option.bind_some, if_neg (by rw [hc]; simpa using hne hle hc)]
      cases hstop : searchFrom (fun c => c ≠ d ∧ c ≠ 0) b start with
      | none => exact Or.inl rfl
      | some stop =>
          obtain ⟨hle', ⟨c', hc', -⟩, -⟩ := searchFrom_eq_some hstop
          rw [Option.map_some, if_neg (by rw [hc']; simpa using hne (hle.trans hle') hc')]
          refine Or.inr ⟨start, b.set stop 0, stop + 1, rfl, ?_⟩
          rw [List.drop_set_of_lt (by omega)]
          exact fun hm => hz (List.drop_subset_drop_left b (by omega) hm)

end OperatingSys
