import Mathlib.Data.UInt
import OperatingSys.Foundations.Independent
import OperatingSys.Foundations.Overwrite

/-!
Writers with descriptors of their own, `os_02/lab_05/src/03_thread.c`.

Each thread opens the file itself and writes letters from its beginning, one byte at a time.
`main` passes the address of a variable of its loop, so a thread looks up `thd_n` there again
and again and may find another number each time (`found`): `0` or `1` as `main` has stored them,
or any other once the variable is gone. What a thread has written is determined by what it
found (`written_solo`), and what is left of it by the order of the writes: at each place the
letter of any one of the threads that write there, and no mixture is excluded (`left_iff`).
-/

namespace OperatingSys

namespace Streams

namespace OwnWrites

/-- Where a thread is in `open_read`: the offset of its descriptor, and `c`. -/
inductive Pc where
  | start
  | test (offset : ℕ) (c : Int8)
  | next (offset : ℕ) (c : Int8)
  | finished
  deriving DecidableEq

inductive Event where
  | start
  | write (offset : ℕ) (c : UInt8)
  | next
  | finish
  deriving DecidableEq

/-- `open_read`, for what the thread finds in `tdata->thd_n` at each time it looks. A value that
is no `char` is taken modulo 256. -/
def openRead (found : ℕ → ℤ) : Pc → Option (Event × Pc)
  | .start => some (.start, .test 0 (Int8.ofInt ('a'.toNat + found 0)))
  | .test offset c =>
      if c.toInt ≤ 'z'.toNat then some (.write offset c.toUInt8, .next (offset + 1) c)
      else some (.finish, .finished)
  | .next offset c => some (.next, .test offset (Int8.ofInt (c.toInt + (found offset + 1))))
  | .finished => none

/-- What a step writes, and where. -/
def Event.written : Event → Option (ℕ × UInt8)
  | .write offset c => some (offset, c)
  | .start | .next | .finish => none

/-- The value of `c` after `k` turns of the loop. -/
def letter (found : ℕ → ℤ) : ℕ → Int8
  | 0 => Int8.ofInt ('a'.toNat + found 0)
  | k + 1 => Int8.ofInt ((letter found k).toInt + (found (k + 1) + 1))

/-- The thread has a `k`-th letter to write: it has not come behind `z` by then. -/
def Writes (found : ℕ → ℤ) (k : ℕ) : Prop := ∀ j ≤ k, (letter found j).toInt ≤ 'z'.toNat

instance (found : ℕ → ℤ) : DecidablePred (Writes found) := fun k =>
  inferInstanceAs (Decidable (∀ j ≤ k, _))

/-! ### The letters of a thread -/

variable {found : ℕ → ℤ} {pc pc' : Pc} {e : Event} {es : List Event} {j k : ℕ}

lemma Writes.of_le (h : Writes found k) (hj : j ≤ k) : Writes found j :=
  fun i hi => h i (hi.trans hj)

/-- The letter after those before it. -/
lemma writes_of_letter (hall : ∀ j < k, Writes found j)
    (hk : (letter found k).toInt ≤ 'z'.toNat) : Writes found k := by
  intro i hi
  rcases Nat.lt_or_eq_of_le hi with hlt | rfl
  · exact hall i hlt i le_rfl
  · exact hk

/-- A thread that finds `0` or `1` each time: the letters lie between those of the steps `1` and
`2`, as long as they do not come behind `z`. -/
lemma letter_bounds (hfound : ∀ k, found k = 0 ∨ found k = 1) (hall : ∀ j < k, Writes found j) :
    'a'.toNat + (k : ℤ) ≤ (letter found k).toInt
      ∧ (letter found k).toInt ≤ 'a'.toNat + 1 + 2 * (k : ℤ) := by
  have ha : ('a'.toNat : ℤ) = 97 := rfl
  have hz : ('z'.toNat : ℤ) = 122 := rfl
  induction k with
  | zero =>
      have h0 := hfound 0
      rw [letter, Int8.toInt_ofInt_of_le (by omega) (by omega)]
      omega
  | succ k ih =>
      have hk := hfound (k + 1)
      have hletter := hall k (Nat.lt_succ_self k) k le_rfl
      have hbounds := ih fun j hj => hall j (Nat.lt_succ_of_lt hj)
      rw [letter, Int8.toInt_ofInt_of_le (by omega) (by omega)]
      omega

/-- Such a thread writes at least half of the alphabet. -/
lemma writes_of_lt (hfound : ∀ k, found k = 0 ∨ found k = 1) (hk : k < 13) : Writes found k := by
  induction k using Nat.strong_induction_on with
  | _ k ih =>
      have hall : ∀ j < k, Writes found j := fun j hj => ih j hj (hj.trans hk)
      have hbounds := (letter_bounds hfound hall).2
      have ha : ('a'.toNat : ℤ) = 97 := rfl
      have hz : ('z'.toNat : ℤ) = 122 := rfl
      exact writes_of_letter hall (by omega)

lemma not_writes_of_le (hfound : ∀ k, found k = 0 ∨ found k = 1) (hk : 26 ≤ k) :
    ¬ Writes found k := fun h => by
  have hbounds := (letter_bounds hfound fun j hj => h.of_le hj.le).1
  have hletter := h k le_rfl
  have ha : ('a'.toNat : ℤ) = 97 := rfl
  have hz : ('z'.toNat : ℤ) = 122 := rfl
  omega

/-- The first `k` letters, each with its place. -/
def letters (found : ℕ → ℤ) (k : ℕ) : List (ℕ × UInt8) :=
  (List.range k).map fun j => (j, (letter found j).toUInt8)

lemma letters_succ (found : ℕ → ℤ) (k : ℕ) :
    letters found (k + 1) = letters found k ++ [(k, (letter found k).toUInt8)] := by
  rw [letters, List.range_succ, List.map_append, List.map_singleton, letters]

lemma mem_letters {q : ℕ × UInt8} :
    q ∈ letters found k ↔ q.1 < k ∧ q.2 = (letter found q.1).toUInt8 := by
  obtain ⟨j, x⟩ := q
  simp only [letters, List.mem_map, List.mem_range, Prod.mk.injEq]
  constructor
  · rintro ⟨i, hi, rfl, rfl⟩
    exact ⟨hi, rfl⟩
  · rintro ⟨hj, rfl⟩
    exact ⟨j, hj, rfl, rfl⟩

/-- What a thread has written when it is at a place of `open_read`. -/
def At (found : ℕ → ℤ) (ws : List (ℕ × UInt8)) : Pc → Prop
  | .start => ws = []
  | .test k c => c = letter found k ∧ ws = letters found k ∧ ∀ j < k, Writes found j
  | .next k c => ∃ j, k = j + 1 ∧ c = letter found j ∧ ws = letters found k ∧ Writes found j
  | .finished => ∃ k, ws = letters found k ∧ ∀ j, j < k ↔ Writes found j

lemma at_step {ws : List (ℕ × UInt8)} (h : At found ws pc)
    (hs : openRead found pc = some (e, pc')) : At found (ws ++ e.written.toList) pc' := by
  cases pc with
  | start =>
      cases hs
      obtain rfl := h
      exact ⟨rfl, rfl, fun j hj => absurd hj (Nat.not_lt_zero j)⟩
  | test k c =>
      obtain ⟨rfl, rfl, hall⟩ := h
      rw [openRead] at hs
      split_ifs at hs with hk
      · cases hs
        exact ⟨k, rfl, rfl, (letters_succ found k).symm, writes_of_letter hall hk⟩
      · cases hs
        refine ⟨k, List.append_nil _, fun j => ⟨hall j, fun hj => ?_⟩⟩
        by_contra hle
        exact hk (hj k (Nat.le_of_not_lt hle))
  | next k c =>
      obtain ⟨j, rfl, rfl, rfl, hj⟩ := h
      cases hs
      exact ⟨rfl, List.append_nil _, fun i hi => hj.of_le (Nat.lt_succ_iff.mp hi)⟩
  | finished => cases hs

/-- **What a thread has written** are its first letters. -/
lemma written_solo (h : Solo (openRead found) .start es pc) :
    At found (es.filterMap Event.written) pc := by
  refine h.induct_events (I := fun es pc => At found (es.filterMap Event.written) pc)
    (show At found [] .start from rfl) ?_
  intro es pc e pc' hI hs
  rw [List.filterMap_append, List.filterMap_cons, List.filterMap_nil]
  have hstep := at_step hI hs
  cases hw : e.written <;> rwa [hw] at hstep

/-- The turn of the loop for place `k`, if the thread has a letter for it. -/
def turn (found : ℕ → ℤ) (k : ℕ) : List Event :=
  if Writes found k then [.write k ((letter found k).toUInt8), .next] else []

/-- All steps of a thread that has no letter for place `n`. -/
def whole (found : ℕ → ℤ) (n : ℕ) : List Event :=
  .start :: (List.range n).flatMap (turn found) ++ [.finish]

lemma flatMap_turn_of_not_writes (h : ¬ Writes found k) (n : ℕ) :
    (List.range' k n).flatMap (turn found) = [] := by
  rw [List.flatMap_eq_nil_iff]
  intro j hj
  rw [turn, if_neg]
  exact fun hw => h (hw.of_le (List.mem_range'_1.mp hj).1)

/-- The turns that are left, from the loop's test. -/
lemma solo_test {n m : ℕ} (hm : ¬ Writes found m) (hn : k + n = m)
    (hall : ∀ j < k, Writes found j) : Solo (openRead found) (.test k (letter found k))
      ((List.range' k n).flatMap (turn found) ++ [.finish]) .finished := by
  have hlast : ¬ Writes found k → openRead found (.test k (letter found k))
      = some (.finish, .finished) := fun hk =>
    if_neg fun hletter => hk (writes_of_letter hall hletter)
  induction n generalizing k with
  | zero =>
      obtain rfl : k = m := hn
      exact Solo.single (hlast hm)
  | succ n ih =>
      by_cases hk : Writes found k
      · have hwrite : openRead found (.test k (letter found k))
            = some (.write k (letter found k).toUInt8, .next (k + 1) (letter found k)) :=
          if_pos (hk k le_rfl)
        have hnext : openRead found (.next (k + 1) (letter found k))
            = some (.next, .test (k + 1) (letter found (k + 1))) := rfl
        have hall' : ∀ j < k + 1, Writes found j := fun j hj => hk.of_le (Nat.le_of_lt_succ hj)
        rw [List.range'_succ, List.flatMap_cons, turn, if_pos hk]
        refine Solo.cons hwrite (Solo.cons hnext (ih (by omega) hall' fun hk' => ?_))
        exact if_neg fun hletter => hk' (writes_of_letter hall' hletter)
      · rw [flatMap_turn_of_not_writes hk]
        exact Solo.single (hlast hk)

lemma solo_whole {n : ℕ} (hn : ¬ Writes found n) :
    Solo (openRead found) .start (whole found n) .finished := by
  have hstart : openRead found .start = some (.start, .test 0 (letter found 0)) := rfl
  have hrest : Solo (openRead found) (.test 0 (letter found 0))
      ((List.range' 0 n).flatMap (turn found) ++ [.finish]) .finished :=
    solo_test hn (Nat.zero_add n) fun j hj => absurd hj (Nat.not_lt_zero j)
  rw [← List.range_eq_range'] at hrest
  exact Solo.cons hstart hrest

/-! ### All threads -/

section Writers

variable {τ : Type*} [DecidableEq τ]

/-- The threads. -/
def writers (found : τ → ℕ → ℤ) : Machine (τ → Pc) τ Event :=
  independent fun i => openRead (found i)

/-- Every thread has been created. -/
def created : τ → Pc := fun _ => .start

/-- The writes to the file, in their order. -/
def writes (tr : List (τ × Event)) : List (ℕ × UInt8) := tr.filterMap fun q => q.2.written

variable {found : τ → ℕ → ℤ} {s : τ → Pc} {tr : List (τ × Event)} {i : τ}

omit [DecidableEq τ] in
lemma writes_append (tr tr' : List (τ × Event)) : writes (tr ++ tr') = writes tr ++ writes tr' :=
  List.filterMap_append

lemma mem_writes {q : ℕ × UInt8} :
    q ∈ writes tr ↔ ∃ i, q ∈ (part i tr).filterMap Event.written := by
  simp only [writes, List.mem_filterMap, mem_part]
  constructor
  · rintro ⟨⟨i, e⟩, hmem, he⟩
    exact ⟨i, e, hmem, he⟩
  · rintro ⟨i, e, hmem, he⟩
    exact ⟨(i, e), hmem, he⟩

/-- A thread at the end of its turns has written the letters it has. -/
lemma mem_written_finished (h : (writers found).Run created tr s) (hfin : s i = .finished)
    {x : UInt8} : (k, x) ∈ (part i tr).filterMap Event.written
      ↔ Writes (found i) k ∧ x = (letter (found i) k).toUInt8 := by
  have hat := written_solo (solo_of_run h i)
  rw [hfin] at hat
  obtain ⟨m, hletters, hm⟩ := hat
  rw [hletters, mem_letters, ← hm k]

/-- A thread that has finished has come behind `z`. -/
lemma exists_not_writes (h : (writers found).Run created tr s) (hfin : s i = .finished) :
    ∃ k, ¬ Writes (found i) k := by
  have hat := written_solo (solo_of_run h i)
  rw [hfin] at hat
  obtain ⟨k, -, hk⟩ := hat
  exact ⟨k, fun hw => lt_irrefl k ((hk k).mpr hw)⟩

/-- The writes leave no gap, as each thread starts at the beginning of the file. -/
lemma gapless_run (h : (writers found).Run created tr s) : Gapless (writes tr) := by
  suffices hboth : (writers found).Run created tr s ∧ Gapless (writes tr) from hboth.2
  refine h.induct_trace (I := fun tr s => (writers found).Run created tr s
    ∧ Gapless (writes tr)) ⟨.nil, .nil⟩ ?_
  rintro tr s i e s' ⟨hrun, hgap⟩ hs
  refine ⟨hrun.snoc hs, ?_⟩
  rw [writes_append]
  cases e with
  | start | next | finish => rwa [writes, writes, List.filterMap_cons, Event.written,
      List.filterMap_nil, List.append_nil]
  | write k c =>
      refine hgap.snoc (fun j hj hnil => ?_) c
      -- the thread is at its offset, and has written all before it
      obtain ⟨pc, hpc, -⟩ := independent_step_iff.mp hs
      have hat := written_solo (solo_of_run hrun i)
      generalize s i = t at hpc hat
      cases t with
      | test k' c' =>
          rw [openRead] at hpc
          split_ifs at hpc
          · cases hpc
            have hmem : (j, (letter (found i) j).toUInt8) ∈ writes tr := by
              rw [mem_writes]
              exact ⟨i, hat.2.1 ▸ mem_letters.mpr ⟨hj, rfl⟩⟩
            rw [← mem_part, hnil] at hmem
            cases hmem
          · cases hpc
      | start | next | finished => cases hpc

/-- What is left in the file when all have finished. -/
lemma left_of_run (h : (writers found).Run created tr s) (hfin : ∀ i, s i = .finished)
    (content : List UInt8) (k : ℕ) :
    (∃ i, Writes (found i) k
        ∧ (overwrite (writes tr) content)[k]? = some ((letter (found i) k).toUInt8))
      ∨ ((∀ i, ¬ Writes (found i) k) ∧ (overwrite (writes tr) content)[k]? = content[k]?) := by
  rw [getElem?_overwrite (gapless_run h)]
  cases hlast : (part k (writes tr)).getLast? with
  | none =>
      refine Or.inr ⟨fun i hw => ?_, rfl⟩
      have hmem := (mem_written_finished h (hfin i)).mpr ⟨hw, rfl⟩
      have hpart := mem_part.mpr (mem_writes.mpr ⟨i, hmem⟩)
      rw [List.getLast?_eq_none_iff.mp hlast] at hpart
      cases hpart
  | some x =>
      obtain ⟨i, hi⟩ := mem_writes.mp (mem_part.mp (List.mem_of_getLast? hlast))
      obtain ⟨hw, rfl⟩ := (mem_written_finished h (hfin i)).mp hi
      exact Or.inl ⟨i, hw, rfl⟩

/-! ### Every mixture of the letters -/

/-- The turns for place `k`, thread by thread. -/
def round (found : τ → ℕ → ℤ) (js : List τ) (k : ℕ) : List (τ × Event) :=
  spread (js.map fun i => (i, turn (found i) k))

/-- All steps of the threads `js`, for each place below `n` in an order of its own. -/
def rounds (found : τ → ℕ → ℤ) (n : ℕ) (js : List τ) (order : ℕ → List τ) :
    List (τ × Event) :=
  (js.map fun i => (i, .start)) ++ (List.range n).flatMap (fun k => round found (order k) k)
    ++ js.map fun i => (i, .finish)

lemma part_rounds {n : ℕ} {js : List τ} {order : ℕ → List τ} (hn : js.Nodup) (hi : i ∈ js)
    (hno : ∀ k, (order k).Nodup) (hio : ∀ k, i ∈ order k) :
    part i (rounds found n js order) = whole (found i) n := by
  have hround : ∀ k, part i (round found (order k) k) = turn (found i) k := fun k => by
    rw [round, part_spread, part_map_of_nodup (hno k) (hio k) fun j => turn (found j) k,
      List.flatten_singleton]
  rw [rounds, part_append, part_append, part_flatMap, funext hround,
    part_map_of_nodup hn hi fun _ => Event.start, part_map_of_nodup hn hi fun _ => Event.finish]
  rfl

/-- The letter of a thread for place `k`, with the place. -/
def entry (found : τ → ℕ → ℤ) (k : ℕ) (i : τ) : Option (ℕ × UInt8) :=
  if Writes (found i) k then some (k, (letter (found i) k).toUInt8) else none

omit [DecidableEq τ] in
lemma writes_round (js : List τ) (k : ℕ) :
    writes (round found js k) = js.filterMap (entry found k) := by
  induction js with
  | nil => rfl
  | cons i js ih =>
      rw [round, List.map_cons, spread, List.flatMap_cons, writes_append, ← spread, ← round, ih,
        List.filterMap_cons, entry, turn]
      split_ifs with hw <;> rfl

omit [DecidableEq τ] in
lemma writes_rounds (n : ℕ) (js : List τ) (order : ℕ → List τ) :
    writes (rounds found n js order)
      = (List.range n).flatMap fun k => (order k).filterMap (entry found k) := by
  have hidle : ∀ e : Event, e.written = none → writes (js.map fun i => (i, e)) = [] :=
    fun e he => by
      rw [writes, List.filterMap_map, List.filterMap_eq_nil_iff]
      exact fun _ _ => he
  rw [rounds, writes_append, writes_append, hidle .start rfl, hidle .finish rfl, List.nil_append,
    List.append_nil, writes, List.filterMap_flatMap]
  exact List.flatMap_congr fun k _ => writes_round (order k) k

/-- The writes to one place are those of its own turns. -/
lemma part_rows {row : ℕ → List (ℕ × UInt8)} (hrow : ∀ k, ∀ q ∈ row k, q.1 = k) {n : ℕ}
    (hk : k < n) : part k ((List.range n).flatMap row) = part k (row k) := by
  have hother : ∀ j, k ≠ j → part k (row j) = [] := fun j hj => by
    rw [List.eq_nil_iff_forall_not_mem]
    exact fun x hx => hj (hrow j _ (mem_part.mp hx))
  induction n with
  | zero => exact absurd hk (Nat.not_lt_zero k)
  | succ n ih =>
      rw [List.range_succ, List.flatMap_append, part_append, List.flatMap_singleton]
      rcases Nat.lt_succ_iff_lt_or_eq.mp hk with hlt | rfl
      · rw [ih hlt, hother n hlt.ne, List.append_nil]
      · have hbefore : part k ((List.range k).flatMap row) = [] := by
          rw [part_flatMap, List.flatMap_eq_nil_iff]
          exact fun j hj => hother j (List.mem_range.mp hj).ne'
        rw [hbefore, List.nil_append]

omit [DecidableEq τ] in
lemma part_writes_rounds {n : ℕ} (js : List τ) (order : ℕ → List τ) (hk : k < n) :
    part k (writes (rounds found n js order))
      = ((order k).filterMap (entry found k)).map Prod.snd := by
  have hplace : ∀ k, ∀ q ∈ (order k).filterMap (entry found k), q.1 = k := fun k q hq => by
    obtain ⟨i, -, hentry⟩ := List.mem_filterMap.mp hq
    rw [entry] at hentry
    split_ifs at hentry
    cases hentry
    rfl
  rw [writes_rounds, part_rows hplace hk, part_eq_map (hplace k)]

/-- An order of all threads, with a given one at its end. -/
lemma exists_order [Fintype τ] (i : τ) : ∃ js : List τ, js.Nodup ∧ (∀ j, j ∈ js)
    ∧ ∃ pre, js = pre ++ [i] := by
  refine ⟨(Finset.univ.erase i).toList ++ [i], ?_, fun j => ?_, _, rfl⟩
  · rw [List.nodup_append]
    refine ⟨Finset.nodup_toList _, List.nodup_singleton i, fun a ha b hb => ?_⟩
    rw [Finset.mem_toList, Finset.mem_erase] at ha
    rw [List.mem_singleton.mp hb]
    exact ha.1
  · rw [List.mem_append, Finset.mem_toList, Finset.mem_erase, List.mem_singleton]
    by_cases hj : j = i
    · exact Or.inr hj
    · exact Or.inl ⟨hj, Finset.mem_univ j⟩

/-- A run after which, at each place where threads have letters, that of a chosen one is
left. -/
lemma exists_run_left [Fintype τ] (found : τ → ℕ → ℤ) {content result : List UInt8}
    (hends : ∀ i, ∃ k, ¬ Writes (found i) k) (h : ∀ k, (∃ i, Writes (found i) k
        ∧ result[k]? = some ((letter (found i) k).toUInt8))
      ∨ ((∀ i, ¬ Writes (found i) k) ∧ result[k]? = content[k]?)) :
    ∃ tr s, (writers found).Run created tr s ∧ (∀ i, s i = .finished)
      ∧ overwrite (writes tr) content = result := by
  -- a place for which no thread has a letter
  obtain ⟨n, hn⟩ : ∃ n, ∀ i, ¬ Writes (found i) n := by
    choose last hlast using hends
    exact ⟨Finset.univ.sup last, fun i hw =>
      hlast i (hw.of_le (Finset.le_sup (Finset.mem_univ i)))⟩
  -- the order of the threads at each place
  have horder : ∀ k, ∃ js : List τ, js.Nodup ∧ (∀ j, j ∈ js)
      ∧ (js.filterMap (entry found k)).getLast?.map Prod.snd
          = if ∃ i, Writes (found i) k then result[k]? else none := fun k => by
    rcases h k with ⟨i, hw, hres⟩ | ⟨hnone, -⟩
    · obtain ⟨js, hn, hall, pre, rfl⟩ := exists_order i
      refine ⟨pre ++ [i], hn, hall, ?_⟩
      have hentry : entry found k i = some (k, (letter (found i) k).toUInt8) := if_pos hw
      rw [if_pos ⟨i, hw⟩, hres, List.filterMap_append, List.filterMap_cons_some hentry,
        List.filterMap_nil, List.getLast?_concat]
      rfl
    · refine ⟨Finset.univ.toList, Finset.nodup_toList _,
        fun j => Finset.mem_toList.mpr (Finset.mem_univ j), ?_⟩
      have hnil : Finset.univ.toList.filterMap (entry found k) = [] :=
        List.filterMap_eq_nil_iff.mpr fun i _ => if_neg (hnone i)
      rw [if_neg (not_exists.mpr hnone), hnil]
      rfl
  choose order hno hmem hlast using horder
  have hrun : (writers found).Run created (rounds found n (order 0) order) fun _ => .finished :=
    run_of_solo fun i => by
      rw [part_rounds (hno 0) (hmem 0 i) hno fun k => hmem k i]
      exact solo_whole (hn i)
  refine ⟨_, _, hrun, fun _ => rfl, List.ext_getElem? fun k => ?_⟩
  rcases h k with ⟨i, hw, hres⟩ | ⟨hnone, hres⟩
  · have hk : k < n := by
      by_contra hle
      exact hn i (hw.of_le (Nat.le_of_not_lt hle))
    rw [getElem?_overwrite (gapless_run hrun), part_writes_rounds _ _ hk, List.getLast?_map, hlast,
      if_pos ⟨i, hw⟩, hres, Option.some_or]
  · rcases left_of_run hrun (fun _ => rfl) content k with ⟨i, hw, -⟩ | ⟨-, hleft⟩
    · exact absurd hw (hnone i)
    · rw [hleft, hres]

/-- **Writers with offsets of their own**, whatever each finds in `thd_n`: the program can come
to its end when each thread comes behind `z` at some time, and the files that it can then leave
behind are those that hold at each place a letter that one of the threads has for it, or what
stood there before where no thread has one. A thread that finds `0` or `1` each time, which are
the values that `main` stores, has letters for the first `13` places, and none for a place from
`26` on. -/
theorem left_iff [Fintype τ] (found : τ → ℕ → ℤ) (content result : List UInt8) :
    ((∃ tr s, (writers found).Run created tr s ∧ (∀ i, s i = .finished)
          ∧ overwrite (writes tr) content = result)
        ↔ (∀ i, ∃ k, ¬ Writes (found i) k)
          ∧ ∀ k, (∃ i, Writes (found i) k
              ∧ result[k]? = some (letter (found i) k).toUInt8)
            ∨ ((∀ i, ¬ Writes (found i) k) ∧ result[k]? = content[k]?))
      ∧ ∀ i, (∀ k, found i k = 0 ∨ found i k = 1) →
        ∀ k, (k < 13 → Writes (found i) k) ∧ (26 ≤ k → ¬ Writes (found i) k) := by
  refine ⟨⟨?_, fun h => exists_run_left found h.1 h.2⟩,
    fun i hfound k => ⟨writes_of_lt hfound, not_writes_of_le hfound⟩⟩
  rintro ⟨tr, s, hrun, hfin, rfl⟩
  exact ⟨fun i => exists_not_writes hrun (hfin i), left_of_run hrun hfin content⟩

end Writers

end OwnWrites

end Streams

end OperatingSys
