import Mathlib.Tactic

/-!
Requests that coalesce.

A request leaves a value in one place and sets a flag. A server that finds the flag set clears
it, and later reads the value that is there then, which may be the one of a later request. So
a request may go unread, and may be read twice.

`Coalesced xs ys p r`: after the requests `xs` the server has read `ys`, the flag is `p`, and
`r` says whether the server has cleared it and has not read yet. `exists_counts` says how often
each request is read: never more than twice, no more reads than requests in all, and the last
request is read before the server rests.
-/

namespace OperatingSys

variable {α β : Type*}

/-- **Requests that coalesce**, and what a server has read of them. -/
inductive Coalesced : List α → List α → Bool → Bool → Prop
  | nil : Coalesced [] [] false false
  | request {xs ys : List α} {p r : Bool} (h : Coalesced xs ys p r) (x : α) :
      Coalesced (xs ++ [x]) ys true r
  | start {xs ys : List α} (h : Coalesced xs ys true false) : Coalesced xs ys false true
  | read {xs ys : List α} {x : α} {p : Bool} (h : Coalesced (xs ++ [x]) ys p true) :
      Coalesced (xs ++ [x]) (ys ++ [x]) p false

/-! ### Values as often as they are counted -/

/-- Each value as often as its number says. -/
def timesOver (xs : List α) (c : List ℕ) : List α :=
  (xs.zip c).flatMap fun q => List.replicate q.2 q.1

lemma timesOver_snoc {xs : List α} {c : List ℕ} (h : c.length = xs.length) (x : α) (n : ℕ) :
    timesOver (xs ++ [x]) (c ++ [n]) = timesOver xs c ++ List.replicate n x := by
  rw [timesOver, List.zip_append h.symm, List.flatMap_append]
  exact congrArg (timesOver xs c ++ ·) (List.append_nil _)

lemma map_timesOver (f : α → β) (xs : List α) (c : List ℕ) :
    (timesOver xs c).map f = timesOver (xs.map f) c := by
  induction xs generalizing c with
  | nil => rfl
  | cons x xs ih =>
      cases c with
      | nil => rfl
      | cons n c =>
          have htail := ih c
          rw [timesOver, timesOver] at htail
          rw [timesOver, timesOver, List.map_cons, List.zip_cons_cons, List.zip_cons_cons,
            List.flatMap_cons, List.flatMap_cons, List.map_append, List.map_replicate, htail]

/-! ### How often a request is read -/

namespace Coalesced

variable {xs ys : List α} {x : α} {p r : Bool}

/-- Nothing happens before the first request. -/
lemma eq_of_nil (h : Coalesced [] ys p r) : ys = [] ∧ p = false ∧ r = false := by
  generalize hx : ([] : List α) = l at h
  induction h with
  | nil => exact ⟨rfl, rfl, rfl⟩
  | request | read => simp at hx
  | start _ ih => exact absurd (ih hx).2.1 (by simp)

/-- A server that has cleared the flag has a request to read. -/
lemma exists_snoc_of_cleared (h : Coalesced xs ys p true) : ∃ xs' x, xs = xs' ++ [x] := by
  rcases List.eq_nil_or_concat' xs with rfl | hsnoc
  · exact absurd h.eq_of_nil.2.2 (by simp)
  · exact hsnoc

/-- The count: how often the requests before the last one have been read, and how often the
last one. What is still to come of the last one is in the flag and with the server. -/
structure Counted (xs ys : List α) (x : α) (p r : Bool) (c : List ℕ) (n : ℕ) : Prop where
  length : c.length = xs.length
  reads : ys = timesOver xs c ++ List.replicate n x
  twice : ∀ m ∈ c, m ≤ 2
  all : c.sum + n + p.toNat + r.toNat ≤ xs.length + 1
  last : 1 ≤ n + p.toNat + r.toNat ∧ n + p.toNat + r.toNat ≤ 2

/-- One more request settles the count of the last one. -/
lemma Counted.request {c : List ℕ} {n : ℕ} (h : Counted xs ys x p r c n) (y : α) :
    Counted (xs ++ [x]) ys y true r (c ++ [n]) 0 where
  length := by rw [List.length_append, List.length_append, h.length]; rfl
  reads := by rw [timesOver_snoc h.length, ← h.reads, List.replicate_zero, List.append_nil]
  twice := by
    intro m hm
    rcases List.mem_append.mp hm with hm | hm
    · exact h.twice m hm
    · rw [List.mem_singleton.mp hm]
      exact le_trans (by omega) h.last.2
  all := by
    have hall := h.all
    rw [List.sum_append, List.sum_singleton, List.length_append, List.length_singleton]
    simp only [Bool.toNat_true]
    omega
  last := by
    have hr := r.toNat_le
    simp only [Bool.toNat_true]
    omega

lemma exists_counted (h : Coalesced (xs ++ [x]) ys p r) : ∃ c n, Counted xs ys x p r c n := by
  generalize hl : xs ++ [x] = l at h
  induction h generalizing xs x with
  | nil => simp at hl
  | @request zs ys p r h y ih =>
      obtain ⟨rfl, hy⟩ := List.append_inj' hl rfl
      obtain rfl := List.singleton_inj.mp hy
      -- it is the first request, or the one before it has been counted
      rcases List.eq_nil_or_concat' xs with rfl | ⟨xs', x', rfl⟩
      · obtain ⟨rfl, rfl, rfl⟩ := h.eq_of_nil
        exact ⟨[], 0, rfl, rfl, by simp, by simp, by simp⟩
      · obtain ⟨c, n, hc⟩ := ih rfl
        exact ⟨_, _, hc.request x⟩
  | start h ih =>
      obtain ⟨c, n, hc⟩ := ih hl
      exact ⟨c, n, hc.length, hc.reads, hc.twice, hc.all, hc.last⟩
  | @read zs ys y p h ih =>
      obtain ⟨rfl, hy⟩ := List.append_inj' hl rfl
      obtain rfl := List.singleton_inj.mp hy
      obtain ⟨c, n, hc⟩ := ih rfl
      have hall := hc.all
      have hlast := hc.last
      simp only [Bool.toNat_true] at hall hlast
      refine ⟨c, n + 1, hc.length, ?_, hc.twice, ?_, ?_⟩
      · rw [hc.reads, List.append_assoc, ← List.replicate_succ']
      · simp only [Bool.toNat_false]
        omega
      · simp only [Bool.toNat_false]
        omega

/-- **Coalescing**: the requests are read in their order, each of them at most twice and in all
not more often than there are requests, and a server at rest has read the last one. -/
theorem exists_counts (h : Coalesced xs ys p r) : ∃ c : List ℕ, c.length = xs.length
    ∧ ys = timesOver xs c ∧ (∀ n ∈ c, n ≤ 2) ∧ c.sum ≤ xs.length
    ∧ (p = false → r = false → ∀ n ∈ c.getLast?, 1 ≤ n) := by
  rcases List.eq_nil_or_concat' xs with rfl | ⟨xs', x, rfl⟩
  · obtain ⟨rfl, -, -⟩ := h.eq_of_nil
    exact ⟨[], rfl, rfl, by simp, le_rfl, by simp⟩
  · obtain ⟨c, n, hc⟩ := h.exists_counted
    have hall := hc.all
    have hlast := hc.last
    have hn : n ≤ 2 := by omega
    refine ⟨c ++ [n], ?_, ?_, List.forall_mem_append.mpr ⟨hc.twice, by simpa using hn⟩, ?_, ?_⟩
    · rw [List.length_append, List.length_append, hc.length]
      rfl
    · rw [timesOver_snoc hc.length, hc.reads]
    · rw [List.sum_append, List.sum_singleton, List.length_append, List.length_singleton]
      omega
    · rintro rfl rfl m hm
      rw [List.getLast?_append_of_ne_nil _ (by simp), List.getLast?_singleton,
        Option.mem_some_iff] at hm
      rw [← hm]
      simpa using hlast.1

end Coalesced

end OperatingSys
