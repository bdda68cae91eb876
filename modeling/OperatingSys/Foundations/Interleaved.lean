import Mathlib.Tactic

/-!
Values interleaved from several sources.

Each value stands with its source. `part i` are the values of one source, in their order, and
the parts are all there is to a list but for the way in which it is interleaved
(`perm_of_part_eq`). Values that came in blocks are read off in the same way
(`perm_flatten_of_part`).
-/

namespace OperatingSys

variable {ι α : Type*} [DecidableEq ι]

/-- The values of the source `i`. -/
def part (i : ι) (l : List (ι × α)) : List α :=
  l.filterMap fun q => if q.1 = i then some q.2 else none

lemma part_append (i : ι) (l l' : List (ι × α)) : part i (l ++ l') = part i l ++ part i l' :=
  List.filterMap_append

@[simp] lemma part_nil (i : ι) : part i ([] : List (ι × α)) = [] := rfl

lemma part_cons_self (i : ι) (a : α) (l : List (ι × α)) :
    part i ((i, a) :: l) = a :: part i l :=
  List.filterMap_cons_some (if_pos rfl)

lemma part_cons_of_ne {i j : ι} (h : j ≠ i) (a : α) (l : List (ι × α)) :
    part i ((j, a) :: l) = part i l :=
  List.filterMap_cons_none (if_neg h)

lemma mem_part {i : ι} {a : α} {l : List (ι × α)} : a ∈ part i l ↔ (i, a) ∈ l := by
  simp only [part, List.mem_filterMap, Option.ite_none_right_eq_some, Option.some.injEq]
  constructor
  · rintro ⟨⟨j, b⟩, hmem, rfl, rfl⟩
    exact hmem
  · exact fun h => ⟨(i, a), h, rfl, rfl⟩

lemma part_eq_map {i : ι} {l : List (ι × α)} (h : ∀ q ∈ l, q.1 = i) :
    part i l = l.map Prod.snd := by
  rw [part, ← List.filterMap_eq_map]
  exact List.filterMap_congr fun q hq => if_pos (h q hq)

lemma part_flatMap {β : Type*} (i : ι) (f : β → List (ι × α)) (l : List β) :
    part i (l.flatMap f) = l.flatMap fun b => part i (f b) := List.filterMap_flatMap

/-- A value as often as it is among those of its source. -/
lemma count_part [DecidableEq α] (i : ι) (a : α) (l : List (ι × α)) :
    (part i l).count a = l.count (i, a) := by
  induction l with
  | nil => rfl
  | cons q l ih =>
      obtain ⟨j, b⟩ := q
      by_cases hj : j = i
      · subst hj
        rw [part_cons_self, List.count_cons, List.count_cons, ih]
        simp
      · rw [part_cons_of_ne hj, List.count_cons, ih]
        simp [hj]

/-- **The parts determine a list** but for the interleaving. -/
lemma perm_of_part_eq {l l' : List (ι × α)} (h : ∀ i, part i l = part i l') : l.Perm l' := by
  classical
  rw [List.perm_iff_count]
  rintro ⟨i, a⟩
  rw [← count_part, h, count_part]

/-- What a function reads off the values, with their sources. -/
def sift {β : Type*} (f : α → Option β) (l : List (ι × α)) : List (ι × β) :=
  l.filterMap fun q => (f q.2).map (Prod.mk q.1)

omit [DecidableEq ι] in
lemma sift_append {β : Type*} (f : α → Option β) (l l' : List (ι × α)) :
    sift f (l ++ l') = sift f l ++ sift f l' := List.filterMap_append

lemma part_sift {β : Type*} (f : α → Option β) (i : ι) (l : List (ι × α)) :
    part i (sift f l) = (part i l).filterMap f := by
  rw [part, sift, part, List.filterMap_filterMap, List.filterMap_filterMap]
  refine List.filterMap_congr fun q _ => ?_
  by_cases hi : q.1 = i
  · cases hf : f q.2 <;> simp [hi, hf]
  · cases hf : f q.2 <;> simp [hi]

lemma part_map {β : Type*} (f : α → β) (i : ι) (l : List (ι × α)) :
    part i (l.map fun q => (q.1, f q.2)) = (part i l).map f := by
  rw [part, part, List.filterMap_map, List.map_filterMap]
  refine List.filterMap_congr fun q _ => ?_
  by_cases hi : q.1 = i <;> simp [hi]

/-- One value for each of some sources. -/
lemma part_map_of_nodup {js : List ι} (hn : js.Nodup) {i : ι} (hi : i ∈ js) (a : ι → α) :
    part i (js.map fun j => (j, a j)) = [a i] := by
  induction js with
  | nil => cases hi
  | cons j js ih =>
      obtain ⟨hj, hjs⟩ := List.nodup_cons.mp hn
      rw [List.map_cons]
      by_cases hij : j = i
      · subst hij
        have hrest : part j (js.map fun k => (k, a k)) = [] := by
          rw [part, List.filterMap_eq_nil_iff]
          intro q hq
          obtain ⟨k, hk, rfl⟩ := List.mem_map.mp hq
          exact if_neg fun (h : k = j) => hj (h ▸ hk)
        rw [part_cons_self, hrest]
      · rw [part_cons_of_ne hij]
        exact ih hjs ((List.mem_cons.mp hi).resolve_left (Ne.symm hij))

/-- The values of blocks, each with the source of its block. -/
def spread (B : List (ι × List α)) : List (ι × α) := B.flatMap fun b => b.2.map (Prod.mk b.1)

lemma part_map_mk (i j : ι) (l : List α) :
    part i (l.map (Prod.mk j)) = if j = i then l else [] := by
  induction l with
  | nil => simp
  | cons a l ih =>
      rw [List.map_cons]
      by_cases hj : j = i
      · subst hj
        rw [part_cons_self, ih, if_pos rfl, if_pos rfl]
      · rw [part_cons_of_ne hj, ih, if_neg hj, if_neg hj]

lemma part_spread (i : ι) (B : List (ι × List α)) : part i (spread B) = (part i B).flatten := by
  induction B with
  | nil => rfl
  | cons b B ih =>
      obtain ⟨j, l⟩ := b
      rw [spread, List.flatMap_cons, part_append, part_map_mk, ← spread, ih]
      by_cases hj : j = i
      · subst hj
        rw [if_pos rfl, part_cons_self, List.flatten_cons]
      · rw [if_neg hj, part_cons_of_ne hj, List.nil_append]

omit [DecidableEq ι] in
lemma map_snd_spread (B : List (ι × List α)) :
    (spread B).map Prod.snd = (B.map Prod.snd).flatten := by
  induction B with
  | nil => rfl
  | cons b B ih =>
      rw [spread, List.flatMap_cons, List.map_append, ← spread, ih, List.map_cons,
        List.flatten_cons, List.map_map]
      congr 1
      exact List.map_id _

/-- Values that each source took from its blocks are, in some order, those of all blocks. -/
lemma perm_flatten_of_part {l : List (ι × α)} {B : List (ι × List α)}
    (h : ∀ i, part i l = (part i B).flatten) : (l.map Prod.snd).Perm (B.map Prod.snd).flatten := by
  rw [← map_snd_spread]
  refine (perm_of_part_eq fun i => ?_).map Prod.snd
  rw [h, part_spread]

end OperatingSys
