import OperatingSys.Processes.Basic

/-!
The waits of `os_01/lab_04/src/03.c`.

The parent waits behind every `fork`, so its children run one after another (`OneByOne`). The
waits of its second loop find none left, and report that as an exit code of `0`
(`second_waits_fail`). Where a `fork` fails it does not come to that loop.
-/

namespace OperatingSys

namespace Processes

variable {n : ℕ}

/-- The calls of `03.c`, for `REP_N` children. -/
def calls03 (n : ℕ) : List (Call (Fin n)) :=
  (List.finRange n).flatMap (fun i => [.fork i, .wait]) ++ List.replicate n .wait

/-- A child while others are forked and waited for one by one, `k` of them so far. -/
def settled (k : ℕ) (i : Fin n) : Child := if i < k then .reaped else .unborn

lemma settled_not_present (k : ℕ) (i : Fin n) : (settled k i).present = false := by
  rw [settled]
  split_ifs <;> rfl

/-- **The invariant of `03.c`**: the children are there one after another, and the second loop
finds none. After a `fork` that has failed nothing is left to do. -/
inductive OneByOne (tr : List (Mover (Fin n) × Event (Fin n))) (s : State (Fin n)) : Prop
  | between (k : ℕ) (hk : k ≤ n) (failed : s.failed = none)
      (todo : s.todo = ((List.finRange n).drop k).flatMap (fun i => [.fork i, .wait])
        ++ List.replicate n .wait)
      (waited : waitedFor tr = ((List.finRange n).take k).map some)
      (children : s.children = settled k)
  | running (k : ℕ) (hk : k < n) (c : Child) (hc : c.present = true) (failed : s.failed = none)
      (todo : s.todo = .wait :: (((List.finRange n).drop (k + 1)).flatMap
        (fun i => [.fork i, .wait]) ++ List.replicate n .wait))
      (waited : waitedFor tr = ((List.finRange n).take k).map some)
      (children : s.children = Function.update (settled k) ⟨k, hk⟩ c)
  | after (j : ℕ) (hj : j ≤ n) (failed : s.failed = none)
      (todo : s.todo = List.replicate (n - j) .wait)
      (waited : waitedFor tr = (List.finRange n).map some ++ List.replicate j none)
      (children : s.children = settled n)
  | stopped (k : Fin n) (failed : s.failed = some k) (todo : s.todo = [])
      (waited : waitedFor tr = ((List.finRange n).take k).map some)
      (children : s.children = settled k)

variable {tr : List (Mover (Fin n) × Event (Fin n))} {s s' : State (Fin n)} {m : Mover (Fin n)}
  {e : Event (Fin n)}

lemma update_settled_succ {k : ℕ} (hk : k < n) :
    Function.update (settled k) ⟨k, hk⟩ .reaped = settled (k + 1) := by
  funext i
  by_cases hi : i = ⟨k, hk⟩
  · subst hi
    rw [Function.update_self, settled, if_pos (Nat.lt_succ_self k)]
  · have hne : (i : ℕ) ≠ k := fun h => hi (Fin.ext h)
    rw [Function.update_of_ne hi, settled, settled]
    refine if_congr ?_ rfl rfl
    omega

lemma take_succ_finRange {k : ℕ} (hk : k < n) :
    (List.finRange n).take (k + 1) = (List.finRange n).take k ++ [⟨k, hk⟩] := by
  rw [List.take_add_one, List.getElem?_eq_getElem (by rwa [List.length_finRange]),
    List.getElem_finRange]
  rfl

/-- After all children have been waited for in turn the second loop begins. -/
lemma OneByOne.second (h : OneByOne tr s) {rest : List (Call (Fin n))}
    (htodo : s.todo = .wait :: rest) : s.failed = none ∧
    ((∃ k, ∃ hk : k < n, ∃ c : Child, c.present = true
        ∧ rest = ((List.finRange n).drop (k + 1)).flatMap (fun i => [.fork i, .wait])
          ++ List.replicate n .wait
        ∧ waitedFor tr = ((List.finRange n).take k).map some
        ∧ s.children = Function.update (settled k) ⟨k, hk⟩ c)
      ∨ ∃ j, j < n ∧ rest = List.replicate (n - (j + 1)) .wait
        ∧ waitedFor tr = (List.finRange n).map some ++ List.replicate j none
        ∧ s.children = settled n) := by
  cases h with
  | between k hk failed todo waited children =>
      rw [todo] at htodo
      rcases hk.lt_or_eq with hlt | rfl
      · -- a `fork` is next
        rw [drop_finRange hlt] at htodo
        cases htodo
      · -- the first `wait` of the second loop
        rw [drop_finRange_self] at htodo
        obtain ⟨-, hpos, hrest⟩ := replicate_eq_cons htodo
        refine ⟨failed, Or.inr ⟨0, hpos, hrest, ?_, children⟩⟩
        rw [waited, List.take_of_length_le (List.length_finRange).le]
        exact (List.append_nil _).symm
  | running k hk c hc failed todo waited children =>
      rw [todo, List.cons.injEq] at htodo
      exact ⟨failed, Or.inl ⟨k, hk, c, hc, htodo.2.symm, waited, children⟩⟩
  | after j hj failed todo waited children =>
      rw [todo] at htodo
      obtain ⟨-, hpos, hrest⟩ := replicate_eq_cons htodo
      exact ⟨failed, Or.inr ⟨j, by omega, hrest, waited, children⟩⟩
  | stopped k failed todo waited children =>
      rw [todo] at htodo
      cases htodo

/-- At a `fork` the children before this one have been waited for in turn. -/
lemma OneByOne.at_fork (h : OneByOne tr s) {i : Fin n} {rest : List (Call (Fin n))}
    (htodo : s.todo = .fork i :: rest) : s.failed = none
      ∧ rest = .wait :: (((List.finRange n).drop (i + 1)).flatMap (fun i => [.fork i, .wait])
        ++ List.replicate n .wait)
      ∧ waitedFor tr = ((List.finRange n).take i).map some ∧ s.children = settled i := by
  cases h with
  | between k hk failed todo waited children =>
      rw [todo] at htodo
      rcases hk.lt_or_eq with hlt | rfl
      · rw [drop_finRange hlt, List.flatMap_cons, List.cons_append, List.cons_append,
          List.cons.injEq, Call.fork.injEq] at htodo
        obtain ⟨rfl, rfl⟩ := htodo
        exact ⟨failed, rfl, waited, children⟩
      · rw [drop_finRange_self] at htodo
        exact absurd htodo (replicate_wait_ne_fork _ _ _)
  | running k hk c hc failed todo waited children =>
      rw [todo] at htodo
      cases htodo
  | after j hj failed todo waited children =>
      rw [todo] at htodo
      exact absurd htodo (replicate_wait_ne_fork _ _ _)
  | stopped k failed todo waited children =>
      rw [todo] at htodo
      cases htodo

lemma OneByOne.forked (h : OneByOne tr s) {i : Fin n} {rest : List (Call (Fin n))}
    (htodo : s.todo = .fork i :: rest) : OneByOne (tr ++ [(m, .forked i)])
      ⟨rest, s.failed, Function.update s.children i .running⟩ := by
  obtain ⟨hfailed, rfl, hwaited, hchildren⟩ := h.at_fork htodo
  refine .running i i.isLt .running rfl hfailed rfl ?_ (by rw [hchildren])
  rw [waitedFor_snoc, hwaited, Event.found, List.append_nil]

lemma OneByOne.stops (h : OneByOne tr s) {i : Fin n} {rest : List (Call (Fin n))}
    (htodo : s.todo = .fork i :: rest) :
    OneByOne (tr ++ [(m, .failed i)]) ⟨[], some i, s.children⟩ := by
  obtain ⟨-, -, hwaited, hchildren⟩ := h.at_fork htodo
  refine .stopped i rfl rfl ?_ hchildren
  rw [waitedFor_snoc, hwaited, Event.found, List.append_nil]

lemma OneByOne.ended (h : OneByOne tr s) {i : Fin n} {status : ℕ}
    (hi : s.children i = .running) : OneByOne (tr ++ [(m, .ended i status)])
      ⟨s.todo, s.failed, Function.update s.children i (.zombie status)⟩ := by
  have hwaited : waitedFor (tr ++ [(m, Event.ended i status)]) = waitedFor tr := by
    rw [waitedFor_snoc, Event.found, List.append_nil]
  have hsettled : ∀ k, s.children ≠ settled k := fun k hk => by
    have hnot := settled_not_present k i
    rw [← hk, hi] at hnot
    cases hnot
  cases h with
  | between k hk failed todo waited children => exact absurd children (hsettled k)
  | running k hk c hc failed todo waited children =>
      have hik : i = ⟨k, hk⟩ := by
        by_contra hne
        have hnot := settled_not_present k i
        rw [children, Function.update_of_ne hne] at hi
        rw [hi] at hnot
        cases hnot
      subst hik
      refine .running k hk (.zombie status) rfl failed todo (hwaited.trans waited) ?_
      rw [children, Function.update_idem]
  | after j hj failed todo waited children => exact absurd children (hsettled n)
  | stopped k failed todo waited children => exact absurd children (hsettled k)

lemma oneByOne_step (h : OneByOne tr s) (hs : program.step s m = some (e, s')) :
    OneByOne (tr ++ [(m, e)]) s' := by
  cases step_of_program hs with
  | forked htodo hi => exact h.forked htodo
  | failed htodo hi => exact h.stops htodo
  | noChild htodo hall =>
      obtain ⟨hfailed, ⟨k, hk, c, hc, -, -, hchildren⟩ | ⟨j, hj, rfl, hw, hchildren⟩⟩ :=
        h.second htodo
      · -- the child that is there keeps the `wait` from failing
        have hnot := hall ⟨k, hk⟩
        rw [hchildren, Function.update_self, hc] at hnot
        cases hnot
      · refine .after (j + 1) hj hfailed rfl ?_ hchildren
        rw [waitedFor_snoc, hw, Event.found, List.replicate_succ', List.append_assoc]
  | @waited i status rest htodo hi =>
      obtain ⟨hfailed, ⟨k, hk, c, hc, rfl, hw, hchildren⟩ | ⟨j, hj, -, -, hchildren⟩⟩ :=
        h.second htodo
      · -- no other child is there
        have hik : i = ⟨k, hk⟩ := by
          by_contra hne
          have hnot := settled_not_present k i
          rw [hchildren, Function.update_of_ne hne] at hi
          rw [hi] at hnot
          cases hnot
        subst hik
        refine .between (k + 1) hk hfailed rfl ?_ ?_
        · rw [waitedFor_snoc, hw, Event.found, take_succ_finRange hk, List.map_append]
          rfl
        · dsimp only
          rw [hchildren, Function.update_idem, update_settled_succ]
      · -- in the second loop there is none at all
        have hnot := settled_not_present n i
        rw [← hchildren, hi] at hnot
        cases hnot
  | ended hi => exact h.ended hi

lemma oneByOne_run (h : program.Run (started (calls03 n)) tr s) : OneByOne tr s :=
  h.induct_trace (.between 0 (Nat.zero_le n) rfl rfl rfl rfl) fun _ _ _ _ _ hI hs =>
    oneByOne_step hI hs

/-- The parent of `03.c` always comes to the end of its calls. -/
lemma OneByOne.todo_of_stuck (h : OneByOne tr s) (hstuck : program.Stuck s) : s.todo = [] := by
  cases htodo : s.todo with
  | nil => rfl
  | cons call rest =>
      cases call with
      | fork i =>
          obtain ⟨-, -, -, hchildren⟩ := h.at_fork htodo
          refine absurd hstuck (not_stuck_of_fork htodo ?_)
          rw [hchildren]
          exact if_neg (lt_irrefl _)
      | wait =>
          obtain ⟨-, ⟨k, hk, c, hc, -, -, hchildren⟩ | ⟨j, hj, -, -, hchildren⟩⟩ :=
            h.second htodo
          · refine absurd hstuck (exists_step_of_present (i := ⟨k, hk⟩) htodo ?_)
            rw [hchildren, Function.update_self, hc]
          · refine absurd hstuck (not_stuck_of_noChild htodo fun i => ?_)
            rw [hchildren, settled_not_present]

/-- Two children are never there together. -/
lemma OneByOne.alone (h : OneByOne tr s) {i j : Fin n} (hi : (s.children i).present = true)
    (hj : (s.children j).present = true) : i = j := by
  cases h with
  | between k hk failed todo waited children =>
      rw [children, settled_not_present] at hi
      cases hi
  | running k hk c hc failed todo waited children =>
      have honly : ∀ l, (s.children l).present = true → l = ⟨k, hk⟩ := fun l hl => by
        by_contra hne
        rw [children, Function.update_of_ne hne, settled_not_present] at hl
        cases hl
      rw [honly i hi, honly j hj]
  | after l hl failed todo waited children =>
      rw [children, settled_not_present] at hi
      cases hi
  | stopped k failed todo waited children =>
      rw [children, settled_not_present] at hi
      cases hi

/-- The waits go through the children in order, and then bring none. -/
lemma OneByOne.waited_prefix (h : OneByOne tr s) :
    waitedFor tr <+: (List.finRange n).map some ++ List.replicate n none := by
  cases h with
  | between k hk failed todo waited children | running k hk c hc failed todo waited children
  | stopped k failed todo waited children =>
      rw [waited]
      exact ((List.take_prefix _ _).map some).trans (List.prefix_append _ _)
  | after j hj failed todo waited children =>
      rw [waited, List.prefix_append_right_inj, List.prefix_replicate_iff,
        List.length_replicate]
      exact ⟨hj, rfl⟩

lemma OneByOne.waited_of_done (h : OneByOne tr s) (hdone : s.todo = []) (hok : s.failed = none) :
    waitedFor tr = (List.finRange n).map some ++ List.replicate n none := by
  refine h.waited_prefix.eq_of_length_le ?_
  rw [List.length_append, List.length_map, List.length_finRange, List.length_replicate]
  cases h with
  | between k hk failed todo waited children =>
      rw [hdone] at todo
      have hn : List.replicate n Call.wait = ([] : List (Call (Fin n))) :=
        (List.append_eq_nil_iff.mp todo.symm).2
      rw [List.replicate_eq_nil_iff] at hn
      omega
  | running k hk c hc failed todo waited children =>
      rw [hdone] at todo
      cases todo
  | stopped k failed todo waited children =>
      rw [hok] at failed
      cases failed
  | after j hj failed todo waited children =>
      rw [hdone, eq_comm, List.replicate_eq_nil_iff] at todo
      rw [waited, List.length_append, List.length_map, List.length_finRange,
        List.length_replicate]
      omega

/-- After a `fork` that has failed the children before it have been waited for. -/
lemma OneByOne.of_failed (h : OneByOne tr s) {k : Fin n} (hk : s.failed = some k) :
    s.todo = [] ∧ waitedFor tr = ((List.finRange n).take k).map some := by
  cases h with
  | between k' hk' failed todo waited children | running k' hk' c hc failed todo waited children
  | after j hj failed todo waited children =>
      rw [failed] at hk
      cases hk
  | stopped k' failed todo waited children =>
      rw [failed, Option.some.injEq] at hk
      exact ⟨todo, hk ▸ waited⟩

/-- **The waits of `03.c`**: the children are there one after another, in their order. The steps
are bounded, and the parent always comes to the end of its calls. If every `fork` has succeeded,
the second loop has then reported nothing but failed waits, each with a line that says that the
exit code was `0`. If the `fork` of a child fails, those before it have been waited for, and the
second loop does not begin. -/
theorem second_waits_fail (h : program.Run (started (calls03 n)) tr s) :
    tr.length ≤ 6 * n ∧ (program.Stuck s → s.todo = [])
      ∧ (∀ i j, (s.children i).present = true → (s.children j).present = true → i = j)
      ∧ waitedFor tr <+: (List.finRange n).map some ++ List.replicate n none
      ∧ (s.todo = [] → s.failed = none → (waitedFor tr).take n = (List.finRange n).map some
        ∧ (reports ((results tr).drop n)).length = n
        ∧ ∀ k r, (reports ((results tr).drop n))[k]? = some r →
          r = (⟨none, none, some (k + 1, 0)⟩ : Report (Fin n)))
      ∧ ∀ k, s.failed = some k → s.todo = []
        ∧ waitedFor tr = ((List.finRange n).take k).map some := by
  have hI := oneByOne_run h
  have hcalls : (calls03 n).length = 3 * n := by
    simp only [calls03, List.length_append, List.length_flatMap, List.length_cons, List.length_nil,
      List.map_const', List.sum_replicate, List.length_finRange, List.length_replicate,
      smul_eq_mul]
    omega
  have hbound := length_le_of_run h
  refine ⟨by omega, hI.todo_of_stuck, fun i j => hI.alone, hI.waited_prefix, fun hdone hok => ?_,
    fun k => hI.of_failed⟩
  have hall := hI.waited_of_done hdone hok
  have hlen : ((List.finRange n).map some).length = n := by
    rw [List.length_map, List.length_finRange]
  -- behind the waits of the first loop there are only failed ones
  have hrest : ((results tr).drop n).map (Option.map Prod.fst) = List.replicate n none := by
    rw [List.map_drop, ← waitedFor, hall, List.drop_left' hlen]
  refine ⟨?_, ?_, fun k r hr => ?_⟩
  · rw [hall, List.take_left' hlen]
  · calc (reports ((results tr).drop n)).length
        = (((results tr).drop n).map (Option.map Prod.fst)).length := by
          rw [reports, List.length_mapIdx, List.length_map]
      _ = n := by rw [hrest, List.length_replicate]
  · obtain ⟨w, hw, rfl⟩ := exists_of_reports hr
    have hnone : w.map Prod.fst ∈ List.replicate n none := hrest ▸ List.mem_map_of_mem hw
    rw [List.eq_of_mem_replicate hnone, Option.map_eq_none_iff.mp (List.eq_of_mem_replicate hnone)]
    rfl

/-- Two children, and two waits that find none; and a second `fork` that fails. -/
theorem second_waits_fail_two : (∃ (tr : List (Mover (Fin 2) × Event (Fin 2)))
    (s : State (Fin 2)), program.Run (started (calls03 2)) tr s ∧ s.todo = []
      ∧ (reports ((results tr).drop 2)).length = 2)
    ∧ ∃ (tr : List (Mover (Fin 2) × Event (Fin 2))) (s : State (Fin 2)),
      program.Run (started (calls03 2)) tr s ∧ s.todo = [] ∧ waitedFor tr = [some 0] := by
  constructor
  · have hrun : (program.exec [.parent true, .ends 0 0, .reap 0, .parent true, .ends 1 256,
        .reap 1, .parent true, .parent true] (started (calls03 2))).any
        (fun q => q.2.todo.isEmpty && q.2.failed.isNone) = true := by decide +kernel
    obtain ⟨tr, s, h, hp⟩ := Machine.exists_run hrun
    obtain ⟨hdone, hok⟩ := Bool.and_eq_true_iff.mp hp
    have htodo : s.todo = [] := List.isEmpty_iff.mp hdone
    exact ⟨tr, s, h, htodo,
      ((second_waits_fail h).2.2.2.2.1 htodo (Option.isNone_iff_eq_none.mp hok)).2.1⟩
  · have hrun : (program.exec [.parent true, .ends 0 0, .reap 0, .parent false]
        (started (calls03 2))).any (fun q => q.2.failed = some 1) = true := by decide +kernel
    obtain ⟨tr, s, h, hp⟩ := Machine.exists_run hrun
    obtain ⟨htodo, hwaited⟩ := (second_waits_fail h).2.2.2.2.2 1 (of_decide_eq_true hp)
    exact ⟨tr, s, h, htodo, hwaited⟩

end Processes

end OperatingSys
