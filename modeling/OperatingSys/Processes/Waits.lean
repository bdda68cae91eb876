import OperatingSys.Processes.Basic

/-!
The waits of `os_01/lab_04/src/02.c`.

The parent forks its children and then waits as often, so each wait brings another of them,
in the order in which they are found to have ended (`Collecting`). Its second loop looks at
`ret_val`, which is `0`, in place of `status` (`each_child_reported`). Where a `fork` fails the
parent waits for none of the children before it.
-/

namespace OperatingSys

namespace Processes

variable {n : ℕ}

/-- The calls of `02.c`, for `REP_N` children. -/
def calls02 (n : ℕ) : List (Call (Fin n)) :=
  (List.finRange n).map .fork ++ List.replicate n .wait

/-- **The invariant of `02.c`**: first the children are forked one by one, then each wait brings
another of them. After a `fork` that has failed nothing is left to do. -/
inductive Collecting (tr : List (Mover (Fin n) × Event (Fin n))) (s : State (Fin n)) : Prop
  | forking (k : ℕ) (hk : k ≤ n) (failed : s.failed = none)
      (todo : s.todo = ((List.finRange n).drop k).map .fork ++ List.replicate n .wait)
      (waited : waitedFor tr = []) (old : ∀ i : Fin n, i < k → (s.children i).present = true)
      (new : ∀ i : Fin n, k ≤ i → s.children i = .unborn)
  | waiting (l : List (Fin n)) (failed : s.failed = none)
      (todo : s.todo = List.replicate (n - l.length) .wait)
      (waited : waitedFor tr = l.map some) (nodup : l.Nodup)
      (present : ∀ i, (s.children i).present = decide (i ∉ l))
  | stopped (k : Fin n) (failed : s.failed = some k) (todo : s.todo = [])
      (waited : waitedFor tr = [])
      (present : ∀ i, (s.children i).present = decide (i < k))

variable {tr : List (Mover (Fin n) × Event (Fin n))} {s s' : State (Fin n)} {m : Mover (Fin n)}
  {e : Event (Fin n)}

/-- At a wait the children that are present are those that no wait has brought. -/
lemma Collecting.at_wait (h : Collecting tr s) {rest : List (Call (Fin n))}
    (htodo : s.todo = .wait :: rest) : s.failed = none ∧ ∃ l : List (Fin n), l.length < n
      ∧ rest = List.replicate (n - (l.length + 1)) .wait ∧ waitedFor tr = l.map some ∧ l.Nodup
      ∧ ∀ i, (s.children i).present = decide (i ∉ l) := by
  cases h with
  | forking k hk failed todo waited old new =>
      rw [todo] at htodo
      rcases hk.lt_or_eq with hlt | rfl
      · rw [drop_finRange hlt] at htodo
        cases htodo
      · rw [drop_finRange_self] at htodo
        obtain ⟨-, hpos, hrest⟩ := replicate_eq_cons htodo
        exact ⟨failed, [], hpos, hrest, waited, List.nodup_nil,
          fun i => by simpa using old i i.isLt⟩
  | waiting l failed todo waited nodup present =>
      rw [todo] at htodo
      obtain ⟨-, hpos, hrest⟩ := replicate_eq_cons htodo
      exact ⟨failed, l, by omega, hrest, waited, nodup, present⟩
  | stopped k failed todo waited present =>
      rw [todo] at htodo
      cases htodo

/-- At a `fork` the children before this one are there, and no wait has been called. -/
lemma Collecting.at_fork (h : Collecting tr s) {i : Fin n} {rest : List (Call (Fin n))}
    (htodo : s.todo = .fork i :: rest) : s.failed = none
      ∧ rest = ((List.finRange n).drop (i + 1)).map .fork ++ List.replicate n .wait
      ∧ waitedFor tr = [] ∧ (∀ j, j < i → (s.children j).present = true)
      ∧ ∀ j, i ≤ j → s.children j = .unborn := by
  cases h with
  | forking k hk failed todo waited old new =>
      rw [todo] at htodo
      rcases hk.lt_or_eq with hlt | rfl
      · rw [drop_finRange hlt, List.map_cons, List.cons_append, List.cons.injEq,
          Call.fork.injEq] at htodo
        obtain ⟨rfl, rfl⟩ := htodo
        exact ⟨failed, rfl, waited, old, new⟩
      · rw [drop_finRange_self] at htodo
        exact absurd htodo (replicate_wait_ne_fork _ _ _)
  | waiting l failed todo waited nodup present =>
      rw [todo] at htodo
      exact absurd htodo (replicate_wait_ne_fork _ _ _)
  | stopped k failed todo waited present =>
      rw [todo] at htodo
      cases htodo

/-- As long as not every child has been waited for, one is present. -/
lemma exists_not_mem {l : List (Fin n)} (hl : l.length < n) : ∃ i, i ∉ l := by
  by_contra hall
  push Not at hall
  have hcard : (Finset.univ : Finset (Fin n)).card ≤ l.toFinset.card :=
    Finset.card_le_card fun i _ => List.mem_toFinset.mpr (hall i)
  rw [Finset.card_univ, Fintype.card_fin] at hcard
  exact absurd (hcard.trans (List.toFinset_card_le l)) (Nat.not_le_of_lt hl)

lemma Collecting.forked (h : Collecting tr s) {i : Fin n} {rest : List (Call (Fin n))}
    (htodo : s.todo = .fork i :: rest) : Collecting (tr ++ [(m, .forked i)])
      ⟨rest, s.failed, Function.update s.children i .running⟩ := by
  obtain ⟨hfailed, rfl, hwaited, hold, hnew⟩ := h.at_fork htodo
  refine .forking (i + 1) i.isLt hfailed rfl ?_ (fun j hj => ?_) fun j hj => ?_
  · rw [waitedFor_snoc, hwaited]
    rfl
  · dsimp only
    by_cases hji : j = i
    · rw [hji, Function.update_self]
      rfl
    · rw [Function.update_of_ne hji]
      exact hold j (lt_of_le_of_ne (Fin.le_def.mpr (Nat.le_of_lt_succ hj)) hji)
  · have hlt : i < j := Fin.lt_def.mpr hj
    dsimp only
    rw [Function.update_of_ne hlt.ne']
    exact hnew j hlt.le

/-- A `fork` fails: the children before it are left alone. -/
lemma Collecting.stops (h : Collecting tr s) {i : Fin n} {rest : List (Call (Fin n))}
    (htodo : s.todo = .fork i :: rest) :
    Collecting (tr ++ [(m, .failed i)]) ⟨[], some i, s.children⟩ := by
  obtain ⟨-, -, hwaited, hold, hnew⟩ := h.at_fork htodo
  refine .stopped i rfl rfl ?_ fun j => ?_
  · rw [waitedFor_snoc, hwaited]
    rfl
  · rcases lt_or_ge j i with hlt | hge
    · rw [decide_eq_true hlt]
      exact hold j hlt
    · rw [decide_eq_false hge.not_gt]
      exact congrArg Child.present (hnew j hge)

lemma Collecting.ended (h : Collecting tr s) {i : Fin n} {status : ℕ}
    (hi : s.children i = .running) : Collecting (tr ++ [(m, .ended i status)])
      ⟨s.todo, s.failed, Function.update s.children i (.zombie status)⟩ := by
  have hwaited : waitedFor (tr ++ [(m, Event.ended i status)]) = waitedFor tr := by
    rw [waitedFor_snoc, Event.found, List.append_nil]
  cases h with
  | forking k hk failed todo waited old new =>
      refine .forking k hk failed todo (hwaited.trans waited) (fun j hj => ?_) fun j hj => ?_
      · rw [present_update_zombie hi]
        exact old j hj
      · have hne : j ≠ i := by
          rintro rfl
          rw [new j hj] at hi
          cases hi
        dsimp only
        rw [Function.update_of_ne hne]
        exact new j hj
  | waiting l failed todo waited nodup present =>
      refine .waiting l failed todo (hwaited.trans waited) nodup fun j => ?_
      rw [present_update_zombie hi]
      exact present j
  | stopped k failed todo waited present =>
      refine .stopped k failed todo (hwaited.trans waited) fun j => ?_
      rw [present_update_zombie hi]
      exact present j

lemma collecting_step (h : Collecting tr s) (hs : program.step s m = some (e, s')) :
    Collecting (tr ++ [(m, e)]) s' := by
  cases step_of_program hs with
  | forked htodo hi => exact h.forked htodo
  | failed htodo hi => exact h.stops htodo
  | noChild htodo hall =>
      obtain ⟨-, l, hl, -, -, -, hpresent⟩ := h.at_wait htodo
      -- a child that has not been found is still there
      obtain ⟨i, hi⟩ := exists_not_mem hl
      have htrue := hpresent i
      rw [hall i, decide_eq_true hi] at htrue
      cases htrue
  | @waited i status rest htodo hi =>
      obtain ⟨hfailed, l, hl, rfl, hwaited, hnodup, hpresent⟩ := h.at_wait htodo
      -- the child is one that has not been found before
      have hnew : i ∉ l := by
        have htrue := hpresent i
        rw [hi] at htrue
        exact of_decide_eq_true htrue.symm
      refine .waiting (l ++ [i]) hfailed ?_ ?_ ?_ fun j => ?_
      · rw [List.length_append, List.length_singleton]
      · rw [waitedFor_snoc, hwaited, List.map_append]
        rfl
      · exact List.nodup_append.mpr ⟨hnodup, List.nodup_singleton i, fun a ha b hb => by
          rw [List.mem_singleton.mp hb]
          exact fun heq => hnew (heq ▸ ha)⟩
      · by_cases hj : j = i
        · subst hj
          simp [Child.present]
        · dsimp only
          rw [Function.update_of_ne hj, hpresent j]
          simp [hj]
  | ended hi => exact h.ended hi

lemma collecting_run (h : program.Run (started (calls02 n)) tr s) : Collecting tr s :=
  h.induct_trace (.forking 0 (Nat.zero_le n) rfl rfl rfl (fun _ hi => absurd hi (Nat.not_lt_zero _))
    fun _ _ => rfl) fun _ _ _ _ _ hI hs => collecting_step hI hs

/-- The parent of `02.c` always comes to the end of its calls. -/
lemma Collecting.todo_of_stuck (h : Collecting tr s) (hstuck : program.Stuck s) :
    s.todo = [] := by
  cases htodo : s.todo with
  | nil => rfl
  | cons call rest =>
      cases call with
      | fork i =>
          obtain ⟨-, -, -, -, hnew⟩ := h.at_fork htodo
          exact absurd hstuck (not_stuck_of_fork htodo (hnew i le_rfl))
      | wait =>
          obtain ⟨-, l, hl, -, -, -, hpresent⟩ := h.at_wait htodo
          obtain ⟨i, hi⟩ := exists_not_mem hl
          have htrue := hpresent i
          rw [decide_eq_true hi] at htrue
          exact absurd hstuck (exists_step_of_present htodo htrue)

/-- At the end every child has been waited for, unless a `fork` has failed. -/
lemma Collecting.perm_of_done (h : Collecting tr s) (hdone : s.todo = [])
    (hok : s.failed = none) : (waitedFor tr).Perm ((List.finRange n).map some) := by
  have hall : ∃ l : List (Fin n), waitedFor tr = l.map some ∧ l.Nodup ∧ n ≤ l.length := by
    cases h with
    | forking k hk failed todo waited old new =>
        rw [hdone] at todo
        have hn : List.replicate n Call.wait = ([] : List (Call (Fin n))) :=
          (List.append_eq_nil_iff.mp todo.symm).2
        rw [List.replicate_eq_nil_iff] at hn
        exact ⟨[], waited, List.nodup_nil, hn.le⟩
    | waiting l failed todo waited nodup present =>
        rw [hdone, eq_comm, List.replicate_eq_nil_iff] at todo
        exact ⟨l, waited, nodup, by omega⟩
    | stopped k failed todo waited present =>
        rw [hok] at failed
        cases failed
  obtain ⟨l, hl, hnodup, hlen⟩ := hall
  rw [hl]
  refine List.Perm.map some ((List.perm_ext_iff_of_nodup hnodup (List.nodup_finRange n)).mpr ?_)
  refine fun i => iff_of_true ?_ (List.mem_finRange i)
  by_contra hi
  have hcard := Finset.card_le_card (Finset.subset_univ (insert i l.toFinset))
  rw [Finset.card_insert_of_notMem (fun h => hi (List.mem_toFinset.mp h)),
    List.toFinset_card_of_nodup hnodup, Finset.card_univ, Fintype.card_fin] at hcard
  omega

/-- After a `fork` that has failed nothing is waited for. -/
lemma Collecting.of_failed (h : Collecting tr s) {k : Fin n} (hk : s.failed = some k) :
    s.todo = [] ∧ waitedFor tr = [] ∧ ∀ i, (s.children i).present = decide (i < k) := by
  cases h with
  | forking k' hk' failed todo waited old new =>
      rw [failed] at hk
      cases hk
  | waiting l failed todo waited nodup present =>
      rw [failed] at hk
      cases hk
  | stopped k' failed todo waited present =>
      rw [failed, Option.some.injEq] at hk
      exact ⟨todo, waited, hk ▸ present⟩

/-- **The waits of `02.c`**: the steps are bounded, and the parent always comes to the end of its
calls. If every `fork` has succeeded, every child has then been reported once, in the order in
which the waits brought them, and with the status of its end; the line behind says each time that
the exit code was `0`. If the `fork` of a child fails, the parent returns: none of the children
before it is waited for or reported, and those behind it never are there. -/
theorem each_child_reported (h : program.Run (started (calls02 n)) tr s) :
    tr.length ≤ 4 * n ∧ (program.Stuck s → s.todo = [])
      ∧ (s.todo = [] → s.failed = none →
        ((reports (results tr)).map Report.pid).Perm ((List.finRange n).map some)
        ∧ ∀ k r, (reports (results tr))[k]? = some r →
          (∃ i status, r.pid = some i ∧ r.status = some status ∧ EndedWith tr i status)
            ∧ r.line = some (k + 1, 0))
      ∧ ∀ k, s.failed = some k → s.todo = [] ∧ reports (results tr) = []
        ∧ ∀ i, (s.children i).present = decide (i < k) := by
  have hI := collecting_run h
  have hcalls : (calls02 n).length = 2 * n := by
    rw [calls02, List.length_append, List.length_map, List.length_finRange, List.length_replicate]
    omega
  have hbound := length_le_of_run h
  refine ⟨by omega, hI.todo_of_stuck, fun hdone hok => ⟨?_, fun k r hr => ?_⟩, fun k hk => ?_⟩
  · rw [map_pid_reports]
    exact hI.perm_of_done hdone hok
  · obtain ⟨w, hw, rfl⟩ := exists_of_reports hr
    -- no wait has failed, as the children found are all children
    have hfound : w.map Prod.fst ∈ (List.finRange n).map some :=
      (hI.perm_of_done hdone hok).mem_iff.mp (List.mem_map_of_mem hw)
    cases w with
    | none => simp at hfound
    | some q => exact ⟨⟨q.1, q.2, rfl, rfl, (known_run h).result q.1 q.2 hw⟩, rfl⟩
  · obtain ⟨hdone, hwaited, hpresent⟩ := hI.of_failed hk
    have hnone : results tr = [] := List.map_eq_nil_iff.mp hwaited
    exact ⟨hdone, by rw [hnone]; rfl, hpresent⟩

/-- Two children, of which the second is killed and found first, and a second `fork` that
fails. -/
theorem each_child_reported_two : (∃ (tr : List (Mover (Fin 2) × Event (Fin 2)))
    (s : State (Fin 2)), program.Run (started (calls02 2)) tr s ∧ s.todo = []
      ∧ ((reports (results tr)).map Report.pid).Perm ((List.finRange 2).map some))
    ∧ ∃ (tr : List (Mover (Fin 2) × Event (Fin 2))) (s : State (Fin 2)),
      program.Run (started (calls02 2)) tr s ∧ s.todo = [] ∧ reports (results tr) = [] := by
  constructor
  · have hrun : (program.exec [.parent true, .parent true, .ends 1 9, .reap 1, .ends 0 0, .reap 0]
        (started (calls02 2))).any (fun q => q.2.todo.isEmpty && q.2.failed.isNone) = true := by
      decide +kernel
    obtain ⟨tr, s, h, hp⟩ := Machine.exists_run hrun
    obtain ⟨hdone, hok⟩ := Bool.and_eq_true_iff.mp hp
    have htodo : s.todo = [] := List.isEmpty_iff.mp hdone
    exact ⟨tr, s, h, htodo,
      ((each_child_reported h).2.2.1 htodo (Option.isNone_iff_eq_none.mp hok)).1⟩
  · have hrun : (program.exec [.parent true, .ends 0 0, .parent false]
        (started (calls02 2))).any (fun q => q.2.failed = some 1) = true := by decide +kernel
    obtain ⟨tr, s, h, hp⟩ := Machine.exists_run hrun
    obtain ⟨htodo, hnone, -⟩ := (each_child_reported h).2.2.2 1 (of_decide_eq_true hp)
    exact ⟨tr, s, h, htodo, hnone⟩

end Processes

end OperatingSys
