import OperatingSys.Foundations.Coalesced
import OperatingSys.WorkQueue.Strokes

/-!
What each of the two works logs, however the interrupts come.

A work that is pending is not queued once more, and reads the one global `scancode` when it
runs. So for each of the two works the strokes coalesce (`Kept.step`): each work logs the
strokes in their order, each of them at most twice, and at last the last one
(`reports_of_run`).
-/

namespace OperatingSys

namespace WorkQueue

/-- What a work logs that reads this byte. -/
def shown (data : BitVec 8) : ℤ × Char := (data.toInt, getAscii (toUnsigned data))

/-- What the work `w` logs in a step. -/
def Event.report (w : Work) : Event → Option (ℤ × Char)
  | .logs w' out => if w' = w then some out else none
  | .handled | .takes _ => none

/-- The log of the work `w`. -/
def reports (w : Work) (tr : List (Mover × Event)) : List (ℤ × Char) :=
  tr.filterMap fun q => q.2.report w

/-- The work is pending. -/
def Keys.isPending (k : Keys) (w : Work) : Bool := decide (w ∈ k.pending)

/-- The work has been taken and has not read the byte yet. -/
def Keys.isRunning (k : Keys) (w : Work) : Bool := decide (k.running = some w)

variable {w w' : Work} {tr : List (Mover × Event)} {k k' : Keys} {m : Mover} {e : Event}

lemma reports_snoc : reports w (tr ++ [(m, e)]) = reports w tr ++ (e.report w).toList :=
  filterMap_snoc _ tr (m, e)

lemma delivered_worker : delivered (tr ++ [(.worker, e)]) = delivered tr := by
  simp [delivered]

/-! ### What a step does to one of the works -/

/-- What a step can be, for the work `w`. -/
inductive ReportStep (w : Work) (k : Keys) : Mover → Event → Keys → Prop
  | interrupt (data : BitVec 8) (k' : Keys) (hp : k'.isPending w = true)
      (hr : k'.isRunning w = k.isRunning w) (hc : k'.scancode = data) :
      ReportStep w k (.interrupt data) .handled k'
  | takes (k' : Keys) (hp : k.isPending w = true) (hr : k.isRunning w = false)
      (hp' : k'.isPending w = false) (hr' : k'.isRunning w = true)
      (hc : k'.scancode = k.scancode) : ReportStep w k .worker (.takes w) k'
  | logs (k' : Keys) (hr : k.isRunning w = true) (hp' : k'.isPending w = k.isPending w)
      (hr' : k'.isRunning w = false) (hc : k'.scancode = k.scancode) :
      ReportStep w k .worker (.logs w (report k)) k'
  /-- A step for the other work. -/
  | other {e : Event} (k' : Keys) (he : e.report w = none)
      (hp : k'.isPending w = k.isPending w) (hr : k'.isRunning w = k.isRunning w)
      (hc : k'.scancode = k.scancode) : ReportStep w k .worker e k'

lemma reportStep_of_worker (hk : k.pending.Nodup) (h : worker k = some (e, k')) :
    ReportStep w k .worker e k' := by
  rw [worker] at h
  cases hr : k.running with
  | some v =>
      rw [hr] at h
      cases h
      by_cases hv : v = w
      · subst hv
        exact .logs _ (by simp [Keys.isRunning, hr]) rfl (by simp [Keys.isRunning]) rfl
      · exact .other _ (if_neg hv) rfl (by simp [Keys.isRunning, hr, hv]) rfl
  | none =>
      rw [hr] at h
      cases hp : k.pending with
      | nil =>
          rw [hp] at h
          cases h
      | cons v ws =>
          rw [hp] at h hk
          cases h
          obtain ⟨hnot, -⟩ := List.nodup_cons.mp hk
          by_cases hv : v = w
          · subst hv
            exact .takes _ (by simp [Keys.isPending, hp]) (by simp [Keys.isRunning, hr])
              (by simp [Keys.isPending, hnot]) (by simp [Keys.isRunning]) rfl
          · exact .other _ rfl (by simp [Keys.isPending, hp, Ne.symm hv])
              (by simp [Keys.isRunning, hr, hv]) rfl

lemma reportStep_of_step (hk : k.pending.Nodup) (h : keys.step k m = some (e, k')) :
    ReportStep w k m e k' := by
  cases m with
  | interrupt data =>
      cases h
      exact .interrupt data _ (by cases w <;> simp [Keys.isPending, handler])
        (by simp [Keys.isRunning, handler]) (by simp [handler])
  | worker => exact reportStep_of_worker hk h

lemma nodup_of_step (hk : k.pending.Nodup) (h : keys.step k m = some (e, k')) :
    k'.pending.Nodup := by
  cases m with
  | interrupt data =>
      cases h
      exact nodup_queueWork (nodup_queueWork hk)
  | worker =>
      simp only [keys, worker] at h
      split at h
      · cases h
        exact hk
      · split at h
        · cases h
        · rename_i hp
          cases h
          rw [hp] at hk
          exact (List.nodup_cons.mp hk).2

/-! ### The strokes coalesce -/

/-- **The invariant**: the strokes have coalesced in `scancode`, for the work `w`. -/
structure Kept (w : Work) (tr : List (Mover × Event)) (k : Keys) (ys : List (BitVec 8)) :
    Prop where
  reports : reports w tr = ys.map shown
  reads : Coalesced (delivered tr) ys (k.isPending w) (k.isRunning w)
  last : ∀ x ∈ (delivered tr).getLast?, k.scancode = x

variable {ys : List (BitVec 8)}

lemma kept_initial (w : Work) : Kept w [] initial [] where
  reports := rfl
  reads := by cases w <;> exact .nil
  last := nofun

lemma Kept.step (h : Kept w tr k ys) (hs : ReportStep w k m e k') :
    ∃ ys', Kept w (tr ++ [(m, e)]) k' ys' := by
  cases hs with
  | interrupt data _ hp hr hc =>
      have hdel : delivered (tr ++ [(.interrupt data, .handled)]) = delivered tr ++ [data] := by
        simp [delivered]
      refine ⟨ys, ?_, ?_, ?_⟩
      · rw [reports_snoc]
        exact (List.append_nil _).trans h.reports
      · rw [hdel, hp, hr]
        exact h.reads.request data
      · rw [hdel, List.getLast?_concat, hc]
        exact fun x hx => Option.some.inj hx
  | takes _ hp hr hp' hr' hc =>
      have hreads := h.reads
      rw [hp, hr] at hreads
      refine ⟨ys, ?_, ?_, ?_⟩
      · rw [reports_snoc]
        exact (List.append_nil _).trans h.reports
      · rw [delivered_worker, hp', hr']
        exact hreads.start
      · rw [delivered_worker, hc]
        exact h.last
  | logs _ hr hp' hr' hc =>
      have hreads := h.reads
      have hlast := h.last
      rw [hr] at hreads
      -- the work reads the byte of the last stroke
      obtain ⟨xs, x, hx⟩ := hreads.exists_snoc_of_cleared
      rw [hx, List.getLast?_concat] at hlast
      have hscan : k.scancode = x := hlast x rfl
      rw [hx] at hreads
      refine ⟨ys ++ [x], ?_, ?_, ?_⟩
      · rw [reports_snoc, h.reports, List.map_append, Event.report, if_pos rfl, report, hscan]
        rfl
      · rw [delivered_worker, hx, hp', hr']
        exact hreads.read
      · rw [delivered_worker, hx, List.getLast?_concat, hc]
        exact hlast
  | other _ he hp hr hc =>
      refine ⟨ys, ?_, ?_, ?_⟩
      · rw [reports_snoc, he, Option.toList_none, List.append_nil, h.reports]
      · rw [delivered_worker, hp, hr]
        exact h.reads
      · rw [delivered_worker, hc]
        exact h.last

lemma exists_kept (w : Work) (h : keys.Run initial tr k) : ∃ ys, Kept w tr k ys := by
  have hboth : k.pending.Nodup ∧ ∃ ys, Kept w tr k ys :=
    h.induct_trace (I := fun tr k => k.pending.Nodup ∧ ∃ ys, Kept w tr k ys)
      ⟨List.nodup_nil, [], kept_initial w⟩ fun tr k m e k' ⟨hnodup, ys, hk⟩ hs =>
        ⟨nodup_of_step hnodup hs, hk.step (reportStep_of_step hnodup hs)⟩
  exact hboth.2

/-- **The strokes that are logged**: however the interrupts come between the steps of the
worker, each of the two works logs the strokes in their order, each of them at most twice and
in all not more often than there are strokes, and when the queue is drained the last one has
been logged. -/
theorem reports_of_run (h : keys.Run initial tr k) (w : Work) :
    ∃ c : List ℕ, c.length = (delivered tr).length
      ∧ reports w tr = timesOver ((delivered tr).map shown) c ∧ (∀ n ∈ c, n ≤ 2)
      ∧ c.sum ≤ (delivered tr).length ∧ (Drained k → ∀ n ∈ c.getLast?, 1 ≤ n) := by
  obtain ⟨ys, hk⟩ := exists_kept w h
  obtain ⟨c, hlen, hys, htwice, hsum, hlast⟩ := hk.reads.exists_counts
  refine ⟨c, hlen, ?_, htwice, hsum, fun hd => hlast ?_ ?_⟩
  · rw [hk.reports, hys, map_timesOver]
  · simp [Keys.isPending, hd.1]
  · simp [Keys.isRunning, hd.2]

/-- The second key is pressed when the worker has taken the first work for the first: that work
logs the second key twice, and the other one logs it once. -/
theorem reports_of_run_two : ∃ tr k, keys.Run initial tr k
    ∧ reports .fir tr = [(0x30, 'b'), (0x30, 'b')] ∧ reports .sec tr = [(0x30, 'b')]
    ∧ ∃ c : List ℕ, reports .sec tr = timesOver ((delivered tr).map shown) c
      ∧ ∀ n ∈ c.getLast?, 1 ≤ n := by
  obtain ⟨tr, k, h, hp⟩ := Machine.exists_run (show (keys.exec ([.interrupt 0x1e, .worker,
    .interrupt 0x30] ++ List.replicate 5 .worker) initial).any
      (fun r => reports .fir r.1 = [(0x30, 'b'), (0x30, 'b')]
        && reports .sec r.1 = [(0x30, 'b')] && decide (Drained r.2)) = true by decide +kernel)
  simp only [Bool.and_eq_true, decide_eq_true_eq] at hp
  obtain ⟨⟨hfir, hsec⟩, hd⟩ := hp
  obtain ⟨c, -, hspread, -, -, hlast⟩ := reports_of_run h .sec
  exact ⟨tr, k, h, hfir, hsec, c, hspread, hlast hd⟩

end WorkQueue

end OperatingSys
