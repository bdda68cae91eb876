import OperatingSys.WorkQueue.Basic

/-!
The key strokes that reach the log of `workseq.c`.

One byte and one work item carry a key stroke from the interrupt to the worker. While
no interrupt comes before the first work has read the byte of the last one, each byte is
logged once and in order (`logged_eq_delivered`).
-/

namespace OperatingSys

namespace WorkQueue

/-- The bytes delivered by the interrupts of a run. -/
def delivered (tr : List (Mover × Event)) : List (BitVec 8) :=
  tr.filterMap fun q =>
    match q.1 with
    | .interrupt data => some data
    | .worker => none

/-- The characters logged by `queue_function_fir`. -/
def logged (tr : List (Mover × Event)) : List Char :=
  tr.filterMap fun q =>
    match q.2 with
    | .logs .fir out => some out.2
    | .handled | .takes _ | .logs .sec _ => none

/-- `fir_work` is pending, or has been taken and has not read the byte yet. -/
def Keys.waiting (k : Keys) : Prop := .fir ∈ k.pending ∨ k.running = some .fir

/-- The move is no interrupt while the first work waits, and none with the release
bit. -/
def Quiet (k : Keys) : Mover → Prop
  | .interrupt data => data < 0x80 ∧ ¬ k.waiting
  | .worker => True

/-- **The invariant**: what has been logged is the decoding of what has been delivered,
but for the last byte while the first work waits. -/
structure InStep (tr : List (Mover × Event)) (k : Keys) : Prop where
  waits : k.waiting → ∃ data, k.scancode = data ∧ data < 0x80
    ∧ (delivered tr).map decode = logged tr ++ [decode data]
  done : ¬ k.waiting → (delivered tr).map decode = logged tr
  once : .fir ∈ k.pending → k.running ≠ some .fir
  nodup : k.pending.Nodup

lemma inStep_initial : InStep [] initial where
  waits := by simp [Keys.waiting, initial]
  done := fun _ => rfl
  once := by simp [initial]
  nodup := List.nodup_nil

/-- An interrupt that comes while the first work does not wait. -/
lemma InStep.interrupt {tr : List (Mover × Event)} {k : Keys} (h : InStep tr k)
    {data : BitVec 8} (hc : Quiet k (.interrupt data)) :
    InStep (tr ++ [(.interrupt data, .handled)]) (handler IRQ data k).2 := by
  obtain ⟨hlt, hnot⟩ := hc
  have hfir : .fir ∉ k.pending := fun hm => hnot (Or.inl hm)
  have hrun : k.running ≠ some .fir := fun hm => hnot (Or.inr hm)
  have hk : (handler IRQ data k).2 = queueWork .sec (queueWork .fir { k with scancode := data }) :=
    congrArg Prod.snd (if_pos rfl)
  rw [hk]
  refine ⟨fun _ => ⟨data, by simp, hlt, ?_⟩, fun hw => ?_, fun _ => by simpa using hrun,
    nodup_queueWork (nodup_queueWork h.nodup)⟩
  · have hdone := h.done hnot
    simp only [delivered, logged, List.filterMap_append, List.map_append] at hdone ⊢
    rw [hdone]
    simp
  · exact absurd (Or.inl (by simp)) hw

/-- A step of the worker. -/
lemma InStep.worker {tr : List (Mover × Event)} {k k' : Keys} {e : Event} (h : InStep tr k)
    (hs : worker k = some (e, k')) : InStep (tr ++ [(.worker, e)]) k' := by
  have hdel : delivered (tr ++ [(.worker, e)]) = delivered tr := by
    simp [delivered]
  have hlog : logged (tr ++ [(.worker, e)]) = logged tr ++ logged [(.worker, e)] := by
    simp [logged]
  rw [WorkQueue.worker] at hs
  cases hrun : k.running with
  | some w =>
      simp only [hrun, Option.some.injEq, Prod.mk.injEq] at hs
      obtain ⟨rfl, rfl⟩ := hs
      cases w with
      | fir =>
          -- the first work reads the byte it waited with
          have hfir : .fir ∉ k.pending := fun hm => h.once hm hrun
          obtain ⟨data, hdata, hlt, hwait⟩ := h.waits (Or.inr hrun)
          have hout : logged [(.worker, .logs .fir (report k))] = [decode data] := by
            simp [logged, report, hdata, getAscii_toUnsigned hlt]
          refine ⟨fun hw => ?_, fun _ => by rw [hdel, hlog, hwait, hout], by simp, h.nodup⟩
          simp [Keys.waiting, hfir] at hw
      | sec =>
          have hw : Keys.waiting { k with running := none } ↔ k.waiting := by
            simp [Keys.waiting, hrun]
          have hout : logged [(.worker, .logs .sec (report k))] = [] := rfl
          rw [hout, List.append_nil] at hlog
          refine ⟨fun hw' => ?_, fun hw' => ?_, by simp, h.nodup⟩
          · rw [hdel, hlog]
            exact h.waits (hw.mp hw')
          · rw [hdel, hlog]
            exact h.done fun hk => hw' (hw.mpr hk)
  | none =>
      cases hp : k.pending with
      | nil => simp [hrun, hp] at hs
      | cons w ws =>
          simp only [hrun, hp, Option.some.injEq, Prod.mk.injEq] at hs
          obtain ⟨rfl, rfl⟩ := hs
          have hnodup := h.nodup
          rw [hp, List.nodup_cons] at hnodup
          have hw : Keys.waiting { k with pending := ws, running := some w } ↔ k.waiting := by
            simp [Keys.waiting, hrun, hp, or_comm, eq_comm]
          have hout : logged [(.worker, .takes w)] = [] := rfl
          rw [hout, List.append_nil] at hlog
          refine ⟨fun hw' => ?_, fun hw' => ?_, fun hm he => ?_, hnodup.2⟩
          · rw [hdel, hlog]
            exact h.waits (hw.mp hw')
          · rw [hdel, hlog]
            exact h.done fun hk => hw' (hw.mpr hk)
          · obtain rfl : w = .fir := Option.some.inj he
            exact hnodup.1 hm

/-- **Key strokes that are worked off in time**: along every schedule without release
bits on which no interrupt comes while the first work waits, the log of the drained
queue is the decoding of the bytes delivered, in order and one for each. -/
theorem logged_eq_delivered (is : List Mover) (hq : keys.Meets Quiet is initial)
    (tr : List (Mover × Event)) (k : Keys) (hexec : keys.exec is initial = some (tr, k))
    (hd : Drained k) : logged tr = (delivered tr).map decode := by
  have h : InStep tr k := hq.induct_trace (I := InStep) inStep_initial
    (fun tr k m e k' h hc hs => by
      cases m with
      | interrupt data =>
          obtain ⟨rfl, rfl⟩ := Prod.mk.injEq .. ▸ Option.some.inj hs
          exact h.interrupt hc
      | worker => exact h.worker hs) hexec
  refine (h.done ?_).symm
  simp [Keys.waiting, hd.1, hd.2]

/-- The keys `a` and `b`, the second pressed when the works of the first are done. -/
theorem logged_eq_delivered_two_keys : ∃ tr k,
    keys.exec ([.interrupt 0x1e] ++ List.replicate 4 .worker ++ [.interrupt 0x30]
      ++ List.replicate 4 .worker) initial = some (tr, k)
      ∧ logged tr = ['a', 'b'] ∧ logged tr = (delivered tr).map decode := by
  refine ⟨_, _, rfl, by decide, ?_⟩
  refine logged_eq_delivered ([.interrupt 0x1e] ++ List.replicate 4 .worker ++ [.interrupt 0x30]
    ++ List.replicate 4 .worker) ?_ _ _ rfl (by decide)
  simp [Machine.meets_cons_iff, Machine.meets_nil, Quiet, Keys.waiting, keys, handler, queueWork,
    worker, initial]

/-- The keys `a` and `b`, the second pressed before the worker has taken the first
work. -/
theorem key_lost : ¬ ∀ is tr k, keys.exec is initial = some (tr, k) → Drained k →
    logged tr = (delivered tr).map decode := by
  intro hall
  have hlost := hall ([.interrupt 0x1e, .interrupt 0x30] ++ List.replicate 4 .worker) _ _ rfl
    (by decide)
  exact absurd hlost (by decide)

end WorkQueue

end OperatingSys
