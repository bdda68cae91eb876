import OperatingSys.Foundations.Independent

/-!
Readers with descriptors of their own, `os_02/lab_05/src/02_thread.c`.

Each thread opens the file itself, so it has an offset of its own, and it reads and writes
one byte at a time. The threads share nothing but the output, so what a thread has written
and holds is always the beginning of the file (`taken_solo`). The outputs of the program are
all the ways to interleave the whole file as often as there are threads (`outputs_iff`).
-/

namespace OperatingSys

namespace Streams

namespace Own

/-- Where a thread is in `open_read`, with the offset of its descriptor. -/
inductive Pc where
  | read (offset : ℕ)
  | write (offset : ℕ) (c : UInt8)
  | finished
  deriving DecidableEq

inductive Event where
  | read
  | write (c : UInt8)
  | finish
  deriving DecidableEq

/-- `open_read` after its `open`: a `read` of one byte that returns `1` is followed by the
`write`. -/
def openRead (content : List UInt8) : Pc → Option (Event × Pc)
  | .read offset =>
      match content[offset]? with
      | some c => some (.read, .write (offset + 1) c)
      | none => some (.finish, .finished)
  | .write offset c => some (.write c, .read offset)
  | .finished => none

/-- What a step writes. -/
def Event.out : Event → Option UInt8
  | .write c => some c
  | .read | .finish => none

/-! ### One thread -/

/-- What a thread has read and not yet written. -/
def Pc.held : Pc → List UInt8
  | .write _ c => [c]
  | .read _ | .finished => []

/-- The part of the file that a thread has read. -/
def Pc.taken (content : List UInt8) : Pc → List UInt8
  | .read offset | .write offset _ => content.take offset
  | .finished => content

variable {content : List UInt8} {pc pc' : Pc} {e : Event} {es : List Event}

/-- The steps of `open_read`. -/
inductive ReadStep (content : List UInt8) : Pc → Event → Pc → Prop
  | read {k : ℕ} {c : UInt8} (h : content[k]? = some c) :
      ReadStep content (.read k) .read (.write (k + 1) c)
  | finish {k : ℕ} (h : content[k]? = none) : ReadStep content (.read k) .finish .finished
  | write {k : ℕ} {c : UInt8} : ReadStep content (.write k c) (.write c) (.read k)

lemma readStep_of_openRead (h : openRead content pc = some (e, pc')) :
    ReadStep content pc e pc' := by
  cases pc with
  | read k =>
      rw [openRead] at h
      cases hk : content[k]? with
      | some c =>
          rw [hk] at h
          cases h
          exact .read hk
      | none =>
          rw [hk] at h
          cases h
          exact .finish hk
  | write k c =>
      cases h
      exact .write
  | finished => cases h

/-- What a step writes and holds afterwards goes on from what was held before. -/
lemma ReadStep.taken (h : ReadStep content pc e pc') {out : List UInt8}
    (hout : out ++ pc.held = pc.taken content) :
    out ++ e.out.toList ++ pc'.held = pc'.taken content := by
  cases h with
  | @read k c hk =>
      rw [Pc.held, Pc.taken, List.append_nil] at hout
      rw [Event.out, Option.toList_none, List.append_nil, hout, Pc.held, Pc.taken,
        List.take_add_one, hk, Option.toList_some]
  | finish hk =>
      rw [Pc.held, Pc.taken, List.append_nil] at hout
      rw [Event.out, Option.toList_none, List.append_nil, hout, Pc.held, Pc.taken,
        List.append_nil, List.take_of_length_le (List.getElem?_eq_none_iff.mp hk)]
  | write =>
      rw [Event.out, Option.toList_some, Pc.held, List.append_nil]
      exact hout

/-- **A thread has written the beginning of the file**, but for the byte it holds. -/
lemma taken_solo (h : Solo (openRead content) (.read 0) es pc) :
    es.filterMap Event.out ++ pc.held = pc.taken content := by
  refine h.induct_events (I := fun es pc => es.filterMap Event.out ++ pc.held
    = pc.taken content) rfl ?_
  intro es pc e pc' hI hs
  rw [List.filterMap_append, List.filterMap_cons, List.filterMap_nil]
  have hstep := (readStep_of_openRead hs).taken hI
  cases hout : e.out <;> rwa [hout] at hstep

/-- The steps that read and write one byte. -/
def copy (c : UInt8) : List Event := [.read, .write c]

/-- From any offset a thread may go through the rest of the file. -/
lemma solo_rest (pre rest : List UInt8) :
    Solo (openRead (pre ++ rest)) (.read pre.length) (rest.flatMap copy ++ [.finish])
      .finished := by
  induction rest generalizing pre with
  | nil =>
      refine Solo.single ?_
      rw [openRead, List.getElem?_eq_none (by simp)]
  | cons c rest ih =>
      have hread : openRead (pre ++ c :: rest) (.read pre.length)
          = some (.read, .write (pre.length + 1) c) := by
        rw [openRead, List.getElem?_append_right le_rfl, Nat.sub_self, List.getElem?_cons_zero]
      have hwrite : openRead (pre ++ c :: rest) (.write (pre.length + 1) c)
          = some (.write c, .read (pre.length + 1)) := rfl
      have hrest := ih (pre ++ [c])
      rw [← List.append_cons, List.length_append, List.length_singleton] at hrest
      exact Solo.cons hread (Solo.cons hwrite hrest)

/-- A thread may always go on to its end. -/
lemma exists_solo_finished (h : Solo (openRead content) (.read 0) es pc) :
    ∃ es', Solo (openRead content) pc es' .finished := by
  have hfrom : ∀ k, ∃ es', Solo (openRead content) (.read k) es' .finished := fun k => by
    rcases le_total k content.length with hk | hk
    · have hrest := solo_rest (content.take k) (content.drop k)
      rw [List.take_append_drop, List.length_take, min_eq_left hk] at hrest
      exact ⟨_, hrest⟩
    · refine ⟨[.finish], Solo.single ?_⟩
      rw [openRead, List.getElem?_eq_none hk]
  cases pc with
  | read k => exact hfrom k
  | write k c =>
      obtain ⟨es', hes⟩ := hfrom k
      have hwrite : openRead content (.write k c) = some (.write c, .read k) := rfl
      exact ⟨_, Solo.cons hwrite hes⟩
  | finished => exact ⟨[], .nil⟩

/-! ### All threads -/

section Readers

variable {τ : Type*} [DecidableEq τ]

/-- The threads. -/
def readers (content : List UInt8) : Machine (τ → Pc) τ Event :=
  independent fun _ => openRead content

/-- Every thread has opened the file. -/
def opened : τ → Pc := fun _ => .read 0

/-- The output, with the threads that have written it. -/
def printed (tr : List (τ × Event)) : List (τ × UInt8) := sift Event.out tr

variable {s : τ → Pc} {tr : List (τ × Event)}

/-- The steps that give an output, and the threads `js` at their end. -/
def fullTrace (js : List τ) (out : List (τ × UInt8)) : List (τ × Event) :=
  spread (out.map fun q => (q.1, copy q.2)) ++ js.map fun i => (i, .finish)

omit [DecidableEq τ] in
lemma printed_append (tr tr' : List (τ × Event)) :
    printed (tr ++ tr') = printed tr ++ printed tr' := sift_append _ _ _

omit [DecidableEq τ] in
lemma printed_fullTrace (js : List τ) (out : List (τ × UInt8)) :
    printed (fullTrace js out) = out := by
  have hjs : printed (js.map fun i => (i, Event.finish)) = [] := by
    rw [printed, sift, List.filterMap_map, List.filterMap_eq_nil_iff]
    exact fun _ _ => rfl
  rw [fullTrace, printed_append, hjs, List.append_nil]
  induction out with
  | nil => rfl
  | cons q out ih =>
      rw [List.map_cons, spread, List.flatMap_cons, printed_append, ← spread, ih]
      rfl

lemma part_fullTrace {js : List τ} (hn : js.Nodup) {i : τ} (hi : i ∈ js)
    (out : List (τ × UInt8)) :
    part i (fullTrace js out) = (part i out).flatMap copy ++ [.finish] := by
  rw [fullTrace, part_append, part_spread, part_map, part_map_of_nodup hn hi fun _ => Event.finish,
    List.flatMap_def]

/-- Whatever the threads have done so far, they may all come to their end. -/
lemma exists_run_finished [Fintype τ] (h : (readers content).Run opened tr s) :
    ∃ tr' t, (readers content).Run opened (tr ++ tr') t ∧ ∀ i, t i = .finished := by
  choose es hes using fun i => exists_solo_finished (solo_of_run h i)
  have hrun : (readers content).Run s
      (spread ((Finset.univ : Finset τ).toList.map fun i => (i, es i))) fun _ => .finished := by
    refine run_of_solo fun i => ?_
    rw [part_spread, part_map_of_nodup (Finset.nodup_toList _)
      (Finset.mem_toList.mpr (Finset.mem_univ i)) es, List.flatten_singleton]
    exact hes i
  exact ⟨_, _, h.append hrun, fun _ => rfl⟩

/-- **Readers with offsets of their own**: whatever has been done, all threads may come to
their end, and then the outputs are the interleavings of one copy of the file for each
thread, all of them and no others. -/
theorem outputs_iff [Fintype τ] (content : List UInt8) :
    (∀ tr (s : τ → Pc), (readers content).Run opened tr s →
        ∃ tr' t, (readers content).Run opened (tr ++ tr') t ∧ ∀ i, t i = .finished)
      ∧ ∀ out : List (τ × UInt8), (∃ tr s, (readers content).Run opened tr s
        ∧ (∀ i, s i = .finished) ∧ printed tr = out) ↔ ∀ i, part i out = content := by
  refine ⟨fun tr s h => exists_run_finished h, fun out => ⟨?_, fun h => ?_⟩⟩
  · rintro ⟨tr, s, hrun, hfin, rfl⟩ i
    have htaken := taken_solo (solo_of_run hrun i)
    rw [hfin i, Pc.held, Pc.taken, List.append_nil] at htaken
    rw [printed, part_sift, htaken]
  · refine ⟨fullTrace (Finset.univ : Finset τ).toList out, fun _ => .finished,
      run_of_solo fun i => ?_, fun _ => rfl, printed_fullTrace _ _⟩
    rw [part_fullTrace (Finset.nodup_toList _) (Finset.mem_toList.mpr (Finset.mem_univ i)), h i]
    exact solo_rest [] content

end Readers

end Own

end Streams

end OperatingSys
