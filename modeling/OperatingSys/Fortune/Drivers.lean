import OperatingSys.Fortune.LifeCycle
import OperatingSys.Fortune.Proc
import OperatingSys.Fortune.Seq

/-!
The two fortune modules as drivers, and when their lives are sound.

`fort_seq.c` clears the memory before the proc file exists and resets its offsets after
that, `fort_proc.c` resets the offsets and then clears the memory. Which of the two
offsets is the write offset is not the same either, so each module has its own
statements that may discard what has been stored (`seqDriver`, `procDriver`).
-/

namespace OperatingSys

namespace Fortune

/-- Clearing the memory keeps what is stored if that is all zero. -/
lemma readable_clear_iff {pot bytes : List UInt8} {n : ℤ} (hsize : pot.length = PAGE_SIZE)
    (h : Readable pot n bytes) :
    Readable (List.replicate MAX_COOKIE_LEN 0) n bytes ↔ ∀ b ∈ pot.take n.toNat, b = 0 := by
  obtain ⟨⟨rest, rfl⟩, rfl⟩ := h
  rw [Int.toNat_natCast, List.take_left]
  constructor
  · rintro ⟨⟨rest', hrest⟩, -⟩ b hb
    have hmem : b ∈ List.replicate MAX_COOKIE_LEN (0 : UInt8) := by
      rw [hrest]
      exact List.mem_append_left _ hb
    exact List.eq_of_mem_replicate hmem
  · intro hzero
    have hlen : bytes.length + rest.length = MAX_COOKIE_LEN := by
      rw [← List.length_append]
      exact hsize
    refine ⟨⟨List.replicate rest.length 0, ?_⟩, rfl⟩
    conv_rhs => rw [List.eq_replicate_of_mem hzero]
    rw [List.replicate_append_replicate, hlen]

/-- Resetting the write offset keeps what is stored if that is nothing. -/
lemma readable_zero_iff {pot bytes : List UInt8} {n : ℤ} (h : Readable pot n bytes) :
    Readable pot 0 bytes ↔ n = 0 := by
  obtain ⟨hpot, rfl⟩ := h
  exact ⟨fun h => h.2.symm, fun h => ⟨hpot, h.symm⟩⟩

namespace Seq

def message : Call → Option (List UInt8)
  | .write buf _ => some buf
  | .read => none

/-- The call touches `cookie_pot`. -/
def Uses (s : State) : Call → Prop
  | .write buf _ => overflows s.cookieIndex buf.length = false
  | .read => s.cookieIndex ≠ 0

lemma length_step {s s' : State} {k : Call} {e : ℤ × List UInt8}
    (h : handlers.step s k = some (e, s')) : s'.cookiePot.length = s.cookiePot.length := by
  cases k with
  | write buf c =>
      obtain ⟨ret, hw, -⟩ := of_step_write h
      obtain ⟨pot, index, hm, rfl⟩ := of_writeSeq hw
      exact storeMessage_length hm
  | read =>
      rw [step_read, showSeq] at h
      split_ifs at h
      · obtain ⟨-, rfl⟩ := Prod.mk.injEq .. ▸ Option.some.inj h
        rfl
      · rw [Option.map_map, Option.map_eq_some_iff] at h
        obtain ⟨t, -, he⟩ := h
        obtain ⟨-, rfl⟩ := Prod.mk.injEq .. ▸ he
        rfl

lemma uses_iff {s : State} (k : Call) (h : s.cookiePot = []) :
    handlers.step s k = none ↔ Uses s k := by
  cases k with
  | write buf c =>
      rw [step_write, writeSeq, Option.map_eq_none_iff, Option.map_eq_none_iff, h,
        storeMessage_nil_iff]
      rfl
  | read =>
      rw [step_read, showSeq, Uses]
      split_ifs with h0
      · simp [h0]
      · refine iff_of_true ?_ h0
        rw [Option.map_eq_none_iff, Option.map_eq_none_iff, h, cstr]
        split_ifs
        · rfl
        · rw [List.drop_nil]
          rfl

lemma readable_step {s s' : State} {k : Call} {e : ℤ × List UInt8} {bytes : List UInt8}
    (hsize : s.cookiePot.length = PAGE_SIZE) (hclosed : Closed bytes)
    (hr : Readable s.cookiePot s.cookieIndex bytes) (h : handlers.step s k = some (e, s')) :
    Readable s'.cookiePot s'.cookieIndex (bytes ++ ((message k).elim [] (added · e.1))) := by
  obtain ⟨⟨rest, hrest⟩, hoff⟩ := hr
  cases k with
  | write buf c =>
      obtain ⟨ret, hw, rfl⟩ := of_step_write h
      obtain ⟨pot, index, hm, rfl⟩ := of_writeSeq hw
      rw [hrest, hoff] at hm
      exact storeMessage_added (hrest ▸ hsize) hclosed hm
  | read =>
      rw [message, Option.elim_none, List.append_nil]
      rw [step_read, showSeq] at h
      split_ifs at h
      · obtain ⟨-, rfl⟩ := Prod.mk.injEq .. ▸ Option.some.inj h
        exact ⟨⟨rest, hrest⟩, hoff⟩
      · rw [Option.map_map, Option.map_eq_some_iff] at h
        obtain ⟨t, -, he⟩ := h
        obtain ⟨-, rfl⟩ := Prod.mk.injEq .. ▸ he
        exact ⟨⟨rest, hrest⟩, hoff⟩

end Seq

/-- `fort_seq.c`. -/
def seqDriver : Driver Seq.State Seq.Call where
  handlers := Seq.handlers
  vars := ⟨[], 0, 0⟩
  pot := Seq.State.cookiePot
  setPot m s := { s with cookiePot := m }
  writeOffset := Seq.State.cookieIndex
  message := Seq.message
  uses := Seq.Uses
  prepare _ := ⟨List.replicate MAX_COOKIE_LEN 0, List.length_replicate⟩
  resets :=
    [⟨fun s => { s with cookieIndex := 0 }, fun s => s.cookieIndex = 0⟩,
      ⟨fun s => { s with nextFortune := 0 }, fun _ => True⟩]
  pot_vars := rfl
  writeOffset_vars := rfl
  pot_setPot _ _ := rfl
  writeOffset_setPot _ _ := rfl
  length_step _ _ _ _ := Seq.length_step
  uses_iff _ k := Seq.uses_iff k
  readable_step _ _ _ _ _ := Seq.readable_step
  length_reset := by simp
  readable_reset_iff := by
    simp only [List.mem_cons, List.not_mem_nil, or_false, forall_eq_or_imp, forall_eq]
    exact ⟨fun s bytes _ h => readable_zero_iff h, fun s bytes _ h => iff_of_true h trivial⟩

namespace Proc

def message : Call → Option (List UInt8)
  | .write buf _ => some buf
  | .read _ _ _ => none

/-- The call touches `cookie_pot`. -/
def Uses (s : State) : Call → Prop
  | .write buf _ => overflows s.cookieIndex buf.length = false
  | .read _ offp _ => ¬ (0 < offp ∨ s.nextFortune = 0)

/-- A read keeps the pot and the write offset. -/
lemma readProc_frame {s : State} {count : ℕ} {offp : ℤ} {c : UserCopy} {r : ReadResult}
    (h : readProc s count offp c = some r) :
    r.state.cookiePot = s.cookiePot ∧ r.state.nextFortune = s.nextFortune := by
  rw [readProc] at h
  split_ifs at h
  · obtain rfl := Option.some.inj h
    exact ⟨rfl, rfl⟩
  · obtain ⟨tmp, -, rfl⟩ := Option.map_eq_some_iff.mp h
    rw [deliver]
    split_ifs <;> exact ⟨rfl, rfl⟩

lemma length_step {s s' : State} {k : Call} {e : ℤ × List UInt8}
    (h : handlers.step s k = some (e, s')) : s'.cookiePot.length = s.cookiePot.length := by
  cases k with
  | write buf c =>
      obtain ⟨ret, hw, -⟩ := of_step_write h
      obtain ⟨pot, next, hm, rfl⟩ := of_writeProc hw
      exact storeMessage_length hm
  | read count offp c =>
      obtain ⟨r, hr, rfl, -⟩ := of_step_read h
      rw [(readProc_frame hr).1]

lemma uses_iff {s : State} (k : Call) (h : s.cookiePot = []) :
    handlers.step s k = none ↔ Uses s k := by
  cases k with
  | write buf c =>
      rw [step_write, writeProc, Option.map_eq_none_iff, Option.map_eq_none_iff, h,
        storeMessage_nil_iff]
      rfl
  | read count offp c =>
      rw [step_read, readProc, Uses]
      split_ifs with h0
      · simp [h0]
      · refine iff_of_true ?_ h0
        rw [Option.map_eq_none_iff, Option.map_eq_none_iff, tmpText, Option.map_eq_none_iff, h,
          cstr]
        split_ifs
        · rfl
        · rw [List.drop_nil]
          rfl

lemma readable_step {s s' : State} {k : Call} {e : ℤ × List UInt8} {bytes : List UInt8}
    (hsize : s.cookiePot.length = PAGE_SIZE) (hclosed : Closed bytes)
    (hr : Readable s.cookiePot s.nextFortune bytes) (h : handlers.step s k = some (e, s')) :
    Readable s'.cookiePot s'.nextFortune (bytes ++ ((message k).elim [] (added · e.1))) := by
  cases k with
  | write buf c =>
      obtain ⟨⟨rest, hrest⟩, hoff⟩ := hr
      obtain ⟨ret, hw, rfl⟩ := of_step_write h
      obtain ⟨pot, next, hm, rfl⟩ := of_writeProc hw
      rw [hrest, hoff] at hm
      exact storeMessage_added (hrest ▸ hsize) hclosed hm
  | read count offp c =>
      obtain ⟨r, hread, rfl, -⟩ := of_step_read h
      obtain ⟨hpot, hnext⟩ := readProc_frame hread
      rw [message, Option.elim_none, List.append_nil, hpot, hnext]
      exact hr

end Proc

/-- `fort_proc.c`. -/
def procDriver : Driver Proc.State Proc.Call where
  handlers := Proc.handlers
  vars := ⟨[], 0, 0⟩
  pot := Proc.State.cookiePot
  setPot m s := { s with cookiePot := m }
  writeOffset := Proc.State.nextFortune
  message := Proc.message
  uses := Proc.Uses
  prepare page := page
  resets :=
    [⟨fun s => { s with cookieIndex := 0 }, fun _ => True⟩,
      ⟨fun s => { s with nextFortune := 0 }, fun s => s.nextFortune = 0⟩,
      ⟨fun s => { s with cookiePot := List.replicate MAX_COOKIE_LEN 0 },
        fun s => ∀ b ∈ s.cookiePot.take s.nextFortune.toNat, b = 0⟩]
  pot_vars := rfl
  writeOffset_vars := rfl
  pot_setPot _ _ := rfl
  writeOffset_setPot _ _ := rfl
  length_step _ _ _ _ := Proc.length_step
  uses_iff _ k := Proc.uses_iff k
  readable_step _ _ _ _ _ := Proc.readable_step
  length_reset := by
    simp only [List.mem_cons, List.not_mem_nil, or_false, forall_eq_or_imp, forall_eq]
    exact ⟨fun _ => id, fun _ => id, fun _ _ => List.length_replicate⟩
  readable_reset_iff := by
    simp only [List.mem_cons, List.not_mem_nil, or_false, forall_eq_or_imp, forall_eq]
    exact ⟨fun s bytes _ h => iff_of_true h trivial, fun s bytes _ h => readable_zero_iff h,
      fun s bytes hsize h => readable_clear_iff hsize h⟩

/-- **When the lives of the modules are sound**: on every run of initialisation, cleanup
and handler calls, with any failures, exactly when every move is harmless. -/
theorem life_sound_iff (page : Page) (is : List (Move Seq.Call)) (js : List (Move Proc.Call)) :
    (seqDriver.Sound page is
        ↔ (seqDriver.life page).Meets seqDriver.Harmless is seqDriver.unloaded)
      ∧ (procDriver.Sound page js
        ↔ (procDriver.life page).Meets procDriver.Harmless js procDriver.unloaded) :=
  ⟨seqDriver.sound_iff page is, procDriver.sound_iff page js⟩

/-- A write of `"a\n"`. -/
def lateCall : Seq.Call := .write [97, 10] .complete

/-- The moves up to the middle of the cleanup: the initialisation succeeds, the cleanup
frees the memory, and a message is written before the proc file is removed. -/
def lateWrite : List (Move Seq.Call) :=
  List.replicate 7 (.proceed true) ++ [.unload, .proceed true, .call lateCall]

/-- The late write touches memory that has been freed. -/
lemma exec_lateWrite (page : Page) :
    (seqDriver.life page).exec lateWrite seqDriver.unloaded
      = some (List.replicate 7 (.proceed true, .proceeds) ++ [(.unload, .proceeds),
        (.proceed true, .proceeds), (.call lateCall, .stray lateCall)],
        ⟨.removeSymlink, ⟨[], 0, 0⟩, false, true⟩) := by
  have hnil : storeMessage [] 0 0 [97, 10] .complete = none :=
    storeMessage_nil_iff.mpr (overflows_eq (Nat.zero_le _) 2)
  have hstep : Seq.handlers.step ⟨[], 0, 0⟩ lateCall = none := by
    rw [lateCall, Seq.step_write, Seq.writeSeq, hnil]
    rfl
  simp [lateWrite, Machine.exec, Driver.life, Driver.proceed, Driver.callHandler, seqDriver,
    Driver.unloaded, hstep]

/-- A message written between `vfree` and the removal of the proc file. -/
theorem late_write_stray : ¬ ((∀ page is, seqDriver.Sound page is)
    ∧ ∀ page is, procDriver.Sound page is) := by
  intro hall
  have hexec := exec_lateWrite ⟨List.replicate PAGE_SIZE 0, List.length_replicate⟩
  exact (hall.1 _ _ _ List.prefix_rfl _ _ hexec).no_stray (.call lateCall, .stray lateCall)
    (by simp) lateCall rfl

end Fortune

end OperatingSys
