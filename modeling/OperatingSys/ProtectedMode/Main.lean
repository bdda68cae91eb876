import OperatingSys.Foundations.X86Typing
import OperatingSys.ProtectedMode.Handlers

/-!
The interrupted code.

* `notes`: the segments and the stack at every place of `pm_start`, `count_memory_proc`
  and `print_count_memory`.
* `Counts`: the counters of the two loops that access memory.
* `Main`: both together, kept by every step (`Main.step`). From it follows what the code
  reads (`Main.loads`) and writes (`Main.stores`).
-/

namespace OperatingSys

namespace ProtectedMode

open X86

variable {L : Layout} {s t : State} {i : Instr Label}

/-! ### Segments and stack -/

/-- The shape of the stack inside `count_memory_proc`, which has pushed three registers,
and is called at place 9. -/
def saved : List (Option Slot) := [none, none, some (.word (data32s.setWidth 32)), some (.ret 10)]

/-- Inside `print_count_memory`, which is called at place 70. -/
def printing : List (Option Slot) := some (.ret 71) :: saved

/-- The notes on the interrupted code. -/
def notes (e : ℕ) : Option Note :=
  if 103 ≤ e then none
  else if e ≤ 13 then some ⟨data32s, video16s, none, []⟩
  else if e < 50 then none
  else if e = 50 then some ⟨data32s, video16s, none, saved.drop 3⟩
  else if e = 51 then some ⟨data32s, video16s, none, saved.drop 2⟩
  else if e = 52 then some ⟨data32s, video16s, none, saved.drop 1⟩
  else if e = 53 then some ⟨data32s, video16s, none, saved⟩
  else if e = 54 then some ⟨data32s, video16s, some data4gbs, saved⟩
  else if e ≤ 78 then some ⟨data4gbs, video16s, none, saved⟩
  else if e = 79 then some ⟨data4gbs, video16s, none, saved.drop 1⟩
  else if e = 80 then some ⟨data4gbs, video16s, none, saved.drop 2⟩
  else if e = 81 then some ⟨data32s, video16s, none, saved.drop 3⟩
  else if e = 82 ∨ e = 102 then some ⟨data4gbs, video16s, none, printing⟩
  else if e = 83 ∨ e = 101 then some ⟨data4gbs, video16s, none, none :: printing⟩
  else if e = 84 ∨ e = 100 then some ⟨data4gbs, video16s, none, none :: none :: printing⟩
  else some ⟨data4gbs, video16s, none, none :: none :: none :: printing⟩

/-- The notes agree with the code. -/
lemma checks_notes (e : ℕ) : checks code32 notes e = true := by
  by_cases h : 103 ≤ e
  · rw [checks, notes, if_pos h]
  · have hall : ∀ e < 103, checks code32 notes e = true := by decide +kernel
    exact hall e (by omega)

/-- Everywhere `es` is the video segment, and `ds` the data segment or the whole memory. -/
lemma segs_of_annotated (h : Annotated notes s) : Segs s := by
  obtain ⟨a, ha, htyped⟩ := h
  have hlt : s.eip < 103 := by
    by_contra hge
    rw [notes, if_pos (by omega)] at ha
    cases ha
  have hall : ∀ e < 103, ∀ a ∈ notes e, (a.ds = data32s ∨ a.ds = data4gbs) ∧ a.es = video16s := by
    decide +kernel
  obtain ⟨hds, hes⟩ := hall s.eip hlt a ha
  exact ⟨hds.imp htyped.ds.trans htyped.ds.trans, htyped.es.trans hes⟩

/-! ### The counters -/

/-- The places at which something is known of the counters. -/
def Counted (e : ℕ) : Prop := (3 ≤ e ∧ e ≤ 8) ∨ (56 ≤ e ∧ e ≤ 64)

instance : DecidablePred Counted := fun _ => inferInstanceAs (Decidable (_ ∨ _))

/-- The counters of the loop `print_memory_msg`, which shows eight letters, and of the
loop `count_memory`, which goes up from behind the first megabyte. -/
def Counts (s : State) : Prop :=
  match s.eip with
  | 3 => s.reg .esi = 0
  | 4 => s.reg .esi = 0 ∧ s.reg .ecx = 0
  | 5 | 6 | 7 => (s.reg .esi).toNat + (s.reg .ecx).toNat = 8 ∧ 1 ≤ (s.reg .ecx).toNat
  | 8 => (s.reg .esi).toNat + (s.reg .ecx).toNat = 9 ∧ 1 ≤ (s.reg .ecx).toNat
  | 56 | 57 => s.reg .ebx = 0x100001
  | 58 | 59 | 60 | 61 | 62 | 63 =>
      0x100001 ≤ (s.reg .ebx).toNat ∧ (s.reg .ebx).toNat + (s.reg .ecx).toNat = 2 ^ 32 - 1
        ∧ 1 ≤ (s.reg .ecx).toNat
  | 64 =>
      0x100001 ≤ (s.reg .ebx).toNat ∧ (s.reg .ebx).toNat + (s.reg .ecx).toNat = 2 ^ 32
        ∧ 1 ≤ (s.reg .ecx).toNat
  | _ => True

lemma counts_of_not_counted (h : ¬ Counted s.eip) : Counts s := by
  unfold Counts
  unfold Counted at h
  split <;> first | trivial | omega

/-- The places a step may lead to. -/
lemma eip_of_step (h : Annotated notes s) (hi : code32.code[s.eip]? = some i)
    (hex : i.exec L.board find s = some t) :
    ∃ a ∈ notes s.eip, ∃ l ∈ i.after find s.eip a, ∃ q ∈ l, t.eip = q.1 := by
  obtain ⟨-, a, l, ha, hl, q, hq, heip⟩ := h.step checks_notes hi hex
  exact ⟨a, ha, l, hl, q, hq, heip⟩

/-- Behind most places nothing is known of the counters. -/
lemma counts_elsewhere (h : Annotated notes s) (hi : code32.code[s.eip]? = some i)
    (hex : i.exec L.board find s = some t)
    (he : ¬ ((2 ≤ s.eip ∧ s.eip ≤ 8) ∨ (55 ≤ s.eip ∧ s.eip ≤ 64))) : Counts t := by
  obtain ⟨a, ha, l, hl, q, hq, heip⟩ := eip_of_step h hi hex
  have hall : ∀ e < 103, ¬ ((2 ≤ e ∧ e ≤ 8) ∨ (55 ≤ e ∧ e ≤ 64)) → ∀ a ∈ notes e,
      ∀ i ∈ code32.code[e]?, ∀ l ∈ i.after find e a, ∀ q ∈ l, ¬ Counted q.1 := by
    decide +kernel
  have hlt : s.eip < 103 := by
    by_contra hge
    rw [notes, if_pos (by omega)] at ha
    cases ha
  exact counts_of_not_counted (heip ▸ hall s.eip hlt he a ha i hi l hl q hq)

/-- An instruction that changes no counter leads to a place where the same is said of
them. -/
lemma counts_kept {e : ℕ} (hex : i.exec L.board find s = some t)
    (hi : ∀ r ∈ [R32.esi, .ecx, .ebx], r ∉ i.changes) (heip : t.eip = e)
    (hc : Counts (s.goto e)) : Counts t := by
  have hesi : t.reg .esi = s.reg .esi := exec_reg hex (hi _ (by decide))
  have hecx : t.reg .ecx = s.reg .ecx := exec_reg hex (hi _ (by decide))
  have hebx : t.reg .ebx = s.reg .ebx := exec_reg hex (hi _ (by decide))
  unfold Counts at hc ⊢
  rw [heip, hesi, hecx, hebx]
  exact hc

lemma toNat_pred {x : BitVec 32} (h : 1 ≤ x.toNat) : (x - 1).toNat = x.toNat - 1 := by
  rw [BitVec.toNat_sub]
  have := x.isLt
  simp
  omega

/-- The counter of a `loop` in the last round. -/
lemma pred_eq_zero {x : BitVec 32} (h : x.toNat = 1) : x - 1 = 0 := by
  apply BitVec.eq_of_toNat_eq
  rw [toNat_pred h.ge, h]
  rfl

/-- The counter in the rounds before. -/
lemma pred_of_succ {x : BitVec 32} {k : ℕ} (h : x.toNat = k + 1 + 1) :
    (x - 1).toNat = k + 1 ∧ x - 1 ≠ 0 := by
  have hpred : (x - 1).toNat = k + 1 := by rw [toNat_pred (by omega), h, Nat.add_sub_cancel]
  refine ⟨hpred, fun h0 => ?_⟩
  rw [h0] at hpred
  cases hpred

lemma one_le_pred {x : BitVec 32} (hz : x - 1 ≠ 0) : 1 ≤ (x - 1).toNat := by
  by_contra hlt
  exact hz (BitVec.eq_of_toNat_eq (by simpa using Nat.lt_one_iff.mp (Nat.not_le.mp hlt)))

lemma toNat_succ {x : BitVec 32} (h : x.toNat + 1 < 2 ^ 32) : (x + 1).toNat = x.toNat + 1 := by
  rw [BitVec.toNat_add]
  simp
  omega

/-- A step of the loop that shows the message. -/
lemma counts_message (h : Annotated notes s) (hc : Counts s) (hi : code32.code[s.eip]? = some i)
    (hex : i.exec L.board find s = some t) (hlo : 2 ≤ s.eip) (hhi : s.eip ≤ 8) : Counts t := by
  obtain ⟨a, -, l, hl, q, hq, heip⟩ := eip_of_step h hi hex
  obtain ⟨e, reg, seg, flags, intr, stack, mem, port⟩ := s
  dsimp only at hlo hhi
  interval_cases e <;> cases hi
  · -- `xor esi, esi`
    cases hex
    exact BitVec.xor_self
  · -- `xor ecx, ecx`
    cases hex
    exact ⟨hc, BitVec.xor_self⟩
  · -- `mov cx, 8`
    obtain ⟨hesi, hecx⟩ : reg .esi = 0 ∧ reg .ecx = 0 := hc
    cases hex
    show (reg .esi).toNat + ((Reg.r16 .ecx).put 8 (reg .ecx)).toNat = 8
      ∧ 1 ≤ ((Reg.r16 .ecx).put 8 (reg .ecx)).toNat
    rw [hesi, hecx]
    decide
  · -- `mov al, pm_mem_count[esi]`
    cases hl
    obtain rfl := List.mem_singleton.mp hq
    exact counts_kept hex (by decide) heip hc
  · -- `stosw`
    cases hl
    obtain rfl := List.mem_singleton.mp hq
    exact counts_kept hex (by decide) heip hc
  · -- `inc esi`
    obtain ⟨hsum, hpos⟩ : (reg .esi).toNat + (reg .ecx).toNat = 8 ∧ 1 ≤ (reg .ecx).toNat := hc
    cases hex
    show (reg .esi + 1).toNat + (reg .ecx).toNat = 9 ∧ 1 ≤ (reg .ecx).toNat
    rw [toNat_succ (by omega)]
    omega
  · -- `loop print_memory_msg`
    obtain ⟨hsum, hpos⟩ : (reg .esi).toNat + (reg .ecx).toNat = 9 ∧ 1 ≤ (reg .ecx).toNat := hc
    by_cases hz : reg .ecx - 1 = 0
    · rw [exec_loop_end hz] at hex
      cases hex
      trivial
    · have hne := one_le_pred hz
      rw [exec_loop_back hz] at hex
      cases hex
      show (reg .esi).toNat + (reg .ecx - 1).toNat = 8 ∧ 1 ≤ (reg .ecx - 1).toNat
      rw [toNat_pred hpos] at hne ⊢
      omega

/-- A step of the loop that counts the memory. -/
lemma counts_memory (h : Annotated notes s) (hc : Counts s) (hi : code32.code[s.eip]? = some i)
    (hex : i.exec L.board find s = some t) (hlo : 55 ≤ s.eip) (hhi : s.eip ≤ 64) : Counts t := by
  obtain ⟨a, -, l, hl, q, hq, heip⟩ := eip_of_step h hi hex
  obtain ⟨e, reg, seg, flags, intr, stack, mem, port⟩ := s
  dsimp only at hlo hhi
  interval_cases e <;> cases hi
  · -- `mov ebx, 100001h`
    cases hex
    rfl
  · -- `mov dl, 0AEh`
    cases hex
    exact hc
  · -- `mov ecx, 0FFEFFFFEh`
    have hebx : reg .ebx = 0x100001 := hc
    cases hex
    show 0x100001 ≤ (reg .ebx).toNat ∧ (reg .ebx).toNat + (0xFFEFFFFE : BitVec 32).toNat
      = 2 ^ 32 - 1 ∧ 1 ≤ (0xFFEFFFFE : BitVec 32).toNat
    rw [hebx]
    decide
  · -- `mov dh, ds:[ebx]`
    cases hl
    obtain rfl := List.mem_singleton.mp hq
    exact counts_kept hex (by decide) heip hc
  · -- `mov ds:[ebx], dl`
    cases hl
    obtain rfl := List.mem_singleton.mp hq
    exact counts_kept hex (by decide) heip hc
  · -- `cmp ds:[ebx], dl`
    cases hl
    obtain rfl := List.mem_singleton.mp hq
    exact counts_kept hex (by decide) heip hc
  · -- `jne print_memory_counter`
    cases hl
    rcases List.mem_cons.mp hq with rfl | hq
    · exact counts_kept hex (by decide) heip hc
    · obtain rfl := List.mem_singleton.mp hq
      have h65 : t.eip = 65 := heip
      exact counts_of_not_counted (h65 ▸ by decide)
  · -- `mov ds:[ebx], dh`
    cases hl
    obtain rfl := List.mem_singleton.mp hq
    exact counts_kept hex (by decide) heip hc
  · -- `inc ebx`
    obtain ⟨hlow, hsum, hpos⟩ : 0x100001 ≤ (reg .ebx).toNat
      ∧ (reg .ebx).toNat + (reg .ecx).toNat = 2 ^ 32 - 1 ∧ 1 ≤ (reg .ecx).toNat := hc
    cases hex
    show 0x100001 ≤ (reg .ebx + 1).toNat ∧ (reg .ebx + 1).toNat + (reg .ecx).toNat = 2 ^ 32
      ∧ 1 ≤ (reg .ecx).toNat
    rw [toNat_succ (by omega)]
    omega
  · -- `loop count_memory`
    obtain ⟨hlow, hsum, hpos⟩ : 0x100001 ≤ (reg .ebx).toNat
      ∧ (reg .ebx).toNat + (reg .ecx).toNat = 2 ^ 32 ∧ 1 ≤ (reg .ecx).toNat := hc
    by_cases hz : reg .ecx - 1 = 0
    · rw [exec_loop_end hz] at hex
      cases hex
      trivial
    · have hne := one_le_pred hz
      rw [exec_loop_back hz] at hex
      cases hex
      show 0x100001 ≤ (reg .ebx).toNat ∧ (reg .ebx).toNat + (reg .ecx - 1).toNat = 2 ^ 32 - 1
        ∧ 1 ≤ (reg .ecx - 1).toNat
      rw [toNat_pred hpos] at hne ⊢
      omega

/-- A step keeps the counters. -/
lemma counts_step (h : Annotated notes s) (hc : Counts s) (hi : code32.code[s.eip]? = some i)
    (hex : i.exec L.board find s = some t) : Counts t := by
  by_cases he : (2 ≤ s.eip ∧ s.eip ≤ 8) ∨ (55 ≤ s.eip ∧ s.eip ≤ 64)
  · rcases he with ⟨hlo, hhi⟩ | ⟨hlo, hhi⟩
    · exact counts_message h hc hi hex hlo hhi
    · exact counts_memory h hc hi hex hlo hhi
  · exact counts_elsewhere h hi hex he

/-! ### What the code reads and writes -/

/-- What holds at every place of the interrupted code. -/
structure Main (s : State) : Prop where
  annotated : Annotated notes s
  counts : Counts s

/-- **A step keeps it.** -/
theorem Main.step (h : Main s) (hi : code32.code[s.eip]? = some i)
    (hex : i.exec L.board find s = some t) : Main t :=
  ⟨(h.annotated.step checks_notes hi hex).1, counts_step h.annotated h.counts hi hex⟩

lemma ds_of_annotated {v : BitVec 16} (h : Annotated notes s)
    (hn : ∀ a ∈ notes s.eip, a.ds = v) : s.seg .ds = v := by
  obtain ⟨a, ha, htyped⟩ := h
  exact htyped.ds.trans (hn a ha)

lemma eip_lt_of_annotated (h : Annotated notes s) : s.eip < 103 := by
  obtain ⟨a, ha, -⟩ := h
  by_contra hge
  rw [notes, if_pos (by omega)] at ha
  cases ha

/-- What holds of every noted instruction holds of the next one. -/
lemma of_annotated {Q : ℕ → Instr Label → Prop}
    (hall : ∀ e < 103, ∀ a ∈ notes e, ∀ i ∈ code32.code[e]?, Q e i) (h : Annotated notes s)
    (hi : code32.code[s.eip]? = some i) : Q s.eip i := by
  have hlt := eip_lt_of_annotated h
  obtain ⟨a, ha, -⟩ := h
  exact hall s.eip hlt a ha i hi

/-- The places at which the code reads memory. -/
lemma eip_of_reads (h : Annotated notes s) (hi : code32.code[s.eip]? = some i)
    (hr : i.reads = true) : s.eip = 5 ∨ s.eip = 10 ∨ s.eip = 58 ∨ s.eip = 60 :=
  of_annotated (Q := fun e i => i.reads = true → e = 5 ∨ e = 10 ∨ e = 58 ∨ e = 60)
    (by decide +kernel) h hi hr

/-- The places at which the code writes memory. -/
lemma eip_of_writes (h : Annotated notes s) (hi : code32.code[s.eip]? = some i)
    (hw : i.writes = true) : s.eip = 6 ∨ s.eip = 59 ∨ s.eip = 62 ∨ s.eip = 74 ∨ s.eip = 77
      ∨ s.eip = 95 :=
  of_annotated (Q := fun e i => i.writes = true →
      e = 6 ∨ e = 59 ∨ e = 62 ∨ e = 74 ∨ e = 77 ∨ e = 95)
    (by decide +kernel) h hi hw

/-- The byte that is probed lies behind the first megabyte. -/
lemma Main.probed (h : Main s) (he : 58 ≤ s.eip) (he' : s.eip ≤ 63) {a : ℕ}
    (ha : L.board.Covers ⟨s.seg .ds, (BitVec.ofNat 32 0 + s.reg .ebx).toNat, 1⟩ a) :
    0x100001 ≤ a := by
  have hds : s.seg .ds = data4gbs := by
    refine ds_of_annotated h.annotated ?_
    have hall : ∀ e < 64, 58 ≤ e → ∀ a ∈ notes e, a.ds = data4gbs := by decide +kernel
    exact hall s.eip (by omega) he
  have hlow : 0x100001 ≤ (s.reg .ebx).toNat := by
    have hc := h.counts
    unfold Counts at hc
    have hcases : s.eip = 58 ∨ s.eip = 59 ∨ s.eip = 60 ∨ s.eip = 61 ∨ s.eip = 62 ∨ s.eip = 63 := by
      omega
    rcases hcases with h | h | h | h | h | h <;> rw [h] at hc <;> exact hc.1
  rw [hds, offset_zero] at ha
  have := (s.reg .ebx).isLt
  exact hlow.trans (covers_data4gb (by omega) ha).1

/-- Except for the flag tested at `proccess`, the code reads `pm_mem_count` and bytes
behind the first megabyte. -/
lemma Main.loads (h : Main s) (hi : code32.code[s.eip]? = some i) (he : s.eip ≠ 10) {x : Access}
    (hx : x ∈ i.loads s) {a : ℕ} (ha : L.board.Covers x a) :
    (L.base + pmMemCount ≤ a ∧ a < L.base + dataSize) ∨ 0x100001 ≤ a := by
  rcases eip_of_reads h.annotated hi (reads_of_mem_loads hx) with h5 | h10 | h58 | h60
  · -- `mov al, pm_mem_count[esi]`
    left
    have hds : s.seg .ds = data32s := ds_of_annotated h.annotated (h5 ▸ by decide)
    have hc := h.counts
    unfold Counts at hc
    rw [h5] at hi hc
    obtain ⟨hsum, hpos⟩ : (s.reg .esi).toNat + (s.reg .ecx).toNat = 8
      ∧ 1 ≤ (s.reg .ecx).toNat := hc
    cases hi
    obtain rfl := List.mem_singleton.mp hx
    have hoff : (BitVec.ofNat 32 pmMemCount + s.reg .esi).toNat
        = pmMemCount + (s.reg .esi).toNat := by
      have hlt : pmMemCount < 2 ^ 10 := by decide
      rw [BitVec.toNat_add, BitVec.toNat_ofNat]
      omega
    have hsize : dataSize = pmMemCount + 8 := rfl
    have hcov := covers_data32 (L := L) (n := pmMemCount + (s.reg .esi).toNat) (k := 1)
      (a := a) (by omega) (by
        rw [← hoff, ← hds]
        exact ha)
    omega
  · exact absurd h10 he
  · -- `mov dh, ds:[ebx]`
    rw [h58] at hi
    cases hi
    obtain rfl := List.mem_singleton.mp hx
    exact Or.inr (h.probed (by omega) (by omega) ha)
  · -- `cmp ds:[ebx], dl`
    rw [h60] at hi
    cases hi
    obtain rfl := List.mem_singleton.mp hx
    exact Or.inr (h.probed (by omega) (by omega) ha)

/-- The code writes to the video page and to bytes behind the first megabyte. -/
lemma Main.stores (h : Main s) (hi : code32.code[s.eip]? = some i) {x : Access}
    (hx : x ∈ i.stores s) {a : ℕ} (ha : L.board.Covers x a) : video ≤ a := by
  have hes := (segs_of_annotated h.annotated).es
  have hvideo : video ≤ 0x100001 := by decide
  have hprobe := eip_of_writes h.annotated hi (writes_of_mem_stores hx)
  rcases hprobe with he | he | he | he | he | he <;> rw [he] at hi <;> cases hi <;>
    obtain rfl := List.mem_singleton.mp hx
  · exact (Nat.le_add_right _ _).trans (covers_video (hes ▸ ha)).1
  · exact hvideo.trans (h.probed (by omega) (by omega) ha)
  · exact hvideo.trans (h.probed (by omega) (by omega) ha)
  all_goals exact (Nat.le_add_right _ _).trans (covers_video (hes ▸ ha)).1

end ProtectedMode

end OperatingSys
