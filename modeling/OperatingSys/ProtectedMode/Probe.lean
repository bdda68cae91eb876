import OperatingSys.ProtectedMode.HexOutput

/-!
The memory probe, `count_memory_proc`.

From the byte behind the first megabyte on, the loop `count_memory` keeps a byte in `dh`,
writes a signature over it and reads it again. Where there is memory the byte is put back
(`count_round`), and the first address without memory ends the loop (`count_end`), unless
`ecx` does so at the end of the address space. Either way `ebx` is where the memory ends
(`count_rounds`), and `eax` gets the number of megabytes below it (`countMemory_leads`).
The procedure shows it, with the letters `Mb` behind it, and returns (`memory_counted`).
-/

namespace OperatingSys

namespace ProtectedMode

open X86

variable {L : Layout} {s : State} {g : R32 → BitVec 32} {f : Flags} {st : List Slot}
  {m : ℕ → BitVec 8} {e : ℕ}

/-- The signature. -/
def signature : BitVec 8 := 0xAE

/-- The state in which the memory is probed: `ds` is the whole memory, and `dl` the
signature. -/
structure Probing (s : State) (g : R32 → BitVec 32) : Prop where
  ds : s.seg .ds = data4gbs
  dl : (Reg.lo .edx).of (g .edx) = signature

/-- The registers with another high byte of `edx`. -/
def withDh (g : R32 → BitVec 32) (v : BitVec 8) : R32 → BitVec 32 :=
  Function.update g .edx ((Reg.hi .edx).put v (g .edx))

lemma board_probe (hds : s.seg .ds = data4gbs) (g : R32 → BitVec 32) :
    L.board.at ⟨s.seg .ds, (BitVec.ofNat 32 0 + g .ebx).toNat, 1⟩ = some (g .ebx).toNat := by
  have hlt := (g .ebx).isLt
  rw [hds, offset_zero]
  exact board_data4gb L (by omega)

lemma access_probe (hds : s.seg .ds = data4gbs) (g : R32 → BitVec 32) :
    [Access.mk (s.seg .ds) (BitVec.ofNat 32 0 + g .ebx).toNat 1]
      = [⟨data4gbs, (g .ebx).toNat, 1⟩] := by
  rw [hds, offset_zero]

/-- The byte is kept, the signature written over it, and what is read then compared. -/
lemma count_compared (h : Probing s g) : Leads L.board code32 (s.moved 58 g f st m)
    (List.replicate 3 ⟨data4gbs, (g .ebx).toNat, 1⟩)
    (s.moved 61 (withDh g (m (g .ebx).toNat))
      (Alu.cmp.flags (L.board.store m (g .ebx).toNat signature (g .ebx).toNat) signature) st
      (L.board.store m (g .ebx).toNat signature)) := by
  have hat := board_probe (L := L) h.ds g
  have hacc := access_probe h.ds g
  have hdl : (Reg.lo .edx).of (withDh g (m (g .ebx).toNat) .edx) = signature := by
    rw [withDh, Function.update_self, of_lo_put_hi, h.dl]
  -- the byte is kept in `dh`
  have hload : (Instr.mov dh (idx .ds 0 .ebx)).exec L.board find (s.moved 58 g f st m)
      = some (s.moved 59 (withDh g (m (g .ebx).toNat)) f st m) := by
    rw [← load_byte m (g .ebx).toNat]
    exact exec_mov_load (w := 8) (s := s.moved 58 g f st m) hat rfl
  -- the signature is written over it
  have hstore : (Instr.mov (idx .ds 0 .ebx) dl).exec L.board find
      (s.moved 59 (withDh g (m (g .ebx).toNat)) f st m)
      = some (s.moved 60 (withDh g (m (g .ebx).toNat)) f st
        (L.board.store m (g .ebx).toNat signature)) := by
    rw [← hdl]
    exact exec_mov_store (w := 8) (s := s.moved 59 (withDh g (m (g .ebx).toNat)) f st m) rfl hat
  -- and read again
  have hcmp : (Instr.alu .cmp (idx .ds 0 .ebx) dl).exec L.board find
      (s.moved 60 (withDh g (m (g .ebx).toNat)) f st (L.board.store m (g .ebx).toNat signature))
      = some (s.moved 61 (withDh g (m (g .ebx).toNat))
        (Alu.cmp.flags (L.board.store m (g .ebx).toNat signature (g .ebx).toNat) signature) st
        (L.board.store m (g .ebx).toNat signature)) := by
    rw [← load_byte (L.board.store m (g .ebx).toNat signature) (g .ebx).toNat]
    exact exec_alu_look (w := 8) (s := s.moved 60 (withDh g (m (g .ebx).toNat)) f st _) rfl
      (congrArg some hdl) hat
  change Leads _ _ _ ([_] ++ ([_] ++ ([_] ++ []))) _
  exact .touch rfl hload hacc (.touch rfl hstore hacc (.touch rfl hcmp hacc (.refl _)))

/-- The registers behind a byte of memory. -/
def probed (g : R32 → BitVec 32) (v : BitVec 8) : R32 → BitVec 32
  | .eax => g .eax
  | .ebx => g .ebx + 1
  | .ecx => g .ecx - 1
  | .edx => (Reg.hi .edx).put v (g .edx)
  | .esi => g .esi
  | .edi => g .edi

/-- **A round over a byte of memory**: the byte is as it was. -/
lemma count_round (h : Probing s g) (hram : (g .ebx).toNat < L.ram) :
    ∃ f', Leads L.board code32 (s.moved 58 g f st m)
      (List.replicate 3 ⟨data4gbs, (g .ebx).toNat, 1⟩ ++ ([⟨data4gbs, (g .ebx).toNat, 1⟩] ++ []))
      (s.moved (if g .ecx - 1 = 0 then 65 else 58) (probed g (m (g .ebx).toNat)) f' st m) := by
  have hat := board_probe (L := L) h.ds g
  have hacc := access_probe h.ds g
  have hcompared := @count_compared L s g f st m h
  have hsame : L.board.store m (g .ebx).toNat signature
      = Function.update m (g .ebx).toNat signature := store_byte hram signature
  rw [hsame, Function.update_self] at hcompared
  have hjne := @exec_jcc Label L.board find (s.moved 61 (withDh g (m (g .ebx).toNat))
    (Alu.cmp.flags signature signature) st (Function.update m (g .ebx).toNat signature))
    .ne .printMemoryCounter false (holds_ne_cmp.trans (by simp))
  have hdh : (Reg.hi .edx).of (withDh g (m (g .ebx).toNat) .edx) = m (g .ebx).toNat := by
    rw [withDh, Function.update_self, Reg.of_put]
  -- the byte that has been kept is put back
  have hback : L.board.store (Function.update m (g .ebx).toNat signature) (g .ebx).toNat
      (m (g .ebx).toNat) = m := by
    rw [store_byte (B := L.board) hram, Function.update_idem, Function.update_eq_self]
  have hrestore : (Instr.mov (idx .ds 0 .ebx) dh).exec L.board find
      (s.moved 62 (withDh g (m (g .ebx).toNat)) (Alu.cmp.flags signature signature) st
        (Function.update m (g .ebx).toNat signature))
      = some (s.moved 63 (withDh g (m (g .ebx).toNat)) (Alu.cmp.flags signature signature) st
        (L.board.store (Function.update m (g .ebx).toNat signature) (g .ebx).toNat
          ((Reg.hi .edx).of (withDh g (m (g .ebx).toNat) .edx)))) :=
    exec_mov_store (w := 8) (s := s.moved 62 (withDh g (m (g .ebx).toNat)) _ st _) rfl hat
  rw [hdh, hback] at hrestore
  refine ⟨{ Alu.add.flags (g .ebx) 1 with carry := (Alu.cmp.flags signature signature).carry }, ?_⟩
  refine Leads.trans (l := List.replicate 3 _) hcompared (.quiet rfl hjne rfl ?_)
  refine .touch rfl hrestore hacc (.quiet rfl rfl rfl (.quiet rfl rfl rfl ?_))
  refine .of_eq (State.eq_of_reg rfl fun r => ?_)
  cases r <;> rfl

/-- **The end of the memory**: an address without memory ends the loop. -/
lemma count_end (h : Probing s g) (hram : L.ram ≤ (g .ebx).toNat)
    (hm : m (g .ebx).toNat ≠ signature) :
    ∃ f', Leads L.board code32 (s.moved 58 g f st m)
      (List.replicate 3 ⟨data4gbs, (g .ebx).toNat, 1⟩)
      (s.moved 65 (withDh g (m (g .ebx).toNat)) f' st m) := by
  have hcompared := @count_compared L s g f st m h
  rw [store_past (B := L.board) hram] at hcompared
  have hjne := @exec_jcc Label L.board find (s.moved 61 (withDh g (m (g .ebx).toNat))
    (Alu.cmp.flags (m (g .ebx).toNat) signature) st m) .ne .printMemoryCounter true
    (holds_ne_cmp.trans (decide_eq_true hm))
  have hall := hcompared.trans (.quiet rfl hjne rfl (.refl _))
  exact ⟨_, hall⟩

/-! ### The loop -/

/-- What some rounds from the address `a` on access: a byte of memory four times, and the
first address without memory three times. -/
def probes (L : Layout) : ℕ → ℕ → List Access
  | _, 0 => []
  | a, n + 1 =>
      if a < L.ram then List.replicate 4 ⟨data4gbs, a, 1⟩ ++ probes L (a + 1) n
      else List.replicate 3 ⟨data4gbs, a, 1⟩

/-- **The loop**: it ends where the memory does, and leaves the memory as it was. -/
lemma count_rounds {n : ℕ} (h : Probing s g) (hecx : (g .ecx).toNat = n + 1)
    (hsum : (g .ebx).toNat + (g .ecx).toNat = 2 ^ 32 - 1) (hram : L.ram < 2 ^ 32)
    (hm : ∀ a, L.ram ≤ a → m a ≠ signature) :
    ∃ g' f', Leads L.board code32 (s.moved 58 g f st m) (probes L (g .ebx).toNat (n + 1))
        (s.moved 65 g' f' st m)
      ∧ (g' .ebx).toNat = max (g .ebx).toNat L.ram ∧ g' .esi = g .esi ∧ g' .edi = g .edi := by
  induction n generalizing g f with
  | zero =>
      rw [probes]
      split_ifs with hin
      · -- inside the memory the byte is what has been written
        obtain ⟨f', hround⟩ := @count_round L s g f st m h hin
        rw [if_pos (pred_eq_zero hecx)] at hround
        refine ⟨_, f', hround, ?_, rfl, rfl⟩
        change (g .ebx + 1).toNat = _
        rw [toNat_succ (by omega)]
        omega
      · -- behind it the loop ends
        obtain ⟨f', hend⟩ := @count_end L s g f st m h (by omega) (hm _ (by omega))
        exact ⟨_, f', hend, by change (g .ebx).toNat = _; omega, rfl, rfl⟩
  | succ n ih =>
      rw [probes]
      split_ifs with hin
      · obtain ⟨f₁, hround⟩ := @count_round L s g f st m h hin
        obtain ⟨hpred, hne⟩ := pred_of_succ hecx
        have hnext : (g .ebx + 1).toNat = (g .ebx).toNat + 1 := toNat_succ (by omega)
        rw [if_neg hne] at hround
        obtain ⟨g', f', hrest, hebx, hesi, hedi⟩ := ih (g := probed g (m (g .ebx).toNat)) (f := f₁)
          ⟨h.ds, (of_lo_put_hi _ _ _ _).trans h.dl⟩ hpred
          (by change (g .ebx + 1).toNat + (g .ecx - 1).toNat = _; omega)
        refine ⟨g', f', hround.trans ?_, ?_, hesi, hedi⟩
        · rw [← hnext]
          exact hrest
        · rw [hebx]
          change max (g .ebx + 1).toNat _ = _
          omega
      · obtain ⟨f', hend⟩ := @count_end L s g f st m h (by omega) (hm _ (by omega))
        exact ⟨_, f', hend, by change (g .ebx).toNat = _; omega, rfl, rfl⟩

/-! ### The procedure -/

/-- The registers at the first round. -/
def probing0 (g : R32 → BitVec 32) : R32 → BitVec 32
  | .eax => (Reg.r16 .eax).put data4gbs (g .eax)
  | .ebx => 0x100001
  | .ecx => 0xFFEFFFFE
  | .edx => (Reg.lo .edx).put signature (g .edx)
  | .esi => g .esi
  | .edi => g .edi

/-- The stack inside the procedure. -/
def kept (g : R32 → BitVec 32) (e : ℕ) (st : List Slot) : List Slot :=
  .word (g .ebx) :: .word (g .eax) :: .word (data32s.setWidth 32) :: .ret e :: st

/-- The state inside the procedure, with the whole memory in `ds`. -/
def wide (s : State) : State := s.setSeg .ds data4gbs

/-- From the call to the first round. -/
lemma countMemory_enter (hds : s.seg .ds = data32s) : Leads L.board code32
    (s.moved (find .countMemoryProc) g f (.ret e :: st) m) []
    ((wide s).moved 58 (probing0 g) f (kept g e st) m) := by
  have hpush : (Instr.pushSeg .ds).exec L.board find
      (s.moved (find .countMemoryProc) g f (.ret e :: st) m)
      = some (s.moved 51 g f (.word (data32s.setWidth 32) :: .ret e :: st) m) := by
    rw [← hds]
    rfl
  have hget : ∀ x, (Reg.r16 .eax).of ((Reg.r16 .eax).put data4gbs x) = data4gbs := Reg.of_put _ _
  have hsel : (Instr.movSeg .ds .eax).exec L.board find (s.moved 54
      (Function.update g .eax ((Reg.r16 .eax).put data4gbs (g .eax))) f (kept g e st) m)
      = some ((wide s).moved 55
        (Function.update g .eax ((Reg.r16 .eax).put data4gbs (g .eax))) f (kept g e st) m) := by
    rw [Instr.exec, State.get, State.moved_reg, Reg.whole, Function.update_self, hget]
    rfl
  refine .quiet rfl hpush rfl (.quiet rfl rfl rfl (.quiet rfl rfl rfl (.quiet rfl rfl rfl ?_)))
  refine .quiet rfl hsel rfl (.quiet rfl rfl rfl (.quiet rfl rfl rfl (.quiet rfl rfl rfl ?_)))
  refine .of_eq (State.eq_of_reg rfl fun r => ?_)
  cases r <;> rfl

lemma divide_ebx {x : BitVec 32} : divide 0 x 0x100000
    = some (BitVec.ofNat 32 (x.toNat / 2 ^ 20), BitVec.ofNat 32 (x.toNat % 2 ^ 20)) := by
  have hlt := x.isLt
  have hmb : (0x100000 : BitVec 32).toNat = 2 ^ 20 := rfl
  rw [divide, if_neg]
  · simp
  · rw [hmb]
    simp
    omega

/-- The registers at the call of `print_count_memory`. -/
def counted (g : R32 → BitVec 32) : R32 → BitVec 32
  | .eax => BitVec.ofNat 32 ((g .ebx).toNat / 2 ^ 20)
  | .ebx => BitVec.ofNat 32 memValuePos
  | .ecx => g .ecx
  | .edx => BitVec.ofNat 32 ((g .ebx).toNat % 2 ^ 20)
  | .esi => g .esi
  | .edi => g .edi

/-- From the last round to the call of `print_count_memory`. -/
lemma countMemory_megabytes : ∃ f', Leads L.board code32 (s.moved 65 g f st m) []
    (s.moved (find .printCountMemory) (counted g) f' (.ret 71 :: st) m) := by
  have hxor : (Instr.alu .xor (r32 .edx) (r32 .edx)).exec L.board find
      (s.moved 66 (Function.update g .eax (g .ebx)) f st m)
      = some (s.moved 67 (Function.update (Function.update g .eax (g .ebx)) .edx 0)
        (Alu.xor.flags (g .edx) (g .edx)) st m) := exec_xor_self
  have hdiv : (Instr.div .ebx).exec L.board find
      (s.moved 68 (Function.update (Function.update (Function.update g .eax (g .ebx)) .edx 0)
        .ebx 0x100000) (Alu.xor.flags (g .edx) (g .edx)) st m)
      = some (s.moved 69 (Function.update (counted g) .ebx 0x100000)
        (Alu.xor.flags (g .edx) (g .edx)) st m) := by
    refine (congrArg (Option.map _) (divide_ebx (x := g .ebx))).trans (congrArg some ?_)
    refine State.eq_of_reg rfl fun r => ?_
    cases r <;> rfl
  refine ⟨Alu.xor.flags (g .edx) (g .edx), ?_⟩
  refine .quiet rfl rfl rfl (.quiet rfl hxor rfl (.quiet rfl rfl rfl (.quiet rfl hdiv rfl ?_)))
  have hpos : (Instr.mov (r32 .ebx) (imm (BitVec.ofNat 32 memValuePos))).exec L.board find
      (s.moved 69 (Function.update (counted g) .ebx 0x100000)
        (Alu.xor.flags (g .edx) (g .edx)) st m)
      = some (s.moved 70 (counted g) (Alu.xor.flags (g .edx) (g .edx)) st m) := by
    refine congrArg some (State.eq_of_reg rfl fun r => ?_)
    cases r <;> rfl
  have hcall : (Instr.call .printCountMemory).exec L.board find
      (s.moved 70 (counted g) (Alu.xor.flags (g .edx) (g .edx)) st m)
      = some (s.moved (find .printCountMemory) (counted g) (Alu.xor.flags (g .edx) (g .edx))
        (.ret 71 :: st) m) := exec_call Label.printCountMemory
  exact .quiet rfl hpos rfl (.quiet rfl hcall rfl (.refl _))

/-- The cells of the letters `Mb`. -/
def mbCells : List Access := [⟨video16s, mbPos, 2⟩, ⟨video16s, mbPos + 2, 2⟩]

/-- The letters are shown. -/
def showMb (L : Layout) (m : ℕ → BitVec 8) : ℕ → BitVec 8 :=
  showCell L (showCell L m mbPos 0x4D) (mbPos + 2) 0x62

/-- A letter is shown from `ax`. -/
lemma exec_show_letter {n : ℕ} {v : BitVec 8} (hes : s.seg .es = video16s)
    (hebx : g .ebx = BitVec.ofNat 32 n) (hn : n + 2 ≤ 4000)
    (hah : (Reg.hi .eax).of (g .eax) = param) (hal : (Reg.lo .eax).of (g .eax) = v) :
    (Instr.mov (idx .es 0 .ebx) ax).exec L.board find (s.moved e g f st m)
        = some (s.moved (e + 1) g f st (showCell L m n v))
      ∧ (Instr.mov (idx .es 0 .ebx) ax : Instr Label).accesses (s.moved e g f st m)
        = [⟨video16s, n, 2⟩] := by
  have hpos : (g .ebx).toNat = n := by
    rw [hebx, BitVec.toNat_ofNat]
    exact Nat.mod_eq_of_lt (by omega)
  have hax : (Reg.r16 .eax).of (g .eax) = param ++ v := by rw [of_r16_eq, hah, hal]
  exact exec_show hes hpos hn hax

/-- The registers with the attribute in `ah`. -/
def withAh (g : R32 → BitVec 32) : R32 → BitVec 32 :=
  Function.update g .eax ((Reg.hi .eax).put param (g .eax))

/-- The registers with which a letter is shown. -/
def lettered (g : R32 → BitVec 32) (n : ℕ) (v : BitVec 8) : R32 → BitVec 32 :=
  Function.update (Function.update g .ebx (BitVec.ofNat 32 n)) .eax ((Reg.lo .eax).put v (g .eax))

/-- The letters are shown, and the procedure returns. -/
lemma countMemory_leave (hes : s.seg .es = video16s) {g₀ : R32 → BitVec 32} :
    ∃ g', Leads L.board code32 (s.moved 71 g f (kept g₀ e st) m) mbCells
      ((s.setSeg .ds data32s).moved e g' f st (showMb L m)) := by
  -- `ah` still holds the colour at each letter
  have hah : (Reg.hi .eax).of (lettered (withAh g) mbPos 0x4D .eax) = param :=
    (of_hi_put_lo .eax .eax 0x4D _).trans (Reg.of_put (.hi .eax) param (g .eax))
  have hah' : (Reg.hi .eax).of
      (lettered (lettered (withAh g) mbPos 0x4D) (mbPos + 2) 0x62 .eax) = param :=
    (of_hi_put_lo .eax .eax 0x62 _).trans hah
  obtain ⟨hm, haccm⟩ := @exec_show_letter L s (lettered (withAh g) mbPos 0x4D) f (kept g₀ e st)
    m 74 mbPos 0x4D hes rfl (by decide) hah (Reg.of_put _ _ _)
  obtain ⟨hb, haccb⟩ := @exec_show_letter L s
    (lettered (lettered (withAh g) mbPos 0x4D) (mbPos + 2) 0x62) f (kept g₀ e st)
    (showCell L m mbPos 0x4D) 77 (mbPos + 2) 0x62 hes rfl (by decide) hah' (Reg.of_put _ _ _)
  -- up to the store of `M`
  have hready : Leads L.board code32 (s.moved 71 g f (kept g₀ e st) m) []
      (s.moved 74 (lettered (withAh g) mbPos 0x4D) f (kept g₀ e st) m) := by
    exact .quiet rfl rfl rfl (.quiet rfl rfl rfl (.quiet rfl rfl rfl (.of_eq rfl)))
  -- up to the store of `b`
  have hready' : Leads L.board code32
      (s.moved 75 (lettered (withAh g) mbPos 0x4D) f (kept g₀ e st) (showCell L m mbPos 0x4D)) []
      (s.moved 77 (lettered (lettered (withAh g) mbPos 0x4D) (mbPos + 2) 0x62) f (kept g₀ e st)
        (showCell L m mbPos 0x4D)) :=
    .quiet rfl rfl rfl (.quiet rfl rfl rfl (.of_eq rfl))
  -- the registers are popped, and the procedure returns
  have hback : Leads L.board code32
      (s.moved 78 (lettered (lettered (withAh g) mbPos 0x4D) (mbPos + 2) 0x62) f (kept g₀ e st)
        (showMb L m)) []
      ((s.setSeg .ds data32s).moved e (Function.update (Function.update (lettered
        (lettered (withAh g) mbPos 0x4D) (mbPos + 2) 0x62) .ebx (g₀ .ebx)) .eax (g₀ .eax)) f st
        (showMb L m)) := by
    exact .quiet rfl rfl rfl (.quiet rfl rfl rfl (.quiet rfl rfl rfl (.quiet rfl rfl rfl
      (.of_eq rfl))))
  have hb' := hready'.trans (.touch rfl hb haccb hback)
  have hm' := hready.trans (.touch rfl hm haccm hb')
  exact ⟨_, hm'⟩

/-- The rounds access one byte each, of the whole memory, from the first on upwards. -/
lemma probes_upwards {a n : ℕ} : (∀ x ∈ probes L a n, x.sel = data4gbs ∧ a ≤ x.off
      ∧ x.off + x.len ≤ a + n)
    ∧ (probes L a n).Pairwise fun x y => x.off ≤ y.off := by
  induction n generalizing a with
  | zero => simp [probes]
  | succ n ih =>
      obtain ⟨hall, hup⟩ := @ih (a + 1)
      rw [probes]
      split_ifs with hin
      · refine ⟨fun x hx => ?_, List.pairwise_append.mpr ⟨?_, hup, fun x hx y hy => ?_⟩⟩
        · rcases List.mem_append.mp hx with hx | hx
          · rw [List.eq_of_mem_replicate hx]
            exact ⟨rfl, le_rfl, by change a + 1 ≤ _; omega⟩
          · obtain ⟨hsel, hlow, hhigh⟩ := hall x hx
            exact ⟨hsel, by omega, by omega⟩
        · exact List.pairwise_replicate.mpr (Or.inr le_rfl)
        · rw [List.eq_of_mem_replicate hx]
          have := (hall y hy).2.1
          change a ≤ _
          omega
      · refine ⟨fun x hx => ?_, List.pairwise_replicate.mpr (Or.inr le_rfl)⟩
        rw [List.eq_of_mem_replicate hx]
        exact ⟨rfl, le_rfl, by change a + 1 ≤ _; omega⟩

/-- The bytes that the probe accesses. -/
def probedBytes (L : Layout) : List Access := probes L 0x100001 0xFFEFFFFE

/-- **The procedure up to the call of the output**: the megabytes have been counted, and
every byte is as it was. -/
lemma countMemory_leads (hds : s.seg .ds = data32s) (hram : L.ram < 2 ^ 32)
    (hm : ∀ a, L.ram ≤ a → m a ≠ signature) :
    ∃ g' f', Leads L.board code32 (s.moved (find .countMemoryProc) g f (.ret e :: st) m)
        (probedBytes L)
        ((wide s).moved (find .printCountMemory) g' f' (.ret 71 :: kept g e st) m)
      ∧ (g' .eax).toNat = L.ram / 2 ^ 20 ∧ g' .ebx = BitVec.ofNat 32 memValuePos := by
  have hprobing : Probing (wide s) (probing0 g) := ⟨rfl, Reg.of_put _ _ _⟩
  obtain ⟨n, hn⟩ : ∃ n, 0xFFEFFFFE = n + 1 := ⟨0xFFEFFFFD, rfl⟩
  have hfirst : (probing0 g .ebx).toNat = 0x100001 := rfl
  have hrest : (probing0 g .ecx).toNat = 0xFFEFFFFE := rfl
  obtain ⟨g₁, f₁, hrounds, hebx, -, -⟩ := @count_rounds L (wide s) (probing0 g) f (kept g e st) m
    n hprobing (hrest.trans hn) (by omega) hram hm
  rw [hfirst, ← hn] at hrounds
  obtain ⟨f', hdiv⟩ := @countMemory_megabytes L (wide s) g₁ f₁ (kept g e st) m
  have hall := (countMemory_enter hds).trans (hrounds.trans hdiv)
  rw [List.nil_append, List.append_nil] at hall
  refine ⟨_, f', hall, ?_, rfl⟩
  have hmb := L.installed
  change (BitVec.ofNat 32 ((g₁ .ebx).toNat / 2 ^ 20)).toNat = _
  rw [hebx, hfirst, BitVec.toNat_ofNat]
  omega

/-- From the call of the output to the return. -/
lemma countMemory_shown (hes : s.seg .es = video16s) {g₀ : R32 → BitVec 32}
    (hebx : g .ebx = BitVec.ofNat 32 memValuePos) :
    ∃ g' f', Leads L.board code32
      ((wide s).moved (find .printCountMemory) g f (.ret 71 :: kept g₀ e st) m)
      (numberCells ++ mbCells)
      ((s.setSeg .ds data32s).moved e g' f' st
        (showMb L (showDigits L 8 (g .eax) memValuePos m))) := by
  obtain ⟨f', hnumber⟩ := @printCountMemory_leads L (wide s) g f (kept g₀ e st) m 71 hes hebx
  obtain ⟨g', hletters⟩ := @countMemory_leave L (wide s) g f' st
    (showDigits L 8 (g .eax) memValuePos m) e hes g₀
  have hds : (wide s).setSeg .ds data32s = s.setSeg .ds data32s :=
    State.ext rfl rfl (Function.update_idem _ _ _) rfl rfl rfl rfl rfl
  rw [hds] at hletters
  exact ⟨g', f', hnumber.trans hletters⟩

/-- The letters change nothing outside their cells. -/
lemma showMb_elsewhere {a : ℕ} (ha : a < video + mbPos ∨ video + mbPos + 4 ≤ a) :
    showMb L m a = m a := by
  have hsecond : ¬ (video + (mbPos + 2) ≤ a ∧ a < video + (mbPos + 2) + 16 / 8) := by omega
  have hfirst : ¬ (video + mbPos ≤ a ∧ a < video + mbPos + 16 / 8) := by omega
  exact (store_of_not_mem hsecond).trans (store_of_not_mem hfirst)

/-- **The memory probe**: whatever the memory holds and wherever it ends, the procedure
comes to the call of the output, with the number of megabytes in `eax` and every byte as it
was, and returns. Its probes go upwards and stay below the end of the address space. Only
the cells of the output have changed. -/
theorem memory_counted (L : Layout) (s : State) (e : ℕ) (st : List Slot)
    (heip : s.eip = find .countMemoryProc) (hstack : s.stack = .ret e :: st)
    (hds : s.seg .ds = data32s) (hes : s.seg .es = video16s) (hram : L.ram < 2 ^ 32)
    (hm : ∀ a, L.ram ≤ a → s.mem a ≠ signature) :
    ∃ u t, Leads L.board code32 s (probedBytes L) u
      ∧ Leads L.board code32 u (numberCells ++ mbCells) t
      ∧ (∀ x ∈ probedBytes L, x.sel = data4gbs ∧ 2 ^ 20 < x.off ∧ x.off + x.len < 2 ^ 32)
      ∧ (probedBytes L).Pairwise (fun x y => x.off ≤ y.off)
      ∧ u.eip = find .printCountMemory ∧ (u.reg .eax).toNat = L.ram / 2 ^ 20 ∧ u.mem = s.mem
      ∧ t.eip = e ∧ t.stack = st
      ∧ ∀ a, a < video + (memValuePos - 14) ∨ video + mbPos + 4 ≤ a → t.mem a = s.mem a := by
  obtain ⟨g₁, f₁, hprobe, heax, hebx⟩ := @countMemory_leads L s s.reg s.flags st s.mem e hds hram hm
  rw [← eq_moved heip hstack] at hprobe
  obtain ⟨g₂, f₂, hshown⟩ := @countMemory_shown L s g₁ f₁ st s.mem e hes s.reg hebx
  obtain ⟨hall, hup⟩ := @probes_upwards L 0x100001 0xFFEFFFFE
  refine ⟨_, _, hprobe, hshown, fun x hx => ?_, hup, State.moved_eip _ _ _ _ _ _, heax, rfl,
    rfl, rfl, fun a ha => ?_⟩
  · obtain ⟨hsel, hlow, hhigh⟩ := hall x hx
    exact ⟨hsel, by omega, by omega⟩
  · have hfirst : memValuePos + 2 = mbPos := rfl
    exact (showMb_elsewhere (by omega)).trans (showDigits_elsewhere (by decide) (by omega))

/-- A call that counts the memory, all of whose bytes are zero. -/
def callOfProbe : State where
  eip := find .countMemoryProc
  reg := fun _ => 0
  seg := fun r => if r = .es then video16s else data32s
  flags := ⟨false, false, false, false⟩
  intr := true
  stack := [.ret 103]
  mem := fun _ => 0
  port := fun _ => 0

/-- Thirty-two megabytes are counted. -/
theorem memory_counted_thirty_two :
    ∃ u t, Leads plainLayout.board code32 callOfProbe (probedBytes plainLayout) u
      ∧ Leads plainLayout.board code32 u (numberCells ++ mbCells) t
      ∧ (∀ x ∈ probedBytes plainLayout,
        x.sel = data4gbs ∧ 2 ^ 20 < x.off ∧ x.off + x.len < 2 ^ 32)
      ∧ (probedBytes plainLayout).Pairwise (fun x y => x.off ≤ y.off)
      ∧ u.eip = find .printCountMemory ∧ (u.reg .eax).toNat = plainLayout.ram / 2 ^ 20
      ∧ u.mem = callOfProbe.mem ∧ t.eip = 103 ∧ t.stack = []
      ∧ ∀ a, a < video + (memValuePos - 14) ∨ video + mbPos + 4 ≤ a →
        t.mem a = callOfProbe.mem a :=
  memory_counted plainLayout callOfProbe 103 [] rfl rfl rfl rfl (by decide)
    fun _ _ => (by decide : (0 : BitVec 8) ≠ signature)

/-- The letter `M` has been shown. -/
lemma showMb_letter : showMb L m (video + mbPos) = 0x4D := by
  have hmem : video + mbPos < L.board.ram := lt_of_lt_of_le (by decide) L.installed
  have hsecond : ¬ (video + (mbPos + 2) ≤ video + mbPos
    ∧ video + mbPos < video + (mbPos + 2) + 16 / 8) := by omega
  refine (store_of_not_mem hsecond).trans ((if_pos ⟨hmem, le_rfl, by omega⟩).trans ?_)
  rw [Nat.sub_self]
  rfl

/-- The output is in memory too: when the procedure has returned, the letter `M` is where a
zero has been. -/
theorem output_in_memory : ¬ ∃ l t, Leads plainLayout.board code32 callOfProbe l t
    ∧ t.eip = 103 ∧ t.stack = [] ∧ ∀ a < plainLayout.ram, t.mem a = callOfProbe.mem a := by
  rintro ⟨l, t, hrun, heip, -, hkept⟩
  have hstop : ∀ u : State, u.eip = 103 → step plainLayout.board code32 u = none := by
    intro u hu
    rw [step, hu]
    rfl
  obtain ⟨g₁, f₁, hprobe, -, hebx⟩ := @countMemory_leads plainLayout callOfProbe callOfProbe.reg
    callOfProbe.flags [] callOfProbe.mem 103 rfl (by decide)
    fun _ _ => (by decide : (0 : BitVec 8) ≠ signature)
  have hcall : callOfProbe = callOfProbe.moved (find .countMemoryProc) callOfProbe.reg
      callOfProbe.flags [.ret 103] callOfProbe.mem := eq_moved rfl rfl
  rw [← hcall] at hprobe
  obtain ⟨g₂, f₂, hshown⟩ := @countMemory_shown plainLayout callOfProbe g₁ f₁ [] callOfProbe.mem 103
    rfl callOfProbe.reg hebx
  have hend := hrun.end_unique (hprobe.trans hshown) (hstop t heip) (hstop _ rfl)
  have hcell := hkept (video + mbPos) (by decide)
  rw [hend, State.moved_mem, showMb_letter] at hcell
  exact absurd hcell (by decide)

end ProtectedMode

end OperatingSys
