import Mathlib.Data.List.TakeWhile
import OperatingSys.ModeSwitch.Switch

/-!
What `main.asm` puts on the screen.

Back in real mode the program loads `ds` and `ss` but not `es`, whose selector is still that of
protected mode while its shadow register is that of the screen. So the third text goes to the
screen as long as no interrupt handler saves and restores `es`: from then on it goes to the
segment that the selector names in real mode, `LOW`. The program itself never faults, and ends
with the limits of real mode (`texts_of_run`).
-/

namespace OperatingSys

namespace ModeSwitch

open ProtectedMode (SegDescr Pseudo)

variable {P : Placement} {c c' : Core} {s t u : State} {w : Option Store} {b i : ℕ} {saved : Saved}

/-! ### An interrupt behind `STI` -/

/-- The base that the selector of the screen stands for in real mode. -/
def LOW : ℕ := 16 * 32

/-- The processor with another base behind `es`. -/
def Core.withEs (c : Core) (b : ℕ) : Core := { c with es := { c.es with base := b } }

lemma Back.withEs (h : Back P b c) (b' : ℕ) : Back P b' (c.withEs b') :=
  ⟨h.pe, h.intr, h.cs, h.ds, h.ss, by rw [Core.withEs, h.es]⟩

/-- An interrupt loads `es` or leaves everything. -/
lemma Back.served (h : Back P b c) (saved : Saved) :
    c.served saved = c.withEs (if saved.es then LOW else b) := by
  have hcs : c.cs.Agrees := by rw [h.cs]; rfl
  have hds : c.ds.Agrees := by rw [h.ds]; rfl
  have hss : c.ss.Agrees := by rw [h.ss]; rfl
  have hes : c.es.again saved.es = { c.es with base := if saved.es then LOW else b } := by
    rw [Segment.again, h.es]
    split_ifs <;> rfl
  rw [Core.served, hcs.again, hds.again, hss.again, hes]
  rfl

lemma Printable.withEs {t : List (BitVec 8)} (h : Printable P c t) (b : ℕ) :
    Printable P (c.withEs b) t :=
  ⟨h.bytes, h.count, h.colored, h.reads, h.writes, h.bx, h.di⟩

/-! ### The third text -/

/-- The program is at the third text with `b` behind `es`, and `i` of its characters have been
stored. -/
inductive Printing (P : Placement) (b : ℕ) : ℕ → State → Prop
  | row {c : Core} (h : Back P b c) : Printing P b 0 ⟨78, c⟩
  | start {c : Core} (h : Back P b c) (hdi : c.di = 2240) : Printing P b 0 ⟨79, c⟩
  | count {c : Core} (h : Back P b c) (hdi : c.di = 2240) (hbx : c.bx = 46) :
      Printing P b 0 ⟨80, c⟩
  | color {c : Core} (h : Back P b c) (hdi : c.di = 2240) (hbx : c.bx = 46) (hcx : c.cx = 9) :
      Printing P b 0 ⟨81, c⟩
  | head {c : Core} {i : ℕ} {x : BitVec 8} {t : List (BitVec 8)} (h : Back P b c)
      (ht : msg.drop i = x :: t) (hp : Printable P c (x :: t)) (hdi : c.di.toNat = 2240 + 2 * i) :
      Printing P b i ⟨82, c⟩
  | read {c : Core} {i : ℕ} {x : BitVec 8} {t : List (BitVec 8)} (h : Back P b c)
      (ht : msg.drop i = x :: t) (hp : Printable P c (x :: t)) (hdi : c.di.toNat = 2240 + 2 * i) :
      Printing P b i ⟨83, { c with eax := (X86.Reg.lo .eax).put x c.eax }⟩
  | next {c : Core} {i : ℕ} {x : BitVec 8} {t : List (BitVec 8)} (h : Back P b c)
      (ht : msg.drop i = x :: t) (hp : Printable P c (x :: t)) (hdi : c.di.toNat = 2240 + 2 * i) :
      Printing P b i ⟨84, { c with eax := (X86.Reg.lo .eax).put x c.eax, bx := c.bx + 1 }⟩
  | stored {c : Core} {i : ℕ} {x : BitVec 8} {t : List (BitVec 8)} (h : Back P b c)
      (ht : msg.drop i = x :: t) (hp : Printable P c (x :: t)) (hdi : c.di.toNat = 2240 + 2 * i) :
      Printing P b (i + 1) ⟨85, c.stored x⟩
  | done {c : Core} (h : Back P b c) : Printing P b msg.length ⟨86, c⟩
  | finished {c : Core} (h : Back P b c) : Printing P b msg.length ⟨FINISH, c⟩

lemma Printing.back (h : Printing P b i s) : Back P b s.core := by
  cases h with
  | row h | start h | count h | color h | head h | done h | finished h => exact h
  | read h | next h | stored h => exact ⟨h.pe, h.intr, h.cs, h.ds, h.ss, h.es⟩

/-- What has been stored does not depend on what is behind `es`. -/
lemma Printing.withEs (h : Printing P b i s) (b' : ℕ) :
    Printing P b' i ⟨s.ip, s.core.withEs b'⟩ := by
  cases h with
  | row h => exact .row (h.withEs b')
  | start h hdi => exact .start (h.withEs b') hdi
  | count h hdi hbx => exact .count (h.withEs b') hdi hbx
  | color h hdi hbx hcx => exact .color (h.withEs b') hdi hbx hcx
  | head h ht hp hdi => exact .head (h.withEs b') ht (hp.withEs b') hdi
  | read h ht hp hdi => exact .read (h.withEs b') ht (hp.withEs b') hdi
  | next h ht hp hdi => exact .next (h.withEs b') ht (hp.withEs b') hdi
  | stored h ht hp hdi => exact .stored (h.withEs b') ht (hp.withEs b') hdi
  | done h => exact .done (h.withEs b')
  | finished h => exact .finished (h.withEs b')

/-- An interrupt. -/
lemma Printing.irq (h : Printing P b i s)
    (hs : (machine P).step s (.irq saved) = some (w, t)) :
    w = none ∧ Printing P (if saved.es then LOW else b) i t := by
  simp only [machine, ModeSwitch.irq] at hs
  split_ifs at hs
  cases hs
  refine ⟨rfl, ?_⟩
  rw [h.back.served saved]
  exact h.withEs _

section Places

attribute [local simp] code toScreen printText setUp storeBase enter selectors limits leave restore

/-- The instructions behind `STI`. -/
lemma parts_last (P : Placement) : (code P)[78]? = some (Instr.movDi 2240)
    ∧ (code P)[79]? = some (Instr.movBx 46) ∧ (code P)[80]? = some (Instr.movCx 9)
    ∧ (code P)[81]? = some (Instr.movAh 0x1E) ∧ (code P)[82]? = some Instr.movAlBx
    ∧ (code P)[83]? = some Instr.incBx ∧ (code P)[84]? = some Instr.stosw
    ∧ (code P)[85]? = some (Instr.loop 82) ∧ (code P)[86]? = some (Instr.movAx 0x4C00)
    ∧ (code P)[FINISH]? = some Instr.int21 := by
  refine ⟨?_, ?_, ?_, ?_, ?_, ?_, ?_, ?_, ?_, ?_⟩ <;> simp [FINISH]

end Places

lemma length_words (a : ℕ) (t : List (BitVec 8)) : (words a t).length = t.length := by
  induction t generalizing a with
  | nil => rfl
  | cons x t ih => rw [words, List.length_cons, ih, List.length_cons]

/-- A word of a text behind those before it. -/
lemma take_words {a : ℕ} {t r : List (BitVec 8)} {x : BitVec 8} (ht : t.drop i = x :: r) :
    (words a t).take (i + 1) = (words a t).take i ++ [(a + 2 * i, (0x1E : BitVec 8) ++ x)] := by
  induction t generalizing a i with
  | nil =>
      rw [List.drop_nil] at ht
      cases ht
  | cons y t ih =>
      cases i with
      | zero =>
          obtain ⟨rfl, -⟩ := List.cons.inj ht
          rfl
      | succ i =>
          have hrest := ih (a := a + 2) ht
          rw [show a + 2 + 2 * i = a + 2 * (i + 1) by omega] at hrest
          rw [words, List.take_succ_cons, hrest, List.take_succ_cons, List.cons_append]

/-- The third text in front of the loop. -/
lemma Back.printable (h : Back P b c) (hdi : c.di = 2240) (hbx : c.bx = 46) (hcx : c.cx = 9) :
    Printable P { c with eax := (X86.Reg.hi .eax).put 0x1E c.eax } msg where
  bytes := by
    change ∀ k < msg.length, byteAt (c.bx.toNat + k) = msg[k]?
    rw [hbx]
    decide
  count := by
    change c.cx.toNat = _
    rw [hcx]
    rfl
  colored := X86.Reg.of_put _ _ _
  reads := by
    change c.ds.base = _ ∧ c.bx.toNat + 9 ≤ c.ds.limit + 1
    rw [h.ds, hbx]
    exact ⟨rfl, by change 46 + 9 ≤ 0xFFFF + 1; omega⟩
  writes := by
    change c.di.toNat + 2 * 9 ≤ c.es.limit + 1 ∧ (c.pe = true → _)
    rw [h.es, hdi, h.pe]
    exact ⟨by change 2240 + 2 * 9 ≤ 0xFFFF + 1; omega, nofun⟩
  bx := by
    change c.bx.toNat + 9 < 2 ^ 16
    rw [hbx]
    decide
  di := by
    change c.di.toNat + 2 * 9 < 2 ^ 16
    rw [hdi]
    decide

/-- Where the program is after an instruction. -/
structure Goes (P : Placement) (b i : ℕ) (s : State) (w : Option Store) (t : State) (j : ℕ) :
    Prop where
  step : (machine P).step s .cpu = some (w, t)
  printing : Printing P b j t
  text : (words (b + 2240) msg).take j = (words (b + 2240) msg).take i ++ w.toList

/-- An instruction that goes on with the next one. -/
lemma Goes.of_exec {o : Instr} {p j : ℕ} (ho : (code P)[p]? = some o)
    (he : o.exec P c = some (w, c')) (h : Printing P b j ⟨p + 1, c'⟩)
    (ht : (words (b + 2240) msg).take j = (words (b + 2240) msg).take i ++ w.toList) :
    Goes P b i ⟨p, c⟩ w ⟨p + 1, c'⟩ j :=
  ⟨step_of_exec ho he, h, ht⟩

/-- An instruction that stores nothing. -/
lemma Goes.silent {o : Instr} {p : ℕ} (ho : (code P)[p]? = some o)
    (he : o.exec P c = some (none, c')) (h : Printing P b i ⟨p + 1, c'⟩) :
    Goes P b i ⟨p, c⟩ none ⟨p + 1, c'⟩ i :=
  .of_exec ho he h (List.append_nil _).symm

/-- A character is stored through `es`. -/
lemma Printing.store {x : BitVec 8} {r : List (BitVec 8)} (h : Back P b c)
    (ht : msg.drop i = x :: r) (hp : Printable P c (x :: r))
    (hdi : c.di.toNat = 2240 + 2 * i) :
    ∃ w t, Goes P b i ⟨84, { c with eax := (X86.Reg.lo .eax).put x c.eax, bx := c.bx + 1 }⟩ w t
      (i + 1) := by
  obtain ⟨-, -, -, -, -, -, hstosw, -⟩ := parts_last P
  refine ⟨_, _, .of_exec hstosw (exec_stosw hp) (.stored h ht hp hdi) ?_⟩
  rw [take_words ht, h.es, hdi, Nat.add_assoc, Option.toList_some]

/-- The loop goes on with the next character, or ends behind the last one. -/
lemma Printing.turn {x : BitVec 8} {r : List (BitVec 8)} (h : Back P b c)
    (ht : msg.drop i = x :: r) (hp : Printable P c (x :: r))
    (hdi : c.di.toNat = 2240 + 2 * i) :
    ∃ t, Goes P b (i + 1) ⟨85, c.stored x⟩ none t (i + 1) := by
  obtain ⟨-, -, -, -, -, -, -, hloop, -⟩ := parts_last P
  have hcount : (c.cx - 1).toNat = r.length := hp.tail.count
  have hback : Back P b { c.stored x with cx := c.cx - 1 } := ⟨h.pe, h.intr, h.cs, h.ds, h.ss, h.es⟩
  have hdrop : msg.drop (i + 1) = r := by rw [← List.tail_drop, ht, List.tail_cons]
  refine ⟨_, step_loop hloop (c.stored x), ?_, (List.append_nil _).symm⟩
  cases r with
  | nil =>
      -- `cx` is zero, so that was the last character
      have hzero : (c.stored x).cx - 1 = 0 := BitVec.eq_of_toNat_eq hcount
      have hlast : i + 1 = msg.length := by
        have hlt : i < msg.length := by
          by_contra hge
          rw [List.drop_eq_nil_of_le (not_lt.mp hge)] at ht
          cases ht
        exact le_antisymm hlt (List.drop_eq_nil_iff.mp hdrop)
      rw [if_pos hzero, hlast]
      exact .done hback
  | cons y r =>
      -- `cx` is not zero, as there are more
      have hmore : (c.stored x).cx - 1 ≠ 0 := by
        intro hzero
        rw [show c.cx - 1 = 0 from hzero] at hcount
        cases hcount
      have hnext : (c.di + 2).toNat = 2240 + 2 * (i + 1) := by
        have hlt := hp.di
        rw [List.length_cons] at hlt
        rw [BitVec.toNat_add]
        change (c.di.toNat + 2) % 2 ^ 16 = _
        omega
      rw [if_neg hmore]
      exact .head hback hdrop hp.tail hnext

/-- **Behind `STI` nothing faults**: the program goes on, up to `INT 21h`. -/
lemma Printing.cpu (h : Printing P b i s) :
    (s.ip = FINISH ∧ i = msg.length ∧ (machine P).step s .cpu = none)
      ∨ ∃ w t j, Goes P b i s w t j := by
  obtain ⟨hrow, hbx, hcx, hah, hread, hinc, -, -, hax, hend⟩ := parts_last P
  cases h with
  | @row c h =>
      have hback : Back P b { c with di := 2240 } := ⟨h.pe, h.intr, h.cs, h.ds, h.ss, h.es⟩
      exact Or.inr ⟨_, _, _, .silent hrow rfl (.start hback rfl)⟩
  | @start c h hdi =>
      have hback : Back P b { c with bx := 46 } := ⟨h.pe, h.intr, h.cs, h.ds, h.ss, h.es⟩
      exact Or.inr ⟨_, _, _, .silent hbx rfl (.count hback hdi rfl)⟩
  | @count c h hdi hbx' =>
      have hback : Back P b { c with cx := 9 } := ⟨h.pe, h.intr, h.cs, h.ds, h.ss, h.es⟩
      exact Or.inr ⟨_, _, _, .silent hcx rfl (.color hback hdi hbx' rfl)⟩
  | @color c h hdi hbx' hcx' =>
      have hback : Back P b { c with eax := (X86.Reg.hi .eax).put 0x1E c.eax } :=
        ⟨h.pe, h.intr, h.cs, h.ds, h.ss, h.es⟩
      have hprint := h.printable hdi hbx' hcx'
      refine Or.inr ⟨_, _, _, .silent hah rfl (.head hback rfl hprint ?_)⟩
      change c.di.toNat = 2240
      rw [hdi]
      rfl
  | head h ht hp hdi =>
      exact Or.inr ⟨_, _, _, .silent hread (exec_movAlBx hp) (.read h ht hp hdi)⟩
  | read h ht hp hdi => exact Or.inr ⟨_, _, _, .silent hinc rfl (.next h ht hp hdi)⟩
  | next h ht hp hdi =>
      obtain ⟨w, t, hgo⟩ := Printing.store h ht hp hdi
      exact Or.inr ⟨w, t, _, hgo⟩
  | stored h ht hp hdi =>
      obtain ⟨t, hgo⟩ := Printing.turn h ht hp hdi
      exact Or.inr ⟨none, t, _, hgo⟩
  | @done c h =>
      have hback : Back P b { c with eax := (X86.Reg.r16 .eax).put 0x4C00 c.eax } :=
        ⟨h.pe, h.intr, h.cs, h.ds, h.ss, h.es⟩
      exact Or.inr ⟨_, _, _, .silent hax rfl (.finished hback)⟩
  | finished h =>
      refine Or.inl ⟨rfl, rfl, ?_⟩
      simp only [machine, ModeSwitch.cpu, hend, Instr.exec, Option.map_none]

/-! ### Runs -/

/-- An interrupt whose handler saves `es`. -/
def Mover.savesEs : Mover → Bool
  | .cpu => false
  | .irq saved => saved.es

/-- At `INT 21h` the third text is complete. -/
lemma Printing.eq_of_finish (h : Printing P b i s) (hip : s.ip = FINISH) : i = msg.length := by
  cases h with
  | row | start | count | color | head | read | next | stored | done => cases hip
  | finished => rfl

/-- One step, as long as what is behind `es` stays. -/
lemma Printing.step {m : Mover} (h : Printing P b i s) (hb : b = LOW ∨ m.savesEs = false)
    (hs : (machine P).step s m = some (w, t)) : ∃ j, Printing P b j t
      ∧ (words (b + 2240) msg).take j = (words (b + 2240) msg).take i ++ w.toList := by
  cases m with
  | cpu =>
      rcases h.cpu with ⟨-, -, hnone⟩ | ⟨w', t', j, hgo⟩
      · rw [hnone] at hs
        cases hs
      · rw [hgo.step] at hs
        cases hs
        exact ⟨j, hgo.printing, hgo.text⟩
  | irq saved =>
      obtain ⟨rfl, ht⟩ := h.irq hs
      have hsame : (if saved.es then LOW else b) = b := by
        rcases hb with rfl | hb
        · exact ite_self LOW
        · exact if_neg (by rw [show saved.es = false from hb]; exact Bool.false_ne_true)
      rw [hsame] at ht
      exact ⟨i, ht, (List.append_nil _).symm⟩

/-- A run, as long as what is behind `es` stays: what it shows is the next part of the text. -/
lemma Printing.run {tr : List (Mover × Option Store)} (h : Printing P b i s)
    (hb : b = LOW ∨ ∀ q ∈ tr, q.1.savesEs = false) (hr : (machine P).Run s tr t) :
    ∃ j, Printing P b j t ∧ (words (b + 2240) msg).take j
      = (words (b + 2240) msg).take i ++ Machine.shows id tr := by
  induction hr with
  | nil => exact ⟨i, h, (List.append_nil _).symm⟩
  | @snoc tr t u m w hr hs ih =>
      obtain ⟨j, ht, htext⟩ := ih (hb.imp_right fun hall q hq =>
        hall q (List.mem_append_left _ hq))
      obtain ⟨k, hu, htext'⟩ := ht.step (hb.imp_right fun hall =>
        hall (m, w) (List.mem_append_right _ List.mem_cons_self)) hs
      refine ⟨k, hu, ?_⟩
      rw [htext', htext, Machine.shows_append, Machine.shows_singleton, id_eq, List.append_assoc]

/-- The interrupts that leave what is behind `es`. -/
def keeps (q : Mover × Option Store) : Bool := !q.1.savesEs

/-- A run behind `STI`: up to the first interrupt that saves `es` the characters go to the
screen, and from then on to the segment `LOW`. -/
lemma Back.run {tr : List (Mover × Option Store)} (h : Back P SCREEN c)
    (hr : (machine P).Run ⟨RESTORED, c⟩ tr t) : ∃ b i k, Printing P b i t
      ∧ Machine.shows id (tr.takeWhile keeps) = (line 2240 msg).take k
      ∧ (words (LOW + 2240) msg).take i
          = (words (LOW + 2240) msg).take k ++ Machine.shows id (tr.dropWhile keeps) := by
  have hkept : ∀ q ∈ tr.takeWhile keeps, q.1.savesEs = false := fun q hq => by
    simpa [keeps] using List.mem_takeWhile_imp hq
  have htr := List.takeWhile_append_dropWhile (p := keeps) (l := tr)
  cases hd : tr.dropWhile keeps with
  | nil =>
      rw [hd, List.append_nil] at htr
      rw [← htr] at hr
      obtain ⟨k, ht, htext⟩ := (Printing.row h).run (Or.inr hkept) hr
      exact ⟨_, k, k, ht, htext.symm, (List.append_nil _).symm⟩
  | cons q tr' =>
      obtain ⟨m, w⟩ := q
      -- the first handler that saves `es`
      have hm : m.savesEs = true := by
        have hne : tr.dropWhile keeps ≠ [] := by rw [hd]; exact List.cons_ne_nil _ _
        have hhead := List.head_dropWhile_not keeps hne
        simpa [hd, keeps] using hhead
      rw [hd] at htr
      rw [← htr] at hr
      obtain ⟨v, v', hfirst, hs, hrest⟩ := hr.split_cons
      obtain ⟨k, hv, htext⟩ := (Printing.row h).run (Or.inr hkept) hfirst
      cases m with
      | cpu => cases hm
      | irq saved =>
          obtain ⟨rfl, hv'⟩ := hv.irq hs
          rw [if_pos (show saved.es = true from hm)] at hv'
          obtain ⟨i, ht, htext'⟩ := hv'.run (Or.inl rfl) hrest
          exact ⟨LOW, i, k, ht, htext.symm, htext'⟩

/-- There is no way on from `INT 21h`. -/
lemma step_finish (hip : s.ip = FINISH) : (machine P).step s .cpu = none := by
  obtain ⟨-, -, -, -, -, -, -, -, -, hend⟩ := parts_last P
  rw [← hip] at hend
  simp only [machine, ModeSwitch.cpu, hend, Instr.exec, Option.map_none]

/-- **The texts**: whatever the interrupts are, the program goes on up to `INT 21h`. Then two
texts are on the screen, and the third up to the first interrupt behind `STI` whose handler saves
`es`; what is left of it has gone to `LOW`. -/
theorem texts_of_run {tr : List (Mover × Option Store)} (h : Loaded P s)
    (hr : (machine P).Run s tr t) :
    (t.ip ≠ FINISH → (machine P).Enabled t .cpu)
      ∧ (t.ip = FINISH → ∃ tr₁ tr₂ u k, tr = tr₁ ++ tr₂ ∧ (machine P).Run s tr₁ u
          ∧ u.ip = RESTORED ∧ (machine P).Run u tr₂ t
          ∧ Machine.shows id tr₁ = line 1920 msg ++ line 2080 msgProtected
          ∧ Machine.shows id (tr₂.takeWhile keeps) = (line 2240 msg).take k
          ∧ Machine.shows id (tr₂.dropWhile keeps) = (words (LOW + 2240) msg).drop k
          ∧ t.core.pe = false ∧ ∀ r, (t.core.seg r).limit = 0xFFFF) := by
  obtain ⟨c, hback, hstretch⟩ := stretch_before h
  rcases hstretch.of_run hr with ⟨ws, -, hrest⟩ | ⟨tr₁, tr₂, htr, hr₁, hshow, hr₂⟩
  · -- still in front of `STI`, or right behind it
    have hon : (machine P).Enabled t .cpu := by
      by_cases ht : t = ⟨RESTORED, c⟩
      · rw [ht]
        rcases (Printing.row hback).cpu with ⟨hfin, -⟩ | ⟨w, u, j, hgo⟩
        · cases hfin
        · exact Option.isSome_of_eq_some hgo.step
      · exact hrest.enabled ht
    refine ⟨fun _ => hon, fun hip => ?_⟩
    rw [Machine.Enabled, step_finish hip] at hon
    cases hon
  · -- behind `STI`, where handlers run
    obtain ⟨b, i, k, ht, hscreen, hlow⟩ := hback.run hr₂
    refine ⟨fun hip => ?_, fun hip => ?_⟩
    · rcases ht.cpu with ⟨hfin, -⟩ | ⟨w, u, j, hgo⟩
      · exact absurd hfin hip
      · exact Option.isSome_of_eq_some hgo.step
    · have hb := ht.back
      refine ⟨tr₁, tr₂, _, k, htr, hr₁, rfl, hr₂, hshow, hscreen, ?_, hb.pe, fun r => ?_⟩
      · have hall : (words (LOW + 2240) msg).take i = words (LOW + 2240) msg := by
          rw [ht.eq_of_finish hip]
          exact List.take_of_length_le (length_words _ _).le
        rw [hall] at hlow
        exact (List.append_cancel_left ((List.take_append_drop k _).trans hlow)).symm
      · cases r with
        | cs => exact congrArg Segment.limit hb.cs
        | ds => exact congrArg Segment.limit hb.ds
        | ss => exact congrArg Segment.limit hb.ss
        | es => exact congrArg Segment.limit hb.es

/-- A placement, with the stack segment that the program is started with. -/
def low : Placement where
  data := 0x100
  text := 0x120
  stk := 0x110
  ss := 0x110
  sp := 256
  room := by decide
  cr0 := 0
  real := rfl
  codeLimit := 500

/-- The program loaded there. -/
def loaded : State where
  ip := 0
  core := {
    eax := 0, ebp := 0, bx := 0, cx := 0, di := 0, sp := 256, cr0 := 0, intr := true
    cs := realSegment 0x120
    ds := realSegment 0xF0
    ss := realSegment 0x110
    es := realSegment 0xF0
    gdtr := ⟨0, 0⟩
    gdt := initialGdt low
    pdescr := ⟨0, 0⟩
    stack := [] }

/-- A handler that saves `es`, when three characters of the third text are on the screen. -/
theorem texts_of_run_saved : ∃ tr t k, (machine low).Run loaded tr t ∧ t.ip = FINISH
    ∧ Machine.shows id tr = line 1920 msg ++ line 2080 msgProtected
        ++ (line 2240 msg).take k ++ (words (LOW + 2240) msg).drop k := by
  obtain ⟨tr, t, hr, hip⟩ := Machine.exists_run (show (((machine low).exec
    (.replicate 178 .cpu ++ .irq ⟨false, false, false, true⟩ :: .replicate 25 .cpu) loaded).any
      fun r => r.2.ip = FINISH) = true by decide +kernel)
  have hloaded : Loaded low loaded :=
    ⟨rfl, rfl, rfl, rfl, rfl, ⟨0xF0, rfl⟩, ⟨0xF0, rfl⟩, rfl, rfl, rfl⟩
  have hfin : t.ip = FINISH := of_decide_eq_true hip
  obtain ⟨tr₁, tr₂, u, k, rfl, -, -, -, hfirst, hscreen, hlow, -⟩ :=
    (texts_of_run hloaded hr).2 hfin
  refine ⟨tr₁ ++ tr₂, t, k, hr, hfin, ?_⟩
  rw [List.append_assoc, ← hscreen, ← hlow, ← hfirst, ← Machine.shows_append,
    List.takeWhile_append_dropWhile, ← Machine.shows_append]

end ModeSwitch

end OperatingSys
