import OperatingSys.Foundations.Machine
import OperatingSys.Foundations.Population
import OperatingSys.Foundations.Semop

/-!
The producers and consumers of `os_01/lab_05/01.c`.

Any number of producer and consumer processes share two positions and a buffer
behind three System V semaphores. Each `semop`, each access to the buffer, the
`printf` of a producer and each increment of a position is a step of its own.
The buffer is a function on the slots, long enough for every index used.

* `prodStart`, `prodStop`, `consumStart`, `consumStop`: the operation vectors,
  with `semop_prodStart` and its companions saying what each call does.
* `prod`, `consum`: one step of the loops that `create_prod` and
  `create_consum` run in their child processes, `prod` and `consum` being the
  loop bodies; `ProdStep` and `ConsumStep` list what such a step can be.
* `program`: the machine of all processes, `initial` the state `main` forks
  them in.
-/

namespace OperatingSys

namespace ProdConsum

/-- `const int N`, the number of slots `SE` is set up for. -/
def N : ℕ := 9

/-! ### The three semaphores and the four vectors -/

/-- The semaphore of the critical section. -/
def SB : Fin 3 := 0

/-- The semaphore of the free slots. -/
def SE : Fin 3 := 1

/-- The semaphore of the filled slots. -/
def SM : Fin 3 := 2

/-- The vector `prod_start`. -/
def prodStart : SemVector (Fin 3) where
  ops := [⟨SE, -1, 0⟩, ⟨SB, -1, 0⟩]
  plain := by decide

/-- The vector `prod_stop`. -/
def prodStop : SemVector (Fin 3) where
  ops := [⟨SB, 1, 0⟩, ⟨SM, 1, 0⟩]
  plain := by decide

/-- The vector `consum_start`. -/
def consumStart : SemVector (Fin 3) where
  ops := [⟨SM, -1, 0⟩, ⟨SB, -1, 0⟩]
  plain := by decide

/-- The vector `consum_stop`. -/
def consumStop : SemVector (Fin 3) where
  ops := [⟨SB, 1, 0⟩, ⟨SE, 1, 0⟩]
  plain := by decide

lemma sem_ext {v w : Fin 3 → ℕ} (h0 : v 0 = w 0) (h1 : v 1 = w 1) (h2 : v 2 = w 2) :
    v = w := by
  funext k
  fin_cases k <;> assumption

/-- `semop(semid, prod_start, 2)`: one free slot less, and the critical section
is taken. -/
lemma semop_prodStart (v : Fin 3 → ℕ) :
    semop prodStart 2 v
      = if 0 < v SE ∧ 0 < v SB then some ![v SB - 1, v SE - 1, v SM] else none := by
  by_cases h1 : 0 < v SE <;> by_cases h0 : 0 < v SB <;>
    simp [semop, prodStart, SB, SE] at h1 h0 ⊢ <;> simp [h1, h0]
  apply sem_ext <;> simp [SM]

/-- `semop(semid, prod_stop, 2)`: the critical section is freed; one more filled
slot. -/
lemma semop_prodStop (v : Fin 3 → ℕ) :
    semop prodStop 2 v = some ![v SB + 1, v SE, v SM + 1] := by
  simp only [semop, prodStop, List.take_succ_cons, List.take_zero, List.foldlM_cons,
    List.foldlM_nil, Sembuf.apply_incr]
  refine congrArg some ?_
  apply sem_ext <;> simp [SB, SE, SM]

/-- `semop(semid, consum_start, 2)`: one filled slot less, and the critical
section is taken. -/
lemma semop_consumStart (v : Fin 3 → ℕ) :
    semop consumStart 2 v
      = if 0 < v SM ∧ 0 < v SB then some ![v SB - 1, v SE, v SM - 1] else none := by
  by_cases h1 : 0 < v SM <;> by_cases h0 : 0 < v SB <;>
    simp [semop, consumStart, SB, SM] at h1 h0 ⊢ <;> simp [h1, h0]
  apply sem_ext <;> simp [SE]

/-- `semop(semid, consum_stop, 2)`: the critical section is freed; one more free
slot. -/
lemma semop_consumStop (v : Fin 3 → ℕ) :
    semop consumStop 2 v = some ![v SB + 1, v SE + 1, v SM] := by
  simp only [semop, consumStop, List.take_succ_cons, List.take_zero, List.foldlM_cons,
    List.foldlM_nil, Sembuf.apply_incr]
  refine congrArg some ?_
  apply sem_ext <;> simp [SB, SE, SM]

/-! ### The two loops -/

/-- What the processes share: the semaphore values, `*shm_pos_prod`,
`*shm_pos_consum` and `shm_buffer`. -/
structure Shared where
  sem : Fin 3 → ℕ
  posProd : ℕ
  posConsum : ℕ
  buffer : ℕ → ℤ

/-- What a step shows to the outside; an access to the buffer shows the slot
and the value. -/
inductive Event where
  | starts | stores (k : ℕ) (v : ℤ) | prints (k : ℕ) (v : ℤ) | reads (k : ℕ) (v : ℤ)
  | advances | stops
  deriving DecidableEq, Repr

/-- The places of a producer in `prod`. -/
inductive ProdPc where
  /-- At the loop condition and in `semop(semid, prod_start, 2)`. -/
  | starting
  | storing
  | printing
  | advancing
  /-- In `semop(semid, prod_stop, 2)`. -/
  | stopping
  deriving DecidableEq, Repr

/-- The places of a consumer in `consum`. -/
inductive ConsumPc where
  /-- At the loop condition and in `semop(semid, consum_start, 2)`. -/
  | starting
  | reading
  | advancing
  /-- In `semop(semid, consum_stop, 2)`. -/
  | stopping
  deriving DecidableEq, Repr

/-- The arguments `value` and `COUNT` of `create_prod`. -/
structure ProdArg where
  value : ℤ
  COUNT : ℤ

/-- The child of `create_prod`: its variables `i` and `value` and its place. -/
structure ProdLoc where
  i : ℕ
  value : ℤ
  pc : ProdPc

/-- The child of `create_consum`: its variable `i` and its place. -/
structure ConsumLoc where
  i : ℕ
  pc : ConsumPc

/-- One step of the child of `create_prod`; there is none once `i` has reached
`COUNT` and the child has exited. -/
def prod (arg : ProdArg) (sh : Shared) (l : ProdLoc) : Option (Event × Shared × ProdLoc) :=
  match l.pc with
  | .starting =>
      if (l.i : ℤ) < arg.COUNT then
        (semop prodStart 2 sh.sem).map fun v =>
          (.starts, { sh with sem := v }, { l with pc := .storing })
      else none
  | .storing => some (.stores sh.posProd l.value,
      { sh with buffer := Function.update sh.buffer sh.posProd l.value },
      { l with pc := .printing })
  | .printing => some (.prints sh.posProd (sh.buffer sh.posProd), sh, { l with pc := .advancing })
  | .advancing => some (.advances, { sh with posProd := sh.posProd + 1 },
      { l with pc := .stopping })
  | .stopping => (semop prodStop 2 sh.sem).map fun v =>
      (.stops, { sh with sem := v }, ⟨l.i + 1, l.value + 1, .starting⟩)

/-- One step of the child of `create_consum`. -/
def consum (COUNT : ℤ) (sh : Shared) (l : ConsumLoc) : Option (Event × Shared × ConsumLoc) :=
  match l.pc with
  | .starting =>
      if (l.i : ℤ) < COUNT then
        (semop consumStart 2 sh.sem).map fun v =>
          (.starts, { sh with sem := v }, { l with pc := .reading })
      else none
  | .reading => some (.reads sh.posConsum (sh.buffer sh.posConsum), sh,
      { l with pc := .advancing })
  | .advancing => some (.advances, { sh with posConsum := sh.posConsum + 1 },
      { l with pc := .stopping })
  | .stopping => (semop consumStop 2 sh.sem).map fun v =>
      (.stops, { sh with sem := v }, ⟨l.i + 1, .starting⟩)

/-- What a step of a producer can be. -/
inductive ProdStep (arg : ProdArg) (sh : Shared) :
    ProdLoc → Event → Shared → ProdLoc → Prop
  | starts {i : ℕ} {x : ℤ} (hi : (i : ℤ) < arg.COUNT) (hE : 0 < sh.sem SE)
      (hB : 0 < sh.sem SB) :
      ProdStep arg sh ⟨i, x, .starting⟩ .starts
        { sh with sem := ![sh.sem SB - 1, sh.sem SE - 1, sh.sem SM] } ⟨i, x, .storing⟩
  | stores {i : ℕ} {x : ℤ} :
      ProdStep arg sh ⟨i, x, .storing⟩ (.stores sh.posProd x)
        { sh with buffer := Function.update sh.buffer sh.posProd x } ⟨i, x, .printing⟩
  | prints {i : ℕ} {x : ℤ} :
      ProdStep arg sh ⟨i, x, .printing⟩ (.prints sh.posProd (sh.buffer sh.posProd)) sh
        ⟨i, x, .advancing⟩
  | advances {i : ℕ} {x : ℤ} :
      ProdStep arg sh ⟨i, x, .advancing⟩ .advances { sh with posProd := sh.posProd + 1 }
        ⟨i, x, .stopping⟩
  | stops {i : ℕ} {x : ℤ} :
      ProdStep arg sh ⟨i, x, .stopping⟩ .stops
        { sh with sem := ![sh.sem SB + 1, sh.sem SE, sh.sem SM + 1] }
        ⟨i + 1, x + 1, .starting⟩

/-- What a step of a consumer can be. -/
inductive ConsumStep (COUNT : ℤ) (sh : Shared) :
    ConsumLoc → Event → Shared → ConsumLoc → Prop
  | starts {i : ℕ} (hi : (i : ℤ) < COUNT) (hM : 0 < sh.sem SM) (hB : 0 < sh.sem SB) :
      ConsumStep COUNT sh ⟨i, .starting⟩ .starts
        { sh with sem := ![sh.sem SB - 1, sh.sem SE, sh.sem SM - 1] } ⟨i, .reading⟩
  | reads {i : ℕ} :
      ConsumStep COUNT sh ⟨i, .reading⟩ (.reads sh.posConsum (sh.buffer sh.posConsum)) sh
        ⟨i, .advancing⟩
  | advances {i : ℕ} :
      ConsumStep COUNT sh ⟨i, .advancing⟩ .advances
        { sh with posConsum := sh.posConsum + 1 } ⟨i, .stopping⟩
  | stops {i : ℕ} :
      ConsumStep COUNT sh ⟨i, .stopping⟩ .stops
        { sh with sem := ![sh.sem SB + 1, sh.sem SE + 1, sh.sem SM] } ⟨i + 1, .starting⟩

/-- The producer's code takes no other step. -/
lemma prodStep_of_prod {arg : ProdArg} {sh sh' : Shared} {l l' : ProdLoc} {e : Event}
    (h : prod arg sh l = some (e, sh', l')) : ProdStep arg sh l e sh' l' := by
  obtain ⟨i, x, pc⟩ := l
  cases pc with
  | starting =>
      simp only [prod, semop_prodStart] at h
      split_ifs at h with hi hv
      · simp only [Option.map_some, Option.some.injEq, Prod.mk.injEq] at h
        obtain ⟨rfl, rfl, rfl⟩ := h
        exact .starts hi hv.1 hv.2
      · simp at h
  | storing =>
      simp only [prod, Option.some.injEq, Prod.mk.injEq] at h
      obtain ⟨rfl, rfl, rfl⟩ := h
      exact .stores
  | printing =>
      simp only [prod, Option.some.injEq, Prod.mk.injEq] at h
      obtain ⟨rfl, rfl, rfl⟩ := h
      exact .prints
  | advancing =>
      simp only [prod, Option.some.injEq, Prod.mk.injEq] at h
      obtain ⟨rfl, rfl, rfl⟩ := h
      exact .advances
  | stopping =>
      simp only [prod, semop_prodStop, Option.map_some, Option.some.injEq, Prod.mk.injEq] at h
      obtain ⟨rfl, rfl, rfl⟩ := h
      exact .stops

/-- The consumer's code takes no other step. -/
lemma consumStep_of_consum {COUNT : ℤ} {sh sh' : Shared} {l l' : ConsumLoc} {e : Event}
    (h : consum COUNT sh l = some (e, sh', l')) : ConsumStep COUNT sh l e sh' l' := by
  obtain ⟨i, pc⟩ := l
  cases pc with
  | starting =>
      simp only [consum, semop_consumStart] at h
      split_ifs at h with hi hv
      · simp only [Option.map_some, Option.some.injEq, Prod.mk.injEq] at h
        obtain ⟨rfl, rfl, rfl⟩ := h
        exact .starts hi hv.1 hv.2
      · simp at h
  | reading =>
      simp only [consum, Option.some.injEq, Prod.mk.injEq] at h
      obtain ⟨rfl, rfl, rfl⟩ := h
      exact .reads
  | advancing =>
      simp only [consum, Option.some.injEq, Prod.mk.injEq] at h
      obtain ⟨rfl, rfl, rfl⟩ := h
      exact .advances
  | stopping =>
      simp only [consum, semop_consumStop, Option.map_some, Option.some.injEq,
        Prod.mk.injEq] at h
      obtain ⟨rfl, rfl, rfl⟩ := h
      exact .stops

/-! ### The program -/

/-- A state of the program: what is shared and where every child is. -/
structure State (π κ : Type*) where
  shared : Shared
  prods : π → ProdLoc
  consums : κ → ConsumLoc

variable {π κ : Type*}

/-- The values `semctl` sets: `SB` to `1`, `SE` to `N`, `SM` to `0`. -/
def mainSem : Fin 3 → ℕ := ![1, N, 0]

/-- The state in which the children are created, `buffer` holding anything. -/
def initial (args : π → ProdArg) (buffer : ℕ → ℤ) : State π κ where
  shared := ⟨mainSem, 0, 0, buffer⟩
  prods := fun p => ⟨0, (args p).value, .starting⟩
  consums := fun _ => ⟨0, .starting⟩

variable [DecidableEq π] [DecidableEq κ]

/-- All children together, one step of one of them at a time. -/
def program (args : π → ProdArg) (COUNT : κ → ℤ) : Machine (State π κ) (π ⊕ κ) Event where
  step s
    | .inl p => (prod (args p) s.shared (s.prods p)).map fun (e, sh, l) =>
        (e, { s with shared := sh, prods := Function.update s.prods p l })
    | .inr c => (consum (COUNT c) s.shared (s.consums c)).map fun (e, sh, l) =>
        (e, { s with shared := sh, consums := Function.update s.consums c l })

/-- A step of the program taken by a producer. -/
lemma prod_step {args : π → ProdArg} {COUNT : κ → ℤ} {s s' : State π κ} {p : π} {e : Event}
    (h : (program args COUNT).step s (.inl p) = some (e, s')) :
    ∃ sh l, ProdStep (args p) s.shared (s.prods p) e sh l
      ∧ s' = { s with shared := sh, prods := Function.update s.prods p l } := by
  obtain ⟨⟨e', sh, l⟩, hp, he⟩ := Option.map_eq_some_iff.mp h
  simp only [Prod.mk.injEq] at he
  obtain ⟨rfl, rfl⟩ := he
  exact ⟨sh, l, prodStep_of_prod hp, rfl⟩

/-- A step of the program taken by a consumer. -/
lemma consum_step {args : π → ProdArg} {COUNT : κ → ℤ} {s s' : State π κ} {c : κ} {e : Event}
    (h : (program args COUNT).step s (.inr c) = some (e, s')) :
    ∃ sh l, ConsumStep (COUNT c) s.shared (s.consums c) e sh l
      ∧ s' = { s with shared := sh, consums := Function.update s.consums c l } := by
  obtain ⟨⟨e', sh, l⟩, hc, he⟩ := Option.map_eq_some_iff.mp h
  simp only [Prod.mk.injEq] at he
  obtain ⟨rfl, rfl⟩ := he
  exact ⟨sh, l, consumStep_of_consum hc, rfl⟩

end ProdConsum

end OperatingSys
