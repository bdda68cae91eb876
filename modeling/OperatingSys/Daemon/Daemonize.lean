import OperatingSys.DirWalk.ErrorText

/-!
How a process becomes a daemon, `daemonize` of `os_02/lab_01/daemonise.c`.

The descriptors are closed one by one up to the limit of the process, and `/dev/null` is then
put behind `0`, `1` and `2` in the order in which `open` and `dup` give out descriptors. The
function returns exactly when every call is granted and three descriptors are
(`daemonize_returns_iff`). All the others are closed then but for those beyond the limit, and
beyond `1024` where there is none. The process is still the leader of its session: there is no
second `fork`.
-/

namespace OperatingSys

namespace Daemon

open DirWalk (Text literal)

/-! ### The process -/

/-- What is behind a descriptor: what was open before, or `/dev/null`. -/
inductive File where
  | inherited (k : ℕ) | devNull
  deriving DecidableEq, Repr

/-- What `SIGHUP` does. -/
inductive Disposition where
  | default | ignored | caught
  deriving DecidableEq, Repr

/-- What `daemonize` changes of a process. `leader` is the leader of a session, and `terminal`
says whether the session has one. -/
structure Process where
  files : ℕ → Option File
  umask : ℕ
  leader : Bool
  terminal : Bool
  hup : Disposition
  dir : List UInt8

def RLIM_INFINITY : ℕ := 2 ^ 64 - 1

def INT_MAX : ℕ := 2 ^ 31 - 1

/-- `struct rlimit`, of `RLIMIT_NOFILE`. -/
structure Rlimit where
  rlimCur : ℕ
  rlimMax : ℕ
  ordered : rlimCur ≤ rlimMax

/-- What `fork` returns. -/
inductive Forked where
  | fails | parent | child
  deriving DecidableEq, Repr

/-- What the kernel answers: the limit, unless `getrlimit` fails, and whether the other calls
succeed. -/
structure Kernel where
  getrlimit : Option Rlimit
  fork : Forked
  sigaction : Bool
  chdir : Bool
  devNull : Bool

/-- How a call of `daemonize` ends: in `err_quit` with its text, in the `exit(0)` of the
parent, in the `exit(1)` after the check of the three descriptors, or in its return. -/
inductive Outcome where
  | quits (text : List UInt8)
  | parentExits
  | unexpected (fd0 fd1 fd2 : ℤ)
  | returns (p : Process)

/-! ### The descriptors -/

/-- The lowest descriptor that is free, below the limit. -/
def lowest (files : ℕ → Option File) (rlimCur : ℕ) : Option ℕ :=
  (List.range rlimCur).find? fun d => (files d).isNone

/-- A file behind the lowest descriptor that is free: the descriptor or `-1`. -/
def Process.install (p : Process) (rlimCur : ℕ) (f : File) : ℤ × Process :=
  match lowest p.files rlimCur with
  | some d => (d, { p with files := Function.update p.files d (some f) })
  | none => (-1, p)

/-- `open("/dev/null", O_RDWR)`. -/
def openNull (k : Kernel) (rl : Rlimit) (p : Process) : ℤ × Process :=
  if k.devNull then p.install rl.rlimCur .devNull else (-1, p)

/-- `dup(0)`. -/
def dupZero (rl : Rlimit) (p : Process) : ℤ × Process :=
  match p.files 0 with
  | some f => p.install rl.rlimCur f
  | none => (-1, p)

/-- The loop of `close(i)`, with so many turns to go. `i` is an `int`: `none` is its overflow. -/
def closeFrom : ℕ → ℕ → (ℕ → Option File) → Option (ℕ → Option File)
  | 0, _, files => some files
  | n + 1, i, files =>
      if i < INT_MAX then closeFrom n (i + 1) (Function.update files i none) else none

/-- `rl.rlim_max` as the loop uses it. -/
def Rlimit.bound (rl : Rlimit) : ℕ := if rl.rlimMax = RLIM_INFINITY then 1024 else rl.rlimMax

/-- The three descriptors and their check. -/
def attach (k : Kernel) (rl : Rlimit) (p : Process) : Outcome :=
  let q0 := openNull k rl p
  let q1 := dupZero rl q0.2
  let q2 := dupZero rl q1.2
  if q0.1 ≠ 0 ∨ q1.1 ≠ 1 ∨ q2.1 ≠ 2 then .unexpected q0.1 q1.1 q2.1 else .returns q2.2

/-- The child of the `fork`. -/
def becomeDaemon (k : Kernel) (rl : Rlimit) (cmd : Text) (p : Process) : Option Outcome :=
  if k.sigaction then
    if k.chdir then
      (closeFrom rl.bound 0 p.files).map fun files => attach k rl { p with
        files := files
        leader := true
        terminal := false
        hup := .ignored
        dir := literal "/" }
    else some (.quits (cmd.bytes ++ literal ": can't change directory to /"))
  else some (.quits (cmd.bytes ++ literal ": can't ignore SIGHUP"))

/-- `daemonize`. -/
def daemonize (k : Kernel) (cmd : Text) (p : Process) : Option Outcome :=
  match k.getrlimit with
  | none => some (.quits (cmd.bytes ++ literal ": can't get file limit"))
  | some rl =>
      match k.fork with
      | .fails => some (.quits (cmd.bytes ++ literal ": can't fork"))
      | .parent => some .parentExits
      | .child => becomeDaemon k rl cmd { p with umask := 0 }

/-! ### The loop and the lowest descriptor -/

variable {k : Kernel} {rl : Rlimit} {cmd : Text} {p q : Process} {files files' : ℕ → Option File}

/-- The loop closes what it goes through, unless `i` overflows. -/
lemma closeFrom_eq_some_iff {n i : ℕ} (hi : i ≤ INT_MAX) : closeFrom n i files = some files' ↔
    i + n ≤ INT_MAX ∧ files' = fun d => if i ≤ d ∧ d < i + n then none else files d := by
  induction n generalizing i files with
  | zero =>
      have hnone : (fun d => if i ≤ d ∧ d < i + 0 then none else files d) = files :=
        funext fun d => if_neg (by omega)
      rw [closeFrom, hnone, Option.some.injEq, eq_comm]
      exact (and_iff_right hi).symm
  | succ n ih =>
      rw [closeFrom]
      by_cases hlt : i < INT_MAX
      · have hsplit : (fun d => if i + 1 ≤ d ∧ d < i + 1 + n then none
            else Function.update files i none d)
              = fun d => if i ≤ d ∧ d < i + (n + 1) then none else files d := by
          funext d
          by_cases hd : d = i
          · rw [hd, if_neg (by omega), if_pos (by omega), Function.update_self]
          · rw [Function.update_of_ne hd]
            exact if_congr (by omega) rfl rfl
        rw [if_pos hlt, ih hlt, hsplit]
        exact and_congr_left' (by omega)
      · rw [if_neg hlt]
        exact iff_of_false nofun fun h => by omega

/-- The lowest free descriptor is `d` when those below it are in use. -/
lemma lowest_eq_some {n d : ℕ} (hd : d < n) (hfree : files d = none)
    (hused : ∀ j < d, files j ≠ none) : lowest files n = some d := by
  rw [lowest, List.find?_range_eq_some]
  refine ⟨by rw [hfree]; rfl, List.mem_range.mpr hd, fun j hj => ?_⟩
  obtain ⟨f, hf⟩ := Option.ne_none_iff_exists'.mp (hused j hj)
  rw [hf]
  rfl

/-- A descriptor that is given out is below the limit. -/
lemma lt_of_install {n : ℕ} {f : File} {d : ℕ} (h : (p.install n f).1 = d) : d < n := by
  rw [Process.install] at h
  cases hlow : lowest p.files n with
  | some d' =>
      rw [hlow] at h
      rw [lowest, List.find?_range_eq_some, List.mem_range] at hlow
      exact (Nat.cast_injective (R := ℤ) h) ▸ hlow.2.1
  | none =>
      rw [hlow] at h
      exact absurd h (by simp)

/-- A file put behind the descriptor `d`. -/
lemma install_eq {n d : ℕ} (f : File) (hd : d < n) (hfree : p.files d = none)
    (hused : ∀ j < d, p.files j ≠ none) :
    p.install n f = ((d : ℤ), { p with files := Function.update p.files d (some f) }) := by
  rw [Process.install, lowest_eq_some hd hfree hused]

/-! ### The three descriptors -/

/-- The files behind the descriptors when `/dev/null` is behind the first `n`. -/
def nulled (files : ℕ → Option File) (n d : ℕ) : Option File :=
  if d < n then some .devNull else files d

lemma update_nulled (files : ℕ → Option File) (n : ℕ) :
    Function.update (nulled files n) n (some .devNull) = nulled files (n + 1) := by
  funext d
  by_cases hd : d = n
  · rw [hd, Function.update_self, nulled, if_pos (Nat.lt_succ_self n)]
  · rw [Function.update_of_ne hd, nulled, nulled]
    exact if_congr (by omega) rfl rfl

/-- `/dev/null` behind one descriptor more. -/
lemma install_nulled {n : ℕ} (hn : n < rl.rlimCur) (hfree : p.files n = none) :
    ({ p with files := nulled p.files n } : Process).install rl.rlimCur .devNull
      = ((n : ℤ), { p with files := nulled p.files (n + 1) }) := by
  have hn' : nulled p.files n n = none := (if_neg (lt_irrefl n)).trans hfree
  have hused : ∀ j < n, nulled p.files n j ≠ none := by
    intro j hj
    rw [nulled, if_pos hj]
    exact Option.some_ne_none _
  rw [install_eq .devNull hn hn' hused]
  dsimp only
  rw [update_nulled]

/-- Three descriptors are given out only where the limit lets them be. -/
lemma le_of_attach (h : attach k rl p = .returns q) : k.devNull = true ∧ 3 ≤ rl.rlimCur := by
  rw [attach] at h
  split_ifs at h with hcheck
  push Not at hcheck
  obtain ⟨h0, -, h2⟩ := hcheck
  constructor
  · by_contra hnull
    rw [openNull, if_neg hnull] at h0
    exact absurd h0 (by simp)
  · rw [dupZero] at h2
    cases hf : (dupZero rl (openNull k rl p).2).2.files 0 with
    | some f =>
        rw [hf] at h2
        exact lt_of_install (d := 2) h2
    | none =>
        rw [hf] at h2
        exact absurd h2 (by simp)

/-- Three free descriptors below the limit are filled. -/
lemma attach_eq (hnull : k.devNull = true) (hcur : 3 ≤ rl.rlimCur)
    (hfree : ∀ d < 3, p.files d = none) :
    attach k rl p = .returns { p with files := nulled p.files 3 } := by
  have hfirst : openNull k rl p = (((0 : ℕ) : ℤ), { p with files := nulled p.files 1 }) := by
    have hzero : nulled p.files 0 = p.files := funext fun d => if_neg (Nat.not_lt_zero d)
    have hinstall := install_nulled (Nat.zero_lt_of_lt hcur) (hfree 0 (by omega))
    rw [hzero] at hinstall
    rw [openNull, if_pos hnull]
    exact hinstall
  have hdup : ∀ n, 1 ≤ n → n < 3 → dupZero rl { p with files := nulled p.files n }
      = ((n : ℤ), { p with files := nulled p.files (n + 1) }) := by
    intro n h1 h3
    have hbehind : nulled p.files n 0 = some .devNull := if_pos h1
    rw [dupZero]
    dsimp only
    rw [hbehind]
    exact install_nulled (h3.trans_le hcur) (hfree n h3)
  rw [attach, hfirst, hdup 1 le_rfl (by omega), hdup 2 (by omega) (by omega)]
  rfl

/-! ### All of it -/

/-- Every call is granted, and three descriptors are. -/
structure Kernel.Grants (k : Kernel) (rl : Rlimit) : Prop where
  limit : k.getrlimit = some rl
  child : k.fork = .child
  sigaction : k.sigaction = true
  chdir : k.chdir = true
  devNull : k.devNull = true
  three : 3 ≤ rl.rlimCur
  bound : rl.bound ≤ INT_MAX

/-- What is left of a process. -/
def daemon (rl : Rlimit) (p : Process) : Process where
  files := nulled (fun d => if d < rl.bound then none else p.files d) 3
  umask := 0
  leader := true
  terminal := false
  hup := .ignored
  dir := literal "/"

lemma three_le_bound (h : 3 ≤ rl.rlimCur) : 3 ≤ rl.bound := by
  have hord := rl.ordered
  rw [Rlimit.bound]
  split_ifs <;> omega

/-- The child returns when the calls that are left are granted. -/
lemma becomeDaemon_iff : becomeDaemon k rl cmd p = some (.returns q) ↔
    (k.sigaction = true ∧ k.chdir = true ∧ k.devNull = true ∧ 3 ≤ rl.rlimCur
      ∧ rl.bound ≤ INT_MAX) ∧ q = { daemon rl p with umask := p.umask } := by
  have hloop : ∀ files, closeFrom rl.bound 0 p.files = some files ↔ rl.bound ≤ INT_MAX
      ∧ files = fun d => if d < rl.bound then none else p.files d := by
    intro files
    rw [closeFrom_eq_some_iff (Nat.zero_le _)]
    simp only [Nat.zero_add, Nat.zero_le, true_and]
  have hattach : ∀ r : Process, 3 ≤ rl.rlimCur → k.devNull = true →
      (r.files = fun d => if d < rl.bound then none else p.files d) →
        attach k rl r = .returns { r with files := (daemon rl p).files } := by
    intro r hcur hnull hfiles
    -- the loop has closed the three lowest descriptors
    have hfree : ∀ d < 3, r.files d = none := by
      intro d hd
      rw [hfiles]
      exact if_pos (hd.trans_le (three_le_bound hcur))
    rw [attach_eq hnull hcur hfree, hfiles]
    rfl
  constructor
  · intro h
    rw [becomeDaemon] at h
    split_ifs at h with hsig hdir
    · obtain ⟨files, hclose, hret⟩ := Option.map_eq_some_iff.mp h
      obtain ⟨hbound, rfl⟩ := (hloop files).mp hclose
      obtain ⟨hnull, hcur⟩ := le_of_attach hret
      rw [hattach _ hcur hnull rfl] at hret
      exact ⟨⟨hsig, hdir, hnull, hcur, hbound⟩, (Outcome.returns.inj hret).symm⟩
    all_goals cases h
  · rintro ⟨⟨hsig, hdir, hnull, hcur, hbound⟩, rfl⟩
    rw [becomeDaemon, if_pos hsig, if_pos hdir, (hloop _).mpr ⟨hbound, rfl⟩, Option.map_some,
      hattach _ hcur hnull rfl]
    rfl

/-- What a process had open is closed, but for what the loop does not come to. -/
lemma daemon_files_iff (h : k.Grants rl) :
    (∀ d f, (daemon rl p).files d = some f → f = .devNull ∧ d < 3)
      ↔ ∀ d, rl.bound ≤ d → p.files d = none := by
  have hthree := three_le_bound h.three
  have hfiles : ∀ d, (daemon rl p).files d
      = if d < 3 then some .devNull else if d < rl.bound then none else p.files d := fun _ => rfl
  constructor
  · intro hall d hd
    cases hp : p.files d with
    | none => rfl
    | some f =>
        have hopen : (daemon rl p).files d = some f := by
          rw [hfiles, if_neg (by omega), if_neg (by omega), hp]
        exact absurd (hall d f hopen).2 (by omega)
  · intro hall d f hd
    rw [hfiles] at hd
    split_ifs at hd with h3 hlt
    · exact ⟨(Option.some.inj hd).symm, h3⟩
    · rw [hall d (by omega)] at hd
      cases hd

/-- **When a process becomes a daemon**: `daemonize` returns exactly in the child of the `fork`,
when every call is granted and the limit lets three descriptors be. It leaves the leader of a
session without a terminal, in `/`, that ignores `SIGHUP`, with `/dev/null` behind the first
three descriptors. No other descriptor is open exactly if none was that the loop does not come
to. -/
theorem daemonize_returns_iff (k : Kernel) (cmd : Text) (p q : Process) :
    (daemonize k cmd p = some (.returns q) ↔ ∃ rl, k.Grants rl ∧ q = daemon rl p)
      ∧ ∀ rl, k.Grants rl → ((∀ d f, (daemon rl p).files d = some f → f = .devNull ∧ d < 3)
        ↔ ∀ d, rl.bound ≤ d → p.files d = none) := by
  refine ⟨⟨fun h => ?_, ?_⟩, fun rl hk => daemon_files_iff hk⟩
  · rw [daemonize] at h
    cases hlimit : k.getrlimit with
    | none =>
        rw [hlimit] at h
        cases h
    | some rl =>
        cases hfork : k.fork with
        | fails | parent =>
            rw [hlimit, hfork] at h
            cases h
        | child =>
            rw [hlimit, hfork] at h
            obtain ⟨⟨hsig, hdir, hnull, hcur, hbound⟩, hq⟩ := becomeDaemon_iff.mp h
            exact ⟨rl, ⟨hlimit, hfork, hsig, hdir, hnull, hcur, hbound⟩, hq⟩
  · rintro ⟨rl, ⟨hlimit, hfork, hsig, hdir, hnull, hcur, hbound⟩, rfl⟩
    rw [daemonize, hlimit, hfork]
    exact becomeDaemon_iff.mpr ⟨⟨hsig, hdir, hnull, hcur, hbound⟩, rfl⟩

/-- A process without a hard limit. -/
def unlimited : Rlimit := ⟨4096, RLIM_INFINITY, by decide⟩

/-- The kernel grants everything to the child. -/
def granting : Kernel := ⟨some unlimited, .child, true, true, true⟩

/-- A process with a file behind every descriptor up to `1024`. -/
def manyFiles : Process where
  files d := if d ≤ 1024 then some (.inherited d) else none
  umask := 0o22
  leader := false
  terminal := true
  hup := .default
  dir := literal "/home"

/-- The file behind descriptor `1024` outlives `daemonize`. -/
theorem daemonize_returns_unlimited :
    daemonize granting .empty manyFiles = some (.returns (daemon unlimited manyFiles))
      ∧ ¬ ∀ d f, (daemon unlimited manyFiles).files d = some f → f = .devNull ∧ d < 3 := by
  have hgrants : granting.Grants unlimited :=
    ⟨rfl, rfl, rfl, rfl, rfl, by decide, by decide⟩
  obtain ⟨hret, hfiles⟩ := daemonize_returns_iff granting .empty manyFiles
    (daemon unlimited manyFiles)
  refine ⟨hret.mpr ⟨unlimited, hgrants, rfl⟩, fun hall => ?_⟩
  have hnone := (hfiles unlimited hgrants).mp hall 1024 (by decide)
  exact absurd hnone (by decide)

end Daemon

end OperatingSys
