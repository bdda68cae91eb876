import OperatingSys.DirWalk.ErrorText
import OperatingSys.DirWalk.Stack

/-!
The iterative walk of `lab_own/main.c`.

Strings are values here: a copy has the value of what was copied, and the bytes that
were allocated for it and the bytes that were written are recorded as an event. The
other events are the system calls, the calls of `myfunc` and the lines put out. The
two printers give the same three values in slightly different texts, so a line is
these values; what goes to the error stream is said by the calls of `myfunc`.

`none` is an access to no node, a report of an error that goes outside the `buf` of
`err_doit`, or a walk not over after the given number of turns of its loop; `myftwN` is the
whole walk.
-/

namespace OperatingSys

namespace DirWalk

/-- The counters, static variables that start at `0`. -/
structure Counts where
  nreg : ℕ
  ndir : ℕ
  nblk : ℕ
  nchr : ℕ
  nfifo : ℕ
  nslink : ℕ
  nsock : ℕ
  deriving DecidableEq

namespace Counts

def zero : Counts := ⟨0, 0, 0, 0, 0, 0, 0⟩

/-- The counter of a type. -/
def get (c : Counts) : Fmt → ℕ
  | .reg => c.nreg
  | .dir => c.ndir
  | .blk => c.nblk
  | .chr => c.nchr
  | .fifo => c.nfifo
  | .lnk => c.nslink
  | .sock => c.nsock

/-- The switch on the type reported; a directory reported as another file counts
nowhere. -/
def tally (c : Counts) : Ftw → Counts
  | .F st =>
      match st.fmt with
      | .reg => { c with nreg := c.nreg + 1 }
      | .blk => { c with nblk := c.nblk + 1 }
      | .chr => { c with nchr := c.nchr + 1 }
      | .fifo => { c with nfifo := c.nfifo + 1 }
      | .lnk => { c with nslink := c.nslink + 1 }
      | .sock => { c with nsock := c.nsock + 1 }
      | .dir => c
  | .D _ => { c with ndir := c.ndir + 1 }
  | .DNR => c
  | .NS => c

lemma ext_get {c c' : Counts} (h : ∀ k, c.get k = c'.get k) : c = c' := by
  obtain ⟨⟩ := c
  obtain ⟨⟩ := c'
  have hreg := h .reg
  have hdir := h .dir
  have hblk := h .blk
  have hchr := h .chr
  have hfifo := h .fifo
  have hlnk := h .lnk
  have hsock := h .sock
  simp_all only [get]

end Counts

/-- A file of this type is counted as one of type `k`. -/
def Ftw.counts (k : Fmt) : Ftw → Bool
  | .F st => decide (st.fmt = k ∧ k ≠ .dir)
  | .D _ => decide (k = .dir)
  | .DNR => false
  | .NS => false

lemma Counts.get_tally (c : Counts) (t : Ftw) (k : Fmt) :
    (c.tally t).get k = c.get k + (t.counts k).toNat := by
  cases t with
  | F st =>
      obtain ⟨fmt, ino⟩ := st
      cases fmt <;> cases k <;> rfl
  | D st => cases k <;> rfl
  | DNR => rfl
  | NS => rfl

/-- What a step of the walk does beside its own state. -/
inductive Event where
  | copy (allocated written : ℕ)
  | lstat (path : Path)
  | opendir (path : Path)
  | myfunc (path : Path) (type : Ftw)
  | line (level : ℕ) (data : Path) (inode : ℕ)

/-- The state of the program, with the events so far. -/
structure World where
  stk : StackT
  counts : Counts
  trace : List Event

def EXIT_SUCCESS : ℤ := 0

def EXIT_FAILURE : ℤ := 1

def World.emit (s : World) (e : Event) : World := { s with trace := s.trace ++ [e] }

/-- `alloc_str`: `strcpy` of a string to a block of `size + 1` bytes. -/
def World.allocStr (s : World) (str : Path) (size : ℕ) : Path × World :=
  (str, s.emit (.copy (size + 1) (str.length + 1)))

/-- `join_path`. -/
def World.joinPath (s : World) (base file : Path) : Path × World :=
  (DirWalk.joinPath base file,
    s.emit (.copy (base.length + file.length + 2) (base.length + 1 + (file.length + 1))))

/-- What the calls of `err_ret` find: whatever their `buf` holds, and the text of the error with
which `lstat` of a path has failed. -/
structure Errors where
  buf : List Event → ErrBuf
  error : Path → Text

/-- The report about a path that cannot be `lstat`-ed fits the `buf` of `err_doit`. -/
def Errors.Fits (E : Errors) (path : Path) : Prop :=
  strlen path + (E.error path).bytes.length ≤ 4076

/-- Calls of `err_ret` with `errno` being `EACCES`. -/
def denied : Errors where
  buf _ := zeroBuf
  error _ := ⟨literal "Permission denied", by decide⟩

/-- `myfunc` without the report of an error. -/
def World.called (s : World) (path : Path) (type : Ftw) : World :=
  { s with counts := s.counts.tally type }.emit (.myfunc path type)

/-- `myfunc`. -/
def World.myfunc (E : Errors) (s : World) (path : Path) (type : Ftw) : Option World :=
  match type.errorText path with
  | none => some (s.called path type)
  | some text =>
      (errRet (E.buf s.trace) (.of text) (E.error path)).map fun _ => s.called path type

section Myfunc

variable {E : Errors} (s : World) (path : Path)

@[simp] lemma World.myfunc_F (st : Stat) :
    s.myfunc E path (.F st) = some (s.called path (.F st)) := rfl

@[simp] lemma World.myfunc_D (st : Stat) :
    s.myfunc E path (.D st) = some (s.called path (.D st)) := rfl

/-- The report of an error comes to its end where it fits. -/
lemma World.myfunc_NS (h : E.Fits path) : s.myfunc E path .NS = some (s.called path .NS) := by
  have hlen := stat_message_length path (E.error path)
  rw [Errors.Fits] at h
  simp only [World.myfunc, Ftw.errorText]
  rw [errRet, errDoit_eq _ (by omega), Option.map_some]

/-- Where it does not fit it goes outside `buf`. -/
lemma World.myfunc_NS_eq_none (h : ¬ E.Fits path) : s.myfunc E path .NS = none := by
  have hlen := stat_message_length path (E.error path)
  rw [Errors.Fits] at h
  simp only [World.myfunc, Ftw.errorText]
  rw [errRet, errDoit_eq_none _ (by omega), Option.map_none]

/-- A call of `myfunc` that comes back has counted the file. -/
lemma World.eq_called {s s' : World} {path : Path} {t : Ftw} (h : s.myfunc E path t = some s') :
    s' = s.called path t := by
  rw [World.myfunc] at h
  split at h
  · exact (Option.some.inj h).symm
  · obtain ⟨-, -, heq⟩ := Option.map_eq_some_iff.mp h
    exact heq.symm

end Myfunc

/-- `print_path` and `print_name`. -/
def World.print (s : World) (data : Path) (level inode : ℕ) : World :=
  s.emit (.line level data inode)

/-- `strrchr(path, '/') + 1`, if there is a slash. -/
def afterSlash : Path → Option Path
  | [] => none
  | x :: p => match afterSlash p with
    | some t => some t
    | none => if x = 47 then some p else none

variable (F : Files) (A : Malloc) (E : Errors)

/-- `proc_entry`. -/
def procEntry (s : World) (level : ℕ) (currPath currFile : Path) : Option (ℤ × World) :=
  let (path, s) := s.joinPath currPath currFile
  let s := s.emit (.lstat path)
  match F.lstat path with
  | none => (s.myfunc E path .NS).map fun s => (EXIT_FAILURE, s)
  | some st =>
      if st.fmt ≠ .dir then
        (s.myfunc E path (.F st)).map fun s => (1, s.print currFile level st.ino)
      else
        (s.myfunc E path (.D st)).bind fun s =>
          let (node, stk) := initNode A s.stk path level st.ino
          (push stk node).map fun stk => (EXIT_SUCCESS, { s with stk := stk })

/-- The loop of `proc_dir` over the names `readdir` gives. -/
def procNames (level : ℕ) (data : Path) : List Path → World → Option World
  | [], s => some s
  | d :: ds, s =>
      if notDots d then
        (procEntry F A E s (level + 1) data d).bind fun r => procNames level data ds r.2
      else procNames level data ds s

/-- `proc_dir`. A directory that cannot be opened is passed over. -/
def procDir (s : World) (node : Item) : Option World :=
  let s := s.emit (.opendir node.data)
  match F.opendir node.data with
  | none => some s
  | some names => procNames F A E node.level node.data names s

/-- One turn of the loop of `myftw_n`, on a stack that is not free. -/
def turn (s : World) : Option World :=
  (pop s.stk true).bind fun (ptr, stk) => ptr.bind fun p => (stk.heap.lookup p).bind fun node =>
    let s := { s with stk := stk }.print ((afterSlash node.data).getD node.data) node.level
      node.inode
    (procDir F A E s node.toItem).bind fun s =>
      (freeNode s.stk p).map fun stk => { s with stk := stk }

/-- The loop of `myftw_n`. -/
def walkLoop : ℕ → World → Option World
  | 0, s => if isFree s.stk then some s else none
  | n + 1, s => if isFree s.stk then some s else (turn F A E s).bind (walkLoop n)

/-- **`myftw_n`** with the memory `init_stack` is given holding `junk`: the value
returned and the state at the end. -/
def myftwN (n : ℕ) (junk : Option ℕ) (pathname : Path) : Option (ℤ × World) :=
  let s : World := ⟨initStack ∅ junk, .zero, []⟩
  let (fullPath, s) := s.allocStr pathname 256
  let s := s.emit (.lstat pathname)
  match F.lstat pathname with
  | none => (s.myfunc E pathname .NS).map fun s => (EXIT_FAILURE, s)
  | some st =>
      let (node, stk) := initNode A s.stk fullPath 0 st.ino
      (push stk node).bind fun stk =>
        (walkLoop F A E n { s with stk := stk }).bind fun s =>
          (freeStack n s.stk).map fun stk => (1, { s with stk := stk })

end DirWalk

end OperatingSys
