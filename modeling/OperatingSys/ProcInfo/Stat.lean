import OperatingSys.Foundations.Tokens
import OperatingSys.ProcInfo.Basic

/-!
The statistics of a process, `stat_info` and `statm_info`.

The functions cut the line they read at its spaces and print the pieces under the patterns
of a table, the next piece under the next pattern (`tokenLoop`). A line shorter than the
buffer is printed field by field when none of its fields has a space, and past the end of
the table when its pieces outnumber the patterns (`readThrough_words`). The command name
is a field that may have a space (`described_iff`).
-/

namespace OperatingSys

namespace ProcInfo

open Pagemap (BUFSIZ)

/-- A format of `fprintf` with one `%s`. -/
abbrev Format := String

/-- `WITH_DESCR`. -/
def withDescr : List Format := [
  "[1] pid                    %20s (The process ID).\n",
  "[2] comm                   %20s (The filename of the executable, in parentheses).\n",
  "[3] state                  %20s (one of the characters indicating process state).\n",
  "[4] ppid                   %20s (The PID of the parent of this process).\n",
  "[5] pgrp                   %20s (The process group ID of the process).\n",
  "[6] session                %20s (The session ID of the process).\n",
  "[7] tty_nr                 %20s (The controlling terminal of the process).\n",
  "[8] tpgid                  %20s (The ID of the foreground process group of the " ++
    "controlling terminal of the process).\n",
  "[9] flags                  %20s (The kernel flags word of the process).\n",
  "[10] minflt                %20s (The number of minor faults the process has made which " ++
    "have not required loading a memory page from disk).\n",
  "[11] cminflt               %20s (The number of minor faults that the process's waited-for " ++
    "children have made).\n",
  "[12] majflt                %20s (The number of major faults the process has made which " ++
    "have required  loading  a  memory  page from disk).\n",
  "[13] cmajflt               %20s (The number of major faults that the process's waited-for " ++
    "children have made).\n",
  "[14] utime                 %20s (Amount of time that this process has been scheduled in " ++
    "user mode, measured in clock ticks).\n",
  "[15] stime                 %20s (Amount of time that this process has been scheduled in " ++
    "kernel mode, measured in  clock  ticks).\n",
  "[16] cutime                %20s (Amount of time that this process's waited-for children " ++
    "have been scheduled in user mode, measured in clock ticks).\n",
  "[17] cstime                %20s (Amount of time that this process's waited-for children " ++
    "have been scheduled in kernel mode, measured in clock ticks).\n",
  "[18] priority              %20s (For processes running a real-time scheduling policy).\n",
  "[19] nice                  %20s (The nice value (see setpriority(2)), a value in the " ++
    "range 19 (low priority) to -20 (high priority)).\n",
  "[20] num_threads           %20s (Number of threads in this process (since Linux 2.6). " ++
    "Before kernel 2.6, this field was hardcoded to 0 as a placeholder for an earlier " ++
    "removed field.\n",
  "[21] itrealvalue           %20s (The time in jiffies before the next SIGALRM is sent to " ++
    "the process due to an interval timer).\n",
  "[22] starttime             %20s (The time the process started after system boot).\n",
  "[23] vsize                 %20s (Virtual memory size in bytes).\n",
  "[24] rss                   %20s (Resident Set Size: number of pages the process has in " ++
    "real memory).\n",
  "[25] rsslim                %20s (Current soft limit in bytes on the rss of the process).\n",
  "[26] startcode             %20s (The address above which program text can run).\n",
  "[27] endcode               %20s (The address below which program text can run).\n",
  "[28] startstack            %20s (The address of the start (i).e., bottom) of the stack.\n",
  "[29] kstkesp               %20s (The current value of ESP (stack pointer), as found in " ++
    "the kernel stack page for the process).\n",
  "[30] kstkeip               %20s (The current EIP (instruction pointer)).\n",
  "[31] signal                %20s (The  bitmap of pending signals, displayed as a decimal " ++
    "number).\n",
  "[32] blocked               %20s (The bitmap of blocked signals, displayed as a decimal " ++
    "number).\n",
  "[33] sigignore             %20s (The  bitmap of ignored signals, displayed as a decimal " ++
    "number).\n",
  "[34] sigcatch              %20s (The bitmap of caught signals, displayed as a decimal " ++
    "number).\n",
  "[35] wchan                 %20s (This is the \"channel\" in which the process is " ++
    "waiting).\n",
  "[36] nswap                 %20s (Number of pages swapped (not maintained)).\n",
  "[37] cnswap                %20s (Cumulative nswap for child processes (not maintained)).\n",
  "[38] exit_signal           %20s (since Linux 2.1.22) (Signal to be sent to parent when we " ++
    "die).\n",
  "[39] processor             %20s (since Linux 2.2.8) (CPU number last executed on).\n",
  "[40] rt_priority           %20s (since Linux 2.5.19) (Real-time scheduling priority, a " ++
    "number in the range 1 to 99 for processes scheduled under a real-time policy, or 0, for " ++
    "non-real-time processes).\n",
  "[41] policy                %20s (since Linux 2.5.19) (Scheduling policy).\n",
  "[42] delayacct_blkio_ticks %20s (since Linux 2.6.18) (Aggregated block I/O delays, " ++
    "measured in clock ticks (centiseconds)).\n",
  "[43] guest_time            %20s (since Linux 2.6.24) (Guest time of the process (time " ++
    "spent running a virtual CPU for a guest operating system), measured in clock ticks).\n",
  "[44] cguest_time           %20s (since Linux 2.6.24) (Guest time of the process's " ++
    "children, measured in clock ticks).\n",
  "[45] start_data            %20s (since Linux 3.3) (Address above which program " ++
    "initialized and uninitialized (BSS) data are placed).\n",
  "[46] end_data              %20s (since Linux 3.3) (Address below which program " ++
    "initialized and uninitialized (BSS) data are placed).\n",
  "[47] start_brk             %20s (since Linux 3.3) (Address above which program heap can " ++
    "be expanded with brk(2)).\n",
  "[48] arg_start             %20s (since Linux 3.5) (Address above which program " ++
    "command-line arguments (argv) are placed).\n",
  "[49] arg_end               %20s (since Linux 3.5) (Address below program command-line " ++
    "arguments (argv) are placed).\n",
  "[50] env_start             %20s (since Linux 3.5) (Address above which program " ++
    "environment is placed).\n",
  "[51] env_end               %20s (since Linux 3.5) (Address below which program " ++
    "environment is placed).\n",
  "[52] exit_code             %20s (since Linux 3.5) (The thread's exit status in the form " ++
    "reported by waitpid(2)).\n"]

/-- `STATM_PATTERNS`. -/
def statmPatterns : List Format := [
  "size     %8s  (1)\n",
  "resident %8s  (2)\n",
  "shared   %8s  (3)\n",
  "text     %8s  (4)\n",
  "lib      %8s  (5)\n",
  "data     %8s  (6)\n",
  "dt       %8s  (7)\n"]

/-- The delimiter of the tokens. -/
def space : UInt8 := 32

/-- `for (size_t i = 0; token; i++)` over what the last `strtok` gave. The formats are those of
the table from the index `i` on. -/
def tokenLoop : List Format → Option ℕ × Text × ℕ → Option (List (Format × Text) × Text)
  | _, (none, b, _) => some ([], b)
  | [], (some _, _, _) => none
  | format :: formats, (some token, b, saved) =>
      (cstr b token).bind fun text =>
        ((strtok space b saved).bind (tokenLoop formats)).map fun (lines, b) =>
          ((format, text) :: lines, b)

/-- The body of the loops of `stat_info` and `statm_info`. -/
def tokensBody (formats : List Format) (_len : ℕ) (b : Text) :
    Option (List (Format × Text) × Text) :=
  (strtok space b 0).bind (tokenLoop formats)

/-- The lines `stat_info` prints of `/proc/pid/stat`. -/
def statInfo (stat : Text) : Option (List (Format × Text)) :=
  readThrough (tokensBody withDescr) stat

/-- The lines `statm_info` prints of `/proc/pid/statm`. -/
def statmInfo (stat : Text) : Option (List (Format × Text)) :=
  readThrough (tokensBody statmPatterns) stat

@[simp] lemma withDescr_length : withDescr.length = 52 := rfl

/-! ### The loop -/

variable {b : Text} {s : ℕ}

/-- **The loop over a string** prints its words under the formats of the table, and leaves
the table when there are more words than formats. -/
lemma tokenLoop_words (formats : List Format) {u : Text} (h : cstr b s = some u) :
    ((strtok space b s).bind (tokenLoop formats)).map Prod.fst
      = if (words space u).length ≤ formats.length then some (formats.zip (words space u))
        else none := by
  induction formats generalizing b s u with
  | nil =>
      rcases strtok_words (d := space) (by decide) h with
        ⟨hnil, s', hs⟩ | ⟨w, ws, p, b', s', u', hw, hs, -, -, -⟩
      · rw [hs, hnil]
        rfl
      · rw [hs, hw]
        rfl
  | cons format formats ih =>
      rcases strtok_words (d := space) (by decide) h with
        ⟨hnil, s', hs⟩ | ⟨w, ws, p, b', s', u', hw, hs, hp, hu', rfl⟩
      · rw [hs, hnil]
        rfl
      · have hrest := ih hu'
        rw [hs, hw, Option.bind_some, tokenLoop, hp, Option.bind_some, Option.map_map,
          List.length_cons, List.length_cons, List.zip_cons_cons]
        simp only [Nat.add_le_add_iff_right]
        split_ifs at hrest ⊢ with hlen
        · obtain ⟨⟨lines, b''⟩, hlines, rfl⟩ := Option.map_eq_some_iff.mp hrest
          rw [hlines]
          rfl
        · rw [Option.map_eq_none_iff] at hrest ⊢
          exact hrest

/-- The loop goes outside an array without a terminator. -/
lemma tokenLoop_outside (formats : List Format) (h : (0 : UInt8) ∉ b.drop s) :
    (strtok space b s).bind (tokenLoop formats) = none := by
  induction formats generalizing b s with
  | nil =>
      rcases strtok_outside (d := space) h with hs | ⟨p, b', s', hs, -⟩
      · rw [hs, Option.bind_none]
      · rw [hs]
        rfl
  | cons format formats ih =>
      rcases strtok_outside (d := space) h with hs | ⟨p, b', s', hs, hz⟩
      · rw [hs, Option.bind_none]
      · rw [hs, Option.bind_some, tokenLoop, ih hz]
        cases cstr b' p <;> rfl

/-- No text printed has a space or a terminator. -/
lemma tokenLoop_plain (formats : List Format) {lines : List (Format × Text)} {b' : Text}
    (h : (strtok space b s).bind (tokenLoop formats) = some (lines, b')) :
    ∀ q ∈ lines, space ∉ q.2 ∧ (0 : UInt8) ∉ q.2 := by
  induction formats generalizing b s lines with
  | nil =>
      obtain ⟨⟨token, b₁, s₁⟩, -, h⟩ := Option.bind_eq_some_iff.mp h
      cases token with
      | none =>
          cases h
          simp
      | some p => cases h
  | cons format formats ih =>
      obtain ⟨⟨token, b₁, s₁⟩, hs, h⟩ := Option.bind_eq_some_iff.mp h
      cases token with
      | none =>
          cases h
          simp
      | some p =>
          obtain ⟨text, htext, h⟩ := Option.bind_eq_some_iff.mp h
          obtain ⟨⟨lines', b₂⟩, hrest, h⟩ := Option.map_eq_some_iff.mp h
          cases h
          intro q hq
          rcases List.mem_cons.mp hq with rfl | hq
          · exact ⟨delimiter_notMem_token hs htext, (eq_append_of_cstr htext).1⟩
          · exact ih hrest q hq

/-! ### A file -/

section File

variable (formats : List Format) {content : Text}

/-- **A file that leaves room for the terminator** is printed word by word. -/
lemma readThrough_words (h0 : (0 : UInt8) ∉ content) (hlen : content.length < BUFSIZ) :
    readThrough (tokensBody formats) content
      = if (words space content).length ≤ formats.length
        then some (formats.zip (words space content)) else none := by
  by_cases hnil : content = []
  · simp [hnil, readThrough, freads, Machine.exec, printed]
  · have hstr : cstr (content ++ zeros.drop content.length) (0 : ℕ) = some content := by
      have hz : zeros.drop content.length = 0 :: zeros.drop (content.length + 1) := by
        rw [List.drop_eq_getElem_cons (by rwa [zeros_length])]
        simp [zeros]
      rw [hz]
      exact cstr_front h0 _
    rw [readThrough_of_le hnil hlen.le, tokensBody]
    exact tokenLoop_words formats hstr

/-- A file that fills the buffer is read past its end. -/
lemma readThrough_outside (h0 : (0 : UInt8) ∉ content) (hlen : BUFSIZ ≤ content.length) :
    readThrough (tokensBody formats) content = none := by
  have hpos : 0 < BUFSIZ := by decide
  have hnil : content ≠ [] := List.length_pos_iff.mp (by omega)
  have htake : (content.take BUFSIZ).length = BUFSIZ := by
    rw [List.length_take]
    omega
  have hfull : blit zeros 0 (content.take BUFSIZ) = some (content.take BUFSIZ) := by
    rw [blit_piece zeros_length htake.le, htake, List.drop_of_length_le zeros_length.le,
      List.append_nil]
  have hstep : (freadLoop (tokensBody formats)).step zeros (content.take BUFSIZ) = none := by
    change (blit zeros 0 (content.take BUFSIZ)).bind _ = none
    rw [hfull, Option.bind_some, tokensBody]
    exact tokenLoop_outside formats fun hm => h0 (List.mem_of_mem_take hm)
  rw [readThrough, freads_of_ne_nil hnil, Machine.exec_cons_none hstep, Option.map_none]

/-- **What the functions print** of a file without a terminator. -/
theorem readThrough_tokens (h0 : (0 : UInt8) ∉ content) :
    readThrough (tokensBody formats) content
      = if content.length < BUFSIZ ∧ (words space content).length ≤ formats.length
        then some (formats.zip (words space content)) else none := by
  by_cases hlen : content.length < BUFSIZ
  · rw [readThrough_words formats h0 hlen]
    simp only [hlen, true_and]
  · rw [readThrough_outside formats h0 (not_lt.mp hlen), if_neg (fun h => hlen h.1)]

/-- What they print of any file has neither spaces nor terminators in its texts. -/
lemma readThrough_plain {lines : List (Format × Text)}
    (h : readThrough (tokensBody formats) content = some lines) :
    ∀ q ∈ lines, space ∉ q.2 ∧ (0 : UInt8) ∉ q.2 :=
  forall_mem_readThrough (fun _ _ _ _ hbody => tokenLoop_plain formats hbody) h

/-- **The memory statistics** are printed field by field: a line with as many fields as
the table has patterns, each a word, that leaves room for a terminator. -/
theorem statmInfo_fields {fields : List Text} (h7 : fields.length = statmPatterns.length)
    (hplain : ∀ f ∈ fields, f ≠ [] ∧ space ∉ f ∧ (0 : UInt8) ∉ f)
    (hlen : ([space].intercalate fields).length < BUFSIZ) :
    statmInfo ([space].intercalate fields) = some (statmPatterns.zip fields) := by
  have h0 : (0 : UInt8) ∉ [space].intercalate fields := by
    intro hm
    rcases eq_or_mem_of_mem_intercalate hm with h0 | ⟨f, hf, h0⟩
    · exact absurd h0 (by decide)
    · exact (hplain f hf).2.2 h0
  rw [statmInfo, readThrough_tokens _ h0,
    words_intercalate fun f hf => ⟨(hplain f hf).1, (hplain f hf).2.1⟩, if_pos ⟨hlen, h7.le⟩]

end File

/-! ### A line -/

/-- A line of `/proc/pid/stat`. The command name stands in parentheses and may have any
bytes. The newline that ends the file is for `strtok` a byte of the last field. -/
structure StatLine where
  pid : Text
  comm : Text
  others : List Text
  others_length : others.length = 50
  plain : ∀ f ∈ pid :: others, f ≠ [] ∧ space ∉ f ∧ (0 : UInt8) ∉ f

namespace StatLine

variable (l : StatLine)

/-- The command name in its parentheses. -/
def name : Text := 40 :: (l.comm ++ [41])

/-- The 52 fields. -/
def fields : List Text := l.pid :: l.name :: l.others

/-- The file, its fields separated by spaces. -/
def content : Text := [space].intercalate l.fields

@[simp] lemma fields_length : l.fields.length = 52 := by
  simp [fields, l.others_length]

variable {l}

lemma mem_name {c : UInt8} (h40 : c ≠ 40) (h41 : c ≠ 41) : c ∈ l.name ↔ c ∈ l.comm := by
  simp [name, h40, h41]

/-- A field that is not the command name. -/
lemma plain_of_ne {f : Text} (hf : f ∈ l.fields) (hne : f ≠ l.name) :
    f ≠ [] ∧ space ∉ f ∧ (0 : UInt8) ∉ f := by
  rw [fields, List.mem_cons, List.mem_cons] at hf
  rcases hf with rfl | rfl | hf
  · exact l.plain _ List.mem_cons_self
  · exact absurd rfl hne
  · exact l.plain _ (List.mem_cons_of_mem _ hf)

lemma zero_notMem_content (h : (0 : UInt8) ∉ l.comm) : (0 : UInt8) ∉ l.content := by
  intro hm
  rcases eq_or_mem_of_mem_intercalate hm with h0 | ⟨f, hf, h0⟩
  · exact absurd h0 (by decide)
  · by_cases hne : f = l.name
    · exact h ((mem_name (by decide) (by decide)).mp (hne ▸ h0))
    · exact (plain_of_ne hf hne).2.2 h0

/-- The words of a line are its fields when the command name has no space. -/
lemma words_content (h : space ∉ l.comm) : words space l.content = l.fields := by
  refine words_intercalate fun f hf => ?_
  by_cases hne : f = l.name
  · rw [hne, mem_name (by decide) (by decide)]
    exact ⟨List.cons_ne_nil _ _, h⟩
  · exact ⟨(plain_of_ne hf hne).1, (plain_of_ne hf hne).2.1⟩

/-- A space in the command name makes one word more at least. -/
lemma length_lt_of_space (h : space ∈ l.comm) : 52 < (words space l.content).length := by
  obtain ⟨x, y, hxy⟩ := List.append_of_mem h
  have hpid := l.plain l.pid List.mem_cons_self
  have hothers : l.others ≠ [] := List.length_pos_iff.mp (by rw [l.others_length]; decide)
  have hrest : words space ([space].intercalate l.others) = l.others :=
    words_intercalate fun f hf => ⟨(l.plain f (List.mem_cons_of_mem _ hf)).1,
      (l.plain f (List.mem_cons_of_mem _ hf)).2.1⟩
  have hcontent : l.content = l.pid ++ space :: ((40 :: x) ++ space :: ((y ++ [41]) ++
      space :: [space].intercalate l.others)) := by
    rw [content, fields, List.intercalate_cons_cons, List.intercalate_cons_of_ne_nil hothers,
      name, hxy]
    simp
  rw [hcontent, words_cons hpid.1 hpid.2.1, words_append, words_append, hrest]
  -- a word before the space has the parenthesis that opens, one behind it the one that closes
  have hx := List.length_pos_iff.mpr
    (words_ne_nil (c := 40) (d := space) (u := 40 :: x) List.mem_cons_self (by decide))
  have hy := List.length_pos_iff.mpr
    (words_ne_nil (c := 41) (d := space) (u := y ++ [41]) (by simp) (by decide))
  simp only [List.length_cons, List.length_append, l.others_length]
  omega

variable (l)

/-- Every field is printed under its own pattern, one line each. -/
def Described : Prop := statInfo l.content = some (withDescr.zip l.fields)

/-- With a space in the command name `stat_info` leaves the table. -/
theorem outside_of_space (h : space ∈ l.comm) (h0 : (0 : UInt8) ∉ l.comm) :
    statInfo l.content = none := by
  rw [statInfo, readThrough_tokens _ (zero_notMem_content h0), if_neg]
  rw [withDescr_length, not_and, not_le]
  exact fun _ => length_lt_of_space h

/-- **The defect of the statistics, exactly**: a line is printed as its 52 fields, each under
its own description, just when its command name has no space (and no terminator) and the
line leaves room for a terminator in the buffer. -/
theorem described_iff :
    l.Described ↔ space ∉ l.comm ∧ (0 : UInt8) ∉ l.comm ∧ l.content.length < BUFSIZ := by
  constructor
  · intro h
    have hlen : 1 < (withDescr.zip l.fields).length := by simp
    have hname : (withDescr.zip l.fields)[1].2 = l.name := by
      rw [List.getElem_zip]
      rfl
    obtain ⟨hsp, h0⟩ := readThrough_plain _ h _ (List.getElem_mem hlen)
    rw [hname, mem_name (by decide) (by decide)] at hsp h0
    rw [Described, statInfo, readThrough_tokens _ (zero_notMem_content h0)] at h
    split_ifs at h with hfits
    exact ⟨hsp, h0, hfits.1⟩
  · rintro ⟨hsp, h0, hlen⟩
    rw [Described, statInfo, readThrough_tokens _ (zero_notMem_content h0), words_content hsp,
      if_pos ⟨hlen, by simp⟩]

end StatLine

/-- The line `"1 (a b) 0 … 0"`. -/
def spacedLine : StatLine where
  pid := [49]
  comm := [97, 32, 98]
  others := List.replicate 50 [48]
  others_length := List.length_replicate
  plain f hf := by
    rcases List.mem_cons.mp hf with rfl | hf
    · decide
    · rw [List.eq_of_mem_replicate hf]
      decide

/-- The table has 52 entries, and the line is cut in 53. -/
theorem spacedLine_outside : statInfo spacedLine.content = none ∧ ¬ spacedLine.Described := by
  have h : statInfo spacedLine.content = none :=
    spacedLine.outside_of_space (by decide) (by decide)
  refine ⟨h, fun hd => ?_⟩
  rw [StatLine.Described, h] at hd
  cases hd

end ProcInfo

end OperatingSys
