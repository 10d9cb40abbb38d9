import Orchestrator.Cstring
import Orchestrator.Orchdata
import Orchestrator.Traversal
import Mathlib.Tactic.Common

/-!
`getContPids`: the PIDs in the task files of the container CGroups. A file is
read through a buffer of `BUFRD` bytes; what a window leaves unprocessed moves
to the front of the buffer and the next read continues behind it.
-/

namespace Orchestrator.ContPids
open Orchdata Cstring

def bufrd : Nat := 1024

/-- The read buffer, the counters of one file, and the list under construction.
`brk` is the next free address. -/
structure Reader where
  buf : List Char
  nleft : Int := 0
  count : Nat := 0
  pidlst : List Node := []
  brk : Nat := 1

def Reader.pids (reader : Reader) : List Int := reader.pidlst.map Node.pid

section Code

-- text of `/proc/<pid>/cmdline`, if it can be read
variable (cmdline : Int → Option (List Char))

/-- `updatePidCmdline`. -/
def updatePidCmdline (item : Node) (brk : Nat) : Node × Nat :=
  match cmdline item.pid with
  | none => (item, brk)
  | some text =>
      if item.psig.map Str.text = some text then (item, brk + 1)
      else ({ item with psig := some ⟨brk, text⟩ }, brk + 1)

/-- Body of the token loop: the node of the PID at position `pid`. -/
def foundPid (name : List Char) (reader : Reader) (pid : Nat) : Reader :=
  let pushed : Node :=
    { loc := reader.brk, pid := atoi (reader.buf.drop pid), status := { sibl := true } }
  let (item, brk) := updatePidCmdline cmdline pushed (reader.brk + 1)
  { reader with
    pidlst := { item with contid := some ⟨brk, name⟩ } :: reader.pidlst
    brk := brk + 1
    nleft := reader.nleft - (strlen reader.buf pid + 1)
    count := reader.count + 1 }

/-- The token loop. A token takes at least one byte, so that `BUFRD` turns are enough. -/
def parseLines (name : List Char) : Nat → Reader → Option Nat → Nat → Reader × Option Nat
  | 0, reader, pid, _ => (reader, pid)
  | _ + 1, reader, none, _ => (reader, none)
  | turns + 1, reader, some pid, pid_ptr =>
      if reader.nleft ≠ 0 ∧ 6 < bufrd - 1 - pid then
        let found := foundPid cmdline name reader pid
        let (next, pid_ptr, buf) := strtokR found.buf pid_ptr
        parseLines name turns { found with buf := buf } next pid_ptr
      else (reader, some pid)

/-- `if (1 == count)`: only one found, reset sibling flag. -/
def resetSibl (reader : Reader) : Reader :=
  match reader.count, reader.pidlst with
  | 1, head :: tail =>
      { reader with pidlst := { head with status.sibl := false } :: tail }
  | _, _ => reader

/-- Copies leftover characters to the beginning of the buffer. -/
def copyLeft (reader : Reader) : Option Nat → Except Stop Reader
  | none => .ok reader
  | some _ =>
      -- a negative size converts to one beyond the buffer
      if reader.nleft < 0 then .error .segv
      else .ok { reader with
        buf := memcpyFront reader.buf (bufrd - reader.nleft.toNat - 1) reader.nleft.toNat }

/-- What follows a successful read. -/
def readWindow (name : List Char) (reader : Reader) (got : List Char) : Except Stop Reader :=
  let (pid, pid_ptr, buf) := strtokR (readInto reader.buf reader.nleft.toNat got) 0
  let start := { reader with buf := buf, nleft := reader.nleft + got.length }
  let (parsed, left) := parseLines cmdline name bufrd start pid pid_ptr
  copyLeft (resetSibl parsed) left

/-- The reads of one file, each of the bytes requested or of what remains. The
loop ends with the first that returns nothing; `turns` bounds it. -/
def readLoop (name : List Char) : Nat → List Char → Reader → Except Stop Reader
  | 0, _, _ => .error .abort
  | turns + 1, file, reader =>
      -- `read` writes to `buf + nleft`
      if reader.nleft < 0 ∨ (bufrd : Int) - 1 < reader.nleft then .error .segv
      else
        let got := file.take (bufrd - reader.nleft.toNat - 1)
        if got = [] then .ok reader
        else do
          let next ← readWindow cmdline name reader got
          readLoop name turns (file.drop (bufrd - reader.nleft.toNat - 1)) next

/-- One task file from `open` to `close`. Every turn but the last reads a byte. -/
def readTasks (name : List Char) (file : List Char) (reader : Reader) : Except Stop Reader :=
  readLoop cmdline name (file.length + 1) file { reader with nleft := 0, count := 0 }

/-- `getContPids` over the entries of the CGroup directory: their names, and
their task files. Without the directory the detection mode changes. -/
def getContPids (useCgroup : DetMode) (dir : Option (List (List Char × List Char)))
    (reader : Reader) : Except Stop (DetMode × Reader) :=
  match dir with
  | none => .ok (.cntpid, reader)
  | some entries => do
      let done ← entries.foldlM (fun reader entry =>
        if 60 < entry.1.length then readTasks cmdline entry.1 entry.2 reader else .ok reader) reader
      pure (useCgroup, done)

end Code

section Steps
variable {cmdline : Int → Option (List Char)} {name : List Char}

theorem update_pid_cmdline_pid (item : Node) (brk : Nat) :
    (updatePidCmdline cmdline item brk).1.pid = item.pid := by
  rw [updatePidCmdline]
  split
  · rfl
  · split <;> rfl

@[simp] theorem found_pid_pids (reader : Reader) (pid : Nat) :
    (foundPid cmdline name reader pid).pids = atoi (reader.buf.drop pid) :: reader.pids := by
  simp [foundPid, Reader.pids, update_pid_cmdline_pid]

@[simp] theorem found_pid_nleft (reader : Reader) (pid : Nat) :
    (foundPid cmdline name reader pid).nleft = reader.nleft - (strlen reader.buf pid + 1) := rfl

@[simp] theorem reset_sibl_pids (reader : Reader) : (resetSibl reader).pids = reader.pids := by
  rw [resetSibl]
  split
  · rename_i same
    simp [Reader.pids, same]
  · rfl

@[simp] theorem reset_sibl_buf (reader : Reader) : (resetSibl reader).buf = reader.buf := by
  rw [resetSibl]
  split <;> rfl

@[simp] theorem reset_sibl_nleft (reader : Reader) :
    (resetSibl reader).nleft = reader.nleft := by
  rw [resetSibl]
  split <;> rfl

/-- The token loop from position `start` on. -/
def resume (cmdline : Int → Option (List Char)) (name : List Char) (turns : Nat)
    (reader : Reader) (start : Nat) : Reader × Option Nat :=
  parseLines cmdline name turns { reader with buf := (strtokR reader.buf start).2.2 }
    (strtokR reader.buf start).1 (strtokR reader.buf start).2.1

theorem resume_end {reader : Reader} {start pid_ptr : Nat} {buf : List Char} (turns : Nat)
    (none_left : strtokR reader.buf start = (none, pid_ptr, buf)) :
    resume cmdline name turns reader start = ({ reader with buf := buf }, none) := by
  rw [resume, none_left]
  cases turns <;> rfl

theorem resume_stop {reader : Reader} {start pid pid_ptr : Nat} {buf : List Char} (turns : Nat)
    (token : strtokR reader.buf start = (some pid, pid_ptr, buf)) (late : ¬6 < bufrd - 1 - pid) :
    resume cmdline name turns reader start = ({ reader with buf := buf }, some pid) := by
  rw [resume, token]
  cases turns with
  | zero => rfl
  | succ turns => rw [parseLines, if_neg (fun both => late both.2)]

/-- A turn of the token loop on the token at `front.length`. -/
theorem resume_turn (cmdline : Int → Option (List Char)) (name : List Char) {reader : Reader}
    {start pid_ptr : Nat} {front token rest : List Char}
    (turns : Nat) (inside : ∀ c ∈ token, inToken c = true)
    (found : strtokR reader.buf start =
      (some front.length, pid_ptr, front ++ (token ++ nul :: rest)))
    (pending : reader.nleft ≠ 0) (early : 6 < bufrd - 1 - front.length) :
    ∃ next : Reader, next.buf = front ++ (token ++ nul :: rest) ∧
      next.nleft = reader.nleft - (token.length + 1) ∧
      next.pids = atoi (token ++ nul :: rest) :: reader.pids ∧
      resume cmdline name (turns + 1) reader start = resume cmdline name turns next pid_ptr := by
  refine ⟨foundPid cmdline name { reader with buf := front ++ (token ++ nul :: rest) }
    front.length, rfl, ?_, ?_, ?_⟩
  · rw [found_pid_nleft, strlen_token _ _ inside]
  · rw [found_pid_pids, List.drop_left]
    rfl
  · rw [resume, found]
    simp only [parseLines]
    rw [if_pos ⟨pending, early⟩]
    rfl

theorem length_parse_lines (turns : Nat) (reader : Reader) (pid : Option Nat) (pid_ptr : Nat) :
    (parseLines cmdline name turns reader pid pid_ptr).1.buf.length = reader.buf.length := by
  induction turns generalizing reader pid pid_ptr with
  | zero => rfl
  | succ turns ih =>
      cases pid with
      | none => rfl
      | some pid =>
          rw [parseLines]
          split_ifs
          · rw [ih]
            exact length_strtok _ _
          · rfl

theorem length_resume (turns : Nat) (reader : Reader) (start : Nat) :
    (resume cmdline name turns reader start).1.buf.length = reader.buf.length := by
  rw [resume, length_parse_lines]
  exact length_strtok _ _

/-- The reader when the token loop of a window starts. -/
def received (reader : Reader) (got : List Char) : Reader :=
  { reader with
    buf := readInto reader.buf reader.nleft.toNat got
    nleft := reader.nleft + got.length }

theorem read_window_eq (reader : Reader) (got : List Char) :
    readWindow cmdline name reader got =
      copyLeft (resetSibl (resume cmdline name bufrd (received reader got) 0).1)
        (resume cmdline name bufrd (received reader got) 0).2 := by
  rw [readWindow, resume, received]


theorem copy_left_some {reader : Reader} {off kept : Nat} (nleft : reader.nleft = kept) :
    copyLeft reader (some off) =
      .ok { reader with buf := memcpyFront reader.buf (bufrd - kept - 1) kept } := by
  rw [copyLeft, nleft, if_neg (by omega), Int.toNat_natCast]

/-- A read that may not get the rest of the file. -/
theorem read_loop_read {turns : Nat} {file : List Char} {reader : Reader} {kept : Nat}
    (nleft : reader.nleft = kept) (inside : kept < bufrd - 1) (unread : file ≠ []) :
    readLoop cmdline name (turns + 1) file reader =
      (readWindow cmdline name reader (file.take (bufrd - kept - 1)) >>=
        readLoop cmdline name turns (file.drop (bufrd - kept - 1))) := by
  have nonempty : file.take (bufrd - kept - 1) ≠ [] := by
    rw [Ne, List.take_eq_nil_iff]
    exact fun empty => empty.elim (by omega) unread
  rw [readLoop, if_neg (by omega)]
  simp only [nleft, Int.toNat_natCast, if_neg nonempty]

theorem read_loop_eof {turns : Nat} {reader : Reader} {kept : Nat} (nleft : reader.nleft = kept)
    (inside : kept ≤ bufrd - 1) :
    readLoop cmdline name (turns + 1) [] reader = .ok reader := by
  have bound : 0 < bufrd := by decide
  rw [readLoop, if_neg (by omega)]
  simp

theorem read_loop_behind {turns : Nat} {file : List Char} {reader : Reader}
    (negative : reader.nleft < 0) :
    readLoop cmdline name (turns + 1) file reader = .error .segv := by
  rw [readLoop, if_pos (.inl negative)]

/-- The windows of a file leave a buffer of the same size. -/
theorem length_read_window {reader next : Reader} {got : List Char} {kept : Nat}
    (nleft : reader.nleft = kept) (sized : reader.buf.length = bufrd)
    (room : kept + got.length < bufrd) (run : readWindow cmdline name reader got = .ok next) :
    next.buf.length = bufrd := by
  have parsed : (resume cmdline name bufrd (received reader got) 0).1.buf.length = bufrd := by
    rw [length_resume]
    dsimp only [received]
    rw [nleft, Int.toNat_natCast, length_read_into (by rw [sized]; exact room), sized]
  rw [read_window_eq] at run
  generalize resume cmdline name bufrd (received reader got) 0 = result at *
  obtain ⟨scanned, left⟩ := result
  cases left with
  | none =>
      obtain rfl := Except.ok.inj run
      rw [reset_sibl_buf, parsed]
  | some off =>
      rw [copyLeft] at run
      split_ifs at run
      obtain rfl := Except.ok.inj run
      simp only [memcpyFront, reset_sibl_buf, List.length_append, List.length_take,
        List.length_drop, parsed]
      omega

theorem length_read_loop {turns : Nat} {file : List Char} {reader final : Reader}
    (sized : reader.buf.length = bufrd)
    (run : readLoop cmdline name turns file reader = .ok final) : final.buf.length = bufrd := by
  induction turns generalizing file reader with
  | zero => cases run
  | succ turns ih =>
      rw [readLoop] at run
      split_ifs at run with outside
      dsimp only at run
      split_ifs at run
      · cases run
        exact sized
      · obtain ⟨kept, nleft⟩ := Int.eq_ofNat_of_zero_le (by omega : 0 ≤ reader.nleft)
        obtain ⟨next, window, rest⟩ := Traversal.bind_ok run
        refine ih (length_read_window nleft sized ?_ window) rest
        rw [nleft, Int.toNat_natCast, List.length_take]
        omega

/-- A node without parameters and image. -/
def Unassigned (item : Node) : Prop := item.param = none ∧ item.imgid = none

/-- Every node of the list is still as it was pushed. -/
def Pushed (reader : Reader) : Prop := ∀ item ∈ reader.pidlst, Unassigned item

theorem update_pid_cmdline_unassigned {item : Node} (fresh : Unassigned item) (brk : Nat) :
    Unassigned (updatePidCmdline cmdline item brk).1 := by
  rw [updatePidCmdline]
  split
  · exact fresh
  · split <;> exact fresh

theorem found_pid_pushed {reader : Reader} (pushed : Pushed reader) (pid : Nat) :
    Pushed (foundPid cmdline name reader pid) := by
  refine List.forall_mem_cons.mpr ⟨?_, pushed⟩
  exact update_pid_cmdline_unassigned ⟨rfl, rfl⟩ (reader.brk + 1)

theorem parse_lines_pushed (turns : Nat) {reader : Reader} (pushed : Pushed reader)
    (pid : Option Nat) (pid_ptr : Nat) :
    Pushed (parseLines cmdline name turns reader pid pid_ptr).1 := by
  induction turns generalizing reader pid pid_ptr with
  | zero => exact pushed
  | succ turns ih =>
      cases pid with
      | none => exact pushed
      | some pid =>
          rw [parseLines]
          split_ifs
          · have found : Pushed { foundPid cmdline name reader pid with
                buf := (strtokR (foundPid cmdline name reader pid).buf pid_ptr).2.2 } :=
              found_pid_pushed pushed pid
            exact ih found _ _
          · exact pushed

theorem resume_pushed (turns : Nat) {reader : Reader} (pushed : Pushed reader) (start : Nat) :
    Pushed (resume cmdline name turns reader start).1 := by
  have begins : Pushed { reader with buf := (strtokR reader.buf start).2.2 } := pushed
  exact parse_lines_pushed turns begins _ _

theorem reset_sibl_pushed {reader : Reader} (pushed : Pushed reader) :
    Pushed (resetSibl reader) := by
  rw [resetSibl]
  split
  · rename_i head tail _ list
    have all : ∀ item ∈ reader.pidlst, Unassigned item := pushed
    rw [list] at all
    obtain ⟨first, others⟩ := List.forall_mem_cons.mp all
    exact List.forall_mem_cons.mpr ⟨first, others⟩
  · exact pushed

theorem read_window_pushed {reader next : Reader} {got : List Char} (pushed : Pushed reader)
    (run : readWindow cmdline name reader got = .ok next) : Pushed next := by
  have start : Pushed (received reader got) := pushed
  have parsed : Pushed (resetSibl (resume cmdline name bufrd (received reader got) 0).1) :=
    reset_sibl_pushed (resume_pushed bufrd start 0)
  rw [read_window_eq] at run
  generalize resume cmdline name bufrd (received reader got) 0 = result at *
  obtain ⟨scanned, left⟩ := result
  cases left with
  | none =>
      obtain rfl := Except.ok.inj run
      exact parsed
  | some off =>
      rw [copyLeft] at run
      split_ifs at run
      obtain rfl := Except.ok.inj run
      exact parsed

theorem read_loop_pushed {turns : Nat} {file : List Char} {reader final : Reader}
    (pushed : Pushed reader) (run : readLoop cmdline name turns file reader = .ok final) :
    Pushed final := by
  induction turns generalizing file reader with
  | zero => cases run
  | succ turns ih =>
      rw [readLoop] at run
      split_ifs at run
      dsimp only at run
      split_ifs at run
      · cases run
        exact pushed
      · obtain ⟨next, window, rest⟩ := Traversal.bind_ok run
        exact ih (read_window_pushed pushed window) rest

/-- Nodes are detected without parameters. -/
theorem get_cont_pids_pushed {useCgroup mode : DetMode}
    {dir : Option (List (List Char × List Char))} {reader final : Reader} (pushed : Pushed reader)
    (run : getContPids cmdline useCgroup dir reader = .ok (mode, final)) : Pushed final := by
  cases dir with
  | none =>
      cases run
      exact pushed
  | some entries =>
      obtain ⟨filled, fold, finish⟩ := Traversal.bind_ok run
      cases finish
      refine Traversal.fold_rule _ (fun start _ finish => Pushed start → Pushed finish)
        (fun _ => id) (fun start entry next rest finish step tail before => tail ?_)
        entries reader final fold pushed
      split_ifs at step
      · have opened : Pushed { start with nleft := 0, count := 0 } := before
        exact read_loop_pushed opened step
      · cases step
        exact before

end Steps

end Orchestrator.ContPids
