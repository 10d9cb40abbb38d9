import Orchestrator.SharedList
import Orchestrator.Strtok

/-!
`getPids` of `update.c` and what calls it: the tasks `ps` lists, read a line at a time
through a buffer, and the parents `pidof` finds. The shell is a parameter.
-/

namespace Orchestrator.PsLines
open Orchdata Cstring Traversal ContPids Manage ScanNew SharedList

/-- `fgets` on what is left of a pipe: the text up to the newline or to the end of the buffer. -/
def fgets (size : Nat) (stream : List Char) : Option (List Char × List Char) :=
  if stream = [] then none
  else
    let window := stream.take (size - 1)
    let got := window.take ((window.takeWhile (· != '\n')).length + 1)
    some (got, stream.drop got.length)

/-- The calls until the pipe is empty; each takes a character at least. -/
def fgetsLines (size : Nat) : Nat → List Char → List (List Char)
  | 0, _ => []
  | calls + 1, stream =>
      match fgets size stream with
      | none => []
      | some (got, rest) => got :: fgetsLines size calls rest

/-- The text of a buffer ends at its first `NUL`. -/
def cstr (buf : List Char) : List Char := buf.takeWhile (· != nul)

/-- The list under construction, the next free address, the nodes counted. -/
structure Found where
  pidlst : List Node := []
  brk : Nat := 1
  count : Nat := 0

section Code

-- what a command prints, if it can be run
variable (popen : List Char → Option (List Char))

/-- Loop body: one line, a PID and a command. `ppid` is duplicated, but not kept. -/
def foundLine (ppid : Option (List Char)) (found : Found) (pidline : List Char) :
    Except Stop Found :=
  match Strtok.strtokR [' '] (cstr pidline) with
  | (none, _) => .error .segv
  | (some pid, pid_ptr) =>
      match Strtok.strtokR ['\n'] pid_ptr with
      | (none, _) => .error .segv
      | (some command, _) =>
          let brk := if ppid.isSome then found.brk + 2 else found.brk + 1
          let item : Node :=
            { loc := found.brk
              pid := atoi pid
              status := { sibl := ppid.isSome }
              psig := some ⟨brk, command⟩ }
          .ok ⟨item :: found.pidlst, brk + 1, found.count + 1⟩

/-- `if (1 == count)`: only one found, reset sibling flag. -/
def onlyOne (found : Found) : Found :=
  match found.count, found.pidlst with
  | 1, head :: tail => { found with pidlst := { head with status.sibl := false } :: tail }
  | _, _ => found

def psRequest (tag : List Char) : List Char := "ps h -o spid,command ".toList ++ tag

def getPids (tag : Option (List Char)) (ppid : Option (List Char)) (found : Found) :
    Except Stop Found :=
  match tag with
  | none => .error .exit
  | some tag =>
      match popen (psRequest tag) with
      | none => .ok found
      | some output => do
          let read ← (fgetsLines bufrd output.length output).foldlM (foundLine ppid)
            { found with count := 0 }
          pure (onlyOne read)

def getCmdLinePids (pidSignature : List Char) (found : Found) : Except Stop Found :=
  getPids popen (some pidSignature) none found

/-- The list of parents for `ps`, and the tag with it. The last character is overwritten. -/
def parentTag (output : List Char) : Option (List Char × List Char) :=
  match fgets (bufrd - 18) output with
  | none => none
  | some (got, _) =>
      let pidline := (cstr got).map fun c => if c = ' ' then ',' else c
      some (("-T --ppid ".toList ++ pidline).dropLast, pidline)

def getParentPids (cont_ppidc : Option (List Char)) (found : Found) : Except Stop Found :=
  match cont_ppidc with
  | none => .error .exit
  | some name =>
      match popen ("pidof ".toList ++ name) with
      | none => .ok found
      | some output =>
          match parentTag output with
          | none => .ok found
          | some (pids, pidline) => getPids popen (some pids) (some pidline) found

/-- `CMD_LEN`. -/
def cmdLen : Nat := 255

/-- The function behind `pidUpdate` and the texts it works with. -/
inductive Update where
  | contPids
  | parentPids (cont_ppidc : Option (List Char))
  | cmdLinePids (pidSignature : List Char)
  deriving DecidableEq, Repr

/-- `selectUpdate`. The signature has to fit in the buffer it is printed to. -/
def selectUpdate (useCgroup : DetMode) (psigscan : Bool) (cont_pidc : List Char)
    (cont_ppidc : Option (List Char)) : Except Stop Update :=
  match useCgroup with
  | .cgrp => .ok .contPids
  | .cntpid => .ok (.parentPids cont_ppidc)
  | .cmdline =>
      let pidSignature :=
        if cont_pidc = [] then []
        else if psigscan then "-TC ".toList ++ cont_pidc
        else "-C ".toList ++ cont_pidc
      if cmdLen ≤ pidSignature.length then .error .segv else .ok (.cmdLinePids pidSignature)

/-- The call behind `pidUpdate`, for the modes that ask `ps`. -/
def psUpdate (update : Update) (found : Found) : Option (Except Stop Found) :=
  match update with
  | .contPids => none
  | .parentPids cont_ppidc => some (getParentPids popen cont_ppidc found)
  | .cmdLinePids pidSignature => some (getCmdLinePids popen pidSignature found)

end Code

section Pieces
variable {size : Nat} {body rest : List Char}

/-- A line that fits is read whole. -/
theorem fgets_fits (plain : '\n' ∉ body) (fits : body.length + 1 < size) :
    fgets size (body ++ '\n' :: rest) = some (body ++ ['\n'], rest) := by
  have window : (body ++ '\n' :: rest).take (size - 1) =
      body ++ '\n' :: rest.take (size - 2 - body.length) := by
    rw [List.take_append, List.take_of_length_le (by omega),
      show size - 1 - body.length = (size - 2 - body.length) + 1 by omega, List.take_succ_cons]
  have token :
      (body ++ '\n' :: rest.take (size - 2 - body.length)).takeWhile (· != '\n') = body := by
    apply take_while_token
    · intro c member
      simpa using fun same : c = '\n' => plain (same ▸ member)
    · rfl
  have got : (body ++ '\n' :: rest.take (size - 2 - body.length)).take (body.length + 1) =
      body ++ ['\n'] := by
    rw [List.take_append, List.take_of_length_le (Nat.le_succ _), Nat.add_sub_cancel_left,
      List.take_succ_cons, List.take_zero]
  rw [fgets, if_neg (by simp)]
  simp only [window, token, got]
  congr 2
  rw [show body ++ '\n' :: rest = (body ++ ['\n']) ++ rest by simp, List.drop_left]

/-- Of a longer line the buffer takes a piece. -/
theorem fgets_cut (plain : '\n' ∉ body) (long : size - 1 ≤ body.length) :
    fgets size (body ++ '\n' :: rest) =
      some (body.take (size - 1), body.drop (size - 1) ++ '\n' :: rest) := by
  have window : (body ++ '\n' :: rest).take (size - 1) = body.take (size - 1) :=
    List.take_append_of_le_length long
  have token : (body.take (size - 1)).takeWhile (· != '\n') = body.take (size - 1) := by
    apply List.takeWhile_eq_self_iff.mpr
    intro c member
    simpa using fun same : c = '\n' => plain (same ▸ List.mem_of_mem_take member)
  have length : (body.take (size - 1)).length = size - 1 := List.length_take_of_le long
  rw [fgets, if_neg (by simp)]
  simp only [window, token, length]
  rw [List.take_of_length_le (by omega), length, List.drop_append_of_le_length long]

/-- Lines of a text, without their newlines. -/
def text (bodies : List (List Char)) : List Char := bodies.flatMap (· ++ ['\n'])

theorem text_cons (body : List Char) (bodies : List (List Char)) :
    text (body :: bodies) = body ++ '\n' :: text bodies := by
  simp [text]

/-- How many calls a line takes. -/
def pieces (size : Nat) (body : List Char) : Nat := (body.length + size - 1) / (size - 1)

theorem pieces_fits (fits : body.length + 1 < size) : pieces size body = 1 := by
  rw [pieces]
  apply Nat.div_eq_of_lt_le <;> omega

theorem pieces_cut (room : 1 < size) (long : size - 1 ≤ body.length) :
    pieces size body = pieces size (body.drop (size - 1)) + 1 := by
  rw [pieces, pieces, List.length_drop, ← Nat.add_div_right _ (by omega)]
  congr 1
  omega

theorem fgets_lines_fit {calls : Nat} {bodies : List (List Char)}
    (plain : ∀ body ∈ bodies, '\n' ∉ body) (fits : ∀ body ∈ bodies, body.length + 1 < size)
    (enough : (text bodies).length ≤ calls) :
    fgetsLines size calls (text bodies) = bodies.map (· ++ ['\n']) := by
  induction bodies generalizing calls with
  | nil => cases calls <;> rfl
  | cons body bodies ih =>
      rw [text_cons, List.length_append, List.length_cons] at enough
      obtain ⟨calls, rfl⟩ := Nat.exists_eq_succ_of_ne_zero (by omega : calls ≠ 0)
      rw [text_cons, fgetsLines, fgets_fits (plain body (by simp)) (fits body (by simp))]
      have later := @ih calls (fun other member => plain other (by simp [member]))
        (fun other member => fits other (by simp [member])) (by omega)
      simp only [later, List.map_cons]

/-- The number of calls that return something, whatever the lengths of the lines. -/
theorem fgets_lines_pieces (room : 1 < size) {calls : Nat} {bodies : List (List Char)}
    (plain : ∀ body ∈ bodies, '\n' ∉ body) (enough : (text bodies).length ≤ calls) :
    (fgetsLines size calls (text bodies)).length = (bodies.map (pieces size)).sum := by
  induction calls generalizing bodies with
  | zero =>
      cases bodies with
      | nil => rfl
      | cons body bodies => simp [text_cons] at enough
  | succ calls ih =>
      cases bodies with
      | nil => rfl
      | cons body bodies =>
          have first := plain body (by simp)
          have others : ∀ other ∈ bodies, '\n' ∉ other :=
            fun other member => plain other (by simp [member])
          rw [text_cons, List.length_append, List.length_cons] at enough
          rw [text_cons, fgetsLines]
          by_cases fits : body.length + 1 < size
          · rw [fgets_fits first fits]
            have later := ih others (by omega)
            simp only [List.length_cons, later, List.map_cons, List.sum_cons, pieces_fits fits]
            omega
          · have long : size - 1 ≤ body.length := by omega
            rw [fgets_cut first long, ← text_cons]
            have apart : ∀ other ∈ body.drop (size - 1) :: bodies, '\n' ∉ other := by
              intro other member
              rcases List.mem_cons.mp member with rfl | later
              · exact fun inside => first (List.mem_of_mem_drop inside)
              · exact others other later
            have later := ih apart (by
              rw [text_cons, List.length_append, List.length_cons, List.length_drop]
              omega)
            simp only [List.length_cons, later, List.map_cons, List.sum_cons,
              pieces_cut room long]
            omega

theorem pieces_pos (room : 1 < size) (body : List Char) : 0 < pieces size body :=
  Nat.div_pos (by omega) (by omega)

/-- As many pieces as lines: all lines fit. -/
theorem pieces_eq_length (room : 1 < size) {bodies : List (List Char)}
    (same : (bodies.map (pieces size)).sum = bodies.length) :
    ∀ body ∈ bodies, body.length + 1 < size := by
  have least : ∀ others : List (List Char), others.length ≤ (others.map (pieces size)).sum := by
    intro others
    induction others with
    | nil => simp
    | cons other others ih =>
        have positive := pieces_pos room other
        simp only [List.length_cons, List.map_cons, List.sum_cons]
        omega
  induction bodies with
  | nil => simp
  | cons body bodies ih =>
      have positive := pieces_pos room body
      have others := least bodies
      simp only [List.length_cons, List.map_cons, List.sum_cons] at same
      intro other member
      rcases List.mem_cons.mp member with rfl | later
      · by_contra long
        have cut := pieces_cut room (show size - 1 ≤ other.length by omega)
        have more := pieces_pos room (other.drop (size - 1))
        omega
      · exact ih (by omega) other later

end Pieces

/-- A task as `ps` prints it: the PID to the right of its column, a blank, the command. -/
structure PsTask where
  pad : Nat
  pid : Nat
  command : List Char
  positive : 0 < pid
  small : pid < 2 ^ 31
  some : command ≠ []
  plain : ∀ c ∈ command, inToken c = true

/-- The line, without its newline. -/
def PsTask.body (task : PsTask) : List Char :=
  List.replicate task.pad ' ' ++ (Nat.toDigits 10 task.pid ++ ' ' :: task.command)

/-- The node of a task, as the scan pushes it. -/
def Shows (sibl : Bool) (task : PsTask) (node : Node) : Prop :=
  ∃ loc at', node =
    { loc := loc, pid := task.pid, status := { sibl := sibl }, psig := some ⟨at', task.command⟩ }

section Lines
variable {ppid : Option (List Char)}

theorem body_plain (task : PsTask) : ∀ c ∈ task.body, inToken c = true := by
  intro c member
  rcases List.mem_append.mp member with pad | rest
  · rw [(List.mem_replicate.mp pad).2]
    rfl
  · rcases List.mem_append.mp rest with digit | rest
    · exact digits_in_token task.pid c digit
    · rcases List.mem_cons.mp rest with rfl | command
      · rfl
      · exact task.plain c command

theorem body_no_newline (task : PsTask) : '\n' ∉ task.body :=
  fun member => absurd (body_plain task _ member) (by decide)

/-- The node of a line that was read whole. -/
theorem found_line_task (task : PsTask) (found : Found) :
    ∃ node brk, foundLine ppid found (task.body ++ ['\n']) =
        .ok ⟨node :: found.pidlst, brk, found.count + 1⟩ ∧ Shows ppid.isSome task node := by
  have whole : cstr (task.body ++ ['\n']) = task.body ++ ['\n'] := by
    apply List.takeWhile_eq_self_iff.mpr
    intro c member
    rcases List.mem_append.mp member with inside | newline
    · have plain := body_plain task c inside
      simp only [inToken, Bool.and_eq_true] at plain
      exact plain.2
    · rw [List.mem_singleton.mp newline]
      rfl
  have padding : Strtok.Gap [' '] (List.replicate task.pad ' ') := by
    intro c member
    simp [(List.mem_replicate.mp member).2]
  have number : Strtok.Word [' '] (Nat.toDigits 10 task.pid) := by
    refine ⟨Nat.toDigits_ne_nil, fun c member blank => ?_⟩
    rw [List.mem_singleton.mp blank] at member
    exact absurd (Nat.isDigit_of_mem_toDigits (by decide) (by decide) member) (by decide)
  have first : Strtok.strtokR [' '] (task.body ++ ['\n']) =
      (some (Nat.toDigits 10 task.pid), task.command ++ ['\n']) := by
    have split : task.body ++ ['\n'] = List.replicate task.pad ' ' ++
        (Nat.toDigits 10 task.pid ++ ' ' :: (task.command ++ ['\n'])) := by
      simp [PsTask.body]
    rw [split]
    exact Strtok.strtok_ended padding number (by simp) _
  have signature : Strtok.Word ['\n'] task.command := by
    refine ⟨task.some, fun c member newline => ?_⟩
    rw [List.mem_singleton.mp newline] at member
    exact absurd (task.plain _ member) (by decide)
  have second : Strtok.strtokR ['\n'] (task.command ++ ['\n']) = (some task.command, []) :=
    Strtok.strtok_front signature (by simp) []
  rw [foundLine, whole, first]
  simp only [second]
  exact ⟨_, _, rfl, found.brk, _, by rw [atoi_digits_alone]⟩

theorem found_lines_tasks (tasks : List PsTask) (found : Found) :
    ∃ nodes brk, (tasks.map fun task => task.body ++ ['\n']).foldlM (foundLine ppid) found =
        .ok ⟨nodes ++ found.pidlst, brk, found.count + tasks.length⟩ ∧
      List.Forall₂ (Shows ppid.isSome) tasks.reverse nodes := by
  induction tasks generalizing found with
  | nil => exact ⟨[], found.brk, rfl, .nil⟩
  | cons task tasks ih =>
      obtain ⟨node, brk, step, shows⟩ := @found_line_task ppid task found
      obtain ⟨nodes, last, run, all⟩ := ih ⟨node :: found.pidlst, brk, found.count + 1⟩
      refine ⟨nodes ++ [node], last, ?_, ?_⟩
      · rw [List.map_cons, List.foldlM_cons, step]
        rw [List.append_assoc, List.singleton_append, List.length_cons,
          show found.count + (tasks.length + 1) = found.count + 1 + tasks.length by omega]
        exact run
      · rw [List.reverse_cons]
        exact List.rel_append all (.cons shows .nil)

/-- Each line that is read pushes one node. -/
theorem found_line_length {found next : Found} {line : List Char}
    (run : foundLine ppid found line = .ok next) :
    next.pidlst.length = found.pidlst.length + 1 := by
  rw [foundLine] at run
  split at run
  · cases run
  · split at run
    · cases run
    · cases run
      rfl

theorem found_lines_length (lines : List (List Char)) {found last : Found}
    (run : lines.foldlM (foundLine ppid) found = .ok last) :
    last.pidlst.length = found.pidlst.length + lines.length := by
  induction lines generalizing found with
  | nil =>
      cases run
      rfl
  | cons line lines ih =>
      rw [List.foldlM_cons] at run
      obtain ⟨next, step, rest⟩ := bind_ok run
      rw [ih rest, found_line_length step, List.length_cons]
      omega

theorem only_one_length (found : Found) :
    (onlyOne found).pidlst.length = found.pidlst.length := by
  rw [onlyOne]
  split
  · rename_i list
    simp [list]
  · rfl

end Lines

/-- What `ps` prints for these tasks. -/
def psText (tasks : List PsTask) : List Char := text (tasks.map PsTask.body)

/-- The list has a node for each of these tasks, the last one first, in front of the old ones. -/
def Lists (sibl : Bool) (tasks : List PsTask) (found final : Found) : Prop :=
  ∃ nodes, final.pidlst = nodes ++ found.pidlst ∧
    List.Forall₂ (Shows (sibl && tasks.length != 1)) tasks.reverse nodes

section Output
variable {popen : List Char → Option (List Char)} {tag : List Char} {ppid : Option (List Char)}
variable {tasks : List PsTask} {found : Found}

theorem bufrd_room : 1 < bufrd := by decide

theorem ps_bodies_plain (tasks : List PsTask) :
    ∀ body ∈ tasks.map PsTask.body, '\n' ∉ body := by
  intro body member
  obtain ⟨task, -, rfl⟩ := List.mem_map.mp member
  exact body_no_newline task

theorem only_one_lists (sibl : Bool) {nodes : List Node} (brk : Nat) (old : List Node)
    (shows : List.Forall₂ (Shows sibl) tasks.reverse nodes) :
    ∃ others, (onlyOne ⟨nodes ++ old, brk, tasks.length⟩).pidlst = others ++ old ∧
      List.Forall₂ (Shows (sibl && tasks.length != 1)) tasks.reverse others := by
  by_cases single : tasks.length = 1
  · obtain ⟨task, rfl⟩ := List.length_eq_one_iff.mp single
    cases shows with
    | cons first rest =>
        cases rest
        obtain ⟨loc, at', rfl⟩ := first
        exact ⟨_, rfl, .cons ⟨loc, at', by simp⟩ .nil⟩
  · have same : (sibl && tasks.length != 1) = sibl := by simp [single]
    refine ⟨nodes, ?_, same.symm ▸ shows⟩
    rw [onlyOne]
    split
    · rename_i one _
      exact absurd one single
    · rfl

theorem get_pids_lists (printed : popen (psRequest tag) = some (psText tasks))
    (fits : ∀ task ∈ tasks, task.body.length + 1 < bufrd) :
    ∃ final, getPids popen (some tag) ppid found = .ok final ∧
      Lists ppid.isSome tasks found final := by
  have whole : fgetsLines bufrd (psText tasks).length (psText tasks) =
      tasks.map fun task => task.body ++ ['\n'] := by
    have read := fgets_lines_fit (ps_bodies_plain tasks)
      (List.forall_mem_map.mpr fits) (le_refl (psText tasks).length)
    rwa [List.map_map] at read
  obtain ⟨nodes, brk, run, shows⟩ := @found_lines_tasks ppid tasks { found with count := 0 }
  rw [Nat.zero_add] at run
  obtain ⟨others, list, all⟩ := only_one_lists ppid.isSome brk found.pidlst shows
  refine ⟨onlyOne ⟨nodes ++ found.pidlst, brk, tasks.length⟩, ?_, others, list, all⟩
  rw [getPids]
  simp only [printed, whole, run]
  rfl

/-- The number of nodes is that of the pieces, whatever `ps` printed. -/
theorem get_pids_pieces (printed : popen (psRequest tag) = some (psText tasks)) {final : Found}
    (run : getPids popen (some tag) ppid found = .ok final) :
    final.pidlst.length =
      found.pidlst.length + ((tasks.map PsTask.body).map (pieces bufrd)).sum := by
  rw [getPids] at run
  simp only [printed] at run
  obtain ⟨read, lines, last⟩ := bind_ok run
  cases last
  rw [only_one_length, found_lines_length _ lines]
  have counted := fgets_lines_pieces bufrd_room (ps_bodies_plain tasks)
    (le_refl (psText tasks).length)
  exact congrArg (found.pidlst.length + ·) counted

/-- The tasks `ps` lists are found as they are exactly when every line fits in the buffer. A
longer line counts as one task for each piece, unless a piece stops the program. -/
theorem get_pids_iff (printed : popen (psRequest tag) = some (psText tasks)) :
    ((∃ final, getPids popen (some tag) ppid found = .ok final ∧
        Lists ppid.isSome tasks found final) ↔
      ∀ task ∈ tasks, task.body.length + 1 < bufrd) ∧
    ∀ final, getPids popen (some tag) ppid found = .ok final →
      final.pidlst.length =
        found.pidlst.length + ((tasks.map PsTask.body).map (pieces bufrd)).sum := by
  refine ⟨⟨?_, get_pids_lists printed⟩, fun final run => get_pids_pieces printed run⟩
  · rintro ⟨final, run, nodes, list, shows⟩
    have length := get_pids_pieces printed run
    have same := shows.length_eq
    rw [list, List.length_append, ← same, List.length_reverse] at length
    have pieces' : ((tasks.map PsTask.body).map (pieces bufrd)).sum =
        (tasks.map PsTask.body).length := by
      rw [List.length_map]
      omega
    exact List.forall_mem_map.mp (pieces_eq_length bufrd_room pieces')

end Output

section Parents

/-- Numbers with this character between them. -/
def joined (sep : Char) (numbers : List Nat) : List Char :=
  List.intercalate [sep] (numbers.map (Nat.toDigits 10))

theorem joined_cons (sep : Char) (number next : Nat) (rest : List Nat) :
    joined sep (number :: next :: rest) =
      Nat.toDigits 10 number ++ sep :: joined sep (next :: rest) := by
  simp [joined, List.intercalate]

theorem joined_in_token {sep : Char} (plain : inToken sep = true) (numbers : List Nat) :
    ∀ c ∈ joined sep numbers, inToken c = true := by
  induction numbers with
  | nil => simp [joined]
  | cons number rest ih =>
      cases rest with
      | nil =>
          intro c member
          simp only [joined, List.intercalate, List.map_cons, List.map_nil,
            List.intersperse_singleton, List.flatten_cons, List.flatten_nil,
            List.append_nil] at member
          exact digits_in_token number c member
      | cons next rest =>
          intro c member
          rw [joined_cons] at member
          rcases List.mem_append.mp member with digit | later
          · exact digits_in_token number c digit
          · rcases List.mem_cons.mp later with rfl | inside
            · exact plain
            · exact ih c inside

theorem joined_replaced (numbers : List Nat) :
    (joined ' ' numbers).map (fun c => if c = ' ' then ',' else c) = joined ',' numbers := by
  have digits : ∀ number, (Nat.toDigits 10 number).map (fun c => if c = ' ' then ',' else c) =
      Nat.toDigits 10 number := by
    intro number
    rw [List.map_congr_left (g := id), List.map_id]
    intro c member
    have digit := Nat.isDigit_of_mem_toDigits (by decide) (by decide) member
    rw [if_neg]
    · rfl
    · rintro rfl
      exact absurd digit (by decide)
  induction numbers with
  | nil => rfl
  | cons number rest ih =>
      cases rest with
      | nil => simpa [joined, List.intercalate] using digits number
      | cons next rest =>
          rw [joined_cons, List.map_append, List.map_cons, ih, digits, joined_cons]
          rfl

theorem joined_length (numbers : List Nat) :
    (joined ',' numbers).length = (joined ' ' numbers).length := by
  rw [← joined_replaced, List.length_map]

/-- What `pidof` prints. -/
def pidofText (parents : List Nat) : List Char := joined ' ' parents ++ ['\n']

/-- The parents for `ps` are those `pidof` found exactly when they fit in the buffer; of a
longer list the end is missing, be it in the middle of a PID. -/
theorem parent_tag_iff (parents : List Nat) :
    (parentTag (pidofText parents)).map Prod.fst =
        some ("-T --ppid ".toList ++ joined ',' parents) ↔
      (pidofText parents).length < bufrd - 18 := by
  have plain : ∀ c ∈ joined ' ' parents, inToken c = true := joined_in_token rfl parents
  have noNewline : '\n' ∉ joined ' ' parents := fun member =>
    absurd (plain _ member) (by decide)
  have length : (pidofText parents).length = (joined ' ' parents).length + 1 := by
    rw [pidofText, List.length_append, List.length_singleton]
  rw [length]
  constructor
  · intro same
    by_contra long
    have cut : fgets (bufrd - 18) (joined ' ' parents ++ ['\n']) = some
        ((joined ' ' parents).take (bufrd - 18 - 1),
          (joined ' ' parents).drop (bufrd - 18 - 1) ++ ['\n']) :=
      fgets_cut noNewline (by omega)
    rw [parentTag, pidofText, cut] at same
    have lengths := congrArg List.length (Option.some.inj same)
    have shorter : (cstr ((joined ' ' parents).take (bufrd - 18 - 1))).length ≤ bufrd - 19 := by
      refine (List.takeWhile_sublist _).length_le.trans ?_
      rw [List.length_take]
      omega
    simp only [List.length_dropLast, List.length_append, List.length_map, joined_length] at lengths
    have buffer : bufrd = 1024 := rfl
    have option : "-T --ppid ".toList.length = 10 := rfl
    omega
  · intro fits
    have whole : cstr (joined ' ' parents ++ ['\n']) = joined ' ' parents ++ ['\n'] := by
      apply List.takeWhile_eq_self_iff.mpr
      intro c member
      rcases List.mem_append.mp member with inside | newline
      · have both := plain c inside
        simp only [inToken, Bool.and_eq_true] at both
        exact both.2
      · rw [List.mem_singleton.mp newline]
        rfl
    rw [parentTag, pidofText, fgets_fits noNewline fits]
    simp only [whole, List.map_append, joined_replaced, Option.map_some, Option.some.injEq]
    rw [← List.append_assoc]
    exact List.dropLast_concat

end Parents

section Scans
variable {popen : List Char → Option (List Char)} {tasks : List PsTask}

/-- The tasks the shell shows to a scan: those of a command, or those below the parents. -/
def Shown (popen : List Char → Option (List Char)) (tasks : List PsTask) : Update → Prop
  | .contPids => False
  | .cmdLinePids pidSignature => popen (psRequest pidSignature) = some (psText tasks)
  | .parentPids cont_ppidc => ∃ name parents, cont_ppidc = some name ∧
      popen ("pidof ".toList ++ name) = some (pidofText parents) ∧
      (pidofText parents).length < bufrd - 18 ∧
      popen (psRequest ("-T --ppid ".toList ++ joined ',' parents)) = some (psText tasks)

theorem ps_update_lists {update : Update} (shown : Shown popen tasks update)
    (fits : ∀ task ∈ tasks, task.body.length + 1 < bufrd) (found : Found) :
    ∃ sibl final, psUpdate popen update found = some (.ok final) ∧
      Lists sibl tasks found final := by
  cases update with
  | contPids => exact absurd shown id
  | cmdLinePids pidSignature =>
      obtain ⟨final, run, lists⟩ := @get_pids_lists popen pidSignature none tasks found shown fits
      exact ⟨false, final, congrArg some run, lists⟩
  | parentPids cont_ppidc =>
      obtain ⟨name, parents, rfl, asked, room, printed⟩ := shown
      obtain ⟨⟨tag, pidline⟩, made, same⟩ :=
        Option.map_eq_some_iff.mp ((parent_tag_iff parents).mpr room)
      obtain rfl : tag = _ := same
      obtain ⟨final, run, lists⟩ :=
        @get_pids_lists popen _ (some pidline) tasks found printed fits
      refine ⟨true, final, congrArg some ?_, lists⟩
      rw [getParentPids]
      simp only [asked, made]
      exact run

theorem shows_pids {sibl : Bool} {others : List PsTask} {nodes : List Node}
    (shows : List.Forall₂ (Shows sibl) others nodes) :
    nodes.map Node.pid = others.map fun task => (task.pid : Int) := by
  induction shows with
  | nil => rfl
  | cons first _ ih =>
      obtain ⟨loc, at', rfl⟩ := first
      rw [List.map_cons, List.map_cons, ih]

theorem shows_detected {sibl : Bool} {others : List PsTask} {nodes : List Node}
    (shows : List.Forall₂ (Shows sibl) others nodes)
    (distinct : (others.map PsTask.pid).Nodup) : Detected nodes := by
  have pushed : ∀ node ∈ nodes, ∃ task, Shows sibl task node := by
    intro node member
    obtain ⟨place, inside, rfl⟩ := List.getElem_of_mem member
    have within : place < others.length := by
      rw [shows.length_eq]
      exact inside
    exact ⟨_, (List.forall₂_iff_get.mp shows).2 place within inside⟩
  constructor
  · constructor
    · rw [shows_pids shows]
      have ints := distinct.map (f := fun pid : Nat => (pid : Int)) fun _ _ => Int.ofNat.inj
      rwa [List.map_map] at ints
    · intro node member
      obtain ⟨task, loc, at', rfl⟩ := pushed node member
      exact ⟨by simpa using task.positive, rfl, rfl⟩
  · intro node member
    obtain ⟨task, loc, at', rfl⟩ := pushed node member
    rfl

variable {κ : Type} {fp : Resmgnt.Rounding} {proc : Proc κ} {numa : Numa} {set : PrgSet}

theorem select_update_runs (useCgroup : DetMode) (psigscan : Bool) {cont_pidc : List Char}
    (cont_ppidc : Option (List Char)) (short : cont_pidc.length + 4 < cmdLen) :
    ∃ update, selectUpdate useCgroup psigscan cont_pidc cont_ppidc = .ok update := by
  have names : "-TC ".toList.length = 4 ∧ "-C ".toList.length = 3 := ⟨rfl, rfl⟩
  cases useCgroup with
  | cgrp => exact ⟨_, rfl⟩
  | cntpid => exact ⟨_, rfl⟩
  | cmdline =>
      rw [selectUpdate, if_neg]
      · exact ⟨_, rfl⟩
      · split_ifs
        · simp [cmdLen]
        · rw [List.length_append]
          omega
        · rw [List.length_append]
          omega

/-- From the shell to the list: in any state of a run, after a scan of what `ps` prints the
active tasks are those it printed, if the lines fit in the buffer. -/
theorem ps_scan_standing (reports : Bookkeeping.ReportsPeriods proc) {start managed : Managed κ}
    (empty : start.nhead = []) {known : List Int}
    (runs : Runs fp proc numa set start known managed) (psigscan : Bool) {cont_pidc : List Char}
    (cont_ppidc : Option (List Char)) (short : cont_pidc.length + 4 < cmdLen)
    (shown : ∀ update, selectUpdate set.useCgroup psigscan cont_pidc cont_ppidc = .ok update →
      Shown popen tasks update)
    (fits : ∀ task ∈ tasks, task.body.length + 1 < bufrd)
    (distinct : (tasks.map PsTask.pid).Nodup) :
    ∃ update found after calls,
      selectUpdate set.useCgroup psigscan cont_pidc cont_ppidc = .ok update ∧
      psUpdate popen update {} = some (.ok found) ∧
      scanNew proc.toKernel numa set (world managed) found.pidlst = .ok (after, calls) ∧
      Runs fp proc numa set start (found.pidlst.map Node.pid) (withWorld managed after) ∧
      ∀ pid : Int, 0 < pid →
        (pid ∈ pids (withWorld managed after) ↔ ∃ task ∈ tasks, pid = task.pid) := by
  obtain ⟨update, selected⟩ := select_update_runs set.useCgroup psigscan cont_ppidc short
  obtain ⟨sibl, found, read, nodes, list, shows⟩ :=
    ps_update_lists (shown update selected) fits {}
  rw [List.append_nil] at list
  have detected : Detected found.pidlst := by
    rw [list]
    refine shows_detected shows ?_
    rw [List.map_reverse, List.nodup_reverse]
    exact distinct
  have standing := standing_of_runs reports empty runs
  obtain ⟨after, calls, run, -⟩ := @scan_merged κ proc numa set managed _ standing.listed
    detected.toScanned
  have next := runs.scan detected run
  refine ⟨update, found, after, calls, selected, read, run, next, fun pid positive => ?_⟩
  rw [(standing_of_runs reports empty next).active pid positive, list, shows_pids shows]
  simp [eq_comm]

end Scans

section Sample

/-- Two tasks of a container. -/
def camera : PsTask where
  pad := 3
  pid := 4711
  command := "camera --rate 30".toList
  positive := by decide
  small := by decide
  some := by simp
  plain := by simp [inToken, nul]

def motor : PsTask where
  pad := 4
  pid := 815
  command := "motor".toList
  positive := by decide
  small := by decide
  some := by simp
  plain := by simp [inToken, nul]

/-- A shell with one shim, PID 42, and these tasks below it. -/
def shell (request : List Char) : Option (List Char) :=
  if request = "pidof containerd-shim".toList then some (pidofText [42])
  else if request = "ps h -o spid,command -T --ppid 42".toList then some (psText [camera, motor])
  else some []

theorem two_lines_found : ∃ final,
    getPids shell (some "-T --ppid 42".toList) (some "42".toList) {} = .ok final ∧
      Lists true [camera, motor] {} final :=
  (get_pids_iff (show shell (psRequest "-T --ppid 42".toList) = some (psText [camera, motor])
    by decide +kernel)).1.mpr (by decide)

/-- The scan by parents finds both. -/
theorem parents_scanned : ∃ after : Managed Unit,
    ∀ pid : Int, 0 < pid → (pid ∈ pids after ↔ ∃ task ∈ [camera, motor], pid = task.pid) := by
  obtain ⟨update, found, after, calls, -, -, -, -, active⟩ := @ps_scan_standing shell
    [camera, motor] Unit Resmgnt.exact RunTime.idleProc ⟨2, {0, 1}⟩ { useCgroup := .cntpid }
    RunTime.idle_reports ⟨[], {}, {}, ()⟩ _ rfl [] .start false [] (some "containerd-shim".toList)
    (by decide)
    (by
      rintro update ⟨⟩
      exact ⟨_, [42], rfl, by decide +kernel, by decide, by decide +kernel⟩)
    (by decide) (by decide)
  exact ⟨_, active⟩

end Sample

end Orchestrator.PsLines
