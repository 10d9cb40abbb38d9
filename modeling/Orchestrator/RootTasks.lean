import Orchestrator.DryRun
import Orchestrator.TaskFile

/-!
The tasks of the root group: their file goes through the loop that reads the containers'
task files, so what is asked to move is what that loop would have listed.
-/

namespace Orchestrator.RootTasks
open Orchdata Requests KernelFiles Environment Cstring ContPids
open DryRun (writes)
open TaskFile (Aligned read_loop_ready ready_start pushes)
open Requests.Program (Ends)

/-- The PIDs written to the tasks of a group, in order. -/
def moved (system : List Char) (trace : List (Exchange Request.Answer)) : List Int :=
  (writes trace).filterMap fun written =>
    if written.1 = system ++ "tasks".toList then some (atoi written.2) else none

theorem moved_append (system : List Char) (trace added : List (Exchange Request.Answer)) :
    moved system (trace ++ added) = moved system trace ++ moved system added := by
  rw [moved, writes, List.filterMap_append, List.filterMap_append]
  rfl

section Tokens

theorem digits_value_until (text : List Char) :
    digitsValue (text.takeWhile (· != nul)) = digitsValue text := by
  have inside : (fun c : Char => decide (c.isDigit = true ∧ (c != nul) = true)) =
      Char.isDigit := by
    funext c
    by_cases digit : c.isDigit
    · have other : c ≠ nul := by
        rintro rfl
        exact absurd digit (by decide)
      simp [digit, other]
    · simp [digit]
  rw [digitsValue, digitsValue, List.takeWhile_takeWhile, inside]

/-- A number ends at the end of the token. -/
theorem atoi_until (text : List Char) : atoi (text.takeWhile (· != nul)) = atoi text := by
  induction text with
  | nil => rfl
  | cons c rest ih =>
      by_cases ended : c = nul
      · subst ended
        rfl
      have whole := digits_value_until (c :: rest)
      have goes : (c :: rest).takeWhile (· != nul) = c :: rest.takeWhile (· != nul) :=
        List.takeWhile_cons_of_pos (by simp [ended])
      rw [goes] at whole ⊢
      by_cases blank : isspace c = true
      · rw [atoi, atoi, List.dropWhile_cons_of_pos blank, List.dropWhile_cons_of_pos blank]
        exact ih
      rw [atoi, atoi, List.dropWhile_cons_of_neg blank, List.dropWhile_cons_of_neg blank]
      by_cases minus : c = '-'
      · subst minus
        exact congrArg (fun value : Nat => -(value : Int)) (digits_value_until rest)
      by_cases plus : c = '+'
      · subst plus
        exact congrArg Nat.cast (digits_value_until rest)
      -- no sign on either side
      split
      · exact absurd (List.cons.inj ‹_›).1 minus
      · exact absurd (List.cons.inj ‹_›).1 plus
      · split
        · exact absurd (List.cons.inj ‹_›).1 minus
        · exact absurd (List.cons.inj ‹_›).1 plus
        · exact congrArg Nat.cast whole

end Tokens

/-- The two loops at the same place: the same buffer, and a write for each node. The list
grows at its head. -/
structure Beside (system : List Char) (old : List Int) (reader : Reader) (moving : Moving)
    (trace : List (Exchange Request.Answer)) : Prop where
  buf : moving.buf = reader.buf
  nleft : moving.nleft = reader.nleft
  pids : reader.pids = (moved system trace).reverse ++ old

section Steps
variable {set : Fixed} {system : List Char} {old : List Int}
  {E : Stop → List (Exchange Request.Answer) → Prop}
  (cmdline : Int → Option (List Char)) (name : List Char)

/-- The write of a token, whatever comes of it. -/
theorem set_tasks_ends (pushing : set.dry mskDrynotskpsh = false)
    (short : system.length + "tasks".toList.length + 1 ≤ pathMax) (value : List Char)
    (past : List (Exchange Request.Answer)) :
    (setkernvar system "tasks".toList value (set.dry mskDrynotskpsh)).Ends past
      (fun _ sofar => moved system sofar = moved system past ++ [atoi value]) E := by
  rw [pushing, setkernvar, if_neg Bool.false_ne_true, if_neg (Nat.not_lt.mpr short)]
  intro answer
  change moved system _ = _
  rw [moved_append]
  simp [moved, writes]

theorem move_lines_beside (pushing : set.dry mskDrynotskpsh = false)
    (short : system.length + "tasks".toList.length + 1 ≤ pathMax) (turns : Nat)
    {reader : Reader} {moving : Moving} {past : List (Exchange Request.Answer)}
    (beside : Beside system old reader moving past) (pid : Option Nat) (pid_ptr : Nat) :
    (moveLines set system turns moving pid pid_ptr).Ends past
      (fun value sofar =>
        value.2 = (parseLines cmdline name turns reader pid pid_ptr).2 ∧
          Beside system old (parseLines cmdline name turns reader pid pid_ptr).1 value.1 sofar)
      E := by
  induction turns generalizing reader moving past pid pid_ptr with
  | zero => exact ⟨rfl, beside⟩
  | succ turns ih =>
      cases pid with
      | none => exact ⟨rfl, beside⟩
      | some pid =>
          rw [moveLines, parseLines, beside.nleft]
          split_ifs with token
          · refine Ends.bind (set_tasks_ends pushing short _ past) fun _ sofar pushed => ?_
            dsimp only
            rw [beside.buf]
            refine ih ⟨rfl, ?_, ?_⟩ _ _
            · rfl
            · change (foundPid cmdline name reader pid).pids = _
              rw [found_pid_pids, beside.pids, pushed]
              simp [tokenAt, beside.buf, atoi_until]
          · exact ⟨rfl, beside⟩

theorem keep_left_beside {reader : Reader} {moving : Moving}
    {past : List (Exchange Request.Answer)} (beside : Beside system old reader moving past)
    (left : Option Nat) :
    (keepLeft moving left).Ends past
      (fun value sofar => ∃ next, copyLeft (resetSibl reader) left = .ok next ∧
        Beside system old next value sofar)
      fun stop _ => copyLeft (resetSibl reader) left = .error stop := by
  -- the sibling flag is the one step of the reader that moving has not
  have same : Beside system old (resetSibl reader) moving past :=
    ⟨by rw [reset_sibl_buf, beside.buf], by rw [reset_sibl_nleft, beside.nleft],
      by rw [reset_sibl_pids, beside.pids]⟩
  cases left with
  | none => exact ⟨_, rfl, same⟩
  | some pid =>
      rw [keepLeft, copyLeft, same.nleft]
      split_ifs with negative
      · rfl
      · exact ⟨_, rfl, by rw [same.buf], rfl, same.pids⟩

theorem move_window_beside (pushing : set.dry mskDrynotskpsh = false)
    (short : system.length + "tasks".toList.length + 1 ≤ pathMax)
    {reader : Reader} {moving : Moving} {past : List (Exchange Request.Answer)}
    (beside : Beside system old reader moving past) (got : List Char) :
    (moveWindow set system moving got).Ends past
      (fun value sofar => ∃ next, readWindow cmdline name reader got = .ok next ∧
        Beside system old next value sofar)
      fun stop _ => readWindow cmdline name reader got = .error stop := by
  rw [moveWindow, readWindow, beside.buf, beside.nleft]
  have start : Beside system old
      { reader with
        buf := (strtokR (readInto reader.buf reader.nleft.toNat got) 0).2.2
        nleft := reader.nleft + got.length }
      ⟨(strtokR (readInto reader.buf reader.nleft.toNat got) 0).2.2, reader.nleft + got.length⟩
      past := ⟨rfl, rfl, beside.pids⟩
  refine Ends.bind (move_lines_beside cmdline name pushing short bufrd start _ _) ?_
  rintro ⟨kept, left⟩ sofar ⟨same, after⟩
  dsimp only at same after ⊢
  rw [same]
  exact keep_left_beside after _

theorem move_loop_beside (pushing : set.dry mskDrynotskpsh = false)
    (short : system.length + "tasks".toList.length + 1 ≤ pathMax) (turns : Nat)
    (file : List Char) {reader : Reader} {moving : Moving}
    {past : List (Exchange Request.Answer)} (beside : Beside system old reader moving past) :
    (moveLoop set system turns file moving).Ends past
      (fun _ sofar => ∃ final, readLoop cmdline name turns file reader = .ok final ∧
        final.pids = (moved system sofar).reverse ++ old)
      fun stop _ => readLoop cmdline name turns file reader = .error stop := by
  -- both loops read the same bytes, for the buffer says how many are asked for
  induction turns generalizing file reader moving past with
  | zero => rfl
  | succ turns ih =>
      rw [moveLoop, readLoop, beside.nleft]
      split_ifs with outside
      · rfl
      · dsimp only
        split_ifs with ended
        · exact ⟨reader, rfl, beside.pids⟩
        · refine Program.ends_bind.mpr ((move_window_beside cmdline name
            pushing short beside _).mono ?_ ?_)
          · rintro next sofar ⟨window, read, after⟩
            rw [read]
            exact ih _ after
          · intro stop _ failed
            rw [failed]
            rfl

end Steps

section Runs
variable {set : Fixed} {system buf : List Char}

/-- The file is read at once; what follows is the loop over it. -/
theorem tasks_run_iff {file : List Char} {trace : List (Exchange Request.Answer)}
    {result : Except Stop Unit} :
    Program.Runs (moveTasks set system buf)
        (⟨.read (set.cgroupfilePath ++ "cpuset/tasks".toList), some file⟩ :: trace) result ↔
      Program.Runs (moveLoop set system (file.length + 1) file { buf := buf }) trace result := by
  constructor
  · rintro (_ | _ | ⟨answer, rest⟩)
    exact rest
  · intro rest
    rw [moveTasks]
    change Program.Runs (Program.ask _ _) _ _
    exact .ask _ rest

/-- Whatever the system answers: each task of the root group is asked into the group of the
system, in file order, exactly when the lines of the file are aligned. -/
theorem root_tasks_moved (pushing : set.dry mskDrynotskpsh = false)
    (short : system.length + "tasks".toList.length + 1 ≤ pathMax) {pids : List Nat}
    (small : ∀ pid ∈ pids, pid < 10000000) (sized : buf.length = bufrd)
    {trace : List (Exchange Request.Answer)} {result : Except Stop Unit}
    (run : Program.Runs (moveTasks set system buf)
      (⟨.read (set.cgroupfilePath ++ "cpuset/tasks".toList), some (lines pids)⟩ :: trace)
      result) :
    (result = .ok () ∧ moved system trace = pids.map Int.ofNat) ↔ Aligned 0 pids := by
  have start : Beside system [] { buf := buf } { buf := buf } [] := ⟨rfl, rfl, rfl⟩
  have fresh : ({ buf := buf } : Reader).buf.length = bufrd := sized
  have ends := Program.ends_runs.mp
    (move_loop_beside (fun _ => none) [] pushing short _ (lines pids) start) trace result
    (tasks_run_iff.mp run)
  rw [← read_loop_ready (fun _ => none) [] (fun pid member => width_le_seven (small pid member))
    (Nat.lt_succ_self _) (ready_start fresh)]
  cases result with
  | error stop =>
      refine iff_of_false (fun both => by cases both.1) ?_
      rintro ⟨final, read, -⟩
      cases ends.symm.trans read
  | ok value =>
      obtain ⟨final, read, all⟩ := ends
      rw [List.append_nil, List.nil_append] at all
      have none_listed : pushes pids (Reader.pids { buf := buf }) =
          (pids.map Int.ofNat).reverse := List.append_nil _
      constructor
      · rintro ⟨-, each⟩
        refine ⟨final, read, ?_⟩
        rw [all, each]
        exact none_listed.symm
      · rintro ⟨other, again, pushed⟩
        obtain rfl := Except.ok.inj (read.symm.trans again)
        exact ⟨rfl, List.reverse_injective (all.symm.trans (pushed.trans none_listed))⟩

/-- Three tasks of one, two and seven digits. -/
def threeTasks : List Char := lines [1, 10, 7654321]

def groupOfSystem : List Char := "/cgroup/cpuset/system/".toList

def pushingFlags : Fixed := { DryRun.dryShield.toFixed with dryrun := 0 }

def threeExchanges : List (Exchange Request.Answer) :=
  (Program.execute DryRun.idleSystem (moveLoop pushingFlags groupOfSystem
    (threeTasks.length + 1) threeTasks { buf := List.replicate bufrd nul }) ()).1

theorem three_tasks_move : moved groupOfSystem threeExchanges = [1, 10, 7654321] :=
  ((root_tasks_moved rfl (by decide) (by decide) List.length_replicate
    (tasks_run_iff.mpr (Program.execute_runs _ _ _))).mpr (by decide +kernel)).2

end Runs

end Orchestrator.RootTasks
