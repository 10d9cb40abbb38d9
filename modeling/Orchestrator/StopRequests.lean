import Orchestrator.ThreadStates

/-!
When the program comes to its end. `main` turns the states of the threads off once and
then waits for them: a thread that sets its state back afterwards is waited for in vain.
-/

namespace Orchestrator.StopRequests
open FairRuns Shutdown ThreadStates

inductive Party
  | main | manage | update
  deriving DecidableEq, Repr

/-- Whose turn it is. -/
def party : Act → Option Party
  | .main _ => some .main
  | .manage _ => some .manage
  | .update _ => some .update
  | .signal => none

/-- The calls for the time and to yield work. -/
def Works : Act → Prop
  | .update calls => calls.clock = true ∧ calls.yields = true
  | _ => True

/-- The program from its start on. -/
def runs (settings : Settings) (ftrace : Bool) (schedule : Nat → Act) : Nat → Sys :=
  states (step settings) { ftrace := ftrace } schedule

section Steps
variable (settings : Settings) {s : Sys}

/-- All a turn can do. -/
theorem step_cases (s : Sys) (act : Act) :
    step settings s act = s ∨
      (∃ created, act = .main created ∧ step settings s act = mainStep s created) ∨
      (∃ calls, act = .manage calls ∧ step settings s act = manageStep settings s calls) ∨
      (∃ calls, act = .update calls ∧ step settings s act = updateStep settings s calls) ∨
      step settings s act = s.raise := by
  unfold step
  split
  · exact Or.inl rfl
  · cases act with
    | main created => exact Or.inr (Or.inl ⟨created, rfl, rfl⟩)
    | manage calls => exact Or.inr (Or.inr (Or.inl ⟨calls, rfl, rfl⟩))
    | update calls => exact Or.inr (Or.inr (Or.inr (Or.inl ⟨calls, rfl, rfl⟩)))
    | signal => exact Or.inr (Or.inr (Or.inr (Or.inr rfl)))

theorem alive_of_handled (sound : Sound s) (handled : s.handled = true) : s.killed = false := by
  cases dead : s.killed
  · rfl
  · have unhandled := sound.main.killed dead
    rw [handled] at unhandled
    cases unhandled

/-- A turn while the program goes on. -/
theorem step_main (sound : Sound s) (created : Bool)
    (inside : s.main ∉ [.createManage, .createUpdate, .handlers, .returned]) :
    step settings s (.main created) = mainStep s created := by
  have alive := alive_of_handled sound (sound.main.handled.mp (by simp_all))
  unfold step
  rw [if_neg (by simp_all)]

theorem step_manage (sound : Sound s) (calls : ManageCalls)
    (inside : s.main ∉ [.createManage, .createUpdate, .handlers, .returned]) :
    step settings s (.manage calls) = manageStep settings s calls := by
  have alive := alive_of_handled sound (sound.main.handled.mp (by simp_all))
  unfold step
  rw [if_neg (by simp_all)]

theorem step_update (sound : Sound s) (calls : UpdateCalls)
    (inside : s.main ∉ [.createManage, .createUpdate, .handlers, .returned]) :
    step settings s (.update calls) = updateStep settings s calls := by
  have alive := alive_of_handled sound (sound.main.handled.mp (by simp_all))
  unfold step
  rw [if_neg (by simp_all)]

theorem returned_stays (act : Act) (returned : s.main = .returned) :
    step settings s act = s := by
  unfold step
  rw [if_pos (by simp [returned])]

/-- `main` gets behind its tests by the first of them. -/
theorem test_first (act : Act)
    (before : s.main ∉
      [.stopManage, .testUpdate, .stopUpdate, .joinManage, .joinUpdate, .returned]) :
    (step settings s act).main ∈
      [.stopManage, .testUpdate, .stopUpdate, .joinManage, .joinUpdate, .returned] →
    s.main = .testManage := by
  rcases step_cases settings s act with same | ⟨created, rfl, same⟩ | ⟨calls, rfl, same⟩ |
    ⟨calls, rfl, same⟩ | same <;> rw [same]
  · exact fun behind => absurd behind before
  · cases pc : s.main <;> simp only [mainStep, pc] at before ⊢ <;> (repeat' split) <;> simp_all
  · obtain ⟨_, _, _, _, _, _, writes, -⟩ := manage_writes settings s calls
    rw [writes]
    exact fun behind => absurd behind before
  · obtain ⟨_, _, _, _, _, _, _, _, _, writes, -⟩ := update_writes settings s calls
    rw [writes]
    exact fun behind => absurd behind before
  · obtain ⟨_, _, writes, -⟩ := raise_writes s
    rw [writes]
    exact fun behind => absurd behind before

/-- A thread that is on after `main` has passed its state stays on. -/
theorem manage_on_stays (sound : Sound s) (act : Act)
    (on : passedManage s.main ∧ s.tStat1 = 1) :
    passedManage (step settings s act).main ∧ (step settings s act).tStat1 = 1 := by
  obtain ⟨passed, one⟩ := on
  have pcs := sound.manage.on one
  rcases step_cases settings s act with same | ⟨created, rfl, same⟩ | ⟨calls, rfl, same⟩ |
    ⟨calls, rfl, same⟩ | same <;> rw [same]
  · exact ⟨passed, one⟩
  · cases pc : s.main <;> simp only [mainStep, pc] <;> (repeat' split) <;> simp_all [passedManage]
  · refine ⟨?_, ?_⟩
    · obtain ⟨_, _, _, _, _, _, writes, -⟩ := manage_writes settings s calls
      rwa [writes]
    · obtain ⟨_, _, started, -⟩ := start_trace_read_writes s settings.cpus calls.iret
      simp only [List.mem_cons, List.not_mem_nil, or_false] at pcs
      rcases pcs with pc | pc | pc | pc | pc <;> simp only [manageStep, pc, one]
      split
      · simp [started, one]
      · rfl
  · obtain ⟨_, _, _, _, _, _, _, _, _, writes, -⟩ := update_writes settings s calls
    rw [writes]
    exact ⟨passed, one⟩
  · obtain ⟨_, _, writes, -⟩ := raise_writes s
    rw [writes]
    exact ⟨passed, one⟩

theorem update_on_stays (sound : Sound s) {act : Act} (works : Works act)
    (on : passedUpdate s.main ∧ s.tStat2 = 1) :
    passedUpdate (step settings s act).main ∧ (step settings s act).tStat2 = 1 := by
  obtain ⟨passed, one⟩ := on
  have pcs := sound.update.on one
  rcases step_cases settings s act with same | ⟨created, rfl, same⟩ | ⟨calls, rfl, same⟩ |
    ⟨calls, rfl, same⟩ | same <;> rw [same]
  · exact ⟨passed, one⟩
  · cases pc : s.main <;> simp only [mainStep, pc] <;> (repeat' split) <;> simp_all [passedUpdate]
  · obtain ⟨_, _, _, _, _, _, writes, -⟩ := manage_writes settings s calls
    rw [writes]
    exact ⟨passed, one⟩
  · obtain ⟨clock, yields⟩ := works
    refine ⟨?_, ?_⟩
    · obtain ⟨_, _, _, _, _, _, _, _, _, writes, -⟩ := update_writes settings s calls
      rwa [writes]
    · obtain ⟨_, _, raised, -⟩ := raise_writes s
      simp only [List.mem_cons, List.not_mem_nil, or_false] at pcs
      rcases pcs with pc | pc | pc | pc | pc | pc <;>
        simp only [updateStep, pc, one, clock, yields] <;> (repeat' split) <;> simp_all
  · obtain ⟨_, _, writes, -⟩ := raise_writes s
    rw [writes]
    exact ⟨passed, one⟩

/-- A tracing thread that did not start stays in the list. -/
theorem unstarted_stays (act : Act) {iret : Int} (failed : iret ≠ 0)
    (listed : iret ∈ s.elistThead) : iret ∈ (step settings s act).elistThead := by
  rcases step_cases settings s act with same | ⟨created, rfl, same⟩ | ⟨calls, rfl, same⟩ |
    ⟨calls, rfl, same⟩ | same <;> rw [same]
  · exact listed
  · cases pc : s.main <;> simp only [mainStep, pc] <;> (repeat' split) <;> exact listed
  · cases pc : s.manage
    case tracers =>
      obtain ⟨_, _, started, -⟩ := start_trace_read_writes s settings.cpus calls.iret
      simp only [manageStep, pc, started]
      split
      · exact List.mem_append_right _ listed
      · exact listed
    case joinTracers =>
      simp only [manageStep, pc]
      split
      · exact listed
      · rename_i first rest list
        split
        · rename_i zero
          rw [list, List.mem_cons] at listed
          exact listed.resolve_left fun this => failed (this.trans zero)
        · exact listed
    all_goals
      simp only [manageStep, pc]
      (repeat' split) <;> exact listed
  · obtain ⟨_, _, _, _, _, _, _, _, _, writes, -⟩ := update_writes settings s calls
    rwa [writes]
  · obtain ⟨_, _, writes, -⟩ := raise_writes s
    rwa [writes]

end Steps

/-- The turns `thread_manage` still has to take once it is turned off. -/
def manageRank (cpus : Nat) (s : Sys) : Nat :=
  let threads := s.elistThead.length
  match s.manage with
  | .absent | .ended => 0
  | .test => if s.tStat1 = -99 then 1 else threads + 7
  | .joinTracers => if s.tStat1 = -99 then threads + 2 else threads + 8
  | .close => threads + 3
  | .stopping => threads + 4
  | .switch => if s.tStat1 = -99 then 2 else threads + 5
  | .clock => threads + 6
  | .sched => threads + 8
  | .stats => threads + 9
  | .tracers => threads + cpus + 10
  | .setup => threads + cpus + 11

def updateRank (s : Sys) : Nat :=
  match s.update with
  | .absent | .ended => 0
  | .test => if s.tStat2 = -99 then 1 else 9
  | .joinDocker => if s.tStat2 = -99 then 2 else 10
  | .close => 3
  | .stopping => 4
  | .switch => if s.tStat2 = -99 then 2 else 5
  | .elapsed | .clock => 6
  | .runtime => 7
  | .wait => 8
  | .normal => 10
  | .running => 11
  | .ticks => 12
  | .setup => 13

section Ranks
variable (settings : Settings) {s : Sys}

theorem manage_rank_lowered (calls : ManageCalls) (inv : ManageInv s)
    (off : s.tStat1 < 0) (off' : (manageStep settings s calls).tStat1 < 0)
    (started : ∀ iret ∈ s.elistThead, iret = 0) (active : s.manage ∉ [.absent, .ended]) :
    manageRank settings.cpus.length (manageStep settings s calls) <
      manageRank settings.cpus.length s := by
  have values := inv.values
  cases pc : s.manage with
  | absent | ended => simp [pc] at active
  | setup | sched => simp [manageStep, pc] at off'
  | switch =>
      simp only [List.mem_cons, List.not_mem_nil, or_false] at values
      rcases values with value | value | value | value | value <;>
        simp [value] at off <;> simp [manageStep, manageSwitch, manageRank, pc, value]
  | tracers =>
      obtain ⟨_, _, traced, -⟩ := start_trace_read_writes s settings.cpus calls.iret
      cases configured : calls.configured <;>
        simp [manageStep, pc, manageRank, configured, traced] <;> omega
  | joinTracers =>
      cases list : s.elistThead with
      | nil => simp only [manageStep, pc, list, manageRank]; split <;> simp
      | cons iret rest =>
          have zero : iret = 0 := started iret (by simp [list])
          simp only [manageStep, pc, list, zero, manageRank, if_true]
          split <;> simp
  | clock =>
      cases clock : calls.clock <;> simp [manageStep, pc, manageRank, clock]
      split <;> omega
  | stats =>
      cases updated : calls.updated <;> simp [manageStep, pc, manageRank, updated]
      split <;> omega
  | stopping => simp [manageStep, pc, manageRank]
  | close => cases traced : s.ftrace <;> simp [manageStep, pc, manageRank, traced]
  | test => by_cases last : s.tStat1 = -99 <;> simp [manageStep, pc, manageRank, last]

theorem update_rank_lowered (calls : UpdateCalls) (inv : UpdateInv s)
    (off : s.tStat2 < 0) (off' : (updateStep settings s calls).tStat2 < 0)
    (active : s.update ∉ [.absent, .ended]) :
    updateRank (updateStep settings s calls) < updateRank s := by
  have values := inv.values
  cases pc : s.update with
  | absent | ended => simp [pc] at active
  | running => simp [updateStep, pc] at off'
  | switch =>
      simp only [List.mem_cons, List.not_mem_nil, or_false] at values
      rcases values with value | value | value | value | value <;>
        simp [value] at off <;> simp [updateStep, updateSwitch, updateRank, pc, value]
  | ticks =>
      cases ticks : calls.ticks <;> simp [updateStep, startDockerThread, pc, updateRank, ticks]
      split <;> omega
  | joinDocker =>
      by_cases last : s.tStat2 = -99 <;> by_cases linked : s.iretDlink = 0 <;>
        simp [updateStep, stopDockerThread, pc, updateRank, last, linked]
  | elapsed =>
      obtain ⟨_, _, raised, -⟩ := raise_writes s
      by_cases expired : (!s.stop && calls.expired) = true
      · simp only [updateStep, pc, updateRank, expired, raised, if_true]
        split <;> omega
      · simp only [updateStep, pc, updateRank, expired, Bool.false_eq_true, if_false]
        split <;> omega
  | setup | stopping => simp [updateStep, pc, updateRank]
  | clock =>
      cases clock : calls.clock <;> simp [updateStep, pc, updateRank, clock]
      split <;> omega
  | normal => simp [updateStep, pc, updateRank]; split <;> omega
  | close => cases linked : s.dlinkOn <;> simp [updateStep, pc, updateRank, linked]
  | test => by_cases last : s.tStat2 = -99 <;> simp [updateStep, pc, updateRank, last]
  | wait =>
      cases deadline : settings.deadline <;> cases yields : calls.yields <;>
        cases runtime : settings.runtime <;>
        simp [updateStep, pc, updateRank, deadline, yields, runtime] <;> split <;> omega
  | runtime => cases clock : calls.clock <;> simp [updateStep, pc, updateRank, clock]

end Ranks

section Runs
variable {settings : Settings} {ftrace : Bool} {schedule : Nat → Act}

theorem runs_sound (time : Nat) : Sound (runs settings ftrace schedule time) :=
  always (start_sound ftrace) (fun _ act sound => step_sound settings sound act) time

theorem runs_next (time : Nat) : runs settings ftrace schedule (time + 1) =
    step settings (runs settings ftrace schedule time) (schedule time) := rfl

/-- `main` does not return beside what lasts and excludes it. -/
theorem never_returned (lasting : Sys → Prop) {time : Nat}
    (here : lasting (runs settings ftrace schedule time))
    (next : ∀ later, time ≤ later → lasting (runs settings ftrace schedule later) →
      lasting (runs settings ftrace schedule (later + 1)))
    (excludes : ∀ later, lasting (runs settings ftrace schedule later) →
      (runs settings ftrace schedule later).main ≠ .returned) (later : Nat) :
    (runs settings ftrace schedule later).main ≠ .returned := by
  intro returned
  have stays : (runs settings ftrace schedule (max time later)).main = .returned :=
    @holds_from _ (runs settings ftrace schedule) (fun s => s.main = .returned) later
      (fun moment _ there => by
        rwa [runs_next, returned_stays settings _ there]) returned _ (Nat.le_max_right time later)
  exact excludes _ (holds_from next here (Nat.le_max_left time later)) stays

theorem returned_tested {time : Nat}
    (returned : (runs settings ftrace schedule time).main = .returned) :
    ∃ before, (runs settings ftrace schedule before).main = .testManage := by
  obtain ⟨before, outside, behind⟩ := @first_step _ (runs settings ftrace schedule)
    (fun s => s.main ∈
      [.stopManage, .testUpdate, .stopUpdate, .joinManage, .joinUpdate, .returned])
    (by simp [runs, states]) time (by simp [returned])
  exact ⟨before, test_first settings (schedule before) outside behind⟩

theorem on_of_not_off {s : Sys} (inv : ManageInv s) (off : s.tStat1 ≠ 0)
    (not_off : ¬ s.tStat1 < 0) :
    s.tStat1 = 1 := by
  have values := inv.values
  simp only [List.mem_cons, List.not_mem_nil, or_false] at values
  omega

theorem returned_manage_off {moment : Nat}
    (returned : (runs settings ftrace schedule moment).main = .returned) (time : Nat)
    (passed : passedManage (runs settings ftrace schedule time).main) :
    (runs settings ftrace schedule time).tStat1 < 0 := by
  by_contra on
  have sound := @runs_sound settings ftrace schedule
  have one := on_of_not_off (sound time).manage ((sound time).main.offManage passed) on
  refine never_returned (fun s => passedManage s.main ∧ s.tStat1 = 1) ⟨passed, one⟩
    (fun later _ kept => manage_on_stays settings (sound later) (schedule later) kept) ?_ moment
    returned
  intro later kept back
  have ended := (sound later).main.joinedManage (by simp [back])
  have active := (sound later).manage.on kept.2
  simp only [List.mem_cons, List.not_mem_nil, or_false] at ended active
  rcases ended with pc | pc <;> simp [pc] at active

theorem returned_update_off (clocked : ∀ time,
      passedUpdate (runs settings ftrace schedule time).main → Works (schedule time))
    {moment : Nat} (returned : (runs settings ftrace schedule moment).main = .returned) (time : Nat)
    (passed : passedUpdate (runs settings ftrace schedule time).main) :
    (runs settings ftrace schedule time).tStat2 < 0 := by
  by_contra on
  have sound := @runs_sound settings ftrace schedule
  have one : (runs settings ftrace schedule time).tStat2 = 1 := by
    have values := (sound time).update.values
    have off := (sound time).main.offUpdate passed
    simp only [List.mem_cons, List.not_mem_nil, or_false] at values
    omega
  refine never_returned (fun s => passedUpdate s.main ∧ s.tStat2 = 1) ⟨passed, one⟩
    (fun later _ kept => update_on_stays settings (sound later) (clocked later kept.1) kept) ?_
    moment returned
  intro later kept back
  have ended := (sound later).main.joinedUpdate back
  have active := (sound later).update.on kept.2
  simp only [List.mem_cons, List.not_mem_nil, or_false] at ended active
  rcases ended with pc | pc <;> simp [pc] at active

theorem returned_started {moment : Nat}
    (returned : (runs settings ftrace schedule moment).main = .returned) (time : Nat) {iret : Int}
    (listed : iret ∈ (runs settings ftrace schedule time).elistThead) : iret = 0 := by
  by_contra failed
  have sound := @runs_sound settings ftrace schedule
  refine never_returned (fun s => iret ∈ s.elistThead) listed
    (fun later _ there => unstarted_stays settings (schedule later) failed there) ?_ moment returned
  intro later there back
  have ended := (sound later).main.joinedManage (by simp [back])
  have gone : (runs settings ftrace schedule later).elistThead = [] := by
    simp only [List.mem_cons, List.not_mem_nil, or_false] at ended
    rcases ended with pc | pc
    · exact (sound later).manage.early (by simp [pc])
    · exact (sound later).manage.ended pc
  rw [gone] at there
  cases there

/-- The turns of a fair party. -/
theorem main_turns (fair : ∀ who, Fair party schedule who) (time : Nat) :
    ∃ later, time ≤ later ∧ ∃ created, schedule later = .main created := by
  obtain ⟨later, after, turn⟩ := fair .main time
  refine ⟨later, after, ?_⟩
  cases act : schedule later with
  | main created => exact ⟨created, rfl⟩
  | _ => simp [act, party] at turn

theorem manage_turns (fair : ∀ who, Fair party schedule who) (time : Nat) :
    ∃ later, time ≤ later ∧ ∃ calls, schedule later = .manage calls := by
  obtain ⟨later, after, turn⟩ := fair .manage time
  refine ⟨later, after, ?_⟩
  cases act : schedule later with
  | manage calls => exact ⟨calls, rfl⟩
  | _ => simp [act, party] at turn

theorem update_turns (fair : ∀ who, Fair party schedule who) (time : Nat) :
    ∃ later, time ≤ later ∧ ∃ calls, schedule later = .update calls := by
  obtain ⟨later, after, turn⟩ := fair .update time
  refine ⟨later, after, ?_⟩
  cases act : schedule later with
  | update calls => exact ⟨calls, rfl⟩
  | _ => simp [act, party] at turn

/-- Only `main` itself moves `main`. -/
theorem main_stays (s : Sys) (act : Act) (other : ∀ created, act ≠ .main created) :
    (step settings s act).main = s.main := by
  rcases step_cases settings s act with same | ⟨created, rfl, same⟩ | ⟨calls, rfl, same⟩ |
    ⟨calls, rfl, same⟩ | same <;> rw [same]
  · exact absurd rfl (other created)
  · obtain ⟨_, _, _, _, _, _, writes, -⟩ := manage_writes settings s calls
    rw [writes]
  · obtain ⟨_, _, _, _, _, _, _, _, _, writes, -⟩ := update_writes settings s calls
    rw [writes]
  · obtain ⟨_, _, writes, -⟩ := raise_writes s
    rw [writes]

/-- Where `main` goes with its next turn, it gets to. -/
theorem main_moves (fair : ∀ who, Fair party schedule who) {begin : Nat} {here : MainPc}
    (there : List MainPc) (inside : here ∉ [.createManage, .createUpdate, .handlers, .returned])
    (at' : (runs settings ftrace schedule begin).main = here)
    (moves : ∀ time, begin ≤ time → (runs settings ftrace schedule time).main = here →
      ∀ created, (mainStep (runs settings ftrace schedule time) created).main ∈ there) :
    ∃ time, begin ≤ time ∧ (runs settings ftrace schedule time).main ∈ there := by
  have sound := @runs_sound settings ftrace schedule
  refine @reaches _ (runs settings ftrace schedule) _ (main_turns fair) (fun s => s.main = here)
    (fun s => s.main ∈ there) (fun _ => 0) begin ?_ at'
  intro time late kept _
  by_cases turn : ∃ created, schedule time = .main created
  · obtain ⟨created, act⟩ := turn
    left
    rw [runs_next, act, step_main settings (sound time) created (by rw [kept]; exact inside)]
    exact moves time late kept created
  · right
    refine ⟨?_, Nat.le_refl _, fun taken => absurd taken turn⟩
    rw [runs_next, main_stays _ _ fun created same => turn ⟨created, same⟩, kept]

/-- Behind its tests `main` comes to wait. -/
theorem main_waits (fair : ∀ who, Fair party schedule who) {begin : Nat}
    (tests : (runs settings ftrace schedule begin).main = .testManage) :
    ∃ time, (runs settings ftrace schedule time).main = .joinManage := by
  have second : ∃ time, (runs settings ftrace schedule time).main = .testUpdate := by
    obtain ⟨time, -, here⟩ := main_moves fair [.stopManage, .testUpdate] (by decide) tests (by
      intro time _ here created
      simp only [mainStep, here]
      split <;> simp)
    simp only [List.mem_cons, List.not_mem_nil, or_false] at here
    rcases here with here | here
    · obtain ⟨later, -, there⟩ := main_moves fair [.testUpdate] (by decide) here (by
        intro time _ here created
        simp [mainStep, here])
      exact ⟨later, by simpa using there⟩
    · exact ⟨time, here⟩
  obtain ⟨middle, tests'⟩ := second
  obtain ⟨time, -, here⟩ := main_moves fair [.stopUpdate, .joinManage] (by decide) tests' (by
    intro time _ here created
    simp only [mainStep, here]
    split <;> simp)
  simp only [List.mem_cons, List.not_mem_nil, or_false] at here
  rcases here with here | here
  · obtain ⟨later, -, there⟩ := main_moves fair [.joinManage] (by decide) here (by
      intro time _ here created
      simp [mainStep, here])
    exact ⟨later, by simpa using there⟩
  · exact ⟨time, here⟩

/-- While `main` waits for a thread only the thread's own turns change what its next
turns depend on. -/
theorem manage_kept {s : Sys} {act : Act} (other : ∀ calls, act ≠ .manage calls)
    (waits : s.main = .joinManage) (active : s.manage ∉ [.absent, .ended]) :
    (step settings s act).main = .joinManage ∧
      manageRank settings.cpus.length (step settings s act) =
        manageRank settings.cpus.length s := by
  rcases step_cases settings s act with same | ⟨created, rfl, same⟩ | ⟨calls, rfl, same⟩ |
    ⟨calls, rfl, same⟩ | same <;> rw [same]
  · exact ⟨waits, rfl⟩
  · have stays : mainStep s created = s := by
      simp only [mainStep, waits]
      split <;> simp_all
    rw [stays]
    exact ⟨waits, rfl⟩
  · exact absurd rfl (other calls)
  · obtain ⟨_, _, _, _, _, _, _, _, _, writes, -⟩ := update_writes settings s calls
    rw [writes]
    exact ⟨waits, rfl⟩
  · obtain ⟨_, _, writes, -⟩ := raise_writes s
    rw [writes]
    exact ⟨waits, rfl⟩

theorem update_kept {s : Sys} {act : Act} (other : ∀ calls, act ≠ .update calls)
    (waits : s.main = .joinUpdate) (active : s.update ∉ [.absent, .ended]) :
    (step settings s act).main = .joinUpdate ∧
      updateRank (step settings s act) = updateRank s := by
  rcases step_cases settings s act with same | ⟨created, rfl, same⟩ | ⟨calls, rfl, same⟩ |
    ⟨calls, rfl, same⟩ | same <;> rw [same]
  · exact ⟨waits, rfl⟩
  · have stays : mainStep s created = s := by
      simp only [mainStep, waits]
      split <;> simp_all
    rw [stays]
    exact ⟨waits, rfl⟩
  · obtain ⟨_, _, _, _, _, _, writes, -⟩ := manage_writes settings s calls
    rw [writes]
    exact ⟨waits, rfl⟩
  · exact absurd rfl (other calls)
  · obtain ⟨_, _, writes, -⟩ := raise_writes s
    rw [writes]
    exact ⟨waits, rfl⟩

theorem manage_ends (fair : ∀ who, Fair party schedule who) {begin : Nat}
    (waits : (runs settings ftrace schedule begin).main = .joinManage)
    (off : ∀ time, passedManage (runs settings ftrace schedule time).main →
      (runs settings ftrace schedule time).tStat1 < 0)
    (started : ∀ time, ∀ iret ∈ (runs settings ftrace schedule time).elistThead, iret = 0) :
    ∃ time, (runs settings ftrace schedule time).main = .joinManage ∧
      (runs settings ftrace schedule time).manage ∈ [.absent, .ended] := by
  have sound := @runs_sound settings ftrace schedule
  have ends := @reaches _ (runs settings ftrace schedule) _ (manage_turns fair)
    (fun s => s.main = .joinManage)
    (fun s => s.main = .joinManage ∧ s.manage ∈ [.absent, .ended])
    (manageRank settings.cpus.length) begin ?_ waits
  · obtain ⟨time, -, ended⟩ := ends
    exact ⟨time, ended⟩
  intro time _ here waiting
  have active : (runs settings ftrace schedule time).manage ∉ [.absent, .ended] :=
    fun ended => waiting ⟨here, ended⟩
  right
  by_cases turn : ∃ calls, schedule time = .manage calls
  · obtain ⟨calls, act⟩ := turn
    have off' := off (time + 1)
    rw [runs_next, act, step_manage settings (sound time) calls (by simp [here])] at off' ⊢
    have stays : (manageStep settings (runs settings ftrace schedule time) calls).main =
        .joinManage := by
      obtain ⟨_, _, _, _, _, _, writes, -⟩ :=
        manage_writes settings (runs settings ftrace schedule time) calls
      rw [writes, here]
    have lower := manage_rank_lowered settings calls (sound time).manage
      (off time (by simp [here, passedManage])) (off' (by simp [stays, passedManage]))
      (started time) active
    exact ⟨stays, lower.le, fun _ => lower⟩
  · obtain ⟨stays, same⟩ := @manage_kept settings _ (schedule time)
      (fun calls act => turn ⟨calls, act⟩) here active
    rw [runs_next]
    exact ⟨stays, same.le, fun taken => absurd taken turn⟩

theorem update_ends (fair : ∀ who, Fair party schedule who) {begin : Nat}
    (waits : (runs settings ftrace schedule begin).main = .joinUpdate)
    (off : ∀ time, passedUpdate (runs settings ftrace schedule time).main →
      (runs settings ftrace schedule time).tStat2 < 0) :
    ∃ time, (runs settings ftrace schedule time).main = .joinUpdate ∧
      (runs settings ftrace schedule time).update ∈ [.absent, .ended] := by
  have sound := @runs_sound settings ftrace schedule
  have ends := @reaches _ (runs settings ftrace schedule) _ (update_turns fair)
    (fun s => s.main = .joinUpdate)
    (fun s => s.main = .joinUpdate ∧ s.update ∈ [.absent, .ended]) updateRank begin ?_ waits
  · obtain ⟨time, -, ended⟩ := ends
    exact ⟨time, ended⟩
  intro time _ here waiting
  have active : (runs settings ftrace schedule time).update ∉ [.absent, .ended] :=
    fun ended => waiting ⟨here, ended⟩
  right
  by_cases turn : ∃ calls, schedule time = .update calls
  · obtain ⟨calls, act⟩ := turn
    have off' := off (time + 1)
    rw [runs_next, act, step_update settings (sound time) calls (by simp [here])] at off' ⊢
    have stays : (updateStep settings (runs settings ftrace schedule time) calls).main =
        .joinUpdate := by
      obtain ⟨_, _, _, _, _, _, _, _, _, writes, -⟩ :=
        update_writes settings (runs settings ftrace schedule time) calls
      rw [writes, here]
    have lower := update_rank_lowered settings calls (sound time).update
      (off time (by simp [here, passedUpdate])) (off' (by simp [stays, passedUpdate])) active
    exact ⟨stays, lower.le, fun _ => lower⟩
  · obtain ⟨stays, same⟩ := @update_kept settings _ (schedule time)
      (fun calls act => turn ⟨calls, act⟩) here active
    rw [runs_next]
    exact ⟨stays, same.le, fun taken => absurd taken turn⟩

/-- A thread that has ended is not started again. -/
theorem manage_idle_stays {s : Sys} (act : Act)
    (idle : passedManage s.main ∧ s.manage ∈ [.absent, .ended]) :
    passedManage (step settings s act).main ∧
      (step settings s act).manage ∈ [.absent, .ended] := by
  obtain ⟨passed, ended⟩ := idle
  rcases step_cases settings s act with same | ⟨created, rfl, same⟩ | ⟨calls, rfl, same⟩ |
    ⟨calls, rfl, same⟩ | same <;> rw [same]
  · exact ⟨passed, ended⟩
  · cases pc : s.main <;> simp only [mainStep, pc] <;> (repeat' split) <;> simp_all [passedManage]
  · rw [manage_step_idle settings calls ended]
    exact ⟨passed, ended⟩
  · obtain ⟨_, _, _, _, _, _, _, _, _, writes, -⟩ := update_writes settings s calls
    rw [writes]
    exact ⟨passed, ended⟩
  · obtain ⟨_, _, writes, -⟩ := raise_writes s
    rw [writes]
    exact ⟨passed, ended⟩

theorem update_idle_stays {s : Sys} (act : Act)
    (idle : passedUpdate s.main ∧ s.update ∈ [.absent, .ended]) :
    passedUpdate (step settings s act).main ∧
      (step settings s act).update ∈ [.absent, .ended] := by
  obtain ⟨passed, ended⟩ := idle
  rcases step_cases settings s act with same | ⟨created, rfl, same⟩ | ⟨calls, rfl, same⟩ |
    ⟨calls, rfl, same⟩ | same <;> rw [same]
  · exact ⟨passed, ended⟩
  · cases pc : s.main <;> simp only [mainStep, pc] <;> (repeat' split) <;> simp_all [passedUpdate]
  · obtain ⟨_, _, _, _, _, _, writes, -⟩ := manage_writes settings s calls
    rw [writes]
    exact ⟨passed, ended⟩
  · rw [update_step_idle settings calls ended]
    exact ⟨passed, ended⟩
  · obtain ⟨_, _, writes, -⟩ := raise_writes s
    rw [writes]
    exact ⟨passed, ended⟩

/-- Waiting for both threads comes to an end if both end. -/
theorem main_joins (fair : ∀ who, Fair party schedule who) {begin : Nat}
    (waits : (runs settings ftrace schedule begin).main = .joinManage)
    (idle : (runs settings ftrace schedule begin).manage ∈ [.absent, .ended]) :
    ∃ time, (runs settings ftrace schedule time).main = .joinUpdate := by
  obtain ⟨time, -, there⟩ := main_moves fair [.joinUpdate] (by decide) waits (by
    intro time late here created
    have stays := @holds_from _ (runs settings ftrace schedule)
      (fun s => passedManage s.main ∧ s.manage ∈ [ManagePc.absent, .ended]) begin
      (fun moment _ kept => manage_idle_stays (schedule moment) kept)
      ⟨by simp [waits, passedManage], idle⟩ time late
    obtain ⟨-, ended⟩ := stays
    simp only [List.mem_cons, List.not_mem_nil, or_false] at ended
    rcases ended with pc | pc <;> simp [mainStep, here, pc])
  exact ⟨time, by simpa using there⟩

theorem main_returns (fair : ∀ who, Fair party schedule who) {begin : Nat}
    (waits : (runs settings ftrace schedule begin).main = .joinUpdate)
    (idle : (runs settings ftrace schedule begin).update ∈ [.absent, .ended]) :
    ∃ time, (runs settings ftrace schedule time).main = .returned := by
  obtain ⟨time, -, there⟩ := main_moves fair [.returned] (by decide) waits (by
    intro time late here created
    have stays := @holds_from _ (runs settings ftrace schedule)
      (fun s => passedUpdate s.main ∧ s.update ∈ [UpdatePc.absent, .ended]) begin
      (fun moment _ kept => update_idle_stays (schedule moment) kept)
      ⟨by simp [waits, passedUpdate], idle⟩ time late
    obtain ⟨-, ended⟩ := stays
    simp only [List.mem_cons, List.not_mem_nil, or_false] at ended
    rcases ended with pc | pc <;> simp [mainStep, here, pc])
  exact ⟨time, by simpa using there⟩

/-- If the states stay off behind `main` and all tracing threads run, `main` returns. -/
theorem returns_of_off (fair : ∀ who, Fair party schedule who)
    (leaves : ∃ time, (runs settings ftrace schedule time).main = .testManage)
    (offManage : ∀ time, passedManage (runs settings ftrace schedule time).main →
      (runs settings ftrace schedule time).tStat1 < 0)
    (offUpdate : ∀ time, passedUpdate (runs settings ftrace schedule time).main →
      (runs settings ftrace schedule time).tStat2 < 0)
    (started : ∀ time, ∀ iret ∈ (runs settings ftrace schedule time).elistThead, iret = 0) :
    ∃ time, (runs settings ftrace schedule time).main = .returned := by
  obtain ⟨first, tests⟩ := leaves
  obtain ⟨second, waits⟩ := main_waits fair tests
  obtain ⟨third, waits', ended⟩ := manage_ends fair waits offManage started
  obtain ⟨fourth, joins⟩ := main_joins fair waits' ended
  obtain ⟨fifth, joins', ended'⟩ := update_ends fair joins offUpdate
  exact main_returns fair joins' ended'

/-- The program comes to its end if and only if `main` gets out of its loop, no thread
turns itself on again after `main` has passed its state, and every tracing thread could
be started. -/
theorem main_returns_iff (fair : ∀ who, Fair party schedule who)
    (clocked : ∀ time, passedUpdate (runs settings ftrace schedule time).main →
      Works (schedule time)) :
    (∃ time, (runs settings ftrace schedule time).main = .returned) ↔
      (∃ time, (runs settings ftrace schedule time).main = .testManage) ∧
      (∀ time, passedManage (runs settings ftrace schedule time).main →
        (runs settings ftrace schedule time).tStat1 < 0) ∧
      (∀ time, passedUpdate (runs settings ftrace schedule time).main →
        (runs settings ftrace schedule time).tStat2 < 0) ∧
      ∀ time, ∀ iret ∈ (runs settings ftrace schedule time).elistThead, iret = 0 := by
  constructor
  · rintro ⟨moment, returned⟩
    exact ⟨returned_tested returned, returned_manage_off returned,
      returned_update_off clocked returned, fun time _ => returned_started returned time⟩
  · rintro ⟨leaves, offManage, offUpdate, started⟩
    exact returns_of_off fair leaves offManage offUpdate started

end Runs

/-- The parties in turn, and a signal at 60. -/
def roundRobin (time : Nat) : Act :=
  if time = 60 then .signal
  else if time % 3 = 0 then .main true
  else if time % 3 = 1 then .manage { updated := false }
  else .update {}

theorem round_robin_fair (who : Party) : Fair party roundRobin who := by
  intro time
  cases who with
  | main =>
      refine ⟨3 * (time + 21), by omega, ?_⟩
      rw [roundRobin, if_neg (by omega), if_pos (by omega)]
      rfl
  | manage =>
      refine ⟨3 * (time + 21) + 1, by omega, ?_⟩
      rw [roundRobin, if_neg (by omega), if_neg (by omega), if_pos (by omega)]
      rfl
  | update =>
      refine ⟨3 * (time + 21) + 2, by omega, ?_⟩
      rw [roundRobin, if_neg (by omega), if_neg (by omega), if_neg (by omega)]
      rfl

theorem round_robin_works (time : Nat) : Works (roundRobin time) := by
  unfold roundRobin
  split
  · trivial
  · split
    · trivial
    · split
      · trivial
      · exact ⟨rfl, rfl⟩

/-- Two CPUs traced, no runtime set. -/
def twoTraced : Settings := ⟨[0, 1], false, false⟩

/-- In the turns that end the program `main` left its loop, no thread turned itself on
again, and all tracing threads ran. -/
theorem round_robin_stays_off :
    (∃ time, (runs twoTraced true roundRobin time).main = .testManage) ∧
      (∀ time, passedManage (runs twoTraced true roundRobin time).main →
        (runs twoTraced true roundRobin time).tStat1 < 0) ∧
      (∀ time, passedUpdate (runs twoTraced true roundRobin time).main →
        (runs twoTraced true roundRobin time).tStat2 < 0) ∧
      ∀ time, ∀ iret ∈ (runs twoTraced true roundRobin time).elistThead, iret = 0 :=
  (main_returns_iff round_robin_fair fun time _ => round_robin_works time).mp
    ⟨120, by decide +kernel⟩

end Orchestrator.StopRequests
