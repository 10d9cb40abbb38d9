import Orchestrator.StopRequests

/-!
Stops that find the threads at rest, and what is left of the threads at the end.
-/

namespace Orchestrator.ThreadEnds
open FairRuns Shutdown ThreadStates StopRequests

section Quiet
variable (settings : Settings) {s : Sys}

/-- `thread_manage` may yet set its state to 1 without reading it again. -/
def setsManage (pc : ManagePc) : Prop := pc ∈ [.setup, .tracers, .stats, .sched]

def setsUpdate (pc : UpdatePc) : Prop := pc ∈ [.setup, .ticks, .running]

instance (pc : ManagePc) : Decidable (setsManage pc) := inferInstanceAs (Decidable (pc ∈ _))

instance (pc : UpdatePc) : Decidable (setsUpdate pc) := inferInstanceAs (Decidable (pc ∈ _))

theorem manage_quiet_step (calls : ManageCalls)
    (quiet : s.tStat1 < 0 ∧ ¬ setsManage s.manage) :
    (manageStep settings s calls).tStat1 < 0 ∧
      ¬ setsManage (manageStep settings s calls).manage := by
  obtain ⟨off, rests⟩ := quiet
  have zero : s.tStat1 ≠ 0 := by omega
  have one : s.tStat1 ≠ 1 := by omega
  have two : s.tStat1 ≠ 2 := by omega
  cases pc : s.manage <;> simp only [manageStep, manageSwitch, pc, zero, one, two, if_false] <;>
    (repeat' split) <;> simp_all [setsManage]

theorem update_quiet_step (calls : UpdateCalls)
    (quiet : s.tStat2 < 0 ∧ ¬ setsUpdate s.update) :
    (updateStep settings s calls).tStat2 < 0 ∧
      ¬ setsUpdate (updateStep settings s calls).update := by
  obtain ⟨off, rests⟩ := quiet
  have zero : s.tStat2 ≠ 0 := by omega
  have one : s.tStat2 ≠ 1 := by omega
  obtain ⟨_, _, raised, -⟩ := raise_writes s
  cases pc : s.update <;>
    simp only [updateStep, updateSwitch, stopDockerThread, pc, zero, one, if_false] <;>
    (repeat' split) <;> simp_all [setsUpdate]

/-- `main` passes a state that is off, or turns it off. -/
theorem main_passes_manage (created : Bool) (before : ¬ passedManage s.main)
    (passed : passedManage (mainStep s created).main) :
    (mainStep s created).tStat1 < 0 ∧ (mainStep s created).manage = s.manage := by
  revert passed before
  cases pc : s.main <;> simp only [mainStep, pc] <;> (repeat' split) <;> simp_all [passedManage]
  omega

theorem main_passes_update (created : Bool) (before : ¬ passedUpdate s.main)
    (passed : passedUpdate (mainStep s created).main) :
    (mainStep s created).tStat2 < 0 ∧ (mainStep s created).update = s.update := by
  revert passed before
  cases pc : s.main <;> simp only [mainStep, pc] <;> (repeat' split) <;> simp_all [passedUpdate]
  omega

/-- Off and at rest is how a thread stays once `main` has passed its state, if it was at
rest when `main` did. -/
theorem manage_rest_kept (act : Act)
    (here : passedManage s.main → s.tStat1 < 0 ∧ ¬ setsManage s.manage)
    (passing : ¬ passedManage s.main → passedManage (step settings s act).main →
      ¬ setsManage s.manage)
    (passed : passedManage (step settings s act).main) :
    (step settings s act).tStat1 < 0 ∧ ¬ setsManage (step settings s act).manage := by
  by_cases before : passedManage s.main
  · obtain ⟨off, rests⟩ := here before
    rcases step_cases settings s act with same | ⟨created, rfl, same⟩ | ⟨calls, rfl, same⟩ |
      ⟨calls, rfl, same⟩ | same <;> rw [same]
    · exact ⟨off, rests⟩
    · cases pc : s.main <;> simp only [mainStep, pc] <;> (repeat' split) <;>
        simp_all [passedManage]
    · exact manage_quiet_step settings calls ⟨off, rests⟩
    · obtain ⟨_, _, _, _, _, _, _, _, _, writes, -⟩ := update_writes settings s calls
      rw [writes]
      exact ⟨off, rests⟩
    · obtain ⟨_, _, writes, -⟩ := raise_writes s
      rw [writes]
      exact ⟨off, rests⟩
  · have rests := passing before passed
    by_cases turn : ∃ created, act = .main created
    · obtain ⟨created, rfl⟩ := turn
      rcases step_cases settings s (.main created) with same | ⟨_, act, same⟩ | ⟨_, act, _⟩ |
        ⟨_, act, _⟩ | same
      · rw [same] at passed
        exact absurd passed before
      · cases act
        rw [same] at passed ⊢
        obtain ⟨off, there⟩ := main_passes_manage created before passed
        exact ⟨off, by rwa [there]⟩
      · cases act
      · cases act
      · obtain ⟨_, _, writes, -⟩ := raise_writes s
        rw [same, writes] at passed
        exact absurd passed before
    · rw [main_stays s act fun created same => turn ⟨created, same⟩] at passed
      exact absurd passed before

theorem update_rest_kept (act : Act)
    (here : passedUpdate s.main → s.tStat2 < 0 ∧ ¬ setsUpdate s.update)
    (passing : ¬ passedUpdate s.main → passedUpdate (step settings s act).main →
      ¬ setsUpdate s.update)
    (passed : passedUpdate (step settings s act).main) :
    (step settings s act).tStat2 < 0 ∧ ¬ setsUpdate (step settings s act).update := by
  by_cases before : passedUpdate s.main
  · obtain ⟨off, rests⟩ := here before
    rcases step_cases settings s act with same | ⟨created, rfl, same⟩ | ⟨calls, rfl, same⟩ |
      ⟨calls, rfl, same⟩ | same <;> rw [same]
    · exact ⟨off, rests⟩
    · cases pc : s.main <;> simp only [mainStep, pc] <;> (repeat' split) <;>
        simp_all [passedUpdate]
    · obtain ⟨_, _, _, _, _, _, writes, -⟩ := manage_writes settings s calls
      rw [writes]
      exact ⟨off, rests⟩
    · exact update_quiet_step settings calls ⟨off, rests⟩
    · obtain ⟨_, _, writes, -⟩ := raise_writes s
      rw [writes]
      exact ⟨off, rests⟩
  · have rests := passing before passed
    by_cases turn : ∃ created, act = .main created
    · obtain ⟨created, rfl⟩ := turn
      rcases step_cases settings s (.main created) with same | ⟨_, act, same⟩ | ⟨_, act, _⟩ |
        ⟨_, act, _⟩ | same
      · rw [same] at passed
        exact absurd passed before
      · cases act
        rw [same] at passed ⊢
        obtain ⟨off, there⟩ := main_passes_update created before passed
        exact ⟨off, by rwa [there]⟩
      · cases act
      · cases act
      · obtain ⟨_, _, writes, -⟩ := raise_writes s
        rw [same, writes] at passed
        exact absurd passed before
    · rw [main_stays s act fun created same => turn ⟨created, same⟩] at passed
      exact absurd passed before

/-- Every tracing thread the turn starts can be started. -/
def Starts : Act → Prop
  | .manage calls => ∀ cpu, calls.iret cpu = 0
  | _ => True

theorem started_kept {act : Act} (starts : Starts act)
    (started : ∀ iret ∈ s.elistThead, iret = 0) :
    ∀ iret ∈ (step settings s act).elistThead, iret = 0 := by
  rcases step_cases settings s act with same | ⟨created, rfl, same⟩ | ⟨calls, rfl, same⟩ |
    ⟨calls, rfl, same⟩ | same <;> rw [same]
  · exact started
  · cases pc : s.main <;> simp only [mainStep, pc] <;> (repeat' split) <;> exact started
  · cases pc : s.manage
    case tracers =>
      obtain ⟨_, _, traced, -⟩ := start_trace_read_writes s settings.cpus calls.iret
      simp only [manageStep, pc, traced]
      split
      · intro iret member
        rcases List.mem_append.mp member with new | old
        · obtain ⟨cpu, -, rfl⟩ := List.mem_map.mp (List.mem_reverse.mp new)
          exact starts cpu
        · exact started iret old
      · exact started
    case joinTracers =>
      simp only [manageStep, pc]
      split
      · exact started
      · rename_i first rest list
        split
        · exact fun iret member => started iret (by rw [list]; exact List.mem_cons_of_mem _ member)
        · exact started
    all_goals
      simp only [manageStep, pc]
      (repeat' split) <;> exact started
  · obtain ⟨_, _, _, _, _, _, _, _, _, writes, -⟩ := update_writes settings s calls
    rwa [writes]
  · obtain ⟨_, _, writes, -⟩ := raise_writes s
    rwa [writes]

end Quiet

section Runs
variable {settings : Settings} {ftrace : Bool} {schedule : Nat → Act}

theorem told_stays {begin : Nat} (told : (runs settings ftrace schedule begin).mainStop = true)
    {time : Nat} (later : begin ≤ time) :
    (runs settings ftrace schedule time).mainStop = true := by
  refine @holds_from _ (runs settings ftrace schedule) (fun s => s.mainStop = true) begin
    (fun time _ told => ?_) told time later
  rw [runs_next]
  generalize runs settings ftrace schedule time = s at told ⊢
  generalize schedule time = act
  rcases step_cases settings s act with same | ⟨created, rfl, same⟩ | ⟨calls, rfl, same⟩ |
    ⟨calls, rfl, same⟩ | same <;> rw [same]
  · exact told
  · cases pc : s.main <;> simp only [mainStep, pc] <;> (repeat' split) <;> exact told
  · obtain ⟨_, _, _, _, _, _, writes, -, -, kept⟩ := manage_writes settings s calls
    rw [writes]
    exact kept told
  · obtain ⟨_, _, _, _, _, _, _, _, _, writes, -, -, kept⟩ := update_writes settings s calls
    rw [writes]
    exact kept told
  · obtain ⟨_, _, writes, -, -, kept⟩ := raise_writes s
    rw [writes]
    exact kept told

/-- A signal gets `main` out of its loop. -/
theorem told_leaves (fair : ∀ who, Fair party schedule who) {begin : Nat}
    (told : (runs settings ftrace schedule begin).mainStop = true) :
    ∃ time, (runs settings ftrace schedule time).main = .testManage := by
  have sound := @runs_sound settings ftrace schedule
  have handled := ((sound begin).main.handled.mpr ((sound begin).main.signalled told))
  by_cases behind : (runs settings ftrace schedule begin).main ∈
      [.stopManage, .testUpdate, .stopUpdate, .joinManage, .joinUpdate, .returned]
  · obtain ⟨before, outside, inside⟩ := @first_step _ (runs settings ftrace schedule)
      (fun s => s.main ∈
        [.stopManage, .testUpdate, .stopUpdate, .joinManage, .joinUpdate, .returned])
      (by simp [runs, states]) begin behind
    exact ⟨before, test_first settings (schedule before) outside inside⟩
  · have polls : ∀ {start : Nat}, begin ≤ start →
        (runs settings ftrace schedule start).main = .poll →
        ∃ time, (runs settings ftrace schedule time).main = .testManage := by
      intro start late here
      obtain ⟨time, -, there⟩ := main_moves fair [.testManage] (by decide) here (by
        intro time later here created
        simp [mainStep, here, told_stays told (Nat.le_trans late later)])
      exact ⟨time, by simpa using there⟩
    have updates : ∀ {start : Nat}, begin ≤ start →
        (runs settings ftrace schedule start).main = .pollUpdate →
        ∃ time, (runs settings ftrace schedule time).main = .testManage := by
      intro start late here
      obtain ⟨time, later, there⟩ := main_moves fair [.poll, .testManage] (by decide) here (by
        intro time _ here created
        simp only [mainStep, here]
        split <;> simp)
      simp only [List.mem_cons, List.not_mem_nil, or_false] at there
      rcases there with there | there
      · exact polls (Nat.le_trans late later) there
      · exact ⟨time, there⟩
    cases here : (runs settings ftrace schedule begin).main
    case poll => exact polls (Nat.le_refl _) here
    case pollUpdate => exact updates (Nat.le_refl _) here
    case testManage => exact ⟨begin, here⟩
    case pollManage =>
      obtain ⟨time, later, there⟩ := main_moves fair [.poll, .pollUpdate] (by decide) here (by
        intro time _ here created
        simp only [mainStep, here]
        split <;> simp)
      simp only [List.mem_cons, List.not_mem_nil, or_false] at there
      rcases there with there | there
      · exact polls later there
      · exact updates later there
    all_goals simp [here] at behind handled

/-- A stop that finds both threads at rest, and all tracing threads started, ends the
program. -/
theorem quiet_stop_returns (fair : ∀ who, Fair party schedule who)
    (told : ∃ time, (runs settings ftrace schedule time).mainStop = true)
    (manageRests : ∀ time, ¬ passedManage (runs settings ftrace schedule time).main →
      passedManage (runs settings ftrace schedule (time + 1)).main →
      ¬ setsManage (runs settings ftrace schedule time).manage)
    (updateRests : ∀ time, ¬ passedUpdate (runs settings ftrace schedule time).main →
      passedUpdate (runs settings ftrace schedule (time + 1)).main →
      ¬ setsUpdate (runs settings ftrace schedule time).update)
    (starts : ∀ time, Starts (schedule time)) :
    ∃ time, (runs settings ftrace schedule time).main = .returned := by
  obtain ⟨begin, told⟩ := told
  have manageOff : ∀ time, passedManage (runs settings ftrace schedule time).main →
      (runs settings ftrace schedule time).tStat1 < 0 ∧
        ¬ setsManage (runs settings ftrace schedule time).manage := by
    intro time
    induction time with
    | zero => simp [runs, states, passedManage]
    | succ time ih => exact manage_rest_kept settings (schedule time) ih (manageRests time)
  have updateOff : ∀ time, passedUpdate (runs settings ftrace schedule time).main →
      (runs settings ftrace schedule time).tStat2 < 0 ∧
        ¬ setsUpdate (runs settings ftrace schedule time).update := by
    intro time
    induction time with
    | zero => simp [runs, states, passedUpdate]
    | succ time ih => exact update_rest_kept settings (schedule time) ih (updateRests time)
  have started : ∀ time, ∀ iret ∈ (runs settings ftrace schedule time).elistThead, iret = 0 := by
    intro time
    induction time with
    | zero => simp [runs, states]
    | succ time ih => exact started_kept settings (starts time) ih
  exact returns_of_off fair (told_leaves fair told) (fun time passed => (manageOff time passed).1)
    (fun time passed => (updateOff time passed).1) started

theorem passed_update_stays {begin : Nat}
    (passed : passedUpdate (runs settings ftrace schedule begin).main) {time : Nat}
    (later : begin ≤ time) : passedUpdate (runs settings ftrace schedule time).main := by
  refine @holds_from _ (runs settings ftrace schedule) (fun s => passedUpdate s.main) begin
    (fun time _ passed => ?_) passed time later
  rw [runs_next]
  by_cases turn : ∃ created, schedule time = .main created
  · obtain ⟨created, act⟩ := turn
    generalize runs settings ftrace schedule time = s at passed ⊢
    rw [act]
    rcases step_cases settings s (.main created) with same | ⟨_, act, same⟩ | ⟨_, act, _⟩ |
      ⟨_, act, _⟩ | same
    · rwa [same]
    · cases act
      rw [same]
      cases pc : s.main <;> simp only [mainStep, pc] <;> (repeat' split) <;>
        simp_all [passedUpdate]
    · cases act
    · cases act
    · obtain ⟨_, _, writes, -⟩ := raise_writes s
      rwa [same, writes]
  · rwa [main_stays _ _ fun created act => turn ⟨created, act⟩]

end Runs

theorem round_robin_returns : ∃ time, (runs twoTraced true roundRobin time).main = .returned := by
  have early : ∀ time < 80,
      (¬ passedManage (runs twoTraced true roundRobin time).main →
        passedManage (runs twoTraced true roundRobin (time + 1)).main →
        ¬ setsManage (runs twoTraced true roundRobin time).manage) ∧
      (¬ passedUpdate (runs twoTraced true roundRobin time).main →
        passedUpdate (runs twoTraced true roundRobin (time + 1)).main →
        ¬ setsUpdate (runs twoTraced true roundRobin time).update) := by
    decide +kernel
  have late : ∀ time, 80 ≤ time → passedUpdate (runs twoTraced true roundRobin time).main :=
    fun time later => @passed_update_stays _ _ _ 80 (by decide +kernel) time later
  have both : ∀ pc, passedUpdate pc → passedManage pc := fun _ passed =>
    List.mem_cons_of_mem _ (List.mem_cons_of_mem _ passed)
  refine quiet_stop_returns round_robin_fair ⟨61, by decide +kernel⟩ ?_ ?_ ?_
  · intro time before
    by_cases soon : time < 80
    · exact (early time soon).1 before
    · exact absurd (both _ (late time (by omega))) before
  · intro time before
    by_cases soon : time < 80
    · exact (early time soon).2 before
    · exact absurd (late time (by omega)) before
  · intro time
    unfold roundRobin
    split
    · trivial
    · split
      · trivial
      · split
        · exact fun _ => rfl
        · trivial

/-- The docker link thread while the clock works: it is stopped behind the test of `main`,
and not twice. -/
structure LinkInv (s : Sys) : Prop where
  once : s.misuse = false
  joined : s.docker = .joined → s.update ∈ [.test, .ended] ∧ s.tStat2 = -99 ∧ passedUpdate s.main
  joining : s.update = .joinDocker → s.tStat2 = -99 ∧ passedUpdate s.main
  running : s.docker = .running → s.tStat2 = 1 ∨ s.update = .running ∨ passedUpdate s.main
  ended : s.update = .ended → s.docker ≠ .running

section Orderly
variable {settings : Settings} {s : Sys}

theorem update_step_link {calls : UpdateCalls} (works : Works (.update calls))
    (sound : Sound s) (inv : LinkInv s) : LinkInv (updateStep settings s calls) := by
  obtain ⟨clock, yields⟩ := works
  obtain ⟨values, fresh, early, starting, on, linked, link, off⟩ := sound.update
  have kept := inv
  obtain ⟨once, joined, joining, running, ended⟩ := inv
  simp only [List.mem_cons, List.not_mem_nil, or_false] at values fresh early starting on joined
  cases pc : s.update with
  | absent | ended => simpa only [updateStep, pc] using kept
  | elapsed =>
      obtain ⟨_, _, raised, -⟩ := raise_writes s
      simp only [updateStep, pc, raised]
      split <;> constructor <;> simp_all
  | switch =>
      simp only [updateStep, pc, updateSwitch]
      rcases values with value | value | value | value | value <;> constructor <;> simp_all
  | ticks =>
      simp only [updateStep, pc, startDockerThread]
      (repeat' split) <;> constructor <;> simp_all
  | joinDocker =>
      simp only [updateStep, pc, stopDockerThread]
      split <;> constructor <;> simp_all
  | close =>
      have passed : s.dlinkOn = true → passedUpdate s.main := by
        intro linkOn
        cases docker : s.docker with
        | absent => exact absurd docker (link linkOn)
        | running => simpa [pc, mt on (by simp [pc])] using running docker
        | joined => exact (joined docker).2.2
      simp only [updateStep, pc]
      split <;> constructor <;> simp_all
  | clock | setup | running | normal | stopping | test | wait | runtime =>
      simp only [updateStep, pc]
      (repeat' split) <;> constructor <;> simp_all

theorem main_step_link (created : Bool) (sound : Sound s) (inv : LinkInv s) :
    LinkInv (mainStep s created) := by
  have before := sound.main.beginUpdate
  have early := sound.update.early
  obtain ⟨once, joined, joining, running, ended⟩ := inv
  cases pc : s.main <;> simp only [mainStep, pc] <;> (repeat' split) <;> constructor <;>
    simp_all [passedUpdate]

theorem step_link {act : Act} (works : Works act) (sound : Sound s) (inv : LinkInv s) :
    LinkInv (step settings s act) := by
  rcases step_cases settings s act with same | ⟨created, rfl, same⟩ | ⟨calls, rfl, same⟩ |
    ⟨calls, rfl, same⟩ | same <;> rw [same]
  · exact inv
  · exact main_step_link created sound inv
  · obtain ⟨_, _, _, _, _, _, writes, -⟩ := manage_writes settings s calls
    rw [writes]
    exact { inv with }
  · exact update_step_link works sound inv
  · obtain ⟨_, _, writes, -⟩ := raise_writes s
    rw [writes]
    exact { inv with }

/-- While the clock works the docker link thread is not signalled once it is joined, and
when `main` returns none of the other threads is left. -/
theorem orderly_end {ftrace : Bool} {schedule : Nat → Act} (works : ∀ time, Works (schedule time))
    (time : Nat) :
    (runs settings ftrace schedule time).misuse = false ∧
      ((runs settings ftrace schedule time).main = .returned →
        (runs settings ftrace schedule time).elistThead = [] ∧
          (runs settings ftrace schedule time).docker ≠ .running) := by
  have link : LinkInv (runs settings ftrace schedule time) := by
    induction time with
    | zero => constructor <;> simp [runs, states]
    | succ time ih => exact step_link (works time) (runs_sound time) ih
  have sound := @runs_sound settings ftrace schedule time
  refine ⟨link.once, fun returned => ⟨?_, ?_⟩⟩
  · have ended := sound.main.joinedManage (by simp [returned])
    simp only [List.mem_cons, List.not_mem_nil, or_false] at ended
    rcases ended with pc | pc
    · exact sound.manage.early (by simp [pc])
    · exact sound.manage.ended pc
  · have ended := sound.main.joinedUpdate returned
    simp only [List.mem_cons, List.not_mem_nil, or_false] at ended
    rcases ended with pc | pc
    · simp [sound.update.early (by simp [pc])]
    · exact link.ended pc

theorem round_robin_orderly :
    (runs twoTraced true roundRobin 120).misuse = false ∧
      ((runs twoTraced true roundRobin 120).main = .returned →
        (runs twoTraced true roundRobin 120).elistThead = [] ∧
          (runs twoTraced true roundRobin 120).docker ≠ .running) :=
  orderly_end round_robin_works 120

end Orderly

end Orchestrator.ThreadEnds
