import Orchestrator.Shutdown

/-!
What holds of the threads and their states in every run: each state goes with some of the
steps of its thread, and `main` goes on only past a thread that has ended.
-/

namespace Orchestrator.ThreadStates
open FairRuns Shutdown

/-- `main` is past its test of the state of `thread_manage`. -/
def passedManage (pc : MainPc) : Prop :=
  pc ∈ [.testUpdate, .stopUpdate, .joinManage, .joinUpdate, .returned]

/-- `main` is past its test of the state of `thread_update`. -/
def passedUpdate (pc : MainPc) : Prop := pc ∈ [.joinManage, .joinUpdate, .returned]

instance (pc : MainPc) : Decidable (passedManage pc) := inferInstanceAs (Decidable (pc ∈ _))

instance (pc : MainPc) : Decidable (passedUpdate pc) := inferInstanceAs (Decidable (pc ∈ _))

structure ManageInv (s : Sys) : Prop where
  values : s.tStat1 ∈ [0, 1, -1, -2, -99]
  fresh : s.tStat1 = 0 → s.manage ∈ [.absent, .clock, .switch, .setup] ∧ s.elistThead = []
  early : s.manage ∈ [.absent, .clock, .setup, .tracers] → s.elistThead = []
  starting : s.manage = .tracers → s.ftrace = true ∧ s.tStat1 ∈ [1, -1]
  on : s.tStat1 = 1 → s.manage ∈ [.tracers, .stats, .sched, .test, .switch]
  off : s.tStat1 = -99 → s.manage = .joinTracers ∨ s.elistThead = []
  untraced : s.ftrace = false → s.elistThead = []
  ended : s.manage = .ended → s.elistThead = []

structure UpdateInv (s : Sys) : Prop where
  values : s.tStat2 ∈ [0, 1, -1, -2, -99]
  fresh : s.tStat2 = 0 → s.update ∈ [.absent, .clock, .switch, .setup] ∧ s.docker = .absent
  early : s.update ∈ [.absent, .clock, .setup, .ticks] → s.docker = .absent
  starting : s.update = .ticks → s.tStat2 = -1
  on : s.tStat2 = 1 → s.update ∈ [.normal, .test, .wait, .runtime, .elapsed, .switch]
  linked : s.docker = .running → s.dlinkOn = true ∧ s.iretDlink = 0
  link : s.dlinkOn = true → s.docker ≠ .absent
  off : s.tStat2 = -99 → s.update = .joinDocker ∨ s.docker ≠ .running

structure MainInv (s : Sys) : Prop where
  beginManage : s.main = .createManage → s.manage = .absent ∧ s.tStat1 = 0
  beginUpdate : s.main ∈ [.createManage, .createUpdate] → s.update = .absent ∧ s.tStat2 = 0
  handled : s.main ∉ [.createManage, .createUpdate, .handlers] ↔ s.handled = true
  signalled : s.mainStop = true → s.handled = true
  killed : s.killed = true → s.handled = false
  offManage : passedManage s.main → s.tStat1 ≠ 0
  offUpdate : passedUpdate s.main → s.tStat2 ≠ 0
  joinedManage : s.main ∈ [.joinUpdate, .returned] → s.manage ∈ [.absent, .ended]
  joinedUpdate : s.main = .returned → s.update ∈ [.absent, .ended]

structure Sound (s : Sys) : Prop where
  main : MainInv s
  manage : ManageInv s
  update : UpdateInv s

section Writes
variable (settings : Settings) (s : Sys)

/-- A signal ends the program where the handlers are not set up. -/
theorem raise_writes : ∃ mainStop killed,
    s.raise = { s with mainStop := mainStop, killed := killed } ∧
      (killed = true → s.killed = true ∨ s.handled = false) ∧
      (mainStop = true → s.mainStop = true ∨ s.handled = true) ∧
      (s.mainStop = true → mainStop = true) := by
  unfold Sys.raise
  split
  · rename_i handled
    exact ⟨true, s.killed, rfl, Or.inl, fun _ => Or.inr handled, fun _ => rfl⟩
  · rename_i unhandled
    exact ⟨s.mainStop, true, rfl, fun _ => Or.inr (by simpa using unhandled), Or.inl, id⟩

theorem start_trace_read_writes (cpus : List Nat) (iret : Nat → Int) : ∃ mainStop killed,
    startTraceRead cpus iret s =
        { s with
          elistThead := (cpus.map iret).reverse ++ s.elistThead
          mainStop := mainStop
          killed := killed } ∧
      (killed = true → s.killed = true ∨ s.handled = false) ∧
      (mainStop = true → s.mainStop = true ∨ s.handled = true) ∧
      (s.mainStop = true → mainStop = true) := by
  unfold startTraceRead
  split
  · obtain ⟨mainStop, killed, raised, cause⟩ := raise_writes
      { s with elistThead := (cpus.map iret).reverse ++ s.elistThead }
    exact ⟨mainStop, killed, raised, cause⟩
  · exact ⟨s.mainStop, s.killed, rfl, Or.inl, Or.inl, id⟩

/-- What a step of `thread_manage` writes. -/
theorem manage_writes (calls : ManageCalls) :
    ∃ tStat1 manage ftrace elistThead mainStop killed,
      manageStep settings s calls =
          { s with
            tStat1 := tStat1
            manage := manage
            ftrace := ftrace
            elistThead := elistThead
            mainStop := mainStop
            killed := killed } ∧
        (killed = true → s.killed = true ∨ s.handled = false) ∧
        (mainStop = true → s.mainStop = true ∨ s.handled = true) ∧
        (s.mainStop = true → mainStop = true) := by
  cases pc : s.manage
  case tracers =>
    obtain ⟨mainStop, killed, started, cause⟩ :=
      start_trace_read_writes s settings.cpus calls.iret
    simp only [manageStep, pc, started]
    split
    · exact ⟨_, _, _, _, _, _, rfl, cause⟩
    · exact ⟨_, _, _, _, _, _, rfl, Or.inl, Or.inl, id⟩
  all_goals
    simp only [manageStep, pc]
    (repeat' split) <;> exact ⟨_, _, _, _, _, _, rfl, Or.inl, Or.inl, id⟩

/-- What a step of `thread_update` writes. -/
theorem update_writes (calls : UpdateCalls) :
    ∃ tStat2 update stop dlinkOn iretDlink docker misuse mainStop killed,
      updateStep settings s calls =
          { s with
            tStat2 := tStat2
            update := update
            stop := stop
            dlinkOn := dlinkOn
            iretDlink := iretDlink
            docker := docker
            misuse := misuse
            mainStop := mainStop
            killed := killed } ∧
        (killed = true → s.killed = true ∨ s.handled = false) ∧
        (mainStop = true → s.mainStop = true ∨ s.handled = true) ∧
        (s.mainStop = true → mainStop = true) := by
  cases pc : s.update
  case elapsed =>
    obtain ⟨mainStop, killed, raised, cause⟩ := raise_writes s
    simp only [updateStep, pc, raised]
    split
    · exact ⟨_, _, _, _, _, _, _, _, _, rfl, cause⟩
    · exact ⟨_, _, _, _, _, _, _, _, _, rfl, Or.inl, Or.inl, id⟩
  all_goals
    simp only [updateStep, startDockerThread, stopDockerThread, pc]
    (repeat' split) <;> exact ⟨_, _, _, _, _, _, _, _, _, rfl, Or.inl, Or.inl, id⟩

end Writes

section Steps
variable (settings : Settings) {s : Sys}

theorem manage_step_inv (calls : ManageCalls) (inv : ManageInv s) :
    ManageInv (manageStep settings s calls) := by
  have kept := inv
  obtain ⟨values, fresh, early, starting, on, off, untraced, ended⟩ := inv
  simp only [List.mem_cons, List.not_mem_nil, or_false] at values fresh early starting on off
  cases pc : s.manage with
  | absent | ended => simpa only [manageStep, pc] using kept
  | tracers =>
      obtain ⟨mainStop, killed, started, -⟩ := start_trace_read_writes s settings.cpus calls.iret
      obtain ⟨traced, value⟩ := starting pc
      simp only [manageStep, pc, started]
      split <;> constructor <;> simp_all
      omega
  | switch =>
      simp only [manageStep, pc, manageSwitch]
      rcases values with value | value | value | value | value <;> constructor <;> simp_all
  | joinTracers =>
      simp only [manageStep, pc]
      (repeat' split) <;> constructor <;> simp_all
  | clock | setup | stats | sched | stopping | close | test =>
      simp only [manageStep, pc]
      try split
      all_goals constructor <;> simp_all

theorem update_step_inv (calls : UpdateCalls) (inv : UpdateInv s) :
    UpdateInv (updateStep settings s calls) := by
  have kept := inv
  obtain ⟨values, fresh, early, starting, on, linked, link, off⟩ := inv
  simp only [List.mem_cons, List.not_mem_nil, or_false] at values fresh early starting on off
  cases pc : s.update with
  | absent | ended => simpa only [updateStep, pc] using kept
  | elapsed =>
      obtain ⟨mainStop, killed, raised, -⟩ := raise_writes s
      simp only [updateStep, pc, raised]
      split <;> constructor <;> simp_all
  | switch =>
      simp only [updateStep, pc, updateSwitch]
      rcases values with value | value | value | value | value <;> constructor <;> simp_all
  | ticks =>
      simp only [updateStep, pc, startDockerThread]
      (repeat' split) <;> constructor <;> simp_all
  | joinDocker =>
      simp only [updateStep, pc, stopDockerThread]
      (repeat' split) <;> constructor <;> simp_all
  | clock | setup | running | normal | stopping | close | test | wait | runtime =>
      simp only [updateStep, pc]
      (repeat' split) <;> constructor <;> simp_all

/-- The state of `thread_manage` is turned off from outside. -/
theorem manage_inv_off {next : Sys} (inv : ManageInv s) (off : next.tStat1 = -1)
    (pc : next.manage = s.manage) (ftrace : next.ftrace = s.ftrace)
    (list : next.elistThead = s.elistThead) : ManageInv next where
  values := by simp [off]
  fresh := by simp [off]
  early := by simpa [pc, list] using inv.early
  starting := by simpa [pc, ftrace, off] using fun here => (inv.starting here).1
  on := by simp [off]
  off := by simp [off]
  untraced := by simpa [ftrace, list] using inv.untraced
  ended := by simpa [pc, list] using inv.ended

theorem update_inv_off {next : Sys} (inv : UpdateInv s) (off : next.tStat2 = -1)
    (pc : next.update = s.update) (docker : next.docker = s.docker)
    (on : next.dlinkOn = s.dlinkOn) (iret : next.iretDlink = s.iretDlink) : UpdateInv next where
  values := by simp [off]
  fresh := by simp [off]
  early := by simpa [pc, docker] using inv.early
  starting := by simp [off]
  on := by simp [off]
  linked := by simpa [docker, on, iret] using inv.linked
  link := by simpa [docker, on] using inv.link
  off := by simp [off]

theorem main_step_manage (created : Bool) (sound : Sound s) : ManageInv (mainStep s created) := by
  obtain ⟨main, inv, -⟩ := sound
  cases pc : s.main
  case createManage =>
    obtain ⟨absent, zero⟩ := main.beginManage pc
    have none' : s.elistThead = [] := inv.early (by simp [absent])
    cases created
    · simp only [mainStep, pc, Bool.false_eq_true, if_false]
      exact manage_inv_off inv rfl rfl rfl rfl
    · simp only [mainStep, pc, if_true]
      constructor <;> simp [zero, none']
  case createUpdate => cases created <;> simpa only [mainStep, pc] using { inv with }
  case stopManage =>
    simp only [mainStep, pc]
    exact manage_inv_off inv rfl rfl rfl rfl
  all_goals
    simp only [mainStep, pc]
    (repeat' split) <;> exact { inv with }

theorem main_step_update (created : Bool) (sound : Sound s) : UpdateInv (mainStep s created) := by
  obtain ⟨main, -, inv⟩ := sound
  cases pc : s.main
  case createUpdate =>
    obtain ⟨absent, zero⟩ := main.beginUpdate (by simp [pc])
    have none' : s.docker = .absent := inv.early (by simp [absent])
    cases created
    · simp only [mainStep, pc, Bool.false_eq_true, if_false]
      exact update_inv_off inv rfl rfl rfl rfl rfl
    · simp only [mainStep, pc, if_true]
      have linked := inv.linked
      have link := inv.link
      constructor <;> simp_all
  case createManage => cases created <;> simpa only [mainStep, pc] using { inv with }
  case stopUpdate =>
    simp only [mainStep, pc]
    exact update_inv_off inv rfl rfl rfl rfl rfl
  all_goals
    simp only [mainStep, pc]
    (repeat' split) <;> exact { inv with }

/-- Behind the start, `main` goes on to a step it may take. -/
theorem main_inv_moved {pc : MainPc} (inv : MainInv s)
    (before : s.main ∉ [.createManage, .createUpdate, .handlers])
    (behind : pc ∉ [.createManage, .createUpdate, .handlers])
    (offManage : passedManage pc → s.tStat1 ≠ 0) (offUpdate : passedUpdate pc → s.tStat2 ≠ 0)
    (joinedManage : pc ∈ [.joinUpdate, .returned] → s.manage ∈ [.absent, .ended])
    (joinedUpdate : pc = .returned → s.update ∈ [.absent, .ended]) :
    MainInv { s with main := pc } where
  beginManage := fun here => absurd here (by rintro rfl; simp at behind)
  beginUpdate := fun here => absurd here (by rintro here; simp_all)
  handled := iff_of_true behind (inv.handled.mp before)
  signalled := inv.signalled
  killed := inv.killed
  offManage := offManage
  offUpdate := offUpdate
  joinedManage := joinedManage
  joinedUpdate := joinedUpdate

theorem main_step_main (created : Bool) (sound : Sound s) (alive : s.killed = false) :
    MainInv (mainStep s created) := by
  obtain ⟨inv, -, -⟩ := sound
  cases pc : s.main with
  | createManage | createUpdate | handlers =>
      obtain ⟨beginManage, beginUpdate, handled, signalled, killed, -, -, -, -⟩ := inv
      simp only [pc] at beginManage beginUpdate handled
      simp only [mainStep, pc]
      try split
      all_goals constructor <;> simp_all [passedManage, passedUpdate]
  | returned => simpa only [mainStep, pc] using inv
  | stopManage =>
      have off : MainInv { s with tStat1 := -1 } :=
        { inv with
          beginManage := by simp [pc]
          offManage := by simp }
      simp only [mainStep, pc]
      exact main_inv_moved off (by simp [pc]) (by simp) (by simp) (by simp [passedUpdate])
        (by simp) (by simp)
  | stopUpdate =>
      have off : MainInv { s with tStat2 := -1 } :=
        { inv with
          beginUpdate := by simp [pc]
          offUpdate := by simp }
      simp only [mainStep, pc]
      exact main_inv_moved off (by simp [pc]) (by simp)
        (fun _ => inv.offManage (by simp [pc, passedManage])) (by simp) (by simp) (by simp)
  | poll | pollManage | pollUpdate =>
      simp only [mainStep, pc]
      split <;> refine main_inv_moved inv ?_ ?_ ?_ ?_ ?_ ?_ <;>
        simp [pc, passedManage, passedUpdate]
  | testManage =>
      simp only [mainStep, pc]
      split
      · refine main_inv_moved inv ?_ ?_ ?_ ?_ ?_ ?_ <;> simp [pc, passedManage, passedUpdate]
      · rename_i off
        exact main_inv_moved inv (by simp [pc]) (by simp) (fun _ => by omega)
          (by simp [passedUpdate]) (by simp) (by simp)
  | testUpdate =>
      have offManage := inv.offManage (by simp [pc, passedManage])
      simp only [mainStep, pc]
      split
      · exact main_inv_moved inv (by simp [pc]) (by simp) (fun _ => offManage)
          (by simp [passedUpdate]) (by simp) (by simp)
      · rename_i off
        exact main_inv_moved inv (by simp [pc]) (by simp) (fun _ => offManage)
          (fun _ => by omega) (by simp) (by simp)
  | joinManage | joinUpdate =>
      have offManage := inv.offManage (by simp [pc, passedManage])
      have offUpdate := inv.offUpdate (by simp [pc, passedUpdate])
      have joined := inv.joinedManage
      simp only [mainStep, pc]
      split
      case h_3 => exact inv
      all_goals
        refine main_inv_moved inv ?_ ?_ (fun _ => offManage) (fun _ => offUpdate) ?_ ?_ <;>
          simp_all

theorem manage_step_idle (calls : ManageCalls) (idle : s.manage ∈ [.absent, .ended]) :
    manageStep settings s calls = s := by
  simp only [List.mem_cons, List.not_mem_nil, or_false] at idle
  rcases idle with pc | pc <;> simp only [manageStep, pc]

theorem update_step_idle (calls : UpdateCalls) (idle : s.update ∈ [.absent, .ended]) :
    updateStep settings s calls = s := by
  simp only [List.mem_cons, List.not_mem_nil, or_false] at idle
  rcases idle with pc | pc <;> simp only [updateStep, pc]

/-- No thread sets its state back to that of the start. -/
theorem manage_step_off (calls : ManageCalls) (off : s.tStat1 ≠ 0) :
    (manageStep settings s calls).tStat1 ≠ 0 := by
  obtain ⟨mainStop, killed, started, -⟩ := start_trace_read_writes s settings.cpus calls.iret
  cases pc : s.manage <;> simp only [manageStep, pc] <;> (repeat' split) <;> simp_all

theorem update_step_off (calls : UpdateCalls) (off : s.tStat2 ≠ 0) :
    (updateStep settings s calls).tStat2 ≠ 0 := by
  obtain ⟨mainStop, killed, raised, -⟩ := raise_writes s
  cases pc : s.update <;> simp only [updateStep, startDockerThread, stopDockerThread, pc] <;>
    (repeat' split) <;> simp_all

theorem manage_step_main (calls : ManageCalls) (inv : MainInv s) :
    MainInv (manageStep settings s calls) := by
  by_cases idle : s.manage ∈ [.absent, .ended]
  · rwa [manage_step_idle settings calls idle]
  have off := @manage_step_off settings s calls
  obtain ⟨tStat1, manage, ftrace, list, mainStop, killed, same, dead, signals, -⟩ :=
    manage_writes settings s calls
  rw [same] at off ⊢
  exact {
    beginManage := fun here => absurd (inv.beginManage here).1 (by rintro pc; simp [pc] at idle)
    beginUpdate := inv.beginUpdate
    handled := inv.handled
    signalled := fun told => (signals told).elim inv.signalled id
    killed := fun gone => (dead gone).elim inv.killed id
    offManage := fun here => off (inv.offManage here)
    offUpdate := inv.offUpdate
    joinedManage := fun here => absurd (inv.joinedManage here) idle
    joinedUpdate := inv.joinedUpdate }

theorem update_step_main (calls : UpdateCalls) (inv : MainInv s) :
    MainInv (updateStep settings s calls) := by
  by_cases idle : s.update ∈ [.absent, .ended]
  · rwa [update_step_idle settings calls idle]
  have off := @update_step_off settings s calls
  obtain ⟨tStat2, update, stop, dlinkOn, iretDlink, docker, misuse, mainStop, killed, same, dead,
    signals, -⟩ := update_writes settings s calls
  rw [same] at off ⊢
  exact {
    beginManage := inv.beginManage
    beginUpdate := fun here => absurd (inv.beginUpdate here).1 (by rintro pc; simp [pc] at idle)
    handled := inv.handled
    signalled := fun told => (signals told).elim inv.signalled id
    killed := fun gone => (dead gone).elim inv.killed id
    offManage := inv.offManage
    offUpdate := fun here => off (inv.offUpdate here)
    joinedManage := inv.joinedManage
    joinedUpdate := fun here => absurd (inv.joinedUpdate here) idle }

theorem step_sound (sound : Sound s) (act : Act) : Sound (step settings s act) := by
  unfold step
  split
  · exact sound
  · rename_i going
    have alive : s.killed = false := by
      cases dead : s.killed
      · rfl
      · simp [dead] at going
    obtain ⟨main, manage, update⟩ := sound
    cases act with
    | main created =>
        exact ⟨main_step_main created ⟨main, manage, update⟩ alive,
          main_step_manage created ⟨main, manage, update⟩,
          main_step_update created ⟨main, manage, update⟩⟩
    | manage calls =>
        refine ⟨manage_step_main settings calls main, manage_step_inv settings calls manage, ?_⟩
        obtain ⟨tStat1, pc, ftrace, list, mainStop, killed, same, -⟩ :=
          manage_writes settings s calls
        simp only [same]
        exact { update with }
    | update calls =>
        refine ⟨update_step_main settings calls main, ?_, update_step_inv settings calls update⟩
        obtain ⟨tStat2, pc, stop, dlinkOn, iretDlink, docker, misuse, mainStop, killed, same, -⟩ :=
          update_writes settings s calls
        simp only [same]
        exact { manage with }
    | signal =>
        obtain ⟨mainStop, killed, same, dead, signals, -⟩ := raise_writes s
        simp only [same]
        refine ⟨{ main with signalled := ?_, killed := ?_ }, { manage with }, { update with }⟩
        · exact fun told => (signals told).elim main.signalled id
        · exact fun gone => (dead gone).elim main.killed id

end Steps

theorem start_sound (ftrace : Bool) : Sound { ftrace := ftrace } := by
  refine ⟨?_, ?_, ?_⟩ <;> constructor <;> simp [passedManage, passedUpdate]

end Orchestrator.ThreadStates
