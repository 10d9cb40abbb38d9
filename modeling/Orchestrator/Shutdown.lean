import Orchestrator.FairRuns

/-!
`main` with `thread_manage` and `thread_update`, from the creation of the threads to the
end of the program. The threads' states are 32 bits wide to have them read and written
whole; here every such read or write is one step, and the parties' steps come in any
order. What the threads do to their tasks in between is left out.
-/

namespace Orchestrator.Shutdown

/-- Next step of `main`. `poll`, `pollManage` and `pollUpdate` are the condition of its
loop; a thread's state is tested first and then written. -/
inductive MainPc
  | createManage | createUpdate | handlers
  | poll | pollManage | pollUpdate
  | testManage | stopManage | testUpdate | stopUpdate
  | joinManage | joinUpdate | returned
  deriving DecidableEq, Repr

/-- Next step of `thread_manage`; `absent` if it was not created. -/
inductive ManagePc
  | absent | clock | switch | setup | tracers | stats | sched
  | stopping | close | joinTracers | test | ended
  deriving DecidableEq, Repr

/-- Next step of `thread_update`. -/
inductive UpdatePc
  | absent | clock | switch | setup | ticks | running | normal
  | stopping | close | joinDocker | test | wait | runtime | elapsed | ended
  deriving DecidableEq, Repr

/-- The docker link thread. -/
inductive Docker
  | absent | running | joined
  deriving DecidableEq, Repr

/-- Of the settings: the CPUs to be traced, whether the policy is deadline, and whether
there is a runtime. -/
structure Settings where
  cpus : List Nat
  deadline : Bool
  runtime : Bool

/-- What the threads share and where they are. `killed` is the end by a signal before
the handlers are set up, `misuse` a signal to a thread that was joined before. -/
structure Sys where
  mainStop : Bool := false
  handled : Bool := false
  killed : Bool := false
  tStat1 : Int := 0
  tStat2 : Int := 0
  main : MainPc := .createManage
  manage : ManagePc := .absent
  ftrace : Bool
  elistThead : List Int := []
  update : UpdatePc := .absent
  stop : Bool := false
  dlinkOn : Bool := false
  iretDlink : Int := 0
  docker : Docker := .absent
  misuse : Bool := false

/-- What calls of `thread_manage` come to: `clock_gettime`, `configureTracers`,
`pthread_create` for each CPU, `updateStats`. -/
structure ManageCalls where
  clock : Bool := true
  configured : Bool := true
  iret : Nat → Int := fun _ => 0
  updated : Bool := true

/-- What calls of `thread_update` come to: `clock_gettime`, `sysconf`, `pthread_create`
and `pthread_join` for the docker link, `pthread_yield`; and if the runtime has expired. -/
structure UpdateCalls where
  clock : Bool := true
  ticks : Bool := true
  created : Int := 0
  joined : Int := 0
  yields : Bool := true
  expired : Bool := false

/-- A turn: of a party, or a signal from outside. -/
inductive Act
  | main (created : Bool)
  | manage (calls : ManageCalls)
  | update (calls : UpdateCalls)
  | signal

/-- `SIGINT` or `SIGTERM`. -/
def Sys.raise (s : Sys) : Sys :=
  if s.handled then { s with mainStop := true } else { s with killed := true }

/-- `main`. Threads that were not created are not joined. -/
def mainStep (s : Sys) (created : Bool) : Sys :=
  match s.main with
  | .createManage =>
      if created then { s with manage := .clock, main := .createUpdate }
      else { s with tStat1 := -1, main := .createUpdate }
  | .createUpdate =>
      if created then { s with update := .clock, main := .handlers }
      else { s with tStat2 := -1, main := .handlers }
  | .handlers => { s with handled := true, main := .poll }
  | .poll => if s.mainStop then { s with main := .testManage } else { s with main := .pollManage }
  | .pollManage =>
      if s.tStat1 > -1 then { s with main := .poll } else { s with main := .pollUpdate }
  | .pollUpdate =>
      if s.tStat2 > -1 then { s with main := .poll } else { s with main := .testManage }
  | .testManage =>
      if -1 < s.tStat1 then { s with main := .stopManage } else { s with main := .testUpdate }
  | .stopManage => { s with tStat1 := -1, main := .testUpdate }
  | .testUpdate =>
      if -1 < s.tStat2 then { s with main := .stopUpdate } else { s with main := .joinManage }
  | .stopUpdate => { s with tStat2 := -1, main := .joinManage }
  | .joinManage =>
      match s.manage with
      | .absent | .ended => { s with main := .joinUpdate }
      | _ => s
  | .joinUpdate =>
      match s.update with
      | .absent | .ended => { s with main := .returned }
      | _ => s
  | .returned => s

/-- `startTraceRead`: a thread for each CPU, the last one at the head. -/
def startTraceRead (cpus : List Nat) (iret : Nat → Int) (s : Sys) : Sys :=
  let started := { s with elistThead := (cpus.map iret).reverse ++ s.elistThead }
  if cpus.any fun cpu => iret cpu ≠ 0 then started.raise else started

/-- The switch of `thread_manage`. -/
def manageSwitch (s : Sys) : ManagePc :=
  if s.tStat1 = 0 then .setup
  else if s.tStat1 = 1 then .stats
  else if s.tStat1 = 2 then .sched
  else if s.tStat1 = -1 then .stopping
  else if s.tStat1 = -2 then .close
  else .test

/-- `thread_manage`. `stopTraceRead` does not get past a thread that did not start. -/
def manageStep (settings : Settings) (s : Sys) (calls : ManageCalls) : Sys :=
  match s.manage with
  | .absent | .ended => s
  | .clock =>
      if calls.clock then { s with manage := .switch }
      else { s with tStat1 := -1, manage := .switch }
  | .switch => { s with manage := manageSwitch s }
  | .setup => { s with tStat1 := 1, manage := if s.ftrace then .tracers else .stats }
  | .tracers =>
      if calls.configured then
        { startTraceRead settings.cpus calls.iret s with manage := .stats }
      else { s with ftrace := false, manage := .stats }
  | .stats => { s with manage := if calls.updated then .sched else .test }
  | .sched => { s with tStat1 := 1, manage := .test }
  | .stopping => { s with tStat1 := -2, manage := .close }
  | .close => { s with tStat1 := -99, manage := if s.ftrace then .joinTracers else .test }
  | .joinTracers =>
      match s.elistThead with
      | [] => { s with manage := .test }
      | iret :: rest => if iret = 0 then { s with elistThead := rest } else s
  | .test => { s with manage := if s.tStat1 = -99 then .ended else .switch }

/-- The switch of `thread_update`. -/
def updateSwitch (s : Sys) : UpdatePc :=
  if s.tStat2 = 0 then .setup
  else if s.tStat2 = 1 then .normal
  else if s.tStat2 = -1 then .stopping
  else if s.tStat2 = -2 then .close
  else .test

/-- `startDockerThread`. -/
def startDockerThread (created : Int) (s : Sys) : Sys :=
  if created = 0 then { s with iretDlink := created, dlinkOn := true, docker := .running }
  else { s with iretDlink := created, dlinkOn := false }

/-- `stopDockerThread`. -/
def stopDockerThread (joined : Int) (s : Sys) : Sys :=
  if s.iretDlink = 0 then
    { s with
      misuse := s.misuse || s.docker == .joined
      docker := .joined
      iretDlink := joined }
  else s

/-- `thread_update`. If it can not yield it leaves its loop at once. -/
def updateStep (settings : Settings) (s : Sys) (calls : UpdateCalls) : Sys :=
  match s.update with
  | .absent | .ended => s
  | .clock =>
      if calls.clock then { s with update := .switch }
      else { s with tStat2 := -1, update := .switch }
  | .switch => { s with update := updateSwitch s }
  | .setup => { s with tStat2 := -1, update := .ticks }
  | .ticks =>
      if calls.ticks then { startDockerThread calls.created s with update := .running }
      else { s with update := .test }
  | .running => { s with tStat2 := 1, update := .normal }
  | .normal => { s with update := .test }
  | .stopping => { s with tStat2 := -2, update := .close }
  | .close => { s with tStat2 := -99, update := if s.dlinkOn then .joinDocker else .test }
  | .joinDocker => { stopDockerThread calls.joined s with update := .test }
  | .test => { s with update := if s.tStat2 = -99 then .ended else .wait }
  | .wait =>
      if settings.deadline && !calls.yields then { s with tStat2 := -1, update := .ended }
      else { s with update := if settings.runtime then .runtime else .switch }
  | .runtime =>
      if calls.clock then { s with update := .elapsed }
      else { s with tStat2 := -1, update := .elapsed }
  | .elapsed =>
      if !s.stop && calls.expired then { s.raise with stop := true, update := .switch }
      else { s with update := .switch }

/-- A turn. Nothing goes on once the program was killed or has returned. -/
def step (settings : Settings) (s : Sys) (act : Act) : Sys :=
  if s.killed || s.main == .returned then s
  else
    match act with
    | .main created => mainStep s created
    | .manage calls => manageStep settings s calls
    | .update calls => updateStep settings s calls
    | .signal => s.raise

end Orchestrator.Shutdown
