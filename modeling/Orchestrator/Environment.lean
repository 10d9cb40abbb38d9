import Orchestrator.ContCGroups
import Orchestrator.PidLookup
import Orchestrator.PsLines

/-!
`prepareEnvironment` and `setDefaultAffinity` of `prepare.c`: the CPUs are split between
the real-time tasks and the rest of the system, and the system is moved out of the way.
`err_exit` ends the program where it is; what was written until then stays.
-/

namespace Orchestrator.Environment
open Orchdata Requests KernelFiles ContCGroups Cstring Kernutil
open ContPids (bufrd)
open PidLookup (strstr)
open PsLines (fgetsLines cstr)

/-- `CPUGOVR`. -/
def cpugovr : List Char := "performance".toList

/-- `setPidMask`: the threads whose command line matches the tag, by `ps`. A line without a
PID ends in `atoi(NULL)`. -/
def setPidMask (tag : List Char) (amask : Bitmask) : Prog Unit := do
  match ← ask (.popen ("ps h -eo spid,command | grep -v 'grep' | grep -G '".toList ++ tag
      ++ ['\''])) with
  | none => pure ()
  | some output =>
      forM (fgetsLines bufrd output.length output) fun pidline =>
        match Strtok.strtokR [' '] (cstr pidline) with
        | (none, _) => .fail .segv
        | (some pid, _) => do
            let _ ← ask (.setaffinity (atoi pid) amask)

/-- One test of `getCapMask`. The capability mask starts empty, and `&=` leaves it so. -/
def testCapability (set : Fixed) (cap : Capability) : Prog Unit := do
  match ← ask (.capability cap) with
  | none => .fail .exit
  | some effective =>
      if !effective && cap ≠ .ipcLock && !set.blindrun then .fail .exit else pure ()

/-- `getCapMask`: whether `CAPMASK_IPC` is in the result. -/
def getCapMask (set : Fixed) : Prog Bool := do
  testCapability set .nice
  testCapability set .resource
  testCapability set .ipcLock
  pure false

def getRRslice (set : Settings) : Prog Settings :=
  if set.policy = schedRr ∧ 0 < set.rrtime then do
    let _ ← setkernvar set.procfilePath "sched_rr_timeslice_ms".toList (printLong set.rrtime)
      (set.dry mskDrynortslce)
    pure set
  else do
    let (got, str) ← getkernvar set.procfilePath "sched_rr_timeslice_ms".toList 100
    if got < 0 then pure { set with rrtime := 100 } else pure { set with rrtime := atoi str }

section Hotplug
variable (numa : Libnuma)

/-- One write of a CPU's `online` file that has to succeed. -/
def plug (set : Fixed) (value : Char) (cpu : Nat) : Prog Unit := do
  let ret ← setkernvar set.cpusystemfilePath (cpuFile cpu "/online") [value] false
  if ret < 0 then .fail .exit else pure ()

/-- The CPUs of the mask but the first, in ascending order. -/
def pluggable (mask : Bitmask) : List Nat :=
  (List.range numa.size).filter fun cpu => 0 < cpu ∧ cpu ∈ mask

/-- `pushCPUirqs`. What it prints for a blind or a dry run does not keep it from going on. -/
def pushCPUirqs (set : Settings) : Prog Unit := do
  forM (pluggable numa set.affinityMask).reverse (plug set.toFixed '0')
  forM (pluggable numa set.affinityMask) (plug set.toFixed '1')

/-- The tasks of the container groups that are left, after `count`. -/
def countTasks (set : Fixed) : List Dirent → Int → Prog Int
  | [], count => pure count
  | dir :: rest, count =>
      if Dirent.isCont dir then do
        match ← ask (.read (set.cpusetdfilePath ++ dir.name ++ "/tasks".toList)) with
        | none => pure (-1)
        | some text => countTasks set rest (count + text.count '\n')
      else countTasks set rest count

def countCGroupTasks (set : Fixed) : Prog Int := do
  match ← ask (.readdir set.cpusetdfilePath) with
  | none => pure (-1)
  | some dirs => countTasks set dirs 0

/-- The interrupts are pushed where no container has a task. -/
def pushIdle (set : Settings) : Prog Unit := do
  let count ← countCGroupTasks set.toFixed
  if count = 0 then pushCPUirqs numa set else pure ()

/-- Body of the loop of `resetCPUonline`. The `stat` is of the containers' CGroup, not of the
CPU's file: where that is there, no CPU is brought back. -/
def resetCPU (set : Fixed) (cpu : Nat) : Prog Unit := do
  match ← ask (.stat set.cpusetdfilePath) with
  | .found _ => pure ()
  | _ => do
      let _ ← setkernvar set.cpusystemfilePath (cpuFile cpu "/online") ['1'] false

/-- `resetCPUonline`, which takes the number of CPUs from the mask. -/
def resetCPUonline (set : Fixed) (mask : Option Bitmask) : Prog Unit :=
  if set.blindrun then pure ()
  else do
    let ret ← setkernvar set.cpusystemfilePath "smt/control".toList "on".toList false
    if ret < 0 then .fail .exit
    else
      match mask with
      | none => .fail .segv
      | some _ => forM ((List.range numa.size).filter fun cpu => 0 < cpu) (resetCPU set)

end Hotplug

section Topology
variable (numa : Libnuma)

/-- `testSMT`: -1 where the state is not known. -/
def testSMT (set : Fixed) : Prog Int :=
  if set.blindrun then pure (-1)
  else do
    let (got, str) ← getkernvar set.cpusystemfilePath "smt/control".toList 10
    if 0 < got then pure (if str = "on".toList then 1 else 0) else pure (-1)

/-- `parse_cpumask`. -/
def parseCpumask (option : List Char) : Option Bitmask :=
  (numa.parse option).filter fun mask => mask.card ≠ 0

def resetCPUstring (set : Settings) : Int × Settings :=
  match parseBitmask numa.bits set.affinityMask 100 with
  | none => (-1, set)
  | some str => (0, { set with affinity := str })

/-- Body of the inner loop of `disableCPUsibling`, at a sibling `j` of `i`. `&&` for `&`:
any dry run leaves the CPUs online. -/
def disableSibling (i : Nat) (set : Settings) (j : Nat) : Prog Settings :=
  if j < i ∧ set.affinityMask.card = 1 then pure set
  else
    let cpu := if j < i then i else j
    let next := { set with affinityMask := set.affinityMask.erase cpu }
    if set.dryrun ≠ 0 then pure next
    else do
      let _ ← setkernvar set.cpusystemfilePath (cpuFile cpu "/online") ['0'] false
      pure next

/-- The outer loop on the CPUs that are left, and the list of the mask behind it. -/
def disableSiblings : List Nat → Settings → Prog (Int × Settings)
  | [], set => pure (resetCPUstring numa set)
  | i :: rest, set =>
      if i ∈ set.affinityMask then do
        let (got, str) ← getkernvar set.cpusystemfilePath
          (cpuFile i "/topology/thread_siblings_list") 50
        if got ≤ 0 then pure (-1, set)
        else
          match parseCpumask numa str with
          | none => pure (-1, set)
          | some sibling => do
              let set ← ((List.range numa.size).filter fun j => j ∈ sibling.erase i).foldlM
                (disableSibling i) set
              disableSiblings rest set
      else disableSiblings rest set

def disableCPUsibling (set : Settings) : Prog (Int × Settings) :=
  disableSiblings numa (List.range numa.size) set

def disableSMT (set : Fixed) : Prog Int :=
  if set.dry mskDrynosmtoff then pure 0
  else if !set.force then .fail .exit
  else do
    let ret ← setkernvar set.cpusystemfilePath "smt/control".toList "off".toList false
    if ret < 0 then .fail .exit else pure 1

def resetCPUmask (set : Settings) : Prog (Int × Settings) := do
  let (got, str) ← getkernvar set.cpusystemfilePath "online".toList 100
  if got ≤ 0 then .fail .exit
  else
    match numa.parse str with
    | none => .fail .exit
    | some conmask =>
        let next := { set with affinityMask := set.affinityMask ∩ conmask }
        if next.affinityMask ≠ set.affinityMask then
          if next.affinityMask.card = 0 then pure (-1, next) else pure (resetCPUstring numa next)
        else pure (0, next)

/-- The first block of `prepareEnvironment`: one thread of a core at most. -/
def reduceSMT (set : Settings) : Prog (Int × Settings) := do
  let smt ← testSMT set.toFixed
  if smt = 0 then pure (0, set)
  else
    let (failed, set) ← disableCPUsibling numa set
    if failed = 0 then pure (0, set)
    else
      let ret ← disableSMT set.toFixed
      if ret = 1 then resetCPUmask numa set else pure (0, set)

end Topology

section Power

def setCPUgovernor (set : Fixed) (cpuno : Nat) : Prog Int := do
  let (got, str) ← getkernvar set.cpusystemfilePath
    (cpuFile cpuno "/cpufreq/scaling_governor") 50
  if got ≤ 0 then pure (-1)
  else if str = cpugovr then pure 0
  else
    let (got, poss) ← getkernvar set.cpusystemfilePath
      (cpuFile cpuno "/cpufreq/scaling_available_governors") 50
    if got ≤ 0 then pure (-1)
    else if !strstr poss cpugovr then pure (-1)
    else if set.dry mskDrynocpugov || set.blindrun then pure 0
    else if !set.force then .fail .exit
    else
      let ret ← setkernvar set.cpusystemfilePath (cpuFile cpuno "/cpufreq/scaling_governor")
        cpugovr false
      if ret < 0 then .fail .exit else pure 0

/-- Turbo is switched off where it is on: the flags are not asked. The answer is `noturbo`. -/
def disableTurbo (set : Fixed) : Prog Bool := do
  let (got, str) ← getkernvar set.cpusystemfilePath "intel_pstate/no_turbo".toList 50
  if 0 < got ∧ str ≠ ['1'] then do
    let ret ← setkernvar set.cpusystemfilePath "intel_pstate/no_turbo".toList ['1'] false
    pure (0 ≤ ret : Bool)
  else pure true

/-- The frequency to hold: the base, or the maximum where there is no turbo to hold it at. -/
def heldFrequency (set : Fixed) (cpuno : Nat) (noturbo : Bool) : Prog (Option (List Char)) := do
  let (got, setfrq) ← getkernvar set.cpusystemfilePath
    (cpuFile cpuno "/cpufreq/base_frequency") 50
  if 0 < got then pure (some setfrq)
  else if !noturbo then pure none
  else
    let (got, setfrq) ← getkernvar set.cpusystemfilePath
      (cpuFile cpuno "/cpufreq/cpuinfo_max_freq") 50
    if got ≤ 0 then pure none else pure (some setfrq)

def adjustCPUfreq (set : Fixed) (cpuno : Nat) : Prog Int := do
  let noturbo ← disableTurbo set
  match ← heldFrequency set cpuno noturbo with
  | none => pure (-1)
  | some setfrq =>
      let (got, str) ← getkernvar set.cpusystemfilePath
        (cpuFile cpuno "/cpufreq/scaling_min_freq") 50
      if got ≤ 0 then pure (-1)
      else if str = setfrq then pure 0
      else if set.dry mskDrynocpugov || set.blindrun || !set.force then pure 0
      else
        let _ ← setkernvar set.cpusystemfilePath (cpuFile cpuno "/cpufreq/scaling_min_freq")
          setfrq false
        pure 0

def setCPUpowerQos (set : Fixed) (cpuno : Nat) : Prog Int := do
  let (got, str) ← getkernvar set.cpusystemfilePath
    (cpuFile cpuno "/power/pm_qos_resume_latency_us") 50
  if got ≤ 0 then pure (-1)
  else if str = "n/a".toList then pure 0
  else if set.dry mskDrynocpuqos || set.blindrun then pure 0
  else if !set.force then .fail .exit
  else
    let ret ← setkernvar set.cpusystemfilePath
      (cpuFile cpuno "/power/pm_qos_resume_latency_us") "n/a".toList false
    if ret < 0 then .fail .exit else pure 0

/-- What is done for a CPU that is online. -/
def setupCPU (set : Fixed) (cpu : Nat) : Prog Unit := do
  let _ ← setCPUgovernor set cpu
  let _ ← adjustCPUfreq set cpu
  let _ ← setCPUpowerQos set cpu
  if set.smi then
    if ← ask (.smi cpu) then pure () else .fail .exit

/-- The loop over the CPUs that are left: the inverted affinity, or `none` at a CPU of the
affinity that is not online. -/
def setupCPUs (set : Settings) (con : Bitmask) : List Nat → Bitmask → Prog (Option Bitmask)
  | [], naffinity => pure (some naffinity)
  | i :: rest, naffinity =>
      if i ∈ con then do
        setupCPU set.toFixed i
        setupCPUs set con rest (if i ∈ set.affinityMask then naffinity else insert i naffinity)
      else if i ∈ set.affinityMask then pure none
      else setupCPUs set con rest naffinity

end Power

section Shield

/-- The attributes of the orchestrator, where they can be read. -/
def promoteSelf (mpid : Int) : Prog Unit := do
  match ← ask (.getattr mpid) with
  | none => pure ()
  | some attr => do
      -- `SCHED_FLAG_RESET_ON_FORK`
      let _ ← ask (.setattr mpid { attr with
        schedNice := 20, schedFlags := attr.schedFlags ||| 1 })

/-- The orchestrator itself: attributes and affinity. -/
def confineSelf (mpid : Int) (naffinity : Bitmask) : Prog Unit := do
  promoteSelf mpid
  let _ ← ask (.setaffinity mpid naffinity)

/-- Whether the containers' CGroup is there, or could be created. -/
def findCGroup (set : Fixed) : Prog Bool := do
  match ← ask (.stat set.cpusetdfilePath) with
  | .missing =>
      if set.force then
        if (← ask (.mkdir set.cpusetdfilePath)) = .made then pure true else .fail .exit
      else pure false
  | .failed => .fail .exit
  | .found isDir => if isDir then pure true else .fail .exit

/-- The detection mode for it. -/
def selectDetection (set : Settings) : Prog Settings := do
  let there ← findCGroup set.toFixed
  if set.useCgroup ≠ .cgrp ∨ there then pure set
  else if set.policy = schedDeadline then .fail .exit
  else pure { set with useCgroup := .cntpid }

/-- The throttle; where it can not be set, the CPU sets are reset first. -/
def unthrottle (set : Settings) (constr : List Char) : Prog Settings := do
  let (ret, set) ← resetRTthrottle set (-1)
  if ret = 0 then pure set
  else
    resetContCGroups set constr set.numa
    setContCGroups set true
    let (_, set) ← resetRTthrottle set (-1)
    pure set

/-- The patterns of the kernel's threads. -/
def threadTags : List (List Char) :=
  ["\\B\\[ehca_comp[/][[:digit:]]*", "\\B\\[irq[/][[:digit:]]*-[[:alnum:]]*",
    "\\B\\[kcmtpd_ctr[_][[:digit:]]*", "\\B\\[kworker[/][[:digit:]]*",
    "\\B\\[rcuop[/][[:digit:]]*", "\\B\\[rcuos[/][[:digit:]]*",
    "\\B\\[rcuog[/][[:digit:]]*"].map String.toList

def confineThreads (set : Fixed) (naffinity : Bitmask) : Prog Unit :=
  if set.dry mskDrynoktrdaf then pure ()
  else forM threadTags fun tag => setPidMask tag naffinity

/-- The group of a configured container identifier, where that is complete. -/
def createCont (set : Settings) (contid : Option (List Char)) : Prog Unit :=
  match contid with
  | none => pure ()
  | some contid =>
      if isContid contid then do
        let folder := set.cpusetdfilePath ++ contid
        if (← ask (.mkdir folder)) = .refused then pure ()
        else
          let _ ← setkernvar folder "/cpuset.cpus".toList set.affinity (set.dry mskDrynoafty)
          let _ ← setkernvar folder "/cpuset.mems".toList set.numa (set.dry mskDrynoafty)
      else pure ()

end Shield

/-! Moving the tasks: the reading loop of `getContPids`, with a write for each PID. -/

section Tasks

/-- The read buffer, and what of it is not parsed. -/
structure Moving where
  buf : List Char
  nleft : Int := 0

variable (set : Fixed) (system : List Char)

/-- The token at a position of the buffer. -/
def tokenAt (buf : List Char) (pid : Nat) : List Char := (buf.drop pid).takeWhile (· != nul)

/-- The token loop. A token takes at least one byte, so that `BUFRD` turns are enough. -/
def moveLines : Nat → Moving → Option Nat → Nat → Prog (Moving × Option Nat)
  | 0, moving, pid, _ => pure (moving, pid)
  | _ + 1, moving, none, _ => pure (moving, none)
  | turns + 1, moving, some pid, pid_ptr =>
      if moving.nleft ≠ 0 ∧ 6 < bufrd - 1 - pid then do
        let _ ← setkernvar system "tasks".toList (tokenAt moving.buf pid) (set.dry mskDrynotskpsh)
        let (next, pid_ptr, buf) := strtokR moving.buf pid_ptr
        moveLines turns ⟨buf, moving.nleft - (strlen moving.buf pid + 1)⟩ next pid_ptr
      else pure (moving, some pid)

/-- Copies leftover characters to the beginning of the buffer. -/
def keepLeft (moving : Moving) : Option Nat → Prog Moving
  | none => pure moving
  | some _ =>
      -- a negative size converts to one beyond the buffer
      if moving.nleft < 0 then .fail .segv
      else pure { moving with
        buf := memcpyFront moving.buf (bufrd - moving.nleft.toNat - 1) moving.nleft.toNat }

/-- What follows a successful read. -/
def moveWindow (moving : Moving) (got : List Char) : Prog Moving := do
  let (pid, pid_ptr, buf) := strtokR (readInto moving.buf moving.nleft.toNat got) 0
  let (parsed, left) ← moveLines set system bufrd ⟨buf, moving.nleft + got.length⟩ pid pid_ptr
  keepLeft parsed left

/-- The reads of the file, each of the bytes requested or of what remains; `turns` bounds
them. -/
def moveLoop : Nat → List Char → Moving → Prog Unit
  | 0, _, _ => .fail .abort
  | turns + 1, file, moving =>
      if moving.nleft < 0 ∨ (bufrd : Int) - 1 < moving.nleft then .fail .segv
      else
        let got := file.take (bufrd - moving.nleft.toNat - 1)
        if got = [] then pure ()
        else do
          let next ← moveWindow set system moving got
          moveLoop turns (file.drop (bufrd - moving.nleft.toNat - 1)) next

/-- The tasks of the root group, from `open` to `close`. -/
def moveTasks (buf : List Char) : Prog Unit := do
  match ← ask (.read (set.cgroupfilePath ++ "cpuset/tasks".toList)) with
  | none => pure ()
  | some file => moveLoop set system (file.length + 1) file { buf := buf }

end Tasks

section Prepare
variable (numa : Libnuma)

/-- The group of the system, and the tasks that move there. -/
def createSystem (set : Settings) (cpus buf : List Char) : Prog Unit := do
  let folder := set.cgroupfilePath ++ "cpuset/system/".toList
  if (← ask (.mkdir folder)) = .refused then pure ()
  else
    let _ ← setkernvar folder "cpuset.cpus".toList cpus (set.dry mskDrynoafty)
    let _ ← setkernvar folder "cpuset.mems".toList set.numa (set.dry mskDrynoafty)
    setExclusive set folder
    moveTasks set.toFixed folder buf

/-- `mlockall`, for all pages to come too where the capability mask says so. -/
def lockPages (set : Fixed) (capMask : Bool) : Prog Unit :=
  if set.lockPages then do
    if ← ask (.mlockall capMask) then pure () else .fail .exit
  else pure ()

-- PID of the orchestrator, configured container identifiers, what is on the stack below `buf`
variable (mpid : Int) (contids : List (Option (List Char))) (buf : List Char)

/-- What follows the setup of the CPUs, with the CPUs left for the system. -/
def shieldCPUs (set : Settings) (constr : List Char) (naffinity : Bitmask) :
    Prog (Int × Settings) := do
  match parseBitmask numa.bits naffinity cpustrlen.toUInt64 with
  | none => .fail .exit
  | some cpus =>
      let capMask ← getCapMask set.toFixed
      confineSelf mpid naffinity
      let set ← selectDetection set
      let kernelversion ← ask .checkKernel
      let set ← unthrottle { set with kernelversion := kernelversion } constr
      let set ← getRRslice set
      confineThreads set.toFixed naffinity
      pushIdle numa set
      resetContCGroups set constr set.numa
      setContCGroups set true
      forM contids (createCont set)
      createSystem set cpus buf
      lockPages set.toFixed capMask
      pure (0, set)

/-- The CPUs the system may use: all others, or the same where all are used. -/
def forSystem (set : Settings) (naffinity : Bitmask) : Bitmask :=
  if set.setaffinity = .useall then set.affinityMask else naffinity

/-- The body of `prepareEnvironment`, with what it does at a CPU that is not online. -/
def prepareOnce (offline : Settings → Prog (Int × Settings)) (set : Settings) :
    Prog (Int × Settings) := do
  if ← ask .numaAvailable then
    let (ret, set) ← reduceSMT numa set
    if ret ≠ 0 then pure (-1, set)
    else
      let (got, constr) ← getkernvar set.cpusystemfilePath "online".toList cpustrlen
      if got ≤ 0 then .fail .exit
      else
        match numa.parse constr with
        | none => .fail .exit
        | some con => do
            match ← setupCPUs set con (List.range numa.size) ∅ with
            | some naffinity =>
                shieldCPUs numa mpid contids buf set constr (forSystem set naffinity)
            | none => offline set
  else .fail .exit

/-- `prepareEnvironment`; `cpuretry` of the retries are left. -/
def prepareEnvironment : Nat → Settings → Prog (Int × Settings)
  | 0 => prepareOnce numa mpid contids buf fun _ => .fail .exit
  | cpuretry + 1 => prepareOnce numa mpid contids buf fun set =>
      if set.force then do
        resetCPUonline numa set.toFixed (some set.affinityMask)
        prepareEnvironment cpuretry set
      else .fail .exit

end Prepare

/-! From the options to the settings, in `process_options`. -/

section Defaults
variable (numa : Libnuma)

/-- `prgset_t` when options and configuration are read. No option and no line of the
configuration sets the mask. -/
structure Options extends Fixed where
  affinity : Option (List Char) := none
  affinityMask : Option Bitmask := none
  numa : Option (List Char) := none
  setaffinity : AffMode := .unspecified
  rrtime : Int := 0
  useCgroup : DetMode := .cgrp
  priority : Int := 0
  clocksel : Int := 0
  interval : Int := 5000
  deriving DecidableEq

/-- The list of the memory nodes. -/
def numaNodes : Prog (List Char) := do
  if ← ask .numaAvailable then
    let nodes ← ask .numaMaxNode
    pure ("0-".toList ++ Nat.toDigits 10 nodes)
  else pure ['0']

/-- The mask without its first CPU, `SYSCPUS`, if there are others. -/
def withoutSystem (mask : Bitmask) : Option Bitmask :=
  match (List.range numa.size).find? (· ∈ mask) with
  | none => none
  | some first => if (mask.erase first).card = 0 then none else some (mask.erase first)

/-- List and mask of all online CPUs but the first. -/
def defaultAffinity (set : Fixed) : Prog (List Char × Bitmask) := do
  let (got, defafin) ← getkernvar set.cpusystemfilePath "online".toList cpustrlen
  if got ≤ 0 then .fail .exit
  else
    match numa.parse defafin with
    | none => .fail .segv
    | some online =>
        match withoutSystem numa online with
        | none => .fail .exit
        | some mask =>
            match parseBitmask numa.bits mask cpustrlen.toUInt64 with
            | none => .fail .exit
            | some text => pure (text, mask)

/-- List, mask and mode, as the mode asks for them. -/
def affinityFor (set : Options) : Prog (List Char × Option Bitmask × AffMode) :=
  match set.setaffinity with
  | .numaseparated | .numabalanced => .fail .exit
  | .useall => do
      resetCPUonline numa set.toFixed set.affinityMask
      let conf ← ask .nprocsConf
      let defafin := "0-".toList ++ Nat.toDigits 10 (conf - 1)
      pure (defafin, numa.parseTask defafin, .useall)
  | .unspecified | .userspecified =>
      match set.affinity with
      | some affinity => pure (affinity, set.affinityMask, .userspecified)
      | none => do
          let (affinity, mask) ← defaultAffinity numa set.toFixed
          pure (affinity, some mask, .userspecified)

/-- The given list of memory nodes, or that of all. -/
def nodesFor (given : Option (List Char)) (mode : AffMode) : Prog (List Char) :=
  match given, mode with
  | some nodes, .userspecified => pure nodes
  | _, _ => numaNodes

/-- `setDefaultAffinity`; `none` for -1. -/
def setDefaultAffinity (set : Options) : Prog (Option Settings) := do
  let (affinity, mask, mode) ← affinityFor numa set
  let nodes ← nodesFor set.numa mode
  match mask <|> parseCpumask numa affinity with
  | none => pure none
  | some affinityMask =>
      pure (some {
        toFixed := set.toFixed, affinity, affinityMask, numa := nodes, setaffinity := mode
        rrtime := set.rrtime, useCgroup := set.useCgroup })

/-- Tasks with deadlines do not fork: they can not be found by their parents. -/
def forkedPolicy (policy : UInt32) (useCgroup : DetMode) : UInt32 :=
  if policy = schedDeadline ∧ useCgroup ≠ .cgrp then schedFifo else policy

/-- A priority makes the policy one that has priorities. -/
def ratedPolicy (policy : UInt32) (priority : Int) : UInt32 :=
  if priority ≠ 0 ∧ policy ≠ schedFifo ∧ policy ≠ schedRr then schedFifo else policy

/-- Such a policy has a priority. -/
def defaultPriority (policy : UInt32) (priority : Int) : Int :=
  if (policy = schedFifo ∨ policy = schedRr) ∧ priority = 0 then 10 else priority

/-- The checks of `process_options`: `none` where it prints the help and ends the program.
Short intervals have to be forced with the deadline policy. -/
def checkOptions (opts : Options) (set : Settings) : Option (Settings × Int) :=
  let forked := forkedPolicy set.policy set.useCgroup
  if opts.clocksel < 0 ∨ 3 < opts.clocksel then none
  else if opts.priority < 0 ∨ 99 < opts.priority then none
  else if forked = schedDeadline ∧ opts.interval < 1000 ∧ !set.force then none
  else
    let policy := ratedPolicy forked opts.priority
    some ({ set with policy := policy }, defaultPriority policy opts.priority)

/-- What `main` does with the options read, before it plans the schedule. The result is the
public `prgset` with its priority. -/
def startup (mpid : Int) (contids : List (Option (List Char))) (buf : List Char)
    (opts : Options) : Prog (Settings × Int) := do
  match ← setDefaultAffinity numa opts with
  | none => .fail .exit
  | some set =>
      match checkOptions opts set with
      | none => .fail .exit
      | some (set, priority) =>
          let (ret, set) ← prepareEnvironment numa mpid contids buf 1 set
          if ret ≠ 0 then .fail .exit else pure (set, priority)

end Defaults

end Orchestrator.Environment
