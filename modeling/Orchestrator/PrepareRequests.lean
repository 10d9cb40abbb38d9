import Orchestrator.Environment

/-!
What the preparation asks of the system, step by step: which files it writes with what, which
groups it creates and which threads it confines, and the flags that have to let it.
-/

namespace Orchestrator.PrepareRequests
open Orchdata Requests KernelFiles ContCGroups Environment
open Requests.Program (Keeps)

/-- Whether the flags of the CPU settings let a change through. -/
structure Forced (set : Fixed) (mask : UInt32) : Prop where
  dry : set.dry mask = false
  blind : set.blindrun = false
  force : set.force = true

/-- The files of the CPUs that are written. -/
inductive CpuWritten (set : Fixed) : List Char → List Char → Prop where
  | governor (cpu : Nat) (forced : Forced set mskDrynocpugov) :
      CpuWritten set (set.cpusystemfilePath ++ cpuFile cpu "/cpufreq/scaling_governor") cpugovr
  | frequency (cpu : Nat) (value : List Char) (forced : Forced set mskDrynocpugov) :
      CpuWritten set (set.cpusystemfilePath ++ cpuFile cpu "/cpufreq/scaling_min_freq") value
  | latency (cpu : Nat) (forced : Forced set mskDrynocpuqos) :
      CpuWritten set
        (set.cpusystemfilePath ++ cpuFile cpu "/power/pm_qos_resume_latency_us") "n/a".toList
  | smtOff (dry : set.dry mskDrynosmtoff = false) (force : set.force = true) :
      CpuWritten set (set.cpusystemfilePath ++ "smt/control".toList) "off".toList
  | smtOn (blind : set.blindrun = false) (force : set.force = true) :
      CpuWritten set (set.cpusystemfilePath ++ "smt/control".toList) "on".toList
  -- no flag is asked for these
  | turbo : CpuWritten set (set.cpusystemfilePath ++ "intel_pstate/no_turbo".toList) ['1']
  | online (cpu : Nat) (value : Char) :
      CpuWritten set (set.cpusystemfilePath ++ cpuFile cpu "/online") [value]

/-- A file of the groups the preparation sets up: that of the containers, those of single
containers and that of the system. -/
inductive GroupFile (set : Fixed) (name : String) : List Char → Prop where
  | containers : GroupFile set name (set.cpusetdfilePath ++ name.toList)
  | container (contid : List Char) (complete : isContid contid = true) :
      GroupFile set name (set.cpusetdfilePath ++ contid ++ '/' :: name.toList)
  | system :
      GroupFile set name (set.cgroupfilePath ++ "cpuset/system/".toList ++ name.toList)

/-- The files that are written once the CPUs are split, with `cpus` for the system and all
online CPUs in `constr`. -/
inductive Written (shield : Shield) (cpus constr : List Char) : List Char → List Char → Prop where
  | ofCpu {path value : List Char} (written : CpuWritten shield.toFixed path value) :
      Written shield cpus constr path value
  | throttle (value : List Char) (dry : shield.dry mskDrynortthrt = false) :
      Written shield cpus constr (shield.procfilePath ++ "sched_rt_runtime_us".toList) value
  | slice (value : List Char) (dry : shield.dry mskDrynortslce = false) :
      Written shield cpus constr (shield.procfilePath ++ "sched_rr_timeslice_ms".toList) value
  | contsCpus {value : List Char} (one : value = shield.affinity ∨ value = constr)
      (dry : shield.dry mskDrynoafty = false) :
      Written shield cpus constr (shield.cpusetdfilePath ++ "cpuset.cpus".toList) value
  | contCpus (contid : List Char) (complete : isContid contid = true)
      (dry : shield.dry mskDrynoafty = false) :
      Written shield cpus constr (shield.cpusetdfilePath ++ contid ++ "/cpuset.cpus".toList)
        shield.affinity
  | systemCpus (dry : shield.dry mskDrynoafty = false) :
      Written shield cpus constr
        (shield.cgroupfilePath ++ "cpuset/system/".toList ++ "cpuset.cpus".toList) cpus
  | mems {path : List Char} (value : List Char)
      (group : GroupFile shield.toFixed "cpuset.mems" path)
      (dry : shield.dry mskDrynoafty = false) : Written shield cpus constr path value
  | exclusive {path : List Char} (value : List Char)
      (group : GroupFile shield.toFixed "cpuset.cpu_exclusive" path)
      (dry : shield.dry mskDrynocgrprt = false) : Written shield cpus constr path value
  | task (value : List Char) (dry : shield.dry mskDrynotskpsh = false) :
      Written shield cpus constr
        (shield.cgroupfilePath ++ "cpuset/system/".toList ++ "tasks".toList) value

/-- The groups that are created: the containers' one where that is forced, one for each
complete identifier and one for the system. -/
inductive Created (set : Fixed) : List Char → Prop where
  | containers (force : set.force = true) : Created set set.cpusetdfilePath
  | container (contid : List Char) (complete : isContid contid = true) :
      Created set (set.cpusetdfilePath ++ contid)
  | system : Created set (set.cgroupfilePath ++ "cpuset/system/".toList)

/-- The requests of the steps that set up the CPUs. -/
def OnCpus (set : Fixed) : Request → Prop
  | .write path value => CpuWritten set path value
  | .mkdir _ | .setaffinity _ _ | .setattr _ _ | .mlockall _ | .popen _ => False
  | _ => True

/-- `ps` lists the threads of one of the kernel's patterns. -/
def ListsThreads (command : List Char) : Prop :=
  ∃ tag ∈ threadTags, command =
    "ps h -eo spid,command | grep -v 'grep' | grep -G '".toList ++ tag ++ ['\'']

/-- The requests of the steps that shield them, with `others` for the system. -/
def Shielding (shield : Shield) (mpid : Int) (others : Bitmask) (cpus constr : List Char) :
    Request → Prop
  | .write path value => Written shield cpus constr path value
  | .mkdir path => Created shield.toFixed path
  | .setaffinity pid mask => mask = others ∧ (pid = mpid ∨ shield.dry mskDrynoktrdaf = false)
  | .setattr pid _ => pid = mpid
  | .mlockall _ => shield.lockPages = true
  | .popen command => ListsThreads command ∧ shield.dry mskDrynoktrdaf = false
  | _ => True

section Files
variable {P : Request → Prop}

theorem getkernvar_keeps (reads : ∀ path, P (.read path)) (folder name : List Char)
    (size : Nat) : (getkernvar folder name size).Keeps P fun _ => True := by
  rw [getkernvar]
  split_ifs with long
  · trivial
  · refine Keeps.bind (Program.keeps_request (reads _)) fun text _ => ?_
    cases text <;> trivial

theorem setkernvar_keeps (folder name value : List Char) {dryrun : Bool}
    (writes : dryrun = false → P (.write (folder ++ name) value)) :
    (setkernvar folder name value dryrun).Keeps P fun _ => True := by
  cases dryrun with
  | true => trivial
  | false =>
      rw [setkernvar, if_neg Bool.false_ne_true]
      split_ifs with long
      · trivial
      · exact Keeps.bind (Program.keeps_request (writes rfl)) fun _ _ => trivial

theorem ask_keeps {op : Request} (asked : P op) : (ask op).Keeps P fun _ => True :=
  Program.keeps_request asked

end Files

section Rules
variable {α β : Type}

/-- A step that sets up CPUs. -/
abbrev Works (set : Fixed) (program : Prog α) : Prop :=
  program.Keeps (OnCpus set) fun _ => True

theorem Works.bind {set : Fixed} {program : Prog α} {rest : α → Prog β}
    (first : Works set program) (second : ∀ value, Works set (rest value)) :
    Works set (program >>= rest) :=
  Keeps.bind first fun value _ => second value

/-- It may change the split, but not the flags. -/
abbrev Tunes (set : Fixed) (kept : α → Settings) (program : Prog α) : Prop :=
  program.Keeps (OnCpus set) fun value => (kept value).toFixed = set

end Rules

section Machine
variable (numa : Libnuma) {set : Fixed}

theorem plug_works (value : Char) (cpu : Nat) : Works set (plug set value cpu) := by
  rw [plug]
  refine Works.bind (setkernvar_keeps _ _ _ fun _ => .online cpu value) fun ret => ?_
  split_ifs <;> trivial

theorem count_tasks_works (dirs : List Dirent) (count : Int) :
    Works set (countTasks set dirs count) := by
  induction dirs generalizing count with
  | nil => trivial
  | cons dir rest ih =>
      rw [countTasks]
      split_ifs with cont
      · refine Works.bind (ask_keeps trivial) fun text => ?_
        cases text with
        | none => trivial
        | some text => exact ih _
      · exact ih count

theorem count_cgroup_tasks_works : Works set (countCGroupTasks set) := by
  rw [countCGroupTasks]
  refine Works.bind (ask_keeps trivial) fun dirs => ?_
  cases dirs with
  | none => trivial
  | some dirs => exact count_tasks_works dirs 0

theorem reset_cpu_works (cpu : Nat) : Works set (resetCPU set cpu) := by
  rw [resetCPU]
  refine Works.bind (ask_keeps trivial) fun there => ?_
  have back : Works set (do
      let _ ← setkernvar set.cpusystemfilePath (cpuFile cpu "/online") ['1'] false) :=
    Works.bind (setkernvar_keeps _ _ _ fun _ => .online cpu '1') fun _ => trivial
  cases there with
  | found isDir => trivial
  | missing => exact back
  | failed => exact back

theorem reset_online_works (force : set.force = true) (mask : Option Bitmask) :
    Works set (resetCPUonline numa set mask) := by
  unfold resetCPUonline
  split_ifs with blind
  · trivial
  · refine Works.bind (setkernvar_keeps _ _ _ fun _ => .smtOn (by simpa using blind) force)
      fun ret => ?_
    split_ifs with refused
    · trivial
    · cases mask with
      | none => trivial
      | some mask => exact Keeps.each fun cpu _ => reset_cpu_works cpu

theorem test_smt_works : Works set (testSMT set) := by
  rw [testSMT]
  split_ifs with blind
  · trivial
  · refine Works.bind (getkernvar_keeps (fun _ => trivial) _ _ _) fun (got, str) => ?_
    dsimp only
    split_ifs <;> trivial

theorem disable_smt_works : Works set (disableSMT set) := by
  rw [disableSMT]
  split_ifs with dry force
  · trivial
  · trivial
  · refine Works.bind (setkernvar_keeps _ _ _ fun _ => .smtOff (by simpa using dry)
      (by simpa using force)) fun ret => ?_
    split_ifs <;> trivial

theorem push_works (set : Settings) :
    Works set.toFixed (pushCPUirqs numa set) :=
  Works.bind (Keeps.each fun cpu _ => plug_works '0' cpu) fun _ =>
    Keeps.each fun cpu _ => plug_works '1' cpu

theorem push_idle_works (set : Settings) : Works set.toFixed (pushIdle numa set) := by
  rw [pushIdle]
  refine Works.bind count_cgroup_tasks_works fun count => ?_
  split_ifs with idle
  · exact push_works numa set
  · trivial

theorem disable_sibling_tunes (i : Nat) (state : Settings) (flags : state.toFixed = set)
    (j : Nat) : Tunes set id (disableSibling i state j) := by
  subst flags
  rw [disableSibling]
  refine Keeps.ite (fun _ => rfl) fun _ => Keeps.ite (fun _ => rfl) fun _ => ?_
  exact Keeps.bind (setkernvar_keeps _ _ _ fun _ => .online _ '0') fun _ _ => rfl

theorem reset_string_fixed (set : Settings) :
    (resetCPUstring numa set).2.toFixed = set.toFixed := by
  rw [resetCPUstring]
  split <;> rfl

theorem disable_siblings_tunes (cpus : List Nat) (state : Settings)
    (flags : state.toFixed = set) : Tunes set Prod.snd (disableSiblings numa cpus state) := by
  induction cpus generalizing state with
  | nil =>
      rw [disableSiblings]
      exact (reset_string_fixed numa state).trans flags
  | cons i rest ih =>
      rw [disableSiblings]
      split_ifs with member
      · refine Keeps.bind (getkernvar_keeps (fun _ => trivial) _ _ _) fun (got, str) _ => ?_
        dsimp only
        split_ifs with missing
        · exact flags
        · split
          · exact flags
          · -- the siblings leave the mask one by one; none of them touches the flags
            refine Keeps.bind (Keeps.fold (I := fun next => next.toFixed = set)
              (fun j _ next same => disable_sibling_tunes i next same j) state flags) ?_
            exact fun next same => ih next same
      · exact ih state flags

theorem reset_mask_tunes (set : Settings) :
    Tunes set.toFixed Prod.snd (resetCPUmask numa set) := by
  rw [resetCPUmask]
  refine Keeps.bind (getkernvar_keeps (fun _ => trivial) _ _ _) fun (got, str) _ => ?_
  dsimp only
  split_ifs with missing
  · trivial
  · split
    · trivial
    · split_ifs
      · rfl
      · exact reset_string_fixed numa _
      · rfl

theorem reduce_smt_tunes (set : Settings) :
    Tunes set.toFixed Prod.snd (reduceSMT numa set) := by
  rw [reduceSMT]
  refine Keeps.bind test_smt_works fun smt _ => ?_
  split_ifs with off
  · rfl
  · refine Keeps.bind (disable_siblings_tunes numa _ set rfl) fun (failed, next) same => ?_
    dsimp only at same ⊢
    split_ifs with done
    · exact same
    · rw [← same]
      refine Keeps.bind disable_smt_works fun ret _ => ?_
      split_ifs
      · exact reset_mask_tunes numa next
      · rfl

end Machine

section Power
variable {set : Fixed}

theorem forced_of {mask : UInt32} (asked : ¬(set.dry mask || set.blindrun) = true)
    (force : ¬(!set.force) = true) : Forced set mask := by
  simp only [Bool.or_eq_true, not_or, Bool.not_eq_true, Bool.not_eq_true', Bool.not_eq_false]
    at asked force
  exact ⟨asked.1, asked.2, force⟩

theorem governor_works (cpu : Nat) : Works set (setCPUgovernor set cpu) := by
  rw [setCPUgovernor]
  refine Works.bind (getkernvar_keeps (fun _ => trivial) _ _ _) fun (got, str) => ?_
  refine Keeps.ite (fun _ => trivial) fun _ => Keeps.ite (fun _ => trivial) fun _ => ?_
  refine Works.bind (getkernvar_keeps (fun _ => trivial) _ _ _) fun (got, poss) => ?_
  refine Keeps.ite (fun _ => trivial) fun _ => Keeps.ite (fun _ => trivial) fun _ => ?_
  refine Keeps.ite (fun _ => trivial) fun asked => Keeps.ite (fun _ => trivial) fun force => ?_
  refine Works.bind (setkernvar_keeps _ _ _ fun _ => .governor cpu (forced_of asked force))
    fun ret => ?_
  split_ifs <;> trivial

theorem turbo_works : Works set (disableTurbo set) := by
  rw [disableTurbo]
  refine Works.bind (getkernvar_keeps (fun _ => trivial) _ _ _) fun (got, str) => ?_
  dsimp only
  split_ifs with on
  · exact Works.bind (setkernvar_keeps _ _ _ fun _ => .turbo) fun _ => trivial
  · trivial

theorem held_works (cpu : Nat) (noturbo : Bool) :
    Works set (heldFrequency set cpu noturbo) := by
  rw [heldFrequency]
  refine Works.bind (getkernvar_keeps (fun _ => trivial) _ _ _) fun (got, setfrq) => ?_
  dsimp only
  split_ifs with base turbo
  · trivial
  · trivial
  · refine Works.bind (getkernvar_keeps (fun _ => trivial) _ _ _) fun (got, setfrq) => ?_
    dsimp only
    split_ifs <;> trivial

theorem frequency_works (cpu : Nat) : Works set (adjustCPUfreq set cpu) := by
  rw [adjustCPUfreq]
  refine Works.bind turbo_works fun noturbo => Works.bind (held_works cpu noturbo) fun held => ?_
  cases held with
  | none => trivial
  | some setfrq =>
      refine Works.bind (getkernvar_keeps (fun _ => trivial) _ _ _) fun (got, str) => ?_
      dsimp only
      split_ifs with missing same asked
      · trivial
      · trivial
      · trivial
      · simp only [Bool.or_eq_true, not_or, Bool.not_eq_true, Bool.not_eq_true',
          Bool.not_eq_false] at asked
        exact Works.bind (setkernvar_keeps _ _ _ fun _ =>
          .frequency cpu setfrq ⟨asked.1.1, asked.1.2, asked.2⟩) fun _ => trivial

theorem latency_works (cpu : Nat) : Works set (setCPUpowerQos set cpu) := by
  rw [setCPUpowerQos]
  refine Works.bind (getkernvar_keeps (fun _ => trivial) _ _ _) fun (got, str) => ?_
  refine Keeps.ite (fun _ => trivial) fun _ => Keeps.ite (fun _ => trivial) fun _ => ?_
  refine Keeps.ite (fun _ => trivial) fun asked => Keeps.ite (fun _ => trivial) fun force => ?_
  refine Works.bind (setkernvar_keeps _ _ _ fun _ => .latency cpu (forced_of asked force))
    fun ret => ?_
  split_ifs <;> trivial

theorem setup_cpu_works (cpu : Nat) : Works set (setupCPU set cpu) := by
  rw [setupCPU]
  refine Works.bind (governor_works cpu) fun _ => Works.bind (frequency_works cpu) fun _ =>
    Works.bind (latency_works cpu) fun _ => ?_
  split_ifs with smi
  · refine Works.bind (ask_keeps trivial) fun read => ?_
    split_ifs <;> trivial
  · trivial

theorem setup_cpus_works (set : Settings) (con : Bitmask) (cpus : List Nat)
    (naffinity : Bitmask) : Works set.toFixed (setupCPUs set con cpus naffinity) := by
  induction cpus generalizing naffinity with
  | nil => trivial
  | cons cpu rest ih =>
      rw [setupCPUs]
      refine Keeps.ite (fun _ => Works.bind (setup_cpu_works cpu) fun _ => ih _) fun _ => ?_
      exact Keeps.ite (fun _ => trivial) fun _ => ih naffinity

end Power

section Shielding
variable {mpid : Int} {others : Bitmask} {cpus constr : List Char}

/-- A step that shields the CPUs, and leaves the split as it is. -/
abbrev Shields {α : Type} (shield : Shield) (mpid : Int) (others : Bitmask)
    (cpus constr : List Char) (program : Prog α) : Prop :=
  program.Keeps (Shielding shield mpid others cpus constr) fun _ => True

theorem Shields.bind {α β : Type} {shield : Shield} {program : Prog α} {rest : α → Prog β}
    (first : Shields shield mpid others cpus constr program)
    (second : ∀ value, Shields shield mpid others cpus constr (rest value)) :
    Shields shield mpid others cpus constr (program >>= rest) :=
  Keeps.bind first fun value _ => second value

abbrev Holds {α : Type} (shield : Shield) (mpid : Int) (others : Bitmask)
    (cpus constr : List Char) (kept : α → Settings) (program : Prog α) : Prop :=
  program.Keeps (Shielding shield mpid others cpus constr) fun value =>
    (kept value).toShield = shield

/-- Steps on the CPUs may also come in between. -/
theorem OnCpus.shielding {shield : Shield} {op : Request} (held : OnCpus shield.toFixed op) :
    Shielding shield mpid others cpus constr op := by
  cases op with
  | write path value => exact .ofCpu held
  | mkdir path => exact held.elim
  | setaffinity pid mask => exact held.elim
  | setattr pid attr => exact held.elim
  | mlockall future => exact held.elim
  | _ => trivial

theorem Works.shields {α : Type} {shield : Shield} {program : Prog α}
    (works : Works shield.toFixed program) : Shields shield mpid others cpus constr program :=
  Keeps.mono works (fun _ held => held.shielding) fun _ _ => trivial

variable {set : Settings}

theorem reset_cont_shields (dir : Dirent) :
    Shields set.toShield mpid others cpus constr (resetCont set.toFixed dir) := by
  rw [resetCont]
  split_ifs with cont
  · refine Shields.bind (setkernvar_keeps _ _ _ fun dry => ?_) fun _ => trivial
    exact .exclusive _ (.container dir.name (Bool.and_eq_true_iff.mp cont).2) dry
  · trivial

theorem reset_conts_shields :
    Shields set.toShield mpid others cpus constr (resetConts set.toFixed) := by
  rw [resetConts]
  refine Shields.bind (ask_keeps trivial) fun dirs => ?_
  cases dirs with
  | none => trivial
  | some dirs => exact Keeps.each fun dir _ => reset_cont_shields dir

theorem reset_cpus_shields :
    Shields set.toShield mpid others cpus constr (resetCpus set constr) := by
  rw [resetCpus]
  refine Shields.bind (setkernvar_keeps _ _ _ fun dry => .contsCpus (.inr rfl) dry) fun all => ?_
  split_ifs with refused
  · exact Shields.bind (setkernvar_keeps _ _ _ fun dry => .contsCpus (.inl rfl) dry)
      fun _ => trivial
  · trivial

theorem reset_shields (numastr : List Char) :
    Shields set.toShield mpid others cpus constr (resetContCGroups set constr numastr) := by
  rw [resetContCGroups]
  refine Shields.bind reset_conts_shields fun _ => ?_
  refine Shields.bind (setkernvar_keeps _ _ _ fun dry => .exclusive _ .containers dry) fun _ => ?_
  refine Shields.bind reset_cpus_shields fun _ => ?_
  exact Shields.bind (setkernvar_keeps _ _ _ fun dry => .mems _ .containers dry) fun _ => trivial

theorem set_cont_shields (dir : Dirent) :
    Shields set.toShield mpid others cpus constr (setCont set dir) := by
  rw [setCont]
  split_ifs with cont
  · have complete : isContid dir.name = true := (Bool.and_eq_true_iff.mp cont).2
    refine Shields.bind (setkernvar_keeps _ _ _ fun dry => .contCpus _ complete dry) fun _ => ?_
    exact Shields.bind (setkernvar_keeps _ _ _ fun dry => .mems _ (.container _ complete) dry)
      fun _ => trivial
  · trivial

theorem conts_first_shields (conts : Bool) :
    Shields set.toShield mpid others cpus constr (contsFirst set conts) := by
  rw [contsFirst]
  split_ifs with reassign
  · rw [setConts]
    refine Shields.bind (ask_keeps trivial) fun dirs => ?_
    cases dirs with
    | none => trivial
    | some dirs => exact Keeps.each fun dir _ => set_cont_shields dir
  · trivial

theorem set_exclusive_shields {folder : List Char}
    (group : GroupFile set.toFixed "cpuset.cpu_exclusive"
      (folder ++ "cpuset.cpu_exclusive".toList)) :
    Shields set.toShield mpid others cpus constr (setExclusive set folder) := by
  rw [setExclusive]
  split_ifs with all
  · exact Shields.bind (setkernvar_keeps _ _ _ fun dry => .exclusive _ group dry) fun _ => trivial
  · trivial

theorem set_shields (conts : Bool) :
    Shields set.toShield mpid others cpus constr (setContCGroups set conts) := by
  rw [setContCGroups]
  refine Shields.bind (conts_first_shields conts) fun _ => ?_
  refine Shields.bind (setkernvar_keeps _ _ _ fun dry => .contsCpus (.inl rfl) dry) fun _ => ?_
  refine Shields.bind (setkernvar_keeps _ _ _ fun dry => .mems _ .containers dry) fun _ => ?_
  exact set_exclusive_shields .containers

theorem throttle_value_shields (percent : Int) :
    Shields set.toShield mpid others cpus constr (throttleValue set.toFixed percent) := by
  rw [throttleValue]
  split_ifs with all
  · trivial
  · refine Shields.bind (getkernvar_keeps (fun _ => trivial) _ _ _) fun (got, buf) => ?_
    dsimp only
    split_ifs <;> trivial

theorem reset_throttle_holds (percent : Int) :
    Holds set.toShield mpid others cpus constr Prod.snd (resetRTthrottle set percent) := by
  rw [resetRTthrottle]
  refine Keeps.bind (throttle_value_shields percent) fun value _ => ?_
  refine Keeps.bind (setkernvar_keeps _ _ _ fun dry => .throttle value dry) fun ret _ => ?_
  split_ifs with refused
  · rfl
  · rfl

theorem capability_shields (cap : Capability) :
    Shields set.toShield mpid others cpus constr (testCapability set.toFixed cap) := by
  rw [testCapability]
  refine Shields.bind (ask_keeps trivial) fun effective => ?_
  cases effective with
  | none => trivial
  | some effective =>
      dsimp only
      split_ifs <;> trivial

theorem cap_mask_shields :
    Shields set.toShield mpid others cpus constr (getCapMask set.toFixed) :=
  Shields.bind (capability_shields .nice) fun _ =>
    Shields.bind (capability_shields .resource) fun _ =>
      Shields.bind (capability_shields .ipcLock) fun _ => trivial

theorem confine_self_shields :
    Shields set.toShield mpid others cpus constr (confineSelf mpid others) := by
  rw [confineSelf, promoteSelf]
  refine Shields.bind (Shields.bind (ask_keeps trivial) fun attr => ?_) fun _ =>
    Shields.bind (ask_keeps ⟨rfl, Or.inl rfl⟩) fun _ => trivial
  cases attr with
  | none => trivial
  | some attr => exact Shields.bind (ask_keeps rfl) fun _ => trivial

theorem find_cgroup_shields :
    Shields set.toShield mpid others cpus constr (findCGroup set.toFixed) := by
  rw [findCGroup]
  refine Shields.bind (ask_keeps trivial) fun there => ?_
  cases there with
  | found isDir =>
      dsimp only
      split_ifs <;> trivial
  | failed => trivial
  | missing =>
      dsimp only
      split_ifs with force
      · refine Shields.bind (ask_keeps (.containers force)) fun answer => ?_
        split_ifs <;> trivial
      · trivial

theorem detection_holds :
    Holds set.toShield mpid others cpus constr id (selectDetection set) := by
  rw [selectDetection]
  refine Keeps.bind find_cgroup_shields fun there _ => ?_
  split_ifs
  · rfl
  · trivial
  · rfl

theorem unthrottle_holds :
    Holds set.toShield mpid others cpus constr id (unthrottle set constr) := by
  rw [unthrottle]
  refine Keeps.bind (reset_throttle_holds (-1)) fun (ret, next) same => ?_
  dsimp only at same ⊢
  split_ifs with done
  · exact same
  · -- refused: the CPU sets are reset, then the throttle is tried again
    rw [← same]
    refine Keeps.bind (reset_shields next.numa) fun _ _ => ?_
    refine Keeps.bind (set_shields true) fun _ _ => ?_
    exact Keeps.bind (reset_throttle_holds (-1)) fun last same => same

theorem slice_holds : Holds set.toShield mpid others cpus constr id (getRRslice set) := by
  rw [getRRslice]
  split_ifs with given
  · exact Keeps.bind (setkernvar_keeps _ _ _ fun dry => .slice _ dry) fun _ _ => rfl
  · refine Keeps.bind (getkernvar_keeps (fun _ => trivial) _ _ _) fun (got, str) _ => ?_
    dsimp only
    split_ifs <;> rfl

theorem threads_shields :
    Shields set.toShield mpid others cpus constr (confineThreads set.toFixed others) := by
  rw [confineThreads]
  split_ifs with dry
  · trivial
  · refine Keeps.each fun tag inside => ?_
    rw [setPidMask]
    refine Shields.bind (ask_keeps ⟨⟨tag, inside, rfl⟩, by simpa using dry⟩) fun output => ?_
    cases output with
    | none => trivial
    | some output =>
        refine Keeps.each fun pidline _ => ?_
        split
        · trivial
        · exact Shields.bind (ask_keeps ⟨rfl, Or.inr (by simpa using dry)⟩) fun _ => trivial

theorem create_cont_shields (contid : Option (List Char)) :
    Shields set.toShield mpid others cpus constr (createCont set contid) := by
  cases contid with
  | none => trivial
  | some contid =>
    rw [createCont]
    split_ifs with complete
    · refine Shields.bind (ask_keeps (.container contid complete)) fun answer => ?_
      split_ifs with refused
      · trivial
      · refine Shields.bind (setkernvar_keeps _ _ _ fun dry =>
          .contCpus contid complete dry) fun _ => ?_
        exact Shields.bind (setkernvar_keeps _ _ _ fun dry =>
          .mems _ (.container contid complete) dry) fun _ => trivial
    · trivial

theorem move_lines_shields {system : List Char}
    (place : system = set.cgroupfilePath ++ "cpuset/system/".toList) (turns : Nat)
    (moving : Moving) (pid : Option Nat) (pid_ptr : Nat) :
    Shields set.toShield mpid others cpus constr
      (moveLines set.toFixed system turns moving pid pid_ptr) := by
  subst place
  -- whatever token the buffer has next: it goes to the same file
  induction turns generalizing moving pid pid_ptr with
  | zero => trivial
  | succ turns ih =>
      cases pid with
      | none => trivial
      | some pid =>
          rw [moveLines]
          split_ifs with token
          · exact Shields.bind (setkernvar_keeps _ _ _ fun dry => .task _ dry) fun _ => ih _ _ _
          · trivial

theorem move_loop_shields {system : List Char}
    (place : system = set.cgroupfilePath ++ "cpuset/system/".toList) (turns : Nat)
    (file : List Char) (moving : Moving) :
    Shields set.toShield mpid others cpus constr
      (moveLoop set.toFixed system turns file moving) := by
  induction turns generalizing file moving with
  | zero => trivial
  | succ turns ih =>
      rw [moveLoop]
      split_ifs with outside
      · trivial
      · dsimp only
        split_ifs with ended
        · trivial
        · refine Shields.bind ?_ fun _ => ih _ _
          rw [moveWindow]
          refine Shields.bind (move_lines_shields place _ _ _ _) fun (parsed, left) => ?_
          cases left with
          | none => trivial
          | some pid =>
              dsimp only [keepLeft]
              split_ifs <;> trivial

theorem create_system_shields (buf : List Char) :
    Shields set.toShield mpid others cpus constr (createSystem set cpus buf) := by
  rw [createSystem]
  refine Shields.bind (ask_keeps .system) fun answer => ?_
  split_ifs with refused
  · trivial
  · refine Shields.bind (setkernvar_keeps _ _ _ fun dry => .systemCpus dry) fun _ => ?_
    refine Shields.bind (setkernvar_keeps _ _ _ fun dry => .mems _ .system dry) fun _ => ?_
    refine Shields.bind (set_exclusive_shields .system) fun _ => ?_
    rw [moveTasks]
    refine Shields.bind (ask_keeps trivial) fun file => ?_
    cases file with
    | none => trivial
    | some file => exact move_loop_shields rfl _ _ _

theorem lock_pages_shields (capMask : Bool) :
    Shields set.toShield mpid others cpus constr (lockPages set.toFixed capMask) := by
  rw [lockPages]
  split_ifs with asked
  · refine Shields.bind (ask_keeps asked) fun locked => ?_
    split_ifs <;> trivial
  · trivial

/-- Once the CPUs are set up: everything is asked for the split at hand, which stays. -/
theorem shield_holds (numa : Libnuma) (contids : List (Option (List Char))) (buf : List Char)
    (listed : Kernutil.parseBitmask numa.bits others cpustrlen.toUInt64 = some cpus) :
    (shieldCPUs numa mpid contids buf set constr others).Keeps
      (Shielding set.toShield mpid others cpus constr)
      fun value => value.1 = 0 ∧ value.2.toShield = set.toShield := by
  rw [shieldCPUs, listed]
  refine Keeps.bind cap_mask_shields fun capMask _ => ?_
  refine Keeps.bind confine_self_shields fun _ _ => ?_
  refine Keeps.bind detection_holds fun detected same => ?_
  refine Keeps.bind (ask_keeps trivial) fun kernel _ => ?_
  -- these steps write settings, but none that the requests depend on
  rw [← (show detected.toShield = set.toShield from same)]
  have freed := @unthrottle_holds mpid others cpus constr
    { detected with kernelversion := kernel }
  refine Keeps.bind freed fun free same => ?_
  rw [← (show free.toShield = detected.toShield from same)]
  refine Keeps.bind slice_holds fun sliced same => ?_
  rw [← (show sliced.toShield = free.toShield from same)]
  refine Keeps.bind threads_shields fun _ _ => ?_
  refine Keeps.bind (push_idle_works numa sliced).shields fun _ _ => ?_
  refine Keeps.bind (reset_shields sliced.numa) fun _ _ => ?_
  refine Keeps.bind (set_shields true) fun _ _ => ?_
  refine Keeps.bind (Keeps.each fun contid _ => create_cont_shields contid) fun _ _ => ?_
  refine Keeps.bind (create_system_shields buf) fun _ _ => ?_
  exact Keeps.bind (lock_pages_shields capMask) fun _ _ => ⟨rfl, rfl⟩

end Shielding

end Orchestrator.PrepareRequests
