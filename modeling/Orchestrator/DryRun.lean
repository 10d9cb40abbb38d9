import Orchestrator.PrepareRequests

/-!
What the preparation may change: each change stands under the flags its function asks, in
every run, and the few that no flag holds back are named.
-/

namespace Orchestrator.DryRun
open Orchdata Requests KernelFiles ContCGroups Environment PrepareRequests
open Requests.Program (Keeps)

/-- A write is within the flags: `Written`, whatever the split of the CPUs. -/
def WriteAllowed (set : Fixed) (path value : List Char) : Prop :=
  ∃ shield cpus constr, shield.toFixed = set ∧ Written shield cpus constr path value

/-- Requests that change something are within the flags; the others are free. -/
def Permitted (set : Fixed) (mpid : Int) : Request → Prop
  | .write path value => WriteAllowed set path value
  | .mkdir path => Created set path
  | .setaffinity pid _ => pid = mpid ∨ set.dry mskDrynoktrdaf = false
  | .setattr pid _ => pid = mpid
  | .mlockall _ => set.lockPages = true
  | .popen command => ListsThreads command ∧ set.dry mskDrynoktrdaf = false
  | _ => True

/-- All changes of a step are permitted, and the settings keep their flags. -/
abbrev Passes {α : Type} (set : Fixed) (mpid : Int) (kept : α → Settings)
    (program : Prog α) : Prop :=
  program.Keeps (Permitted set mpid) fun value => (kept value).toFixed = set

theorem shielding_permitted {shield : Shield} {mpid : Int} {others : Bitmask}
    {cpus constr : List Char} (op : Request) (asked : Shielding shield mpid others cpus constr op) :
    Permitted shield.toFixed mpid op := by
  cases op with
  | write path value => exact ⟨shield, cpus, constr, rfl, asked⟩
  | setaffinity pid mask => exact asked.2
  | mkdir path => exact asked
  | setattr pid attr => exact asked
  | mlockall future => exact asked
  | popen command => exact asked
  | _ => trivial

theorem on_cpus_permitted (shield : Shield) (mpid : Int) (op : Request)
    (asked : OnCpus shield.toFixed op) : Permitted shield.toFixed mpid op := by
  cases op with
  | write path value => exact ⟨shield, [], [], rfl, .ofCpu asked⟩
  | setaffinity pid mask => exact asked.elim
  | mkdir path => exact asked.elim
  | setattr pid attr => exact asked.elim
  | mlockall future => exact asked.elim
  | popen command => exact asked.elim
  | _ => trivial

section Prepare
variable (numa : Libnuma) (mpid : Int) (contids : List (Option (List Char))) (buf : List Char)

theorem shield_passes (set : Settings) (constr : List Char) (others : Bitmask) :
    Passes set.toFixed mpid Prod.snd (shieldCPUs numa mpid contids buf set constr others) := by
  cases listed : Kernutil.parseBitmask numa.bits others cpustrlen.toUInt64 with
  | none =>
      rw [shieldCPUs, listed]
      trivial
  | some cpus =>
      exact (shield_holds numa contids buf listed).mono shielding_permitted
        fun value held => congrArg Shield.toFixed held.2

/-- One attempt, whatever it does where a CPU is off-line. -/
theorem once_passes (set : Settings) {offline : Settings → Prog (Int × Settings)}
    (goes : ∀ next : Settings, next.toFixed = set.toFixed →
      Passes set.toFixed mpid Prod.snd (offline next)) :
    Passes set.toFixed mpid Prod.snd (prepareOnce numa mpid contids buf offline set) := by
  rw [prepareOnce]
  refine Keeps.bind (ask_keeps trivial) fun available _ => ?_
  refine Keeps.ite (fun _ => ?_) fun _ => trivial
  have reduced := (reduce_smt_tunes numa set).mono (on_cpus_permitted set.toShield mpid)
    fun _ same => same
  refine Keeps.bind reduced fun (ret, next) same => ?_
  have flags : next.toFixed = set.toFixed := same
  refine Keeps.ite (fun _ => flags) fun _ => ?_
  refine Keeps.bind (getkernvar_keeps (fun _ => trivial) _ _ _) fun (got, constr) _ => ?_
  refine Keeps.ite (fun _ => trivial) fun _ => ?_
  rw [← flags]
  split
  · trivial
  · rename_i con _
    have setup := (setup_cpus_works next con (List.range numa.size) ∅).mono
      (on_cpus_permitted next.toShield mpid) fun _ held => held
    refine Keeps.bind setup fun naffinity _ => ?_
    cases naffinity with
    | none =>
        rw [flags]
        exact goes next flags
    | some naffinity => exact shield_passes numa mpid contids buf next constr _

theorem prepare_passes (cpuretry : Nat) (set : Settings) :
    Passes set.toFixed mpid Prod.snd
      (prepareEnvironment numa mpid contids buf cpuretry set) := by
  induction cpuretry generalizing set with
  | zero => exact once_passes numa mpid contids buf set fun _ _ => trivial
  | succ cpuretry ih =>
      -- a retry sees the settings of the attempt before, with the same flags
      refine once_passes numa mpid contids buf set fun next same => ?_
      rw [← same]
      refine Keeps.ite (fun force => ?_) fun _ => trivial
      have online := (reset_online_works numa force (some next.affinityMask)).mono
        (on_cpus_permitted next.toShield mpid) fun _ held => held
      exact Keeps.bind online fun _ _ => ih next

/-- Whatever the system answers, no step of the preparation changes anything its flags hold
back, also where the program ends or starts over. -/
theorem changes_permitted (cpuretry : Nat) (set : Settings)
    {trace : List (Exchange Request.Answer)} {result : Except Stop (Int × Settings)}
    (run : Program.Runs (prepareEnvironment numa mpid contids buf cpuretry set) trace result) :
    ∀ exchange ∈ trace, Permitted set.toFixed mpid exchange.1 :=
  (prepare_passes numa mpid contids buf cpuretry set).requests run

end Prepare

section Sample

/-- Two CPUs, the second for real-time tasks. -/
def twoThreads : Libnuma where
  size := 2
  parse := fun _ => some {0, 1}
  parseTask := fun _ => some {0, 1}

def dryShield : Settings where
  procfilePath := "/proc/".toList
  cgroupfilePath := "/cgroup/".toList
  cpusystemfilePath := "/cpu/".toList
  cpusetdfilePath := "/cgroup/docker/".toList
  policy := schedFifo
  dryrun := 0xFFFF
  blindrun := false
  lockPages := true
  force := true
  smi := false
  affinity := ['1']
  affinityMask := {1}
  numa := ['0']
  setaffinity := .userspecified

/-- SMT and frequency scaling are not there, nothing runs in a container, all that is asked
for is done. -/
def idleSystem : (op : Request) → Unit → op.Answer × Unit
  | .read path, state =>
      (if path = "/cpu/smt/control".toList then some "off\n".toList
      else if path = "/cpu/online".toList then some "0-1\n".toList else none, state)
  | .write _ _, state => (true, state)
  | .mkdir _, state => (.made, state)
  | .stat _, state => (.found true, state)
  | .readdir _, state => (some [], state)
  | .popen _, state => (none, state)
  | .setaffinity _ _, state => (true, state)
  | .getattr _, state => (none, state)
  | .setattr _ _, state => (true, state)
  | .capability _, state => (some true, state)
  | .smi _, state => (true, state)
  | .checkKernel, state => ((0 : Nat), state)
  | .nprocsConf, state => ((2 : Nat), state)
  | .numaAvailable, state => (true, state)
  | .numaMaxNode, state => ((0 : Nat), state)
  | .mlockall _, state => (true, state)

def dryExchanges : List (Exchange Request.Answer) :=
  (Program.execute idleSystem (prepareEnvironment twoThreads 7 [] [] 1 dryShield) ()).1

def writes (trace : List (Exchange Request.Answer)) : List (List Char × List Char) :=
  trace.filterMap fun exchange =>
    match exchange.1 with
    | .write path value => some (path, value)
    | _ => none

/-- A run with all dry flags still takes the real-time CPU off-line and back. -/
theorem dry_run_pushes :
    writes dryExchanges = [("/cpu/cpu1/online".toList, ['0']), ("/cpu/cpu1/online".toList, ['1'])] ∧
      ∀ exchange ∈ dryExchanges, Permitted dryShield.toFixed 7 exchange.1 :=
  ⟨by decide, changes_permitted twoThreads 7 [] [] 1 dryShield (Program.execute_runs _ _ _)⟩

end Sample

end Orchestrator.DryRun
