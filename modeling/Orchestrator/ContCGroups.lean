import Orchestrator.KernelFiles

/-!
The CPU sets of the containers' CGroup and the real-time throttle: `resetContCGroups`,
`setContCGroups` and `resetRTthrottle` of `resmgnt.c`.
-/

namespace Orchestrator.ContCGroups
open Orchdata Requests KernelFiles Cstring

/-- A character of a container identifier. -/
def inContid (c : Char) : Bool := c ∈ "abcdef1234567890".toList

/-- `64 == strspn(name, "abcdef1234567890")`. -/
def isContid (name : List Char) : Bool := (name.takeWhile inContid).length = 64

/-- The container groups among the entries of the directory. -/
def Dirent.isCont (dir : Dirent) : Bool := dir.isDir && isContid dir.name

/-- Body of the loop of `resetContCGroups`. -/
def resetCont (set : Fixed) (dir : Dirent) : Prog Unit :=
  if Dirent.isCont dir then do
    let _ ← setkernvar (set.cpusetdfilePath ++ dir.name) "/cpuset.cpu_exclusive".toList ['0']
      (set.dry mskDrynocgrprt)
  else pure ()

/-- Clears the exclusive flags of all containers. -/
def resetConts (set : Fixed) : Prog Unit := do
  match ← ask (.readdir set.cpusetdfilePath) with
  | none => pure ()
  | some dirs => forM dirs (resetCont set)

/-- All online CPUs for the group; if that fails, the affinity only. -/
def resetCpus (set : Settings) (constr : List Char) : Prog Unit := do
  let all ← setkernvar set.cpusetdfilePath "cpuset.cpus".toList constr (set.dry mskDrynoafty)
  if all < 0 then do
    let _ ← setkernvar set.cpusetdfilePath "cpuset.cpus".toList set.affinity
      (set.dry mskDrynoafty)

def resetContCGroups (set : Settings) (constr numastr : List Char) : Prog Unit := do
  resetConts set.toFixed
  let _ ← setkernvar set.cpusetdfilePath "cpuset.cpu_exclusive".toList ['0']
    (set.dry mskDrynocgrprt)
  resetCpus set constr
  let _ ← setkernvar set.cpusetdfilePath "cpuset.mems".toList numastr (set.dry mskDrynoafty)

/-- Body of the loop of `setContCGroups`. -/
def setCont (set : Settings) (dir : Dirent) : Prog Unit :=
  if Dirent.isCont dir then do
    let _ ← setkernvar (set.cpusetdfilePath ++ dir.name) "/cpuset.cpus".toList set.affinity
      (set.dry mskDrynoafty)
    let _ ← setkernvar (set.cpusetdfilePath ++ dir.name) "/cpuset.mems".toList set.numa
      (set.dry mskDrynoafty)
  else pure ()

/-- The affinity for all containers. -/
def setConts (set : Settings) : Prog Unit := do
  match ← ask (.readdir set.cpusetdfilePath) with
  | none => pure ()
  | some dirs => forM dirs (setCont set)

/-- A group has its CPUs for itself, unless the affinity is all CPUs. -/
def setExclusive (set : Settings) (folder : List Char) : Prog Unit :=
  if set.setaffinity ≠ .useall then do
    let _ ← setkernvar folder "cpuset.cpu_exclusive".toList ['1'] (set.dry mskDrynocgrprt)
  else pure ()

/-- The first block of `setContCGroups`. -/
def contsFirst (set : Settings) (conts : Bool) : Prog Unit :=
  if conts then setConts set else pure ()

def setContCGroups (set : Settings) (conts : Bool) : Prog Unit := do
  contsFirst set conts
  let _ ← setkernvar set.cpusetdfilePath "cpuset.cpus".toList set.affinity (set.dry mskDrynoafty)
  let _ ← setkernvar set.cpusetdfilePath "cpuset.mems".toList set.numa (set.dry mskDrynoafty)
  setExclusive set set.cpusetdfilePath

/-- `RTLIM_UNL` and `RTLIM_DEF`. -/
def rtlimUnl : List Char := "-1".toList
def rtlimDef : List Char := "950000".toList

/-- `sprintf(buf, "%ld", number)`. -/
def printLong (number : Int) : List Char :=
  if number < 0 then '-' :: Nat.toDigits 10 number.natAbs else Nat.toDigits 10 number.natAbs

/-- The value `resetRTthrottle` writes: a share of the period, or a default. -/
def throttleValue (set : Fixed) (percent : Int) : Prog (List Char) :=
  if percent = -1 then pure rtlimUnl
  else do
    let (got, buf) ← getkernvar set.procfilePath "sched_rt_period_us".toList 20
    if got < 0 then pure rtlimDef
    else
      let period := atoi buf
      if period ≠ 0 then pure (printLong ((period * min (max percent 10) 100).tdiv 100))
      else pure rtlimDef

def resetRTthrottle (set : Settings) (percent : Int) : Prog (Int × Settings) := do
  let value ← throttleValue set.toFixed percent
  let ret ← setkernvar set.procfilePath "sched_rt_runtime_us".toList value
    (set.dry mskDrynortthrt)
  if ret < 0 then pure (-1, set) else pure (0, { set with trtl := true })

end Orchestrator.ContCGroups
