import Orchestrator.CpuList
import Orchestrator.Cstring
import Orchestrator.Requests
import Orchestrator.SmtSiblings

/-!
What the preparation of the environment asks of the system, and the settings it works
with: the files below `/sys`, `/proc` and the CGroup tree through `kernvar` of `kernutil.c`,
and the calls of the C library. Nothing is assumed of the answers.
-/

namespace Orchestrator.KernelFiles
open Orchdata Requests

/-- An entry of a directory: its name, and whether `d_type` is `DT_DIR`. -/
structure Dirent where
  name : List Char
  isDir : Bool
  deriving DecidableEq, Repr

/-- What `mkdir` comes to. -/
inductive Made where
  | made
  | exist
  | refused
  deriving DecidableEq, Repr

/-- What `stat` comes to; `errno` is `ENOENT` where there is nothing. -/
inductive Stat where
  | found (isDir : Bool)
  | missing
  | failed
  deriving DecidableEq, Repr

inductive Capability where
  | nice
  | resource
  | ipcLock
  deriving DecidableEq, Repr

inductive Request where
  /-- The text of a file, if it can be opened and read. -/
  | read (path : List Char)
  | write (path value : List Char)
  | mkdir (path : List Char)
  | stat (path : List Char)
  | readdir (path : List Char)
  | popen (command : List Char)
  | setaffinity (pid : Int) (mask : Bitmask)
  | getattr (pid : Int)
  | setattr (pid : Int) (attr : SchedAttr)
  /-- Whether it is in effect, where the test does not fail. -/
  | capability (cap : Capability)
  /-- `open_msr_file` and `get_smi_counter`. -/
  | smi (cpu : Nat)
  | checkKernel
  | nprocsConf
  | numaAvailable
  | numaMaxNode
  | mlockall (future : Bool)
  deriving DecidableEq

/-- The type of an answer. Success is `true`. -/
@[reducible] def Request.Answer : Request → Type
  | read _ => Option (List Char)
  | write _ _ => Bool
  | mkdir _ => Made
  | stat _ => Stat
  | readdir _ => Option (List Dirent)
  | popen _ => Option (List Char)
  | setaffinity _ _ => Bool
  | getattr _ => Option SchedAttr
  | setattr _ _ => Bool
  | capability _ => Option Bool
  | smi _ => Bool
  | checkKernel => Nat
  | nprocsConf => Nat
  | numaAvailable => Bool
  | numaMaxNode => Nat
  | mlockall _ => Bool

abbrev Prog := Program Request.Answer Stop

def ask (op : Request) : Prog op.Answer := Program.request op

/-- `_POSIX_PATH_MAX`. -/
def pathMax : Nat := 256

/-- `getkernvar`; nothing is opened where the path is too long. -/
def getkernvar (folder name : List Char) (size : Nat) : Prog (Int × List Char) :=
  if pathMax < folder.length + name.length + 1 then pure (-1, [])
  else do
    match ← ask (.read (folder ++ name)) with
    | none => pure (-1, [])
    | some text =>
        let (got, value) := SmtSiblings.getkernvar size text
        pure (got, value)

/-- `setkernvar`: a dry run reports success. -/
def setkernvar (folder name value : List Char) (dryrun : Bool) : Prog Int :=
  if dryrun then pure value.length
  else if pathMax < folder.length + name.length + 1 then pure (-1)
  else do
    let written ← ask (.write (folder ++ name) value)
    pure (if written then value.length else -1)

/-- `enum aff_mode`. -/
inductive AffMode where
  | unspecified
  | userspecified
  | numaseparated
  | numabalanced
  | useall
  deriving DecidableEq, Repr

def mskDrynosmtoff : UInt32 := 0x1
def mskDrynocpugov : UInt32 := 0x2
def mskDrynocpuqos : UInt32 := 0x2
def mskDrynortthrt : UInt32 := 0x4
def mskDrynortslce : UInt32 := 0x4
def mskDrynoktrdaf : UInt32 := 0x8
def mskDrynocgrprt : UInt32 := 0x10
def mskDrynoafty : UInt32 := 0x20
def mskDrynocpupsh : UInt32 := 0x40
def mskDrynotskpsh : UInt32 := 0x80

/-- The members of `prgset_t` that the preparation reads and no step of it writes. The four
paths are its members `procfileprefix` to `cpusetdfileprefix`. -/
structure Fixed where
  procfilePath : List Char
  cgroupfilePath : List Char
  cpusystemfilePath : List Char
  cpusetdfilePath : List Char
  policy : UInt32
  dryrun : UInt32
  blindrun : Bool
  lockPages : Bool
  force : Bool
  smi : Bool
  deriving DecidableEq, Repr

/-- `dryrun & mask`. -/
def Fixed.dry (set : Fixed) (mask : UInt32) : Bool := set.dryrun &&& mask ≠ 0

/-- The split of the machine: once the default affinity is set, `affinity`, its mask and
`numa` are there. -/
structure Shield extends Fixed where
  affinity : List Char
  affinityMask : Bitmask
  numa : List Char
  setaffinity : AffMode
  deriving DecidableEq

/-- The members of `prgset_t` the preparation works with; `trtl` is `MSK_STATTRTL` of the
status. -/
structure Settings extends Shield where
  rrtime : Int := 0
  useCgroup : DetMode := .cgrp
  kernelversion : Nat := 0
  trtl : Bool := false
  deriving DecidableEq

/-- What of libnuma the preparation uses: the bits of a mask and the readers of CPU lists,
`numa_parse_cpustring_all` and `numa_parse_cpustring`. -/
structure Libnuma where
  size : Nat
  parse : List Char → Option Bitmask
  parseTask : List Char → Option Bitmask

/-- The bits `parse_bitmask` walks: whole words. -/
def Libnuma.bits (numa : Libnuma) : Nat := (numa.size + 63) / 64 * 64

/-- `CPUSTRLEN`. -/
def cpustrlen : Nat := 64

/-- `sprintf(fstring, "cpu%d/...", cpu)`. -/
def cpuFile (cpu : Nat) (name : String) : List Char :=
  "cpu".toList ++ Nat.toDigits 10 cpu ++ name.toList

end Orchestrator.KernelFiles
