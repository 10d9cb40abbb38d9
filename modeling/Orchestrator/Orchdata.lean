import Mathlib.Data.Finset.Basic
import Mathlib.Data.Rat.Defs
import Mathlib.Logic.Function.Basic

/-!
The memory structures of `orchdata.h`. A pointer is the address of an object in
a typed store, `NULL` is `none`, and a linked list is the list of its element
addresses in list order. Status words are records of their flags: the program
only sets, clears and tests single bits of them.
-/

namespace Orchestrator.Orchdata

/-- CPU masks of libnuma all have the same size, so a mask is its set of bits. -/
abbrev Bitmask := Finset Nat

/-- `numa_bitmask_isbitset`: a negative CPU number converts to an unsigned value
beyond every mask. -/
def isbitset (mask : Bitmask) (cpu : Int) : Bool := decide (0 ≤ cpu ∧ cpu.toNat ∈ mask)

/-- A C string: the address of its first byte and the text up to the `NUL`. -/
structure Str where
  loc : Nat
  text : List Char
  deriving DecidableEq, Repr

def intMax : Int := 2147483647
def intMin : Int := -2147483648

/-- Value of a C integer expression stored in an `int`. -/
def toInt32 (value : Int) : Int := Int.bmod value 4294967296

/-- `(int64_t)` of an unsigned 64-bit value. -/
def toInt64 (value : UInt64) : Int := Int.bmod value.toNat 18446744073709551616

/-- Conversion of a signed value to `uint64_t`. -/
def toUInt64 (value : Int) : UInt64 := UInt64.ofNat (value % 18446744073709551616).toNat

/-- Conversion of a signed value to `uint32_t`. -/
def toUInt32 (value : Int) : UInt32 := UInt32.ofNat (value % 4294967296).toNat

def schedOther : UInt32 := 0
def schedFifo : UInt32 := 1
def schedRr : UInt32 := 2
def schedBatch : UInt32 := 3
def schedIdle : UInt32 := 5
def schedDeadline : UInt32 := 6
/-- `SCHED_NODATA`: no scheduling data. -/
def schedNodata : UInt32 := 0xFFFF

/-- `struct sched_attr`, without its constant `size`. -/
structure SchedAttr where
  schedPolicy : UInt32 := 0
  schedFlags : UInt64 := 0
  schedNice : Int := 0
  schedPriority : UInt32 := 0
  schedRuntime : UInt64 := 0
  schedDeadline : UInt64 := 0
  schedPeriod : UInt64 := 0
  deriving DecidableEq, Repr, Inhabited

/-- `struct sched_rscs`. -/
structure SchedRscs where
  affinity : Int := 0
  affinityMask : Option Bitmask := none
  rtTimew : Int := 0
  rtTime : Int := 0
  memDataw : Int := 0
  memData : Int := 0
  deriving DecidableEq, Inhabited

/-- Status flags of configurations, `MSK_STATCFIX` to `MSK_STATSHRC`. -/
structure ParmStatus where
  cfix : Bool := false
  ccrt : Bool := false
  shat : Bool := false
  shrc : Bool := false
  deriving DecidableEq, Repr, Inhabited

/-- The members `img_t`, `cont_t` and `pidc_t` have in common; a cast between
the three types reaches these and `pids`. -/
structure Parm where
  status : ParmStatus := {}
  attr : Nat := 0
  rscs : Nat := 0
  deriving DecidableEq, Inhabited

/-- A `cont_t *`: parser and lookup also store images under this type. -/
inductive ContPtr where
  | cont (c : Nat)
  | img (i : Nat)
  deriving DecidableEq, Repr

structure Pidc extends Parm where
  psig : Option Str := none
  cont : Option ContPtr := none
  img : Option Nat := none
  deriving DecidableEq, Inhabited

structure Cont extends Parm where
  contid : Option Str := none
  pids : List Nat := []
  img : Option Nat := none
  deriving DecidableEq, Inhabited

structure Img extends Parm where
  imgid : Option Str := none
  pids : List Nat := []
  conts : List Nat := []
  deriving DecidableEq, Inhabited

/-- `containers_t` together with the objects its pointers lead to. `brk` is the
next free address; address `0` is `NULL`. -/
structure Containers where
  img : List Nat := []
  cont : List Nat := []
  pids : List Nat := []
  attr : Nat := 0
  rscs : Nat := 0
  nthreads : UInt32 := 0
  numCont : UInt32 := 0
  imgAt : Nat → Img := fun _ => {}
  contAt : Nat → Cont := fun _ => {}
  pidcAt : Nat → Pidc := fun _ => {}
  attrAt : Nat → SchedAttr := fun _ => {}
  rscsAt : Nat → SchedRscs := fun _ => {}
  brk : Nat := 1

namespace Containers

def setImg (conts : Containers) (i : Nat) (value : Img) : Containers :=
  { conts with imgAt := Function.update conts.imgAt i value }

def setCont (conts : Containers) (c : Nat) (value : Cont) : Containers :=
  { conts with contAt := Function.update conts.contAt c value }

def setPidc (conts : Containers) (p : Nat) (value : Pidc) : Containers :=
  { conts with pidcAt := Function.update conts.pidcAt p value }

def setAttr (conts : Containers) (a : Nat) (value : SchedAttr) : Containers :=
  { conts with attrAt := Function.update conts.attrAt a value }

def setRscs (conts : Containers) (r : Nat) (value : SchedRscs) : Containers :=
  { conts with rscsAt := Function.update conts.rscsAt r value }

/-- `sched_attr` object at a fresh address. -/
def newAttr (conts : Containers) (value : SchedAttr) : Containers × Nat :=
  ({ conts with
    attrAt := Function.update conts.attrAt conts.brk value
    brk := conts.brk + 1 }, conts.brk)

def newRscs (conts : Containers) (value : SchedRscs) : Containers × Nat :=
  ({ conts with
    rscsAt := Function.update conts.rscsAt conts.brk value
    brk := conts.brk + 1 }, conts.brk)

/-- `strdup`. -/
def strdup (conts : Containers) (text : List Char) : Containers × Str :=
  ({ conts with brk := conts.brk + 1 }, ⟨conts.brk, text⟩)

/-- `push((void**)&conts->img, sizeof(img_t))`: a zeroed element in front. -/
def pushImg (conts : Containers) : Containers :=
  { conts with
    img := conts.brk :: conts.img
    imgAt := Function.update conts.imgAt conts.brk {}
    brk := conts.brk + 1 }

def pushCont (conts : Containers) : Containers :=
  { conts with
    cont := conts.brk :: conts.cont
    contAt := Function.update conts.contAt conts.brk {}
    brk := conts.brk + 1 }

def pushPidc (conts : Containers) : Containers :=
  { conts with
    pids := conts.brk :: conts.pids
    pidcAt := Function.update conts.pidcAt conts.brk {}
    brk := conts.brk + 1 }

end Containers

/-- What an object written anew has in common with the old one is read everywhere as
before. -/
theorem update_keeps {α β : Type} (objects : Nat → α) (addr : Nat) (value : α) (read : α → β)
    (same : read value = read (objects addr)) (other : Nat) :
    read (Function.update objects addr value other) = read (objects other) := by
  by_cases this : other = addr
  · rw [this, Function.update_self, same]
  · rw [Function.update_of_ne this]

/-- The members behind a `cont_t *`. -/
def contParm (conts : Containers) : ContPtr → Parm
  | .cont c => (conts.contAt c).toParm
  | .img i => (conts.imgAt i).toParm

/-- Status flags of a node, `MSK_STATUPD` to `MSK_STATNPRD`. -/
structure NodeStatus where
  upd : Bool := false
  nmtch : Bool := false
  wcud : Bool := false
  sibl : Bool := false
  naff : Bool := false
  herr : Bool := false
  nrsch : Bool := false
  nprd : Bool := false
  deriving DecidableEq, Repr, Inhabited

/-- The members of `nodemon_t` the resource management and the tracer threads
read and write; the defaults are those of `_node_default`. A histogram is the list
of the values it was given, newest first. -/
structure NodeMon where
  rt : UInt64 := 0
  rtMin : UInt64 := 0xFFFFFFFFFFFFFFFF
  rtAvg : UInt64 := 0
  rtMax : UInt64 := 0
  lastTs : UInt64 := 0
  lastTsP : UInt64 := 0
  deadline : UInt64 := 0
  dlCount : UInt64 := 0
  dlScanfail : UInt64 := 0
  dlOverrun : UInt64 := 0
  dlDiff : Int := 0
  dlDiffmin : Int := 9223372036854775807
  dlDiffavg : Int := 0
  dlDiffmax : Int := -9223372036854775808
  cdfRuntime : UInt64 := 0
  cdfPeriod : UInt64 := 0
  pdfHist : List UInt64 := []
  assigned : Int := -1
  assignedMask : Option Bitmask := none
  resched : UInt64 := 0
  deriving DecidableEq, Inhabited

/-- `node_t`; `loc` is its address. -/
structure Node where
  loc : Nat
  pid : Int := 0
  status : NodeStatus := {}
  psig : Option Str := none
  contid : Option Str := none
  imgid : Option Str := none
  attr : SchedAttr := { schedPolicy := schedNodata }
  mon : NodeMon := {}
  param : Option Nat := none
  deriving DecidableEq

/-- `resTracer_t`. -/
structure ResTracer where
  affinity : Bitmask := ∅
  u : ℚ := 0
  hrmc : Bool := false
  usedPeriod : UInt64 := 0
  basePeriod : UInt64 := 0
  deriving DecidableEq

/-- `enum det_mode`. -/
inductive DetMode where
  | cmdline
  | cntpid
  | cgrp
  deriving DecidableEq, Repr

/-- `enum sched_mode`, ordered as declared. -/
inductive SchedMode where
  | static
  | adaptive
  | padaptive
  | dynsimple
  | dynmcbin
  deriving DecidableEq, Repr

/-- `prgset_t`, the settings the modelled functions read. -/
structure PrgSet where
  trackpids : Bool := false
  rrtime : Int := 0
  affinityMask : Option Bitmask := none
  useCgroup : DetMode := .cgrp
  schedMode : SchedMode := .static
  setdflag : Bool := false
  kernelversion : Nat := 0
  ftrace : Bool := false

/-- What libnuma knows of the machine: the size of a CPU mask and the CPUs that
may exist, `numa_possible_cpus_ptr`. -/
structure Numa where
  size : Nat
  possible : Bitmask

/-- `numa_parse_cpustring_all` on the decimal text of one CPU number. -/
def Numa.parseCpu (numa : Numa) (cpu : Nat) : Option Bitmask :=
  if cpu ∈ numa.possible then some {cpu} else none

/-- A call that does not return: `exit`, an invalid access, a failed assertion, a
loop without end. -/
inductive Stop where
  | exit
  | segv
  | abort
  | hang
  deriving DecidableEq, Repr

end Orchestrator.Orchdata
