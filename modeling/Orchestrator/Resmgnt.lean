import Mathlib.Data.Nat.Log
import Orchestrator.BinaryRounding
import Orchestrator.Cmnutil

/-!
Resource tracers of `resmgnt.c`: admission (`checkUvalue`), the choice of a CPU
and the recomputation of a CPU's load from the node list.
-/

namespace Orchestrator.Resmgnt
open Orchdata BinaryRounding

/-- The arithmetic behind `double` and `float`. `ieee` is what the program runs
on, `exact` compares rationals without rounding. -/
structure Rounding where
  dbl : ℚ → ℚ
  flt : ℚ → ℚ
  dbl_mono : ∀ a b, 0 ≤ a → a ≤ b → dbl a ≤ dbl b
  flt_mono : ∀ a b, 0 ≤ a → a ≤ b → flt a ≤ flt b
  dbl_zero : dbl 0 = 0
  flt_zero : flt 0 = 0
  dbl_one : dbl 1 = 1
  flt_one : flt 1 = 1

def ieee : Rounding where
  dbl := roundTo 53
  flt := roundTo 24
  dbl_mono := fun _ _ => round_to_mono 53 (by decide)
  flt_mono := fun _ _ => round_to_mono 24 (by decide)
  dbl_zero := round_to_zero 53
  flt_zero := round_to_zero 24
  dbl_one := round_to_one 53 (by decide)
  flt_one := round_to_one 24 (by decide)

def exact : Rounding where
  dbl := id
  flt := id
  dbl_mono := fun _ _ _ le => le
  flt_mono := fun _ _ _ le => le
  dbl_zero := rfl
  flt_zero := rfl
  dbl_one := rfl
  flt_one := rfl

/-- `SCHED_UKNLOAD`: percentage added for a task of unknown runtime. -/
def schedUknload : UInt64 := 10
/-- `SCHED_RRTONATTR`: milliseconds to nanoseconds. -/
def schedRrtonattr : Int := 1000000
/-- `SCHED_PDEFAULT`: default period. -/
def schedPdefault : UInt64 := 1000000000
/-- `SCHED_UHARMONIC`: offset for non-harmonic scores. -/
def schedUharmonic : Int := 3

/-- A floating point value without its fraction, before it is put into a type. -/
def trunc (value : ℚ) : Int := if 0 ≤ value then ⌊value⌋ else ⌈value⌉

/-- `(int)` of a `double`. C leaves a value outside of `int` undefined; the
processor answers with the smallest `int`. -/
def toInt (value : ℚ) : Int :=
  if intMin ≤ trunc value ∧ trunc value ≤ intMax then trunc value else intMin

section Admission
variable (fp : Rounding) (rrtime : Int)

/-- `prgset->rrtime*SCHED_RRTONATTR`, an `int`, next to a word. -/
def slice : UInt64 := toUInt64 (toInt32 (rrtime * schedRrtonattr))

/-- `baset`: the task's period, the default one, or for `SCHED_RR` the slice if
the runtime does not fit into it. -/
def baset (par : SchedAttr) : UInt64 :=
  if par.schedPolicy = schedRr ∧ par.schedPeriod ≠ 0 ∧ slice rrtime ≤ par.schedRuntime then
    slice rrtime
  else if par.schedPeriod = 0 then schedPdefault
  else par.schedPeriod

/-- The `default` branch of the policy switch: nothing to compute with. -/
def unknown (par : SchedAttr) : Bool := par.schedPolicy != schedDeadline && par.schedRuntime == 0

/-- `used` after the policy switch, 10% up for a task of unknown runtime. -/
def used (res : ResTracer) (par : SchedAttr) : UInt64 :=
  if unknown par then res.usedPeriod + res.usedPeriod * schedUknload / 100 else res.usedPeriod

def hyperP (res : ResTracer) (par : SchedAttr) : UInt64 := Cmnutil.lcm res.basePeriod (baset rrtime par)

def newBase (res : ResTracer) (par : SchedAttr) : UInt64 :=
  if res.basePeriod = 0 then baset rrtime par else hyperP rrtime res par

def scaledUsed (res : ResTracer) (par : SchedAttr) : UInt64 :=
  if res.basePeriod = 0 then used res par
  else used res par * hyperP rrtime res par / res.basePeriod

def newUsed (res : ResTracer) (par : SchedAttr) : UInt64 :=
  scaledUsed rrtime res par + par.schedRuntime * newBase rrtime res par / baset rrtime par

/-- `(float)((double)used/(double)base)`. -/
def quotient (used base : Nat) : ℚ := fp.flt (fp.dbl (fp.dbl used / fp.dbl base))

def newU (res : ResTracer) (par : SchedAttr) : ℚ :=
  quotient fp (newUsed rrtime res par).toNat (newBase rrtime res par).toNat

/-- `(res->U * (double)base)/(double)baset`. -/
def interference (u : ℚ) (base baset : Nat) : ℚ :=
  fp.dbl (fp.dbl (u * fp.dbl base) / fp.dbl baset)

/-- `(int)((res->U * (double)base)/(double)baset)+SCHED_UHARMONIC`. -/
def interruptions (u : ℚ) (base baset : Nat) : Int :=
  toInt32 (toInt (interference fp u base baset) + schedUharmonic)

/-- Periods that fit each other without leaving the harmonic case. -/
def fitsHarmonic (res : ResTracer) (par : SchedAttr) : Bool :=
  res.basePeriod == baset rrtime par || hyperP rrtime res par == baset rrtime par ||
    hyperP rrtime res par == res.basePeriod

def score (res : ResTracer) (par : SchedAttr) : Int :=
  if res.basePeriod = 0 then 2
  else if res.hrmc && res.basePeriod == baset rrtime par then 0
  else if res.hrmc && hyperP rrtime res par == baset rrtime par then 1
  else if res.hrmc && hyperP rrtime res par == res.basePeriod then 2
  else min (interruptions fp res.u res.basePeriod.toNat (baset rrtime par).toNat) intMax

def newHrmc (res : ResTracer) (par : SchedAttr) : Bool :=
  if res.basePeriod = 0 then res.hrmc else res.hrmc && fitsHarmonic rrtime res par

/-- The return value; `MAX_UL` is 1. -/
def verdict (res : ResTracer) (par : SchedAttr) : Int :=
  if 1 < newU fp rrtime res par then -1 else score fp rrtime res par

def added (res : ResTracer) (par : SchedAttr) : ResTracer :=
  { res with
    usedPeriod := newUsed rrtime res par
    basePeriod := newBase rrtime res par
    u := newU fp rrtime res par
    hrmc := newHrmc rrtime res par }

-- A zero divisor traps in C and yields zero here.
def checkUvalue (res : ResTracer) (par : SchedAttr) (add : Bool) : Int × ResTracer :=
  (verdict fp rrtime res par, if add then added fp rrtime res par else res)

/-- `MIN(checkUvalue(res, par, 1), rv)`: the macro evaluates its smaller
argument a second time. -/
def minAdd (res : ResTracer) (par : SchedAttr) (rv : Int) : Int × ResTracer :=
  let first := checkUvalue fp rrtime res par true
  if first.1 < rv then checkUvalue fp rrtime first.2 par true else (rv, first.2)

end Admission

/-- `findPeriodMatch`, with `pow`, `log10`, `ceil` and `round` taken as exact. -/
def findPeriodMatch (cdfPeriod : UInt64) : UInt64 :=
  if cdfPeriod = 0 then 1000000000
  else
    let step : ℚ := 10 ^ Nat.clog 10 cdfPeriod.toNat / 40
    toUInt64 (trunc (⌊(cdfPeriod.toNat : ℚ) / step + 1 / 2⌋ * step))

/-- The attributes a running node is accounted with. -/
def nodeAttr (item : Node) : SchedAttr :=
  if item.attr.schedPolicy = schedDeadline then item.attr
  else
    { schedPolicy := item.attr.schedPolicy
      schedRuntime := item.mon.cdfRuntime
      schedPeriod := findPeriodMatch item.mon.cdfPeriod }

/-- The loop body's `continue` condition of `recomputeTimes_u`. -/
def skipped (res : ResTracer) (skip : Option Nat) (item : Node) : Bool :=
  !isbitset res.affinity item.mon.assigned || decide (item.pid < 0) || some item.loc == skip

/-- `res` takes over the totals of `resNew`. -/
def takeTotals (res resNew : ResTracer) : ResTracer :=
  { res with basePeriod := resNew.basePeriod, usedPeriod := resNew.usedPeriod, u := resNew.u }

def recomputeTimesU (fp : Rounding) (rrtime : Int) (nhead : List Node) (res : ResTracer)
    (skip : Option Nat) : Int × ResTracer :=
  let loop := nhead.foldl (fun (state : Int × ResTracer) item =>
    if skipped res skip item then state
    else minAdd fp rrtime state.2 (nodeAttr item) state.1) (0, {})
  (loop.1, takeTotals res loop.2)

/-- `rHead`: the list of tracers and the objects it links. A tracer is addressed
by the CPU it was created for. `log` is history and not part of the program: the
tasks added so far, each with its tracer, oldest first. -/
structure Tracers where
  rHead : List Nat := []
  trcAt : Nat → ResTracer := fun _ => {}
  log : List (Nat × SchedAttr) := []

/-- `checkUvalue(trc, par, 1)` on a linked tracer. -/
def Tracers.add (fp : Rounding) (rrtime : Int) (trcs : Tracers) (trc : Nat) (par : SchedAttr) :
    Int × Tracers :=
  let call := checkUvalue fp rrtime (trcs.trcAt trc) par true
  (call.1, { trcs with
    trcAt := Function.update trcs.trcAt trc call.2
    log := trcs.log ++ [(trc, par)] })

/-- A tracer as `createResTracer` sets it up. -/
def freshTracer (cpu : Nat) : ResTracer := { affinity := {cpu}, hrmc := true }

/-- `createResTracer` for the mask `prgset->affinity_mask` of `size` bits: pushed
from the highest CPU down, so the lowest one comes first. -/
def createResTracer (size : Nat) (affinityMask : Bitmask) : Tracers where
  rHead := (List.range size).filter fun cpu => cpu ∈ affinityMask
  trcAt := freshTracer

def getTracer (trcs : Tracers) (cpu : Int) : Option Nat :=
  trcs.rHead.find? fun trc => isbitset (trcs.trcAt trc).affinity cpu

/-- The main CPU of a tracer in a mask of `size` bits, `-1` if none is set. -/
def getTracerMainCPU (size : Nat) (res : ResTracer) : Int :=
  match (List.range size).find? fun cpu => cpu ∈ res.affinity with
  | some cpu => cpu
  | none => -1

/-- Loop variables of `checkPeriod`. -/
structure Best where
  last : Int := intMax
  ulast : ℚ := 10
  ftrc : Option Nat := none

section Choice
variable (fp : Rounding) (rrtime : Int) (trcs : Tracers) (attr : SchedAttr)
variable (affinity cpu : Int)

/-- `Ulast * ULTOLMIN` and `Ulast * ULTOLMAX`. -/
def tolMin (ulast : ℚ) : ℚ := fp.dbl (ulast * fp.dbl (95 / 100))
def tolMax (ulast : ℚ) : ℚ := fp.dbl (ulast * fp.dbl (105 / 100))

def favorite (trc : ResTracer) : Bool :=
  (decide (0 ≤ cpu) && isbitset trc.affinity cpu) ||
    (decide (affinity < 0) && isbitset trc.affinity (-affinity))

/-- The found tracer is the preferred one already. -/
def preferred (ftrc : Option Nat) : Bool :=
  match ftrc with
  | some found => decide (affinity < 0) && isbitset (trcs.trcAt found).affinity (-affinity)
  | none => false

def checkPeriodStep (best : Best) (trc : Nat) : Best :=
  let res := (checkUvalue fp rrtime (trcs.trcAt trc) attr false).1
  let u := (trcs.trcAt trc).u
  let better := decide (0 ≤ res ∧ res < best.last)
  let equal := res == best.last && (decide (u < tolMin fp best.ulast) ||
    (decide (u ≤ tolMax fp best.ulast) && favorite affinity cpu (trcs.trcAt trc)))
  if better || equal then
    if res == best.last && decide (tolMin fp best.ulast ≤ u) && decide (u ≤ tolMax fp best.ulast) &&
        preferred trcs affinity best.ftrc then best
    else { last := res, ulast := u, ftrc := some trc }
  else best

def checkPeriod : Option Nat :=
  if 0 ≤ affinity then getTracer trcs affinity
  else (trcs.rHead.foldl (checkPeriodStep fp rrtime trcs attr affinity cpu) {}).ftrc

end Choice

/-- `grepTracer`, with the pair of `Umax` and `ftrc` as loop state. -/
def grepTracerStep (fp : Rounding) (trcs : Tracers) (state : ℚ × Option Nat) (trc : Nat) :
    ℚ × Option Nat :=
  let slack := match state.2 with
    | some ftrc =>
        decide ((trcs.trcAt trc).u < fp.dbl ((trcs.trcAt ftrc).u * fp.dbl (12 / 10))) &&
          !(trcs.trcAt ftrc).hrmc && (trcs.trcAt trc).hrmc
    | none => false
  if decide ((trcs.trcAt trc).u < state.1) || slack then ((trcs.trcAt trc).u, some trc) else state

def grepTracer (fp : Rounding) (trcs : Tracers) : Option Nat :=
  (trcs.rHead.foldl (grepTracerStep fp trcs) (1, none)).2

end Orchestrator.Resmgnt
