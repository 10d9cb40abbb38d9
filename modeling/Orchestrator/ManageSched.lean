import Orchestrator.Manage

/-!
`manageSched` of `manage.c`, node by node, and the wake-ups that tell the period
of tasks the kernel keeps none for. The histograms behind the estimates are
parameters.
-/

namespace Orchestrator.ManageSched
open Orchdata Resmgnt PidLookup PidResources Manage

/-- `policy_is_realtime`. -/
def policyIsRealtime (policy : UInt32) : Bool :=
  policy = schedFifo || policy = schedRr || policy = schedDeadline

/-- Loop state of `updateSiblings`: the main task, by its address, and its period. -/
structure MainTask where
  mainp : Nat
  smp : UInt64 := 1000000000

/-- Loop body of `updateSiblings`. -/
def mainStep (conts : Containers) (node : Node) (best : MainTask) (item : Node) : MainTask :=
  if together conts node item then
    if item.attr.schedPolicy = schedDeadline then
      if item.attr.schedPeriod < best.smp then { mainp := item.loc, smp := item.attr.schedPeriod }
      else best
    else if policyIsRealtime item.attr.schedPolicy ∧ item.mon.cdfPeriod ≠ 0 ∧
        item.mon.cdfPeriod < best.smp then
      { mainp := item.loc, smp := item.mon.cdfPeriod }
    else best
  else best

/-- The task of the container with the shortest period. -/
def mainTask {κ : Type} (managed : Managed κ) (node : Node) : Nat :=
  if node.status.sibl ∧ (contOf managed.conts node).isSome then
    (managed.nhead.foldl (mainStep managed.conts node) { mainp := node.loc }).mainp
  else node.loc

/-- What the histograms of a task are fit to; `none` where there is too little data. -/
structure Estimate where
  newPeriod : Option UInt64 := none
  newWCET : Option UInt64 := none

section Calls
variable {κ : Type} (fp : Rounding) (proc : Proc κ) (numa : Numa) (set : PrgSet)

/-- `updateSiblings`. -/
def updateSiblings (managed : Managed κ) (place : Nat) : Int × Managed κ :=
  match managed.nhead[place]? with
  | none => (1, managed)
  | some node =>
      if mainTask managed node ≠ node.loc then (1, managed)
      else
        let (ntrc, checked) := checkPeriodR fp set managed place false
        pidReallocAndTest fp proc numa set checked ntrc (getTracer checked.trcs node.mon.assigned) place

/-- `updatePidWCET`. -/
def updatePidWCET (managed : Managed κ) (place : Nat) (item : Node) (wcet : UInt64) : Managed κ :=
  let updated := { item with attr.schedRuntime := wcet }
  let (done, kernel) := proc.setattr managed.kernel item.pid updated.attr
  { managed with kernel := kernel }.put place
    (if done then { updated with status.wcud := true } else updated)

/-- `MINCHNGL` and `MINCHNGH`: a period for another time slot. -/
def periodMoved (mon : NodeMon) (newPeriod : UInt64) : Bool :=
  findPeriodMatch mon.cdfPeriod ≠ findPeriodMatch newPeriod && mon.cdfRuntime < newPeriod &&
    (newPeriod * 100 < mon.cdfPeriod * 95 || mon.cdfPeriod * 105 < newPeriod * 100)

/-- New period of a task without a period of its own. -/
def updatePeriod (managed : Managed κ) (place : Nat) (newPeriod : UInt64) : Managed κ :=
  match managed.nhead[place]? with
  | none => managed
  | some item =>
      if item.attr.schedPolicy = schedDeadline then managed
      else
        let known := managed.put place { item with mon.cdfPeriod := newPeriod }
        if periodMoved item.mon newPeriod then (updateSiblings fp proc numa set known place).2
        else known

/-- New run time, zero where the estimation failed. -/
def updateRuntime (managed : Managed κ) (place : Nat) (newWCET : UInt64) : Managed κ :=
  match managed.nhead[place]? with
  | none => managed
  | some item =>
      if newWCET = 0 then managed
      else
        let written :=
          if item.attr.schedPolicy = schedDeadline then updatePidWCET proc managed place item newWCET
          else managed
        { written with
          nhead := written.nhead.modify place fun item =>
            { item with status.herr := false, mon.cdfRuntime := newWCET } }

/-- Loop body of `manageSched`. -/
def manageNode (managed : Managed κ) (place : Nat) (estimate : Estimate) : Managed κ :=
  match managed.nhead[place]? with
  | none => managed
  | some item =>
      if item.pid < 0 ∨ !progressive set then managed
      else
        let spaced := estimate.newPeriod.elim managed (updatePeriod fp proc numa set managed place)
        estimate.newWCET.elim spaced (updateRuntime proc spaced place)

/-- `pickPidInfoW` at the task that was woken. -/
def wakeNode (ts : UInt64) (item : Node) : Node :=
  let mon := item.mon
  let timed :=
    if mon.lastTsP = 0 then mon
    else if mon.cdfPeriod ≠ 0 then
      let diff := toInt64 (toUInt64 (mon.dlDiff +
        (toInt64 ts - toInt64 mon.lastTsP - toInt64 (findPeriodMatch mon.cdfPeriod))))
      { mon with
        dlDiff := diff
        dlOverrun := if tschs < diff then mon.dlOverrun + 1 else mon.dlOverrun
        deadline := ts + mon.cdfPeriod }
    else { mon with deadline := 0 }
  { item with mon := { timed with lastTsP := ts, dlCount := timed.dlCount + 1 } }

/-- `pickPidInfoW` for a well formed frame; the loop ends at the first match. -/
def pickPidInfoW (managed : Managed κ) (pid : Int) (ts : UInt64) : Managed κ :=
  match managed.nhead.findIdx? fun item => item.pid = pid with
  | none => managed
  | some place => { managed with nhead := managed.nhead.modify place (wakeNode ts) }

end Calls

end Orchestrator.ManageSched
