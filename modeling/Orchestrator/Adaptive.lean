import Mathlib.Data.Finset.Card
import Orchestrator.Qsortll
import Orchestrator.Resmgnt

/-!
The adaptive schedule of `adaptive.c`: masks and fixed assignments of
`adaptPrepareSchedule`, then the three passes of `adaptPlanSchedule`. New
allocations are pushed in front, so each traversal returns the list it pushed,
newest first.
-/

namespace Orchestrator.Adaptive
open Orchdata Resmgnt Qsortll

/-- `cont_parm * item`: any element of the configuration. -/
inductive Item where
  | img (i : Nat)
  | cont (c : Nat)
  | pid (p : Nat)
  deriving DecidableEq, Repr

/-- `resAlloc_t`; `assigned` is a tracer address. -/
structure ResAlloc where
  item : Item
  assigned : Option Nat := none
  deriving DecidableEq, Repr

def parm (conts : Containers) : Item → Parm
  | .img i => (conts.imgAt i).toParm
  | .cont c => (conts.contAt c).toParm
  | .pid p => (conts.pidcAt p).toParm

def attrOf (conts : Containers) (item : Item) : SchedAttr := conts.attrAt (parm conts item).attr

def rscsOf (conts : Containers) (item : Item) : SchedRscs := conts.rscsAt (parm conts item).rscs

def maskOf (conts : Containers) (item : Item) : Option Bitmask := (rscsOf conts item).affinityMask

/-- `item->status |= MSK_STATCFIX`. -/
def setCfix (conts : Containers) : Item → Containers
  | .img i => conts.setImg i { conts.imgAt i with status.cfix := true }
  | .cont c => conts.setCont c { conts.contAt c with status.cfix := true }
  | .pid p => conts.setPidc p { conts.pidcAt p with status.cfix := true }

/-- Stores a mask in the resources of an item. -/
def setMask (conts : Containers) (item : Item) (mask : Bitmask) : Containers :=
  conts.setRscs (parm conts item).rscs { rscsOf conts item with affinityMask := some mask }

/-- The globals `contparm` and `rHead`. -/
structure Globals where
  conts : Containers
  trcs : Tracers

section Prepare
variable (fp : Rounding) (numa : Numa) (rrtime : Int) (setMaskDefault : Bitmask)

/-- `createAffinityMask`: `bDep` narrows a mask that is not fixed to one CPU. -/
def createAffinityMask (rscs : SchedRscs) (bDep : Option Bitmask) : SchedRscs :=
  if 0 ≤ rscs.affinity then { rscs with affinityMask := numa.parseCpu rscs.affinity.toNat }
  else
    -- negative: no CPU, or one that is only preferred
    { rscs with
      affinityMask := match bDep with
        | some dep => some (dep ∩ setMaskDefault)
        | none => some setMaskDefault }

/-- `pushResource` on the configuration; the allocation itself is returned by
the traversal that pushes it. -/
def pushResource (conts : Containers) (item : Item) (bDep : Option Bitmask) : Containers :=
  if (parm conts item).status.shrc then conts
  else
    conts.setRscs (parm conts item).rscs
      (createAffinityMask numa setMaskDefault (rscsOf conts item) bDep)

/-- The tracer loop of `addTracer`. -/
def addTracerTarget (trcs : Tracers) (mask : Bitmask) (cpu : Int) : Option Nat :=
  trcs.rHead.find? fun trc =>
    -- `cpu` -1 asks for the first tracer inside of the mask; bit -1 is never set
    (cpu == -1 && isbitset mask (getTracerMainCPU numa.size (trcs.trcAt trc))) ||
      isbitset (trcs.trcAt trc).affinity cpu

def addTracer (state : Globals) (item : Item) (mask : Bitmask) (cpu : Int) :
    Int × Globals × Option Nat :=
  match addTracerTarget numa state.trcs mask cpu with
  | some trc =>
      let call := state.trcs.add fp rrtime trc (attrOf state.conts item)
      (call.1, { state with trcs := call.2 }, some trc)
  | none => (-1, state, none)

/-- `addTracerFix`: a mask of one CPU fixes the item on it or ends the program. -/
def addTracerFix (state : Globals) (item : Item) : Except Stop (Globals × ResAlloc) :=
  match maskOf state.conts item with
  | none => .error .segv
  | some mask =>
      if mask.card = 1 then
        let call := addTracer fp numa rrtime state item mask (-1)
        -- the fixed CPU does not take the task: `err_exit`
        if call.1 < 0 then .error .exit
        else .ok ({ call.2.1 with conts := setCfix call.2.1.conts item }, ⟨item, call.2.2⟩)
      else .ok (state, ⟨item, none⟩)

/-- Globals, the union `bm` of the masks seen, and the pushed allocations. -/
abbrev Walk := Globals × Bitmask × List ResAlloc

/-- `numa_or_cpumask(item->rscs->affinity_mask, bm)`. -/
def orMask (conts : Containers) (item : Item) (bm : Bitmask) : Except Stop Bitmask :=
  match maskOf conts item with
  | none => .error .segv
  | some mask => .ok (mask ∪ bm)

/-- Keeps only what the children use, `if (numa_bitmask_weight(bm))`. -/
def narrow (conts : Containers) (item : Item) (bm : Bitmask) : Except Stop Containers :=
  if bm.card = 0 then .ok conts
  else
    match maskOf conts item with
    | none => .error .segv
    | some mask => .ok (setMask conts item (bm ∩ mask))

def ddPidsStep (parent : Item) (walk : Walk) (p : Nat) : Except Stop Walk := do
  let conts := pushResource numa setMaskDefault walk.1.conts (.pid p) (maskOf walk.1.conts parent)
  let bm ← orMask conts (.pid p) walk.2.1
  let fixed ← addTracerFix fp numa rrtime { walk.1 with conts := conts } (.pid p)
  .ok (fixed.1, bm, fixed.2 :: walk.2.2)

def ddPids (parent : Item) (pids : List Nat) (walk : Walk) : Except Stop Walk :=
  pids.foldlM (ddPidsStep fp numa rrtime setMaskDefault parent) walk

/-- A container: its own mask, its PIDs, the narrowed mask, then its assignment.
The result carries the union of its PIDs' masks. -/
def prepareCont (bDep : Option Bitmask) (c : Nat) (state : Globals) :
    Except Stop (Globals × List ResAlloc) := do
  let pushed := { state with conts := pushResource numa setMaskDefault state.conts (.cont c) bDep }
  let walk ← ddPids fp numa rrtime setMaskDefault (.cont c) (pushed.conts.contAt c).pids (pushed, ∅, [])
  let conts ← narrow walk.1.conts (.cont c) walk.2.1
  .ok ({ walk.1 with conts := conts }, walk.2.2)

def ddContsStep (parent : Item) (walk : Walk) (c : Nat) : Except Stop Walk := do
  let inner ← prepareCont fp numa rrtime setMaskDefault (maskOf walk.1.conts parent) c walk.1
  let bm ← orMask inner.1.conts (.cont c) walk.2.1
  let fixed ← addTracerFix fp numa rrtime inner.1 (.cont c)
  .ok (fixed.1, bm, inner.2 ++ fixed.2 :: walk.2.2)

def ddConts (parent : Item) (conts : List Nat) (walk : Walk) : Except Stop Walk :=
  conts.foldlM (ddContsStep fp numa rrtime setMaskDefault parent) walk

/-- Globals and `aHead`. -/
abbrev Schedule := Globals × List ResAlloc

/-- Loop body over `contparm->img`. -/
def prepareImg (sched : Schedule) (i : Nat) : Except Stop Schedule := do
  let pushed := { sched.1 with
    conts := pushResource numa setMaskDefault sched.1.conts (.img i) none }
  -- the containers come first, `bm` collects the masks of both kinds
  let inConts ← ddConts fp numa rrtime setMaskDefault (.img i) (pushed.conts.imgAt i).conts (pushed, ∅, [])
  let walk ← ddPids fp numa rrtime setMaskDefault (.img i) (inConts.1.conts.imgAt i).pids inConts
  let conts ← narrow walk.1.conts (.img i) walk.2.1
  let fixed ← addTracerFix fp numa rrtime { walk.1 with conts := conts } (.img i)
  .ok (fixed.1, walk.2.2 ++ fixed.2 :: sched.2)

/-- Loop body over `contparm->cont`; part of a tree is skipped. -/
def prepareSolo (sched : Schedule) (c : Nat) : Except Stop Schedule :=
  if (sched.1.conts.contAt c).img.isSome then .ok sched
  else do
    let inner ← prepareCont fp numa rrtime setMaskDefault none c sched.1
    let fixed ← addTracerFix fp numa rrtime inner.1 (.cont c)
    .ok (fixed.1, inner.2 ++ fixed.2 :: sched.2)

/-- Loop body over `contparm->pids`; part of a tree is skipped. -/
def preparePid (sched : Schedule) (p : Nat) : Except Stop Schedule :=
  if (sched.1.conts.pidcAt p).img.isSome || (sched.1.conts.pidcAt p).cont.isSome then .ok sched
  else do
    let conts := pushResource numa setMaskDefault sched.1.conts (.pid p) none
    let fixed ← addTracerFix fp numa rrtime { sched.1 with conts := conts } (.pid p)
    .ok (fixed.1, fixed.2 :: sched.2)

end Prepare

/-- `adaptPrepareSchedule` at program start, when `rHead` and `aHead` are `NULL`. -/
def adaptPrepareSchedule (fp : Rounding) (numa : Numa) (set : PrgSet) (contparm : Containers) :
    Except Stop Schedule :=
  match set.affinityMask with
  | none => .error .exit
  | some mask => do
      let trcs := createResTracer numa.size mask
      let conts := contparm.setRscs contparm.rscs
        (createAffinityMask numa mask (contparm.rscsAt contparm.rscs) none)
      let images ← conts.img.foldlM (prepareImg fp numa set.rrtime mask) (⟨conts, trcs⟩, [])
      let solo ← conts.cont.foldlM (prepareSolo fp numa set.rrtime mask) images
      conts.pids.foldlM (preparePid fp numa set.rrtime mask) solo

/-- `cmpPidItemP`: descending by period, then by runtime. -/
def cmpPidItemP (a b : SchedAttr) : Int :=
  let diff := toInt64 b.schedPeriod - toInt64 a.schedPeriod
  if diff = 0 then toInt32 (Int.tmod (toInt64 (b.schedRuntime - a.schedRuntime)) intMax)
  else toInt32 (Int.tmod diff intMax)

def cmpPidItemU (fp : Rounding) (a b : SchedAttr) : Int :=
  if a.schedPeriod ≠ b.schedPeriod then cmpPidItemP a b
  else if a.schedPeriod = 0 ∧ b.schedPeriod = 0 then
    toInt32 (b.schedRuntime - a.schedRuntime).toNat
  else if a.schedPeriod = 0 then 1
  else if b.schedPeriod = 0 then -1
  else
    let u1 := fp.dbl (fp.dbl a.schedRuntime.toNat / fp.dbl a.schedPeriod.toNat)
    let u2 := fp.dbl (fp.dbl b.schedRuntime.toNat / fp.dbl b.schedPeriod.toNat)
    toInt (fp.dbl (fp.dbl (u2 - u1) * 10000))

def cmpPidItemS (fp : Rounding) (a b : SchedAttr) : Int :=
  if a.schedPeriod ≠ 0 ∨ b.schedPeriod ≠ 0 ∨ a.schedRuntime ≠ 0 ∨ b.schedRuntime ≠ 0 then
    cmpPidItemU fp a b
  else toInt32 ((a.schedPolicy.toNat : Int) - b.schedPolicy.toNat)

section Plan
variable (fp : Rounding) (rrtime : Int)

/-- One flexible allocation: the tracer `checkPeriod` picks takes the task. -/
def planOne (conts : Containers) (trcs : Tracers) (alloc : ResAlloc) : Tracers × ResAlloc :=
  let attr := attrOf conts alloc.item
  match checkPeriod fp rrtime trcs attr (rscsOf conts alloc.item).affinity (-1) with
  | some trc =>
      ((trcs.add fp rrtime trc attr).2, { alloc with assigned := some trc })
  | none => (trcs, alloc)

/-- A pass over `aHead`; `unmatched` tasks are left for a later one. -/
def planPass (unmatched : SchedAttr → Bool) (conts : Containers) :
    Tracers → List ResAlloc → Tracers × List ResAlloc
  | trcs, [] => (trcs, [])
  | trcs, alloc :: rest =>
      let step :=
        if alloc.assigned.isNone && !unmatched (attrOf conts alloc.item) then
          planOne fp rrtime conts trcs alloc
        else (trcs, alloc)
      let tail := planPass unmatched conts step.1 rest
      (tail.1, step.2 :: tail.2)

end Plan

/-- `FFtrc`, `RRtrc`, `BTtrc` and `NTtrc` of the last pass. -/
structure Groups where
  ff : Option Nat := none
  rr : Option Nat := none
  bt : Option Nat := none
  nt : Option Nat := none

/-- The policy switch of the last pass: each group looks for its tracer once. -/
def planGroup (fp : Rounding) (trcs : Tracers) (policy : UInt32) (groups : Groups) :
    Groups × Option Nat :=
  if policy = schedFifo then
    let ff := groups.ff.or (grepTracer fp trcs)
    ({ groups with ff := ff }, ff)
  else if policy = schedRr then
    let rr := groups.rr.or (grepTracer fp trcs)
    ({ groups with rr := rr }, rr)
  else if policy = schedBatch then
    let bt := groups.bt.or (grepTracer fp trcs)
    ({ groups with bt := bt }, bt)
  else
    let nt := groups.nt.or (grepTracer fp trcs)
    ({ groups with nt := nt }, nt)

def planRest (fp : Rounding) (conts : Containers) (trcs : Tracers) :
    Groups → List ResAlloc → List ResAlloc
  | _, [] => []
  | groups, alloc :: rest =>
      if alloc.assigned.isNone then
        -- no test and no addition here, whatever is left of the list
        let choice := planGroup fp trcs (attrOf conts alloc.item).schedPolicy groups
        { alloc with assigned := choice.2 } :: planRest fp conts trcs choice.1 rest
      else alloc :: planRest fp conts trcs groups rest

/-- No runtime or no period: `!sched_runtime || !sched_period`. -/
def noDetail (attr : SchedAttr) : Bool := attr.schedRuntime == 0 || attr.schedPeriod == 0

def noRuntime (attr : SchedAttr) : Bool := attr.schedRuntime == 0

/-- `qsortll(&aHead, cmpPidItemS)`. -/
def planOrder (fp : Rounding) (sched : Schedule) : List ResAlloc :=
  qsortll (fun a b => cmpPidItemS fp (attrOf sched.1.conts a.item)
    (attrOf sched.1.conts b.item)) sched.2

/-- The first pass of `adaptPlanSchedule`, after sorting. -/
def planFirst (fp : Rounding) (rrtime : Int) (sched : Schedule) : Tracers × List ResAlloc :=
  planPass fp rrtime noDetail sched.1.conts sched.1.trcs (planOrder fp sched)

def planKnown (fp : Rounding) (rrtime : Int) (sched : Schedule) : Tracers × List ResAlloc :=
  planPass fp rrtime noRuntime sched.1.conts (planFirst fp rrtime sched).1
    (planFirst fp rrtime sched).2

def adaptPlanSchedule (fp : Rounding) (rrtime : Int) (sched : Schedule) : Schedule :=
  let known := planKnown fp rrtime sched
  ({ sched.1 with trcs := known.1 }, planRest fp sched.1.conts known.1 {} known.2)

/-- Loop body of `adaptExecute`. -/
def executeOne (numa : Numa) (trcs : Tracers) (conts : Containers) (alloc : ResAlloc) : Containers :=
  match alloc.assigned with
  | some trc =>
      -- shared resources are not written
      if (parm conts alloc.item).status.shrc then conts
      else
        conts.setRscs (parm conts alloc.item).rscs
          { rscsOf conts alloc.item with affinity := getTracerMainCPU numa.size (trcs.trcAt trc) }
  | none => conts

def adaptExecute (numa : Numa) (sched : Schedule) : Containers :=
  sched.2.foldl (executeOne numa sched.1.trcs) sched.1.conts

/-- `recomputeTimes_S`: the load of a tracer from its allocations. -/
def recomputeTimesS (fp : Rounding) (rrtime : Int) (conts : Containers) (aHead : List ResAlloc)
    (trc : Nat) (res : ResTracer) : Int × ResTracer :=
  let loop := aHead.foldl (fun (state : Int × ResTracer) alloc =>
    if alloc.assigned = some trc then minAdd fp rrtime state.2 (attrOf conts alloc.item) state.1
    else state) (0, {})
  (loop.1, takeTotals res loop.2)

end Orchestrator.Adaptive
