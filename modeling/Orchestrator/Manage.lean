import Orchestrator.PidResources
import Orchestrator.Resmgnt

/-!
The event side of `manage.c`: what a switch or a period end recorded by the
kernel does to the nodes, up to moving tasks to another CPU. Every call runs
under `dataMutex`, so each is one step on the shared data.
-/

namespace Orchestrator.Manage
open Orchdata Resmgnt PidLookup PidResources Traversal

/-- What `ltag`, `num` and `nanos` hold after `sscanf` on a line of `/proc/PID/sched`:
tag, number and the digits behind its dot. -/
structure SchedLine where
  ltag : List Char
  num : Int
  nanos : Int := 0

/-- The kernel as seen by the management threads. -/
structure Proc (κ : Type) extends Kernel κ where
  getattr : κ → Int → Option SchedAttr × κ
  /-- Lines of `/proc/PID/sched`, if it can be read. -/
  schedDebug : κ → Int → Option (List SchedLine) × κ

/-- The data behind `dataMutex`; a node is addressed by its place in the list,
which no call here changes. -/
structure Managed (κ : Type) where
  nhead : List Node
  conts : Containers
  trcs : Tracers
  kernel : κ

def Managed.put {κ : Type} (managed : Managed κ) (place : Nat) (item : Node) : Managed κ :=
  { managed with nhead := managed.nhead.set place item }

/-- `SCHED_FLAG_RECLAIM`. -/
def schedFlagReclaim : UInt64 := 2

/-- `TSCHS`: scheduler minimum granularity. -/
def tschs : Int := 1024

/-- Turns after which a loop over 64-bit counters repeats a state. -/
def turns : Nat := Cmnutil.word

/-- `SM_DYNSIMPLE <= prgset->sched_mode`. -/
def dynamic (set : PrgSet) : Bool := set.schedMode ∈ [SchedMode.dynsimple, .dynmcbin]

/-- `SM_PADAPTIVE <= prgset->sched_mode`. -/
def progressive (set : PrgSet) : Bool :=
  set.schedMode ∈ [SchedMode.padaptive, .dynsimple, .dynmcbin]

section Nodes
variable (set : PrgSet)

/-- `strncasecmp(ltag, tag, 4) == 0`. -/
def tagged (line : SchedLine) (tag : String) : Bool :=
  (line.ltag.take 4).map Char.toLower == tag.toList.take 4

/-- Loop state of `get_sched_info`. -/
structure SchedScan where
  item : Node
  diff : Int := 0
  ltrt : Int := 0

/-- `MIN`, `MAX` and average of the run time with a signed new value. -/
def spreadRt (mon : NodeMon) (diff : Int) : NodeMon :=
  { mon with
    rtMin := min mon.rtMin (toUInt64 diff)
    rtMax := max mon.rtMax (toUInt64 diff)
    rtAvg := (mon.rtAvg * 9 + toUInt64 diff) / 10 }

/-- The same of the deadline differences. -/
def spreadDl (mon : NodeMon) (diff : Int) : NodeMon :=
  { mon with
    dlDiffmin := min mon.dlDiffmin diff
    dlDiffmax := max mon.dlDiffmax diff
    dlDiffavg := (toInt64 (toUInt64 (mon.dlDiffavg * 9 + diff))).tdiv 10 }

/-- Execution time and voluntary switches of a `SCHED_FIFO` or `SCHED_RR` task. -/
def fifoLine (scan : SchedScan) (line : SchedLine) : SchedScan :=
  let read :=
    if tagged line "se.exec_start" then
      let num := line.num * 1000000 + line.nanos
      { scan with
        diff := toInt64 (toUInt64 num - scan.item.mon.rt)
        item := { scan.item with mon.rt := toUInt64 num } }
    else scan
  if tagged line "nr_voluntary_switches" then
    let mon := read.item.mon
    let spread := if mon.dlCount ≠ toUInt64 line.num ∧ mon.dlCount ≠ 0 then
      spreadRt mon read.diff else mon
    { read with item := { read.item with mon := { spread with dlCount := toUInt64 line.num } } }
  else read

/-- A new deadline without fTrace: jitter against the period, scan failures
taken out, and the run time that was left. -/
def readJitter (scan : SchedScan) (num : Int) : Except Stop NodeMon := do
  let mon := scan.item.mon
  let period := toInt64 scan.item.attr.schedPeriod
  let (diff, fails) ← repeatWhile Stop.hang
    (fun state : Int × UInt64 => decide (period - tschs ≤ state.1))
    (fun state => (toInt64 (toUInt64 (state.1 - period)), state.2 + 1)) turns
    (toInt64 (toUInt64 (toInt64 (toUInt64 num - mon.deadline) - period)), mon.dlScanfail)
  let jitter := spreadDl { mon with
    dlScanfail := fails
    dlOverrun := if diff ≠ 0 then mon.dlOverrun + 1 else mon.dlOverrun
    dlDiff := toInt64 (toUInt64 (mon.dlDiff + diff)) } diff
  let left := toInt64 (scan.item.attr.schedRuntime - mon.rt)
  pure (if toInt64 scan.item.attr.schedRuntime = scan.ltrt ∧ left ≠ 0 then spreadRt jitter left
    else jitter)

/-- Run time and deadline of a `SCHED_DEADLINE` task; reading ends at the deadline. -/
def deadlineLine (scan : SchedScan) (line : SchedLine) : Except Stop (Bool × SchedScan) := do
  let scan :=
    if !set.ftrace && tagged line "dl.runtime" then
      { scan with
        ltrt := line.num
        item := if toUInt64 line.num ≠ scan.item.mon.rt then
          { scan.item with mon.dlCount := scan.item.mon.dlCount + 1 } else scan.item }
    else scan
  if tagged line "dl.deadline" then
    let mon ←
      if scan.item.mon.deadline ≠ 0 ∧ toUInt64 line.num ≠ scan.item.mon.deadline ∧ !set.ftrace then
        readJitter scan line.num
      else pure scan.item.mon
    let seen := { mon with
      deadline := toUInt64 line.num
      rt := if set.ftrace then mon.rt else toUInt64 scan.ltrt }
    pure (true, { scan with item := { scan.item with mon := seen } })
  else pure (false, scan)

/-- The loop over the lines. -/
def schedLines (scan : SchedScan) : List SchedLine → Except Stop SchedScan
  | [] => .ok scan
  | line :: rest =>
      let policy := scan.item.attr.schedPolicy
      let read := if policy = schedRr ∨ policy = schedFifo then fifoLine scan line else scan
      if policy = schedDeadline then do
        let (done, next) ← deadlineLine set read line
        if done then pure next else schedLines next rest
      else schedLines read rest

end Nodes

section Calls
variable {κ : Type} (fp : Rounding) (proc : Proc κ) (numa : Numa) (set : PrgSet)

/-- `get_sched_info`. -/
def getSchedInfo (managed : Managed κ) (place : Nat) : Except Stop (Managed κ) :=
  match managed.nhead[place]? with
  | none => .ok managed
  | some item =>
      match proc.schedDebug managed.kernel item.pid with
      | (none, kernel) => .ok { managed with kernel := kernel }
      | (some lines, kernel) => do
          let scan ← schedLines set { item := item } lines
          pure ({ managed with kernel := kernel }.put place scan.item)

/-- The flag for reclaiming, set where it is missing. -/
def setReclaim (managed : Managed κ) (place : Nat) (item : Node) : Managed κ :=
  if set.setdflag ∧ item.attr.schedPolicy = schedDeadline ∧ kv413 ≤ set.kernelversion ∧
      item.attr.schedFlags &&& schedFlagReclaim ≠ schedFlagReclaim then
    let flagged := { item with attr.schedFlags := item.attr.schedFlags ||| schedFlagReclaim }
    { managed with kernel := (proc.setattr managed.kernel item.pid flagged.attr).2 }.put place flagged
  else managed.put place item

/-- `updatePidAttr`. -/
def updatePidAttr (managed : Managed κ) (place : Nat) : Except Stop (Managed κ) :=
  match managed.nhead[place]? with
  | none => .ok managed
  | some item =>
      if item.param.isSome ∧ ¬ item.status.upd then do
        let (conts, node, kernel) ←
          setPidResources_u proc.toKernel numa set managed.conts managed.kernel item
        pure ({ managed with conts := conts, kernel := kernel }.put place node)
      else
        match proc.getattr managed.kernel item.pid with
        | (none, kernel) => .ok { managed with kernel := kernel }
        | (some attr, kernel) =>
            .ok (setReclaim proc set { managed with kernel := kernel } place
              { item with attr := attr })

/-- `recomputeTimes_u` on a linked tracer. -/
def recomputeTracer (managed : Managed κ) (trc : Nat) (skip : Option Nat) : Int × Managed κ :=
  let (rv, res) := recomputeTimesU fp set.rrtime managed.nhead (managed.trcs.trcAt trc) skip
  (rv, { managed with
    trcs := { managed.trcs with trcAt := Function.update managed.trcs.trcAt trc res } })

/-- `recomputeCPUTimes_u`. -/
def recomputeCPUTimesU (managed : Managed κ) (cpu : Int) (skip : Option Nat) : Int × Managed κ :=
  if cpu < 0 then (0, managed)
  else
    match getTracer managed.trcs cpu with
    | some trc => recomputeTracer fp set managed trc skip
    | none => (-2, managed)

def recomputeCPUTimes (managed : Managed κ) (cpu : Int) : Int × Managed κ :=
  recomputeCPUTimesU fp set managed cpu none

/-- `checkPeriod_R`: without `include`, the item's CPU is measured without it. -/
def checkPeriodR (managed : Managed κ) (place : Nat) (inclusive : Bool) : Option Nat × Managed κ :=
  match managed.nhead[place]? with
  | none => (none, managed)
  | some item =>
      let cpu := item.mon.assigned
      if cpu < 0 then (none, managed)
      else
        let before :=
          if inclusive then managed else (recomputeCPUTimesU fp set managed cpu (some item.loc)).2
        let affinity := ((rscsOf before.conts item).map SchedRscs.affinity).getD intMin
        let ftrc := checkPeriod fp set.rrtime before.trcs (nodeAttr item) affinity cpu
        (ftrc, if inclusive then before else (recomputeCPUTimesU fp set before cpu none).2)

/-- `setPidAffinityAssinged` after `mon.assigned = cpu`. -/
def assignTo (managed : Managed κ) (place : Nat) (item : Node) (cpu : Int) : Int × Managed κ :=
  let (ret, node, kernel) := setPidAffinityAssinged proc.toKernel numa managed.kernel
    { item with mon.assigned := cpu }
  (ret, { managed with kernel := kernel }.put place node)

/-- An active task in the container of `node`. -/
def together (conts : Containers) (node item : Node) : Bool :=
  decide (0 < item.pid) && sibling conts node item

/-- The undo loop: tasks moved before go back. -/
def undoThreads (node : Node) (cpu : Int) (managed : Managed κ) (places : List Nat) : Managed κ :=
  places.foldl (fun managed place =>
    match managed.nhead[place]? with
    | none => managed
    | some bitem =>
        if together managed.conts node bitem then (assignTo proc numa managed place bitem cpu).2
        else managed) managed

def Managed.count (managed : Managed κ) (place : Nat) : Managed κ :=
  { managed with
    nhead := managed.nhead.modify place fun item =>
      { item with mon.resched := item.mon.resched + 1 } }

/-- The loop over the threads of the container; `false` is `return -1`. -/
def moveThreads (node : Node) (ncpu : Int) (back : Option Int) :
    List Nat → Managed κ → Bool × Managed κ
  | [], managed => (true, managed)
  | place :: rest, managed =>
      match managed.nhead[place]? with
      | none => moveThreads node ncpu back rest managed
      | some item =>
          if together managed.conts node item then
            let (ret, moved) := assignTo proc numa managed place item ncpu
            if ret = 0 then moveThreads node ncpu back rest (moved.count place)
            else
              match back with
              | none => (false, moved)
              | some cpu =>
                  -- the failed one keeps its mask, the ones before it are set again
                  let failed := { moved with
                    nhead := moved.nhead.modify place fun item => { item with mon.assigned := cpu } }
                  (false, undoThreads proc numa node cpu failed (List.range place))
          else moveThreads node ncpu back rest managed

def Managed.mainCpu (managed : Managed κ) (trc : Nat) : Int :=
  getTracerMainCPU numa.size (managed.trcs.trcAt trc)

/-- `pidReallocAndTest`. -/
def pidReallocAndTest (managed : Managed κ) (ntrc trc : Option Nat) (place : Nat) :
    Int × Managed κ :=
  match ntrc, managed.nhead[place]? with
  | some new, some node =>
      if ntrc = trc then (1, managed)
      else
        let (done, moved) :=
          if node.param.isSome then
            moveThreads proc numa node (managed.mainCpu numa new)
              (trc.map (managed.mainCpu numa)) (List.range managed.nhead.length) managed
          else (true, managed)
        if !done then (-1, moved)
        else
          let arrived := (recomputeTracer fp set moved new none).2
          match trc with
          | none => (0, arrived)
          | some old =>
              let (rv, left) := recomputeTracer fp set arrived old none
              (if rv < 0 then -2 else 0, left)
  | _, _ => (1, managed)

/-- One pass of `pickPidReallocCPU`; `true` once a task was moved and the CPU is fine. -/
def reallocPass (cpu : Int) (deadline : UInt64) (trc : Option Nat) (inclusive : Bool) :
    List Nat → Managed κ → Bool × Managed κ
  | [], managed => (false, managed)
  | place :: rest, managed =>
      match managed.nhead[place]? with
      | none => reallocPass cpu deadline trc inclusive rest managed
      | some item =>
          if item.mon.assigned ≠ cpu ∨ item.pid < 0 ∨
              (deadline ≠ 0 ∧ deadline ≤ item.mon.deadline) then
            reallocPass cpu deadline trc inclusive rest managed
          else
            let (ntrc, checked) := checkPeriodR fp set managed place inclusive
            let (ret, moved) := pidReallocAndTest fp proc numa set checked ntrc trc place
            if ret = 0 then (true, moved)
            else reallocPass cpu deadline trc inclusive rest moved

/-- `pickPidReallocCPU`. -/
def pickPidReallocCPU (managed : Managed κ) (cpu : Int) (deadline : UInt64) : Int × Managed κ :=
  let trc := getTracer managed.trcs cpu
  let places := List.range managed.nhead.length
  let (done, first) := reallocPass fp proc numa set cpu deadline trc false places managed
  if done then (0, first)
  else
    let (done, second) := reallocPass fp proc numa set cpu deadline trc true places first
    (if done then 0 else -1, second)

/-- Runtime until the deadline of `item` that the estimation or the attributes
of a task ask for. -/
def budget (citem : Node) : UInt64 :=
  if citem.mon.cdfRuntime ≠ 0 then citem.mon.cdfRuntime else citem.attr.schedRuntime

/-- The inner loop of `pickPidCheckBuffer`, over `stdl` and `usedtime`. -/
def demandOf (item citem : Node) (usedtime : UInt64) : Except Stop UInt64 := do
  let (_, used) ← repeatWhile Stop.hang
    (fun state : UInt64 × UInt64 => decide (state.1 < item.mon.deadline))
    (fun state => (state.1 + (citem.attr.schedPeriod + citem.mon.cdfPeriod),
      state.2 + budget citem)) turns (citem.mon.deadline, usedtime)
  pure used

/-- `pickPidCheckBuffer`: whether to reschedule. -/
def pickPidCheckBuffer (nhead : List Node) (item : Node) (ts extraRt : UInt64) :
    Except Stop Bool := do
  let usedtime ← nhead.foldlM (fun usedtime citem =>
    if citem.mon.assigned ≠ item.mon.assigned ∨ citem.pid < 0 then pure usedtime
    else if citem.mon.deadline ≠ 0 ∧ (citem.attr.schedPeriod ≠ 0 ∨ citem.mon.cdfPeriod ≠ 0) ∧
        citem.mon.deadline ≤ item.mon.deadline then
      demandOf item citem usedtime
    else pure usedtime) 0
  pure (decide (item.mon.deadline < ts + usedtime + extraRt))

/-- `pickPidAddRuntimeHist`: the run time goes to the histogram and restarts. -/
def pickPidAddRuntimeHist (item : Node) : Node :=
  let mon := spreadDl item.mon item.mon.dlDiff
  { item with
    mon := { mon with
      pdfHist := mon.rt :: mon.pdfHist
      rtAvg := if mon.rtAvg = 0 then mon.rt else (mon.rtAvg * 9 + mon.rt) / 10
      rtMin := min mon.rtMin mon.rt
      rtMax := max mon.rtMax mon.rt
      rt := 0 } }

/-- `while (deadline < ts) deadline += period`. -/
def catchUp (item : Node) (ts : UInt64) : Except Stop Node := do
  let deadline ← repeatWhile Stop.hang (fun deadline : UInt64 => decide (deadline < ts))
    (fun deadline => deadline + item.attr.schedPeriod) turns item.mon.deadline
  pure { item with mon.deadline := deadline }

/-- `while (rt > period)`: periods the task ran beyond its deadline. The state is
`rt`, the deadline and `fail_count`. -/
def skipOverrun (item : Node) : Except Stop (Node × Int) := do
  let (_, deadline, fails) ← repeatWhile Stop.hang
    (fun state : UInt64 × UInt64 × Int => decide (item.attr.schedPeriod < state.1))
    (fun state => (state.1 - item.attr.schedPeriod, state.2.1 + item.attr.schedPeriod,
      state.2.2 + 1)) turns (item.mon.rt, item.mon.deadline, 0)
  pure ({ item with
    mon := { item.mon with deadline := deadline, dlOverrun := item.mon.dlOverrun + 1 } }, fails)

/-- Periods without a value: scan failures. -/
def skipScanfail (item : Node) (ts : UInt64) (fails : Int) : Except Stop (Node × Int) := do
  let (deadline, scanfail, fails) ← repeatWhile Stop.hang
    (fun state : UInt64 × UInt64 × Int => decide (state.1 < ts))
    (fun state => (state.1 + item.attr.schedPeriod, state.2.1 + 1, state.2.2 + 1)) turns
    (item.mon.deadline, item.mon.dlScanfail, fails)
  pure ({ item with
    mon := { item.mon with deadline := deadline, dlScanfail := scanfail } }, fails)

/-- The deadline of the task at a place, brought past `ts`. -/
def Managed.catchUp (managed : Managed κ) (place : Nat) (ts : UInt64) : Except Stop (Managed κ) :=
  match managed.nhead[place]? with
  | none => .ok managed
  | some item => do
      let node ← Manage.catchUp item ts
      pure (managed.put place node)

/-- The first deadline of a task, read from the debug buffer. -/
def firstDeadline (managed : Managed κ) (place : Nat) (ts : UInt64) : Except Stop (Managed κ) :=
  match managed.nhead[place]? with
  | none => .ok managed
  | some item =>
      if item.mon.deadline = 0 then do
        let read ← getSchedInfo proc set managed place
        if item.attr.schedPeriod = 0 then pure read else read.catchUp place ts
      else .ok managed

/-- Both loops over the periods left out, with `fail_count`. -/
def skipPeriods (ts : UInt64) (item : Node) : Except Stop (Node × Int) :=
  if item.mon.deadline < ts ∧ item.attr.schedPeriod < item.mon.rt then do
    let (overrun, fails) ← skipOverrun item
    skipScanfail overrun ts fails
  else skipScanfail item ts 0

/-- After missed periods the deadline is read again. -/
def rereadDeadline (managed : Managed κ) (place : Nat) (ts : UInt64) (fails : Int) :
    Except Stop (Managed κ) :=
  if fails = 0 then .ok managed
  else do
    let read ← getSchedInfo proc set managed place
    read.catchUp place ts

/-- A period is added unless the read-out was the next period already. -/
def addPeriod (ts : UInt64) (item : Node) : Node :=
  if toInt64 (toUInt64 (toInt64 item.mon.deadline - toInt64 ts)) <
      toInt64 item.attr.schedPeriod then
    { item with mon.deadline := item.mon.deadline + item.attr.schedPeriod }
  else item

/-- Deadline of the period that runs at `ts`; the periods left out are counted. -/
def nextDeadline (managed : Managed κ) (place : Nat) (ts : UInt64) :
    Except Stop (Managed κ × Int) :=
  match managed.nhead[place]? with
  | none => .ok (managed, 0)
  | some item =>
      if item.attr.schedPeriod = 0 then .ok (managed, 0)
      else do
        let (missed, fails) ← skipPeriods ts item
        let read ← rereadDeadline proc set (managed.put place missed) place ts fails
        pure ({ read with nhead := read.nhead.modify place (addPeriod ts) }, fails)

/-- Budget overrun: if the buffers do not hold it, some task moves. -/
def checkBudget (managed : Managed κ) (place : Nat) (ts : UInt64) : Except Stop (Managed κ) :=
  match managed.nhead[place]? with
  | none => .ok managed
  | some item =>
      if dynamic set ∧ item.mon.cdfRuntime ≠ 0 ∧ item.mon.cdfRuntime < item.mon.rt then do
        let resched ← pickPidCheckBuffer managed.nhead item ts (item.mon.rt - item.mon.cdfRuntime)
        if resched then
          let counted := managed.put place { item with mon.dlOverrun := item.mon.dlOverrun + 1 }
          pure (pickPidReallocCPU fp proc numa set counted item.mon.assigned item.mon.deadline).2
        else pure managed
      else .ok managed

/-- The attributes of a task whose period is not known. -/
def knowPeriod (managed : Managed κ) (place : Nat) (item : Node) : Except Stop (Managed κ) :=
  if item.attr.schedPeriod = 0 then updatePidAttr proc numa set managed place else .ok managed

/-- The `SCHED_DEADLINE` part of `pickPidConsolidatePeriod`; returns `fail_count`. -/
def consolidateDeadline (managed : Managed κ) (place : Nat) (ts : UInt64) :
    Except Stop (Managed κ × Int) :=
  match managed.nhead[place]? with
  | none => .ok (managed, 0)
  | some item => do
      let updated ← knowPeriod proc numa set
        (managed.put place { item with mon.dlCount := item.mon.dlCount + 1 }) place item
      let first ← firstDeadline proc set updated place ts
      let (next, fails) ← nextDeadline proc set first place ts
      let checked ← checkBudget fp proc numa set next place ts
      pure ({ checked with
        nhead := checked.nhead.modify place fun item => { item with status.nprd := true } }, fails)

/-- The end of `pickPidConsolidatePeriod`: statistics, then the missed periods
are taken from the sum of differences. -/
def bookRuntime (fails : Int) (item : Node) : Node :=
  let booked := if item.mon.rt ≠ 0 ∧ item.mon.lastTs ≠ 0 then pickPidAddRuntimeHist item else item
  { booked with
    mon.dlDiff := toInt64 (toUInt64 (booked.mon.dlDiff - fails * booked.attr.schedPeriod.toNat)) }

/-- `pickPidConsolidatePeriod`. -/
def pickPidConsolidatePeriod (managed : Managed κ) (place : Nat) (ts : UInt64) :
    Except Stop (Managed κ) :=
  match managed.nhead[place]? with
  | none => .ok managed
  | some item =>
      if item.attr.schedPolicy = schedDeadline then do
        let (checked, fails) ← consolidateDeadline fp proc numa set managed place ts
        pure { checked with nhead := checked.nhead.modify place (bookRuntime fails) }
      else .ok { managed with nhead := managed.nhead.modify place (bookRuntime 0) }

end Calls

/-- A `sched_switch` record with its time stamp, read by the thread of CPU
`cpuno`. Of the names only the first character is looked at. -/
structure SwitchFrame where
  cpuno : Nat
  ts : UInt64
  commonType : UInt16 := 0
  commonFlags : UInt8 := 0
  commonPid : Int := 0
  prevComm : UInt8 := 0
  prevPid : Int
  prevState : UInt64 := 0
  nextComm : UInt8 := 0
  nextPid : Int
  nextPrio : Int := 120
  deriving DecidableEq

section Frames
variable {κ : Type} (fp : Rounding) (proc : Proc κ) (numa : Numa) (set : PrgSet)

/-- `pickPidCommon`; `none` is the return for a malformed frame. -/
def pickPidCommon (managed : Managed κ) (frame : SwitchFrame) : Option (Managed κ) :=
  if frame.commonType &&& 0xF000 ≠ 0 then none
  else some { managed with
    nhead := managed.nhead.map fun item =>
      if item.pid = frame.commonPid ∧ frame.commonFlags &&& 0x4 = 0 then
        { item with status.nrsch := true }
      else item }

/-- A task of the frame runs on the frame's CPU; if it was assigned to another
one, that CPU is relieved. -/
def changeCpu (frame : SwitchFrame) (managed : Managed κ) (place : Nat) (item : Node) : Managed κ :=
  let cpu := item.mon.assigned
  if cpu = frame.cpuno then managed
  else
    let here := { item with mon.assigned := frame.cpuno }
    if 0 ≤ cpu then
      let (rv, recomputed) := recomputeCPUTimes fp set
        (managed.put place { here with mon.resched := here.mon.resched + 1 }) cpu
      if rv = -1 ∧ dynamic set then (pickPidReallocCPU fp proc numa set recomputed cpu 0).2
      else recomputed
    else managed.put place { here with status.naff := true }

/-- Time stamp of a task that starts running, and the jitter of its period. -/
def startRunning (frame : SwitchFrame) (item : Node) : Node :=
  let started := { item with mon.lastTs := frame.ts }
  if item.status.nprd then
    let jitter := toInt64 frame.ts - toInt64 item.mon.lastTsP - toInt64 item.attr.schedPeriod
    { started with
      status.nprd := false
      mon := { started.mon with
        dlDiff := if item.mon.lastTsP ≠ 0 then toInt64 (toUInt64 (item.mon.dlDiff + jitter))
          else item.mon.dlDiff
        lastTsP := frame.ts } }
  else started

/-- Body of the first loop of `pickPidInfoS`. -/
def switchNode (frame : SwitchFrame) (managed : Managed κ) (place : Nat) : Managed κ :=
  match managed.nhead[place]? with
  | none => managed
  | some item =>
      let moved :=
        if item.pid = frame.prevPid ∨ item.pid = frame.nextPid then
          changeCpu fp proc numa set frame managed place item
        else managed
      if item.pid = frame.nextPid then
        { moved with nhead := moved.nhead.modify place (startRunning frame) }
      else moved

/-- A task without an assigned CPU is found a place. -/
def placeTask (frame : SwitchFrame) (managed : Managed κ) (place : Nat) (item : Node) : Managed κ :=
  if !progressive set then managed
  else if item.attr.schedPolicy = schedDeadline then
    let (ntrc, checked) := checkPeriodR fp set managed place false
    (pidReallocAndTest fp proc numa set checked ntrc (getTracer checked.trcs frame.cpuno) place).2
  else
    let (mask, kernel) := proc.getaffinity managed.kernel item.pid
    let known := { item with mon.assignedMask := some mask }
    let read := { managed with kernel := kernel }.put place known
    let clear := fun managed : Managed κ => { managed with
      nhead := managed.nhead.modify place fun item => { item with status.naff := false } }
    if 1 < mask.card then
      let (ret, assigned) := assignTo proc numa read place known known.mon.assigned
      if ret = 0 then assigned else clear assigned
    else clear read

/-- The attributes of a task without scheduling data. -/
def knowPolicy (managed : Managed κ) (place : Nat) (item : Node) : Except Stop (Managed κ) :=
  if item.attr.schedPolicy = schedNodata then updatePidAttr proc numa set managed place
  else .ok managed

def firstPlacement (frame : SwitchFrame) (managed : Managed κ) (place : Nat) (item : Node) :
    Except Stop (Managed κ) :=
  if item.status.naff then do
    let updated ← knowPolicy proc numa set managed place item
    match updated.nhead[place]? with
    | none => pure updated
    | some item => pure (placeTask fp proc numa set frame updated place item)
  else .ok managed

/-- `rt += ts - last_ts`. -/
def addRuntime (ts : UInt64) (item : Node) : Node :=
  if item.mon.lastTs ≠ 0 then { item with mon.rt := item.mon.rt + (ts - item.mon.lastTs) }
  else item

/-- Not the final switch of the period: preempted, or still running. -/
def stillInPeriod (frame : SwitchFrame) (item : Node) : Bool :=
  (item.attr.schedPolicy != schedDeadline || frame.prevState &&& 0x0100 != 0 ||
    frame.nextPrio == 0) && frame.prevState &&& 0x00FD == 0

/-- The second loop of `pickPidInfoS` at the task that was switched out. -/
def leaveNode (frame : SwitchFrame) (managed : Managed κ) (place : Nat) (item : Node) :
    Except Stop (Managed κ) := do
  let placed ← firstPlacement fp proc numa set frame managed place item
  let added := { placed with nhead := placed.nhead.modify place (addRuntime frame.ts) }
  match added.nhead[place]? with
  | none => pure added
  | some item =>
      if stillInPeriod frame item then pure added
      else pickPidConsolidatePeriod fp proc numa set added place frame.ts

/-- The second loop of `pickPidInfoS`, up to its `break`. -/
def leaveFirst (frame : SwitchFrame) (managed : Managed κ) : Except Stop (Managed κ) :=
  match managed.nhead.findIdx? fun item => item.pid = frame.prevPid with
  | none => .ok managed
  | some place =>
      match managed.nhead[place]? with
      | none => .ok managed
      | some item => leaveNode fp proc numa set frame managed place item

/-- `pickPidInfoS`, with its return value. -/
def pickPidInfoS (managed : Managed κ) (frame : SwitchFrame) : Except Stop (Int × Managed κ) :=
  match pickPidCommon managed frame with
  | none => .ok (-1, managed)
  | some common =>
      if frame.prevComm &&& 0x80 ≠ 0 ∨ frame.nextComm &&& 0x80 ≠ 0 then .ok (-1, common)
      else do
        let switched :=
          (List.range common.nhead.length).foldl (switchNode fp proc numa set frame) common
        let (rv, recomputed) := recomputeCPUTimes fp set switched frame.cpuno
        let ready :=
          if rv < 0 ∧ dynamic set then
            (pickPidReallocCPU fp proc numa set recomputed frame.cpuno 0).2
          else recomputed
        let left ← leaveFirst fp proc numa set frame ready
        pure (0, left)

end Frames

end Orchestrator.Manage
