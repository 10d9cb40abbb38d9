import Orchestrator.ManageSched
import Orchestrator.PeriodGrid

/-!
The demand of a CPU until the deadline of a task, and which of the two period
fields of a node is set over runs of the program.
-/

namespace Orchestrator.Demand
open Orchdata Resmgnt PidResources Manage ManageSched Moves Traversal Stepping Cmnutil PeriodGrid

/-- The period of a task. -/
def taskPeriod (citem : Node) : UInt64 :=
  if citem.attr.schedPolicy = schedDeadline then citem.attr.schedPeriod else citem.mon.cdfPeriod

/-- Active tasks with a known period whose next deadline is met before that of `item`. -/
def Counted (item citem : Node) : Prop :=
  citem.mon.assigned = item.mon.assigned ∧ 0 ≤ citem.pid ∧ citem.mon.deadline ≠ 0 ∧
    taskPeriod citem ≠ 0 ∧ citem.mon.deadline ≤ item.mon.deadline

instance (item : Node) : DecidablePred (Counted item) :=
  fun _ => inferInstanceAs (Decidable (_ ∧ _))

/-- Run time one task takes between its deadline and that of `item`. -/
def demandBy (item citem : Node) : Nat :=
  (item.mon.deadline.toNat - citem.mon.deadline.toNat) ⌈/⌉ (taskPeriod citem).toNat *
    (budget citem).toNat

def demand (item : Node) (nhead : List Node) : Nat :=
  ((nhead.filter fun citem => Counted item citem).map (demandBy item)).sum

/-- Nothing wraps on the way. -/
structure Fits (nhead : List Node) (item : Node) (ts extraRt : UInt64) : Prop where
  deadlines : ∀ citem ∈ nhead, Counted item citem →
    item.mon.deadline.toNat + (taskPeriod citem).toNat < word
  sum : ts.toNat + extraRt.toNat + demand item nhead < word

/-- Only one of the periods is set: that of the attributes for `SCHED_DEADLINE`,
the estimated one otherwise. -/
def OnePeriod (citem : Node) : Prop :=
  if citem.attr.schedPolicy = schedDeadline then citem.mon.cdfPeriod = 0
  else citem.attr.schedPeriod = 0

section Loops
variable {item citem : Node}

theorem one_period_sum (one : OnePeriod citem) :
    citem.attr.schedPeriod + citem.mon.cdfPeriod = taskPeriod citem := by
  unfold OnePeriod at one
  unfold taskPeriod
  by_cases deadline : citem.attr.schedPolicy = schedDeadline
  · rw [if_pos deadline] at one ⊢
    rw [one, UInt64.add_zero]
  · rw [if_neg deadline] at one ⊢
    rw [one, UInt64.zero_add]

theorem one_period_known (one : OnePeriod citem) :
    citem.attr.schedPeriod ≠ 0 ∨ citem.mon.cdfPeriod ≠ 0 ↔ taskPeriod citem ≠ 0 := by
  unfold OnePeriod at one
  unfold taskPeriod
  by_cases deadline : citem.attr.schedPolicy = schedDeadline
  · rw [if_pos deadline] at one ⊢
    simp [one]
  · rw [if_neg deadline] at one ⊢
    simp [one]

theorem demand_cons (item citem : Node) (rest : List Node) :
    demand item (citem :: rest) =
      (if Counted item citem then demandBy item citem else 0) + demand item rest := by
  unfold demand
  by_cases counted : Counted item citem <;> simp [counted]

/-- The inner loop adds what the task takes. -/
theorem demand_of_exact (usedtime : UInt64) (one : OnePeriod citem) (known : taskPeriod citem ≠ 0)
    (deadline : item.mon.deadline.toNat + (taskPeriod citem).toNat < word)
    (sum : usedtime.toNat + demandBy item citem < word) :
    ∃ used, demandOf item citem usedtime = .ok used ∧
      used.toNat = usedtime.toNat + demandBy item citem := by
  have positive := to_nat_pos known
  have spacing := one_period_sum one
  have grows : ∀ turn ≤ turnsTo citem.mon.deadline.toNat (taskPeriod citem).toNat
      item.mon.deadline.toNat,
      (after citem.mon.deadline (taskPeriod citem) turn).toNat =
        citem.mon.deadline.toNat + turn * (taskPeriod citem).toNat := by
    intro turn early
    refine after_exact ?_
    have smaller := Nat.mul_le_mul_right (taskPeriod citem).toNat early
    have small := citem.mon.deadline.toNat_lt
    rcases turns_within citem.mon.deadline.toNat item.mon.deadline.toNat positive with
      ⟨none, -⟩ | passed
    · rw [none] at smaller
      rw [word]
      omega
    · omega
  refine ⟨after usedtime (budget citem)
    (turnsTo citem.mon.deadline.toNat (taskPeriod citem).toNat item.mon.deadline.toNat),
    demand_of_turns _ usedtime ?_ (fun turn early => ?_) ?_, after_exact sum⟩
  · have large := Nat.le_mul_of_pos_right
      (turnsTo citem.mon.deadline.toNat (taskPeriod citem).toNat item.mon.deadline.toNat) positive
    rcases turns_within citem.mon.deadline.toNat item.mon.deadline.toNat positive with
      ⟨none, -⟩ | passed
    · rw [none]
      decide
    · omega
  · rw [spacing, UInt64.lt_iff_toNat_lt, grows turn (Nat.le_of_lt early)]
    exact below_before positive early
  · rw [spacing, UInt64.lt_iff_toNat_lt, grows _ (Nat.le_refl _), Nat.not_lt]
    exact bound_reached _ _ positive

/-- The scan of the list sums the demand up. -/
theorem scan_exact (nhead : List Node) (usedtime : UInt64) (one : ∀ citem ∈ nhead, OnePeriod citem)
    (deadlines : ∀ citem ∈ nhead, Counted item citem →
      item.mon.deadline.toNat + (taskPeriod citem).toNat < word)
    (sum : usedtime.toNat + demand item nhead < word) :
    ∃ used, nhead.foldlM (fun usedtime citem =>
        if citem.mon.assigned ≠ item.mon.assigned ∨ citem.pid < 0 then pure usedtime
        else if citem.mon.deadline ≠ 0 ∧ (citem.attr.schedPeriod ≠ 0 ∨ citem.mon.cdfPeriod ≠ 0) ∧
            citem.mon.deadline ≤ item.mon.deadline then
          demandOf item citem usedtime
        else pure usedtime) usedtime = (.ok used : Except Stop UInt64) ∧
      used.toNat = usedtime.toNat + demand item nhead := by
  induction nhead generalizing usedtime with
  | nil => exact ⟨usedtime, rfl, by simp [demand]⟩
  | cons citem rest ih =>
      have known := one_period_known (one citem List.mem_cons_self)
      have later := fun used => ih used (fun other member => one other (List.mem_cons_of_mem citem member))
        fun other member => deadlines other (List.mem_cons_of_mem citem member)
      rw [demand_cons] at sum ⊢
      rw [List.foldlM_cons]
      by_cases counted : Counted item citem
      · rw [if_pos counted] at sum ⊢
        obtain ⟨here, active, due, period, before⟩ := counted
        obtain ⟨middle, step, added⟩ := demand_of_exact usedtime (one citem List.mem_cons_self) period
          (deadlines citem List.mem_cons_self ⟨here, active, due, period, before⟩) (by omega)
        obtain ⟨used, run, total⟩ := later middle (by omega)
        rw [if_neg (by simp [here, active]), if_pos ⟨due, known.mpr period, before⟩, step]
        exact ⟨used, run, by omega⟩
      · rw [if_neg counted, Nat.zero_add] at sum ⊢
        have skip : (if citem.mon.assigned ≠ item.mon.assigned ∨ citem.pid < 0 then pure usedtime
            else if citem.mon.deadline ≠ 0 ∧ (citem.attr.schedPeriod ≠ 0 ∨ citem.mon.cdfPeriod ≠ 0) ∧
                citem.mon.deadline ≤ item.mon.deadline then
              demandOf item citem usedtime
            else pure usedtime) = (.ok usedtime : Except Stop UInt64) := by
          split_ifs with away all
          · rfl
          · rw [not_or, not_not, not_lt] at away
            exact absurd ⟨away.1, away.2, all.1, known.mp all.2.1, all.2.2⟩ counted
          · rfl
        rw [skip]
        exact later usedtime sum

theorem check_buffer_exact (nhead : List Node) (item : Node) (ts extraRt : UInt64)
    (one : ∀ citem ∈ nhead, OnePeriod citem) (fits : Fits nhead item ts extraRt) :
    pickPidCheckBuffer nhead item ts extraRt =
      .ok (decide (item.mon.deadline.toNat <
        ts.toNat + extraRt.toNat + demand item nhead)) := by
  have small := fits.sum
  obtain ⟨used, run, total⟩ := scan_exact nhead 0 one fits.deadlines (by simp; omega)
  rw [UInt64.toNat_zero, Nat.zero_add] at total
  rw [pickPidCheckBuffer, run]
  have first : (ts + used).toNat = ts.toNat + used.toNat := add_exact _ _ (by omega)
  have whole : (ts + used + extraRt).toNat = ts.toNat + extraRt.toNat + demand item nhead := by
    rw [add_exact _ _ (by omega), first, total]
    omega
  change Except.ok (decide (item.mon.deadline < ts + used + extraRt)) = _
  simp only [UInt64.lt_iff_toNat_lt, whole]

end Loops

/-! ## Which period is set -/

/-- The configured period becomes the first estimate. -/
def startsPeriod (set : PrgSet) (conts : Containers) (node : Node) : Prop :=
  set.useCgroup = .cgrp ∧ node.pid ≠ 0 ∧ ∃ p, node.param = some p ∧
    0 ≤ (conts.rscsAt (conts.pidcAt p).rscs).affinity ∧
    (conts.attrAt (conts.pidcAt p).attr).schedPeriod ≠ 0

/-- A node as `node_push` leaves it. -/
def Pushed (node : Node) : Prop :=
  node.attr = { schedPolicy := schedNodata } ∧ node.mon.cdfPeriod = 0

/-- Both nodes have the same attributes and the same estimated period. -/
def SamePeriods (node other : Node) : Prop :=
  node.attr = other.attr ∧ node.mon.cdfPeriod = other.mon.cdfPeriod

theorem one_period_congr {node other : Node} (same : SamePeriods node other) :
    OnePeriod node ↔ OnePeriod other := by
  rw [OnePeriod, OnePeriod, same.1, same.2]

theorem pushed_one_period {node : Node} (pushed : Pushed node) : OnePeriod node := by
  rw [OnePeriod, pushed.1]
  rfl

section Steps
variable {κ : Type} (fp : Rounding) (proc : Proc κ) (numa : Numa) (set : PrgSet)

/-- Calls that change the attributes or the estimated period of a node; `other` is
anything else. -/
inductive Act where
  | other
  | resources (place : Nat)
  | attributes (place : Nat)
  | manage (place : Nat) (estimate : Estimate)

inductive Step (before : Managed κ) : Act → Managed κ → Prop where
  /-- Nodes are pushed, removed, or keep both periods. -/
  | other (after : Managed κ) (nodes : ∀ node ∈ after.nhead,
      Pushed node ∨ ∃ old ∈ before.nhead, SamePeriods node old) : Step before .other after
  | resources (place : Nat) {item node : Node} {conts : Containers} {kernel : κ}
      (here : before.nhead[place]? = some item)
      (run : setPidResources_u proc.toKernel numa set before.conts before.kernel item =
        .ok (conts, node, kernel)) :
      Step before (.resources place) ({ before with conts := conts, kernel := kernel }.put place node)
  | attributes (place : Nat) {after : Managed κ}
      (run : updatePidAttr proc numa set before place = .ok after) :
      Step before (.attributes place) after
  | manage (place : Nat) (estimate : Estimate) :
      Step before (.manage place estimate) (manageNode fp proc numa set before place estimate)

/-- A configured period is no first estimate for a task that runs under
`SCHED_DEADLINE`, and no task with an estimated period turns up under it. -/
def Apart (before : Managed κ) : Act → Prop
  | .resources place => ∀ item, before.nhead[place]? = some item →
      startsPeriod set before.conts item → item.attr.schedPolicy ≠ schedDeadline
  | .attributes place => ∀ item, before.nhead[place]? = some item →
      if item.param.isSome ∧ ¬ item.status.upd then
        startsPeriod set before.conts item → item.attr.schedPolicy ≠ schedDeadline
      else ∀ attr, (proc.getattr before.kernel item.pid).1 = some attr →
        attr.schedPolicy = schedDeadline → item.mon.cdfPeriod = 0
  | _ => True

/-- States of runs from an empty list whose steps meet a condition. -/
inductive Reached (meets : Managed κ → Act → Prop) : Managed κ → Prop where
  | start (managed : Managed κ) (empty : managed.nhead = []) : Reached meets managed
  | next {before after : Managed κ} (act : Act) (reached : Reached meets before)
      (met : meets before act) (step : Step fp proc numa set before act after) :
      Reached meets after

/-- Only `SCHED_DEADLINE` tasks have a period in the kernel. -/
def PeriodsOfDeadline : Prop :=
  ∀ kernel pid attr, (proc.getattr kernel pid).1 = some attr →
    attr.schedPolicy ≠ schedDeadline → attr.schedPeriod = 0

theorem settled_same_periods {node other : Node} (same : settled node = settled other) :
    SamePeriods node other :=
  ⟨(read_settled (fun item => item.attr) (fun _ => rfl) same).trans rfl,
    (read_settled (fun item => item.mon.cdfPeriod) (fun _ => rfl) same).trans rfl⟩

theorem set_fixed_periods (state : κ) (rscs : SchedRscs) (attr : SchedAttr) (node : Node) :
    (setFixed proc.toKernel numa state rscs attr node).1.attr = node.attr ∧
      ((setFixed proc.toKernel numa state rscs attr node).1.mon.cdfPeriod = node.mon.cdfPeriod ∨
        node.pid ≠ 0 ∧ 0 ≤ rscs.affinity ∧ attr.schedPeriod ≠ 0) := by
  unfold setFixed
  by_cases fixed : node.pid ≠ 0 ∧ 0 ≤ rscs.affinity
  · rw [if_pos fixed]
    have same := settled_same_periods (set_pid_affinity_assinged_settled proc numa state
      { node with mon.assigned := rscs.affinity })
    refine ⟨same.1, ?_⟩
    by_cases period : attr.schedPeriod = 0
    · refine .inl (Eq.trans ?_ same.2)
      simp [startValues, period]
    · exact .inr ⟨fixed.1, fixed.2, period⟩
  · rw [if_neg fixed]
    exact ⟨rfl, .inl rfl⟩

/-- What the first detection does to the periods of a node. -/
theorem set_pid_resources_u_periods {conts scheduled : Containers} {state written : κ}
    {item node : Node}
    (run : setPidResources_u proc.toKernel numa set conts state item = .ok (scheduled, node, written)) :
    node.attr = item.attr ∧
      (node.mon.cdfPeriod = item.mon.cdfPeriod ∨ startsPeriod set conts item) := by
  rw [setPidResources_u] at run
  cases param : item.param with
  | none => rw [param] at run; cases run
  | some p =>
      rw [param] at run
      obtain ⟨⟨settled, middle⟩, affinity, rest⟩ := bind_ok run
      cases rest
      rw [setAffinity] at affinity
      split_ifs at affinity with cgrp deadline
      · obtain ⟨⟨ret, opened⟩, -, fixed⟩ := bind_ok affinity
        have same := set_fixed_periods proc numa opened (conts.rscsAt (conts.pidcAt p).rscs)
          (conts.attrAt (conts.pidcAt p).attr) (markUpd (fillNode conts (conts.pidcAt p) item) ret)
        rw [Except.ok.inj fixed] at same
        refine ⟨same.1, ?_⟩
        rcases same.2 with kept | ⟨task, pinned, period⟩
        · exact .inl kept
        · exact .inr ⟨cgrp, task, p, param, pinned, period⟩
      · cases affinity
        exact ⟨rfl, .inl rfl⟩
      · obtain ⟨⟨ret, opened⟩, -, last⟩ := bind_ok affinity
        cases last
        exact ⟨rfl, .inl rfl⟩

theorem set_reclaim_node (managed : Managed κ) (place : Nat) (item : Node) :
    ∃ node, (setReclaim proc set managed place item).nhead = managed.nhead.set place node ∧
      node.attr.schedPolicy = item.attr.schedPolicy ∧
      node.attr.schedPeriod = item.attr.schedPeriod ∧ node.mon.cdfPeriod = item.mon.cdfPeriod := by
  unfold setReclaim
  split_ifs
  · exact ⟨_, rfl, rfl, rfl, rfl⟩
  · exact ⟨_, rfl, rfl, rfl, rfl⟩

variable {fp proc numa set}

/-- Nodes that keep the invariant when at most one of them changes. -/
theorem one_period_set {nhead : List Node} {place : Nat} {node : Node}
    (one : ∀ item ∈ nhead, OnePeriod item) (new : OnePeriod node) :
    ∀ item ∈ nhead.set place node, OnePeriod item := by
  intro item member
  rcases List.mem_or_eq_of_mem_set member with old | same
  · exact one item old
  · rw [same]
    exact new

theorem set_pid_resources_u_one_period {conts scheduled : Containers} {state written : κ}
    {item node : Node} (one : OnePeriod item)
    (apart : startsPeriod set conts item → item.attr.schedPolicy ≠ schedDeadline)
    (run : setPidResources_u proc.toKernel numa set conts state item = .ok (scheduled, node, written)) :
    OnePeriod node := by
  obtain ⟨attr, same | starts⟩ := set_pid_resources_u_periods proc numa set run
  · exact (one_period_congr ⟨attr, same⟩).mpr one
  · have policy := apart starts
    rw [OnePeriod, if_neg policy] at one
    rw [OnePeriod, attr, if_neg policy]
    exact one

theorem update_pid_attr_one_period (kernel : PeriodsOfDeadline proc) {before after : Managed κ}
    {place : Nat} (one : ∀ item ∈ before.nhead, OnePeriod item)
    (apart : Apart proc set before (.attributes place))
    (run : updatePidAttr proc numa set before place = .ok after) :
    ∀ item ∈ after.nhead, OnePeriod item := by
  rw [updatePidAttr] at run
  cases here : before.nhead[place]? with
  | none =>
      rw [here] at run
      cases run
      exact one
  | some item =>
      have known := one item (List.mem_of_getElem? here)
      have condition := apart item here
      rw [here] at run
      dsimp only at run
      split_ifs at run condition with upload
      · obtain ⟨⟨conts, node, written⟩, call, rest⟩ := bind_ok run
        cases rest
        exact one_period_set one (set_pid_resources_u_one_period known condition call)
      · cases read : proc.getattr before.kernel item.pid with
        | mk attr state =>
            rw [read] at run
            cases attr with
            | none =>
                cases run
                exact one
            | some attr =>
                cases run
                obtain ⟨node, list, policy, period, cdfPeriod⟩ := set_reclaim_node proc set
                  { before with kernel := state } place { item with attr := attr }
                rw [list]
                refine one_period_set one ?_
                have reported : (proc.getattr before.kernel item.pid).1 = some attr := by rw [read]
                rw [OnePeriod, policy, period, cdfPeriod]
                by_cases deadline : attr.schedPolicy = schedDeadline
                · rw [if_pos deadline]
                  exact condition attr reported deadline
                · rw [if_neg deadline]
                  exact kernel before.kernel item.pid attr reported deadline

theorem stays_one_period {before after : Managed κ} (stays : Stays before after)
    (one : ∀ item ∈ before.nhead, OnePeriod item) : ∀ item ∈ after.nhead, OnePeriod item := by
  intro item member
  have settles := List.mem_map_of_mem (f := settled) member
  rw [stays.nodes] at settles
  obtain ⟨old, first, same⟩ := List.mem_map.mp settles
  exact (one_period_congr (settled_same_periods same)).mp (one old first)

theorem update_siblings_stays (managed : Managed κ) (place : Nat) :
    Stays managed (updateSiblings fp proc numa set managed place).2 := by
  unfold updateSiblings
  split
  · exact Stays.refl managed
  · split_ifs
    · exact Stays.refl managed
    · exact (check_period_r_stays fp set managed place false).trans
        (pid_realloc_and_test_stays fp proc numa set _ _ _ place)

theorem update_period_one_period {before : Managed κ} {place : Nat} (newPeriod : UInt64)
    (one : ∀ item ∈ before.nhead, OnePeriod item) :
    ∀ item ∈ (updatePeriod fp proc numa set before place newPeriod).nhead, OnePeriod item := by
  unfold updatePeriod
  cases here : before.nhead[place]? with
  | none => exact one
  | some item =>
      dsimp only
      by_cases policy : item.attr.schedPolicy = schedDeadline
      · rw [if_pos policy]
        exact one
      · rw [if_neg policy]
        have old := one item (List.mem_of_getElem? here)
        rw [OnePeriod, if_neg policy] at old
        have known : ∀ other ∈ (before.put place { item with mon.cdfPeriod := newPeriod }).nhead,
            OnePeriod other := by
          refine one_period_set one ?_
          rw [OnePeriod, if_neg policy]
          exact old
        split_ifs
        · exact stays_one_period (update_siblings_stays _ place) known
        · exact known

theorem update_runtime_one_period {before : Managed κ} {place : Nat} (newWCET : UInt64)
    (one : ∀ item ∈ before.nhead, OnePeriod item) :
    ∀ item ∈ (updateRuntime proc before place newWCET).nhead, OnePeriod item := by
  unfold updateRuntime
  cases here : before.nhead[place]? with
  | none => exact one
  | some item =>
      have old := one item (List.mem_of_getElem? here)
      dsimp only
      by_cases none : newWCET = 0
      · rw [if_pos none]
        exact one
      · rw [if_neg none]
        have written : ∀ other ∈ (if item.attr.schedPolicy = schedDeadline then
            updatePidWCET proc before place item newWCET else before).nhead, OnePeriod other := by
          split_ifs
          · unfold updatePidWCET
            refine one_period_set one ?_
            split_ifs <;> exact old
          · exact one
        intro other member
        obtain ⟨index, inside, rfl⟩ := List.mem_iff_getElem.mp member
        rw [List.getElem_modify]
        rw [List.length_modify] at inside
        have kept := written _ (List.getElem_mem inside)
        by_cases this : place = index
        · rw [if_pos this]
          exact kept
        · rw [if_neg this]
          exact kept

theorem manage_node_one_period {before : Managed κ} {place : Nat} (estimate : Estimate)
    (one : ∀ item ∈ before.nhead, OnePeriod item) :
    ∀ item ∈ (manageNode fp proc numa set before place estimate).nhead, OnePeriod item := by
  unfold manageNode
  cases before.nhead[place]? with
  | none => exact one
  | some item =>
      dsimp only
      split_ifs
      · exact one
      · have spaced : ∀ other ∈ (estimate.newPeriod.elim before
            (updatePeriod fp proc numa set before place)).nhead, OnePeriod other := by
          cases estimate.newPeriod with
          | none => exact one
          | some newPeriod => exact update_period_one_period newPeriod one
        cases estimate.newWCET with
        | none => exact spaced
        | some newWCET => exact update_runtime_one_period newWCET spaced

theorem step_one_period (kernel : PeriodsOfDeadline proc) {before after : Managed κ} {act : Act}
    (one : ∀ item ∈ before.nhead, OnePeriod item) (apart : Apart proc set before act)
    (step : Step fp proc numa set before act after) : ∀ item ∈ after.nhead, OnePeriod item := by
  cases step with
  | other after nodes =>
      intro item member
      rcases nodes item member with pushed | ⟨old, first, same⟩
      · exact pushed_one_period pushed
      · exact (one_period_congr same).mpr (one old first)
  | resources place here run =>
      exact one_period_set one (set_pid_resources_u_one_period
        (one _ (List.mem_of_getElem? here)) (apart _ here) run)
  | attributes place run => exact update_pid_attr_one_period kernel one apart run
  | manage place estimate => exact manage_node_one_period estimate one

theorem reached_one_period (kernel : PeriodsOfDeadline proc) {managed : Managed κ}
    (reached : Reached fp proc numa set (Apart proc set) managed) :
    ∀ item ∈ managed.nhead, OnePeriod item := by
  induction reached with
  | start managed empty =>
      rw [empty]
      exact fun item none => absurd none List.not_mem_nil
  | next act _ met step ih => exact step_one_period kernel ih met step

/-- In runs that keep the periods apart the check compares with the demand. -/
theorem check_buffer_demand (kernel : PeriodsOfDeadline proc) {managed : Managed κ}
    (reached : Reached fp proc numa set (Apart proc set) managed) (item : Node) (ts extraRt : UInt64)
    (fits : Fits managed.nhead item ts extraRt) :
    pickPidCheckBuffer managed.nhead item ts extraRt =
      .ok (decide (item.mon.deadline.toNat <
        ts.toNat + extraRt.toNat + demand item managed.nhead)) :=
  check_buffer_exact managed.nhead item ts extraRt (reached_one_period kernel reached) fits

end Steps

/-! Two tasks of the same CPU, the second with its deadline after that of the first. -/

def deadlineAttr : SchedAttr :=
  { schedPolicy := schedDeadline, schedRuntime := 300, schedPeriod := 1000 }

/-- A kernel that reports every task under `SCHED_DEADLINE`. -/
def deadlineProc : Proc Unit :=
  { RunTime.idleProc with getattr := fun state _ => (some deadlineAttr, state) }

theorem deadline_proc_periods : PeriodsOfDeadline deadlineProc := by
  intro kernel pid attr reported policy
  cases reported
  exact absurd rfl policy

def pushedTasks : List Node := [{ loc := 1, pid := 100 }, { loc := 2, pid := 101 }]

def dueTasks : List Node :=
  [{ loc := 1, pid := 100, attr := deadlineAttr, mon := { deadline := 5000, assigned := 0 } },
    { loc := 2, pid := 101, attr := deadlineAttr, mon := { deadline := 10000, assigned := 0 } }]

theorem due_tasks_reached :
    Reached ieee deadlineProc ⟨4, {0, 1, 2, 3}⟩ {} (Apart deadlineProc {}) ⟨dueTasks, {}, {}, ()⟩ := by
  have started : Reached ieee deadlineProc ⟨4, {0, 1, 2, 3}⟩ {} (Apart deadlineProc {})
      ⟨[], {}, {}, ()⟩ := .start _ rfl
  have pushed := started.next .other trivial (.other ⟨pushedTasks, {}, {}, ()⟩ (by
    intro node member
    left
    simp only [pushedTasks, List.mem_cons, List.not_mem_nil, or_false] at member
    rcases member with rfl | rfl <;> exact ⟨rfl, rfl⟩))
  have first := pushed.next (.attributes 0) (by
    intro item here
    cases here
    exact fun _ _ _ => rfl) (.attributes 0 rfl)
  have second := first.next (.attributes 1) (by
    intro item here
    cases here
    exact fun _ _ _ => rfl) (.attributes 1 rfl)
  refine second.next .other trivial (.other ⟨dueTasks, {}, {}, ()⟩ ?_)
  intro node member
  right
  simp only [dueTasks, List.mem_cons, List.not_mem_nil, or_false] at member
  rcases member with rfl | rfl
  · exact ⟨_, List.mem_cons_self, rfl, rfl⟩
  · exact ⟨_, List.mem_cons_of_mem _ List.mem_cons_self, rfl, rfl⟩

theorem due_tasks_demand :
    ∃ item ∈ dueTasks, pickPidCheckBuffer dueTasks item 8800 0 =
      .ok (decide (item.mon.deadline.toNat <
        (8800 : UInt64).toNat + (0 : UInt64).toNat + demand item dueTasks)) := by
  refine ⟨_, List.mem_cons_of_mem _ List.mem_cons_self,
    check_buffer_demand deadline_proc_periods due_tasks_reached _ 8800 0 ⟨?_, ?_⟩⟩
  · intro citem member counted
    simp only [dueTasks, List.mem_cons, List.not_mem_nil, or_false] at member
    rcases member with rfl | rfl <;> decide
  · decide

/-- A container whose tasks run under `SCHED_DEADLINE` on the first CPU. -/
def pinnedConts : Containers where
  cont := [1]
  pids := [2]
  contAt := fun _ => { attr := 3, rscs := 4, contid := some ⟨5, ['c']⟩, pids := [2] }
  pidcAt := fun _ => { attr := 3, rscs := 4, cont := some (.cont 1) }
  attrAt := fun _ => deadlineAttr
  rscsAt := fun _ => { affinity := 0, affinityMask := some {0} }
  brk := 6

/-- A task of the container, as `scanNew` finds it. -/
def pinnedTask (loc : Nat) (pid : Int) : Node :=
  { loc := loc, pid := pid, contid := some ⟨5, ['c']⟩, param := some 2 }

/-- The same after its parameters were set and its attributes read. -/
def pinnedReady (loc : Nat) (pid : Int) (deadline : UInt64) : Node :=
  { pinnedTask loc pid with
    status := { upd := true }
    attr := deadlineAttr
    mon := {
      deadline := deadline
      assigned := 0
      assignedMask := some {0}
      cdfPeriod := 1000
      cdfRuntime := 300 } }

def pinnedTasks : List Node := [pinnedReady 1 100 5000, pinnedReady 2 101 10000]

theorem pinned_tasks_reached :
    Reached ieee deadlineProc ⟨4, {0, 1, 2, 3}⟩ {} (fun _ _ => True)
      ⟨pinnedTasks, pinnedConts, {}, ()⟩ := by
  have started : Reached ieee deadlineProc ⟨4, {0, 1, 2, 3}⟩ {} (fun _ _ => True)
      ⟨[], pinnedConts, {}, ()⟩ := .start _ rfl
  have pushed := started.next .other trivial
    (.other ⟨[pinnedTask 1 100, pinnedTask 2 101], pinnedConts, {}, ()⟩ (by
      intro node member
      left
      simp only [List.mem_cons, List.not_mem_nil, or_false] at member
      rcases member with rfl | rfl <;> exact ⟨rfl, rfl⟩))
  have first := pushed.next (.resources 0) trivial (.resources 0 rfl rfl)
  have second := first.next (.resources 1) trivial (.resources 1 rfl rfl)
  have third := second.next (.attributes 0) trivial (.attributes 0 rfl)
  have fourth := third.next (.attributes 1) trivial (.attributes 1 rfl)
  refine fourth.next .other trivial (.other ⟨pinnedTasks, pinnedConts, {}, ()⟩ ?_)
  intro node member
  right
  simp only [pinnedTasks, List.mem_cons, List.not_mem_nil, or_false] at member
  rcases member with rfl | rfl
  · exact ⟨_, List.mem_cons_self, rfl, rfl⟩
  · exact ⟨_, List.mem_cons_of_mem _ List.mem_cons_self, rfl, rfl⟩

/-- Both periods are set and the loop adds them: 9700 ns until the deadline
where the first task alone takes the CPU beyond it. -/
theorem pinned_tasks_add_both :
    PeriodsOfDeadline deadlineProc ∧
      Reached ieee deadlineProc ⟨4, {0, 1, 2, 3}⟩ {} (fun _ _ => True)
        ⟨pinnedTasks, pinnedConts, {}, ()⟩ ∧
      ∃ item ∈ pinnedTasks, Fits pinnedTasks item 8800 0 ∧
        pickPidCheckBuffer pinnedTasks item 8800 0 = .ok false ∧
        item.mon.deadline.toNat <
          (8800 : UInt64).toNat + (0 : UInt64).toNat + demand item pinnedTasks := by
  refine ⟨deadline_proc_periods, pinned_tasks_reached, _,
    List.mem_cons_of_mem _ List.mem_cons_self, ⟨?_, ?_⟩, ?_, ?_⟩
  · intro citem member counted
    simp only [pinnedTasks, List.mem_cons, List.not_mem_nil, or_false] at member
    rcases member with rfl | rfl <;> decide
  · decide
  · rfl
  · decide

end Orchestrator.Demand
