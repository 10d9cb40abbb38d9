import Orchestrator.ManageSched
import Orchestrator.PlanLoad
import Orchestrator.ReallocReport

/-!
The load of both CPUs after a successful `pidReallocAndTest`: one thread was
tested, its whole container moves. Tests go by the periods of `findPeriodMatch`.
-/

namespace Orchestrator.ReallocLoad
open Orchdata Resmgnt PidLookup PidResources Manage ManageSched Moves Realloc ReallocReport
open Admission Recompute Plan PlanLoad HyperPeriod

/-- The task's own period, before `findPeriodMatch`. -/
def ownPeriod (item : Node) : UInt64 :=
  if item.attr.schedPolicy = schedDeadline then item.attr.schedPeriod else item.mon.cdfPeriod

/-- Runtime over period of a task. -/
def share (item : Node) : ℚ := (nodeAttr item).schedRuntime.toNat / (ownPeriod item).toNat

def loadOf (items : List Node) : ℚ := (items.map share).sum

/-- Active tasks of a CPU. -/
def onCpu (cpu : Int) (item : Node) : Bool := decide (item.mon.assigned = cpu ∧ 0 ≤ item.pid)

def utilisation (nhead : List Node) (cpu : Int) : ℚ := loadOf (nhead.filter (onCpu cpu))

/-- Threads of the container that come to the CPU. -/
def comers (conts : Containers) (node : Node) (cpu : Int) (nhead : List Node) : List Node :=
  nhead.filter fun item => together conts node item && item.mon.assigned != cpu

/-- Tasks of the CPU that the container leaves there. -/
def leftBehind (conts : Containers) (node : Node) (cpu : Int) (nhead : List Node) : List Node :=
  nhead.filter fun item => onCpu cpu item && !together conts node item

/-- The list after the whole container moved. -/
def movedTo (numa : Numa) (conts : Containers) (node : Node) (cpu : Int) (nhead : List Node) :
    List Node :=
  nhead.map fun item => if together conts node item = true then arrived numa cpu item else item

section Lists
variable (numa : Numa) (conts : Containers) (node : Node)

theorem load_of_cons (item : Node) (items : List Node) :
    loadOf (item :: items) = share item + loadOf items := by
  simp [loadOf]

theorem share_arrived (cpu : Int) (item : Node) : share (arrived numa cpu item) = share item := rfl

theorem together_active {item : Node} (joined : together conts node item = true) :
    0 ≤ item.pid := by
  simp only [together, Bool.and_eq_true, decide_eq_true_eq] at joined
  omega

/-- The destination takes the threads that were not there yet. -/
theorem moved_to_load (cpu : Int) (nhead : List Node) :
    utilisation (movedTo numa conts node cpu nhead) cpu =
      utilisation nhead cpu + loadOf (comers conts node cpu nhead) := by
  induction nhead with
  | nil => simp [movedTo, utilisation, comers, loadOf]
  | cons item rest ih =>
      unfold utilisation comers movedTo at ih ⊢
      by_cases joined : together conts node item = true
      · have active := together_active conts node joined
        have there : onCpu cpu (arrived numa cpu item) = true := by
          simp [onCpu, arrived, active]
        by_cases already : item.mon.assigned = cpu
        · have here : onCpu cpu item = true := by simp [onCpu, already, active]
          simp only [List.map_cons, List.filter_cons, joined, there, here, already, if_true,
            bne_self_eq_false, Bool.and_false, Bool.false_eq_true, if_false, load_of_cons,
            share_arrived, ih]
          ring
        · have away : onCpu cpu item = false := by simp [onCpu, already]
          have comes : (item.mon.assigned != cpu) = true := by simp [already]
          simp only [List.map_cons, List.filter_cons, joined, there, away, comes, if_true,
            Bool.and_self, Bool.false_eq_true, if_false, load_of_cons, share_arrived, ih]
          ring
      · rw [Bool.not_eq_true] at joined
        by_cases here : onCpu cpu item = true
        · simp only [List.map_cons, List.filter_cons, joined, here, if_true, Bool.false_eq_true,
            if_false, Bool.false_and, load_of_cons, ih]
          ring
        · simp only [List.map_cons, List.filter_cons, joined, here, Bool.false_eq_true, if_false,
            Bool.false_and, ih]

/-- The origin keeps what does not belong to the container. -/
theorem moved_to_filter {cpu origin : Int} (apart : cpu ≠ origin) (nhead : List Node) :
    (movedTo numa conts node cpu nhead).filter (onCpu origin) =
      leftBehind conts node origin nhead := by
  induction nhead with
  | nil => rfl
  | cons item rest ih =>
      unfold movedTo leftBehind at ih ⊢
      by_cases joined : together conts node item = true
      · have away : onCpu origin (arrived numa cpu item) = false := by
          simp [onCpu, arrived, apart]
        simp [joined, away, ih]
      · rw [Bool.not_eq_true] at joined
        by_cases here : onCpu origin item = true
        · simp [joined, here, ih]
        · simp [joined, here, ih]

/-- A known task that is not round-robin, with a period `findPeriodMatch` leaves as it is. -/
structure OnGrid (item : Node) : Prop where
  counted : counts (nodeAttr item) = true
  period : (nodeAttr item).schedPeriod = ownPeriod item

instance (item : Node) : Decidable (OnGrid item) :=
  decidable_of_iff (_ ∧ _) ⟨fun ⟨counted, period⟩ => ⟨counted, period⟩,
    fun ⟨counted, period⟩ => ⟨counted, period⟩⟩

theorem share_on_grid {item : Node} (grid : OnGrid item) : share item = (task (nodeAttr item)).share := by
  have period := (counts_asks (nodeAttr item) grid.counted).2
  rw [share, ← grid.period, Demand.share]
  simp only [task, period, ↓reduceIte]

theorem share_nonneg (item : Node) : 0 ≤ share item :=
  div_nonneg (Nat.cast_nonneg _) (Nat.cast_nonneg _)

theorem load_of_counted (items : List Node) (grid : ∀ item ∈ items, OnGrid item) :
    loadOf items = countedLoad (items.map nodeAttr) := by
  induction items with
  | nil => simp [loadOf, countedLoad, load]
  | cons item rest ih =>
      have here := grid item List.mem_cons_self
      rw [load_of_cons, List.map_cons, counted_load_cons, if_pos here.counted, share_on_grid here,
        ih fun other member => grid other (List.mem_cons_of_mem item member)]

/-- The recomputation of a tracer accounts the tasks of its CPU. -/
theorem counted_nodes_own (nhead : List Node) {res : ResTracer} {cpu : Nat}
    (own : res.affinity = {cpu}) :
    countedNodes nhead res none = (nhead.filter (onCpu cpu)).map nodeAttr := by
  unfold countedNodes
  congr 1
  apply List.filter_congr
  intro item _
  have bit : isbitset res.affinity item.mon.assigned = decide (item.mon.assigned = cpu) := by
    rw [own]
    simp only [isbitset, Finset.mem_singleton]
    apply decide_eq_decide.mpr
    omega
  have sign : 0 ≤ item.pid ↔ ¬ item.pid < 0 := by omega
  simp only [skipped, bit, onCpu, sign]
  by_cases here : item.mon.assigned = cpu <;> by_cases gone : item.pid < 0 <;>
    simp [here, gone]

end Lists

section Calls
variable {κ : Type} (fp : Rounding) (proc : Proc κ) (numa : Numa) (set : PrgSet)

/-- The move of a task to the tracer `checkPeriod_R` finds without it. -/
def relocate (managed : Managed κ) (place : Nat) (cpu : Int) : Int × Managed κ :=
  let (ntrc, checked) := checkPeriodR fp set managed place false
  pidReallocAndTest fp proc numa set checked ntrc (getTracer managed.trcs cpu) place

/-- `updateSiblings` of the main task of a container relocates it. -/
theorem update_siblings_relocates {managed : Managed κ} {place : Nat} {item : Node}
    (here : managed.nhead[place]? = some item) (main : mainTask managed item = item.loc) :
    updateSiblings fp proc numa set managed place =
      relocate fp proc numa set managed place item.mon.assigned := by
  rw [updateSiblings, here]
  dsimp only
  rw [if_neg (not_not.mpr main)]
  have same := check_period_r_same_cpus fp set managed place false
  rw [get_tracer_same same]
  rfl

/-- So does the first pass of `pickPidReallocCPU`, which ends where this succeeds. -/
theorem realloc_pass_relocates {managed : Managed κ} {place : Nat} {item : Node} {cpu : Int}
    {deadline : UInt64} (rest : List Nat) (here : managed.nhead[place]? = some item)
    (considered : ¬ (item.mon.assigned ≠ cpu ∨ item.pid < 0 ∨
      (deadline ≠ 0 ∧ deadline ≤ item.mon.deadline)))
    (success : (relocate fp proc numa set managed place cpu).1 = 0) :
    reallocPass fp proc numa set cpu deadline (getTracer managed.trcs cpu) false (place :: rest)
      managed = (true, (relocate fp proc numa set managed place cpu).2) := by
  rw [reallocPass, here]
  dsimp only
  rw [if_neg considered]
  exact if_pos success

/-- Both CPUs hold what they are given: the destination its tasks and all threads
of the container that come, the origin what is left. -/
structure Room (managed : Managed κ) (node : Node) (cpu : Int) : Prop where
  destination : utilisation managed.nhead cpu +
    loadOf (comers managed.conts node cpu managed.nhead) ≤ 1
  origin : loadOf (leftBehind managed.conts node node.mon.assigned managed.nhead) ≤ 1

/-- The threads of the container that come along with the one that was tested. -/
def companions (managed : Managed κ) (node : Node) (cpu : Int) : List Node :=
  (comers managed.conts node cpu managed.nhead).erase node

/-- They fit next to the thread that was tested. -/
def CompanionsFit (managed : Managed κ) (node : Node) (cpu : Int) : Prop :=
  loadOf (companions managed node cpu) ≤ 1 - (utilisation managed.nhead cpu + share node)

/-- Accounting these tasks goes by their own periods, neither wraps nor leaves `int`,
and rounds no excess away. -/
structure Faithful (items : List Node) : Prop where
  grid : ∀ item ∈ items, OnGrid item
  sound : Along fp set.rrtime (Sound fp set.rrtime) {} (items.map nodeAttr)
  roomy : Roomy fp set.rrtime (items.map nodeAttr)
  scored : Scored fp set.rrtime (items.map nodeAttr)

/-- The totals of a tracer are those of the tasks of its CPU, and the test of
`node` goes by its own period and rounds no excess away. -/
structure UpToDate (managed : Managed κ) (new : Nat) (node : Node) : Prop where
  faithful : Faithful fp set (managed.nhead.filter (onCpu new))
  base : (managed.trcs.trcAt new).basePeriod =
    (addAll fp set.rrtime {} ((managed.nhead.filter (onCpu new)).map nodeAttr)).basePeriod
  used : (managed.trcs.trcAt new).usedPeriod =
    (addAll fp set.rrtime {} ((managed.nhead.filter (onCpu new)).map nodeAttr)).usedPeriod
  grid : OnGrid node
  sound : Sound fp set.rrtime (managed.trcs.trcAt new) (nodeAttr node)

/-- Both tests the code makes are of what they stand for. -/
structure Tested (managed : Managed κ) (new : Nat) (node : Node) : Prop where
  active : 0 < node.pid
  destination : UpToDate fp set managed new node
  tracked : (getTracer managed.trcs node.mon.assigned).isSome
  origin : Faithful fp set (leftBehind managed.conts node node.mon.assigned managed.nhead)

theorem faithful_loads {items : List Node} (faithful : Faithful fp set items) :
    ∀ par ∈ items.map nodeAttr, Loads set.rrtime par := by
  intro par member
  obtain ⟨item, inside, rfl⟩ := List.mem_map.mp member
  have counted := counts_asks (nodeAttr item) (faithful.grid item inside).counted
  refine ⟨counted.1.runtime, ?_⟩
  simp only [baset, counted.1.policy, false_and, if_false, counted.2]
  exact counted.2

/-- An origin whose recomputation is not negative holds what is left. -/
theorem recomputed_fits {items : List Node} (faithful : Faithful fp set items)
    (nonneg : 0 ≤ (minLoop fp set.rrtime (0, {}) (items.map nodeAttr)).1) : loadOf items ≤ 1 := by
  rw [load_of_counted items faithful.grid]
  exact idle_load_le_one fp set.rrtime {} _ rfl rfl faithful.sound
    (accepted_of_nonneg fp set.rrtime [] _ (faithful_loads fp set faithful) faithful.roomy
      faithful.scored nonneg)

/-- A destination that accepts a task holds it. -/
theorem accepted_fits {managed : Managed κ} {new : Nat} {node : Node}
    (upToDate : UpToDate fp set managed new node)
    (accepted : 0 ≤ verdict fp set.rrtime (managed.trcs.trcAt new) (nodeAttr node)) :
    utilisation managed.nhead new + share node ≤ 1 := by
  have start : Carries ({} : ResTracer) 0 := ⟨fun _ => rfl, by simp⟩
  have carries := add_all_carries fp set.rrtime {} _ 0 start upToDate.faithful.sound
  rw [zero_add, ← load_of_counted _ upToDate.faithful.grid] at carries
  have kept : Carries (managed.trcs.trcAt new) (utilisation managed.nhead new) := by
    refine ⟨?_, ?_⟩
    · rw [upToDate.base, upToDate.used]
      exact carries.idle
    · rw [upToDate.base, upToDate.used]
      exact carries.covers
  have fits := passed_load_le_one fp set.rrtime _ (nodeAttr node) _ kept upToDate.sound
    (by omega)
  rw [if_pos upToDate.grid.counted, ← share_on_grid upToDate.grid] at fits
  exact fits

/-- What the probe without the task says of the tracer it finds. -/
theorem check_period_r_accepts {managed : Managed κ} {place new : Nat} {item : Node}
    (here : managed.nhead[place]? = some item)
    (flexible : ((rscsOf managed.conts item).map SchedRscs.affinity).getD intMin < 0)
    (found : (checkPeriodR fp set managed place false).1 = some new)
    (apart : getTracer managed.trcs item.mon.assigned ≠ some new) :
    0 ≤ verdict fp set.rrtime (managed.trcs.trcAt new) (nodeAttr item) := by
  simp only [checkPeriodR, here] at found
  by_cases unassigned : item.mon.assigned < 0
  · rw [if_pos unassigned] at found
    cases found
  · rw [if_neg unassigned] at found
    have probe : (recomputeCPUTimesU fp set managed item.mon.assigned (some item.loc)).2.conts =
        managed.conts ∧
        (recomputeCPUTimesU fp set managed item.mon.assigned (some item.loc)).2.trcs.trcAt new =
          managed.trcs.trcAt new := by
      rw [recomputeCPUTimesU, if_neg unassigned]
      cases origin : getTracer managed.trcs item.mon.assigned with
      | none => exact ⟨rfl, rfl⟩
      | some old =>
          have unlike : new ≠ old := fun same => apart (by rw [origin, same])
          exact ⟨rfl, Function.update_of_ne unlike _ _⟩
    rw [← probe.2]
    simp only [Bool.false_eq_true, if_false] at found
    rw [probe.1] at found
    exact (check_period_flexible fp set.rrtime _ _ _ _ new flexible found).2

/-- What a successful relocation has done. -/
theorem relocate_success {managed : Managed κ} {place : Nat} {item : Node} {cpu : Int}
    (own : OwnCpus numa.size managed.trcs) (here : managed.nhead[place]? = some item)
    (success : (relocate fp proc numa set managed place cpu).1 = 0) :
    ∃ new : Nat, (checkPeriodR fp set managed place false).1 = some new ∧
      getTracer managed.trcs cpu ≠ some new ∧ new ∈ managed.trcs.rHead ∧
      (relocate fp proc numa set managed place cpu).2.nhead =
        movedTo numa managed.conts item new managed.nhead ∧
      ∀ old, getTracer managed.trcs cpu = some old →
        0 ≤ (recomputeTimesU fp set.rrtime (relocate fp proc numa set managed place cpu).2.nhead
          (managed.trcs.trcAt old) none).1 := by
  have linked : ∀ new, (checkPeriodR fp set managed place false).1 = some new →
      new ∈ managed.trcs.rHead := fun _ found => check_period_r_linked fp set found
  unfold relocate at success ⊢
  obtain ⟨nodes, conts⟩ := check_period_r_nodes fp set managed place false
  have cpus := check_period_r_same_cpus fp set managed place false
  generalize checkPeriodR fp set managed place false = call at success linked nodes conts cpus ⊢
  obtain ⟨ntrc, checked⟩ := call
  dsimp only at success linked nodes conts cpus ⊢
  rw [← nodes] at here
  have outcome := pid_realloc_and_test_outcome fp proc numa set here ntrc (getTracer managed.trcs cpu)
  generalize pidReallocAndTest fp proc numa set checked ntrc (getTracer managed.trcs cpu) place = result
    at outcome success ⊢
  -- only a move returns 0
  cases outcome with
  | stays same => cases success
  | refused new found apart failed => cases success
  | moved new found apart done list same trcs fits returned =>
      have member := linked new found
      have mine : checked.mainCpu numa new = new := by
        apply own_main_cpu numa (own_cpus_same cpus own)
        rw [cpus.rHead]
        exact member
      refine ⟨new, found, fun same => apart (by rw [found, same]), member, ?_, ?_⟩
      · rw [list, moves_list proc numa done, mine, nodes, conts]
        rfl
      · intro old origin
        have nonneg := fits.mp success old origin
        rw [recompute_times_u_loop] at nonneg ⊢
        have same : ∀ nhead, countedNodes nhead (checked.trcs.trcAt old) none =
            countedNodes nhead (managed.trcs.trcAt old) none := by
          intro nhead
          simp only [countedNodes, skipped, cpus.affinity]
        rw [same] at nonneg
        exact nonneg

/-- Neither the CPU the task came to nor the one it left is beyond its capacity. -/
structure Within (nhead : List Node) (new origin : Int) : Prop where
  destination : utilisation nhead new ≤ 1
  origin : utilisation nhead origin ≤ 1

theorem moved_within_iff (managed : Managed κ) {item : Node} {new : Nat}
    (unlike : (new : Int) ≠ item.mon.assigned) :
    Within (movedTo numa managed.conts item new managed.nhead) new item.mon.assigned ↔
      Room managed item new := by
  have left : utilisation (movedTo numa managed.conts item new managed.nhead)
      item.mon.assigned = loadOf (leftBehind managed.conts item item.mon.assigned managed.nhead) :=
    congrArg loadOf (moved_to_filter numa managed.conts item unlike managed.nhead)
  constructor
  · rintro ⟨destination, origin⟩
    rw [moved_to_load] at destination
    rw [left] at origin
    exact ⟨destination, origin⟩
  · rintro ⟨destination, origin⟩
    exact ⟨by rwa [moved_to_load], by rwa [left]⟩

/-- The thread that was tested is one of the comers, or nothing moves. -/
theorem comers_load {managed : Managed κ} {place new : Nat} {item : Node}
    (here : managed.nhead[place]? = some item) (active : 0 < item.pid)
    (unlike : (new : Int) ≠ item.mon.assigned) :
    comers managed.conts item new managed.nhead = [] ∨
      loadOf (comers managed.conts item new managed.nhead) =
        share item + loadOf (companions managed item new) := by
  by_cases joined : together managed.conts item item = true
  · right
    have comes : item ∈ comers managed.conts item new managed.nhead := by
      refine List.mem_filter.mpr ⟨List.mem_of_getElem? here, ?_⟩
      simp [joined, Ne.symm unlike]
    rw [companions, ← load_of_cons]
    exact ((List.perm_cons_erase comes).map share).sum_eq
  · left
    refine List.filter_eq_nil_iff.mpr fun other _ comes => ?_
    simp only [Bool.and_eq_true, bne_iff_ne] at comes
    refine joined (together_self active (Option.isSome_iff_ne_none.mpr fun alone => ?_))
    rw [together_none item alone] at comes
    exact absurd comes.1 Bool.false_ne_true

/-- Where the tests are of what they stand for, only the companions are left to fit. -/
theorem room_iff_companions {managed : Managed κ} {place new : Nat} {item : Node}
    (here : managed.nhead[place]? = some item) (unlike : (new : Int) ≠ item.mon.assigned)
    (tested : Tested fp set managed new item)
    (accepted : 0 ≤ verdict fp set.rrtime (managed.trcs.trcAt new) (nodeAttr item))
    (left : loadOf (leftBehind managed.conts item item.mon.assigned managed.nhead) ≤ 1) :
    Room managed item new ↔ CompanionsFit managed item new := by
  have fits := accepted_fits fp set tested.destination accepted
  rcases comers_load here tested.active unlike with none | together
  · have alone : companions managed item new = [] := by rw [companions, none, List.erase_nil]
    have light := share_nonneg item
    rw [CompanionsFit, alone]
    refine iff_of_true ⟨?_, left⟩ ?_
    · rw [none]
      simp only [loadOf, List.map_nil, List.sum_nil]
      linarith
    · simp only [loadOf, List.map_nil, List.sum_nil]
      linarith
  · rw [CompanionsFit]
    constructor
    · rintro ⟨destination, -⟩
      rw [together] at destination
      linarith
    · intro room
      refine ⟨?_, left⟩
      rw [together]
      linarith

/-- After a successful move both CPUs are within their capacity exactly where they
have the room in the tasks' own periods. Where the two tests of the code are of what
they stand for, they have it exactly if the other threads of the container that come
along fit next to the one tested. -/
theorem relocation_fits_iff {managed : Managed κ} {place : Nat} {item : Node}
    (own : OwnCpus numa.size managed.trcs) (here : managed.nhead[place]? = some item)
    (flexible : ((rscsOf managed.conts item).map SchedRscs.affinity).getD intMin < 0)
    (success : (relocate fp proc numa set managed place item.mon.assigned).1 = 0) :
    ∃ new : Nat, (checkPeriodR fp set managed place false).1 = some new ∧
      (Within (relocate fp proc numa set managed place item.mon.assigned).2.nhead new
        item.mon.assigned ↔ Room managed item new) ∧
      (Tested fp set managed new item →
        (Within (relocate fp proc numa set managed place item.mon.assigned).2.nhead new
          item.mon.assigned ↔ CompanionsFit managed item new)) := by
  obtain ⟨new, found, apart, member, list, nonneg⟩ :=
    relocate_success fp proc numa set own here success
  have unlike : (new : Int) ≠ item.mon.assigned := by
    intro same
    exact apart (same ▸ own_get_tracer own member)
  have within := moved_within_iff numa managed unlike
  rw [← list] at within
  refine ⟨new, found, within, fun tested => within.trans ?_⟩
  have accepted := check_period_r_accepts fp set here flexible found apart
  obtain ⟨old, origin⟩ := Option.isSome_iff_exists.mp tested.tracked
  have fits := nonneg old origin
  have affinity := (own old (List.mem_of_find?_eq_some origin)).2
  have this : (old : Int) = item.mon.assigned := by
    have holds := List.find?_some origin
    rw [affinity] at holds
    simp only [isbitset, Finset.mem_singleton, decide_eq_true_eq] at holds
    omega
  rw [recompute_times_u_loop, counted_nodes_own _ affinity, list, this,
    moved_to_filter numa managed.conts item unlike] at fits
  exact room_iff_companions fp set here unlike tested accepted
    (recomputed_fits fp set tested.origin fits)

end Calls

def loneTask : Node := deadlineTask 1 101 600 1000 (some 2)

/-- A container with one task, and a task without, on the first of two CPUs. -/
def lone : Managed Unit where
  nhead := [loneTask, deadlineTask 2 100 600 1000 none]
  conts := onePid
  trcs := createResTracer 4 {0, 1}
  kernel := ()

theorem lone_tested : Tested ieee {} lone 1 loneTask where
  active := by decide
  destination := by
    have none : lone.nhead.filter (onCpu 1) = [] := by decide
    refine ⟨?_, ?_, ?_, by decide +kernel, by decide +kernel⟩
    · rw [show ((1 : Nat) : Int) = 1 from rfl, none]
      refine ⟨by simp, trivial, fun calls repeated => ?_, fun calls repeated => ?_⟩
      all_goals
        cases repeated
        trivial
    all_goals decide
  tracked := by decide
  origin := by
    have left : leftBehind lone.conts loneTask loneTask.mon.assigned lone.nhead =
        [deadlineTask 2 100 600 1000 none] := by decide
    rw [left]
    refine ⟨by decide +kernel, by decide +kernel, fun calls repeated => ?_, fun calls repeated => ?_⟩
    all_goals
      cases repeated with
      | once tail =>
          cases tail
          decide +kernel
      | twice tail =>
          cases tail
          decide +kernel

theorem lone_fits :
    Within (relocate ieee RunTime.idleProc fourCpus {} lone 0 loneTask.mon.assigned).2.nhead 1
      loneTask.mon.assigned := by
  obtain ⟨new, found, -, fits⟩ :=
    relocation_fits_iff ieee RunTime.idleProc fourCpus {}
      (show OwnCpus fourCpus.size lone.trcs from create_res_tracer_own 4 {0, 1})
      (show lone.nhead[0]? = some loneTask from rfl) (by decide) (by decide +kernel)
  have second : (checkPeriodR ieee {} lone 0 false).1 = some 1 := by decide +kernel
  obtain rfl : new = 1 := Option.some.inj (found.symm.trans second)
  refine (fits lone_tested).mpr ?_
  unfold CompanionsFit
  decide +kernel

/-- A FIFO thread of its container, without other threads. -/
def fifoTask (loc : Nat) (pid cpu : Int) (runtime period : UInt64) (param : Option Nat) : Node where
  loc := loc
  pid := pid
  param := param
  attr := { schedPolicy := schedFifo }
  mon := { assigned := cpu, cdfRuntime := runtime, cdfPeriod := period }

/-- Periods of 1.13 ms count as 1.25 ms. Both CPUs are accounted. -/
def offGrid : Managed Unit :=
  let started : Managed Unit :=
    { nhead := [fifoTask 1 102 0 600000 1130000 (some 2), fifoTask 2 101 0 1000000 1250000 none,
        fifoTask 3 100 1 600000 1130000 none]
      conts := onePid
      trcs := createResTracer 4 {0, 1}
      kernel := () }
  (recomputeCPUTimesU ieee {} (recomputeCPUTimesU ieee {} started 0 none).2 1 none).2

/-- Both threads come where one was tested: 1.2 of the second CPU. One thread of an
odd period does, by the period it is rounded to: 120/113. -/
theorem crowded_overloads :
    (OwnCpus fourCpus.size crowded.trcs ∧
      (relocate ieee RunTime.idleProc fourCpus {} crowded 0 0).1 = 0 ∧
      (checkPeriodR ieee {} crowded 0 false).1 = some 1 ∧
      (pickPidReallocCPU ieee RunTime.idleProc fourCpus {} crowded 0 0).1 = 0 ∧
      1 < utilisation (pickPidReallocCPU ieee RunTime.idleProc fourCpus {} crowded 0 0).2.nhead 1) ∧
    (relocate ieee RunTime.idleProc fourCpus {} offGrid 0 0).1 = 0 ∧
      (checkPeriodR ieee {} offGrid 0 false).1 = some 1 ∧
      (pickPidReallocCPU ieee RunTime.idleProc fourCpus {} offGrid 0 0).1 = 0 ∧
      1 < utilisation (pickPidReallocCPU ieee RunTime.idleProc fourCpus {} offGrid 0 0).2.nhead 1 := by
  refine ⟨⟨create_res_tracer_own 4 {0, 1}, ?_, ?_, ?_, ?_⟩, ?_, ?_, ?_, ?_⟩
  all_goals decide +kernel

end Orchestrator.ReallocLoad
