import Orchestrator.Manage

/-!
What moving tasks between CPUs leaves alone: everything of a node but its CPU,
the mask set for it, the count of moves and the flag of a missing affinity.
-/

namespace Orchestrator.Moves
open Orchdata Resmgnt PidResources Traversal Manage

/-- A node without what depends on its CPU. -/
def settled (item : Node) : Node :=
  { item with
    status.naff := false
    mon := { item.mon with assigned := -1, assignedMask := none, resched := 0 } }

/-- A reading that does not depend on the CPU. -/
theorem read_settled {β : Type} (read : Node → β) (blind : ∀ item, read (settled item) = read item)
    {item other : Node} (same : settled item = settled other) : read item = read other := by
  rw [← blind item, same, blind]

section Frame
variable {κ : Type}

/-- A call that moves tasks at most. -/
structure Stays (before after : Managed κ) : Prop where
  nodes : after.nhead.map settled = before.nhead.map settled
  conts : after.conts = before.conts

theorem Stays.refl (managed : Managed κ) : Stays managed managed := ⟨rfl, rfl⟩

theorem Stays.trans {first second third : Managed κ} (one : Stays first second)
    (two : Stays second third) : Stays first third :=
  ⟨two.nodes.trans one.nodes, two.conts.trans one.conts⟩

theorem Stays.symm {before after : Managed κ} (stays : Stays before after) : Stays after before :=
  ⟨stays.nodes.symm, stays.conts.symm⟩

theorem Stays.length {before after : Managed κ} (stays : Stays before after) :
    after.nhead.length = before.nhead.length := by
  simpa using congrArg List.length stays.nodes

/-- The node behind a place after a call that only moves it. -/
theorem Stays.node {before after : Managed κ} (stays : Stays before after) {place : Nat}
    {item : Node} (here : after.nhead[place]? = some item) :
    ∃ old, before.nhead[place]? = some old ∧ settled item = settled old := by
  have same := congrArg (fun list : List Node => list[place]?) stays.nodes
  simp only [List.getElem?_map, here, Option.map_some] at same
  obtain ⟨old, first, settles⟩ := Option.map_eq_some_iff.mp same.symm
  exact ⟨old, first, settles.symm⟩

theorem stays_list {before after : Managed κ} (same : after.nhead = before.nhead)
    (conts : after.conts = before.conts) : Stays before after :=
  ⟨congrArg (List.map settled) same, conts⟩

theorem stays_set {before after : Managed κ} {place : Nat} {item node : Node}
    (list : after.nhead = before.nhead.set place node) (conts : after.conts = before.conts)
    (here : before.nhead[place]? = some item) (same : settled node = settled item) :
    Stays before after := by
  refine ⟨List.ext_getElem? fun other => ?_, conts⟩
  rw [list, List.getElem?_map, List.getElem?_map, List.getElem?_set]
  split_ifs with this inside
  · subst this
    simp [here, same]
  · subst this
    rw [List.getElem?_eq_none (by omega)]
  · rfl

theorem stays_modify {before after : Managed κ} {place : Nat} {change : Node → Node}
    (list : after.nhead = before.nhead.modify place change) (conts : after.conts = before.conts)
    (same : ∀ item, settled (change item) = settled item) : Stays before after := by
  refine ⟨List.ext_getElem? fun other => ?_, conts⟩
  rw [list, List.getElem?_map, List.getElem?_map, List.getElem?_modify]
  cases before.nhead[other]? with
  | none => rfl
  | some item => by_cases this : place = other <;> simp [this, same]

theorem stays_fold (step : Managed κ → Nat → Managed κ)
    (stays : ∀ managed place, Stays managed (step managed place)) (places : List Nat)
    (managed : Managed κ) : Stays managed (places.foldl step managed) := by
  induction places generalizing managed with
  | nil => exact Stays.refl managed
  | cons place rest ih => exact (stays managed place).trans (ih (step managed place))

end Frame

section Calls
variable {κ : Type} (fp : Rounding) (proc : Proc κ) (numa : Numa) (set : PrgSet)

theorem recompute_tracer_stays (managed : Managed κ) (trc : Nat) (skip : Option Nat) :
    Stays managed (recomputeTracer fp set managed trc skip).2 :=
  stays_list rfl rfl

theorem recompute_cpu_times_u_stays (managed : Managed κ) (cpu : Int) (skip : Option Nat) :
    Stays managed (recomputeCPUTimesU fp set managed cpu skip).2 := by
  rw [recomputeCPUTimesU]
  split_ifs
  · exact Stays.refl managed
  · cases getTracer managed.trcs cpu with
    | none => exact Stays.refl managed
    | some trc => exact recompute_tracer_stays fp set managed trc skip

theorem check_period_r_stays (managed : Managed κ) (place : Nat) (inclusive : Bool) :
    Stays managed (checkPeriodR fp set managed place inclusive).2 := by
  rw [checkPeriodR]
  split
  · exact Stays.refl managed
  · dsimp only
    split_ifs
    · exact Stays.refl managed
    · exact Stays.refl managed
    · exact (recompute_cpu_times_u_stays fp set managed _ _).trans
        (recompute_cpu_times_u_stays fp set _ _ _)

theorem set_pid_affinity_assinged_settled (kernel : κ) (item : Node) :
    settled (setPidAffinityAssinged proc.toKernel numa kernel item).2.1 = settled item := by
  simp only [setPidAffinityAssinged]
  split_ifs <;> rfl

theorem assign_to_stays (managed : Managed κ) (place : Nat) (item node : Node) (cpu : Int)
    (here : managed.nhead[place]? = some node) (same : settled item = settled node) :
    Stays managed (assignTo proc numa managed place item cpu).2 := by
  have placed := set_pid_affinity_assinged_settled proc numa managed.kernel
    { item with mon.assigned := cpu }
  exact stays_set rfl rfl here (placed.trans same)

theorem count_stays (managed : Managed κ) (place : Nat) : Stays managed (managed.count place) :=
  stays_modify rfl rfl fun _ => rfl

theorem undo_threads_stays (node : Node) (cpu : Int) (managed : Managed κ) (places : List Nat) :
    Stays managed (undoThreads proc numa node cpu managed places) := by
  apply stays_fold
  intro managed place
  cases here : managed.nhead[place]? with
  | none => exact Stays.refl managed
  | some bitem =>
      dsimp only
      split_ifs
      · exact assign_to_stays proc numa managed place bitem bitem cpu here rfl
      · exact Stays.refl managed

theorem move_threads_stays (node : Node) (ncpu : Int) (back : Option Int) (places : List Nat)
    (managed : Managed κ) :
    Stays managed (moveThreads proc numa node ncpu back places managed).2 := by
  induction places generalizing managed with
  | nil => exact Stays.refl managed
  | cons place rest ih =>
      rw [moveThreads]
      cases here : managed.nhead[place]? with
      | none => exact ih managed
      | some item =>
          dsimp only
          have assigned := assign_to_stays proc numa managed place item item ncpu here rfl
          split_ifs
          · exact (assigned.trans (count_stays _ place)).trans (ih _)
          · cases back with
            | none => exact assigned
            | some cpu =>
                have failed : Stays (assignTo proc numa managed place item ncpu).2
                    { (assignTo proc numa managed place item ncpu).2 with
                      nhead := (assignTo proc numa managed place item ncpu).2.nhead.modify place
                        fun item => { item with mon.assigned := cpu } } :=
                  stays_modify rfl rfl fun _ => rfl
                exact (assigned.trans failed).trans (undo_threads_stays proc numa node cpu _ _)
          · exact ih managed

theorem pid_realloc_and_test_stays (managed : Managed κ) (ntrc trc : Option Nat) (place : Nat) :
    Stays managed (pidReallocAndTest fp proc numa set managed ntrc trc place).2 := by
  unfold pidReallocAndTest
  split
  · rename_i new node _
    by_cases same : some new = trc
    · rw [if_pos same]
      exact Stays.refl managed
    · rw [if_neg same]
      have moves : Stays managed (if node.param.isSome then
          moveThreads proc numa node (managed.mainCpu numa new) (trc.map (managed.mainCpu numa))
            (List.range managed.nhead.length) managed else (true, managed)).2 := by
        split_ifs
        · exact move_threads_stays proc numa node _ _ _ managed
        · exact Stays.refl managed
      generalize (if node.param.isSome then _ else _) = result at moves ⊢
      obtain ⟨done, moved⟩ := result
      cases done with
      | false => exact moves
      | true =>
          have arrived := moves.trans (recompute_tracer_stays fp set moved new none)
          cases trc with
          | none => exact arrived
          | some old => exact arrived.trans (recompute_tracer_stays fp set _ old none)
  · exact Stays.refl managed

theorem realloc_pass_stays (cpu : Int) (deadline : UInt64) (trc : Option Nat) (inclusive : Bool)
    (places : List Nat) (managed : Managed κ) :
    Stays managed (reallocPass fp proc numa set cpu deadline trc inclusive places managed).2 := by
  induction places generalizing managed with
  | nil => exact Stays.refl managed
  | cons place rest ih =>
      rw [reallocPass]
      split
      · exact ih managed
      · dsimp only
        have tried := (check_period_r_stays fp set managed place inclusive).trans
          (pid_realloc_and_test_stays fp proc numa set _
            (checkPeriodR fp set managed place inclusive).1 trc place)
        split_ifs
        · exact ih managed
        · exact tried
        · exact tried.trans (ih _)

theorem pick_pid_realloc_cpu_stays (managed : Managed κ) (cpu : Int) (deadline : UInt64) :
    Stays managed (pickPidReallocCPU fp proc numa set managed cpu deadline).2 := by
  have first := realloc_pass_stays fp proc numa set cpu deadline (getTracer managed.trcs cpu) false
    (List.range managed.nhead.length) managed
  rw [pickPidReallocCPU]
  dsimp only
  split_ifs
  · exact first
  all_goals exact first.trans (realloc_pass_stays fp proc numa set cpu deadline _ true _ _)

end Calls

end Orchestrator.Moves
