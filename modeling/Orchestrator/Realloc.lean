import Orchestrator.Moves

/-!
`pidReallocAndTest`: which threads it moves, what a refused thread leaves
behind, and when its return value tells what happened.
-/

namespace Orchestrator.Realloc
open Orchdata Resmgnt PidLookup PidResources Manage Moves

/-- The mask set for a task assigned to a CPU. -/
def maskOf (numa : Numa) (cpu : Int) : Bitmask :=
  if 0 ≤ cpu ∧ cpu.toNat < numa.size then {cpu.toNat} else ∅

/-- A thread after it was moved. -/
def arrived (numa : Numa) (cpu : Int) (item : Node) : Node :=
  { item with
    status.naff := false
    mon := { item.mon with
      assigned := cpu
      assignedMask := some (maskOf numa cpu)
      resched := item.mon.resched + 1 } }

/-- A thread whose move the kernel refused. -/
def refused (numa : Numa) (cpu : Int) (item : Node) : Node :=
  { item with mon := { item.mon with assigned := cpu, assignedMask := some (maskOf numa cpu) } }

section Threads
variable {κ : Type} (proc : Proc κ) (numa : Numa)

/-- The kernel lets the task run on the CPU. -/
def Accepts (kernel : κ) (item : Node) (cpu : Int) : Prop :=
  (proc.setaffinity kernel item.pid (maskOf numa cpu)).1 = true

theorem assign_to_accepted {managed : Managed κ} {item : Node} {cpu : Int} (place : Nat)
    (accepts : Accepts proc numa managed.kernel item cpu) :
    (assignTo proc numa managed place item cpu).1 = 0 ∧
      ((assignTo proc numa managed place item cpu).2.count place).nhead =
        managed.nhead.set place (arrived numa cpu item) := by
  unfold Accepts maskOf at accepts
  simp only [assignTo, setPidAffinityAssinged, accepts, Managed.put, Managed.count, if_true]
  refine ⟨trivial, ?_⟩
  apply List.ext_getElem?
  intro other
  rw [List.getElem?_modify, List.getElem?_set, List.getElem?_set]
  by_cases this : place = other
  · subst this
    by_cases inside : place < managed.nhead.length
    · simp [inside, arrived, maskOf]
    · simp [inside]
  · simp [this]

theorem assign_to_refused {managed : Managed κ} {item : Node} {cpu : Int} (place : Nat)
    (refuses : ¬ Accepts proc numa managed.kernel item cpu) :
    (assignTo proc numa managed place item cpu).1 = -1 ∧
      (assignTo proc numa managed place item cpu).2.nhead =
        managed.nhead.set place (refused numa cpu item) := by
  unfold Accepts maskOf at refuses
  rw [Bool.not_eq_true] at refuses
  simp only [assignTo, setPidAffinityAssinged, refuses, Managed.put]
  exact ⟨rfl, rfl⟩

variable (node : Node) (ncpu : Int) (back : Option Int)

/-- Every thread accepted the CPU: those of the container are there. -/
theorem move_threads_done (places : List Nat) (managed : Managed κ) (distinct : places.Nodup)
    (done : (moveThreads proc numa node ncpu back places managed).1 = true) (other : Nat) :
    (moveThreads proc numa node ncpu back places managed).2.nhead[other]? =
      managed.nhead[other]?.map fun item =>
        if other ∈ places ∧ together managed.conts node item = true then arrived numa ncpu item
        else item := by
  induction places generalizing managed with
  | nil => simp [moveThreads]
  | cons place rest ih =>
      obtain ⟨fresh, apart⟩ := List.nodup_cons.mp distinct
      cases here : managed.nhead[place]? with
      | none =>
          simp only [moveThreads, here] at done ⊢
          rw [ih managed apart done]
          by_cases this : other = place
          · subst this
            simp [here]
          · simp [this]
      | some item =>
          simp only [moveThreads, here] at done ⊢
          by_cases joined : together managed.conts node item = true
          · rw [if_pos joined] at done ⊢
            by_cases accepts : Accepts proc numa managed.kernel item ncpu
            · obtain ⟨ret, list⟩ := assign_to_accepted proc numa place accepts
              rw [if_pos ret] at done ⊢
              rw [ih _ apart done, list, List.getElem?_set]
              change Option.map (fun item => if other ∈ rest ∧
                together managed.conts node item = true then _ else _) _ = _
              by_cases this : place = other
              · subst this
                rw [if_pos rfl, if_pos (List.getElem?_eq_some_iff.mp here).1, here]
                simp [fresh, joined]
              · have unlike : other ≠ place := fun same => this same.symm
                simp [this, unlike]
            · obtain ⟨ret, -⟩ := assign_to_refused proc numa place accepts
              rw [if_neg (by rw [ret]; decide)] at done
              cases back <;> cases done
          · rw [if_neg joined] at done ⊢
            rw [ih managed apart done]
            by_cases this : other = place
            · subst this
              simp [here, joined]
            · simp [this]

theorem assign_to_others {managed : Managed κ} {item : Node} {cpu : Int} {place other : Nat}
    (unlike : place ≠ other) :
    (assignTo proc numa managed place item cpu).2.nhead[other]? = managed.nhead[other]? := by
  simp only [assignTo, Managed.put, List.getElem?_set, unlike, if_false]

/-- The tracers are only read. -/
theorem undo_threads_trcs (cpu : Int) (places : List Nat) (managed : Managed κ) :
    (undoThreads proc numa node cpu managed places).trcs = managed.trcs := by
  induction places generalizing managed with
  | nil => rfl
  | cons place rest ih =>
      rw [undoThreads, List.foldl_cons]
      refine (ih _).trans ?_
      cases managed.nhead[place]? with
      | none => rfl
      | some bitem =>
          dsimp only
          split_ifs <;> rfl

theorem move_threads_trcs (places : List Nat) (managed : Managed κ) :
    (moveThreads proc numa node ncpu back places managed).2.trcs = managed.trcs := by
  induction places generalizing managed with
  | nil => rfl
  | cons place rest ih =>
      cases there : managed.nhead[place]? with
      | none =>
          simp only [moveThreads, there]
          exact ih managed
      | some item =>
          simp only [moveThreads, there]
          split_ifs
          · exact ih _
          · cases back with
            | none => rfl
            | some cpu => exact undo_threads_trcs proc numa node cpu (List.range place) _
          · exact ih managed

/-- Nothing is moved where no thread belongs to the container. -/
theorem move_threads_skip (before rest : List Nat) (managed : Managed κ)
    (apart : ∀ place ∈ before, ∀ item, managed.nhead[place]? = some item →
      together managed.conts node item = false) :
    moveThreads proc numa node ncpu back (before ++ rest) managed =
      moveThreads proc numa node ncpu back rest managed := by
  induction before with
  | nil => rfl
  | cons place before ih =>
      rw [List.cons_append, moveThreads,
        ih fun other member => apart other (List.mem_cons_of_mem place member)]
      cases here : managed.nhead[place]? with
      | none => rfl
      | some item =>
          have alone := apart place List.mem_cons_self item here
          simp [alone]

theorem together_none {conts : Containers} (alone : contOf conts node = none) (item : Node) :
    together conts node item = false := by
  simp only [together, sibling, alone]
  cases contOf conts item <;> simp

end Threads

section Calls
variable {κ : Type} (fp : Rounding) (proc : Proc κ) (numa : Numa) (set : PrgSet)

/-- The tracers stay linked and keep their CPUs. -/
structure SameCpus (before after : Tracers) : Prop where
  rHead : after.rHead = before.rHead
  affinity : ∀ trc, (after.trcAt trc).affinity = (before.trcAt trc).affinity

theorem SameCpus.refl (trcs : Tracers) : SameCpus trcs trcs := ⟨rfl, fun _ => rfl⟩

theorem SameCpus.trans {first second third : Tracers} (one : SameCpus first second)
    (two : SameCpus second third) : SameCpus first third :=
  ⟨two.rHead.trans one.rHead, fun trc => (two.affinity trc).trans (one.affinity trc)⟩

theorem recompute_tracer_same_cpus (managed : Managed κ) (trc : Nat) (skip : Option Nat) :
    SameCpus managed.trcs (recomputeTracer fp set managed trc skip).2.trcs := by
  refine ⟨rfl, fun other => ?_⟩
  by_cases this : other = trc
  · subst this
    simp [recomputeTracer, recomputeTimesU, takeTotals]
  · simp [recomputeTracer, this]

theorem recompute_cpu_times_u_same_cpus (managed : Managed κ) (cpu : Int) (skip : Option Nat) :
    SameCpus managed.trcs (recomputeCPUTimesU fp set managed cpu skip).2.trcs := by
  unfold recomputeCPUTimesU
  split_ifs
  · exact SameCpus.refl managed.trcs
  · cases getTracer managed.trcs cpu with
    | none => exact SameCpus.refl managed.trcs
    | some trc => exact recompute_tracer_same_cpus fp set managed trc skip

theorem check_period_r_same_cpus (managed : Managed κ) (place : Nat) (inclusive : Bool) :
    SameCpus managed.trcs (checkPeriodR fp set managed place inclusive).2.trcs := by
  unfold checkPeriodR
  split
  · exact SameCpus.refl managed.trcs
  · dsimp only
    split_ifs
    · exact SameCpus.refl managed.trcs
    · exact SameCpus.refl managed.trcs
    · exact (recompute_cpu_times_u_same_cpus fp set managed _ _).trans
        (recompute_cpu_times_u_same_cpus fp set _ _ _)

/-- `getTracerMainCPU`, of `NULL` too. -/
def mainCPU (managed : Managed κ) : Option Nat → Int
  | none => -1
  | some trc => managed.mainCpu numa trc

/-- The loop of `pidReallocAndTest` towards a tracer. -/
def moves (managed : Managed κ) (new : Nat) (trc : Option Nat) (node : Node) : Bool × Managed κ :=
  moveThreads proc numa node (managed.mainCpu numa new) (trc.map (managed.mainCpu numa))
    (List.range managed.nhead.length) managed

/-- What a call of `pidReallocAndTest` can do. -/
inductive Outcome (managed : Managed κ) (ntrc trc : Option Nat) (node : Node) :
    Int × Managed κ → Prop where
  | stays (same : ntrc = none ∨ ntrc = trc) : Outcome managed ntrc trc node (1, managed)
  | refused (new : Nat) (found : ntrc = some new) (apart : ntrc ≠ trc)
      (failed : (moves proc numa managed new trc node).1 = false) :
      Outcome managed ntrc trc node (-1, (moves proc numa managed new trc node).2)
  | moved (new : Nat) (found : ntrc = some new) (apart : ntrc ≠ trc)
      (done : (moves proc numa managed new trc node).1 = true) {ret : Int} {after : Managed κ}
      (list : after.nhead = (moves proc numa managed new trc node).2.nhead)
      (conts : after.conts = managed.conts) (trcs : SameCpus managed.trcs after.trcs)
      (fits : ret = 0 ↔ ∀ old, trc = some old →
        0 ≤ (recomputeTimesU fp set.rrtime after.nhead (managed.trcs.trcAt old) none).1)
      (returned : ret = 0 ∨ ret = -2) : Outcome managed ntrc trc node (ret, after)

theorem moves_alone {managed : Managed κ} (new : Nat) (trc : Option Nat) {node : Node}
    (alone : contOf managed.conts node = none) :
    moves proc numa managed new trc node = (true, managed) := by
  have skip := move_threads_skip proc numa node (managed.mainCpu numa new)
    (trc.map (managed.mainCpu numa)) (List.range managed.nhead.length) [] managed
    fun _ _ item _ => together_none node alone item
  rw [List.append_nil] at skip
  exact skip

theorem pid_realloc_and_test_outcome {managed : Managed κ} {place : Nat} {node : Node}
    (here : managed.nhead[place]? = some node) (ntrc trc : Option Nat) :
    Outcome fp proc numa set managed ntrc trc node
      (pidReallocAndTest fp proc numa set managed ntrc trc place) := by
  unfold pidReallocAndTest
  cases found : ntrc with
  | none => exact .stays (.inl rfl)
  | some new =>
      rw [here]
      dsimp only
      by_cases same : some new = trc
      · rw [if_pos same]
        exact .stays (.inr same)
      rw [if_neg same]
      have loop : (if node.param.isSome then moveThreads proc numa node (managed.mainCpu numa new)
          (trc.map (managed.mainCpu numa)) (List.range managed.nhead.length) managed
          else (true, managed)) = moves proc numa managed new trc node := by
        by_cases param : node.param.isSome
        · rw [if_pos param]
          rfl
        · rw [if_neg param, moves_alone]
          rw [Option.not_isSome_iff_eq_none] at param
          simp [contOf, param]
      rw [loop]
      have conts := (move_threads_stays proc numa node (managed.mainCpu numa new)
        (trc.map (managed.mainCpu numa)) (List.range managed.nhead.length) managed).conts
      have trcs := move_threads_trcs proc numa node (managed.mainCpu numa new)
        (trc.map (managed.mainCpu numa)) (List.range managed.nhead.length) managed
      change (moves proc numa managed new trc node).2.conts = managed.conts at conts
      change (moves proc numa managed new trc node).2.trcs = managed.trcs at trcs
      cases done : (moves proc numa managed new trc node).1 with
      | false => exact .refused new rfl same done
      | true =>
          have arrived := recompute_tracer_same_cpus fp set (moves proc numa managed new trc node).2
            new none
          rw [trcs] at arrived
          cases trc with
          | none =>
              exact .moved new rfl same done rfl conts arrived
                ⟨(fun _ old none => by cases none), fun _ => rfl⟩ (.inl rfl)
          | some old =>
              have left := recompute_tracer_same_cpus fp set
                (recomputeTracer fp set (moves proc numa managed new (some old) node).2 new none).2
                old none
              have unlike : old ≠ new := fun same' => same (by rw [same'])
              refine .moved new rfl same done rfl conts (arrived.trans left) ?_ ?_
              · simp only [recomputeTracer, trcs, Function.update_of_ne unlike]
                constructor
                · intro fits other origin
                  cases origin
                  by_contra less
                  refine absurd fits ?_
                  rw [if_pos (Int.not_le.mp less)]
                  decide
                · intro fits
                  exact if_neg (Int.not_lt.mpr (fits old rfl))
              · split_ifs
                · exact .inr rfl
                · exact .inl rfl

end Calls

end Orchestrator.Realloc
