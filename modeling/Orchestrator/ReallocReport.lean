import Orchestrator.Plan
import Orchestrator.Realloc
import Orchestrator.RunTime

/-!
What the return values of `pidReallocAndTest` and `pickPidReallocCPU` say about
the nodes.
-/

namespace Orchestrator.ReallocReport
open Orchdata Resmgnt PidLookup PidResources Manage Moves Realloc Plan

section Reports
variable {κ : Type} (fp : Rounding) (proc : Proc κ) (numa : Numa) (set : PrgSet)

theorem moves_list {managed : Managed κ} {new : Nat} {trc : Option Nat} {node : Node}
    (done : (moves proc numa managed new trc node).1 = true) :
    (moves proc numa managed new trc node).2.nhead = managed.nhead.map fun item =>
      if together managed.conts node item = true then arrived numa (managed.mainCpu numa new) item
      else item := by
  apply List.ext_getElem?
  intro other
  rw [moves, move_threads_done proc numa node _ _ _ managed List.nodup_range done other,
    List.getElem?_map]
  cases here : managed.nhead[other]? with
  | none => rfl
  | some item =>
      have inside := (List.getElem?_eq_some_iff.mp here).1
      simp [inside]

theorem together_self {conts : Containers} {node : Node} (task : 0 < node.pid)
    (cont : (contOf conts node).isSome) : together conts node node = true := by
  simp [together, sibling, task, cont]

/-- Each tracer stands for the one CPU it was created for. -/
def OwnCpus (size : Nat) (trcs : Tracers) : Prop :=
  ∀ trc ∈ trcs.rHead, trc < size ∧ (trcs.trcAt trc).affinity = {trc}

theorem create_res_tracer_own (size : Nat) (affinityMask : Bitmask) :
    OwnCpus size (createResTracer size affinityMask) := by
  intro trc member
  exact ⟨List.mem_range.mp (List.mem_filter.mp member).1, rfl⟩

theorem own_cpus_same {size : Nat} {before after : Tracers} (same : SameCpus before after)
    (own : OwnCpus size before) : OwnCpus size after := by
  intro trc member
  rw [same.rHead] at member
  rw [same.affinity]
  exact own trc member

theorem own_main_cpu {managed : Managed κ} (own : OwnCpus numa.size managed.trcs) {trc : Nat}
    (linked : trc ∈ managed.trcs.rHead) : managed.mainCpu numa trc = trc := by
  obtain ⟨inside, affinity⟩ := own trc linked
  have first : (List.range numa.size).find? (fun cpu => cpu ∈ (managed.trcs.trcAt trc).affinity) =
      some trc := by
    rw [affinity, List.find?_eq_some_iff_getElem]
    refine ⟨by simp, trc, by simpa using inside, by simp, ?_⟩
    intro earlier below
    simp [Nat.ne_of_lt below]
  rw [Managed.mainCpu, getTracerMainCPU, first]

theorem own_get_tracer {size : Nat} {trcs : Tracers} (own : OwnCpus size trcs) {cpu : Nat}
    (linked : cpu ∈ trcs.rHead) : getTracer trcs cpu = some cpu := by
  have holds : ∀ trc ∈ trcs.rHead, isbitset (trcs.trcAt trc).affinity cpu = true ↔ trc = cpu := by
    intro trc member
    rw [(own trc member).2]
    simp [isbitset, eq_comm]
  unfold getTracer
  cases found : trcs.rHead.find? fun trc => isbitset (trcs.trcAt trc).affinity cpu with
  | none => exact absurd ((holds cpu linked).mpr rfl) (List.find?_eq_none.mp found cpu linked)
  | some trc =>
      have this := (holds trc (List.mem_of_find?_eq_some found)).mp
        (by simpa using List.find?_some found)
      rw [this]

theorem get_tracer_same {before after : Tracers} (same : SameCpus before after) (cpu : Int) :
    getTracer after cpu = getTracer before cpu := by
  simp only [getTracer, same.rHead, same.affinity]

theorem check_period_r_linked {managed : Managed κ} {place new : Nat} {inclusive : Bool}
    (found : (checkPeriodR fp set managed place inclusive).1 = some new) :
    new ∈ managed.trcs.rHead := by
  unfold checkPeriodR at found
  split at found
  · cases found
  · dsimp only at found
    split_ifs at found
    · exact check_period_linked fp set.rrtime _ _ _ _ new found
    · have linked := check_period_linked fp set.rrtime _ _ _ _ new found
      rw [(recompute_cpu_times_u_same_cpus fp set managed _ _).rHead] at linked
      exact linked

/-- A node that was on the CPU is not there any more. -/
def Left (start after : Managed κ) (cpu : Int) : Prop :=
  ∃ (place : Nat) (old item : Node), start.nhead[place]? = some old ∧ old.mon.assigned = cpu ∧
    after.nhead[place]? = some item ∧ item.mon.assigned ≠ cpu

theorem recompute_cpu_times_u_nodes (managed : Managed κ) (cpu : Int) (skip : Option Nat) :
    (recomputeCPUTimesU fp set managed cpu skip).2.nhead = managed.nhead ∧
      (recomputeCPUTimesU fp set managed cpu skip).2.conts = managed.conts := by
  unfold recomputeCPUTimesU
  split_ifs
  · exact ⟨rfl, rfl⟩
  · cases getTracer managed.trcs cpu <;> exact ⟨rfl, rfl⟩

theorem check_period_r_nodes (managed : Managed κ) (place : Nat) (inclusive : Bool) :
    (checkPeriodR fp set managed place inclusive).2.nhead = managed.nhead ∧
      (checkPeriodR fp set managed place inclusive).2.conts = managed.conts := by
  unfold checkPeriodR
  split
  · exact ⟨rfl, rfl⟩
  · dsimp only
    split_ifs
    · exact ⟨rfl, rfl⟩
    · exact ⟨rfl, rfl⟩
    · obtain ⟨nodes, conts⟩ := recompute_cpu_times_u_nodes fp set managed _ (some _)
      obtain ⟨again, still⟩ :=
        recompute_cpu_times_u_nodes fp set (recomputeCPUTimesU fp set managed _ (some _)).2 _ none
      exact ⟨again.trans nodes, still.trans conts⟩

/-- The nodes are as they were, and so is what measuring the CPU yields. -/
structure Fresh (managed now : Managed κ) (cpu : Int) : Prop where
  nodes : now.nhead = managed.nhead
  conts : now.conts = managed.conts
  cpus : SameCpus managed.trcs now.trcs
  measured : ∀ skip, recomputeCPUTimesU fp set now cpu skip = recomputeCPUTimesU fp set managed cpu skip

end Reports

/-! Two CPUs, tasks of one container that are too much for the first. -/

def onePid : Containers where
  cont := [1]
  pids := [2]
  contAt := fun _ => { attr := 3, rscs := 4, contid := some ⟨5, ['c']⟩, pids := [2] }
  pidcAt := fun _ => { attr := 3, rscs := 4, cont := some (.cont 1) }
  rscsAt := fun _ => { affinity := -1 }
  brk := 6

def fourCpus : Numa := ⟨4, {0, 1, 2, 3}⟩

def deadlineTask (loc : Nat) (pid : Int) (runtime period : UInt64) (param : Option Nat) : Node where
  loc := loc
  pid := pid
  param := param
  attr := { schedPolicy := schedDeadline, schedRuntime := runtime, schedPeriod := period }
  mon := { assigned := 0 }

def crowded : Managed Unit where
  nhead := [deadlineTask 1 101 600 1000 (some 2), deadlineTask 2 100 600 1000 (some 2)]
  conts := onePid
  trcs := createResTracer 4 {0, 1}
  kernel := ()

end Orchestrator.ReallocReport
