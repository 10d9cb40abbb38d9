import Orchestrator.BlockOrder
import Orchestrator.Divisions
import Orchestrator.Recompute

/-!
Recomputing a CPU's load from the same nodes in another order. Known tasks add
shares and commute; a task of unknown runtime raises what is used so far, so it
has to keep its place among them.
-/

namespace Orchestrator.LoadOrder
open Orchdata Resmgnt HyperPeriod Cmnutil Accounting Admission Recompute Divisions BlockOrder

section Book
variable (rrtime : Int)

/-- One call on the ledger; `SCHED_UKNLOAD` percent for an unknown runtime. -/
def entry (l : Ledger) (par : SchedAttr) : Ledger :=
  (if unknown par then l.raise 10 else l).add (slot rrtime par)

def book (l : Ledger) (tasks : List SchedAttr) : Ledger := tasks.foldl (entry rrtime) l

theorem entry_base (l : Ledger) (par : SchedAttr) :
    (entry rrtime l par).base = span l.base (slot rrtime par).period := by
  unfold entry
  split_ifs <;> rfl

/-- The span is the same in every order, whatever is known of the tasks. -/
theorem book_base (l : Ledger) (tasks : List SchedAttr) : (book rrtime l tasks).base =
    tasks.foldl (fun base par => span base (slot rrtime par).period) l.base := by
  induction tasks generalizing l with
  | nil => rfl
  | cons par rest ih => rw [book, List.foldl_cons, ← book, ih, List.foldl_cons, entry_base]

theorem book_base_perm (l : Ledger) {tasks order : List SchedAttr} (perm : tasks.Perm order) :
    (book rrtime l tasks).base = (book rrtime l order).base := by
  rw [book_base, book_base]
  exact perm.foldl_eq' (fun par _ other _ base =>
    span_right_comm base (slot rrtime par) (slot rrtime other)) l.base

/-- The tasks of unknown runtime in their order, the known ones between them in any. -/
def SameLoads (tasks order : List SchedAttr) : Prop :=
  SameBlocks (fun par => unknown par = true) tasks order

theorem book_same (l : Ledger) {tasks order : List SchedAttr} (same : SameLoads tasks order) :
    book rrtime l tasks = book rrtime l order := by
  refine foldl_same_blocks (fun l par other first second => ?_) same l
  simp only [entry, first, second, ↓reduceIte]
  exact add_right_comm l (slot rrtime par) (slot rrtime other)

end Book

/-- The tracer holds the totals of the ledger. -/
structure Mirrors (res : ResTracer) (l : Ledger) : Prop where
  base : res.basePeriod.toNat = l.base
  used : res.usedPeriod.toNat = l.used

section Calls
variable (fp : Rounding) {rrtime : Int}

theorem used_raised {res : ResTracer} {par : SchedAttr} {l : Ledger} (mirrors : Mirrors res l)
    (fits : NoWrap rrtime res par) :
    (used res par).toNat = (if unknown par then l.raise 10 else l).used := by
  unfold used
  split_ifs with blind
  · have ten : (schedUknload).toNat = 10 := rfl
    have hundred : (100 : UInt64).toNat = 100 := rfl
    rw [add_exact _ _ (fits.2.extra blind), UInt64.toNat_div, mul_exact _ _ (fits.1.extra blind),
      ten, hundred, mirrors.used]
    rfl
  · exact mirrors.used

theorem added_mirrors {res : ResTracer} {par : SchedAttr} {l : Ledger}
    (period : baset rrtime par ≠ 0) (mirrors : Mirrors res l) (fits : NoWrap rrtime res par) :
    Mirrors (added fp rrtime res par) (entry rrtime l par) := by
  have base : res.basePeriod.toNat = (if unknown par then l.raise 10 else l).base := by
    rw [mirrors.base]
    split_ifs <;> rfl
  have posted := added_posts rrtime res par _ (slot rrtime par) fp (slot_asks rrtime par period) fits
    base (used_raised mirrors fits)
  exact ⟨posted.1, posted.2⟩

theorem add_all_mirrors {res : ResTracer} {l : Ledger} (tasks : List SchedAttr)
    (periods : ∀ par ∈ tasks, baset rrtime par ≠ 0) (mirrors : Mirrors res l)
    (fits : Along fp rrtime (NoWrap rrtime) res tasks) :
    Mirrors (addAll fp rrtime res tasks) (book rrtime l tasks) := by
  induction tasks generalizing res l with
  | nil => exact mirrors
  | cons par rest ih =>
      exact ih (fun other inside => periods other (List.mem_cons_of_mem par inside))
        (added_mirrors fp (periods par List.mem_cons_self) mirrors fits.1) fits.2

/-- The utilisation is that of the totals of the last call. -/
theorem add_all_u (res : ResTracer) {tasks : List SchedAttr} (some : tasks ≠ []) :
    (addAll fp rrtime res tasks).u = quotient fp (addAll fp rrtime res tasks).usedPeriod.toNat
      (addAll fp rrtime res tasks).basePeriod.toNat := by
  obtain ⟨before, par, rfl⟩ := (List.eq_nil_or_concat' tasks).resolve_left some
  rw [add_all_append]
  rfl

end Calls

/-- The totals two recomputations leave. -/
structure SameTotals (left right : ResTracer) : Prop where
  base : left.basePeriod = right.basePeriod
  used : left.usedPeriod = right.usedPeriod
  u : left.u = right.u

section Order
variable (fp : Rounding) {rrtime : Int} (positive : 1 ≤ rrtime)
variable (small : rrtime * schedRrtonattr ≤ intMax) {tasks order : List SchedAttr}
variable (roomy : Along fp rrtime (NoWrap rrtime) {} tasks)
variable (other : Along fp rrtime (NoWrap rrtime) {} order)
include positive small roomy other

theorem add_all_base_perm (perm : tasks.Perm order) :
    (addAll fp rrtime {} tasks).basePeriod = (addAll fp rrtime {} order).basePeriod := by
  have start : Mirrors {} Ledger.empty := ⟨rfl, rfl⟩
  have left := add_all_mirrors fp tasks (fun par _ => baset_nonzero par positive small) start roomy
  have right := add_all_mirrors fp order (fun par _ => baset_nonzero par positive small) start other
  apply UInt64.toNat_inj.mp
  rw [left.base, right.base, book_base_perm rrtime Ledger.empty perm]

theorem add_all_same_totals (same : SameLoads tasks order) :
    SameTotals (addAll fp rrtime {} tasks) (addAll fp rrtime {} order) := by
  have start : Mirrors {} Ledger.empty := ⟨rfl, rfl⟩
  have left := add_all_mirrors fp tasks (fun par _ => baset_nonzero par positive small) start roomy
  have right := add_all_mirrors fp order (fun par _ => baset_nonzero par positive small) start other
  have base := add_all_base_perm fp positive small roomy other (same_blocks_perm same)
  have used : (addAll fp rrtime {} tasks).usedPeriod = (addAll fp rrtime {} order).usedPeriod := by
    apply UInt64.toNat_inj.mp
    rw [left.used, right.used, book_same rrtime Ledger.empty same]
  refine ⟨base, used, ?_⟩
  by_cases empty : tasks = []
  · subst empty
    rw [List.nil_perm.mp (same_blocks_perm same)]
  · have some : order ≠ [] := fun none => empty (List.perm_nil.mp (none ▸ same_blocks_perm same))
    rw [add_all_u fp {} empty, add_all_u fp {} some, base, used]

end Order

section Nodes
variable (fp : Rounding) (rrtime : Int) (nhead order : List Node) (res : ResTracer)
variable (skip : Option Nat)

/-- No call of a recomputation returns a negative value and none wraps. -/
structure Calm : Prop where
  accepted : Accepted fp rrtime (countedNodes nhead res skip)
  roomy : Along fp rrtime (NoWrap rrtime) {} (countedNodes nhead res skip)

/-- Two orders of the nodes leave the same base period, and the same load if each
task of unknown runtime comes after the same known ones. -/
theorem recompute_order (positive : 1 ≤ rrtime) (small : rrtime * schedRrtonattr ≤ intMax)
    (perm : nhead.Perm order) (calm : Calm fp rrtime nhead res skip)
    (other : Calm fp rrtime order res skip) :
    (recomputeTimesU fp rrtime nhead res skip).2.basePeriod =
        (recomputeTimesU fp rrtime order res skip).2.basePeriod ∧
      (SameLoads (countedNodes nhead res skip) (countedNodes order res skip) →
        SameTotals (recomputeTimesU fp rrtime nhead res skip).2
          (recomputeTimesU fp rrtime order res skip).2) := by
  have left := (counted_once_of_accepted fp rrtime res _ calm.accepted _
    (recompute_times_u_loop fp rrtime nhead res skip)).totals
  have right := (counted_once_of_accepted fp rrtime res _ other.accepted _
    (recompute_times_u_loop fp rrtime order res skip)).totals
  have tasks : (countedNodes nhead res skip).Perm (countedNodes order res skip) :=
    (perm.filter _).map _
  rw [left, right]
  refine ⟨add_all_base_perm fp positive small calm.roomy other.roomy tasks, fun same => ?_⟩
  have totals := add_all_same_totals fp positive small calm.roomy other.roomy same
  exact ⟨totals.base, totals.used, totals.u⟩

end Nodes

def fifoNode (loc : Nat) (runtime : UInt64) : Node where
  loc := loc
  pid := loc
  attr := { schedPolicy := schedFifo }
  mon := { assigned := 0, cdfRuntime := runtime, cdfPeriod := 10000000 }

def deadlineNode (loc : Nat) (runtime period : UInt64) : Node where
  loc := loc
  pid := loc
  attr := { schedPolicy := schedDeadline, schedRuntime := runtime, schedPeriod := period }
  mon := { assigned := 0 }

theorem recompute_order_known :
    SameTotals
      (recomputeTimesU ieee 100 [fifoNode 1 2000000, fifoNode 2 3000000] { affinity := {0} } none).2
      (recomputeTimesU ieee 100 [fifoNode 2 3000000, fifoNode 1 2000000] { affinity := {0} } none).2 :=
  (recompute_order ieee 100 _ _ _ none (by decide) (by decide) (List.Perm.swap _ _ _)
    ⟨by decide +kernel, by decide +kernel⟩ ⟨by decide +kernel, by decide +kernel⟩).2
    (same_blocks_free (((List.Perm.swap _ _ _).filter _).map _) (by decide +kernel))

-- The dummy 10% are of nothing or of 2 ms; and three deadlines whose hyperperiod wraps
-- leave different base periods.
theorem recompute_depends_on_order :
    (Accepted ieee 100 (countedNodes [fifoNode 1 2000000, fifoNode 2 0] { affinity := {0} } none) ∧
      Accepted ieee 100 (countedNodes [fifoNode 2 0, fifoNode 1 2000000] { affinity := {0} } none) ∧
      ¬ SameTotals
        (recomputeTimesU ieee 100 [fifoNode 1 2000000, fifoNode 2 0] { affinity := {0} } none).2
        (recomputeTimesU ieee 100 [fifoNode 2 0, fifoNode 1 2000000] { affinity := {0} } none).2) ∧
    Accepted ieee 100 (countedNodes [deadlineNode 1 2 7, deadlineNode 2 3 2635249153387078803,
        deadlineNode 3 2 7] { affinity := {0} } none) ∧
      Accepted ieee 100 (countedNodes [deadlineNode 1 2 7, deadlineNode 3 2 7,
        deadlineNode 2 3 2635249153387078803] { affinity := {0} } none) ∧
      ¬ SameTotals
        (recomputeTimesU ieee 100 [deadlineNode 1 2 7, deadlineNode 2 3 2635249153387078803,
          deadlineNode 3 2 7] { affinity := {0} } none).2
        (recomputeTimesU ieee 100 [deadlineNode 1 2 7, deadlineNode 3 2 7,
          deadlineNode 2 3 2635249153387078803] { affinity := {0} } none).2 := by
  refine ⟨⟨by decide +kernel, by decide +kernel, ?_⟩, by decide +kernel, by decide +kernel, ?_⟩
  · intro same
    have used := same.used
    revert used
    decide +kernel
  · intro same
    have base := same.base
    revert base
    decide +kernel

end Orchestrator.LoadOrder
