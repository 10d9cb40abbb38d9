import Orchestrator.Divisions
import Orchestrator.Recompute

/-!
Round-robin tasks in `checkUvalue`. A task that runs for a slice or longer is
charged its whole runtime every slice, not every period.
-/

namespace Orchestrator.RoundRobin
open Orchdata Resmgnt HyperPeriod Cmnutil Accounting Admission Recompute Divisions

/-- A round-robin task with a runtime within its period. -/
structure RrTask (par : SchedAttr) : Prop where
  policy : par.schedPolicy = schedRr
  runtime : 0 < par.schedRuntime
  period : par.schedRuntime ≤ par.schedPeriod

/-- What the task takes of a CPU. -/
def utilisation (par : SchedAttr) : ℚ := par.schedRuntime.toNat / par.schedPeriod.toNat

section Task
variable {rrtime : Int} {par : SchedAttr} (robin : RrTask par)
include robin

theorem robin_runtime : par.schedRuntime ≠ 0 := by
  intro zero
  have positive := robin.runtime
  rw [zero] at positive
  exact absurd positive (by decide)

theorem robin_period : par.schedPeriod ≠ 0 := by
  intro zero
  have longer := robin.period
  rw [zero, UInt64.le_iff_toNat_le] at longer
  exact absurd (Nat.le_zero.mp longer) (to_nat_pos (robin_runtime robin)).ne'

theorem robin_known : unknown par = false := by
  simp [unknown, robin_runtime robin]

theorem baset_short (short : par.schedRuntime < slice rrtime) :
    baset rrtime par = par.schedPeriod := by
  have passes : ¬ slice rrtime ≤ par.schedRuntime := UInt64.not_le.mpr short
  rw [baset, if_neg fun sliced => passes sliced.2.2, if_neg (robin_period robin)]

theorem baset_sliced (long : ¬ par.schedRuntime < slice rrtime) :
    baset rrtime par = slice rrtime :=
  if_pos ⟨robin.policy, robin_period robin, UInt64.not_lt.mp long⟩

end Task

/-- The task is refused only where the loads add up to more than one CPU. -/
def RefusedByLoad (rrtime : Int) (res : ResTracer) (ds : List Demand) (par : SchedAttr) : Prop :=
  ∀ add, (checkUvalue exact rrtime res par add).1 = -1 → 1 < load ds + utilisation par

section Admit
variable {rrtime : Int} (positive : 0 < rrtime) (small : rrtime * schedRrtonattr ≤ intMax)
variable {res : ResTracer} {ds : List Demand} {par : SchedAttr} (robin : RrTask par)
variable (tracks : Tracks exact res ds) (fits : NoWrap rrtime res par)
include positive small robin tracks fits

/-- The test charges the runtime to the base the call uses. -/
theorem robin_refused_iff : verdict exact rrtime res par = -1 ↔
    1 < load ds + (par.schedRuntime.toNat : ℚ) / (baset rrtime par).toNat := by
  have period := baset_nonzero par positive small
  rw [exact_verdict_asks exact rrtime res ds par (slot rrtime par) (slot_asks rrtime par period)
    (robin_known robin) tracks fits, load_append, Demand.share, slot]
  dsimp only
  rw [if_neg period]

theorem robin_short (short : par.schedRuntime < slice rrtime) : RefusedByLoad rrtime res ds par := by
  intro add refused
  have charged := (robin_refused_iff positive small robin tracks fits).mp refused
  rwa [baset_short robin short] at charged

/-- From a slice on every task is refused, but for one of exactly a slice on an idle CPU. -/
theorem robin_sliced (long : ¬ par.schedRuntime < slice rrtime) :
    verdict exact rrtime res par = -1 ↔ par.schedRuntime ≠ slice rrtime ∨ load ds ≠ 0 := by
  rw [robin_refused_iff positive small robin tracks fits, baset_sliced robin long]
  have some : (0 : ℚ) < (slice rrtime).toNat := by
    exact_mod_cast to_nat_pos (slice_nonzero positive small)
  have nonneg := load_nonneg ds
  by_cases equal : par.schedRuntime = slice rrtime
  · rw [equal, div_self some.ne']
    constructor
    · intro exceeds
      refine Or.inr fun zero => ?_
      linarith
    · rintro (apart | loaded)
      · exact absurd rfl apart
      · have more := nonneg.lt_of_ne' loaded
        linarith
  · refine iff_of_true ?_ (Or.inl equal)
    have above : (slice rrtime).toNat < par.schedRuntime.toNat := by
      have le := UInt64.le_iff_toNat_le.mp (UInt64.not_lt.mp long)
      have apart : par.schedRuntime.toNat ≠ (slice rrtime).toNat := fun same =>
        equal (UInt64.toNat_inj.mp same)
      omega
    have ratio : (1 : ℚ) < par.schedRuntime.toNat / (slice rrtime).toNat := by
      rw [one_lt_div some]
      exact_mod_cast above
    linarith

/-- Round-robin tasks are admitted by their utilisation exactly if they run for less
than a slice, or for one on an idle CPU, or would not fit anyway. -/
theorem round_robin_by_load_iff : RefusedByLoad rrtime res ds par ↔
    par.schedRuntime < slice rrtime ∨ (par.schedRuntime = slice rrtime ∧ load ds = 0) ∨
      1 < load ds + utilisation par := by
  by_cases short : par.schedRuntime < slice rrtime
  · exact iff_of_true (robin_short positive small robin tracks fits short) (Or.inl short)
  · have refused := robin_sliced positive small robin tracks fits short
    by_cases idle : par.schedRuntime = slice rrtime ∧ load ds = 0
    · refine iff_of_true (fun add verdict => ?_) (Or.inr (Or.inl idle))
      rcases refused.mp verdict with apart | loaded
      · exact absurd idle.1 apart
      · exact absurd idle.2 loaded
    · have always : verdict exact rrtime res par = -1 := refused.mpr (by tauto)
      constructor
      · exact fun byLoad => Or.inr (Or.inr (byLoad false always))
      · rintro (less | equal | exceeds)
        · exact absurd less short
        · exact absurd equal idle
        · exact fun _ _ => exceeds

end Admit

/-- 200 ms every 2 s. -/
def tenth : SchedAttr := { schedPolicy := schedRr, schedRuntime := 200000000, schedPeriod := 2000000000 }

theorem tenth_robin : RrTask tenth := ⟨rfl, by decide, by decide⟩

theorem tenth_in_long_slices : RefusedByLoad 1000 {} [] tenth :=
  (round_robin_by_load_iff (by decide) (by decide) tenth_robin (idle_tracks exact {} rfl rfl)
    (by decide +kernel)).mpr (Or.inl (by decide))

-- With slices of 100 ms the idle CPU counts 200 ms in every 100 ms.
theorem tenth_refused_by_idle_cpu :
    RrTask tenth ∧ Tracks exact {} [] ∧ NoWrap 100 {} tenth ∧
      (checkUvalue exact 100 {} tenth false).1 = -1 ∧ ¬ RefusedByLoad 100 {} [] tenth := by
  have refused : (checkUvalue exact 100 {} tenth false).1 = -1 := by decide +kernel
  refine ⟨tenth_robin, idle_tracks exact {} rfl rfl, by decide +kernel, refused, fun byLoad => ?_⟩
  have exceeds := byLoad false refused
  revert exceeds
  simp only [load, List.map_nil, List.sum_nil, utilisation]
  decide +kernel

end Orchestrator.RoundRobin
