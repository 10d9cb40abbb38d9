import Orchestrator.Admission

/-!
What the harmonic flag of a tracer says. Each addition compares its period with
the hyperperiod so far and not with the periods behind it, so a period that
divides the hyperperiod passes for harmonic.
-/

namespace Orchestrator.HarmonicFlag
open Orchdata Resmgnt HyperPeriod Cmnutil Accounting Admission

/-- The period a task is added with, 0 for the default one. -/
def period (par : SchedAttr) : UInt64 := if par.schedPeriod = 0 then schedPdefault else par.schedPeriod

theorem period_nonzero (par : SchedAttr) : period par ≠ 0 := by
  unfold period
  split_ifs with default
  · decide
  · exact default

theorem baset_period (rrtime : Int) {par : SchedAttr} (policy : par.schedPolicy ≠ schedRr) :
    baset rrtime par = period par := by
  simp [baset, period, policy]

/-- The hyperperiod of the periods added so far, as `lcm` computes it. -/
def common : List UInt64 → UInt64
  | [] => 0
  | first :: rest => rest.foldl Cmnutil.lcm first

theorem common_append {periods : List UInt64} (some : periods ≠ []) (next : UInt64) :
    common (periods ++ [next]) = Cmnutil.lcm (common periods) next := by
  cases periods with
  | nil => exact absurd rfl some
  | cons first rest => simp [common]

theorem common_nonzero {periods : List UInt64} (some : periods ≠ [])
    (nonzero : ∀ period ∈ periods, period ≠ 0) : common periods ≠ 0 := by
  induction periods using List.reverseRecOn with
  | nil => exact absurd rfl some
  | append_singleton before next ih =>
      have last := nonzero next (by simp)
      by_cases empty : before = []
      · subst empty
        exact last
      · rw [common_append empty]
        exact lcm_ne_zero (ih empty fun other inside =>
          nonzero other (List.mem_append_left _ inside)) last

theorem common_periods_nonzero {tasks : List SchedAttr} (some : tasks ≠ []) :
    common (tasks.map period) ≠ 0 := by
  refine common_nonzero (by simpa using some) fun value inside => ?_
  obtain ⟨other, -, rfl⟩ := List.mem_map.mp inside
  exact period_nonzero other

/-- Of any two, one divides the other. -/
def Harmonic (periods : List UInt64) : Prop :=
  periods.Pairwise fun first second => first.toNat ∣ second.toNat ∨ second.toNat ∣ first.toNat

/-- A period that changes the hyperperiod and is not what it changes to. -/
def Misfit (before : List UInt64) (next : UInt64) : Prop :=
  before ≠ [] ∧ Cmnutil.lcm (common before) next ≠ next ∧
    Cmnutil.lcm (common before) next ≠ common before

/-- The code's test of a used tracer is the negation. -/
theorem fits_harmonic_iff {rrtime : Int} {res : ResTracer} {par : SchedAttr} {before : List UInt64}
    {next : UInt64} (some : before ≠ []) (base : res.basePeriod = common before)
    (own : baset rrtime par = next) : fitsHarmonic rrtime res par = true ↔ ¬ Misfit before next := by
  have equal : common before = next → Cmnutil.lcm (common before) next = next := fun same =>
    lcm_of_dvd (same ▸ dvd_rfl)
  simp only [fitsHarmonic, hyperP, base, own, Misfit, Bool.or_eq_true, beq_iff_eq]
  tauto

/-- Some period is a misfit behind those before it. -/
def Outside (periods : List UInt64) : Prop :=
  ∃ before next after, periods = before ++ next :: after ∧ Misfit before next

theorem outside_append (periods : List UInt64) (next : UInt64) :
    Outside (periods ++ [next]) ↔ Outside periods ∨ Misfit periods next := by
  constructor
  · rintro ⟨before, period, after, split, misfit⟩
    rcases List.eq_nil_or_concat' after with rfl | ⟨inner, last, rfl⟩
    · obtain ⟨rfl, same⟩ := List.append_inj' split rfl
      cases same
      exact Or.inr misfit
    · rw [← List.cons_append, ← List.append_assoc] at split
      obtain ⟨rfl, -⟩ := List.append_inj' split rfl
      exact Or.inl ⟨before, period, inner, rfl, misfit⟩
  · rintro (⟨before, period, after, rfl, misfit⟩ | misfit)
    · exact ⟨before, period, after ++ [next], by simp, misfit⟩
    · exact ⟨periods, next, [], rfl, misfit⟩

theorem harmonic_append {before : List UInt64} {next : UInt64} :
    Harmonic (before ++ [next]) ↔ Harmonic before ∧
      ∀ period ∈ before, period.toNat ∣ next.toNat ∨ next.toNat ∣ period.toNat := by
  simp [Harmonic, List.pairwise_append]

/-- The hyperperiod of harmonic periods is the longest of them. -/
theorem common_longest {periods : List UInt64} (some : periods ≠ []) (harmonic : Harmonic periods) :
    common periods ∈ periods ∧ ∀ period ∈ periods, period.toNat ∣ (common periods).toNat := by
  induction periods using List.reverseRecOn with
  | nil => exact absurd rfl some
  | append_singleton before next ih =>
      obtain ⟨earlier, last⟩ := harmonic_append.mp harmonic
      by_cases empty : before = []
      · subst empty
        refine ⟨List.mem_cons_self, fun period inside => ?_⟩
        rw [List.mem_singleton.mp inside]
        exact dvd_rfl
      · obtain ⟨member, longest⟩ := ih empty earlier
        rw [common_append empty]
        rcases last (common before) member with below | above
        · rw [lcm_of_dvd below]
          refine ⟨by simp, fun period inside => ?_⟩
          rcases List.mem_append.mp inside with early | same
          · exact (longest period early).trans below
          · rw [List.mem_singleton.mp same]
        · rw [lcm_of_dvd_by above]
          refine ⟨List.mem_append_left _ member, fun period inside => ?_⟩
          rcases List.mem_append.mp inside with early | same
          · exact longest period early
          · rwa [List.mem_singleton.mp same]

/-- No period of harmonic ones is a misfit, and none of their hyperperiods wraps. -/
theorem inside_of_harmonic {periods : List UInt64} (harmonic : Harmonic periods) :
    ¬ Outside periods := by
  rintro ⟨before, next, after, rfl, some, apart, longer⟩
  have first : Harmonic (before ++ [next]) := by
    refine harmonic.sublist ?_
    simp
  obtain ⟨earlier, last⟩ := harmonic_append.mp first
  rcases last (common before) (common_longest some earlier).1 with below | above
  · exact apart (lcm_of_dvd below)
  · exact longer (lcm_of_dvd_by above)

section Flag
variable (fp : Rounding) (rrtime : Int) {tasks : List SchedAttr}
variable (policies : ∀ par ∈ tasks, par.schedPolicy ≠ schedRr)

include policies in
theorem base_common {res : ResTracer} (idle : res.basePeriod = 0) :
    (addAll fp rrtime res tasks).basePeriod = common (tasks.map period) := by
  induction tasks using List.reverseRecOn with
  | nil => exact idle
  | append_singleton before par ih =>
      have earlier := ih fun other inside => policies other (List.mem_append_left _ inside)
      have own := baset_period rrtime (policies par (by simp))
      rw [add_all_append, List.map_append]
      change newBase rrtime (addAll fp rrtime res before) par = common (before.map period ++ [period par])
      rw [newBase, hyperP, own, earlier]
      by_cases empty : before = []
      · subst empty
        rfl
      · have some : before.map period ≠ [] := by simpa using empty
        rw [if_neg (common_periods_nonzero empty), common_append some]

include policies in
/-- The flag is kept until a misfit is added. -/
theorem flag_iff_inside (res : ResTracer) (idle : res.basePeriod = 0) (flagged : res.hrmc = true) :
    (addAll fp rrtime res tasks).hrmc = true ↔ ¬ Outside (tasks.map period) := by
  induction tasks using List.reverseRecOn with
  | nil =>
      refine iff_of_true flagged ?_
      rintro ⟨before, next, after, split, -⟩
      simp at split
  | append_singleton before par ih =>
      have early : ∀ other ∈ before, other.schedPolicy ≠ schedRr := fun other inside =>
        policies other (List.mem_append_left _ inside)
      have earlier := ih early
      have own := baset_period rrtime (policies par (by simp))
      have base := base_common fp rrtime early idle
      rw [add_all_append, List.map_append]
      change newHrmc rrtime (addAll fp rrtime res before) par = true ↔
        ¬ Outside (before.map period ++ [period par])
      rw [outside_append, not_or, ← earlier, newHrmc, base]
      by_cases empty : before = []
      · subst empty
        simp [common, Misfit]
      · have some : before.map period ≠ [] := by simpa using empty
        rw [if_neg (common_periods_nonzero empty), Bool.and_eq_true]
        exact and_congr_right fun _ => fits_harmonic_iff some base own

/-- The flag tells whether the periods added are pairwise harmonic, unless they are
not and no single one was a misfit. -/
theorem harmonic_flag_iff (cpu : Nat) (tasks : List SchedAttr)
    (admissible : ∀ par ∈ tasks, Accountable par) :
    ((addAll fp rrtime (freshTracer cpu) tasks).hrmc = true ↔ Harmonic (tasks.map period)) ↔
      (Harmonic (tasks.map period) ∨ Outside (tasks.map period)) := by
  have flag := flag_iff_inside fp rrtime (fun par inside => (admissible par inside).policy)
    (freshTracer cpu) rfl rfl
  have inside : Harmonic (tasks.map period) → ¬ Outside (tasks.map period) := inside_of_harmonic
  rw [flag]
  tauto

end Flag

/-- 1 ms every `period`. -/
def every (period : UInt64) : SchedAttr :=
  { schedPolicy := schedFifo, schedRuntime := 1000000, schedPeriod := period }

theorem harmonic_flag_doubling :
    (addAll ieee 100 (freshTracer 0) ([10000000, 20000000, 40000000].map every)).hrmc = true ↔
      Harmonic (([10000000, 20000000, 40000000].map every).map period) :=
  (harmonic_flag_iff ieee 100 0 _ (by decide)).mpr (Or.inl (by unfold Harmonic; decide))

-- 6 divides the hyperperiod 12 of 4 and 12.
theorem harmonic_flag_misses_a_pair :
    (∀ par ∈ [4000000, 12000000, 6000000].map every, Accountable par) ∧
      (addAll ieee 100 (freshTracer 0) ([4000000, 12000000, 6000000].map every)).hrmc = true ∧
        ¬ Harmonic (([4000000, 12000000, 6000000].map every).map period) := by
  refine ⟨by decide, by decide +kernel, ?_⟩
  unfold Harmonic
  decide

end Orchestrator.HarmonicFlag
