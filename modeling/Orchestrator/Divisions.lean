import Orchestrator.Admission

/-!
The divisors of `checkUvalue` when its products wrap. The base period stays the
wrapped least common multiple of non-zero words, which is never zero.
-/

namespace Orchestrator.Divisions
open Orchdata Resmgnt Cmnutil Accounting Admission

section Call
variable (rrtime : Int) (res : ResTracer) (par : SchedAttr)

/-- What one call divides by: the task's own period and the new base, and on a
used tracer also the `gcd` of `lcm` and the old base. -/
def divisors : List UInt64 :=
  if res.basePeriod = 0 then [baset rrtime par, newBase rrtime res par]
  else
    [Cmnutil.gcd res.basePeriod (baset rrtime par), res.basePeriod, baset rrtime par,
      newBase rrtime res par]

/-- A division of words, which traps on zero. -/
def divide (a b : UInt64) : Option UInt64 := if b = 0 then none else some (a / b)

def lcmTraps (a b : UInt64) : Option UInt64 :=
  if a = 0 ∨ b = 0 then some 0 else (divide a (Cmnutil.gcd a b)).map (· * b)

/-- `(double)used/(double)base`, which has no value for an empty base. -/
def quotientTraps (fp : Rounding) (used base : UInt64) : Option ℚ :=
  if base = 0 then none else some (quotient fp used.toNat base.toNat)

/-- `checkUvalue` with every division that can fail. The score only divides by
`baset`, which the share of the task does in any case. -/
def checkUvalueTraps (fp : Rounding) (add : Bool) : Option (Int × ResTracer) := do
  let base ← if res.basePeriod = 0 then some (baset rrtime par)
    else lcmTraps res.basePeriod (baset rrtime par)
  let scaled ← if res.basePeriod = 0 then some (used res par)
    else divide (used res par * base) res.basePeriod
  let share ← divide (par.schedRuntime * base) (baset rrtime par)
  let u ← quotientTraps fp (scaled + share) base
  let rv := if 1 < u then -1 else score fp rrtime res par
  some (rv, if add then
      { res with
        usedPeriod := scaled + share
        basePeriod := base
        u := u
        hrmc := newHrmc rrtime res par }
    else res)

/-- The call returns exactly when no divisor is zero, with what `checkUvalue` says. -/
theorem check_uvalue_traps (fp : Rounding) (add : Bool) (outcome : Int × ResTracer) :
    checkUvalueTraps rrtime res par fp add = some outcome ↔
      (∀ divisor ∈ divisors rrtime res par, divisor ≠ 0) ∧
        outcome = checkUvalue fp rrtime res par add := by
  by_cases idle : res.basePeriod = 0
  · have base : newBase rrtime res par = baset rrtime par := if_pos idle
    by_cases period : baset rrtime par = 0
    · simp [checkUvalueTraps, divisors, divide, idle, base, period]
    · simp [checkUvalueTraps, divisors, divide, quotientTraps, idle, base, period, checkUvalue,
        verdict, added, newU, newUsed, scaledUsed, eq_comm]
  · have base : newBase rrtime res par = Cmnutil.lcm res.basePeriod (baset rrtime par) := if_neg idle
    by_cases period : baset rrtime par = 0
    · simp [checkUvalueTraps, divisors, divide, lcmTraps, idle, period]
    · by_cases common : Cmnutil.gcd res.basePeriod (baset rrtime par) = 0
      · simp [checkUvalueTraps, divisors, divide, lcmTraps, idle, period, common]
      · have lcm : lcmTraps res.basePeriod (baset rrtime par) = some (newBase rrtime res par) := by
          rw [base]
          simp [lcmTraps, Cmnutil.lcm, divide, idle, period, common]
        by_cases empty : newBase rrtime res par = 0
        · simp [checkUvalueTraps, divisors, divide, quotientTraps, lcm, idle, period, empty]
        · simp [checkUvalueTraps, divisors, divide, quotientTraps, lcm, idle, period, common, empty,
            checkUvalue, verdict, added, newU, newUsed, scaledUsed, ← base, hyperP, eq_comm]

variable {rrtime}

/-- The slice that `getRRslice` leaves is one that the product keeps. -/
theorem slice_nonzero (positive : 1 ≤ rrtime) (small : rrtime * schedRrtonattr ≤ intMax) :
    slice rrtime ≠ 0 := by
  simp only [schedRrtonattr, intMax] at small
  have kept : toInt32 (rrtime * schedRrtonattr) = rrtime * 1000000 :=
    Int.bmod_eq_of_le_mul_two (by simp only [schedRrtonattr]; push_cast; omega)
      (by simp only [schedRrtonattr]; push_cast; omega)
  have value := to_uint64_mod (rrtime * 1000000)
  rw [Int.emod_eq_of_lt (by omega) (by omega)] at value
  rw [slice, kept]
  intro zero
  have none : ((0 : UInt64).toNat : Int) = 0 := rfl
  rw [zero, none] at value
  omega

variable (positive : 1 ≤ rrtime) (small : rrtime * schedRrtonattr ≤ intMax)
include positive small

theorem baset_nonzero : baset rrtime par ≠ 0 := by
  unfold baset
  split_ifs with sliced default
  · exact slice_nonzero positive small
  · decide
  · exact default

theorem new_base_nonzero : newBase rrtime res par ≠ 0 := by
  unfold newBase
  split_ifs with idle
  · exact baset_nonzero par positive small
  · exact lcm_ne_zero idle (baset_nonzero par positive small)

theorem divisors_nonzero : ∀ divisor ∈ divisors rrtime res par, divisor ≠ 0 := by
  have period := baset_nonzero par positive small
  have base := new_base_nonzero res par positive small
  unfold divisors
  split_ifs with idle
  · simp [period, base]
  · simp [gcd_ne_zero _ idle, idle, period, base]

end Call

/-- A word other than zero does not become zero as a `double`. -/
theorem dbl_nonzero (fp : Rounding) {divisor : UInt64} (nonzero : divisor ≠ 0) :
    fp.dbl divisor.toNat ≠ 0 := by
  have large : (1 : ℚ) ≤ divisor.toNat := by exact_mod_cast to_nat_pos nonzero
  have h := fp.dbl_mono 1 divisor.toNat one_pos.le large
  rw [fp.dbl_one] at h
  exact (one_pos.trans_le h).ne'

/-- Additions to an unused tracer leave a base period, whatever wraps. -/
theorem base_nonzero (fp : Rounding) {rrtime : Int} (positive : 1 ≤ rrtime)
    (small : rrtime * schedRrtonattr ≤ intMax) (res : ResTracer) (tasks : List SchedAttr)
    (some : tasks ≠ []) : (addAll fp rrtime res tasks).basePeriod ≠ 0 := by
  obtain ⟨before, par, rfl⟩ := (List.eq_nil_or_concat' tasks).resolve_left some
  rw [add_all_append]
  exact new_base_nonzero (addAll fp rrtime res before) par positive small

/-- No call on a tracer that started empty divides by zero, in words or in
floating point, and once it is used its base period is not zero. -/
theorem never_divides_by_zero (fp : Rounding) (rrtime : Int) (positive : 1 ≤ rrtime)
    (small : rrtime * schedRrtonattr ≤ intMax) (res : ResTracer) (tasks : List SchedAttr)
    (par : SchedAttr) :
    (∀ divisor ∈ divisors rrtime (addAll fp rrtime res tasks) par,
      divisor ≠ 0 ∧ fp.dbl divisor.toNat ≠ 0) ∧
        (tasks ≠ [] → (addAll fp rrtime res tasks).basePeriod ≠ 0) := by
  refine ⟨fun divisor inside => ?_, base_nonzero fp positive small res tasks⟩
  have nonzero := divisors_nonzero (addAll fp rrtime res tasks) par positive small divisor inside
  exact ⟨nonzero, dbl_nonzero fp nonzero⟩

/-- Two periods whose common multiple wraps. -/
def wrapping : List SchedAttr :=
  [{ schedPolicy := schedFifo, schedRuntime := 1, schedPeriod := 0xFFFFFFFFFFFFFFFF },
    { schedPolicy := schedFifo, schedRuntime := 1, schedPeriod := 0xFFFFFFFFFFFFFFFE }]

/-- A task that runs for a slice of 100 ms. -/
def sliceTask : SchedAttr := { schedPolicy := schedRr, schedRuntime := 100000000, schedPeriod := 7 }

theorem never_divides_by_zero_wrapped :
    0 ∉ divisors 100 (addAll ieee 100 {} wrapping) sliceTask ∧
      (addAll ieee 100 {} wrapping).basePeriod ≠ 0 := by
  obtain ⟨nonzero, base⟩ :=
    never_divides_by_zero ieee 100 (by decide) (by decide) {} wrapping sliceTask
  exact ⟨fun inside => (nonzero 0 inside).1 rfl, base (by decide)⟩

end Orchestrator.Divisions
