import Orchestrator.Adaptive
import Orchestrator.SerialOrder

/-!
What `cmpPidItemS` compares. Different periods come first; without a period the
runtimes are compared by their wrapped difference, and without a runtime the
policies; tasks of one period are compared by utilisation, in steps of 1/10000.
-/

namespace Orchestrator.PlanComparison
open Orchdata Cmnutil Resmgnt Adaptive SerialOrder

section Truncation
variable (x : ℚ)

theorem trunc_neg : trunc (-x) = -trunc x := by
  rcases lt_trichotomy x 0 with below | rfl | above
  · simp [trunc, below.le, below.not_ge, Int.floor_neg]
  · simp [trunc]
  · simp [trunc, above.le, above.not_ge, Int.ceil_neg]

theorem trunc_nonpos_iff : trunc x ≤ 0 ↔ x < 1 := by
  unfold trunc
  split_ifs with above
  · rw [← Int.lt_add_one_iff, Int.floor_lt]
    norm_num
  · refine iff_of_true ?_ (by linarith)
    exact Int.ceil_le.mpr (by push_cast; linarith)

theorem trunc_neg_iff : trunc x < 0 ↔ x ≤ -1 := by
  have opposite := trunc_nonpos_iff (-x)
  rw [trunc_neg] at opposite
  constructor
  · intro below
    by_contra above
    have h := opposite.mpr (by linarith [not_le.mp above])
    omega
  · intro below
    by_contra above
    have h := opposite.mp (by omega)
    linarith

theorem trunc_zero_iff : trunc x = 0 ↔ |x| < 1 := by
  have upper := trunc_nonpos_iff x
  have lower := trunc_neg_iff x
  rw [abs_lt]
  constructor
  · intro zero
    refine ⟨?_, upper.mp (by omega)⟩
    by_contra below
    have h := lower.mpr (not_lt.mp below)
    omega
  · rintro ⟨above, below⟩
    have le := upper.mpr below
    by_contra apart
    have h := lower.mp (by omega)
    linarith

theorem trunc_le_iff (bound : ℤ) (nonneg : 0 ≤ bound) : trunc x ≤ bound ↔ x < bound + 1 := by
  unfold trunc
  split_ifs with above
  · rw [← Int.lt_add_one_iff, Int.floor_lt]
    push_cast
    rfl
  · have positive : (0 : ℚ) ≤ bound := by exact_mod_cast nonneg
    refine iff_of_true ?_ (by linarith)
    exact Int.ceil_le.mpr (by linarith)

/-- `x` without its fraction is an `int`. -/
def InInt : Prop := intMin ≤ trunc x ∧ trunc x ≤ intMax

instance : Decidable (InInt x) := inferInstanceAs (Decidable (_ ∧ _))

variable {x} in
theorem to_int_fits (fits : InInt x) : toInt x = trunc x := if_pos fits

/-- The value for what is no `int` is not zero. -/
theorem to_int_zero_iff : toInt x = 0 ↔ trunc x = 0 := by
  unfold toInt
  split_ifs with fits
  · exact Iff.rfl
  · refine iff_of_false (by decide) fun zero => fits ?_
    rw [zero]
    decide

end Truncation

/-- Runtime and period as a signed word holds them. -/
structure Small (par : SchedAttr) : Prop where
  runtime : par.schedRuntime.toNat < 2 ^ 63
  period : par.schedPeriod.toNat < 2 ^ 63

instance (par : SchedAttr) : Decidable (Small par) :=
  decidable_of_iff (par.schedRuntime.toNat < 2 ^ 63 ∧ par.schedPeriod.toNat < 2 ^ 63)
    ⟨fun both => ⟨both.1, both.2⟩, fun both => ⟨both.runtime, both.period⟩⟩

section Keys
variable (fp : Rounding) {a b : SchedAttr}

/-- `U1` and `U2`. -/
def rate (par : SchedAttr) : ℚ := fp.dbl (fp.dbl par.schedRuntime.toNat / fp.dbl par.schedPeriod.toNat)

/-- `(U2-U1)*10000` for two rates that differ by `x`. -/
def scaled (x : ℚ) : ℚ := fp.dbl (fp.dbl x * 10000)

def gap (a b : SchedAttr) : ℚ := scaled fp (rate fp b - rate fp a)

/-- `b` minus `a`, as signed words. -/
def apart (a b : SchedAttr) : ℤ := (b.schedPeriod.toNat : ℤ) - a.schedPeriod.toNat

theorem cmp_periods (first : Small a) (second : Small b) (other : a.schedPeriod ≠ b.schedPeriod) :
    cmpPidItemS fp a b = Int.tmod (apart a b) intMax := by
  have some : a.schedPeriod ≠ 0 ∨ b.schedPeriod ≠ 0 ∨ a.schedRuntime ≠ 0 ∨ b.schedRuntime ≠ 0 := by
    by_contra none
    push Not at none
    exact other (none.1.trans none.2.1.symm)
  have distinct : apart a b ≠ 0 := by
    intro zero
    have same : b.schedPeriod.toNat = a.schedPeriod.toNat := by
      unfold apart at zero
      omega
    exact other (UInt64.toNat_inj.mp same.symm)
  have low := Int.lt_tmod_of_pos (apart a b) (show 0 < intMax by decide)
  have high := Int.tmod_lt_of_pos (apart a b) (show 0 < intMax by decide)
  unfold intMax at low high
  rw [cmpPidItemS, if_pos some, cmpPidItemU, if_pos other, cmpPidItemP]
  rw [to_int64_small first.period, to_int64_small second.period, ← apart, if_neg distinct, toInt32]
  unfold intMax
  exact Int.bmod_eq_of_le_mul_two (by push_cast; omega) (by push_cast; omega)

theorem cmp_runtimes (noFirst : a.schedPeriod = 0) (noSecond : b.schedPeriod = 0)
    (known : a.schedRuntime ≠ 0 ∨ b.schedRuntime ≠ 0) :
    cmpPidItemS fp a b = ahead (2 ^ 31) a.schedRuntime.toNat b.schedRuntime.toNat := by
  have some : a.schedPeriod ≠ 0 ∨ b.schedPeriod ≠ 0 ∨ a.schedRuntime ≠ 0 ∨ b.schedRuntime ≠ 0 :=
    Or.inr (Or.inr known)
  have same : ¬ a.schedPeriod ≠ b.schedPeriod := by rw [noFirst, noSecond]; simp
  have wrapped : ((b.schedRuntime - a.schedRuntime).toNat : ℤ) % (4294967296 : ℕ) =
      ((b.schedRuntime.toNat : ℤ) - a.schedRuntime.toNat) % (4294967296 : ℕ) := by
    have small := a.schedRuntime.toNat_lt
    rw [UInt64.toNat_sub]
    push_cast
    omega
  rw [cmpPidItemS, if_pos some, cmpPidItemU, if_neg same, if_pos ⟨noFirst, noSecond⟩, toInt32]
  calc Int.bmod (b.schedRuntime - a.schedRuntime).toNat 4294967296
      = Int.bmod (((b.schedRuntime - a.schedRuntime).toNat : ℤ) % (4294967296 : ℕ)) 4294967296 :=
        (Int.emod_bmod _ _).symm
    _ = ahead (2 ^ 31) a.schedRuntime.toNat b.schedRuntime.toNat := by
        rw [wrapped, Int.emod_bmod]
        rfl

theorem cmp_policies (noFirst : a.schedPeriod = 0) (noSecond : b.schedPeriod = 0)
    (noRun : a.schedRuntime = 0) (noOther : b.schedRuntime = 0) :
    cmpPidItemS fp a b = ahead (2 ^ 31) b.schedPolicy.toNat a.schedPolicy.toNat := by
  rw [cmpPidItemS, if_neg (by simp [noFirst, noSecond, noRun, noOther])]
  rfl

theorem cmp_rates (same : a.schedPeriod = b.schedPeriod) (known : a.schedPeriod ≠ 0) :
    cmpPidItemS fp a b = toInt (gap fp a b) := by
  have other : b.schedPeriod ≠ 0 := same ▸ known
  rw [cmpPidItemS, if_pos (Or.inl known), cmpPidItemU, if_neg (not_not.mpr same),
    if_neg fun none => known none.1, if_neg known, if_neg other]
  rfl

end Keys

end Orchestrator.PlanComparison
