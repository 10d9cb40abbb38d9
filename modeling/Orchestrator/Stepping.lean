import Mathlib.Algebra.Order.Floor.Div
import Mathlib.Data.Int.GCD
import Mathlib.Data.Int.ModEq
import Mathlib.Data.Nat.Prime.Basic
import Orchestrator.Cmnutil
import Orchestrator.Traversal

/-!
Counting loops on 64-bit words: a word grows by the same step until it is not
below a bound. The number of turns is a rounded up quotient where nothing wraps,
and the loop ends even where it does.
-/

namespace Orchestrator.Stepping
open Cmnutil Traversal

/-- The word after this many additions. -/
def after (start step : UInt64) (count : Nat) : UInt64 := start + UInt64.ofNat count * step

section Words
variable (start step : UInt64)

theorem after_zero : after start step 0 = start := by
  simp [after]

theorem after_succ (count : Nat) : after start step (count + 1) = after start step count + step := by
  rw [after, after, UInt64.ofNat_add]
  grind

theorem after_after (count more : Nat) :
    after (after start step count) step more = after start step (count + more) := by
  rw [after, after, after, UInt64.ofNat_add]
  grind

theorem after_mod (count : Nat) :
    (after start step count).toNat = (start.toNat + count * step.toNat) % word := by
  rw [after, UInt64.toNat_add, UInt64.toNat_mul, UInt64.toNat_ofNat']
  simp [word, Nat.add_mod, Nat.mul_mod]

variable {start step}

theorem after_exact {count : Nat} (fits : start.toNat + count * step.toNat < word) :
    (after start step count).toNat = start.toNat + count * step.toNat := by
  rw [after_mod, Nat.mod_eq_of_lt fits]

end Words

section Ceil
variable {start step bound : Nat}

/-- Turns until the bound is met. -/
def turnsTo (start step bound : Nat) : Nat := (bound - start) ⌈/⌉ step

theorem below_before {count : Nat} (positive : 0 < step) (early : count < turnsTo start step bound) :
    start + count * step < bound := by
  by_contra late
  have enough : bound - start ≤ step * count := by
    rw [Nat.mul_comm]
    omega
  exact absurd early (Nat.not_lt.mpr ((ceilDiv_le_iff_le_mul positive).mpr enough))

theorem bound_reached (start bound : Nat) (positive : 0 < step) :
    bound ≤ start + turnsTo start step bound * step := by
  have reached : bound - start ≤ step * turnsTo start step bound :=
    (ceilDiv_le_iff_le_mul positive).mp le_rfl
  rw [Nat.mul_comm] at reached
  omega

theorem bound_not_passed (positive : 0 < step) (early : start < bound) :
    start + turnsTo start step bound * step < bound + step := by
  cases turns : turnsTo start step bound with
  | zero => omega
  | succ count =>
      have last : start + count * step < bound := below_before positive (by omega)
      rw [Nat.add_mul]
      omega

theorem no_turns (met : bound ≤ start) : turnsTo start step bound = 0 := by
  rw [turnsTo, Nat.sub_eq_zero_of_le met, zero_ceilDiv]

end Ceil

section Wrapping
variable {step : UInt64}

theorem gcd_le_quarter {number : Nat} (small : Nat.gcd number word < 2 ^ 63) :
    Nat.gcd number word ≤ 2 ^ 62 := by
  obtain ⟨power, -, same⟩ := (Nat.dvd_prime_pow Nat.prime_two).mp (Nat.gcd_dvd_right number word)
  rw [same] at small ⊢
  have below : power < 63 := (Nat.pow_lt_pow_iff_right (by decide)).mp small
  exact Nat.pow_le_pow_right (by decide) (by omega)

/-- A step below half the words meets every bound that leaves a quarter of them,
even if it wraps on the way: the multiples of the step are those of a divisor of
the number of words. -/
theorem after_meets (start : UInt64) {bound : Nat} (room : bound + 2 ^ 62 ≤ word) (positive : 0 < step.toNat)
    (small : step.toNat < 2 ^ 63) : ∃ count < word, bound ≤ (after start step count).toNat := by
  by_cases met : bound ≤ start.toNat
  · exact ⟨0, by decide, by rwa [after_zero]⟩
  have least := Nat.gcd_le_left word positive
  obtain ⟨factor, -, multiple⟩ := Nat.exists_mul_mod_eq_gcd (lt_of_le_of_lt least step.toNat_lt)
  have divisor : 0 < Nat.gcd step.toNat word := Nat.gcd_pos_of_pos_left word positive
  have quarter : Nat.gcd step.toNat word ≤ 2 ^ 62 := gcd_le_quarter (lt_of_le_of_lt least small)
  generalize Nat.gcd step.toNat word = divides at multiple divisor quarter
  have passed := bound_not_passed divisor (Nat.lt_of_not_le met)
  have reached := bound_reached start.toNat bound divisor
  generalize turnsTo start.toNat divides bound = turns at passed reached
  have divided : step.toNat * factor ≡ divides [MOD word] :=
    multiple ▸ (Nat.mod_modEq (step.toNat * factor) word).symm
  have multiples : turns * factor % word * step.toNat ≡ turns * divides [MOD word] :=
    calc turns * factor % word * step.toNat
        ≡ turns * factor * step.toNat [MOD word] := (Nat.mod_modEq _ word).mul_right step.toNat
      _ = turns * (step.toNat * factor) := by rw [Nat.mul_assoc, Nat.mul_comm factor]
      _ ≡ turns * divides [MOD word] := divided.mul_left turns
  have same : (start.toNat + turns * factor % word * step.toNat) % word =
      (start.toNat + turns * divides) % word := multiples.add_left start.toNat
  refine ⟨turns * factor % word, Nat.mod_lt _ (by decide), ?_⟩
  rw [after_mod, same, Nat.mod_eq_of_lt (by omega)]
  exact reached

end Wrapping

end Orchestrator.Stepping
