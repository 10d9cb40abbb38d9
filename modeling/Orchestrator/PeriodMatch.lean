import Orchestrator.DecadeGrid
import Orchestrator.Resmgnt

/-!
`findPeriodMatch` as a rounding on the decimal grid of 40 steps. No period of 64
bits leaves the type, so what holds of the grid holds of the matched periods.
-/

namespace Orchestrator.PeriodMatch
open Orchdata Resmgnt DecadeGrid Cmnutil

theorem forty_fits : Fits 10 40 where
  radix := by decide
  some := by decide
  start := by decide
  cut := fun n => by
    rcases (show n = 0 ∨ n = 1 ∨ 2 ≤ n by omega) with rfl | rfl | more
    · exact Or.inl (by decide)
    · exact Or.inl (by decide)
    · have power := Nat.pow_le_pow_right (show 0 < 10 by decide) more
      exact Or.inr (by omega)

/-- Above 10^19 the step is 2.5 * 10^18, and the seventh is the last one reached. -/
theorem grid_fits {p : ℕ} (small : p < word) : grid 10 40 p < word := by
  have bounded : Nat.clog 10 p ≤ 20 :=
    Nat.clog_le_of_le_pow (small.le.trans (by decide))
  rcases (show Nat.clog 10 p ≤ 19 ∨ Nat.clog 10 p = 20 by omega) with lower | top
  · calc grid 10 40 p ≤ 10 ^ Nat.clog 10 p := grid_le_decade forty_fits p
      _ ≤ 10 ^ 19 := Nat.pow_le_pow_right (by decide) lower
      _ < word := by decide
  · have last : p ≤ word - 1 := by omega
    calc grid 10 40 p = nearest 40 (10 ^ 20) p := by rw [grid, decade, top]
      _ ≤ nearest 40 (10 ^ 20) (word - 1) := nearest_mono last
      _ < word := by decide

/-- The rational computation is the one on naturals. -/
theorem matched_grid (p : ℕ) :
    trunc (⌊(p : ℚ) / (10 ^ Nat.clog 10 p / 40) + 1 / 2⌋ * (10 ^ Nat.clog 10 p / 40)) =
      grid 10 40 p := by
  have top : (decade 10 p : ℚ) = 10 ^ Nat.clog 10 p := by simp [decade]
  have positive : (0 : ℚ) < decade 10 p := by exact_mod_cast decade_pos (by decide) p
  have count : ⌊(p : ℚ) / (decade 10 p / 40) + 1 / 2⌋ = (steps 40 (decade 10 p) p : ℤ) := by
    have ratio : (p : ℚ) / (decade 10 p / 40) + 1 / 2 =
        ((2 * 40 * p + decade 10 p : ℕ) : ℚ) / ((2 * decade 10 p : ℕ) : ℚ) := by
      push_cast
      field_simp
      ring
    rw [ratio, Rat.floor_natCast_div_natCast]
    rfl
  have value : ((steps 40 (decade 10 p) p : ℤ) : ℚ) * (decade 10 p / 40) =
      ((steps 40 (decade 10 p) p * decade 10 p : ℕ) : ℚ) / ((40 : ℕ) : ℚ) := by
    push_cast
    ring
  have nonneg : (0 : ℚ) ≤ ((steps 40 (decade 10 p) p * decade 10 p : ℕ) : ℚ) / ((40 : ℕ) : ℚ) := by
    positivity
  rw [← top, count, value, trunc, if_pos nonneg, Rat.floor_natCast_div_natCast]
  rfl

theorem find_period_match_grid {p : UInt64} (known : p ≠ 0) :
    (findPeriodMatch p).toNat = grid 10 40 p.toNat := by
  have fits : grid 10 40 p.toNat < 18446744073709551616 := grid_fits p.toNat_lt
  have whole : ((grid 10 40 p.toNat : Int) % 18446744073709551616).toNat = grid 10 40 p.toNat := by
    omega
  rw [findPeriodMatch, if_neg known]
  dsimp only
  rw [matched_grid, toUInt64, whole]
  exact UInt64.toNat_ofNat_of_lt fits

/-- A rounding of periods, default excluded, that further rounding does not move. -/
structure StableRounding (matched : UInt64 → UInt64) : Prop where
  positive : ∀ p, 1 ≤ p → 1 ≤ matched p
  close : ∀ p, 1 ≤ p → |((matched p).toNat : ℚ) - p.toNat| ≤ p.toNat / 8 + 1
  mono : ∀ p q, 1 ≤ p → p ≤ q → matched p ≤ matched q
  idem : ∀ p, 1 ≤ p → matched (matched p) = matched p

theorem one_le_iff {p : UInt64} : 1 ≤ p ↔ 0 < p.toNat := by
  rw [UInt64.le_iff_toNat_le]
  exact Nat.succ_le_iff

theorem known_of_one_le {p : UInt64} (positive : 1 ≤ p) : p ≠ 0 := by
  rintro rfl
  exact absurd (one_le_iff.mp positive) (by decide)

theorem match_positive {p : UInt64} (positive : 1 ≤ p) : 1 ≤ findPeriodMatch p := by
  rw [one_le_iff, find_period_match_grid (known_of_one_le positive)]
  exact grid_pos forty_fits (one_le_iff.mp positive)

theorem match_close {p : UInt64} (positive : 1 ≤ p) :
    |((findPeriodMatch p).toNat : ℚ) - p.toNat| ≤ p.toNat / 8 + 1 := by
  have near := grid_close forty_fits p.toNat
  have step := decade_lt forty_fits (one_le_iff.mp positive)
  rw [← find_period_match_grid (known_of_one_le positive)] at near
  have low : (2 * 40 * (findPeriodMatch p).toNat : ℚ) ≤ 2 * 40 * p.toNat + decade 10 p.toNat := by
    exact_mod_cast near.1
  have high : (2 * 40 * p.toNat : ℚ) <
      2 * 40 * (findPeriodMatch p).toNat + decade 10 p.toNat + 2 * 40 := by
    exact_mod_cast near.2
  have size : (decade 10 p.toNat : ℚ) < 10 * p.toNat := by exact_mod_cast step
  rw [abs_le]
  constructor <;> linarith

theorem match_mono {p q : UInt64} (positive : 1 ≤ p) (le : p ≤ q) :
    findPeriodMatch p ≤ findPeriodMatch q := by
  rw [UInt64.le_iff_toNat_le, find_period_match_grid (known_of_one_le positive),
    find_period_match_grid (known_of_one_le (UInt64.le_trans positive le))]
  exact grid_mono forty_fits (one_le_iff.mp positive) (UInt64.le_iff_toNat_le.mp le)

theorem match_idem {p : UInt64} (positive : 1 ≤ p) :
    findPeriodMatch (findPeriodMatch p) = findPeriodMatch p := by
  apply UInt64.toNat_inj.mp
  rw [find_period_match_grid (known_of_one_le (match_positive positive)),
    find_period_match_grid (known_of_one_le positive)]
  exact grid_idem forty_fits (one_le_iff.mp positive)

/-- Period matching over exact arithmetic is a stable rounding of all 64-bit periods. -/
theorem find_period_match_stable : StableRounding findPeriodMatch where
  positive := fun _ => match_positive
  close := fun _ => match_close
  mono := fun _ _ => match_mono
  idem := fun _ => match_idem

example : findPeriodMatch 63234114 = 62500000 := by decide +kernel

end Orchestrator.PeriodMatch
