import Mathlib.Data.Nat.Log
import Mathlib.Tactic.Linarith
import Mathlib.Tactic.Ring

/-!
Rounding a natural to the nearest of `parts` equal steps of the next power of the
base. The step changes from one decade to the next, and its fraction is cut off in
the end. Where a decade starts on the grid of both, the rounding is monotone, and
it is stable where the cut is less than half a step.
-/

namespace Orchestrator.DecadeGrid

section Decade
variable (base : ℕ)

/-- The next power of the base. -/
def decade (p : ℕ) : ℕ := base ^ Nat.clog base p

theorem decade_one : decade base 1 = 1 := by simp [decade]

variable {base} (radix : 1 < base)
include radix

theorem decade_pos (p : ℕ) : 0 < decade base p := Nat.pow_pos (by omega)

theorem le_decade (p : ℕ) : p ≤ decade base p := Nat.le_pow_clog radix p

/-- A decade is the power below it, exclusive, up to its own power. -/
theorem decade_eq {p below : ℕ} (low : base ^ below < p) (high : p ≤ base ^ (below + 1)) :
    decade base p = base ^ (below + 1) := by
  have above : below < Nat.clog base p := (Nat.lt_clog_iff_pow_lt radix).mpr low
  have bounded : Nat.clog base p ≤ below + 1 := (Nat.clog_le_iff_le_pow radix).mpr high
  rw [decade, show Nat.clog base p = below + 1 by omega]

theorem decade_pow (n : ℕ) : decade base (base ^ n) = base ^ n := by
  rw [decade, Nat.clog_pow base n radix]

/-- Above one there is a power below. -/
theorem decade_cases {p : ℕ} (positive : 0 < p) :
    p = 1 ∨ ∃ below, decade base p = base ^ (below + 1) ∧ base ^ below < p := by
  rcases (show p = 1 ∨ 1 < p by omega) with one | more
  · exact Or.inl one
  · have level := Nat.clog_pos radix more
    refine Or.inr ⟨Nat.clog base p - 1, ?_, Nat.pow_pred_clog_lt_self radix more⟩
    rw [decade, show Nat.clog base p - 1 + 1 = Nat.clog base p by omega]

end Decade

section Step
variable (parts : ℕ)

/-- Steps of `top / parts` in `p`, to the nearest. -/
def steps (top p : ℕ) : ℕ := (2 * parts * p + top) / (2 * top)

/-- The nearest multiple of `top / parts`, cut off. -/
def nearest (top p : ℕ) : ℕ := steps parts top p * top / parts

variable {parts} {top : ℕ} (some : 0 < parts) (positive : 0 < top)

theorem nearest_mono {p q : ℕ} (le : p ≤ q) : nearest parts top p ≤ nearest parts top q := by
  have scaled := Nat.mul_le_mul_left (2 * parts) le
  have counted : steps parts top p ≤ steps parts top q := Nat.div_le_div_right (by omega)
  exact Nat.div_le_div_right (Nat.mul_le_mul_right top counted)

include positive in
theorem steps_bounds (parts p : ℕ) : 2 * (steps parts top p * top) ≤ 2 * parts * p + top ∧
    2 * parts * p < 2 * (steps parts top p * top) + top := by
  have low := Nat.div_mul_le_self (2 * parts * p + top) (2 * top)
  have high := Nat.lt_mul_div_succ (2 * parts * p + top) (show 0 < 2 * top by omega)
  have same : steps parts top p * (2 * top) = 2 * (steps parts top p * top) := by ring
  have next : 2 * top * (steps parts top p + 1) = 2 * (steps parts top p * top) + 2 * top := by ring
  rw [← steps] at low high
  rw [same] at low
  rw [next] at high
  omega

/-- A count whose multiple is within half a step is the one rounded to. -/
theorem steps_eq {p count : ℕ} (low : 2 * (count * top) ≤ 2 * parts * p + top)
    (high : 2 * parts * p < 2 * (count * top) + top) : steps parts top p = count := by
  refine Nat.div_eq_of_lt_le ?_ ?_
  · calc count * (2 * top) = 2 * (count * top) := by ring
      _ ≤ 2 * parts * p + top := low
  · calc 2 * parts * p + top < 2 * (count * top) + top + top := by omega
      _ = (count + 1) * (2 * top) := by ring

include some in
theorem nearest_bounds (top p : ℕ) : parts * nearest parts top p ≤ steps parts top p * top ∧
    steps parts top p * top < parts * nearest parts top p + parts :=
  ⟨Nat.mul_div_le _ _, Nat.lt_mul_div_succ _ some⟩

/-- A multiple of the step is where it rounds to. -/
theorem nearest_exact {p : ℕ} (count : ℕ) (some : 0 < parts) (positive : 0 < top)
    (multiple : parts * p = count * top) : nearest parts top p = p := by
  have counted : steps parts top p = count := by
    refine steps_eq ?_ ?_ <;> rw [Nat.mul_assoc, multiple] <;> omega
  rw [nearest, counted, ← multiple]
  exact Nat.mul_div_cancel_left p some

/-- Rounding twice is rounding once if a cut is less than half a step. -/
theorem nearest_idem {p : ℕ} (some : 0 < parts) (coarse : 2 * parts ≤ top) :
    nearest parts top (nearest parts top p) = nearest parts top p := by
  have cut := nearest_bounds some top p
  have scaled : 2 * parts * nearest parts top p = 2 * (parts * nearest parts top p) := by ring
  have counted : steps parts top (nearest parts top p) = steps parts top p := by
    refine steps_eq ?_ ?_ <;> omega
  rw [nearest, counted, ← nearest]

end Step

section Grid
variable (base parts : ℕ)

/-- `p` rounded on the grid of its decade. -/
def grid (p : ℕ) : ℕ := nearest parts (decade base p) p

/-- The start of every decade is on its grid, and the cut is less than half of a step
unless the step is the inverse of a whole number. -/
structure Fits : Prop where
  radix : 1 < base
  some : 0 < parts
  start : base ∣ parts
  cut : ∀ n, base ^ n ∣ parts ∨ 2 * parts ≤ base ^ n

variable {base parts} (fits : Fits base parts)

theorem grid_one (some : 0 < parts) : grid base parts 1 = 1 := by
  rw [grid, decade_one]
  exact nearest_exact parts some Nat.one_pos rfl

include fits in
theorem grid_pow (n : ℕ) : grid base parts (base ^ n) = base ^ n := by
  rw [grid, decade_pow fits.radix]
  exact nearest_exact parts fits.some (Nat.pow_pos (by have := fits.radix; omega)) rfl

include fits in
theorem grid_le_decade (p : ℕ) : grid base parts p ≤ decade base p := by
  calc grid base parts p ≤ nearest parts (decade base p) (decade base p) :=
        nearest_mono (le_decade fits.radix p)
    _ = decade base p := nearest_exact parts fits.some (decade_pos fits.radix p) rfl

include fits in
theorem below_le_grid {p below : ℕ} (top : decade base p = base ^ (below + 1))
    (low : base ^ below < p) : base ^ below ≤ grid base parts p := by
  obtain ⟨share, whole⟩ := fits.start
  have multiple : parts * base ^ below = share * decade base p := by
    rw [top, whole, pow_succ]
    ring
  calc base ^ below = nearest parts (decade base p) (base ^ below) :=
        (nearest_exact share fits.some (decade_pos fits.radix p) multiple).symm
    _ ≤ grid base parts p := nearest_mono low.le

include fits in
theorem grid_pos {p : ℕ} (positive : 0 < p) : 0 < grid base parts p := by
  rcases decade_cases fits.radix positive with rfl | ⟨below, top, low⟩
  · rw [grid_one fits.some]
    exact Nat.one_pos
  · exact lt_of_lt_of_le (Nat.pow_pos (by have := fits.radix; omega)) (below_le_grid fits top low)

include fits in
/-- Half a step away, and up to one more for the cut. -/
theorem grid_close (p : ℕ) :
    2 * parts * grid base parts p ≤ 2 * parts * p + decade base p ∧
      2 * parts * p < 2 * parts * grid base parts p + decade base p + 2 * parts := by
  have counted := steps_bounds (decade_pos fits.radix p) parts p
  have cut := nearest_bounds fits.some (decade base p) p
  have scaled : 2 * parts * grid base parts p =
      2 * (parts * nearest parts (decade base p) p) := by rw [grid, Nat.mul_assoc]
  omega

include fits in
/-- A decade is less than the base times any value in it. -/
theorem decade_lt {p : ℕ} (positive : 0 < p) : decade base p < base * p := by
  rcases decade_cases fits.radix positive with rfl | ⟨below, top, low⟩
  · rw [decade_one, Nat.mul_one]
    exact fits.radix
  · rw [top, pow_succ, Nat.mul_comm]
    exact Nat.mul_lt_mul_of_pos_left low (by have := fits.radix; omega)

include fits in
theorem grid_mono {p q : ℕ} (positive : 0 < p) (le : p ≤ q) : grid base parts p ≤ grid base parts q := by
  rcases (Nat.clog_mono_right base le).eq_or_lt with same | lower
  · have tops : decade base p = decade base q := by rw [decade, decade, same]
    rw [grid, grid, tops]
    exact nearest_mono le
  · rcases decade_cases fits.radix (show 0 < q by omega) with rfl | ⟨below, top, low⟩
    · simp at lower
    · -- the decade of `p` ends where that of `q` starts, or before
      have level : Nat.clog base q = below + 1 := Nat.pow_right_injective fits.radix top
      calc grid base parts p ≤ decade base p := grid_le_decade fits p
        _ ≤ base ^ below := Nat.pow_le_pow_right (by have := fits.radix; omega) (by omega)
        _ ≤ grid base parts q := below_le_grid fits top low

include fits in
theorem grid_idem {p : ℕ} (positive : 0 < p) :
    grid base parts (grid base parts p) = grid base parts p := by
  rcases decade_cases fits.radix positive with rfl | ⟨below, top, low⟩
  · rw [grid_one fits.some, grid_one fits.some]
  · rcases (below_le_grid fits top low).eq_or_lt with start | inside
    -- rounded down to the start, which belongs to the decade before
    · rw [← start, grid_pow fits]
    · have high : grid base parts p ≤ base ^ (below + 1) := top ▸ grid_le_decade fits p
      have same : decade base (grid base parts p) = decade base p := by
        rw [decade_eq fits.radix inside high, top]
      rcases fits.cut (below + 1) with ⟨share, whole⟩ | coarse
      · have kept : grid base parts p = p := by
          refine nearest_exact (share * p) fits.some (decade_pos fits.radix p) ?_
          rw [top, whole]
          ring
        rw [kept, kept]
      · rw [grid, same]
        exact nearest_idem fits.some (top ▸ coarse)

end Grid

end Orchestrator.DecadeGrid
