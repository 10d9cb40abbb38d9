import Mathlib.Algebra.Order.Ring.Int
import Mathlib.Data.List.Basic

/-!
Comparing numbers by their wrapped difference. On a circle of `2 * half` values the
difference of two tells which is ahead, but it orders a set of them only while they
all lie in one half of the circle, and that is the only case.
-/

namespace Orchestrator.SerialOrder

section Least
variable {α : Type*} {ahead : α → α → ℤ}

/-- Sign-antisymmetric and transitive on the elements of a list. -/
structure Orders (ahead : α → α → ℤ) (xs : List α) : Prop where
  antisymm : ∀ x ∈ xs, ∀ y ∈ xs, ahead x y < 0 ↔ 0 < ahead y x
  trans : ∀ x ∈ xs, ∀ y ∈ xs, ∀ z ∈ xs, ahead x y ≤ 0 → ahead y z ≤ 0 → ahead x z ≤ 0

theorem orders_subset {xs ys : List α} (orders : Orders ahead xs) (inside : ys ⊆ xs) :
    Orders ahead ys where
  antisymm := fun x hx y hy => orders.antisymm x (inside hx) y (inside hy)
  trans := fun x hx y hy z hz => orders.trans x (inside hx) y (inside hy) z (inside hz)

/-- An ordered list that is not empty has an element that none is behind. -/
theorem exists_last {xs : List α} (orders : Orders ahead xs) (some : xs ≠ []) :
    ∃ last ∈ xs, ∀ x ∈ xs, 0 ≤ ahead last x := by
  induction xs with
  | nil => exact absurd rfl some
  | cons head rest ih =>
      have self : 0 ≤ ahead head head := by
        have h := orders.antisymm head List.mem_cons_self head List.mem_cons_self
        omega
      by_cases empty : rest = []
      · subst empty
        exact ⟨head, List.mem_cons_self, fun x inside => by rwa [List.mem_singleton.mp inside]⟩
      · obtain ⟨last, member, least⟩ := ih (orders_subset orders (List.subset_cons_self _ _)) empty
        have linked := List.mem_cons_of_mem head member
        by_cases behind : ahead last head < 0
        -- the head is behind all that the last one of the rest is behind
        · refine ⟨head, List.mem_cons_self, fun x inside => ?_⟩
          rcases List.mem_cons.mp inside with rfl | later
          · exact self
          · by_contra further
            have through := orders.trans last linked head List.mem_cons_self x inside
              behind.le (not_le.mp further).le
            have level := orders.antisymm last linked x inside
            have back := orders.trans x inside last linked head List.mem_cons_self
            have flipped := orders.antisymm head List.mem_cons_self x inside
            have above := least x later
            omega
        · refine ⟨last, linked, fun x inside => ?_⟩
          rcases List.mem_cons.mp inside with rfl | later
          · exact not_lt.mp behind
          · exact least x later

end Least

section Circle
variable (half : ℕ)

/-- How far `y` is ahead of `x`. -/
def ahead (x y : ℤ) : ℤ := Int.bmod (y - x) (2 * half)

/-- The distance from a start, once around. -/
def offset (start x : ℤ) : ℤ := (x - start) % (2 * half : ℕ)

variable {half}

theorem ahead_offset {start x y : ℤ} (inX : offset half start x < half)
    (inY : offset half start y < half) :
    ahead half x y = offset half start y - offset half start x := by
  have around : (0 : ℤ) ≤ half := Int.natCast_nonneg half
  by_cases none : half = 0
  · subst none
    simp [ahead, offset]
  · have positive : ((2 * half : ℕ) : ℤ) ≠ 0 := by omega
    have lowX : 0 ≤ offset half start x := Int.emod_nonneg _ positive
    have lowY : 0 ≤ offset half start y := Int.emod_nonneg _ positive
    have apart : y - x = (y - start) - (x - start) := by omega
    rw [ahead, ← Int.emod_bmod, apart, Int.sub_emod, Int.emod_bmod]
    exact Int.bmod_eq_of_le_mul_two (by unfold offset at *; omega) (by unfold offset at *; omega)

theorem offset_of_ahead {start x : ℤ} (some : 0 < half) (notBehind : 0 ≤ ahead half start x) :
    offset half start x < half := by
  have below : (x - start) % ((2 * half : ℕ) : ℤ) < (2 * half : ℕ) := Int.emod_lt_of_pos _ (by omega)
  rw [ahead, Int.bmod_def] at notBehind
  split_ifs at notBehind with near
  · rw [offset]
    omega
  · omega

/-- The wrapped differences order values only within one half of the circle. -/
theorem half_of_orders {α : Type*} {value : α → ℤ} {xs : List α} (some : 0 < half)
    (orders : Orders (fun x y => ahead half (value x) (value y)) xs) :
    ∃ start, ∀ x ∈ xs, offset half start (value x) < half := by
  by_cases empty : xs = []
  · exact ⟨0, fun x inside => by rw [empty] at inside; cases inside⟩
  · obtain ⟨last, -, least⟩ := exists_last orders empty
    exact ⟨value last, fun x inside => offset_of_ahead some (least x inside)⟩

end Circle

end Orchestrator.SerialOrder
