import Mathlib.Data.Finset.Card

/-!
Sets that are narrowed to what their parts use. Parts that are empty say nothing
and leave the whole as it is.
-/

namespace Orchestrator.Narrowing

section Sets
variable {α : Type} [DecidableEq α] {whole parts part bound : Finset α} {sets : List (Finset α)}

def narrowed (whole parts : Finset α) : Finset α :=
  if parts = ∅ then whole else parts ∩ whole

def union (sets : List (Finset α)) : Finset α := sets.foldr (· ∪ ·) ∅

theorem subset_union (member : part ∈ sets) : part ⊆ union sets := by
  induction sets with
  | nil => cases member
  | cons first rest ih =>
      rcases List.mem_cons.mp member with rfl | later
      · exact Finset.subset_union_left
      · exact (ih later).trans Finset.subset_union_right

theorem union_subset (all : ∀ set ∈ sets, set ⊆ bound) : union sets ⊆ bound := by
  induction sets with
  | nil => exact Finset.empty_subset bound
  | cons first rest ih =>
      apply Finset.union_subset (all first List.mem_cons_self)
      exact ih fun set member => all set (List.mem_cons_of_mem first member)

theorem union_append (left right : List (Finset α)) :
    union (left ++ right) = union left ∪ union right := by
  induction left with
  | nil => exact (Finset.empty_union _).symm
  | cons first rest ih =>
      change first ∪ union (rest ++ right) = (first ∪ union rest) ∪ union right
      rw [ih, Finset.union_assoc]

theorem narrowed_subset : narrowed whole parts ⊆ whole := by
  rw [narrowed]
  split
  · exact Finset.Subset.refl whole
  · exact Finset.inter_subset_right

/-- A part inside of the whole stays inside. -/
theorem subset_narrowed (inside : part ⊆ whole) (used : part ⊆ parts) :
    part ⊆ narrowed whole parts := by
  rw [narrowed]
  split
  · exact inside
  · exact Finset.subset_inter used inside

/-- Parts that cover the whole leave it. -/
theorem narrowed_covered (covers : whole ⊆ parts) : narrowed whole parts = whole :=
  Finset.Subset.antisymm narrowed_subset (subset_narrowed (Finset.Subset.refl whole) covers)

theorem narrowed_nonempty (some : whole.Nonempty) (inside : parts ⊆ whole) :
    (narrowed whole parts).Nonempty := by
  rw [narrowed]
  split
  · exact some
  · rename_i used
    rw [Finset.inter_eq_left.mpr inside]
    exact Finset.nonempty_iff_ne_empty.mpr used

end Sets

end Orchestrator.Narrowing
