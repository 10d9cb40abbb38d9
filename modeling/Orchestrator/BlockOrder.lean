import Mathlib.Data.List.Perm.Basic

/-!
Two orders of a list that agree on some fixed elements. Between two of these the
others may stand in any order; a fold whose step commutes for the others does not
tell the two apart.
-/

namespace Orchestrator.BlockOrder

variable {α β : Type*}

/-- The same fixed elements in the same order, and the same others between them. -/
inductive SameBlocks (fixed : α → Prop) : List α → List α → Prop where
  | last {left right : List α} (order : left.Perm right) (free : ∀ a ∈ left, ¬ fixed a) :
      SameBlocks fixed left right
  | next {left right rest other : List α} {a : α} (order : left.Perm right)
      (free : ∀ a ∈ left, ¬ fixed a) (stays : fixed a) (tail : SameBlocks fixed rest other) :
      SameBlocks fixed (left ++ a :: rest) (right ++ a :: other)

variable {fixed : α → Prop} {left right : List α}

theorem same_blocks_perm (blocks : SameBlocks fixed left right) : left.Perm right := by
  induction blocks with
  | last order _ => exact order
  | next order _ _ _ ih => exact order.append (ih.cons _)

/-- Without a fixed element the blocks are one, and any order is the same. -/
theorem same_blocks_free (order : left.Perm right) (free : ∀ a ∈ left, ¬ fixed a) :
    SameBlocks fixed left right := .last order free

theorem foldl_same_blocks {step : β → α → β}
    (commutes : ∀ b x y, ¬ fixed x → ¬ fixed y → step (step b x) y = step (step b y) x)
    (blocks : SameBlocks fixed left right) (start : β) :
    left.foldl step start = right.foldl step start := by
  have block : ∀ {first second : List α}, first.Perm second → (∀ a ∈ first, ¬ fixed a) →
      ∀ start, first.foldl step start = second.foldl step start := fun order free start =>
    order.foldl_eq' (fun x inFirst y inSecond b => commutes b x y (free x inFirst) (free y inSecond))
      start
  induction blocks generalizing start with
  | last order free => exact block order free start
  | next order free _ _ ih =>
      rw [List.foldl_append, List.foldl_append, block order free start, List.foldl_cons,
        List.foldl_cons, ih]

end Orchestrator.BlockOrder
