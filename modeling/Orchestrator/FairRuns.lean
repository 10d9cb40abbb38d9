import Mathlib.Order.Basic
import Mathlib.Order.Lattice

/-!
Endless runs of parties that take their turns in any order. What steps keep holds from
then on, and what the turns of a fair party wear down comes to its end.
-/

namespace Orchestrator.FairRuns

section Runs
variable {State Act Party : Type} (step : State → Act → State)

/-- The state at each time. -/
def states (start : State) (schedule : Nat → Act) : Nat → State
  | 0 => start
  | time + 1 => step (states start schedule time) (schedule time)

/-- The party always has another turn. -/
def Fair (party : Act → Option Party) (schedule : Nat → Act) (who : Party) : Prop :=
  ∀ time, ∃ later, time ≤ later ∧ party (schedule later) = some who

variable {step} {start : State} {schedule : Nat → Act}

theorem always {inv : State → Prop} (first : inv start)
    (next : ∀ state act, inv state → inv (step state act)) (time : Nat) :
    inv (states step start schedule time) := by
  induction time with
  | zero => exact first
  | succ time ih => exact next _ _ ih

end Runs

section Rules
variable {State : Type} {run : Nat → State}

theorem holds_from {inv : State → Prop} {begin : Nat}
    (next : ∀ time, begin ≤ time → inv (run time) → inv (run (time + 1)))
    (here : inv (run begin)) {time : Nat} (later : begin ≤ time) : inv (run time) := by
  induction time, later using Nat.le_induction with
  | base => exact here
  | succ time later ih => exact next time later ih

/-- What came about came about at some step. -/
theorem first_step {goal : State → Prop} (absent : ¬ goal (run 0)) {time : Nat}
    (there : goal (run time)) : ∃ before, ¬ goal (run before) ∧ goal (run (before + 1)) := by
  induction time with
  | zero => exact absurd there absent
  | succ time ih =>
      by_cases before : goal (run time)
      · exact ih before
      · exact ⟨time, before, there⟩

/-- Each turn lowers the rank, and nothing raises it: the goal is reached. -/
theorem reaches {turn : Nat → Prop} (fair : ∀ time, ∃ later, time ≤ later ∧ turn later)
    {inv goal : State → Prop} (rank : State → Nat) {begin : Nat}
    (next : ∀ time, begin ≤ time → inv (run time) → ¬ goal (run time) →
      goal (run (time + 1)) ∨ inv (run (time + 1)) ∧ rank (run (time + 1)) ≤ rank (run time) ∧
        (turn time → rank (run (time + 1)) < rank (run time)))
    (here : inv (run begin)) : ∃ time, begin ≤ time ∧ goal (run time) := by
  by_contra missed
  have missed' : ∀ time, begin ≤ time → ¬ goal (run time) := fun time later there =>
    missed ⟨time, later, there⟩
  have onward : ∀ time, begin ≤ time → inv (run time) →
      inv (run (time + 1)) ∧ rank (run (time + 1)) ≤ rank (run time) ∧
        (turn time → rank (run (time + 1)) < rank (run time)) := by
    intro time later kept
    rcases next time later kept (missed' time later) with there | rest
    · exact absurd there (missed' (time + 1) (by omega))
    · exact rest
  have kept : ∀ time, begin ≤ time → inv (run time) := fun time later =>
    holds_from (fun time later kept => (onward time later kept).1) here later
  have level : ∀ {time later}, begin ≤ time → time ≤ later →
      rank (run later) ≤ rank (run time) := by
    intro time later late after
    induction later, after using Nat.le_induction with
    | base => exact Nat.le_refl _
    | succ later after ih =>
        have between : begin ≤ later := Nat.le_trans late after
        exact Nat.le_trans (onward later between (kept later between)).2.1 ih
  have worn : ∀ turns, ∃ time, begin ≤ time ∧ rank (run time) + turns ≤ rank (run begin) := by
    intro turns
    induction turns with
    | zero => exact ⟨begin, Nat.le_refl _, Nat.le_refl _⟩
    | succ turns ih =>
        obtain ⟨time, late, low⟩ := ih
        obtain ⟨later, after, taken⟩ := fair time
        have between : begin ≤ later := Nat.le_trans late after
        have lower := (onward later between (kept later between)).2.2 taken
        have same := level late after
        exact ⟨later + 1, by omega, by omega⟩
  obtain ⟨time, -, low⟩ := worn (rank (run begin) + 1)
  omega

end Rules

end Orchestrator.FairRuns
