import Mathlib.Logic.Relation

/-!
A mailbox of one slot. The producer fills an empty slot only; the consumer reads
the slot first and clears it in a step of its own. Whatever order the steps come
in, the events taken, waiting and held are those produced, in their order.
-/

namespace Orchestrator.Mailbox

variable {α : Type*}

/-- `taking` is set between the consumer's read of the slot and its clearing. -/
structure State (α : Type*) where
  produced : List α := []
  held : Option α := none
  slot : Option α := none
  taking : Bool := false
  consumed : List α := []

inductive Step : State α → State α → Prop where
  | produce (state : State α) (event : α) (free : state.held = none) :
      Step state { state with produced := state.produced ++ [event], held := some event }
  | put (state : State α) (event : α) (holds : state.held = some event)
      (empty : state.slot = none) :
      Step state { state with held := none, slot := some event }
  | take (state : State α) (event : α) (full : state.slot = some event)
      (idle : state.taking = false) :
      Step state { state with taking := true, consumed := state.consumed ++ [event] }
  | clear (state : State α) (busy : state.taking = true) :
      Step state { state with slot := none, taking := false }

/-- The event in the slot that is not taken yet. -/
def waiting (state : State α) : List α := if state.taking then [] else state.slot.toList

/-- Nothing is lost, invented or out of order, and what is being taken is still
in the slot. -/
structure Accounted (state : State α) : Prop where
  events : state.consumed ++ waiting state ++ state.held.toList = state.produced
  slot : state.taking = true → state.slot.isSome

theorem accounted_empty : Accounted ({} : State α) := by
  constructor
  · rfl
  · intro taking
    cases taking

theorem step_accounted {before after : State α} (step : Step before after)
    (accounted : Accounted before) : Accounted after := by
  obtain ⟨events, slot⟩ := accounted
  cases step with
  | produce event free =>
      constructor
      · rw [← events]
        simp [waiting, free]
      · exact slot
  | put event holds empty =>
      -- a slot that is being taken is not empty
      have idle : before.taking = false := by
        cases busy : before.taking with
        | false => rfl
        | true =>
            have full := slot busy
            rw [empty] at full
            cases full
      constructor
      · simpa [waiting, idle, holds, empty] using events
      · intro _
        rfl
  | take event full idle =>
      constructor
      · simpa [waiting, idle, full] using events
      · intro _
        exact full ▸ rfl
  | clear busy =>
      constructor
      · simpa [waiting, busy] using events
      · intro taking
        cases taking

/-- A system whose steps are steps of the mailbox or leave it alone keeps the
account of what its states stand for. `Good` may use what is known of the system. -/
theorem simulated_accounted {σ : Type*} {next : σ → σ → Prop} {view : σ → State α}
    {Good : σ → Prop} (keeps : ∀ before after, Good before → next before after → Good after)
    (simulates : ∀ before after, Good before → next before after →
      view after = view before ∨ Step (view before) (view after))
    {start final : σ} (good : Good start) (accounted : Accounted (view start))
    (run : Relation.ReflTransGen next start final) :
    Good final ∧ Accounted (view final) := by
  induction run with
  | refl => exact ⟨good, accounted⟩
  | tail _ step ih =>
      obtain ⟨reached, kept⟩ := ih
      constructor
      · exact keeps _ _ reached step
      · rcases simulates _ _ reached step with same | moved
        · rw [same]
          exact kept
        · exact step_accounted moved kept

end Orchestrator.Mailbox
