import Mathlib.Data.List.Basic
import Mathlib.Data.List.Induction

/-!
One pass over a list that keeps a single element. Each next one takes the place
of the kept one or is passed over; what is kept in the end was taken at some point
and nothing behind it has replaced it.
-/

namespace Orchestrator.OnePass

variable {α : Type*} (replaces : Option α → α → Prop) [∀ kept next, Decidable (replaces kept next)]

def take (kept : Option α) (next : α) : Option α := if replaces kept next then some next else kept

def keep (kept : Option α) (list : List α) : Option α := list.foldl (take replaces) kept

theorem keep_cons (kept : Option α) (next : α) (rest : List α) :
    keep replaces kept (next :: rest) = keep replaces (take replaces kept next) rest := rfl

theorem keep_append (kept : Option α) (first second : List α) :
    keep replaces kept (first ++ second) = keep replaces (keep replaces kept first) second := by
  simp [keep]

/-- At an element of the list: what was kept before it, the element itself, the rest. -/
theorem keep_at (kept : Option α) (before after : List α) (next : α) :
    keep replaces kept (before ++ next :: after) =
      keep replaces (take replaces (keep replaces kept before) next) after := by
  rw [keep_append, keep_cons]

variable {replaces}

theorem keep_stays {kept : Option α} {list : List α}
    (none : ∀ next ∈ list, ¬ replaces kept next) : keep replaces kept list = kept := by
  induction list with
  | nil => rfl
  | cons next rest ih =>
      rw [keep_cons, take, if_neg (none next List.mem_cons_self)]
      exact ih fun other inside => none other (List.mem_cons_of_mem next inside)

/-- What every turn preserves, at the place it has in the list, holds of what is kept
in the end, and of all of the list. -/
theorem keep_along (holds : List α → Option α → Prop) {kept : Option α} {list : List α}
    (start : holds [] kept)
    (turn : ∀ seen next after, list = seen ++ next :: after → holds seen (keep replaces kept seen) →
      holds (seen ++ [next]) (take replaces (keep replaces kept seen) next)) :
    holds list (keep replaces kept list) := by
  induction list using List.reverseRecOn with
  | nil => exact start
  | append_singleton before next ih =>
      rw [keep_at]
      refine turn before next [] rfl (ih fun seen other after split => ?_)
      exact turn seen other (after ++ [next]) (by rw [split]; simp)

/-- What every turn preserves, wherever it stands. -/
theorem keep_rule (holds : List α → Option α → Prop) {kept : Option α} {list : List α}
    (start : holds [] kept)
    (turn : ∀ seen kept next, next ∈ list → holds seen kept →
      holds (seen ++ [next]) (take replaces kept next)) :
    holds list (keep replaces kept list) :=
  keep_along holds start fun seen next after split =>
    turn seen _ next (by rw [split]; simp)

theorem keep_some (list : List α) (found : α) :
    ∃ last, keep replaces (some found) list = some last := by
  have some : (keep replaces (some found) list).isSome :=
    keep_rule (fun _ kept => kept.isSome) rfl fun _ kept next _ some => by
      obtain ⟨found, rfl⟩ := Option.isSome_iff_exists.mp some
      rw [take]
      split_ifs <;> rfl
  exact Option.isSome_iff_exists.mp some

variable (replaces) in
/-- Once an element would be taken from any state without one, something is kept. -/
theorem keep_takes {list : List α} {next : α} (inside : next ∈ list)
    (taken : replaces none next) : ∃ last, keep replaces none list = some last := by
  obtain ⟨before, after, rfl⟩ := List.append_of_mem inside
  rw [keep_at]
  cases kept : keep replaces none before with
  | none =>
      rw [take, if_pos taken]
      exact keep_some after next
  | some found =>
      rw [take]
      split_ifs
      · exact keep_some after next
      · exact keep_some after found

/-- What is kept was there at the start, or was taken where it stands; nothing
after that replaces it. -/
theorem keep_ends {kept : Option α} {list : List α} {found : α}
    (last : keep replaces kept list = some found) :
    (kept = some found ∧ ∀ next ∈ list, ¬ replaces (some found) next) ∨
      ∃ before after, list = before ++ found :: after ∧
        replaces (keep replaces kept before) found ∧
        ∀ next ∈ after, ¬ replaces (some found) next := by
  induction list generalizing kept with
  | nil => exact Or.inl ⟨last, fun _ none => by cases none⟩
  | cons next rest ih =>
      rw [keep_cons] at last
      by_cases taken : replaces kept next
      · rw [take, if_pos taken] at last
        rcases ih last with ⟨same, stays⟩ | ⟨before, after, split, later, stays⟩
        · cases same
          exact Or.inr ⟨[], rest, rfl, taken, stays⟩
        · refine Or.inr ⟨next :: before, after, by rw [split, List.cons_append], ?_, stays⟩
          rw [keep_cons, take, if_pos taken]
          exact later
      · rw [take, if_neg taken] at last
        rcases ih last with ⟨same, stays⟩ | ⟨before, after, split, later, stays⟩
        · refine Or.inl ⟨same, fun other inside => ?_⟩
          rcases List.mem_cons.mp inside with this | behind
          · rw [this, ← same]
            exact taken
          · exact stays other behind
        · refine Or.inr ⟨next :: before, after, by rw [split, List.cons_append], ?_, stays⟩
          rw [keep_cons, take, if_neg taken]
          exact later

/-- From the start without an element only the second case is left. -/
theorem keep_found {list : List α} {found : α} (last : keep replaces none list = some found) :
    ∃ before after, list = before ++ found :: after ∧
      replaces (keep replaces none before) found ∧ ∀ next ∈ after, ¬ replaces (some found) next := by
  rcases keep_ends last with ⟨start, -⟩ | found
  · cases start
  · exact found

/-- A fold that carries values of the kept element is a pass. -/
theorem foldl_keep {β : Type*} (view : Option α → β) (step : β → α → β)
    (steps : ∀ kept next, step (view kept) next = view (take replaces kept next))
    (kept : Option α) (list : List α) :
    list.foldl step (view kept) = view (keep replaces kept list) := by
  induction list generalizing kept with
  | nil => rfl
  | cons next rest ih => rw [List.foldl_cons, steps, ih, keep_cons]

end Orchestrator.OnePass
