import Mathlib.Data.List.Nodup
import Mathlib.Logic.ExistsUnique
import Mathlib.Logic.Function.Basic

/-!
Objects that several holders refer to. A reference owns its object or shares one
that another holder owns, so that each object can be disposed of exactly once.
-/

namespace Orchestrator.Ownership

/-- Reference to an object. -/
structure Ref (α : Type) where
  object : α
  shared : Bool

section Holders
variable {ι α : Type}

/-- Every object that is referred to has exactly one owner. Without an entry the
holder does not exist. -/
def SingleOwner (refs : ι → Option (Ref α)) : Prop :=
  ∀ holder ref, refs holder = some ref → ∃! owner, refs owner = some ⟨ref.object, false⟩

/-- A reference that a holder may get: it shares an object that has an owner, or
owns one no holder refers to. -/
def Allowed (refs : ι → Option (Ref α)) (ref : Ref α) : Prop :=
  if ref.shared then ∃ holder other, refs holder = some other ∧ other.object = ref.object
  else ∀ holder other, refs holder = some other → other.object ≠ ref.object

/-- The objects that are freed when these holders dispose of what they own. -/
def disposed (refs : ι → Option (Ref α)) (holders : List ι) : List α :=
  holders.filterMap fun holder =>
    (refs holder).bind fun ref => if ref.shared then none else some ref.object

/-- Each object is disposed of once, when every holder disposes of its own. -/
theorem SingleOwner.count_disposed [DecidableEq α] {refs : ι → Option (Ref α)} {holders : List ι}
    (single : SingleOwner refs) (nodup : holders.Nodup)
    (all : ∀ holder ref, refs holder = some ref → holder ∈ holders) {holder : ι} {ref : Ref α}
    (refers : refs holder = some ref) : (disposed refs holders).count ref.object = 1 := by
  have owns : ∀ user object, object ∈ ((refs user).bind fun ref =>
      if ref.shared then none else some ref.object) → refs user = some ⟨object, false⟩ := by
    intro user object frees
    obtain ⟨⟨own, shared⟩, found, frees⟩ := Option.bind_eq_some_iff.mp frees
    cases shared with
    | true => cases frees
    | false =>
        cases frees
        exact found
  apply List.count_eq_one_of_mem
  · apply nodup.filterMap
    intro left right object one two
    exact (single left _ (owns left object one)).unique (owns left object one)
      (owns right object two)
  · obtain ⟨owner, found, _⟩ := single holder ref refers
    rw [disposed, List.mem_filterMap]
    exact ⟨owner, all owner _ found, by rw [found]; rfl⟩

/-- Holders that share nothing, each with an object of its own. -/
theorem single_owner_of_user {refs : ι → Option (Ref α)} (user : α → ι)
    (own : ∀ holder ref, refs holder = some ref → ref.shared = false ∧ holder = user ref.object) :
    SingleOwner refs := by
  intro holder ref found
  refine ⟨holder, ?_, fun other same => ?_⟩
  · obtain ⟨object, shared⟩ := ref
    cases (own holder _ found).1
    exact found
  · rw [(own other _ same).2, (own holder ref found).2]

variable [DecidableEq ι] {refs : ι → Option (Ref α)}

/-- A new holder, or one that shared its object, gets another reference. -/
theorem SingleOwner.write (single : SingleOwner refs) {holder : ι} {ref : Ref α}
    (free : ∀ object, refs holder ≠ some ⟨object, false⟩) (allowed : Allowed refs ref) :
    SingleOwner (Function.update refs holder (some ref)) := by
  have others : ∀ owner, owner ≠ holder → Function.update refs holder (some ref) owner = refs owner :=
    fun owner other => Function.update_of_ne other _ _
  obtain ⟨object, shared⟩ := ref
  cases shared with
  | true =>
      -- the owners are the same as before
      have same : ∀ owner x, Function.update refs holder (some ⟨object, true⟩) owner =
          some ⟨x, false⟩ ↔ refs owner = some ⟨x, false⟩ := by
        intro owner x
        by_cases this : owner = holder
        · subst this
          simp [free x]
        · rw [others owner this]
      obtain ⟨source, other, refers, objects⟩ := allowed
      intro user used found
      simp only [same]
      by_cases this : user = holder
      · subst this
        rw [Function.update_self] at found
        cases found
        rw [← objects]
        exact single source other refers
      · rw [others user this] at found
        exact single user used found
  | false =>
      intro user used found
      by_cases own : used.object = object
      · refine ⟨holder, by simp [own], fun owner owns => ?_⟩
        by_contra this
        dsimp only at owns
        rw [others owner this] at owns
        exact allowed owner _ owns own
      · have this : user ≠ holder := by
          rintro rfl
          rw [Function.update_self] at found
          cases found
          exact own rfl
        rw [others user this] at found
        obtain ⟨owner, owns, unique⟩ := single user used found
        have apart : owner ≠ holder := by
          rintro rfl
          exact free _ owns
        refine ⟨owner, (others owner apart).trans owns, fun other owns' => ?_⟩
        dsimp only at owns'
        by_cases last : other = holder
        · subst last
          rw [Function.update_self] at owns'
          cases owns'
          exact absurd rfl own
        · rw [others other last] at owns'
          exact unique other owns'

end Holders

end Orchestrator.Ownership
