import Mathlib.Data.List.Basic

/-!
Elements that move between owners. An element points to its owner and the owners
list their elements; its trail has the owners it was given, newest first. Owners
never take an element off their lists.
-/

namespace Orchestrator.OwnerTrail

section Trails
variable {β : Type} {inside : β → Prop} {owner : Option β} {trail : List (Option β)}

/-- Pointer and lists of an element are those its trail leaves. -/
structure Follows (inside : β → Prop) (owner : Option β) (trail : List (Option β)) : Prop where
  last : trail.head? = some owner
  listed : ∀ i, inside i ↔ some i ∈ trail

/-- An owner the element was given once is the owner at the end. -/
def Settled (trail : List (Option β)) : Prop :=
  ∀ i, some i ∈ trail → trail.head? = some (some i)

/-- The links of an element are mutual if and only if it settled. -/
theorem Follows.linked_iff (follows : Follows inside owner trail) :
    (∀ i, inside i ↔ owner = some i) ↔ Settled trail := by
  constructor
  · intro linked i member
    rw [follows.last, (linked i).mp ((follows.listed i).mpr member)]
  · intro settled i
    constructor
    · intro listed
      have last := settled i ((follows.listed i).mp listed)
      rw [follows.last] at last
      exact Option.some.inj last
    · intro same
      apply (follows.listed i).mpr
      exact List.mem_of_head? (follows.last.trans (congrArg some same))

theorem follows_linked (linked : ∀ i, inside i ↔ owner = some i) : Follows inside owner [owner] where
  last := rfl
  listed := fun i => by
    rw [linked i, List.mem_singleton]
    exact eq_comm

/-- The element gets another owner, if any. -/
theorem Follows.move {later : β → Prop} {next : Option β} (follows : Follows inside owner trail)
    (pushed : ∀ i, later i ↔ inside i ∨ next = some i) : Follows later next (next :: trail) where
  last := rfl
  listed := fun i => by
    rw [pushed i, follows.listed i, List.mem_cons]
    constructor
    · rintro (old | same)
      · exact Or.inr old
      · exact Or.inl same.symm
    · rintro (same | old)
      · exact Or.inr same.symm
      · exact Or.inl old

/-- The element gets the owner it has. -/
theorem Follows.stay {later : β → Prop} {next : Option β} (follows : Follows inside owner trail)
    (same : owner = next) (pushed : ∀ i, later i ↔ inside i ∨ next = some i) :
    Follows later next trail where
  last := by rw [follows.last, same]
  listed := fun i => by
    rw [pushed i, follows.listed i]
    constructor
    · rintro (old | again)
      · exact old
      · exact List.mem_of_head? (by rw [follows.last, same, again])
    · exact Or.inl

theorem Follows.congr {later : β → Prop} (follows : Follows inside owner trail)
    (same : ∀ i, later i ↔ inside i) : Follows later owner trail where
  last := follows.last
  listed := fun i => (same i).trans (follows.listed i)

theorem settled_single (owner : Option β) : Settled [owner] := by
  intro i member
  rw [List.head?_cons, List.mem_singleton.mp member]

/-- What is given twice in a row counts once. -/
theorem settled_again (next : Option β) : Settled (next :: next :: trail) ↔ Settled (next :: trail) := by
  simp [Settled]

end Trails

end Orchestrator.OwnerTrail
