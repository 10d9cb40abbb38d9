import Mathlib.Data.List.Basic
import Mathlib.Data.Int.Basic
import Mathlib.Tactic.Common

/-!
Walks in a list that is being merged. The elements of a scan are put into a list
in descending order, while the head may still be the old one: it is set anew only
when an element is removed, and when the old list is through. An element that is
put in walks from the head and flags what is of its group.
-/

namespace Orchestrator.HeadWalk

section Pids
variable (trackpids : Bool) (old scan : List Int)

/-- The old PID is in the list after the scan; it may be deactivated there. -/
def Stays (pid : Int) : Prop := if trackpids then -pid ∉ scan else pid ∈ scan

def Arrives (pid : Int) : Prop := pid ∈ scan ∧ pid ∉ old

/-- The head is still behind the new PID: all that was before it is removed, and
was so before a new one came. -/
def Behind (pid : Int) : Prop :=
  ∀ other ∈ old, pid ≤ other.natAbs →
    ¬ Stays trackpids scan other ∧ ∀ new, Arrives old scan new → new ≤ other.natAbs

/-- What a new PID meets on its walk. -/
inductive Meets (walker : Int) : Int → Prop where
  /-- An old one before it that stays. -/
  | passed {other : Int} : other ∈ old → Stays trackpids scan other → walker < other.natAbs →
      Meets walker other
  /-- An old one behind it, if the head is there, too. -/
  | ahead {other : Int} : other ∈ old → (other.natAbs : Int) < walker →
      Behind trackpids old scan walker → Meets walker other
  /-- A new one before it, but those that came before the head did, unless a
  removal in between set the head anew. -/
  | between {new : Int} : Arrives old scan new → walker < new →
      (Behind trackpids old scan new → ∃ other ∈ old, walker ≤ other.natAbs ∧
        (other.natAbs : Int) < new ∧ ¬ Stays trackpids scan other) → Meets walker new
  /-- Any new one before it, if the old list is through and did not leave the list empty. -/
  | ended {new : Int} : Arrives old scan new → walker < new →
      (∀ other ∈ old, walker ≤ other.natAbs) →
      (∃ other ∈ old, Stays trackpids scan other ∨
        ∃ first, Arrives old scan first ∧ (other.natAbs : Int) ≤ first) → Meets walker new

/-- The PID walks, and meets the other one. -/
def Walks (walker other : Int) : Prop :=
  Arrives old scan walker ∧ Meets trackpids old scan walker other

variable {trackpids old scan}

/-- A PID that comes in the place of an old one takes it out of the list. -/
theorem stays_apart (positive : ∀ pid ∈ scan, 0 < pid) {new other : Int}
    (arrives : Arrives old scan new) (member : other ∈ old) (stays : Stays trackpids scan other) :
    (other.natAbs : Int) ≠ new := by
  intro same
  have apart : other ≠ new := fun equal => arrives.2 (equal ▸ member)
  have negated : -other = new := by omega
  have above := positive new arrives.1
  rw [Stays] at stays
  split_ifs at stays
  · exact stays (negated ▸ arrives.1)
  · have := positive other stays
    omega

end Pids

variable {γ : Type}

/-- An element as its group sees it. -/
structure Member (γ : Type) where
  pid : Int
  group : Option γ
  flagged : Bool
  deriving DecidableEq

def Shares (first second : Member γ) : Prop := first.group ≠ none ∧ first.group = second.group

theorem shares_symm {first second : Member γ} (shares : Shares first second) :
    Shares second first :=
  ⟨shares.2 ▸ shares.1, shares.2.symm⟩

abbrev pids (members : List (Member γ)) : List Int := members.map Member.pid

theorem pid_mem {members : List (Member γ)} {member : Member γ} (inside : member ∈ members) :
    member.pid ∈ pids members := List.mem_map_of_mem inside

/-- Flagged before, or with one of its group on a walk. -/
def Marked (trackpids : Bool) (old scan : List Int) (present : List (Member γ))
    (member : Member γ) : Prop :=
  member.flagged = true ∨ ∃ other ∈ present, Shares member other ∧
    (Walks trackpids old scan member.pid other.pid ∨
      Walks trackpids old scan other.pid member.pid)

/-- The lists during a merge: before the head and from there to the tail, behind
the tail; the old elements that were passed or removed, and the new ones. -/
structure Splice (γ : Type) where
  hidden : List (Member γ)
  shown : List (Member γ)
  behind : List (Member γ)
  done : List (Member γ)
  arrived : List (Member γ)

namespace Splice

/-- What a walk from the head meets. -/
def visible (splice : Splice γ) : List (Member γ) :=
  if splice.shown.isEmpty then splice.behind else splice.shown

def pass (splice : Splice γ) (member : Member γ) (rest : List (Member γ)) : Splice γ :=
  { splice with
    shown := splice.shown ++ [member]
    behind := rest
    done := splice.done ++ [member] }

/-- The head is set anew. -/
def remove (splice : Splice γ) (member : Member γ) (rest : List (Member γ)) : Splice γ :=
  { splice with
    hidden := []
    shown := splice.hidden ++ splice.shown
    behind := rest
    done := splice.done ++ [member] }

def arrive (splice : Splice γ) (member : Member γ) : Splice γ :=
  if splice.shown.isEmpty then
    { splice with
      hidden := splice.hidden ++ [member]
      arrived := splice.arrived ++ [member] }
  else
    { splice with
      shown := splice.shown ++ [member]
      arrived := splice.arrived ++ [member] }

/-- The old list is through, the head is set anew. -/
def finish (splice : Splice γ) : Splice γ :=
  { splice with
    hidden := []
    shown := splice.hidden ++ splice.shown }

section Head
variable {splice : Splice γ}

theorem visible_none (none : splice.shown = []) : splice.visible = splice.behind :=
  if_pos (List.isEmpty_iff.mpr none)

theorem visible_some (some : splice.shown ≠ []) : splice.visible = splice.shown :=
  if_neg (List.isEmpty_iff.not.mpr some)

theorem arrive_none (none : splice.shown = []) (member : Member γ) :
    splice.arrive member = { splice with
      hidden := splice.hidden ++ [member]
      arrived := splice.arrived ++ [member] } :=
  if_pos (List.isEmpty_iff.mpr none)

theorem arrive_some (some : splice.shown ≠ []) (member : Member γ) :
    splice.arrive member = { splice with
      shown := splice.shown ++ [member]
      arrived := splice.arrived ++ [member] } :=
  if_neg (List.isEmpty_iff.not.mpr some)

theorem arrive_arrived (splice : Splice γ) (member : Member γ) :
    (splice.arrive member).arrived = splice.arrived ++ [member] := by
  rw [arrive]
  split_ifs <;> rfl

theorem arrive_done (splice : Splice γ) (member : Member γ) :
    (splice.arrive member).done = splice.done := by
  rw [arrive]
  split_ifs <;> rfl

theorem arrive_front (splice : Splice γ) (member : Member γ) :
    (splice.arrive member).hidden ++ (splice.arrive member).shown =
      splice.hidden ++ splice.shown ++ [member] := by
  by_cases empty : splice.shown = []
  · rw [arrive_none empty, empty]
    simp
  · rw [arrive_some empty, List.append_assoc]

theorem arrive_behind (splice : Splice γ) (member : Member γ) :
    (splice.arrive member).behind = splice.behind := by
  rw [arrive]
  split_ifs <;> rfl

theorem visible_mem {member : Member γ} (inside : member ∈ splice.visible) :
    member ∈ splice.shown ++ splice.behind := by
  rw [visible] at inside
  split_ifs at inside
  · exact List.mem_append_right _ inside
  · exact List.mem_append_left _ inside

end Head

end Splice

section Merge
variable (trackpids : Bool) (old : List (Member γ)) (scan : List Int)

/-- A new element that a walk does not meet, as long as the old list lasts. -/
def Hides (done : List (Member γ)) (pid : Int) : Prop :=
  Behind trackpids (pids old) scan pid ∧
    ∀ other ∈ done, (other.pid.natAbs : Int) < pid → Stays trackpids scan other.pid

/-- The new PIDs in turn. -/
structure Upcoming (lnew : List Int) (splice : Splice γ) : Prop where
  positive : ∀ pid ∈ scan, 0 < pid
  part : ∀ pid ∈ lnew, pid ∈ scan
  sorted : lnew.Pairwise fun first second => second < first
  order : ∀ pid ∈ scan, pid ∉ lnew → ∀ next ∈ lnew, next < pid
  arrived : ∀ pid, pid ∈ pids splice.arrived ↔ Arrives (pids old) scan pid ∧ pid ∉ lnew
  above : ∀ other ∈ splice.done, ∀ next ∈ lnew, next ≤ other.pid.natAbs

/-- Where the elements are as long as the old list lasts. -/
structure Placed (lnew : List Int) (splice : Splice γ) : Prop
    extends Upcoming old scan lnew splice where
  all : old = splice.done ++ splice.behind
  below : ∀ pid ∈ scan, pid ∉ lnew → ∀ other ∈ splice.behind, (other.pid.natAbs : Int) < pid
  under : ∀ member ∈ splice.arrived, ∃ other ∈ old, (other.pid.natAbs : Int) ≤ member.pid
  hidden : ∀ member, member ∈ splice.hidden ↔
    member ∈ splice.arrived ∧ Hides trackpids old scan splice.done member.pid
  shown : ∀ member, member ∈ splice.shown ↔
    (member ∈ splice.done ∧ Stays trackpids scan member.pid) ∨
      (member ∈ splice.arrived ∧ ¬ Hides trackpids old scan splice.done member.pid)
  head : splice.shown = [] ↔ ∀ other ∈ splice.done, ¬ Stays trackpids scan other.pid ∧
    ∀ member ∈ splice.arrived, member.pid ≤ other.pid.natAbs

/-- The old list is through and did not leave the list empty. -/
def Filled : Prop :=
  ∃ other ∈ old, Stays trackpids scan other.pid ∨
    ∃ first, Arrives (pids old) scan first ∧ (other.pid.natAbs : Int) ≤ first

/-- Where the elements are once the old list is through. -/
structure Ended (lnew : List Int) (splice : Splice γ) : Prop
    extends Upcoming old scan lnew splice where
  done : splice.done = old
  behind : splice.behind = []
  came : ∀ member ∈ splice.hidden, member ∈ splice.arrived
  held : ∀ member ∈ splice.arrived, member ∈ splice.hidden ++ splice.shown
  filled : Filled trackpids old scan → splice.hidden = [] ∧ splice.shown ≠ [] ∧
    ∀ member, member ∈ splice.shown ↔
      (member ∈ old ∧ Stays trackpids scan member.pid) ∨ member ∈ splice.arrived
  blank : ¬ Filled trackpids old scan → splice.shown = []

end Merge

section Steps
variable {trackpids : Bool} {old : List (Member γ)} {scan lnew later : List Int}
  {splice : Splice γ} {member : Member γ} {rest : List (Member γ)} {pid : Int}

theorem order_tail (upcoming : Upcoming old scan (pid :: later) splice) :
    ∀ other ∈ scan, other ∉ later → ∀ next ∈ later, next < other := by
  intro other inside gone next ahead
  by_cases same : other = pid
  · rw [same]
    exact List.rel_of_pairwise_cons upcoming.sorted ahead
  · exact upcoming.order other inside (List.not_mem_cons_of_ne_of_not_mem same gone) next
      (List.mem_cons_of_mem pid ahead)

theorem upcoming_skip (upcoming : Upcoming old scan (pid :: later) splice)
    (kept : pid ∈ pids old) : Upcoming old scan later splice where
  positive := upcoming.positive
  part := fun next inside => upcoming.part next (List.mem_cons_of_mem pid inside)
  sorted := upcoming.sorted.of_cons
  order := order_tail upcoming
  arrived := by
    intro other
    rw [upcoming.arrived]
    constructor
    · rintro ⟨arrives, gone⟩
      exact ⟨arrives, fun inside => gone (List.mem_cons_of_mem pid inside)⟩
    · rintro ⟨arrives, gone⟩
      exact ⟨arrives, List.not_mem_cons_of_ne_of_not_mem (fun same => arrives.2 (same ▸ kept)) gone⟩
  above := fun other inside next ahead =>
    upcoming.above other inside next (List.mem_cons_of_mem pid ahead)

theorem upcoming_take (upcoming : Upcoming old scan (member.pid :: later) splice)
    (arrives : Arrives (pids old) scan member.pid) {after : Splice γ}
    (done : after.done = splice.done) (arrived : after.arrived = splice.arrived ++ [member]) :
    Upcoming old scan later after where
  positive := upcoming.positive
  part := fun next inside => upcoming.part next (List.mem_cons_of_mem _ inside)
  sorted := upcoming.sorted.of_cons
  order := order_tail upcoming
  arrived := by
    intro other
    have once : member.pid ∉ later := by
      intro again
      exact Int.lt_irrefl _ (List.rel_of_pairwise_cons upcoming.sorted again)
    have before := upcoming.arrived other
    rw [arrived, pids, List.map_append, List.mem_append]
    constructor
    · rintro (inside | same)
      · obtain ⟨new, gone⟩ := before.mp inside
        exact ⟨new, fun again => gone (List.mem_cons_of_mem _ again)⟩
      · rw [List.mem_singleton.mp same]
        exact ⟨arrives, once⟩
    · rintro ⟨new, gone⟩
      by_cases same : other = member.pid
      · exact Or.inr (List.mem_singleton.mpr same)
      · exact Or.inl (before.mpr ⟨new, List.not_mem_cons_of_ne_of_not_mem same gone⟩)
  above := fun other inside next ahead =>
    upcoming.above other (done ▸ inside) next (List.mem_cons_of_mem _ ahead)

theorem upcoming_done (upcoming : Upcoming old scan lnew splice) {after : Splice γ}
    (done : after.done = splice.done ++ [member]) (arrived : after.arrived = splice.arrived)
    (above : ∀ next ∈ lnew, next ≤ member.pid.natAbs) : Upcoming old scan lnew after where
  positive := upcoming.positive
  part := upcoming.part
  sorted := upcoming.sorted
  order := upcoming.order
  arrived := fun other => by rw [arrived, upcoming.arrived]
  above := by
    intro other inside next ahead
    rw [done, List.mem_append, List.mem_singleton] at inside
    rcases inside with before | same
    · exact upcoming.above other before next ahead
    · rw [same]
      exact above next ahead

theorem arrived_arrives (upcoming : Upcoming old scan lnew splice)
    (inside : member ∈ splice.arrived) :
    Arrives (pids old) scan member.pid ∧ member.pid ∉ lnew :=
  (upcoming.arrived member.pid).mp (pid_mem inside)

/-- An element of the scan that is in the list already. -/
theorem placed_skip (placed : Placed trackpids old scan (pid :: later) splice)
    (kept : pid ∈ pids old) (low : ∀ other ∈ splice.behind, (other.pid.natAbs : Int) < pid) :
    Placed trackpids old scan later splice where
  toUpcoming := upcoming_skip placed.toUpcoming kept
  all := placed.all
  below := by
    intro next inside gone other ahead
    by_cases same : next = pid
    · rw [same]
      exact low other ahead
    · exact placed.below next inside (List.not_mem_cons_of_ne_of_not_mem same gone) other ahead
  under := placed.under
  hidden := placed.hidden
  shown := placed.shown
  head := placed.head

theorem hides_pass {done : List (Member γ)} (stays : Stays trackpids scan member.pid) :
    Hides trackpids old scan (done ++ [member]) pid ↔ Hides trackpids old scan done pid := by
  rw [Hides, Hides]
  apply and_congr_right
  intro _
  constructor
  · exact fun all other inside => all other (List.mem_append_left _ inside)
  · intro all other inside less
    rcases List.mem_append.mp inside with before | same
    · exact all other before less
    · rw [List.mem_singleton.mp same]
      exact stays

theorem placed_pass (placed : Placed trackpids old scan lnew splice)
    (behind : splice.behind = member :: rest) (stays : Stays trackpids scan member.pid)
    (above : ∀ next ∈ lnew, next ≤ member.pid.natAbs) :
    Placed trackpids old scan lnew (splice.pass member rest) where
  toUpcoming := upcoming_done placed.toUpcoming rfl rfl above
  all := by
    rw [placed.all, behind]
    simp [Splice.pass]
  below := by
    intro pid inside gone other ahead
    refine placed.below pid inside gone other ?_
    rw [behind]
    exact List.mem_cons_of_mem _ ahead
  under := placed.under
  hidden := by
    intro other
    rw [show (splice.pass member rest).done = splice.done ++ [member] from rfl, hides_pass stays]
    exact placed.hidden other
  shown := by
    intro other
    rw [show (splice.pass member rest).done = splice.done ++ [member] from rfl, hides_pass stays]
    have before := placed.shown other
    simp only [Splice.pass, List.mem_append, List.mem_singleton, before]
    constructor
    · rintro ((passed | new) | same)
      · exact Or.inl ⟨Or.inl passed.1, passed.2⟩
      · exact Or.inr new
      · exact Or.inl ⟨Or.inr same, same ▸ stays⟩
    · rintro (⟨inside | same, stays⟩ | new)
      · exact Or.inl (Or.inl ⟨inside, stays⟩)
      · exact Or.inr same
      · exact Or.inl (Or.inr new)
  head := by
    constructor
    · intro empty
      simp [Splice.pass] at empty
    · intro none
      exact absurd stays (none member (by simp [Splice.pass])).1

theorem placed_remove (placed : Placed trackpids old scan lnew splice)
    (behind : splice.behind = member :: rest) (leaves : ¬ Stays trackpids scan member.pid)
    (above : ∀ next ∈ lnew, next ≤ member.pid.natAbs) :
    Placed trackpids old scan lnew (splice.remove member rest) := by
  -- what came so far is before the element and not hidden any more
  have higher : ∀ new ∈ splice.arrived, (member.pid.natAbs : Int) < new.pid := by
    intro new inside
    obtain ⟨arrives, gone⟩ := arrived_arrives placed.toUpcoming inside
    exact placed.below new.pid arrives.1 gone member (by simp [behind])
  have seen : ∀ new ∈ splice.arrived,
      ¬ Hides trackpids old scan (splice.done ++ [member]) new.pid := fun new inside hides =>
    leaves (hides.2 member (by simp) (higher new inside))
  have front : ∀ other, other ∈ splice.hidden ++ splice.shown ↔
      (other ∈ splice.done ∧ Stays trackpids scan other.pid) ∨ other ∈ splice.arrived := by
    intro other
    rw [List.mem_append, placed.hidden, placed.shown]
    tauto
  refine ⟨upcoming_done placed.toUpcoming rfl rfl above, ?_, ?_, placed.under, ?_, ?_, ?_⟩
  · rw [placed.all, behind]
    simp [Splice.remove]
  · intro pid inside gone other ahead
    refine placed.below pid inside gone other ?_
    rw [behind]
    exact List.mem_cons_of_mem _ ahead
  · intro other
    constructor
    · intro inside
      cases inside
    · rintro ⟨inside, hides⟩
      exact absurd hides (seen other inside)
  · intro other
    rw [show (splice.remove member rest).shown = splice.hidden ++ splice.shown from rfl, front]
    simp only [Splice.remove, List.mem_append, List.mem_singleton]
    constructor
    · rintro (passed | new)
      · exact Or.inl ⟨Or.inl passed.1, passed.2⟩
      · exact Or.inr ⟨new, seen other new⟩
    · rintro (⟨inside | same, stays⟩ | new)
      · exact Or.inl ⟨inside, stays⟩
      · exact absurd (same ▸ stays) leaves
      · exact Or.inr new.1
  · rw [List.eq_nil_iff_forall_not_mem]
    constructor
    · intro empty other inside
      have none : ∀ new ∈ splice.arrived, False := fun new came =>
        empty new ((front new).mpr (Or.inr came))
      refine ⟨fun stays => ?_, fun new came => (none new came).elim⟩
      rcases List.mem_append.mp inside with before | same
      · exact empty other ((front other).mpr (Or.inl ⟨before, stays⟩))
      · exact leaves (List.mem_singleton.mp same ▸ stays)
    · intro removed other inside
      rcases (front other).mp inside with ⟨before, stays⟩ | new
      · exact (removed other (List.mem_append_left _ before)).1 stays
      · have less := (removed member (by simp [Splice.remove])).2 other new
        have := higher other new
        omega

/-- When a new element comes, the head is behind it if there is nothing from the
head to the tail. -/
theorem behind_iff (placed : Placed trackpids old scan (pid :: later) splice)
    (low : ∀ other ∈ splice.behind, (other.pid.natAbs : Int) < pid) :
    splice.shown = [] ↔ Behind trackpids (pids old) scan pid := by
  rw [placed.head]
  constructor
  · intro removed other inside above
    obtain ⟨element, present, rfl⟩ := List.mem_map.mp inside
    rw [placed.all, List.mem_append] at present
    rcases present with passed | ahead
    · refine ⟨(removed element passed).1, fun new comes => ?_⟩
      by_cases later : new ∈ pid :: later
      · rcases List.mem_cons.mp later with same | further
        · rw [same]
          exact above
        · have less : new < pid := List.rel_of_pairwise_cons placed.sorted further
          omega
      · obtain ⟨came, inside, rfl⟩ := List.mem_map.mp ((placed.arrived new).mpr ⟨comes, later⟩)
        exact (removed element passed).2 came inside
    · have := low element ahead
      omega
  · intro behind other inside
    have listed : other ∈ old := by
      rw [placed.all]
      exact List.mem_append_left _ inside
    obtain ⟨leaves, first⟩ := behind other.pid (pid_mem listed)
      (placed.above other inside pid (List.mem_cons_self ..))
    exact ⟨leaves, fun new came => first new.pid (arrived_arrives placed.toUpcoming came).1⟩

theorem arrive_below (placed : Placed trackpids old scan (pid :: later) splice)
    (low : ∀ other ∈ splice.behind, (other.pid.natAbs : Int) < pid) :
    ∀ new ∈ scan, new ∉ later → ∀ other ∈ splice.behind, (other.pid.natAbs : Int) < new := by
  intro new inside gone other ahead
  by_cases same : new = pid
  · rw [same]
    exact low other ahead
  · exact placed.below new inside (List.not_mem_cons_of_ne_of_not_mem same gone) other ahead

theorem arrive_under (placed : Placed trackpids old scan lnew splice)
    (near : ∃ other ∈ old, (other.pid.natAbs : Int) ≤ member.pid) :
    ∀ new ∈ splice.arrived ++ [member], ∃ other ∈ old, (other.pid.natAbs : Int) ≤ new.pid := by
  intro new inside
  rcases List.mem_append.mp inside with before | same
  · exact placed.under new before
  · rw [List.mem_singleton.mp same]
    exact near

/-- A new element before the head. -/
theorem placed_arrive_hidden (placed : Placed trackpids old scan (member.pid :: later) splice)
    (arrives : Arrives (pids old) scan member.pid)
    (low : ∀ other ∈ splice.behind, (other.pid.natAbs : Int) < member.pid)
    (near : ∃ other ∈ old, (other.pid.natAbs : Int) ≤ member.pid) (empty : splice.shown = []) :
    Placed trackpids old scan later { splice with
      hidden := splice.hidden ++ [member]
      arrived := splice.arrived ++ [member] } := by
  have above : ∀ other ∈ splice.done, member.pid ≤ other.pid.natAbs := fun other inside =>
    placed.above other inside member.pid (List.mem_cons_self ..)
  have hides : Hides trackpids old scan splice.done member.pid := by
    refine ⟨(behind_iff placed low).mp empty, fun other inside less => ?_⟩
    have := above other inside
    omega
  have removed := placed.head.mp empty
  have below := arrive_below placed low
  refine ⟨upcoming_take placed.toUpcoming arrives rfl rfl, placed.all, below,
    arrive_under placed near, ?_, ?_, ?_⟩
  · intro other
    have before := placed.hidden other
    simp only [List.mem_append, List.mem_singleton, before]
    constructor
    · rintro (inside | same)
      · exact ⟨Or.inl inside.1, inside.2⟩
      · exact ⟨Or.inr same, same ▸ hides⟩
    · rintro ⟨inside | same, hidden⟩
      · exact Or.inl ⟨inside, hidden⟩
      · exact Or.inr same
  · intro other
    have before := placed.shown other
    simp only [List.mem_append, List.mem_singleton]
    constructor
    · intro inside
      rw [empty] at inside
      cases inside
    · rintro (passed | ⟨inside | same, met⟩)
      · exact before.mpr (Or.inl passed)
      · exact before.mpr (Or.inr ⟨inside, met⟩)
      · exact absurd (same ▸ hides) met
  · refine ⟨fun _ other inside => ⟨(removed other inside).1, fun new came => ?_⟩, fun _ => empty⟩
    rcases List.mem_append.mp came with before | same
    · exact (removed other inside).2 new before
    · rw [List.mem_singleton.mp same]
      exact above other inside

/-- A new element behind the head. -/
theorem placed_arrive_shown (placed : Placed trackpids old scan (member.pid :: later) splice)
    (arrives : Arrives (pids old) scan member.pid)
    (low : ∀ other ∈ splice.behind, (other.pid.natAbs : Int) < member.pid)
    (near : ∃ other ∈ old, (other.pid.natAbs : Int) ≤ member.pid) (some : splice.shown ≠ []) :
    Placed trackpids old scan later { splice with
      shown := splice.shown ++ [member]
      arrived := splice.arrived ++ [member] } := by
  have seen : ¬ Hides trackpids old scan splice.done member.pid := fun hides =>
    some ((behind_iff placed low).mpr hides.1)
  have below := arrive_below placed low
  refine ⟨upcoming_take placed.toUpcoming arrives rfl rfl, placed.all, below,
    arrive_under placed near, ?_, ?_, ?_⟩
  · intro other
    have before := placed.hidden other
    simp only [List.mem_append, List.mem_singleton, before]
    constructor
    · exact fun inside => ⟨Or.inl inside.1, inside.2⟩
    · rintro ⟨inside | same, hidden⟩
      · exact ⟨inside, hidden⟩
      · exact absurd (same ▸ hidden) seen
  · intro other
    simp only [List.mem_append, List.mem_singleton, placed.shown other]
    constructor
    · rintro ((passed | new) | same)
      · exact Or.inl passed
      · exact Or.inr ⟨Or.inl new.1, new.2⟩
      · exact Or.inr ⟨Or.inr same, same ▸ seen⟩
    · rintro (passed | ⟨inside | same, met⟩)
      · exact Or.inl (Or.inl passed)
      · exact Or.inl (Or.inr ⟨inside, met⟩)
      · exact Or.inr same
  · constructor
    · intro none
      simp at none
    · intro removed
      refine absurd (placed.head.mpr fun other inside => ?_) some
      exact ⟨(removed other inside).1, fun new came =>
        (removed other inside).2 new (List.mem_append_left _ came)⟩

theorem placed_arrive (placed : Placed trackpids old scan (member.pid :: later) splice)
    (arrives : Arrives (pids old) scan member.pid)
    (low : ∀ other ∈ splice.behind, (other.pid.natAbs : Int) < member.pid)
    (near : ∃ other ∈ old, (other.pid.natAbs : Int) ≤ member.pid) :
    Placed trackpids old scan later (splice.arrive member) := by
  by_cases empty : splice.shown = []
  · rw [Splice.arrive_none empty]
    exact placed_arrive_hidden placed arrives low near empty
  · rw [Splice.arrive_some empty]
    exact placed_arrive_shown placed arrives low near empty

theorem present_pid (upcoming : Upcoming old scan lnew splice) {other : Member γ}
    (inside : other ∈ old ++ splice.arrived) :
    (other.pid ∈ pids old → other ∈ old) ∧
      (Arrives (pids old) scan other.pid → other ∈ splice.arrived) := by
  rcases List.mem_append.mp inside with listed | came
  · exact ⟨fun _ => listed, fun arrives => absurd (pid_mem listed) arrives.2⟩
  · exact ⟨fun listed => absurd listed (arrived_arrives upcoming came).1.2, fun _ => came⟩

section Walking
variable (placed : Placed trackpids old scan (pid :: later) splice)
  (low : ∀ other ∈ splice.behind, (other.pid.natAbs : Int) < pid)
include placed

theorem passed_above {element : Member γ} (member : element ∈ splice.done) :
    pid ≤ element.pid.natAbs :=
  placed.above element member pid (List.mem_cons_self ..)

theorem arrived_above {new : Member γ} (member : new ∈ splice.arrived) : pid < new.pid := by
  obtain ⟨comes, gone⟩ := arrived_arrives placed.toUpcoming member
  exact placed.order new.pid comes.1 gone pid (List.mem_cons_self ..)

include low

theorem above_passed {element : Member γ} (member : element ∈ old)
    (above : pid ≤ element.pid.natAbs) : element ∈ splice.done := by
  rw [placed.all, List.mem_append] at member
  refine member.resolve_right fun ahead => ?_
  have := low element ahead
  omega

/-- An element that everything old is above replaces the last of the list. -/
theorem replaces_last
    (near : splice.behind ≠ [] ∨ ∃ other ∈ splice.done, (other.pid.natAbs : Int) = pid)
    (all : ∀ element ∈ pids old, pid ≤ element.natAbs) :
    ∃ element ∈ splice.done, (element.pid.natAbs : Int) = pid := by
  refine near.resolve_left fun ahead => ?_
  obtain ⟨element, member⟩ := List.exists_mem_of_ne_nil _ ahead
  have less := low element member
  have := all element.pid (pid_mem (placed.all ▸ List.mem_append_right _ member))
  omega

/-- Nothing is shown: the walk starts behind all that was passed. -/
theorem hidden_meets (empty : splice.shown = [])
    (near : splice.behind ≠ [] ∨ ∃ other ∈ splice.done, (other.pid.natAbs : Int) = pid)
    {other : Member γ} (inside : other ∈ old ++ splice.arrived) :
    other ∈ splice.visible ↔ Meets trackpids (pids old) scan pid other.pid := by
  have behind := (behind_iff placed low).mp empty
  have removed := placed.head.mp empty
  obtain ⟨listed, came⟩ := present_pid placed.toUpcoming inside
  rw [Splice.visible_none empty]
  constructor
  · intro ahead
    have present : other ∈ old := placed.all ▸ List.mem_append_right _ ahead
    exact .ahead (pid_mem present) (low other ahead) behind
  · intro meets
    cases meets with
    | passed present stays less =>
        have passed := above_passed placed low (listed present) (Int.le_of_lt less)
        exact absurd stays (removed other passed).1
    | ahead present less _ =>
        have member := listed present
        rw [placed.all, List.mem_append] at member
        refine member.resolve_left fun passed => ?_
        have := passed_above placed passed
        omega
    | between comes less moved =>
        have further : Behind trackpids (pids old) scan other.pid := fun element member high =>
          behind element member (by omega)
        obtain ⟨element, member, high, low, _⟩ := moved further
        have := (behind element member high).2 other.pid comes
        omega
    | ended comes less all _ =>
        obtain ⟨element, member, same⟩ := replaces_last placed low near all
        have := (removed element member).2 other (came comes)
        omega

/-- The walk starts at what is shown: what was passed and stays, and what came and
is not hidden. -/
theorem shown_meets (arrives : Arrives (pids old) scan pid) (some : splice.shown ≠ [])
    (near : splice.behind ≠ [] ∨ ∃ other ∈ splice.done, (other.pid.natAbs : Int) = pid)
    {other : Member γ} (inside : other ∈ old ++ splice.arrived) :
    other ∈ splice.visible ↔ Meets trackpids (pids old) scan pid other.pid := by
  obtain ⟨listed, came⟩ := present_pid placed.toUpcoming inside
  have stale : ¬ Behind trackpids (pids old) scan pid := fun this =>
    some ((behind_iff placed low).mpr this)
  have apart : ∀ element ∈ splice.done, Stays trackpids scan element.pid →
      (element.pid.natAbs : Int) ≠ pid := by
    intro element member stays
    have present : element ∈ old := placed.all ▸ List.mem_append_left _ member
    exact stays_apart placed.positive arrives (pid_mem present) stays
  rw [Splice.visible_some some, placed.shown]
  constructor
  · rintro (⟨passed, stays⟩ | ⟨new, seen⟩)
    · have present : other ∈ old := placed.all ▸ List.mem_append_left _ passed
      have unlike := apart other passed stays
      have := passed_above placed passed
      exact .passed (pid_mem present) stays (by omega)
    · refine .between (arrived_arrives placed.toUpcoming new).1 (arrived_above placed new)
        fun further => ?_
      by_contra none
      refine seen ⟨further, fun element member less => ?_⟩
      by_contra leaves
      exact none ⟨element.pid, pid_mem (placed.all ▸ List.mem_append_left _ member),
        passed_above placed member, less, leaves⟩
  · intro meets
    cases meets with
    | passed present stays less =>
        exact Or.inl ⟨above_passed placed low (listed present) (Int.le_of_lt less), stays⟩
    | ahead _ _ this => exact absurd this stale
    | between comes less moved =>
        refine Or.inr ⟨came comes, fun hides => ?_⟩
        obtain ⟨_, member, high, less, leaves⟩ := moved hides.1
        obtain ⟨element, present, rfl⟩ := List.mem_map.mp member
        exact leaves (hides.2 element (above_passed placed low present high) less)
    | ended comes less all _ =>
        refine Or.inr ⟨came comes, fun hides => ?_⟩
        obtain ⟨element, member, same⟩ := replaces_last placed low near all
        exact apart element member (hides.2 element member (by omega)) same

/-- As long as the old list lasts, or at the element that replaces the last of it,
a walk meets what `Meets` tells. -/
theorem placed_meets (arrives : Arrives (pids old) scan pid)
    (near : splice.behind ≠ [] ∨ ∃ other ∈ splice.done, (other.pid.natAbs : Int) = pid)
    {other : Member γ} (inside : other ∈ old ++ splice.arrived) :
    other ∈ splice.visible ↔ Meets trackpids (pids old) scan pid other.pid := by
  by_cases empty : splice.shown = []
  · exact hidden_meets placed low empty near inside
  · exact shown_meets placed low arrives empty near inside

end Walking

/-- The old list is through; all that came is behind one of its elements. -/
theorem placed_finish (placed : Placed trackpids old scan lnew splice) (through : splice.behind = [])
    (strict : ∀ other ∈ old, ∀ next ∈ lnew, next < other.pid.natAbs) :
    Ended trackpids old scan lnew splice.finish := by
  have done : splice.done = old := by rw [placed.all, through, List.append_nil]
  have front : ∀ other, other ∈ splice.hidden ++ splice.shown ↔
      (other ∈ old ∧ Stays trackpids scan other.pid) ∨ other ∈ splice.arrived := by
    intro other
    rw [List.mem_append, placed.hidden, placed.shown, done]
    tauto
  have upcoming := placed.toUpcoming
  refine ⟨⟨upcoming.positive, upcoming.part, upcoming.sorted, upcoming.order, upcoming.arrived,
    upcoming.above⟩, done, through, fun _ none => (by cases none), fun other came =>
    (front other).mpr (Or.inr came), ?_, ?_⟩
  · intro filled
    refine ⟨rfl, fun empty => ?_, front⟩
    have none := List.eq_nil_iff_forall_not_mem.mp empty
    obtain ⟨other, inside, stays | ⟨first, comes, less⟩⟩ := filled
    · exact none other ((front other).mpr (Or.inl ⟨inside, stays⟩))
    · have gone : first ∉ lnew := fun ahead => by
        have := strict other inside first ahead
        omega
      obtain ⟨new, came, _⟩ := List.mem_map.mp ((placed.arrived first).mpr ⟨comes, gone⟩)
      exact none new ((front new).mpr (Or.inr came))
  · intro blank
    apply List.eq_nil_iff_forall_not_mem.mpr
    intro other inside
    rcases (front other).mp inside with ⟨listed, stays⟩ | came
    · exact blank ⟨other, listed, Or.inl stays⟩
    · obtain ⟨first, listed, less⟩ := placed.under other came
      exact blank ⟨first, listed, Or.inr ⟨other.pid, (arrived_arrives upcoming came).1, less⟩⟩

theorem ended_arrive (ended : Ended trackpids old scan (member.pid :: later) splice)
    (arrives : Arrives (pids old) scan member.pid) :
    Ended trackpids old scan later (splice.arrive member) := by
  by_cases empty : splice.shown = []
  · rw [Splice.arrive_none empty]
    have blank : ¬ Filled trackpids old scan := fun filled => (ended.filled filled).2.1 empty
    refine ⟨upcoming_take ended.toUpcoming arrives rfl rfl, ended.done, ended.behind, fun other => ?_,
      fun other => ?_, fun filled => absurd filled blank, fun _ => empty⟩
    · rw [List.mem_append, List.mem_append]
      exact Or.imp_left (ended.came other)
    · have before := ended.held other
      rw [empty, List.append_nil] at before ⊢
      rw [List.mem_append, List.mem_append]
      exact Or.imp_left before
  · rw [Splice.arrive_some empty]
    refine ⟨upcoming_take ended.toUpcoming arrives rfl rfl, ended.done, ended.behind,
      fun other inside => List.mem_append_left _ (ended.came other inside), fun other => ?_,
      fun filled => ?_, fun blank => absurd (ended.blank blank) empty⟩
    · rw [← List.append_assoc, List.mem_append, List.mem_append]
      exact Or.imp_left (ended.held other)
    obtain ⟨hidden, _, front⟩ := ended.filled filled
    refine ⟨hidden, by simp, fun other => ?_⟩
    rw [List.mem_append, front, List.mem_append, or_assoc]

/-- Once the old list is through, a walk meets what `Meets` tells. -/
theorem ended_meets (ended : Ended trackpids old scan (pid :: later) splice)
    (arrives : Arrives (pids old) scan pid) {other : Member γ}
    (inside : other ∈ old ++ splice.arrived) :
    other ∈ splice.visible ↔ Meets trackpids (pids old) scan pid other.pid := by
  obtain ⟨listed, came⟩ := present_pid ended.toUpcoming inside
  have above : ∀ element ∈ old, pid ≤ element.pid.natAbs := fun element member =>
    ended.above element (ended.done ▸ member) pid (List.mem_cons_self ..)
  have all : ∀ element ∈ pids old, pid ≤ element.natAbs := by
    intro element member
    obtain ⟨element, present, rfl⟩ := List.mem_map.mp member
    exact above element present
  by_cases filled : Filled trackpids old scan
  · obtain ⟨_, some, front⟩ := ended.filled filled
    rw [Splice.visible_some some, front]
    constructor
    · rintro (⟨present, stays⟩ | new)
      · have apart := stays_apart ended.positive arrives (pid_mem present) stays
        have := above other present
        exact .passed (pid_mem present) stays (by omega)
      · obtain ⟨comes, gone⟩ := arrived_arrives ended.toUpcoming new
        have less := ended.order other.pid comes.1 gone pid (List.mem_cons_self ..)
        obtain ⟨element, member, kept⟩ := filled
        exact .ended comes less all ⟨element.pid, pid_mem member, kept⟩
    · intro meets
      cases meets with
      | passed present stays _ => exact Or.inl ⟨listed present, stays⟩
      | ahead present less _ =>
          have := all other.pid present
          omega
      | between comes _ _ => exact Or.inr (came comes)
      | ended comes _ _ _ => exact Or.inr (came comes)
  · have nothing : splice.visible = [] := by
      rw [Splice.visible_none (ended.blank filled)]
      exact ended.behind
    rw [nothing]
    constructor
    · intro none
      cases none
    · intro meets
      exfalso
      cases meets with
      | passed present stays _ => exact filled ⟨other, listed present, Or.inl stays⟩
      | ahead present less _ =>
          have := all other.pid present
          omega
      | between comes _ moved =>
          -- an old element is before the new one, or was removed after it came
          by_cases further : Behind trackpids (pids old) scan other.pid
          · obtain ⟨element, member, _, low, _⟩ := moved further
            obtain ⟨element, present, rfl⟩ := List.mem_map.mp member
            exact filled ⟨element, present, Or.inr ⟨other.pid, comes, Int.le_of_lt low⟩⟩
          · refine further fun element member _ => ?_
            obtain ⟨element, present, rfl⟩ := List.mem_map.mp member
            refine ⟨fun stays => filled ⟨element, present, Or.inl stays⟩, fun new arrives => ?_⟩
            by_contra less
            exact filled ⟨element, present, Or.inr ⟨new, arrives, by omega⟩⟩
      | ended _ _ _ some =>
          obtain ⟨element, member, kept⟩ := some
          obtain ⟨element, present, rfl⟩ := List.mem_map.mp member
          exact filled ⟨element, present, kept⟩

/-- No walk meets an element that comes later. -/
theorem meets_before {new : Int} (arrives : Arrives (pids old) scan new)
    (low : new ≤ pid) : ¬ Meets trackpids (pids old) scan pid new := by
  intro meets
  cases meets with
  | passed present _ _ => exact arrives.2 present
  | ahead present _ _ => exact arrives.2 present
  | between _ less _ => omega
  | ended _ less _ _ => omega

/-- What the insertion of an element needs: where its walk leads. -/
structure Walkable (trackpids : Bool) (old : List (Member γ)) (scan : List Int) (pid : Int)
    (splice : Splice γ) : Prop where
  arrives : Arrives (pids old) scan pid
  listed : ∀ other ∈ splice.hidden ++ splice.shown ++ splice.behind, other ∈ old ++ splice.arrived
  meets : ∀ other ∈ old ++ splice.arrived,
    (other ∈ splice.visible ↔ Meets trackpids (pids old) scan pid other.pid)
  order : ∀ other ∈ old ++ splice.arrived, Arrives (pids old) scan other.pid → pid < other.pid
  hidden : ∀ other ∈ splice.hidden, other ∉ splice.visible
  behind : splice.shown ≠ [] → ∀ other ∈ splice.behind, other ∉ splice.visible

theorem arrived_order (upcoming : Upcoming old scan (pid :: later) splice) :
    ∀ other ∈ old ++ splice.arrived, Arrives (pids old) scan other.pid → pid < other.pid := by
  intro other inside arrives
  have came := (present_pid upcoming inside).2 arrives
  exact upcoming.order other.pid arrives.1 (arrived_arrives upcoming came).2 pid
    (List.mem_cons_self ..)

theorem placed_listed (placed : Placed trackpids old scan lnew splice) :
    ∀ other ∈ splice.hidden ++ splice.shown ++ splice.behind, other ∈ old ++ splice.arrived := by
  intro other inside
  rw [placed.all]
  simp only [List.mem_append, placed.hidden, placed.shown] at inside ⊢
  tauto

theorem ended_listed (ended : Ended trackpids old scan lnew splice) :
    ∀ other ∈ splice.hidden ++ splice.shown ++ splice.behind, other ∈ old ++ splice.arrived := by
  intro other inside
  rw [ended.behind, List.append_nil, List.mem_append] at inside
  rcases inside with hidden | shown
  · exact List.mem_append_right _ (ended.came other hidden)
  · by_cases filled : Filled trackpids old scan
    · have front := ((ended.filled filled).2.2 other).mp shown
      rw [List.mem_append]
      tauto
    · rw [ended.blank filled] at shown
      cases shown

theorem scanned_stays (positive : ∀ pid ∈ scan, 0 < pid) (scanned : pid ∈ scan) :
    Stays trackpids scan pid := by
  rw [Stays]
  split_ifs
  · intro negated
    have := positive pid scanned
    have := positive (-pid) negated
    omega
  · exact scanned

/-- All that is scanned is in the list when nothing is left to come. -/
theorem placed_front (placed : Placed trackpids old scan [] splice) {other : Member γ}
    (inside : other ∈ old ++ splice.arrived) (scanned : other.pid ∈ scan) :
    other ∈ splice.hidden ++ splice.shown := by
  rw [List.mem_append, placed.hidden, placed.shown]
  rcases List.mem_append.mp inside with listed | came
  · rw [placed.all, List.mem_append] at listed
    rcases listed with passed | ahead
    · exact Or.inr (Or.inl ⟨passed, scanned_stays placed.positive scanned⟩)
    · have := placed.below other.pid scanned List.not_mem_nil other ahead
      omega
  · tauto

theorem ended_front (ended : Ended trackpids old scan lnew splice) {other : Member γ}
    (inside : other ∈ old ++ splice.arrived) (scanned : other.pid ∈ scan) :
    other ∈ splice.hidden ++ splice.shown := by
  rcases List.mem_append.mp inside with listed | came
  · have stays : Stays trackpids scan other.pid := scanned_stays ended.positive scanned
    have front := (ended.filled ⟨other, listed, Or.inl stays⟩).2.2
    exact List.mem_append_right _ ((front other).mpr (Or.inl ⟨listed, stays⟩))
  · exact ended.held other came

theorem placed_walkable (placed : Placed trackpids old scan (pid :: later) splice)
    (arrives : Arrives (pids old) scan pid)
    (low : ∀ other ∈ splice.behind, (other.pid.natAbs : Int) < pid)
    (near : splice.behind ≠ [] ∨ ∃ other ∈ splice.done, (other.pid.natAbs : Int) = pid) :
    Walkable trackpids old scan pid splice where
  arrives := arrives
  listed := placed_listed placed
  meets := fun other inside => placed_meets placed low arrives near inside
  order := arrived_order placed.toUpcoming
  hidden := by
    intro other inside visible
    obtain ⟨came, hides⟩ := (placed.hidden other).mp inside
    have new := (arrived_arrives placed.toUpcoming came).1
    by_cases empty : splice.shown = []
    · rw [Splice.visible_none empty] at visible
      exact new.2 (pid_mem (placed.all ▸ List.mem_append_right _ visible))
    · rw [Splice.visible_some empty] at visible
      rcases (placed.shown other).mp visible with ⟨passed, _⟩ | ⟨_, seen⟩
      · exact new.2 (pid_mem (placed.all ▸ List.mem_append_left _ passed))
      · exact seen hides
  behind := by
    intro some other ahead visible
    rw [Splice.visible_some some] at visible
    rcases (placed.shown other).mp visible with ⟨passed, _⟩ | ⟨came, _⟩
    · have := placed.above other passed pid (List.mem_cons_self ..)
      have := low other ahead
      omega
    · exact (arrived_arrives placed.toUpcoming came).1.2
        (pid_mem (placed.all ▸ List.mem_append_right _ ahead))

theorem ended_walkable (ended : Ended trackpids old scan (pid :: later) splice)
    (arrives : Arrives (pids old) scan pid) : Walkable trackpids old scan pid splice := by
  refine ⟨arrives, ended_listed ended, fun other inside => ended_meets ended arrives inside,
    arrived_order ended.toUpcoming, ?_, ?_⟩
  · intro other inside visible
    by_cases filled : Filled trackpids old scan
    · rw [(ended.filled filled).1] at inside
      cases inside
    · rw [Splice.visible_none (ended.blank filled), ended.behind] at visible
      cases visible
  · intro _ other inside
    rw [ended.behind] at inside
    cases inside

section Marks
variable {present : List (Member γ)}

/-- A new element and its walk: what it meets of its group is flagged. -/
theorem marked_arrive (arrives : Arrives (pids old) scan member.pid)
    (order : ∀ other ∈ present, Arrives (pids old) scan other.pid → member.pid < other.pid)
    {other : Member γ} (inside : other ∈ present) :
    Marked trackpids (pids old) scan (present ++ [member]) other ↔
      Marked trackpids (pids old) scan present other ∨
        (Shares other member ∧ Meets trackpids (pids old) scan member.pid other.pid) := by
  have later : ¬ Walks trackpids (pids old) scan other.pid member.pid := by
    rintro ⟨walks, meets⟩
    exact meets_before arrives (Int.le_of_lt (order other inside walks)) meets
  constructor
  · rintro (flagged | ⟨third, among, shares, walks⟩)
    · exact Or.inl (Or.inl flagged)
    · rcases List.mem_append.mp among with before | same
      · exact Or.inl (Or.inr ⟨third, before, shares, walks⟩)
      · rw [List.mem_singleton] at same
        subst same
        exact Or.inr ⟨shares, (walks.resolve_left later).2⟩
  · rintro ((flagged | ⟨third, among, shares, walks⟩) | ⟨shares, meets⟩)
    · exact Or.inl flagged
    · exact Or.inr ⟨third, List.mem_append_left _ among, shares, walks⟩
    · exact Or.inr ⟨member, by simp, shares, Or.inr ⟨arrives, meets⟩⟩

/-- A new element is flagged if its walk meets one of its group. -/
theorem marked_new (arrives : Arrives (pids old) scan member.pid)
    (order : ∀ other ∈ present, Arrives (pids old) scan other.pid → member.pid < other.pid) :
    Marked trackpids (pids old) scan (present ++ [member]) member ↔
      member.flagged = true ∨ ∃ other ∈ present, Shares member other ∧
        Meets trackpids (pids old) scan member.pid other.pid := by
  have itself : ¬ Walks trackpids (pids old) scan member.pid member.pid := fun walks =>
    meets_before arrives (Int.le_refl _) walks.2
  constructor
  · rintro (flagged | ⟨third, among, shares, walks⟩)
    · exact Or.inl flagged
    · rcases List.mem_append.mp among with before | same
      · refine Or.inr ⟨third, before, shares, ?_⟩
        rcases walks with own | other
        · exact own.2
        · exact absurd other.2 (meets_before arrives (Int.le_of_lt (order third before other.1)))
      · rw [List.mem_singleton] at same
        subst same
        exact absurd (walks.elim id id) itself
  · rintro (flagged | ⟨third, among, shares, meets⟩)
    · exact Or.inl flagged
    · exact Or.inr ⟨third, List.mem_append_left _ among, shares, Or.inl ⟨arrives, meets⟩⟩

end Marks

/-- What an insertion flags: those of the group that its walk reaches. -/
theorem walkable_marks (member : Member γ)
    (walkable : Walkable trackpids old scan member.pid splice)
    {other : Member γ} (inside : other ∈ old ++ splice.arrived) :
    Marked trackpids (pids old) scan (old ++ (splice.arrive member).arrived) other ↔
      Marked trackpids (pids old) scan (old ++ splice.arrived) other ∨
        (Shares other member ∧ other ∈ splice.visible) := by
  rw [Splice.arrive_arrived, ← List.append_assoc, marked_arrive walkable.arrives walkable.order inside,
    walkable.meets other inside]

theorem walkable_new (member : Member γ)
    (walkable : Walkable trackpids old scan member.pid splice) :
    Marked trackpids (pids old) scan (old ++ (splice.arrive member).arrived) member ↔
      member.flagged = true ∨ ∃ other ∈ splice.visible, Shares other member := by
  rw [Splice.arrive_arrived, ← List.append_assoc, marked_new walkable.arrives walkable.order]
  apply or_congr_right
  constructor
  · rintro ⟨other, inside, shares, meets⟩
    exact ⟨other, (walkable.meets other inside).mpr meets, shares_symm shares⟩
  · rintro ⟨other, visible, shares⟩
    have inside : other ∈ old ++ splice.arrived := by
      apply walkable.listed
      rw [List.append_assoc]
      exact List.mem_append_right _ (Splice.visible_mem visible)
    exact ⟨other, inside, shares_symm shares, (walkable.meets other inside).mp visible⟩

end Steps

end Orchestrator.HeadWalk
