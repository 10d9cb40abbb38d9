import Mathlib.Data.List.Forall2
import Orchestrator.Prepare

/-!
The passes of `adaptPlanSchedule`: what the choice of a tracer guarantees, what
one turn does to tracers and allocations, and what that leaves of a pass.
-/

namespace Orchestrator.Plan
open Orchdata Resmgnt Adaptive Accounting Admission Recompute Prepare Qsortll

section Choice
variable (fp : Rounding) (rrtime : Int) (trcs : Tracers) (attr : SchedAttr) (affinity cpu : Int)

theorem check_period_step_cases (best : Best) (trc : Nat) :
    checkPeriodStep fp rrtime trcs attr affinity cpu best trc = best ∨
      (checkPeriodStep fp rrtime trcs attr affinity cpu best trc =
          ⟨verdict fp rrtime (trcs.trcAt trc) attr, (trcs.trcAt trc).u, some trc⟩ ∧
        (0 ≤ verdict fp rrtime (trcs.trcAt trc) attr ∨
          verdict fp rrtime (trcs.trcAt trc) attr = best.last)) := by
  unfold checkPeriodStep
  dsimp only [checkUvalue]
  split_ifs with taken
  · exact Or.inl rfl
  · refine Or.inr ⟨rfl, ?_⟩
    simp only [Bool.or_eq_true, Bool.and_eq_true, decide_eq_true_eq, beq_iff_eq] at taken
    tauto
  · exact Or.inl rfl

/-- The search only ever keeps a tracer it has seen and that takes the task. -/
structure Candidate (seen : List Nat) (best : Best) : Prop where
  last : 0 ≤ best.last
  found : ∀ trc, best.ftrc = some trc → trc ∈ seen ∧ 0 ≤ verdict fp rrtime (trcs.trcAt trc) attr

theorem check_period_step_candidate (seen : List Nat) (best : Best) (trc : Nat)
    (candidate : Candidate fp rrtime trcs attr seen best) :
    Candidate fp rrtime trcs attr (seen ++ [trc])
      (checkPeriodStep fp rrtime trcs attr affinity cpu best trc) := by
  have kept : Candidate fp rrtime trcs attr (seen ++ [trc]) best :=
    ⟨candidate.last, fun found same =>
      ⟨List.mem_append_left _ (candidate.found found same).1, (candidate.found found same).2⟩⟩
  rcases check_period_step_cases fp rrtime trcs attr affinity cpu best trc with same | ⟨taken, test⟩
  · rwa [same]
  · have passed : 0 ≤ verdict fp rrtime (trcs.trcAt trc) attr := by
      have last := candidate.last
      omega
    rw [taken]
    refine ⟨passed, fun found same => ?_⟩
    cases same
    exact ⟨by simp, passed⟩

theorem check_period_fold_candidate (trail seen : List Nat) (best : Best)
    (candidate : Candidate fp rrtime trcs attr seen best) :
    Candidate fp rrtime trcs attr (seen ++ trail)
      (trail.foldl (checkPeriodStep fp rrtime trcs attr affinity cpu) best) := by
  induction trail generalizing seen best with
  | nil => simpa using candidate
  | cons trc rest ih =>
      have next := check_period_step_candidate fp rrtime trcs attr affinity cpu seen best trc candidate
      simpa using ih (seen ++ [trc]) _ next

/-- A task without a fixed CPU goes to a linked tracer whose test it passes. -/
theorem check_period_flexible (trc : Nat) (flexible : affinity < 0)
    (found : checkPeriod fp rrtime trcs attr affinity cpu = some trc) :
    trc ∈ trcs.rHead ∧ 0 ≤ verdict fp rrtime (trcs.trcAt trc) attr := by
  rw [checkPeriod, if_neg (by omega)] at found
  have start : Candidate fp rrtime trcs attr [] {} := ⟨by decide, fun _ same => by cases same⟩
  have final := check_period_fold_candidate fp rrtime trcs attr affinity cpu trcs.rHead [] {} start
  simpa using final.found trc found

theorem check_period_linked (trc : Nat)
    (found : checkPeriod fp rrtime trcs attr affinity cpu = some trc) : trc ∈ trcs.rHead := by
  by_cases fixed : 0 ≤ affinity
  · rw [checkPeriod, if_pos fixed, getTracer] at found
    exact List.mem_of_find?_eq_some found
  · exact (check_period_flexible fp rrtime trcs attr affinity cpu trc (by omega) found).1

theorem check_period_step_keeps (best : Best) (trc : Nat) (found : best.ftrc.isSome) :
    (checkPeriodStep fp rrtime trcs attr affinity cpu best trc).ftrc.isSome := by
  rcases check_period_step_cases fp rrtime trcs attr affinity cpu best trc with same | ⟨taken, _⟩
  · rwa [same]
  · rw [taken]
    rfl

theorem check_period_fold_keeps (trail : List Nat) (best : Best) (found : best.ftrc.isSome) :
    (trail.foldl (checkPeriodStep fp rrtime trcs attr affinity cpu) best).ftrc.isSome := by
  induction trail generalizing best with
  | nil => exact found
  | cons trc rest ih =>
      exact ih _ (check_period_step_keeps fp rrtime trcs attr affinity cpu best trc found)

/-- The first tracer with a passing test is taken. -/
theorem check_period_step_first (trc : Nat) (passed : 0 ≤ verdict fp rrtime (trcs.trcAt trc) attr)
    (light : (trcs.trcAt trc).u < tolMin fp 10) :
    (checkPeriodStep fp rrtime trcs attr affinity cpu {} trc).ftrc.isSome := by
  have bounded : verdict fp rrtime (trcs.trcAt trc) attr ≤ intMax := by
    unfold verdict score
    split_ifs <;> simp [intMax]
  have taken : (0 ≤ verdict fp rrtime (trcs.trcAt trc) attr ∧
      verdict fp rrtime (trcs.trcAt trc) attr < intMax) ∨
        verdict fp rrtime (trcs.trcAt trc) attr = intMax := by omega
  unfold checkPeriodStep
  rcases taken with better | equal
  · simp [checkUvalue, better, preferred]
  · simp [checkUvalue, equal, light, preferred]

/-- A flexible task no tracer is found for is refused by every tracer. -/
theorem check_period_none (flexible : affinity < 0)
    (light : ∀ trc ∈ trcs.rHead, (trcs.trcAt trc).u < tolMin fp 10)
    (none : checkPeriod fp rrtime trcs attr affinity cpu = none) :
    ∀ trc ∈ trcs.rHead, verdict fp rrtime (trcs.trcAt trc) attr < 0 := by
  rw [checkPeriod, if_neg (by omega)] at none
  -- a search without a result never left its start values
  have search : ∀ trail ⊆ trcs.rHead,
      (trail.foldl (checkPeriodStep fp rrtime trcs attr affinity cpu) {}).ftrc = Option.none →
        ∀ trc ∈ trail, verdict fp rrtime (trcs.trcAt trc) attr < 0 := by
    intro trail inside empty
    induction trail with
    | nil => exact fun _ member => by cases member
    | cons head rest ih =>
        have refused : verdict fp rrtime (trcs.trcAt head) attr < 0 := by
          by_contra passed
          have first := check_period_step_first fp rrtime trcs attr affinity cpu head (by omega)
            (light head (inside List.mem_cons_self))
          have kept := check_period_fold_keeps fp rrtime trcs attr affinity cpu rest _ first
          rw [List.foldl_cons] at empty
          simp [empty] at kept
        have skipped : checkPeriodStep fp rrtime trcs attr affinity cpu {} head = {} := by
          have apart : verdict fp rrtime (trcs.trcAt head) attr ≠ intMax := by
            simp only [intMax]
            omega
          have negative : ¬ 0 ≤ verdict fp rrtime (trcs.trcAt head) attr := by omega
          simp [checkPeriodStep, checkUvalue, negative, apart]
        rw [List.foldl_cons, skipped] at empty
        intro trc member
        rcases List.mem_cons.mp member with same | later
        · exact same ▸ refused
        · exact ih (fun other member => inside (List.mem_cons_of_mem head member)) empty trc later
  exact search trcs.rHead (List.Subset.refl _) none

theorem grep_tracer_linked (trc : Nat) (found : grepTracer fp trcs = some trc) :
    trc ∈ trcs.rHead := by
  have search : ∀ (trail : List Nat) (state : ℚ × Option Nat),
      (trail.foldl (grepTracerStep fp trcs) state).2 = some trc → trc ∈ trail ∨ state.2 = some trc := by
    intro trail
    induction trail with
    | nil => exact fun state same => Or.inr same
    | cons head rest ih =>
        intro state same
        rcases ih _ same with later | now
        · exact Or.inl (List.mem_cons_of_mem head later)
        · unfold grepTracerStep at now
          dsimp only at now
          split_ifs at now
          · exact Or.inl (List.mem_cons.mpr (Or.inl (Option.some.inj now).symm))
          · exact Or.inr now
  rcases search trcs.rHead _ found with member | impossible
  · exact member
  · cases impossible

end Choice

section Turns
variable (fp : Rounding) (rrtime : Int) (unmatched : SchedAttr → Bool) (conts : Containers)

/-- The pass looks for a tracer for this allocation. -/
def turns (alloc : ResAlloc) : Bool := alloc.assigned.isNone && !unmatched (attrOf conts alloc.item)

/-- `property` holds at every turn of a pass, of the tracers as the turn finds
them and of its allocation. -/
def AtTurns (property : Tracers → ResAlloc → Prop) : Tracers → List ResAlloc → Prop
  | _, [] => True
  | trcs, alloc :: rest =>
      if turns unmatched conts alloc then
        property trcs alloc ∧ AtTurns property (planOne fp rrtime conts trcs alloc).1 rest
      else AtTurns property trcs rest

/-- The tracer a turn finds. -/
def pick (trcs : Tracers) (alloc : ResAlloc) : Option Nat :=
  checkPeriod fp rrtime trcs (attrOf conts alloc.item) (rscsOf conts alloc.item).affinity (-1)

theorem plan_one_found (trcs : Tracers) (alloc : ResAlloc) (trc : Nat)
    (found : pick fp rrtime conts trcs alloc = some trc) :
    planOne fp rrtime conts trcs alloc =
      ((trcs.add fp rrtime trc (attrOf conts alloc.item)).2, { alloc with assigned := some trc }) := by
  simp only [pick] at found
  simp only [planOne, found]

theorem plan_one_none (trcs : Tracers) (alloc : ResAlloc)
    (none : pick fp rrtime conts trcs alloc = none) :
    planOne fp rrtime conts trcs alloc = (trcs, alloc) := by
  simp only [pick] at none
  simp only [planOne, none]

theorem plan_pass_turn (trcs : Tracers) (alloc : ResAlloc) (rest : List ResAlloc)
    (turn : turns unmatched conts alloc = true) :
    planPass fp rrtime unmatched conts trcs (alloc :: rest) =
      ((planPass fp rrtime unmatched conts (planOne fp rrtime conts trcs alloc).1 rest).1,
        (planOne fp rrtime conts trcs alloc).2 ::
          (planPass fp rrtime unmatched conts (planOne fp rrtime conts trcs alloc).1 rest).2) := by
  simp only [turns] at turn
  simp only [planPass, turn, ↓reduceIte]

theorem plan_pass_skip (trcs : Tracers) (alloc : ResAlloc) (rest : List ResAlloc)
    (skip : ¬ turns unmatched conts alloc = true) :
    planPass fp rrtime unmatched conts trcs (alloc :: rest) =
      ((planPass fp rrtime unmatched conts trcs rest).1,
        alloc :: (planPass fp rrtime unmatched conts trcs rest).2) := by
  simp only [turns] at skip
  simp only [planPass, skip, Bool.false_eq_true, ↓reduceIte]

theorem turns_unassigned (alloc : ResAlloc) (turn : turns unmatched conts alloc = true) :
    alloc.assigned = none := by
  simp only [turns, Bool.and_eq_true, Option.isNone_iff_eq_none] at turn
  exact turn.1

/-- One turn books what it assigns. -/
theorem plan_one_books (trcs : Tracers) (alloc : ResAlloc) (outer : List ResAlloc)
    (free : alloc.assigned = none) (books : Books fp rrtime conts trcs (alloc :: outer)) :
    Books fp rrtime conts (planOne fp rrtime conts trcs alloc).1
      ((planOne fp rrtime conts trcs alloc).2 :: outer) := by
  cases found : pick fp rrtime conts trcs alloc with
  | none => rwa [plan_one_none fp rrtime conts trcs alloc found]
  | some trc =>
      rw [plan_one_found fp rrtime conts trcs alloc trc found]
      refine books_add fp rrtime conts trcs alloc.item trc outer ⟨books.replay, fun other => ?_⟩
      have backed := books.backed other
      rwa [counted_allocs_cons, if_neg (by simp [free])] at backed

theorem plan_pass_books (trcs : Tracers) (allocs outer : List ResAlloc)
    (books : Books fp rrtime conts trcs (allocs ++ outer)) :
    Books fp rrtime conts (planPass fp rrtime unmatched conts trcs allocs).1
      ((planPass fp rrtime unmatched conts trcs allocs).2 ++ outer) := by
  induction allocs generalizing trcs outer with
  | nil => exact books
  | cons alloc rest ih =>
      by_cases turn : turns unmatched conts alloc
      · rw [plan_pass_turn fp rrtime unmatched conts trcs alloc rest turn]
        have booked := plan_one_books fp rrtime conts trcs alloc (rest ++ outer)
          (turns_unassigned unmatched conts alloc turn) books
        -- the allocation of this turn joins the ones the pass does not look at
        have later := ih _ _ (books_perm fp rrtime List.perm_middle.symm booked)
        exact books_perm fp rrtime List.perm_middle later
      · rw [plan_pass_skip fp rrtime unmatched conts trcs alloc rest turn]
        have later := ih trcs (alloc :: outer) (books_perm fp rrtime List.perm_middle.symm books)
        exact books_perm fp rrtime List.perm_middle later

/-- Later tracers: the same list, and more additions. -/
def Grows (trcs later : Tracers) : Prop :=
  later.rHead = trcs.rHead ∧ ∃ more, later.log = trcs.log ++ more

theorem grows_refl (trcs : Tracers) : Grows trcs trcs := ⟨rfl, [], by simp⟩

theorem grows_trans {first middle last : Tracers} (left : Grows first middle)
    (right : Grows middle last) : Grows first last := by
  obtain ⟨heads, more, log⟩ := left
  obtain ⟨later, extra, logLater⟩ := right
  exact ⟨later.trans heads, more ++ extra, by rw [logLater, log, List.append_assoc]⟩

theorem plan_one_grows (trcs : Tracers) (alloc : ResAlloc) :
    Grows trcs (planOne fp rrtime conts trcs alloc).1 := by
  cases found : pick fp rrtime conts trcs alloc with
  | none =>
      rw [plan_one_none fp rrtime conts trcs alloc found]
      exact grows_refl trcs
  | some trc =>
      rw [plan_one_found fp rrtime conts trcs alloc trc found]
      exact ⟨rfl, [(trc, attrOf conts alloc.item)], rfl⟩

theorem plan_pass_grows (trcs : Tracers) (allocs : List ResAlloc) :
    Grows trcs (planPass fp rrtime unmatched conts trcs allocs).1 := by
  induction allocs generalizing trcs with
  | nil => exact grows_refl trcs
  | cons alloc rest ih =>
      by_cases turn : turns unmatched conts alloc
      · rw [plan_pass_turn fp rrtime unmatched conts trcs alloc rest turn]
        exact grows_trans (plan_one_grows fp rrtime conts trcs alloc) (ih _)
      · rw [plan_pass_skip fp rrtime unmatched conts trcs alloc rest turn]
        exact ih trcs

theorem tasks_of_grows {trcs later : Tracers} (grows : Grows trcs later) (trc : Nat) :
    ∃ more, tasksOf later trc = tasksOf trcs trc ++ more := by
  obtain ⟨_, more, log⟩ := grows
  exact ⟨(more.filter fun entry => entry.1 = trc).map Prod.snd, by simp [tasksOf, log]⟩

theorem accepts_earlier {trcs later : Tracers} (grows : Grows trcs later)
    (accepts : Accepts fp rrtime later) : Accepts fp rrtime trcs := by
  intro trc
  obtain ⟨more, tasks⟩ := tasks_of_grows grows trc
  have along := accepts trc
  rw [tasks, along_append] at along
  exact along.1

/-- An allocation keeps its element, and its tracer once it has one. -/
def Settles (before after : ResAlloc) : Prop :=
  after.item = before.item ∧ (before.assigned = none ∨ after = before)

theorem settles_trans {first middle last : List ResAlloc} (early : List.Forall₂ Settles first middle)
    (late : List.Forall₂ Settles middle last) : List.Forall₂ Settles first last := by
  induction early generalizing last with
  | nil =>
      cases late
      exact .nil
  | cons head _ ih =>
      cases late with
      | cons next tail =>
          refine .cons ⟨next.1.trans head.1, ?_⟩ (ih tail)
          rcases head.2 with free | same
          · exact Or.inl free
          · exact same ▸ next.2

theorem settles_items {before after : List ResAlloc} (settles : List.Forall₂ Settles before after) :
    after.map ResAlloc.item = before.map ResAlloc.item := by
  induction settles with
  | nil => rfl
  | cons head _ ih => rw [List.map_cons, List.map_cons, head.1, ih]

theorem settles_origin {before after : List ResAlloc} (settles : List.Forall₂ Settles before after)
    (alloc : ResAlloc) (member : alloc ∈ after) (free : alloc.assigned = none) : alloc ∈ before := by
  induction settles with
  | nil => cases member
  | @cons first second _ _ head _ ih =>
      rcases List.mem_cons.mp member with now | later
      · subst now
        -- an allocation that changed would be assigned
        have same : first = alloc := by
          rcases head.2 with unassigned | same
          · have item := head.1
            cases first
            cases alloc
            simp only at item unassigned free
            rw [item, unassigned, free]
          · exact same.symm
        exact same ▸ List.mem_cons_self
      · exact List.mem_cons_of_mem _ (ih later)

theorem plan_one_settles (trcs : Tracers) (alloc : ResAlloc) (free : alloc.assigned = none) :
    Settles alloc (planOne fp rrtime conts trcs alloc).2 := by
  refine ⟨?_, Or.inl free⟩
  cases found : pick fp rrtime conts trcs alloc with
  | none => rw [plan_one_none fp rrtime conts trcs alloc found]
  | some trc => rw [plan_one_found fp rrtime conts trcs alloc trc found]

theorem plan_pass_settles (trcs : Tracers) (allocs : List ResAlloc) :
    List.Forall₂ Settles allocs (planPass fp rrtime unmatched conts trcs allocs).2 := by
  induction allocs generalizing trcs with
  | nil => exact .nil
  | cons alloc rest ih =>
      by_cases turn : turns unmatched conts alloc
      · rw [plan_pass_turn fp rrtime unmatched conts trcs alloc rest turn]
        exact .cons (plan_one_settles fp rrtime conts trcs alloc
          (turns_unassigned unmatched conts alloc turn)) (ih _)
      · rw [plan_pass_skip fp rrtime unmatched conts trcs alloc rest turn]
        exact .cons ⟨rfl, Or.inr rfl⟩ (ih trcs)

theorem at_turns_of (property : Tracers → ResAlloc → Prop) (trcs : Tracers) (allocs : List ResAlloc)
    (holds : ∀ later alloc, Grows trcs later → alloc ∈ allocs → alloc.assigned = none →
      property later alloc) : AtTurns fp rrtime unmatched conts property trcs allocs := by
  induction allocs generalizing trcs with
  | nil => trivial
  | cons alloc rest ih =>
      unfold AtTurns
      split_ifs with turn
      · refine ⟨holds trcs alloc (grows_refl trcs) List.mem_cons_self
          (turns_unassigned unmatched conts alloc turn), ih _ fun later other grows member => ?_⟩
        exact holds later other (grows_trans (plan_one_grows fp rrtime conts trcs alloc) grows)
          (List.mem_cons_of_mem alloc member)
      · exact ih trcs fun later other grows member =>
          holds later other grows (List.mem_cons_of_mem alloc member)

/-- What a pass leaves unassigned was so before and, if it had a turn, found no
tracer in it. -/
theorem plan_pass_leftover (property : Tracers → ResAlloc → Prop) (trcs : Tracers)
    (allocs : List ResAlloc) (outer : List ResAlloc)
    (books : Books fp rrtime conts trcs (allocs ++ outer))
    (along : AtTurns fp rrtime unmatched conts property trcs allocs) (alloc : ResAlloc)
    (member : alloc ∈ (planPass fp rrtime unmatched conts trcs allocs).2)
    (free : alloc.assigned = none) :
    alloc ∈ allocs ∧ (unmatched (attrOf conts alloc.item) = false → ∃ earlier others,
      Grows trcs earlier ∧ Books fp rrtime conts earlier others ∧ property earlier alloc ∧
        pick fp rrtime conts earlier alloc = none ∧
          Grows earlier (planPass fp rrtime unmatched conts trcs allocs).1) := by
  induction allocs generalizing trcs outer with
  | nil => cases member
  | cons head rest ih =>
      by_cases turn : turns unmatched conts head
      · rw [AtTurns, if_pos turn] at along
        rw [plan_pass_turn fp rrtime unmatched conts trcs head rest turn] at member ⊢
        have unassigned := turns_unassigned unmatched conts head turn
        have booked := plan_one_books fp rrtime conts trcs head (rest ++ outer) unassigned books
        rcases List.mem_cons.mp member with now | later
        -- its own turn left it unassigned: nothing was found
        · cases found : pick fp rrtime conts trcs head with
          | some trc =>
              rw [now, plan_one_found fp rrtime conts trcs head trc found] at free
              cases free
          | none =>
              have same := plan_one_none fp rrtime conts trcs head found
              rw [same] at now
              subst now
              refine ⟨List.mem_cons_self, fun _ => ⟨trcs, _, grows_refl trcs, books, along.1, found, ?_⟩⟩
              rw [same]
              exact plan_pass_grows fp rrtime unmatched conts trcs rest
        · obtain ⟨inside, turned⟩ := ih _ _ (books_perm fp rrtime List.perm_middle.symm booked)
            along.2 later
          -- its turn comes later, with the tracers this turn left
          refine ⟨List.mem_cons_of_mem head inside, fun matched => ?_⟩
          obtain ⟨earlier, others, grown, books, holds, none, more⟩ := turned matched
          exact ⟨earlier, others, grows_trans (plan_one_grows fp rrtime conts trcs head) grown, books,
            holds, none, more⟩
      · rw [AtTurns, if_neg turn] at along
        rw [plan_pass_skip fp rrtime unmatched conts trcs head rest turn] at member ⊢
        rcases List.mem_cons.mp member with now | later
        · subst now
          refine ⟨List.mem_cons_self, fun matched => ?_⟩
          simp [turns, free, matched] at turn
        · obtain ⟨inside, turned⟩ := ih trcs (head :: outer)
            (books_perm fp rrtime List.perm_middle.symm books) along later
          exact ⟨List.mem_cons_of_mem head inside, turned⟩

end Turns

section Passes
variable (fp : Rounding) (rrtime : Int)

/-- `property` holds at every turn of the two passes over known tasks. -/
def Turns (property : Tracers → ResAlloc → Prop) (sched : Schedule) : Prop :=
  AtTurns fp rrtime noDetail sched.1.conts property sched.1.trcs (planOrder fp sched) ∧
    AtTurns fp rrtime noRuntime sched.1.conts property (planFirst fp rrtime sched).1
      (planFirst fp rrtime sched).2

/-- The assignment the last pass makes with the tracer `grepTracer` finds. -/
def settle (trc : Option Nat) (alloc : ResAlloc) : ResAlloc :=
  if alloc.assigned.isNone then { alloc with assigned := trc } else alloc

/-- The groups remember one and the same tracer. -/
structure Grouped (found : Option Nat) (groups : Groups) : Prop where
  ff : groups.ff = none ∨ groups.ff = found
  rr : groups.rr = none ∨ groups.rr = found
  bt : groups.bt = none ∨ groups.bt = found
  nt : groups.nt = none ∨ groups.nt = found

theorem or_found {found group : Option Nat} (same : group = none ∨ group = found) :
    group.or found = found := by
  rcases same with none | same
  · rw [none, Option.none_or]
  · rw [same, Option.or_self]

-- No addition happens in the last pass, so `grepTracer` finds the same for each group.
theorem plan_group_grouped (trcs : Tracers) (policy : UInt32) (groups : Groups)
    (grouped : Grouped (grepTracer fp trcs) groups) :
    Grouped (grepTracer fp trcs) (planGroup fp trcs policy groups).1 ∧
      (planGroup fp trcs policy groups).2 = grepTracer fp trcs := by
  unfold planGroup
  split_ifs
  · exact ⟨{ grouped with ff := Or.inr (or_found grouped.ff) }, or_found grouped.ff⟩
  · exact ⟨{ grouped with rr := Or.inr (or_found grouped.rr) }, or_found grouped.rr⟩
  · exact ⟨{ grouped with bt := Or.inr (or_found grouped.bt) }, or_found grouped.bt⟩
  · exact ⟨{ grouped with nt := Or.inr (or_found grouped.nt) }, or_found grouped.nt⟩

theorem plan_rest_grouped (conts : Containers) (trcs : Tracers) (groups : Groups)
    (allocs : List ResAlloc) (grouped : Grouped (grepTracer fp trcs) groups) :
    planRest fp conts trcs groups allocs = allocs.map (settle (grepTracer fp trcs)) := by
  induction allocs generalizing groups with
  | nil => rfl
  | cons alloc rest ih =>
      have group := plan_group_grouped fp trcs (attrOf conts alloc.item).schedPolicy groups grouped
      unfold planRest
      dsimp only
      split_ifs with free
      · rw [ih _ group.1, group.2, List.map_cons, settle, if_pos free]
      · rw [ih groups grouped, List.map_cons, settle, if_neg free]

theorem plan_eq (sched : Schedule) :
    adaptPlanSchedule fp rrtime sched =
      ({ sched.1 with trcs := (planKnown fp rrtime sched).1 },
        (planKnown fp rrtime sched).2.map (settle (grepTracer fp (planKnown fp rrtime sched).1))) := by
  have start : Grouped (grepTracer fp (planKnown fp rrtime sched).1) {} :=
    ⟨Or.inl rfl, Or.inl rfl, Or.inl rfl, Or.inl rfl⟩
  rw [adaptPlanSchedule, plan_rest_grouped fp _ _ _ _ start]

theorem plan_order_perm (sched : Schedule) : (planOrder fp sched).Perm sched.2 :=
  qsortll_perm _ _

theorem plan_first_books (sched : Schedule)
    (books : Books fp rrtime sched.1.conts sched.1.trcs sched.2) :
    Books fp rrtime sched.1.conts (planFirst fp rrtime sched).1 (planFirst fp rrtime sched).2 := by
  have sorted := books_perm fp rrtime (plan_order_perm fp sched).symm books
  simpa [planFirst] using plan_pass_books fp rrtime noDetail sched.1.conts sched.1.trcs
    (planOrder fp sched) [] (by simpa using sorted)

theorem plan_first_settles (sched : Schedule) :
    List.Forall₂ Settles (planOrder fp sched) (planFirst fp rrtime sched).2 :=
  plan_pass_settles fp rrtime noDetail sched.1.conts _ _

theorem plan_known_settles (sched : Schedule) :
    List.Forall₂ Settles (planFirst fp rrtime sched).2 (planKnown fp rrtime sched).2 :=
  plan_pass_settles fp rrtime noRuntime sched.1.conts _ _

theorem plan_first_grows (sched : Schedule) : Grows sched.1.trcs (planFirst fp rrtime sched).1 :=
  plan_pass_grows fp rrtime noDetail sched.1.conts _ _

theorem plan_known_grows (sched : Schedule) :
    Grows (planFirst fp rrtime sched).1 (planKnown fp rrtime sched).1 :=
  plan_pass_grows fp rrtime noRuntime sched.1.conts _ _

theorem turns_of (property : Tracers → ResAlloc → Prop) (sched : Schedule)
    (holds : ∀ later alloc, Grows sched.1.trcs later → alloc ∈ sched.2 → alloc.assigned = none →
      property later alloc) : Turns fp rrtime property sched := by
  have origin : ∀ alloc ∈ planOrder fp sched, alloc ∈ sched.2 := fun alloc member =>
    (plan_order_perm fp sched).mem_iff.mp member
  constructor
  · exact at_turns_of fp rrtime noDetail _ property _ _ fun later alloc grows member =>
      holds later alloc grows (origin alloc member)
  · refine at_turns_of fp rrtime noRuntime _ property _ _ fun later alloc grows member free => ?_
    -- what has a turn in the second pass was unassigned before the first one
    have before := settles_origin (plan_first_settles fp rrtime sched) alloc member free
    exact holds later alloc (grows_trans (plan_first_grows fp rrtime sched) grows)
      (origin alloc before) free

theorem plan_known_books (sched : Schedule)
    (books : Books fp rrtime sched.1.conts sched.1.trcs sched.2) :
    Books fp rrtime sched.1.conts (planKnown fp rrtime sched).1 (planKnown fp rrtime sched).2 := by
  have first := plan_first_books fp rrtime sched books
  simpa [planKnown] using plan_pass_books fp rrtime noRuntime sched.1.conts
    (planFirst fp rrtime sched).1 (planFirst fp rrtime sched).2 [] (by simpa using first)

theorem plan_known_items (sched : Schedule) (alloc : ResAlloc)
    (member : alloc ∈ (planKnown fp rrtime sched).2) :
    ∃ before ∈ sched.2, before.item = alloc.item := by
  have items : (planKnown fp rrtime sched).2.map ResAlloc.item =
      (planOrder fp sched).map ResAlloc.item :=
    settles_items (settles_trans (plan_first_settles fp rrtime sched)
      (plan_known_settles fp rrtime sched))
  have inside : alloc.item ∈ (planOrder fp sched).map ResAlloc.item :=
    items ▸ List.mem_map_of_mem member
  obtain ⟨before, sorted, same⟩ := List.mem_map.mp inside
  exact ⟨before, (plan_order_perm fp sched).mem_iff.mp sorted, same⟩

end Passes

end Orchestrator.Plan
