import Orchestrator.PlanMasks

/-!
The load a plan puts on a CPU. Tested additions keep the exact load of a tracer
within one; the last pass assigns without any test.
-/

namespace Orchestrator.PlanLoad
open Orchdata Resmgnt Adaptive HyperPeriod Cmnutil Accounting Admission Recompute Prepare Plan PlanMasks
open Traversal

/-- Runtime and period are both set and the task is not round-robin. -/
def counts (par : SchedAttr) : Bool :=
  par.schedPolicy != schedRr && par.schedRuntime != 0 && par.schedPeriod != 0

/-- The exact sum of runtime over period of the counted tasks. -/
def countedLoad (tasks : List SchedAttr) : ℚ := load ((tasks.filter counts).map task)

def plannedLoad (conts : Containers) (allocs : List ResAlloc) (trc : Nat) : ℚ :=
  countedLoad (countedAllocs conts allocs trc)

/-- No tracer is planned beyond its capacity. -/
def Feasible (conts : Containers) (allocs : List ResAlloc) : Prop :=
  ∀ trc, plannedLoad conts allocs trc ≤ 1

section Loads

theorem counted_load_cons (par : SchedAttr) (tasks : List SchedAttr) :
    countedLoad (par :: tasks) = (if counts par then (task par).share else 0) + countedLoad tasks := by
  by_cases counted : counts par <;> simp [countedLoad, load, counted]

theorem counted_load_nonneg (tasks : List SchedAttr) : 0 ≤ countedLoad tasks := by
  induction tasks with
  | nil => exact le_rfl
  | cons par rest ih =>
      rw [counted_load_cons]
      have head := share_nonneg (task par)
      split_ifs <;> linarith

theorem counted_load_append (left right : List SchedAttr) :
    countedLoad (left ++ right) = countedLoad left + countedLoad right := by
  simp [countedLoad, load]

theorem counted_load_perm {left right : List SchedAttr} (order : left.Perm right) :
    countedLoad left = countedLoad right :=
  load_perm ((order.filter counts).map task)

theorem counted_load_all (tasks : List SchedAttr) (all : ∀ par ∈ tasks, counts par = true) :
    countedLoad tasks = load (tasks.map task) := by
  rw [countedLoad, List.filter_eq_self.mpr all]

theorem counted_load_member (tasks : List SchedAttr) (par : SchedAttr) (member : par ∈ tasks)
    (counted : counts par = true) : (task par).share ≤ countedLoad tasks := by
  induction tasks with
  | nil => cases member
  | cons head rest ih =>
      rw [counted_load_cons]
      have others := counted_load_nonneg rest
      rcases List.mem_cons.mp member with same | later
      · subst same
        rw [if_pos counted]
        linarith
      · have tail := ih later
        have first := share_nonneg (task head)
        split_ifs <;> linarith

end Loads

/-- One addition without wrap-around, whose test does not round an excess away. -/
structure Sound (fp : Rounding) (rrtime : Int) (res : ResTracer) (par : SchedAttr) : Prop where
  fits : NoWrap rrtime res par
  period : baset rrtime par ≠ 0
  rounding : newU fp rrtime res par ≤ 1 →
    (newUsed rrtime res par).toNat ≤ (newBase rrtime res par).toNat

instance (fp : Rounding) (rrtime : Int) (res : ResTracer) (par : SchedAttr) :
    Decidable (Sound fp rrtime res par) :=
  decidable_of_iff (_ ∧ _ ∧ _) ⟨fun ⟨fits, period, rounding⟩ => ⟨fits, period, rounding⟩,
    fun ⟨fits, period, rounding⟩ => ⟨fits, period, rounding⟩⟩

/-- The totals of a tracer account for a load of at least `q`. -/
structure Carries (res : ResTracer) (q : ℚ) : Prop where
  idle : res.basePeriod = 0 → res.usedPeriod = 0
  covers : q ≤ (res.usedPeriod.toNat : ℚ) / res.basePeriod.toNat

section Tested
variable (fp : Rounding) (rrtime : Int)

theorem counts_asks (par : SchedAttr) (counted : counts par = true) :
    Accountable par ∧ par.schedPeriod ≠ 0 := by
  simp only [counts, Bool.and_eq_true, bne_iff_ne] at counted
  exact ⟨⟨counted.1.1, counted.1.2⟩, counted.2⟩

theorem counted_share_le (par : SchedAttr) (period : baset rrtime par ≠ 0) :
    (if counts par then (task par).share else 0) ≤ (slot rrtime par).share := by
  split_ifs with counted
  · have asks := accountable_asks rrtime par (counts_asks par counted).1
    have slots := slot_asks rrtime par period
    rw [Demand.share, Demand.share, asks.runtime, asks.period, slots.runtime, slots.period]
  · exact share_nonneg _

theorem used_grows (res : ResTracer) (par : SchedAttr) (fits : NoWrap rrtime res par) :
    res.usedPeriod.toNat ≤ (used res par).toNat := by
  unfold used
  split_ifs with extra
  · rw [add_exact _ _ (fits.2.extra extra)]
    exact Nat.le_add_right _ _
  · exact le_rfl

theorem used_idle (res : ResTracer) (par : SchedAttr) (idle : res.usedPeriod = 0) :
    used res par = 0 := by
  unfold used
  split_ifs
  · rw [idle]
    decide
  · exact idle

theorem added_carries (res : ResTracer) (par : SchedAttr) (q : ℚ) (carries : Carries res q)
    (sound : Sound fp rrtime res par) :
    Carries (added fp rrtime res par) (q + if counts par then (task par).share else 0) := by
  let ledger : Ledger := ⟨(used res par).toNat, res.basePeriod.toNat, fun zero => by
    have empty : res.basePeriod = 0 := UInt64.toNat_inj.mp zero
    rw [used_idle res par (carries.idle empty)]
    rfl⟩
  have posted := added_posts rrtime res par ledger (slot rrtime par) fp
    (slot_asks rrtime par sound.period) sound.fits rfl rfl
  have ratio := ratio_add ledger (slot rrtime par)
  have share := counted_share_le rrtime par sound.period
  have before : q ≤ ledger.ratio := by
    refine carries.covers.trans (div_le_div_of_nonneg_right ?_ (Nat.cast_nonneg _))
    exact_mod_cast used_grows rrtime res par sound.fits
  constructor
  · intro zero
    have empty : (ledger.add (slot rrtime par)).base = 0 := by
      rw [← posted.1, zero]
      rfl
    apply UInt64.toNat_inj.mp
    rw [posted.2, (ledger.add (slot rrtime par)).idle empty]
    rfl
  · rw [posted.1, posted.2]
    change _ ≤ (ledger.add (slot rrtime par)).ratio
    linarith

theorem add_all_carries (res : ResTracer) (tasks : List SchedAttr) (q : ℚ) (carries : Carries res q)
    (sound : Along fp rrtime (Sound fp rrtime) res tasks) :
    Carries (addAll fp rrtime res tasks) (q + countedLoad tasks) := by
  induction tasks generalizing res q with
  | nil => simpa [addAll, countedLoad, load] using carries
  | cons par rest ih =>
      have next := added_carries fp rrtime res par q carries sound.1
      have tail := ih _ _ next sound.2
      rwa [counted_load_cons, ← add_assoc]

/-- A task that passes the test fits next to a load that is accounted for. -/
theorem passed_load_le_one (res : ResTracer) (par : SchedAttr) (q : ℚ) (carries : Carries res q)
    (sound : Sound fp rrtime res par) (passed : verdict fp rrtime res par ≠ -1) :
    q + (if counts par then (task par).share else 0) ≤ 1 := by
  have within : newU fp rrtime res par ≤ 1 := by
    by_contra exceeds
    exact passed (if_pos (not_le.mp exceeds))
  refine (added_carries fp rrtime res par q carries sound).covers.trans ?_
  exact div_le_one_of_le₀ (by exact_mod_cast sound.rounding within) (Nat.cast_nonneg _)

/-- Tested additions to an unused tracer leave an exact load of at most one. -/
theorem idle_load_le_one (res : ResTracer) (tasks : List SchedAttr) (base : res.basePeriod = 0)
    (idle : res.usedPeriod = 0) (sound : Along fp rrtime (Sound fp rrtime) res tasks)
    (accepted : Along fp rrtime (fun res par => verdict fp rrtime res par ≠ -1) res tasks) :
    countedLoad tasks ≤ 1 := by
  have start : Carries res 0 := ⟨fun _ => idle, by simp [base]⟩
  rcases List.eq_nil_or_concat tasks with empty | ⟨before, par, split⟩
  · subst empty
    simp [countedLoad, load]
  · subst split
    rw [List.concat_eq_append] at sound accepted ⊢
    have carries := add_all_carries fp rrtime res before 0 start
      ((along_append fp rrtime _ res before [par]).mp sound).1
    rw [zero_add] at carries
    rw [counted_load_append, counted_load_cons]
    have passed := passed_load_le_one fp rrtime _ par _ carries
      (along_at fp rrtime _ _ before [] par sound) (along_at fp rrtime _ _ before [] par accepted)
    simpa [countedLoad, load] using passed

theorem accepted_load_le_one (trc : Nat) (tasks : List SchedAttr)
    (sound : Along fp rrtime (Sound fp rrtime) (freshTracer trc) tasks)
    (accepted : Along fp rrtime (fun res par => verdict fp rrtime res par ≠ -1) (freshTracer trc)
      tasks) : countedLoad tasks ≤ 1 :=
  idle_load_le_one fp rrtime (freshTracer trc) tasks rfl rfl sound accepted

end Tested

section Hard
variable (fp : Rounding) (rrtime : Int) (conts : Containers)

/-- A task with a CPU of its own is placed there untested; here it would pass. -/
def HardFits (trcs : Tracers) (alloc : ResAlloc) : Prop :=
  0 ≤ (rscsOf conts alloc.item).affinity → ∀ trc, pick fp rrtime conts trcs alloc = some trc →
    verdict fp rrtime (trcs.trcAt trc) (attrOf conts alloc.item) ≠ -1

theorem plan_one_accepts (trcs : Tracers) (alloc : ResAlloc) (outer : List ResAlloc)
    (books : Books fp rrtime conts trcs outer) (accepts : Accepts fp rrtime trcs) :
    Accepts fp rrtime (planOne fp rrtime conts trcs alloc).1 ↔ HardFits fp rrtime conts trcs alloc := by
  cases found : pick fp rrtime conts trcs alloc with
  | none =>
      rw [plan_one_none fp rrtime conts trcs alloc found]
      exact iff_of_true accepts fun _ trc same => by simp [found] at same
  | some trc =>
      rw [plan_one_found fp rrtime conts trcs alloc trc found]
      constructor
      · intro later _ other same
        cases found.symm.trans same
        have along := later trc
        rw [tasks_of_add, if_pos rfl, along_append, ← books.replay] at along
        exact along.2.1
      · intro fits
        have passed : verdict fp rrtime (trcs.trcAt trc) (attrOf conts alloc.item) ≠ -1 := by
          by_cases hard : 0 ≤ (rscsOf conts alloc.item).affinity
          · exact fits hard trc found
          · have test := check_period_flexible fp rrtime trcs _ _ _ trc (by omega) found
            omega
        exact accepts_add fp rrtime conts trcs outer trc _ books accepts passed

theorem plan_pass_accepts (unmatched : SchedAttr → Bool) (trcs : Tracers)
    (allocs outer : List ResAlloc) (books : Books fp rrtime conts trcs (allocs ++ outer))
    (accepts : Accepts fp rrtime trcs) :
    Accepts fp rrtime (planPass fp rrtime unmatched conts trcs allocs).1 ↔
      AtTurns fp rrtime unmatched conts (HardFits fp rrtime conts) trcs allocs := by
  induction allocs generalizing trcs outer with
  | nil => exact iff_of_true accepts trivial
  | cons alloc rest ih =>
      by_cases turn : turns unmatched conts alloc
      · have booked := plan_one_books fp rrtime conts trcs alloc (rest ++ outer)
          (turns_unassigned unmatched conts alloc turn) books
        have step := plan_one_accepts fp rrtime conts trcs alloc _ books accepts
        have tail := ih _ _ (books_perm fp rrtime List.perm_middle.symm booked)
        rw [plan_pass_turn fp rrtime unmatched conts trcs alloc rest turn, AtTurns, if_pos turn]
        constructor
        · intro later
          have next := accepts_earlier fp rrtime (plan_pass_grows fp rrtime unmatched conts _ rest) later
          exact ⟨step.mp next, (tail next).mp later⟩
        · exact fun both => (tail (step.mpr both.1)).mpr both.2
      · rw [plan_pass_skip fp rrtime unmatched conts trcs alloc rest turn, AtTurns, if_neg turn]
        exact ih trcs (alloc :: outer) (books_perm fp rrtime List.perm_middle.symm books) accepts

/-- Only a task with a CPU of its own can be added without room for it. -/
theorem plan_known_accepts (sched : Schedule)
    (books : Books fp rrtime sched.1.conts sched.1.trcs sched.2)
    (accepts : Accepts fp rrtime sched.1.trcs) :
    Accepts fp rrtime (planKnown fp rrtime sched).1 ↔
      Turns fp rrtime (HardFits fp rrtime sched.1.conts) sched := by
  have sorted := books_perm fp rrtime (plan_order_perm fp sched).symm books
  have first := plan_pass_accepts fp rrtime sched.1.conts noDetail sched.1.trcs (planOrder fp sched)
    [] (by simpa using sorted) accepts
  have second := plan_pass_accepts fp rrtime sched.1.conts noRuntime (planFirst fp rrtime sched).1
    (planFirst fp rrtime sched).2 [] (by simpa using plan_first_books fp rrtime sched books)
  constructor
  · intro later
    have middle := accepts_earlier fp rrtime (plan_known_grows fp rrtime sched) later
    exact ⟨first.mp middle, (second middle).mp later⟩
  · exact fun both => (second (first.mpr both.1)).mpr both.2

end Hard

section Rest
variable (conts : Containers)

/-- The tasks no pass before the last one found a tracer for. -/
def leftover (allocs : List ResAlloc) : List SchedAttr :=
  (allocs.filter fun alloc => alloc.assigned.isNone).map fun alloc => attrOf conts alloc.item

theorem leftover_cons (alloc : ResAlloc) (allocs : List ResAlloc) :
    leftover conts (alloc :: allocs) =
      if alloc.assigned.isNone then attrOf conts alloc.item :: leftover conts allocs
      else leftover conts allocs := by
  by_cases free : alloc.assigned.isNone <;> simp [leftover, free]

/-- The last pass gives one tracer all that was left over. -/
theorem settled_perm (found : Option Nat) (allocs : List ResAlloc) (trc : Nat) :
    (countedAllocs conts (allocs.map (settle found)) trc).Perm
      (countedAllocs conts allocs trc ++ if found = some trc then leftover conts allocs else []) := by
  induction allocs with
  | nil => simp [countedAllocs, leftover]
  | cons alloc rest ih =>
      rw [List.map_cons, counted_allocs_cons, counted_allocs_cons, leftover_cons]
      cases place : alloc.assigned with
      | none =>
          simp only [settle, place, Option.isNone_none, ↓reduceIte, reduceCtorEq]
          by_cases here : found = some trc
          · simp only [here, ↓reduceIte] at ih ⊢
            exact (ih.cons _).trans List.perm_middle.symm
          · simpa only [here, ↓reduceIte] using ih
      | some other =>
          simp only [settle, place, Option.isNone_some, Bool.false_eq_true, ↓reduceIte]
          by_cases here : some other = some trc
          · simp only [here, ↓reduceIte, List.cons_append]
            exact ih.cons _
          · simpa only [here, ↓reduceIte] using ih

theorem settled_load (found : Option Nat) (allocs : List ResAlloc) (trc : Nat) :
    plannedLoad conts (allocs.map (settle found)) trc =
      plannedLoad conts allocs trc +
        if found = some trc then countedLoad (leftover conts allocs) else 0 := by
  rw [plannedLoad, counted_load_perm (settled_perm conts found allocs trc), counted_load_append]
  split_ifs
  · rfl
  · rfl

theorem leftover_member (allocs : List ResAlloc) (alloc : ResAlloc) (member : alloc ∈ allocs)
    (free : alloc.assigned = none) : attrOf conts alloc.item ∈ leftover conts allocs :=
  List.mem_map.mpr ⟨alloc, List.mem_filter.mpr ⟨member, by simp [free]⟩, rfl⟩

end Rest

section Known
variable (fp : Rounding) (rrtime : Int)

/-- A task that would exceed the tracer's exact capacity is refused, and only
such a task. -/
theorem counted_verdict (trc : Nat) (tasks : List SchedAttr) (par : SchedAttr)
    (counted : ∀ other ∈ tasks ++ [par], counts other = true)
    (fits : Along fp rrtime (NoWrap rrtime) (freshTracer trc) (tasks ++ [par]))
    (within : load ((tasks ++ [par]).map task) ≤ 1) :
    newU fp rrtime (addAll fp rrtime (freshTracer trc) tasks) par ≤ 1 := by
  have tracks := add_all_tracks_tasks fp rrtime (freshTracer trc) (tasks ++ [par])
    (fun other member => (counts_asks other (counted other member)).1)
    (idle_tracks fp _ rfl rfl) fits
  rw [add_all_append] at tracks
  have ratio := ratio_post ((tasks ++ [par]).map task)
  have base := base_post ((tasks ++ [par]).map task) (by simp)
  have span : (0 : ℚ) < (post ((tasks ++ [par]).map task)).base := by
    rw [base]
    exact_mod_cast hyper_pos _
  rw [← ratio, Ledger.ratio, div_le_one span] at within
  calc newU fp rrtime (addAll fp rrtime (freshTracer trc) tasks) par
      = quotient fp (post ((tasks ++ [par]).map task)).used (post ((tasks ++ [par]).map task)).base :=
        tracks.u (by simp)
    _ ≤ 1 := quotient_le_one fp _ _ (by exact_mod_cast within)

theorem passes_of_fits (trc : Nat) (tasks : List SchedAttr) (par : SchedAttr)
    (nonneg : 0 ≤ (addAll fp rrtime (freshTracer trc) tasks).u)
    (within : newU fp rrtime (addAll fp rrtime (freshTracer trc) tasks) par ≤ 1)
    (score : ScoreFits fp rrtime (addAll fp rrtime (freshTracer trc) tasks) par) :
    0 ≤ verdict fp rrtime (addAll fp rrtime (freshTracer trc) tasks) par := by
  rw [verdict, if_neg (not_lt.mpr within)]
  exact score_nonneg fp rrtime _ par score fun _ => nonneg

/-- A refused task would have exceeded the exact capacity. -/
theorem refused_load (trc : Nat) (tasks : List SchedAttr) (par : SchedAttr)
    (counted : ∀ other ∈ tasks ++ [par], counts other = true)
    (fits : Along fp rrtime (NoWrap rrtime) (freshTracer trc) (tasks ++ [par]))
    (score : ScoreFits fp rrtime (addAll fp rrtime (freshTracer trc) tasks) par)
    (refused : verdict fp rrtime (addAll fp rrtime (freshTracer trc) tasks) par < 0) :
    1 < load ((tasks ++ [par]).map task) := by
  by_contra within
  have passes := passes_of_fits fp rrtime trc tasks par
    (add_all_u_nonneg fp rrtime (freshTracer trc) tasks le_rfl)
    (counted_verdict fp rrtime trc tasks par counted fits (not_lt.mp within)) score
  omega

/-- While the exact load fits, no addition is refused. -/
theorem accepted_of_load (trc : Nat) (tasks : List SchedAttr)
    (counted : ∀ par ∈ tasks, counts par = true)
    (fits : Along fp rrtime (NoWrap rrtime) (freshTracer trc) tasks)
    (within : load (tasks.map task) ≤ 1) :
    Along fp rrtime (fun res par => verdict fp rrtime res par ≠ -1) (freshTracer trc) tasks := by
  induction tasks using List.reverseRecOn with
  | nil => trivial
  | append_singleton tasks par ih =>
      have early := (along_append fp rrtime _ _ tasks [par]).mp fits
      have share := share_nonneg (task par)
      have smaller : load (tasks.map task) ≤ 1 := by
        rw [List.map_append, List.map_singleton, load_append] at within
        linarith
      have nonneg := add_all_u_nonneg fp rrtime (freshTracer trc) tasks le_rfl
      have passes := (verdict_refused_iff fp rrtime _ par nonneg).not.mpr
        (not_lt.mpr (counted_verdict fp rrtime trc tasks par counted fits within))
      rw [along_append]
      exact ⟨ih (fun other member => counted other (List.mem_append_left _ member)) early.1 smaller,
        passes, trivial⟩

theorem accepted_u_le_one (trc : Nat) (tasks : List SchedAttr)
    (accepted : Along fp rrtime (fun res par => verdict fp rrtime res par ≠ -1) (freshTracer trc)
      tasks) : (addAll fp rrtime (freshTracer trc) tasks).u ≤ 1 := by
  rcases List.eq_nil_or_concat tasks with empty | ⟨before, par, split⟩
  · subst empty
    exact zero_le_one
  · subst split
    rw [List.concat_eq_append] at accepted ⊢
    have passed := along_at fp rrtime _ _ before [] par accepted
    rw [add_all_append]
    by_contra exceeds
    exact passed (if_pos (not_le.mp exceeds))

end Known

section Plan
variable (fp : Rounding) (rrtime : Int)

/-- Every `checkUvalue` of the two passes works without wrap-around, and with a
score that `int` holds. -/
def ChecksFit (sched : Schedule) : Prop :=
  Turns fp rrtime (fun trcs alloc => ∀ trc ∈ trcs.rHead,
    NoWrap rrtime (trcs.trcAt trc) (attrOf sched.1.conts alloc.item) ∧
      ScoreFits fp rrtime (trcs.trcAt trc) (attrOf sched.1.conts alloc.item)) sched

/-- No counted task is left for the last pass to place. -/
def RestFits (sched : Schedule) : Prop :=
  GoodRest fp (fun item _ => counts (attrOf sched.1.conts item) = false) (planKnown fp rrtime sched)

theorem known_load (sched : Schedule) (books : Books fp rrtime sched.1.conts sched.1.trcs sched.2)
    (trc : Nat) : plannedLoad sched.1.conts (planKnown fp rrtime sched).2 trc =
      countedLoad (tasksOf (planKnown fp rrtime sched).1 trc) :=
  counted_load_perm ((plan_known_books fp rrtime sched books).backed trc)

theorem plan_load (sched : Schedule) (books : Books fp rrtime sched.1.conts sched.1.trcs sched.2)
    (trc : Nat) : plannedLoad sched.1.conts (adaptPlanSchedule fp rrtime sched).2 trc =
      countedLoad (tasksOf (planKnown fp rrtime sched).1 trc) +
        if grepTracer fp (planKnown fp rrtime sched).1 = some trc then
          countedLoad (leftover sched.1.conts (planKnown fp rrtime sched).2) else 0 := by
  rw [plan_eq, settled_load, known_load fp rrtime sched books]

theorem feasible_of_fits (sched : Schedule)
    (books : Books fp rrtime sched.1.conts sched.1.trcs sched.2)
    (accepts : Accepts fp rrtime sched.1.trcs)
    (sound : ∀ trc, Along fp rrtime (Sound fp rrtime) (freshTracer trc)
      (tasksOf (planKnown fp rrtime sched).1 trc))
    (hard : Turns fp rrtime (HardFits fp rrtime sched.1.conts) sched) (rest : RestFits fp rrtime sched) :
    Feasible sched.1.conts (adaptPlanSchedule fp rrtime sched).2 := by
  intro trc
  have accepted := (plan_known_accepts fp rrtime sched books accepts).mpr hard trc
  have tested := accepted_load_le_one fp rrtime trc _ (sound trc) accepted
  rw [plan_load fp rrtime sched books]
  split_ifs with found
  -- this tracer gets the rest, which has no task that counts
  · have none : (leftover sched.1.conts (planKnown fp rrtime sched).2).filter counts = [] := by
      rw [List.filter_eq_nil_iff]
      intro par member
      obtain ⟨alloc, inside, same⟩ := List.mem_map.mp member
      obtain ⟨known, free⟩ := List.mem_filter.mp inside
      have uncounted := rest trc found alloc known (by simpa using free)
      rw [← same, uncounted]
      decide
    have zero : countedLoad (leftover sched.1.conts (planKnown fp rrtime sched).2) = 0 := by
      rw [countedLoad, none]
      rfl
    linarith
  · linarith

/-- Every task is known, and a CPU of its own is one the plan may use. -/
structure AllKnown (sched : Schedule) : Prop where
  counted : ∀ alloc ∈ sched.2, counts (attrOf sched.1.conts alloc.item) = true
  linked : ∀ alloc ∈ sched.2, alloc.assigned = none → 0 ≤ (rscsOf sched.1.conts alloc.item).affinity →
    (rscsOf sched.1.conts alloc.item).affinity.toNat ∈ sched.1.trcs.rHead

theorem tasks_counted (sched : Schedule)
    (books : Books fp rrtime sched.1.conts sched.1.trcs sched.2) (known : AllKnown sched) (trc : Nat) :
    ∀ par ∈ tasksOf (planKnown fp rrtime sched).1 trc, counts par = true := by
  intro par member
  have backed := (plan_known_books fp rrtime sched books).backed trc
  obtain ⟨alloc, inside, same⟩ := List.mem_map.mp (backed.mem_iff.mpr member)
  obtain ⟨before, origin, item⟩ := plan_known_items fp rrtime sched alloc (List.mem_filter.mp inside).1
  rw [← same, ← item]
  exact known.counted before origin

theorem get_tracer_linked (conts : Containers) (trcs : Tracers) (allocs : List ResAlloc)
    (books : Books fp rrtime conts trcs allocs) (cpu : Int) (nonneg : 0 ≤ cpu)
    (linked : cpu.toNat ∈ trcs.rHead) : (getTracer trcs cpu).isSome := by
  have holds : isbitset (trcs.trcAt cpu.toNat).affinity cpu = true := by
    rw [books.replay, add_all_affinity]
    simp [isbitset, freshTracer, nonneg]
  exact List.find?_isSome.mpr ⟨cpu.toNat, linked, holds⟩

/-- Only a task without a CPU of its own can be left without a tracer. -/
theorem unplaced_flexible (conts : Containers) (trcs : Tracers) (allocs : List ResAlloc)
    (alloc : ResAlloc) (books : Books fp rrtime conts trcs allocs)
    (linked : 0 ≤ (rscsOf conts alloc.item).affinity →
      (rscsOf conts alloc.item).affinity.toNat ∈ trcs.rHead)
    (none : pick fp rrtime conts trcs alloc = none) : (rscsOf conts alloc.item).affinity < 0 := by
  by_contra hard
  have nonneg := not_lt.mp hard
  have found := get_tracer_linked fp rrtime conts trcs allocs books _ nonneg (linked nonneg)
  rw [pick, checkPeriod, if_pos nonneg] at none
  simp [none] at found

/-- A known task without a tracer did not fit on any of them at its turn. -/
theorem leftover_exceeds (sched : Schedule)
    (books : Books fp rrtime sched.1.conts sched.1.trcs sched.2) (known : AllKnown sched)
    (fits : ∀ trc, Along fp rrtime (NoWrap rrtime) (freshTracer trc)
      (tasksOf (planKnown fp rrtime sched).1 trc))
    (checks : ChecksFit fp rrtime sched) (light : 1 < tolMin fp 10)
    (accepts : Accepts fp rrtime (planKnown fp rrtime sched).1) (alloc : ResAlloc)
    (member : alloc ∈ (planKnown fp rrtime sched).2) (free : alloc.assigned = none) (trc : Nat)
    (linked : trc ∈ sched.1.trcs.rHead) :
    1 < countedLoad (tasksOf (planKnown fp rrtime sched).1 trc) +
      (task (attrOf sched.1.conts alloc.item)).share := by
  have first := settles_origin (plan_known_settles fp rrtime sched) alloc member free
  have sorted := books_perm fp rrtime (plan_order_perm fp sched).symm books
  obtain ⟨ordered, turned⟩ := plan_pass_leftover fp rrtime noDetail sched.1.conts _ sched.1.trcs
    (planOrder fp sched) [] (by simpa using sorted) checks.1 alloc first free
  have origin := (plan_order_perm fp sched).mem_iff.mp ordered
  have counted := known.counted alloc origin
  -- a known task has its turn in the first pass
  have detail : noDetail (attrOf sched.1.conts alloc.item) = false := by
    have asks := counts_asks _ counted
    simp [noDetail, asks.1.runtime, asks.2]
  obtain ⟨earlier, others, begun, booked, roomy, none, later⟩ := turned detail
  have heads := begun.1
  have grows := grows_trans later (plan_known_grows fp rrtime sched)
  have flexible := unplaced_flexible fp rrtime sched.1.conts earlier others alloc booked
    (fun hard => heads ▸ known.linked alloc origin free hard) none
  have early := accepts_earlier fp rrtime grows accepts
  have refused := check_period_none fp rrtime earlier _ _ _ flexible
    (fun other _ => by
      rw [booked.replay]
      exact (accepted_u_le_one fp rrtime other _ (early other)).trans_lt light) none trc
    (heads ▸ linked)
  obtain ⟨more, tasks⟩ := tasks_of_grows grows trc
  -- the tracer only gained tasks since that turn
  have together : ∀ par ∈ tasksOf earlier trc ++ [attrOf sched.1.conts alloc.item],
      counts par = true := by
    intro par inside
    rcases List.mem_append.mp inside with before | now
    · exact tasks_counted fp rrtime sched books known trc par (tasks ▸ List.mem_append_left _ before)
    · exact List.mem_singleton.mp now ▸ counted
  have roomyAll : Along fp rrtime (NoWrap rrtime) (freshTracer trc)
      (tasksOf earlier trc ++ [attrOf sched.1.conts alloc.item]) := by
    rw [along_append, ← booked.replay]
    exact ⟨((along_append fp rrtime _ _ _ more).mp (tasks ▸ fits trc)).1,
      (roomy trc (heads ▸ linked)).1, trivial⟩
  have score := (roomy trc (heads ▸ linked)).2
  rw [booked.replay] at refused score
  have exceeds := refused_load fp rrtime trc _ _ together roomyAll score refused
  rw [← counted_load_all _ together, counted_load_append] at exceeds
  have single : countedLoad [attrOf sched.1.conts alloc.item] =
      (task (attrOf sched.1.conts alloc.item)).share := by
    simp [counted, countedLoad, load]
  have extra := counted_load_nonneg more
  rw [tasks, counted_load_append]
  linarith

theorem fits_of_feasible (sched : Schedule)
    (books : Books fp rrtime sched.1.conts sched.1.trcs sched.2)
    (accepts : Accepts fp rrtime sched.1.trcs) (known : AllKnown sched)
    (fits : ∀ trc, Along fp rrtime (NoWrap rrtime) (freshTracer trc)
      (tasksOf (planKnown fp rrtime sched).1 trc))
    (checks : ChecksFit fp rrtime sched) (light : 1 < tolMin fp 10)
    (feasible : Feasible sched.1.conts (adaptPlanSchedule fp rrtime sched).2) :
    Turns fp rrtime (HardFits fp rrtime sched.1.conts) sched ∧ RestFits fp rrtime sched := by
  have rest := counted_load_nonneg (leftover sched.1.conts (planKnown fp rrtime sched).2)
  -- a feasible load leaves no reason to refuse an addition
  have accepted : Accepts fp rrtime (planKnown fp rrtime sched).1 := fun trc => by
    have counted := tasks_counted fp rrtime sched books known trc
    refine accepted_of_load fp rrtime trc _ counted (fits trc) ?_
    have bound := feasible trc
    rw [plan_load fp rrtime sched books] at bound
    rw [← counted_load_all _ counted]
    split_ifs at bound <;> linarith
  refine ⟨(plan_known_accepts fp rrtime sched books accepts).mp accepted, ?_⟩
  intro trc found alloc member free
  have linked := grep_tracer_linked fp _ trc found
  rw [(plan_known_grows fp rrtime sched).1, (plan_first_grows fp rrtime sched).1] at linked
  have exceeds := leftover_exceeds fp rrtime sched books known fits checks light accepted alloc member
    free trc linked
  obtain ⟨before, origin, same⟩ := plan_known_items fp rrtime sched alloc member
  have counted : counts (attrOf sched.1.conts alloc.item) = true := same ▸ known.counted before origin
  have share := counted_load_member _ _ (leftover_member sched.1.conts _ alloc member free) counted
  have bound := feasible trc
  rw [plan_load fp rrtime sched books, if_pos found] at bound
  linarith

end Plan

/-- The additions of preparation and plan neither wrap nor round an excess away. -/
def SoundAdds (rrtime : Int) (sched : Schedule) : Prop :=
  ∀ trc, Along ieee rrtime (Sound ieee rrtime) (freshTracer trc)
    (tasksOf (adaptPlanSchedule ieee rrtime sched).1.trcs trc)

/-- A plan is feasible when each task with a CPU of its own passes the test it
is not put to and no known task is left for the last pass. If all tasks are
known, it is feasible only then. -/
theorem plan_feasible_iff (numa : Numa) (set : PrgSet) (contparm : Containers) (sched : Schedule)
    (run : adaptPrepareSchedule ieee numa set contparm = .ok sched)
    (sound : SoundAdds set.rrtime sched) :
    (Turns ieee set.rrtime (HardFits ieee set.rrtime sched.1.conts) sched ∧
        RestFits ieee set.rrtime sched →
      Feasible sched.1.conts (adaptPlanSchedule ieee set.rrtime sched).2) ∧
    (AllKnown sched → ChecksFit ieee set.rrtime sched →
      Feasible sched.1.conts (adaptPlanSchedule ieee set.rrtime sched).2 →
        Turns ieee set.rrtime (HardFits ieee set.rrtime sched.1.conts) sched ∧
          RestFits ieee set.rrtime sched) := by
  have prepared := prepared_of_run ieee numa set contparm sched run
  refine ⟨fun fits => ?_, fun known checks feasible => ?_⟩
  · exact feasible_of_fits ieee set.rrtime sched prepared.books prepared.accepts sound fits.1 fits.2
  · refine fits_of_feasible ieee set.rrtime sched prepared.books prepared.accepts known
      (fun trc => ?_) checks (by decide +kernel) feasible
    exact along_mono ieee set.rrtime _ _ _ _ (fun _ _ exact => exact.fits) (sound trc)

theorem along_of_log (fp : Rounding) (rrtime : Int) (property : ResTracer → SchedAttr → Prop)
    (trcs : Tracers) (listed : ∀ entry ∈ trcs.log, Along fp rrtime property (freshTracer entry.1)
      (tasksOf trcs entry.1)) (trc : Nat) :
    Along fp rrtime property (freshTracer trc) (tasksOf trcs trc) := by
  by_cases used : ∃ entry ∈ trcs.log, entry.1 = trc
  · obtain ⟨entry, member, same⟩ := used
    exact same ▸ listed entry member
  · have empty : tasksOf trcs trc = [] := by
      rw [tasksOf, List.map_eq_nil_iff, List.filter_eq_nil_iff]
      intro entry member same
      exact used ⟨entry, member, by simpa using same⟩
    rw [empty]
    trivial

def heavy : SchedAttr :=
  { schedPolicy := schedFifo, schedPriority := 10, schedRuntime := 6000000, schedPeriod := 10000000 }

/-- Three containers of 0.6 CPUs each, free to run on any CPU. -/
def threeHeavy : Containers where
  cont := [3, 2, 1]
  contAt := fun c => { attr := 1, rscs := c }
  attrAt := fun _ => heavy
  rscsAt := fun _ => { affinity := -1 }
  brk := 4

theorem plan_feasible_on_three_cpus :
    ∃ sched, adaptPrepareSchedule ieee threeCpus pinnedSet threeHeavy = .ok sched ∧
      Feasible sched.1.conts (adaptPlanSchedule ieee pinnedSet.rrtime sched).2 := by
  have fits : returns (adaptPrepareSchedule ieee threeCpus pinnedSet threeHeavy) (fun sched =>
      ((adaptPlanSchedule ieee 0 sched).1.trcs.log.all fun entry =>
        decide (Along ieee 0 (Sound ieee 0) (freshTracer entry.1)
          (tasksOf (adaptPlanSchedule ieee 0 sched).1.trcs entry.1))) &&
      (sched.2.all fun alloc => decide ((rscsOf sched.1.conts alloc.item).affinity < 0)) &&
      ((planKnown ieee 0 sched).2.all fun alloc => alloc.assigned.isSome)) = true := by
    decide +kernel
  obtain ⟨sched, run, check⟩ := (returns_iff _ _).mp fits
  simp only [Bool.and_eq_true, List.all_eq_true, decide_eq_true_eq] at check
  refine ⟨sched, run, (plan_feasible_iff threeCpus pinnedSet threeHeavy sched run
    (along_of_log ieee 0 _ _ check.1.1)).1 ⟨?_, ?_⟩⟩
  · refine turns_of ieee 0 _ sched fun later alloc _ member _ hard => ?_
    exact absurd (check.1.2 alloc member) (not_lt.mpr hard)
  · intro trc _ alloc member free
    have placed := check.2 alloc member
    simp [free] at placed

-- On two CPUs the third container fits nowhere; the last pass puts it on CPU 0.
theorem plan_overloads_two_cpus :
    ∃ sched, adaptPrepareSchedule ieee threeCpus { pinnedSet with affinityMask := some {0, 1} } threeHeavy =
        .ok sched ∧ ¬ Feasible sched.1.conts (adaptPlanSchedule ieee 0 sched).2 := by
  have stacked : returns (adaptPrepareSchedule ieee threeCpus
      { pinnedSet with affinityMask := some {0, 1} } threeHeavy) (fun sched =>
        countedAllocs sched.1.conts (adaptPlanSchedule ieee 0 sched).2 0 == [heavy, heavy]) = true := by
    decide +kernel
  obtain ⟨sched, run, check⟩ := (returns_iff _ _).mp stacked
  refine ⟨sched, run, fun feasible => ?_⟩
  have bound := feasible 0
  rw [plannedLoad, beq_iff_eq.mp check, counted_load_cons, counted_load_cons] at bound
  revert bound
  decide +kernel

end Orchestrator.PlanLoad
