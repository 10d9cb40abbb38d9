import Orchestrator.LoadOrder
import Orchestrator.PlanLoad

/-!
Two accounts of one plan: the totals kept while tasks are added, and those
`recomputeTimes_S` gets from the assignments. The last pass assigns without adding,
and a CPU of its own gives a task of unknown runtime its place out of list order.
-/

namespace Orchestrator.PlanAgreement
open Orchdata Resmgnt Adaptive HyperPeriod Accounting Admission Recompute Prepare Plan PlanMasks
open PlanLoad Traversal LoadOrder BlockOrder

section Weightless
variable (fp : Rounding) (rrtime : Int)

/-- No task has a runtime: neither account counts more than periods. -/
def Weightless (tasks : List SchedAttr) : Prop := ∀ par ∈ tasks, par.schedRuntime = 0

/-- Nothing is used, as far as the tracer is in use. -/
structure Unused (res : ResTracer) : Prop where
  used : res.usedPeriod = 0
  u : res.basePeriod ≠ 0 → res.u = 0

theorem quotient_zero (base : Nat) : quotient fp 0 base = 0 := by
  simp [quotient, fp.dbl_zero, fp.flt_zero]

variable {res : ResTracer} {par : SchedAttr}

theorem new_used_weightless (unused : Unused res) (weightless : par.schedRuntime = 0) :
    newUsed rrtime res par = 0 := by
  have nothing := used_idle res par unused.used
  simp [newUsed, scaledUsed, nothing, weightless]

theorem added_unused (unused : Unused res) (weightless : par.schedRuntime = 0) :
    Unused (added fp rrtime res par) := by
  have nothing := new_used_weightless rrtime unused weightless
  refine ⟨nothing, fun _ => ?_⟩
  change quotient fp (newUsed rrtime res par).toNat (newBase rrtime res par).toNat = 0
  rw [nothing]
  exact quotient_zero fp _

theorem unused_accepted (unused : Unused res) (weightless : par.schedRuntime = 0) :
    0 ≤ verdict fp rrtime res par := by
  have within : newU fp rrtime res par ≤ 1 := by
    rw [newU, new_used_weightless rrtime unused weightless]
    exact (quotient_zero fp _).trans_le zero_le_one
  have fits : ScoreFits fp rrtime res par := fun busy _ => by
    have silent : interference fp res.u res.basePeriod.toNat (baset rrtime par).toNat = 0 := by
      simp [interference, unused.u busy, fp.dbl_zero]
    rw [silent]
    decide
  rw [verdict, if_neg (not_lt.mpr within)]
  exact score_nonneg fp rrtime res par fits fun busy => (unused.u busy).ge

theorem weightless_accepted (res : ResTracer) {tasks : List SchedAttr}
    (weightless : Weightless tasks) (unused : Unused res) :
    Along fp rrtime (fun trc par => 0 ≤ verdict fp rrtime trc par) res tasks := by
  induction tasks generalizing res with
  | nil => trivial
  | cons par rest ih =>
      have none := weightless par List.mem_cons_self
      exact ⟨unused_accepted fp rrtime unused none,
        ih _ (fun other inside => weightless other (List.mem_cons_of_mem par inside))
          (added_unused fp rrtime unused none)⟩

theorem book_weightless {tasks : List SchedAttr} (weightless : Weightless tasks) (l : Ledger)
    (nothing : l.used = 0) : (book rrtime l tasks).used = 0 := by
  induction tasks generalizing l with
  | nil => exact nothing
  | cons par rest ih =>
      have none := weightless par List.mem_cons_self
      refine ih (fun other inside => weightless other (List.mem_cons_of_mem par inside)) _ ?_
      have runtime : (slot rrtime par).runtime = 0 := by
        simp [slot, none]
      unfold entry
      split_ifs <;> simp [Ledger.add, Ledger.raise, nothing, runtime]

end Weightless

section Spans
variable (rrtime : Int)

theorem book_append (l : Ledger) (left right : List SchedAttr) :
    book rrtime l (left ++ right) = book rrtime (book rrtime l left) right :=
  List.foldl_append

theorem book_base_dvd (l : Ledger) (tasks : List SchedAttr) (busy : l.base ≠ 0) :
    l.base ∣ (book rrtime l tasks).base := by
  induction tasks generalizing l with
  | nil => exact dvd_rfl
  | cons par rest ih =>
      have step := entry_base rrtime l par
      have next := ih (entry rrtime l par) (step ▸ (span_pos _ _).ne')
      exact (step ▸ base_dvd_span l.base _ busy).trans next

theorem book_period_dvd (l : Ledger) {tasks : List SchedAttr} {par : SchedAttr}
    (member : par ∈ tasks) : (slot rrtime par).period ∣ (book rrtime l tasks).base := by
  obtain ⟨before, after, rfl⟩ := List.append_of_mem member
  rw [book_append]
  have step := entry_base rrtime (book rrtime l before) par
  have next := book_base_dvd rrtime (entry rrtime (book rrtime l before) par) after
    (step ▸ (span_pos _ _).ne')
  exact (step ▸ period_dvd_span _ _).trans next

/-- Periods that divide the base leave it as it is. -/
theorem book_base_absorbs (l : Ledger) (tasks : List SchedAttr) (busy : l.base ≠ 0)
    (divides : ∀ par ∈ tasks, (slot rrtime par).period ∣ l.base) :
    (book rrtime l tasks).base = l.base := by
  induction tasks generalizing l with
  | nil => rfl
  | cons par rest ih =>
      have same : (entry rrtime l par).base = l.base := by
        rw [entry_base, span, if_neg busy]
        exact Nat.lcm_eq_left (divides par List.mem_cons_self)
      have tail := ih (entry rrtime l par) (same ▸ busy) fun other inside =>
        same ▸ divides other (List.mem_cons_of_mem par inside)
      exact tail.trans same

theorem book_base_pos (l : Ledger) {tasks : List SchedAttr} (some : tasks ≠ []) :
    (book rrtime l tasks).base ≠ 0 := by
  obtain ⟨before, par, rfl⟩ := (List.eq_nil_or_concat' tasks).resolve_left some
  rw [book_append]
  change (entry rrtime (book rrtime l before) par).base ≠ 0
  rw [entry_base]
  exact (span_pos _ _).ne'

theorem ledger_ext {left right : Ledger} (used : left.used = right.used)
    (base : left.base = right.base) : left = right := by
  cases left
  cases right
  cases used
  cases base
  rfl

end Spans

section Slots
variable (rrtime : Int)

theorem slots_load_perm {left right : List SchedAttr} (order : left.Perm right) :
    load (left.map (slot rrtime)) = load (right.map (slot rrtime)) :=
  load_perm (order.map _)

theorem slots_load_append (left right : List SchedAttr) :
    load ((left ++ right).map (slot rrtime)) =
      load (left.map (slot rrtime)) + load (right.map (slot rrtime)) := by
  simp [load]

theorem slots_load_pos (tasks : List SchedAttr) (loads : ∀ par ∈ tasks, Loads rrtime par)
    (busy : tasks ≠ []) : 0 < load (tasks.map (slot rrtime)) := by
  induction tasks with
  | nil => exact absurd rfl busy
  | cons par rest ih =>
      have head := slot_share_pos rrtime par (loads par List.mem_cons_self)
      by_cases last : rest = []
      · subst last
        simpa [load] using head
      · have tail := ih (fun other member => loads other (List.mem_cons_of_mem par member)) last
        simp only [load, List.map_cons, List.sum_cons] at tail ⊢
        linarith

end Slots

section Accounts
variable (fp : Rounding) (rrtime : Int)

/-- The tasks a plan assigns to a tracer, in list order. -/
def plannedTasks (sched : Schedule) (trc : Nat) : List SchedAttr :=
  countedAllocs sched.1.conts (adaptPlanSchedule fp rrtime sched).2 trc

/-- The tasks added to a tracer by preparation and the first two passes, in that order. -/
def addedTasks (sched : Schedule) (trc : Nat) : List SchedAttr :=
  tasksOf (planKnown fp rrtime sched).1 trc

/-- The tasks the last pass assigns to a tracer. -/
def restTasks (sched : Schedule) (trc : Nat) : List SchedAttr :=
  if grepTracer fp (planKnown fp rrtime sched).1 = some trc then
    leftover sched.1.conts (planKnown fp rrtime sched).2 else []

/-- Recomputing a tracer from the plan changes nothing in it. -/
def AgreesAt (sched : Schedule) (trc : Nat) : Prop :=
  (recomputeTimesS fp rrtime sched.1.conts (adaptPlanSchedule fp rrtime sched).2 trc
    ((adaptPlanSchedule fp rrtime sched).1.trcs.trcAt trc)).2 =
      (adaptPlanSchedule fp rrtime sched).1.trcs.trcAt trc

def Agrees (sched : Schedule) : Prop := ∀ trc ∈ sched.1.trcs.rHead, AgreesAt fp rrtime sched trc

/-- A tracer in use whose base period the task's period divides. -/
structure Absorbs (res : ResTracer) (par : SchedAttr) : Prop where
  busy : res.basePeriod ≠ 0
  divides : (baset rrtime par).toNat ∣ res.basePeriod.toNat

/-- The two ways in which a tracer's account stays that of its tasks. -/
inductive KeepsAccount (sched : Schedule) (trc : Nat) : Prop where
  /-- No task has a runtime, and those of the last pass bring no new period. -/
  | weightless (none : Weightless (plannedTasks fp rrtime sched trc))
      (rest : ∀ par ∈ restTasks fp rrtime sched trc,
        Absorbs rrtime ((planKnown fp rrtime sched).1.trcAt trc) par)
  /-- The last pass brings nothing, no recounted call is negative, and tasks of
  unknown runtime were added where the list has them. -/
  | placed (rest : restTasks fp rrtime sched trc = [])
      (accepted : Accepted fp rrtime (plannedTasks fp rrtime sched trc))
      (order : SameLoads (plannedTasks fp rrtime sched trc) (addedTasks fp rrtime sched trc))

/-- No period is 0, and neither account of a tracer wraps. -/
structure CountsExactly (sched : Schedule) (trc : Nat) : Prop where
  period : ∀ par ∈ plannedTasks fp rrtime sched trc, baset rrtime par ≠ 0
  adds : Along fp rrtime (NoWrap rrtime) (freshTracer trc) (addedTasks fp rrtime sched trc)
  recount : Along fp rrtime (NoWrap rrtime) {} (plannedTasks fp rrtime sched trc)

/-- The tasks of a tracer all have a runtime, or none has. -/
def Uniform (tasks : List SchedAttr) : Prop :=
  Weightless tasks ∨ ∀ par ∈ tasks, par.schedRuntime ≠ 0

variable {sched : Schedule} (books : Books fp rrtime sched.1.conts sched.1.trcs sched.2)
variable {trc : Nat}
include books

theorem planned_tasks_perm (trc : Nat) : (plannedTasks fp rrtime sched trc).Perm
    (addedTasks fp rrtime sched trc ++ restTasks fp rrtime sched trc) := by
  rw [plannedTasks, plan_eq]
  exact (settled_perm sched.1.conts _ _ trc).trans
    (((plan_known_books fp rrtime sched books).backed trc).append_right _)

theorem added_planned {par : SchedAttr} (member : par ∈ addedTasks fp rrtime sched trc) :
    par ∈ plannedTasks fp rrtime sched trc :=
  (planned_tasks_perm fp rrtime books trc).mem_iff.mpr (List.mem_append_left _ member)

theorem rest_planned {par : SchedAttr} (member : par ∈ restTasks fp rrtime sched trc) :
    par ∈ plannedTasks fp rrtime sched trc :=
  (planned_tasks_perm fp rrtime books trc).mem_iff.mpr (List.mem_append_right _ member)

/-- The tracer holds the exact book of what was added to it. -/
theorem added_mirrored (exact : CountsExactly fp rrtime sched trc) :
    Mirrors ((planKnown fp rrtime sched).1.trcAt trc)
      (book rrtime Ledger.empty (addedTasks fp rrtime sched trc)) := by
  rw [(plan_known_books fp rrtime sched books).replay trc]
  exact add_all_mirrors fp _ (fun par member => exact.period par (added_planned fp rrtime books member))
    ⟨rfl, rfl⟩ exact.adds

omit books in
theorem planned_mirrored (exact : CountsExactly fp rrtime sched trc) :
    Mirrors (addAll fp rrtime {} (plannedTasks fp rrtime sched trc))
      (book rrtime Ledger.empty (plannedTasks fp rrtime sched trc)) :=
  add_all_mirrors fp _ exact.period ⟨rfl, rfl⟩ exact.recount

/-- Equal books are equal totals, once no call is evaluated twice. -/
theorem agrees_of_books (exact : CountsExactly fp rrtime sched trc)
    (accepted : Accepted fp rrtime (plannedTasks fp rrtime sched trc))
    (same : book rrtime Ledger.empty (plannedTasks fp rrtime sched trc) =
      book rrtime Ledger.empty (addedTasks fp rrtime sched trc)) : AgreesAt fp rrtime sched trc := by
  have recount := planned_mirrored fp rrtime exact
  have kept := added_mirrored fp rrtime books exact
  have replay := (plan_known_books fp rrtime sched books).replay trc
  have base : (addAll fp rrtime {} (plannedTasks fp rrtime sched trc)).basePeriod =
      ((planKnown fp rrtime sched).1.trcAt trc).basePeriod :=
    UInt64.toNat_inj.mp (by rw [recount.base, kept.base, same])
  have used : (addAll fp rrtime {} (plannedTasks fp rrtime sched trc)).usedPeriod =
      ((planKnown fp rrtime sched).1.trcAt trc).usedPeriod :=
    UInt64.toNat_inj.mp (by rw [recount.used, kept.used, same])
  have u : (addAll fp rrtime {} (plannedTasks fp rrtime sched trc)).u =
      ((planKnown fp rrtime sched).1.trcAt trc).u := by
    have order := planned_tasks_perm fp rrtime books trc
    by_cases empty : addedTasks fp rrtime sched trc = []
    · have none : plannedTasks fp rrtime sched trc = [] := by
        by_contra some
        exact book_base_pos rrtime Ledger.empty some (by rw [same, empty]; rfl)
      rw [none, replay]
      change _ = (addAll fp rrtime (freshTracer trc) (addedTasks fp rrtime sched trc)).u
      rw [empty]
      rfl
    · have some : plannedTasks fp rrtime sched trc ≠ [] := fun none =>
        empty (List.append_eq_nil_iff.mp (List.nil_perm.mp (none ▸ order))).1
      rw [add_all_u fp {} some, base, used, replay]
      exact (add_all_u fp (freshTracer trc) empty).symm
  rw [AgreesAt, recompute_times_s_loop, show countedAllocs sched.1.conts
      (adaptPlanSchedule fp rrtime sched).2 trc = plannedTasks fp rrtime sched trc from rfl,
    min_loop_accepted fp rrtime {} _ accepted]
  change takeTotals ((planKnown fp rrtime sched).1.trcAt trc) _ = (planKnown fp rrtime sched).1.trcAt trc
  rw [takeTotals, base, used, u]

theorem agrees_of_keeps (exact : CountsExactly fp rrtime sched trc)
    (keeps : KeepsAccount fp rrtime sched trc) : AgreesAt fp rrtime sched trc := by
  have order := planned_tasks_perm fp rrtime books trc
  cases keeps with
  | placed rest accepted same =>
      exact agrees_of_books fp rrtime books exact accepted (book_same rrtime Ledger.empty same)
  | weightless none rest =>
      have kept := added_mirrored fp rrtime books exact
      have accepted := weightless_accepted fp rrtime {} none ⟨rfl, fun _ => rfl⟩
      refine agrees_of_books fp rrtime books exact accepted (ledger_ext ?_ ?_)
      · rw [book_weightless rrtime none _ rfl, book_weightless rrtime
          (fun par member => none par (added_planned fp rrtime books member)) _ rfl]
      · rw [book_base_perm rrtime Ledger.empty order, book_append]
        by_cases empty : restTasks fp rrtime sched trc = []
        · rw [empty]
          rfl
        · obtain ⟨head, member⟩ := List.exists_mem_of_ne_nil _ empty
          refine book_base_absorbs rrtime _ _ (fun zero => ?_) fun par inside => ?_
          · exact (rest head member).busy (UInt64.toNat_inj.mp (kept.base.trans zero))
          · rw [← kept.base, (slot_asks rrtime par
              (exact.period par (rest_planned fp rrtime books inside))).period]
            exact (rest par inside).divides

/-- An account without runtimes agrees only if its base period does. -/
theorem absorbs_of_agrees (exact : CountsExactly fp rrtime sched trc)
    (none : Weightless (plannedTasks fp rrtime sched trc)) (agrees : AgreesAt fp rrtime sched trc) :
    ∀ par ∈ restTasks fp rrtime sched trc, Absorbs rrtime ((planKnown fp rrtime sched).1.trcAt trc) par := by
  have recount := planned_mirrored fp rrtime exact
  have kept := added_mirrored fp rrtime books exact
  rw [AgreesAt, recompute_times_s_loop, show countedAllocs sched.1.conts
      (adaptPlanSchedule fp rrtime sched).2 trc = plannedTasks fp rrtime sched trc from rfl,
    min_loop_accepted fp rrtime {} _ (weightless_accepted fp rrtime {} none ⟨rfl, fun _ => rfl⟩)] at agrees
  have totals : takeTotals ((planKnown fp rrtime sched).1.trcAt trc)
      (addAll fp rrtime {} (plannedTasks fp rrtime sched trc)) =
        (planKnown fp rrtime sched).1.trcAt trc := agrees
  have base := congrArg ResTracer.basePeriod totals
  simp only [takeTotals] at base
  have same : (book rrtime (book rrtime Ledger.empty (addedTasks fp rrtime sched trc))
      (restTasks fp rrtime sched trc)).base =
        (book rrtime Ledger.empty (addedTasks fp rrtime sched trc)).base := by
    rw [← book_append, ← book_base_perm rrtime Ledger.empty (planned_tasks_perm fp rrtime books trc),
      ← recount.base, base, kept.base]
  intro par member
  have period := (slot_asks rrtime par (exact.period par (rest_planned fp rrtime books member))).period
  refine ⟨fun zero => ?_, ?_⟩
  · have some := book_base_pos rrtime (book rrtime Ledger.empty (addedTasks fp rrtime sched trc))
      (List.ne_nil_of_mem member)
    rw [same, ← kept.base, zero] at some
    exact some rfl
  · rw [kept.base, ← period, ← same]
    exact book_period_dvd rrtime _ member

omit books in
/-- The recomputed load is that of the planned tasks, and more if a call is negative. -/
theorem recounted_load (tasks : List SchedAttr) (loads : ∀ par ∈ tasks, Loads rrtime par)
    (roomy : Roomy fp rrtime tasks) :
    ∃ ds, Tracks fp (minLoop fp rrtime (0, {}) tasks).2 ds ∧
      load (tasks.map (slot rrtime)) ≤ load ds ∧
      (¬ Accepted fp rrtime tasks → load (tasks.map (slot rrtime)) < load ds) := by
  by_cases accepted : Accepted fp rrtime tasks
  · refine ⟨tasks.map (slot rrtime), ?_, le_rfl, fun negative => absurd accepted negative⟩
    rw [min_loop_accepted fp rrtime {} tasks accepted]
    exact track_slots fp rrtime {} tasks (fun par member => loads_known rrtime par (loads par member))
      rfl rfl (roomy tasks (.refl tasks))
  · obtain ⟨calls, repeated, longer, twice⟩ := min_loop_doubles fp rrtime tasks loads roomy accepted
    have grows := (repeated_slots rrtime repeated longer loads).1
    exact ⟨_, twice, grows.le, fun _ => grows⟩

/-- The load kept for a tracer is the one the recount finds: nothing was left to
the last pass, and no call was counted twice. -/
theorem placed_of_agrees (exact : CountsExactly fp rrtime sched trc)
    (roomy : Roomy fp rrtime (plannedTasks fp rrtime sched trc))
    (known : ∀ par ∈ plannedTasks fp rrtime sched trc, par.schedRuntime ≠ 0)
    (agrees : AgreesAt fp rrtime sched trc) :
    restTasks fp rrtime sched trc = [] ∧ Accepted fp rrtime (plannedTasks fp rrtime sched trc) := by
  have loads : ∀ par ∈ plannedTasks fp rrtime sched trc, Loads rrtime par := fun par member =>
    ⟨known par member, exact.period par member⟩
  obtain ⟨ds, tracks, least, more⟩ := recounted_load fp rrtime _ loads roomy
  have added := track_slots fp rrtime (freshTracer trc) (addedTasks fp rrtime sched trc)
    (fun par member => loads_known rrtime par (loads par (added_planned fp rrtime books member)))
    rfl rfl exact.adds
  rw [addedTasks, ← (plan_known_books fp rrtime sched books).replay, ← addedTasks] at added
  rw [AgreesAt, recompute_times_s_loop] at agrees
  have totals : takeTotals ((planKnown fp rrtime sched).1.trcAt trc)
      (minLoop fp rrtime (0, {}) (plannedTasks fp rrtime sched trc)).2 =
        (planKnown fp rrtime sched).1.trcAt trc := agrees
  have base := congrArg ResTracer.basePeriod totals
  have used := congrArg ResTracer.usedPeriod totals
  simp only [takeTotals] at base used
  have loadSame : load ds = load ((addedTasks fp rrtime sched trc).map (slot rrtime)) := by
    rw [← tracks_ratio fp _ _ tracks, ← tracks_ratio fp _ _ added, base, used]
  have planned := slots_load_perm rrtime (planned_tasks_perm fp rrtime books trc)
  rw [slots_load_append] at planned
  -- what only the recount sees would outweigh what was added
  constructor
  · by_contra present
    have positive := slots_load_pos rrtime (restTasks fp rrtime sched trc)
      (fun par inside => loads par (rest_planned fp rrtime books inside)) present
    linarith
  · by_contra negative
    have extra : 0 ≤ load ((restTasks fp rrtime sched trc).map (slot rrtime)) :=
      List.sum_nonneg fun share member => by
        obtain ⟨d, _, rfl⟩ := List.mem_map.mp member
        exact share_nonneg d
    have grows := more negative
    linarith

theorem keeps_of_agrees (exact : CountsExactly fp rrtime sched trc)
    (roomy : Roomy fp rrtime (plannedTasks fp rrtime sched trc))
    (uniform : Uniform (plannedTasks fp rrtime sched trc)) (agrees : AgreesAt fp rrtime sched trc) :
    KeepsAccount fp rrtime sched trc := by
  rcases uniform with none | known
  · exact .weightless none (absorbs_of_agrees fp rrtime books exact none agrees)
  · obtain ⟨rest, accepted⟩ := placed_of_agrees fp rrtime books exact roomy known agrees
    have order := planned_tasks_perm fp rrtime books trc
    rw [rest, List.append_nil] at order
    exact .placed rest accepted (same_blocks_free order fun par member => by
      simp [unknown, known par member])

end Accounts

/-- Both accounts agree when each tracer keeps its account. If the tasks of a CPU
all have a runtime or none has, they agree only then. -/
theorem plan_agrees_iff (fp : Rounding) (numa : Numa) (set : PrgSet) (contparm : Containers)
    (sched : Schedule) (run : adaptPrepareSchedule fp numa set contparm = .ok sched)
    (exact : ∀ trc ∈ sched.1.trcs.rHead, CountsExactly fp set.rrtime sched trc) :
    ((∀ trc ∈ sched.1.trcs.rHead, KeepsAccount fp set.rrtime sched trc) → Agrees fp set.rrtime sched) ∧
    ((∀ trc ∈ sched.1.trcs.rHead, Roomy fp set.rrtime (plannedTasks fp set.rrtime sched trc) ∧
        Uniform (plannedTasks fp set.rrtime sched trc)) →
      Agrees fp set.rrtime sched →
        ∀ trc ∈ sched.1.trcs.rHead, KeepsAccount fp set.rrtime sched trc) := by
  have books := (prepared_of_run fp numa set contparm sched run).books
  refine ⟨fun keeps trc linked => ?_, fun uniform agrees trc linked => ?_⟩
  · exact agrees_of_keeps fp set.rrtime books (exact trc linked) (keeps trc linked)
  · exact keeps_of_agrees fp set.rrtime books (exact trc linked) (uniform trc linked).1
      (uniform trc linked).2 (agrees trc linked)

/-- A container on each of three CPUs, the one on CPU 0 without a runtime. -/
def oneBlind : Containers :=
  { threeHeavy with
    contAt := fun c => { attr := c, rscs := c }
    attrAt := fun c => if c = 1 then { schedPolicy := schedFifo, schedPriority := 10 } else heavy
    rscsAt := fun c => { affinity := c - 1 } }

theorem plan_agrees_on_three_cpus :
    ∃ sched, adaptPrepareSchedule ieee threeCpus pinnedSet oneBlind = .ok sched ∧
      Agrees ieee pinnedSet.rrtime sched := by
  have checked : returns (adaptPrepareSchedule ieee threeCpus pinnedSet oneBlind) (fun sched =>
      sched.1.trcs.rHead.all fun trc =>
        (plannedTasks ieee 0 sched trc == addedTasks ieee 0 sched trc) &&
        ((plannedTasks ieee 0 sched trc).all fun par => baset 0 par != 0) &&
        decide (Along ieee 0 (NoWrap 0) (freshTracer trc) (addedTasks ieee 0 sched trc)) &&
        decide (Along ieee 0 (NoWrap 0) {} (plannedTasks ieee 0 sched trc)) &&
        (restTasks ieee 0 sched trc == []) &&
        ((plannedTasks ieee 0 sched trc).all (fun par => par.schedRuntime == 0) ||
          decide (Accepted ieee 0 (plannedTasks ieee 0 sched trc)) &&
            (plannedTasks ieee 0 sched trc).all fun par => !unknown par)) = true := by
    decide +kernel
  obtain ⟨sched, run, check⟩ := (returns_iff _ _).mp checked
  simp only [List.all_eq_true, Bool.and_eq_true, Bool.or_eq_true, decide_eq_true_eq, beq_iff_eq,
    bne_iff_ne, Bool.not_eq_true'] at check
  refine ⟨sched, run, (plan_agrees_iff ieee threeCpus pinnedSet oneBlind sched run ?_).1 ?_⟩
  · intro trc linked
    obtain ⟨⟨⟨⟨⟨_, period⟩, adds⟩, recount⟩, _⟩, _⟩ := check trc linked
    exact ⟨period, adds, recount⟩
  · intro trc linked
    obtain ⟨⟨⟨⟨⟨same, _⟩, _⟩, _⟩, rest⟩, none | ⟨accepted, known⟩⟩ := check trc linked
    · exact .weightless none fun par member => by
        rw [show pinnedSet.rrtime = 0 from rfl, rest] at member
        cases member
    · refine .placed rest accepted (same_blocks_free (same ▸ List.Perm.refl _) fun par member => ?_)
      simp [known par member]

-- A container of unknown runtime lands on the unused CPU 0, whose tracer stays empty.
theorem plan_forgets_rest :
    ∃ sched, adaptPrepareSchedule ieee threeCpus pinnedSet floating = .ok sched ∧
      ¬ Agrees ieee pinnedSet.rrtime sched := by
  have differs : returns (adaptPrepareSchedule ieee threeCpus pinnedSet floating) (fun sched =>
      decide (0 ∈ sched.1.trcs.rHead) &&
      (recomputeTimesS ieee 0 sched.1.conts (adaptPlanSchedule ieee 0 sched).2 0
        ((adaptPlanSchedule ieee 0 sched).1.trcs.trcAt 0)).2.basePeriod !=
          ((adaptPlanSchedule ieee 0 sched).1.trcs.trcAt 0).basePeriod) = true := by decide +kernel
  obtain ⟨sched, run, check⟩ := (returns_iff _ _).mp differs
  rw [Bool.and_eq_true, decide_eq_true_eq, bne_iff_ne] at check
  exact ⟨sched, run, fun agrees => check.2 (congrArg ResTracer.basePeriod (agrees 0 check.1))⟩

end Orchestrator.PlanAgreement
