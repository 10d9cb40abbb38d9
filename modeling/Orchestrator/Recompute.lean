import Orchestrator.Adaptive
import Orchestrator.Admission

/-!
Recomputing a CPU's load. Both recomputations fold `MIN(checkUvalue(..), rv)`
over the tasks of one tracer, and `MIN` runs a refused addition twice.
-/

namespace Orchestrator.Recompute
open Orchdata Resmgnt HyperPeriod Cmnutil Accounting Admission Adaptive

section Loop
variable (fp : Rounding) (rrtime : Int)

/-- The accumulation shared by both recomputations. -/
def minLoop (state : Int × ResTracer) (tasks : List SchedAttr) : Int × ResTracer :=
  tasks.foldl (fun state par => minAdd fp rrtime state.2 par state.1) state

/-- Some call of the once-per-task accounting returns -1. -/
def Refuses (tasks : List SchedAttr) : Prop :=
  ∃ before par after, tasks = before ++ par :: after ∧
    (checkUvalue fp rrtime (addAll fp rrtime {} before) par true).1 = -1

/-- Every call of the once-per-task accounting returns zero or more: no load beyond
one, and no score beyond `int`. -/
def Accepted (tasks : List SchedAttr) : Prop :=
  Along fp rrtime (fun res par => 0 ≤ (checkUvalue fp rrtime res par true).1) {} tasks

instance (tasks : List SchedAttr) : Decidable (Accepted fp rrtime tasks) :=
  inferInstanceAs (Decidable (Along _ _ _ _ _))

/-- `result` is what one `checkUvalue(.., 1)` per task makes of `res`. -/
structure CountedOnce (result : Int × ResTracer) (res : ResTracer) (tasks : List SchedAttr) :
    Prop where
  totals : result.2 = takeTotals res (addAll fp rrtime {} tasks)
  negative : result.1 < 0 ↔ Refuses fp rrtime tasks

theorem added_u_nonneg (res : ResTracer) (par : SchedAttr) : 0 ≤ (added fp rrtime res par).u :=
  quotient_nonneg fp _ _

/-- Only a load beyond one is refused. -/
theorem verdict_refused_iff (res : ResTracer) (par : SchedAttr) (nonneg : 0 ≤ res.u) :
    verdict fp rrtime res par = -1 ↔ 1 < newU fp rrtime res par := by
  have apart := score_ne fp rrtime res par fun _ => nonneg
  unfold verdict
  split_ifs with exceeds
  · exact iff_of_true rfl exceeds
  · exact iff_of_false apart exceeds

theorem add_all_u_nonneg (res : ResTracer) (tasks : List SchedAttr) (nonneg : 0 ≤ res.u) :
    0 ≤ (addAll fp rrtime res tasks).u := by
  induction tasks generalizing res with
  | nil => exact nonneg
  | cons par rest ih => exact ih _ (added_u_nonneg fp rrtime res par)

/-- An accepted call is evaluated once and leaves the running minimum at zero. -/
theorem min_add_accepted (res : ResTracer) (par : SchedAttr)
    (accepted : 0 ≤ verdict fp rrtime res par) :
    minAdd fp rrtime res par 0 = (0, added fp rrtime res par) := by
  simp only [minAdd, checkUvalue, ↓reduceIte]
  rw [if_neg (by omega)]

/-- Without a negative call the loop is the plain accounting. -/
theorem min_loop_accepted (res : ResTracer) (tasks : List SchedAttr)
    (accepted : Along fp rrtime (fun trc par => 0 ≤ verdict fp rrtime trc par) res tasks) :
    minLoop fp rrtime (0, res) tasks = (0, addAll fp rrtime res tasks) := by
  induction tasks generalizing res with
  | nil => rfl
  | cons par rest ih =>
      -- the minimum stays 0, which no accepted call is below
      change minLoop fp rrtime (minAdd fp rrtime res par 0) rest = _
      rw [min_add_accepted fp rrtime res par accepted.1, ih _ accepted.2]
      rfl

theorem accepted_refuses (tasks : List SchedAttr) (accepted : Accepted fp rrtime tasks) :
    ¬ Refuses fp rrtime tasks := by
  rintro ⟨before, par, after, rfl, refused⟩
  have above : 0 ≤ (checkUvalue fp rrtime (addAll fp rrtime {} before) par true).1 :=
    along_at fp rrtime _ {} before after par accepted
  omega

theorem counted_once_of_accepted (res : ResTracer) (tasks : List SchedAttr)
    (accepted : Accepted fp rrtime tasks) (result : Int × ResTracer)
    (loop : result = ((minLoop fp rrtime (0, {}) tasks).1,
      takeTotals res (minLoop fp rrtime (0, {}) tasks).2)) :
    CountedOnce fp rrtime result res tasks := by
  rw [min_loop_accepted fp rrtime {} tasks accepted] at loop
  subst loop
  exact ⟨rfl, iff_of_false (by simp) (accepted_refuses fp rrtime tasks accepted)⟩

/-- One call or two for each task, whatever the minimum is. -/
theorem min_loop_repeats (state : Int × ResTracer) (tasks : List SchedAttr) :
    ∃ calls, Repeats tasks calls ∧ (minLoop fp rrtime state tasks).2 = addAll fp rrtime state.2 calls := by
  induction tasks generalizing state with
  | nil => exact ⟨[], .nil, rfl⟩
  | cons par rest ih =>
      obtain ⟨calls, tail, same⟩ := ih (minAdd fp rrtime state.2 par state.1)
      by_cases less : verdict fp rrtime state.2 par < state.1
      · refine ⟨par :: par :: calls, .twice tail, ?_⟩
        change (minLoop fp rrtime (minAdd fp rrtime state.2 par state.1) rest).2 = _
        rw [same]
        simp only [minAdd, checkUvalue, ↓reduceIte, if_pos less]
        rfl
      · refine ⟨par :: calls, .once tail, ?_⟩
        change (minLoop fp rrtime (minAdd fp rrtime state.2 par state.1) rest).2 = _
        rw [same]
        simp only [minAdd, checkUvalue, ↓reduceIte, if_neg less]
        rfl

/-- A negative call is evaluated a second time. -/
theorem min_loop_negative (res : ResTracer) (tasks : List SchedAttr)
    (negative : ¬ Along fp rrtime (fun trc par => 0 ≤ verdict fp rrtime trc par) res tasks) :
    ∃ calls, Repeats tasks calls ∧ tasks.length < calls.length ∧
      (minLoop fp rrtime (0, res) tasks).2 = addAll fp rrtime res calls := by
  induction tasks generalizing res with
  | nil => exact absurd trivial negative
  | cons par rest ih =>
      by_cases above : 0 ≤ verdict fp rrtime res par
      · obtain ⟨calls, tail, longer, same⟩ := ih (added fp rrtime res par) fun later =>
          negative ⟨above, later⟩
        refine ⟨par :: calls, .once tail, Nat.succ_lt_succ longer, ?_⟩
        change (minLoop fp rrtime (minAdd fp rrtime res par 0) rest).2 = _
        rw [min_add_accepted fp rrtime res par above, same]
        rfl
      · obtain ⟨calls, tail, same⟩ := min_loop_repeats fp rrtime (minAdd fp rrtime res par 0) rest
        have enough := tail.length_le
        refine ⟨par :: par :: calls, .twice tail, by simp only [List.length_cons]; omega, ?_⟩
        change (minLoop fp rrtime (minAdd fp rrtime res par 0) rest).2 = _
        rw [same]
        simp only [minAdd, checkUvalue, ↓reduceIte, if_pos (not_le.mp above)]
        rfl

end Loop

/-- The runtime is known and is asked for at a non-zero distance. -/
structure Loads (rrtime : Int) (par : SchedAttr) : Prop where
  runtime : par.schedRuntime ≠ 0
  period : baset rrtime par ≠ 0

/-- The demand of a task, round-robin tasks at their slice. -/
def slot (rrtime : Int) (par : SchedAttr) : Demand where
  runtime := par.schedRuntime.toNat
  period := if baset rrtime par = 0 then 1 else (baset rrtime par).toNat
  positive := by
    split_ifs with zero
    · exact Nat.one_pos
    · exact to_nat_pos zero

theorem slot_asks (rrtime : Int) (par : SchedAttr) (period : baset rrtime par ≠ 0) :
    Asks rrtime par (slot rrtime par) :=
  ⟨rfl, if_neg period⟩

/-- The runtime is known, or a deadline task asks for none, at a non-zero distance. -/
structure Known (rrtime : Int) (par : SchedAttr) : Prop where
  runtime : unknown par = false
  period : baset rrtime par ≠ 0

theorem loads_known (rrtime : Int) (par : SchedAttr) (loads : Loads rrtime par) :
    Known rrtime par :=
  ⟨by simp [unknown, loads.runtime], loads.period⟩

theorem slot_share_pos (rrtime : Int) (par : SchedAttr) (loads : Loads rrtime par) :
    0 < (slot rrtime par).share := by
  have runtime : (0 : ℚ) < (slot rrtime par).runtime := by
    exact_mod_cast to_nat_pos loads.runtime
  have period : (0 : ℚ) < (slot rrtime par).period := by
    exact_mod_cast (slot rrtime par).positive
  exact div_pos runtime period

/-- No word wraps in the accounting, nor with some of its tasks doubled. -/
def Roomy (fp : Rounding) (rrtime : Int) (tasks : List SchedAttr) : Prop :=
  ∀ calls, Repeats tasks calls → Along fp rrtime (NoWrap rrtime) {} calls

section Doubled
variable (fp : Rounding) (rrtime : Int)

theorem track_slots (res : ResTracer) (tasks : List SchedAttr)
    (known : ∀ par ∈ tasks, Known rrtime par) (base : res.basePeriod = 0) (used : res.usedPeriod = 0)
    (fits : Along fp rrtime (NoWrap rrtime) res tasks) :
    Tracks fp (addAll fp rrtime res tasks) (tasks.map (slot rrtime)) := by
  simpa using add_all_tracks fp rrtime (slot rrtime) res [] tasks
    (fun par member => slot_asks rrtime par (known par member).period)
    (fun par member => (known par member).runtime) (idle_tracks fp res base used) fits

/-- Doubled tasks add to the load, on the same hyperperiod. -/
theorem repeated_slots {tasks calls : List SchedAttr} (repeated : Repeats tasks calls)
    (longer : tasks.length < calls.length) (loads : ∀ par ∈ tasks, Loads rrtime par) :
    load (tasks.map (slot rrtime)) < load (calls.map (slot rrtime)) ∧
      hyper (calls.map (slot rrtime)) = hyper (tasks.map (slot rrtime)) := by
  have shares : ∀ d ∈ tasks.map (slot rrtime), 0 < d.share := by
    intro d member
    obtain ⟨par, inside, rfl⟩ := List.mem_map.mp member
    exact slot_share_pos rrtime par (loads par inside)
  refine ⟨(repeated.map (slot rrtime)).load_lt (by simpa using longer) shares, ?_⟩
  exact (repeated.map (slot rrtime)).hyper_eq

/-- The second evaluation of a refused call is refused as well. -/
theorem refused_again (before : List SchedAttr) (par : SchedAttr)
    (loads : ∀ other ∈ before ++ [par], Loads rrtime other)
    (roomy : Along fp rrtime (NoWrap rrtime) {} (before ++ [par, par]))
    (refused : verdict fp rrtime (addAll fp rrtime {} before) par = -1) :
    verdict fp rrtime (added fp rrtime (addAll fp rrtime {} before) par) par = -1 := by
  have apart : before ++ [par, par] = before ++ [par] ++ [par] := by simp
  have repeated : Repeats (before ++ [par]) (before ++ [par, par]) := .twice_at par [] before
  have known : ∀ other ∈ before ++ [par], Known rrtime other := fun other member =>
    loads_known rrtime other (loads other member)
  have first := track_slots fp rrtime {} (before ++ [par]) known rfl rfl
    ((along_append fp rrtime _ {} (before ++ [par]) [par]).mp (apart ▸ roomy)).1
  have second := track_slots fp rrtime {} (before ++ [par, par])
    (fun other member => known other (repeated.mem_iff.mp member)) rfl rfl roomy
  rw [add_all_append] at first second
  have exceeds : 1 < newU fp rrtime (addAll fp rrtime {} before) par :=
    (verdict_refused_iff fp rrtime _ par (add_all_u_nonneg fp rrtime {} before le_rfl)).mp refused
  -- the doubled task adds used time, the hyperperiod stays the same
  obtain ⟨grows, same⟩ := repeated_slots rrtime repeated (by simp) loads
  have used : (post ((before ++ [par]).map (slot rrtime))).used ≤
      (post ((before ++ [par, par]).map (slot rrtime))).used := by
    have bound : ((post ((before ++ [par]).map (slot rrtime))).used : ℚ) ≤
        (post ((before ++ [par, par]).map (slot rrtime))).used := by
      rw [used_post, used_post, same]
      exact mul_le_mul_of_nonneg_right grows.le (Nat.cast_nonneg _)
    exact_mod_cast bound
  have beyond : 1 < newU fp rrtime (added fp rrtime (addAll fp rrtime {} before) par) par := by
    calc (1 : ℚ) < newU fp rrtime (addAll fp rrtime {} before) par := exceeds
      _ = quotient fp (post ((before ++ [par]).map (slot rrtime))).used
            (post ((before ++ [par]).map (slot rrtime))).base := first.u (by simp)
      _ ≤ quotient fp (post ((before ++ [par, par]).map (slot rrtime))).used
            (post ((before ++ [par, par]).map (slot rrtime))).base := by
          rw [base_post _ (by simp), base_post _ (by simp), same]
          exact quotient_mono fp _ used
      _ = newU fp rrtime (added fp rrtime (addAll fp rrtime {} before) par) par :=
          (second.u (by simp)).symm
  exact if_pos beyond

/-- No score beyond `int`, nor with some of the tasks doubled. -/
def Scored (fp : Rounding) (rrtime : Int) (tasks : List SchedAttr) : Prop :=
  ∀ calls, Repeats tasks calls → Along fp rrtime (ScoreFits fp rrtime) {} calls

theorem verdict_least (res : ResTracer) (par : SchedAttr) (nonneg : 0 ≤ res.u)
    (score : ScoreFits fp rrtime res par) : -1 ≤ verdict fp rrtime res par := by
  have above := score_nonneg fp rrtime res par score fun _ => nonneg
  unfold verdict
  split_ifs <;> omega

/-- A minimum of -1 stays: no later call is below it. -/
theorem min_loop_stays (res : ResTracer) (tasks : List SchedAttr) (nonneg : 0 ≤ res.u)
    (scores : Along fp rrtime (ScoreFits fp rrtime) res tasks) :
    (minLoop fp rrtime (-1, res) tasks).1 = -1 := by
  induction tasks generalizing res with
  | nil => rfl
  | cons par rest ih =>
      have least := verdict_least fp rrtime res par nonneg scores.1
      have kept : minAdd fp rrtime res par (-1) = (-1, added fp rrtime res par) := by
        simp only [minAdd, checkUvalue, ↓reduceIte]
        rw [if_neg (by omega)]
      change (minLoop fp rrtime (minAdd fp rrtime res par (-1)) rest).1 = -1
      rw [kept]
      exact ih _ (added_u_nonneg fp rrtime res par) scores.2

/-- A minimum that stays at zero or above means that no task was refused. -/
theorem accepted_of_nonneg (before after : List SchedAttr)
    (loads : ∀ par ∈ before ++ after, Loads rrtime par) (roomy : Roomy fp rrtime (before ++ after))
    (scored : Scored fp rrtime (before ++ after))
    (nonneg : 0 ≤ (minLoop fp rrtime (0, addAll fp rrtime {} before) after).1) :
    Along fp rrtime (fun trc par => verdict fp rrtime trc par ≠ -1) (addAll fp rrtime {} before)
      after := by
  induction after generalizing before with
  | nil => trivial
  | cons par rest ih =>
      have split : before ++ par :: rest = (before ++ [par]) ++ rest := by simp
      have u := add_all_u_nonneg fp rrtime {} before le_rfl
      change 0 ≤ (minLoop fp rrtime (minAdd fp rrtime (addAll fp rrtime {} before) par 0) rest).1
        at nonneg
      by_cases above : 0 ≤ verdict fp rrtime (addAll fp rrtime {} before) par
      · have next : added fp rrtime (addAll fp rrtime {} before) par =
            addAll fp rrtime {} (before ++ [par]) := by
          rw [add_all_append]
          rfl
        rw [min_add_accepted fp rrtime _ par above, next] at nonneg
        have tail := ih (before ++ [par]) (split ▸ loads) (split ▸ roomy) (split ▸ scored) nonneg
        rw [← next] at tail
        exact ⟨by omega, tail⟩
      · have score := along_at fp rrtime _ {} before rest par (scored _ (.refl _))
        have least := verdict_least fp rrtime _ par u score
        have refused : verdict fp rrtime (addAll fp rrtime {} before) par = -1 := by omega
        have doubled : before ++ par :: par :: rest = (before ++ [par, par]) ++ rest := by simp
        have room := roomy _ (.twice_at par rest before)
        have scores := scored _ (.twice_at par rest before)
        rw [doubled] at room scores
        have again := refused_again fp rrtime before par
          (fun other member => loads other (split ▸ List.mem_append_left _ member))
          ((along_append fp rrtime _ {} _ rest).mp room).1 refused
        have later := ((along_append fp rrtime _ {} _ rest).mp scores).2
        have twice : minAdd fp rrtime (addAll fp rrtime {} before) par 0 =
            (-1, addAll fp rrtime {} (before ++ [par, par])) := by
          simp only [minAdd, checkUvalue, ↓reduceIte]
          rw [if_pos (by omega), again, add_all_append]
          rfl
        rw [twice, min_loop_stays fp rrtime _ rest (add_all_u_nonneg fp rrtime {} _ le_rfl) later]
          at nonneg
        exact absurd nonneg (by decide)

/-- What the loop leaves where a call is negative: the list with tasks doubled. -/
theorem min_loop_doubles (tasks : List SchedAttr) (loads : ∀ par ∈ tasks, Loads rrtime par)
    (roomy : Roomy fp rrtime tasks) (negative : ¬ Accepted fp rrtime tasks) :
    ∃ calls, Repeats tasks calls ∧ tasks.length < calls.length ∧
      Tracks fp (minLoop fp rrtime (0, {}) tasks).2 (calls.map (slot rrtime)) := by
  obtain ⟨calls, repeated, longer, same⟩ := min_loop_negative fp rrtime {} tasks negative
  refine ⟨calls, repeated, longer, ?_⟩
  rw [same]
  exact track_slots fp rrtime {} calls
    (fun par member => loads_known rrtime par (loads par (repeated.mem_iff.mp member))) rfl rfl
    (roomy calls repeated)

theorem counts_twice_of_negative (res : ResTracer) (tasks : List SchedAttr)
    (loads : ∀ par ∈ tasks, Loads rrtime par) (roomy : Roomy fp rrtime tasks)
    (negative : ¬ Accepted fp rrtime tasks) (result : Int × ResTracer)
    (loop : result = ((minLoop fp rrtime (0, {}) tasks).1,
      takeTotals res (minLoop fp rrtime (0, {}) tasks).2)) :
    ¬ CountedOnce fp rrtime result res tasks := by
  intro counted
  obtain ⟨calls, repeated, longer, twice⟩ := min_loop_doubles fp rrtime tasks loads roomy negative
  have once := track_slots fp rrtime {} tasks
    (fun other inside => loads_known rrtime other (loads other inside)) rfl rfl
    (roomy tasks (.refl tasks))
  -- equal totals would be equal loads
  have totals : takeTotals res (minLoop fp rrtime (0, {}) tasks).2 =
      takeTotals res (addAll fp rrtime {} tasks) := by
    rw [← counted.totals, loop]
  have base := congrArg ResTracer.basePeriod totals
  have used := congrArg ResTracer.usedPeriod totals
  simp only [takeTotals] at base used
  have grows := (repeated_slots rrtime repeated longer loads).1
  rw [← tracks_ratio fp _ _ once, ← tracks_ratio fp _ _ twice, base, used] at grows
  exact lt_irrefl _ grows

end Doubled

/-- The tasks `recomputeTimes_u` accounts, in list order. -/
def countedNodes (nhead : List Node) (res : ResTracer) (skip : Option Nat) : List SchedAttr :=
  (nhead.filter fun item => !skipped res skip item).map nodeAttr

/-- The tasks `recomputeTimes_S` accounts, in list order. -/
def countedAllocs (conts : Containers) (aHead : List ResAlloc) (trc : Nat) : List SchedAttr :=
  (aHead.filter fun alloc => alloc.assigned = some trc).map fun alloc => attrOf conts alloc.item

section Loops
variable (fp : Rounding) (rrtime : Int)

theorem recompute_times_u_loop (nhead : List Node) (res : ResTracer) (skip : Option Nat) :
    recomputeTimesU fp rrtime nhead res skip =
      ((minLoop fp rrtime (0, {}) (countedNodes nhead res skip)).1,
        takeTotals res (minLoop fp rrtime (0, {}) (countedNodes nhead res skip)).2) := by
  have loop : ∀ state : Int × ResTracer,
      nhead.foldl (fun (state : Int × ResTracer) item => if skipped res skip item then state
        else minAdd fp rrtime state.2 (nodeAttr item) state.1) state =
      minLoop fp rrtime state (countedNodes nhead res skip) := by
    induction nhead with
    | nil => exact fun _ => rfl
    | cons item rest ih =>
        intro state
        rw [List.foldl_cons, ih]
        by_cases skips : skipped res skip item <;> simp [countedNodes, minLoop, skips]
  simp only [recomputeTimesU, loop]

theorem recompute_times_s_loop (conts : Containers) (aHead : List ResAlloc) (trc : Nat)
    (res : ResTracer) :
    recomputeTimesS fp rrtime conts aHead trc res =
      ((minLoop fp rrtime (0, {}) (countedAllocs conts aHead trc)).1,
        takeTotals res (minLoop fp rrtime (0, {}) (countedAllocs conts aHead trc)).2) := by
  have loop : ∀ state : Int × ResTracer,
      aHead.foldl (fun (state : Int × ResTracer) alloc => if alloc.assigned = some trc then
        minAdd fp rrtime state.2 (attrOf conts alloc.item) state.1 else state) state =
      minLoop fp rrtime state (countedAllocs conts aHead trc) := by
    induction aHead with
    | nil => exact fun _ => rfl
    | cons alloc rest ih =>
        intro state
        rw [List.foldl_cons, ih]
        by_cases assigned : alloc.assigned = some trc <;>
          simp [countedAllocs, minLoop, assigned]
  simp only [recomputeTimesS, loop]

/-- Every task is counted once while no call is negative; else it is not, as long
as no wrap-around hides the second evaluation. -/
structure OnceUnlessRefused (result : Int × ResTracer) (res : ResTracer) (tasks : List SchedAttr) :
    Prop where
  enough : Accepted fp rrtime tasks → CountedOnce fp rrtime result res tasks
  needed : (∀ par ∈ tasks, Loads rrtime par) → Roomy fp rrtime tasks →
    CountedOnce fp rrtime result res tasks → Accepted fp rrtime tasks

theorem once_unless_refused (res : ResTracer) (tasks : List SchedAttr) (result : Int × ResTracer)
    (loop : result = ((minLoop fp rrtime (0, {}) tasks).1,
      takeTotals res (minLoop fp rrtime (0, {}) tasks).2)) :
    OnceUnlessRefused fp rrtime result res tasks where
  enough := fun accepted => counted_once_of_accepted fp rrtime res tasks accepted result loop
  needed := fun loads roomy counted => by
    by_contra negative
    exact counts_twice_of_negative fp rrtime res tasks loads roomy negative result loop counted

/-- Both recomputations count once for every list, tracer and skipped node, up
to the first negative call. -/
theorem recomputations_count_once_unless_refused :
    (∀ (nhead : List Node) (res : ResTracer) (skip : Option Nat),
      OnceUnlessRefused fp rrtime (recomputeTimesU fp rrtime nhead res skip) res
        (countedNodes nhead res skip)) ∧
      ∀ (conts : Containers) (aHead : List ResAlloc) (trc : Nat) (res : ResTracer),
        OnceUnlessRefused fp rrtime (recomputeTimesS fp rrtime conts aHead trc res) res
          (countedAllocs conts aHead trc) :=
  ⟨fun nhead res skip => once_unless_refused fp rrtime res _ _
      (recompute_times_u_loop fp rrtime nhead res skip),
    fun conts aHead trc res => once_unless_refused fp rrtime res _ _
      (recompute_times_s_loop fp rrtime conts aHead trc res)⟩

end Loops

/-- A deadline task of 15 ms every 10 ms on CPU 0. -/
def overrun : Node where
  loc := 1
  pid := 42
  attr := { schedPolicy := schedDeadline, schedRuntime := 15000000, schedPeriod := 10000000 }
  mon := { assigned := 0 }

theorem overrun_counted_twice :
    ¬ CountedOnce ieee 100 (recomputeTimesU ieee 100 [overrun] { affinity := {0} } none)
      { affinity := {0} } (countedNodes [overrun] { affinity := {0} } none) := by
  intro counted
  have same := congrArg ResTracer.usedPeriod counted.totals
  revert same
  decide +kernel

end Orchestrator.Recompute
