import Orchestrator.Accounting

/-!
Whole sequences of `checkUvalue` calls on one tracer: what they leave behind
while nothing wraps, and exactly when something does.
-/

namespace Orchestrator.Admission
open Orchdata Resmgnt HyperPeriod Cmnutil Accounting

section Sequence
variable (fp : Rounding) (rrtime : Int)

/-- The tracer after adding the tasks one after another. -/
def addAll (res : ResTracer) (tasks : List SchedAttr) : ResTracer :=
  tasks.foldl (fun trc par => (checkUvalue fp rrtime trc par true).2) res

/-- `property` holds of every call of the sequence: of the tracer as the call
finds it and of the task it adds. -/
def Along (property : ResTracer → SchedAttr → Prop) : ResTracer → List SchedAttr → Prop
  | _, [] => True
  | res, par :: rest => property res par ∧ Along property (added fp rrtime res par) rest

instance alongDecidable (property : ResTracer → SchedAttr → Prop)
    [∀ res par, Decidable (property res par)] :
    ∀ res tasks, Decidable (Along fp rrtime property res tasks)
  | _, [] => isTrue trivial
  | res, par :: rest =>
      have := alongDecidable property (added fp rrtime res par) rest
      inferInstanceAs (Decidable (_ ∧ _))

theorem add_all_cons (res : ResTracer) (par : SchedAttr) (rest : List SchedAttr) :
    addAll fp rrtime res (par :: rest) = addAll fp rrtime (added fp rrtime res par) rest := rfl

theorem add_all_append (res : ResTracer) (first second : List SchedAttr) :
    addAll fp rrtime res (first ++ second) =
      addAll fp rrtime (addAll fp rrtime res first) second := by
  simp [addAll]

theorem along_append (property : ResTracer → SchedAttr → Prop) (res : ResTracer)
    (first second : List SchedAttr) :
    Along fp rrtime property res (first ++ second) ↔
      Along fp rrtime property res first ∧
        Along fp rrtime property (addAll fp rrtime res first) second := by
  induction first generalizing res with
  | nil => simp [Along, addAll]
  | cons par rest ih => simp only [List.cons_append, Along, ih, add_all_cons, and_assoc]

theorem along_mono (weak strong : ResTracer → SchedAttr → Prop) (res : ResTracer)
    (tasks : List SchedAttr) (implies : ∀ trc par, strong trc par → weak trc par)
    (along : Along fp rrtime strong res tasks) : Along fp rrtime weak res tasks := by
  induction tasks generalizing res with
  | nil => trivial
  | cons par rest ih => exact ⟨implies res par along.1, ih _ along.2⟩

theorem along_at (property : ResTracer → SchedAttr → Prop) (res : ResTracer)
    (before after : List SchedAttr) (par : SchedAttr)
    (along : Along fp rrtime property res (before ++ par :: after)) :
    property (addAll fp rrtime res before) par :=
  ((along_append fp rrtime property res before (par :: after)).mp along).2.1

end Sequence

/-- `period` 0 stands for `SCHED_PDEFAULT`. -/
def task (par : SchedAttr) : Demand where
  runtime := par.schedRuntime.toNat
  period := if par.schedPeriod = 0 then 1000000000 else par.schedPeriod.toNat
  positive := by
    split_ifs with zero
    · decide
    · exact to_nat_pos zero

/-- A task with a known runtime that the round-robin slice does not concern. -/
structure Accountable (par : SchedAttr) : Prop where
  policy : par.schedPolicy ≠ schedRr
  runtime : par.schedRuntime ≠ 0

instance (par : SchedAttr) : Decidable (Accountable par) :=
  decidable_of_iff (_ ∧ _) ⟨fun ⟨policy, runtime⟩ => ⟨policy, runtime⟩,
    fun ⟨policy, runtime⟩ => ⟨policy, runtime⟩⟩

theorem accountable_asks (rrtime : Int) (par : SchedAttr) (accountable : Accountable par) :
    Asks rrtime par (task par) := by
  refine ⟨rfl, ?_⟩
  simp only [task, baset, accountable.policy, false_and, ↓reduceIte]
  split_ifs <;> rfl

theorem accountable_known (par : SchedAttr) (accountable : Accountable par) :
    unknown par = false := by
  simp [unknown, accountable.runtime]

theorem add_all_tracks (fp : Rounding) (rrtime : Int) (demand : SchedAttr → Demand)
    (res : ResTracer) (ds : List Demand) (tasks : List SchedAttr)
    (asks : ∀ par ∈ tasks, Asks rrtime par (demand par))
    (known : ∀ par ∈ tasks, unknown par = false)
    (tracks : Tracks fp res ds) (roomy : Along fp rrtime (NoWrap rrtime) res tasks) :
    Tracks fp (addAll fp rrtime res tasks) (ds ++ tasks.map demand) := by
  induction tasks generalizing res ds with
  | nil => simpa [addAll] using tracks
  | cons par rest ih =>
      have next := added_tracks fp rrtime res par ds (demand par) tracks
        (asks par List.mem_cons_self) (known par List.mem_cons_self) roomy.1
      have tail := ih (added fp rrtime res par) (ds ++ [demand par])
        (fun other member => asks other (List.mem_cons_of_mem par member))
        (fun other member => known other (List.mem_cons_of_mem par member)) next roomy.2
      simpa [add_all_cons] using tail

theorem add_all_tracks_tasks (fp : Rounding) (rrtime : Int) (res : ResTracer)
    (tasks : List SchedAttr) (admissible : ∀ par ∈ tasks, Accountable par)
    (start : Tracks fp res []) (roomy : Along fp rrtime (NoWrap rrtime) res tasks) :
    Tracks fp (addAll fp rrtime res tasks) (tasks.map task) := by
  simpa using add_all_tracks fp rrtime task res [] tasks
    (fun par member => accountable_asks rrtime par (admissible par member))
    (fun par member => accountable_known par (admissible par member)) start roomy

/-- Over exact rationals a task is refused exactly when the sum of the shares,
its own included, exceeds one. -/
theorem exact_verdict_asks (fp : Rounding) (rrtime : Int) (res : ResTracer) (ds : List Demand)
    (par : SchedAttr) (d : Demand) (asks : Asks rrtime par d) (known : unknown par = false)
    (tracks : Tracks fp res ds) (fits : NoWrap rrtime res par) :
    verdict exact rrtime res par = -1 ↔ 1 < load (ds ++ [d]) := by
  have next := added_tracks fp rrtime res par ds d tracks asks known fits
  have sum : newU exact rrtime res par = load (ds ++ [d]) := by
    rw [← ratio_post, Ledger.ratio, ← next.base, ← next.used]
    rfl
  have apart := score_ne exact rrtime res par (tracks_u_nonneg fp res ds tracks)
  unfold verdict
  rw [sum]
  split_ifs with exceeds
  · exact iff_of_true rfl exceeds
  · exact iff_of_false apart exceeds

theorem exact_verdict_iff (fp : Rounding) (rrtime : Int) (res : ResTracer) (ds : List Demand)
    (par : SchedAttr) (accountable : Accountable par) (tracks : Tracks fp res ds)
    (fits : NoWrap rrtime res par) :
    verdict exact rrtime res par = -1 ↔ 1 < load (ds ++ [task par]) :=
  exact_verdict_asks fp rrtime res ds par (task par) (accountable_asks rrtime par accountable)
    (accountable_known par accountable) tracks fits

/-- No division of the call leaves a remainder. -/
structure DivisionsExact (rrtime : Int) (res : ResTracer) (par : SchedAttr) : Prop where
  gcd : res.basePeriod ≠ 0 → res.basePeriod % Cmnutil.gcd res.basePeriod (baset rrtime par) = 0
  scaled : res.basePeriod ≠ 0 → used res par * hyperP rrtime res par % res.basePeriod = 0
  charged : par.schedRuntime * newBase rrtime res par % baset rrtime par = 0

theorem mod_eq_zero_of_dvd {a b : UInt64} (divides : b.toNat ∣ a.toNat) : a % b = 0 := by
  apply UInt64.toNat_inj.mp
  rw [UInt64.toNat_mod]
  exact Nat.mod_eq_zero_of_dvd divides

theorem divisions_exact (rrtime : Int) (res : ResTracer) (par : SchedAttr) (d : Demand)
    (asks : Asks rrtime par d) (fits : ProductsFit rrtime res par) :
    DivisionsExact rrtime res par where
  gcd := fun _ => mod_eq_zero_of_dvd (by rw [gcd_exact]; exact Nat.gcd_dvd_left _ _)
  scaled := fun busy => mod_eq_zero_of_dvd (by
    rw [mul_exact _ _ (fits.scaled busy), hyperP, lcm_exact _ _ (fits.hyper busy)]
    exact Dvd.dvd.mul_left (Nat.dvd_lcm_left _ _) _)
  charged := mod_eq_zero_of_dvd (by
    rw [mul_exact _ _ fits.charged, new_base_exact rrtime res par d asks fits, ← asks.period]
    exact Dvd.dvd.mul_left (period_dvd_span _ _) _)

/-- What exact accounting asks of a sequence of additions to an unused tracer. The
totals do not depend on the rounding of the utilisation; whether a task is
refused is read off the exact quotient. -/
structure AccountsExactly (fp : Rounding) (rrtime : Int) (res : ResTracer)
    (tasks : List SchedAttr) : Prop where
  base : tasks ≠ [] → (addAll fp rrtime res tasks).basePeriod.toNat = hyper (tasks.map task)
  ratio : ((addAll fp rrtime res tasks).usedPeriod.toNat : ℚ) /
    (addAll fp rrtime res tasks).basePeriod.toNat = load (tasks.map task)
  divisions : ∀ before par after, tasks = before ++ par :: after →
    DivisionsExact rrtime (addAll fp rrtime res before) par
  refusals : ∀ before par after, tasks = before ++ par :: after → ∀ add,
    (checkUvalue exact rrtime (addAll fp rrtime res before) par add).1 = -1 ↔
      1 < load ((before ++ [par]).map task)

theorem roomy_additions_account_exactly (fp : Rounding) (rrtime : Int) (res : ResTracer)
    (tasks : List SchedAttr) (base : res.basePeriod = 0) (used : res.usedPeriod = 0)
    (admissible : ∀ par ∈ tasks, Accountable par)
    (roomy : Along fp rrtime (NoWrap rrtime) res tasks) :
    AccountsExactly fp rrtime res tasks := by
  have start := idle_tracks fp res base used
  have reached : ∀ before after, tasks = before ++ after →
      Tracks fp (addAll fp rrtime res before) (before.map task) := by
    intro before after split
    subst split
    have fits := ((along_append fp rrtime _ res before after).mp roomy).1
    exact add_all_tracks_tasks fp rrtime res before
      (fun par member => admissible par (List.mem_append_left after member)) start fits
  have final := reached tasks [] (by simp)
  constructor
  · intro nonempty
    rw [final.base, base_post _ (by simpa using nonempty)]
  · rw [final.base, final.used]
    exact ratio_post _
  · intro before par after split
    have member : par ∈ tasks := by rw [split]; simp
    have fits := along_at fp rrtime _ res before after par (split ▸ roomy)
    exact divisions_exact rrtime _ par (task par)
      (accountable_asks rrtime par (admissible par member)) fits.1
  · intro before par after split add
    have member : par ∈ tasks := by rw [split]; simp
    have fits := along_at fp rrtime _ res before after par (split ▸ roomy)
    have tracks := reached before (par :: after) split
    simpa [checkUvalue] using
      exact_verdict_iff fp rrtime _ _ par (admissible par member) tracks fits

/-- Two orders of the same additions leave the same totals. -/
theorem roomy_order_irrelevant (fp : Rounding) (rrtime : Int) (res : ResTracer)
    (tasks order : List SchedAttr) (base : res.basePeriod = 0) (used : res.usedPeriod = 0)
    (admissible : ∀ par ∈ tasks, Accountable par) (perm : tasks.Perm order)
    (roomy : Along fp rrtime (NoWrap rrtime) res tasks)
    (other : Along fp rrtime (NoWrap rrtime) res order) :
    (addAll fp rrtime res tasks).basePeriod = (addAll fp rrtime res order).basePeriod ∧
      (addAll fp rrtime res tasks).usedPeriod = (addAll fp rrtime res order).usedPeriod := by
  have start := idle_tracks fp res base used
  have left := add_all_tracks_tasks fp rrtime res tasks admissible start roomy
  have right := add_all_tracks_tasks fp rrtime res order
    (fun par member => admissible par (perm.mem_iff.mpr member)) start other
  have same := tracks_same fp _ _ _ _ (perm.map task) left right fun empty => by
    have none : tasks = [] := List.map_eq_nil_iff.mp empty
    subst none
    rw [List.nil_perm.mp perm]
  exact ⟨same.1, same.2.1⟩

/-- Exact accounting of every sequence of known tasks, in every order, as long
as no product and no sum of 64-bit words wraps. -/
theorem utilisation_accounting (fp : Rounding) (rrtime : Int) (res : ResTracer)
    (tasks : List SchedAttr) (base : res.basePeriod = 0) (used : res.usedPeriod = 0)
    (admissible : ∀ par ∈ tasks, Accountable par)
    (roomy : Along fp rrtime (NoWrap rrtime) res tasks) :
    AccountsExactly fp rrtime res tasks ∧
      ∀ order, tasks.Perm order → Along fp rrtime (NoWrap rrtime) res order →
        (addAll fp rrtime res order).basePeriod = (addAll fp rrtime res tasks).basePeriod ∧
          (addAll fp rrtime res order).usedPeriod = (addAll fp rrtime res tasks).usedPeriod := by
  refine ⟨roomy_additions_account_exactly fp rrtime res tasks base used admissible roomy, ?_⟩
  intro order perm other
  have same := roomy_order_irrelevant fp rrtime res tasks order base used admissible perm roomy other
  exact ⟨same.1.symm, same.2.symm⟩

theorem utilisation_accounting_example :
    AccountsExactly ieee 100 {} [{ schedPolicy := 1, schedRuntime := 3, schedPeriod := 10 },
      { schedPolicy := 6, schedRuntime := 2, schedPeriod := 4 }] :=
  (utilisation_accounting ieee 100 {} _ rfl rfl (by decide +kernel) (by decide +kernel)).1

/-- 2^63 ns of runtime in every nanosecond. -/
def excessive : SchedAttr := { schedPolicy := 1, schedRuntime := 0x8000000000000000, schedPeriod := 1 }

-- All products fit, the sum of the two runtimes is 2^64 and wraps to zero.
theorem fitting_products_lose_the_sum :
    (∀ par ∈ [excessive, excessive], Accountable par) ∧
      Along ieee 100 (ProductsFit 100) {} [excessive, excessive] ∧
      ¬ AccountsExactly ieee 100 {} [excessive, excessive] := by
  refine ⟨by decide +kernel, by decide +kernel, ?_⟩
  intro accounts
  have overload : 1 < load (([excessive] ++ [excessive]).map task) := by
    simp only [load, List.cons_append, List.nil_append, List.map_cons, List.map_nil,
      List.sum_cons, List.sum_nil, Demand.share, task]
    decide +kernel
  have refused := (accounts.refusals [excessive] excessive [] rfl false).mpr overload
  revert refused
  decide +kernel

end Orchestrator.Admission
