import Orchestrator.PlanComparison

/-!
When `cmpPidItemS` orders the allocations of a plan, and what `qsortll` makes of them.
The differences it returns are reduced to an `int`, which loses the order of periods
a multiple of `INT32_MAX` apart and of numbers half of an `int` apart; and what is
less than a step apart in utilisation is equal, which is not transitive.
-/

namespace Orchestrator.PlanOrder
open Orchdata Cmnutil Resmgnt Adaptive Qsortll SerialOrder PlanComparison

/-- Exact utilisation. -/
def share (par : SchedAttr) : ℚ := par.schedRuntime.toNat / par.schedPeriod.toNat

/-- Two tasks of one period other than zero. -/
structure SamePeriod (a b : SchedAttr) : Prop where
  same : a.schedPeriod = b.schedPeriod
  known : a.schedPeriod ≠ 0

instance (a b : SchedAttr) : Decidable (SamePeriod a b) :=
  decidable_of_iff (a.schedPeriod = b.schedPeriod ∧ a.schedPeriod ≠ 0)
    ⟨fun pair => ⟨pair.1, pair.2⟩, fun pair => ⟨pair.same, pair.known⟩⟩

/-- Neither period nor runtime. -/
structure Blank (par : SchedAttr) : Prop where
  period : par.schedPeriod = 0
  runtime : par.schedRuntime = 0

instance (par : SchedAttr) : Decidable (Blank par) :=
  decidable_of_iff (par.schedPeriod = 0 ∧ par.schedRuntime = 0)
    ⟨fun none => ⟨none.1, none.2⟩, fun none => ⟨none.period, none.runtime⟩⟩

theorem cmp_blanks (fp : Rounding) {a b : SchedAttr} (first : Blank a) (second : Blank b) :
    cmpPidItemS fp a b = ahead (2 ^ 31) b.schedPolicy.toNat a.schedPolicy.toNat :=
  cmp_policies fp first.period second.period first.runtime second.runtime

/-- The allocations the comparison orders. Runtimes without a period and policies
without a runtime lie in half of a 32-bit circle; a runtime that is zero on this circle
does not come with two policies; steps of utilisation chain up. -/
structure Comparable (fp : Rounding) (pars : List SchedAttr) : Prop where
  periods : ∀ a ∈ pars, ∀ b ∈ pars, a.schedPeriod ≠ b.schedPeriod → ¬ intMax ∣ apart a b
  runtimes : ∃ start, ∀ a ∈ pars, a.schedPeriod = 0 →
    offset (2 ^ 31) start a.schedRuntime.toNat < (2 ^ 31 : ℕ)
  policies : ∃ start, ∀ a ∈ pars, Blank a →
    offset (2 ^ 31) start a.schedPolicy.toNat < (2 ^ 31 : ℕ)
  mixed : ∀ a ∈ pars, a.schedPeriod = 0 → a.schedRuntime ≠ 0 → 2 ^ 32 ∣ a.schedRuntime.toNat →
    ∀ b ∈ pars, Blank b → ∀ c ∈ pars, Blank c → b.schedPolicy = c.schedPolicy
  close : ∀ a ∈ pars, ∀ b ∈ pars, ∀ c ∈ pars, SamePeriod a b → SamePeriod b c →
    |gap fp a b| < 1 → |gap fp b c| < 1 → |gap fp a c| < 1
  fits : ∀ a ∈ pars, ∀ b ∈ pars, SamePeriod a b → gap fp a b < 2 ^ 31
  tolerance : ∀ a ∈ pars, ∀ b ∈ pars, SamePeriod a b → |gap fp a b| < 1 →
    share b ≤ share a + 1 / 10000

theorem scaled_zero (fp : Rounding) : scaled fp 0 = 0 := by
  simp [scaled, fp.dbl_zero]

section Arithmetic
variable {fp : Rounding} (odd : ∀ x, fp.dbl (-x) = -fp.dbl x)
include odd

theorem dbl_le {x y : ℚ} (le : x ≤ y) : fp.dbl x ≤ fp.dbl y := by
  have nonneg : ∀ z : ℚ, 0 ≤ z → 0 ≤ fp.dbl z := fun z above => by
    have h := fp.dbl_mono 0 z le_rfl above
    rwa [fp.dbl_zero] at h
  by_cases above : 0 ≤ x
  · exact fp.dbl_mono x y above le
  · have lower := nonneg (-x) (by linarith)
    rw [odd] at lower
    by_cases upper : 0 ≤ y
    · have h := nonneg y upper
      linarith
    · have h := fp.dbl_mono (-y) (-x) (by linarith) (by linarith)
      rw [odd, odd] at h
      linarith

theorem scaled_mono {x y : ℚ} (le : x ≤ y) : scaled fp x ≤ scaled fp y := by
  refine dbl_le odd ?_
  have h := dbl_le odd le
  linarith

theorem gap_swap (a b : SchedAttr) : gap fp b a = -gap fp a b := by
  have turned : rate fp a - rate fp b = -(rate fp b - rate fp a) := by ring
  rw [gap, gap, scaled, scaled, turned, odd, neg_mul, odd]

theorem rate_mono {a b : SchedAttr} (same : a.schedPeriod = b.schedPeriod)
    (le : a.schedRuntime.toNat ≤ b.schedRuntime.toNat) : rate fp a ≤ rate fp b := by
  have period : 0 ≤ fp.dbl (b.schedPeriod.toNat : ℚ) := by
    have h := dbl_le odd (Nat.cast_nonneg b.schedPeriod.toNat)
    rwa [fp.dbl_zero] at h
  have runtime : fp.dbl (a.schedRuntime.toNat : ℚ) ≤ fp.dbl b.schedRuntime.toNat :=
    dbl_le odd (Nat.cast_le.mpr le)
  rw [rate, rate, same]
  exact dbl_le odd (div_le_div_of_nonneg_right runtime period)

theorem share_le_of_gap {a b : SchedAttr} (same : a.schedPeriod = b.schedPeriod)
    (below : gap fp a b < 0) : share b ≤ share a := by
  have runtime : b.schedRuntime.toNat ≤ a.schedRuntime.toNat := by
    by_contra more
    have rates := rate_mono odd same (not_le.mp more).le
    have h := scaled_mono odd (sub_nonneg.mpr rates)
    rw [scaled_zero] at h
    exact absurd h (not_le.mpr below)
  rw [share, share, same]
  exact div_le_div_of_nonneg_right (Nat.cast_le.mpr runtime) (Nat.cast_nonneg _)

end Arithmetic

section Order
variable {fp : Rounding} {pars : List SchedAttr} {a b c : SchedAttr}
variable (odd : ∀ x, fp.dbl (-x) = -fp.dbl x)
variable (comparable : Comparable fp pars) (small : ∀ par ∈ pars, Small par)
variable (inA : a ∈ pars) (inB : b ∈ pars) (inC : c ∈ pars)

include comparable small inA inB in
theorem cmp_periods_sign (other : a.schedPeriod ≠ b.schedPeriod) :
    (cmpPidItemS fp a b < 0 ↔ apart a b < 0) ∧ (0 < cmpPidItemS fp a b ↔ 0 < apart a b) := by
  have signs : Int.sign (cmpPidItemS fp a b) = Int.sign (apart a b) := by
    rw [cmp_periods fp (small a inA) (small b inB) other, Int.sign_tmod,
      if_neg (comparable.periods a inA b inB other)]
  rw [← Int.sign_eq_neg_one_iff_neg, ← Int.sign_eq_neg_one_iff_neg, ← Int.sign_eq_one_iff_pos,
    ← Int.sign_eq_one_iff_pos, signs]
  exact ⟨Iff.rfl, Iff.rfl⟩

/-- Where the allocations without a period stand in their halves of the circle. -/
structure Levels (fp : Rounding) (pars : List SchedAttr) (run policy : SchedAttr → ℤ) : Prop where
  runs : ∀ a ∈ pars, ∀ b ∈ pars, a.schedPeriod = 0 → b.schedPeriod = 0 →
    a.schedRuntime ≠ 0 ∨ b.schedRuntime ≠ 0 → cmpPidItemS fp a b = run b - run a
  blanks : ∀ a ∈ pars, ∀ b ∈ pars, Blank a → Blank b →
    cmpPidItemS fp a b = policy a - policy b ∧ run a = run b
  mixed : ∀ a ∈ pars, a.schedPeriod = 0 → a.schedRuntime ≠ 0 → ∀ b ∈ pars, Blank b →
    ∀ c ∈ pars, Blank c → run a = run b → policy b = policy c

include comparable in
theorem exists_levels : ∃ run policy, Levels fp pars run policy := by
  obtain ⟨start, runtimes⟩ := comparable.runtimes
  obtain ⟨first, policies⟩ := comparable.policies
  refine ⟨fun par => offset (2 ^ 31) start par.schedRuntime.toNat,
    fun par => offset (2 ^ 31) first par.schedPolicy.toNat, ?_, ?_, ?_⟩
  · intro a inA b inB noFirst noSecond known
    rw [cmp_runtimes fp noFirst noSecond known]
    exact ahead_offset (runtimes a inA noFirst) (runtimes b inB noSecond)
  · intro a inA b inB blank other
    rw [cmp_blanks fp blank other, blank.runtime, other.runtime]
    exact ⟨ahead_offset (policies b inB other) (policies a inA blank), rfl⟩
  · intro a inA noPeriod some b inB blank c inC other level
    have divides : 2 ^ 32 ∣ a.schedRuntime.toNat := by
      have none : (0 : UInt64).toNat = 0 := rfl
      simp only [offset, blank.runtime, none] at level
      omega
    rw [comparable.mixed a inA noPeriod some divides b inB blank c inC other]

theorem levels_antisymm {run policy : SchedAttr → ℤ} (levels : Levels fp pars run policy)
    (inA : a ∈ pars) (inB : b ∈ pars) (noFirst : a.schedPeriod = 0) (noSecond : b.schedPeriod = 0) :
    cmpPidItemS fp a b < 0 ↔ 0 < cmpPidItemS fp b a := by
  by_cases known : a.schedRuntime ≠ 0 ∨ b.schedRuntime ≠ 0
  · rw [levels.runs a inA b inB noFirst noSecond known,
      levels.runs b inB a inA noSecond noFirst known.symm]
    omega
  · push Not at known
    rw [(levels.blanks a inA b inB ⟨noFirst, known.1⟩ ⟨noSecond, known.2⟩).1,
      (levels.blanks b inB a inA ⟨noSecond, known.2⟩ ⟨noFirst, known.1⟩).1]
    omega

theorem levels_run {run policy : SchedAttr → ℤ} (levels : Levels fp pars run policy)
    (inA : a ∈ pars) (inB : b ∈ pars) (noFirst : a.schedPeriod = 0) (noSecond : b.schedPeriod = 0)
    (le : cmpPidItemS fp a b ≤ 0) : run b ≤ run a := by
  by_cases known : a.schedRuntime ≠ 0 ∨ b.schedRuntime ≠ 0
  · rw [levels.runs a inA b inB noFirst noSecond known] at le
    omega
  · push Not at known
    exact (levels.blanks a inA b inB ⟨noFirst, known.1⟩ ⟨noSecond, known.2⟩).2.ge

theorem levels_trans {run policy : SchedAttr → ℤ} (levels : Levels fp pars run policy)
    (inA : a ∈ pars) (inB : b ∈ pars) (inC : c ∈ pars) (noFirst : a.schedPeriod = 0)
    (noSecond : b.schedPeriod = 0) (noThird : c.schedPeriod = 0) (first : cmpPidItemS fp a b ≤ 0)
    (second : cmpPidItemS fp b c ≤ 0) : cmpPidItemS fp a c ≤ 0 := by
  have lower := levels_run levels inA inB noFirst noSecond first
  have upper := levels_run levels inB inC noSecond noThird second
  by_cases known : a.schedRuntime ≠ 0 ∨ c.schedRuntime ≠ 0
  · rw [levels.runs a inA c inC noFirst noThird known]
    omega
  · push Not at known
    have blankA : Blank a := ⟨noFirst, known.1⟩
    have blankC : Blank c := ⟨noThird, known.2⟩
    have outer := levels.blanks a inA c inC blankA blankC
    by_cases middle : b.schedRuntime = 0
    · have blankB : Blank b := ⟨noSecond, middle⟩
      rw [(levels.blanks a inA b inB blankA blankB).1] at first
      rw [(levels.blanks b inB c inC blankB blankC).1] at second
      omega
    · -- the runtime between them is zero on the circle
      have level : run b = run a := by omega
      have policies := levels.mixed b inB noSecond middle a inA blankA c inC blankC level
      omega

include odd comparable inA inB in
theorem gap_in_int (pair : SamePeriod a b) : InInt (gap fp a b) := by
  have other : SamePeriod b a := ⟨pair.same.symm, pair.same ▸ pair.known⟩
  have upper : trunc (gap fp a b) ≤ intMax := by
    rw [trunc_le_iff _ _ (by decide)]
    exact lt_of_lt_of_eq (comparable.fits a inA b inB pair) (by norm_num [intMax])
  have lower : trunc (gap fp b a) ≤ intMax := by
    rw [trunc_le_iff _ _ (by decide)]
    exact lt_of_lt_of_eq (comparable.fits b inB a inA other) (by norm_num [intMax])
  rw [gap_swap odd a b, trunc_neg] at lower
  refine ⟨?_, upper⟩
  unfold intMin intMax at *
  omega

include odd comparable inA inB in
theorem cmp_gap (pair : SamePeriod a b) : cmpPidItemS fp a b = trunc (gap fp a b) := by
  rw [cmp_rates fp pair.same pair.known]
  exact to_int_fits (gap_in_int odd comparable inA inB pair)

include odd comparable inA inB in
theorem rates_antisymm (pair : SamePeriod a b) :
    cmpPidItemS fp a b < 0 ↔ 0 < cmpPidItemS fp b a := by
  have other : SamePeriod b a := ⟨pair.same.symm, pair.same ▸ pair.known⟩
  rw [cmp_gap odd comparable inA inB pair, cmp_gap odd comparable inB inA other, gap_swap odd a b,
    trunc_neg]
  omega

include odd comparable inA inB inC in
/-- The steps chain up, so at most one step is one step over a task between. -/
theorem rates_trans (pair : SamePeriod a b) (next : SamePeriod b c)
    (first : cmpPidItemS fp a b ≤ 0) (second : cmpPidItemS fp b c ≤ 0) : cmpPidItemS fp a c ≤ 0 := by
  have whole : SamePeriod a c := ⟨pair.same.trans next.same, pair.known⟩
  rw [cmp_gap odd comparable inA inB pair, trunc_nonpos_iff] at first
  rw [cmp_gap odd comparable inB inC next, trunc_nonpos_iff] at second
  rw [cmp_gap odd comparable inA inC whole, trunc_nonpos_iff]
  by_contra far
  have middleAbove : rate fp a ≤ rate fp b := by
    by_contra below
    have more := scaled_mono odd (show rate fp c - rate fp a ≤ rate fp c - rate fp b by linarith)
    exact far (lt_of_le_of_lt more second)
  have middleBelow : rate fp b ≤ rate fp c := by
    by_contra above
    have more := scaled_mono odd (show rate fp c - rate fp a ≤ rate fp b - rate fp a by linarith)
    exact far (lt_of_le_of_lt more first)
  have lower : 0 ≤ gap fp a b := by
    have h := scaled_mono odd (sub_nonneg.mpr middleAbove)
    rwa [scaled_zero] at h
  have upper : 0 ≤ gap fp b c := by
    have h := scaled_mono odd (sub_nonneg.mpr middleBelow)
    rwa [scaled_zero] at h
  have near := comparable.close a inA b inB c inC pair next (by rwa [abs_of_nonneg lower])
    (by rwa [abs_of_nonneg upper])
  exact far (lt_of_abs_lt near)

include comparable small inA inB in
theorem cmp_nonpos_periods (le : cmpPidItemS fp a b ≤ 0) :
    b.schedPeriod.toNat ≤ a.schedPeriod.toNat := by
  by_cases same : a.schedPeriod = b.schedPeriod
  · rw [same]
  · have signs := (cmp_periods_sign comparable small inA inB same).2
    unfold apart at signs
    omega

include odd comparable small in
theorem comparable_orders : Orders (cmpPidItemS fp) pars := by
  obtain ⟨run, policy, levels⟩ := exists_levels comparable
  constructor
  · intro a inA b inB
    by_cases same : a.schedPeriod = b.schedPeriod
    · by_cases none : a.schedPeriod = 0
      · exact levels_antisymm levels inA inB none (same ▸ none)
      · exact rates_antisymm odd comparable inA inB ⟨same, none⟩
    · rw [(cmp_periods_sign comparable small inA inB same).1,
        (cmp_periods_sign comparable small inB inA (Ne.symm same)).2]
      unfold apart
      omega
  · intro a inA b inB c inC first second
    have upper := cmp_nonpos_periods comparable small inA inB first
    have lower := cmp_nonpos_periods comparable small inB inC second
    by_cases outer : a.schedPeriod = c.schedPeriod
    · -- all three periods are the same
      have pair : a.schedPeriod = b.schedPeriod := by
        apply UInt64.toNat_inj.mp
        rw [outer] at upper ⊢
        omega
      by_cases none : a.schedPeriod = 0
      · exact levels_trans levels inA inB inC none (pair ▸ none) (outer ▸ none) first second
      · exact rates_trans odd comparable inA inB inC ⟨pair, none⟩ ⟨pair ▸ outer, pair ▸ none⟩ first
          second
    · have signs := (cmp_periods_sign comparable small inA inC outer).2
      have distinct : a.schedPeriod.toNat ≠ c.schedPeriod.toNat := fun same =>
        outer (UInt64.toNat_inj.mp same)
      unfold apart at signs
      omega

/-- What the sort promises of two allocations, the first in front. -/
def Before (a b : SchedAttr) : Prop :=
  b.schedPeriod ≤ a.schedPeriod ∧ (SamePeriod a b → share b ≤ share a + 1 / 10000)

include odd comparable small inA inB in
theorem before_of_nonpos (le : cmpPidItemS fp a b ≤ 0) : Before a b := by
  refine ⟨UInt64.le_iff_toNat_le.mpr (cmp_nonpos_periods comparable small inA inB le), fun pair => ?_⟩
  rw [cmp_gap odd comparable inA inB pair, trunc_nonpos_iff] at le
  by_cases near : |gap fp a b| < 1
  · exact comparable.tolerance a inA b inB pair near
  · have below : gap fp a b < 0 := by
      by_contra above
      rw [abs_of_nonneg (not_lt.mp above)] at near
      exact near le
    have shares := share_le_of_gap odd pair.same below
    linarith

end Order

section Lists
variable {α : Type} (fp : Rounding) (key : α → SchedAttr)

/-- No comparison converts what is no `int`, it is an order on the list, and in whatever
order its elements stand, the sort leaves descending periods and, up to the tolerance, utilisations. -/
structure OrdersWell (list : List α) : Prop where
  defined : ∀ a ∈ list.map key, ∀ b ∈ list.map key, SamePeriod a b → InInt (gap fp a b)
  order : Orders (cmpPidItemS fp) (list.map key)
  sorted : ∀ order, order.Perm list →
    (qsortll (fun a b => cmpPidItemS fp (key a) (key b)) order).Pairwise
      fun a b => Before (key a) (key b)

variable {fp key} {list : List α} (odd : ∀ x, fp.dbl (-x) = -fp.dbl x)
variable (small : ∀ par ∈ list.map key, Small par)

include odd small in
theorem orders_well_of_comparable (comparable : Comparable fp (list.map key)) :
    OrdersWell fp key list := by
  have orders := comparable_orders odd comparable small
  refine ⟨fun a inA b inB => gap_in_int odd comparable inA inB, orders, ?_⟩
  intro order perm
  have inside : ∀ x ∈ order, key x ∈ list.map key := fun x member =>
    List.mem_map_of_mem (perm.mem_iff.mp member)
  have sorted : (qsortll (fun a b => cmpPidItemS fp (key a) (key b)) order).Pairwise
      fun a b => cmpPidItemS fp (key a) (key b) ≤ 0 := by
    refine recur_pairwise _ _ _ _ le_rfl ?_ ?_ ?_
    · exact fun a ha b hb c hc => orders.trans _ (inside a ha) _ (inside b hb) _ (inside c hc)
    · exact fun a _ b _ below => below.le
    · intro a ha b hb above
      rw [orders.antisymm _ (inside a ha) _ (inside b hb)] at above
      exact not_lt.mp above
  have members := qsortll_perm (fun a b => cmpPidItemS fp (key a) (key b)) order
  refine sorted.imp_of_mem fun {a b} inA inB le => ?_
  exact before_of_nonpos odd comparable small (inside a (members.mem_iff.mp inA))
    (inside b (members.mem_iff.mp inB)) le

/-- Two elements that compare as equal can stand in either order. -/
theorem before_of_equal {x y : α} (well : OrdersWell fp key list) (first : x ∈ list)
    (second : y ∈ list) (distinct : key x ≠ key y)
    (equal : cmpPidItemS fp (key y) (key x) = 0) : Before (key x) (key y) :=
  exists_order_behind (fun a b => cmpPidItemS fp (key a) (key b)) first second
    (fun same => distinct (congrArg key same)) (by simp [equal]) well.sorted

include small in
theorem periods_of_well (well : OrdersWell fp key list) : ∀ a ∈ list.map key, ∀ b ∈ list.map key,
    a.schedPeriod ≠ b.schedPeriod → ¬ intMax ∣ apart a b := by
  -- a multiple makes the two equal, and the shorter period may come first
  have longer : ∀ a ∈ list.map key, ∀ b ∈ list.map key,
      a.schedPeriod.toNat < b.schedPeriod.toNat → ¬ intMax ∣ apart b a := by
    intro a inA b inB shorter divides
    have other : b.schedPeriod ≠ a.schedPeriod := fun same => by
      rw [same] at shorter
      omega
    have equal : cmpPidItemS fp b a = 0 := by
      rw [cmp_periods fp (small b inB) (small a inA) other]
      exact Int.tmod_eq_zero_of_dvd divides
    obtain ⟨x, first, rfl⟩ := List.mem_map.mp inA
    obtain ⟨y, second, rfl⟩ := List.mem_map.mp inB
    have order := before_of_equal well first second
      (fun same => other (congrArg SchedAttr.schedPeriod same).symm) equal
    have le := UInt64.le_iff_toNat_le.mp order.1
    omega
  intro a inA b inB other divides
  have distinct : a.schedPeriod.toNat ≠ b.schedPeriod.toNat := fun same =>
    other (UInt64.toNat_inj.mp same)
  have turned : apart b a = -apart a b := by
    unfold apart
    omega
  rcases Nat.lt_or_gt_of_ne distinct with less | more
  · exact longer a inA b inB less (turned ▸ (Int.dvd_neg.mpr divides))
  · exact longer b inB a inA more divides

section Preorder
variable {pars : List SchedAttr} (orders : Orders (cmpPidItemS fp) pars)
include orders

theorem runtimes_of_orders : ∃ start, ∀ a ∈ pars, a.schedPeriod = 0 →
    offset (2 ^ 31) start a.schedRuntime.toNat < (2 ^ 31 : ℕ) := by
  have level : ∀ x : ℤ, ahead (2 ^ 31) x x = 0 := fun x => by simp [ahead]
  have around : Orders (fun a b : SchedAttr =>
      ahead (2 ^ 31) (a.schedRuntime.toNat : ℤ) b.schedRuntime.toNat)
      (pars.filter fun par => par.schedPeriod = 0) := by
    constructor
    · intro a inA b inB
      simp only [List.mem_filter, decide_eq_true_eq] at inA inB
      by_cases known : a.schedRuntime ≠ 0 ∨ b.schedRuntime ≠ 0
      · rw [← cmp_runtimes fp inA.2 inB.2 known, ← cmp_runtimes fp inB.2 inA.2 known.symm]
        exact orders.antisymm a inA.1 b inB.1
      · push Not at known
        rw [known.1, known.2, level]
    · intro a inA b inB c inC first second
      simp only [List.mem_filter, decide_eq_true_eq] at inA inB inC
      -- two without a runtime are one value; otherwise the code compares the runtimes
      by_cases left : a.schedRuntime = 0 ∧ b.schedRuntime = 0
      · rw [left.1, ← left.2]
        exact second
      · by_cases right : b.schedRuntime = 0 ∧ c.schedRuntime = 0
        · rw [right.2, ← right.1]
          exact first
        · by_cases outer : a.schedRuntime = 0 ∧ c.schedRuntime = 0
          · rw [outer.1, outer.2, level]
          · rw [← cmp_runtimes fp inA.2 inB.2 (by tauto)] at first
            rw [← cmp_runtimes fp inB.2 inC.2 (by tauto)] at second
            rw [← cmp_runtimes fp inA.2 inC.2 (by tauto)]
            exact orders.trans a inA.1 b inB.1 c inC.1 first second
  obtain ⟨start, within⟩ := half_of_orders (by decide) around
  exact ⟨start, fun a inA none => within a (List.mem_filter.mpr ⟨inA, by simpa using none⟩)⟩

theorem policies_of_orders : ∃ start, ∀ a ∈ pars, Blank a →
    offset (2 ^ 31) start a.schedPolicy.toNat < (2 ^ 31 : ℕ) := by
  have around : Orders (fun a b : SchedAttr =>
      ahead (2 ^ 31) (a.schedPolicy.toNat : ℤ) b.schedPolicy.toNat)
      (pars.filter fun par => Blank par) := by
    constructor
    · intro a inA b inB
      simp only [List.mem_filter, decide_eq_true_eq] at inA inB
      rw [← cmp_blanks fp inB.2 inA.2, ← cmp_blanks fp inA.2 inB.2]
      exact orders.antisymm b inB.1 a inA.1
    · intro a inA b inB c inC first second
      simp only [List.mem_filter, decide_eq_true_eq] at inA inB inC
      rw [← cmp_blanks fp inB.2 inA.2] at first
      rw [← cmp_blanks fp inC.2 inB.2] at second
      rw [← cmp_blanks fp inC.2 inA.2]
      exact orders.trans c inC.1 b inB.1 a inA.1 second first
  obtain ⟨start, within⟩ := half_of_orders (by decide) around
  exact ⟨start, fun a inA blank => within a (List.mem_filter.mpr ⟨inA, by simpa using blank⟩)⟩

/-- Through an element equal to both, two elements are equal. -/
theorem equal_through {a b c : SchedAttr} (inA : a ∈ pars) (inB : b ∈ pars) (inC : c ∈ pars)
    (first : cmpPidItemS fp a b = 0) (second : cmpPidItemS fp b c = 0) : cmpPidItemS fp a c = 0 := by
  have up := orders.trans a inA b inB c inC first.le second.le
  have firstBack := orders.antisymm b inB a inA
  have secondBack := orders.antisymm c inC b inB
  have firstOther := orders.antisymm a inA b inB
  have secondOther := orders.antisymm b inB c inC
  have down := orders.trans c inC b inB a inA
  have turned := orders.antisymm a inA c inC
  omega

theorem mixed_of_orders : ∀ a ∈ pars, a.schedPeriod = 0 → a.schedRuntime ≠ 0 →
    2 ^ 32 ∣ a.schedRuntime.toNat →
      ∀ b ∈ pars, Blank b → ∀ c ∈ pars, Blank c → b.schedPolicy = c.schedPolicy := by
  intro a inA none some divides b inB blankB c inC blankC
  have zero : (0 : UInt64).toNat = 0 := rfl
  have first : cmpPidItemS fp b a = 0 := by
    rw [cmp_runtimes fp blankB.period none (Or.inr some), blankB.runtime, zero, ahead]
    exact Int.bmod_eq_zero_of_dvd (by push_cast; omega)
  have second : cmpPidItemS fp a c = 0 := by
    rw [cmp_runtimes fp none blankC.period (Or.inl some), blankC.runtime, zero, ahead]
    exact Int.bmod_eq_zero_of_dvd (by push_cast; omega)
  have equal := equal_through orders inB inA inC first second
  rw [cmp_blanks fp blankB blankC, ahead] at equal
  have multiple := Int.dvd_of_bmod_eq_zero equal
  have smallB := b.schedPolicy.toNat_lt
  have smallC := c.schedPolicy.toNat_lt
  apply UInt32.toNat_inj.mp
  push_cast at multiple
  omega

theorem close_of_orders : ∀ a ∈ pars, ∀ b ∈ pars, ∀ c ∈ pars, SamePeriod a b → SamePeriod b c →
    |gap fp a b| < 1 → |gap fp b c| < 1 → |gap fp a c| < 1 := by
  intro a inA b inB c inC pair next first second
  rw [← trunc_zero_iff, ← to_int_zero_iff, ← cmp_rates fp pair.same pair.known] at first
  rw [← trunc_zero_iff, ← to_int_zero_iff, ← cmp_rates fp next.same next.known] at second
  rw [← trunc_zero_iff, ← to_int_zero_iff, ← cmp_rates fp (pair.same.trans next.same) pair.known]
  exact equal_through orders inA inB inC first second

end Preorder

include odd small in
theorem comparable_of_orders_well (well : OrdersWell fp key list) :
    Comparable fp (list.map key) where
  periods := periods_of_well small well
  runtimes := runtimes_of_orders well.order
  policies := policies_of_orders well.order
  mixed := mixed_of_orders well.order
  close := close_of_orders well.order
  fits := by
    intro a inA b inB pair
    have upper := (well.defined a inA b inB pair).2
    rw [trunc_le_iff _ _ (by decide)] at upper
    exact lt_of_lt_of_eq upper (by norm_num [intMax])
  tolerance := by
    intro a inA b inB pair near
    by_cases same : a = b
    · rw [same]
      linarith
    · obtain ⟨x, first, rfl⟩ := List.mem_map.mp inA
      obtain ⟨y, second, rfl⟩ := List.mem_map.mp inB
      have equal : cmpPidItemS fp (key y) (key x) = 0 := by
        rw [cmp_rates fp pair.same.symm (pair.same ▸ pair.known), to_int_zero_iff, trunc_zero_iff,
          gap_swap odd (key x) (key y), abs_neg]
        exact near
      exact (before_of_equal well first second same equal).2 pair

end Lists

theorem ieee_odd (x : ℚ) : ieee.dbl (-x) = -ieee.dbl x := BinaryRounding.round_to_neg 53 x

/-- The attributes an allocation is sorted by. -/
def planned (conts : Containers) (alloc : ResAlloc) : SchedAttr := attrOf conts alloc.item

/-- The planner goes through comparable allocations in the order promised. -/
theorem plan_order_before (sched : Schedule)
    (small : ∀ par ∈ sched.2.map (planned sched.1.conts), Small par)
    (comparable : Comparable ieee (sched.2.map (planned sched.1.conts))) :
    (planOrder ieee sched).Pairwise
      fun a b => Before (planned sched.1.conts a) (planned sched.1.conts b) :=
  (orders_well_of_comparable ieee_odd small comparable).sorted sched.2 (List.Perm.refl _)

/-- The comparison orders the allocations of a plan, and the sort leaves them in this
order, exactly if none of its reductions to an `int` gets in the way. -/
theorem plan_order_iff (conts : Containers) (aHead : List ResAlloc)
    (small : ∀ par ∈ aHead.map (planned conts), Small par) :
    OrdersWell ieee (planned conts) aHead ↔ Comparable ieee (aHead.map (planned conts)) :=
  ⟨comparable_of_orders_well ieee_odd small, orders_well_of_comparable ieee_odd small⟩

/-- Tasks of 2 ms with these periods. -/
def periodsOf (first second : UInt64) : Containers where
  pidcAt := fun p => { attr := p }
  attrAt := fun
    | 1 => { schedPolicy := schedFifo, schedRuntime := 2000000, schedPeriod := first }
    | _ => { schedPolicy := schedFifo, schedRuntime := 2000000, schedPeriod := second }

def twoAllocs : List ResAlloc := [{ item := .pid 2 }, { item := .pid 1 }]

theorem plan_order_ten_twenty : OrdersWell ieee (planned (periodsOf 10000000 20000000)) twoAllocs :=
  (plan_order_iff (periodsOf 10000000 20000000) twoAllocs (by decide +kernel)).mpr
    { periods := by decide +kernel
      runtimes := ⟨0, by decide +kernel⟩
      policies := ⟨0, by decide +kernel⟩
      mixed := by decide +kernel
      close := by decide +kernel
      fits := by decide +kernel
      tolerance := by decide +kernel }

-- 10 ms and INT32_MAX more compare as equal, and the shorter period may come first.
theorem equal_periods_unordered :
    (∀ par ∈ twoAllocs.map (planned (periodsOf 10000000 2157483647)), Small par) ∧
      ¬ OrdersWell ieee (planned (periodsOf 10000000 2157483647)) twoAllocs := by
  refine ⟨by decide +kernel, fun well => ?_⟩
  have order := before_of_equal well (show { item := .pid 1 } ∈ twoAllocs by decide)
    (show { item := .pid 2 } ∈ twoAllocs by decide) (by decide +kernel) (by decide +kernel)
  have longer := order.1
  revert longer
  decide +kernel

end Orchestrator.PlanOrder
