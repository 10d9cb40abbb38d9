import Orchestrator.Admission

/-!
When the arithmetic of admission is enough. The code computes with wrapped words;
`RoomFor` reads the same bounds off the runtimes and periods, step by step, and
`Room` needs one of them for a whole run: the last hyperperiod is the longest.
-/

namespace Orchestrator.Overflow
open Orchdata Resmgnt HyperPeriod Cmnutil Accounting Admission BinaryRounding

/-- Every intermediate of one `checkUvalue` call fits its C type. -/
structure IntermediatesFit (fp : Rounding) (rrtime : Int) (res : ResTracer) (par : SchedAttr) :
    Prop where
  noWrap : NoWrap rrtime res par
  score : ScoreFits fp rrtime res par

/-- The new period divides the hyperperiod or is a multiple of it. -/
def harmonic (done : List Demand) (d : Demand) : Bool :=
  hyper done == d.period || Nat.lcm (hyper done) d.period == d.period ||
    Nat.lcm (hyper done) d.period == hyper done

/-- The score of a demand next to those accounted. -/
def interrupts (fp : Rounding) (done : List Demand) (d : Demand) : Int :=
  trunc (interference fp (quotient fp (work done) (hyper done)) (hyper done) d.period) + schedUharmonic

/-- The same bounds in exact arithmetic: `done` is accounted, `d` comes next. -/
structure StepRoom (fp : Rounding) (hrmc : Bool) (done : List Demand) (d : Demand) : Prop where
  hyper : done ≠ [] → hyper (done ++ [d]) < word
  scaled : done ≠ [] → work done * HyperPeriod.hyper (done ++ [d]) < word
  charged : d.runtime * HyperPeriod.hyper (done ++ [d]) < word
  total : work (done ++ [d]) < word
  score : done ≠ [] → ¬(hrmc && harmonic done d) → interrupts fp done d ≤ intMax

def RoomFor (fp : Rounding) : Bool → List Demand → List Demand → Prop
  | _, _, [] => True
  | hrmc, done, d :: rest =>
      StepRoom fp hrmc done d ∧
        RoomFor fp (hrmc && (done.isEmpty || harmonic done d)) (done ++ [d]) rest

section Step
variable (fp : Rounding) (rrtime : Int) (res : ResTracer) (par : SchedAttr)
variable (done : List Demand) (d : Demand)

theorem lcm_tracked (tracks : Tracks fp res done) (asks : Asks rrtime par d) (busy : done ≠ []) :
    Nat.lcm res.basePeriod.toNat (baset rrtime par).toNat = hyper (done ++ [d]) := by
  rw [tracks.base, base_post done busy, ← asks.period, hyper_append]

theorem hyper_tracked (tracks : Tracks fp res done) (asks : Asks rrtime par d) (busy : done ≠ [])
    (fits : hyper (done ++ [d]) < word) : (hyperP rrtime res par).toNat = hyper (done ++ [d]) := by
  have lcm := lcm_tracked fp rrtime res par done d tracks asks busy
  rw [hyperP, lcm_exact _ _ (by rwa [lcm]), lcm]

theorem base_tracked (tracks : Tracks fp res done) (asks : Asks rrtime par d)
    (fits : done ≠ [] → hyper (done ++ [d]) < word) :
    (newBase rrtime res par).toNat = hyper (done ++ [d]) := by
  have idle := tracks_idle_iff fp res done tracks
  unfold newBase
  by_cases empty : done = []
  · rw [if_pos (idle.mpr empty), ← asks.period, empty]
    simp [hyper]
  · rw [if_neg (fun h => empty (idle.mp h))]
    exact hyper_tracked fp rrtime res par done d tracks asks empty (fits empty)

/-- Products of the code and products over naturals are bounded together. -/
theorem products_fit_iff (tracks : Tracks fp res done) (asks : Asks rrtime par d)
    (known : unknown par = false) :
    ProductsFit rrtime res par ↔
      (done ≠ [] → hyper (done ++ [d]) < word) ∧
        (done ≠ [] → work done * hyper (done ++ [d]) < word) ∧
          d.runtime * hyper (done ++ [d]) < word := by
  have idle := tracks_idle_iff fp res done tracks
  have usedWork : (used res par).toNat = work done := by
    rw [used_known res par known, tracks.used, used_post_work]
  constructor
  · intro fits
    have hyperFits : done ≠ [] → hyper (done ++ [d]) < word := fun busy => by
      have h := fits.hyper (fun zero => busy (idle.mp zero))
      rwa [lcm_tracked fp rrtime res par done d tracks asks busy] at h
    refine ⟨hyperFits, fun busy => ?_, ?_⟩
    · have h := fits.scaled (fun zero => busy (idle.mp zero))
      rwa [usedWork, hyper_tracked fp rrtime res par done d tracks asks busy (hyperFits busy)] at h
    · have h := fits.charged
      rwa [base_tracked fp rrtime res par done d tracks asks hyperFits, ← asks.runtime] at h
  · rintro ⟨hyperFits, scaled, charged⟩
    constructor
    · intro used
      have busy : done ≠ [] := fun empty => used (idle.mpr empty)
      rw [lcm_tracked fp rrtime res par done d tracks asks busy]
      exact hyperFits busy
    · intro used
      have busy : done ≠ [] := fun empty => used (idle.mpr empty)
      rw [usedWork, hyper_tracked fp rrtime res par done d tracks asks busy (hyperFits busy)]
      exact scaled busy
    · rw [base_tracked fp rrtime res par done d tracks asks hyperFits, ← asks.runtime]
      exact charged
    · intro impossible
      rw [known] at impossible
      cases impossible

/-- The two addends of the new used time, while the products fit. -/
theorem sum_tracked (tracks : Tracks fp res done) (asks : Asks rrtime par d)
    (known : unknown par = false) (fits : ProductsFit rrtime res par) :
    (scaledUsed rrtime res par).toNat +
      (par.schedRuntime * newBase rrtime res par / baset rrtime par).toNat = work (done ++ [d]) := by
  have newSpan := new_base_exact rrtime res par d asks fits
  have usedPost : (used res par).toNat = (post done).used := by
    rw [used_known res par known, tracks.used]
  rw [scaled_posts rrtime res par (post done) d asks fits tracks.base usedPost,
    charged_posts rrtime res par (post done) d asks fits tracks.base, ← used_post_work, post_append]
  rfl

theorem no_wrap_iff (tracks : Tracks fp res done) (asks : Asks rrtime par d)
    (known : unknown par = false) :
    NoWrap rrtime res par ↔
      ((done ≠ [] → hyper (done ++ [d]) < word) ∧
        (done ≠ [] → work done * hyper (done ++ [d]) < word) ∧
          d.runtime * hyper (done ++ [d]) < word) ∧ work (done ++ [d]) < word := by
  have products := products_fit_iff fp rrtime res par done d tracks asks known
  constructor
  · intro fits
    have total := fits.2.total
    rw [sum_tracked fp rrtime res par done d tracks asks known fits.1] at total
    exact ⟨products.mp fits.1, total⟩
  · rintro ⟨bounds, total⟩
    have fits := products.mpr bounds
    refine ⟨fits, ⟨fun impossible => ?_, ?_⟩⟩
    · rw [known] at impossible
      cases impossible
    · rwa [sum_tracked fp rrtime res par done d tracks asks known fits]

theorem harmonic_tracked (tracks : Tracks fp res done) (asks : Asks rrtime par d)
    (busy : done ≠ []) (fits : hyper (done ++ [d]) < word) :
    fitsHarmonic rrtime res par = harmonic done d := by
  have hyperNat := hyper_tracked fp rrtime res par done d tracks asks busy fits
  rw [hyper_append] at hyperNat
  have baseNat : res.basePeriod.toNat = hyper done := by rw [tracks.base, base_post done busy]
  have eq_iff : ∀ a b : UInt64, (a == b) = (a.toNat == b.toNat) := fun a b => by
    rw [Bool.eq_iff_iff, beq_iff_eq, beq_iff_eq, UInt64.toNat_inj]
  simp only [fitsHarmonic, harmonic, eq_iff, hyperNat, baseNat, ← asks.period]

/-- One call fits exactly when the exact values do. -/
theorem step_fits_iff (tracks : Tracks fp res done) (asks : Asks rrtime par d)
    (known : unknown par = false) :
    IntermediatesFit fp rrtime res par ↔ StepRoom fp res.hrmc done d := by
  have idle := tracks_idle_iff fp res done tracks
  have wrap := no_wrap_iff fp rrtime res par done d tracks asks known
  have scores : done ≠ [] →
      trunc (interference fp res.u res.basePeriod.toNat (baset rrtime par).toNat) + schedUharmonic =
        interrupts fp done d := fun busy => by
    rw [tracks.u busy, tracks.base, base_post done busy, used_post_work, ← asks.period, interrupts]
  constructor
  · rintro ⟨noWrap, score⟩
    obtain ⟨⟨hyperFits, scaled, charged⟩, total⟩ := wrap.mp noWrap
    refine ⟨hyperFits, scaled, charged, total, fun busy apart => ?_⟩
    rw [← scores busy]
    apply score (fun zero => busy (idle.mp zero))
    rwa [harmonic_tracked fp rrtime res par done d tracks asks busy (hyperFits busy)]
  · rintro ⟨hyperFits, scaled, charged, total, score⟩
    refine ⟨wrap.mpr ⟨⟨hyperFits, scaled, charged⟩, total⟩, fun used apart => ?_⟩
    have busy : done ≠ [] := fun empty => used (idle.mpr empty)
    rw [scores busy]
    apply score busy
    rwa [harmonic_tracked fp rrtime res par done d tracks asks busy (hyperFits busy)] at apart

theorem hrmc_tracked (tracks : Tracks fp res done) (asks : Asks rrtime par d)
    (fits : done ≠ [] → hyper (done ++ [d]) < word) :
    (added fp rrtime res par).hrmc = (res.hrmc && (done.isEmpty || harmonic done d)) := by
  have idle := tracks_idle_iff fp res done tracks
  change newHrmc rrtime res par = _
  unfold newHrmc
  by_cases empty : done = []
  · rw [if_pos (idle.mpr empty)]
    simp [empty]
  · rw [if_neg (fun zero => empty (idle.mp zero)),
      harmonic_tracked fp rrtime res par done d tracks asks empty (fits empty)]
    have used : done.isEmpty = false := List.isEmpty_eq_false_iff.mpr empty
    rw [used, Bool.false_or]

end Step

theorem along_fits_iff (fp : Rounding) (rrtime : Int) (res : ResTracer) (done : List Demand)
    (tasks : List SchedAttr) (admissible : ∀ par ∈ tasks, Accountable par)
    (tracks : Tracks fp res done) :
    Along fp rrtime (IntermediatesFit fp rrtime) res tasks ↔
      RoomFor fp res.hrmc done (tasks.map task) := by
  induction tasks generalizing res done with
  | nil => exact Iff.rfl
  | cons par rest ih =>
      have accountable := admissible par List.mem_cons_self
      have asks := accountable_asks rrtime par accountable
      have known := accountable_known par accountable
      have step := step_fits_iff fp rrtime res par done (task par) tracks asks known
      simp only [Along, List.map_cons, RoomFor, step]
      -- Later steps are comparable only from a tracer this step left exact.
      refine and_congr_right fun room => ?_
      have next := added_tracks fp rrtime res par done (task par) tracks asks known
        (step.mpr room).noWrap
      rw [ih _ _ (fun other member => admissible other (List.mem_cons_of_mem par member)) next,
        hrmc_tracked fp rrtime res par done (task par) tracks asks room.hyper]

/-- A tracer built from `tasks` and then tested with `candidate`. The totals may
have moved to a tracer with another harmonic flag in between, as
`recomputeTimes_u` does. -/
def BuildAndTestFit (fp : Rounding) (rrtime : Int) (built tested : Bool) (tasks : List SchedAttr)
    (candidate : SchedAttr) : Prop :=
  Along fp rrtime (IntermediatesFit fp rrtime) { hrmc := built } tasks ∧
    IntermediatesFit fp rrtime { addAll fp rrtime { hrmc := built } tasks with hrmc := tested } candidate

/-- Admission stays within its types exactly when the exact values of each step do. -/
theorem build_and_test_rooms (fp : Rounding) (rrtime : Int) (built tested : Bool)
    (tasks : List SchedAttr) (candidate : SchedAttr)
    (admissible : ∀ par ∈ candidate :: tasks, Accountable par) :
    BuildAndTestFit fp rrtime built tested tasks candidate ↔
      RoomFor fp built [] (tasks.map task) ∧
        StepRoom fp tested (tasks.map task) (task candidate) := by
  have known : ∀ par ∈ tasks, Accountable par :=
    fun par member => admissible par (List.mem_cons_of_mem candidate member)
  have accountable := admissible candidate List.mem_cons_self
  have start : Tracks fp { hrmc := built } [] := idle_tracks fp _ rfl rfl
  have build := along_fits_iff fp rrtime { hrmc := built } [] tasks known start
  unfold BuildAndTestFit
  rw [build]
  refine and_congr_right fun room => ?_
  have roomy : Along fp rrtime (NoWrap rrtime) { hrmc := built } tasks :=
    along_mono fp rrtime _ _ _ _ (fun _ _ fits => fits.noWrap) (build.mpr room)
  have tracks := add_all_tracks_tasks fp rrtime _ tasks known start roomy
  exact step_fits_iff fp rrtime { addAll fp rrtime { hrmc := built } tasks with hrmc := tested }
    candidate _ (task candidate) ⟨tracks.base, tracks.used, tracks.u⟩
    (accountable_asks rrtime candidate accountable) (accountable_known candidate accountable)

section Score

/-- A used time of less than 1.6 seconds a nanosecond of period is scored within `int`. -/
theorem interference_fits (used base : ℕ) (period : ℕ) (span : 0 < base) (positive : 0 < period)
    (digits : period ≤ 2 ^ 53) (small : used ≤ 1600000000 * period) :
    trunc (interference ieee (quotient ieee used base) base period) + schedUharmonic ≤ intMax := by
  have exact : ieee.dbl period = period :=
    round_to_of_representable (by decide) (representable_nat digits)
  have periodPos : (0 : ℚ) < period := by exact_mod_cast positive
  have basePos : 0 < ieee.dbl base := by
    have one : ieee.dbl 1 ≤ ieee.dbl base :=
      ieee.dbl_mono 1 base zero_le_one (by exact_mod_cast span)
    rw [ieee.dbl_one] at one
    linarith
  -- the double and the float of a positive value are at most this much above it
  have dbl : ∀ q : ℚ, 0 ≤ q → ieee.dbl q ≤ q * (1 + 1 / 2 ^ 52) := fun q nonneg =>
    round_to_le 53 (by decide) nonneg
  have flt : ∀ q : ℚ, 0 ≤ q → ieee.flt q ≤ q * (1 + 1 / 2 ^ 23) := fun q nonneg =>
    round_to_le 24 (by decide) nonneg
  have usedNonneg : (0 : ℚ) ≤ used := Nat.cast_nonneg used
  have num := dbl_nonneg ieee usedNonneg
  have ratio : 0 ≤ ieee.dbl used / ieee.dbl base := div_nonneg num basePos.le
  have quotientNonneg := quotient_nonneg ieee used base
  have load : quotient ieee used base * ieee.dbl base ≤
      used * (1 + 1 / 2 ^ 52) * (1 + 1 / 2 ^ 52) * (1 + 1 / 2 ^ 23) := by
    have bound : quotient ieee used base ≤
        ieee.dbl used / ieee.dbl base * (1 + 1 / 2 ^ 52) * (1 + 1 / 2 ^ 23) :=
      (flt _ (dbl_nonneg ieee ratio)).trans (mul_le_mul_of_nonneg_right (dbl _ ratio) (by norm_num))
    calc quotient ieee used base * ieee.dbl base
        ≤ ieee.dbl used / ieee.dbl base * (1 + 1 / 2 ^ 52) * (1 + 1 / 2 ^ 23) * ieee.dbl base :=
          mul_le_mul_of_nonneg_right bound basePos.le
      _ = ieee.dbl used * (1 + 1 / 2 ^ 52) * (1 + 1 / 2 ^ 23) := by field_simp
      _ ≤ used * (1 + 1 / 2 ^ 52) * (1 + 1 / 2 ^ 52) * (1 + 1 / 2 ^ 23) := by
          have up := dbl used usedNonneg
          gcongr
  have product := mul_nonneg quotientNonneg basePos.le
  have value : interference ieee (quotient ieee used base) base period ≤ 1600001000 := by
    have top : ieee.dbl (quotient ieee used base * ieee.dbl base) / period ≤ 1600000900 := by
      rw [div_le_iff₀ periodPos]
      have outer := dbl _ product
      have bound : (used : ℚ) ≤ 1600000000 * period := by exact_mod_cast small
      linarith
    have outer := dbl _ (div_nonneg (dbl_nonneg ieee product) periodPos.le)
    rw [interference, exact]
    linarith
  have nonneg : 0 ≤ interference ieee (quotient ieee used base) base period := by
    rw [interference, exact]
    exact dbl_nonneg ieee (div_nonneg (dbl_nonneg ieee product) periodPos.le)
  have floor : ⌊interference ieee (quotient ieee used base) base period⌋ ≤ 1600001000 :=
    Int.floor_le_iff.mpr (by push_cast; linarith)
  rw [trunc, if_pos nonneg]
  simp only [schedUharmonic, intMax]
  omega

end Score

instance (fp : Rounding) (rrtime : Int) (res : ResTracer) (par : SchedAttr) :
    Decidable (IntermediatesFit fp rrtime res par) :=
  decidable_of_iff (_ ∧ _) ⟨fun ⟨noWrap, score⟩ => ⟨noWrap, score⟩,
    fun ⟨noWrap, score⟩ => ⟨noWrap, score⟩⟩

instance (fp : Rounding) (rrtime : Int) (built tested : Bool) (tasks : List SchedAttr)
    (candidate : SchedAttr) : Decidable (BuildAndTestFit fp rrtime built tested tasks candidate) :=
  inferInstanceAs (Decidable (_ ∧ _))

/-- A task of the domain admission is written for: deadline or FIFO, runtime at
most the period, period at most one second. -/
def Ordinary (par : SchedAttr) : Prop :=
  (par.schedPolicy = schedDeadline ∨ par.schedPolicy = schedFifo) ∧ 0 < par.schedRuntime ∧
    par.schedRuntime ≤ par.schedPeriod ∧ par.schedPeriod ≤ 1000000000

/-- The demand of such a task. -/
structure Sized (d : Demand) : Prop where
  busy : 0 < d.runtime
  within : d.runtime ≤ d.period
  second : d.period ≤ 1000000000

theorem ordinary_accountable {par : SchedAttr} (ordinary : Ordinary par) : Accountable par := by
  obtain ⟨policy, busy, -, -⟩ := ordinary
  refine ⟨fun robin => ?_, fun none => ?_⟩
  · rw [robin] at policy
    revert policy
    decide
  · rw [none] at busy
    exact absurd busy (by decide)

theorem ordinary_sized {par : SchedAttr} (ordinary : Ordinary par) : Sized (task par) := by
  obtain ⟨-, busy, within, second⟩ := ordinary
  have period : par.schedPeriod ≠ 0 := fun zero => by
    rw [zero, UInt64.le_iff_toNat_le] at within
    rw [UInt64.lt_iff_toNat_lt] at busy
    exact absurd (busy.trans_le within) (lt_irrefl _)
  have asks : (task par).period = par.schedPeriod.toNat := if_neg period
  refine ⟨UInt64.lt_iff_toNat_lt.mp busy, ?_, ?_⟩
  · rw [asks]
    exact UInt64.le_iff_toNat_le.mp within
  · rw [asks]
    exact UInt64.le_iff_toNat_le.mp second

section Domain
variable {done rest ds : List Demand} {d : Demand}

theorem work_square (light : load done ≤ 1) (scaled : work done * hyper (done ++ [d]) < word) :
    work done * work done < word :=
  (Nat.mul_le_mul_left _ ((work_le_hyper done light).trans (hyper_le_append done [d]))).trans_lt scaled

/-- A product below 2^64 leaves less than 2^32 for the used time. -/
theorem used_small (light : load done ≤ 1) (scaled : work done * hyper (done ++ [d]) < word)
    (long : 3 ≤ d.period) : work done ≤ 1600000000 * d.period := by
  have square := work_square light scaled
  have digits : work done < 2 ^ 32 := by
    by_contra large
    have product := Nat.mul_le_mul (not_lt.mp large) (not_lt.mp large)
    simp only [word] at square
    omega
  omega

/-- A task of 1 or 2 ns that fits takes half of the CPU, which shortens the rest. -/
theorem used_small_beside (sized : Sized d) (light : load (done ++ [d]) ≤ 1)
    (scaled : work done * hyper (done ++ [d]) < word) (short : d.period ≤ 2) :
    work done ≤ 1600000000 * d.period := by
  have positive : (0 : ℚ) < d.period := by exact_mod_cast d.positive
  have share : 1 / (d.period : ℚ) ≤ d.share := by
    have busy : (1 : ℚ) ≤ d.runtime := by exact_mod_cast sized.busy
    exact div_le_div_of_nonneg_right busy positive.le
  rw [load_append] at light
  have span : (0 : ℚ) ≤ hyper done := Nat.cast_nonneg _
  have part : (work done : ℚ) ≤ (1 - 1 / d.period) * hyper done := by
    rw [work_eq]
    exact mul_le_mul_of_nonneg_right (by linarith) span
  have halves : 2 * work done ≤ hyper (done ++ [d]) := by
    have longer : (hyper done : ℚ) ≤ hyper (done ++ [d]) := by exact_mod_cast hyper_le_append done [d]
    have most : (1 : ℚ) / 2 ≤ 1 / d.period :=
      one_div_le_one_div_of_le positive (by exact_mod_cast short)
    have half : (2 * work done : ℚ) ≤ hyper (done ++ [d]) := by
      have bound := part.trans (mul_le_mul_of_nonneg_right (by linarith : _ ≤ (1 : ℚ) / 2) span)
      linarith
    exact_mod_cast half
  rcases (by have := d.positive; omega : d.period = 1 ∨ d.period = 2) with one | two
  · rw [one] at part
    have none : (work done : ℚ) ≤ 0 := by simpa using part
    have zero : work done ≤ 0 := by exact_mod_cast none
    omega
  · have product := (Nat.mul_le_mul_left (work done) halves).trans_lt scaled
    by_contra large
    have square := Nat.mul_le_mul (not_le.mp large).le (not_le.mp large).le
    simp only [word] at product
    rw [two] at square
    rw [← mul_assoc, mul_comm (work done) 2, mul_assoc] at product
    omega

/-- No step of a list asks for more than its last hyperperiod does. -/
theorem rooms_of_last (hrmc : Bool) (limit : ℕ) (sized : ∀ d ∈ done ++ rest, Sized d)
    (light : load (done ++ rest) ≤ 1) (longest : hyper (done ++ rest) ≤ limit)
    (products : work (done ++ rest) * limit < word) : RoomFor ieee hrmc done rest := by
  induction rest generalizing done hrmc with
  | nil => trivial
  | cons d rest ih =>
      have split : done ++ d :: rest = (done ++ [d]) ++ rest := by simp
      have here := sized d (by simp)
      have span : hyper (done ++ [d]) ≤ limit := (split ▸ hyper_le_append (done ++ [d]) rest).trans longest
      have earlier : work done ≤ work (done ++ d :: rest) := work_le_append done _
      have used : work (done ++ [d]) ≤ work (done ++ d :: rest) :=
        split ▸ work_le_append (done ++ [d]) rest
      have asked : d.runtime ≤ work (done ++ d :: rest) := runtime_le_work _ d (by simp)
      have start := here.busy
      have scaled : work done * hyper (done ++ [d]) < word :=
        (Nat.mul_le_mul earlier span).trans_lt products
      have fits : load (done ++ [d]) ≤ 1 := (split ▸ load_le_append (done ++ [d]) rest).trans light
      have limited : 0 < limit := (hyper_pos _).trans_le span
      refine ⟨⟨fun _ => ?_, fun _ => scaled, (Nat.mul_le_mul asked span).trans_lt products, ?_,
        fun _ _ => ?_⟩, ih _ (split ▸ sized) (split ▸ light) (split ▸ longest) (split ▸ products)⟩
      · exact (span.trans (Nat.le_mul_of_pos_left _ (start.trans_le asked))).trans_lt products
      · exact (used.trans (Nat.le_mul_of_pos_right _ limited)).trans_lt products
      · refine interference_fits _ _ _ (hyper_pos _) d.positive (here.second.trans (by norm_num)) ?_
        rcases le_or_gt 3 d.period with long | short
        · exact used_small ((load_le_append done [d]).trans fits) scaled long
        · exact used_small_beside here fits scaled (by omega)

/-- What a run needs of the runtimes and periods. A candidate of 1 or 2 ns can be
interrupted more often than an `int` counts. -/
structure Room (hrmc : Bool) (ds : List Demand) (d : Demand) : Prop where
  products : max (work ds) d.runtime * hyper (ds ++ [d]) < word
  score : ds ≠ [] → d.period ≤ 2 → ¬(hrmc && harmonic ds d) → interrupts ieee ds d ≤ intMax

instance (hrmc : Bool) (ds : List Demand) (d : Demand) : Decidable (Room hrmc ds d) :=
  decidable_of_iff (_ ∧ _) ⟨fun ⟨products, score⟩ => ⟨products, score⟩,
    fun ⟨products, score⟩ => ⟨products, score⟩⟩

theorem scaled_of_room (products : max (work ds) d.runtime * hyper (ds ++ [d]) < word) :
    work ds * hyper (ds ++ [d]) < word :=
  (Nat.mul_le_mul_right _ (le_max_left _ _)).trans_lt products

/-- The candidate's own sum is below twice the hyperperiod. -/
theorem total_of_room (sized : ∀ e ∈ ds, Sized e) (candidate : Sized d) (light : load ds ≤ 1)
    (products : max (work ds) d.runtime * hyper (ds ++ [d]) < word) : work (ds ++ [d]) < word := by
  have share : d.share ≤ 1 :=
    div_le_one_of_le₀ (by exact_mod_cast candidate.within) (Nat.cast_nonneg _)
  have double : work (ds ++ [d]) ≤ 2 * hyper (ds ++ [d]) := by
    have bound : (work (ds ++ [d]) : ℚ) ≤ 2 * hyper (ds ++ [d]) := by
      rw [work_eq, load_append]
      exact mul_le_mul_of_nonneg_right (by linarith) (Nat.cast_nonneg _)
    exact_mod_cast bound
  by_cases several : 2 ≤ max (work ds) d.runtime
  · exact (double.trans (Nat.mul_le_mul_right _ several)).trans_lt products
  · -- one task of one nanosecond, with the candidate: two periods of a second at most
    have span : hyper (ds ++ [d]) ≤ 1000000000 * 1000000000 := by
      have last : hyper (ds ++ [d]) ≤ hyper ds * d.period := by
        rw [hyper_append]
        exact Nat.le_of_dvd (Nat.mul_pos (hyper_pos ds) d.positive)
          (Nat.lcm_dvd_mul _ _)
      have first : hyper ds ≤ 1000000000 := by
        cases ds with
        | nil => decide
        | cons e ds =>
            have one := hyper_le_work (e :: ds) e List.mem_cons_self (sized e List.mem_cons_self).busy
            have least : work (e :: ds) ≤ 1 := by omega
            have second := (sized e List.mem_cons_self).second
            exact (one.trans (Nat.mul_le_mul_right _ least)).trans (by omega)
      exact last.trans (Nat.mul_le_mul first candidate.second)
    simp only [word]
    omega

theorem step_of_room (hrmc : Bool) (sized : ∀ e ∈ ds, Sized e) (candidate : Sized d)
    (light : load ds ≤ 1) (room : Room hrmc ds d) : StepRoom ieee hrmc ds d where
  hyper := fun _ =>
    (Nat.le_mul_of_pos_left _ (candidate.busy.trans_le (le_max_right _ _))).trans_lt room.products
  scaled := fun _ => scaled_of_room room.products
  charged := (Nat.mul_le_mul_right _ (le_max_right _ _)).trans_lt room.products
  total := total_of_room sized candidate light room.products
  score := fun busy apart => by
    rcases le_or_gt 3 d.period with long | short
    · exact interference_fits _ _ _ (hyper_pos _) d.positive (candidate.second.trans (by norm_num))
        (used_small light (scaled_of_room room.products) long)
    · exact room.score busy (by omega) apart

theorem room_of_step (hrmc : Bool) (step : StepRoom ieee hrmc ds d) : Room hrmc ds d where
  products := by
    rcases le_total (work ds) d.runtime with less | more
    · rw [max_eq_right less]
      exact step.charged
    · rw [max_eq_left more]
      by_cases empty : ds = []
      · subst empty
        simp [work, word]
      · exact step.scaled empty
  score := fun busy _ => step.score busy

end Domain

/-- For tasks of the domain whose load is at most one, and any candidate of the
domain, admission stays within its types exactly when there is room for one
hyperperiod of them all. -/
theorem build_and_test_fit_iff (rrtime : Int) (built tested : Bool) (tasks : List SchedAttr)
    (candidate : SchedAttr) (ordinary : ∀ par ∈ candidate :: tasks, Ordinary par)
    (light : load (tasks.map task) ≤ 1) :
    BuildAndTestFit ieee rrtime built tested tasks candidate ↔
      Room tested (tasks.map task) (task candidate) := by
  rw [build_and_test_rooms ieee rrtime built tested tasks candidate
    fun par member => ordinary_accountable (ordinary par member)]
  have sized : ∀ d ∈ tasks.map task, Sized d := fun d member => by
    obtain ⟨par, inside, rfl⟩ := List.mem_map.mp member
    exact ordinary_sized (ordinary par (List.mem_cons_of_mem candidate inside))
  have last := ordinary_sized (ordinary candidate List.mem_cons_self)
  constructor
  · exact fun rooms => room_of_step tested rooms.2
  · intro room
    refine ⟨?_, step_of_room tested sized last light room⟩
    exact rooms_of_last built _ (by simpa using sized) (by simpa using light)
      (hyper_le_append (tasks.map task) [task candidate]) (scaled_of_room room.products)

theorem build_and_test_fit_iff_example :
    BuildAndTestFit ieee 100 false true
        [{ schedPolicy := 6, schedRuntime := 2000000, schedPeriod := 10000000 }]
        { schedPolicy := 1, schedRuntime := 3000000, schedPeriod := 20000000 } ∧
      Room true [⟨2000000, 10000000, by decide⟩] ⟨3000000, 20000000, by decide⟩ := by
  have room : Room true [⟨2000000, 10000000, by decide⟩] ⟨3000000, 20000000, by decide⟩ := by
    decide +kernel
  refine ⟨(build_and_test_fit_iff 100 false true
    [{ schedPolicy := 6, schedRuntime := 2000000, schedPeriod := 10000000 }]
    { schedPolicy := 1, schedRuntime := 3000000, schedPeriod := 20000000 } ?_ ?_).mpr room, room⟩
  · unfold Ordinary
    decide +kernel
  · simp only [load, List.map_cons, List.map_nil, List.sum_cons, List.sum_nil, Demand.share, task]
    decide +kernel

-- Two near-coprime periods are enough: 0.4 + 0.7 passes as a load of 2.6e-8.
theorem coprime_periods_wrap :
    let first : SchedAttr := { schedPolicy := 6, schedRuntime := 400000000, schedPeriod := 1000000000 }
    let second : SchedAttr := { schedPolicy := 6, schedRuntime := 700000000, schedPeriod := 999999999 }
    (Ordinary first ∧ load [task first] ≤ 1) ∧ Ordinary second ∧
      ¬ BuildAndTestFit ieee 100 false true [first] second ∧
      1 < load [task first, task second] ∧
      0 ≤ (checkUvalue ieee 100 (addAll ieee 100 {} [first]) second false).1 := by
  refine ⟨⟨by unfold Ordinary; decide +kernel, ?_⟩, by unfold Ordinary; decide +kernel,
    by decide +kernel, ?_, by decide +kernel⟩
  all_goals
    simp only [load, List.map_cons, List.map_nil, List.sum_cons, List.sum_nil, Demand.share, task]
    decide +kernel

end Orchestrator.Overflow
