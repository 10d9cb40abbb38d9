import Mathlib.Tactic.NormNum
import Orchestrator.HyperPeriod
import Orchestrator.Resmgnt

/-!
A tracer as a ledger of `HyperPeriod`. While no 64-bit operation wraps, one
`checkUvalue(res, par, 1)` is one exact `Ledger.add`, so a whole sequence of
additions leaves the hyperperiod and the exact utilisation.
-/

namespace Orchestrator.Accounting
open Orchdata Resmgnt HyperPeriod Cmnutil

/-- The products of one `checkUvalue` call, as the code computes its operands. -/
structure ProductsFit (rrtime : Int) (res : ResTracer) (par : SchedAttr) : Prop where
  hyper : res.basePeriod ≠ 0 → Nat.lcm res.basePeriod.toNat (baset rrtime par).toNat < word
  scaled : res.basePeriod ≠ 0 → (used res par).toNat * (hyperP rrtime res par).toNat < word
  charged : par.schedRuntime.toNat * (newBase rrtime res par).toNat < word
  extra : unknown par → res.usedPeriod.toNat * schedUknload.toNat < word

/-- The two sums of one `checkUvalue` call. -/
structure SumsFit (rrtime : Int) (res : ResTracer) (par : SchedAttr) : Prop where
  extra : unknown par →
    res.usedPeriod.toNat + (res.usedPeriod * schedUknload / 100).toNat < word
  total : (scaledUsed rrtime res par).toNat +
    (par.schedRuntime * newBase rrtime res par / baset rrtime par).toNat < word

def NoWrap (rrtime : Int) (res : ResTracer) (par : SchedAttr) : Prop :=
  ProductsFit rrtime res par ∧ SumsFit rrtime res par

instance (rrtime : Int) (res : ResTracer) (par : SchedAttr) : Decidable (ProductsFit rrtime res par) :=
  decidable_of_iff (_ ∧ _ ∧ _ ∧ _)
    ⟨fun ⟨hyper, scaled, charged, extra⟩ => ⟨hyper, scaled, charged, extra⟩,
      fun ⟨hyper, scaled, charged, extra⟩ => ⟨hyper, scaled, charged, extra⟩⟩

instance (rrtime : Int) (res : ResTracer) (par : SchedAttr) : Decidable (SumsFit rrtime res par) :=
  decidable_of_iff (_ ∧ _) ⟨fun ⟨extra, total⟩ => ⟨extra, total⟩, fun ⟨extra, total⟩ => ⟨extra, total⟩⟩

instance (rrtime : Int) (res : ResTracer) (par : SchedAttr) : Decidable (NoWrap rrtime res par) :=
  inferInstanceAs (Decidable (_ ∧ _))

/-- The demand a task makes on a tracer, its runtime every `baset`. -/
structure Asks (rrtime : Int) (par : SchedAttr) (d : Demand) : Prop where
  runtime : d.runtime = par.schedRuntime.toNat
  period : d.period = (baset rrtime par).toNat

theorem new_base_exact (rrtime : Int) (res : ResTracer) (par : SchedAttr) (d : Demand)
    (asks : Asks rrtime par d) (fits : ProductsFit rrtime res par) :
    (newBase rrtime res par).toNat = span res.basePeriod.toNat d.period := by
  unfold newBase span
  by_cases zero : res.basePeriod = 0
  · simp [zero, asks.period]
  · have nonzero : res.basePeriod.toNat ≠ 0 := (to_nat_pos zero).ne'
    rw [if_neg zero, if_neg nonzero, hyperP, lcm_exact _ _ (fits.hyper zero), asks.period]

section Posting
variable (rrtime : Int) (res : ResTracer) (par : SchedAttr) (l : Ledger) (d : Demand)

theorem charged_posts (asks : Asks rrtime par d) (fits : ProductsFit rrtime res par)
    (base : res.basePeriod.toNat = l.base) :
    (par.schedRuntime * newBase rrtime res par / baset rrtime par).toNat =
      d.runtime * span l.base d.period / d.period := by
  rw [UInt64.toNat_div, mul_exact _ _ fits.charged, new_base_exact rrtime res par d asks fits, base,
    asks.runtime, asks.period]

theorem scaled_posts (asks : Asks rrtime par d) (fits : ProductsFit rrtime res par)
    (base : res.basePeriod.toNat = l.base) (usedNat : (used res par).toNat = l.used) :
    (scaledUsed rrtime res par).toNat =
      if l.base = 0 then l.used else l.used * span l.base d.period / l.base := by
  have newSpan := new_base_exact rrtime res par d asks fits
  unfold scaledUsed
  by_cases zero : res.basePeriod = 0
  · have idle : l.base = 0 := by rw [← base, zero]; rfl
    rw [if_pos zero, if_pos idle, usedNat]
  · have nonzero : l.base ≠ 0 := by
      rw [← base]
      exact (to_nat_pos zero).ne'
    have hyper : (hyperP rrtime res par).toNat = span l.base d.period := by
      rw [← base, ← newSpan, newBase, if_neg zero]
    rw [if_neg zero, if_neg nonzero, UInt64.toNat_div, mul_exact _ _ (fits.scaled zero), hyper,
      usedNat, base]

/-- One addition without wrap-around is one ledger entry. -/
theorem added_posts (fp : Rounding) (asks : Asks rrtime par d) (fits : NoWrap rrtime res par)
    (base : res.basePeriod.toNat = l.base) (usedNat : (used res par).toNat = l.used) :
    (added fp rrtime res par).basePeriod.toNat = (l.add d).base ∧
      (added fp rrtime res par).usedPeriod.toNat = (l.add d).used := by
  constructor
  · change (newBase rrtime res par).toNat = _
    rw [new_base_exact rrtime res par d asks fits.1, base]
    rfl
  · change (newUsed rrtime res par).toNat = _
    rw [newUsed, add_exact _ _ fits.2.total, scaled_posts rrtime res par l d asks fits.1 base usedNat,
      charged_posts rrtime res par l d asks fits.1 base]
    rfl

end Posting

theorem dbl_nonneg (fp : Rounding) {a : ℚ} (nonneg : 0 ≤ a) : 0 ≤ fp.dbl a := by
  have h := fp.dbl_mono 0 a le_rfl nonneg
  rwa [fp.dbl_zero] at h

theorem flt_nonneg (fp : Rounding) {a : ℚ} (nonneg : 0 ≤ a) : 0 ≤ fp.flt a := by
  have h := fp.flt_mono 0 a le_rfl nonneg
  rwa [fp.flt_zero] at h

theorem quotient_nonneg (fp : Rounding) (used base : Nat) : 0 ≤ quotient fp used base :=
  flt_nonneg fp (dbl_nonneg fp (div_nonneg (dbl_nonneg fp (Nat.cast_nonneg used))
    (dbl_nonneg fp (Nat.cast_nonneg base))))

theorem quotient_mono (fp : Rounding) {low high : Nat} (base : Nat) (le : low ≤ high) :
    quotient fp low base ≤ quotient fp high base := by
  have den := dbl_nonneg fp (Nat.cast_nonneg base : (0 : ℚ) ≤ base)
  have num := dbl_nonneg fp (Nat.cast_nonneg low : (0 : ℚ) ≤ low)
  have ordered : fp.dbl low ≤ fp.dbl high :=
    fp.dbl_mono _ _ (Nat.cast_nonneg low) (Nat.cast_le.mpr le)
  have ratio := div_le_div_of_nonneg_right ordered den
  exact fp.flt_mono _ _ (dbl_nonneg fp (div_nonneg num den))
    (fp.dbl_mono _ _ (div_nonneg num den) ratio)

-- Rounding may hide a small excess over one, but it never invents one.
theorem quotient_le_one (fp : Rounding) (used base : Nat) (le : used ≤ base) :
    quotient fp used base ≤ 1 := by
  have num := dbl_nonneg fp (Nat.cast_nonneg used : (0 : ℚ) ≤ used)
  have den := dbl_nonneg fp (Nat.cast_nonneg base : (0 : ℚ) ≤ base)
  have ordered : fp.dbl used ≤ fp.dbl base :=
    fp.dbl_mono _ _ (Nat.cast_nonneg used) (Nat.cast_le.mpr le)
  have ratio : fp.dbl used / fp.dbl base ≤ 1 := div_le_one_of_le₀ ordered den
  have rounded : fp.dbl (fp.dbl used / fp.dbl base) ≤ 1 := by
    have h := fp.dbl_mono _ _ (div_nonneg num den) ratio
    rwa [fp.dbl_one] at h
  have h := fp.flt_mono _ _ (dbl_nonneg fp (div_nonneg num den)) rounded
  rwa [fp.flt_one] at h

theorem interference_nonneg (fp : Rounding) (u : ℚ) (base period : Nat) (nonneg : 0 ≤ u) :
    0 ≤ trunc (interference fp u base period) := by
  have product := dbl_nonneg fp (mul_nonneg nonneg (dbl_nonneg fp (Nat.cast_nonneg base)))
  have value := dbl_nonneg fp (div_nonneg product (dbl_nonneg fp (Nat.cast_nonneg period)))
  rw [interference, trunc, if_pos value]
  exact Int.floor_nonneg.mpr value

/-- The score as it is meant. -/
theorem interruptions_fit (fp : Rounding) {u : ℚ} {base period : Nat} (nonneg : 0 ≤ u)
    (fits : trunc (interference fp u base period) + schedUharmonic ≤ intMax) :
    interruptions fp u base period = trunc (interference fp u base period) + schedUharmonic := by
  have floor := interference_nonneg fp u base period nonneg
  simp only [schedUharmonic, intMax] at fits
  rw [interruptions, toInt, if_pos (by simp only [intMin, intMax]; omega), toInt32]
  exact Int.bmod_eq_of_le_mul_two (by simp only [schedUharmonic]; push_cast; omega)
    (by simp only [schedUharmonic]; push_cast; omega)

/-- Beyond `int` the score is far below zero. -/
theorem interruptions_beyond (fp : Rounding) {u : ℚ} {base period : Nat} (nonneg : 0 ≤ u)
    (beyond : intMax < trunc (interference fp u base period) + schedUharmonic) :
    interruptions fp u base period < -1 := by
  have floor := interference_nonneg fp u base period nonneg
  simp only [schedUharmonic, intMax] at beyond
  rw [interruptions, toInt, toInt32]
  split_ifs with inside
  · simp only [intMin, intMax] at inside
    have wraps : trunc (interference fp u base period) + schedUharmonic =
        trunc (interference fp u base period) + 3 - 4294967296 + (4294967296 : ℕ) := by
      simp only [schedUharmonic]
      push_cast
      ring
    rw [wraps, Int.add_bmod_right,
      Int.bmod_eq_of_le_mul_two (by push_cast; omega) (by push_cast; omega)]
    omega
  · decide

/-- The call computes no score, or one that an `int` holds. -/
def ScoreFits (fp : Rounding) (rrtime : Int) (res : ResTracer) (par : SchedAttr) : Prop :=
  res.basePeriod ≠ 0 → ¬(res.hrmc && fitsHarmonic rrtime res par) →
    trunc (interference fp res.u res.basePeriod.toNat (baset rrtime par).toNat) + schedUharmonic ≤
      intMax

instance (fp : Rounding) (rrtime : Int) (res : ResTracer) (par : SchedAttr) :
    Decidable (ScoreFits fp rrtime res par) :=
  inferInstanceAs (Decidable (_ → _ → _))

section Score
variable (fp : Rounding) (rrtime : Int) (res : ResTracer) (par : SchedAttr)

/-- The score outside of the harmonic case. -/
theorem score_cases :
    0 ≤ score fp rrtime res par ∨
      (res.basePeriod ≠ 0 ∧ ¬(res.hrmc && fitsHarmonic rrtime res par) ∧
        score fp rrtime res par =
          min (interruptions fp res.u res.basePeriod.toNat (baset rrtime par).toNat) intMax) := by
  unfold score
  split_ifs with zero same longer shorter
  · exact .inl (by decide)
  · exact .inl (by decide)
  · exact .inl (by decide)
  · exact .inl (by decide)
  · refine .inr ⟨zero, fun harmonic => ?_, rfl⟩
    simp only [fitsHarmonic, Bool.and_eq_true, Bool.or_eq_true] at harmonic same longer shorter
    tauto

theorem score_nonneg (fits : ScoreFits fp rrtime res par)
    (nonneg : res.basePeriod ≠ 0 → 0 ≤ res.u) : 0 ≤ score fp rrtime res par := by
  rcases score_cases fp rrtime res par with above | ⟨busy, apart, same⟩
  · exact above
  · have floor := interference_nonneg fp res.u res.basePeriod.toNat (baset rrtime par).toNat
      (nonneg busy)
    rw [same, interruptions_fit fp (nonneg busy) (fits busy apart)]
    simp only [intMax, schedUharmonic]
    omega

/-- No score is mistaken for a refusal. -/
theorem score_ne (nonneg : res.basePeriod ≠ 0 → 0 ≤ res.u) : score fp rrtime res par ≠ -1 := by
  rcases score_cases fp rrtime res par with above | ⟨busy, -, same⟩
  · omega
  · have floor := interference_nonneg fp res.u res.basePeriod.toNat (baset rrtime par).toNat
      (nonneg busy)
    rw [same]
    by_cases fits : trunc (interference fp res.u res.basePeriod.toNat (baset rrtime par).toNat) +
        schedUharmonic ≤ intMax
    · rw [interruptions_fit fp (nonneg busy) fits]
      simp only [intMax, schedUharmonic]
      omega
    · have below := interruptions_beyond fp (nonneg busy) (not_le.mp fits)
      simp only [intMax]
      omega

end Score

/-- The tracer holds the totals of exactly these demands, and their quotient. -/
structure Tracks (fp : Rounding) (res : ResTracer) (ds : List Demand) : Prop where
  base : res.basePeriod.toNat = (post ds).base
  used : res.usedPeriod.toNat = (post ds).used
  u : ds ≠ [] → res.u = quotient fp (post ds).used (post ds).base

theorem idle_tracks (fp : Rounding) (res : ResTracer) (base : res.basePeriod = 0)
    (used : res.usedPeriod = 0) : Tracks fp res [] := by
  refine ⟨?_, ?_, fun h => absurd rfl h⟩
  · rw [base]; rfl
  · rw [used]; rfl

theorem tracks_idle_iff (fp : Rounding) (res : ResTracer) (ds : List Demand)
    (tracks : Tracks fp res ds) : res.basePeriod = 0 ↔ ds = [] := by
  constructor
  · intro zero
    by_contra nonempty
    have base := tracks.base
    rw [base_post ds nonempty, zero] at base
    exact (hyper_pos ds).ne base
  · intro empty
    have base := tracks.base
    subst empty
    exact UInt64.toNat_inj.mp base

theorem tracks_ratio (fp : Rounding) (res : ResTracer) (ds : List Demand)
    (tracks : Tracks fp res ds) : (res.usedPeriod.toNat : ℚ) / res.basePeriod.toNat = load ds := by
  rw [tracks.used, tracks.base]
  exact ratio_post ds

/-- The totals do not depend on the order of the demands. -/
theorem tracks_same (fp : Rounding) (left right : ResTracer) (ds es : List Demand)
    (order : ds.Perm es) (first : Tracks fp left ds) (second : Tracks fp right es)
    (idle : ds = [] → left.u = right.u) :
    left.basePeriod = right.basePeriod ∧ left.usedPeriod = right.usedPeriod ∧ left.u = right.u := by
  have totals := post_perm order
  refine ⟨UInt64.toNat_inj.mp ?_, UInt64.toNat_inj.mp ?_, ?_⟩
  · rw [first.base, second.base, totals.2]
  · rw [first.used, second.used, totals.1]
  · by_cases empty : ds = []
    · exact idle empty
    · have other : es ≠ [] := fun none => empty (List.perm_nil.mp (none ▸ order))
      rw [first.u empty, second.u other, totals.1, totals.2]

theorem tracks_u_nonneg (fp : Rounding) (res : ResTracer) (ds : List Demand)
    (tracks : Tracks fp res ds) (busy : res.basePeriod ≠ 0) : 0 ≤ res.u := by
  have nonempty : ds ≠ [] := fun h => busy ((tracks_idle_iff fp res ds tracks).mpr h)
  rw [tracks.u nonempty]
  exact quotient_nonneg fp _ _

theorem used_known (res : ResTracer) (par : SchedAttr) (known : unknown par = false) :
    used res par = res.usedPeriod := by
  simp [used, known]

theorem added_tracks (fp : Rounding) (rrtime : Int) (res : ResTracer) (par : SchedAttr)
    (ds : List Demand) (d : Demand) (tracks : Tracks fp res ds) (asks : Asks rrtime par d)
    (known : unknown par = false) (fits : NoWrap rrtime res par) :
    Tracks fp (added fp rrtime res par) (ds ++ [d]) := by
  have same : (used res par).toNat = (post ds).used := by
    rw [used_known res par known, tracks.used]
  have posted := added_posts rrtime res par (post ds) d fp asks fits tracks.base same
  rw [← post_append] at posted
  refine ⟨posted.1, posted.2, fun _ => ?_⟩
  rw [← posted.1, ← posted.2]
  rfl

end Orchestrator.Accounting
