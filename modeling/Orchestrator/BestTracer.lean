import Orchestrator.OnePass
import Orchestrator.Plan

/-!
The selection of `checkPeriod`. Score, load band, preference and skip rule make
up one test against the tracer found so far; a better score always passes it,
and a preferred tracer once found is only left for a better score.
-/

namespace Orchestrator.BestTracer
open Orchdata Resmgnt BinaryRounding Accounting Recompute OnePass

/-- The load of a tracer as a `float` holds it. -/
structure Stored (res : ResTracer) : Prop where
  nonneg : 0 ≤ res.u
  digits : Representable 24 res.u

theorem fresh_tracer_stored (cpu : Nat) : Stored (freshTracer cpu) :=
  ⟨le_rfl, 0, 0, by simp, by simp [freshTracer]⟩

theorem added_stored (rrtime : Int) (res : ResTracer) (par : SchedAttr) :
    Stored (added ieee rrtime res par) :=
  ⟨quotient_nonneg ieee _ _, round_to_representable 24 (by decide) _⟩

theorem check_uvalue_stored (rrtime : Int) (res : ResTracer) (par : SchedAttr) (add : Bool)
    (stored : Stored res) : Stored (checkUvalue ieee rrtime res par add).2 := by
  cases add with
  | false => exact stored
  | true => exact added_stored rrtime res par

theorem min_add_stored (rrtime : Int) (res : ResTracer) (par : SchedAttr) (rv : Int)
    (stored : Stored res) : Stored (minAdd ieee rrtime res par rv).2 := by
  have first := check_uvalue_stored rrtime res par true stored
  unfold minAdd
  dsimp only
  split_ifs
  · exact check_uvalue_stored rrtime _ par true first
  · exact first

theorem recompute_times_u_stored (rrtime : Int) (nhead : List Node) (res : ResTracer)
    (skip : Option Nat) : Stored (recomputeTimesU ieee rrtime nhead res skip).2 := by
  have loop : ∀ (tasks : List SchedAttr) (state : Int × ResTracer), Stored state.2 →
      Stored (minLoop ieee rrtime state tasks).2 := by
    intro tasks
    induction tasks with
    | nil => exact fun _ stored => stored
    | cons par rest ih => exact fun state stored => ih _ (min_add_stored rrtime state.2 par state.1 stored)
  have final := loop (countedNodes nhead res skip) (0, {}) ⟨le_rfl, 0, 0, by simp, by simp⟩
  rw [recompute_times_u_loop]
  exact ⟨final.nonneg, final.digits⟩

section Selection
variable (fp : Rounding) (rrtime : Int) (trcs : Tracers) (attr : SchedAttr)
variable (affinity cpu : Int)

/-- `checkUvalue(trc, attr, 0)`. -/
def rating (trc : Nat) : Int := (checkUvalue fp rrtime (trcs.trcAt trc) attr false).1

/-- Loop variables of the search that has found `kept`. -/
def bestOf (kept : Option Nat) : Best :=
  match kept with
  | none => {}
  | some found =>
      { last := rating fp rrtime trcs attr found
        ulast := (trcs.trcAt found).u
        ftrc := some found }

/-- The load is below the band of the tracer found, or in it and a favorite's. -/
def Lighter (best : Best) (next : Nat) : Prop :=
  (trcs.trcAt next).u < tolMin fp best.ulast ∨
    (trcs.trcAt next).u ≤ tolMax fp best.ulast ∧ favorite affinity cpu (trcs.trcAt next) = true

/-- The skip rule: in the band of a tracer that is preferred already. -/
def Skips (best : Best) (next : Nat) : Prop :=
  tolMin fp best.ulast ≤ (trcs.trcAt next).u ∧ (trcs.trcAt next).u ≤ tolMax fp best.ulast ∧
    preferred trcs affinity best.ftrc = true

def takes (kept : Option Nat) (next : Nat) : Prop :=
  0 ≤ rating fp rrtime trcs attr next ∧
      rating fp rrtime trcs attr next < (bestOf fp rrtime trcs attr kept).last ∨
    rating fp rrtime trcs attr next = (bestOf fp rrtime trcs attr kept).last ∧
      Lighter fp trcs affinity cpu (bestOf fp rrtime trcs attr kept) next ∧
        ¬ Skips fp trcs affinity (bestOf fp rrtime trcs attr kept) next

instance (best : Best) (next : Nat) : Decidable (Lighter fp trcs affinity cpu best next) :=
  inferInstanceAs (Decidable (_ ∨ _))

instance (best : Best) (next : Nat) : Decidable (Skips fp trcs affinity best next) :=
  inferInstanceAs (Decidable (_ ∧ _))

instance (kept : Option Nat) (next : Nat) :
    Decidable (takes fp rrtime trcs attr affinity cpu kept next) :=
  inferInstanceAs (Decidable (_ ∨ _))

theorem check_period_step_takes (kept : Option Nat) (next : Nat) :
    checkPeriodStep fp rrtime trcs attr affinity cpu (bestOf fp rrtime trcs attr kept) next =
      bestOf fp rrtime trcs attr (take (takes fp rrtime trcs attr affinity cpu) kept next) := by
  have result : ∀ found, (found = some next ∧ takes fp rrtime trcs attr affinity cpu kept next) ∨
      (found = kept ∧ ¬ takes fp rrtime trcs attr affinity cpu kept next) →
        checkPeriodStep fp rrtime trcs attr affinity cpu (bestOf fp rrtime trcs attr kept) next =
          bestOf fp rrtime trcs attr found := by
    unfold checkPeriodStep takes Lighter Skips
    simp only [rating, Bool.or_eq_true, Bool.and_eq_true, decide_eq_true_eq, beq_iff_eq]
    rintro found (⟨rfl, taken⟩ | ⟨rfl, passed⟩)
    · rw [if_pos (by tauto), if_neg]
      · rfl
      · rintro ⟨⟨⟨equal, above⟩, below⟩, found⟩
        rcases taken with better | same
        · exact better.2.ne equal
        · exact same.2.2 ⟨above, below, found⟩
    · split_ifs with test skip
      · rfl
      · exfalso
        tauto
      · rfl
  rw [take]
  split_ifs with taken
  · exact result _ (Or.inl ⟨rfl, taken⟩)
  · exact result _ (Or.inr ⟨rfl, taken⟩)

theorem check_period_keeps (flexible : affinity < 0) :
    checkPeriod fp rrtime trcs attr affinity cpu =
      keep (takes fp rrtime trcs attr affinity cpu) none trcs.rHead := by
  have fold := foldl_keep (bestOf fp rrtime trcs attr)
    (checkPeriodStep fp rrtime trcs attr affinity cpu)
    (check_period_step_takes fp rrtime trcs attr affinity cpu) none trcs.rHead
  rw [checkPeriod, if_neg (by omega)]
  change (trcs.rHead.foldl _ (bestOf fp rrtime trcs attr none)).ftrc = _
  rw [fold]
  cases keep (takes fp rrtime trcs attr affinity cpu) none trcs.rHead <;> rfl

/-- Of the tracers seen, the one found has the smallest score that is not negative. -/
def Leads (seen : List Nat) (kept : Option Nat) : Prop :=
  match kept with
  | none => ∀ trc ∈ seen, rating fp rrtime trcs attr trc = -1
  | some found => found ∈ seen ∧ 0 ≤ rating fp rrtime trcs attr found ∧
      ∀ trc ∈ seen, 0 ≤ rating fp rrtime trcs attr trc →
        rating fp rrtime trcs attr found ≤ rating fp rrtime trcs attr trc

/-- The smallest score that is not negative, over all tracers. -/
def Attains (trc : Nat) : Prop := Leads fp rrtime trcs attr trcs.rHead (some trc)

/-- The scores a call returns; a full score only comes with a load of at most one. -/
structure Scored (trc : Nat) : Prop where
  range : rating fp rrtime trcs attr trc = -1 ∨
    0 ≤ rating fp rrtime trcs attr trc ∧ rating fp rrtime trcs attr trc ≤ intMax
  full : rating fp rrtime trcs attr trc = intMax → (trcs.trcAt trc).u ≤ 1

variable {fp rrtime trcs attr affinity cpu}

/-- The search starts from a full score. -/
theorem start_last : (bestOf fp rrtime trcs attr none).last = intMax := rfl

theorem start_nonneg : 0 ≤ (bestOf fp rrtime trcs attr none).last := by
  rw [start_last]
  decide

theorem takes_first {next : Nat} (wide : 1 < tolMin fp 10) (scored : Scored fp rrtime trcs attr next)
    (passes : 0 ≤ rating fp rrtime trcs attr next) :
    takes fp rrtime trcs attr affinity cpu none next := by
  by_cases full : rating fp rrtime trcs attr next = intMax
  · refine Or.inr ⟨full, Or.inl (lt_of_le_of_lt (scored.full full) wide), ?_⟩
    rintro ⟨-, -, found⟩
    cases found
  · refine Or.inl ⟨passes, ?_⟩
    have range := scored.range
    rw [start_last]
    omega

theorem takes_better {found next : Nat} (passes : 0 ≤ rating fp rrtime trcs attr next)
    (better : rating fp rrtime trcs attr next < rating fp rrtime trcs attr found) :
    takes fp rrtime trcs attr affinity cpu (some found) next :=
  Or.inl ⟨passes, better⟩

theorem takes_rating {kept : Option Nat} {next : Nat}
    (taken : takes fp rrtime trcs attr affinity cpu kept next)
    (nonneg : 0 ≤ (bestOf fp rrtime trcs attr kept).last) :
    0 ≤ rating fp rrtime trcs attr next ∧
      rating fp rrtime trcs attr next ≤ (bestOf fp rrtime trcs attr kept).last := by
  rcases taken with ⟨passes, better⟩ | ⟨equal, -⟩
  · exact ⟨passes, better.le⟩
  · rw [equal]
    exact ⟨nonneg, le_rfl⟩

theorem leads_turn {seen : List Nat} {kept : Option Nat} {next : Nat} (wide : 1 < tolMin fp 10)
    (scored : Scored fp rrtime trcs attr next) (leads : Leads fp rrtime trcs attr seen kept) :
    Leads fp rrtime trcs attr (seen ++ [next])
      (take (takes fp rrtime trcs attr affinity cpu) kept next) := by
  rw [take]
  cases kept with
  | none =>
      split_ifs with taken
      · refine ⟨by simp, (takes_rating taken start_nonneg).1, fun trc inside passes => ?_⟩
        rcases List.mem_append.mp inside with early | last
        · have refused := leads trc early
          omega
        · rw [List.mem_singleton.mp last]
      · intro trc inside
        rcases List.mem_append.mp inside with early | last
        · exact leads trc early
        · rw [List.mem_singleton.mp last]
          refine scored.range.resolve_right fun passes => taken (takes_first wide scored passes.1)
  | some found =>
      obtain ⟨linked, nonneg, least⟩ := leads
      split_ifs with taken
      · have rated := takes_rating taken nonneg
        refine ⟨by simp, rated.1, fun trc inside passes => ?_⟩
        rcases List.mem_append.mp inside with early | last
        · exact rated.2.trans (least trc early passes)
        · rw [List.mem_singleton.mp last]
      · refine ⟨List.mem_append_left _ linked, nonneg, fun trc inside passes => ?_⟩
        rcases List.mem_append.mp inside with early | last
        · exact least trc early passes
        · rw [List.mem_singleton.mp last] at passes ⊢
          by_contra better
          exact taken (takes_better passes (not_le.mp better))

theorem search_leads (affinity cpu : Int) (wide : 1 < tolMin fp 10) (list : List Nat)
    (scored : ∀ trc ∈ list, Scored fp rrtime trcs attr trc) :
    Leads fp rrtime trcs attr list (keep (takes fp rrtime trcs attr affinity cpu) none list) :=
  keep_rule (Leads fp rrtime trcs attr) (fun _ none => by cases none)
    fun _ _ next inside leads => leads_turn wide (scored next inside) leads

theorem none_of_refused {list : List Nat}
    (refused : ∀ trc ∈ list, rating fp rrtime trcs attr trc = -1) :
    keep (takes fp rrtime trcs attr affinity cpu) none list = none := by
  refine keep_stays fun next inside taken => ?_
  have passes := (takes_rating taken start_nonneg).1
  have none := refused next inside
  omega

/-- A load that the conversion to `double` leaves as it is. -/
structure Held (fp : Rounding) (trcs : Tracers) (trc : Nat) : Prop where
  nonneg : 0 ≤ (trcs.trcAt trc).u
  same : fp.dbl (trcs.trcAt trc).u = (trcs.trcAt trc).u

theorem tol_min_le {trc : Nat} (held : Held fp trcs trc) :
    tolMin fp (trcs.trcAt trc).u ≤ (trcs.trcAt trc).u := by
  have factor : fp.dbl (95 / 100) ≤ 1 := by
    have h := fp.dbl_mono (95 / 100) 1 (by norm_num) (by norm_num)
    rwa [fp.dbl_one] at h
  have positive : 0 ≤ fp.dbl (95 / 100) := dbl_nonneg fp (by norm_num)
  calc tolMin fp (trcs.trcAt trc).u ≤ fp.dbl (trcs.trcAt trc).u :=
        fp.dbl_mono _ _ (mul_nonneg held.nonneg positive)
          (mul_le_of_le_one_right held.nonneg factor)
    _ = (trcs.trcAt trc).u := held.same

theorem le_tol_max {trc : Nat} (held : Held fp trcs trc) :
    (trcs.trcAt trc).u ≤ tolMax fp (trcs.trcAt trc).u := by
  have factor : 1 ≤ fp.dbl (105 / 100) := by
    have h := fp.dbl_mono 1 (105 / 100) (by norm_num) (by norm_num)
    rwa [fp.dbl_one] at h
  calc (trcs.trcAt trc).u = fp.dbl (trcs.trcAt trc).u := held.same.symm
    _ ≤ tolMax fp (trcs.trcAt trc).u :=
        fp.dbl_mono _ _ held.nonneg (le_mul_of_one_le_right held.nonneg factor)

variable (fp rrtime trcs attr affinity)

/-- A tracer of the preferred CPU that no other of the smallest score is lighter than,
up to the tolerance. -/
structure Settled (trc : Nat) : Prop where
  attains : Attains fp rrtime trcs attr trc
  favored : isbitset (trcs.trcAt trc).affinity (-affinity) = true
  lightest : ∀ other, Attains fp rrtime trcs attr other →
    tolMin fp (trcs.trcAt trc).u ≤ (trcs.trcAt other).u

variable {fp rrtime trcs attr affinity}

theorem settled_stays {found next : Nat} (flexible : affinity < 0)
    (settled : Settled fp rrtime trcs attr affinity found) (linked : next ∈ trcs.rHead) :
    ¬ takes fp rrtime trcs attr affinity cpu (some found) next := by
  obtain ⟨inside, nonneg, least⟩ := settled.attains
  rintro (⟨passes, better⟩ | ⟨equal, lighter, stays⟩)
  · exact absurd (least next linked passes) (not_le.mpr better)
  · have same : rating fp rrtime trcs attr next = rating fp rrtime trcs attr found := equal
    have band := settled.lightest next
      ⟨linked, by rwa [same], fun trc member => by rw [same]; exact least trc member⟩
    have preferredFound : preferred trcs affinity (some found) = true := by
      simp [preferred, flexible, settled.favored]
    rcases lighter with below | ⟨inBand, -⟩
    · exact absurd band (not_le.mpr below)
    · exact stays ⟨band, inBand, preferredFound⟩

/-- When the search reaches the lightest tracer of the preferred CPU, it holds that
one or another of this CPU. -/
theorem settled_at (cpu : Int) {before after : List Nat} {trc : Nat} (wide : 1 < tolMin fp 10)
    (scored : ∀ trc ∈ trcs.rHead, Scored fp rrtime trcs attr trc)
    (held : ∀ trc ∈ trcs.rHead, Held fp trcs trc) (flexible : affinity < 0)
    (split : trcs.rHead = before ++ trc :: after) (attains : Attains fp rrtime trcs attr trc)
    (favored : isbitset (trcs.trcAt trc).affinity (-affinity) = true)
    (lightest : ∀ other, Attains fp rrtime trcs attr other →
      (trcs.trcAt trc).u ≤ (trcs.trcAt other).u) :
    ∃ found, take (takes fp rrtime trcs attr affinity cpu)
        (keep (takes fp rrtime trcs attr affinity cpu) none before) trc = some found ∧
      Settled fp rrtime trcs attr affinity found := by
  have inside : ∀ other ∈ before, other ∈ trcs.rHead := fun other early => by
    rw [split]
    exact List.mem_append_left _ early
  have leads := search_leads affinity cpu wide before
    fun other early => scored other (inside other early)
  by_cases taken : takes fp rrtime trcs attr affinity cpu
      (keep (takes fp rrtime trcs attr affinity cpu) none before) trc
  · exact ⟨trc, if_pos taken, attains, favored, fun other member =>
      (tol_min_le (held trc attains.1)).trans (lightest other member)⟩
  · cases kept : keep (takes fp rrtime trcs attr affinity cpu) none before with
    | none =>
        rw [kept] at taken
        exact absurd (takes_first wide (scored trc attains.1) attains.2.1) taken
    | some found =>
        rw [kept] at taken leads
        obtain ⟨early, nonneg, -⟩ := leads
        have linked := inside found early
        have below := attains.2.2 found linked nonneg
        -- not taken, so the scores are equal and only the skip rule is left
        have equal : rating fp rrtime trcs attr trc = rating fp rrtime trcs attr found :=
          le_antisymm below (not_lt.mp fun better => taken (takes_better attains.2.1 better))
        have other : Attains fp rrtime trcs attr found :=
          ⟨linked, nonneg, fun next member => by rw [← equal]; exact attains.2.2 next member⟩
        have liked : favorite affinity cpu (trcs.trcAt trc) = true := by
          simp [favorite, flexible, favored]
        have lighter : Lighter fp trcs affinity cpu (bestOf fp rrtime trcs attr (some found)) trc :=
          Or.inr ⟨(lightest found other).trans (le_tol_max (held found linked)), liked⟩
        have skips : Skips fp trcs affinity (bestOf fp rrtime trcs attr (some found)) trc := by
          by_contra stays
          exact taken (Or.inr ⟨equal, lighter, stays⟩)
        have foundFavored : isbitset (trcs.trcAt found).affinity (-affinity) = true := by
          have h := skips.2.2
          simp only [bestOf, preferred, Bool.and_eq_true, decide_eq_true_eq] at h
          exact h.2
        exact ⟨found, if_neg taken, other, foundFavored, fun next member =>
          skips.1.trans (lightest next member)⟩

end Selection

/-- What `checkPeriod` promises for a task without a fixed CPU. -/
structure SelectsBest (fp : Rounding) (rrtime : Int) (trcs : Tracers) (attr : SchedAttr)
    (affinity cpu : Int) : Prop where
  null : checkPeriod fp rrtime trcs attr affinity cpu = none ↔
    ∀ trc ∈ trcs.rHead, rating fp rrtime trcs attr trc = -1
  least : ∀ found, checkPeriod fp rrtime trcs attr affinity cpu = some found →
    Attains fp rrtime trcs attr found
  preference : ∀ trc, Attains fp rrtime trcs attr trc →
    isbitset (trcs.trcAt trc).affinity (-affinity) = true →
    (∀ other, Attains fp rrtime trcs attr other → (trcs.trcAt trc).u ≤ (trcs.trcAt other).u) →
      ∃ found, checkPeriod fp rrtime trcs attr affinity cpu = some found ∧
        isbitset (trcs.trcAt found).affinity (-affinity) = true ∧
          ((∀ other ∈ trcs.rHead, isbitset (trcs.trcAt other).affinity (-affinity) = true →
            other = trc) → found = trc)

theorem selects_best {fp : Rounding} {rrtime : Int} {trcs : Tracers} {attr : SchedAttr}
    {affinity cpu : Int} (wide : 1 < tolMin fp 10) (flexible : affinity < 0)
    (scored : ∀ trc ∈ trcs.rHead, Scored fp rrtime trcs attr trc)
    (held : ∀ trc ∈ trcs.rHead, Held fp trcs trc) :
    SelectsBest fp rrtime trcs attr affinity cpu := by
  have leads := search_leads affinity cpu wide trcs.rHead scored
  constructor
  · rw [check_period_keeps fp rrtime trcs attr affinity cpu flexible]
    refine ⟨fun none => ?_, none_of_refused⟩
    rwa [none] at leads
  · intro found result
    rw [check_period_keeps fp rrtime trcs attr affinity cpu flexible] at result
    rwa [result] at leads
  · intro trc attains favored lightest
    obtain ⟨before, after, split⟩ := List.append_of_mem attains.1
    obtain ⟨found, kept, settled⟩ := settled_at cpu wide scored held flexible split attains
      favored lightest
    refine ⟨found, ?_, settled.favored, fun only => only found settled.attains.1 settled.favored⟩
    rw [check_period_keeps fp rrtime trcs attr affinity cpu flexible, split, keep_at, kept]
    exact keep_stays fun next behind => settled_stays flexible settled (by rw [split]; simp [behind])

theorem held_of_stored {trcs : Tracers} {trc : Nat} (stored : Stored (trcs.trcAt trc)) :
    Held ieee trcs trc :=
  ⟨stored.nonneg, round_to_of_representable (by decide) (representable_mono (by decide) stored.digits)⟩

/-- `checkPeriod` in the arithmetic of the program, for every list of tracers whose
loads are values of a `float`. -/
theorem check_period_selects_best (rrtime : Int) (trcs : Tracers) (attr : SchedAttr)
    (affinity cpu : Int) (flexible : affinity < 0)
    (stored : ∀ trc ∈ trcs.rHead, Stored (trcs.trcAt trc))
    (scored : ∀ trc ∈ trcs.rHead, Scored ieee rrtime trcs attr trc) :
    SelectsBest ieee rrtime trcs attr affinity cpu :=
  selects_best (by decide +kernel) flexible scored fun trc linked => held_of_stored (stored trc linked)

/-- 2 ms of every 10 ms. -/
def periodic : SchedAttr := { schedPolicy := schedFifo, schedRuntime := 2000000, schedPeriod := 10000000 }

theorem check_period_selects_best_idle :
    SelectsBest ieee 100 (createResTracer 4 {1, 2}) periodic (-2) (-1) := by
  refine check_period_selects_best 100 _ periodic (-2) (-1) (by decide)
    (fun trc _ => fresh_tracer_stored trc) fun trc linked => ?_
  have cases : trc = 1 ∨ trc = 2 := by
    have two : (createResTracer 4 {1, 2}).rHead = [1, 2] := by decide
    simpa [two] using linked
  rcases cases with rfl | rfl
  · exact ⟨by decide +kernel, by decide +kernel⟩
  · exact ⟨by decide +kernel, by decide +kernel⟩

end Orchestrator.BestTracer
