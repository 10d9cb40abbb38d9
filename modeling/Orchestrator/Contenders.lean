import Orchestrator.BestTracer
import Orchestrator.LowLoad

/-!
Who can win a choice. `checkPeriod` ends with a tracer of the least score whose
load is close to the lowest of them, `grepTracer` with one that nothing behind it
undercuts. Equal loads, or loads without use of the slack, leave only one.
-/

namespace Orchestrator.Contenders
open Orchdata Resmgnt BestTracer LowLoad OnePass

/-- Each CPU has one tracer, and its load is a value of the arithmetic. -/
structure Sound (fp : Rounding) (trcs : Tracers) : Prop where
  nodup : trcs.rHead.Nodup
  single : ∀ trc, (trcs.trcAt trc).affinity = {trc}
  held : ∀ trc, Held fp trcs trc

theorem sound_add {rrtime : Int} {trcs : Tracers} (sound : Sound ieee trcs) (trc : Nat)
    (par : SchedAttr) : Sound ieee (trcs.add ieee rrtime trc par).2 := by
  have object (other : Nat) : (trcs.add ieee rrtime trc par).2.trcAt other =
      if other = trc then added ieee rrtime (trcs.trcAt trc) par else trcs.trcAt other := by
    simp only [Tracers.add, checkUvalue, ↓reduceIte, Function.update_apply]
  refine ⟨sound.nodup, fun other => ?_, fun other => ?_⟩
  · rw [object]
    split_ifs with hit
    · rw [hit]
      exact sound.single trc
    · exact sound.single other
  · by_cases hit : other = trc
    · refine held_of_stored ?_
      rw [object, if_pos hit]
      exact added_stored rrtime _ par
    · have held := sound.held other
      constructor
      · rw [object, if_neg hit]
        exact held.nonneg
      · rw [object, if_neg hit]
        exact held.same

section Period
variable (fp : Rounding) (rrtime : Int) (trcs : Tracers) (attr : SchedAttr) (affinity : Int)

/-- The tracer of the preferred CPU. -/
def Favored (trc : Nat) : Prop := isbitset (trcs.trcAt trc).affinity (-affinity) = true

/-- Of the least score, and at most a tolerance above one that no other of this
score is a tolerance below. -/
structure Close (trc : Nat) : Prop where
  attains : Attains fp rrtime trcs attr trc
  near : ∃ low, Attains fp rrtime trcs attr low ∧
    (∀ other, Attains fp rrtime trcs attr other →
      tolMin fp (trcs.trcAt low).u ≤ (trcs.trcAt other).u) ∧
    (trcs.trcAt trc).u ≤ tolMax fp (trcs.trcAt low).u

/-- Of the close tracers the preferred one, else the first of the list. -/
def Ahead (trc : Nat) : Prop :=
  Favored trcs affinity trc ∨
    (∀ other, Close fp rrtime trcs attr other → ¬ Favored trcs affinity other) ∧
      ∃ before after, trcs.rHead = before ++ trc :: after ∧
        ∀ other ∈ before, ¬ Close fp rrtime trcs attr other

/-- One of the close tracers, and the one ahead if they are equally loaded. A full
score is the one the search starts from, so there the first loads count. -/
def Contends (trc : Nat) : Prop :=
  Attains fp rrtime trcs attr trc ∧
    (rating fp rrtime trcs attr trc = intMax ∨
      Close fp rrtime trcs attr trc ∧
        ((∃ other, Close fp rrtime trcs attr other ∧
            (trcs.trcAt other).u ≠ (trcs.trcAt trc).u) ∨
          Ahead fp rrtime trcs attr affinity trc))

/-- Of the tracers seen with the score of `found`, none is a tolerance below `low`. -/
structure LowIn (seen : List Nat) (found low : Nat) : Prop where
  inside : low ∈ seen
  equal : rating fp rrtime trcs attr low = rating fp rrtime trcs attr found
  below : ∀ other ∈ seen, rating fp rrtime trcs attr other = rating fp rrtime trcs attr found →
    tolMin fp (trcs.trcAt low).u ≤ (trcs.trcAt other).u

/-- What the search knows of the tracer found so far. -/
structure Found (seen : List Nat) (found : Nat) : Prop where
  inside : found ∈ seen
  passes : 0 ≤ rating fp rrtime trcs attr found
  least : ∀ trc ∈ seen, 0 ≤ rating fp rrtime trcs attr trc →
    rating fp rrtime trcs attr found ≤ rating fp rrtime trcs attr trc
  close : rating fp rrtime trcs attr found < intMax →
    ∃ low, LowIn fp rrtime trcs attr seen found low ∧
      (trcs.trcAt found).u ≤ tolMax fp (trcs.trcAt low).u
  plain : rating fp rrtime trcs attr found < intMax →
    (∀ trc ∈ seen, ¬ Favored trcs affinity trc) → LowIn fp rrtime trcs attr seen found found

def Searched (seen : List Nat) (kept : Option Nat) : Prop :=
  match kept with
  | none => ∀ trc ∈ seen, 0 ≤ rating fp rrtime trcs attr trc → rating fp rrtime trcs attr trc = intMax
  | some found => Found fp rrtime trcs attr affinity seen found

variable {fp rrtime trcs attr affinity}

theorem rating_le (trc : Nat) : rating fp rrtime trcs attr trc ≤ intMax := by
  simp only [rating, checkUvalue]
  unfold verdict score
  split_ifs <;> simp [intMax]

theorem tol_min_mono {low high : Nat} (sound : Sound fp trcs)
    (below : (trcs.trcAt low).u ≤ (trcs.trcAt high).u) :
    tolMin fp (trcs.trcAt low).u ≤ tolMin fp (trcs.trcAt high).u := by
  have factor : 0 ≤ fp.dbl (95 / 100) := Accounting.dbl_nonneg fp (by norm_num)
  exact fp.dbl_mono _ _ (mul_nonneg (sound.held low).nonneg factor)
    (mul_le_mul_of_nonneg_right below factor)

theorem favored_unique {one other : Nat} (sound : Sound fp trcs)
    (favored : Favored trcs affinity one) (also : Favored trcs affinity other) : one = other := by
  simp only [Favored, isbitset, sound.single, Finset.mem_singleton, decide_eq_true_eq] at favored also
  exact favored.2.symm.trans also.2

theorem favorite_iff (flexible : affinity < 0) (trc : Nat) :
    favorite affinity (-1) (trcs.trcAt trc) = true ↔ Favored trcs affinity trc := by
  simp [favorite, Favored, flexible]

theorem takes_any {kept : Option Nat} {next : Nat} {cpu : Int}
    (last : kept = none) (passes : 0 ≤ rating fp rrtime trcs attr next)
    (below : rating fp rrtime trcs attr next < intMax) :
    takes fp rrtime trcs attr affinity cpu kept next := by
  subst last
  exact Or.inl ⟨passes, below⟩

/-- Between equal scores: a load below the band, or the preferred tracer in it. -/
theorem takes_equal_iff {found next : Nat}
    (equal : rating fp rrtime trcs attr next = rating fp rrtime trcs attr found) :
    takes fp rrtime trcs attr affinity (-1) (some found) next ↔
      (Lighter fp trcs affinity (-1) (bestOf fp rrtime trcs attr (some found)) next ∧
        ¬ Skips fp trcs affinity (bestOf fp rrtime trcs attr (some found)) next) := by
  unfold takes
  simp [bestOf, equal]

theorem not_taken_above {found next : Nat}
    (equal : rating fp rrtime trcs attr next = rating fp rrtime trcs attr found)
    (passed : ¬ takes fp rrtime trcs attr affinity (-1) (some found) next) :
    tolMin fp (trcs.trcAt found).u ≤ (trcs.trcAt next).u := by
  by_contra below
  refine passed ((takes_equal_iff equal).mpr ⟨Or.inl (not_le.mp below), fun skips => ?_⟩)
  exact below skips.1

/-- A tracer whose score no other one seen has. -/
theorem found_alone {seen : List Nat} {next : Nat} (sound : Sound fp trcs)
    (passes : 0 ≤ rating fp rrtime trcs attr next)
    (above : ∀ trc ∈ seen, 0 ≤ rating fp rrtime trcs attr trc →
      rating fp rrtime trcs attr next ≤ rating fp rrtime trcs attr trc)
    (alone : rating fp rrtime trcs attr next < intMax →
      ∀ trc ∈ seen, rating fp rrtime trcs attr trc ≠ rating fp rrtime trcs attr next) :
    Found fp rrtime trcs attr affinity (seen ++ [next]) next := by
  have low (below : rating fp rrtime trcs attr next < intMax) :
      LowIn fp rrtime trcs attr (seen ++ [next]) next next := by
    refine ⟨by simp, rfl, fun other inside equal => ?_⟩
    rcases List.mem_append.mp inside with early | last
    · exact absurd equal (alone below other early)
    · rw [List.mem_singleton.mp last]
      exact tol_min_le (sound.held next)
  refine ⟨by simp, passes, fun trc inside other => ?_, fun below => ?_, fun below _ => low below⟩
  · rcases List.mem_append.mp inside with early | last
    · exact above trc early other
    · rw [List.mem_singleton.mp last]
  · exact ⟨next, low below, le_tol_max (sound.held next)⟩

theorem low_in_append {seen : List Nat} {found low next : Nat}
    (known : LowIn fp rrtime trcs attr seen found low)
    (above : rating fp rrtime trcs attr next = rating fp rrtime trcs attr found →
      tolMin fp (trcs.trcAt low).u ≤ (trcs.trcAt next).u) :
    LowIn fp rrtime trcs attr (seen ++ [next]) found low := by
  refine ⟨List.mem_append_left _ known.inside, known.equal, fun other inside equal => ?_⟩
  rcases List.mem_append.mp inside with early | last
  · exact known.below other early equal
  · rw [List.mem_singleton.mp last] at equal ⊢
    exact above equal

/-- A lower one of the same score takes the place of `low`. -/
theorem low_in_lower {seen : List Nat} {found low next : Nat} (sound : Sound fp trcs)
    (known : LowIn fp rrtime trcs attr seen found low)
    (equal : rating fp rrtime trcs attr next = rating fp rrtime trcs attr found)
    (lower : (trcs.trcAt next).u ≤ (trcs.trcAt low).u) :
    LowIn fp rrtime trcs attr (seen ++ [next]) next next := by
  refine ⟨by simp, rfl, fun other inside same => ?_⟩
  rcases List.mem_append.mp inside with early | last
  · exact (tol_min_mono sound lower).trans (known.below other early (same.trans equal))
  · rw [List.mem_singleton.mp last]
    exact tol_min_le (sound.held next)

theorem low_in_same {seen : List Nat} {found next low : Nat}
    (equal : rating fp rrtime trcs attr next = rating fp rrtime trcs attr found)
    (known : LowIn fp rrtime trcs attr seen found low) : LowIn fp rrtime trcs attr seen next low :=
  ⟨known.inside, known.equal.trans equal.symm, fun other inside same =>
    known.below other inside (same.trans equal)⟩

section Turn
variable {seen : List Nat} {found next : Nat} (sound : Sound fp trcs)
variable (known : Found fp rrtime trcs attr affinity seen found)
include sound known

/-- The next tracer has the same score and is taken. -/
theorem found_equal (flexible : affinity < 0) (fresh : next ∉ seen)
    (equal : rating fp rrtime trcs attr next = rating fp rrtime trcs attr found)
    (taken : takes fp rrtime trcs attr affinity (-1) (some found) next) :
    Found fp rrtime trcs attr affinity (seen ++ [next]) next := by
  obtain ⟨lighter, -⟩ := (takes_equal_iff equal).mp taken
  refine ⟨by simp, by rw [equal]; exact known.passes, fun trc inside passes => ?_,
    fun below => ?_, fun below plain => ?_⟩
  · rcases List.mem_append.mp inside with early | last
    · rw [equal]
      exact known.least trc early passes
    · rw [List.mem_singleton.mp last]
  · rw [equal] at below
    by_cases under : (trcs.trcAt next).u < tolMin fp (trcs.trcAt found).u
    · -- taken from below the band: the new low, or still in reach of the old one
      obtain ⟨low, lowest, near⟩ := known.close below
      by_cases lower : (trcs.trcAt next).u ≤ (trcs.trcAt low).u
      · exact ⟨next, low_in_lower sound lowest equal lower, le_tol_max (sound.held next)⟩
      · refine ⟨low, low_in_same equal (low_in_append lowest fun _ =>
          (tol_min_le (sound.held low)).trans (not_le.mp lower).le), ?_⟩
        exact (under.le.trans (tol_min_le (sound.held found))).trans near
    · -- taken in the band: it is the preferred tracer and no other one was
      obtain ⟨inBand, favored⟩ := lighter.resolve_left under
      rw [favorite_iff flexible] at favored
      have plain : ∀ trc ∈ seen, ¬ Favored trcs affinity trc := fun trc inside also =>
        fresh (favored_unique sound also favored ▸ inside)
      exact ⟨found, low_in_same equal (low_in_append (known.plain below plain) fun _ =>
        not_lt.mp under), inBand⟩
  · rw [equal] at below
    have before : ∀ trc ∈ seen, ¬ Favored trcs affinity trc := fun trc inside =>
      plain trc (List.mem_append_left _ inside)
    have under : (trcs.trcAt next).u < tolMin fp (trcs.trcAt found).u :=
      lighter.resolve_right fun inBand =>
        plain next (by simp) ((favorite_iff flexible next).mp inBand.2)
    exact low_in_lower sound (known.plain below before) equal
      (under.le.trans (tol_min_le (sound.held found)))

/-- The next tracer is passed over. -/
theorem found_kept (passed : ¬ takes fp rrtime trcs attr affinity (-1) (some found) next) :
    Found fp rrtime trcs attr affinity (seen ++ [next]) found := by
  have above (equal : rating fp rrtime trcs attr next = rating fp rrtime trcs attr found) :=
    not_taken_above equal passed
  refine ⟨List.mem_append_left _ known.inside, known.passes, fun trc inside passes => ?_,
    fun below => ?_, fun below plain => ?_⟩
  · rcases List.mem_append.mp inside with early | last
    · exact known.least trc early passes
    · rw [List.mem_singleton.mp last] at passes ⊢
      exact not_lt.mp fun better => passed (takes_better passes better)
  · obtain ⟨low, lowest, near⟩ := known.close below
    by_cases lower : (trcs.trcAt low).u ≤ (trcs.trcAt found).u
    · exact ⟨low, low_in_append lowest fun equal => (tol_min_mono sound lower).trans (above equal),
        near⟩
    · -- the tracer kept is below `low`, so it takes that place
      refine ⟨found, ⟨List.mem_append_left _ known.inside, rfl, fun other inside equal => ?_⟩,
        le_tol_max (sound.held found)⟩
      rcases List.mem_append.mp inside with early | last
      · exact (tol_min_mono sound (not_le.mp lower).le).trans (lowest.below other early equal)
      · rw [List.mem_singleton.mp last] at equal ⊢
        exact above equal
  · exact low_in_append
      (known.plain below fun trc inside => plain trc (List.mem_append_left _ inside)) above

end Turn

theorem searched_turn {seen : List Nat} {kept : Option Nat} {next : Nat} (sound : Sound fp trcs)
    (flexible : affinity < 0) (fresh : next ∉ seen)
    (known : Searched fp rrtime trcs attr affinity seen kept) :
    Searched fp rrtime trcs attr affinity (seen ++ [next])
      (take (takes fp rrtime trcs attr affinity (-1)) kept next) := by
  rw [take]
  cases kept with
  | none =>
      -- whatever was passed over had a full score, so the first one taken stands alone
      split_ifs with taken
      · have rated := takes_rating taken start_nonneg
        refine found_alone sound rated.1 (fun trc inside passes => ?_) fun below trc inside same => ?_
        · rw [known trc inside passes]
          exact rating_le next
        · have full := known trc inside (by rw [same]; exact rated.1)
          omega
      · intro trc inside passes
        rcases List.mem_append.mp inside with early | last
        · exact known trc early passes
        · rw [List.mem_singleton.mp last] at passes ⊢
          by_contra below
          exact taken (takes_any rfl passes (lt_of_le_of_ne (rating_le next) below))
  | some found =>
      have here : Found fp rrtime trcs attr affinity seen found := known
      split_ifs with taken
      · rcases taken with ⟨passes, better⟩ | ⟨equal, other⟩
        · have less : rating fp rrtime trcs attr next < rating fp rrtime trcs attr found := better
          refine found_alone sound passes (fun trc inside also => ?_) fun _ trc inside same => ?_
          · exact less.le.trans (here.least trc inside also)
          · have above := here.least trc inside (by rw [same]; exact passes)
            omega
        · exact found_equal sound here flexible fresh equal (Or.inr ⟨equal, other⟩)
      · exact found_kept sound here taken

theorem searched (sound : Sound fp trcs) (flexible : affinity < 0) {before after : List Nat}
    (split : trcs.rHead = before ++ after) :
    Searched fp rrtime trcs attr affinity before
      (keep (takes fp rrtime trcs attr affinity (-1)) none before) := by
  -- the place in the list tells that the next tracer was not seen yet
  refine keep_along (Searched fp rrtime trcs attr affinity) (fun _ none => by cases none)
    fun seen next rest here known => searched_turn sound flexible ?_ known
  have nodup := sound.nodup
  rw [split, here] at nodup
  have apart := (List.nodup_append.mp (List.nodup_append.mp nodup).1).2.2
  exact fun inside => apart next inside next List.mem_cons_self rfl

theorem attains_of_found {found : Nat} (known : Found fp rrtime trcs attr affinity trcs.rHead found) :
    Attains fp rrtime trcs attr found := ⟨known.inside, known.passes, known.least⟩

theorem attains_equal {one other : Nat} (first : Attains fp rrtime trcs attr one)
    (second : Attains fp rrtime trcs attr other) :
    rating fp rrtime trcs attr one = rating fp rrtime trcs attr other :=
  le_antisymm (first.2.2 other second.1 second.2.1) (second.2.2 one first.1 first.2.1)

theorem attains_of_equal {one other : Nat} (first : Attains fp rrtime trcs attr one)
    (linked : other ∈ trcs.rHead)
    (equal : rating fp rrtime trcs attr other = rating fp rrtime trcs attr one) :
    Attains fp rrtime trcs attr other :=
  ⟨linked, by rw [equal]; exact first.2.1, fun trc inside passes => by
    rw [equal]
    exact first.2.2 trc inside passes⟩

/-- The search ends close to the lowest load of the least score. -/
theorem check_period_close {found : Nat} (sound : Sound fp trcs) (flexible : affinity < 0)
    (result : checkPeriod fp rrtime trcs attr affinity (-1) = some found) :
    Attains fp rrtime trcs attr found ∧
      (rating fp rrtime trcs attr found < intMax → Close fp rrtime trcs attr found) := by
  have known : Searched fp rrtime trcs attr affinity trcs.rHead
      (keep (takes fp rrtime trcs attr affinity (-1)) none trcs.rHead) :=
    searched sound flexible (List.append_nil trcs.rHead).symm
  rw [← check_period_keeps fp rrtime trcs attr affinity (-1) flexible, result] at known
  have here : Found fp rrtime trcs attr affinity trcs.rHead found := known
  have attains := attains_of_found here
  refine ⟨attains, fun below => ?_⟩
  obtain ⟨low, lowest, near⟩ := here.close below
  refine ⟨attains, low, attains_of_equal attains lowest.inside lowest.equal, fun other also => ?_, near⟩
  exact lowest.below other also.1 (attains_equal also attains)

theorem check_period_finds {trc : Nat} (flexible : affinity < 0)
    (attains : Attains fp rrtime trcs attr trc) (below : rating fp rrtime trcs attr trc < intMax) :
    ∃ found, checkPeriod fp rrtime trcs attr affinity (-1) = some found := by
  rw [check_period_keeps fp rrtime trcs attr affinity (-1) flexible]
  exact keep_takes _ attains.1 (takes_any rfl attains.2.1 below)

theorem close_of_least {trc : Nat} (sound : Sound fp trcs) (attains : Attains fp rrtime trcs attr trc)
    (least : ∀ other, Attains fp rrtime trcs attr other → (trcs.trcAt trc).u ≤ (trcs.trcAt other).u) :
    Close fp rrtime trcs attr trc :=
  ⟨attains, trc, attains, fun other also => (tol_min_le (sound.held trc)).trans (least other also),
    le_tol_max (sound.held trc)⟩

open Classical in
/-- The lowest load is close, so it is the one that all the close ones share. -/
theorem least_of_equal {trc : Nat} (sound : Sound fp trcs) (close : Close fp rrtime trcs attr trc)
    (equal : ∀ other, Close fp rrtime trcs attr other → (trcs.trcAt other).u = (trcs.trcAt trc).u)
    (other : Nat) (attains : Attains fp rrtime trcs attr other) :
    (trcs.trcAt trc).u ≤ (trcs.trcAt other).u := by
  obtain ⟨low, member, least⟩ := Finset.exists_min_image
    (trcs.rHead.toFinset.filter (Attains fp rrtime trcs attr)) (fun next => (trcs.trcAt next).u)
    ⟨trc, by simp [close.attains, close.attains.1]⟩
  simp only [Finset.mem_filter, List.mem_toFinset] at member least
  have lowest : Close fp rrtime trcs attr low :=
    close_of_least sound member.2 fun next also => least next ⟨also.1, also⟩
  rw [← equal low lowest]
  exact least other ⟨attains.1, attains⟩

section Equal
variable {trc : Nat} (sound : Sound fp trcs) (flexible : affinity < 0)
variable (attains : Attains fp rrtime trcs attr trc)
variable (least : ∀ other, Attains fp rrtime trcs attr other →
  (trcs.trcAt trc).u ≤ (trcs.trcAt other).u)
variable (ahead : Ahead fp rrtime trcs attr affinity trc)
include sound flexible attains least

/-- Where the search reaches a tracer ahead, it takes it. -/
theorem ahead_taken {before after : List Nat} (split : trcs.rHead = before ++ trc :: after)
    (below : rating fp rrtime trcs attr trc < intMax)
    (ahead : Favored trcs affinity trc ∨ ∀ other ∈ before, ¬ Close fp rrtime trcs attr other) :
    takes fp rrtime trcs attr affinity (-1)
      (keep (takes fp rrtime trcs attr affinity (-1)) none before) trc := by
  have known : Searched fp rrtime trcs attr affinity before _ := searched sound flexible split
  cases kept : keep (takes fp rrtime trcs attr affinity (-1)) none before with
  | none => exact takes_any rfl attains.2.1 below
  | some found =>
      rw [kept] at known
      have here : Found fp rrtime trcs attr affinity before found := known
      have linked : found ∈ trcs.rHead := by
        rw [split]
        exact List.mem_append_left _ here.inside
      by_cases better : rating fp rrtime trcs attr trc < rating fp rrtime trcs attr found
      · exact takes_better attains.2.1 better
      · have equal : rating fp rrtime trcs attr trc = rating fp rrtime trcs attr found :=
          le_antisymm (attains.2.2 found linked here.passes) (not_lt.mp better)
        have also : Attains fp rrtime trcs attr found := attains_of_equal attains linked equal.symm
        rw [takes_equal_iff equal]
        rcases ahead with favored | first
        · refine ⟨Or.inr ⟨(least found also).trans (le_tol_max (sound.held found)),
            (favorite_iff flexible trc).mpr favored⟩, fun skips => ?_⟩
          -- the one found would be the preferred tracer itself, which comes only now
          have preferredFound : Favored trcs affinity found := by
            have other := skips.2.2
            simp only [bestOf, preferred, Bool.and_eq_true] at other
            exact other.2
          have nodup := sound.nodup
          rw [split] at nodup
          have apart := (List.nodup_append.mp nodup).2.2 found here.inside trc List.mem_cons_self
          exact apart (favored_unique sound preferredFound favored)
        · -- one found before it that it does not undercut would be close itself
          have under : (trcs.trcAt trc).u < tolMin fp (trcs.trcAt found).u := by
            by_contra above
            refine first found here.inside ⟨also, found, also, fun other member => ?_,
              le_tol_max (sound.held found)⟩
            exact (not_lt.mp above).trans (least other member)
          exact ⟨Or.inl under, fun skips => absurd skips.1 (not_le.mpr under)⟩

/-- From there on nothing replaces it. -/
theorem ahead_stays {next : Nat} (linked : next ∈ trcs.rHead)
    (ahead : Favored trcs affinity trc ∨
      ∀ other, Close fp rrtime trcs attr other → ¬ Favored trcs affinity other) :
    ¬ takes fp rrtime trcs attr affinity (-1) (some trc) next := by
  intro taken
  have rated := takes_rating taken attains.2.1
  have equal : rating fp rrtime trcs attr next = rating fp rrtime trcs attr trc :=
    le_antisymm rated.2 (attains.2.2 next linked rated.1)
  have also := attains_of_equal attains linked equal
  have above := (tol_min_le (sound.held trc)).trans (least next also)
  obtain ⟨lighter, stays⟩ := (takes_equal_iff equal).mp taken
  obtain ⟨inBand, favored⟩ := lighter.resolve_left (not_lt.mpr above)
  rcases ahead with preferredTrc | plain
  · refine stays ⟨above, inBand, ?_⟩
    have here : isbitset (trcs.trcAt trc).affinity (-affinity) = true := preferredTrc
    simp [bestOf, preferred, flexible, here]
  · refine plain next ⟨also, trc, attains, fun other member => ?_, inBand⟩
      ((favorite_iff flexible next).mp favored)
    exact (tol_min_le (sound.held trc)).trans (least other member)

include ahead in
/-- Of equally loaded close tracers the search ends with the one ahead. -/
theorem check_period_ahead (below : rating fp rrtime trcs attr trc < intMax) :
    checkPeriod fp rrtime trcs attr affinity (-1) = some trc := by
  have split : ∃ before after, trcs.rHead = before ++ trc :: after ∧
      (Favored trcs affinity trc ∨ ∀ other ∈ before, ¬ Close fp rrtime trcs attr other) := by
    rcases ahead with favored | ⟨-, before, after, here, first⟩
    · obtain ⟨before, after, here⟩ := List.append_of_mem attains.1
      exact ⟨before, after, here, Or.inl favored⟩
    · exact ⟨before, after, here, Or.inr first⟩
  obtain ⟨before, after, here, first⟩ := split
  rw [check_period_keeps fp rrtime trcs attr affinity (-1) flexible, here, keep_at, take,
    if_pos (ahead_taken sound flexible attains least here below first)]
  refine keep_stays fun next behind => ahead_stays sound flexible attains least ?_ ?_
  · rw [here]
    simp [behind]
  · exact ahead.imp_right And.left

end Equal

open Classical in
theorem exists_ahead {trc : Nat} (close : Close fp rrtime trcs attr trc) :
    ∃ first, Close fp rrtime trcs attr first ∧ Ahead fp rrtime trcs attr affinity first := by
  by_cases preferredOne : ∃ other, Close fp rrtime trcs attr other ∧ Favored trcs affinity other
  · obtain ⟨other, also, favored⟩ := preferredOne
    exact ⟨other, also, Or.inl favored⟩
  · have some : (trcs.rHead.find? fun other => Close fp rrtime trcs attr other).isSome :=
      List.find?_isSome.mpr ⟨trc, close.attains.1, decide_eq_true close⟩
    obtain ⟨first, found⟩ := Option.isSome_iff_exists.mp some
    obtain ⟨closest, before, after, split, apart⟩ := List.find?_eq_some_iff_append.mp found
    refine ⟨first, of_decide_eq_true closest, Or.inr ⟨fun other also favored =>
      preferredOne ⟨other, also, favored⟩, before, after, split, fun other early also => ?_⟩⟩
    simpa [also] using apart other early

/-- What `checkPeriod` finds is a contender. -/
theorem check_period_contends {found : Nat} (sound : Sound fp trcs) (flexible : affinity < 0)
    (result : checkPeriod fp rrtime trcs attr affinity (-1) = some found) :
    Contends fp rrtime trcs attr affinity found := by
  obtain ⟨attains, near⟩ := check_period_close sound flexible result
  refine ⟨attains, (eq_or_lt_of_le (rating_le found)).imp_right fun below => ?_⟩
  have close := near below
  refine ⟨close, ?_⟩
  by_cases differ : ∃ other, Close fp rrtime trcs attr other ∧
      (trcs.trcAt other).u ≠ (trcs.trcAt found).u
  · exact Or.inl differ
  · have equal : ∀ other, Close fp rrtime trcs attr other →
        (trcs.trcAt other).u = (trcs.trcAt found).u := fun other also => by
      by_contra apart
      exact differ ⟨other, also, apart⟩
    -- the tracer ahead has the same load and is what the search ends with
    obtain ⟨first, also, ahead⟩ : ∃ first, Close fp rrtime trcs attr first ∧
        Ahead fp rrtime trcs attr affinity first := exists_ahead close
    have least : ∀ other, Attains fp rrtime trcs attr other →
        (trcs.trcAt first).u ≤ (trcs.trcAt other).u := fun other member => by
      rw [equal first also]
      exact least_of_equal sound close equal other member
    have same := check_period_ahead sound flexible also.attains least ahead
      (by rwa [attains_equal also.attains attains])
    rw [result] at same
    cases same
    exact Or.inr ahead

end Period

section Load
variable (fp : Rounding) (trcs : Tracers)

/-- Some tracer is taken in place of one that is not above it, through the slack. -/
def Climbs : Prop :=
  ∃ found ∈ trcs.rHead, ∃ next ∈ trcs.rHead,
    (trcs.trcAt found).u ≤ (trcs.trcAt next).u ∧ lower fp trcs (some found) next

instance : Decidable (Climbs fp trcs) :=
  inferInstanceAs (Decidable (∃ found ∈ trcs.rHead, ∃ next ∈ trcs.rHead, _ ∧ _))

/-- Nothing behind it is taken instead and, unless the slack is used, it is the first
with the lowest load. -/
def Remains (trc : Nat) : Prop :=
  ∃ before after, trcs.rHead = before ++ trc :: after ∧
    (∀ next ∈ after, ¬ lower fp trcs (some trc) next) ∧
      (Climbs fp trcs ∨
        (trcs.trcAt trc).u < 1 ∧ ∀ other ∈ before, (trcs.trcAt trc).u < (trcs.trcAt other).u)

/-- Without use of the slack the search holds the lowest load seen. -/
def Lowest (seen : List Nat) (kept : Option Nat) : Prop :=
  match kept with
  | none => ∀ trc ∈ seen, 1 ≤ (trcs.trcAt trc).u
  | some found => found ∈ seen ∧ (trcs.trcAt found).u < 1 ∧
      ∀ trc ∈ seen, (trcs.trcAt found).u ≤ (trcs.trcAt trc).u

variable {fp trcs}

theorem lower_of_level {found next : Nat} (level : ¬ Climbs fp trcs) (first : found ∈ trcs.rHead)
    (second : next ∈ trcs.rHead) (taken : lower fp trcs (some found) next) :
    (trcs.trcAt next).u < (trcs.trcAt found).u := by
  by_contra above
  exact level ⟨found, first, next, second, not_lt.mp above, taken⟩

theorem lowest_turn {seen : List Nat} {kept : Option Nat} {next : Nat} (level : ¬ Climbs fp trcs)
    (inside : ∀ trc ∈ seen, trc ∈ trcs.rHead) (linked : next ∈ trcs.rHead)
    (known : Lowest trcs seen kept) :
    Lowest trcs (seen ++ [next]) (take (lower fp trcs) kept next) := by
  rw [take]
  cases kept with
  | none =>
      split_ifs with taken
      · have light : (trcs.trcAt next).u < 1 := taken
        refine ⟨by simp, light, fun trc member => ?_⟩
        rcases List.mem_append.mp member with early | last
        · exact light.le.trans (known trc early)
        · rw [List.mem_singleton.mp last]
      · intro trc member
        rcases List.mem_append.mp member with early | last
        · exact known trc early
        · rw [List.mem_singleton.mp last]
          exact not_lt.mp taken
  | some found =>
      obtain ⟨here, light, least⟩ := known
      split_ifs with taken
      · have less := lower_of_level level (inside found here) linked taken
        refine ⟨by simp, less.trans light, fun trc member => ?_⟩
        rcases List.mem_append.mp member with early | last
        · exact less.le.trans (least trc early)
        · rw [List.mem_singleton.mp last]
      · refine ⟨List.mem_append_left _ here, light, fun trc member => ?_⟩
        rcases List.mem_append.mp member with early | last
        · exact least trc early
        · rw [List.mem_singleton.mp last]
          exact not_lt.mp fun less => taken (Or.inl less)

theorem searched_lowest (level : ¬ Climbs fp trcs) {before after : List Nat}
    (split : trcs.rHead = before ++ after) :
    Lowest trcs before (keep (lower fp trcs) none before) := by
  have inside : ∀ trc ∈ before, trc ∈ trcs.rHead := fun trc early => by
    rw [split]
    exact List.mem_append_left _ early
  refine keep_along (Lowest trcs) (fun _ none => by cases none) fun seen next rest here known => ?_
  refine lowest_turn level (fun trc early => inside trc ?_) (inside next ?_) known
  · rw [here]
    exact List.mem_append_left _ early
  · rw [here]
    simp

/-- What `grepTracer` finds remains. -/
theorem grep_tracer_remains {found : Nat} (result : grepTracer fp trcs = some found) :
    Remains fp trcs found := by
  rw [grep_tracer_keeps] at result
  obtain ⟨before, after, split, taken, stays⟩ := keep_found result
  refine ⟨before, after, split, stays, ?_⟩
  by_cases level : Climbs fp trcs
  · exact Or.inl level
  · have known := searched_lowest level split
    cases kept : keep (lower fp trcs) none before with
    | none =>
        rw [kept] at taken known
        have light : (trcs.trcAt found).u < 1 := taken
        exact Or.inr ⟨light, fun other early => light.trans_le (known other early)⟩
    | some first =>
        rw [kept] at taken known
        obtain ⟨early, light, least⟩ := known
        have less := lower_of_level level (by simp [split, early]) (by simp [split]) taken
        exact Or.inr ⟨less.trans light, fun other also => less.trans_le (least other also)⟩

/-- Without use of the slack nothing else does. -/
theorem grep_tracer_iff (level : ¬ Climbs fp trcs) (trc : Nat) :
    grepTracer fp trcs = some trc ↔ Remains fp trcs trc := by
  refine ⟨grep_tracer_remains, ?_⟩
  rintro ⟨before, after, split, stays, first⟩
  obtain ⟨light, least⟩ := first.resolve_left level
  have taken : lower fp trcs (keep (lower fp trcs) none before) trc := by
    have known := searched_lowest level split
    cases kept : keep (lower fp trcs) none before with
    | none => exact light
    | some found =>
        rw [kept] at known
        exact Or.inl (least found known.1)
  rw [grep_tracer_keeps, split, keep_at, take, if_pos taken]
  exact keep_stays stays

end Load

end Orchestrator.Contenders
