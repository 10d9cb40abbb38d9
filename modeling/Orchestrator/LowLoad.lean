import Orchestrator.OnePass
import Orchestrator.Plan

/-!
`grepTracer`, and what it finds over exact loads. A harmonic tracer may replace a lower one that is
not harmonic, and its own load is the bound from there on; so the slack of
20% adds up along the list.
-/

namespace Orchestrator.LowLoad
open Orchdata Resmgnt OnePass

variable (fp : Rounding) (trcs : Tracers)

/-- The acceptance test, against the tracer found so far. -/
def lower (kept : Option Nat) (next : Nat) : Prop :=
  match kept with
  | none => (trcs.trcAt next).u < 1
  | some found =>
      (trcs.trcAt next).u < (trcs.trcAt found).u ∨
        (trcs.trcAt next).u < fp.dbl ((trcs.trcAt found).u * fp.dbl (12 / 10)) ∧
          (trcs.trcAt found).hrmc = false ∧ (trcs.trcAt next).hrmc = true

instance (kept : Option Nat) (next : Nat) : Decidable (lower fp trcs kept next) :=
  match kept with
  | none => inferInstanceAs (Decidable (_ < _))
  | some _ => inferInstanceAs (Decidable (_ ∨ _))

/-- `Umax` and `ftrc`: the bound is the load of the tracer found. -/
def bound (kept : Option Nat) : ℚ × Option Nat :=
  match kept with
  | none => (1, none)
  | some found => ((trcs.trcAt found).u, some found)

theorem grep_tracer_step (kept : Option Nat) (next : Nat) :
    grepTracerStep fp trcs (bound trcs kept) next =
      bound trcs (take (lower fp trcs) kept next) := by
  cases kept with
  | none =>
      by_cases free : (trcs.trcAt next).u < 1 <;> simp [grepTracerStep, bound, take, lower, free]
  | some found =>
      by_cases less : (trcs.trcAt next).u < (trcs.trcAt found).u
      · simp [grepTracerStep, bound, take, lower, less]
      · by_cases slack : (trcs.trcAt next).u < fp.dbl ((trcs.trcAt found).u * fp.dbl (12 / 10)) <;>
          cases foundHarmonic : (trcs.trcAt found).hrmc <;>
            cases nextHarmonic : (trcs.trcAt next).hrmc <;>
              simp [grepTracerStep, bound, take, lower, less, slack, foundHarmonic, nextHarmonic]

theorem grep_tracer_keeps : grepTracer fp trcs = keep (lower fp trcs) none trcs.rHead := by
  have fold := foldl_keep (bound trcs) (grepTracerStep fp trcs)
    (grep_tracer_step fp trcs) none trcs.rHead
  have start : ((1 : ℚ), (none : Option Nat)) = bound trcs none := rfl
  rw [grepTracer, start, fold]
  cases keep (lower fp trcs) none trcs.rHead <;> rfl

/-- At most 1.2 times every load, and above one only if harmonic. -/
def LowLoaded (trc : Nat) : Prop :=
  ∀ other ∈ trcs.rHead, (trcs.trcAt trc).u ≤ 12 / 10 * (trcs.trcAt other).u ∧
    ((trcs.trcAt other).u < (trcs.trcAt trc).u → (trcs.trcAt trc).hrmc = true)

/-- What no tracer of `after` may be, for the search to end with `trc` or better. -/
def Undisturbed (trc : Nat) (after : List Nat) : Prop :=
  ((trcs.trcAt trc).hrmc = true ∧
      (∀ other ∈ trcs.rHead, (trcs.trcAt trc).u ≤ 12 / 10 * (trcs.trcAt other).u) ∧
      ∀ next ∈ after, (trcs.trcAt trc).u ≤ (trcs.trcAt next).u) ∨
    (∀ other ∈ trcs.rHead, (trcs.trcAt trc).u ≤ (trcs.trcAt other).u) ∧
      ∀ next ∈ after, (trcs.trcAt next).hrmc = true →
        12 / 10 * (trcs.trcAt trc).u ≤ (trcs.trcAt next).u

variable {trcs}

theorem not_lower_harmonic {found next : Nat} (harmonic : (trcs.trcAt found).hrmc = true)
    (above : (trcs.trcAt found).u ≤ (trcs.trcAt next).u) : ¬ lower exact trcs (some found) next := by
  rintro (less | ⟨-, other, -⟩)
  · exact absurd above (not_le.mpr less)
  · rw [harmonic] at other
    cases other

theorem not_lower_outside {found next : Nat} (above : (trcs.trcAt found).u ≤ (trcs.trcAt next).u)
    (outside : (trcs.trcAt next).hrmc = true →
      12 / 10 * (trcs.trcAt found).u ≤ (trcs.trcAt next).u) : ¬ lower exact trcs (some found) next := by
  rintro (less | ⟨slack, -, harmonic⟩)
  · exact absurd above (not_le.mpr less)
  · have far := outside harmonic
    have near : (trcs.trcAt next).u < (trcs.trcAt found).u * (12 / 10) := slack
    linarith

/-- What the search ends with is undisturbed if it is close to the lowest load. -/
theorem undisturbed_of_low (low : ∃ found, grepTracer exact trcs = some found ∧ LowLoaded trcs found) :
    ∃ before trc after, trcs.rHead = before ++ trc :: after ∧ Undisturbed trcs trc after := by
  obtain ⟨found, result, low⟩ := low
  rw [grep_tracer_keeps] at result
  obtain ⟨before, after, split, -, stays⟩ := keep_found result
  refine ⟨before, found, after, split, ?_⟩
  by_cases harmonic : (trcs.trcAt found).hrmc = true
  · refine Or.inl ⟨harmonic, fun other linked => (low other linked).1, fun next behind => ?_⟩
    by_contra less
    exact stays next behind (Or.inl (not_le.mp less))
  · refine Or.inr ⟨fun other linked => ?_, fun next behind other => ?_⟩
    · by_contra less
      exact harmonic ((low other linked).2 (not_le.mp less))
    · by_contra near
      refine stays next behind (Or.inr ⟨?_, by simpa using harmonic, other⟩)
      change (trcs.trcAt next).u < (trcs.trcAt found).u * (12 / 10)
      linarith [not_le.mp near]

theorem undisturbed_behind {trc : Nat} {before after : List Nat}
    (split : trcs.rHead = before ++ trc :: after) (undisturbed : Undisturbed trcs trc after) :
    ∀ next ∈ after, (trcs.trcAt trc).u ≤ (trcs.trcAt next).u := by
  intro next behind
  rcases undisturbed with ⟨-, -, above⟩ | ⟨lowest, -⟩
  · exact above next behind
  · exact lowest next (by rw [split]; simp [behind])

section Search
variable (nonneg : ∀ trc ∈ trcs.rHead, 0 ≤ (trcs.trcAt trc).u)
variable (free : ∃ trc ∈ trcs.rHead, (trcs.trcAt trc).u < 1)

include nonneg in
theorem low_of_lowest {trc : Nat}
    (lowest : ∀ other ∈ trcs.rHead, (trcs.trcAt trc).u ≤ (trcs.trcAt other).u) :
    LowLoaded trcs trc := by
  intro other linked
  have above := lowest other linked
  have positive := nonneg other linked
  exact ⟨by linarith, fun less => absurd above (not_le.mpr less)⟩

include free in
/-- Before an undisturbed tracer something has been found, unless it is below one itself. -/
theorem undisturbed_free {trc : Nat} {before after : List Nat}
    (split : trcs.rHead = before ++ trc :: after) (undisturbed : Undisturbed trcs trc after)
    (none : keep (lower exact trcs) none before = none) : lower exact trcs Option.none trc := by
  obtain ⟨light, linked, below⟩ := free
  rw [split] at linked
  rcases List.mem_append.mp linked with early | late
  · obtain ⟨found, some⟩ := keep_takes (lower exact trcs) early below
    rw [none] at some
    cases some
  · rcases List.mem_cons.mp late with same | behind
    · exact same ▸ below
    · exact lt_of_le_of_lt (undisturbed_behind split undisturbed light behind) below

include nonneg in
/-- A tracer that an undisturbed one does not replace is as good and stays. -/
theorem undisturbed_passed {found trc : Nat} {before after : List Nat}
    (split : trcs.rHead = before ++ trc :: after) (undisturbed : Undisturbed trcs trc after)
    (passed : ¬ lower exact trcs (some found) trc) :
    LowLoaded trcs found ∧ ∀ next ∈ after, ¬ lower exact trcs (some found) next := by
  have below : (trcs.trcAt found).u ≤ (trcs.trcAt trc).u := by
    by_contra less
    exact passed (Or.inl (not_le.mp less))
  have behind : ∀ next ∈ after, (trcs.trcAt found).u ≤ (trcs.trcAt next).u := fun next inside =>
    below.trans (undisturbed_behind split undisturbed next inside)
  rcases undisturbed with ⟨harmonic, close, above⟩ | ⟨lowest, outside⟩
  · by_cases same : (trcs.trcAt found).hrmc = true
    · exact ⟨fun other linked => ⟨below.trans (close other linked), fun _ => same⟩,
        fun next inside => not_lower_harmonic same (behind next inside)⟩
    · -- the harmonic one was out of reach, so this is the lowest
      have far : (trcs.trcAt found).u * (12 / 10) ≤ (trcs.trcAt trc).u := by
        by_contra near
        exact passed (Or.inr ⟨not_le.mp near, by simpa using same, harmonic⟩)
      refine ⟨low_of_lowest nonneg fun other linked => ?_, fun next inside => ?_⟩
      · have near := close other linked
        linarith
      · refine not_lower_outside (behind next inside) fun _ => ?_
        have higher := above next inside
        linarith
  · refine ⟨low_of_lowest nonneg fun other linked => below.trans (lowest other linked),
      fun next inside => not_lower_outside (behind next inside) fun other => ?_⟩
    have far := outside next inside other
    linarith

include nonneg in
theorem undisturbed_low {trc : Nat} {before after : List Nat}
    (split : trcs.rHead = before ++ trc :: after) (undisturbed : Undisturbed trcs trc after) :
    LowLoaded trcs trc ∧ ∀ next ∈ after, ¬ lower exact trcs (some trc) next := by
  have behind := undisturbed_behind split undisturbed
  rcases undisturbed with ⟨harmonic, close, -⟩ | ⟨lowest, outside⟩
  · exact ⟨fun other linked => ⟨close other linked, fun _ => harmonic⟩,
      fun next inside => not_lower_harmonic harmonic (behind next inside)⟩
  · exact ⟨low_of_lowest nonneg lowest,
      fun next inside => not_lower_outside (behind next inside) (outside next inside)⟩

include nonneg free in
/-- The tracer found has a low load exactly when some tracer of the list is
undisturbed by what is behind it. -/
theorem grep_tracer_low_iff :
    (∃ found, grepTracer exact trcs = some found ∧ LowLoaded trcs found) ↔
      ∃ before trc after, trcs.rHead = before ++ trc :: after ∧ Undisturbed trcs trc after := by
  refine ⟨undisturbed_of_low, ?_⟩
  rintro ⟨before, trc, after, split, undisturbed⟩
  have settled : ∃ found, take (lower exact trcs) (keep (lower exact trcs) none before) trc = some found ∧
      LowLoaded trcs found ∧ ∀ next ∈ after, ¬ lower exact trcs (some found) next := by
    by_cases taken : lower exact trcs (keep (lower exact trcs) none before) trc
    · exact ⟨trc, if_pos taken, undisturbed_low nonneg split undisturbed⟩
    · cases kept : keep (lower exact trcs) none before with
      | none =>
          rw [kept] at taken
          exact absurd (undisturbed_free free split undisturbed kept) taken
      | some found =>
          rw [kept] at taken
          exact ⟨found, if_neg taken, undisturbed_passed nonneg split undisturbed taken⟩
  obtain ⟨found, kept, low, stays⟩ := settled
  refine ⟨found, ?_, low⟩
  rw [grep_tracer_keeps, split, keep_at, kept, keep_stays stays]

end Search

def loaded (u : ℚ) (hrmc : Bool) : ResTracer := { u := u, hrmc := hrmc }

/-- Every other tracer is harmonic, and each pair climbs by up to a fifth. -/
def climbing (cpus : List Nat) : Tracers where
  rHead := cpus
  trcAt := fun
    | 0 => loaded (50 / 100) false
    | 1 => loaded (59 / 100) true
    | 2 => loaded (58 / 100) false
    | _ => loaded (69 / 100) true

theorem grep_tracer_low_climbing :
    ∃ found, grepTracer exact (climbing [0, 1]) = some found ∧ LowLoaded (climbing [0, 1]) found :=
  (grep_tracer_low_iff (by decide +kernel) (by decide +kernel)).mpr
    ⟨[0], 1, [], rfl, Or.inl ⟨rfl, by decide +kernel, by decide⟩⟩

-- 0.59 is within a fifth of 0.50, 0.58 is below 0.59 and 0.69 within a fifth of it.
theorem climbing_is_not_low :
    (∀ trc ∈ (climbing [0, 1, 2, 3]).rHead, 0 ≤ ((climbing [0, 1, 2, 3]).trcAt trc).u) ∧
      (∃ trc ∈ (climbing [0, 1, 2, 3]).rHead, ((climbing [0, 1, 2, 3]).trcAt trc).u < 1) ∧
        ¬ ∃ found, grepTracer exact (climbing [0, 1, 2, 3]) = some found ∧
          LowLoaded (climbing [0, 1, 2, 3]) found := by
  refine ⟨by decide +kernel, by decide +kernel, ?_⟩
  rintro ⟨found, result, low⟩
  have last : grepTracer exact (climbing [0, 1, 2, 3]) = some 3 := by decide +kernel
  rw [last] at result
  cases result
  have close := (low 0 (by decide)).1
  revert close
  decide +kernel

end Orchestrator.LowLoad
