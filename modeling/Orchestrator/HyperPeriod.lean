import Mathlib.Algebra.BigOperators.Group.List.Basic
import Mathlib.Algebra.Field.Rat
import Mathlib.Algebra.Order.BigOperators.Group.List
import Mathlib.Algebra.Order.Ring.Rat
import Mathlib.Algebra.GCDMonoid.Nat
import Mathlib.Data.List.Induction
import Mathlib.Data.Nat.Cast.Field
import Mathlib.Tactic.FieldSimp
import Mathlib.Tactic.Linarith
import Mathlib.Tactic.Ring

/-!
Exact accounting of periodic demands over a common period. A ledger keeps the
least common multiple of the periods seen and the time used in one such span;
both are naturals, and their quotient is the sum of the shares.
-/

namespace Orchestrator.HyperPeriod

structure Demand where
  runtime : ℕ
  period : ℕ
  positive : 0 < period

def Demand.share (d : Demand) : ℚ := d.runtime / d.period

def load (ds : List Demand) : ℚ := (ds.map Demand.share).sum

def hyper : List Demand → ℕ
  | [] => 1
  | d :: ds => Nat.lcm d.period (hyper ds)

/-- Time used by all demands in one span of length `hyper`. -/
def work (ds : List Demand) : ℕ := (ds.map fun d => d.runtime * (hyper ds / d.period)).sum

/-- An unused ledger has no base period yet. -/
structure Ledger where
  used : ℕ
  base : ℕ
  idle : base = 0 → used = 0

def Ledger.empty : Ledger := ⟨0, 0, fun _ => rfl⟩

def span (base period : ℕ) : ℕ := if base = 0 then period else Nat.lcm base period

theorem span_pos (base : ℕ) (d : Demand) : 0 < span base d.period := by
  unfold span
  split_ifs with h
  · exact d.positive
  · exact Nat.lcm_pos (Nat.pos_of_ne_zero h) d.positive

theorem base_dvd_span (base period : ℕ) (h : base ≠ 0) : base ∣ span base period := by
  rw [span, if_neg h]
  exact Nat.dvd_lcm_left base period

theorem period_dvd_span (base period : ℕ) : period ∣ span base period := by
  unfold span
  split_ifs with h
  · exact dvd_rfl
  · exact Nat.dvd_lcm_right base period

def Ledger.add (l : Ledger) (d : Demand) : Ledger where
  used := (if l.base = 0 then l.used else l.used * span l.base d.period / l.base) +
    d.runtime * span l.base d.period / d.period
  base := span l.base d.period
  idle := fun h => absurd h (span_pos l.base d).ne'

def Ledger.ratio (l : Ledger) : ℚ := l.used / l.base

-- Both quotients of `add` are exact: the new span is a multiple of either divisor.
theorem ratio_add (l : Ledger) (d : Demand) : (l.add d).ratio = l.ratio + d.share := by
  have spanPos : (span l.base d.period : ℚ) ≠ 0 := by exact_mod_cast (span_pos l.base d).ne'
  have periodPos : (d.period : ℚ) ≠ 0 := by exact_mod_cast d.positive.ne'
  have charged : ((d.runtime * span l.base d.period / d.period : ℕ) : ℚ) =
      d.runtime * span l.base d.period / d.period := by
    rw [Nat.cast_div (Dvd.dvd.mul_left (period_dvd_span l.base d.period) _) periodPos]
    push_cast
    rfl
  by_cases h : l.base = 0
  · have unused := l.idle h
    simp only [Ledger.ratio, Ledger.add, h, unused, ↓reduceIte, Demand.share]
    rw [h] at charged spanPos
    push_cast [charged]
    field_simp
    ring
  · have basePos : (l.base : ℚ) ≠ 0 := by exact_mod_cast h
    have scaled : ((l.used * span l.base d.period / l.base : ℕ) : ℚ) =
        l.used * span l.base d.period / l.base := by
      rw [Nat.cast_div (Dvd.dvd.mul_left (base_dvd_span l.base d.period h) _) basePos]
      push_cast
      rfl
    simp only [Ledger.ratio, Ledger.add, h, ↓reduceIte, Demand.share]
    push_cast [charged, scaled]
    field_simp

theorem span_right_comm (base : ℕ) (d e : Demand) :
    span (span base d.period) e.period = span (span base e.period) d.period := by
  have first := d.positive.ne'
  have second := e.positive.ne'
  by_cases idle : base = 0
  · simp [span, idle, first, second, Nat.lcm_comm]
  · simp only [span, idle, ↓reduceIte, Nat.lcm_ne_zero idle first, Nat.lcm_ne_zero idle second,
      Nat.lcm_assoc, Nat.lcm_comm d.period]

theorem ledger_eq {l m : Ledger} (base : l.base = m.base) (ratio : l.ratio = m.ratio) : l = m := by
  have used : l.used = m.used := by
    by_cases idle : l.base = 0
    · rw [l.idle idle, m.idle (base ▸ idle)]
    · have positive : (l.base : ℚ) ≠ 0 := by exact_mod_cast idle
      rw [Ledger.ratio, Ledger.ratio, ← base, div_left_inj' positive] at ratio
      exact_mod_cast ratio
  cases l
  cases m
  cases base
  cases used
  rfl

/-- Two demands may be added in either order, whatever the ledger holds. -/
theorem add_right_comm (l : Ledger) (d e : Demand) : (l.add d).add e = (l.add e).add d := by
  refine ledger_eq (span_right_comm l.base d e) ?_
  rw [ratio_add, ratio_add, ratio_add, ratio_add]
  ring

/-- What is used goes up by some percent, cut off; the span stays. -/
def Ledger.raise (l : Ledger) (percent : ℕ) : Ledger where
  used := l.used + l.used * percent / 100
  base := l.base
  idle := fun unused => by simp [l.idle unused]

def post (ds : List Demand) : Ledger := ds.foldl Ledger.add Ledger.empty

theorem post_append (ds : List Demand) (d : Demand) : post (ds ++ [d]) = (post ds).add d := by
  simp [post]

theorem load_append (ds : List Demand) (d : Demand) : load (ds ++ [d]) = load ds + d.share := by
  simp [load]

theorem ratio_post (ds : List Demand) : (post ds).ratio = load ds := by
  induction ds using List.reverseRecOn with
  | nil => simp [post, Ledger.empty, Ledger.ratio, load]
  | append_singleton ds d ih => rw [post_append, ratio_add, ih, load_append]

theorem hyper_pos (ds : List Demand) : 0 < hyper ds := by
  induction ds with
  | nil => exact Nat.one_pos
  | cons d ds ih => exact Nat.lcm_pos d.positive ih

theorem hyper_append (ds : List Demand) (d : Demand) :
    hyper (ds ++ [d]) = Nat.lcm (hyper ds) d.period := by
  induction ds with
  | nil => simp [hyper]
  | cons e ds ih => simp only [List.cons_append, hyper, ih, Nat.lcm_assoc]

theorem base_post (ds : List Demand) (nonempty : ds ≠ []) : (post ds).base = hyper ds := by
  induction ds using List.reverseRecOn with
  | nil => exact absurd rfl nonempty
  | append_singleton ds d ih =>
      rw [post_append, hyper_append]
      by_cases empty : ds = []
      · subst empty
        simp [post, Ledger.empty, Ledger.add, span, hyper]
      · have kept := ih empty
        have positive := hyper_pos ds
        simp only [Ledger.add, span, kept, positive.ne', ↓reduceIte]

theorem period_dvd_hyper (ds : List Demand) (d : Demand) (member : d ∈ ds) :
    d.period ∣ hyper ds := by
  induction ds with
  | nil => cases member
  | cons e ds ih =>
      rcases List.mem_cons.mp member with same | later
      · subst same
        exact Nat.dvd_lcm_left _ _
      · exact (ih later).trans (Nat.dvd_lcm_right _ _)

theorem hyper_perm {left right : List Demand} (order : left.Perm right) :
    hyper left = hyper right := by
  induction order with
  | nil => rfl
  | cons d _ ih => simp only [hyper, ih]
  | swap d e ds => simp only [hyper, ← Nat.lcm_assoc, Nat.lcm_comm]
  | trans _ _ first second => exact first.trans second

theorem load_perm {left right : List Demand} (order : left.Perm right) : load left = load right :=
  (order.map Demand.share).sum_eq

/-- The used time is the load of one hyperperiod. -/
theorem used_post (ds : List Demand) : ((post ds).used : ℚ) = load ds * hyper ds := by
  by_cases empty : ds = []
  · subst empty
    simp [post, Ledger.empty, load]
  · have base := base_post ds empty
    have positive : (hyper ds : ℚ) ≠ 0 := by exact_mod_cast (hyper_pos ds).ne'
    rw [← ratio_post, Ledger.ratio, base]
    field_simp

theorem work_eq (ds : List Demand) : (work ds : ℚ) = load ds * hyper ds := by
  have each : ∀ part ⊆ ds, ((part.map fun d => d.runtime * (hyper ds / d.period)).sum : ℕ) =
      load part * (hyper ds : ℚ) := by
    intro part inside
    induction part with
    | nil => simp [load]
    | cons d part ih =>
        have divides := period_dvd_hyper ds d (inside List.mem_cons_self)
        have periodPos : (d.period : ℚ) ≠ 0 := by exact_mod_cast d.positive.ne'
        have tail := ih fun e member => inside (List.mem_cons_of_mem d member)
        simp only [List.map_cons, List.sum_cons, Nat.cast_add, Nat.cast_mul, tail, load, Demand.share]
        rw [Nat.cast_div divides periodPos]
        ring
  exact each ds (List.Subset.refl ds)

theorem used_post_work (ds : List Demand) : (post ds).used = work ds := by
  have same : ((post ds).used : ℚ) = work ds := (used_post ds).trans (work_eq ds).symm
  exact_mod_cast same

theorem share_nonneg (d : Demand) : 0 ≤ d.share :=
  div_nonneg (Nat.cast_nonneg _) (Nat.cast_nonneg _)

theorem load_nonneg (ds : List Demand) : 0 ≤ load ds :=
  List.sum_nonneg fun share member => by
    obtain ⟨d, _, rfl⟩ := List.mem_map.mp member
    exact share_nonneg d

theorem share_le_load (ds : List Demand) (d : Demand) (member : d ∈ ds) : d.share ≤ load ds :=
  List.single_le_sum (fun share inside => by
    obtain ⟨e, _, rfl⟩ := List.mem_map.mp inside
    exact share_nonneg e) _ (List.mem_map_of_mem member)

theorem load_le_append (left right : List Demand) : load left ≤ load (left ++ right) := by
  have more := load_nonneg right
  simp only [load, List.map_append, List.sum_append] at more ⊢
  linarith

theorem hyper_dvd_append (left right : List Demand) : hyper left ∣ hyper (left ++ right) := by
  induction left with
  | nil => exact one_dvd _
  | cons d left ih =>
      exact Nat.lcm_dvd (Nat.dvd_lcm_left _ _) (ih.trans (Nat.dvd_lcm_right _ _))

theorem hyper_le_append (left right : List Demand) : hyper left ≤ hyper (left ++ right) :=
  Nat.le_of_dvd (hyper_pos _) (hyper_dvd_append left right)

theorem work_le_append (left right : List Demand) : work left ≤ work (left ++ right) := by
  have spans : (hyper left : ℚ) ≤ hyper (left ++ right) := by exact_mod_cast hyper_le_append left right
  have grows : (work left : ℚ) ≤ work (left ++ right) := by
    rw [work_eq, work_eq]
    exact mul_le_mul (load_le_append left right) spans (Nat.cast_nonneg _) (load_nonneg _)
  exact_mod_cast grows

/-- A CPU that is not overloaded is used for at most its hyperperiod. -/
theorem work_le_hyper (ds : List Demand) (light : load ds ≤ 1) : work ds ≤ hyper ds := by
  have bound : (work ds : ℚ) ≤ hyper ds := by
    rw [work_eq]
    exact mul_le_of_le_one_left (Nat.cast_nonneg _) light
  exact_mod_cast bound

theorem runtime_le_work (ds : List Demand) (d : Demand) (member : d ∈ ds) : d.runtime ≤ work ds := by
  have positive : (0 : ℚ) < d.period := by exact_mod_cast d.positive
  have period : (d.period : ℚ) ≤ hyper ds := by
    exact_mod_cast Nat.le_of_dvd (hyper_pos ds) (period_dvd_hyper ds d member)
  have bound : (d.runtime : ℚ) ≤ work ds := by
    calc (d.runtime : ℚ) = d.share * d.period := (div_mul_cancel₀ _ positive.ne').symm
      _ ≤ load ds * hyper ds :=
        mul_le_mul (share_le_load ds d member) period positive.le (load_nonneg ds)
      _ = work ds := (work_eq ds).symm
  exact_mod_cast bound

/-- A hyperperiod is used at least once in each period of a task. -/
theorem hyper_le_work (ds : List Demand) (d : Demand) (member : d ∈ ds) (busy : 0 < d.runtime) :
    hyper ds ≤ work ds * d.period := by
  have positive : (0 : ℚ) < d.period := by exact_mod_cast d.positive
  have runtime : (1 : ℚ) ≤ d.runtime := by exact_mod_cast busy
  have bound : (hyper ds : ℚ) ≤ work ds * d.period := by
    calc (hyper ds : ℚ) ≤ d.runtime * hyper ds := le_mul_of_one_le_left (Nat.cast_nonneg _) runtime
      _ = d.share * hyper ds * d.period := by
        rw [Demand.share]
        field_simp
      _ ≤ load ds * hyper ds * d.period := by
        have share := share_le_load ds d member
        gcongr
      _ = work ds * d.period := by rw [work_eq]
  exact_mod_cast bound

/-- Each element of the first list stands in the second one once or twice. -/
inductive Repeats {α : Type} : List α → List α → Prop
  | nil : Repeats [] []
  | once {x : α} {xs ys : List α} (tail : Repeats xs ys) : Repeats (x :: xs) (x :: ys)
  | twice {x : α} {xs ys : List α} (tail : Repeats xs ys) : Repeats (x :: xs) (x :: x :: ys)

section Repeats
variable {α β : Type} {xs ys : List α} {ds es : List Demand}

theorem Repeats.refl : ∀ xs : List α, Repeats xs xs
  | [] => .nil
  | _ :: xs => .once (Repeats.refl xs)

theorem Repeats.twice_at (x : α) (after : List α) :
    ∀ before : List α, Repeats (before ++ x :: after) (before ++ x :: x :: after)
  | [] => .twice (.refl after)
  | _ :: before => .once (Repeats.twice_at x after before)

theorem Repeats.length_le (repeated : Repeats xs ys) : xs.length ≤ ys.length := by
  induction repeated with
  | nil => exact le_rfl
  | once tail ih => simpa using ih
  | twice tail ih => simp only [List.length_cons]; omega

theorem Repeats.mem_iff (repeated : Repeats xs ys) {x : α} : x ∈ ys ↔ x ∈ xs := by
  induction repeated with
  | nil => rfl
  | once tail ih => simp [ih]
  | twice tail ih => simp [ih]

theorem Repeats.map (repeated : Repeats xs ys) (f : α → β) : Repeats (xs.map f) (ys.map f) := by
  induction repeated with
  | nil => exact .nil
  | once tail ih => exact .once ih
  | twice tail ih => exact .twice ih

theorem Repeats.hyper_eq (repeated : Repeats ds es) : hyper es = hyper ds := by
  induction repeated with
  | nil => rfl
  | once tail ih => simp only [hyper, ih]
  | twice tail ih => simp only [hyper, ih, ← Nat.lcm_assoc, Nat.lcm_self]

theorem Repeats.load_le (repeated : Repeats ds es) (shares : ∀ d ∈ ds, 0 < d.share) :
    load ds ≤ load es := by
  induction repeated with
  | nil => exact le_rfl
  | once tail ih =>
      have rest := ih fun d member => shares d (List.mem_cons_of_mem _ member)
      simp only [load, List.map_cons, List.sum_cons] at rest ⊢
      linarith
  | twice tail ih =>
      have rest := ih fun d member => shares d (List.mem_cons_of_mem _ member)
      have more := shares _ List.mem_cons_self
      simp only [load, List.map_cons, List.sum_cons] at rest ⊢
      linarith

/-- A repetition adds a share. -/
theorem Repeats.load_lt (repeated : Repeats ds es) (longer : ds.length < es.length)
    (shares : ∀ d ∈ ds, 0 < d.share) : load ds < load es := by
  induction repeated with
  | nil => exact absurd longer (lt_irrefl _)
  | once tail ih =>
      have rest := ih (Nat.lt_of_succ_lt_succ longer)
        fun d member => shares d (List.mem_cons_of_mem _ member)
      simp only [load, List.map_cons, List.sum_cons] at rest ⊢
      linarith
  | twice tail ih =>
      have rest := tail.load_le fun d member => shares d (List.mem_cons_of_mem _ member)
      have more := shares _ List.mem_cons_self
      simp only [load, List.map_cons, List.sum_cons] at rest ⊢
      linarith

end Repeats

/-- Neither total depends on the order of the additions. -/
theorem post_perm {left right : List Demand} (order : left.Perm right) :
    (post left).used = (post right).used ∧ (post left).base = (post right).base := by
  constructor
  · have same : ((post left).used : ℚ) = (post right).used := by
      rw [used_post, used_post, load_perm order, hyper_perm order]
    exact_mod_cast same
  · by_cases empty : left = []
    · subst empty
      rw [List.nil_perm.mp order]
    · have other : right ≠ [] := fun h => empty (by subst h; exact List.perm_nil.mp order)
      rw [base_post left empty, base_post right other, hyper_perm order]

end Orchestrator.HyperPeriod
