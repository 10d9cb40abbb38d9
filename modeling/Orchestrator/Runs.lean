import Mathlib.Data.List.Basic

/-!
Maximal runs of a set of numbers, found by one scan from zero upwards. A run is
closed by the first number after it that is not in the set.
-/

namespace Orchestrator.Runs

/-- Runs as first and last number; the open one ends before the scan's position. -/
structure Scan where
  closed : List (Nat × Nat) := []
  opened : Option (Nat × Nat) := none

/-- One number further: it extends the open run, or closes it. -/
def Scan.bit (scan : Scan) (number : Nat) (member : Bool) : Scan :=
  if member then
    { scan with opened := some (scan.opened.elim (number, number) fun run => (run.1, run.2 + 1)) }
  else { closed := scan.closed ++ scan.opened.toList }

section Sets
variable (set : Nat → Bool)

def scan : Nat → Scan
  | 0 => {}
  | number + 1 => (scan number).bit number (set number)

/-- The number lies in one of the runs. -/
def Covers (runs : List (Nat × Nat)) (number : Nat) : Prop :=
  ∃ run ∈ runs, run.1 ≤ number ∧ number ≤ run.2

theorem covers_append (left right : List (Nat × Nat)) (number : Nat) :
    Covers (left ++ right) number ↔ Covers left number ∨ Covers right number := by
  simp only [Covers, List.mem_append, or_and_right, exists_or]

theorem covers_singleton (run : Nat × Nat) (number : Nat) :
    Covers [run] number ↔ run.1 ≤ number ∧ number ≤ run.2 := by
  simp [Covers]

variable {set}

theorem scan_member {number : Nat} (member : set number = true) :
    scan set (number + 1) = { scan set number with
      opened := some ((scan set number).opened.elim (number, number) fun run =>
        (run.1, run.2 + 1)) } := by
  rw [scan, Scan.bit, if_pos member]

theorem scan_gap {number : Nat} (gap : set number = false) :
    scan set (number + 1) =
      { closed := (scan set number).closed ++ (scan set number).opened.toList } := by
  rw [scan, Scan.bit, if_neg (by simp [gap])]

/-- A run is open exactly behind a number of the set. -/
theorem opened_iff (number : Nat) : (scan set (number + 1)).opened.isSome = set number := by
  cases member : set number with
  | false => rw [scan_gap member]; rfl
  | true => rw [scan_member member]; rfl

/-- The open run ends right before the position. -/
theorem opened_ends {bound : Nat} {run : Nat × Nat} (opened : (scan set bound).opened = some run) :
    run.1 ≤ run.2 ∧ run.2 + 1 = bound := by
  induction bound generalizing run with
  | zero => cases opened
  | succ number ih =>
      cases member : set number with
      | false =>
          rw [scan_gap member] at opened
          cases opened
      | true =>
          rw [scan_member member] at opened
          cases before : (scan set number).opened with
          | none =>
              simp only [before, Option.elim_none, Option.some.injEq] at opened
              subst opened
              exact ⟨Nat.le_refl number, rfl⟩
          | some first =>
              simp only [before, Option.elim_some, Option.some.injEq] at opened
              subst opened
              have ends := ih before
              exact ⟨by omega, by omega⟩

/-- Every closed run ends below the position. -/
theorem closed_ends {bound : Nat} {run : Nat × Nat} (member : run ∈ (scan set bound).closed) :
    run.1 ≤ run.2 ∧ run.2 < bound := by
  induction bound with
  | zero => cases member
  | succ number ih =>
      cases inside : set number with
      | true =>
          rw [scan_member inside] at member
          exact ⟨(ih member).1, Nat.lt_succ_of_lt (ih member).2⟩
      | false =>
          rw [scan_gap inside, List.mem_append] at member
          rcases member with earlier | last
          · exact ⟨(ih earlier).1, Nat.lt_succ_of_lt (ih earlier).2⟩
          · have ends := opened_ends (Option.mem_toList.mp last)
            exact ⟨ends.1, by omega⟩

/-- The runs are the numbers of the set below the position. -/
theorem scan_covers (bound number : Nat) :
    Covers ((scan set bound).closed ++ (scan set bound).opened.toList) number ↔
      number < bound ∧ set number = true := by
  induction bound with
  | zero => simp [scan, Covers]
  | succ last ih =>
      have step : number < last + 1 ∧ set number = true ↔
          (number < last ∧ set number = true) ∨ (number = last ∧ set last = true) := by
        constructor
        · intro ⟨below, member⟩
          by_cases this : number = last
          · exact .inr ⟨this, this ▸ member⟩
          · exact .inl ⟨by omega, member⟩
        · rintro (⟨below, member⟩ | ⟨rfl, member⟩)
          · exact ⟨by omega, member⟩
          · exact ⟨by omega, member⟩
      rw [step, ← ih]
      cases member : set last with
      | false =>
          rw [scan_gap member]
          simp
      | true =>
          rw [scan_member member]
          cases before : (scan set last).opened with
          | none =>
              simp only [Option.elim_none, Option.toList_some, Option.toList_none, covers_append,
                covers_singleton, List.append_nil, and_true]
              exact or_congr_right (by omega)
          | some run =>
              have ends := opened_ends before
              simp only [Option.elim_some, Option.toList_some, covers_append, covers_singleton,
                or_assoc, and_true]
              exact or_congr_right (by omega)

/-- The open run has more than one number exactly if the two before are in the set. -/
theorem opened_long {number : Nat} {run : Nat × Nat}
    (opened : (scan set (number + 2)).opened = some run) :
    run.1 ≠ run.2 ↔ set number = true := by
  have behind : (scan set (number + 1)).opened.isSome = set number := opened_iff number
  have member : set (number + 1) = true := by
    have last : (scan set (number + 2)).opened.isSome = set (number + 1) := opened_iff (number + 1)
    rw [← last, opened]
    rfl
  rw [scan_member member] at opened
  rw [← behind]
  cases before : (scan set (number + 1)).opened with
  | none =>
      simp only [before, Option.elim_none, Option.some.injEq] at opened
      subst opened
      simp
  | some first =>
      simp only [before, Option.elim_some, Option.some.injEq] at opened
      subst opened
      have ends := opened_ends before
      simp only [Option.isSome_some, iff_true]
      omega

/-- What a list shows that gives the end of closed runs only. -/
def Scan.listed (scan : Scan) : List (Nat × Nat) :=
  scan.closed ++ scan.opened.toList.map fun run => (run.1, run.1)

/-- The list shows the set exactly if the open run is a single number. -/
theorem listed_covers_iff (bound : Nat) :
    (∀ number, Covers (scan set bound).listed number ↔ number < bound ∧ set number = true) ↔
      ∀ run, (scan set bound).opened = some run → run.1 = run.2 := by
  simp only [← scan_covers, Scan.listed, covers_append]
  cases opened : (scan set bound).opened with
  | none => simp
  | some run =>
      have ends := opened_ends opened
      simp only [Option.toList_some, List.map_cons, List.map_nil, covers_singleton,
        Option.some.injEq, forall_eq']
      constructor
      · intro shows
        rcases (shows run.2).mpr (.inr ⟨ends.1, Nat.le_refl run.2⟩) with earlier | single
        · obtain ⟨last, rfl⟩ : ∃ last, bound = last + 1 := ⟨run.2, ends.2.symm⟩
          have member : set last = true := by
            have behind : (scan set (last + 1)).opened.isSome = set last := opened_iff last
            rw [← behind, opened]
            rfl
          obtain ⟨other, closed, inside⟩ := earlier
          rw [scan_member member] at closed
          have before := closed_ends closed
          omega
        · omega
      · intro single number
        rw [single]

end Sets

end Orchestrator.Runs
