import Mathlib.Data.List.Induction
import Mathlib.Data.List.Perm.Basic
import Mathlib.Tactic.Linarith

/-!
`qsortll` of `orchdata.c` on the sequence of list elements. Every sublist it
sorts is terminated by `NULL` at its end element, so head and end pointer
together are the sublist.
-/

namespace Orchestrator.Qsortll
variable {α : Type}

/-- `qsortll_partition`: elements that compare below the pivot stay in front of
it, all others are moved behind the tail one by one. -/
def qsortllPartition (compar : α → α → Int) (pivot : α) : List α → List α × List α
  | [] => ([], [])
  | cur :: rest =>
      let parts := qsortllPartition compar pivot rest
      if compar cur pivot < 0 then (cur :: parts.1, parts.2) else (parts.1, cur :: parts.2)

/-- `qsortll_recur`; `fuel` bounds the depth by the length of the list. -/
def qsortllRecur (compar : α → α → Int) : Nat → List α → List α
  | 0, list => list
  | _ + 1, [] => []
  | _ + 1, [single] => [single]
  | fuel + 1, head :: next :: rest =>
      let pivot := (next :: rest).getLast (by simp)
      let parts := qsortllPartition compar pivot (head :: (next :: rest).dropLast)
      qsortllRecur compar fuel parts.1 ++ pivot :: qsortllRecur compar fuel parts.2

def qsortll (compar : α → α → Int) (list : List α) : List α :=
  qsortllRecur compar list.length list

theorem recur_nil (compar : α → α → Int) (fuel : Nat) : qsortllRecur compar fuel [] = [] := by
  cases fuel <;> rfl

/-- The last element goes between what the sorts of both sides leave. -/
theorem recur_append (compar : α → α → Int) (fuel : Nat) (init : List α) (pivot : α) :
    qsortllRecur compar (fuel + 1) (init ++ [pivot]) =
      qsortllRecur compar fuel (qsortllPartition compar pivot init).1 ++
        pivot :: qsortllRecur compar fuel (qsortllPartition compar pivot init).2 := by
  cases init with
  | nil => simp [qsortllRecur, qsortllPartition, recur_nil]
  | cons head rest =>
      cases rest with
      | nil => simp [qsortllRecur]
      | cons second more =>
          have front : (second :: (more ++ [pivot])).dropLast = second :: more := by
            rw [← List.cons_append, List.dropLast_concat]
          simp [qsortllRecur, front]

theorem partition_perm (compar : α → α → Int) (pivot : α) (list : List α) :
    ((qsortllPartition compar pivot list).1 ++ (qsortllPartition compar pivot list).2).Perm list := by
  induction list with
  | nil => exact List.Perm.nil
  | cons cur rest ih =>
      simp only [qsortllPartition]
      split_ifs with below
      · exact ih.cons cur
      · exact List.perm_middle.trans (ih.cons cur)

theorem partition_below (compar : α → α → Int) (pivot : α) (list : List α) :
    ∀ cur ∈ (qsortllPartition compar pivot list).1, compar cur pivot < 0 := by
  induction list with
  | nil => simp [qsortllPartition]
  | cons cur rest ih =>
      simp only [qsortllPartition]
      split_ifs with below
      · intro other member
        rcases List.mem_cons.mp member with same | later
        · subst same; exact below
        · exact ih other later
      · exact ih

theorem partition_above (compar : α → α → Int) (pivot : α) (list : List α) :
    ∀ cur ∈ (qsortllPartition compar pivot list).2, ¬ compar cur pivot < 0 := by
  induction list with
  | nil => simp [qsortllPartition]
  | cons cur rest ih =>
      simp only [qsortllPartition]
      split_ifs with below
      · exact ih
      · intro other member
        rcases List.mem_cons.mp member with same | later
        · subst same; exact below
        · exact ih other later

theorem partition_lengths (compar : α → α → Int) (pivot : α) (list : List α) :
    (qsortllPartition compar pivot list).1.length +
      (qsortllPartition compar pivot list).2.length = list.length := by
  simpa using (partition_perm compar pivot list).length_eq

/-- A depth of the length of the list is as good as any larger one. -/
theorem recur_enough (compar : α → α → Int) (fuel : Nat) {list : List α}
    (enough : list.length ≤ fuel) : qsortllRecur compar fuel list = qsortll compar list := by
  induction fuel using Nat.strong_induction_on generalizing list with
  | _ fuel ih =>
      cases list using List.reverseRecOn with
      | nil => rw [recur_nil, qsortll, recur_nil]
      | append_singleton init pivot =>
          have parts := partition_lengths compar pivot init
          rw [List.length_append, List.length_singleton] at enough
          obtain ⟨depth, rfl⟩ : ∃ depth, fuel = depth + 1 := ⟨fuel - 1, by omega⟩
          rw [qsortll, List.length_append, List.length_singleton, recur_append, recur_append]
          rw [ih depth (by omega) (by omega), ih depth (by omega) (by omega)]
          by_cases deeper : init.length < depth + 1
          · rw [ih init.length deeper (by omega), ih init.length deeper (by omega)]
          · omega

theorem recur_perm (compar : α → α → Int) (fuel : Nat) (list : List α) :
    (qsortllRecur compar fuel list).Perm list := by
  induction fuel generalizing list with
  | zero => exact List.Perm.refl list
  | succ fuel ih =>
      match list with
      | [] => exact List.Perm.nil
      | [single] => exact List.Perm.refl _
      | head :: next :: rest =>
          have parts := partition_perm compar ((next :: rest).getLast (by simp))
            (head :: (next :: rest).dropLast)
          have whole : (next :: rest).dropLast ++ [(next :: rest).getLast (by simp)] = next :: rest :=
            List.dropLast_append_getLast (by simp)
          simp only [qsortllRecur]
          refine List.perm_middle.trans (((ih _).append (ih _)).cons _ |>.trans ?_)
          refine (parts.cons _).trans ?_
          exact (List.perm_append_singleton _ _).symm.trans (by rw [List.cons_append, whole])

theorem qsortll_perm (compar : α → α → Int) (list : List α) : (qsortll compar list).Perm list :=
  recur_perm compar list.length list

-- Each level places its pivot, so a depth of the list's length is enough.
theorem recur_pairwise (compar : α → α → Int) (before : α → α → Prop) (fuel : Nat) (list : List α)
    (enough : list.length ≤ fuel)
    (trans : ∀ a ∈ list, ∀ b ∈ list, ∀ c ∈ list, before a b → before b c → before a c)
    (below : ∀ a ∈ list, ∀ b ∈ list, compar a b < 0 → before a b)
    (above : ∀ a ∈ list, ∀ b ∈ list, ¬ compar a b < 0 → before b a) :
    (qsortllRecur compar fuel list).Pairwise before := by
  induction fuel generalizing list with
  | zero =>
      have empty : list = [] := List.length_eq_zero_iff.mp (Nat.le_zero.mp enough)
      subst empty
      exact List.Pairwise.nil
  | succ fuel ih =>
      cases list using List.reverseRecOn with
      | nil => exact List.Pairwise.nil
      | append_singleton init pivot =>
          have lengths := partition_lengths compar pivot init
          rw [List.length_append, List.length_singleton] at enough
          have leftPerm := recur_perm compar fuel (qsortllPartition compar pivot init).1
          have rightPerm := recur_perm compar fuel (qsortllPartition compar pivot init).2
          have inInit : ∀ a, a ∈ (qsortllPartition compar pivot init).1 ∨
              a ∈ (qsortllPartition compar pivot init).2 → a ∈ init ++ [pivot] := fun a side =>
            List.mem_append_left _
              ((partition_perm compar pivot init).mem_iff.mp (List.mem_append.mpr side))
          have last : pivot ∈ init ++ [pivot] := by simp
          have leftOf : ∀ a ∈ (qsortllPartition compar pivot init).1, before a pivot := fun a member =>
            below a (inInit a (Or.inl member)) pivot last (partition_below compar pivot init a member)
          have rightOf : ∀ b ∈ (qsortllPartition compar pivot init).2, before pivot b := fun b member =>
            above b (inInit b (Or.inr member)) pivot last (partition_above compar pivot init b member)
          have sorted : ∀ part : List α, (∀ a ∈ part, a ∈ init ++ [pivot]) → part.length ≤ fuel →
              (qsortllRecur compar fuel part).Pairwise before := fun part inside short =>
            ih part short
              (fun a ha b hb c hc => trans a (inside a ha) b (inside b hb) c (inside c hc))
              (fun a ha b hb => below a (inside a ha) b (inside b hb))
              (fun a ha b hb => above a (inside a ha) b (inside b hb))
          rw [recur_append]
          refine List.pairwise_append.mpr
            ⟨sorted _ (fun a member => inInit a (Or.inl member)) (by omega), ?_, ?_⟩
          · refine List.pairwise_cons.mpr ⟨fun b member => rightOf b (rightPerm.mem_iff.mp member), ?_⟩
            exact sorted _ (fun a member => inInit a (Or.inr member)) (by omega)
          · intro a first b second
            have front := leftPerm.mem_iff.mp first
            rcases List.mem_cons.mp second with rfl | later
            · exact leftOf a front
            · have behind := rightPerm.mem_iff.mp later
              exact trans a (inInit a (Or.inl front)) pivot last b (inInit b (Or.inr behind))
                (leftOf a front) (rightOf b behind)

theorem qsortll_pairwise (compar : α → α → Int) (before : α → α → Prop)
    (trans : ∀ a b c, before a b → before b c → before a c)
    (below : ∀ a b, compar a b < 0 → before a b)
    (above : ∀ a b, ¬ compar a b < 0 → before b a) (list : List α) :
    (qsortll compar list).Pairwise before :=
  recur_pairwise compar before list.length list le_rfl (fun a _ b _ c _ => trans a b c)
    (fun a _ b _ => below a b) (fun a _ b _ => above a b)

/-- The last element comes before all that do not compare below it. -/
theorem qsortll_behind_last (compar : α → α → Int) {init : List α} {pivot b : α} (inside : b ∈ init)
    (above : ¬ compar b pivot < 0) {rel : α → α → Prop}
    (sorted : (qsortll compar (init ++ [pivot])).Pairwise rel) : rel pivot b := by
  have rightPerm := recur_perm compar init.length (qsortllPartition compar pivot init).2
  have behind : b ∈ (qsortllPartition compar pivot init).2 := by
    have parts := (partition_perm compar pivot init).mem_iff.mpr inside
    rcases List.mem_append.mp parts with left | right
    · exact absurd (partition_below compar pivot init b left) above
    · exact right
  rw [qsortll, List.length_append, List.length_singleton, recur_append] at sorted
  have order := (List.pairwise_append.mp sorted).2.1
  exact (List.pairwise_cons.mp order).1 b (rightPerm.mem_iff.mpr behind)

/-- Of two elements the second can end up behind the first in some order of the list. -/
theorem exists_order_behind (compar : α → α → Int) {list : List α} {a b : α} (first : a ∈ list)
    (second : b ∈ list) (apart : a ≠ b) (above : ¬ compar b a < 0) {rel : α → α → Prop}
    (sorted : ∀ order, order.Perm list → (qsortll compar order).Pairwise rel) : rel a b := by
  obtain ⟨front, rest, rfl⟩ := List.append_of_mem first
  have others : b ∈ front ++ rest := by
    rcases List.mem_append.mp second with early | late
    · exact List.mem_append_left _ early
    · rcases List.mem_cons.mp late with same | behind
      · exact absurd same.symm apart
      · exact List.mem_append_right _ behind
  have moved : (front ++ rest ++ [a]).Perm (front ++ a :: rest) :=
    (List.perm_append_singleton a (front ++ rest)).trans List.perm_middle.symm
  exact qsortll_behind_last compar others above (sorted _ moved)

end Orchestrator.Qsortll
