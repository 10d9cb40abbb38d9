import Mathlib.Data.List.Basic
import Mathlib.Logic.Function.Basic

/-!
Singly linked lists in a heap of `next` pointers. A list of nodes is linked when
every node points at the one after it, and the last one at a given pointer.
-/

namespace Orchestrator.Chain
variable {Ptr : Type}

/-- The head of such a list is the first of the nodes. -/
def Linked (next : Ptr → Option Ptr) : List Ptr → Option Ptr → Prop
  | [], _ => True
  | node :: rest, stop => next node = rest.head?.or stop ∧ Linked next rest stop

section Reading
variable {next : Ptr → Option Ptr}

theorem linked_append (left right : List Ptr) (stop : Option Ptr) :
    Linked next (left ++ right) stop ↔
      Linked next left (right.head?.or stop) ∧ Linked next right stop := by
  induction left with
  | nil => simp [Linked]
  | cons node rest ih =>
      simp only [List.cons_append, Linked, ih, List.head?_append, Option.or_assoc, and_assoc]

/-- The nodes up to the `NULL` are determined by the head. -/
theorem linked_unique {nodes others : List Ptr} (first : Linked next nodes none)
    (second : Linked next others none) (same : nodes.head? = others.head?) : nodes = others := by
  induction nodes generalizing others with
  | nil =>
      cases others with
      | nil => rfl
      | cons other more => cases same
  | cons node rest ih =>
      cases others with
      | nil => cases same
      | cons other more =>
          obtain rfl : node = other := by simpa using same
          have heads : rest.head? = more.head? := by
            have both := first.1.symm.trans second.1
            simpa using both
          rw [ih first.2 second.2 heads]

/-- A list that ends has every node once. -/
theorem linked_nodup {nodes : List Ptr} (linked : Linked next nodes none) : nodes.Nodup := by
  induction nodes with
  | nil => exact List.nodup_nil
  | cons node rest ih =>
      refine List.nodup_cons.mpr ⟨fun again => ?_, ih linked.2⟩
      obtain ⟨front, back, split⟩ := List.append_of_mem again
      have tail : Linked next (node :: back) none := by
        have behind := linked.2
        rw [split, linked_append] at behind
        exact behind.2
      have short := congrArg List.length (linked_unique linked tail rfl)
      rw [split] at short
      simp only [List.length_cons, List.length_append] at short
      omega

theorem linked_congr {other : Ptr → Option Ptr} {nodes : List Ptr}
    (agree : ∀ node ∈ nodes, other node = next node) {stop : Option Ptr}
    (linked : Linked next nodes stop) : Linked other nodes stop := by
  induction nodes with
  | nil => trivial
  | cons node rest ih =>
      exact ⟨(agree node (by simp)).trans linked.1,
        ih (fun later member => agree later (by simp [member])) linked.2⟩

end Reading

section Writing
variable [DecidableEq Ptr] {next : Ptr → Option Ptr}

theorem linked_update {nodes : List Ptr} {other : Ptr} (outside : other ∉ nodes)
    (value : Option Ptr) {stop : Option Ptr} (linked : Linked next nodes stop) :
    Linked (Function.update next other value) nodes stop := by
  refine linked_congr (fun node member => ?_) linked
  have apart : node ≠ other := by
    rintro rfl
    exact outside member
  exact Function.update_of_ne apart value next

/-- The last node points somewhere else. -/
theorem linked_relink {front : List Ptr} {last : Ptr} (outside : last ∉ front)
    (value : Option Ptr) {stop : Option Ptr} (linked : Linked next (front ++ [last]) stop) :
    Linked (Function.update next last value) (front ++ [last]) value := by
  rw [linked_append] at linked ⊢
  exact ⟨linked_update outside value linked.1, by rw [Function.update_self]; rfl, trivial⟩

end Writing

end Orchestrator.Chain
