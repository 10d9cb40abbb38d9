import Mathlib.Data.List.Pairwise
import Mathlib.Tactic.Common

/-!
Merge of a scan into a list of elements seen before, both in descending order of
a key. An element may be active or retired. Scanned keys end up active; what is
no longer scanned is retired or dropped.
-/

namespace Orchestrator.ListMerge
variable {α : Type} (key : α → Nat) (active : α → Bool) (retire : α → α) (keeps : Bool)

def Descending (list : List α) : Prop := list.Pairwise fun a b => key b < key a

/-- Merge of `old` and `scan`: `calls` lists the new elements with what became
of them. -/
inductive Merges : List α → List α → List (α × α) → List α → Prop
  | done : Merges [] [] [] []
  | insert {old scan new : List α} {calls : List (α × α)} {item after : α}
      (first : ∀ other ∈ old, key other < key item) (same : key after = key item)
      (starts : active after = true) (rest : Merges old scan calls new) :
      Merges old (item :: scan) ((item, after) :: calls) (after :: new)
  | replace {old scan new : List α} {calls : List (α × α)} {next item after : α}
      (equal : key next = key item) (retired : active next = false)
      (same : key after = key item) (starts : active after = true)
      (rest : Merges old scan calls new) :
      Merges (next :: old) (item :: scan) ((item, after) :: calls) (after :: new)
  | keep {old scan new : List α} {calls : List (α × α)} {next item : α}
      (equal : key next = key item) (stays : active next = true)
      (rest : Merges old scan calls new) : Merges (next :: old) (item :: scan) calls (next :: new)
  | retire {old scan new : List α} {calls : List (α × α)} {next : α}
      (first : ∀ other ∈ scan, key other < key next) (kept : keeps = true)
      (rest : Merges old scan calls new) : Merges (next :: old) scan calls (retire next :: new)
  | drop {old scan new : List α} {calls : List (α × α)} {next : α}
      (first : ∀ other ∈ scan, key other < key next) (dropped : keeps = false)
      (rest : Merges old scan calls new) : Merges (next :: old) scan calls new

/-- A retired element keeps its key. -/
structure Retires : Prop where
  key : ∀ item, key (retire item) = key item
  inactive : ∀ item, active (retire item) = false

section Results
variable {key active retire keeps} {old scan new : List α} {calls : List (α × α)}

theorem descending_tail {item : α} {list : List α} (sorted : Descending key (item :: list)) :
    Descending key list := (List.pairwise_cons.mp sorted).2

theorem below_head {item other : α} {list : List α} (sorted : Descending key (item :: list))
    (member : other ∈ list) : key other < key item := (List.pairwise_cons.mp sorted).1 other member

/-- Elements are told apart by their keys. -/
theorem descending_injective {list : List α} (sorted : Descending key list) {first second : α}
    (firstIn : first ∈ list) (secondIn : second ∈ list) (equal : key first = key second) :
    first = second := by
  induction list with
  | nil => cases firstIn
  | cons item rest ih =>
      rcases List.mem_cons.mp firstIn with rfl | firstLater
      · rcases List.mem_cons.mp secondIn with rfl | secondLater
        · rfl
        · exact absurd (below_head sorted secondLater) (by omega)
      · rcases List.mem_cons.mp secondIn with rfl | secondLater
        · exact absurd (below_head sorted firstLater) (by omega)
        · exact ih (descending_tail sorted) firstLater secondLater

/-- A key of the tail is not the key of the head. -/
theorem head_not_listed {item : α} {list : List α} (below : ∀ other ∈ list, key other < key item) :
    key item ∉ list.map key := by
  intro listed
  obtain ⟨other, member, equal⟩ := List.mem_map.mp listed
  exact absurd (below other member) (by omega)

theorem key_listed (laws : Retires key active retire)
    (merges : Merges key active retire keeps old scan calls new) :
    ∀ item ∈ new, key item ∈ old.map key ∨ key item ∈ scan.map key := by
  induction merges with
  | done => simp
  | insert first same starts rest ih =>
      intro item member
      rcases List.mem_cons.mp member with rfl | later
      · exact .inr (by simp [same])
      · exact (ih item later).imp id (List.mem_cons_of_mem _)
  | replace equal retired same starts rest ih =>
      intro item member
      rcases List.mem_cons.mp member with rfl | later
      · exact .inr (by simp [same])
      · exact (ih item later).imp (List.mem_cons_of_mem _) (List.mem_cons_of_mem _)
  | keep equal stays rest ih =>
      intro item member
      rcases List.mem_cons.mp member with rfl | later
      · exact .inl (by simp)
      · exact (ih item later).imp (List.mem_cons_of_mem _) (List.mem_cons_of_mem _)
  | retire first kept rest ih =>
      intro item member
      rcases List.mem_cons.mp member with rfl | later
      · exact .inl (by simp [laws.key])
      · exact (ih item later).imp (List.mem_cons_of_mem _) id
  | drop first dropped rest ih =>
      intro item member
      exact (ih item member).imp (List.mem_cons_of_mem _) id

/-- Every key of the result is below a bound on both lists. -/
theorem below_of_listed (laws : Retires key active retire)
    (merges : Merges key active retire keeps old scan calls new) {bound : Nat}
    (oldBelow : ∀ item ∈ old, key item < bound) (scanBelow : ∀ item ∈ scan, key item < bound) :
    ∀ item ∈ new, key item < bound := by
  intro item member
  rcases key_listed laws merges item member with listed | listed
  · obtain ⟨other, present, equal⟩ := List.mem_map.mp listed
    exact equal ▸ oldBelow other present
  · obtain ⟨other, present, equal⟩ := List.mem_map.mp listed
    exact equal ▸ scanBelow other present

theorem merges_descending (laws : Retires key active retire)
    (merges : Merges key active retire keeps old scan calls new)
    (oldSorted : Descending key old) (scanSorted : Descending key scan) : Descending key new := by
  induction merges with
  | done => exact List.Pairwise.nil
  | insert first same starts rest ih =>
      -- the element in front is above the rest of both lists, so above all that follows
      refine List.pairwise_cons.mpr ⟨?_, ih oldSorted (descending_tail scanSorted)⟩
      rw [same]
      exact below_of_listed laws rest first fun _ => below_head scanSorted
  | replace equal retired same starts rest ih =>
      refine List.pairwise_cons.mpr ⟨?_, ih (descending_tail oldSorted) (descending_tail scanSorted)⟩
      rw [same]
      exact below_of_listed laws rest (fun _ member => equal ▸ below_head oldSorted member)
        fun _ => below_head scanSorted
  | keep equal stays rest ih =>
      refine List.pairwise_cons.mpr ⟨?_, ih (descending_tail oldSorted) (descending_tail scanSorted)⟩
      exact below_of_listed laws rest (fun _ => below_head oldSorted)
        fun _ member => equal ▸ below_head scanSorted member
  | retire first kept rest ih =>
      refine List.pairwise_cons.mpr ⟨?_, ih (descending_tail oldSorted) scanSorted⟩
      rw [laws.key]
      exact below_of_listed laws rest (fun _ => below_head oldSorted) first
  | drop first dropped rest ih => exact ih (descending_tail oldSorted) scanSorted

theorem active_listed (laws : Retires key active retire)
    (merges : Merges key active retire keeps old scan calls new) :
    (new.filter active).map key = scan.map key := by
  induction merges with
  | done => rfl
  | insert first same starts rest ih =>
      rw [List.filter_cons_of_pos starts, List.map_cons, List.map_cons, ih, same]
  | replace equal retired same starts rest ih =>
      rw [List.filter_cons_of_pos starts, List.map_cons, List.map_cons, ih, same]
  | keep equal stays rest ih =>
      rw [List.filter_cons_of_pos stays, List.map_cons, List.map_cons, ih, equal]
  | retire first kept rest ih =>
      rw [List.filter_cons_of_neg (by simp [laws.inactive]), ih]
  | drop first dropped rest ih => exact ih

/-- New elements of a scan: those whose key is not active. -/
def newOf (key : α → Nat) (active : α → Bool) (old scan : List α) : List α :=
  scan.filter fun item => decide (key item ∉ (old.filter active).map key)

theorem not_active_listed {item : α} {list : List α} (below : ∀ other ∈ list, key other < key item) :
    key item ∉ (list.filter active).map key :=
  head_not_listed fun other member => below other (List.mem_filter.mp member).1

/-- An element whose key is not scanned, or that is retired, does not matter. -/
theorem new_of_cons {next : α}
    (without : active next = true → key next ∉ scan.map key) :
    newOf key active (next :: old) scan = newOf key active old scan := by
  cases active? : active next with
  | false => rw [newOf, List.filter_cons_of_neg (by simp [active?]), newOf]
  | true =>
      rw [newOf, List.filter_cons_of_pos active?]
      refine List.filter_congr fun item member => ?_
      have differs : key item ≠ key next := by
        intro equal
        exact without active? (equal ▸ List.mem_map_of_mem member)
      simp [differs]

/-- Exactly the new elements are called, in order. -/
theorem called_new (merges : Merges key active retire keeps old scan calls new)
    (oldSorted : Descending key old) (scanSorted : Descending key scan) :
    calls.map Prod.fst = newOf key active old scan := by
  induction merges with
  | done => rfl
  | @insert old scan new calls item after first same starts rest ih =>
      have unlisted : key item ∉ (old.filter active).map key := not_active_listed first
      rw [newOf, List.filter_cons_of_pos (by simpa using unlisted), List.map_cons,
        ih oldSorted (descending_tail scanSorted), newOf]
  | @replace old scan new calls next item after equal retired same starts rest ih =>
      have unlisted : key item ∉ (old.filter active).map key :=
        equal ▸ not_active_listed fun _ => below_head oldSorted
      rw [new_of_cons (by simp [retired]), newOf,
        List.filter_cons_of_pos (by simpa using unlisted), List.map_cons,
        ih (descending_tail oldSorted) (descending_tail scanSorted), newOf]
  | @keep old scan new calls next item equal stays rest ih =>
      have later : key next ∉ scan.map key :=
        equal ▸ head_not_listed fun _ => below_head scanSorted
      have listed : key item ∈ ((next :: old).filter active).map key := by
        rw [List.filter_cons_of_pos stays, List.map_cons, equal]
        exact List.mem_cons_self
      rw [newOf, List.filter_cons_of_neg (by simpa only [decide_eq_true_eq] using not_not_intro listed),
        ← newOf, new_of_cons fun _ => later, ih (descending_tail oldSorted) (descending_tail scanSorted)]
  | retire first kept rest ih =>
      rw [new_of_cons fun _ => head_not_listed first, ih (descending_tail oldSorted) scanSorted]
  | drop first dropped rest ih =>
      rw [new_of_cons fun _ => head_not_listed first, ih (descending_tail oldSorted) scanSorted]

/-- What a new element became is in the result. -/
theorem called_listed (merges : Merges key active retire keeps old scan calls new) :
    ∀ call ∈ calls, call.2 ∈ new := by
  induction merges with
  | done => simp
  | insert first same starts rest ih =>
      exact List.forall_mem_cons.mpr
        ⟨List.mem_cons_self, fun call member => List.mem_cons_of_mem _ (ih call member)⟩
  | replace equal retired same starts rest ih =>
      exact List.forall_mem_cons.mpr
        ⟨List.mem_cons_self, fun call member => List.mem_cons_of_mem _ (ih call member)⟩
  | keep equal stays rest ih => exact fun call member => List.mem_cons_of_mem _ (ih call member)
  | retire first kept rest ih => exact fun call member => List.mem_cons_of_mem _ (ih call member)
  | drop first dropped rest ih => exact ih

/-- Active elements that are scanned again stay. -/
theorem kept_listed (merges : Merges key active retire keeps old scan calls new)
    (oldSorted : Descending key old) (scanSorted : Descending key scan) :
    ∀ item ∈ old, active item = true → key item ∈ scan.map key → item ∈ new := by
  induction merges with
  | done => simp
  | insert first same starts rest ih =>
      intro item member stays scanned
      rcases List.mem_cons.mp scanned with equal | later
      · exact absurd (first item member) (by omega)
      · exact List.mem_cons_of_mem _ (ih oldSorted (descending_tail scanSorted) item member stays later)
  | replace equal retired same starts rest ih =>
      intro item member stays scanned
      rcases List.mem_cons.mp member with rfl | behind
      · simp [retired] at stays
      rcases List.mem_cons.mp scanned with found | later
      · exact absurd (below_head oldSorted behind) (by omega)
      · exact List.mem_cons_of_mem _
          (ih (descending_tail oldSorted) (descending_tail scanSorted) item behind stays later)
  | keep equal _ rest ih =>
      intro item member stays scanned
      rcases List.mem_cons.mp member with rfl | behind
      · exact List.mem_cons_self
      rcases List.mem_cons.mp scanned with found | later
      · exact absurd (below_head oldSorted behind) (by omega)
      · exact List.mem_cons_of_mem _
          (ih (descending_tail oldSorted) (descending_tail scanSorted) item behind stays later)
  | retire first kept rest ih =>
      intro item member stays scanned
      rcases List.mem_cons.mp member with rfl | behind
      · exact absurd scanned (head_not_listed first)
      · exact List.mem_cons_of_mem _
          (ih (descending_tail oldSorted) scanSorted item behind stays scanned)
  | drop first dropped rest ih =>
      intro item member stays scanned
      rcases List.mem_cons.mp member with rfl | behind
      · exact absurd scanned (head_not_listed first)
      · exact ih (descending_tail oldSorted) scanSorted item behind stays scanned

/-- Elements that are not scanned are retired, if those are kept. -/
theorem retired_listed (merges : Merges key active retire keeps old scan calls new)
    (kept : keeps = true) :
    ∀ item ∈ old, key item ∉ scan.map key → retire item ∈ new := by
  induction merges with
  | done => simp
  | insert first same starts rest ih =>
      intro item member missing
      exact List.mem_cons_of_mem _ (ih item member fun listed => missing (List.mem_cons_of_mem _ listed))
  | replace equal retired same starts rest ih =>
      intro item member missing
      rcases List.mem_cons.mp member with rfl | behind
      · exact absurd (by simp [equal]) missing
      · exact List.mem_cons_of_mem _
          (ih item behind fun listed => missing (List.mem_cons_of_mem _ listed))
  | keep equal stays rest ih =>
      intro item member missing
      rcases List.mem_cons.mp member with rfl | behind
      · exact absurd (by simp [equal]) missing
      · exact List.mem_cons_of_mem _
          (ih item behind fun listed => missing (List.mem_cons_of_mem _ listed))
  | retire first _ rest ih =>
      intro item member missing
      rcases List.mem_cons.mp member with rfl | behind
      · exact List.mem_cons_self
      · exact List.mem_cons_of_mem _ (ih item behind missing)
  | drop first dropped rest ih => simp [kept] at dropped

/-- Where an element of the result comes from. -/
inductive Origin (active : α → Bool) (retire : α → α) (old : List α) (calls : List (α × α)) :
    α → Prop
  | kept {item : α} (member : item ∈ old) (stays : active item = true) :
      Origin active retire old calls item
  | retired {item : α} (member : item ∈ old) : Origin active retire old calls (retire item)
  | called {call : α × α} (member : call ∈ calls) : Origin active retire old calls call.2

theorem Origin.mono {item : α} {more : List α} {moreCalls : List (α × α)}
    (origin : Origin active retire old calls item) (oldIn : ∀ other ∈ old, other ∈ more)
    (callsIn : ∀ call ∈ calls, call ∈ moreCalls) : Origin active retire more moreCalls item := by
  cases origin with
  | kept member stays => exact .kept (oldIn _ member) stays
  | retired member => exact .retired (oldIn _ member)
  | called member => exact .called (callsIn _ member)

theorem origin_of_merges (merges : Merges key active retire keeps old scan calls new) :
    ∀ item ∈ new, Origin active retire old calls item := by
  induction merges with
  | done => simp
  | insert first same starts rest ih =>
      intro item member
      rcases List.mem_cons.mp member with rfl | later
      · exact .called List.mem_cons_self
      · exact (ih item later).mono (fun _ => id) (fun _ => List.mem_cons_of_mem _)
  | replace equal retired same starts rest ih =>
      intro item member
      rcases List.mem_cons.mp member with rfl | later
      · exact .called List.mem_cons_self
      · exact (ih item later).mono (fun _ => List.mem_cons_of_mem _) (fun _ => List.mem_cons_of_mem _)
  | keep equal stays rest ih =>
      intro item member
      rcases List.mem_cons.mp member with rfl | later
      · exact .kept List.mem_cons_self stays
      · exact (ih item later).mono (fun _ => List.mem_cons_of_mem _) (fun _ => id)
  | retire first kept rest ih =>
      intro item member
      rcases List.mem_cons.mp member with rfl | later
      · exact .retired List.mem_cons_self
      · exact (ih item later).mono (fun _ => List.mem_cons_of_mem _) (fun _ => id)
  | drop first dropped rest ih =>
      exact fun item member => (ih item member).mono (fun _ => List.mem_cons_of_mem _) (fun _ => id)

/-- Nothing is left inactive if retired elements are dropped. -/
theorem all_active (merges : Merges key active retire keeps old scan calls new)
    (dropped : keeps = false) : ∀ item ∈ new, active item = true := by
  induction merges with
  | done => simp
  | insert first same starts rest ih => exact List.forall_mem_cons.mpr ⟨starts, ih⟩
  | replace equal retired same starts rest ih => exact List.forall_mem_cons.mpr ⟨starts, ih⟩
  | keep equal stays rest ih => exact List.forall_mem_cons.mpr ⟨stays, ih⟩
  | retire first kept rest ih => simp [dropped] at kept
  | drop first _ rest ih => exact ih

end Results

end Orchestrator.ListMerge
