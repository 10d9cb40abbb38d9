import Orchestrator.Realloc
import Orchestrator.RunTime

/-!
What a failed `pidReallocAndTest` leaves behind: the threads before the refused
one are counted as moved, and all go to the CPU of the origin.
-/

namespace Orchestrator.ReallocUndo
open Orchdata Resmgnt PidLookup PidResources Manage Moves Realloc

/-- CPU, mask and count of moves. -/
def placement (item : Node) : Int × Option Bitmask × UInt64 :=
  (item.mon.assigned, item.mon.assignedMask, item.mon.resched)

section Loops
variable {κ : Type} (proc : Proc κ) (numa : Numa) (node : Node)

/-- The count of moves at a place. -/
def countAt (managed : Managed κ) (place : Nat) : Option UInt64 :=
  managed.nhead[place]?.map fun item => item.mon.resched

theorem assign_to_count {managed : Managed κ} {place : Nat} {item : Node} (cpu : Int)
    (here : managed.nhead[place]? = some item) (other : Nat) :
    countAt (assignTo proc numa managed place item cpu).2 other = countAt managed other := by
  by_cases this : place = other
  · subst this
    by_cases accepts : Accepts proc numa managed.kernel item cpu
    · unfold Accepts Realloc.maskOf at accepts
      simp only [countAt, assignTo, setPidAffinityAssinged, accepts, Managed.put, if_true,
        List.getElem?_set, here]
      rw [if_pos (List.getElem?_eq_some_iff.mp here).1]
      rfl
    · obtain ⟨-, list⟩ := assign_to_refused proc numa place accepts
      rw [countAt, list, List.getElem?_set, if_pos rfl,
        if_pos (List.getElem?_eq_some_iff.mp here).1, countAt, here]
      rfl
  · rw [countAt, assign_to_others proc numa this, countAt]

theorem undo_threads_count (cpu : Int) (places : List Nat) (managed : Managed κ) (other : Nat) :
    countAt (undoThreads proc numa node cpu managed places) other = countAt managed other := by
  induction places generalizing managed with
  | nil => rfl
  | cons place rest ih =>
      rw [undoThreads, List.foldl_cons]
      refine (ih _).trans ?_
      cases here : managed.nhead[place]? with
      | none => rfl
      | some bitem =>
          dsimp only
          split_ifs
          · exact assign_to_count proc numa cpu here other
          · rfl

theorem undo_threads_none (cpu : Int) (places : List Nat) (managed : Managed κ)
    (apart : ∀ place ∈ places, ∀ item, managed.nhead[place]? = some item →
      together managed.conts node item = false) :
    undoThreads proc numa node cpu managed places = managed := by
  induction places with
  | nil => rfl
  | cons place rest ih =>
      rw [undoThreads, List.foldl_cons]
      have later := ih fun other member => apart other (List.mem_cons_of_mem place member)
      cases here : managed.nhead[place]? with
      | none => exact later
      | some bitem =>
          dsimp only
          rw [apart place List.mem_cons_self bitem here]
          exact later

/-- The loop counts a move at the places it still visits only. -/
theorem move_threads_count (ncpu : Int) (back : Option Int) (places : List Nat)
    (managed : Managed κ) {other : Nat} (apart : other ∉ places) :
    countAt (moveThreads proc numa node ncpu back places managed).2 other =
      countAt managed other := by
  induction places generalizing managed with
  | nil => rfl
  | cons place rest ih =>
      rw [List.mem_cons, not_or] at apart
      obtain ⟨unlike, later⟩ := apart
      cases here : managed.nhead[place]? with
      | none =>
          simp only [moveThreads, here]
          exact ih managed later
      | some item =>
          simp only [moveThreads, here]
          have assigned := assign_to_count proc numa ncpu here other
          have elsewhere : ∀ (state : Managed κ) (change : Node → Node),
              countAt { state with nhead := state.nhead.modify place change } other =
                countAt state other := by
            intro state change
            have here : place ≠ other := fun same => unlike same.symm
            simp [countAt, here]
          split_ifs
          · exact (ih _ later).trans ((elsewhere _ _).trans assigned)
          · cases back with
            | none => exact assigned
            | some cpu =>
                exact (undo_threads_count proc numa node cpu _ _ other).trans
                  ((elsewhere _ _).trans assigned)
          · exact ih managed later

/-- The places of a list, cut at one of them. -/
theorem range_cut {place length : Nat} (inside : place < length) :
    ∃ rest, List.range length = List.range place ++ place :: rest ∧ place ∉ rest := by
  obtain ⟨more, rfl⟩ : ∃ more, length = place + (more + 1) := ⟨length - place - 1, by omega⟩
  refine ⟨((List.range more).map Nat.succ).map (place + ·), ?_, ?_⟩
  · rw [List.range_add, List.range_succ_eq_map]
    rfl
  · simp

variable {conts : Containers} {nhead : List Node} {first : Nat}

/-- The first active thread of the container. -/
theorem first_together (found : nhead.findIdx? (together conts node) = some first) {item : Node}
    (here : nhead[first]? = some item) : together conts node item = true := by
  obtain ⟨_, joined, -⟩ := List.findIdx?_eq_some_iff_getElem.mp found
  obtain ⟨_, same⟩ := List.getElem?_eq_some_iff.mp here
  rw [same] at joined
  exact joined

theorem first_apart (found : nhead.findIdx? (together conts node) = some first) :
    ∀ place ∈ List.range first, ∀ item, nhead[place]? = some item →
      together conts node item = false := by
  intro place below item there
  obtain ⟨_, -, early⟩ := List.findIdx?_eq_some_iff_getElem.mp found
  have missed := early place (List.mem_range.mp below)
  obtain ⟨_, same⟩ := List.getElem?_eq_some_iff.mp there
  rw [same] at missed
  simpa using missed

end Loops

section Undo
variable {κ : Type} (fp : Rounding) (proc : Proc κ) (numa : Numa) (set : PrgSet)

/-- The first active thread of the container refuses, with the mask of the new CPU
set before, and it was assigned where it is left. -/
def FirstRefuses (managed : Managed κ) (node : Node) (ntrc trc : Option Nat) : Prop :=
  ∃ (first : Nat) (item : Node),
    managed.nhead.findIdx? (together managed.conts node) = some first ∧
    managed.nhead[first]? = some item ∧
    ¬ Accepts proc numa managed.kernel item (mainCPU numa managed ntrc) ∧
    item.mon.assigned = mainCPU numa managed (trc.or ntrc) ∧
    item.mon.assignedMask = some (maskOf numa (mainCPU numa managed ntrc))

/-- What the loop does when its first thread refuses. -/
theorem moves_first_refused {managed : Managed κ} {new : Nat} {trc : Option Nat} {node : Node}
    {first : Nat} {item : Node}
    (found : managed.nhead.findIdx? (together managed.conts node) = some first)
    (here : managed.nhead[first]? = some item)
    (refuses : ¬ Accepts proc numa managed.kernel item (managed.mainCpu numa new)) :
    (moves proc numa managed new trc node).2.nhead = managed.nhead.set first
      { refused numa (managed.mainCpu numa new) item with
        mon.assigned := mainCPU numa managed (trc.or (some new)) } := by
  have apart := first_apart node found
  have joined := first_together node found here
  have inside := (List.getElem?_eq_some_iff.mp here).1
  obtain ⟨rest, cut, -⟩ := range_cut inside
  obtain ⟨ret, list⟩ := assign_to_refused proc numa first refuses
  rw [moves, cut, move_threads_skip proc numa node _ _ _ _ managed apart, moveThreads, here]
  dsimp only
  rw [if_pos joined, if_neg (by rw [ret]; decide)]
  cases trc with
  | none =>
      dsimp only [Option.map_none]
      rw [list]
      rfl
  | some old =>
      dsimp only [Option.map_some]
      rw [undo_threads_none]
      · dsimp only
        rw [list]
        apply List.ext_getElem?
        intro other
        rw [List.getElem?_modify, List.getElem?_set, List.getElem?_set]
        by_cases this : first = other
        · subst this
          simp [inside, refused, mainCPU]
        · simp [this]
      · intro place below item there
        have unlike : first ≠ place := Nat.ne_of_gt (List.mem_range.mp below)
        simp only [List.getElem?_modify, list, List.getElem?_set, unlike, if_false] at there
        exact apart place below item (by simpa using there)

/-- A first thread that was moved is counted, whatever happens to the ones after it. -/
theorem moves_first_counted {managed : Managed κ} {new : Nat} {trc : Option Nat} {node : Node}
    {first : Nat} {item : Node}
    (found : managed.nhead.findIdx? (together managed.conts node) = some first)
    (here : managed.nhead[first]? = some item)
    (accepts : Accepts proc numa managed.kernel item (managed.mainCpu numa new)) :
    countAt (moves proc numa managed new trc node).2 first = some (item.mon.resched + 1) := by
  have apart := first_apart node found
  have joined := first_together node found here
  have inside := (List.getElem?_eq_some_iff.mp here).1
  obtain ⟨rest, cut, fresh⟩ := range_cut inside
  obtain ⟨ret, list⟩ := assign_to_accepted proc numa first accepts
  rw [moves, cut, move_threads_skip proc numa node _ _ _ _ managed apart, moveThreads, here]
  dsimp only
  rw [if_pos joined, if_pos ret, move_threads_count proc numa node _ _ rest _ fresh, countAt, list,
    List.getElem?_set, if_pos rfl, if_pos inside]
  rfl

theorem moves_none {managed : Managed κ} {new : Nat} {trc : Option Nat} {node : Node}
    (none : managed.nhead.findIdx? (together managed.conts node) = none) :
    moves proc numa managed new trc node = (true, managed) := by
  have skip := move_threads_skip proc numa node (managed.mainCpu numa new)
    (trc.map (managed.mainCpu numa)) (List.range managed.nhead.length) [] managed
    fun _ _ item here => List.findIdx?_eq_none_iff.mp none item (List.mem_of_getElem? here)
  rw [List.append_nil] at skip
  exact skip

/-- One changed element shows where the values of the list are compared. -/
theorem map_set_iff {α β : Type} (value : α → β) {list : List α} {place : Nat} {item : α}
    (here : list[place]? = some item) (new : α) :
    (list.set place new).map value = list.map value ↔ value new = value item := by
  have inside := (List.getElem?_eq_some_iff.mp here).1
  rw [List.map_set]
  constructor
  · intro same
    have read := congrArg (fun values : List β => values[place]?) same
    rw [List.getElem?_set_self (List.length_map value ▸ inside), List.getElem?_map, here] at read
    exact Option.some.inj read
  · intro same
    refine List.ext_getElem? fun other => ?_
    rw [List.getElem?_set]
    split_ifs with this bound
    · rw [← this, List.getElem?_map, here, same, Option.map_some]
    · exact absurd (List.length_map value ▸ inside) bound
    · rfl

/-- The first thread was moved: its count tells, also after the undo. -/
theorem moves_first_differs {managed : Managed κ} {new : Nat} {trc : Option Nat} {node : Node}
    {first : Nat} {item : Node}
    (found : managed.nhead.findIdx? (together managed.conts node) = some first)
    (here : managed.nhead[first]? = some item)
    (accepts : Accepts proc numa managed.kernel item (managed.mainCpu numa new)) :
    (moves proc numa managed new trc node).2.nhead.map placement ≠ managed.nhead.map placement := by
  intro restored
  have counted : countAt (moves proc numa managed new trc node).2 first =
      some (item.mon.resched + 1) := moves_first_counted proc numa found here accepts
  have same := congrArg (fun list : List (Int × Option Bitmask × UInt64) =>
    list[first]?.map fun place => place.2.2) restored
  simp only [List.getElem?_map, Option.map_map, here] at same
  change countAt (moves proc numa managed new trc node).2 first = some item.mon.resched at same
  rw [counted] at same
  have more : item.mon.resched + 1 = item.mon.resched := Option.some.inj same
  exact absurd more (by grind)

/-- A failed call restores the nodes exactly where its first thread refuses. -/
theorem failed_move_restores_iff {managed : Managed κ} {place : Nat} {node : Node}
    (ntrc trc : Option Nat) (here : managed.nhead[place]? = some node)
    (failed : (pidReallocAndTest fp proc numa set managed ntrc trc place).1 = -1) :
    (pidReallocAndTest fp proc numa set managed ntrc trc place).2.nhead.map placement =
        managed.nhead.map placement ↔
      FirstRefuses proc numa managed node ntrc trc := by
  have outcome := pid_realloc_and_test_outcome fp proc numa set here ntrc trc
  generalize pidReallocAndTest fp proc numa set managed ntrc trc place = result at outcome failed ⊢
  cases outcome with
  | stays same => cases failed
  | moved new found apart done list conts trcs fits returned =>
      rcases returned with zero | more
      · rw [zero] at failed
        cases failed
      · rw [more] at failed
        cases failed
  | refused new found apart undone =>
      subst found
      dsimp only
      cases first : managed.nhead.findIdx? (together managed.conts node) with
      | none =>
          rw [moves_none proc numa first] at undone
          cases undone
      | some first' =>
          obtain ⟨inside, -, -⟩ := List.findIdx?_eq_some_iff_getElem.mp first
          have item : managed.nhead[first']? = some managed.nhead[first'] :=
            List.getElem?_eq_getElem inside
          generalize managed.nhead[first'] = item' at item
          have condition : FirstRefuses proc numa managed node (some new) trc ↔
              ¬ Accepts proc numa managed.kernel item' (managed.mainCpu numa new) ∧
                item'.mon.assigned = mainCPU numa managed (trc.or (some new)) ∧
                item'.mon.assignedMask = some (maskOf numa (mainCPU numa managed (some new))) := by
            constructor
            · rintro ⟨other, thread, same, there, refuses, assigned, mask⟩
              rw [first] at same
              cases same
              rw [item] at there
              cases there
              exact ⟨refuses, assigned, mask⟩
            · rintro ⟨refuses, assigned, mask⟩
              exact ⟨first', item', first, item, refuses, assigned, mask⟩
          rw [condition]
          by_cases accepts : Accepts proc numa managed.kernel item' (managed.mainCpu numa new)
          · exact iff_of_false (moves_first_differs proc numa first item accepts)
              fun holds => holds.1 accepts
          · rw [moves_first_refused proc numa first item accepts, map_set_iff placement item]
            simp only [placement, refused, Prod.mk.injEq, and_true]
            constructor
            · rintro ⟨assigned, mask⟩
              exact ⟨accepts, assigned.symm, mask.symm⟩
            · rintro ⟨-, assigned, mask⟩
              exact ⟨assigned.symm, mask.symm⟩

end Undo

/-- A kernel that refuses to move the task 100. -/
def refusingProc : Proc Unit :=
  { RunTime.idleProc with setaffinity := fun state pid _ => (pid != 100, state) }

def twoCpus : Numa := ⟨2, {0, 1}⟩

/-- A thread of the one container on a CPU, with its mask. -/
def threadOn (loc : Nat) (pid cpu : Int) (mask : Bitmask) : Node where
  loc := loc
  pid := pid
  param := some 2
  mon := { assigned := cpu, assignedMask := some mask }

def sharedConts : Containers where
  cont := [1]
  pids := [2]
  contAt := fun _ => { contid := some ⟨5, ['c']⟩, pids := [2] }
  pidcAt := fun _ => { cont := some (.cont 1) }
  brk := 6

/-- The refused move is tried again for the second thread: the mask of the first is
still that of the other CPU. -/
def triedBefore : Managed Unit where
  nhead := [threadOn 1 100 0 {1}, threadOn 2 99 0 {0}]
  conts := sharedConts
  trcs := createResTracer 2 {0, 1}
  kernel := ()

theorem tried_before_restored :
    (pidReallocAndTest ieee refusingProc twoCpus {} triedBefore (some 1) (some 0) 1).2.nhead.map
      placement = triedBefore.nhead.map placement :=
  (failed_move_restores_iff ieee refusingProc twoCpus {} (some 1) (some 0) rfl rfl).mpr
    ⟨0, threadOn 1 100 0 {1}, rfl, rfl, Bool.false_ne_true, rfl, by decide +kernel⟩

/-- Threads on their own CPUs. -/
def spread : Managed Unit where
  nhead := [threadOn 1 101 1 {1}, threadOn 2 100 0 {0}]
  conts := sharedConts
  trcs := createResTracer 2 {0, 1}
  kernel := ()

/-- The first thread was on CPU 1, it ends on CPU 0 and counts a move; the second
keeps the mask it was refused. -/
theorem spread_not_restored :
    (pidReallocAndTest ieee refusingProc twoCpus {} spread (some 1) (some 0) 1).1 = -1 ∧
      (pidReallocAndTest ieee refusingProc twoCpus {} spread (some 1) (some 0) 1).2.nhead.map
        placement = [(0, some {0}, 1), (0, some {1}, 0)] ∧
      (pidReallocAndTest ieee refusingProc twoCpus {} spread (some 1) (some 0) 1).2.nhead.map
        placement ≠ spread.nhead.map placement := by
  refine ⟨rfl, ?_, ?_⟩
  all_goals decide +kernel

end Orchestrator.ReallocUndo
