import Mathlib.Data.List.Forall2
import Orchestrator.DisposedOnce
import Orchestrator.HeadWalk
import Orchestrator.ScanNew
import Orchestrator.TaskContainers

/-!
Sibling flags after a scan. `setPidResources` walks the list from `nhead` while
`scanNew` is half-way through it, so which siblings of a new task are flagged
depends on where it is put.
-/

namespace Orchestrator.SiblingFlags
open Orchdata Traversal PidLookup LookupRun PidResources Qsortll ScanNew HeadWalk TaskContainers

/-- A node as its siblings see it. -/
def member (conts : Containers) (item : Node) : Member ContPtr :=
  ⟨item.pid, contOf conts item, item.status.sibl⟩

/-- The PID a node of the list has after the scan. -/
def pidAfter (scan : List Int) (pid : Int) : Int := if pid ∈ scan then pid else -pid.natAbs

/-- A node of the list, with the flag it has got so far. -/
structure Shows (conts : Containers) (marked : Member ContPtr → Prop) (now : Int → Int)
    (own : Member ContPtr) (item : Node) : Prop where
  pid : item.pid = now own.pid
  cont : contOf conts item = own.group
  sibl : item.status.sibl = true ↔ marked own
  allocated : Allocated conts item

section Lists
variable {α β : Type}

theorem forall_imp_mem {r s : α → β → Prop} {first : List α} {second : List β}
    (pairs : List.Forall₂ r first second) (imp : ∀ a ∈ first, ∀ b, r a b → s a b) :
    List.Forall₂ s first second := by
  induction pairs with
  | nil => exact .nil
  | cons head _ ih =>
      exact .cons (imp _ (List.mem_cons_self ..) _ head)
        (ih fun a inside => imp a (List.mem_cons_of_mem _ inside))

theorem forall_any_iff {r : α → β → Prop} {first : List α} {second : List β}
    (pairs : List.Forall₂ r first second) (test : β → Bool) (holds : α → Prop)
    (same : ∀ a b, r a b → (test b = true ↔ holds a)) :
    second.any test = true ↔ ∃ a ∈ first, holds a := by
  induction pairs with
  | nil => simp
  | cons head _ ih =>
      rw [List.any_cons, Bool.or_eq_true, ih, same _ _ head]
      simp

theorem forall_mem_right {r : α → β → Prop} {first : List α} {second : List β}
    (pairs : List.Forall₂ r first second) {b : β} (inside : b ∈ second) : ∃ a ∈ first, r a b := by
  induction pairs with
  | nil => cases inside
  | cons head _ ih =>
      rcases List.mem_cons.mp inside with same | further
      · exact ⟨_, List.mem_cons_self .., same ▸ head⟩
      · obtain ⟨a, listed, related⟩ := ih further
        exact ⟨a, List.mem_cons_of_mem _ listed, related⟩

end Lists

section Nodes
variable {before after : Containers} {marked later : Member ContPtr → Prop} {now : Int → Int}
  {own : Member ContPtr} {item node : Node}

theorem sibling_iff (new : Member ContPtr) (shows : Shows before marked now own item)
    (keeps : KeepsOwners before after) (cont : contOf after node = new.group) : sibling after node item = true ↔ Shares own new := by
  have group : contOf after item = own.group := (keeps.cont shows.allocated rfl).trans shows.cont
  rw [sibling, group, cont, Shares]
  simp [Option.isSome_iff_ne_none]

theorem shows_unseen (shows : Shows before marked now own item) (keeps : KeepsOwners before after)
    (same : later own ↔ marked own) : Shows after later now own item :=
  ⟨shows.pid, (keeps.cont shows.allocated rfl).trans shows.cont, shows.sibl.trans same.symm,
    fun p param => (shows.allocated p param).trans_le keeps.brk⟩

theorem shows_seen (new : Member ContPtr) (shows : Shows before marked now own item)
    (keeps : KeepsOwners before after) (cont : contOf after node = new.group) (same : later own ↔ marked own ∨ Shares own new) :
    Shows after later now own (markSibling after node item) := by
  have mates := sibling_iff new shows keeps cont
  have still : Shows after marked now own item := shows_unseen shows keeps Iff.rfl
  rw [markSibling]
  by_cases shares : Shares own new
  · rw [if_pos (mates.mpr shares)]
    exact ⟨still.pid, still.cont, iff_of_true rfl (same.mpr (Or.inr shares)), still.allocated⟩
  · rw [if_neg (fun mate => shares (mates.mp mate))]
    refine shows_unseen still (KeepsOwners.refl after) ?_
    rw [same]
    exact or_iff_left shares

end Nodes

section Scan
variable (trackpids : Bool) (old : List (Member ContPtr)) (scan : List Int)

/-- Flags given so far. -/
abbrev Flagged (splice : Splice ContPtr) : Member ContPtr → Prop :=
  Marked trackpids (pids old) scan (old ++ splice.arrived)

/-- The lists of the code hold the nodes of the splice. -/
structure Simulates {κ : Type} (merge : Merge κ) (splice : Splice ContPtr) : Prop where
  front : List.Forall₂ (Shows merge.conts (Flagged trackpids old scan splice) (pidAfter scan))
    (splice.hidden ++ splice.shown) merge.front
  skip : merge.skip = splice.hidden.length
  rest : List.Forall₂ (Shows merge.conts (Flagged trackpids old scan splice) id)
    splice.behind merge.rest
  sound : Sound merge.conts

end Scan

section Insert
variable {κ : Type} (kernel : Kernel κ) (numa : Numa) (set : PrgSet) {trackpids : Bool}
  {old : List (Member ContPtr)} {scan : List Int}

theorem fresh_allocated {item : Node} (fresh : Fresh item) (conts : Containers) :
    Allocated conts item := by
  intro p param
  rw [fresh.param] at param
  cases param

theorem fresh_no_sibling {item : Node} (fresh : Fresh item) (conts : Containers) (node : Node) :
    sibling conts node item = false := by
  simp [sibling, contOf, fresh.param]

section Walk
variable {before after : Containers} {splice : Splice ContPtr} {alone : Node} {now : Int → Int}
  {owns : List (Member ContPtr)} {nodes : List Node}

/-- A walk flags the siblings it reaches. -/
theorem walk_reached (walkable : Walkable trackpids old scan alone.pid splice)
    (keeps : KeepsOwners before after)
    (reached : ∀ own ∈ owns, own ∈ splice.visible ∧ own ∈ old ++ splice.arrived)
    (shows : List.Forall₂ (Shows before (Flagged trackpids old scan splice) now) owns nodes) :
    List.Forall₂ (Shows after (Flagged trackpids old scan (splice.arrive (member after alone))) now)
      owns (nodes.map (markSibling after alone)) := by
  rw [List.forall₂_map_right_iff]
  refine forall_imp_mem shows fun own inside item shows => ?_
  obtain ⟨visible, listed⟩ := reached own inside
  refine shows_seen (member after alone) shows keeps rfl ?_
  rw [Flagged, walkable_marks (member after alone) walkable listed]
  exact or_congr_right (and_iff_left visible)

/-- It leaves all others as they are. -/
theorem walk_unreached (walkable : Walkable trackpids old scan alone.pid splice)
    (keeps : KeepsOwners before after)
    (unreached : ∀ own ∈ owns, own ∉ splice.visible ∧ own ∈ old ++ splice.arrived)
    (shows : List.Forall₂ (Shows before (Flagged trackpids old scan splice) now) owns nodes) :
    List.Forall₂ (Shows after (Flagged trackpids old scan (splice.arrive (member after alone))) now)
      owns nodes := by
  refine forall_imp_mem shows fun own inside item shows => ?_
  obtain ⟨hidden, listed⟩ := unreached own inside
  refine shows_unseen shows keeps ?_
  rw [Flagged, walkable_marks (member after alone) walkable listed]
  exact or_iff_left fun both => hidden both.2

/-- The new node is flagged if the walk reaches a sibling. -/
theorem walk_new (walkable : Walkable trackpids old scan alone.pid splice)
    (keeps : KeepsOwners before after) (allocated : Allocated after alone)
    (shows : List.Forall₂ (Shows before (Flagged trackpids old scan splice) now) splice.visible
      nodes) {node : Node} (same : node = { alone with
      status.sibl := alone.status.sibl || nodes.any (sibling after alone) }) :
    Shows after (Flagged trackpids old scan (splice.arrive (member after alone))) (pidAfter scan)
      (member after alone) node := by
  subst same
  refine ⟨?_, rfl, ?_, allocated⟩
  · exact (if_pos walkable.arrives.1).symm
  · rw [Flagged, walkable_new (member after alone) walkable, Bool.or_eq_true]
    apply or_congr Iff.rfl
    exact forall_any_iff shows _ _ fun own item shows =>
      sibling_iff (member after alone) shows keeps rfl

end Walk

theorem later_no_sibling {later : List Node} (laterFresh : ∀ other ∈ later, Fresh other)
    (conts : Containers) (node : Node) : later.any (sibling conts node) = false := by
  rw [List.any_eq_false]
  intro other inside
  simp [fresh_no_sibling (laterFresh other inside)]

section Item
variable {merge after : Merge κ} {splice : Splice ContPtr} {item : Node} {later : List Node}

variable (trackpids old scan merge after splice item later) in
/-- The node is settled as it would be alone, and arrives in the splice. -/
structure Inserted (alone : Node) : Prop where
  lone : setPidResources kernel numa set { conts := merge.conts, nhead := [], node := item }
    merge.kernel = .ok ({ conts := after.conts, nhead := [], node := alone }, after.kernel)
  lnew : after.lnew = later
  task : alone.pid = item.pid
  simulates : Simulates trackpids old scan after (splice.arrive (member after.conts alone))

/-- The head is behind the new node: the walk goes through the old nodes there. -/
theorem insert_ahead_simulates (fresh : Fresh item)
    (simulates : Simulates trackpids old scan merge splice)
    (walkable : Walkable trackpids old scan item.pid splice) (empty : splice.shown = [])
    (run : insertItem kernel numa set merge item later = .ok after) :
    ∃ alone, Inserted kernel numa set trackpids old scan merge after splice item later alone := by
  have length := simulates.front.length_eq
  rw [empty, List.append_nil] at length
  rw [insertItem, simulates.skip, if_neg (by omega)] at run
  obtain ⟨conts, alone, written, lone, made, same, sound, keeps, allocated⟩ :=
    set_pid_resources_alone kernel numa set
      { conts := merge.conts, nhead := merge.rest, node := item } merge.kernel fresh.pid.ne'
      fresh.imgid simulates.sound (fresh_allocated fresh merge.conts)
  rw [made] at run
  cases run
  have own : alone.pid = item.pid := same.1
  rw [← own] at walkable
  have visible := Splice.visible_none empty
  have rest := simulates.rest
  rw [← visible] at rest
  have node := walk_new walkable keeps allocated rest rfl
  have listed := walkable.listed
  refine ⟨alone, lone, rfl, own, ⟨?_, ?_, ?_, sound⟩⟩
  · rw [Splice.arrive_front]
    refine List.rel_append (walk_unreached walkable keeps (fun own inside => ?_) simulates.front)
      (.cons node .nil)
    rw [empty, List.append_nil] at inside
    exact ⟨walkable.hidden own inside, listed own (by simp [inside])⟩
  · rw [Splice.arrive_none empty, List.length_append, ← simulates.skip]
    rfl
  · rw [Splice.arrive_behind]
    refine walk_reached walkable keeps (fun own inside => ?_) simulates.rest
    exact ⟨visible ▸ inside, listed own (by simp [inside])⟩

/-- The walk through the nodes between the head and the new one: what is linked
behind it has no parameters yet. -/
theorem insert_between_runs (fresh : Fresh item) (laterFresh : ∀ other ∈ later, Fresh other)
    (sound : Sound merge.conts) (reached : merge.skip < merge.front.length) :
    ∃ conts alone written node,
      setPidResources kernel numa set { conts := merge.conts, nhead := [], node := item }
        merge.kernel = .ok ({ conts := conts, nhead := [], node := alone }, written) ∧
      node = { alone with
        status.sibl := alone.status.sibl ||
          (merge.front.drop merge.skip).any (sibling conts alone) } ∧
      insertItem kernel numa set merge item later = .ok { merge with
        front := merge.front.take merge.skip ++
          (merge.front.drop merge.skip).map (markSibling conts alone) ++ [node]
        lnew := later
        conts := conts
        kernel := written
        calls := merge.calls ++ [(item, node)] } ∧
      SameTask item alone ∧ Sound conts ∧ KeepsOwners merge.conts conts ∧
      Allocated conts alone := by
  obtain ⟨conts, alone, written, lone, made, same, still, keeps, allocated⟩ :=
    set_pid_resources_alone kernel numa set
      { conts := merge.conts, nhead := merge.front.drop merge.skip ++ later, node := item }
      merge.kernel fresh.pid.ne' fresh.imgid sound (fresh_allocated fresh merge.conts)
  have count : ((merge.front.drop merge.skip).map (markSibling conts alone)).length =
      merge.front.length - merge.skip := by rw [List.length_map, List.length_drop]
  dsimp only at made
  rw [List.map_append, map_mark_fresh (mark_sibling_marks conts alone) laterFresh,
    List.any_append, later_no_sibling laterFresh, Bool.or_false] at made
  refine ⟨conts, alone, written, _, lone, rfl, ?_, same, still, keeps, allocated⟩
  rw [insertItem, if_pos reached, made]
  change Except.ok _ = _
  dsimp only
  rw [List.take_left' count, List.drop_left' count]

/-- The head is before the new node. -/
theorem insert_between_simulates (fresh : Fresh item) (laterFresh : ∀ other ∈ later, Fresh other)
    (simulates : Simulates trackpids old scan merge splice)
    (walkable : Walkable trackpids old scan item.pid splice) (some : splice.shown ≠ [])
    (run : insertItem kernel numa set merge item later = .ok after) :
    ∃ alone, Inserted kernel numa set trackpids old scan merge after splice item later alone := by
  have length := simulates.front.length_eq
  have positive := List.length_pos_iff.mpr some
  have skip := simulates.skip
  rw [List.length_append] at length
  obtain ⟨conts, alone, written, node, lone, own, made, same, sound, keeps, allocated⟩ :=
    insert_between_runs kernel numa set fresh laterFresh simulates.sound (by omega)
  rw [made] at run
  cases run
  have task : alone.pid = item.pid := same.1
  rw [← task] at walkable
  have visible := Splice.visible_some some
  have listed := walkable.listed
  -- the nodes before `nhead` and those from there to the new one
  have hidden := List.forall₂_take merge.skip simulates.front
  have shown := List.forall₂_drop merge.skip simulates.front
  rw [List.take_left' skip.symm] at hidden
  rw [List.drop_left' skip.symm] at shown
  have last := walk_new walkable keeps allocated (visible ▸ shown) own
  refine ⟨alone, lone, rfl, task, ⟨?_, ?_, ?_, sound⟩⟩
  · rw [Splice.arrive_front]
    refine List.rel_append (List.rel_append
      (walk_unreached walkable keeps (fun other inside => ?_) hidden)
      (walk_reached walkable keeps (fun other inside => ?_) shown)) (.cons last .nil)
    · exact ⟨walkable.hidden other inside, listed other (by simp [inside])⟩
    · exact ⟨visible ▸ inside, listed other (by simp [inside])⟩
  · rw [Splice.arrive_some some]
    exact skip
  · rw [Splice.arrive_behind]
    refine walk_unreached walkable keeps (fun other inside => ?_) simulates.rest
    exact ⟨walkable.behind some other inside, listed other (by simp [inside])⟩

/-- An insertion does with the list what it does with the splice. -/
theorem insert_item_simulates (fresh : Fresh item) (laterFresh : ∀ other ∈ later, Fresh other)
    (simulates : Simulates trackpids old scan merge splice)
    (walkable : Walkable trackpids old scan item.pid splice)
    (run : insertItem kernel numa set merge item later = .ok after) :
    ∃ alone, Inserted kernel numa set trackpids old scan merge after splice item later alone := by
  by_cases empty : splice.shown = []
  · exact insert_ahead_simulates kernel numa set fresh simulates walkable empty run
  · exact insert_between_simulates kernel numa set fresh laterFresh simulates walkable empty run

end Item

/-- The new nodes, each as `setPidResources` leaves it without a list to walk. -/
def settle (conts : Containers) (state : κ) : List Node → Except Stop (List (Member ContPtr))
  | [] => .ok []
  | item :: later => do
      let (look, written) ← setPidResources kernel numa set
        { conts := conts, nhead := [], node := item } state
      let rest ← settle look.conts written later
      pure (member look.conts look.node :: rest)

/-- Those of the scan that are not in the list. -/
def arriving (old : List Int) (scan : List Node) : List Node :=
  scan.filter fun item => item.pid ∉ old

section Loop
variable (trackpids old scan) (conts : Containers) (state : κ) (all : List Node)

/-- What the loops keep: the lists hold the nodes of the splice, and the new ones
are settled as they would be on their own. -/
structure Holds (merge : Merge κ) (splice : Splice ContPtr) : Prop where
  simulates : Simulates trackpids old scan merge splice
  fresh : ∀ item ∈ merge.lnew, Fresh item
  settles : ∀ more, settle kernel numa set merge.conts merge.kernel
      (arriving (pids old) merge.lnew) = .ok more →
    settle kernel numa set conts state (arriving (pids old) all) = .ok (splice.arrived ++ more)

/-- The state before a turn of the merge loop. -/
structure Going (merge : Merge κ) (splice : Splice ContPtr) : Prop
    extends Holds kernel numa set trackpids old scan conts state all merge splice where
  placed : Placed trackpids old scan (merge.lnew.map Node.pid) splice
  strict : ∀ other ∈ splice.done, ∀ item ∈ merge.lnew, item.pid < other.pid.natAbs

end Loop

section Turns
variable {conts : Containers} {state : κ} {all : List Node} {merge base after : Merge κ}
  {splice : Splice ContPtr} {next item : Node} {others later : List Node} {own : Member ContPtr}
  {rest : List (Member ContPtr)}

/-- A new node is put in, at a place from where its walk is known. -/
theorem insert_holds (simulates : Simulates trackpids old scan base splice)
    (fresh : ∀ other ∈ item :: later, Fresh other)
    (settles : ∀ more, settle kernel numa set base.conts base.kernel
        (arriving (pids old) (item :: later)) = .ok more →
      settle kernel numa set conts state (arriving (pids old) all) = .ok (splice.arrived ++ more))
    (walkable : Walkable trackpids old scan item.pid splice)
    (run : insertItem kernel numa set base item later = .ok after) :
    ∃ new : Member ContPtr, new.pid = item.pid ∧ after.lnew = later ∧
      Holds kernel numa set trackpids old scan conts state all after (splice.arrive new) := by
  obtain ⟨alone, lone, lnew, same, held⟩ := insert_item_simulates kernel numa set
    (fresh item (List.mem_cons_self ..)) (fun other inside => fresh other (List.mem_cons_of_mem _ inside))
    simulates walkable run
  refine ⟨member after.conts alone, same, lnew, held, ?_, ?_⟩
  · rw [lnew]
    exact fun other inside => fresh other (List.mem_cons_of_mem _ inside)
  · intro more settled
    rw [lnew] at settled
    have new : arriving (pids old) (item :: later) = item :: arriving (pids old) later :=
      List.filter_cons_of_pos (by simpa using walkable.arrives.2)
    rw [Splice.arrive_arrived, List.append_assoc]
    apply settles
    rw [new, settle, lone]
    change (settle kernel numa set after.conts after.kernel _ >>= _) = _
    rw [settled]
    rfl

theorem simulates_rest (simulates : Simulates trackpids old scan merge splice)
    (list : merge.rest = next :: others) :
    ∃ own rest, splice.behind = own :: rest ∧
      Shows merge.conts (Flagged trackpids old scan splice) id own next ∧
      List.Forall₂ (Shows merge.conts (Flagged trackpids old scan splice) id) rest others := by
  have pairs := simulates.rest
  rw [list, List.forall₂_cons_right_iff] at pairs
  obtain ⟨own, rest, first, tail, same⟩ := pairs
  exact ⟨own, rest, same, first, tail⟩

theorem simulates_pass (simulates : Simulates trackpids old scan merge splice) {kept : Node}
    (first : Shows merge.conts (Flagged trackpids old scan splice) (pidAfter scan) own kept)
    (tail : List.Forall₂ (Shows merge.conts (Flagged trackpids old scan splice) id) rest others)
    (lnew : List Node) :
    Simulates trackpids old scan
      { merge with front := merge.front ++ [kept], rest := others, lnew := lnew }
      (splice.pass own rest) where
  front := by
    have front : List.Forall₂ (Shows merge.conts (Flagged trackpids old scan splice) (pidAfter scan))
        (splice.hidden ++ splice.shown ++ [own]) (merge.front ++ [kept]) :=
      List.rel_append simulates.front (.cons first .nil)
    rw [List.append_assoc] at front
    exact front
  skip := simulates.skip
  rest := tail
  sound := simulates.sound

theorem simulates_remove (simulates : Simulates trackpids old scan merge splice)
    (tail : List.Forall₂ (Shows merge.conts (Flagged trackpids old scan splice) id) rest others) :
    Simulates trackpids old scan { merge with rest := others, skip := 0 }
      (splice.remove own rest) where
  front := simulates.front
  skip := rfl
  rest := tail
  sound := simulates.sound

/-- A turn of the merge loop: `next` is behind `tail`, `item` the first new node. -/
structure Turning (trackpids : Bool) (old : List (Member ContPtr)) (scan : List Int)
    (conts : Containers) (state : κ) (all : List Node) (merge : Merge κ) (splice : Splice ContPtr)
    (next item : Node) (others later : List Node) (own : Member ContPtr)
    (rest : List (Member ContPtr)) : Prop
    extends Going kernel numa set trackpids old scan conts state all merge splice where
  list : merge.rest = next :: others
  lnew : merge.lnew = item :: later
  behind : splice.behind = own :: rest
  first : Shows merge.conts (Flagged trackpids old scan splice) id own next
  tail : List.Forall₂ (Shows merge.conts (Flagged trackpids old scan splice) id) rest others
  sorted : old.Pairwise fun first second => second.pid.natAbs < first.pid.natAbs

section Turning
variable (turning : Turning kernel numa set trackpids old scan conts state all merge splice next item
  others later own rest)
include turning

theorem turning_low : ∀ other ∈ rest, other.pid.natAbs < own.pid.natAbs := by
  have sorted := turning.sorted
  rw [turning.placed.all, turning.behind] at sorted
  have ahead := (List.pairwise_append.mp sorted).2.1
  exact fun other inside => List.rel_of_pairwise_cons ahead inside

theorem turning_listed : own ∈ old := by
  rw [turning.placed.all, turning.behind]
  simp

theorem turning_above : ∀ pid ∈ merge.lnew.map Node.pid, pid ≤ item.pid := by
  have sorted := turning.placed.sorted
  rw [turning.lnew, List.map_cons] at sorted ⊢
  intro pid inside
  rcases List.mem_cons.mp inside with same | further
  · exact same.le
  · exact (List.rel_of_pairwise_cons sorted further).le

theorem turning_scanned : item.pid ∈ scan :=
  turning.placed.part item.pid (by simp [turning.lnew])

theorem turning_later : ∀ pid ∈ later.map Node.pid, pid < item.pid := by
  have sorted := turning.placed.sorted
  rw [turning.lnew, List.map_cons] at sorted
  exact fun pid inside => List.rel_of_pairwise_cons sorted inside

/-- What is behind all that still comes is not in the scan. -/
theorem turning_missing (low : item.pid < own.pid.natAbs) : (own.pid.natAbs : Int) ∉ scan := by
  intro inside
  by_cases comes : (own.pid.natAbs : Int) ∈ merge.lnew.map Node.pid
  · have := turning_above kernel numa set turning _ comes
    omega
  · have := turning.placed.below _ inside comes own (by simp [turning.behind])
    omega

/-- What still comes is behind the node. -/
theorem turning_below (low : item.pid ≤ own.pid.natAbs) :
    ∀ pid ∈ merge.lnew.map Node.pid, pid ≤ own.pid.natAbs := fun pid inside =>
  (turning_above kernel numa set turning pid inside).trans low

/-- What comes after the item is behind all that was passed, and behind the node. -/
theorem turning_strict (low : item.pid ≤ own.pid.natAbs) :
    ∀ other ∈ splice.done ++ [own], ∀ new ∈ later, new.pid < other.pid.natAbs := by
  intro other inside new ahead
  rcases List.mem_append.mp inside with before | last
  · exact turning.strict other before new (by simp [turning.lnew, ahead])
  · have := turning_later kernel numa set turning new.pid (List.mem_map_of_mem ahead)
    rw [List.mem_singleton.mp last]
    omega

/-- So is the item itself if it is less. -/
theorem turning_strict_all (low : item.pid < own.pid.natAbs) :
    ∀ other ∈ splice.done ++ [own], ∀ new ∈ merge.lnew, new.pid < other.pid.natAbs := by
  intro other inside new ahead
  rcases List.mem_append.mp inside with before | last
  · exact turning.strict other before new ahead
  · have := turning_above kernel numa set turning new.pid (List.mem_map_of_mem ahead)
    rw [List.mem_singleton.mp last]
    omega

/-- The scan has no node of this PID: what stays of it is deactivated. -/
theorem turn_pass_going (low : item.pid < own.pid.natAbs) {kept : Node}
    (first : Shows merge.conts (Flagged trackpids old scan splice) (pidAfter scan) own kept)
    (stays : Stays trackpids scan own.pid) :
    Going kernel numa set trackpids old scan conts state all
      { merge with front := merge.front ++ [kept], rest := others } (splice.pass own rest) where
  simulates := simulates_pass turning.simulates first turning.tail merge.lnew
  fresh := turning.fresh
  settles := turning.settles
  placed := by
    have below := turning_below kernel numa set turning (Int.le_of_lt low)
    exact placed_pass turning.placed turning.behind stays below
  strict := by
    have strict := turning_strict_all kernel numa set turning low
    exact strict

theorem turn_remove_going (low : item.pid < own.pid.natAbs)
    (leaves : ¬ Stays trackpids scan own.pid) :
    Going kernel numa set trackpids old scan conts state all
      { merge with rest := others, skip := 0 } (splice.remove own rest) where
  simulates := simulates_remove turning.simulates turning.tail
  fresh := turning.fresh
  settles := turning.settles
  placed := by
    have below := turning_below kernel numa set turning (Int.le_of_lt low)
    exact placed_remove turning.placed turning.behind leaves below
  strict := by
    have strict := turning_strict_all kernel numa set turning low
    exact strict

/-- The node is in the scan. -/
theorem turn_keep_going (same : own.pid = item.pid) :
    Going kernel numa set trackpids old scan conts state all
      { merge with front := merge.front ++ [next], rest := others, lnew := later }
      (splice.pass own rest) where
  simulates := by
    refine simulates_pass turning.simulates ?_ turning.tail later
    have first := turning.first
    have scanned : own.pid ∈ scan := same ▸ turning_scanned kernel numa set turning
    exact ⟨first.pid.trans (if_pos scanned).symm, first.cont, first.sibl, first.allocated⟩
  fresh := by
    intro new inside
    exact turning.fresh new (by simp [turning.lnew, inside])
  settles := by
    intro more settled
    apply turning.settles
    have known : item.pid ∈ pids old := same ▸ pid_mem (turning_listed kernel numa set turning)
    rw [turning.lnew, arriving, List.filter_cons_of_neg (by simpa using known)]
    exact settled
  placed := by
    have scanned : own.pid ∈ scan := same ▸ turning_scanned kernel numa set turning
    have positive := turning.placed.positive own.pid scanned
    have passed := placed_pass turning.placed turning.behind
      (scanned_stays turning.placed.positive scanned)
      (turning_below kernel numa set turning (by omega))
    rw [turning.lnew, List.map_cons] at passed
    refine placed_skip passed (same ▸ pid_mem (turning_listed kernel numa set turning))
      fun other inside => ?_
    have := turning_low kernel numa set turning other inside
    omega
  strict := turning_strict kernel numa set turning (by omega)

/-- No element of the list has the PID that is put in before `next`, or in its place. -/
theorem turning_arrives (apart : own.pid ≠ item.pid) (low : own.pid.natAbs ≤ item.pid) :
    Arrives (pids old) scan item.pid := by
  refine ⟨turning_scanned kernel numa set turning, fun inside => ?_⟩
  obtain ⟨other, listed, same⟩ := List.mem_map.mp inside
  rw [turning.placed.all, turning.behind] at listed
  rcases List.mem_append.mp listed with before | ahead
  · have := turning.strict other before item (by simp [turning.lnew])
    omega
  · rcases List.mem_cons.mp ahead with this | further
    · exact apart (this ▸ same)
    · have := turning_low kernel numa set turning other further
      omega

/-- A new node before `next`. -/
theorem turn_insert_going (low : own.pid.natAbs < item.pid)
    (run : insertItem kernel numa set merge item later = .ok after) :
    ∃ after', Going kernel numa set trackpids old scan conts state all after after' := by
  have arrives := turning_arrives kernel numa set turning (by omega) (by omega)
  have placed := turning.placed
  have fresh := turning.fresh
  have settles := turning.settles
  rw [turning.lnew] at placed fresh settles
  have behind : ∀ other ∈ splice.behind, (other.pid.natAbs : Int) < item.pid := by
    intro other inside
    rw [turning.behind] at inside
    rcases List.mem_cons.mp inside with same | further
    · rw [same]
      exact low
    · have := turning_low kernel numa set turning other further
      omega
  obtain ⟨new, same, lnew, holds⟩ := insert_holds kernel numa set turning.simulates fresh settles
    (placed_walkable placed arrives behind (Or.inl (by simp [turning.behind]))) run
  refine ⟨splice.arrive new, ⟨holds, ?_, ?_⟩⟩
  · rw [lnew]
    rw [List.map_cons, ← same] at placed
    rw [← same] at arrives behind low
    exact placed_arrive placed arrives behind
      ⟨own, turning_listed kernel numa set turning, Int.le_of_lt low⟩
  · rw [lnew, Splice.arrive_done]
    exact fun other inside new ahead => turning.strict other inside new (by simp [turning.lnew, ahead])

/-- A new node in the place of a deactivated one. -/
theorem turn_replace_going (tracks : trackpids = true) (negated : own.pid * -1 = item.pid)
    (positive : 0 < item.pid)
    (run : insertItem kernel numa set { merge with rest := others, skip := 0 } item later =
      .ok after) :
    ∃ after', Going kernel numa set trackpids old scan conts state all after after' := by
  have arrives := turning_arrives kernel numa set turning (by omega) (by omega)
  have leaves : ¬ Stays trackpids scan own.pid := by
    rw [Stays, if_pos tracks, not_not, show -own.pid = item.pid by omega]
    exact arrives.1
  have placed := placed_remove turning.placed turning.behind leaves
    (turning_below kernel numa set turning (by omega))
  have fresh := turning.fresh
  have settles := turning.settles
  rw [turning.lnew] at placed fresh settles
  have behind : ∀ other ∈ (splice.remove own rest).behind,
      (other.pid.natAbs : Int) < item.pid := by
    intro other inside
    have := turning_low kernel numa set turning other inside
    omega
  have listed := turning_listed kernel numa set turning
  obtain ⟨new, same, lnew, holds⟩ := insert_holds kernel numa set
    (simulates_remove turning.simulates turning.tail) fresh settles
    (placed_walkable placed arrives behind
      (Or.inr ⟨own, by simp [Splice.remove], by omega⟩)) run
  refine ⟨(splice.remove own rest).arrive new, ⟨holds, ?_, ?_⟩⟩
  · rw [lnew]
    rw [List.map_cons, ← same] at placed
    rw [← same] at arrives behind
    exact placed_arrive placed arrives behind ⟨own, listed, by omega⟩
  · rw [lnew, Splice.arrive_done]
    exact turning_strict kernel numa set turning (by omega)

end Turning

end Turns

section Run
variable {conts : Containers} {state : κ} {all : List Node} {merge after : Merge κ}
  {splice : Splice ContPtr}

/-- A turn of the merge loop, by the PIDs it compares. -/
theorem merge_step_going {next item : Node} {others later : List Node} {own : Member ContPtr}
    {rest : List (Member ContPtr)}
    (turning : Turning kernel numa set set.trackpids old scan conts state all merge splice next item
      others later own rest) (listed : Listed set.trackpids (pids old))
    (run : mergeStep kernel numa set merge next others item later = .ok after) :
    ∃ splice, Going kernel numa set set.trackpids old scan conts state all after splice := by
  have same : next.pid = own.pid := turning.first.pid
  have member := pid_mem (turning_listed kernel numa set turning)
  have positive := turning.placed.positive item.pid (turning_scanned kernel numa set turning)
  have nonzero := listed.nonzero own.pid member
  have first := turning.first
  rw [mergeStep, same] at run
  split_ifs at run with inserts replaces lower negative tracks
  · -- a deactivated node is replaced
    exact turn_replace_going kernel numa set turning replaces.1 (by omega) positive run
  · -- a new node
    refine turn_insert_going kernel numa set turning ?_ run
    rcases inserts with larger | negated
    · exact larger
    · exact absurd ⟨negated.1, by omega⟩ replaces
  · -- a node deactivated before stays so
    cases run
    have missing := turning_missing kernel numa set turning lower
    have absent : own.pid ∉ scan := fun inside => by
      have := turning.placed.positive own.pid inside
      omega
    have tracks : set.trackpids = true := by
      by_contra off
      have := listed.positive (by simpa using off) own.pid member
      omega
    refine ⟨_, turn_pass_going kernel numa set turning lower ⟨?_, first.cont, first.sibl,
      first.allocated⟩ ?_⟩
    · rw [pidAfter, if_neg absent]
      omega
    · rw [Stays, if_pos tracks]
      intro inside
      rw [show (own.pid.natAbs : Int) = -own.pid by omega] at missing
      exact missing inside
  · -- a node is deactivated
    cases run
    have missing := turning_missing kernel numa set turning lower
    have absent : own.pid ∉ scan := by
      rw [show (own.pid.natAbs : Int) = own.pid by omega] at missing
      exact missing
    refine ⟨_, turn_pass_going kernel numa set turning lower ⟨?_, first.cont, first.sibl,
      first.allocated⟩ ?_⟩
    · rw [pidAfter, if_neg absent]
      dsimp only
      omega
    · rw [Stays, if_pos tracks]
      intro inside
      have := turning.placed.positive (-own.pid) inside
      omega
  · -- a node is dropped
    cases run
    have missing := turning_missing kernel numa set turning lower
    refine ⟨_, turn_remove_going kernel numa set turning lower ?_⟩
    rw [Stays, if_neg tracks]
    rw [show (own.pid.natAbs : Int) = own.pid by omega] at missing
    exact missing
  · -- the same task
    cases run
    have alive : 0 < own.pid := by
      by_contra dead
      have tracks : set.trackpids = true := by
        by_contra off
        exact dead (listed.positive (by simpa using off) own.pid member)
      exact inserts (Or.inr ⟨tracks, by omega⟩)
    exact ⟨_, turn_keep_going kernel numa set turning (by omega)⟩

theorem merge_loop_going (listed : Listed set.trackpids (pids old)) (turns : Nat)
    (going : Going kernel numa set set.trackpids old scan conts state all merge splice)
    (run : mergeLoop kernel numa set turns merge = .ok after) :
    ∃ splice, Going kernel numa set set.trackpids old scan conts state all after splice := by
  have sorted : old.Pairwise fun first second => second.pid.natAbs < first.pid.natAbs :=
    List.pairwise_map.mp listed.descending
  induction turns generalizing merge splice with
  | zero =>
      cases run
      exact ⟨splice, going⟩
  | succ turns ih =>
      rw [mergeLoop] at run
      split at run
      · rename_i next others item later list lnew
        obtain ⟨own, rest, behind, first, tail⟩ := simulates_rest going.simulates list
        obtain ⟨stepped, step, run⟩ := bind_ok run
        obtain ⟨splice, going⟩ := merge_step_going kernel numa set
          ⟨going, list, lnew, behind, first, tail, sorted⟩ listed step
        exact ih going run
      · cases run
        exact ⟨splice, going⟩

/-- The old list is through. -/
structure Ending (trackpids : Bool) (old : List (Member ContPtr)) (scan : List Int)
    (conts : Containers) (state : κ) (all : List Node) (merge : Merge κ)
    (splice : Splice ContPtr) : Prop
    extends Holds kernel numa set trackpids old scan conts state all merge splice where
  ended : Ended trackpids old scan (merge.lnew.map Node.pid) splice
  strict : ∀ other ∈ old, ∀ item ∈ merge.lnew, item.pid < other.pid.natAbs

theorem drop_rest_ending
    (going : Going kernel numa set set.trackpids old scan conts state all merge splice)
    (through : merge.rest = []) :
    Ending kernel numa set set.trackpids old scan conts state all (dropRest set merge)
      splice.finish := by
  have rest := going.simulates.rest
  rw [through, List.forall₂_nil_right_iff] at rest
  have done : splice.done = old := by rw [going.placed.all, rest, List.append_nil]
  have strict : ∀ other ∈ old, ∀ item ∈ merge.lnew, item.pid < other.pid.natAbs :=
    fun other inside => going.strict other (done ▸ inside)
  have front : (dropRest set merge).front = merge.front := by
    rw [dropRest, through]
    simp
  refine ⟨⟨⟨?_, rfl, ?_, going.simulates.sound⟩, going.fresh, going.settles⟩, ?_, strict⟩
  · rw [front]
    exact going.simulates.front
  · change List.Forall₂ _ splice.behind []
    rw [rest]
    exact .nil
  · refine placed_finish going.placed rest fun other inside pid ahead => ?_
    obtain ⟨item, listed, rfl⟩ := List.mem_map.mp ahead
    exact strict other inside item listed

theorem insert_rest_ending (turns : Nat)
    (ending : Ending kernel numa set trackpids old scan conts state all merge splice)
    (enough : merge.lnew.length ≤ turns)
    (run : insertRest kernel numa set turns merge = .ok after) :
    after.lnew = [] ∧
      ∃ splice, Ending kernel numa set trackpids old scan conts state all after splice := by
  induction turns generalizing merge splice with
  | zero =>
      cases run
      exact ⟨List.length_eq_zero_iff.mp (by omega), splice, ending⟩
  | succ turns ih =>
      rw [insertRest] at run
      cases lnew : merge.lnew with
      | nil =>
          rw [lnew] at run
          cases run
          exact ⟨lnew, splice, ending⟩
      | cons item later =>
          rw [lnew] at run
          obtain ⟨inserted, step, run⟩ := bind_ok run
          have ended := ending.ended
          have fresh := ending.fresh
          have settles := ending.settles
          rw [lnew] at ended fresh settles
          have arrives : Arrives (pids old) scan item.pid := by
            have scanned := ended.part item.pid (by simp)
            have positive := ended.positive item.pid scanned
            refine ⟨scanned, fun inside => ?_⟩
            obtain ⟨other, listed, same⟩ := List.mem_map.mp inside
            have := ending.strict other listed item (by simp [lnew])
            omega
          obtain ⟨new, same, left, holds⟩ := insert_holds kernel numa set ending.simulates fresh
            settles (ended_walkable ended arrives) step
          rw [List.map_cons, ← same] at ended
          rw [← same] at arrives
          refine ih ⟨holds, ?_, ?_⟩ ?_ run
          · rw [left]
            exact ended_arrive ended arrives
          · rw [left]
            exact fun other inside item ahead =>
              ending.strict other inside item (by simp [lnew, ahead])
          · rw [lnew, List.length_cons] at enough
            rw [left]
            omega

end Run

/-- The list after a scan: its active nodes are those of the scan, with the flags
the walks have given. -/
structure Outcome (trackpids : Bool) (old new : List (Member ContPtr)) (scan : List Int)
    (conts : Containers) (nhead : List Node) : Prop where
  sound : Sound conts
  allocated : ∀ item ∈ nhead, Allocated conts item
  node : ∀ item ∈ nhead, 0 < item.pid → ∃ own ∈ old ++ new, own.pid ∈ scan ∧
    Shows conts (Marked trackpids (pids old) scan (old ++ new)) id own item
  found : ∀ own ∈ old ++ new, own.pid ∈ scan → ∃ item ∈ nhead,
    Shows conts (Marked trackpids (pids old) scan (old ++ new)) id own item

theorem outcome_of_front {merge : Merge κ} {splice : Splice ContPtr} (extra : List Node)
    (simulates : Simulates trackpids old scan merge splice)
    (listed : ∀ own ∈ splice.hidden ++ splice.shown, own ∈ old ++ splice.arrived)
    (scanned : ∀ own ∈ old ++ splice.arrived, own.pid ∈ scan → own ∈ splice.hidden ++ splice.shown)
    (inactive : ∀ item ∈ extra, item.pid ≤ 0 ∧ Allocated merge.conts item) :
    Outcome trackpids old splice.arrived scan merge.conts (merge.front ++ extra) where
  sound := simulates.sound
  allocated := by
    intro item inside
    rcases List.mem_append.mp inside with front | rest
    · obtain ⟨own, _, shows⟩ := forall_mem_right simulates.front front
      exact shows.allocated
    · exact (inactive item rest).2
  node := by
    intro item inside alive
    rcases List.mem_append.mp inside with front | rest
    · obtain ⟨own, member, shows⟩ := forall_mem_right simulates.front front
      have pid := shows.pid
      rw [pidAfter] at pid
      split_ifs at pid with scanned
      · exact ⟨own, listed own member, scanned, pid, shows.cont, shows.sibl, shows.allocated⟩
      · omega
    · have := (inactive item rest).1
      omega
  found := by
    intro own inside scan
    obtain ⟨item, front, shows⟩ := forall_mem_right simulates.front.flip (scanned own inside scan)
    exact ⟨item, List.mem_append_left _ front, shows.pid.trans (if_pos scan), shows.cont, shows.sibl,
      shows.allocated⟩

theorem member_pids (conts : Containers) (nhead : List Node) :
    pids (nhead.map (member conts)) = nhead.map Node.pid := by
  rw [pids, List.map_map]
  rfl

/-- A node list and a configuration as scans and lookups leave them. -/
structure Ready (trackpids : Bool) (world : World κ) : Prop where
  listed : Listed trackpids (world.nhead.map Node.pid)
  sound : Sound world.conts
  allocated : ∀ item ∈ world.nhead, Allocated world.conts item

/-- Before the first scan the configuration is as the parser leaves it. -/
theorem parsed_ready (trackpids : Bool) {root : ParseConfig.Json} {conts : Containers}
    (parsed : ParseConfig.parseConfig root {} = .ok conts) (state : κ) :
    Ready trackpids (⟨[], conts, state⟩ : World κ) :=
  ⟨⟨.nil, by simp, by simp⟩, DisposedOnce.parsed_sound parsed, by simp⟩

section World
variable {world next : World κ} {nodes : List Node} {calls : List (Node × Node)}

theorem sorted_mem {pid : Int} :
    pid ∈ (qsortll cmpPidItem nodes).map Node.pid ↔ pid ∈ nodes.map Node.pid :=
  ((qsortll_perm cmpPidItem nodes).map Node.pid).mem_iff

/-- Before the first turn nothing is passed and nothing has come. -/
theorem start_going (ready : Ready set.trackpids world) (scanned : Scanned nodes) :
    Going kernel numa set set.trackpids (world.nhead.map (member world.conts))
      (nodes.map Node.pid) world.conts world.kernel (qsortll cmpPidItem nodes)
      { rest := world.nhead
        lnew := qsortll cmpPidItem nodes
        conts := world.conts
        kernel := world.kernel }
      ⟨[], [], world.nhead.map (member world.conts), [], []⟩ := by
  have perm := qsortll_perm cmpPidItem nodes
  have fresh : ∀ item ∈ qsortll cmpPidItem nodes, Fresh item := fun item inside =>
    scanned.fresh item (perm.mem_iff.mp inside)
  refine ⟨⟨⟨.nil, rfl, ?_, ready.sound⟩, fresh, fun more settled => settled⟩, ?_,
    fun _ none => (by cases none)⟩
  · rw [List.forall₂_map_left_iff, List.forall₂_same]
    intro item inside
    refine ⟨rfl, rfl, ⟨Or.inl, ?_⟩, ready.allocated item inside⟩
    rintro (flagged | ⟨other, listed, _, walks⟩)
    · exact flagged
    · rw [List.append_nil] at listed
      rcases walks with own | other
      · exact absurd (pid_mem (List.mem_map_of_mem inside)) own.1.2
      · exact absurd (pid_mem listed) other.1.2
  · constructor
    · constructor
      · intro pid inside
        obtain ⟨item, listed, rfl⟩ := List.mem_map.mp inside
        exact (scanned.fresh item listed).pid
      · exact fun pid inside => sorted_mem.mp inside
      · refine List.pairwise_map.mpr ((sorted_scan scanned).imp_of_mem fun {a b} first second less => ?_)
        have := (fresh a first).pid
        have := (fresh b second).pid
        simp only [key] at less
        omega
      · exact fun pid inside gone => absurd (sorted_mem.mpr inside) gone
      · intro pid
        constructor
        · intro none
          cases none
        · rintro ⟨arrives, gone⟩
          exact absurd (sorted_mem.mpr arrives.1) gone
      · exact fun _ none => by cases none
    · rfl
    · exact fun pid inside gone => absurd (sorted_mem.mpr inside) gone
    · exact fun _ none => by cases none
    · simp
    · simp
    · simp

/-- The list after a scan. -/
theorem scan_new_outcome (ready : Ready set.trackpids world) (scanned : Scanned nodes)
    (run : scanNew kernel numa set world nodes = .ok (next, calls)) :
    ∃ new, settle kernel numa set world.conts world.kernel
        (arriving (world.nhead.map Node.pid) (qsortll cmpPidItem nodes)) = .ok new ∧
      Outcome set.trackpids (world.nhead.map (member world.conts)) new (nodes.map Node.pid)
        next.conts next.nhead := by
  have listed : Listed set.trackpids (pids (world.nhead.map (member world.conts))) := by
    rw [member_pids]
    exact ready.listed
  obtain ⟨merged, mergeRun, rest⟩ := bind_ok run
  obtain ⟨final, insertRun, last⟩ := bind_ok rest
  cases last
  obtain ⟨splice, going⟩ := merge_loop_going kernel numa set listed _
    (start_going kernel numa set ready scanned) mergeRun
  have ended : merged.rest = [] ∨ merged.lnew = [] := by
    obtain ⟨after, again, _, _, ended⟩ := merge_loop_runs kernel numa set
      (world.nhead.length + (qsortll cmpPidItem nodes).length)
      (⟨ready.listed, sorted_scan scanned, fun item inside => scanned.fresh item
        ((qsortll_perm cmpPidItem nodes).mem_iff.mp inside)⟩ :
        Pending set.trackpids (⟨[], world.nhead, qsortll cmpPidItem nodes, 0, world.conts,
          world.kernel, []⟩ : Merge κ)) le_rfl
    rw [again] at mergeRun
    cases mergeRun
    exact ended
  rw [← member_pids world.conts]
  by_cases through : merged.rest = []
  · obtain ⟨empty, splice, ending⟩ := insert_rest_ending kernel numa set _
      (drop_rest_ending kernel numa set going through) le_rfl insertRun
    have settled := ending.settles []
    rw [empty] at settled
    refine ⟨splice.arrived ++ [], settled rfl, ?_⟩
    rw [List.append_nil]
    have outcome := outcome_of_front [] ending.simulates
      (fun own inside => ended_listed ending.ended own (List.mem_append_left _ inside))
      (fun own inside scanned => ended_front ending.ended inside scanned) (by simp)
    rw [List.append_nil] at outcome
    exact outcome
  · have empty := ended.resolve_left through
    have placed := going.placed
    have settled := going.settles []
    rw [empty] at placed settled
    refine ⟨splice.arrived ++ [], settled rfl, ?_⟩
    rw [List.append_nil]
    have stops : insertRest kernel numa set (dropRest set merged).lnew.length (dropRest set merged) =
        .ok (dropRest set merged) := by
      rw [show (dropRest set merged).lnew = [] from empty]
      rfl
    rw [stops] at insertRun
    cases insertRun
    refine outcome_of_front _ going.simulates
      (fun own inside => placed_listed placed own (List.mem_append_left _ inside))
      (fun own inside scanned => placed_front placed inside scanned) fun item inside => ?_
    split_ifs at inside
    · obtain ⟨old, member, rfl⟩ := List.mem_map.mp inside
      obtain ⟨own, _, shows⟩ := forall_mem_right going.simulates.rest member
      refine ⟨?_, shows.allocated⟩
      simp only [deactivate]
      omega
    · cases inside

/-- Two active nodes of a container carry `MSK_STATSIBL`. -/
def Complete (world : World κ) : Prop :=
  ∀ first ∈ world.nhead, ∀ second ∈ world.nhead, first ≠ second → 0 < first.pid → 0 < second.pid →
    contOf world.conts first ≠ none → contOf world.conts first = contOf world.conts second →
      first.status.sibl = true ∧ second.status.sibl = true

instance (world : World κ) : Decidable (Complete world) :=
  inferInstanceAs (Decidable (∀ first ∈ world.nhead, ∀ second ∈ world.nhead, first ≠ second →
    0 < first.pid → 0 < second.pid → contOf world.conts first ≠ none →
      contOf world.conts first = contOf world.conts second →
        first.status.sibl = true ∧ second.status.sibl = true))

/-- A new node and another node of its container are flagged before the scan, or
meet one of the container on a walk, or are met on one. -/
def Met (world : World κ) (nodes : List Node) : Prop :=
  ∀ new, settle kernel numa set world.conts world.kernel
      (arriving (world.nhead.map Node.pid) (qsortll cmpPidItem nodes)) = .ok new →
    let old := world.nhead.map (member world.conts)
    let marked := Marked set.trackpids (pids old) (nodes.map Node.pid) (old ++ new)
    ∀ first ∈ new, ∀ second ∈ old ++ new, first.pid ≠ second.pid →
      second.pid ∈ nodes.map Node.pid → Shares first second → marked first ∧ marked second

theorem settle_pids {conts : Containers} {state : κ} {items : List Node}
    {new : List (Member ContPtr)} (fresh : ∀ item ∈ items, Fresh item)
    (settled : settle kernel numa set conts state items = .ok new) :
    pids new = items.map Node.pid := by
  induction items generalizing conts state new with
  | nil =>
      cases settled
      rfl
  | cons item later ih =>
      obtain ⟨⟨look, written⟩, first, rest⟩ := bind_ok settled
      obtain ⟨more, last, done⟩ := bind_ok rest
      cases done
      have item_fresh := fresh item (List.mem_cons_self ..)
      obtain ⟨final, _, _, made, same, _⟩ := set_pid_resources_runs kernel numa set
        { conts := conts, nhead := [], node := item } state item_fresh.pid.ne' item_fresh.imgid
      rw [made] at first
      cases first
      have tail := ih (fun other inside => fresh other (List.mem_cons_of_mem _ inside)) last
      rw [pids, List.map_cons, List.map_cons]
      exact congrArg₂ List.cons same.1 tail

/-- The flags are complete after a scan if they were before, and the walks meet
the siblings of the new nodes. -/
theorem scan_complete_iff (ready : Ready set.trackpids world) (scanned : Scanned nodes)
    (complete : Complete world) (run : scanNew kernel numa set world nodes = .ok (next, calls))
    (distinct : (next.nhead.map Node.pid).Nodup) :
    Complete next ↔ Met kernel numa set world nodes := by
  obtain ⟨new, settled, outcome⟩ := scan_new_outcome kernel numa set ready scanned run
  have fresh : ∀ item ∈ arriving (world.nhead.map Node.pid) (qsortll cmpPidItem nodes),
      Fresh item ∧ item.pid ∈ nodes.map Node.pid := by
    intro item inside
    have listed := (qsortll_perm cmpPidItem nodes).mem_iff.mp (List.mem_of_mem_filter inside)
    exact ⟨scanned.fresh item listed, List.mem_map_of_mem listed⟩
  have newScanned : ∀ own ∈ new, own.pid ∈ nodes.map Node.pid := by
    intro own inside
    have listed := pid_mem inside
    rw [settle_pids kernel numa set (fun item inside => (fresh item inside).1) settled] at listed
    obtain ⟨item, comes, same⟩ := List.mem_map.mp listed
    rw [← same]
    exact (fresh item comes).2
  have positive : ∀ pid ∈ nodes.map Node.pid, 0 < pid := fun pid inside =>
    scan_positive scanned inside
  constructor
  · intro after others settled' old marked first firstNew second secondIn apart secondScanned shares
    rw [settled] at settled'
    cases settled'
    have firstIn := List.mem_append_right old firstNew
    have firstScanned := newScanned first firstNew
    obtain ⟨one, oneIn, oneShows⟩ := outcome.found first firstIn firstScanned
    obtain ⟨two, twoIn, twoShows⟩ := outcome.found second secondIn secondScanned
    have onePid : one.pid = first.pid := oneShows.pid
    have twoPid : two.pid = second.pid := twoShows.pid
    have flags := after one oneIn two twoIn (fun same => apart (by rw [← onePid, same, twoPid]))
      (onePid ▸ positive _ firstScanned) (twoPid ▸ positive _ secondScanned)
      (by rw [oneShows.cont]; exact shares.1) (by rw [oneShows.cont, twoShows.cont]; exact shares.2)
    exact ⟨oneShows.sibl.mp flags.1, twoShows.sibl.mp flags.2⟩
  · intro met one oneIn two twoIn unequal oneAlive twoAlive grouped same
    obtain ⟨first, firstIn, firstScanned, oneShows⟩ := outcome.node one oneIn oneAlive
    obtain ⟨second, secondIn, secondScanned, twoShows⟩ := outcome.node two twoIn twoAlive
    have onePid : one.pid = first.pid := oneShows.pid
    have twoPid : two.pid = second.pid := twoShows.pid
    have apart : first.pid ≠ second.pid := by
      intro equal
      exact unequal (List.inj_on_of_nodup_map distinct oneIn twoIn (by rw [onePid, equal, twoPid]))
    have shares : Shares first second := by
      rw [oneShows.cont] at grouped same
      rw [twoShows.cont] at same
      exact ⟨grouped, same⟩
    suffices Marked set.trackpids _ (nodes.map Node.pid) _ first ∧
        Marked set.trackpids _ (nodes.map Node.pid) _ second from
      ⟨oneShows.sibl.mpr this.1, twoShows.sibl.mpr this.2⟩
    rcases List.mem_append.mp firstIn with firstOld | firstNew
    · rcases List.mem_append.mp secondIn with secondOld | secondNew
      · -- both were in the list, with their flags
        obtain ⟨a, aIn, rfl⟩ := List.mem_map.mp firstOld
        obtain ⟨b, bIn, rfl⟩ := List.mem_map.mp secondOld
        have flags := complete a aIn b bIn (fun equal => apart (by rw [equal]))
          (positive _ firstScanned) (positive _ secondScanned) shares.1 shares.2
        exact ⟨Or.inl flags.1, Or.inl flags.2⟩
      · exact (met new settled second secondNew first firstIn apart.symm firstScanned
          (shares_symm shares)).symm
    · exact met new settled first firstNew second secondIn apart secondScanned shares

/-- Scans leave what they need. -/
theorem scan_ready (ready : Ready set.trackpids world) (scanned : Scanned nodes)
    (run : scanNew kernel numa set world nodes = .ok (next, calls)) :
    Ready set.trackpids next ∧ (next.nhead.map Node.pid).Nodup := by
  obtain ⟨_, _, outcome⟩ := scan_new_outcome kernel numa set ready scanned run
  obtain ⟨other, made, again, same, merges⟩ := scan_new_runs kernel numa set world ready.listed scanned
  rw [run] at again
  cases again
  have merged := merged_of_merges ready.listed scanned same merges
  refine ⟨⟨listed_of_merged ready.listed scanned merged, outcome.sound, outcome.allocated⟩, ?_⟩
  refine merged.descending.imp fun less same => ?_
  rw [same] at less
  exact Nat.lt_irrefl _ less

end World

/-- Every list of a run of scans has complete flags. -/
def CompleteThrough : World κ → List (List Node) → Prop
  | _, [] => True
  | world, nodes :: scans =>
      ∃ next calls, scanNew kernel numa set world nodes = .ok (next, calls) ∧ Complete next ∧
        CompleteThrough next scans

/-- In every scan of a run the siblings of the new nodes are met. -/
def MetThrough : World κ → List (List Node) → Prop
  | _, [] => True
  | world, nodes :: scans => Met kernel numa set world nodes ∧
      ∃ next calls, scanNew kernel numa set world nodes = .ok (next, calls) ∧
        MetThrough next scans

/-- A run of scans keeps the flags complete exactly if each new node and its
siblings are flagged when it comes or meet on a walk. -/
theorem siblings_complete_iff (scans : List (List Node)) {world : World κ}
    (ready : Ready set.trackpids world) (scanned : ∀ nodes ∈ scans, Scanned nodes)
    (complete : Complete world) :
    CompleteThrough kernel numa set world scans ↔ MetThrough kernel numa set world scans := by
  induction scans generalizing world with
  | nil => exact Iff.rfl
  | cons nodes scans ih =>
      have first := scanned nodes (List.mem_cons_self ..)
      obtain ⟨next, calls, run, _⟩ := scan_new_runs kernel numa set world ready.listed first
      obtain ⟨still, distinct⟩ := scan_ready kernel numa set ready first run
      have step := scan_complete_iff kernel numa set ready first complete run distinct
      have later := fun whole : Complete next =>
        ih still (fun other inside => scanned other (List.mem_cons_of_mem _ inside)) whole
      constructor
      · rintro ⟨other, made, again, whole, rest⟩
        rw [run] at again
        cases again
        exact ⟨step.mp whole, next, calls, run, (later whole).mp rest⟩
      · rintro ⟨met, other, made, again, rest⟩
        rw [run] at again
        cases again
        have whole := step.mpr met
        exact ⟨next, calls, run, whole, (later whole).mpr rest⟩

end Insert

/-- The containers `a1` and `b2` without further settings. -/
def twoConts : Containers where
  cont := [1, 2]
  contAt := fun c => { contid := some ⟨c + 2, if c = 1 then "a1".toList else "b2".toList⟩ }
  brk := 5

/-- A PID as `getContPids` pushes it; the flag tells that the container has others. -/
def pushed (id : String) (pid : Nat) (sibl : Bool) : Node where
  loc := pid
  pid := pid
  status := { sibl := sibl }
  contid := some ⟨pid, id.toList⟩

def cgroupMode : PrgSet := { useCgroup := .cgrp }

def emptyList : World Unit := ⟨[], twoConts, ()⟩

theorem empty_ready : Ready false emptyList := by
  refine ⟨⟨.nil, by simp [emptyList], by simp [emptyList]⟩, ?_, by simp [emptyList]⟩
  constructor
  · constructor <;> simp [emptyList, twoConts, LookupEdits.Below]
  all_goals simp [emptyList, twoConts]

/-- PID 40 comes to the container of PID 50. -/
def follows : List (List Node) :=
  [[pushed "b2" 50 false], [pushed "b2" 50 true, pushed "b2" 40 true]]

theorem pushed_fresh (id : String) {pid : Nat} (positive : 0 < pid) (sibl : Bool) :
    Fresh (pushed id pid sibl) :=
  ⟨Int.natCast_pos.mpr positive, rfl, rfl⟩

theorem follows_scanned : ∀ nodes ∈ follows, Scanned nodes := by
  intro nodes inside
  simp only [follows, List.mem_cons, List.not_mem_nil, or_false] at inside
  rcases inside with rfl | rfl
  · refine ⟨by decide, fun item inside => ?_⟩
    simp only [List.mem_cons, List.not_mem_nil, or_false] at inside
    subst inside
    exact pushed_fresh _ (by decide) _
  · refine ⟨by decide, fun item inside => ?_⟩
    simp only [List.mem_cons, List.not_mem_nil, or_false] at inside
    rcases inside with rfl | rfl <;> exact pushed_fresh _ (by decide) _

/-- PID 50 is before the new one, whose walk meets it. -/
theorem follows_met : MetThrough quietKernel ⟨64, {0, 1}⟩ cgroupMode emptyList follows := by
  have run : returns
      (scanNew quietKernel ⟨64, {0, 1}⟩ cgroupMode emptyList [pushed "b2" 50 false])
      (fun first => decide (Complete first.1) && returns
        (scanNew quietKernel ⟨64, {0, 1}⟩ cgroupMode first.1
          [pushed "b2" 50 true, pushed "b2" 40 true])
        (fun last => decide (Complete last.1))) = true := by
    decide +kernel
  obtain ⟨⟨first, calls⟩, one, rest⟩ := (returns_iff _ _).mp run
  obtain ⟨whole, rest⟩ := Bool.and_eq_true_iff.mp rest
  obtain ⟨⟨last, more⟩, two, rest⟩ := (returns_iff _ _).mp rest
  exact (siblings_complete_iff quietKernel ⟨64, {0, 1}⟩ cgroupMode follows empty_ready
    follows_scanned (by decide)).mp
    ⟨first, calls, one, of_decide_eq_true whole, last, more, two, of_decide_eq_true rest, trivial⟩

/-- PID 75 comes to the container of PID 50 and is put before it, behind a PID of
another container; its walk ends there. -/
theorem joined_unflagged :
    Ready false emptyList ∧ ∃ first calls last more,
      scanNew quietKernel ⟨64, {0, 1}⟩ cgroupMode emptyList
        [pushed "a1" 100 false, pushed "b2" 50 false] = .ok (first, calls) ∧
      Complete first ∧
      scanNew quietKernel ⟨64, {0, 1}⟩ cgroupMode first
        [pushed "a1" 100 false, pushed "b2" 75 true, pushed "b2" 50 true] = .ok (last, more) ∧
      ¬ Complete last := by
  have run : returns
      (scanNew quietKernel ⟨64, {0, 1}⟩ cgroupMode emptyList
        [pushed "a1" 100 false, pushed "b2" 50 false])
      (fun first => decide (Complete first.1) && returns
        (scanNew quietKernel ⟨64, {0, 1}⟩ cgroupMode first.1
          [pushed "a1" 100 false, pushed "b2" 75 true, pushed "b2" 50 true])
        (fun last => decide (¬ Complete last.1))) = true := by
    decide +kernel
  obtain ⟨⟨first, calls⟩, one, rest⟩ := (returns_iff _ _).mp run
  obtain ⟨whole, rest⟩ := Bool.and_eq_true_iff.mp rest
  obtain ⟨⟨last, more⟩, two, rest⟩ := (returns_iff _ _).mp rest
  exact ⟨empty_ready, first, calls, last, more, one, of_decide_eq_true whole, two,
    of_decide_eq_true rest⟩

end Orchestrator.SiblingFlags
