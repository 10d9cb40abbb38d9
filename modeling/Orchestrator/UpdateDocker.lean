import Orchestrator.Dockerlink
import Orchestrator.ScanNew

/-!
`updateDocker` of `update.c`: what the main loop does with the events it takes
from the docker link.
-/

namespace Orchestrator.UpdateDocker
open Orchdata Traversal ParseConfig Dockerlink PidResources ScanNew

section Code
variable {κ : Type} (kernel : Kernel κ) (numa : Numa) (set : PrgSet)

/-- `cnt_add`: a node with the names of the container, only used for the lookup. -/
def cntAdd (world : World κ) (lstevent : Contevent) : Except Stop (World κ) := do
  let linked : Node :=
    { loc := world.conts.brk
      pid := 0
      psig := some lstevent.name
      contid := some lstevent.id
      imgid := some lstevent.image }
  let (look, written) ← setPidResources kernel numa set
    { conts := { world.conts with brk := world.conts.brk + 1 }
      nhead := world.nhead
      node := linked } world.kernel
  pure { nhead := look.nhead, conts := look.conts, kernel := written }

/-- The loop of `cnt_remove` from `dummy` on: the ids are compared as pointers. -/
def dropMatching (trackpids : Bool) (id : Str) : List Node → List Node
  | [] => []
  | item :: rest =>
      if item.contid.map Str.loc = some id.loc then
        if trackpids then deactivate item :: dropMatching trackpids id rest
        else dropMatching trackpids id rest
      else item :: dropMatching trackpids id rest

/-- `nhead` still points to the node that was first, which may be freed. -/
def headedBy (nhead dropped : List Node) : Except Stop (List Node) :=
  match nhead with
  | [] => .ok dropped
  | first :: _ => if dropped.head?.map Node.loc = some first.loc then .ok dropped else .error .segv

def cntRemove (world : World κ) (lstevent : Contevent) : Except Stop (World κ) := do
  let nhead ← headedBy world.nhead (dropMatching set.trackpids lstevent.id world.nhead)
  pure { world with nhead := nhead }

/-- Loop body: one event. -/
def handleEvent (world : World κ) (lstevent : Contevent) : Except Stop (World κ) :=
  match lstevent.event with
  | .add => cntAdd kernel numa set world lstevent
  | .remove => cntRemove set world lstevent
  | .pending => .ok world

/-- `updateDocker` on the events it finds until the mailbox is empty, followed by
the scan if there was one. -/
def updateDocker (world : World κ) (events : List Contevent) (scan : List Node) :
    Except Stop (World κ) :=
  match events with
  | [] => .ok world
  | _ => do
      let handled ← events.foldlM (handleEvent kernel numa set) world
      let (scanned, _) ← scanNew kernel numa set handled scan
      pure scanned

end Code

/-- An active node of the container. -/
def runsIn (id : List Char) (item : Node) : Bool :=
  active item && item.contid.map Str.text == some id

/-- The node list without the container: its nodes are gone, or deactivated if
PIDs are tracked, the others are as before and in their order. -/
def withoutContainer (trackpids : Bool) (id : List Char) (nhead : List Node) : List Node :=
  if trackpids then nhead.map fun item => if runsIn id item then deactivate item else item
  else nhead.filter fun item => !runsIn id item

theorem without_container_inactive (trackpids : Bool) (id : List Char) (nhead : List Node)
    (item : Node) (member : item ∈ withoutContainer trackpids id nhead) :
    runsIn id item = false := by
  rw [withoutContainer] at member
  cases trackpids with
  | true =>
      obtain ⟨old, _, rfl⟩ := List.mem_map.mp member
      split_ifs with runs
      · have negative : ¬ 0 < (deactivate old).pid := by
          simp only [deactivate]
          omega
        simp [runsIn, active, negative]
      · simpa using runs
  | false =>
      have kept := (List.mem_filter.mp member).2
      simpa using kept

section Removal
variable {nhead : List Node} {id : Str}

/-- A new string has an address of its own. -/
theorem drop_matching_new (trackpids : Bool)
    (older : ∀ item ∈ nhead, item.contid.map Str.loc ≠ some id.loc) :
    dropMatching trackpids id nhead = nhead := by
  induction nhead with
  | nil => rfl
  | cons item rest ih =>
      have apart := older item List.mem_cons_self
      rw [dropMatching, if_neg apart, ih fun other member => older other (List.mem_cons_of_mem _ member)]

theorem headed_by_same (nhead : List Node) : headedBy nhead nhead = .ok nhead := by
  cases nhead with
  | nil => rfl
  | cons first rest => simp [headedBy]

theorem without_container_same_iff (trackpids : Bool) (text : List Char) :
    withoutContainer trackpids text nhead = nhead ↔ ∀ item ∈ nhead, runsIn text item = false := by
  constructor
  · intro same item member
    rw [← same] at member
    exact without_container_inactive trackpids text nhead item member
  · intro none
    rw [withoutContainer]
    cases trackpids with
    | true =>
        have idle : ∀ item ∈ nhead,
            (if runsIn text item then deactivate item else item) = item := fun item member => by
          rw [if_neg (by simp [none item member])]
        rw [if_pos rfl, List.map_congr_left idle, List.map_id']
    | false =>
        rw [if_neg nofun, List.filter_eq_self]
        intro item member
        simp [none item member]

theorem cnt_remove_new {κ : Type} (set : PrgSet) (world : World κ) (lstevent : Contevent)
    (older : ∀ item ∈ world.nhead, item.contid.map Str.loc ≠ some lstevent.id.loc) :
    cntRemove set world lstevent = .ok world := by
  rw [cntRemove, drop_matching_new set.trackpids older, headed_by_same]
  rfl

/-- The removal of a container takes effect exactly when there is nothing to do:
the id of the event is a new string, and its address is compared. -/
theorem removal_takes_effect_iff {κ : Type} (kernel : Kernel κ) (numa : Numa) (set : PrgSet)
    (world : World κ) (root : Json) (brk later : Nat) (lstevent : Contevent)
    (built : checkEvent root brk = .ok (some lstevent, later))
    (kind : lstevent.event = .remove)
    (older : ∀ item ∈ world.nhead, ∀ contid, item.contid = some contid → contid.loc < brk) :
    (∃ after, handleEvent kernel numa set world lstevent = .ok after ∧
        after.nhead = withoutContainer set.trackpids lstevent.id.text world.nhead ∧
        ∀ item ∈ after.nhead, runsIn lstevent.id.text item = false) ↔
      ∀ item ∈ world.nhead, runsIn lstevent.id.text item = false := by
  have new : ∀ item ∈ world.nhead, item.contid.map Str.loc ≠ some lstevent.id.loc := by
    intro item member same
    obtain ⟨contid, named, loc⟩ := Option.map_eq_some_iff.mp same
    have below := older item member contid named
    have above := check_event_addr built
    omega
  have handled : handleEvent kernel numa set world lstevent = .ok world := by
    rw [handleEvent, kind]
    exact cnt_remove_new set world lstevent new
  constructor
  · rintro ⟨after, run, _, gone⟩
    rw [handled] at run
    cases run
    exact gone
  · intro none
    refine ⟨world, handled, ?_, none⟩
    exact ((without_container_same_iff set.trackpids lstevent.id.text).mpr none).symm

/-- A container ends: a line of the pipe. -/
def killLine : Json :=
  .object [("Type", .string "container".toList), ("status", .string "kill".toList),
    ("id", .string "f00d".toList), ("from", .string "web".toList),
    ("Actor", .object [("Attributes", .object [("name", .string "front".toList)])]),
    ("scope", .string "local".toList), ("timeNano", .int 1)]

/-- The event of that line. -/
def killed : Contevent where
  event := .remove
  name := ⟨10, "front".toList⟩
  id := ⟨11, "f00d".toList⟩
  image := ⟨12, "web".toList⟩
  timenano := 1

/-- Two tasks of another container and a removed one of this. -/
def otherTasks : List Node :=
  [{ loc := 1, pid := 101, contid := some ⟨2, "beef".toList⟩ },
    { loc := 3, pid := -100, contid := some ⟨4, "f00d".toList⟩ },
    { loc := 5, pid := 99, contid := some ⟨6, "beef".toList⟩ }]

theorem removal_without_nodes :
    ∃ after, handleEvent quietKernel ⟨64, {0, 1}⟩ {} ⟨otherTasks, {}, ()⟩ killed = .ok after ∧
      after.nhead = withoutContainer false killed.id.text otherTasks ∧
      ∀ item ∈ after.nhead, runsIn killed.id.text item = false :=
  (removal_takes_effect_iff quietKernel ⟨64, {0, 1}⟩ {} ⟨otherTasks, {}, ()⟩ killLine 10 13 killed
    (by decide +kernel) rfl (by simp [otherTasks])).mpr (by decide)

/-- The main task of that container. -/
def killedTask : Node where
  loc := 1
  pid := 100
  contid := some ⟨2, "f00d".toList⟩

-- The task has the same id at another address, and stays active.
theorem killed_task_stays :
    checkEvent killLine 10 = .ok (some killed, 13) ∧
      handleEvent quietKernel ⟨64, {0, 1}⟩ {} ⟨[killedTask], {}, ()⟩ killed =
        .ok ⟨[killedTask], {}, ()⟩ ∧
      runsIn killed.id.text killedTask = true := by
  refine ⟨by decide +kernel, ?_, by decide⟩
  exact cnt_remove_new {} ⟨[killedTask], {}, ()⟩ killed (by decide)

end Removal

end Orchestrator.UpdateDocker
