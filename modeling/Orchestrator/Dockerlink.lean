import Orchestrator.Mailbox
import Orchestrator.ParseConfig
import Orchestrator.Traversal

/-!
The docker link: `check_event` and the state machine of `dlink_thread_watch` in
`dockerlink.c`, together with the consumer loop of `updateDocker` in `update.c`.
Loads and stores of `containerEvent` are single steps, so the two threads
interleave between any two of them.
-/

namespace Orchestrator.Dockerlink
open Orchdata ParseConfig Traversal

/-- `enum cont_events`. -/
inductive ContEvents where
  | add
  | remove
  | pending
  deriving DecidableEq, Repr

/-- `contevent_t`. -/
structure Contevent where
  event : ContEvents
  name : Str
  id : Str
  image : Str
  timenano : UInt64
  deriving DecidableEq, Repr

/-- `struct eventData`. -/
structure EventData where
  type : List Char
  status : Option (List Char) := none
  name : Option (List Char) := none
  id : Option (List Char) := none
  image : Option (List Char) := none
  scope : Option (List Char)
  timenano : UInt64

/-- The members of a container event; other types of events have none of them. -/
def readContainer (root : Json) (evnt : EventData) : Except Stop EventData := do
  let status ← getStringValueFrom root "status" false none
  let id ← getStringValueFrom root "id" false none
  let image ← getStringValueFrom root "from" false none
  let actor ← getInObject root "Actor" true
  let attrib ← getInObject actor "Attributes" true
  let name ← (if actor.isNull || attrib.isNull then .ok none
    else getStringValueFrom attrib "name" false none)
  .ok { evnt with status := status, id := id, image := image, name := name }

/-- `read_pipe` on a line of the pipe that is a JSON text. -/
def readPipe (root : Json) : Except Stop EventData := do
  match ← getStringValueFrom root "Type" false none with
  | none => .error .segv
  | some type => do
      let evnt : EventData := { type := type, scope := none, timenano := 0 }
      let filled ← (if type = "container".toList then readContainer root evnt else .ok evnt)
      let scope ← getStringValueFrom root "scope" false none
      let timenano ← getInt64ValueFrom root "timeNano" false 0
      .ok { filled with scope := scope, timenano := toUInt64 timenano }

/-- The event for the main loop, with duplicates of all strings; `strdup(NULL)`
is an invalid access. -/
def newEvent (event : ContEvents) (evnt : EventData) (brk : Nat) :
    Except Stop (Option Contevent × Nat) :=
  match evnt.name, evnt.id, evnt.image with
  | some name, some id, some image =>
      .ok (some
        { event := event
          name := ⟨brk, name⟩
          id := ⟨brk + 1, id⟩
          image := ⟨brk + 2, image⟩
          timenano := evnt.timenano }, brk + 3)
  | _, _, _ => .error .segv

/-- `check_event` on such a line; `brk` is the next free address. -/
def checkEvent (root : Json) (brk : Nat) : Except Stop (Option Contevent × Nat) := do
  let evnt ← readPipe root
  if evnt.type = "container".toList then
    match evnt.status with
    | none => .error .segv
    | some status =>
        if status = "kill".toList then newEvent .remove evnt brk
        else if status = "start".toList then newEvent .add evnt brk
        else .ok (none, brk)
  else .ok (none, brk)

theorem new_event_addr {event : ContEvents} {evnt : EventData} {brk later : Nat}
    {cntevent : Contevent} (run : newEvent event evnt brk = .ok (some cntevent, later)) :
    cntevent.event = event ∧ brk ≤ cntevent.id.loc := by
  unfold newEvent at run
  split at run
  · cases run
    exact ⟨rfl, Nat.le_succ brk⟩
  · cases run

/-- The strings of an event are new. -/
theorem check_event_addr {root : Json} {brk later : Nat} {cntevent : Contevent}
    (run : checkEvent root brk = .ok (some cntevent, later)) : brk ≤ cntevent.id.loc := by
  unfold checkEvent at run
  obtain ⟨evnt, _, run⟩ := bind_ok run
  split_ifs at run with container
  · cases status : evnt.status with
    | none =>
        rw [status] at run
        cases run
    | some text =>
        rw [status] at run
        dsimp only at run
        split_ifs at run with kill start
        · exact (new_event_addr run).2
        · exact (new_event_addr run).2
        · cases run
  · cases run

/-- Next step of `dlink_thread_watch`. -/
inductive WatchPc where
  | switch
  | read
  | lock
  | test
  | unlock
  | store
  | release
  | forget
  | close
  | check
  | exited
  deriving DecidableEq, Repr

/-- Next step of `updateDocker`; `idle` is everything outside of it. -/
inductive UpdatePc where
  | idle
  | enter
  | loop
  | load
  | clear
  | handle
  deriving DecidableEq, Repr

/-- Both threads and what they share. `produced` and `consumed` are history. -/
structure Link where
  pstate : Nat := 0
  watchPc : WatchPc := .switch
  cntevent : Option Contevent := none
  containerEvent : Option Contevent := none
  containerMutex : Bool := false
  dlinkStop : Bool := false
  updatePc : UpdatePc := .idle
  lstevent : Option Contevent := none
  brk : Nat := 1
  produced : List Contevent := []
  consumed : List Contevent := []

/-- What the pipe has for a step that uses it: a line, nothing before the stop or
the end, its end, or a failure that ends the thread. -/
inductive Input where
  | line (root : Json)
  | silent
  | eof
  | failure

/-- `popen2` succeeds. -/
def Input.opens : Input → Bool
  | .failure => false
  | _ => true

/-- `case 1`. -/
def watchRead (link : Link) : Input → Link
  | .eof => { link with pstate := 4, watchPc := .check }
  | .silent => { link with watchPc := .check }
  | .failure => { link with watchPc := .exited }
  | .line root =>
      match checkEvent root link.brk with
      | .error _ => { link with watchPc := .exited }
      | .ok (none, brk) => { link with brk := brk, watchPc := .check }
      | .ok (some event, brk) =>
          { link with
            brk := brk
            cntevent := some event
            produced := link.produced ++ [event]
            pstate := 2
            watchPc := .check }

/-- `switch (pstate)`; state 0 falls through to state 1. -/
def watchSwitch (link : Link) (input : Input) : Link :=
  match link.pstate with
  | 0 =>
      if input.opens then { link with pstate := 1, watchPc := .read }
      else { link with watchPc := .exited }
  | 1 => { link with watchPc := .read }
  | 2 => { link with watchPc := .lock }
  | 3 => { link with watchPc := .store }
  | 4 => { link with watchPc := .close }
  | _ => { link with watchPc := .check }

/-- One step of `dlink_thread_watch`; `none` if it has to wait or has ended. -/
def watchStep (link : Link) (input : Input) : Option Link :=
  match link.watchPc with
  | .switch => some (watchSwitch link input)
  | .read => some (watchRead link input)
  | .lock =>
      if link.containerMutex then none
      else some { link with containerMutex := true, watchPc := .test }
  | .test =>
      match link.containerEvent with
      | none => some { link with pstate := 3, watchPc := .check }
      | some _ => some { link with watchPc := .unlock }
  | .unlock => some { link with containerMutex := false, watchPc := .check }
  | .store => some { link with containerEvent := link.cntevent, watchPc := .release }
  | .release => some { link with containerMutex := false, watchPc := .forget }
  | .forget => some { link with cntevent := none, pstate := 1, watchPc := .check }
  | .close => some { link with watchPc := .exited }
  | .check =>
      -- in state 3 the lock is held, a stop has to wait
      if link.pstate < 3 ∧ link.dlinkStop then some { link with pstate := 4, watchPc := .switch }
      else some { link with watchPc := .switch }
  | .exited => none

/-- One step of `updateDocker`; the mutex is not used. `none` is an access to an
event that is not there. -/
def updateStep (link : Link) : Option Link :=
  match link.updatePc with
  | .idle => some { link with updatePc := .enter }
  | .enter =>
      some { link with updatePc := if link.containerEvent.isNone then .idle else .loop }
  | .loop =>
      some { link with updatePc := if link.containerEvent.isNone then .idle else .load }
  | .load =>
      some { link with
        lstevent := link.containerEvent
        consumed := link.consumed ++ link.containerEvent.toList
        updatePc := .clear }
  | .clear => some { link with containerEvent := none, updatePc := .handle }
  | .handle => if link.lstevent.isNone then none else some { link with updatePc := .loop }

/-- Who moves: a thread, or the signal handler `dlink_inthand`. -/
inductive Act where
  | watch (input : Input)
  | update
  | inthand

def step (link : Link) : Act → Option Link
  | .watch input => watchStep link input
  | .update => updateStep link
  | .inthand => some { link with dlinkStop := true }

def Next (before after : Link) : Prop := ∃ act, step before act = some after

/-- The thread starts in state 0, or in state 4 if the clock cannot be read. -/
def Start (link : Link) : Prop := link = {} ∨ link = { pstate := 4 }

/-- What `dlink_thread_watch` relies on at its next step. -/
def WatchOk (link : Link) : Prop :=
  match link.watchPc with
  | .switch | .check =>
      link.pstate ≤ 4 ∧ (link.containerMutex = true ↔ link.pstate = 3) ∧
        (link.pstate ≤ 1 → link.cntevent = none) ∧
        (link.pstate = 3 → link.cntevent.isSome ∧ link.containerEvent = none) ∧
        (link.pstate = 2 → link.cntevent.isSome)
  | .read => link.pstate = 1 ∧ link.containerMutex = false ∧ link.cntevent = none
  | .lock => link.pstate = 2 ∧ link.containerMutex = false ∧ link.cntevent.isSome
  | .test | .unlock => link.pstate = 2 ∧ link.containerMutex = true ∧ link.cntevent.isSome
  | .store =>
      link.pstate = 3 ∧ link.containerMutex = true ∧ link.cntevent.isSome ∧
        link.containerEvent = none
  | .release => link.pstate = 3 ∧ link.containerMutex = true
  | .forget => link.pstate = 3 ∧ link.containerMutex = false
  | .close => link.pstate = 4 ∧ link.containerMutex = false
  | .exited => link.containerMutex = false

/-- What `updateDocker` relies on at its next step. -/
def UpdateOk (link : Link) : Prop :=
  match link.updatePc with
  | .idle | .enter | .loop => True
  | .load => link.containerEvent.isSome
  | .clear => link.containerEvent.isSome ∧ link.lstevent = link.containerEvent
  | .handle => link.lstevent.isSome

structure Sound (link : Link) : Prop where
  watch : WatchOk link
  update : UpdateOk link

/-- The event of the producer, until it is in the slot. -/
def heldEvent (link : Link) : Option Contevent :=
  match link.watchPc with
  | .release | .forget => none
  | _ => link.cntevent

/-- The mailbox the two threads implement. -/
def mailbox (link : Link) : Mailbox.State Contevent where
  produced := link.produced
  held := heldEvent link
  slot := link.containerEvent
  taking := link.updatePc == .clear
  consumed := link.consumed

theorem start_sound {link : Link} (start : Start link) : Sound link := by
  rcases start with rfl | rfl
  · constructor
    · simp [WatchOk]
    · trivial
  · constructor
    · simp [WatchOk]
    · trivial

section Producer
variable {before after : Link}

/-- A read changes the producer's own data only, and may find an event. -/
theorem watch_read_cases (link : Link) (input : Input) :
    (∃ brk pstate watchPc, watchRead link input = { link with brk, pstate, watchPc } ∧
        (watchPc = .exited ∨ watchPc = .check ∧ (pstate = link.pstate ∨ pstate = 4))) ∨
      ∃ brk event, watchRead link input = { link with
        brk
        cntevent := some event
        produced := link.produced ++ [event]
        pstate := 2
        watchPc := .check } := by
  cases input with
  | eof => exact .inl ⟨_, _, _, rfl, .inr ⟨rfl, .inr rfl⟩⟩
  | silent => exact .inl ⟨_, _, _, rfl, .inr ⟨rfl, .inl rfl⟩⟩
  | failure => exact .inl ⟨_, _, _, rfl, .inl rfl⟩
  | line root =>
      rw [watchRead]
      split
      · exact .inl ⟨_, _, _, rfl, .inl rfl⟩
      · exact .inl ⟨_, _, _, rfl, .inr ⟨rfl, .inl rfl⟩⟩
      · exact .inr ⟨_, _, rfl⟩

/-- The switch chooses where to go on. -/
theorem watch_switch_cases (link : Link) (input : Input) :
    ∃ pstate watchPc, watchSwitch link input = { link with pstate, watchPc } ∧
      watchPc ≠ .release ∧ watchPc ≠ .forget := by
  rw [watchSwitch]
  split
  · split_ifs
    · exact ⟨_, _, rfl, nofun, nofun⟩
    · exact ⟨link.pstate, _, rfl, nofun, nofun⟩
  all_goals exact ⟨link.pstate, _, rfl, nofun, nofun⟩

theorem watch_read_sound (link : Link) (input : Input) (ok : WatchOk link)
    (pc : link.watchPc = .read) : WatchOk (watchRead link input) := by
  simp only [WatchOk, pc] at ok
  obtain ⟨pstate, mutex, empty⟩ := ok
  rcases watch_read_cases link input with ⟨brk, state, next, same, moved⟩ | ⟨brk, event, same⟩
  · rw [same]
    rcases moved with rfl | ⟨rfl, rfl | rfl⟩
    · exact mutex
    · simp [WatchOk, pstate, mutex, empty]
    · simp [WatchOk, mutex]
  · rw [same]
    simp [WatchOk, mutex]

theorem watch_switch_sound (link : Link) (input : Input) (ok : WatchOk link)
    (pc : link.watchPc = .switch) : WatchOk (watchSwitch link input) := by
  simp only [WatchOk, pc] at ok
  obtain ⟨bound, mutex, idle, ready, waits⟩ := ok
  have states : link.pstate = 0 ∨ link.pstate = 1 ∨ link.pstate = 2 ∨ link.pstate = 3 ∨
      link.pstate = 4 := by omega
  have free : link.pstate ≠ 3 → link.containerMutex = false := fun apart => by
    simpa [apart] using mutex
  rcases states with zero | one | two | three | four
  · have empty : link.cntevent = none := idle (by omega)
    simp only [watchSwitch, zero]
    split_ifs
    · exact ⟨rfl, free (by omega), empty⟩
    · exact free (by omega)
  · simp only [watchSwitch, one]
    exact ⟨rfl, free (by omega), idle (by omega)⟩
  · simp only [watchSwitch, two]
    exact ⟨rfl, free (by omega), waits two⟩
  · obtain ⟨holds, empty⟩ := ready three
    simp only [watchSwitch, three]
    exact ⟨rfl, mutex.mpr three, holds, empty⟩
  · simp only [watchSwitch, four]
    exact ⟨rfl, free (by omega)⟩

/-- One turn of the producer, from each of its positions. -/
theorem watch_step_sound (input : Input) (ok : WatchOk before)
    (run : watchStep before input = some after) : WatchOk after := by
  rw [watchStep] at run
  cases pc : before.watchPc with
  | switch =>
      rw [pc] at run
      cases run
      exact watch_switch_sound before input ok pc
  | read =>
      rw [pc] at run
      cases run
      exact watch_read_sound before input ok pc
  | lock =>
      simp only [pc] at run
      simp only [WatchOk, pc] at ok
      split_ifs at run
      cases run
      exact ⟨ok.1, rfl, ok.2.2⟩
  | test =>
      simp only [pc] at run
      simp only [WatchOk, pc] at ok
      obtain ⟨two, mutex, holds⟩ := ok
      cases slot : before.containerEvent with
      | none =>
          -- the slot is empty and stays so: only the producer fills it
          rw [slot] at run
          cases run
          simp [WatchOk, mutex, holds]
      | some event =>
          rw [slot] at run
          cases run
          exact ⟨two, mutex, holds⟩
  | unlock =>
      simp only [pc] at run
      simp only [WatchOk, pc] at ok
      obtain ⟨two, mutex, holds⟩ := ok
      cases run
      simp [WatchOk, two, holds]
  | store =>
      simp only [pc] at run
      simp only [WatchOk, pc] at ok
      cases run
      exact ⟨ok.1, ok.2.1⟩
  | release =>
      simp only [pc] at run
      simp only [WatchOk, pc] at ok
      cases run
      exact ⟨ok.1, rfl⟩
  | forget =>
      simp only [pc] at run
      simp only [WatchOk, pc] at ok
      cases run
      simp [WatchOk, ok.2]
  | close =>
      simp only [pc] at run
      simp only [WatchOk, pc] at ok
      cases run
      exact ok.2
  | check =>
      simp only [pc] at run
      simp only [WatchOk, pc] at ok
      obtain ⟨bound, mutex, idle, ready, waits⟩ := ok
      split_ifs at run with stop
      · have free : before.containerMutex = false := by
          have apart : before.pstate ≠ 3 := by omega
          simpa [apart] using mutex
        cases run
        simp [WatchOk, free]
      · cases run
        exact ⟨bound, mutex, idle, ready, waits⟩
  | exited =>
      rw [pc] at run
      cases run

/-- The consumer's part is not touched, except that an event is put in the slot. -/
theorem watch_step_frame {input : Input} (run : watchStep before input = some after) :
    after.updatePc = before.updatePc ∧ after.lstevent = before.lstevent ∧
      after.consumed = before.consumed ∧
        (after.containerEvent = before.containerEvent ∨ before.watchPc = .store) := by
  rw [watchStep] at run
  cases pc : before.watchPc with
  | switch =>
      rw [pc] at run
      cases run
      obtain ⟨_, _, same, _⟩ := watch_switch_cases before input
      rw [same]
      exact ⟨rfl, rfl, rfl, .inl rfl⟩
  | read =>
      rw [pc] at run
      cases run
      rcases watch_read_cases before input with ⟨_, _, _, same, _⟩ | ⟨_, _, same⟩
      · rw [same]
        exact ⟨rfl, rfl, rfl, .inl rfl⟩
      · rw [same]
        exact ⟨rfl, rfl, rfl, .inl rfl⟩
  | lock =>
      simp only [pc] at run
      split_ifs at run
      cases run
      exact ⟨rfl, rfl, rfl, .inl rfl⟩
  | test =>
      simp only [pc] at run
      split at run
      · cases run
        exact ⟨rfl, rfl, rfl, .inl rfl⟩
      · cases run
        exact ⟨rfl, rfl, rfl, .inl rfl⟩
  | check =>
      simp only [pc] at run
      split_ifs at run
      · cases run
        exact ⟨rfl, rfl, rfl, .inl rfl⟩
      · cases run
        exact ⟨rfl, rfl, rfl, .inl rfl⟩
  | store =>
      rw [pc] at run
      cases run
      exact ⟨rfl, rfl, rfl, .inr rfl⟩
  | exited =>
      rw [pc] at run
      cases run
  | unlock | release | forget | close =>
      rw [pc] at run
      cases run
      exact ⟨rfl, rfl, rfl, .inl rfl⟩

theorem watch_keeps_update {input : Input} (sound : Sound before)
    (run : watchStep before input = some after) : UpdateOk after := by
  obtain ⟨pc, event, _, slot⟩ := watch_step_frame run
  have ok := sound.update
  rcases slot with same | stores
  · rw [UpdateOk, pc, event, same]
    exact ok
  · -- the slot is empty before the store, so nothing is being taken
    have empty : before.containerEvent = none := by
      have watch := sound.watch
      simp only [WatchOk, stores] at watch
      exact watch.2.2.2
    rw [UpdateOk, empty] at ok
    rw [UpdateOk, pc, event]
    cases position : before.updatePc with
    | idle | enter | loop => trivial
    | load =>
        rw [position] at ok
        cases ok
    | clear =>
        rw [position] at ok
        cases ok.1
    | handle =>
        rw [position] at ok
        exact ok

end Producer

section Consumer
variable {before after : Link}

/-- The producer's part is not touched, except that the slot may be cleared. -/
theorem update_step_frame (run : updateStep before = some after) :
    ∃ updatePc lstevent consumed slot,
      after = { before with updatePc, lstevent, consumed, containerEvent := slot } ∧
        (slot = before.containerEvent ∨ slot = none) := by
  rw [updateStep] at run
  cases pc : before.updatePc with
  | clear =>
      rw [pc] at run
      cases run
      exact ⟨_, _, _, _, rfl, .inr rfl⟩
  | handle =>
      simp only [pc] at run
      split_ifs at run
      cases run
      exact ⟨_, _, _, _, rfl, .inl rfl⟩
  | idle | enter | loop | load =>
      rw [pc] at run
      cases run
      exact ⟨_, _, _, _, rfl, .inl rfl⟩

theorem update_keeps_watch (ok : WatchOk before) (run : updateStep before = some after) :
    WatchOk after := by
  obtain ⟨updatePc, lstevent, consumed, slot, rfl, cleared⟩ := update_step_frame run
  rcases cleared with rfl | rfl
  · exact ok
  · rw [WatchOk] at ok ⊢
    cases pc : before.watchPc with
    | switch | check =>
        simp only [pc] at ok ⊢
        obtain ⟨bound, mutex, idle, ready, waits⟩ := ok
        exact ⟨bound, mutex, idle, fun three => ⟨(ready three).1, trivial⟩, waits⟩
    | store =>
        simp only [pc] at ok ⊢
        exact ⟨ok.1, ok.2.1, ok.2.2.1, trivial⟩
    | read | lock | test | unlock | release | forget | close | exited =>
        simp only [pc] at ok ⊢
        exact ok

theorem update_step_sound (ok : UpdateOk before) (run : updateStep before = some after) :
    UpdateOk after := by
  rw [updateStep] at run
  cases pc : before.updatePc with
  | idle =>
      rw [pc] at run
      cases run
      trivial
  | enter =>
      rw [pc] at run
      cases run
      cases before.containerEvent with
      | none => trivial
      | some event => trivial
  | loop =>
      rw [pc] at run
      cases run
      cases before.containerEvent with
      | none => trivial
      | some event => rfl
  | load =>
      rw [pc] at run
      simp only [UpdateOk, pc] at ok
      cases run
      exact ⟨ok, rfl⟩
  | clear =>
      rw [pc] at run
      simp only [UpdateOk, pc] at ok
      cases run
      simp only [UpdateOk, ok.2]
      exact ok.1
  | handle =>
      simp only [pc] at run
      split_ifs at run
      cases run
      trivial

/-- An event that is handled is there. -/
theorem update_step_returns (sound : Sound before) : (updateStep before).isSome := by
  have ok := sound.update
  rw [updateStep]
  cases pc : before.updatePc with
  | handle =>
      simp only [UpdateOk, pc] at ok
      simp [Option.isSome_iff_ne_none.mp ok]
  | idle | enter | loop | load | clear => rfl

end Consumer

section Runs
variable {before after : Link}

theorem step_sound (sound : Sound before) (next : Next before after) : Sound after := by
  obtain ⟨act, run⟩ := next
  cases act with
  | watch input =>
      constructor
      · exact watch_step_sound input sound.watch run
      · exact watch_keeps_update sound run
  | update =>
      constructor
      · exact update_keeps_watch sound.watch run
      · exact update_step_sound sound.update run
  | inthand =>
      cases run
      exact ⟨sound.watch, sound.update⟩

/-- Each step of the producer produces an event, puts it in the slot or leaves the
mailbox as it is. -/
theorem watch_step_simulates {input : Input} (sound : Sound before)
    (run : watchStep before input = some after) :
    mailbox after = mailbox before ∨ Mailbox.Step (mailbox before) (mailbox after) := by
  have ok := sound.watch
  rw [watchStep] at run
  cases pc : before.watchPc with
  | switch =>
      rw [pc] at run
      cases run
      obtain ⟨pstate, watchPc, same, release, forget⟩ := watch_switch_cases before input
      left
      rw [same]
      simp [mailbox, heldEvent, pc]
  | read =>
      rw [pc] at run
      simp only [WatchOk, pc] at ok
      cases run
      rcases watch_read_cases before input with ⟨brk, state, next, same, moved⟩ | ⟨brk, event, same⟩
      · left
        rw [same]
        rcases moved with rfl | ⟨rfl, _⟩
        · simp [mailbox, heldEvent, pc]
        · simp [mailbox, heldEvent, pc]
      · right
        have free : (mailbox before).held = none := by simp [mailbox, heldEvent, pc, ok]
        have produced := Mailbox.Step.produce (mailbox before) event free
        rw [same]
        exact produced
  | store =>
      rw [pc] at run
      simp only [WatchOk, pc] at ok
      obtain ⟨event, holds⟩ := Option.isSome_iff_exists.mp ok.2.2.1
      have held : (mailbox before).held = some event := by simp [mailbox, heldEvent, pc, holds]
      have put := Mailbox.Step.put (mailbox before) event held ok.2.2.2
      cases run
      right
      simp only [mailbox, heldEvent, holds] at put ⊢
      exact put
  | lock =>
      simp only [pc] at run
      split_ifs at run
      cases run
      left
      simp [mailbox, heldEvent, pc]
  | test =>
      simp only [pc] at run
      split at run
      · cases run
        left
        simp [mailbox, heldEvent, pc]
      · cases run
        left
        simp [mailbox, heldEvent, pc]
  | check =>
      simp only [pc] at run
      split_ifs at run
      · cases run
        left
        simp [mailbox, heldEvent, pc]
      · cases run
        left
        simp [mailbox, heldEvent, pc]
  | exited =>
      rw [pc] at run
      cases run
  | unlock | release | forget | close =>
      rw [pc] at run
      cases run
      left
      simp [mailbox, heldEvent, pc]

theorem update_step_simulates (sound : Sound before) (run : updateStep before = some after) :
    mailbox after = mailbox before ∨ Mailbox.Step (mailbox before) (mailbox after) := by
  have ok := sound.update
  rw [updateStep] at run
  cases pc : before.updatePc with
  | load =>
      rw [pc] at run
      simp only [UpdateOk, pc] at ok
      obtain ⟨event, full⟩ := Option.isSome_iff_exists.mp ok
      have idle : (mailbox before).taking = false := by simp [mailbox, pc]
      have take := Mailbox.Step.take (mailbox before) event full idle
      cases run
      right
      simp only [mailbox, heldEvent, full, Option.toList] at take ⊢
      exact take
  | clear =>
      rw [pc] at run
      have busy : (mailbox before).taking = true := by simp [mailbox, pc]
      have clear := Mailbox.Step.clear (mailbox before) busy
      cases run
      right
      exact clear
  | enter =>
      rw [pc] at run
      cases run
      left
      cases slot : before.containerEvent with
      | none => simp [mailbox, heldEvent, pc, slot]
      | some event => simp [mailbox, heldEvent, pc, slot]
  | loop =>
      rw [pc] at run
      cases run
      left
      cases slot : before.containerEvent with
      | none => simp [mailbox, heldEvent, pc, slot]
      | some event => simp [mailbox, heldEvent, pc, slot]
  | handle =>
      simp only [pc] at run
      split_ifs at run
      cases run
      left
      simp [mailbox, heldEvent, pc]
  | idle =>
      rw [pc] at run
      cases run
      left
      simp [mailbox, heldEvent, pc]

theorem step_simulates (sound : Sound before) (next : Next before after) :
    mailbox after = mailbox before ∨ Mailbox.Step (mailbox before) (mailbox after) := by
  obtain ⟨act, run⟩ := next
  cases act with
  | watch input => exact watch_step_simulates sound run
  | update => exact update_step_simulates sound run
  | inthand =>
      cases run
      exact .inl rfl

theorem run_next {acts : List Act} (run : acts.foldlM step before = some after) :
    Relation.ReflTransGen Next before after := by
  induction acts generalizing before with
  | nil =>
      cases run
      exact .refl
  | cons act rest ih =>
      rw [List.foldlM_cons] at run
      obtain ⟨middle, first, tail⟩ := Option.bind_eq_some_iff.mp run
      exact .head ⟨act, first⟩ (ih tail)

/-- The events are accounted for as long as nobody asks for the stop. At the switch
the producer holds the mutex exactly in state 3, elsewhere in state 3 and between
lock and unlock of state 2, and never in state 4 or after its end. -/
structure Safe (link : Link) : Prop where
  events : link.dlinkStop = false →
    link.consumed ++ (if link.updatePc = .clear then [] else link.containerEvent.toList) ++
      (heldEvent link).toList = link.produced
  switch : link.watchPc = .switch → (link.containerMutex = true ↔ link.pstate = 3)
  critical : link.containerMutex = true →
    link.pstate = 3 ∨ link.pstate = 2 ∧ (link.watchPc = .test ∨ link.watchPc = .unlock)
  released : link.pstate = 4 ∨ link.watchPc = .exited → link.containerMutex = false
  update : (updateStep link).isSome

theorem sound_mutex {link : Link} (ok : WatchOk link) (held : link.containerMutex = true) :
    link.watchPc ≠ .exited ∧
      (link.pstate = 3 ∨ link.pstate = 2 ∧ (link.watchPc = .test ∨ link.watchPc = .unlock)) := by
  rw [WatchOk] at ok
  cases pc : link.watchPc with
  | switch | check =>
      simp only [pc] at ok
      exact ⟨nofun, .inl (ok.2.1.mp held)⟩
  | test =>
      simp only [pc] at ok
      exact ⟨nofun, .inr ⟨ok.1, .inl rfl⟩⟩
  | unlock =>
      simp only [pc] at ok
      exact ⟨nofun, .inr ⟨ok.1, .inr rfl⟩⟩
  | store | release =>
      simp only [pc] at ok
      exact ⟨nofun, .inl ok.1⟩
  | read | lock | forget | close | exited =>
      simp [pc, held] at ok

/-- The mailbox between the docker link and the main loop: in every interleaving of
their steps no event is lost, taken twice or overtaken, and the lock is released. -/
theorem events_kept_in_order (start link : Link) (acts : List Act) (init : Start start)
    (run : acts.foldlM step start = some link) : Safe link := by
  have good := start_sound init
  have empty : Mailbox.Accounted (mailbox start) := by
    rcases init with rfl | rfl
    · exact Mailbox.accounted_empty
    · exact Mailbox.accounted_empty
  have keeps : ∀ before after, Sound before → Next before after → Sound after :=
    fun _ _ sound next => step_sound sound next
  obtain ⟨sound, accounted⟩ := Mailbox.simulated_accounted keeps
    (fun _ _ sound next => step_simulates sound next) good empty (run_next run)
  have mutex := fun held => sound_mutex sound.watch held
  constructor
  · intro _
    have events := accounted.events
    simpa [Mailbox.waiting, mailbox] using events
  · intro pc
    have ok := sound.watch
    simp only [WatchOk, pc] at ok
    exact ok.2.1
  · intro held
    exact (mutex held).2
  · intro ended
    cases held : link.containerMutex with
    | false => rfl
    | true =>
        obtain ⟨running, states⟩ := mutex held
        rcases ended with four | exited
        · omega
        · exact absurd exited running
  · exact update_step_returns sound

/-- A container is started: a line of the pipe. -/
def startLine : Json :=
  .object [("Type", .string "container".toList), ("status", .string "start".toList),
    ("id", .string "f00d".toList), ("from", .string "web".toList),
    ("Actor", .object [("Attributes", .object [("name", .string "front".toList)])]),
    ("scope", .string "local".toList), ("timeNano", .int 1)]

/-- The producer reads a second line while the consumer takes the first event. -/
def twoStarts : List Act :=
  List.replicate 9 (.watch (.line startLine)) ++ List.replicate 4 .update ++
    List.replicate 5 (.watch (.line startLine))

theorem two_starts_kept :
    ∃ link, twoStarts.foldlM step {} = some link ∧
      (link.produced.length, link.consumed.length) = (2, 1) ∧ Safe link := by
  have runs : ((twoStarts.foldlM step {}).map fun link =>
      (link.produced.length, link.consumed.length)) = some (2, 1) := by decide +kernel
  obtain ⟨link, run, counts⟩ := Option.map_eq_some_iff.mp runs
  exact ⟨link, run, counts, events_kept_in_order {} link twoStarts (.inl rfl) run⟩

end Runs

end Orchestrator.Dockerlink
