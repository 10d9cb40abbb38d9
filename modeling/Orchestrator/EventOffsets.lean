import Mathlib.Logic.Function.Basic
import Orchestrator.EventFields

/-!
The offsets of the loaded event formats, stored as the pointers of the structures
the trace frames are read with. Structures, their dictionaries and the members of
each are walked in step; the names in a dictionary are those of the members.
-/

namespace Orchestrator.EventOffsets
open Strtok EventFields

/-- `struct ftrace_elist`, loaded: each of its field records has its name. -/
structure FtraceElist where
  event : List Char
  fields : List FtraceEcfg
  named : ∀ cfg ∈ fields, cfg.name ≠ none

/-- The members of `tr_common`, `tr_switch` and `tr_wakeup`. -/
inductive Member
  | commonType | commonFlags | commonPreemptCount | commonPid
  | prevComm | prevPid | prevPrio | prevState | nextComm | nextPid | nextPrio
  | comm | pid | prio | targetCpu
  deriving DecidableEq, Repr

/-- What the members point to: the address `0 + offset`. -/
abbrev Pointers := Member → Int

/-- A structure, as its members lie in memory, and its dictionary. -/
structure TrStruct where
  event : List Char
  dict : List (List Char)
  members : List Member

def trCommon : TrStruct where
  event := "common".toList
  dict := ["tr_common.common_type".toList, "tr_common.common_flags".toList,
    "tr_common.common_preempt_count".toList, "tr_common.common_pid".toList]
  members := [.commonType, .commonFlags, .commonPreemptCount, .commonPid]

def trSwitch : TrStruct where
  event := "sched/sched_switch".toList
  dict := ["tr_switch.prev_comm".toList, "tr_switch.prev_pid".toList,
    "tr_switch.prev_prio".toList, "tr_switch.prev_state".toList, "tr_switch.next_comm".toList,
    "tr_switch.next_pid".toList, "tr_switch.next_prio".toList]
  members := [.prevComm, .prevPid, .prevPrio, .prevState, .nextComm, .nextPid, .nextPrio]

def trWakeup : TrStruct where
  event := "sched/sched_wakeup".toList
  dict := ["tr_wakeup.comm".toList, "tr_wakeup.pid".toList, "tr_wakeup.prio".toList,
    "tr_wakeup.target_cpu".toList]
  members := [.comm, .pid, .prio, .targetCpu]

/-- `tr_event_structs` and `tr_event_dict`. -/
def trEvents : List TrStruct := [trCommon, trSwitch, trWakeup]

/-- What `strtok_r` leaves of the entry behind the structure's name. -/
def tTok (entry : List Char) : List Char := (strtokR ['.'] entry).2

/-- The first field configuration of this name. -/
def fieldNamed (name : List Char) (event : FtraceElist) : Option FtraceEcfg :=
  event.fields.find? fun cfg => cfg.name = some name

/-- The walk over a dictionary and the members. -/
def setOffsets (event : FtraceElist) : List (List Char) → List Member → Pointers → Pointers
  | entry :: dict, member :: members, pointers =>
      setOffsets event dict members
        (match fieldNamed (tTok entry) event with
        | some cfg => Function.update pointers member cfg.offset
        | none => pointers)
  | _, _, pointers => pointers

/-- One structure: the first event that matches, any while `cmn` is set. -/
def parseStruct (elist : List FtraceElist) (tr : TrStruct) :
    Bool × Pointers → Bool × Pointers
  | (cmn, pointers) =>
      match elist.find? fun event => cmn || tr.event = event.event with
      | some event => (false, setOffsets event tr.dict tr.members pointers)
      | none => (cmn, pointers)

/-- `parseEventOffsets()` and the structures behind it. -/
def parseEventOffsets (elist : List FtraceElist) (pointers : Pointers) : Int × Pointers :=
  let (cmn, pointers) := trEvents.foldl (fun state tr => parseStruct elist tr state) (true, pointers)
  (if cmn then -1 else 0, pointers)

section Resolved

/-- The field a member is named after. -/
def Member.field : Member → List Char
  | .commonType => "common_type".toList
  | .commonFlags => "common_flags".toList
  | .commonPreemptCount => "common_preempt_count".toList
  | .commonPid => "common_pid".toList
  | .prevComm => "prev_comm".toList
  | .prevPid => "prev_pid".toList
  | .prevPrio => "prev_prio".toList
  | .prevState => "prev_state".toList
  | .nextComm => "next_comm".toList
  | .nextPid => "next_pid".toList
  | .nextPrio => "next_prio".toList
  | .comm => "comm".toList
  | .pid => "pid".toList
  | .prio => "prio".toList
  | .targetCpu => "target_cpu".toList

/-- The event whose frames a member reads; the common ones are read in all. -/
def Member.event : Member → Option (List Char)
  | .commonType | .commonFlags | .commonPreemptCount | .commonPid => none
  | .prevComm | .prevPid | .prevPrio | .prevState | .nextComm | .nextPid | .nextPrio =>
      some "sched/sched_switch".toList
  | .comm | .pid | .prio | .targetCpu => some "sched/sched_wakeup".toList

/-- The first loaded event with the frames of a member. -/
def eventOf (elist : List FtraceElist) (member : Member) : Option FtraceElist :=
  elist.find? fun event => member.event = none ∨ member.event = some event.event

/-- The field is in one of the events with the frames of the member. -/
def Present (elist : List FtraceElist) (member : Member) (cfg : FtraceEcfg) : Prop :=
  ∃ event ∈ elist, (member.event = none ∨ member.event = some event.event) ∧
    cfg ∈ event.fields ∧ cfg.name = some member.field

/-- The pointer after a look-up: the offset, or what it was. -/
def offsetIn (event : Option FtraceElist) (name : List Char) (pointer : Int) : Int :=
  match event.bind (fieldNamed name) with
  | some cfg => cfg.offset
  | none => pointer

/-- The entries of each dictionary are the members' names, in the order of the members. -/
theorem dict_fields : ∀ tr ∈ trEvents, tr.dict.map tTok = tr.members.map Member.field := by
  decide

theorem members_nodup : ∀ tr ∈ trEvents, tr.members.Nodup := by decide

variable {event : FtraceElist} {elist : List FtraceElist} {member : Member}

theorem set_offsets_apply {dict : List (List Char)} {members : List Member} (pointers : Pointers)
    (names : dict.map tTok = members.map Member.field) (once : members.Nodup) (member : Member) :
    setOffsets event dict members pointers member =
      if member ∈ members then offsetIn (some event) member.field (pointers member)
      else pointers member := by
  induction members generalizing dict pointers with
  | nil => cases dict <;> simp [setOffsets]
  | cons first members ih =>
      cases dict with
      | nil => simp at names
      | cons entry dict =>
          simp only [List.map_cons, List.cons.injEq] at names
          have fresh : first ∉ members := (List.nodup_cons.mp once).1
          rw [setOffsets, ih _ names.2 (List.nodup_cons.mp once).2, names.1]
          by_cases same : member = first
          · subst same
            simp only [fresh, if_false, List.mem_cons, true_or, if_true, offsetIn, Option.bind_some]
            cases fieldNamed member.field event <;> simp
          · have kept : (match fieldNamed first.field event with
                | some cfg => Function.update pointers first cfg.offset
                | none => pointers) member = pointers member := by
              cases fieldNamed first.field event with
              | none => rfl
              | some cfg => exact Function.update_of_ne same _ _
            simp only [kept, List.mem_cons, same, false_or]

theorem parse_struct_apply {tr : TrStruct} (listed : tr ∈ trEvents) (cmn : Bool)
    (pointers : Pointers) (member : Member) :
    (parseStruct elist tr (cmn, pointers)).2 member =
      if member ∈ tr.members then
        offsetIn (elist.find? fun event => cmn || tr.event = event.event) member.field
          (pointers member)
      else pointers member := by
  cases found : elist.find? fun event => cmn || tr.event = event.event with
  | none => simp [parseStruct, found, offsetIn]
  | some event =>
      simp only [parseStruct, found]
      exact set_offsets_apply pointers (dict_fields tr listed) (members_nodup tr listed) member

theorem parse_struct_flag (tr : TrStruct) (pointers : Pointers) :
    (parseStruct elist tr (false, pointers)).1 = false := by
  unfold parseStruct
  dsimp only
  split <;> rfl

/-- With an event loaded, the common structure takes the first and clears the flag for the
two others. -/
theorem parse_event_offsets_cons (first : FtraceElist) (rest : List FtraceElist)
    (pointers : Pointers) :
    parseEventOffsets (first :: rest) pointers =
      (0, (parseStruct (first :: rest) trWakeup (false, (parseStruct (first :: rest) trSwitch
        (false, setOffsets first trCommon.dict trCommon.members pointers)).2)).2) := by
  have common : parseStruct (first :: rest) trCommon (true, pointers) =
      (false, setOffsets first trCommon.dict trCommon.members pointers) := rfl
  have flag : ∀ tr pointers, parseStruct (first :: rest) tr (false, pointers) =
      (false, (parseStruct (first :: rest) tr (false, pointers)).2) :=
    fun tr pointers => Prod.ext (parse_struct_flag tr pointers) rfl
  simp only [parseEventOffsets, trEvents, List.foldl_cons, List.foldl_nil, common]
  rw [flag trSwitch, flag trWakeup]
  rfl

/-- Each member is in one structure, and reads the frames of that one's event. -/
theorem member_cases (member : Member) :
    (member ∈ trCommon.members ∧ member ∉ trSwitch.members ∧ member ∉ trWakeup.members ∧
        member.event = none) ∨
      (member ∉ trCommon.members ∧ member ∈ trSwitch.members ∧ member ∉ trWakeup.members ∧
        member.event = some trSwitch.event) ∨
      (member ∉ trCommon.members ∧ member ∉ trSwitch.members ∧ member ∈ trWakeup.members ∧
        member.event = some trWakeup.event) := by
  cases member <;>
    first
    | exact .inl ⟨by decide, by decide, by decide, rfl⟩
    | exact .inr (.inl ⟨by decide, by decide, by decide, rfl⟩)
    | exact .inr (.inr ⟨by decide, by decide, by decide, rfl⟩)

theorem event_of_named {name : List Char} (own : member.event = some name) :
    eventOf elist member = elist.find? fun event => false || name = event.event := by
  simp [eventOf, own]

/-- The return value says whether an event is loaded. Every member whose field is in its
event points to the offset given there, and all others are as before. -/
theorem parse_event_offsets_resolves (elist : List FtraceElist) (pointers : Pointers) :
    (parseEventOffsets elist pointers).1 = (if elist = [] then -1 else 0) ∧
      ∀ member, (parseEventOffsets elist pointers).2 member =
        offsetIn (eventOf elist member) member.field (pointers member) := by
  cases elist with
  | nil => exact ⟨rfl, fun member => rfl⟩
  | cons first rest =>
      refine ⟨by rw [parse_event_offsets_cons]; simp, fun member => ?_⟩
      rw [parse_event_offsets_cons]
      dsimp only
      rw [parse_struct_apply (by simp [trEvents]), parse_struct_apply (by simp [trEvents]),
        set_offsets_apply _ (dict_fields trCommon (by simp [trEvents]))
          (members_nodup trCommon (by simp [trEvents]))]
      rcases member_cases member with ⟨inside, noSwitch, noWakeup, any⟩ |
        ⟨noCommon, inside, noWakeup, own⟩ | ⟨noCommon, noSwitch, inside, own⟩
      · have head : eventOf (first :: rest) member = some first := by simp [eventOf, any]
        simp only [noSwitch, noWakeup, inside, if_true, if_false, head]
      · simp only [noCommon, noWakeup, inside, if_true, if_false, event_of_named own]
      · simp only [noCommon, noSwitch, inside, if_true, if_false, event_of_named own]

/-- One event loaded, and none of the fields in it. -/
theorem missing_fields_accepted : ¬ ∀ (elist : List FtraceElist) (pointers : Pointers),
    ((parseEventOffsets elist pointers).1 = 0 → ∀ member, ∃ cfg, Present elist member cfg ∧
        (parseEventOffsets elist pointers).2 member = cfg.offset) ∧
      ((∃ member, ∀ cfg, ¬ Present elist member cfg) →
        (parseEventOffsets elist pointers).1 = -1) := by
  intro resolved
  let loaded : FtraceElist := ⟨"sched/sched_switch".toList, [], by simp⟩
  have absent : ∀ cfg, ¬ Present [loaded] .commonPid cfg := by
    rintro cfg ⟨event, listed, -, field, -⟩
    rw [List.mem_singleton] at listed
    subst listed
    simp [loaded] at field
  have failed := (resolved [loaded] fun _ => 0).2 ⟨.commonPid, absent⟩
  have accepted : (parseEventOffsets [loaded] fun _ => 0).1 = 0 := by
    rw [parse_event_offsets_cons]
  rw [accepted] at failed
  exact absurd failed (by decide)

end Resolved

end Orchestrator.EventOffsets
