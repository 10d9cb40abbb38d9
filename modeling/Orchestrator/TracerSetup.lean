import Orchestrator.EventFormat
import Orchestrator.RunTime
import Orchestrator.TracePipe

/-!
`configureTracers`, and the traced events from the kernel's files to the handlers: ids
and formats are read once, the frames of the pipe by them.
-/

namespace Orchestrator.TracerSetup
open Strtok EventFields EventOffsets EventFormat TracePipe
open Cstring (atoi atoi_digits_alone)
open Orchdata (Numa PrgSet)
open Resmgnt (Rounding exact)
open Manage (Managed Proc)
open RunTime (idleProc newTask tracing)
open Words RingBuffer TraceRecords TraceWalk

/-- The files of the tracing system, as calls find them: what `setkernvar` returns for
`enable` of an event and for `tracing_on`, and the contents of `id` and `format`. -/
structure Tracefs where
  enable : List Char → Int
  id : List Char → Option (List Char)
  format : List Char → Option (List Char)
  tracingOn : Int

/-- `getkernvar`: a byte more than is kept is read, the last one is overwritten. -/
def getkernvar (content : Option (List Char)) (size : Nat) : Int × List Char :=
  match content with
  | none => (-1, [])
  | some text => ((text.take size).length, (text.take size).dropLast)

def pipeBuffer : Nat := 4096

/-- `appendEvent`; `none` where it fails, or a record without a name is left that the
offsets' parser would read. -/
def appendEvent (fs : Tracefs) (event : List Char) (call : Eventcall)
    (elist : List TraceEvent) : Option (List TraceEvent) :=
  if 0 < fs.enable event then
    let (gotId, val) := getkernvar (fs.id event) 5
    let (gotFormat, buf) := getkernvar (fs.format event) pipeBuffer
    if gotId ≤ 0 then none
    else if gotFormat ≤ 0 then none
    else
      match parseEventFields [] buf with
      | .error _ => none
      | .ok (_, fields) =>
          if named : ∀ cfg ∈ fields, cfg.name ≠ none then
            some ({ event := event, fields := fields, named := named, eventid := atoi val,
                    eventcall := call } :: elist)
          else none
  else none

/-- `configureTracers`, for a known mount point; `none` for -1. -/
def configureTracers (fs : Tracefs) (pointers : Pointers) :
    Option (List TraceEvent × Pointers) := do
  let switch ← appendEvent fs trSwitch.event .pickPidInfoS []
  let elist ← appendEvent fs trWakeup.event .pickPidInfoW switch
  let (ret, resolved) := parseEventOffsets (elist.map TraceEvent.toFtraceElist) pointers
  if ret ≠ 0 then none
  else if fs.tracingOn < 0 then none
  else some (elist, resolved)

/-- The first line of a format for a field. -/
def lineOf (format : Format) (member : Member) : Option FieldLine :=
  format.fields.find? fun line => line.name = member.field

/-- Where the kernel puts the members of an event. -/
def layout (format : Format) : Pointers := fun member =>
  ((lineOf format member).map fun line => (line.offset : Int)).getD 0

/-- The file of a format: the text ends with a newline. -/
def formatFile (format : Format) : List Char := format.render ++ ['\n']

/-- The kernel offers these formats, under ids of up to four digits, in files one read
can take. -/
structure Offers (fs : Tracefs) (event : List Char) (format : Format) : Prop where
  enabled : 0 < fs.enable event
  idFile : fs.id event = some (number format.id ++ ['\n'])
  file : fs.format event = some (formatFile format)
  short : format.id < 10 ^ 4
  fits : (formatFile format).length ≤ pipeBuffer

section Setup
variable {fs : Tracefs}

/-- The text of a format is read as its fields. -/
theorem format_read (format : Format) :
    parseEventFields [] format.render = .ok (0, format.fields.map FieldLine.record) := by
  obtain ⟨opened, begun, head⟩ := run_head format (groupsText format.groups ++ format.print)
  obtain ⟨middle, read, body⟩ := run_groups begun format.groups format.print
  obtain ⟨q, accepted, list, ended⟩ := run_print format read
  rw [Format.render, List.append_assoc, parseEventFields, head, body, ended]
  change Except.ok (q.ret, q.before ++ q.here) = _
  rw [accepted, list]
  rfl

theorem fields_named (format : Format) :
    ∀ cfg ∈ format.fields.map FieldLine.record, cfg.name ≠ none := by
  intro cfg member
  obtain ⟨line, -, rfl⟩ := List.mem_map.mp member
  exact Option.some_ne_none line.name

/-- What is loaded for a format. -/
def loadedEvent (event : List Char) (format : Format) (call : Eventcall) : TraceEvent where
  event := event
  fields := format.fields.map FieldLine.record
  named := fields_named format
  eventid := format.id
  eventcall := call

theorem number_length (format : Format) (short : format.id < 10 ^ 4) :
    (number format.id).length ≤ 4 := by
  rw [number]
  exact (Nat.length_toDigits_le_iff (by decide) (by decide)).mpr short

theorem append_event_offered {event : List Char} {format : Format}
    (offers : Offers fs event format) (call : Eventcall) (elist : List TraceEvent) :
    appendEvent fs event call elist = some (loadedEvent event format call :: elist) := by
  have few := number_length format offers.short
  have idText : getkernvar (fs.id event) 5 =
      ((((number format.id).length + 1 : Nat) : Int), number format.id) := by
    rw [offers.idFile, getkernvar, List.take_of_length_le (by simp; omega)]
    simp
  have formatText : getkernvar (fs.format event) pipeBuffer =
      (((format.render.length + 1 : Nat) : Int), format.render) := by
    have fits := offers.fits
    rw [offers.file, getkernvar, List.take_of_length_le fits, formatFile]
    simp
  simp only [appendEvent, idText, formatText, format_read]
  rw [if_pos offers.enabled, if_neg (by omega), if_neg (by omega), dif_pos (fields_named format)]
  rw [show atoi (number format.id) = format.id from atoi_digits_alone format.id]
  rfl

theorem field_named_line (event : List Char) (format : Format) (call : Eventcall)
    (member : Member) :
    fieldNamed member.field (loadedEvent event format call).toFtraceElist =
      (lineOf format member).map FieldLine.record := by
  rw [fieldNamed, loadedEvent, lineOf, List.find?_map]
  congr 2
  funext line
  simp [FieldLine.record]

/-- The events `configureTracers` loads, the last one first. -/
def loadedEvents (switch wakeup : Format) : List TraceEvent :=
  [loadedEvent trWakeup.event wakeup .pickPidInfoW, loadedEvent trSwitch.event switch .pickPidInfoS]

/-- The common part is read as the event loaded last has it. -/
def owner (switch wakeup : Format) (member : Member) : Format :=
  if member ∈ trSwitch.members then switch else wakeup

theorem two_events_offsets (switch wakeup : Format) (pointers : Pointers) :
    let elist := (loadedEvents switch wakeup).map TraceEvent.toFtraceElist
    (parseEventOffsets elist pointers).1 = 0 ∧
      ∀ member, (parseEventOffsets elist pointers).2 member =
        match lineOf (owner switch wakeup member) member with
        | some line => (line.offset : Int)
        | none => pointers member := by
  intro elist
  simp only [elist, loadedEvents, List.map_cons, List.map_nil]
  rw [parse_event_offsets_cons]
  refine ⟨rfl, fun member => ?_⟩
  have wakeupFirst : ([(loadedEvent trWakeup.event wakeup .pickPidInfoW).toFtraceElist,
      (loadedEvent trSwitch.event switch .pickPidInfoS).toFtraceElist].find?
        fun event => false || trWakeup.event = event.event) =
      some (loadedEvent trWakeup.event wakeup .pickPidInfoW).toFtraceElist := by
    simp [loadedEvent]
  have switchFound : ([(loadedEvent trWakeup.event wakeup .pickPidInfoW).toFtraceElist,
      (loadedEvent trSwitch.event switch .pickPidInfoS).toFtraceElist].find?
        fun event => false || trSwitch.event = event.event) =
      some (loadedEvent trSwitch.event switch .pickPidInfoS).toFtraceElist := by
    have differ : trSwitch.event ≠ trWakeup.event := by decide
    simp [loadedEvent, differ]
  have found : ∀ event format call, offsetIn
      (some (loadedEvent event format call).toFtraceElist) member.field (pointers member) =
        match lineOf format member with
        | some line => (line.offset : Int)
        | none => pointers member := by
    intro event format call
    rw [offsetIn, Option.bind_some, field_named_line]
    cases lineOf format member <;> rfl
  dsimp only
  rw [parse_struct_apply (by simp [trEvents]), parse_struct_apply (by simp [trEvents]),
    set_offsets_apply _ (dict_fields trCommon (by simp [trEvents]))
      (members_nodup trCommon (by simp [trEvents])), wakeupFirst, switchFound]
  rcases member_cases member with ⟨inside, noSwitch, noWakeup, -⟩ |
    ⟨noCommon, inside, noWakeup, -⟩ | ⟨noCommon, noSwitch, inside, -⟩
  · simp only [noSwitch, noWakeup, inside, if_true, if_false, owner, found]
  · simp only [noCommon, noWakeup, inside, if_true, if_false, owner, found]
  · simp only [noCommon, noSwitch, inside, if_true, if_false, owner, found]

end Setup

/-- Both formats have the fields the program reads, the common ones in one place. -/
structure Complete (switch wakeup : Format) : Prop where
  switchFields : ∀ member ∈ trSwitch.members, lineOf switch member ≠ none
  wakeupFields : ∀ member ∈ trWakeup.members, lineOf wakeup member ≠ none
  commonFields : ∀ member ∈ trCommon.members, lineOf wakeup member ≠ none
  sameCommon : ∀ member ∈ trCommon.members, layout switch member = layout wakeup member
  apart : switch.id ≠ wakeup.id

/-- An event as the kernel writes it, by its own format; of events that are not enabled
only the common part matters. -/
def Written (host : Host) (switch wakeup : Format) (data : List UInt8) (event : KernelEvent) :
    Prop :=
  match event with
  | .switch .. => Carries host (layout switch) data event ∧ event.common.type.toNat = switch.id
  | .wakeup .. => Carries host (layout wakeup) data event ∧ event.common.type.toNat = wakeup.id
  | .other _ =>
      Carries host (layout wakeup) data event ∧ event.common.type.toNat ≠ switch.id ∧
        event.common.type.toNat ≠ wakeup.id

/-- A filled buffer, told by what the kernel writes. -/
def WrittenPage (host : Host) (switch wakeup : Format) (buffer : Nat) (fill : Mem × Nat)
    (told : List (UInt64 × KernelEvent)) : Prop :=
  ∃ page : Page, Holds fill.1 buffer (page.bytes host.bigEndian true) ∧
    List.Forall₂ (fun event entry => event.1 = entry.1 ∧
      Written host switch wakeup event.2 entry.2) page.events told

section Handlers
variable {host : Host} {switch wakeup : Format} {offsets pointers : Pointers} {data : List UInt8}

theorem carries_common_congr (same : ∀ member ∈ trCommon.members, pointers member = offsets member)
    {common : Common} (carried : CarriesCommon host offsets data common) :
    CarriesCommon host pointers data common := by
  obtain ⟨id, type, flags, pid⟩ := carried
  refine ⟨id, ?_, ?_, ?_⟩
  · rwa [same _ (by decide)]
  · rwa [same _ (by decide)]
  · rwa [IntAt, same _ (by decide)]

theorem carries_congr {event : KernelEvent}
    (common : ∀ member ∈ trCommon.members, pointers member = offsets member)
    (switched : event.call = .pickPidInfoS →
      ∀ member ∈ trSwitch.members, pointers member = offsets member)
    (woken : event.call = .pickPidInfoW →
      ∀ member ∈ trWakeup.members, pointers member = offsets member)
    (carried : Carries host offsets data event) : Carries host pointers data event := by
  cases event with
  | switch =>
      have same := switched rfl
      obtain ⟨head, prevComm, prevPid, prevState, nextComm, nextPid, nextPrio⟩ := carried
      refine ⟨carries_common_congr common head, ?_, ?_, ?_, ?_, ?_, ?_⟩
      · rwa [same _ (by decide)]
      · rwa [IntAt, same _ (by decide)]
      · rwa [same _ (by decide)]
      · rwa [same _ (by decide)]
      · rwa [IntAt, same _ (by decide)]
      · rwa [IntAt, same _ (by decide)]
  | wakeup =>
      have same := woken rfl
      obtain ⟨head, comm, pid⟩ := carried
      refine ⟨carries_common_congr common head, ?_, ?_⟩
      · rwa [same _ (by decide)]
      · rwa [IntAt, same _ (by decide)]
  | other => exact carries_common_congr common carried

/-- The pointers after the set up. -/
structure Resolved (switch wakeup : Format) (pointers : Pointers) : Prop where
  common : ∀ member ∈ trCommon.members, pointers member = layout wakeup member
  switch : ∀ member ∈ trSwitch.members, pointers member = layout switch member
  wakeup : ∀ member ∈ trWakeup.members, pointers member = layout wakeup member

theorem resolved_of_line {format : Format} {member : Member} {pointer start : Int}
    (known : lineOf format member ≠ none)
    (same : pointer = match lineOf format member with
      | some line => (line.offset : Int)
      | none => start) : pointer = layout format member := by
  obtain ⟨line, found⟩ := Option.ne_none_iff_exists'.mp known
  rw [same, layout, found]
  rfl

theorem configure_tracers_resolves {fs : Tracefs} (complete : Complete switch wakeup)
    (switchOffered : Offers fs trSwitch.event switch)
    (wakeupOffered : Offers fs trWakeup.event wakeup) (on : 0 ≤ fs.tracingOn)
    (start : Pointers) :
    ∃ pointers, configureTracers fs start = some (loadedEvents switch wakeup, pointers) ∧
      Resolved switch wakeup pointers := by
  obtain ⟨accepted, values⟩ := two_events_offsets switch wakeup start
  refine ⟨(parseEventOffsets ((loadedEvents switch wakeup).map TraceEvent.toFtraceElist) start).2,
    ?_, ?_, ?_, ?_⟩
  · rw [loadedEvents] at accepted
    simp only [configureTracers, append_event_offered switchOffered,
      append_event_offered wakeupOffered, Option.bind_eq_bind, Option.bind_some]
    rw [accepted, if_neg (by decide), if_neg (by omega)]
    rfl
  · intro member inside
    have other : owner switch wakeup member = wakeup := if_neg (by
      revert inside
      cases member <;> decide)
    have value := values member
    rw [other] at value
    exact resolved_of_line (complete.commonFields member inside) value
  · intro member inside
    have value := values member
    rw [show owner switch wakeup member = switch from if_pos inside] at value
    exact resolved_of_line (complete.switchFields member inside) value
  · intro member inside
    have other : owner switch wakeup member = wakeup := if_neg (by
      revert inside
      cases member <;> decide)
    have value := values member
    rw [other] at value
    exact resolved_of_line (complete.wakeupFields member inside) value

theorem written_recorded (complete : Complete switch wakeup)
    (resolved : Resolved switch wakeup pointers) {event : Event} {told : UInt64 × KernelEvent}
    (time : event.1 = told.1) (written : Written host switch wakeup event.2 told.2) :
    Recorded host (loadedEvents switch wakeup) pointers event told := by
  have apart := complete.apart
  obtain ⟨ts, kernel⟩ := told
  have call : ∀ id : Nat, eventcallOf (loadedEvents switch wakeup) id =
        if wakeup.id = id then .pickPidInfoW else if switch.id = id then .pickPidInfoS
        else .pickPidCommon := by
    intro id
    by_cases first : wakeup.id = id
    · simp [eventcallOf, loadedEvents, loadedEvent, first]
    · by_cases second : switch.id = id
      · simp [eventcallOf, loadedEvents, loadedEvent, first, second]
      · simp [eventcallOf, loadedEvents, loadedEvent, first, second]
  have common : ∀ member ∈ trCommon.members, pointers member = layout switch member := by
    intro member inside
    rw [resolved.common member inside, complete.sameCommon member inside]
  cases kernel with
  | switch =>
      obtain ⟨carried, id⟩ := written
      refine ⟨time, carries_congr common (fun _ => resolved.switch) (fun woken => ?_) carried, ?_⟩
      · cases woken
      · rw [call, id, if_neg apart.symm, if_pos rfl]
        rfl
  | wakeup =>
      obtain ⟨carried, id⟩ := written
      refine ⟨time, carries_congr resolved.common (fun switched => ?_)
        (fun _ => resolved.wakeup) carried, ?_⟩
      · cases switched
      · rw [call, id, if_pos rfl]
        rfl
  | other =>
      obtain ⟨carried, notSwitch, notWakeup⟩ := written
      refine
        ⟨time, carries_congr resolved.common (fun switched => ?_) (fun woken => ?_) carried, ?_⟩
      · cases switched
      · cases woken
      · rw [call, if_neg (Ne.symm notWakeup), if_neg (Ne.symm notSwitch)]
        rfl

end Handlers

/-- The reader `thread_ftrace` allocates. -/
def threadKbuffer (host : Host) : Kbuffer := kbufferAlloc host .sameAsHost .sameAsHost

section Reader
variable {host : Host}

theorem thread_kbuffer_reads (little : host.bigEndian = false) (wide : host.long8 = true) :
    Reads host host.bigEndian (threadKbuffer host) ∧ (threadKbuffer host).has flLong8 = true := by
  constructor
  · have fresh := alloc_reads host .sameAsHost .sameAsHost fun _ => wide
    rwa [show readOrder .sameAsHost = host.bigEndian from little.symm] at fresh
  · obtain ⟨bigEndian, long8, is32bit⟩ := host
    simp only at little wide
    subst little wide
    cases is32bit <;> rfl

theorem written_filled {switch wakeup : Format} (complete : Complete switch wakeup)
    {pointers : Pointers} (resolved : Resolved switch wakeup pointers) {buffer : Nat}
    {fills : List (Mem × Nat)} {told : List (List (UInt64 × KernelEvent))}
    (written : List.Forall₂ (WrittenPage host switch wakeup buffer) fills told) :
    List.Forall₂ (Filled host (loadedEvents switch wakeup) pointers true buffer) fills told := by
  apply written.imp
  rintro fill events ⟨page, held, agree⟩
  refine ⟨page, held, agree.imp ?_⟩
  rintro event entry ⟨time, same⟩
  exact written_recorded complete resolved time same

end Reader

/-- From the kernel's files to the handlers: on a little endian machine of 64 bits every
event the kernel writes to the pipe reaches its handler with the values the kernel wrote
and the time of its record, in order, up to the end of its page or the first of the page
that is refused. -/
theorem traced_events_handled {κ : Type} (fp : Rounding) (proc : Proc κ) (numa : Numa)
    (set : PrgSet) (cpuno : Nat) {host : Host} (little : host.bigEndian = false)
    (wide : host.long8 = true) {fs : Tracefs} {switch wakeup : Format}
    (complete : Complete switch wakeup) (switchOffered : Offers fs trSwitch.event switch)
    (wakeupOffered : Offers fs trWakeup.event wakeup) (on : 0 ≤ fs.tracingOn)
    (start : Pointers) {buffer : Nat} (there : buffer ≠ 0) {fills : List (Mem × Nat)}
    {told : List (List (UInt64 × KernelEvent))}
    (written : List.Forall₂ (WrittenPage host switch wakeup buffer) fills told)
    (managed : Managed κ) :
    ∃ elist pointers, configureTracers fs start = some (elist, pointers) ∧
      threadFtrace fp proc numa set cpuno host elist pointers buffer fills (threadKbuffer host)
        managed = some ((taken fills told).foldlM (deliver fp proc numa set cpuno) managed) := by
  obtain ⟨pointers, configured, resolved⟩ :=
    configure_tracers_resolves complete switchOffered wakeupOffered on start
  obtain ⟨reads, long⟩ := thread_kbuffer_reads little wide
  exact ⟨_, pointers, configured,
    thread_ftrace_delivers there reads long (written_filled complete resolved written) managed⟩

section Sample

/-- A field without dimension, its type in one word. -/
def plainField (type name : List Char) (offset size signed : Nat)
    (plain : Word [' ', ';', '\n'] type) (plainName : Word [' ', ';', '\n', '[', ']'] name)
    (ints : ∀ n ∈ [offset, size, signed], n < 2 ^ 31) : FieldLine where
  words := [type]
  name := name
  dimension := none
  offset := offset
  size := size
  signed := signed
  plainWords := by simpa using plain
  plainName := plainName
  ints := ints

def commonFields : List FieldLine :=
  [plainField "short".toList "common_type".toList 0 2 0 (by decide) (by decide) (by decide),
    plainField "char".toList "common_flags".toList 2 1 0 (by decide) (by decide) (by decide),
    plainField "char".toList "common_preempt_count".toList 3 1 0 (by decide) (by decide)
      (by decide),
    plainField "int".toList "common_pid".toList 4 4 1 (by decide) (by decide) (by decide)]

def switchFormat : Format where
  name := "sched_switch".toList
  id := 314
  groups := [commonFields,
    [plainField "char".toList "prev_comm".toList 8 16 0 (by decide) (by decide) (by decide),
      plainField "pid_t".toList "prev_pid".toList 24 4 1 (by decide) (by decide) (by decide),
      plainField "int".toList "prev_prio".toList 28 4 1 (by decide) (by decide) (by decide),
      plainField "long".toList "prev_state".toList 32 8 1 (by decide) (by decide) (by decide),
      plainField "char".toList "next_comm".toList 40 16 0 (by decide) (by decide) (by decide),
      plainField "pid_t".toList "next_pid".toList 56 4 1 (by decide) (by decide) (by decide),
      plainField "int".toList "next_prio".toList 60 4 1 (by decide) (by decide) (by decide)]]
  fmt := "prev_comm=%s".toList
  newlines := 1
  plainName := by decide
  oneLine := by decide

def wakeupFormat : Format where
  name := "sched_wakeup".toList
  id := 317
  groups := [commonFields,
    [plainField "char".toList "comm".toList 8 16 0 (by decide) (by decide) (by decide),
      plainField "pid_t".toList "pid".toList 24 4 1 (by decide) (by decide) (by decide),
      plainField "int".toList "prio".toList 28 4 1 (by decide) (by decide) (by decide),
      plainField "int".toList "target_cpu".toList 32 4 1 (by decide) (by decide) (by decide)]]
  fmt := "comm=%s".toList
  newlines := 1
  plainName := by decide
  oneLine := by decide

def sampleFiles : Tracefs where
  enable := fun _ => 1
  id := fun event =>
    if event = trSwitch.event then some (number 314 ++ ['\n']) else some (number 317 ++ ['\n'])
  format := fun event =>
    if event = trSwitch.event then some (formatFile switchFormat)
    else some (formatFile wakeupFormat)
  tracingOn := 0

/-- Task 100 leaves the CPU to task 200. -/
def sampleSwitch : KernelEvent := .switch ⟨314, 0, 100⟩ 109 100 1 110 200 120

def sampleData : List UInt8 :=
  wordBytes false 2 314 ++ [0, 0] ++ wordBytes false 4 100 ++ (109 :: List.replicate 15 0) ++
    wordBytes false 4 100 ++ wordBytes false 4 120 ++ wordBytes false 8 1 ++
    (110 :: List.replicate 15 0) ++ wordBytes false 4 200 ++ wordBytes false 4 120

def samplePage : Page where
  timestamp := 1000
  missed := .nothing
  records := [.short ⟨7, by decide⟩ sampleData (by decide)]
  small := by decide

theorem field_at_of_take {data bytes : List UInt8} (offset : Nat) (short : offset ≤ data.length)
    (same : (data.drop offset).take bytes.length = bytes) : FieldAt data offset bytes := by
  refine ⟨data.take offset, (data.drop offset).drop bytes.length, ?_, ?_⟩
  · rw [List.length_take, Nat.min_eq_left short]
  · conv_lhs => rw [← List.take_append_drop offset data,
      ← List.take_append_drop bytes.length (data.drop offset), same]

theorem sample_carries : Carries {} (layout switchFormat) sampleData sampleSwitch :=
  ⟨⟨field_at_of_take 0 (by decide) (by decide), field_at_of_take 0 (by decide) (by decide),
      field_at_of_take 2 (by decide) (by decide), field_at_of_take 4 (by decide) (by decide)⟩,
    field_at_of_take 8 (by decide) (by decide), field_at_of_take 24 (by decide) (by decide),
    field_at_of_take 32 (by decide) (by decide), field_at_of_take 40 (by decide) (by decide),
    field_at_of_take 56 (by decide) (by decide), field_at_of_take 60 (by decide) (by decide)⟩

theorem sample_complete : Complete switchFormat wakeupFormat where
  switchFields := by decide
  wakeupFields := by decide
  commonFields := by decide
  sameCommon := by decide
  apart := by decide

theorem switch_offered : Offers sampleFiles trSwitch.event switchFormat :=
  ⟨by decide, rfl, rfl, by decide, by decide +kernel⟩

theorem wakeup_offered : Offers sampleFiles trWakeup.event wakeupFormat :=
  ⟨by decide, rfl, rfl, by decide, by decide +kernel⟩

theorem traced_switch_handled :
    ∃ elist pointers,
      configureTracers sampleFiles (fun _ => 0) = some (elist, pointers) ∧
        threadFtrace exact idleProc ⟨2, {0, 1}⟩ tracing 0 {} elist pointers 64
          [(store (fun _ => 0) 64 (samplePage.bytes false true), 5)] (threadKbuffer {}) newTask =
        some (deliver exact idleProc ⟨2, {0, 1}⟩ tracing 0 newTask [(1007, sampleSwitch)]) := by
  have written : List.Forall₂ (WrittenPage {} switchFormat wakeupFormat 64)
      [(store (fun _ => 0) 64 (samplePage.bytes false true), 5)] [[(1007, sampleSwitch)]] :=
    .cons ⟨samplePage, store_holds _ 64 _, .cons ⟨rfl, sample_carries, rfl⟩ .nil⟩ .nil
  obtain ⟨elist, pointers, configured, run⟩ := traced_events_handled exact idleProc ⟨2, {0, 1}⟩
    tracing 0 rfl rfl sample_complete switch_offered wakeup_offered (by decide) (fun _ => 0)
    (by decide) written newTask
  exact ⟨elist, pointers, configured, run⟩

end Sample

end Orchestrator.TracerSetup
