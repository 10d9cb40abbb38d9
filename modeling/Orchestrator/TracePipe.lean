import Orchestrator.EventOffsets
import Orchestrator.ManageSched
import Orchestrator.TraceWalk

/-!
`thread_ftrace` on the bytes of the trace pipe: pages of the ring buffer, events told by
the id they begin with, fields at the offsets of the formats.
-/

namespace Orchestrator.TracePipe
open Orchdata Resmgnt PidLookup PidResources Manage ManageSched
open Words RingBuffer TraceRecords TraceWalk EventOffsets

/-- The event elaboration functions. -/
inductive Eventcall
  | pickPidCommon | pickPidInfoS | pickPidInfoW
  deriving DecidableEq

/-- `struct ftrace_elist`. -/
structure TraceEvent extends FtraceElist where
  eventid : Int
  eventcall : Eventcall

/-- The values behind `tr_common` the program looks at. -/
structure Common where
  type : UInt16
  flags : UInt8
  pid : Int32

/-- What a frame says. -/
inductive KernelEvent
  | switch (common : Common) (prevComm : UInt8) (prevPid : Int32) (prevState : UInt64)
      (nextComm : UInt8) (nextPid nextPrio : Int32)
  | wakeup (common : Common) (comm : UInt8) (pid : Int32)
  | other (common : Common)

def KernelEvent.common : KernelEvent → Common
  | switch common .. | wakeup common .. | other common => common

def KernelEvent.call : KernelEvent → Eventcall
  | switch .. => .pickPidInfoS
  | wakeup .. => .pickPidInfoW
  | other _ => .pickPidCommon

/-- The common part of a frame. -/
def Common.frame (common : Common) (cpuno : Nat) (ts : UInt64) : SwitchFrame where
  cpuno := cpuno
  ts := ts
  commonType := common.type
  commonFlags := common.flags
  commonPid := common.pid.toInt
  prevPid := 0
  nextPid := 0

section Handling
variable {κ : Type} (fp : Rounding) (proc : Proc κ) (numa : Numa) (set : PrgSet) (cpuno : Nat)

/-- `pickPidInfoW` with its checks. -/
def wakeupFrame (managed : Managed κ) (ts : UInt64) (common : Common) (comm : UInt8)
    (pid : Int32) : Int × Managed κ :=
  match pickPidCommon managed (common.frame cpuno ts) with
  | none => (-1, managed)
  | some seen => if comm &&& 0x80 ≠ 0 then (-1, seen) else (0, pickPidInfoW seen pid.toInt ts)

/-- The call for an event. -/
def handle (managed : Managed κ) (ts : UInt64) : KernelEvent → Except Stop (Int × Managed κ)
  | .switch common prevComm prevPid prevState nextComm nextPid nextPrio =>
      pickPidInfoS fp proc numa set managed
        { common.frame cpuno ts with
          prevComm := prevComm
          prevPid := prevPid.toInt
          prevState := prevState
          nextComm := nextComm
          nextPid := nextPid.toInt
          nextPrio := nextPrio.toInt }
  | .wakeup common comm pid => .ok (wakeupFrame cpuno managed ts common comm pid)
  | .other common =>
      match pickPidCommon managed (common.frame cpuno ts) with
      | none => .ok (-1, managed)
      | some seen => .ok (0, seen)

/-- The events of a page, up to the first that is refused. -/
def deliver (managed : Managed κ) : List (UInt64 × KernelEvent) → Except Stop (Managed κ)
  | [] => .ok managed
  | (ts, event) :: rest =>
      match handle fp proc numa set cpuno managed ts event with
      | .error stop => .error stop
      | .ok (ret, next) => if ret < 0 then .ok next else deliver next rest

end Handling

section Frames
variable (host : Host) (mem : Mem) (pointers : Pointers) (addr : Nat)

/-- `*frame.member`, of `width` bytes. -/
def field (member : Member) (width : Nat) : Nat :=
  wordValue host.bigEndian (slice mem ((addr : Int) + pointers member).toNat width)

def int32 (word : Nat) : Int32 := (UInt32.ofNat word).toInt32

def readCommon : Common where
  type := UInt16.ofNat (field host mem pointers addr .commonType 2)
  flags := UInt8.ofNat (field host mem pointers addr .commonFlags 1)
  pid := int32 (field host mem pointers addr .commonPid 4)

/-- The frame an elaboration function reads. -/
def readFrame : Eventcall → KernelEvent
  | .pickPidCommon => .other (readCommon host mem pointers addr)
  | .pickPidInfoS =>
      .switch (readCommon host mem pointers addr)
        (UInt8.ofNat (field host mem pointers addr .prevComm 1))
        (int32 (field host mem pointers addr .prevPid 4))
        (UInt64.ofNat (field host mem pointers addr .prevState 8))
        (UInt8.ofNat (field host mem pointers addr .nextComm 1))
        (int32 (field host mem pointers addr .nextPid 4))
        (int32 (field host mem pointers addr .nextPrio 4))
  | .pickPidInfoW =>
      .wakeup (readCommon host mem pointers addr)
        (UInt8.ofNat (field host mem pointers addr .comm 1))
        (int32 (field host mem pointers addr .pid 4))

/-- The first event with this id; unknown ones have the common part read. -/
def eventcallOf (elist : List TraceEvent) (id : Nat) : Eventcall :=
  match elist.find? fun event => event.eventid = (id : Int) with
  | some event => event.eventcall
  | none => .pickPidCommon

end Frames

section Thread
variable {κ : Type} (fp : Rounding) (proc : Proc κ) (numa : Numa) (set : PrgSet) (cpuno : Nat)
variable (host : Host) (elist : List TraceEvent) (pointers : Pointers)

/-- The loop over the events of a page. The signal to stop is seen after `left` more of
them. A refused event has the rest of the page flushed. -/
def eventLoop (mem : Mem) : Nat → Found → Kbuffer → Managed κ →
    Option (Kbuffer × Except Stop (Managed κ))
  | 0, _, kbuf, managed => some (kbuf, .ok managed)
  | _, none, kbuf, managed => some (kbuf, .ok managed)
  | left + 1, some (pEvent, timestamp), kbuf, managed =>
      let id := wordValue host.bigEndian (slice mem pEvent 2)
      let frame := readFrame host mem pointers pEvent (eventcallOf elist id)
      match handle fp proc numa set cpuno managed timestamp frame with
      | .error stop => some (kbuf, .error stop)
      | .ok (ret, next) =>
          if ret < 0 then some (kbuf, .ok next)
          else
            match kbufferNextEvent host mem kbuf with
            | none => none
            | some (found, moved) => eventLoop mem left found moved next

/-- `thread_ftrace` over what it reads: for each time the buffer was filled the memory
then, and the events taken before the signal to stop was seen. -/
def threadFtrace (buffer : Nat) :
    List (Mem × Nat) → Kbuffer → Managed κ → Option (Except Stop (Managed κ))
  | [], _, managed => some (.ok managed)
  | (mem, left) :: more, kbuf, managed =>
      match kbufferLoadSubbuffer host mem kbuf buffer with
      | none => none
      | some (_, loaded) =>
          match eventLoop fp proc numa set cpuno host elist pointers mem left
              (kbufferReadEvent loaded) loaded managed with
          | none => none
          | some (_, .error stop) => some (.error stop)
          | some (last, .ok next) => threadFtrace buffer more last next

end Thread

/-- The bytes stand in the data at the offset. -/
def FieldAt (data : List UInt8) (offset : Int) (bytes : List UInt8) : Prop :=
  ∃ front back, offset = (front.length : Nat) ∧ data = front ++ (bytes ++ back)

section Layout
variable (host : Host) (offsets : Pointers) (data : List UInt8)

def IntAt (member : Member) (value : Int32) : Prop :=
  FieldAt data (offsets member) (wordBytes host.bigEndian 4 value.toUInt32.toNat)

/-- The common part, which begins with the id. -/
structure CarriesCommon (common : Common) : Prop where
  id : FieldAt data 0 (wordBytes host.bigEndian 2 common.type.toNat)
  type : FieldAt data (offsets .commonType) (wordBytes host.bigEndian 2 common.type.toNat)
  flags : FieldAt data (offsets .commonFlags) [common.flags]
  pid : IntAt host offsets data .commonPid common.pid

/-- The kernel's record of an event. -/
def Carries : KernelEvent → Prop
  | .switch common prevComm prevPid prevState nextComm nextPid nextPrio =>
      CarriesCommon host offsets data common ∧
        FieldAt data (offsets .prevComm) [prevComm] ∧ IntAt host offsets data .prevPid prevPid ∧
        FieldAt data (offsets .prevState) (wordBytes host.bigEndian 8 prevState.toNat) ∧
        FieldAt data (offsets .nextComm) [nextComm] ∧ IntAt host offsets data .nextPid nextPid ∧
        IntAt host offsets data .nextPrio nextPrio
  | .wakeup common comm pid =>
      CarriesCommon host offsets data common ∧ FieldAt data (offsets .comm) [comm] ∧
        IntAt host offsets data .pid pid
  | .other common => CarriesCommon host offsets data common

end Layout

section Fields
variable {host : Host} {mem : Mem} {pointers : Pointers} {addr : Nat} {data : List UInt8}

theorem field_slice (held : Holds mem addr data) {offset : Int} {bytes : List UInt8}
    (placed : FieldAt data offset bytes) :
    slice mem ((addr : Int) + offset).toNat bytes.length = bytes := by
  obtain ⟨front, back, rfl, rfl⟩ := placed
  rw [holds_append, holds_append] at held
  have place : ((addr : Int) + (front.length : Nat)).toNat = addr + front.length := by omega
  rw [place]
  exact held.2.1

theorem word_field (held : Holds mem addr data) {offset : Int} {width value : Nat}
    (small : value < 256 ^ width)
    (placed : FieldAt data offset (wordBytes host.bigEndian width value)) :
    wordValue host.bigEndian (slice mem ((addr : Int) + offset).toNat width) = value := by
  have bytes := field_slice held placed
  rw [word_bytes_length] at bytes
  rw [bytes, word_value_word_bytes host.bigEndian width value small]

theorem byte_field (held : Holds mem addr data) {member : Member} {byte : UInt8}
    (placed : FieldAt data (pointers member) [byte]) :
    UInt8.ofNat (field host mem pointers addr member 1) = byte := by
  have bytes := field_slice held placed
  rw [List.length_singleton] at bytes
  rw [field, bytes]
  cases host.bigEndian <;> simp [wordValue, leValue]

theorem int_field (held : Holds mem addr data) {member : Member} {value : Int32}
    (placed : IntAt host pointers data member value) :
    int32 (field host mem pointers addr member 4) = value := by
  rw [field, word_field held value.toUInt32.toNat_lt placed, int32, UInt32.ofNat_toNat]
  rfl

theorem common_fields (held : Holds mem addr data) {common : Common}
    (carried : CarriesCommon host pointers data common) :
    readCommon host mem pointers addr = common := by
  rw [readCommon, field, word_field held common.type.toNat_lt carried.type,
    byte_field held carried.flags, int_field held carried.pid, UInt16.ofNat_toNat]

/-- The fields are read as the kernel wrote them. -/
theorem frame_fields (held : Holds mem addr data) {event : KernelEvent}
    (carried : Carries host pointers data event) :
    readFrame host mem pointers addr event.call = event := by
  cases event with
  | switch common prevComm prevPid prevState nextComm nextPid nextPrio =>
      obtain ⟨head, prevComm', prevPid', prevState', nextComm', nextPid', nextPrio'⟩ := carried
      have state : field host mem pointers addr .prevState 8 = prevState.toNat :=
        word_field held prevState.toNat_lt prevState'
      simp only [KernelEvent.call, readFrame]
      rw [common_fields held head, byte_field held prevComm', int_field held prevPid', state,
        byte_field held nextComm', int_field held nextPid', int_field held nextPrio',
        UInt64.ofNat_toNat]
  | wakeup common comm pid =>
      obtain ⟨head, comm', pid'⟩ := carried
      simp only [KernelEvent.call, readFrame]
      rw [common_fields held head, byte_field held comm', int_field held pid']
  | other common =>
      simp only [KernelEvent.call, readFrame]
      rw [common_fields held carried]

theorem carries_common {event : KernelEvent} (carried : Carries host pointers data event) :
    CarriesCommon host pointers data event.common := by
  cases event with
  | switch => exact carried.1
  | wakeup => exact carried.1
  | other => exact carried

end Fields

section Run
variable {κ : Type} {fp : Rounding} {proc : Proc κ} {numa : Numa} {set : PrgSet} {cpuno : Nat}
variable {host : Host} {elist : List TraceEvent} {pointers : Pointers} {mem : Mem}

/-- An event of a page and what the kernel recorded with it. -/
structure Recorded (host : Host) (elist : List TraceEvent) (pointers : Pointers)
    (event : Event) (told : UInt64 × KernelEvent) : Prop where
  time : event.1 = told.1
  carried : Carries host pointers event.2 told.2
  call : eventcallOf elist told.2.common.type.toNat = told.2.call

/-- The call for an event on a page. -/
theorem call_recorded {ptr : Nat} {event : Event} {told : UInt64 × KernelEvent}
    (held : Holds mem ptr event.2) (recorded : Recorded host elist pointers event told) :
    readFrame host mem pointers ptr
      (eventcallOf elist (wordValue host.bigEndian (slice mem ptr 2))) = told.2 := by
  have id := word_field held told.2.common.type.toNat_lt (carries_common recorded.carried).id
  rw [Int.add_zero, Int.toNat_natCast] at id
  rw [id, recorded.call]
  exact frame_fields held recorded.carried

/-- The move to the next event. -/
theorem next_event_found {kbuf : Kbuffer} {records : List Record}
    (reads : Reads host host.bigEndian kbuf) (loaded : kbuf.subbuffer ≠ 0)
    (before : Before host.bigEndian mem kbuf records) :
    ∃ moved, kbufferNextEvent host mem kbuf = some (kbufferReadEvent moved, moved) ∧
      Moved kbuf moved ∧ moved.subbuffer ≠ 0 ∧
      Remaining host.bigEndian mem moved records (events kbuf.timestamp records) := by
  obtain ⟨code, moved, run, move, reached⟩ := next_event_reaches reads before
  obtain ⟨-, -, sub', -⟩ := move.fields
  have loaded' : moved.subbuffer ≠ 0 := by rwa [sub']
  have found : (if code < 0 then none else some (moved.data + moved.index, moved.timestamp)) =
      kbufferReadEvent moved := by
    cases reached with
    | done silent finished time => simp [read_event_end finished]
    | event split silent there behind curr time =>
        rw [read_event_at loaded' there behind, if_neg (by decide)]
  refine ⟨moved, ?_, move, loaded', (reached_position reached).remaining⟩
  simp only [kbufferNextEvent, if_neg loaded, run, Option.bind_eq_bind, Option.bind_some,
    Option.pure_def, found]

/-- The loop hands on what was recorded, in its order. -/
theorem event_loop_delivers {kbuf : Kbuffer} {records : List Record} {events : List Event}
    {told : List (UInt64 × KernelEvent)} (reads : Reads host host.bigEndian kbuf)
    (loaded : kbuf.subbuffer ≠ 0)
    (remaining : Remaining host.bigEndian mem kbuf records events)
    (recorded : List.Forall₂ (Recorded host elist pointers) events told) (left : Nat)
    (managed : Managed κ) :
    ∃ last, Moved kbuf last ∧
      eventLoop fp proc numa set cpuno host elist pointers mem left (kbufferReadEvent kbuf) kbuf
        managed = some (last, deliver fp proc numa set cpuno managed (told.take left)) := by
  induction left generalizing kbuf records events told managed with
  | zero => exact ⟨kbuf, rfl, by rw [eventLoop, List.take_zero, deliver]⟩
  | succ left ih =>
      rcases remaining with ⟨finished, rfl⟩ | ⟨record, data, rest, suffix, here, before, rfl⟩
      · cases recorded
        refine ⟨kbuf, rfl, ?_⟩
        rw [read_event_end finished, List.take_nil, deliver]
        rfl
      · obtain ⟨first, more, this', later, rfl⟩ := List.forall₂_cons_left_iff.mp recorded
        obtain ⟨ts, event⟩ := first
        have time : kbuf.timestamp = ts := this'.time
        have frame := call_recorded here.data_held this'
        rw [read_event_at loaded here before, List.take_succ_cons, deliver]
        simp only [eventLoop, frame, time]
        cases called : handle fp proc numa set cpuno managed ts event with
        | error stop => exact ⟨kbuf, rfl, rfl⟩
        | ok result =>
            obtain ⟨ret, next⟩ := result
            by_cases refused : ret < 0
            · refine ⟨kbuf, rfl, ?_⟩
              simp only [refused, if_true]
            · obtain ⟨moved, run, move, loaded', position⟩ := next_event_found reads loaded before
              obtain ⟨last, move', rest'⟩ := ih (move.reads reads) loaded' position later next
              refine ⟨last, move.trans move', ?_⟩
              simp only [refused, if_false, run, rest']

/-- The buffer was filled with a page of these events. -/
def Filled (host : Host) (elist : List TraceEvent) (pointers : Pointers) (long8 : Bool)
    (buffer : Nat) (fill : Mem × Nat) (told : List (UInt64 × KernelEvent)) : Prop :=
  ∃ page : Page, Holds fill.1 buffer (page.bytes host.bigEndian long8) ∧
    List.Forall₂ (Recorded host elist pointers) page.events told

/-- What the thread takes of the events recorded in its pages. -/
def taken (fills : List (Mem × Nat)) (told : List (List (UInt64 × KernelEvent))) :
    List (List (UInt64 × KernelEvent)) :=
  List.zipWith (fun fill events => events.take fill.2) fills told

theorem thread_ftrace_delivers {buffer : Nat} (there : buffer ≠ 0) {kbuf : Kbuffer}
    (reads : Reads host host.bigEndian kbuf) {long8 : Bool} (long : kbuf.has flLong8 = long8)
    {fills : List (Mem × Nat)} {told : List (List (UInt64 × KernelEvent))}
    (filled : List.Forall₂ (Filled host elist pointers long8 buffer) fills told)
    (managed : Managed κ) :
    threadFtrace fp proc numa set cpuno host elist pointers buffer fills kbuf managed =
      some ((taken fills told).foldlM (deliver fp proc numa set cpuno) managed) := by
  induction filled generalizing kbuf managed with
  | nil => rfl
  | @cons fill events fills told first later ih =>
      obtain ⟨mem, left⟩ := fill
      obtain ⟨page, held, recorded⟩ := first
      rw [← long] at held
      obtain ⟨loaded, load, ready⟩ := load_page reads there page held
      obtain ⟨last, move, run⟩ := @event_loop_delivers _ fp proc numa set cpuno host elist pointers
        mem loaded page.records page.events events ready.reads ready.there
        ready.position.remaining recorded left managed
      have flags : last.has flLong8 = kbuf.has flLong8 := by
        rw [move]
        show loaded.has flLong8 = kbuf.has flLong8
        rw [Kbuffer.has, ready.flags, Kbuffer.has]
      rw [threadFtrace]
      simp only [load, run]
      rw [taken, List.zipWith_cons_cons, List.foldlM_cons]
      cases result : deliver fp proc numa set cpuno managed (events.take left) with
      | error stop => rfl
      | ok next =>
          have rest := ih (move.reads ready.reads) (flags.trans long) next
          simp only [rest]
          rfl

end Run

end Orchestrator.TracePipe
