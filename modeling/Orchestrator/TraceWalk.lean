import Orchestrator.TraceRecords

/-!
The walk over a trace page: elements without an event are passed over, their times
are kept.
-/

namespace Orchestrator.TraceWalk
open Words RingBuffer TraceRecords

/-- An event handed to the caller: its time and its bytes. -/
abbrev Event := UInt64 × List UInt8

def encode (big : Bool) (records : List Record) : List UInt8 :=
  records.flatMap (Record.bytes big)

def span (records : List Record) : Nat := (records.map Record.size).sum

def clock (ts : UInt64) (records : List Record) : UInt64 := records.foldl Record.after ts

/-- The events of a list of elements, from a time on. -/
def events (ts : UInt64) : List Record → List Event
  | [] => []
  | record :: rest =>
      (record.event.map fun data => (record.after ts, data)).toList ++
        events (record.after ts) rest

def Silent (records : List Record) : Prop := ∀ record ∈ records, record.event = none

/-- The event the reader stands at. -/
def current (mem : Mem) (kbuf : Kbuffer) : Option Event :=
  (kbufferReadEvent kbuf).map fun (ptr, ts) =>
    (ts, slice mem ptr (kbufferEventSize kbuf).toNat)

/-- A caller's loop: the event is taken, then the reader moves on. -/
def collect (host : Host) (mem : Mem) : Nat → Kbuffer → Option (List Event × Kbuffer)
  | 0, _ => none
  | fuel + 1, kbuf =>
      match current mem kbuf with
      | none => some ([], kbuf)
      | some event => do
          let (_, moved) ← kbufferNextEvent host mem kbuf
          let (rest, last) ← collect host mem fuel moved
          pure (event :: rest, last)

/-- What the element behind the current one begins is `records`. -/
structure Before (big : Bool) (mem : Mem) (kbuf : Kbuffer) (records : List Record) : Prop where
  held : Holds mem (kbuf.data + kbuf.next) (encode big records)
  fits : kbuf.next + span records = kbuf.size
  small : kbuf.size < 2 ^ 27

/-- The reader stands at the event of `record`. -/
structure At (big : Bool) (mem : Mem) (kbuf : Kbuffer) (record : Record) (data : List UInt8) :
    Prop where
  event : record.event = some data
  held : Holds mem (kbuf.data + kbuf.curr) (record.bytes big)
  index : kbuf.index + data.length = kbuf.next
  next : kbuf.next = kbuf.curr + record.size

def AtEnd (kbuf : Kbuffer) : Prop := kbuf.curr = kbuf.size ∧ kbuf.next = kbuf.size

/-- Only the position and the time may differ. -/
def Moved (kbuf moved : Kbuffer) : Prop :=
  moved = { kbuf with
    timestamp := moved.timestamp, index := moved.index, curr := moved.curr, next := moved.next }

/-- Where the reader comes to from in front of `records`. -/
inductive Reached (big : Bool) (mem : Mem) (kbuf : Kbuffer) (records : List Record) :
    Int → Kbuffer → Prop
  | done {moved : Kbuffer} (silent : Silent records) (finished : AtEnd moved)
      (time : moved.timestamp = clock kbuf.timestamp records) :
      Reached big mem kbuf records (-1) moved
  | event {moved : Kbuffer} {skipped : List Record} {record : Record} {data : List UInt8}
      {rest : List Record} (split : records = skipped ++ record :: rest)
      (silent : Silent skipped) (here : At big mem moved record data)
      (before : Before big mem moved rest) (curr : moved.curr = kbuf.next + span skipped)
      (time : moved.timestamp = clock kbuf.timestamp (skipped ++ [record])) :
      Reached big mem kbuf records 0 moved

section Lists

theorem encode_append (big : Bool) (first second : List Record) :
    encode big (first ++ second) = encode big first ++ encode big second := by
  simp [encode]

theorem encode_cons (big : Bool) (record : Record) (rest : List Record) :
    encode big (record :: rest) = record.bytes big ++ encode big rest := by
  simp [encode]

theorem span_append (first second : List Record) :
    span (first ++ second) = span first + span second := by
  simp [span]

theorem span_cons (record : Record) (rest : List Record) :
    span (record :: rest) = record.size + span rest := by
  simp [span]

@[simp] theorem encode_length (big : Bool) (records : List Record) :
    (encode big records).length = span records := by
  induction records with
  | nil => rfl
  | cons record rest ih =>
      rw [encode_cons, List.length_append, bytes_length, ih, span_cons]

theorem size_pos (record : Record) : 4 ≤ record.size := by
  cases record <;> simp only [Record.size] <;> omega

theorem length_le_span (records : List Record) : 4 * records.length ≤ span records := by
  induction records with
  | nil => simp
  | cons record rest ih =>
      have pos := size_pos record
      rw [span_cons, List.length_cons]
      omega

theorem events_append (ts : UInt64) (first second : List Record) :
    events ts (first ++ second) = events ts first ++ events (clock ts first) second := by
  induction first generalizing ts with
  | nil => rfl
  | cons record rest ih =>
      rw [List.cons_append, events, events, ih, List.append_assoc]
      rfl

theorem clock_append (ts : UInt64) (first second : List Record) :
    clock ts (first ++ second) = clock (clock ts first) second := List.foldl_append

theorem events_silent (ts : UInt64) {records : List Record} (silent : Silent records) :
    events ts records = [] := by
  induction records generalizing ts with
  | nil => rfl
  | cons record rest ih =>
      have none' : record.event = none := silent record List.mem_cons_self
      have later : events (record.after ts) rest = [] :=
        ih _ fun other member => silent other (List.mem_cons_of_mem record member)
      rw [events, none', later]
      rfl

/-- Up to the next event. -/
theorem silent_or_split (records : List Record) :
    Silent records ∨ ∃ skipped record data rest, records = skipped ++ record :: rest ∧
      Silent skipped ∧ record.event = some data := by
  induction records with
  | nil => exact Or.inl fun _ member => by cases member
  | cons first rest ih =>
      cases event : first.event with
      | some data =>
          refine Or.inr ⟨[], first, data, rest, rfl, ?_, event⟩
          intro _ member
          cases member
      | none =>
          rcases ih with silent | ⟨skipped, record, data, later, rfl, silent, some'⟩
          · exact Or.inl (List.forall_mem_cons.mpr ⟨event, silent⟩)
          · exact Or.inr ⟨first :: skipped, record, data, later, rfl,
              List.forall_mem_cons.mpr ⟨event, silent⟩, some'⟩

end Lists

section Steps
variable {host : Host} {big : Bool} {kbuf moved : Kbuffer} {mem : Mem}

theorem Moved.refl (kbuf : Kbuffer) : Moved kbuf kbuf := rfl

theorem Moved.trans {first second third : Kbuffer} (one : Moved first second)
    (two : Moved second third) : Moved first third := by
  rw [Moved] at *
  rw [two, one]

theorem Moved.fields (move : Moved kbuf moved) :
    moved.data = kbuf.data ∧ moved.size = kbuf.size ∧ moved.subbuffer = kbuf.subbuffer ∧
      moved.start = kbuf.start := by
  rw [move]
  exact ⟨rfl, rfl, rfl, rfl⟩

theorem Moved.reads (move : Moved kbuf moved) (reads : Reads host big kbuf) :
    Reads host big moved := by
  rw [move]
  exact ⟨reads.swaps, reads.wide, reads.order, reads.long, reads.current⟩

/-- An element without an event is one `__next_event` goes past. -/
theorem event_none_iff (record : Record) (ts : UInt64) (ptr : Nat) :
    record.event = none ↔
      (record.element ts ptr).typeLen = typeTimeExtend ∨
        (record.element ts ptr).typeLen = typeTimeStamp ∨
        (record.element ts ptr).typeLen = typePadding := by
  cases record with
  | short delta data words =>
      simp only [Record.event, Record.element, typeTimeExtend, typeTimeStamp, typePadding,
        reduceCtorEq, false_iff]
      omega
  | long => simp [Record.event, Record.element, typeTimeExtend, typeTimeStamp, typePadding]
  | padding => simp [Record.event, Record.element]
  | timeExtend => simp [Record.event, Record.element]
  | timeStamp => simp [Record.event, Record.element]

theorem element_after (record : Record) (ts : UInt64) (ptr : Nat) :
    (if (record.element ts ptr).typeLen = typeTimeStamp then (record.element ts ptr).delta
      else ts + (record.element ts ptr).delta) = record.after ts := by
  cases record with
  | short delta data words =>
      rw [if_neg]
      · rfl
      · simp only [Record.element, typeTimeStamp]
        omega
  | _ => rfl

theorem element_span (record : Record) (ts : UInt64) (ptr : Nat) :
    ∃ head, (record.element ts ptr).rptr = ptr + head ∧
      (head : Int) + (record.element ts ptr).length = record.size ∧
      ∀ data, record.event = some data → head + data.length = record.size := by
  cases record with
  | short delta data words =>
      refine ⟨4, rfl, by simp [Record.element, Record.size], ?_⟩
      rintro _ ⟨⟩
      rfl
  | long delta data filler words =>
      refine ⟨8, rfl, by simp [Record.element, Record.size], ?_⟩
      rintro _ ⟨⟩
      simp [Record.size]
  | padding delta rest =>
      refine ⟨4, rfl, ?_, ?_⟩
      · simp only [Record.element, Record.size]
        omega
      · rintro _ ⟨⟩
  | timeExtend => exact ⟨8, rfl, by simp [Record.element, Record.size], by rintro _ ⟨⟩⟩
  | timeStamp => exact ⟨8, rfl, by simp [Record.element, Record.size], by rintro _ ⟨⟩⟩

/-- `update_pointers` at an element. -/
theorem update_pointers_record (reads : Reads host big kbuf) (record : Record)
    (held : Holds mem (kbuf.data + kbuf.curr) (record.bytes big))
    (small : kbuf.curr + record.size < 2 ^ 27) :
    ∃ type found, updatePointers host mem kbuf = (type, found) ∧ Moved kbuf found ∧
      (record.event = none ↔
        type = typeTimeExtend ∨ type = typeTimeStamp ∨ type = typePadding) ∧
      found.timestamp = record.after kbuf.timestamp ∧ found.curr = kbuf.curr ∧
      found.next = kbuf.curr + record.size ∧
      ∀ data, record.event = some data → found.index + data.length = found.next := by
  have here := translate_data_record reads record held (by omega)
  obtain ⟨head, rptr, total, place⟩ := element_span record kbuf.timestamp (kbuf.data + kbuf.curr)
  have low : head ≤ record.size := by
    cases record <;> simp only [Record.element] at rptr total ⊢ <;> omega
  have index : calcIndex kbuf (kbuf.data + kbuf.curr + head) = kbuf.curr + head := by
    rw [calcIndex, unsigned]
    omega
  have next : unsigned (((kbuf.curr + head : Nat) : Int) +
      (record.element kbuf.timestamp (kbuf.data + kbuf.curr)).length) =
        kbuf.curr + record.size := by
    rw [unsigned]
    omega
  refine ⟨_, _, rfl, rfl, ?_, ?_, rfl, ?_, ?_⟩
  · rw [here]
    exact event_none_iff record _ _
  · simp only [here]
    exact element_after record _ _
  · simp only [here]
    rw [rptr, index, next]
  · intro data event
    have size := place data event
    simp only [here]
    rw [rptr, index, next]
    omega

theorem Before.tail {record : Record} {rest : List Record}
    (before : Before big mem kbuf (record :: rest)) :
    Holds mem (kbuf.data + kbuf.next) (record.bytes big) ∧
      Holds mem (kbuf.data + kbuf.next + record.size) (encode big rest) ∧
      kbuf.next + record.size + span rest = kbuf.size := by
  have held := before.held
  have fits := before.fits
  rw [span_cons] at fits
  rw [encode_cons, holds_append, bytes_length] at held
  exact ⟨held.1, held.2, by omega⟩

theorem reached_cons {record : Record} {rest : List Record} {found : Kbuffer} {ret : Int}
    (silent : record.event = none) (next : found.next = kbuf.next + record.size)
    (time : found.timestamp = record.after kbuf.timestamp)
    (reached : Reached big mem found rest ret moved) :
    Reached big mem kbuf (record :: rest) ret moved := by
  cases reached with
  | done quiet finished end' =>
      refine Reached.done (List.forall_mem_cons.mpr ⟨silent, quiet⟩) finished ?_
      rw [end', time]
      rfl
  | @event _ skipped other data later split quiet here before curr at' =>
      subst split
      refine Reached.event (@List.cons_append _ record skipped _).symm
        (List.forall_mem_cons.mpr ⟨silent, quiet⟩) here before ?_ ?_
      · rw [curr, next, span_cons]
        omega
      · rw [at', time]
        rfl

/-- `__next_event` comes to the next element with an event. -/
theorem new_next_event_reaches {records : List Record} (reads : Reads host big kbuf)
    (before : Before big mem kbuf records) {fuel : Nat} (enough : records.length < fuel) :
    ∃ ret moved, newNextEvent host mem fuel kbuf = some (ret, moved) ∧ Moved kbuf moved ∧
      Reached big mem kbuf records ret moved := by
  induction records generalizing kbuf fuel with
  | nil =>
      obtain ⟨fuel, rfl⟩ : ∃ more, fuel = more + 1 := ⟨fuel - 1, by simp at enough; omega⟩
      have last : kbuf.next = kbuf.size := before.fits
      refine ⟨-1, { kbuf with curr := kbuf.next }, ?_, rfl, ?_⟩
      · simp [newNextEvent, last]
      · exact Reached.done (fun _ member => by cases member) ⟨last, last⟩ rfl
  | cons record rest ih =>
      obtain ⟨fuel, rfl⟩ : ∃ more, fuel = more + 1 := ⟨fuel - 1, by omega⟩
      rw [List.length_cons] at enough
      have pos := size_pos record
      have small := before.small
      obtain ⟨here, behind, fits⟩ := before.tail
      have inside : ¬ kbuf.size ≤ kbuf.next := by omega
      have hereReads : Reads host big { kbuf with curr := kbuf.next } :=
        @Moved.reads _ _ kbuf _ rfl reads
      obtain ⟨type, found, update, move, silent, time, curr, next, place⟩ :=
        @update_pointers_record _ _ { kbuf with curr := kbuf.next } mem hereReads record here
          (by simp only; omega)
      have data : found.data = kbuf.data := by rw [move]
      have size : found.size = kbuf.size := by rw [move]
      have later : Before big mem found rest := by
        refine ⟨?_, ?_, ?_⟩
        · rw [data, next, ← Nat.add_assoc]
          exact behind
        · rw [next, size]
          exact fits
        · rw [size]
          exact small
      have movedHere : Moved kbuf found :=
        @Moved.trans kbuf { kbuf with curr := kbuf.next } found rfl move
      simp only [newNextEvent]
      rw [if_neg inside, update]
      by_cases skip : type = typeTimeExtend ∨ type = typeTimeStamp ∨ type = typePadding
      · obtain ⟨ret, last, run, move', reached⟩ :=
          @ih found (movedHere.reads reads) later fuel (by omega)
        refine ⟨ret, last, ?_, movedHere.trans move', ?_⟩
        · simp only [skip, if_true]
          exact run
        · exact reached_cons (silent.mpr skip) next time reached
      · have event : record.event ≠ none := fun quiet => skip (silent.mp quiet)
        obtain ⟨bytes, some'⟩ := Option.ne_none_iff_exists'.mp event
        refine ⟨0, found, by simp only [skip, if_false], movedHere, ?_⟩
        have nothing : Silent [] := fun _ member => by cases member
        refine Reached.event rfl nothing ⟨some', ?_, place bytes some', ?_⟩ later ?_ time
        · rw [data, curr]
          exact here
        · rw [next, curr]
        · simp [curr, span]

theorem next_event_reaches {records : List Record} (reads : Reads host big kbuf)
    (before : Before big mem kbuf records) :
    ∃ ret moved, nextEvent host mem kbuf = some (ret, moved) ∧ Moved kbuf moved ∧
      Reached big mem kbuf records ret moved := by
  have few := length_le_span records
  have fits := before.fits
  have small := before.small
  rw [nextEvent, reads.current, if_neg (by decide)]
  apply new_next_event_reaches reads before
  rw [turns]
  omega

/-- The event's bytes, where the reader points. -/
theorem At.data_held {record : Record} {data : List UInt8} (here : At big mem kbuf record data) :
    Holds mem (kbuf.data + kbuf.index) data := by
  have next := here.next
  have index := here.index
  obtain ⟨head, held⟩ : ∃ head : List UInt8, record.bytes big = head ++ data := by
    have event := here.event
    cases record with
    | short delta other words =>
        cases event
        exact ⟨_, rfl⟩
    | long delta other filler words =>
        cases event
        rw [Record.bytes, ← List.append_assoc]
        exact ⟨_, rfl⟩
    | _ => cases event
  have total := bytes_length big record
  have bytes := here.held
  rw [held, List.length_append] at total
  rw [held, holds_append] at bytes
  have place : kbuf.data + kbuf.curr + head.length = kbuf.data + kbuf.index := by omega
  rw [← place]
  exact bytes.2

theorem read_event_at {record : Record} {data : List UInt8} {rest : List Record}
    (loaded : kbuf.subbuffer ≠ 0) (here : At big mem kbuf record data)
    (before : Before big mem kbuf rest) :
    kbufferReadEvent kbuf = some (kbuf.data + kbuf.index, kbuf.timestamp) := by
  have pos := size_pos record
  have next := here.next
  have fits := before.fits
  rw [kbufferReadEvent, if_neg loaded, if_neg (by omega)]

theorem read_event_end (finished : AtEnd kbuf) : kbufferReadEvent kbuf = none := by
  rw [kbufferReadEvent, if_pos (Nat.le_of_eq finished.1.symm)]
  split <;> rfl

theorem current_at {record : Record} {data : List UInt8} {rest : List Record}
    (loaded : kbuf.subbuffer ≠ 0) (here : At big mem kbuf record data)
    (before : Before big mem kbuf rest) : current mem kbuf = some (kbuf.timestamp, data) := by
  have index := here.index
  have fits := before.fits
  have small := before.small
  have length : kbufferEventSize kbuf = data.length := by
    rw [kbufferEventSize, unsigned, signed]
    split <;> omega
  have stored := here.data_held
  rw [Holds] at stored
  rw [current, read_event_at loaded here before, Option.map_some, length, Int.toNat_natCast]
  simp only [stored]

theorem current_end (finished : AtEnd kbuf) : current mem kbuf = none := by
  rw [current, read_event_end finished, Option.map_none]

/-- The bytes of the page are all the reader looks at. -/
theorem at_congr {other : Mem} {record : Record} {data : List UInt8} {rest : List Record}
    (same : ∀ addr, kbuf.data ≤ addr → addr < kbuf.data + kbuf.size → other addr = mem addr)
    (here : At big mem kbuf record data) (before : Before big mem kbuf rest) :
    At big other kbuf record data ∧ Before big other kbuf rest := by
  have next := here.next
  have fits := before.fits
  constructor
  · refine ⟨here.event, ?_, here.index, here.next⟩
    apply here.held.congr
    intro i inside
    rw [bytes_length] at inside
    apply same <;> omega
  · refine ⟨?_, before.fits, before.small⟩
    apply before.held.congr
    intro i inside
    rw [encode_length] at inside
    apply same <;> omega

/-- The events still to come, out of `records`. -/
def Remaining (big : Bool) (mem : Mem) (kbuf : Kbuffer) (records : List Record)
    (left : List Event) : Prop :=
  (AtEnd kbuf ∧ left = []) ∨
    ∃ record data rest, record :: rest <:+ records ∧ At big mem kbuf record data ∧
      Before big mem kbuf rest ∧ left = (kbuf.timestamp, data) :: events kbuf.timestamp rest

theorem Remaining.of_suffix {part records : List Record} {left : List Event}
    (inside : part <:+ records) (remaining : Remaining big mem kbuf part left) :
    Remaining big mem kbuf records left := by
  rcases remaining with finished | ⟨record, data, rest, suffix, here, before, split⟩
  · exact Or.inl finished
  · exact Or.inr ⟨record, data, rest, suffix.trans inside, here, before, split⟩

/-- The reader of `records`, which began at time `ts`, and the events still to come. -/
def Position (big : Bool) (mem : Mem) (kbuf : Kbuffer) (ts : UInt64) (records : List Record)
    (left : List Event) : Prop :=
  (AtEnd kbuf ∧ kbuf.timestamp = clock ts records ∧ left = []) ∨
    ∃ front record data rest, records = front ++ record :: rest ∧ At big mem kbuf record data ∧
      Before big mem kbuf rest ∧ kbuf.timestamp = clock ts (front ++ [record]) ∧
      left = (kbuf.timestamp, data) :: events kbuf.timestamp rest

theorem Position.remaining {ts : UInt64} {records : List Record} {left : List Event}
    (position : Position big mem kbuf ts records left) :
    Remaining big mem kbuf records left := by
  rcases position with ⟨finished, -, done⟩ |
    ⟨front, record, data, rest, parts, here, before, -, split⟩
  · exact Or.inl ⟨finished, done⟩
  · exact Or.inr ⟨record, data, rest, ⟨front, parts.symm⟩, here, before, split⟩

theorem Position.behind {ts : UInt64} {front records : List Record} {left : List Event}
    (position : Position big mem kbuf (clock ts front) records left) :
    Position big mem kbuf ts (front ++ records) left := by
  rcases position with ⟨finished, time, done⟩ |
    ⟨first, record, data, rest, parts, here, before, time, split⟩
  · exact Or.inl ⟨finished, by rw [time, clock_append], done⟩
  · refine Or.inr ⟨front ++ first, record, data, rest, by rw [parts, List.append_assoc], here,
      before, ?_, split⟩
    rw [time, ← clock_append, List.append_assoc]

theorem reached_position {records : List Record} {ret : Int}
    (reached : Reached big mem kbuf records ret moved) :
    Position big mem moved kbuf.timestamp records (events kbuf.timestamp records) := by
  cases reached with
  | done silent finished time => exact Or.inl ⟨finished, time, events_silent _ silent⟩
  | @event _ skipped record data rest split silent here before curr time =>
      have event := here.event
      have stamp : moved.timestamp = record.after (clock kbuf.timestamp skipped) := by
        rw [time, clock_append]
        rfl
      refine Or.inr ⟨skipped, record, data, rest, split, here, before, time, ?_⟩
      rw [split, events_append, events_silent _ silent, List.nil_append, events, event, stamp]
      rfl

/-- Taking one event after the other yields what is left. -/
theorem collect_remaining {records : List Record} {left : List Event}
    (reads : Reads host big kbuf) (loaded : kbuf.subbuffer ≠ 0)
    (remaining : Remaining big mem kbuf records left) {fuel : Nat} (enough : left.length < fuel) :
    ∃ last, collect host mem fuel kbuf = some (left, last) ∧ Moved kbuf last ∧ AtEnd last := by
  induction left generalizing kbuf fuel with
  | nil =>
      obtain ⟨fuel, rfl⟩ : ∃ more, fuel = more + 1 := ⟨fuel - 1, by simp at enough; omega⟩
      rcases remaining with ⟨finished, -⟩ | ⟨_, _, _, _, _, _, impossible⟩
      · exact ⟨kbuf, by simp [collect, current_end finished], rfl, finished⟩
      · cases impossible
  | cons event left ih =>
      obtain ⟨fuel, rfl⟩ : ∃ more, fuel = more + 1 := ⟨fuel - 1, by omega⟩
      rcases remaining with ⟨_, impossible⟩ | ⟨record, data, rest, suffix, here, before, split⟩
      · cases impossible
      · obtain ⟨rfl, rfl⟩ := List.cons_eq_cons.mp split
        obtain ⟨ret, found, run, move, reached⟩ := next_event_reaches reads before
        have kept : found.subbuffer = kbuf.subbuffer := by rw [move]
        have later := (reached_position reached).remaining.of_suffix
          ((List.suffix_cons record rest).trans suffix)
        obtain ⟨last, walk, move', finished⟩ := @ih found (move.reads reads)
          (by rwa [kept]) later fuel (by simpa using enough)
        refine ⟨last, ?_, move.trans move', finished⟩
        rw [collect, current_at loaded here before]
        simp only [kbufferNextEvent, if_neg loaded, run]
        simp [walk]

end Steps

/-- What the header says of events the kernel had to drop; their number is read as an
`int`. -/
inductive Missed
  | nothing
  | uncounted
  | counted (number : Fin (2 ^ 31))

/-- A page: its time, the events missed in front of it and its elements. -/
structure Page where
  timestamp : UInt64
  missed : Missed
  records : List Record
  small : span records < 2 ^ 27

/-- The word behind the time stamp. -/
def Page.commit (page : Page) : Nat :=
  match page.missed with
  | .nothing => span page.records
  | .uncounted => missingEvents + span page.records
  | .counted _ => missingEvents + missingStored + span page.records

def longSize (long8 : Bool) : Nat := if long8 then 8 else 4

def Missed.bytes (big long8 : Bool) : Missed → List UInt8
  | counted number => wordBytes big (longSize long8) number
  | _ => []

def Page.bytes (big long8 : Bool) (page : Page) : List UInt8 :=
  wordBytes big 8 page.timestamp.toNat ++
    (wordBytes big (longSize long8) page.commit ++
      (encode big page.records ++ page.missed.bytes big long8))

def Page.events (page : Page) : List Event := TraceWalk.events page.timestamp page.records

def Missed.number : Missed → Int
  | nothing => 0
  | uncounted => -1
  | counted number => (number : Nat)

def BeginsSilent : List Record → Prop
  | record :: _ => record.event = none
  | [] => False

instance (records : List Record) : Decidable (BeginsSilent records) :=
  match records with
  | record :: _ => inferInstanceAs (Decidable (record.event = none))
  | [] => inferInstanceAs (Decidable False)

/-- What `kbuffer_missed_events` says of a page loaded: the number only counts at
offset 0, so an element without an event in front of the first hides it. -/
def Page.missedEvents (page : Page) : Int :=
  if BeginsSilent page.records then 0 else page.missed.number

/-- The byte order `kbuffer_alloc` is asked for. -/
def wanted (host : Host) : Endian → Bool
  | .big => true
  | .little => false
  | .sameAsHost => host.bigEndian

section Load
variable {host : Host} {big : Bool} {kbuf : Kbuffer} {mem : Mem}

theorem commit_bits (page : Page) :
    page.commit % 2 ^ 32 &&& commitMask = span page.records ∧ page.commit < 2 ^ 32 ∧
      (page.commit &&& missingEvents = 0 ↔ page.missed = .nothing) ∧
      (page.missed ≠ .nothing →
        (page.commit &&& missingStored = 0 ↔ page.missed = .uncounted)) := by
  have small := page.small
  have mask (value : Nat) : value &&& commitMask = value % 2 ^ 27 :=
    Nat.and_two_pow_sub_one_eq_mod value 27
  have bit (value place : Nat) : value &&& 1 <<< place = 0 ↔ value / 2 ^ place % 2 = 0 := by
    rw [Nat.one_shiftLeft, Nat.and_two_pow, Nat.testBit_eq_decide_div_mod_eq]
    by_cases odd : value / 2 ^ place % 2 = 1
    · simp [odd]
    · simp [odd]
      omega
  rw [mask, missingEvents, missingStored, bit, bit]
  cases missed : page.missed <;>
    simp only [Page.commit, missed, missingEvents, missingStored, Nat.one_shiftLeft, ne_eq,
      reduceCtorEq, not_false_eq_true, not_true_eq_false, true_implies, false_implies, iff_true,
      iff_false, and_true] <;> omega

theorem long_lt (long8 : Bool) {value : Nat} (small : value < 2 ^ 32) :
    value < 256 ^ longSize long8 := by
  cases long8
  · exact small
  · exact Nat.lt_trans small (by decide)

theorem read_long_of_holds (reads : Reads host big kbuf) {ptr value : Nat}
    (held : Holds mem ptr (wordBytes big (longSize (kbuf.has flLong8)) value))
    (small : value < 2 ^ 32) : readLong host mem kbuf ptr = value := by
  have fits := long_lt (kbuf.has flLong8) small
  rw [readLong, reads.long]
  cases wide : kbuf.has flLong8
  · rw [wide] at held
    rw [if_neg (by decide)]
    exact read4_of_holds reads held small
  · rw [wide] at held fits
    rw [if_pos rfl, read8_eq reads]
    exact word_value_of_holds big held fits

/-- The fields read from the header. -/
theorem header_read (reads : Reads host big kbuf) {subbuffer : Nat} (page : Page)
    (held : Holds mem subbuffer (page.bytes big (kbuf.has flLong8))) :
    read8 host mem kbuf subbuffer = page.timestamp.toNat ∧
      readLong host mem kbuf (subbuffer + 8) = page.commit ∧
      Holds mem (subbuffer + if kbuf.has flLong8 then 16 else 12) (encode big page.records) ∧
      ∀ number, page.missed = .counted number →
        readLong host mem kbuf
          (subbuffer + (if kbuf.has flLong8 then 16 else 12) + span page.records) = number := by
  have start : subbuffer + 8 + longSize (kbuf.has flLong8) =
      subbuffer + if kbuf.has flLong8 then 16 else 12 := by
    cases kbuf.has flLong8 <;> rfl
  rw [Page.bytes, holds_append, word_bytes_length, holds_append, word_bytes_length, holds_append,
    encode_length, start] at held
  obtain ⟨time, commit, elements, count⟩ := held
  refine ⟨?_, read_long_of_holds reads commit (commit_bits page).2.1, elements, ?_⟩
  · rw [read8_eq reads]
    exact word_value_of_holds big time page.timestamp.toNat_lt
  · intro number counted
    rw [counted] at count
    exact read_long_of_holds reads count (by omega)

theorem lost_number (reads : Reads host big kbuf) {subbuffer : Nat} (page : Page)
    (held : Holds mem subbuffer (page.bytes big (kbuf.has flLong8))) :
    (if page.commit &&& missingEvents = 0 then 0
      else if page.commit &&& missingStored = 0 then -1
      else signed64 (readLong host mem kbuf (subbuffer +
        (if kbuf.has flLong8 then 16 else 12) + span page.records))) = page.missed.number := by
  obtain ⟨-, -, -, count⟩ := header_read reads page held
  obtain ⟨-, -, none', stored⟩ := commit_bits page
  cases missed : page.missed with
  | nothing =>
      rw [if_pos (none'.mpr missed)]
      rfl
  | uncounted =>
      have some' : page.missed ≠ .nothing := by simp [missed]
      rw [if_neg (mt none'.mp some'), if_pos ((stored some').mpr missed)]
      rfl
  | counted number =>
      have bound := number.isLt
      have some' : page.missed ≠ .nothing := by simp [missed]
      have known : page.missed ≠ .uncounted := by simp [missed]
      rw [if_neg (mt none'.mp some'), if_neg (mt (stored some').mp known), count number missed,
        signed64, if_pos (by omega)]
      rfl

theorem missed_events_reached {records : List Record} {ret : Int} {moved : Kbuffer}
    (origin : kbuf.next = 0) (fits : span records = kbuf.size) (same : moved.size = kbuf.size)
    (reached : Reached big mem kbuf records ret moved) :
    moved.curr = 0 ↔ ¬ BeginsSilent records := by
  cases reached with
  | done silent finished time =>
      have last := finished.1
      cases records with
      | nil =>
          have empty : moved.curr = 0 := by rw [last, same, ← fits]; rfl
          simp [empty, BeginsSilent]
      | cons record rest =>
          have pos := size_pos record
          rw [span_cons] at fits
          simp only [BeginsSilent, silent record List.mem_cons_self, not_true_eq_false, iff_false]
          omega
  | @event _ skipped record data rest split silent here before curr time =>
      subst split
      cases skipped with
      | nil => simp [curr, origin, span, here.event, BeginsSilent]
      | cons first later =>
          have pos := size_pos first
          rw [span_cons] at curr
          simp only [List.cons_append, BeginsSilent, silent first List.mem_cons_self,
            not_true_eq_false, iff_false]
          omega

theorem Position.with_first {ts : UInt64} {records : List Record} {left : List Event}
    (position : Position big mem kbuf ts records left) (first : Nat) :
    Position big mem { kbuf with first := first } ts records left := by
  rcases position with ⟨finished, time, done⟩ |
    ⟨front, record, data, rest, parts, here, before, time, split⟩
  · exact Or.inl ⟨finished, time, done⟩
  · exact Or.inr ⟨front, record, data, rest, parts,
      ⟨here.event, here.held, here.index, here.next⟩,
      ⟨before.held, before.fits, before.small⟩, time, split⟩

/-- The reader `loaded`, in front of the first event of a page. -/
structure Loaded (host : Host) (big : Bool) (mem : Mem) (subbuffer : Nat) (page : Page)
    (kbuf loaded : Kbuffer) : Prop where
  place : loaded.subbuffer = subbuffer
  there : loaded.subbuffer ≠ 0
  reads : Reads host big loaded
  position : Position big mem loaded page.timestamp page.records page.events
  missed : kbufferMissedEvents loaded = page.missedEvents
  flags : loaded.flags = kbuf.flags
  start : loaded.start = if loaded.has flLong8 then 16 else 12
  data : loaded.data = subbuffer + loaded.start
  size : loaded.size = span page.records

theorem load_page (reads : Reads host big kbuf) {subbuffer : Nat} (there : subbuffer ≠ 0)
    (page : Page) (held : Holds mem subbuffer (page.bytes big (kbuf.has flLong8))) :
    ∃ loaded, kbufferLoadSubbuffer host mem kbuf subbuffer = some (0, loaded) ∧
      Loaded host big mem subbuffer page kbuf loaded := by
  obtain ⟨time, commit, elements, -⟩ := header_read reads page held
  have lost := lost_number reads page held
  obtain ⟨size, -⟩ := commit_bits page
  let reset : Kbuffer :=
    { kbuf with
      subbuffer := subbuffer
      timestamp := page.timestamp
      curr := 0
      start := if kbuf.has flLong8 then 16 else 12
      data := subbuffer + if kbuf.has flLong8 then 16 else 12
      size := span page.records
      lostEvents := page.missed.number
      index := 0
      next := 0 }
  have resetReads : Reads host big reset :=
    ⟨reads.swaps, reads.wide, reads.order, reads.long, reads.current⟩
  have before : Before big mem reset page.records := ⟨elements, Nat.zero_add _, page.small⟩
  obtain ⟨ret, moved, run, move, reached⟩ := next_event_reaches resetReads before
  have same : moved.size = reset.size := by rw [move]
  have kept : moved.lostEvents = page.missed.number := by rw [move]
  have loaded : moved.subbuffer = subbuffer := by rw [move]
  have flags : moved.flags = kbuf.flags := by rw [move]
  have start : moved.start = reset.start ∧ moved.data = subbuffer + reset.start := by
    rw [move]
    exact ⟨rfl, rfl⟩
  have long : moved.has flLong8 = kbuf.has flLong8 := by rw [Kbuffer.has, flags, Kbuffer.has]
  refine ⟨{ moved with first := moved.curr }, ?_, loaded, ?_, ?_, ?_, ?_, flags, ?_, ?_, same⟩
  · simp only [kbufferLoadSubbuffer, if_neg there, time, commit, size, UInt64.ofNat_toNat]
    rw [lost]
    simp only [reset] at run
    rw [run]
    rfl
  · rw [loaded]
    exact there
  · have movedReads := move.reads resetReads
    exact ⟨movedReads.swaps, movedReads.wide, movedReads.order, movedReads.long,
      movedReads.current⟩
  · exact (reached_position reached).with_first moved.curr
  · have origin := missed_events_reached rfl rfl same reached
    have narrow : signed (unsigned page.missed.number) = page.missed.number := by
      cases page.missed with
      | nothing => rfl
      | uncounted => rfl
      | counted number => 
          have bound := number.isLt
          rw [Missed.number, unsigned_of_lt (by omega), signed_of_lt bound]
    rw [kbufferMissedEvents, Page.missedEvents]
    by_cases hidden : BeginsSilent page.records
    · rw [if_pos hidden, if_pos (mt origin.mp (not_not.mpr hidden))]
    · rw [if_neg hidden, if_neg (not_not.mpr (origin.mpr hidden)), kept, narrow]
  · show moved.start = if moved.has flLong8 then 16 else 12
    rw [start.1, long]
  · show moved.data = subbuffer + moved.start
    rw [start.1, start.2]

theorem events_length (ts : UInt64) (records : List Record) :
    (events ts records).length ≤ records.length := by
  induction records generalizing ts with
  | nil => exact Nat.le_refl 0
  | cons record rest ih =>
      have later := ih (record.after ts)
      cases event : record.event <;> simp only [events, event, Option.map_none, Option.map_some,
        Option.toList_none, Option.toList_some, List.nil_append, List.cons_append,
        List.length_cons] <;> omega

theorem page_events_lt (page : Page) : page.events.length < turns := by
  have events := events_length page.timestamp page.records
  have records := length_le_span page.records
  have small := page.small
  rw [turns, Page.events]
  omega

theorem read_order_wanted (host : Host) (endian : Endian)
    (native : endian = .sameAsHost → host.bigEndian = false) :
    readOrder endian = wanted host endian := by
  cases endian with
  | sameAsHost => exact (native rfl).symm
  | _ => rfl

/-- A page written in the byte order asked for is read back: its events in their
order, with their times. -/
theorem page_round_trip (host : Host) (size : LongSize) (endian : Endian)
    (native : endian = .sameAsHost → host.bigEndian = false)
    (wide : host.bigEndian ≠ wanted host endian → host.long8 = true)
    (mem : Mem) (subbuffer : Nat) (there : subbuffer ≠ 0) (page : Page)
    (held : Holds mem subbuffer
      (page.bytes (wanted host endian) ((kbufferAlloc host size endian).has flLong8))) :
    ∃ loaded last,
      kbufferLoadSubbuffer host mem (kbufferAlloc host size endian) subbuffer = some (0, loaded) ∧
        kbufferMissedEvents loaded = page.missedEvents ∧
        collect host mem turns loaded = some (page.events, last) := by
  have order := read_order_wanted host endian native
  rw [← order] at wide held
  have reads := alloc_reads host size endian wide
  obtain ⟨loaded, load, ready⟩ := load_page reads there page held
  obtain ⟨last, walk, -⟩ :=
    collect_remaining ready.reads ready.there ready.position.remaining (page_events_lt page)
  exact ⟨loaded, last, load, ready.missed, walk⟩

/-- Time extended, a short record, one discarded, and a long one of a single byte. -/
def mixedPage : Page where
  timestamp := 1000
  missed := .counted 3
  records :=
    [.timeExtend 300000000, .short 5 [1, 2, 3, 4] (by decide), .padding 1 [],
      .long 7 [9] [0, 0, 0] (by decide)]
  small := by decide

def mixedMem (big : Bool) : Mem := store (fun _ => 0xff) 64 (mixedPage.bytes big true)

theorem page_round_trip_mixed :
    ∃ loaded last,
      kbufferLoadSubbuffer { bigEndian := false } (mixedMem true)
          (kbufferAlloc { bigEndian := false } .lsize8 .big) 64 = some (0, loaded) ∧
        kbufferMissedEvents loaded = 0 ∧
        collect { bigEndian := false } (mixedMem true) turns loaded =
          some ([(300001005, [1, 2, 3, 4]), (300001013, [9, 0, 0, 0])], last) :=
  page_round_trip { bigEndian := false } .lsize8 .big (fun same => by cases same) (fun _ => rfl)
    (mixedMem true) 64
    (by decide) mixedPage (store_holds _ 64 _)

end Load

end Orchestrator.TraceWalk
