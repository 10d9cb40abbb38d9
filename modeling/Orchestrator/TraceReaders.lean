import Orchestrator.TracePipe

/-!
The threads of `thread_ftrace` on all CPUs at once. A turn of a thread hands one event to
its handler, which holds the mutex, or reads a new page.
-/

namespace Orchestrator.TraceReaders
open Orchdata Resmgnt Traversal Manage ManageSched
open Words RingBuffer TraceRecords TraceWalk EventOffsets TracePipe

/-- A tracing thread between two turns: what it is going to read, the page in its buffer,
how many events it takes before it sees the signal to stop, the event at hand. -/
structure Reader where
  fills : List (Mem × Nat)
  mem : Mem
  left : Nat
  found : Found
  kbuf : Kbuffer

/-- A thread that has set up its buffer. -/
def Reader.start (fills : List (Mem × Nat)) (kbuf : Kbuffer) : Reader :=
  ⟨fills, fun _ => 0, 0, none, kbuf⟩

/-- The threads by their CPUs, and the list of tasks they share. -/
structure Readers (κ : Type) where
  threads : Nat → Reader
  managed : Managed κ

section Threads
variable (host : Host) (elist : List TraceEvent) (pointers : Pointers)

/-- The event a thread hands on next. -/
def Reader.atHand (reader : Reader) : Option (UInt64 × KernelEvent) :=
  if reader.left = 0 then none
  else
    match reader.found with
    | none => none
    | some (pEvent, timestamp) =>
        let id := wordValue host.bigEndian (slice reader.mem pEvent 2)
        some (timestamp, readFrame host reader.mem pointers pEvent (eventcallOf elist id))

variable {κ : Type} (fp : Rounding) (proc : Proc κ) (numa : Numa) (set : PrgSet)

/-- A turn of the thread of a CPU. A refused event has the rest of the page flushed. -/
def readerTurn (buffer cpuno : Nat) (reader : Reader) (managed : Managed κ) :
    Option (Reader × Except Stop (Managed κ)) :=
  match reader.atHand host elist pointers with
  | some (timestamp, event) =>
      match handle fp proc numa set cpuno managed timestamp event with
      | .error stop => some (reader, .error stop)
      | .ok (ret, next) =>
          if ret < 0 then some ({ reader with found := none }, .ok next)
          else
            match kbufferNextEvent host reader.mem reader.kbuf with
            | none => none
            | some (found, moved) =>
                some ({ reader with left := reader.left - 1, found := found, kbuf := moved },
                  .ok next)
  | none =>
      match reader.fills with
      | [] => some (reader, .ok managed)
      | (mem, left) :: more =>
          match kbufferLoadSubbuffer host mem reader.kbuf buffer with
          | none => none
          | some (_, loaded) =>
              some (⟨more, mem, left, kbufferReadEvent loaded, loaded⟩, .ok managed)

/-- The event of a turn, with its CPU. -/
def handled (cpuno : Nat) (reader : Reader) : List (Nat × UInt64 × KernelEvent) :=
  ((reader.atHand host elist pointers).map fun event => (cpuno, event)).toList

/-- The threads take turns in any order, with each other and with the other threads of the
program; the log has the events in the order in which they were handled. -/
inductive Turns (buffer : Nat) (others : Managed κ → Managed κ → Prop) (start : Readers κ) :
    List (Nat × UInt64 × KernelEvent) → Readers κ → Prop
  | start : Turns buffer others start [] start
  | turn {log : List (Nat × UInt64 × KernelEvent)} {readers : Readers κ} {reader : Reader}
      {next : Managed κ} (before : Turns buffer others start log readers) (cpuno : Nat)
      (run : readerTurn host elist pointers fp proc numa set buffer cpuno
        (readers.threads cpuno) readers.managed = some (reader, .ok next)) :
      Turns buffer others start
        (log ++ handled host elist pointers cpuno (readers.threads cpuno))
        ⟨Function.update readers.threads cpuno reader, next⟩
  | other {log : List (Nat × UInt64 × KernelEvent)} {readers : Readers κ} {next : Managed κ}
      (before : Turns buffer others start log readers) (step : others readers.managed next) :
      Turns buffer others start log ⟨readers.threads, next⟩

end Threads

section Alone
variable {host : Host} {elist : List TraceEvent} {pointers : Pointers}
variable {κ : Type} {fp : Rounding} {proc : Proc κ} {numa : Numa} {set : PrgSet}
variable {buffer : Nat} {others : Managed κ → Managed κ → Prop} {start : Readers κ}

theorem Turns.trans {middle last : Readers κ} {log later : List (Nat × UInt64 × KernelEvent)}
    (first : Turns host elist pointers fp proc numa set buffer others start log middle)
    (second : Turns host elist pointers fp proc numa set buffer others middle later last) :
    Turns host elist pointers fp proc numa set buffer others start (log ++ later) last := by
  induction second with
  | start => rwa [List.append_nil]
  | turn before cpuno run ih =>
      rw [← List.append_assoc]
      exact ih.turn cpuno run
  | other before step ih => exact ih.other step

/-- One turn of a thread. -/
theorem Turns.single {cpuno : Nat} {reader : Reader} {next : Managed κ}
    (run : readerTurn host elist pointers fp proc numa set buffer cpuno
      (start.threads cpuno) start.managed = some (reader, .ok next)) :
    Turns host elist pointers fp proc numa set buffer others start
      (handled host elist pointers cpuno (start.threads cpuno))
      ⟨Function.update start.threads cpuno reader, next⟩ :=
  Turns.start.turn cpuno run

/-- The loop over a page is a run of turns. -/
theorem event_loop_turns {cpuno : Nat} {fills : List (Mem × Nat)} {mem : Mem} {left : Nat}
    {found : Found} {kbuf last : Kbuffer} {managed next : Managed κ}
    (here : start.threads cpuno = ⟨fills, mem, left, found, kbuf⟩)
    (list : start.managed = managed)
    (run : eventLoop fp proc numa set cpuno host elist pointers mem left found kbuf managed =
      some (last, .ok next)) :
    ∃ log readers reader,
      Turns host elist pointers fp proc numa set buffer others start log readers ∧
      readers = ⟨Function.update start.threads cpuno reader, next⟩ ∧
      reader.fills = fills ∧ reader.kbuf = last ∧ reader.atHand host elist pointers = none := by
  induction left generalizing start found kbuf managed with
  | zero =>
      rw [eventLoop] at run
      obtain ⟨rfl, same⟩ := Prod.ext_iff.mp (Option.some.inj run)
      cases same
      refine ⟨[], start, start.threads cpuno, .start, ?_, by rw [here], by rw [here], ?_⟩
      · rw [Function.update_eq_self, ← list]
      · simp [here, Reader.atHand]
  | succ left ih =>
      cases found with
      | none =>
          rw [eventLoop] at run
          · obtain ⟨rfl, same⟩ := Prod.ext_iff.mp (Option.some.inj run)
            cases same
            refine ⟨[], start, start.threads cpuno, .start, ?_, by rw [here], by rw [here], ?_⟩
            · rw [Function.update_eq_self, ← list]
            · simp [here, Reader.atHand]
          · simp
      | some event =>
          obtain ⟨pEvent, timestamp⟩ := event
          have hand : (start.threads cpuno).atHand host elist pointers =
              some (timestamp, readFrame host mem pointers pEvent
                (eventcallOf elist (wordValue host.bigEndian (slice mem pEvent 2)))) := by
            simp [here, Reader.atHand]
          rw [eventLoop] at run
          cases called : handle fp proc numa set cpuno managed timestamp
              (readFrame host mem pointers pEvent
                (eventcallOf elist (wordValue host.bigEndian (slice mem pEvent 2)))) with
          | error stop => simp [called] at run
          | ok result =>
              obtain ⟨ret, after⟩ := result
              simp only [called] at run
              by_cases refused : ret < 0
              · rw [if_pos refused] at run
                simp only [Option.some.injEq, Prod.mk.injEq, Except.ok.injEq] at run
                obtain ⟨rfl, rfl⟩ := run
                have turn : readerTurn host elist pointers fp proc numa set buffer cpuno
                    (start.threads cpuno) start.managed =
                      some ({ start.threads cpuno with found := none }, .ok after) := by
                  simp [readerTurn, hand, list, called, refused]
                refine ⟨_, _, _, .single turn, rfl, ?_, ?_, ?_⟩
                · rw [here]
                · rw [here]
                · simp [Reader.atHand]
              · rw [if_neg refused] at run
                cases moves : kbufferNextEvent host mem kbuf with
                | none => simp [moves] at run
                | some step =>
                    obtain ⟨found, moved⟩ := step
                    simp only [moves] at run
                    have turn : readerTurn host elist pointers fp proc numa set buffer cpuno
                        (start.threads cpuno) start.managed =
                          some (⟨fills, mem, left, found, moved⟩, .ok after) := by
                      rw [readerTurn, hand, list]
                      simp [called, refused, here, moves]
                    obtain ⟨log, readers, reader, turns, same, rest⟩ :=
                      @ih ⟨Function.update start.threads cpuno ⟨fills, mem, left, found, moved⟩,
                        after⟩ found moved after (Function.update_self ..) rfl run
                    refine ⟨_, readers, reader, (Turns.single turn).trans turns, ?_, rest⟩
                    rw [same, Function.update_idem]

/-- A thread that runs alone is a run of turns. -/
theorem thread_ftrace_turns {cpuno : Nat} {fills : List (Mem × Nat)} {kbuf : Kbuffer}
    {managed final : Managed κ} (here : (start.threads cpuno).fills = fills)
    (loaded : (start.threads cpuno).kbuf = kbuf)
    (idle : (start.threads cpuno).atHand host elist pointers = none)
    (list : start.managed = managed)
    (run : threadFtrace fp proc numa set cpuno host elist pointers buffer fills kbuf managed =
      some (.ok final)) :
    ∃ log reader, Turns host elist pointers fp proc numa set buffer others start log
      ⟨Function.update start.threads cpuno reader, final⟩ ∧ reader.fills = [] ∧
        reader.atHand host elist pointers = none := by
  induction fills generalizing start kbuf managed with
  | nil =>
      rw [threadFtrace] at run
      cases run
      refine ⟨[], start.threads cpuno, ?_, here, idle⟩
      rw [Function.update_eq_self, ← list]
      exact .start
  | cons fill more ih =>
      obtain ⟨mem, left⟩ := fill
      rw [threadFtrace] at run
      cases load : kbufferLoadSubbuffer host mem kbuf buffer with
      | none => simp [load] at run
      | some result =>
          obtain ⟨ret, page⟩ := result
          simp only [load] at run
          cases loop : eventLoop fp proc numa set cpuno host elist pointers mem left
              (kbufferReadEvent page) page managed with
          | none => simp [loop] at run
          | some result =>
              obtain ⟨last, outcome⟩ := result
              simp only [loop] at run
              cases outcome with
              | error stop => simp at run
              | ok next =>
                  simp only at run
                  have turn : readerTurn host elist pointers fp proc numa set buffer cpuno
                      (start.threads cpuno) start.managed =
                        some (⟨more, mem, left, kbufferReadEvent page, page⟩, .ok managed) := by
                    simp [readerTurn, idle, here, loaded, load, list]
                  obtain ⟨log, readers, reader, turns, same, fills, kbuf, done⟩ :=
                    @event_loop_turns _ _ _ _ fp proc numa set buffer others
                      ⟨Function.update start.threads cpuno
                        ⟨more, mem, left, kbufferReadEvent page, page⟩, managed⟩ cpuno more mem
                      left _ page last managed next (Function.update_self ..) rfl loop
                  subst same
                  rw [Function.update_idem] at turns
                  obtain ⟨later, finished, rest, ends⟩ :=
                    @ih ⟨Function.update start.threads cpuno reader, next⟩ last next
                      (by simp [fills]) (by simp [kbuf]) (by simp [done]) rfl run
                  rw [Function.update_idem] at rest
                  exact ⟨_, finished, ((Turns.single turn).trans turns).trans rest, ends⟩

end Alone

/-- The checks of the handlers. -/
def Accepted : KernelEvent → Prop
  | .switch common prevComm _ _ nextComm _ _ =>
      common.type &&& 0xF000 = 0 ∧ prevComm &&& 0x80 = 0 ∧ nextComm &&& 0x80 = 0
  | .wakeup common comm _ => common.type &&& 0xF000 = 0 ∧ comm &&& 0x80 = 0
  | .other common => common.type &&& 0xF000 = 0

section Accepted
variable {κ : Type} {fp : Rounding} {proc : Proc κ} {numa : Numa} {set : PrgSet}

/-- What the handlers accept is not flushed. -/
theorem accepted_returns {cpuno : Nat} {managed next : Managed κ} {ts : UInt64}
    {event : KernelEvent} {ret : Int} (accepted : Accepted event)
    (run : handle fp proc numa set cpuno managed ts event = .ok (ret, next)) : ret = 0 := by
  cases event with
  | switch common prevComm prevPid prevState nextComm nextPid nextPrio =>
      obtain ⟨type, prev, after⟩ := accepted
      rw [handle, pickPidInfoS, pickPidCommon, if_neg (by simp [Common.frame, type])] at run
      simp only [prev, after, ne_eq, not_true_eq_false, or_self, if_false] at run
      obtain ⟨left, -, last⟩ := bind_ok run
      cases last
      rfl
  | wakeup common comm pid =>
      obtain ⟨type, name⟩ := accepted
      simp [handle, wakeupFrame, pickPidCommon, Common.frame, type, name] at run
      exact run.1.symm
  | other common =>
      simp [handle, pickPidCommon, Common.frame, show common.type &&& 0xF000 = 0 from accepted]
        at run
      exact run.1.symm

end Accepted

section Pages
variable (host : Host) (elist : List TraceEvent) (pointers : Pointers) (buffer : Nat)

/-- A thread on a page of which these events are left, with the pages it reads later. -/
structure Reading (reader : Reader) (now : List (UInt64 × KernelEvent))
    (later : List (List (UInt64 × KernelEvent))) : Prop where
  reads : Reads host host.bigEndian reader.kbuf
  long : reader.kbuf.has flLong8 = true
  pages : List.Forall₂ (Filled host elist pointers true buffer) reader.fills later
  page : (reader.found = none ∧ now = []) ∨
    (reader.kbuf.subbuffer ≠ 0 ∧ reader.found = kbufferReadEvent reader.kbuf ∧
      ∃ records events, Remaining host.bigEndian reader.mem reader.kbuf records events ∧
        List.Forall₂ (Recorded host elist pointers) events now)

end Pages

/-- What a thread still hands on. -/
def Reader.ahead (reader : Reader) (now : List (UInt64 × KernelEvent))
    (later : List (List (UInt64 × KernelEvent))) : List (UInt64 × KernelEvent) :=
  now.take reader.left ++ (taken reader.fills later).flatten

section Steps
variable {host : Host} {elist : List TraceEvent} {pointers : Pointers} {buffer : Nat}
variable {reader : Reader} {now : List (UInt64 × KernelEvent)}
variable {later : List (List (UInt64 × KernelEvent))}

theorem reading_start {kbuf : Kbuffer} (reads : Reads host host.bigEndian kbuf)
    (long : kbuf.has flLong8 = true) {fills : List (Mem × Nat)}
    (pages : List.Forall₂ (Filled host elist pointers true buffer) fills later) :
    Reading host elist pointers buffer (Reader.start fills kbuf) [] later where
  reads := reads
  long := long
  pages := pages
  page := Or.inl ⟨rfl, rfl⟩

/-- The event at hand is the next one of the page. -/
theorem at_hand_reading (reading : Reading host elist pointers buffer reader now later) :
    reader.atHand host elist pointers = (now.take reader.left).head? := by
  unfold Reader.atHand
  by_cases stopped : reader.left = 0
  · rw [if_pos stopped, stopped, List.take_zero, List.head?_nil]
  · rw [if_neg stopped]
    obtain ⟨left, more⟩ := Nat.exists_eq_succ_of_ne_zero stopped
    rcases reading.page with ⟨none', rfl⟩ | ⟨loaded, found, records, events, remaining, recorded⟩
    · rw [none', List.take_nil, List.head?_nil]
    · rcases remaining with ⟨finished, rfl⟩ | ⟨record, data, rest, -, here, before, rfl⟩
      · cases recorded
        rw [found, read_event_end finished, List.take_nil, List.head?_nil]
      · obtain ⟨first, others, this', -, rfl⟩ := List.forall₂_cons_left_iff.mp recorded
        have frame := call_recorded here.data_held this'
        rw [found, read_event_at loaded here before, more, List.take_succ_cons,
          List.head?_cons]
        simp only [frame, show reader.kbuf.timestamp = first.1 from this'.time]

variable {κ : Type} {fp : Rounding} {proc : Proc κ} {numa : Numa} {set : PrgSet} {cpuno : Nat}

/-- What a turn does to the list: the event at hand is handled. -/
theorem turn_handles {managed after : Managed κ} {next : Reader}
    (run : readerTurn host elist pointers fp proc numa set buffer cpuno reader managed =
      some (next, .ok after)) :
    (∃ ts event ret, reader.atHand host elist pointers = some (ts, event) ∧
      handle fp proc numa set cpuno managed ts event = .ok (ret, after)) ∨
    reader.atHand host elist pointers = none ∧ after = managed := by
  rw [readerTurn] at run
  cases hand : reader.atHand host elist pointers with
  | none =>
      rw [hand] at run
      refine Or.inr ⟨rfl, ?_⟩
      simp only at run
      split at run
      · simp_all
      · split at run <;> simp_all
  | some entry =>
      obtain ⟨ts, event⟩ := entry
      rw [hand] at run
      cases called : handle fp proc numa set cpuno managed ts event with
      | error stop => simp [called] at run
      | ok result =>
          obtain ⟨ret, final⟩ := result
          refine Or.inl ⟨ts, event, ret, rfl, ?_⟩
          simp only [called] at run
          split at run
          · simp_all
          · split at run <;> simp_all

/-- A turn with an event at hand. -/
theorem turn_event (reading : Reading host elist pointers buffer reader now later)
    {entry : UInt64 × KernelEvent} {rest : List (UInt64 × KernelEvent)}
    (front : now.take reader.left = entry :: rest)
    (accepted : Accepted entry.2) (managed : Managed κ) :
    ∃ next outcome, readerTurn host elist pointers fp proc numa set buffer cpuno reader managed =
        some (next, outcome) ∧
      ∀ after, outcome = .ok after → ∃ now', Reading host elist pointers buffer next now' later ∧
        next.fills = reader.fills ∧ now'.take next.left = rest := by
  have hand := at_hand_reading reading
  rw [front, List.head?_cons] at hand
  obtain ⟨reads, long, pages, page⟩ := reading
  rw [readerTurn, hand]
  cases called : handle fp proc numa set cpuno managed entry.1 entry.2 with
  | error stop => exact ⟨reader, .error stop, by simp only [called], by simp⟩
  | ok result =>
      obtain ⟨ret, after⟩ := result
      obtain rfl := accepted_returns accepted called
      rcases page with ⟨-, rfl⟩ | ⟨loaded, found, records, events, remaining, recorded⟩
      · simp at front
      rcases remaining with ⟨-, rfl⟩ | ⟨record, data, records', -, here, before, rfl⟩
      · cases recorded
        simp at front
      obtain ⟨first, others, -, recorded', rfl⟩ := List.forall₂_cons_left_iff.mp recorded
      cases taken : reader.left with
      | zero => simp [taken] at front
      | succ left =>
          rw [taken, List.take_succ_cons, List.cons.injEq] at front
          obtain ⟨moved, run, move, loaded', position⟩ := next_event_found reads loaded before
          refine ⟨{ reader with left := left, found := kbufferReadEvent moved, kbuf := moved },
            .ok after, ?_, ?_⟩
          · simp [called, run]
          · rintro _ ⟨⟩
            refine ⟨others, ⟨move.reads reads, ?_, pages, Or.inr ⟨loaded', rfl, _, _, position,
              recorded'⟩⟩, rfl, front.2⟩
            rw [move]
            exact long

/-- A turn without an event at hand. -/
theorem turn_page (there : buffer ≠ 0)
    (reading : Reading host elist pointers buffer reader now later)
    (front : now.take reader.left = []) (managed : Managed κ) :
    ∃ next, readerTurn host elist pointers fp proc numa set buffer cpuno reader managed =
        some (next, .ok managed) ∧
      ∃ now' later', Reading host elist pointers buffer next now' later' ∧
        next.ahead now' later' = reader.ahead now later := by
  have kept := reading
  have hand := at_hand_reading reading
  rw [front, List.head?_nil] at hand
  obtain ⟨reads, long, pages, -⟩ := reading
  rw [readerTurn, hand]
  cases fills : reader.fills with
  | nil => exact ⟨reader, rfl, now, later, kept, rfl⟩
  | cons fill more =>
      obtain ⟨mem, left⟩ := fill
      rw [fills] at pages
      obtain ⟨told, others, filled, pages', rfl⟩ := List.forall₂_cons_left_iff.mp pages
      obtain ⟨page, held, recorded⟩ := filled
      rw [← long] at held
      obtain ⟨loaded, load, ready⟩ := load_page reads there page held
      refine ⟨⟨more, mem, left, kbufferReadEvent loaded, loaded⟩, by simp only [load], told, others,
        ⟨ready.reads, ?_, pages', Or.inr ⟨ready.there, rfl, _, _, ready.position.remaining,
          recorded⟩⟩, ?_⟩
      · show loaded.has flLong8 = true
        rw [Kbuffer.has, ready.flags, ← long, Kbuffer.has]
      · simp [Reader.ahead, taken, front, fills]

/-- A thread can always take its turn, and nothing of what is ahead of it gets lost in it. -/
theorem turn_reading (there : buffer ≠ 0)
    (reading : Reading host elist pointers buffer reader now later)
    (accepted : ∀ entry ∈ reader.ahead now later, Accepted entry.2)
    (managed : Managed κ) :
    ∃ next outcome, readerTurn host elist pointers fp proc numa set buffer cpuno reader managed =
        some (next, outcome) ∧
      ∀ after, outcome = .ok after → ∃ now' later',
        Reading host elist pointers buffer next now' later' ∧
        reader.ahead now later =
          (reader.atHand host elist pointers).toList ++ next.ahead now' later' := by
  have hand := at_hand_reading reading
  cases front : now.take reader.left with
  | nil =>
      obtain ⟨next, run, now', later', reading', same⟩ := @turn_page _ _ _ _ _ _ _ κ fp proc numa
        set cpuno there reading front managed
      refine ⟨next, .ok managed, run, fun after _ => ⟨now', later', reading', ?_⟩⟩
      rw [hand, front, same]
      rfl
  | cons entry rest =>
      have inside : entry ∈ reader.ahead now later := by simp [Reader.ahead, front]
      obtain ⟨next, outcome, run, goes⟩ := @turn_event _ _ _ _ _ _ _ κ fp proc numa set cpuno
        reading entry rest front (accepted entry inside) managed
      refine ⟨next, outcome, run, fun after ends => ?_⟩
      obtain ⟨now', reading', fills, left⟩ := goes after ends
      refine ⟨now', later, reading', ?_⟩
      rw [hand, front, Reader.ahead, Reader.ahead, front, left, fills]
      rfl

/-- What was handled of a CPU. -/
def ofCpu (cpuno : Nat) (log : List (Nat × UInt64 × KernelEvent)) : List (UInt64 × KernelEvent) :=
  (log.filter fun entry => entry.1 = cpuno).map Prod.snd

theorem of_cpu_handled (reader : Reader) (cpuno other : Nat) :
    ofCpu other (handled host elist pointers cpuno reader) =
      if other = cpuno then (reader.atHand host elist pointers).toList else [] := by
  rw [ofCpu, handled]
  cases reader.atHand host elist pointers with
  | none => simp
  | some event =>
      by_cases same : other = cpuno
      · simp [same]
      · simp [same, Ne.symm same]

/-- The threads at their start, with the events their pages have up to the signal to stop. -/
def Streams (host : Host) (elist : List TraceEvent) (pointers : Pointers) (buffer : Nat)
    (readers : Readers κ) (streams : Nat → List (UInt64 × KernelEvent)) : Prop :=
  ∀ cpuno, ∃ now later, Reading host elist pointers buffer (readers.threads cpuno) now later ∧
    (readers.threads cpuno).ahead now later = streams cpuno

variable {others : Managed κ → Managed κ → Prop} {start : Readers κ}
variable {streams : Nat → List (UInt64 × KernelEvent)}

/-- However the threads take turns: of each CPU's events those handled are the first ones,
each once and in order. -/
theorem turns_streams (there : buffer ≠ 0)
    (begins : Streams host elist pointers buffer start streams)
    (accepted : ∀ cpuno, ∀ entry ∈ streams cpuno, Accepted entry.2)
    {log : List (Nat × UInt64 × KernelEvent)} {readers : Readers κ}
    (turns : Turns host elist pointers fp proc numa set buffer others start log readers)
    (cpuno : Nat) :
    ∃ now later, Reading host elist pointers buffer (readers.threads cpuno) now later ∧
      streams cpuno = ofCpu cpuno log ++ (readers.threads cpuno).ahead now later := by
  induction turns with
  | start =>
      obtain ⟨now, later, reading, same⟩ := begins cpuno
      exact ⟨now, later, reading, same.symm⟩
  | @turn log readers reader next before turning run ih =>
      obtain ⟨now, later, reading, parts⟩ := ih
      have seen : ofCpu cpuno (log ++ handled host elist pointers turning
          (readers.threads turning)) = ofCpu cpuno log ++
            if cpuno = turning then ((readers.threads turning).atHand host elist pointers).toList
            else [] := by
        rw [ofCpu, List.filter_append, List.map_append, ← ofCpu, ← ofCpu, of_cpu_handled]
      rw [seen]
      by_cases same : cpuno = turning
      · subst same
        have accepted' : ∀ entry ∈ (readers.threads cpuno).ahead now later,
            Accepted entry.2 := by
          intro entry inside
          exact accepted cpuno entry (by rw [parts]; exact List.mem_append_right _ inside)
        obtain ⟨next', outcome, run', goes⟩ := @turn_reading _ _ _ _ _ _ _ κ fp proc numa set
          cpuno there reading accepted' readers.managed
        rw [run] at run'
        obtain ⟨rfl, rfl⟩ := Prod.mk.inj (Option.some.inj run')
        obtain ⟨now', later', reading', split⟩ := goes next rfl
        refine ⟨now', later', ?_, ?_⟩
        · simpa using reading'
        · simp only [Function.update_self, if_true]
          rw [List.append_assoc, ← split, parts]
      · refine ⟨now, later, ?_, ?_⟩
        · simpa [Function.update_of_ne same] using reading
        · simpa [Function.update_of_ne same, same] using parts
  | other before step ih => exact ih

end Steps

end Orchestrator.TraceReaders
