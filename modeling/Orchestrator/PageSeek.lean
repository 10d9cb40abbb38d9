import Mathlib.Data.List.TakeWhile
import Orchestrator.TraceWalk

/-!
Other ways over a page: to an offset, and over all of its elements.
-/

namespace Orchestrator.PageSeek
open Words RingBuffer TraceRecords TraceWalk

/-- The events with the offsets of their records. -/
def located (offset : Nat) (ts : UInt64) : List Record → List (Nat × Event)
  | [] => []
  | record :: rest =>
      (record.event.map fun data => (offset, (record.after ts, data))).toList ++
        located (offset + record.size) (record.after ts) rest

/-- Those a search for an offset does not go past. -/
def fromOffset (least : Nat) (entries : List (Nat × Event)) : List Event :=
  (entries.dropWhile fun entry => entry.1 < least).map Prod.snd

/-- The offset looked for, counted from the start of the data. A negative one is
compared as a large number. -/
def leastOffset (start : Nat) (offset : Int) : Nat :=
  if offset < 0 then 2 ^ 27 else offset.toNat - start

/-- `kbuffer_raw_get` called until it returns `NULL`. -/
def rawWalk (host : Host) (mem : Mem) (kbuf : Kbuffer) (subbuf : Nat) : Nat → RawInfo → List RawInfo
  | 0, _ => []
  | fuel + 1, info =>
      match kbufferRawGet host mem kbuf subbuf info with
      | none => []
      | some found => found :: rawWalk host mem kbuf subbuf fuel found

/-- What there is to be said of the elements from `ptr` on. -/
def rawInfos (ts : UInt64) (ptr : Nat) : List Record → List RawInfo
  | [] => []
  | record :: rest =>
      let element := record.element ts ptr
      { type := element.typeLen
        length := element.length
        delta := element.delta
        next := ptr + record.size } :: rawInfos ts (ptr + record.size) rest

section Lists

theorem located_append (offset : Nat) (ts : UInt64) (first second : List Record) :
    located offset ts (first ++ second) =
      located offset ts first ++ located (offset + span first) (clock ts first) second := by
  induction first generalizing offset ts with
  | nil => rfl
  | cons record rest ih =>
      rw [List.cons_append, located, located, ih, List.append_assoc, span_cons, Nat.add_assoc]
      rfl

theorem located_events (offset : Nat) (ts : UInt64) (records : List Record) :
    (located offset ts records).map Prod.snd = events ts records := by
  induction records generalizing offset ts with
  | nil => rfl
  | cons record rest ih =>
      rw [located, events, List.map_append, ih]
      cases record.event <;> rfl

theorem located_silent (offset : Nat) (ts : UInt64) {records : List Record}
    (silent : events ts records = []) : located offset ts records = [] := by
  rw [← located_events offset] at silent
  exact List.map_eq_nil_iff.mp silent

theorem from_offset_cons (least offset : Nat) (event : Event) (entries : List (Nat × Event)) :
    fromOffset least ((offset, event) :: entries) =
      if offset < least then fromOffset least entries else event :: entries.map Prod.snd := by
  rw [fromOffset, List.dropWhile_cons]
  by_cases before : offset < least
  · simp [before, fromOffset]
  · simp [before]

end Lists

section Search
variable {host : Host} {big : Bool} {kbuf moved : Kbuffer} {mem : Mem}

/-- The loop, begun at an event. -/
theorem seek_at (reads : Reads host big kbuf) (loaded : kbuf.subbuffer ≠ 0) {least : Nat}
    {record : Record} {data : List UInt8} {rest : List Record}
    (here : At big mem kbuf record data) (before : Before big mem kbuf rest) {fuel : Nat}
    (enough : rest.length < fuel) :
    ∃ moved, seek host mem least fuel (kbufferReadEvent kbuf) kbuf =
        some (kbufferReadEvent moved, moved) ∧ Moved kbuf moved ∧
      Remaining big mem moved (record :: rest)
        (fromOffset least ((kbuf.curr, (kbuf.timestamp, data)) ::
          located kbuf.next kbuf.timestamp rest)) := by
  induction fuel generalizing kbuf record data rest with
  | zero => omega
  | succ fuel ih =>
      rw [from_offset_cons, seek]
      by_cases past : kbuf.curr < least
      · obtain ⟨ret, found, run, move, reached⟩ := next_event_reaches reads before
        obtain ⟨-, -, sub', -⟩ := move.fields
        rw [if_pos past, if_pos past]
        simp only [kbufferNextEvent, if_neg loaded, run, Option.bind_eq_bind, Option.bind_some,
          Option.pure_def]
        cases reached with
        | done silent finished time =>
            have none' : located kbuf.next kbuf.timestamp rest = [] :=
              located_silent _ _ (events_silent _ silent)
            refine ⟨found, ?_, move, Or.inl ⟨finished, by rw [none']; rfl⟩⟩
            simp [read_event_end finished]
        | @event _ skipped other bytes later split silent there behind curr time =>
            have shorter : later.length < fuel := by
              rw [split] at enough
              simp at enough
              omega
            have loaded' : found.subbuffer ≠ 0 := by rwa [sub']
            obtain ⟨moved, walk, move', remaining⟩ :=
              ih (move.reads reads) loaded' there behind shorter
            have suffix : other :: later <:+ record :: rest :=
              ⟨record :: skipped, by rw [split]; rfl⟩
            refine ⟨moved, ?_, move.trans move', ?_⟩
            · rw [read_event_at loaded' there behind] at walk
              simpa using walk
            · have event := there.event
              have next := there.next
              have stamp : found.timestamp = other.after (clock kbuf.timestamp skipped) := by
                rw [time, clock_append]
                rfl
              have parts : located kbuf.next kbuf.timestamp rest =
                  (found.curr, (found.timestamp, bytes)) ::
                    located found.next found.timestamp later := by
                rw [split, located_append, located_silent _ _ (events_silent _ silent),
                  List.nil_append, located, event, ← curr, ← stamp, ← next]
                rfl
              rw [parts]
              exact remaining.of_suffix suffix
      · rw [if_neg past, if_neg past]
        refine ⟨kbuf, rfl, rfl, Or.inr ⟨record, data, rest, List.suffix_refl _, here, before, ?_⟩⟩
        rw [located_events]

theorem unsigned_least {offset : Int} (start : Nat) (low : -2 ^ 31 ≤ offset)
    (high : offset < 2 ^ 31) (small : start ≤ 16) {bound : Nat} (inside : bound < 2 ^ 27) :
    (bound < unsigned (if unsigned offset < start then 0 else offset - start) ↔
      bound < leastOffset start offset) := by
  rw [leastOffset, unsigned, unsigned]
  split <;> split <;> omega

theorem from_offset_congr {least other : Nat} {entries : List (Nat × Event)}
    (same : ∀ entry ∈ entries, (entry.1 < least ↔ entry.1 < other)) :
    fromOffset least entries = fromOffset other entries := by
  induction entries with
  | nil => rfl
  | cons entry entries ih =>
      obtain ⟨offset, event⟩ := entry
      have head : offset < least ↔ offset < other := same _ List.mem_cons_self
      have tail := ih fun entry member => same entry (List.mem_cons_of_mem _ member)
      rw [from_offset_cons, from_offset_cons, tail]
      by_cases before : offset < least
      · rw [if_pos before, if_pos (head.mp before)]
      · rw [if_neg before, if_neg (mt head.mpr before)]

theorem located_lt {offset : Nat} {ts : UInt64} {records : List Record} {entry : Nat × Event}
    (member : entry ∈ located offset ts records) : entry.1 < offset + span records := by
  induction records generalizing offset ts with
  | nil => cases member
  | cons record rest ih =>
      have pos := size_pos record
      rw [span_cons]
      rw [located, List.mem_append] at member
      rcases member with here | later
      · cases event : record.event with
        | none => simp [event] at here
        | some data =>
            simp [event] at here
            rw [here]
            simp only
            omega
      · have bound := ih later
        omega

/-- The end of a page stays the end. -/
theorem seek_end (reads : Reads host big kbuf) (loaded : kbuf.subbuffer ≠ 0)
    (finished : AtEnd kbuf) (small : kbuf.size < 2 ^ 27) (least fuel : Nat) :
    ∃ moved, seek host mem least (fuel + 1) (kbufferReadEvent kbuf) kbuf =
        some (kbufferReadEvent moved, moved) ∧ Moved kbuf moved ∧ AtEnd moved := by
  rw [seek]
  by_cases past : kbuf.curr < least
  · have before : Before big mem kbuf [] := ⟨holds_nil _ _, finished.2, small⟩
    obtain ⟨ret, found, run, move, reached⟩ := next_event_reaches reads before
    rw [if_pos past]
    simp only [kbufferNextEvent, if_neg loaded, run, Option.bind_eq_bind, Option.bind_some,
      Option.pure_def]
    cases reached with
    | done silent last time => exact ⟨found, by simp [read_event_end last], move, last⟩
    | event split => simp at split
  · rw [if_neg past]
    exact ⟨kbuf, rfl, rfl, finished⟩

/-- A negative offset is behind all events. -/
theorem from_negative_offset (start : Nat) {offset : Int} (negative : offset < 0) (page : Page) :
    fromOffset (leastOffset start offset) (located 0 page.timestamp page.records) = [] := by
  have small := page.small
  rw [fromOffset, List.map_eq_nil_iff, List.dropWhile_eq_nil_iff]
  intro entry member
  have bound := located_lt member
  rw [leastOffset, if_pos negative, decide_eq_true_eq]
  omega

/-- `kbuffer_read_at_offset` finds the first event whose record starts at the offset or
behind it, not the record the offset lies in, and leaves the reader there. -/
theorem read_at_offset_finds (reads : Reads host big kbuf) (there : kbuf.subbuffer ≠ 0)
    (page : Page) (held : Holds mem kbuf.subbuffer (page.bytes big (kbuf.has flLong8)))
    (start : kbuf.start = if kbuf.has flLong8 then 16 else 12) {offset : Int}
    (low : -2 ^ 31 ≤ offset) (high : offset < 2 ^ 31) :
    ∃ moved finish,
      kbufferReadAtOffset host mem kbuf offset = some (kbufferReadEvent moved, moved) ∧
        collect host mem turns moved =
          some (fromOffset (leastOffset kbuf.start offset)
            (located 0 page.timestamp page.records), finish) := by
  obtain ⟨loaded, load, ready⟩ := load_page reads there page held
  have size := ready.size
  have small := page.small
  have begin : kbuf.start ≤ 16 := by
    rw [start]
    split <;> decide
  have exact' : fromOffset (unsigned (if unsigned offset < kbuf.start then 0
        else offset - kbuf.start)) (located 0 page.timestamp page.records) =
      fromOffset (leastOffset kbuf.start offset) (located 0 page.timestamp page.records) := by
    apply from_offset_congr
    intro entry member
    have bound := located_lt member
    exact unsigned_least kbuf.start low high begin (by omega)
  have few : ∀ entries : List (Nat × Event), entries.length ≤ page.events.length →
      ∀ least, (fromOffset least entries).length < turns := by
    intro entries fewer least
    have all := page_events_lt page
    have shorter := (List.dropWhile_suffix (fun entry => decide (entry.1 < least))
      (l := entries)).length_le
    rw [fromOffset, List.length_map]
    omega
  have length : (located 0 page.timestamp page.records).length ≤ page.events.length := by
    rw [Page.events, ← located_events 0, List.length_map]
  rw [← exact']
  generalize least' : unsigned (if unsigned offset < kbuf.start then 0
    else offset - kbuf.start) = least at *
  have found : ∃ moved, seek host mem least turns (kbufferReadEvent loaded) loaded =
        some (kbufferReadEvent moved, moved) ∧ Moved loaded moved ∧
      Remaining big mem moved page.records
        (fromOffset least (located 0 page.timestamp page.records)) := by
    rcases ready.position with ⟨finished, -, none'⟩ |
      ⟨front, record, data, rest, parts, here, before, time, split⟩
    · obtain ⟨moved, walk, move, last⟩ :=
        @seek_end _ _ _ mem ready.reads ready.there finished (by omega) least (turns - 1)
      refine ⟨moved, walk, move, Or.inl ⟨last, ?_⟩⟩
      rw [located_silent 0 page.timestamp none']
      rfl
    · have next := here.next
      have fits := before.fits
      have total : span page.records = span front + (record.size + span rest) := by
        rw [parts, span_append, span_cons]
      have quiet : events page.timestamp front = [] := by
        have all := split
        rw [Page.events, parts, events_append] at all
        have after : events (clock page.timestamp front) (record :: rest) =
            (loaded.timestamp, data) :: events loaded.timestamp rest := by
          have event := here.event
          have stamp : loaded.timestamp = record.after (clock page.timestamp front) := by
            rw [time, clock_append]
            rfl
          rw [events, event, ← stamp]
          rfl
        rw [after] at all
        exact List.append_left_eq_self.mp all
      have few' := length_le_span rest
      obtain ⟨moved, walk, move, remaining⟩ :=
        @seek_at _ _ _ mem ready.reads ready.there least _ _ _ here before turns
          (by rw [turns]; omega)
      have stamp : loaded.timestamp = record.after (clock page.timestamp front) := by
        rw [time, clock_append]
        rfl
      have entries : located 0 page.timestamp page.records =
          (loaded.curr, (loaded.timestamp, data)) ::
            located loaded.next loaded.timestamp rest := by
        have event := here.event
        have place : 0 + span front = loaded.curr := by omega
        rw [parts, located_append, located_silent _ _ quiet, List.nil_append, located, event,
          place, ← stamp, ← next]
        rfl
      refine ⟨moved, walk, move, ?_⟩
      rw [entries]
      exact remaining.of_suffix ⟨front, parts.symm⟩
  obtain ⟨moved, walk, move, remaining⟩ := found
  obtain ⟨-, -, sub', -⟩ := move.fields
  obtain ⟨finish, all, -⟩ := collect_remaining (move.reads ready.reads)
    (by rw [sub']; exact ready.there) remaining (few _ length least)
  refine ⟨moved, finish, ?_, all⟩
  simp only [kbufferReadAtOffset, least', load, Option.bind_eq_bind, Option.bind_some]
  exact walk

/-- A reader a page was loaded with before. -/
def mixedReader : Kbuffer :=
  { kbufferAlloc {} .sameAsHost .sameAsHost with subbuffer := 64, start := 16 }

theorem mixed_reader_reads : Reads {} false mixedReader := by
  obtain ⟨swaps, wide, order, long, current⟩ :=
    alloc_reads {} .sameAsHost .sameAsHost fun _ => rfl
  exact ⟨swaps, wide, order, long, current⟩

/-- Looked for inside of the short record, what is found is the long one. -/
theorem read_at_offset_mixed :
    ∃ moved finish,
      kbufferReadAtOffset {} (mixedMem false) mixedReader 25 =
          some (kbufferReadEvent moved, moved) ∧
        collect {} (mixedMem false) turns moved = some ([(300001013, [9, 0, 0, 0])], finish) :=
  read_at_offset_finds mixed_reader_reads (by decide) mixedPage (store_holds _ 64 _) rfl
    (by decide) (by decide)

theorem raw_walk_from (reads : Reads host big kbuf) {subbuf : Nat} (there : subbuf ≠ 0)
    (page : Page) (held : Holds mem subbuf (page.bytes big (kbuf.has flLong8)))
    (records : List Record) (info : RawInfo)
    (rest : Holds mem info.next (encode big records)) (behind : subbuf ≤ info.next)
    (small : span records < 2 ^ 27) (fits : info.next + span records =
      subbuf + (if kbuf.has flLong8 then 16 else 12) + span page.records) {fuel : Nat}
    (enough : records.length < fuel) :
    rawWalk host mem kbuf subbuf fuel info = rawInfos kbuf.timestamp info.next records := by
  obtain ⟨-, commit, -, -⟩ := header_read reads page held
  have size := (commit_bits page).1
  induction records generalizing info fuel with
  | nil =>
      obtain ⟨fuel, rfl⟩ : ∃ more, fuel = more + 1 := ⟨fuel - 1, by simp at enough; omega⟩
      have last : info.next = subbuf + (if kbuf.has flLong8 then 16 else 12) + span page.records :=
        fits
      have none' : kbufferRawGet host mem kbuf subbuf info = none := by
        simp only [kbufferRawGet, if_neg there, commit, size]
        rw [if_pos (by omega)]
      rw [rawWalk, none']
      rfl
  | cons record later ih =>
      obtain ⟨fuel, rfl⟩ : ∃ more, fuel = more + 1 := ⟨fuel - 1, by omega⟩
      have pos := size_pos record
      rw [span_cons] at small fits
      rw [encode_cons, holds_append, bytes_length] at rest
      have element := translate_data_record reads record rest.1 (by omega)
      obtain ⟨head, rptr, total, -⟩ := element_span record kbuf.timestamp info.next
      have found : kbufferRawGet host mem kbuf subbuf info = some
          { type := (record.element kbuf.timestamp info.next).typeLen
            length := (record.element kbuf.timestamp info.next).length
            delta := (record.element kbuf.timestamp info.next).delta
            next := info.next + record.size } := by
        simp only [kbufferRawGet, if_neg there, commit, size]
        rw [if_neg (by omega), element]
        simp only [Option.some.injEq, RawInfo.mk.injEq, true_and]
        rw [rptr]
        omega
      rw [rawWalk, found, rawInfos]
      simp only
      rw [ih _ rest.2 (by simp only; omega) (by omega) (by simp only; omega)
        (by rw [List.length_cons] at enough; omega)]

/-- The walk for debugging comes past all elements, those without an event too. -/
theorem raw_walk_page (reads : Reads host big kbuf) {subbuf : Nat} (there : subbuf ≠ 0)
    (page : Page) (held : Holds mem subbuf (page.bytes big (kbuf.has flLong8)))
    (info : RawInfo) (start : info.next = subbuf + if kbuf.has flLong8 then 16 else 12) :
    rawWalk host mem kbuf subbuf turns info =
      rawInfos kbuf.timestamp (subbuf + if kbuf.has flLong8 then 16 else 12) page.records := by
  obtain ⟨-, -, elements, -⟩ := header_read reads page held
  have few := length_le_span page.records
  have small := page.small
  rw [← start] at elements ⊢
  exact raw_walk_from reads there page held page.records info elements
    (by rw [start]; exact Nat.le_add_right _ _) small (by rw [start]) (by rw [turns]; omega)

theorem raw_walk_mixed :
    rawWalk {} (mixedMem false) mixedReader 64 turns ⟨0, 0, 0, 80⟩ =
      [⟨30, 0, 300000000, 88⟩, ⟨1, 4, 5, 96⟩, ⟨29, 4, 1, 104⟩, ⟨0, 4, 7, 116⟩] :=
  raw_walk_page mixed_reader_reads (by decide) mixedPage (store_holds _ 64 _) ⟨0, 0, 0, 80⟩ rfl

end Search

end Orchestrator.PageSeek
