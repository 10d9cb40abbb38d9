import Orchestrator.TraceWalk

/-!
`kbuffer_read_buffer`: pages cut out of a page. What is copied can be loaded like the
page it comes from, and the copies together hold its events.
-/

namespace Orchestrator.PageCopies
open Words RingBuffer TraceRecords TraceWalk

/-- The record at the head of a copy: the header has its time. -/
def restamp : Record → Record
  | .short _ data words => .short ⟨0, by decide⟩ data words
  | .long _ data filler words => .long ⟨0, by decide⟩ data filler words
  | record => record

section Writing
variable {host : Host} {big : Bool} {kbuf : Kbuffer}

theorem write4_eq (reads : Reads host big kbuf) (mem : Mem) (ptr : Nat) {data : Nat}
    (small : data < 2 ^ 32) :
    write4 host kbuf.sw mem ptr data = store mem ptr (wordBytes big 4 data) := by
  rw [write4, reads.swaps]
  cases same : (host.bigEndian != big)
  · rw [bne_eq_false_iff_eq.mp same]
    rfl
  · have other : (!host.bigEndian) = big := by
      revert same
      cases host.bigEndian <;> cases big <;> decide
    have value := word_value_word_bytes big 4 data small
    have swapped := swap4_word_value big (wordBytes big 4 data) (by simp)
    have back : (!big) = host.bigEndian := by rw [← other, Bool.not_not]
    rw [value, back] at swapped
    have bytes := word_bytes_word_value host.bigEndian (wordBytes big 4 data)
    rw [word_bytes_length] at bytes
    simp only [if_true]
    rw [swapped, bytes]

theorem write8_eq (reads : Reads host big kbuf) (mem : Mem) (ptr : Nat) {data : Nat}
    (small : data < 2 ^ 64) :
    write8 host kbuf.sw mem ptr data = store mem ptr (wordBytes big 8 data) := by
  have wide := reads.wide
  rw [reads.swaps] at wide
  rw [write8, reads.swaps]
  cases same : (host.bigEndian != big)
  · rw [bne_eq_false_iff_eq.mp same]
    rfl
  · have other : (!host.bigEndian) = big := by
      revert same
      cases host.bigEndian <;> cases big <;> decide
    have value := word_value_word_bytes big 8 data small
    have swapped := swap8_word_value host (wide same) big (wordBytes big 8 data) (by simp)
    have back : (!big) = host.bigEndian := by rw [← other, Bool.not_not]
    rw [value, back] at swapped
    have bytes := word_bytes_word_value host.bigEndian (wordBytes big 8 data)
    rw [word_bytes_length] at bytes
    simp only [if_true]
    rw [swapped, bytes]

/-- The first word of a record and its bytes behind it. -/
theorem event_bytes (big : Bool) {record : Record} {data : List UInt8}
    (event : record.event = some data) :
    ∃ typeLen delta tail, typeLen < 32 ∧ delta < 2 ^ 27 ∧
      record.bytes big = wordBytes big 4 (headWord big typeLen delta) ++ tail ∧
      (restamp record).bytes big = wordBytes big 4 (headWord big typeLen 0) ++ tail := by
  cases record with
  | short delta data words => exact ⟨_, _, _, by omega, delta.isLt, rfl, rfl⟩
  | long delta data filler words => exact ⟨_, _, _, by decide, delta.isLt, rfl, rfl⟩
  | _ => cases event

theorem restamp_event {record : Record} {data : List UInt8} (event : record.event = some data) :
    (restamp record).event = some data ∧ ∀ ts, (restamp record).after ts = ts := by
  cases record with
  | short delta data words => exact ⟨event, fun ts => UInt64.add_zero ts⟩
  | long delta data filler words => exact ⟨event, fun ts => UInt64.add_zero ts⟩
  | _ => cases event

theorem restamp_size (record : Record) : (restamp record).size = record.size := by
  cases record <;> rfl

/-- Zeroing the delta leaves the rest of the word. -/
theorem zeroed_head (reads : Reads host big kbuf) {typeLen delta : Nat} (type : typeLen < 32)
    (time : delta < 2 ^ 27) :
    (if kbuf.has flBigEndian then headWord big typeLen delta &&& ((2 ^ 32 - 1) ^^^ (1 <<< 27 - 1))
      else headWord big typeLen delta &&& (1 <<< 5 - 1)) = headWord big typeLen 0 := by
  have upper (value : Nat) : value &&& ((2 ^ 32 - 1) ^^^ (1 <<< 27 - 1)) =
      value / 2 ^ 27 % 2 ^ 5 * 2 ^ 27 := and_field_mask value 5 27
  have lower (value : Nat) : value &&& (1 <<< 5 - 1) = value % 2 ^ 5 :=
    Nat.and_two_pow_sub_one_eq_mod value 5
  rw [reads.order, upper, lower]
  cases big <;> simp only [headWord, if_true, Bool.false_eq_true, if_false] <;> omega

end Writing

section Loop
variable {host : Host} {big : Bool} {kbuf : Kbuffer} {mem : Mem}

/-- The loop, at an event that fits: the elements up to the last event that fits are
to be copied. -/
theorem take_while_fits (reads : Reads host big kbuf) (loaded : kbuf.subbuffer ≠ 0)
    {len saveCurr : Nat} {record : Record} {data : List UInt8} {rest : List Record}
    (here : At big mem kbuf record data) (before : Before big mem kbuf rest)
    (after : saveCurr ≤ kbuf.curr) (fits : kbuf.next - saveCurr ≤ len) {fuel : Nat}
    (enough : rest.length < fuel) (lastNext : Nat) :
    ∃ taken left moved,
      takeWhileFits host mem len saveCurr fuel lastNext kbuf =
        some (kbuf.next + span taken, moved) ∧
      rest = taken ++ left ∧ Moved kbuf moved ∧ kbuf.next + span taken - saveCurr ≤ len ∧
      Remaining big mem moved left (events (clock kbuf.timestamp taken) left) := by
  induction fuel generalizing kbuf record data rest lastNext with
  | zero => omega
  | succ fuel ih =>
      have next := here.next
      have inside := before.fits
      have small := before.small
      have turn : unsigned ((kbuf.next : Int) - saveCurr) ≤ len := by
        rw [unsigned]
        omega
      obtain ⟨ret, found, run, move, reached⟩ := next_event_reaches reads before
      obtain ⟨data', size', sub', -⟩ := move.fields
      have stop : ∃ left, rest = [] ++ left ∧
          Remaining big mem found left (events (clock kbuf.timestamp []) left) :=
        ⟨rest, rfl, (reached_position reached).remaining⟩
      obtain ⟨left, split, remaining⟩ := stop
      rw [takeWhileFits, if_pos turn]
      simp only [kbufferNextEvent, if_neg loaded, run]
      cases reached with
      | done silent finished time =>
          exact ⟨[], left, found, by simp [span], split, move, by simpa [span] using fits,
            remaining⟩
      | @event _ skipped other bytes later split' silent there behind curr time =>
          simp only [Option.bind_eq_bind, Option.bind_some, lt_self_iff_false, if_false,
            Option.pure_def]
          by_cases more : found.next - saveCurr ≤ len
          · have shorter : later.length < fuel := by
              rw [split'] at enough
              simp at enough
              omega
            obtain ⟨taken, left', moved, loop, split'', move', total, remaining'⟩ :=
              ih (move.reads reads) (by rwa [sub']) there behind (by omega) more shorter kbuf.next
            have place : found.next + span taken =
                kbuf.next + span (skipped ++ other :: taken) := by
              rw [there.next, curr, span_append, span_cons]
              omega
            refine ⟨skipped ++ other :: taken, left', moved, ?_, ?_, move.trans move', ?_, ?_⟩
            · rw [← place]
              exact loop
            · rw [split', split'']
              simp
            · rw [← place]
              exact total
            · rw [time] at remaining'
              rw [show skipped ++ other :: taken = skipped ++ [other] ++ taken by simp,
                clock_append]
              exact remaining'
          · refine ⟨[], left, found, ?_, split, move, by simpa [span] using fits, remaining⟩
            obtain ⟨fuel, rfl⟩ : ∃ fewer, fuel = fewer + 1 := by
              refine ⟨fuel - 1, ?_⟩
              rw [split'] at enough
              simp at enough
              omega
            have large : ¬ unsigned ((found.next : Int) - saveCurr) ≤ len := by
              have fits' := behind.fits
              rw [unsigned]
              omega
            rw [takeWhileFits, if_neg large]
            simp [span]

theorem remaining_congr {other : Mem} {records : List Record} {left : List Event}
    (same : ∀ addr, kbuf.data ≤ addr → addr < kbuf.data + kbuf.size → other addr = mem addr)
    (remaining : Remaining big mem kbuf records left) :
    Remaining big other kbuf records left := by
  rcases remaining with ⟨finished, done⟩ | ⟨record, data, rest, suffix, here, before, split⟩
  · exact Or.inl ⟨finished, done⟩
  · obtain ⟨here', before'⟩ := at_congr same here before
    exact Or.inr ⟨record, data, rest, suffix, here', before', split⟩

end Loop

section Copy
variable {host : Host} {big : Bool} {kbuf : Kbuffer} {mem : Mem}

/-- The page written: the time of the event read next, and no events missed. -/
def copyPage (kbuf : Kbuffer) (record : Record) (taken : List Record)
    (small : span (restamp record :: taken) < 2 ^ 27) : Page :=
  ⟨kbuf.timestamp, .nothing, restamp record :: taken, small⟩

theorem copy_page_events {record : Record} {data : List UInt8} (event : record.event = some data)
    (taken : List Record) (small : span (restamp record :: taken) < 2 ^ 27) :
    (copyPage kbuf record taken small).events =
      (kbuf.timestamp, data) :: events kbuf.timestamp taken := by
  obtain ⟨event', after⟩ := restamp_event event
  simp only [Page.events, copyPage, events, event', after]
  rfl

/-- The stores after the loop. -/
theorem written_page (reads : Reads host big kbuf) (stamped : Mem) {buffer : Nat}
    {record : Record} {data : List UInt8} {taken : List Record}
    (start : kbuf.start = if kbuf.has flLong8 then 16 else 12)
    (event : record.event = some data) (small : span (restamp record :: taken) < 2 ^ 27)
    (time : Holds stamped buffer (wordBytes big 8 kbuf.timestamp.toNat))
    (source : Holds stamped (kbuf.data + kbuf.curr) (encode big (record :: taken))) :
    let written := writeCopy host stamped kbuf kbuf.sw buffer kbuf.curr (span (record :: taken))
    Holds written buffer ((copyPage kbuf record taken small).bytes big (kbuf.has flLong8)) ∧
      ∀ addr, addr < buffer ∨ buffer + kbuf.start + span (record :: taken) ≤ addr →
        written addr = stamped addr := by
  let copied := span (record :: taken)
  let target := buffer + kbuf.start
  let filled := store stamped target (slice stamped (kbuf.data + kbuf.curr) copied)
  let typeLenTs := read4 host filled kbuf target
  let zeroed :=
    if kbuf.has flBigEndian then typeLenTs &&& ((2 ^ 32 - 1) ^^^ (1 <<< 27 - 1))
    else typeLenTs &&& (1 <<< 5 - 1)
  let first := write4 host kbuf.sw filled target zeroed
  intro written
  obtain ⟨typeLen, delta, tail, type, late, head, restamped⟩ := event_bytes big event
  have whole : encode big (record :: taken) =
      wordBytes big 4 (headWord big typeLen delta) ++ (tail ++ encode big taken) := by
    rw [encode_cons, head, List.append_assoc]
  have whole' : encode big (restamp record :: taken) =
      wordBytes big 4 (headWord big typeLen 0) ++ (tail ++ encode big taken) := by
    rw [encode_cons, restamped, List.append_assoc]
  have same : span (restamp record :: taken) = copied := by
    rw [span_cons, restamp_size, ← span_cons]
  have size : 4 + (tail ++ encode big taken).length = copied := by
    have total := encode_length big (record :: taken)
    rwa [whole, List.length_append, word_bytes_length] at total
  have read : slice stamped (kbuf.data + kbuf.curr) copied = encode big (record :: taken) := by
    rw [Holds, encode_length] at source
    exact source
  have filledHolds : Holds filled target (encode big (record :: taken)) := by
    simp only [filled, read]
    exact store_holds stamped target _
  rw [whole, holds_append, word_bytes_length] at filledHolds
  have word : typeLenTs = headWord big typeLen delta :=
    read4_of_holds reads filledHolds.1 (head_word_lt type late)
  have zero : zeroed = headWord big typeLen 0 := by
    simp only [zeroed, word]
    exact zeroed_head reads type late
  have firstStore : first = store filled target (wordBytes big 4 (headWord big typeLen 0)) := by
    simp only [first, zero]
    exact write4_eq reads filled target (head_word_lt type (by decide))
  have firstHolds : Holds first target (encode big (restamp record :: taken)) := by
    rw [whole', holds_append, word_bytes_length, firstStore]
    refine ⟨store_holds filled target _, holds_store_outside _ filledHolds.2 ?_⟩
    right
    rw [word_bytes_length]
  have writtenStore : written =
      store first (buffer + 8) (wordBytes big (longSize (kbuf.has flLong8)) copied) := by
    simp only [written, writeCopy, reads.long, longSize]
    cases kbuf.has flLong8
    · exact write4_eq reads first (buffer + 8) (by omega)
    · exact write8_eq reads first (buffer + 8) (by omega)
  have begin : buffer + 8 + longSize (kbuf.has flLong8) = target := by
    simp only [target, start, longSize]
    cases kbuf.has flLong8 <;> rfl
  have outside : ∀ addr, addr < buffer + 8 ∨ buffer + kbuf.start + copied ≤ addr →
      written addr = stamped addr := by
    intro addr far
    have apart : buffer + 8 ≤ target := by omega
    rw [writtenStore, store_outside, firstStore, store_outside]
    · simp only [filled, read]
      apply store_outside
      rw [encode_length]
      omega
    · rw [word_bytes_length]
      omega
    · rw [word_bytes_length, begin]
      omega
  constructor
  · have commit : (copyPage kbuf record taken small).commit = copied := same
    rw [Page.bytes, holds_append, word_bytes_length, holds_append, word_bytes_length,
      holds_append, commit, begin]
    refine ⟨?_, ?_, ?_, holds_nil _ _⟩
    · apply time.congr
      intro i inside
      rw [word_bytes_length] at inside
      apply outside
      omega
    · rw [writtenStore]
      exact store_holds first (buffer + 8) _
    · rw [writtenStore]
      apply holds_store_outside first firstHolds
      right
      rw [word_bytes_length, begin]
  · intro addr far
    apply outside
    omega

theorem stamped_same (host : Host) (mem : Mem) (swap : Bool) (buffer data : Nat) {addr : Nat}
    (far : addr < buffer ∨ buffer + 8 ≤ addr) :
    write8 host swap mem buffer data addr = mem addr := by
  apply store_outside
  rw [word_bytes_length]
  exact far

/-- One call, with room for the event the reader stands at: `later` is left to the next
call, the rest of `left` is in the page written. -/
structure Copied (big : Bool) (mem written : Mem) (kbuf moved : Kbuffer) (buffer len : Nat)
    (records : List Record) (left : List Event) (ret : Int) : Prop where
  positive : 0 < ret
  move : Moved kbuf moved
  written_page : ∃ (page : Page) (later : List Event),
    Holds written buffer (page.bytes big (kbuf.has flLong8)) ∧
      (page.bytes big (kbuf.has flLong8)).length ≤ len ∧
      page.missed = .nothing ∧ page.events ≠ [] ∧ left = page.events ++ later ∧
      Remaining big written moved records later
  outside : ∀ addr, addr < buffer ∨ buffer + len ≤ addr → written addr = mem addr

theorem read_buffer_fits (reads : Reads host big kbuf) (loaded : kbuf.subbuffer ≠ 0)
    (start : kbuf.start = if kbuf.has flLong8 then 16 else 12)
    {record : Record} {data : List UInt8} {rest : List Record} {buffer len : Nat}
    (here : At big mem kbuf record data) (before : Before big mem kbuf rest)
    (apart : kbuf.data + kbuf.size ≤ buffer ∨ buffer + len ≤ kbuf.data)
    (room : kbuf.start + record.size ≤ len) :
    ∃ ret moved written,
      kbufferReadBuffer host mem kbuf buffer len = some (ret, moved, written) ∧
        Copied big mem written kbuf moved buffer len (record :: rest)
          ((kbuf.timestamp, data) :: events kbuf.timestamp rest) ret := by
  have next := here.next
  have inside := before.fits
  have small := before.small
  have pos := size_pos record
  have few := length_le_span rest
  have header : 8 ≤ kbuf.start := by
    rw [start]
    split <;> decide
  let stamped := write8 host kbuf.sw mem buffer kbuf.timestamp.toNat
  have untouched : ∀ addr, kbuf.data ≤ addr → addr < kbuf.data + kbuf.size →
      stamped addr = mem addr := by
    intro addr low high
    apply stamped_same
    omega
  obtain ⟨stampedHere, stampedBefore⟩ := at_congr untouched here before
  obtain ⟨taken, left, moved, loop, split, move, total, remaining⟩ :=
    @take_while_fits _ _ _ stamped reads loaded (len - kbuf.start) kbuf.curr _ _ _ stampedHere
      stampedBefore (Nat.le_refl _) (by omega) turns (by rw [turns]; omega) kbuf.next
  have spans : span rest = span taken + span left := by rw [split, span_append]
  have copied : unsigned (((kbuf.next + span taken : Nat) : Int) - kbuf.curr) =
      span (record :: taken) := by
    rw [unsigned, span_cons]
    omega
  have restamped : span (restamp record :: taken) = span (record :: taken) := by
    rw [span_cons, restamp_size, ← span_cons]
  have bound : span (restamp record :: taken) < 2 ^ 27 := by
    rw [restamped, span_cons]
    omega
  have time : Holds stamped buffer (wordBytes big 8 kbuf.timestamp.toNat) := by
    rw [show stamped = _ from write8_eq reads mem buffer kbuf.timestamp.toNat_lt]
    exact store_holds mem buffer _
  have source : Holds stamped (kbuf.data + kbuf.curr) (encode big (record :: taken)) := by
    have held := stampedBefore.held
    rw [split, encode_append, holds_append] at held
    rw [encode_cons, holds_append, bytes_length, Nat.add_assoc, ← here.next]
    exact ⟨stampedHere.held, held.1⟩
  obtain ⟨page, same⟩ := written_page reads stamped start here.event bound time source
  have length : ((copyPage kbuf record taken bound).bytes big (kbuf.has flLong8)).length =
      kbuf.start + span (record :: taken) := by
    rw [Page.bytes, List.length_append, List.length_append, List.length_append, encode_length,
      word_bytes_length, word_bytes_length, start, ← restamped]
    simp only [copyPage, Missed.bytes, List.length_nil, longSize]
    split <;> omega
  have size := span_cons record taken
  refine ⟨signed (kbuf.next + span taken), moved,
    writeCopy host stamped kbuf kbuf.sw buffer kbuf.curr (span (record :: taken)), ?_, ?_, move,
    ?_, ?_⟩
  · have kept : writeCopy host stamped moved kbuf.sw buffer kbuf.curr (span (record :: taken)) =
        writeCopy host stamped kbuf kbuf.sw buffer kbuf.curr (span (record :: taken)) := by
      rw [move]
      rfl
    rw [kbufferReadBuffer, if_neg (by omega), if_neg (by omega), if_neg]
    · simp only [stamped] at loop kept
      simp only [loop, Option.bind_eq_bind, Option.bind_some, copied]
      rw [if_neg (by omega), kept]
      rfl
    · rw [unsigned]
      omega
  · rw [signed_of_lt (by omega)]
    omega
  · refine ⟨copyPage kbuf record taken bound, events (clock kbuf.timestamp taken) left, page, ?_,
      rfl, ?_, ?_, ?_⟩
    · rw [length]
      omega
    · rw [copy_page_events here.event]
      exact List.cons_ne_nil _ _
    · rw [copy_page_events here.event, split, events_append]
      rfl
    · obtain ⟨data', size', -, -⟩ := move.fields
      have inside : left <:+ record :: rest := ⟨record :: taken, by rw [split]; rfl⟩
      apply remaining_congr _ (remaining.of_suffix inside)
      intro addr low high
      apply same
      omega
  · intro addr far
    rw [same addr (by omega)]
    apply stamped_same
    omega

theorem read_buffer_refuses {record : Record} {data : List UInt8} {rest : List Record}
    {buffer len : Nat} (here : At big mem kbuf record data) (before : Before big mem kbuf rest)
    (start : kbuf.start < 2 ^ 27) (tight : len < kbuf.start + record.size) :
    kbufferReadBuffer host mem kbuf buffer len = some (-1, kbuf, mem) := by
  have next := here.next
  have fits := before.fits
  have small := before.small
  have pos := size_pos record
  rw [kbufferReadBuffer, if_neg (by omega)]
  by_cases header : len < kbuf.start
  · rw [if_pos header]
  · rw [if_neg header, if_pos]
    rw [unsigned]
    omega

theorem read_buffer_end {buffer len : Nat} (finished : AtEnd kbuf) :
    kbufferReadBuffer host mem kbuf buffer len = some (0, kbuf, mem) := by
  rw [kbufferReadBuffer, if_pos (Nat.le_of_eq finished.1.symm)]

end Copy

/-- A caller that reads into one buffer after the other, each loaded like a page of its
own; with the value of the call that copied nothing. -/
def readOut (host : Host) (fresh : Kbuffer) :
    List (Nat × Nat) → Mem → Kbuffer → Option (List Event × Option Int × Kbuffer × Mem)
  | [], mem, kbuf => some ([], none, kbuf, mem)
  | (buffer, len) :: more, mem, kbuf => do
      let (ret, moved, written) ← kbufferReadBuffer host mem kbuf buffer len
      if ret ≤ 0 then pure ([], some ret, moved, written)
      else
        let (_, copy) ← kbufferLoadSubbuffer host written fresh buffer
        let (got, _) ← collect host written turns copy
        let (later, last, stopped, memory) ← readOut host fresh more written moved
        pure (got ++ later, last, stopped, memory)

section Run
variable {host : Host} {big : Bool} {fresh : Kbuffer}

/-- What the calls leave behind, for buffers apart from the page. -/
theorem read_out_remaining (freshReads : Reads host big fresh) (records : List Record)
    (buffers : List (Nat × Nat)) {kbuf : Kbuffer} {mem : Mem} {left : List Event}
    (same : kbuf.has flLong8 = fresh.has flLong8) (reads : Reads host big kbuf)
    (loaded : kbuf.subbuffer ≠ 0) (start : kbuf.start = if kbuf.has flLong8 then 16 else 12)
    (remaining : Remaining big mem kbuf records left)
    (apart : ∀ place ∈ buffers, place.1 ≠ 0 ∧
      (kbuf.data + kbuf.size ≤ place.1 ∨ place.1 + place.2 ≤ kbuf.data)) :
    ∃ got ret last written later,
      readOut host fresh buffers mem kbuf = some (got, ret, last, written) ∧
        left = got ++ later ∧ Moved kbuf last ∧ Remaining big written last records later ∧
        (ret = some 0 → later = []) ∧
        ((∀ place ∈ buffers, ∀ record ∈ records, kbuf.start + record.size ≤ place.2) →
          left.length < buffers.length → ret = some 0) := by
  induction buffers generalizing kbuf mem left with
  | nil =>
      exact ⟨[], none, kbuf, mem, left, rfl, rfl, rfl, remaining, by simp, by simp⟩
  | cons place more ih =>
      obtain ⟨buffer, len⟩ := place
      obtain ⟨there, far⟩ := apart _ List.mem_cons_self
      rcases remaining with ⟨finished, rfl⟩ | ⟨record, data, rest, suffix, here, before, split⟩
      · refine ⟨[], some 0, kbuf, mem, [], ?_, rfl, rfl, Or.inl ⟨finished, rfl⟩, by simp, by simp⟩
        simp [readOut, read_buffer_end finished]
      · have member : record ∈ records := suffix.subset List.mem_cons_self
        by_cases room : kbuf.start + record.size ≤ len
        · obtain ⟨ret, moved, written, call, copied⟩ :=
            @read_buffer_fits _ _ _ _ reads loaded start _ _ _ buffer len here before far room
          obtain ⟨page, later, held, -, -, some', parts, remaining'⟩ := copied.written_page
          obtain ⟨data', size', sub', start'⟩ := copied.move.fields
          have flags : moved.has flLong8 = kbuf.has flLong8 := by rw [copied.move]; rfl
          rw [same] at held
          obtain ⟨copy, load, ready⟩ := load_page freshReads there page held
          obtain ⟨finish, walk, -⟩ :=
            collect_remaining ready.reads ready.there ready.position.remaining (page_events_lt page)
          obtain ⟨got, ret', last, written', later', run, split', move', remaining'', done,
            large⟩ := @ih moved written later (by rw [flags, same])
              (copied.move.reads reads) (by rwa [sub']) (by rw [start', flags]; exact start)
              (remaining'.of_suffix suffix)
              (by rw [data', size']; exact fun place inside =>
                apart place (List.mem_cons_of_mem _ inside))
          refine ⟨page.events ++ got, ret', last, written', later', ?_, ?_,
            copied.move.trans move', remaining'', done, ?_⟩
          · have positive := copied.positive
            simp only [readOut, call, Option.bind_eq_bind, Option.bind_some]
            rw [if_neg (by omega)]
            simp only [load, walk, run, Option.bind_some, Option.pure_def]
          · rw [split, parts, split', List.append_assoc]
          · intro wide enough
            apply large
            · rw [start']
              exact fun place inside => wide place (List.mem_cons_of_mem _ inside)
            · have some'' := List.length_pos_iff.mpr some'
              rw [split, parts, List.length_append, List.length_cons] at enough
              omega
        · refine ⟨[], some (-1), kbuf, mem, left, ?_, rfl, rfl,
            Or.inr ⟨record, data, rest, suffix, here, before, split⟩, by simp, ?_⟩
          · have header : kbuf.start < 2 ^ 27 := by
              rw [start]
              split <;> decide
            have refused :=
              @read_buffer_refuses host _ _ _ _ _ _ buffer len here before header (by omega)
            simp [readOut, refused]
          · intro wide
            exact absurd (wide _ List.mem_cons_self record member) room

/-- A page read through `kbuffer_read_buffer` piece by piece: no event is lost or read
twice, each keeps its time, and buffers that hold any one record are enough. -/
theorem read_out_conserves (host : Host) (size : LongSize) (endian : Endian)
    (native : endian = .sameAsHost → host.bigEndian = false)
    (wide : host.bigEndian ≠ wanted host endian → host.long8 = true)
    (mem : Mem) (subbuffer : Nat) (there : subbuffer ≠ 0) (page : Page)
    (held : Holds mem subbuffer
      (page.bytes (wanted host endian) ((kbufferAlloc host size endian).has flLong8)))
    (buffers : List (Nat × Nat))
    (apart : ∀ place ∈ buffers, place.1 ≠ 0 ∧
      (subbuffer + (16 + span page.records) ≤ place.1 ∨ place.1 + place.2 ≤ subbuffer)) :
    ∃ loaded got ret last written left finish,
      kbufferLoadSubbuffer host mem (kbufferAlloc host size endian) subbuffer = some (0, loaded) ∧
        readOut host (kbufferAlloc host size endian) buffers mem loaded =
          some (got, ret, last, written) ∧
        collect host written turns last = some (left, finish) ∧
        page.events = got ++ left ∧
        (ret = some 0 → got = page.events) ∧
        ((∀ place ∈ buffers, ∀ record ∈ page.records, 16 + record.size ≤ place.2) →
          page.events.length < buffers.length → ret = some 0) := by
  have order := read_order_wanted host endian native
  rw [← order] at wide held
  have reads := alloc_reads host size endian wide
  obtain ⟨loaded, load, ready⟩ := load_page reads there page held
  have start : loaded.start = 12 ∨ loaded.start = 16 := by
    rw [ready.start]
    cases loaded.has flLong8
    · exact Or.inl rfl
    · exact Or.inr rfl
  have flags : loaded.has flLong8 = (kbufferAlloc host size endian).has flLong8 := by
    rw [Kbuffer.has, ready.flags, Kbuffer.has]
  have data := ready.data
  have length := ready.size
  obtain ⟨got, ret, last, written, left, run, split, move, remaining, done, large⟩ :=
    read_out_remaining reads page.records buffers flags ready.reads ready.there ready.start
      ready.position.remaining (by
        intro place member
        obtain ⟨there', far⟩ := apart place member
        exact ⟨there', by omega⟩)
  have few : left.length < turns := by
    have all := page_events_lt page
    rw [split, List.length_append] at all
    omega
  obtain ⟨-, -, sub, -⟩ := move.fields
  obtain ⟨finish, walk, -⟩ := collect_remaining (move.reads ready.reads)
    (by rw [sub]; exact ready.there) remaining few
  refine ⟨loaded, got, ret, last, written, left, finish, load, run, walk, split, ?_, ?_⟩
  · intro zero
    rw [split, done zero, List.append_nil]
  · intro wide' enough
    apply large _ enough
    intro place member record inside
    have room := wide' place member record inside
    omega

theorem read_out_mixed :
    ∃ loaded got ret last written left finish,
      kbufferLoadSubbuffer {} (mixedMem false) (kbufferAlloc {} .sameAsHost .sameAsHost) 64 =
          some (0, loaded) ∧
        readOut {} (kbufferAlloc {} .sameAsHost .sameAsHost) [(200, 24), (300, 40), (400, 40)]
          (mixedMem false) loaded = some (got, ret, last, written) ∧
        collect {} written turns last = some (left, finish) ∧
        mixedPage.events = got ++ left ∧ (ret = some 0 → got = mixedPage.events) ∧
        ((∀ place ∈ [(200, 24), (300, 40), (400, 40)], ∀ record ∈ mixedPage.records,
            16 + record.size ≤ place.2) →
          mixedPage.events.length < 3 → ret = some 0) :=
  read_out_conserves {} .sameAsHost .sameAsHost (fun _ => rfl) (fun _ => rfl) (mixedMem false) 64
    (by decide) mixedPage (store_holds _ 64 _) [(200, 24), (300, 40), (400, 40)]
    (by simp [mixedPage, span, Record.size])

end Run

end Orchestrator.PageCopies
