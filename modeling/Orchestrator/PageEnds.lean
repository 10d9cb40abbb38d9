import Orchestrator.TraceWalk

/-!
Pages of any content. Only an element with a negative length keeps a walk from coming
to the end of a page.
-/

namespace Orchestrator.PageEnds
open Words RingBuffer TraceRecords TraceWalk

section Walks
variable {host : Host} {mem : Mem} {kbuf moved : Kbuffer}

/-- The offsets at which the elements of the data begin, one behind the other. -/
inductive Starts (host : Host) (mem : Mem) (kbuf : Kbuffer) : Nat → Prop
  | first : Starts host mem kbuf 0
  | behind {offset : Nat} (start : Starts host mem kbuf offset) (inside : offset < kbuf.size) :
      Starts host mem kbuf (updatePointers host mem { kbuf with curr := offset }).2.next

/-- No element of the data has a negative length. -/
def Forward (host : Host) (mem : Mem) (kbuf : Kbuffer) : Prop :=
  ∀ offset, Starts host mem kbuf offset → offset < kbuf.size →
    0 ≤ (translateData host mem kbuf (kbuf.data + offset)).length

/-- The reader with the data of a page, as `kbuffer_load_subbuffer` finds it. -/
def onPage (host : Host) (mem : Mem) (kbuf : Kbuffer) (subbuffer : Nat) : Kbuffer :=
  { kbuf with
    data := subbuffer + if kbuf.has flLong8 then 16 else 12
    size := readLong host mem kbuf (subbuffer + 8) % 2 ^ 32 &&& commitMask }

/-- Type and extent of an element do not depend on the position or the clock. -/
theorem translate_data_same {other : Kbuffer} (flags : other.flags = kbuf.flags)
    (sw : other.sw = kbuf.sw) (ptr : Nat) :
    (translateData host mem other ptr).typeLen = (translateData host mem kbuf ptr).typeLen ∧
      (translateData host mem other ptr).rptr = (translateData host mem kbuf ptr).rptr ∧
      (translateData host mem other ptr).length = (translateData host mem kbuf ptr).length := by
  have word : read4 host mem other = read4 host mem kbuf := by
    funext ptr
    simp only [read4, sw]
  have type : typeLen4host other = typeLen4host kbuf := by
    funext word
    have order : other.has flBigEndian = kbuf.has flBigEndian := by
      rw [Kbuffer.has, flags, Kbuffer.has]
    rw [typeLen4host, order, typeLen4host]
  simp only [translateData, word, type]
  split_ifs <;> exact ⟨rfl, rfl, rfl⟩

theorem starts_same {other : Kbuffer} (flags : other.flags = kbuf.flags)
    (sw : other.sw = kbuf.sw) (data : other.data = kbuf.data) (size : other.size = kbuf.size)
    {offset : Nat} (start : Starts host mem kbuf offset) : Starts host mem other offset := by
  induction start with
  | first => exact Starts.first
  | @behind offset _ inside ih =>
      obtain ⟨-, place, length⟩ := @translate_data_same host mem
        { kbuf with curr := offset } { other with curr := offset } flags sw (other.data + offset)
      have next : (updatePointers host mem { other with curr := offset }).2.next =
          (updatePointers host mem { kbuf with curr := offset }).2.next := by
        simp only [updatePointers, calcIndex, place, length]
        rw [data]
      rw [← next]
      exact ih.behind (by rwa [size])

theorem forward_same {other : Kbuffer} (flags : other.flags = kbuf.flags)
    (sw : other.sw = kbuf.sw) (data : other.data = kbuf.data) (size : other.size = kbuf.size)
    (forward : Forward host mem kbuf) : Forward host mem other := by
  intro offset start inside
  rw [data, (translate_data_same flags sw (kbuf.data + offset)).2.2]
  rw [size] at inside
  exact forward offset (starts_same flags.symm sw.symm data.symm size.symm start) inside

theorem starts_moved (move : Moved kbuf moved) {offset : Nat}
    (start : Starts host mem kbuf offset) : Starts host mem moved offset := by
  apply starts_same _ _ _ _ start <;> rw [move]

theorem forward_moved (move : Moved kbuf moved) (forward : Forward host mem kbuf) :
    Forward host mem moved := by
  apply forward_same _ _ _ _ forward <;> rw [move]

theorem signed_lt (value : Nat) (small : value < 2 ^ 32) : signed value < 2 ^ 31 := by
  rw [signed]
  split <;> omega

theorem type_len4host_lt (kbuf : Kbuffer) (word : Nat) : typeLen4host kbuf word < 32 := by
  have mask (value : Nat) : value &&& (1 <<< 5 - 1) = value % 2 ^ 5 :=
    Nat.and_two_pow_sub_one_eq_mod value 5
  rw [typeLen4host, mask, mask]
  split <;> omega

theorem read4_lt (kbuf : Kbuffer) (ptr : Nat) : read4 host mem kbuf ptr < 2 ^ 32 := by
  have bound := word_value_lt host.bigEndian (slice mem ptr 4)
  rw [slice_length] at bound
  rw [read4]
  split
  · rw [swap4_word_value _ _ (slice_length mem ptr 4)]
    have other := word_value_lt (!host.bigEndian) (slice mem ptr 4)
    rwa [slice_length] at other
  · exact bound

/-- Where the data of an element is, and how far it may reach. -/
theorem translate_data_extent (kbuf : Kbuffer) (ptr : Nat) :
    ptr + 4 ≤ (translateData host mem kbuf ptr).rptr ∧
      (translateData host mem kbuf ptr).rptr ≤ ptr + 8 ∧
      (translateData host mem kbuf ptr).length < 2 ^ 31 := by
  have type := type_len4host_lt kbuf (read4 host mem kbuf ptr)
  have word := @read4_lt host mem kbuf (ptr + 4)
  have bound : ∀ value : Int, signed (unsigned value) < 2 ^ 31 := by
    intro value
    apply signed_lt
    rw [unsigned]
    omega
  simp only [translateData]
  split_ifs
  · exact ⟨by simp, by simp, signed_lt _ word⟩
  · exact ⟨by simp, by simp, by simp⟩
  · exact ⟨by simp, by simp, by simp⟩
  · exact ⟨by simp, by simp, bound _⟩
  · refine ⟨by simp, by simp, ?_⟩
    simp only
    omega

/-- An element leads on, to where the next one begins. -/
theorem update_pointers_forward (forward : Forward host mem kbuf) (small : kbuf.size < 2 ^ 27)
    (start : Starts host mem kbuf kbuf.curr) (inside : kbuf.curr < kbuf.size) :
    ∃ type found, updatePointers host mem kbuf = (type, found) ∧ Moved kbuf found ∧
      found.curr = kbuf.curr ∧ kbuf.curr < found.next ∧ Starts host mem kbuf found.next := by
  obtain ⟨low, high, most⟩ := @translate_data_extent host mem kbuf (kbuf.data + kbuf.curr)
  have least := forward kbuf.curr start inside
  refine ⟨_, _, rfl, rfl, rfl, ?_, start.behind inside⟩
  simp only [calcIndex, unsigned]
  omega

theorem new_next_event_forward (forward : Forward host mem kbuf) (small : kbuf.size < 2 ^ 27)
    (start : Starts host mem kbuf kbuf.next) {fuel : Nat} (enough : kbuf.size - kbuf.next < fuel) :
    ∃ ret moved, newNextEvent host mem fuel kbuf = some (ret, moved) ∧ Moved kbuf moved ∧
      ((ret = -1 ∧ moved.size ≤ moved.curr) ∨
        (ret = 0 ∧ kbuf.next ≤ moved.curr ∧ moved.curr < moved.size ∧
          moved.curr < moved.next ∧ Starts host mem moved moved.next)) := by
  induction fuel generalizing kbuf with
  | zero => omega
  | succ fuel ih =>
      by_cases last : kbuf.size ≤ kbuf.next
      · refine ⟨-1, { kbuf with curr := kbuf.next }, ?_, rfl, Or.inl ⟨rfl, last⟩⟩
        simp [newNextEvent, last]
      · have step : Moved kbuf { kbuf with curr := kbuf.next } := rfl
        obtain ⟨type, found, update, move, curr, on, behind⟩ :=
          @update_pointers_forward host mem { kbuf with curr := kbuf.next }
            (forward_moved step forward) small (starts_moved step start) (by simp only; omega)
        have movedHere : Moved kbuf found := step.trans move
        have next := starts_moved move behind
        obtain ⟨data', size', -, -⟩ := movedHere.fields
        simp only at curr on
        simp only [newNextEvent]
        rw [if_neg last, update]
        by_cases skip : type = typeTimeExtend ∨ type = typeTimeStamp ∨ type = typePadding
        · obtain ⟨ret, moved, run, move', result⟩ := ih (forward_moved movedHere forward)
            (by rw [size']; exact small) next (by rw [size']; omega)
          refine ⟨ret, moved, ?_, movedHere.trans move', ?_⟩
          · simp only [skip, if_true]
            exact run
          · rcases result with done | ⟨zero, from', inside, later⟩
            · exact Or.inl done
            · exact Or.inr ⟨zero, by omega, inside, later⟩
        · refine ⟨0, found, by simp only [skip, if_false], movedHere,
            Or.inr ⟨rfl, ?_, ?_, ?_, next⟩⟩
          · omega
          · omega
          · omega

theorem collect_forward (current' : kbuf.oldNext = false) (loaded : kbuf.subbuffer ≠ 0)
    (forward : Forward host mem kbuf) (small : kbuf.size < 2 ^ 27)
    (on : kbuf.curr < kbuf.size → kbuf.curr < kbuf.next ∧ Starts host mem kbuf kbuf.next)
    {fuel : Nat} (enough : kbuf.size - kbuf.curr < fuel) :
    ∃ got last, collect host mem fuel kbuf = some (got, last) := by
  induction fuel generalizing kbuf with
  | zero => omega
  | succ fuel ih =>
      rw [collect]
      by_cases finished : kbuf.size ≤ kbuf.curr
      · refine ⟨[], kbuf, ?_⟩
        simp [current, kbufferReadEvent, finished]
      · have here : ∃ event, current mem kbuf = some event := by
          simp [current, kbufferReadEvent, finished, loaded]
        obtain ⟨event, here⟩ := here
        obtain ⟨ahead, start⟩ := on (by omega)
        obtain ⟨ret, moved, run, move, result⟩ :=
          @new_next_event_forward host mem kbuf forward small start turns (by rw [turns]; omega)
        obtain ⟨-, size', sub', -⟩ := move.fields
        have old : moved.oldNext = false := by
          rw [move]
          exact current'
        obtain ⟨got, last, walk⟩ := ih old (by rwa [sub']) (forward_moved move forward)
          (by rwa [size'])
          (by
            intro inside
            rcases result with ⟨-, done⟩ | ⟨-, -, -, next⟩
            · omega
            · exact next)
          (by
            rcases result with ⟨-, done⟩ | ⟨-, from', -, -⟩ <;> omega)
        refine ⟨event :: got, last, ?_⟩
        have next : nextEvent host mem kbuf = some (ret, moved) := by
          rw [nextEvent, current', if_neg (by decide)]
          exact run
        simp only [here, kbufferNextEvent, if_neg loaded, next]
        simp [walk]

/-- Whatever the bytes of a page are: a caller that loads it and takes its events comes
to an end, unless the page has an element with a negative length. -/
theorem walk_ends (current' : kbuf.oldNext = false) {subbuffer : Nat} (there : subbuffer ≠ 0)
    (forward : Forward host mem (onPage host mem kbuf subbuffer)) :
    ∃ loaded got last, kbufferLoadSubbuffer host mem kbuf subbuffer = some (0, loaded) ∧
      collect host mem turns loaded = some (got, last) := by
  let size := readLong host mem kbuf (subbuffer + 8) % 2 ^ 32 &&& commitMask
  have small : size < 2 ^ 27 := by
    have mask (value : Nat) : value &&& commitMask = value % 2 ^ 27 :=
      Nat.and_two_pow_sub_one_eq_mod value 27
    simp only [size, mask]
    exact Nat.mod_lt _ (by decide)
  let reset : Kbuffer :=
    { kbuf with
      subbuffer := subbuffer
      timestamp := UInt64.ofNat (read8 host mem kbuf subbuffer)
      curr := 0
      start := if kbuf.has flLong8 then 16 else 12
      data := subbuffer + if kbuf.has flLong8 then 16 else 12
      size := size
      lostEvents :=
        if readLong host mem kbuf (subbuffer + 8) &&& missingEvents = 0 then 0
        else if readLong host mem kbuf (subbuffer + 8) &&& missingStored = 0 then -1
        else signed64 (readLong host mem kbuf
          (subbuffer + (if kbuf.has flLong8 then 16 else 12) + size))
      index := 0
      next := 0 }
  have onward : Forward host mem reset :=
    @forward_same host mem (onPage host mem kbuf subbuffer) reset rfl rfl rfl rfl forward
  obtain ⟨ret, moved, run, move, result⟩ :=
    @new_next_event_forward host mem reset onward small Starts.first turns
      (by simp only [reset, turns]; omega)
  obtain ⟨data', size', sub', -⟩ := move.fields
  have next : nextEvent host mem reset = some (ret, moved) := by
    rw [nextEvent, show reset.oldNext = false from current', if_neg (by decide)]
    exact run
  have old : moved.oldNext = false := by
    rw [move]
    exact current'
  let ready : Kbuffer := { moved with first := moved.curr }
  have onward' : Forward host mem ready :=
    @forward_same host mem moved ready rfl rfl rfl rfl (forward_moved move onward)
  have on : ready.curr < ready.size →
      ready.curr < ready.next ∧ Starts host mem ready ready.next := by
    intro inside
    rcases result with ⟨-, done⟩ | ⟨-, -, -, next, start⟩
    · exact absurd inside (Nat.not_lt.mpr done)
    · exact ⟨next, @starts_same host mem moved ready rfl rfl rfl rfl _ start⟩
  have small' : ready.size < 2 ^ 27 := by
    rw [show ready.size = size from size']
    exact small
  obtain ⟨got, last, walk⟩ := @collect_forward host mem ready old
    (by rw [show ready.subbuffer = subbuffer from sub']; exact there) onward' small' on turns
    (by rw [turns]; omega)
  refine ⟨ready, got, last, ?_, walk⟩
  simp only [kbufferLoadSubbuffer, if_neg there]
  simp only [reset, size] at next
  rw [next]
  rfl

end Walks

section Written
variable {host : Host} {big : Bool} {mem : Mem} {kbuf : Kbuffer}

/-- Over written elements, each offset is that of one of them or the end. -/
theorem starts_written (reads : Reads host big kbuf) {records : List Record}
    (held : Holds mem kbuf.data (encode big records)) (fits : span records = kbuf.size)
    (small : kbuf.size < 2 ^ 27) {offset : Nat} (start : Starts host mem kbuf offset) :
    ∃ front rest, records = front ++ rest ∧ offset = span front := by
  induction start with
  | first => exact ⟨[], records, rfl, rfl⟩
  | @behind offset _ inside ih =>
      obtain ⟨front, rest, rfl, place⟩ := ih
      rw [span_append] at fits
      cases rest with
      | nil =>
          simp only [span, List.map_nil, List.sum_nil, Nat.add_zero] at fits place
          omega
      | cons record rest =>
          rw [span_cons] at fits
          rw [encode_append, encode_cons, holds_append, holds_append, encode_length] at held
          have here : Reads host big { kbuf with curr := offset } :=
            @Moved.reads _ _ kbuf _ rfl reads
          obtain ⟨type, found, update, -, -, -, -, next, -⟩ :=
            @update_pointers_record _ _ { kbuf with curr := offset } mem here record
              (by simp only [place]; exact held.2.1) (by simp only; omega)
          refine ⟨front ++ [record], rest, by simp, ?_⟩
          rw [update, next, span_append, span_cons, place]
          rfl

/-- No page the kernel writes has an element of a negative length. -/
theorem forward_written (reads : Reads host big kbuf) {records : List Record}
    (held : Holds mem kbuf.data (encode big records)) (fits : span records = kbuf.size)
    (small : kbuf.size < 2 ^ 27) : Forward host mem kbuf := by
  intro offset start inside
  obtain ⟨front, rest, rfl, place⟩ := starts_written reads held fits small start
  rw [span_append] at fits
  cases rest with
  | nil =>
      simp only [span, List.map_nil, List.sum_nil, Nat.add_zero] at fits place
      omega
  | cons record rest =>
      rw [span_cons] at fits
      rw [encode_append, encode_cons, holds_append, holds_append, encode_length] at held
      rw [place, translate_data_record reads record held.2.1 (by omega)]
      cases record <;> simp only [Record.element] <;> omega

theorem forward_page (reads : Reads host big kbuf) (page : Page) {subbuffer : Nat}
    (held : Holds mem subbuffer (page.bytes big (kbuf.has flLong8))) :
    Forward host mem (onPage host mem kbuf subbuffer) := by
  obtain ⟨-, commit, elements, -⟩ := header_read reads page held
  obtain ⟨size, -⟩ := commit_bits page
  have here : (onPage host mem kbuf subbuffer).size = span page.records := by
    rw [onPage, commit]
    exact size
  have same : Reads host big (onPage host mem kbuf subbuffer) :=
    ⟨reads.swaps, reads.wide, reads.order, reads.long, reads.current⟩
  refine forward_written same elements here.symm ?_
  rw [here]
  exact page.small

end Written

theorem walk_ends_mixed :
    ∃ loaded got last,
      kbufferLoadSubbuffer {} (mixedMem false) (kbufferAlloc {} .lsize8 .little) 64 =
          some (0, loaded) ∧
        collect {} (mixedMem false) turns loaded = some (got, last) :=
  walk_ends rfl (by decide)
    (forward_page (alloc_reads {} .lsize8 .little (fun other => absurd rfl other)) mixedPage
      (store_holds _ 64 _))

end Orchestrator.PageEnds
