import Orchestrator.RingBuffer

/-!
The elements of a trace page as the kernel writes them, and what the reader of
`kbuffer.c` finds at each of them.
-/

namespace Orchestrator.TraceRecords
open Words RingBuffer

/-- An element of a page. A data record of up to 28 words may be kept short; a long
one has its size stored and is filled up to a word. -/
inductive Record
  | short (delta : Fin (2 ^ 27)) (data : List UInt8)
      (words : data.length % 4 = 0 ∧ 0 < data.length ∧ data.length ≤ 112)
  | long (delta : Fin (2 ^ 27)) (data filler : List UInt8)
      (words : (data.length + filler.length) % 4 = 0 ∧ filler.length < 4)
  | padding (delta : Fin (2 ^ 27)) (rest : List UInt8)
  | timeExtend (delta : Fin (2 ^ 59))
  | timeStamp (time : Fin (2 ^ 59))

/-- The first word of an element. -/
def headWord (big : Bool) (typeLen delta : Nat) : Nat :=
  if big then typeLen * 2 ^ 27 + delta else delta * 2 ^ 5 + typeLen

def Record.bytes (big : Bool) : Record → List UInt8
  | short delta data _ => wordBytes big 4 (headWord big (data.length / 4) delta) ++ data
  | long delta data filler _ =>
      wordBytes big 4 (headWord big 0 delta) ++ (wordBytes big 4 (data.length + 4) ++
        (data ++ filler))
  | padding delta rest =>
      wordBytes big 4 (headWord big typePadding delta) ++
        (wordBytes big 4 (rest.length + 4) ++ rest)
  | timeExtend delta =>
      wordBytes big 4 (headWord big typeTimeExtend (delta % 2 ^ 27)) ++
        wordBytes big 4 (delta / 2 ^ 27)
  | timeStamp time =>
      wordBytes big 4 (headWord big typeTimeStamp (time % 2 ^ 27)) ++
        wordBytes big 4 (time / 2 ^ 27)

def Record.size : Record → Nat
  | short _ data _ => 4 + data.length
  | long _ data filler _ => 8 + (data.length + filler.length)
  | padding _ rest => 8 + rest.length
  | timeExtend _ => 8
  | timeStamp _ => 8

/-- What the reader hands on of a data record. -/
def Record.event : Record → Option (List UInt8)
  | short _ data _ => some data
  | long _ data filler _ => some (data ++ filler)
  | _ => none

/-- The clock after an element. -/
def Record.after (ts : UInt64) : Record → UInt64
  | short delta _ _ | long delta _ _ _ | padding delta _ => ts + UInt64.ofNat delta
  | timeExtend delta => ts + UInt64.ofNat delta
  | timeStamp time => UInt64.ofNat time ||| (ts &&& tsMsb)

/-- What `translate_data` finds at an element stored at `ptr`. -/
def Record.element (ts : UInt64) (ptr : Nat) : Record → Element
  | short delta data _ => ⟨data.length / 4, ptr + 4, UInt64.ofNat delta, data.length⟩
  | long delta data filler _ =>
      ⟨0, ptr + 8, UInt64.ofNat delta, (data.length + filler.length : Nat)⟩
  | padding delta rest => ⟨typePadding, ptr + 4, UInt64.ofNat delta, (rest.length + 4 : Nat)⟩
  | timeExtend delta => ⟨typeTimeExtend, ptr + 8, UInt64.ofNat delta, 0⟩
  | timeStamp time => ⟨typeTimeStamp, ptr + 8, UInt64.ofNat time ||| (ts &&& tsMsb), 0⟩

/-- The functions of a reader take words of byte order `big`. -/
structure Reads (host : Host) (big : Bool) (kbuf : Kbuffer) : Prop where
  swaps : kbuf.sw = (host.bigEndian != big)
  wide : kbuf.sw = true → host.long8 = true
  order : kbuf.has flBigEndian = big
  long : kbuf.readLong8 = kbuf.has flLong8
  current : kbuf.oldNext = false

section Swapping

theorem low_byte_up (value far : Nat) :
    (value &&& 255) <<< far = value / 2 ^ 0 % 256 * 2 ^ far := by
  simpa using byte_up value 0 far

theorem swap4_le_value (bytes : List UInt8) (four : bytes.length = 4) :
    swap4 (leValue bytes) = leValue bytes.reverse := by
  match bytes, four with
  | [a, b, c, d], _ =>
    have first := le_value_byte [] a [b, c, d] rfl
    have second := le_value_byte [a] b [c, d] rfl
    have third := le_value_byte [a, b] c [d] rfl
    have fourth := le_value_byte [a, b, c] d [] rfl
    have last : d.toNat * 2 ^ 0 = leValue [d] := by simp [leValue]
    simp only [List.cons_append, List.nil_append, List.length_cons, List.length_nil] at *
    simp (disch := decide) only [swap4, byte_up, byte_down, low_byte_up, Nat.or_assoc]
    simp only [Nat.reduceAdd, Nat.reduceMul, Nat.reduceSub] at *
    rw [first, second, third, fourth, last]
    simp (disch := simp) only [mul_or_le_value, List.cons_append, List.nil_append,
      List.reverse_cons, List.reverse_nil]

theorem swap8_le_value (host : Host) (wide : host.long8 = true) (bytes : List UInt8)
    (eight : bytes.length = 8) : swap8 host (leValue bytes) = leValue bytes.reverse := by
  match bytes, eight with
  | [a, b, c, d, e, f, g, h], _ =>
    have first := le_value_byte [] a [b, c, d, e, f, g, h] rfl
    have second := le_value_byte [a] b [c, d, e, f, g, h] rfl
    have third := le_value_byte [a, b] c [d, e, f, g, h] rfl
    have fourth := le_value_byte [a, b, c] d [e, f, g, h] rfl
    have fifth := le_value_byte [a, b, c, d] e [f, g, h] rfl
    have sixth := le_value_byte [a, b, c, d, e] f [g, h] rfl
    have seventh := le_value_byte [a, b, c, d, e, f] g [h] rfl
    have eighth := le_value_byte [a, b, c, d, e, f, g] h [] rfl
    have last : h.toNat * 2 ^ 0 = leValue [h] := by simp [leValue]
    simp only [List.cons_append, List.nil_append, List.length_cons, List.length_nil] at *
    simp (disch := decide) only [swap8, wide, if_true, byte_up, byte_down, low_byte_up,
      Nat.or_assoc]
    simp only [Nat.reduceAdd, Nat.reduceMul, Nat.reduceSub] at *
    rw [first, second, third, fourth, fifth, sixth, seventh, eighth, last]
    simp (disch := simp) only [mul_or_le_value, List.cons_append, List.nil_append,
      List.reverse_cons, List.reverse_nil]

/-- Swapping turns the host's order of the bytes into the other. -/
theorem swap4_word_value (big : Bool) (bytes : List UInt8) (four : bytes.length = 4) :
    swap4 (wordValue big bytes) = wordValue (!big) bytes := by
  cases big
  · exact swap4_le_value bytes four
  · simpa [wordValue] using swap4_le_value bytes.reverse (by simpa using four)

theorem swap8_word_value (host : Host) (wide : host.long8 = true) (big : Bool)
    (bytes : List UInt8) (eight : bytes.length = 8) :
    swap8 host (wordValue big bytes) = wordValue (!big) bytes := by
  cases big
  · exact swap8_le_value host wide bytes eight
  · simpa [wordValue] using swap8_le_value host wide bytes.reverse (by simpa using eight)

end Swapping

section Reader
variable {host : Host} {big : Bool} {kbuf : Kbuffer} {mem : Mem}

/-- The flag for a big endian host is lost, so only big endian words asked for by
name are read as such. -/
def readOrder : Endian → Bool
  | .big => true
  | .little | .sameAsHost => false

theorem alloc_reads (host : Host) (size : LongSize) (endian : Endian)
    (wide : host.bigEndian ≠ readOrder endian → host.long8 = true) :
    Reads host (readOrder endian) (kbufferAlloc host size endian) := by
  have swaps : (kbufferAlloc host size endian).sw = (host.bigEndian != readOrder endian) := by
    obtain ⟨bigEndian, long8, is32bit⟩ := host
    cases bigEndian <;> cases long8 <;> cases is32bit <;> cases size <;> cases endian <;> decide
  have rest : (kbufferAlloc host size endian).has flBigEndian = readOrder endian ∧
      (kbufferAlloc host size endian).readLong8 = (kbufferAlloc host size endian).has flLong8 ∧
      (kbufferAlloc host size endian).oldNext = false := by
    obtain ⟨bigEndian, long8, is32bit⟩ := host
    cases bigEndian <;> cases long8 <;> cases is32bit <;> cases size <;> cases endian <;> decide
  refine ⟨swaps, ?_, rest.1, rest.2.1, rest.2.2⟩
  intro swapping
  apply wide
  rw [swaps] at swapping
  exact bne_iff_ne.mp swapping

theorem read4_eq (reads : Reads host big kbuf) (ptr : Nat) :
    read4 host mem kbuf ptr = wordValue big (slice mem ptr 4) := by
  rw [read4, reads.swaps]
  cases same : (host.bigEndian != big)
  · rw [bne_eq_false_iff_eq.mp same]
    rfl
  · have other : (!host.bigEndian) = big := by
      revert same
      cases host.bigEndian <;> cases big <;> decide
    simp [swap4_word_value, other]

theorem read8_eq (reads : Reads host big kbuf) (ptr : Nat) :
    read8 host mem kbuf ptr = wordValue big (slice mem ptr 8) := by
  rw [read8]
  have wide := reads.wide
  rw [reads.swaps] at wide ⊢
  cases same : (host.bigEndian != big)
  · rw [bne_eq_false_iff_eq.mp same]
    rfl
  · have other : (!host.bigEndian) = big := by
      revert same
      cases host.bigEndian <;> cases big <;> decide
    simp [swap8_word_value host (wide same), other]

theorem read4_of_holds (reads : Reads host big kbuf) {ptr value : Nat}
    (held : Holds mem ptr (wordBytes big 4 value)) (small : value < 2 ^ 32) :
    read4 host mem kbuf ptr = value := by
  rw [read4_eq reads]
  exact word_value_of_holds big held small

theorem head_word_lt {typeLen delta : Nat} (type : typeLen < 32) (time : delta < 2 ^ 27) :
    headWord big typeLen delta < 2 ^ 32 := by
  cases big <;> simp only [headWord, if_true, Bool.false_eq_true, if_false] <;> omega

theorem type_len4host_head (reads : Reads host big kbuf) {typeLen delta : Nat}
    (type : typeLen < 32) (time : delta < 2 ^ 27) :
    typeLen4host kbuf (headWord big typeLen delta) = typeLen := by
  have mask (value : Nat) : value &&& (1 <<< 5 - 1) = value % 2 ^ 5 :=
    Nat.and_two_pow_sub_one_eq_mod value 5
  rw [typeLen4host, reads.order, mask, mask, Nat.shiftRight_eq_div_pow]
  cases big <;> simp only [headWord, if_true, Bool.false_eq_true, if_false] <;> omega

theorem ts4host_head (reads : Reads host big kbuf) {typeLen delta : Nat}
    (type : typeLen < 32) (time : delta < 2 ^ 27) :
    ts4host kbuf (headWord big typeLen delta) = delta := by
  have mask (value : Nat) : value &&& (1 <<< 27 - 1) = value % 2 ^ 27 :=
    Nat.and_two_pow_sub_one_eq_mod value 27
  rw [ts4host, reads.order, mask, Nat.shiftRight_eq_div_pow]
  cases big <;> simp only [headWord, if_true, Bool.false_eq_true, if_false] <;> omega

theorem bytes_length (big : Bool) (record : Record) : (record.bytes big).length = record.size := by
  cases record <;> simp [Record.bytes, Record.size] <;> omega

/-- The two words of a time. -/
theorem extend_eq (time : Fin (2 ^ 59)) :
    UInt64.ofNat (time / 2 ^ 27) <<< UInt64.ofNat tsShift + UInt64.ofNat (time % 2 ^ 27) =
      UInt64.ofNat time := by
  apply UInt64.toNat_inj.mp
  have bound := time.isLt
  rw [UInt64.toNat_add, UInt64.toNat_shiftLeft]
  simp only [UInt64.toNat_ofNat', tsShift, Nat.shiftLeft_eq, Nat.reducePow, Nat.reduceMod]
  omega

theorem unsigned_of_lt {value : Nat} (small : value < 2 ^ 32) : unsigned value = value := by
  rw [unsigned]
  omega

theorem signed_of_lt {value : Nat} (small : value < 2 ^ 31) : signed value = value := by
  rw [signed, if_pos small]

/-- `translate_data` at an element whose first word is known. -/
theorem translate_data_head (reads : Reads host big kbuf) {ptr typeLen delta : Nat}
    (type : typeLen < 32) (time : delta < 2 ^ 27)
    (held : Holds mem ptr (wordBytes big 4 (headWord big typeLen delta))) :
    typeLen4host kbuf (read4 host mem kbuf ptr) = typeLen ∧
      ts4host kbuf (read4 host mem kbuf ptr) = delta := by
  rw [read4_of_holds reads held (head_word_lt type time)]
  exact ⟨type_len4host_head reads type time, ts4host_head reads type time⟩

theorem translate_data_time (reads : Reads host big kbuf) {ptr typeLen : Nat}
    (time : Fin (2 ^ 59)) (type : typeLen = typeTimeExtend ∨ typeLen = typeTimeStamp)
    (held : Holds mem ptr (wordBytes big 4 (headWord big typeLen (time % 2 ^ 27)) ++
      wordBytes big 4 (time / 2 ^ 27))) :
    translateData host mem kbuf ptr =
      ⟨typeLen, ptr + 8, UInt64.ofNat time |||
        (if typeLen = typeTimeStamp then kbuf.timestamp &&& tsMsb else 0), 0⟩ := by
  have bound := time.isLt
  have low : (time : Nat) % 2 ^ 27 < 2 ^ 27 := Nat.mod_lt _ (by decide)
  have small : typeLen < 32 := by
    rcases type with rfl | rfl <;> decide
  have notPadding : typeLen ≠ typePadding := by
    rcases type with rfl | rfl <;> decide
  obtain ⟨head, word⟩ := (holds_append mem ptr _ _).mp held
  rw [word_bytes_length] at word
  have ⟨typed, timed⟩ := translate_data_head reads small low head
  have high := read4_of_holds reads word (by omega)
  simp only [translateData]
  rw [typed, timed, high, if_neg notPadding, if_pos (Or.comm.mp type), extend_eq]

theorem translate_data_record (reads : Reads host big kbuf) {ptr : Nat} (record : Record)
    (held : Holds mem ptr (record.bytes big)) (small : record.size < 2 ^ 27) :
    translateData host mem kbuf ptr = record.element kbuf.timestamp ptr := by
  cases record with
  | short delta data words =>
      obtain ⟨head, -⟩ := (holds_append mem ptr _ _).mp held
      have ⟨typed, timed⟩ := translate_data_head reads (by omega) delta.isLt head
      simp only [translateData]
      rw [typed, timed, if_neg (by simp only [typePadding]; omega),
        if_neg (by simp only [typeTimeStamp, typeTimeExtend]; omega), if_neg (by omega)]
      simp only [Record.element, Element.mk.injEq, true_and]
      omega
  | long delta data filler words =>
      simp only [Record.size] at small
      obtain ⟨head, rest⟩ := (holds_append mem ptr _ _).mp held
      obtain ⟨word, -⟩ := (holds_append mem _ _ _).mp rest
      rw [word_bytes_length] at word
      have ⟨typed, timed⟩ := translate_data_head reads (by decide) delta.isLt head
      have length := read4_of_holds reads word (by omega)
      have stored : unsigned (((data.length + 4 : Nat) : Int) - 4) = data.length := by
        rw [unsigned]
        omega
      have filled : ((data.length : Int) + 3) / 4 * 4 = (data.length + filler.length : Nat) := by
        omega
      simp only [translateData]
      rw [typed, timed, length, if_neg (by decide), if_neg (by decide), if_pos rfl, stored,
        @signed_of_lt data.length (by omega), filled, unsigned_of_lt (by omega),
        signed_of_lt (by omega)]
      rfl
  | padding delta rest =>
      simp only [Record.size] at small
      obtain ⟨head, more⟩ := (holds_append mem ptr _ _).mp held
      obtain ⟨word, -⟩ := (holds_append mem _ _ _).mp more
      rw [word_bytes_length] at word
      have ⟨typed, timed⟩ := translate_data_head reads (by decide) delta.isLt head
      have length := read4_of_holds reads word (by omega)
      simp only [translateData]
      rw [typed, timed, length, if_pos rfl, signed_of_lt (by omega)]
      rfl
  | timeExtend delta =>
      rw [translate_data_time reads delta (Or.inl rfl) held, if_neg (by decide)]
      simp [Record.element]
  | timeStamp time =>
      rw [translate_data_time reads time (Or.inr rfl) held, if_pos rfl]
      rfl

end Reader

end Orchestrator.TraceRecords
