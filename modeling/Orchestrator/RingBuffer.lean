import Orchestrator.Words

/-!
`kbuffer.c`: the pages of the kernel's trace ring buffer. Pointers are addresses, 0
for `NULL`; the fields of C's `unsigned int` are held reduced.
-/

namespace Orchestrator.RingBuffer
open Words

/-- The machine the program runs on. -/
structure Host where
  bigEndian : Bool := false
  /-- `sizeof(long) == 8`. -/
  long8 : Bool := true
  is32bit : Bool := false

inductive LongSize
  | lsize4 | lsize8 | sameAsHost

inductive Endian
  | big | little | sameAsHost

def flHostBigEndian : Nat := 1
def flBigEndian : Nat := 2
def flLong8 : Nat := 4
def flOldFormat : Nat := 8
def endianMask : Nat := flHostBigEndian ||| flBigEndian

def missingEvents : Nat := 1 <<< 31
def missingStored : Nat := 1 <<< 30
def commitMask : Nat := 1 <<< 27 - 1

/-- Absolute time stamps do not have the 5 most significant bits. -/
def tsMsb : UInt64 := (0xf8 : UInt64) <<< 56

def tsShift : Nat := 27

def typePadding : Nat := 29
def typeTimeExtend : Nat := 30
def typeTimeStamp : Nat := 31

/-- `struct kbuffer`. The function pointers are told by which of their two functions
they hold: `sw` for `__read_4_sw` and `__read_8_sw`, `readLong8` for `__read_long_8`,
`oldNext` for `__old_next_event`. -/
structure Kbuffer where
  timestamp : UInt64 := 0
  lostEvents : Int := 0
  flags : Nat := 0
  subbuffer : Nat := 0
  data : Nat := 0
  index : Nat := 0
  curr : Nat := 0
  next : Nat := 0
  size : Nat := 0
  start : Nat := 0
  first : Nat := 0
  sw : Bool := false
  readLong8 : Bool := false
  oldNext : Bool := false
  deriving DecidableEq

/-- Conversion to `unsigned int`. -/
def unsigned (value : Int) : Nat := (value % 2 ^ 32).toNat

/-- Conversion of an `unsigned int` to `int`. -/
def signed (value : Nat) : Int := if value < 2 ^ 31 then value else value - 2 ^ 32

def Kbuffer.has (kbuf : Kbuffer) (flag : Nat) : Bool := kbuf.flags &&& flag != 0

def doSwap (kbuf : Kbuffer) : Bool :=
  ((kbuf.flags &&& flHostBigEndian) + kbuf.flags) &&& endianMask != 0

def swap4 (data : Nat) : Nat :=
  ((data &&& 0xff) <<< 24) ||| ((data &&& (0xff <<< 8)) <<< 8) |||
    ((data &&& (0xff <<< 16)) >>> 8) ||| ((data &&& (0xff <<< 24)) >>> 24)

/-- The argument of `swap_8` is an `unsigned long`. -/
def swap8 (host : Host) (data : Nat) : Nat :=
  let data := if host.long8 then data else data % 2 ^ 32
  ((data &&& 0xff) <<< 56) ||| ((data &&& (0xff <<< 8)) <<< 40) |||
    ((data &&& (0xff <<< 16)) <<< 24) ||| ((data &&& (0xff <<< 24)) <<< 8) |||
    ((data &&& (0xff <<< 32)) >>> 8) ||| ((data &&& (0xff <<< 40)) >>> 24) |||
    ((data &&& (0xff <<< 48)) >>> 40) ||| ((data &&& (0xff <<< 56)) >>> 56)

def type4host (kbuf : Kbuffer) (typeLenTs : Nat) : Nat :=
  if kbuf.has flBigEndian then (typeLenTs >>> 29) &&& 3 else typeLenTs &&& 3

def len4host (kbuf : Kbuffer) (typeLenTs : Nat) : Nat :=
  if kbuf.has flBigEndian then (typeLenTs >>> 27) &&& 7 else (typeLenTs >>> 2) &&& 7

def typeLen4host (kbuf : Kbuffer) (typeLenTs : Nat) : Nat :=
  if kbuf.has flBigEndian then (typeLenTs >>> 27) &&& (1 <<< 5 - 1)
  else typeLenTs &&& (1 <<< 5 - 1)

def ts4host (kbuf : Kbuffer) (typeLenTs : Nat) : Nat :=
  if kbuf.has flBigEndian then typeLenTs &&& (1 <<< 27 - 1) else typeLenTs >>> 5

/-- `kbuffer_alloc`. The flag a big endian host sets for `KBUFFER_ENDIAN_SAME_AS_HOST`
goes to the local variable, after it was copied. -/
def kbufferAlloc (host : Host) (size : LongSize) (endian : Endian) : Kbuffer :=
  let long8 : Bool := match size with
    | .lsize4 => false
    | .sameAsHost => !(!host.long8 && host.is32bit)
    | .lsize8 => true
  let order : Nat := match endian with
    | .little | .sameAsHost => 0
    | .big => flBigEndian
  let flags := (if long8 then flLong8 else 0) ||| order
  let kbuf : Kbuffer := { flags := if host.bigEndian then flags ||| flHostBigEndian else flags }
  { kbuf with sw := doSwap kbuf, readLong8 := kbuf.has flLong8 }

def kbufferSetOldFormat (kbuf : Kbuffer) : Kbuffer :=
  { kbuf with flags := kbuf.flags ||| flOldFormat, oldNext := true }

section Reading
variable (host : Host) (mem : Mem)

def read4 (kbuf : Kbuffer) (ptr : Nat) : Nat :=
  let data := wordValue host.bigEndian (slice mem ptr 4)
  if kbuf.sw then swap4 data else data

def read8 (kbuf : Kbuffer) (ptr : Nat) : Nat :=
  let data := wordValue host.bigEndian (slice mem ptr 8)
  if kbuf.sw then swap8 host data else data

def readLong (kbuf : Kbuffer) (ptr : Nat) : Nat :=
  if kbuf.readLong8 then read8 host mem kbuf ptr else read4 host mem kbuf ptr

def calcIndex (kbuf : Kbuffer) (ptr : Nat) : Nat := unsigned ((ptr : Int) - kbuf.data)

/-- What `translate_data` returns and stores. -/
structure Element where
  typeLen : Nat
  rptr : Nat
  delta : UInt64
  length : Int

def translateData (kbuf : Kbuffer) (data : Nat) : Element :=
  let typeLenTs := read4 host mem kbuf data
  let typeLen := typeLen4host kbuf typeLenTs
  let delta := UInt64.ofNat (ts4host kbuf typeLenTs)
  let word := read4 host mem kbuf (data + 4)
  if typeLen = typePadding then ⟨typeLen, data + 4, delta, signed word⟩
  else if typeLen = typeTimeStamp ∨ typeLen = typeTimeExtend then
    let msb := if typeLen = typeTimeStamp then kbuf.timestamp &&& tsMsb else 0
    ⟨typeLen, data + 8, (UInt64.ofNat word <<< UInt64.ofNat tsShift + delta) ||| msb, 0⟩
  else if typeLen = 0 then
    let length := signed (unsigned ((word : Int) - 4))
    ⟨typeLen, data + 8, delta, signed (unsigned ((length + 3) / 4 * 4))⟩
  else ⟨typeLen, data + 4, delta, typeLen * 4⟩

/-- `update_pointers`, with the type it returns. -/
def updatePointers (kbuf : Kbuffer) : Nat × Kbuffer :=
  let element := translateData host mem kbuf (kbuf.data + kbuf.curr)
  let index := calcIndex kbuf element.rptr
  (element.typeLen,
    { kbuf with
      timestamp := if element.typeLen = typeTimeStamp then element.delta
        else kbuf.timestamp + element.delta
      index := index
      next := unsigned (index + element.length) })

/-- `__next_event`; a loop that outlasts `fuel` is not followed further. -/
def newNextEvent : Nat → Kbuffer → Option (Int × Kbuffer)
  | 0, _ => none
  | fuel + 1, kbuf =>
      let here := { kbuf with curr := kbuf.next }
      if here.size ≤ here.next then some (-1, here)
      else
        let (type, found) := updatePointers host mem here
        if type = typeTimeExtend ∨ type = typeTimeStamp ∨ type = typePadding then
          newNextEvent fuel found
        else some (0, found)

def setCurrToEnd (kbuf : Kbuffer) : Kbuffer :=
  { kbuf with curr := kbuf.size, next := kbuf.size, index := kbuf.size }

/-- `old_update_pointers`, for the format of Linux 2.6.30: 0 padding, 1 time extend,
2 time stamp, 3 data. A time extend is cut to the 32 bits of `delta`. -/
def oldUpdatePointers (kbuf : Kbuffer) : Int × Kbuffer :=
  let ptr := kbuf.data + kbuf.curr
  let typeLenTs := read4 host mem kbuf ptr
  let type := type4host kbuf typeLenTs
  let len := len4host kbuf typeLenTs
  let delta := ts4host kbuf typeLenTs
  let word := read4 host mem kbuf (ptr + 4)
  let move := fun delta ptr length : Nat =>
    { kbuf with
      timestamp := kbuf.timestamp + UInt64.ofNat delta
      index := calcIndex kbuf ptr
      next := unsigned (calcIndex kbuf ptr + length) }
  match type with
  | 0 => (0, { kbuf with next := kbuf.size })
  | 1 => (1, move ((word <<< tsShift + delta) % 2 ^ 32) (ptr + 8) 0)
  | 2 => (-1, setCurrToEnd kbuf)
  | _ =>
      if len ≠ 0 then (type, move delta (ptr + 4) (len * 4))
      else (type, move delta (ptr + 8) (unsigned ((word : Int) - 4)))

def oldNextEvent : Nat → Kbuffer → Option (Int × Kbuffer)
  | 0, _ => none
  | fuel + 1, kbuf =>
      let here := { kbuf with curr := kbuf.next }
      if here.size ≤ here.next then some (-1, here)
      else
        let (type, found) := oldUpdatePointers host mem here
        if type = 1 ∨ type = 0 then oldNextEvent fuel found else some (0, found)

/-- Turns after which a walk over 32-bit offsets has come back to one. -/
def turns : Nat := 2 ^ 32 + 1

/-- `next_event`; `none` where it does not return. -/
def nextEvent (kbuf : Kbuffer) : Option (Int × Kbuffer) :=
  if kbuf.oldNext then oldNextEvent host mem turns kbuf else newNextEvent host mem turns kbuf

/-- A pointer returned, with the time stamp stored beside it. -/
abbrev Found := Option (Nat × UInt64)

def kbufferReadEvent (kbuf : Kbuffer) : Found :=
  if kbuf.subbuffer = 0 then none
  else if kbuf.size ≤ kbuf.curr then none
  else some (kbuf.data + kbuf.index, kbuf.timestamp)

def kbufferNextEvent (kbuf : Kbuffer) : Option (Found × Kbuffer) :=
  if kbuf.subbuffer = 0 then some (none, kbuf)
  else do
    let (ret, moved) ← nextEvent host mem kbuf
    pure (if ret < 0 then none else some (moved.data + moved.index, moved.timestamp), moved)

def kbufferRefresh (kbuf : Kbuffer) : Option (Int × Kbuffer) :=
  if kbuf.subbuffer = 0 then some (-1, kbuf)
  else do
    let flags := readLong host mem kbuf (kbuf.subbuffer + 8)
    let sized := { kbuf with size := flags % 2 ^ 32 &&& commitMask }
    if sized.size ≠ kbuf.size ∧ sized.curr = sized.next then
      let (_, moved) ← nextEvent host mem sized
      pure (0, moved)
    else pure (0, sized)

/-- Conversion of an `unsigned long long` to `long long`. -/
def signed64 (value : Nat) : Int := if value < 2 ^ 63 then value else value - 2 ^ 64

def kbufferLoadSubbuffer (kbuf : Kbuffer) (subbuffer : Nat) : Option (Int × Kbuffer) :=
  if subbuffer = 0 then some (-1, kbuf)
  else do
    let start := if kbuf.has flLong8 then 16 else 12
    let flags := readLong host mem kbuf (subbuffer + 8)
    let size := flags % 2 ^ 32 &&& commitMask
    let lost :=
      if flags &&& missingEvents = 0 then 0
      else if flags &&& missingStored = 0 then -1
      else signed64 (readLong host mem kbuf (subbuffer + start + size))
    let loaded :=
      { kbuf with
        subbuffer := subbuffer
        timestamp := UInt64.ofNat (read8 host mem kbuf subbuffer)
        curr := 0
        start := start
        data := subbuffer + start
        size := size
        lostEvents := lost
        index := 0
        next := 0 }
    let (_, moved) ← nextEvent host mem loaded
    pure (0, { moved with first := moved.curr })

/-- The loop of `kbuffer_read_at_offset`. -/
def seek (offset : Nat) : Nat → Found → Kbuffer → Option (Found × Kbuffer)
  | 0, _, _ => none
  | fuel + 1, data, kbuf =>
      if kbuf.curr < offset then
        match kbufferNextEvent host mem kbuf with
        | none => none
        | some (none, moved) => some (none, moved)
        | some (some found, moved) => seek offset fuel (some found) moved
      else some (data, kbuf)

/-- `kbuffer_read_at_offset`. An `int` is compared with an `unsigned int`, thus as one. -/
def kbufferReadAtOffset (kbuf : Kbuffer) (offset : Int) : Option (Found × Kbuffer) := do
  let past : Int := if unsigned offset < kbuf.start then 0 else offset - kbuf.start
  let (_, loaded) ← kbufferLoadSubbuffer host mem kbuf kbuf.subbuffer
  seek host mem (unsigned past) turns (kbufferReadEvent loaded) loaded

end Reading

def kbufferCurrIndex (kbuf : Kbuffer) : Int := signed kbuf.curr
def kbufferCurrOffset (kbuf : Kbuffer) : Int := signed (unsigned (kbuf.curr + kbuf.start))
def kbufferEventSize (kbuf : Kbuffer) : Int := signed (unsigned ((kbuf.next : Int) - kbuf.index))
def kbufferCurrSize (kbuf : Kbuffer) : Int := signed (unsigned ((kbuf.next : Int) - kbuf.curr))
def kbufferStartOfData (kbuf : Kbuffer) : Int := signed (unsigned (kbuf.first + kbuf.start))

/-- `kbuffer_missed_events`, cut to an `int`. -/
def kbufferMissedEvents (kbuf : Kbuffer) : Int :=
  if kbuf.curr ≠ 0 then 0 else signed (unsigned kbuf.lostEvents)

/-- `struct kbuffer_raw_info`. -/
structure RawInfo where
  type : Int
  length : Int
  delta : UInt64
  next : Nat

def kbufferRawGet (host : Host) (mem : Mem) (kbuf : Kbuffer) (subbuf : Nat) (info : RawInfo) :
    Option RawInfo :=
  if subbuf = 0 then none
  else
    let start := if kbuf.has flLong8 then 16 else 12
    let size := readLong host mem kbuf (subbuf + 8) % 2 ^ 32 &&& commitMask
    if info.next < subbuf ∨ subbuf + start + size ≤ info.next then none
    else
      let element := translateData host mem kbuf info.next
      some
        { type := element.typeLen
          length := element.length
          delta := element.delta
          next := ((element.rptr : Int) + element.length).toNat }

section Copying
variable (host : Host)

def write8 (swap : Bool) (mem : Mem) (ptr data : Nat) : Mem :=
  store mem ptr (wordBytes host.bigEndian 8 (if swap then swap8 host data else data))

def write4 (swap : Bool) (mem : Mem) (ptr data : Nat) : Mem :=
  store mem ptr (wordBytes host.bigEndian 4 (if swap then swap4 data else data))

/-- The loop of `kbuffer_read_buffer`; yields `last_next`. -/
def takeWhileFits (mem : Mem) (len saveCurr : Nat) :
    Nat → Nat → Kbuffer → Option (Nat × Kbuffer)
  | 0, _, _ => none
  | fuel + 1, lastNext, kbuf =>
      if unsigned ((kbuf.next : Int) - saveCurr) ≤ len then
        match kbufferNextEvent host mem kbuf with
        | none => none
        | some (none, moved) => some (kbuf.next, moved)
        | some (some _, moved) => takeWhileFits mem len saveCurr fuel kbuf.next moved
      else some (lastNext, kbuf)

/-- The end of `kbuffer_read_buffer`: `copied` bytes go behind the header, with the first
delta zeroed, and their number into it. -/
def writeCopy (mem : Mem) (kbuf : Kbuffer) (swap : Bool) (buffer saveCurr copied : Nat) : Mem :=
  let target := buffer + kbuf.start
  let filled := store mem target (slice mem (kbuf.data + saveCurr) copied)
  let typeLenTs := read4 host filled kbuf target
  let zeroed :=
    if kbuf.has flBigEndian then typeLenTs &&& ((2 ^ 32 - 1) ^^^ (1 <<< 27 - 1))
    else typeLenTs &&& (1 <<< 5 - 1)
  let first := write4 host swap filled target zeroed
  if kbuf.readLong8 then write8 host swap first (buffer + 8) copied
  else write4 host swap first (buffer + 8) copied

/-- `kbuffer_read_buffer`, for a `len` that is not negative: its value, the reader and
the memory behind it. -/
def kbufferReadBuffer (mem : Mem) (kbuf : Kbuffer) (buffer len : Nat) :
    Option (Int × Kbuffer × Mem) :=
  if kbuf.size ≤ kbuf.curr then some (0, kbuf, mem)
  else if len < kbuf.start then some (-1, kbuf, mem)
  else if len < unsigned ((kbuf.next : Int) - kbuf.curr + kbuf.start) then some (-1, kbuf, mem)
  else do
    let stamped := write8 host kbuf.sw mem buffer kbuf.timestamp.toNat
    let (lastNext, moved) ←
      takeWhileFits host stamped (len - kbuf.start) kbuf.curr turns kbuf.next kbuf
    let copied := unsigned ((lastNext : Int) - kbuf.curr)
    if copied = 0 then pure (0, moved, stamped)
    else pure (signed lastNext, moved, writeCopy host stamped moved kbuf.sw buffer kbuf.curr copied)

end Copying

end Orchestrator.RingBuffer
