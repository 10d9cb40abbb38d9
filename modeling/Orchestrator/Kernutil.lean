import Orchestrator.Orchdata

/-!
CPU lists of `kernutil.c`.
-/

namespace Orchestrator.Kernutil
open Orchdata

/-- Loop state of `parse_bitmask`: the text, the remaining space and the range
of set bits that is open. -/
structure Ranges where
  str : List Char := []
  len : UInt64
  firstFound : Int := -1
  lastFound : Int := -1

def decimal (number : Int) : List Char := Nat.toDigits 10 number.toNat

/-- Loop body of `parse_bitmask`; `none` is the return for a string too small. -/
def parseBit (mask : Bitmask) (ranges : Ranges) (i : Nat) : Option Ranges :=
  if ranges.len = 0 then none
  else if i ∈ mask then
    if ranges.firstFound < 0 then
      some {
        str := ranges.str ++ (if ranges.str.isEmpty then decimal i else ',' :: decimal i)
        len := ranges.len - 2 - (if ranges.str.isEmpty then 0 else 1)
        firstFound := i
        lastFound := i }
    else some { ranges with lastFound := ranges.lastFound + 1 }
  else if ranges.lastFound ≠ ranges.firstFound then
    some {
      str := ranges.str ++ '-' :: decimal ranges.lastFound
      len := ranges.len - 3 }
  else some { ranges with firstFound := -1, lastFound := -1 }

/-- `parse_bitmask` for a mask of this many bits: the text, if it returns 0. -/
def parseBitmask (bits : Nat) (mask : Bitmask) (len : UInt64) : Option (List Char) :=
  if len = 0 then none
  else ((List.range bits).foldlM (parseBit mask) { len := len - 1 }).map Ranges.str

/-- The loop of `parse_bitmask`; a failure keeps the state it stopped in. -/
def parseLoop (bits : Nat) (mask : Bitmask) (len : UInt64) : Except Ranges Ranges :=
  (List.range bits).foldlM
    (fun ranges i => (parseBit mask ranges i).elim (.error ranges) .ok) { len := len - 1 }

/-- Return value of `parse_bitmask` and the text it leaves in the buffer, also
when it fails. -/
def parseBuffer (bits : Nat) (mask : Bitmask) (len : UInt64) : Int × List Char :=
  if len = 0 then (-1, [])
  else
    match parseLoop bits mask len with
    | .ok ranges => (0, ranges.str)
    | .error ranges => (-1, ranges.str)

theorem parse_loop_some (mask : Bitmask) (positions : List Nat) (ranges : Ranges) :
    positions.foldlM (parseBit mask) ranges =
      (positions.foldlM (fun ranges i => (parseBit mask ranges i).elim (.error ranges) .ok)
        ranges : Except Ranges Ranges).toOption := by
  induction positions generalizing ranges with
  | nil => rfl
  | cons i rest ih =>
      rw [List.foldlM_cons, List.foldlM_cons]
      cases parseBit mask ranges i with
      | none => rfl
      | some next => exact ih next

theorem parse_bitmask_buffer (bits : Nat) (mask : Bitmask) (len : UInt64) (text : List Char) :
    parseBitmask bits mask len = some text ↔ parseBuffer bits mask len = (0, text) := by
  rw [parseBitmask, parseBuffer, parse_loop_some]
  split_ifs with zero
  · simp
  · change Option.map Ranges.str (parseLoop bits mask len).toOption = some text ↔ _
    cases parseLoop bits mask len with
    | error ranges => simp [Except.toOption]
    | ok ranges => simp [Except.toOption]

/-- `numa_bitmask_nbytes(mask) * 8`: whole words. -/
def maskBits (numa : Numa) : Nat := (numa.size + 63) / 64 * 64

/-- `CPUSTRLEN`. -/
def cpustrlen : UInt64 := 64

example : parseBitmask 64 {0, 2, 3, 7} cpustrlen = some ['0', ',', '2', '-', '3', ',', '7'] := by
  decide +kernel

end Orchestrator.Kernutil
