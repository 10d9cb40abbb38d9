import Mathlib.Data.Finset.Interval
import Mathlib.Order.Interval.Finset.Nat
import Orchestrator.Kernutil
import Orchestrator.Runs

/-!
CPU lists as `parse_bitmask` writes them and as they are read back: the buffer it
needs, and the masks that come back unchanged.
-/

namespace Orchestrator.CpuList
open Orchdata Kernutil Runs

section Text

/-- A single CPU, or a range with both ends. -/
def entry (run : Nat × Nat) : List Char :=
  Nat.toDigits 10 run.1 ++ if run.1 = run.2 then [] else '-' :: Nat.toDigits 10 run.2

def text (runs : List (Nat × Nat)) : List Char := [','].intercalate (runs.map entry)

theorem entry_ne_nil (run : Nat × Nat) : entry run ≠ [] := by
  simp [entry]

theorem intercalate_append (entries : List (List Char)) (last : List Char) :
    [','].intercalate (entries ++ [last]) =
      if entries = [] then last else [','].intercalate entries ++ ',' :: last := by
  induction entries with
  | nil => simp
  | cons first rest ih =>
      rw [List.cons_append, List.intercalate_cons_of_ne_nil (by simp), ih]
      cases rest with
      | nil => simp
      | cons second others =>
          rw [if_neg (List.cons_ne_nil second others), if_neg (List.cons_ne_nil first _),
            List.intercalate_cons_cons]
          simp only [List.append_assoc]

theorem text_append (runs : List (Nat × Nat)) (run : Nat × Nat) :
    text (runs ++ [run]) = if runs = [] then entry run else text runs ++ ',' :: entry run := by
  rw [text, List.map_append, List.map_singleton, intercalate_append]
  simp [text]

theorem text_empty_iff (runs : List (Nat × Nat)) : text runs = [] ↔ runs = [] := by
  constructor
  · intro empty
    cases runs using List.reverseRecOn with
    | nil => rfl
    | append_singleton runs run =>
        rw [text_append] at empty
        split_ifs at empty with first
        · exact absurd empty (entry_ne_nil run)
        · simp at empty
  · rintro rfl
    rfl

end Text

section Read

/-- A number of a CPU list. -/
def readNumber (digits : List Char) : Option Nat :=
  if digits ≠ [] ∧ digits.all Char.isDigit then some (Nat.ofDigitChars 10 digits 0) else none

/-- A single number or an inclusive range. -/
def readEntry (entry : List Char) : Option Bitmask :=
  match entry.splitOn '-' with
  | [single] => (readNumber single).map ({·})
  | [first, last] => (readNumber first).bind fun low => (readNumber last).map (Finset.Icc low)
  | _ => none

/-- `numa_parse_cpustring_all` on a list of CPUs of the system. -/
def readCpuList (text : List Char) : Option Bitmask :=
  if text = [] then some ∅
  else ((text.splitOn ',').mapM readEntry).map (·.foldr (· ∪ ·) ∅)

theorem read_digits (number : Nat) : readNumber (Nat.toDigits 10 number) = some number := by
  have digits : (Nat.toDigits 10 number).all Char.isDigit = true :=
    List.all_eq_true.mpr fun _ member =>
      Nat.isDigit_of_mem_toDigits (by decide) (by decide) member
  rw [readNumber, if_pos ⟨Nat.toDigits_ne_nil, digits⟩, Nat.ofDigitChars_ten_toDigits]

theorem not_mem_digits {c : Char} (other : c.isDigit = false) (number : Nat) :
    c ∉ Nat.toDigits 10 number := by
  intro member
  have digit := Nat.isDigit_of_mem_toDigits (by decide) (by decide) member
  rw [other] at digit
  cases digit

theorem read_entry (run : Nat × Nat) :
    readEntry (entry run) = some (Finset.Icc run.1 run.2) := by
  have dash : ∀ number, '-' ∉ Nat.toDigits 10 number := not_mem_digits (by decide)
  by_cases single : run.1 = run.2
  · have alone : (Nat.toDigits 10 run.1).splitOn '-' = [Nat.toDigits 10 run.1] := by
      have none : ∀ part ∈ [Nat.toDigits 10 run.1], '-' ∉ part := by simpa using dash run.1
      simpa using List.splitOn_intercalate '-' none (by simp)
    rw [readEntry, entry, if_pos single, List.append_nil, alone]
    simp [read_digits, single]
  · have both : (Nat.toDigits 10 run.1 ++ '-' :: Nat.toDigits 10 run.2).splitOn '-' =
        [Nat.toDigits 10 run.1, Nat.toDigits 10 run.2] := by
      have none : ∀ part ∈ [Nat.toDigits 10 run.1, Nat.toDigits 10 run.2], '-' ∉ part := by
        simpa using ⟨dash run.1, dash run.2⟩
      simpa using List.splitOn_intercalate '-' none (by simp)
    rw [readEntry, entry, if_neg single, both]
    simp [read_digits]

theorem comma_not_mem_entry (run : Nat × Nat) : ',' ∉ entry run := by
  have comma : ∀ number, ',' ∉ Nat.toDigits 10 number := not_mem_digits (by decide)
  rw [entry, List.mem_append]
  split_ifs
  · simp [comma]
  · simp [comma]

theorem read_entries (runs : List (Nat × Nat)) :
    (runs.map entry).mapM readEntry = some (runs.map fun run => Finset.Icc run.1 run.2) := by
  induction runs with
  | nil => rfl
  | cons run rest ih =>
      rw [List.map_cons, List.mapM_cons, read_entry, ih]
      rfl

theorem mem_union (runs : List (Nat × Nat)) (number : Nat) :
    number ∈ (runs.map fun run => Finset.Icc run.1 run.2).foldr (· ∪ ·) ∅ ↔
      Covers runs number := by
  induction runs with
  | nil => simp [Covers]
  | cons run rest ih =>
      rw [List.map_cons, List.foldr_cons, Finset.mem_union, ih, Finset.mem_Icc]
      simp [Covers]

/-- What is read back is what the runs of the list cover. -/
theorem read_text (runs : List (Nat × Nat)) :
    ∃ mask, readCpuList (text runs) = some mask ∧ ∀ number, number ∈ mask ↔ Covers runs number := by
  by_cases empty : runs = []
  · subst empty
    exact ⟨∅, rfl, by simp [Covers]⟩
  · have split : (text runs).splitOn ',' = runs.map entry := by
      refine List.splitOn_intercalate ',' ?_ (by simpa using empty)
      intro written member
      obtain ⟨run, -, rfl⟩ := List.mem_map.mp member
      exact comma_not_mem_entry run
    refine ⟨_, ?_, mem_union runs⟩
    rw [readCpuList, if_neg (by simpa [text_empty_iff] using empty), split, read_entries]
    rfl

end Read

section Write
variable (mask : Bitmask)

/-- The runs of the mask below a position. -/
abbrev maskScan (position : Nat) : Scan := scan (fun cpu => decide (cpu ∈ mask)) position

/-- What the list shows of the mask below a position. -/
def listed (position : Nat) : List (Nat × Nat) := (maskScan mask position).listed

/-- The CPU list of the mask: every range that is closed inside it, and the start
of the last one. -/
def listText (bits : Nat) : List Char := text (listed mask bits)

/-- Numbers the list is made of. -/
def pieces (runs : List (Nat × Nat)) : Nat := (runs.map fun run => if run.1 = run.2 then 1 else 2).sum

/-- Space the counter of `parse_bitmask` gives away for this many numbers. -/
def spent (count : Nat) : Nat := if count = 0 then 1 else 3 * count

/-- Loop state of `parse_bitmask` at a position. -/
def shown (len : UInt64) (position : Nat) : Ranges where
  str := text (listed mask position)
  len := len - UInt64.ofNat (spent (pieces (listed mask position)))
  firstFound := (maskScan mask position).opened.elim (-1) fun run => run.1
  lastFound := (maskScan mask position).opened.elim (-1) fun run => run.2

theorem pieces_zero_iff (runs : List (Nat × Nat)) : pieces runs = 0 ↔ runs = [] := by
  cases runs with
  | nil => simp [pieces]
  | cons run rest =>
      simp only [pieces, List.map_cons, List.sum_cons, reduceCtorEq, iff_false]
      split_ifs <;> omega

theorem mask_scan_member {position : Nat} (member : position ∈ mask) :
    maskScan mask (position + 1) = { maskScan mask position with
      opened := some ((maskScan mask position).opened.elim (position, position) fun run =>
        (run.1, run.2 + 1)) } :=
  scan_member (decide_eq_true member)

theorem mask_scan_gap {position : Nat} (gap : position ∉ mask) :
    maskScan mask (position + 1) =
      { closed := (maskScan mask position).closed ++ (maskScan mask position).opened.toList } :=
  scan_gap (decide_eq_false gap)

theorem pieces_start (runs : List (Nat × Nat)) (first : Nat) :
    pieces (runs ++ [(first, first)]) = pieces runs + 1 := by
  simp [pieces]

theorem pieces_stop (front : List (Nat × Nat)) {first last : Nat} (apart : first ≠ last) :
    pieces (front ++ [(first, last)]) = pieces (front ++ [(first, first)]) + 1 := by
  simp [pieces, apart]

theorem text_stop (front : List (Nat × Nat)) {first last : Nat} (apart : first ≠ last) :
    text (front ++ [(first, last)]) =
      text (front ++ [(first, first)]) ++ '-' :: Nat.toDigits 10 last := by
  have ended : entry (first, last) = entry (first, first) ++ '-' :: Nat.toDigits 10 last := by
    simp [entry, apart]
  rw [text_append, text_append, ended]
  split_ifs
  · rfl
  · simp

/-- The list grows by a first number, by the end of its last range, or stays. -/
theorem listed_step (position : Nat) :
    listed mask (position + 1) = listed mask position ++ [(position, position)] ∨
      (∃ front first last, first ≠ last ∧ listed mask position = front ++ [(first, first)] ∧
        listed mask (position + 1) = front ++ [(first, last)]) ∨
      listed mask (position + 1) = listed mask position := by
  by_cases member : position ∈ mask
  · have next := mask_scan_member mask member
    cases before : (maskScan mask position).opened with
    | none => exact .inl (by simp [listed, Scan.listed, next, before])
    | some run => exact .inr (.inr (by simp [listed, Scan.listed, next, before]))
  · have next := mask_scan_gap mask member
    cases before : (maskScan mask position).opened with
    | none => exact .inr (.inr (by simp [listed, Scan.listed, next, before]))
    | some run =>
        by_cases single : run.1 = run.2
        · refine .inr (.inr ?_)
          simp [listed, Scan.listed, next, before, single, Prod.ext_iff]
        · exact .inr (.inl ⟨(maskScan mask position).closed, run.1, run.2, single,
            by simp [listed, Scan.listed, before], by simp [listed, Scan.listed, next, before]⟩)

variable {mask}

theorem pieces_step (position : Nat) :
    pieces (listed mask (position + 1)) ≤ pieces (listed mask position) + 1 := by
  rcases listed_step mask position with start | ⟨front, first, last, apart, old, new⟩ | same
  · exact le_of_eq (by rw [start, pieces_start])
  · exact le_of_eq (by rw [old, new, pieces_stop front apart])
  · rw [same]
    exact Nat.le_succ _

/-- Every number after the first takes three bytes off the counter. -/
theorem space_next (len : UInt64) {count : Nat} (later : count ≠ 0) :
    len - UInt64.ofNat (spent count) - 3 = len - UInt64.ofNat (spent (count + 1)) := by
  rw [spent, spent, if_neg later, if_neg (Nat.succ_ne_zero count), Nat.mul_add, UInt64.ofNat_add]
  grind

theorem parse_bit_start {len : UInt64} {position : Nat}
    (room : (shown mask len position).len ≠ 0) (member : position ∈ mask)
    (before : (maskScan mask position).opened = none) :
    parseBit mask (shown mask len position) position = some (shown mask len (position + 1)) := by
  have next := mask_scan_member mask member
  have grown : listed mask (position + 1) = listed mask position ++ [(position, position)] := by
    simp [listed, Scan.listed, next, before]
  have first : (shown mask len position).firstFound < 0 := by simp [shown, before]
  rw [parseBit, if_neg room, if_pos member, if_pos first]
  by_cases empty : listed mask position = []
  · have space : len - 1 - 2 = len - 3 := by grind
    simpa [shown, grown, next, before, empty, text, pieces, spent, entry, decimal] using space
  · have written : text (listed mask position) ≠ [] := by rwa [ne_eq, text_empty_iff]
    have later : pieces (listed mask position) ≠ 0 := by rwa [ne_eq, pieces_zero_iff]
    have space : ∀ left : UInt64, left - 2 - 1 = left - 3 := by grind
    simp only [shown, grown, next, before, text_append, if_neg empty, List.isEmpty_iff, if_neg written,
      pieces_start, ← space_next len later, space]
    simp [entry, decimal]

theorem parse_bit_stop {len : UInt64} {position : Nat}
    (room : (shown mask len position).len ≠ 0) (gap : position ∉ mask) {run : Nat × Nat}
    (before : (maskScan mask position).opened = some run) :
    parseBit mask (shown mask len position) position = some (shown mask len (position + 1)) := by
  have next := mask_scan_gap mask gap
  have old : listed mask position = (maskScan mask position).closed ++ [(run.1, run.1)] := by
    simp [listed, Scan.listed, before]
  have new : listed mask (position + 1) = (maskScan mask position).closed ++ [(run.1, run.2)] := by
    simp [listed, Scan.listed, next, before]
  have first : (shown mask len position).firstFound = run.1 := by simp [shown, before]
  have last : (shown mask len position).lastFound = run.2 := by simp [shown, before]
  rw [parseBit, if_neg room, if_neg gap, last, first]
  by_cases single : run.1 = run.2
  · rw [if_neg (by simp [single])]
    simp [shown, old, new, next, single]
  · have later : pieces (listed mask position) ≠ 0 := by simp [old, pieces_zero_iff]
    rw [if_pos (by simpa using Ne.symm single)]
    simp only [shown, old, new, next, text_stop _ single, pieces_stop _ single] at later ⊢
    rw [space_next len later]
    simp [decimal]

theorem parse_bit_shown {len : UInt64} {position : Nat}
    (room : (shown mask len position).len ≠ 0) :
    parseBit mask (shown mask len position) position = some (shown mask len (position + 1)) := by
  by_cases member : position ∈ mask
  · cases before : (maskScan mask position).opened with
    | none => exact parse_bit_start room member before
    | some run =>
        have next := mask_scan_member mask member
        have same : listed mask (position + 1) = listed mask position := by
          simp [listed, Scan.listed, next, before]
        rw [parseBit, if_neg room, if_pos member]
        simp [shown, same, next, before]
  · cases before : (maskScan mask position).opened with
    | none =>
        have next := mask_scan_gap mask member
        have same : listed mask (position + 1) = listed mask position := by
          simp [listed, Scan.listed, next, before]
        rw [parseBit, if_neg room, if_neg member]
        simp [shown, same, next, before]
    | some run => exact parse_bit_stop room member before

theorem parse_loop_succ (bits : Nat) (len : UInt64) :
    parseLoop (bits + 1) mask len =
      (parseLoop bits mask len).bind fun ranges => (parseBit mask ranges bits).elim (.error ranges) .ok := by
  rw [parseLoop, List.range_succ, List.foldlM_append]
  change (parseLoop bits mask len).bind _ = _
  congr 1
  funext ranges
  simp

/-- The loop runs to its end, or up to the first position where no space is left. -/
theorem parse_loop_cases (mask : Bitmask) (bits : Nat) (len : UInt64) :
    (parseLoop bits mask len = .ok (shown mask len bits) ∧
      ∀ position < bits, (shown mask len position).len ≠ 0) ∨
    ∃ position < bits, parseLoop bits mask len = .error (shown mask len position) ∧
      (shown mask len position).len = 0 := by
  induction bits with
  | zero => exact .inl ⟨rfl, by simp⟩
  | succ bits ih =>
      rw [parse_loop_succ]
      rcases ih with ⟨done, room⟩ | ⟨position, below, stopped, full⟩
      · rw [done]
        by_cases full : (shown mask len bits).len = 0
        · refine .inr ⟨bits, Nat.lt_succ_self bits, ?_, full⟩
          simp [Except.bind, parseBit, full]
        · refine .inl ⟨by simp [Except.bind, parse_bit_shown full], fun position below => ?_⟩
          rcases Nat.lt_succ_iff_lt_or_eq.mp below with earlier | rfl
          · exact room position earlier
          · exact full
      · exact .inr ⟨position, Nat.lt_succ_of_lt below, by simp [Except.bind, stopped], full⟩

end Write

section Space
variable {mask : Bitmask}

theorem pieces_le (position : Nat) : pieces (listed mask position) ≤ position := by
  induction position with
  | zero => exact Nat.le_refl 0
  | succ position ih => exact (pieces_step position).trans (Nat.succ_le_succ ih)

/-- The list has every number of pieces on its way. -/
theorem pieces_reach {bits count : Nat} (reached : count ≤ pieces (listed mask bits)) :
    ∃ position ≤ bits, pieces (listed mask position) = count := by
  induction bits with
  | zero =>
      exact ⟨0, Nat.le_refl 0, Nat.le_antisymm ((pieces_le 0).trans (Nat.zero_le count)) reached⟩
  | succ bits ih =>
      by_cases earlier : count ≤ pieces (listed mask bits)
      · obtain ⟨position, below, same⟩ := ih earlier
        exact ⟨position, Nat.le_succ_of_le below, same⟩
      · have step : pieces (listed mask (bits + 1)) ≤ pieces (listed mask bits) + 1 := pieces_step bits
        exact ⟨bits + 1, Nat.le_refl _, by omega⟩

theorem shown_full_iff {len : UInt64} {position : Nat}
    (small : spent (pieces (listed mask position)) < UInt64.size) :
    (shown mask len position).len = 0 ↔ len.toNat = spent (pieces (listed mask position)) := by
  have back : (UInt64.ofNat (spent (pieces (listed mask position)))).toNat =
      spent (pieces (listed mask position)) := UInt64.toNat_ofNat_of_lt' small
  constructor
  · intro full
    have same : len = UInt64.ofNat (spent (pieces (listed mask position))) := by
      rw [shown] at full
      grind
    rw [same, back]
  · intro same
    have whole : UInt64.ofNat (spent (pieces (listed mask position))) = len := by
      rw [← UInt64.toNat_inj, back, same]
    rw [shown, whole]
    grind

theorem length_entry {run : Nat × Nat} (small : run.1 < 100 ∧ run.2 < 100) :
    (entry run).length + 1 ≤ 3 * if run.1 = run.2 then 1 else 2 := by
  have digits : ∀ number < 100, (Nat.toDigits 10 number).length ≤ 2 := fun number below =>
    (Nat.length_toDigits_le_iff (by decide) (by decide)).mpr (by simpa using below)
  have first := digits run.1 small.1
  have last := digits run.2 small.2
  rw [entry, List.length_append]
  split_ifs
  · rw [List.length_nil]
    omega
  · rw [List.length_cons]
    omega

/-- Two-digit numbers need no more space than the counter gives away for them. -/
theorem length_text {runs : List (Nat × Nat)} (small : ∀ run ∈ runs, run.1 < 100 ∧ run.2 < 100) :
    (text runs).length + 1 ≤ spent (pieces runs) := by
  induction runs using List.reverseRecOn with
  | nil => exact Nat.le_refl 1
  | append_singleton runs run ih =>
      have last := length_entry (small run (by simp))
      have front := ih fun other member => small other (by simp [member])
      have more : pieces (runs ++ [run]) = pieces runs + if run.1 = run.2 then 1 else 2 := by
        simp [pieces]
      have some : pieces (runs ++ [run]) ≠ 0 := by simp [pieces_zero_iff]
      rw [text_append, spent, if_neg some, more]
      by_cases empty : runs = []
      · rw [if_pos empty]
        omega
      · have before : pieces runs ≠ 0 := by rwa [ne_eq, pieces_zero_iff]
        rw [spent, if_neg before] at front
        rw [if_neg empty, List.length_append, List.length_cons]
        omega

section Hundred
variable (hundred : ∀ cpu ∈ mask, cpu < 100)
include hundred

theorem listed_hundred {position : Nat} {run : Nat × Nat} (shows : run ∈ listed mask position) :
    run.1 < 100 ∧ run.2 < 100 := by
  have covered : ∀ number, Covers ((maskScan mask position).closed ++
      (maskScan mask position).opened.toList) number → number < 100 := by
    intro number covers
    exact hundred number (of_decide_eq_true ((scan_covers position number).mp covers).2)
  rcases List.mem_append.mp shows with closed | first
  · have forward := (closed_ends closed).1
    have within : run ∈ (maskScan mask position).closed ++ (maskScan mask position).opened.toList :=
      List.mem_append_left _ closed
    exact ⟨covered run.1 ⟨run, within, Nat.le_refl _, forward⟩,
      covered run.2 ⟨run, within, forward, Nat.le_refl _⟩⟩
  · obtain ⟨last, opened, rfl⟩ := List.mem_map.mp first
    have forward := (opened_ends (Option.mem_toList.mp opened)).1
    have below := covered last.1 ⟨last, List.mem_append_right _ opened, Nat.le_refl _, forward⟩
    exact ⟨below, below⟩

theorem pieces_hundred (position : Nat) : pieces (listed mask position) ≤ 101 := by
  induction position with
  | zero => exact (pieces_le 0).trans (by decide)
  | succ position ih =>
      by_cases below : position ≤ 100
      · exact (pieces_le (position + 1)).trans (by omega)
      · have beyond : ∀ cpu, 100 ≤ cpu → cpu ∉ mask := fun cpu above member =>
          absurd (hundred cpu member) (Nat.not_lt.mpr above)
        have opened : (maskScan mask position).opened = none := by
          obtain ⟨last, rfl⟩ : ∃ last, position = last + 1 := ⟨position - 1, by omega⟩
          have behind : (maskScan mask (last + 1)).opened.isSome = decide (last ∈ mask) :=
            opened_iff last
          simpa [beyond last (by omega)] using behind
        have next := mask_scan_gap mask (beyond position (by omega))
        have same : listed mask (position + 1) = listed mask position := by
          simp [listed, Scan.listed, next, opened]
        rwa [same]

theorem spent_hundred (position : Nat) :
    spent (pieces (listed mask position)) < UInt64.size := by
  have few := pieces_hundred hundred position
  rw [spent]
  split_ifs
  · decide
  · exact lt_of_le_of_lt (Nat.mul_le_mul_left 3 few) (by decide)

end Hundred

end Space

section Buffer

/-- What the buffer is promised: the text and its end fit, a list without room is
refused, and a list that is returned is whole. -/
structure StaysInBuffer (bits : Nat) (mask : Bitmask) (len : UInt64) : Prop where
  inside : (parseBuffer bits mask len).2.length + 1 ≤ len.toNat
  refused : len.toNat < (listText mask bits).length + 1 → (parseBuffer bits mask len).1 = -1
  whole : (parseBuffer bits mask len).1 = 0 → (parseBuffer bits mask len).2 = listText mask bits

theorem parse_buffer_cases (bits : Nat) (mask : Bitmask) {len : UInt64} (some : 0 < len) :
    (parseBuffer bits mask len = (0, listText mask bits) ∧
      ∀ position < bits, (shown mask len position).len ≠ 0) ∨
    ∃ position < bits, parseBuffer bits mask len = (-1, text (listed mask position)) ∧
      (shown mask len position).len = 0 := by
  have nonzero : len ≠ 0 := by grind
  rw [parseBuffer, if_neg nonzero]
  rcases parse_loop_cases mask bits len with ⟨done, room⟩ | ⟨position, below, stopped, full⟩
  · exact .inl ⟨by rw [done]; rfl, room⟩
  · exact .inr ⟨position, below, by rw [stopped]; rfl, full⟩

/-- Where the counter of the whole list is a multiple of three below its end, the
loop has met zero. -/
theorem fits_of_room {bits : Nat} {mask : Bitmask} (hundred : ∀ cpu ∈ mask, cpu < 100)
    {len : UInt64} (some : 0 < len) (room : ∀ position < bits, (shown mask len position).len ≠ 0)
    (aligned : len = 1 ∨ 3 ∣ len.toNat) : (listText mask bits).length + 1 ≤ len.toNat := by
  have short : (listText mask bits).length + 1 ≤ spent (pieces (listed mask bits)) :=
    length_text fun _ shows => listed_hundred hundred shows
  have apart : ∀ position < bits, len.toNat ≠ spent (pieces (listed mask position)) :=
    fun position below same =>
      room position below ((shown_full_iff (spent_hundred hundred position)).mpr same)
  rcases aligned with rfl | ⟨count, triple⟩
  · cases bits with
    | zero => exact Nat.le_refl 1
    | succ bits => exact absurd rfl (apart 0 (Nat.succ_pos bits))
  · have positive : 0 < len.toNat := some
    have later : count ≠ 0 := by omega
    by_contra overrun
    have more : count < pieces (listed mask bits) := by
      by_contra few
      rw [spent] at short
      split_ifs at short <;> omega
    obtain ⟨position, within, same⟩ := pieces_reach (Nat.le_of_lt more)
    have below : position < bits := by
      refine lt_of_le_of_ne within ?_
      rintro rfl
      omega
    exact apart position below (by rw [same, spent, if_neg later, triple])

-- The counter meets zero only if the length is a multiple of three, or is used up
-- by the final byte; otherwise it wraps and every further write passes the test.
theorem stays_in_buffer_iff (bits : Nat) (mask : Bitmask) (hundred : ∀ cpu ∈ mask, cpu < 100)
    (len : UInt64) (some : 0 < len) :
    StaysInBuffer bits mask len ↔
      len = 1 ∨ 3 ∣ len.toNat ∨ (listText mask bits).length + 1 ≤ len.toNat := by
  rcases parse_buffer_cases bits mask some with ⟨done, room⟩ | ⟨position, -, stopped, full⟩
  · constructor
    · intro stays
      have fits := stays.inside
      rw [done] at fits
      exact .inr (.inr fits)
    · intro condition
      have fits : (listText mask bits).length + 1 ≤ len.toNat := by
        rcases condition with one | triple | fits
        · exact fits_of_room hundred some room (.inl one)
        · exact fits_of_room hundred some room (.inr triple)
        · exact fits
      exact ⟨by rw [done]; exact fits, fun short => absurd fits (Nat.not_le.mpr short),
        fun _ => by rw [done]⟩
  · rw [shown_full_iff (spent_hundred hundred position)] at full
    have short : (text (listed mask position)).length + 1 ≤ len.toNat := by
      rw [full]
      exact length_text fun _ shows => listed_hundred hundred shows
    have aligned : len = 1 ∨ 3 ∣ len.toNat := by
      rw [spent] at full
      split_ifs at full
      · exact .inl (UInt64.toNat_inj.mp full)
      · exact .inr ⟨_, full⟩
    refine iff_of_true ⟨by rw [stopped]; exact short, fun _ => by rw [stopped], ?_⟩
      (aligned.imp_right .inl)
    rw [stopped]
    simp

theorem stays_in_buffer_sixty_four : StaysInBuffer 64 {0, 1, 2, 3, 8, 9, 10, 11} 64 :=
  (stays_in_buffer_iff 64 {0, 1, 2, 3, 8, 9, 10, 11} (by decide) 64 (by decide)).mpr
    (.inr (.inr (by decide +kernel)))

/-- Every second CPU of 64: 90 characters and their end in 64 bytes. -/
theorem alternate_cpus_overrun :
    (parseBuffer 64 ((Finset.range 32).image (2 * ·)) cpustrlen).1 = 0 ∧
      (parseBuffer 64 ((Finset.range 32).image (2 * ·)) cpustrlen).2.length + 1 = 91 ∧
      ¬ StaysInBuffer 64 ((Finset.range 32).image (2 * ·)) cpustrlen := by
  have length : (parseBuffer 64 ((Finset.range 32).image (2 * ·)) cpustrlen).2.length + 1 = 91 := by
    decide +kernel
  refine ⟨by decide +kernel, length, fun stays => ?_⟩
  have inside := stays.inside
  rw [length] at inside
  exact absurd inside (by decide)

/-- The list the buffer gets is read back as the mask. -/
def ReadsBack (bits : Nat) (mask : Bitmask) (len : UInt64) : Prop :=
  (parseBuffer bits mask len).1 = 0 ∧ readCpuList (parseBuffer bits mask len).2 = some mask

theorem read_list_iff {bits : Nat} {mask : Bitmask} (within : ∀ cpu ∈ mask, cpu < bits) :
    readCpuList (listText mask bits) = some mask ↔
      ∀ run, (maskScan mask bits).opened = some run → run.1 = run.2 := by
  obtain ⟨read, back, covers⟩ := read_text (listed mask bits)
  have members : ∀ cpu, cpu ∈ mask ↔ cpu < bits ∧ decide (cpu ∈ mask) = true := by
    intro cpu
    simpa using within cpu
  rw [listText, back, ← listed_covers_iff, Option.some.injEq, Finset.ext_iff]
  refine forall_congr' fun cpu => ?_
  rw [covers]
  exact iff_congr Iff.rfl (members cpu)

/-- The last range has its end in the list exactly if the two top CPUs are not
both in the mask. -/
theorem closed_at_end (mask : Bitmask) (number : Nat) :
    (∀ run, (maskScan mask (number + 2)).opened = some run → run.1 = run.2) ↔
      ¬ (number + 1 ∈ mask ∧ number ∈ mask) := by
  have behind : (maskScan mask (number + 2)).opened.isSome = decide (number + 1 ∈ mask) :=
    opened_iff (number + 1)
  cases opened : (maskScan mask (number + 2)).opened with
  | none =>
      have clear : number + 1 ∉ mask := by simpa [opened] using behind
      simp [clear]
  | some run =>
      have top : number + 1 ∈ mask := by simpa [opened] using behind
      have long : run.1 ≠ run.2 ↔ decide (number ∈ mask) = true := opened_long opened
      simp only [Option.some.injEq, forall_eq', top, true_and]
      rw [decide_eq_true_iff] at long
      rw [← long, not_not]

-- The flush of the last range waits for a clear bit behind it.
theorem reads_back_iff (words : Nat) (mask : Bitmask) (within : ∀ cpu ∈ mask, cpu < 64 * words)
    (len : UInt64)
    (room : max (3 * (64 * words)) (listText mask (64 * words)).length < len.toNat) :
    ReadsBack (64 * words) mask len ↔ ¬ (64 * words - 1 ∈ mask ∧ 64 * words - 2 ∈ mask) := by
  have positive : 0 < len := UInt64.lt_iff_toNat_lt.mpr (Nat.zero_lt_of_lt room)
  have done : parseBuffer (64 * words) mask len = (0, listText mask (64 * words)) := by
    rcases parse_buffer_cases (64 * words) mask positive with
      ⟨done, -⟩ | ⟨position, below, -, full⟩
    · exact done
    · have few : pieces (listed mask position) ≤ position := pieces_le position
      have less : spent (pieces (listed mask position)) < len.toNat := by
        rw [spent]
        split_ifs <;> omega
      rw [shown_full_iff (less.trans len.toNat_lt)] at full
      omega
  rw [ReadsBack, done]
  simp only [true_and]
  rw [read_list_iff within]
  cases words with
  | zero =>
      have empty : ∀ cpu, cpu ∉ mask := fun cpu member => absurd (within cpu member) (by omega)
      simp [maskScan, scan, empty]
  | succ words => exact closed_at_end mask (64 * words + 62)

theorem reads_back_single : ReadsBack (64 * 1) {0, 1, 63} 256 :=
  (reads_back_iff 1 {0, 1, 63} (by decide) 256 (by decide +kernel)).mpr (by decide)

/-- The last two CPUs of 64 are written as the first of them. -/
theorem top_pair_lost :
    parseBuffer 64 {62, 63} 256 = (0, ['6', '2']) ∧ readCpuList ['6', '2'] = some {62} ∧
      ¬ ReadsBack 64 {62, 63} 256 := by
  have written : parseBuffer 64 {62, 63} 256 = (0, ['6', '2']) := by decide +kernel
  have read : readCpuList ['6', '2'] = some {62} := by decide +kernel
  refine ⟨written, read, ?_⟩
  rintro ⟨-, back⟩
  rw [written, read] at back
  exact absurd back (by decide)

end Buffer

end Orchestrator.CpuList
