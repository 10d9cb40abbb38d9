import Mathlib.Combinatorics.Colex
import Orchestrator.Cstring
import Orchestrator.Orchdata

/-!
Hexadecimal masks of `kernutil.c`. The words are written from the top, so the
text is at every turn the number of the words passed, shifted by those to come.
-/

namespace Orchestrator.HexMask
open Orchdata Cstring

/-- Loop state of `parse_bitmask_hex`: the text, the remaining space and whether
a word was written. -/
structure HexText where
  str : List Char := []
  len : UInt64
  found : Bool := false

/-- The loop of `parse_bitmask_hex` over the words from the top, in a buffer of this
size. A text beyond the buffer is an invalid access. -/
def hexLoop (size : Nat) : List UInt64 → HexText → Except Stop (Int × List Char)
  | [], text => .ok (0, text.str)
  | word :: rest, text =>
      if 16 > text.len then .ok (-1, text.str)
      else if text.found || word != 0 then
        match strcat size text.str (printHex (if text.found then 16 else 0) word.toNat) with
        | none => .error .segv
        | some str => hexLoop size rest { str, len := text.len - 16, found := true }
      else hexLoop size rest text

/-- `parse_bitmask_hex` on the words `mask->maskp`: the return value and the text left. -/
def parseBitmaskHex (maskp : List UInt64) (len : UInt64) : Except Stop (Int × List Char) :=
  if len = 0 then .ok (-1, []) else hexLoop len.toNat maskp.reverse { len := len - 1 }

/-- `numa_bitmask_isbitset` word by word. -/
def setBits (maskp : List UInt64) : Bitmask :=
  (Finset.range (64 * maskp.length)).filter fun i =>
    (maskp.getD (i / 64) 0).toNat.testBit (i % 64) = true

/-- A number in hexadecimal without leading zeros, zero without a digit. -/
def hexadecimal (number : Nat) : List Char := if number = 0 then [] else Nat.toDigits 16 number

section Number

/-- The number whose words these are, lowest first. -/
def maskNumber (maskp : List UInt64) : Nat :=
  maskp.foldr (fun word upper => 2 ^ 64 * upper + word.toNat) 0

theorem test_bit_number (maskp : List UInt64) (i : Nat) :
    (maskNumber maskp).testBit i =
      decide (i < 64 * maskp.length ∧ (maskp.getD (i / 64) 0).toNat.testBit (i % 64) = true) := by
  induction maskp generalizing i with
  | nil => simp [maskNumber]
  | cons word rest ih =>
      change (2 ^ 64 * maskNumber rest + word.toNat).testBit i = _
      rw [Nat.testBit_two_pow_mul_add _ word.toNat_lt]
      split_ifs with low
      · rw [Nat.div_eq_of_lt low, Nat.mod_eq_of_lt low]
        simp
        omega
      · have above : i / 64 = (i - 64) / 64 + 1 := by omega
        have inside : i % 64 = (i - 64) % 64 := by omega
        rw [ih, above, inside, List.getD_cons_succ, List.length_cons]
        congr 2
        apply propext
        omega

/-- The words hold the sum of the powers of their set bits. -/
theorem sum_set_bits (maskp : List UInt64) : ∑ i ∈ setBits maskp, 2 ^ i = maskNumber maskp := by
  have same : setBits maskp = (maskNumber maskp).bitIndices.toFinset := by
    ext i
    simp [setBits, test_bit_number]
  rw [same, Finset.sum_toFinset_bitIndices_two_pow]

end Number

section Loop

/-- What the words so far leave: their number in text, and space for the rest. -/
structure Written (size : Nat) (upper : Nat) (text : HexText) : Prop where
  str : text.str = hexadecimal upper
  found : text.found = true ↔ upper ≠ 0
  room : text.str.length + text.len.toNat < size

theorem length_print_hex {width : Nat} (narrow : width ≤ 16) (word : UInt64) :
    (printHex width word.toNat).length ≤ 16 := by
  have digits : (Nat.toDigits 16 word.toNat).length ≤ 16 :=
    (Nat.length_toDigits_le_iff (by decide) (by decide)).mpr word.toNat_lt
  rw [printHex, List.length_leftpad]
  omega

/-- A word behind the number so far, in the width the loop gives it. -/
theorem hexadecimal_word {upper : Nat} {found : Bool} (flag : found = true ↔ upper ≠ 0)
    {word : UInt64} (written : (found || word != 0) = true) :
    hexadecimal (2 ^ 64 * upper + word.toNat) =
      hexadecimal upper ++ printHex (if found then 16 else 0) word.toNat := by
  cases found with
  | true =>
      have nonzero : upper ≠ 0 := flag.mp rfl
      have padded := to_digits_padded (by decide : 1 < 16) 15
        (Nat.pos_of_ne_zero nonzero) word.toNat_lt
      have sum : 2 ^ 64 * upper + word.toNat ≠ 0 := by omega
      rw [hexadecimal, if_neg sum, hexadecimal, if_neg nonzero, Nat.mul_comm]
      exact padded
  | false =>
      have zero : upper = 0 := by simpa using flag
      have nonzero : word.toNat ≠ 0 := by
        intro none
        have skipped : word = 0 := UInt64.toNat_inj.mp none
        simp [skipped] at written
      simp [zero, hexadecimal, nonzero, printHex, List.leftpad]

theorem nonzero_word {upper : Nat} {found : Bool} (flag : found = true ↔ upper ≠ 0)
    {word : UInt64} (written : (found || word != 0) = true) : 2 ^ 64 * upper + word.toNat ≠ 0 := by
  intro zero
  have low : upper = 0 ∧ word.toNat = 0 := by omega
  have skipped : word = 0 := UInt64.toNat_inj.mp low.2
  have unset : found = false := by simpa [low.1] using flag
  simp [skipped, unset] at written

/-- One word written: there is room for its digits, and the number has grown by it. -/
theorem written_word {size upper : Nat} {text : HexText} (before : Written size upper text)
    (space : ¬ 16 > text.len) {word : UInt64} (written : (text.found || word != 0) = true) :
    ∃ str, strcat size text.str (printHex (if text.found then 16 else 0) word.toNat) = some str ∧
      Written size (2 ^ 64 * upper + word.toNat) { str, len := text.len - 16, found := true } := by
  have digits : (printHex (if text.found then 16 else 0) word.toNat).length ≤ 16 :=
    length_print_hex (by split_ifs <;> decide) word
  have sixteen : (16 : UInt64) ≤ text.len := UInt64.not_lt.mp space
  have enough : 16 ≤ text.len.toNat := UInt64.le_iff_toNat_le.mp sixteen
  have less : (text.len - 16).toNat = text.len.toNat - 16 := UInt64.toNat_sub_of_le _ _ sixteen
  have room := before.room
  refine ⟨_, if_pos ?_, ?_, ?_, ?_⟩
  · rw [List.length_append]
    omega
  · rw [hexadecimal_word before.found written, before.str]
  · simpa using nonzero_word before.found written
  · dsimp only
    rw [less, List.length_append]
    omega

/-- The loop from any word on; a skipped word is a leading zero. -/
theorem hex_loop_written (size : Nat) (words : List UInt64) (upper : Nat) (text : HexText)
    (before : Written size upper text) :
    ∃ ret str, hexLoop size words text = .ok (ret, str) ∧ str.length < size ∧
      (ret = 0 → str =
        hexadecimal (words.foldl (fun upper word => 2 ^ 64 * upper + word.toNat) upper)) := by
  induction words generalizing upper text with
  | nil => exact ⟨0, text.str, rfl, by have := before.room; omega, fun _ => before.str⟩
  | cons word rest ih =>
      rw [hexLoop]
      by_cases small : 16 > text.len
      · rw [if_pos small]
        have := before.room
        exact ⟨-1, text.str, rfl, by omega, fun done => absurd done (by decide)⟩
      rw [if_neg small]
      by_cases written : (text.found || word != 0) = true
      · obtain ⟨str, fits, after⟩ := written_word before small written
        rw [if_pos written, fits]
        exact ih _ _ after
      · have skipped : text.found = false ∧ word = 0 := by simpa using written
        have zero : upper = 0 := by simpa [skipped.1] using before.found
        have same : 2 ^ 64 * upper + word.toNat = upper := by simp [zero, skipped.2]
        rw [if_neg written, List.foldl_cons, same]
        exact ih upper text before

end Loop

/-- Every write stays in the buffer, and a returned 0 comes with the number of the mask. -/
theorem parse_bitmask_hex_exact (maskp : List UInt64) (len : UInt64) (room : 1 ≤ len) :
    ∃ ret str, parseBitmaskHex maskp len = .ok (ret, str) ∧ str.length < len.toNat ∧
      (ret = 0 → str = hexadecimal (∑ i ∈ setBits maskp, 2 ^ i)) := by
  have one : 1 ≤ len.toNat := UInt64.le_iff_toNat_le.mp room
  have nonzero : len ≠ 0 := by
    rintro rfl
    exact absurd one (by decide)
  have less : (len - 1).toNat = len.toNat - 1 := UInt64.toNat_sub_of_le _ _ room
  have start : Written len.toNat 0 { len := len - 1 } := by
    refine ⟨rfl, by simp, ?_⟩
    dsimp only
    rw [less, List.length_nil]
    omega
  rw [parseBitmaskHex, if_neg nonzero, sum_set_bits]
  have whole : maskp.reverse.foldl (fun upper word => 2 ^ 64 * upper + word.toNat) 0 =
      maskNumber maskp := by
    rw [List.foldl_reverse]
    rfl
  rw [← whole]
  exact hex_loop_written _ _ _ _ start

/-- Three words, one of them zero inside, in the smallest buffer that takes them. -/
theorem parse_bitmask_hex_three :
    ∃ ret str, parseBitmaskHex [1, 0, 16] 49 = .ok (ret, str) ∧ str.length < (49 : UInt64).toNat ∧
      (ret = 0 → str = hexadecimal (∑ i ∈ setBits [1, 0, 16], 2 ^ i)) :=
  parse_bitmask_hex_exact [1, 0, 16] 49 (by decide)

example : parseBitmaskHex [0x1f, 0, 0xa0, 0] 128 =
    .ok (0, "a00000000000000000000000000000001f".toList) := by
  decide +kernel

end Orchestrator.HexMask
