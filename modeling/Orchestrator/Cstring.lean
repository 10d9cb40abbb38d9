import Mathlib.Data.List.GetD
import Mathlib.Data.List.TakeWhile
import Mathlib.Tactic.Ring

/-!
C strings in a byte buffer: the functions of the C library the readers use, on
lists of bytes. A text ends at its first `NUL`.
-/

namespace Orchestrator.Cstring

def nul : Char := Char.ofNat 0

/-- `strlen(buf + start)`. -/
def strlen (buf : List Char) (start : Nat) : Nat :=
  ((buf.drop start).takeWhile (· != nul)).length

/-- A byte of a token: neither a newline nor the end of the text. -/
def inToken (c : Char) : Bool := c != '\n' && c != nul

/-- `strtok_r(_, "\n", &pid_ptr)` from `start` on: the position of the token, the
new `pid_ptr`, and the buffer with the newline after the token replaced. -/
def strtokR (buf : List Char) (start : Nat) : Option Nat × Nat × List Char :=
  let pid := start + ((buf.drop start).takeWhile (· == '\n')).length
  if buf.getD pid nul == nul then (none, pid, buf)
  else
    let stop := pid + ((buf.drop pid).takeWhile inToken).length
    if buf.getD stop nul == nul then (some pid, stop, buf)
    else (some pid, stop + 1, buf.set stop nul)

def isspace (c : Char) : Bool := c == ' ' || (9 ≤ c.toNat && c.toNat ≤ 13)

/-- Value of the digits a text starts with. -/
def digitsValue (text : List Char) : Nat := Nat.ofDigitChars 10 (text.takeWhile Char.isDigit) 0

/-- `atoi`, for numbers an `int` can hold. -/
def atoi (text : List Char) : Int :=
  match text.dropWhile isspace with
  | '-' :: digits => -(digitsValue digits : Int)
  | '+' :: digits => digitsValue digits
  | digits => digitsValue digits

/-- `sprintf(_, "%0*lx", width, number)`. -/
def printHex (width number : Nat) : List Char := (Nat.toDigits 16 number).leftpad width '0'

/-- `strcat` into a buffer of this size; `none` where the `NUL` is beyond its end. -/
def strcat (size : Nat) (dest src : List Char) : Option (List Char) :=
  if (dest ++ src).length < size then some (dest ++ src) else none

/-- `memcpy(buf, buf + start, size)`. -/
def memcpyFront (buf : List Char) (start size : Nat) : List Char :=
  (buf.drop start).take size ++ buf.drop size

/-- `read(fd, buf + start, _)` that got these bytes, and the `NUL` after them. -/
def readInto (buf : List Char) (start : Nat) (got : List Char) : List Char :=
  (buf.take start ++ got ++ buf.drop (start + got.length)).set (start + got.length) nul

theorem read_into_eq {buf got : List Char} {start : Nat} (room : start + got.length < buf.length) :
    readInto buf start got =
      buf.take start ++ (got ++ nul :: buf.drop (start + got.length + 1)) := by
  have shorter : (buf.take start).length = start := by
    rw [List.length_take]
    omega
  have after : buf.drop (start + got.length) =
      buf[start + got.length] :: buf.drop (start + got.length + 1) :=
    List.drop_eq_getElem_cons room
  rw [readInto, List.append_assoc, List.set_append_right _ _ (by omega), shorter,
    Nat.add_sub_cancel_left, List.set_append_right _ _ le_rfl, Nat.sub_self, after,
    List.set_cons_zero]

theorem length_read_into {buf got : List Char} {start : Nat}
    (room : start + got.length < buf.length) : (readInto buf start got).length = buf.length := by
  rw [read_into_eq room]
  simp only [List.length_append, List.length_take, List.length_cons, List.length_drop]
  omega

theorem length_strtok (buf : List Char) (start : Nat) :
    (strtokR buf start).2.2.length = buf.length := by
  dsimp only [strtokR]
  split_ifs <;> simp

theorem length_memcpy_front {buf : List Char} {start size : Nat}
    (room : start + size ≤ buf.length) : (memcpyFront buf start size).length = buf.length := by
  simp only [memcpyFront, List.length_append, List.length_take, List.length_drop]
  omega

theorem memcpy_front_token {buf token more : List Char} {start size : Nat}
    (text : buf.drop start = token ++ nul :: more) (room : token.length < size) :
    ∃ rest, memcpyFront buf start size = token ++ nul :: rest := by
  refine ⟨more.take (size - token.length - 1) ++ buf.drop size, ?_⟩
  rw [memcpyFront, text, List.take_append, List.take_of_length_le (by omega),
    show size - token.length = size - token.length - 1 + 1 by omega, List.take_succ_cons,
    Nat.add_sub_cancel, List.append_assoc, List.cons_append]

section Decimal

/-- The line of a decimal number: its digits and a newline. -/
def line (number : Nat) : List Char := Nat.toDigits 10 number ++ ['\n']

def lines (numbers : List Nat) : List Char := numbers.flatMap line

/-- Number of digits. -/
def width (number : Nat) : Nat := (Nat.toDigits 10 number).length

theorem width_le_seven {number : Nat} (small : number < 10000000) : width number ≤ 7 :=
  (Nat.length_toDigits_le_iff (by decide) (by decide)).mpr (by simpa using small)

theorem lines_cons (number : Nat) (rest : List Nat) :
    lines (number :: rest) = Nat.toDigits 10 number ++ '\n' :: lines rest := by
  simp [lines, line]

theorem length_digits (number : Nat) : (Nat.toDigits 10 number).length = width number := rfl

theorem take_lines_whole {number size : Nat} (room : width number < size) (rest : List Nat) :
    (lines (number :: rest)).take size =
      Nat.toDigits 10 number ++ '\n' :: (lines rest).take (size - width number - 1) := by
  rw [lines_cons, List.take_append, List.take_of_length_le (by rw [length_digits]; omega),
    length_digits, show size - width number = size - width number - 1 + 1 by omega,
    List.take_succ_cons, Nat.add_sub_cancel]

theorem take_lines_part {number size : Nat} (short : size ≤ width number) (rest : List Nat) :
    (lines (number :: rest)).take size = (Nat.toDigits 10 number).take size := by
  rw [lines_cons, List.take_append_of_le_length short]

theorem lines_append (front rest : List Nat) : lines (front ++ rest) = lines front ++ lines rest :=
  List.flatMap_append

theorem length_lines_cons (number : Nat) (rest : List Nat) :
    (lines (number :: rest)).length = width number + 1 + (lines rest).length := by
  rw [lines_cons, List.length_append, List.length_cons, width]
  omega

theorem length_lines_replicate (times number : Nat) :
    (lines (List.replicate times number)).length = times * (width number + 1) := by
  induction times with
  | zero => simp [lines]
  | succ times ih =>
      rw [List.replicate_succ, length_lines_cons, ih, Nat.add_mul]
      omega

theorem digit_in_token {c : Char} (digit : c.isDigit = true) : inToken c = true := by
  have noNewline : c ≠ '\n' := by
    rintro rfl
    exact absurd digit (by decide)
  have noEnd : c ≠ nul := by
    rintro rfl
    exact absurd digit (by decide)
  simp [inToken, noNewline, noEnd]

theorem digits_in_token (number : Nat) : ∀ c ∈ Nat.toDigits 10 number, inToken c = true :=
  fun _ member => digit_in_token (Nat.isDigit_of_mem_toDigits (by decide) (by decide) member)

theorem digit_not_space {c : Char} (digit : c.isDigit = true) : isspace c = false := by
  have bounds : 48 ≤ c.toNat := by
    simp only [Char.isDigit, Bool.and_eq_true, decide_eq_true_eq] at digit
    exact UInt32.le_iff_toNat_le.mp digit.1
  have noBlank : c ≠ ' ' := by
    rintro rfl
    exact absurd digit (by decide)
  simp [isspace, noBlank]
  omega

theorem take_while_token {stops : Char → Bool} {token : List Char} {stop : Char}
    (inside : ∀ c ∈ token, stops c = true) (ends : stops stop = false) (rest : List Char) :
    (token ++ stop :: rest).takeWhile stops = token := by
  rw [List.takeWhile_append_of_pos inside, List.takeWhile_cons_of_neg (by simp [ends]),
    List.append_nil]

theorem atoi_digit_first {first : Char} (digit : first.isDigit = true) (tail : List Char) :
    atoi (first :: tail) = digitsValue (first :: tail) := by
  rw [atoi, List.dropWhile_cons_of_neg (by simp [digit_not_space digit])]
  split
  · rename_i same
    obtain ⟨rfl, -⟩ := List.cons.inj same
    exact absurd digit (by decide)
  · rename_i same
    obtain ⟨rfl, -⟩ := List.cons.inj same
    exact absurd digit (by decide)
  · rfl

theorem atoi_digits (number : Nat) (stop : Char) (ends : stop.isDigit = false)
    (rest : List Char) : atoi (Nat.toDigits 10 number ++ stop :: rest) = number := by
  have digits : ∀ c ∈ Nat.toDigits 10 number, c.isDigit = true :=
    fun _ member => Nat.isDigit_of_mem_toDigits (by decide) (by decide) member
  have value : digitsValue (Nat.toDigits 10 number ++ stop :: rest) = number := by
    rw [digitsValue, take_while_token digits ends, Nat.ofDigitChars_ten_toDigits]
  cases shape : Nat.toDigits 10 number with
  | nil => exact absurd shape Nat.toDigits_ne_nil
  | cons first tail =>
      rw [shape] at value
      rw [List.cons_append, atoi_digit_first (digits first (by simp [shape]))]
      exact_mod_cast value

theorem atoi_digits_alone (number : Nat) : atoi (Nat.toDigits 10 number) = number := by
  have digits : ∀ c ∈ Nat.toDigits 10 number, c.isDigit = true :=
    fun _ member => Nat.isDigit_of_mem_toDigits (by decide) (by decide) member
  have value : digitsValue (Nat.toDigits 10 number) = number := by
    rw [digitsValue, List.takeWhile_eq_self_iff.mpr digits, Nat.ofDigitChars_ten_toDigits]
  cases shape : Nat.toDigits 10 number with
  | nil => exact absurd shape Nat.toDigits_ne_nil
  | cons first tail =>
      rw [shape] at value
      rw [atoi_digit_first (digits first (by simp [shape]))]
      exact_mod_cast value

end Decimal

section Numerals

theorem leftpad_snoc (width : Nat) (pad last : Char) (front : List Char) :
    (front ++ [last]).leftpad (width + 1) pad = front.leftpad width pad ++ [last] := by
  simp [List.leftpad]

/-- A number of `width` low digits behind another number is written padded behind it. -/
theorem to_digits_padded {base : Nat} (large : 1 < base) (width : Nat) {high low : Nat}
    (positive : 0 < high) (below : low < base ^ (width + 1)) :
    Nat.toDigits base (high * base ^ (width + 1) + low) =
      Nat.toDigits base high ++ (Nat.toDigits base low).leftpad (width + 1) '0' := by
  induction width generalizing low with
  | zero =>
      rw [zero_add, pow_one] at below ⊢
      rw [Nat.mul_comm, ← Nat.toDigits_append_toDigits large positive below,
        Nat.toDigits_of_lt_base below]
      rfl
  | succ width ih =>
      have split : low = base * (low / base) + low % base := (Nat.div_add_mod low base).symm
      have lastDigit : low % base < base := Nat.mod_lt _ (by omega)
      have front : low / base < base ^ (width + 1) :=
        Nat.div_lt_of_lt_mul (by rwa [pow_succ, Nat.mul_comm] at below)
      have shifted : high * base ^ (width + 1 + 1) + low =
          base * (high * base ^ (width + 1) + low / base) + low % base := by
        calc high * base ^ (width + 1 + 1) + low
            = high * base ^ (width + 1 + 1) + (base * (low / base) + low % base) := by rw [← split]
          _ = base * (high * base ^ (width + 1) + low / base) + low % base := by ring
      have some : 0 < high * base ^ (width + 1) + low / base :=
        Nat.add_pos_left (Nat.mul_pos positive (Nat.pow_pos (by omega))) _
      rw [shifted, ← Nat.toDigits_append_toDigits large some lastDigit, ih front,
        Nat.toDigits_of_lt_base lastDigit, List.append_assoc, ← leftpad_snoc]
      by_cases single : low < base
      · have alone : low / base = 0 := Nat.div_eq_of_lt single
        rw [alone, Nat.toDigits_zero, Nat.mod_eq_of_lt single, Nat.toDigits_of_lt_base single]
        simp [List.leftpad, List.replicate_succ']
      · rw [← Nat.toDigits_of_lt_base lastDigit, Nat.toDigits_append_toDigits large
          (Nat.div_pos (not_lt.mp single) (by omega)) lastDigit, ← split]

end Numerals

section Tokens
variable {token : List Char}

theorem strtok_end (front rest : List Char) :
    strtokR (front ++ nul :: rest) front.length = (none, front.length, front ++ nul :: rest) := by
  have none_skipped : (nul :: rest).takeWhile (· == '\n') = [] := by
    rw [List.takeWhile_cons_of_neg (by decide)]
  simp [strtokR, none_skipped]

/-- Start and end of the token when the text from `front` on starts with it. -/
theorem strtok_token {stop : Char} (front rest : List Char)
    (inside : ∀ c ∈ token, inToken c = true) (nonempty : token ≠ [])
    (ends : inToken stop = false) :
    strtokR (front ++ (token ++ stop :: rest)) front.length =
      if stop == nul then
        (some front.length, front.length + token.length, front ++ (token ++ stop :: rest))
      else
        (some front.length, front.length + token.length + 1,
          front ++ (token ++ nul :: rest)) := by
  have whole : (token ++ stop :: rest).takeWhile inToken = token := take_while_token inside ends rest
  obtain ⟨first, tail, rfl⟩ := List.exists_cons_of_ne_nil nonempty
  have start : inToken first = true := inside first (by simp)
  simp only [inToken, Bool.and_eq_true, bne_iff_ne, ne_eq] at start
  have none_skipped :
      (first :: tail ++ stop :: rest).takeWhile (· == '\n') = [] := by
    rw [List.cons_append, List.takeWhile_cons_of_neg (by simp [start.1])]
  have atStop : (front ++ (first :: tail ++ stop :: rest)).getD
      (front.length + (first :: tail).length) nul = stop := by
    rw [← List.append_assoc, ← List.length_append, List.getD_append_right _ _ _ _ le_rfl]
    simp
  have replaced : (front ++ (first :: tail ++ stop :: rest)).set
      (front.length + (first :: tail).length) nul = front ++ (first :: tail ++ nul :: rest) := by
    rw [← List.append_assoc, ← List.length_append, List.set_append_right _ _ le_rfl]
    simp
  have atStart : (front ++ (first :: tail ++ stop :: rest)).getD front.length nul = first := by
    simp
  have notEnd : (first == nul) = false := by simp [start.2]
  simp only [strtokR, List.drop_left, none_skipped, List.length_nil, Nat.add_zero, atStart, notEnd,
    whole, atStop, replaced, Bool.false_eq_true, if_false]

theorem strlen_token (front rest : List Char) (inside : ∀ c ∈ token, inToken c = true) :
    strlen (front ++ (token ++ nul :: rest)) front.length = token.length := by
  have plain : ∀ c ∈ token, (c != nul) = true := by
    intro c member
    have both := inside c member
    simp only [inToken, Bool.and_eq_true] at both
    exact both.2
  rw [strlen, List.drop_left, take_while_token plain (by simp)]

theorem nul_ends : inToken nul = false := by decide

end Tokens

end Orchestrator.Cstring
