import Orchestrator.ContPids
import Mathlib.Tactic.Common

/-!
Which task files the chunked reader reads right: the lines of its windows, what
a window leaves to the next one, and the run over a file.
-/

namespace Orchestrator.TaskFile
open Orchdata Cstring ContPids

/-- No line break of the rest of a file falls where a window cannot be cut: the
rest starts `off` bytes into a window, and lines that start in its last six
bytes are left to the next one. -/
def Aligned : Nat → List Nat → Prop
  | _, [] => True
  | off, pid :: rest =>
      if 6 < bufrd - 1 - off then
        -- processed with this window, newline included
        off + width pid + 1 ≤ bufrd - 1 ∧ Aligned (off + width pid + 1) rest
      -- left to the next window; its newline must not lie in this one
      else bufrd - 1 ≤ off + width pid ∧ Aligned (width pid + 1) rest

instance decidableAligned : ∀ off pids, Decidable (Aligned off pids)
  | _, [] => .isTrue trivial
  | off, pid :: rest =>
      have := decidableAligned (off + width pid + 1) rest
      have := decidableAligned (width pid + 1) rest
      inferInstanceAs (Decidable (if 6 < bufrd - 1 - off then
        off + width pid + 1 ≤ bufrd - 1 ∧ Aligned (off + width pid + 1) rest
      else bufrd - 1 ≤ off + width pid ∧ Aligned (width pid + 1) rest))

/-- The list after a push of each of the PIDs. -/
def pushes (pids : List Nat) (old : List Int) : List Int :=
  (pids.map Int.ofNat).reverse ++ old

@[simp] theorem pushes_nil (old : List Int) : pushes [] old = old := rfl

theorem pushes_cons (pid : Nat) (rest : List Nat) (old : List Int) :
    pushes (pid :: rest) old = pushes rest ((pid : Int) :: old) := by
  simp [pushes]

theorem pushes_append (front rest : List Nat) (old : List Int) :
    pushes (front ++ rest) old = pushes rest (pushes front old) := by
  simp [pushes]

theorem aligned_carried {off pid : Nat} {rest : List Nat} (late : ¬6 < bufrd - 1 - off)
    (outside : bufrd - 1 ≤ off + width pid) (small : width pid ≤ 7) :
    Aligned off (pid :: rest) ↔ Aligned 0 (pid :: rest) := by
  have fits : 0 + width pid + 1 ≤ bufrd - 1 := by
    rw [bufrd]
    omega
  simp only [Aligned, if_neg late, outside, fits, true_and]
  rw [if_pos (by decide), Nat.zero_add]

/-- The token loop at position `front.length` of a window that began with the
first line of `done ++ rest`. -/
structure Within (old : List Int) (done rest : List Nat) (front behind : List Char)
    (reader : Reader) : Prop where
  place : front.length = (lines done).length
  inside : front.length ≤ bufrd - 1
  text : reader.buf =
    front ++ ((lines rest).take (bufrd - 1 - front.length) ++ nul :: behind)
  nleft : reader.nleft = ((lines rest).take (bufrd - 1 - front.length)).length
  pids : reader.pids = pushes done old
  aligned : Aligned 0 (done ++ rest) ↔ Aligned front.length rest

/-- What the token loop leaves of a window that began with the first line of `pids`. -/
inductive Outcome (old : List Int) (pids : List Nat) (reader : Reader) : Option Nat → Prop
  /-- Nothing is left, the rest of the file begins with a line. -/
  | flush (done rest : List Nat) (split : pids = done ++ rest) (nleft : reader.nleft = 0)
      (file : (lines pids).drop (bufrd - 1) = lines rest)
      (pushed : reader.pids = pushes done old)
      (aligned : Aligned 0 pids ↔ Aligned 0 rest) : Outcome old pids reader none
  /-- Digits of a line the window cuts are left. -/
  | carry (done : List Nat) (pid : Nat) (rest : List Nat) (off : Nat)
      (split : pids = done ++ pid :: rest) (inside : off < bufrd - 1)
      (late : ¬6 < bufrd - 1 - off) (outside : bufrd - 1 ≤ off + width pid)
      (nleft : reader.nleft = (bufrd - 1 - off : Nat))
      (text : (reader.buf.drop off).take (bufrd - 1 - off) =
        (lines (pid :: rest)).take (bufrd - 1 - off))
      (file : (lines pids).drop (bufrd - 1) = (lines (pid :: rest)).drop (bufrd - 1 - off))
      (pushed : reader.pids = pushes done old)
      (aligned : Aligned 0 pids ↔ Aligned 0 (pid :: rest)) : Outcome old pids reader (some off)
  /-- A whole line is left, its newline is overwritten. -/
  | cut (done : List Nat) (pid : Nat) (rest : List Nat) (off : Nat) (more : List Char)
      (split : pids = done ++ pid :: rest)
      (late : ¬6 < bufrd - 1 - off) (room : off + width pid < bufrd - 1)
      (nleft : reader.nleft = ((lines (pid :: rest)).take (bufrd - 1 - off)).length)
      (text : reader.buf.drop off = Nat.toDigits 10 pid ++ nul :: more)
      (file : (lines pids).drop (bufrd - 1) = (lines (pid :: rest)).drop (bufrd - 1 - off))
      (pushed : reader.pids = pushes done old)
      (misaligned : ¬Aligned 0 pids) : Outcome old pids reader (some off)
  /-- A newline outside the window is counted as processed. -/
  | behind (nleft : reader.nleft < 0) (misaligned : ¬Aligned 0 pids) : Outcome old pids reader none

/-- What a window does not show of a file. -/
theorem drop_window {done rest : List Nat} {off : Nat} (place : off = (lines done).length)
    (inside : off ≤ bufrd - 1) :
    (lines (done ++ rest)).drop (bufrd - 1) = (lines rest).drop (bufrd - 1 - off) := by
  rw [lines_append, List.drop_append, List.drop_eq_nil_of_le (by omega), List.nil_append, place]

theorem Within.next {old : List Int} {done rest : List Nat} {pid : Nat} {front behind : List Char}
    {reader found : Reader} (within : Within old done (pid :: rest) front behind reader)
    (early : 6 < bufrd - 1 - front.length) (room : width pid < bufrd - 1 - front.length)
    (text : found.buf = front ++ (Nat.toDigits 10 pid ++
      nul :: ((lines rest).take (bufrd - 1 - front.length - width pid - 1) ++ nul :: behind)))
    (nleft : found.nleft = reader.nleft - (width pid + 1))
    (pids : found.pids = (pid : Int) :: reader.pids) :
    Within old (done ++ [pid]) rest (front ++ (Nat.toDigits 10 pid ++ [nul])) behind found where
  place := by
    rw [lines_append, List.length_append, List.length_append, List.length_append,
      length_lines_cons, within.place]
    rfl
  inside := by
    rw [List.length_append, List.length_append, length_digits, List.length_singleton]
    omega
  text := by
    rw [text, List.length_append, List.length_append, length_digits, List.length_singleton,
      show bufrd - 1 - (front.length + (width pid + 1)) =
        bufrd - 1 - front.length - width pid - 1 by omega]
    simp
  nleft := by
    rw [nleft, within.nleft, take_lines_whole room, List.length_append, List.length_append,
      List.length_append, length_digits, List.length_cons, List.length_singleton,
      show bufrd - 1 - (front.length + (width pid + 1)) =
        bufrd - 1 - front.length - width pid - 1 by omega]
    omega
  pids := by
    rw [pids, within.pids, pushes_append]
    rfl
  aligned := by
    have fits : front.length + width pid + 1 ≤ bufrd - 1 := by omega
    rw [List.append_assoc, List.singleton_append, within.aligned, List.length_append,
      List.length_append, length_digits, List.length_singleton, ← Nat.add_assoc]
    simp only [Aligned, if_pos early, fits, true_and]

section Windows
variable {cmdline : Int → Option (List Char)} {name : List Char} {old : List Int}
  {done rest : List Nat} {front behind : List Char} {reader : Reader} {pid : Nat}

/-- The window shows nothing more. -/
theorem resume_flush (turns : Nat) (within : Within old done rest front behind reader)
    (empty : (lines rest).take (bufrd - 1 - front.length) = [])
    (aligned : Aligned front.length rest ↔ Aligned 0 rest) :
    Outcome old (done ++ rest) (resume cmdline name turns reader front.length).1
      (resume cmdline name turns reader front.length).2 := by
  have token := strtok_end front behind
  have text := within.text
  rw [empty, List.nil_append] at text
  rw [← text] at token
  rw [resume_end turns token]
  refine .flush done rest rfl ?_ ?_ within.pids (within.aligned.trans aligned)
  · simpa [empty] using within.nleft
  · rw [drop_window within.place within.inside]
    conv_rhs => rw [← List.take_append_drop (bufrd - 1 - front.length) (lines rest), empty,
      List.nil_append]

/-- The newline of the next line lies in the window. -/
theorem token_whole (within : Within old done (pid :: rest) front behind reader)
    (room : width pid < bufrd - 1 - front.length) :
    strtokR reader.buf front.length = (some front.length, front.length + width pid + 1,
      front ++ (Nat.toDigits 10 pid ++
        nul :: ((lines rest).take (bufrd - 1 - front.length - width pid - 1) ++ nul :: behind))) := by
  rw [within.text, take_lines_whole room, List.append_assoc, List.cons_append,
    strtok_token _ _ (digits_in_token pid) Nat.toDigits_ne_nil (by decide)]
  rfl

theorem resume_cut (turns : Nat) (within : Within old done (pid :: rest) front behind reader)
    (room : width pid < bufrd - 1 - front.length) (late : ¬6 < bufrd - 1 - front.length) :
    Outcome old (done ++ pid :: rest) (resume cmdline name turns reader front.length).1
      (resume cmdline name turns reader front.length).2 := by
  rw [resume_stop turns (token_whole within room) late]
  refine .cut done pid rest front.length _ rfl late (by omega) within.nleft List.drop_left
    (drop_window within.place within.inside) within.pids ?_
  rw [within.aligned]
  simp only [Aligned, if_neg late]
  omega

/-- The next line ends behind the window. -/
theorem resume_short (turns : Nat) (within : Within old done (pid :: rest) front behind reader)
    (narrow : width pid ≤ 7) (space : 0 < bufrd - 1 - front.length)
    (short : bufrd - 1 - front.length ≤ width pid) (enough : bufrd ≤ turns + front.length) :
    Outcome old (done ++ pid :: rest) (resume cmdline name turns reader front.length).1
      (resume cmdline name turns reader front.length).2 := by
  have inside := within.inside
  have text := within.text
  have nleft := within.nleft
  rw [take_lines_part short] at text nleft
  have partly : ∀ c ∈ (Nat.toDigits 10 pid).take (bufrd - 1 - front.length),
      inToken c = true := fun c member => digits_in_token pid c (List.mem_of_mem_take member)
  have length : ((Nat.toDigits 10 pid).take (bufrd - 1 - front.length)).length =
      bufrd - 1 - front.length := by
    rw [List.length_take, length_digits]
    omega
  have token : strtokR reader.buf front.length = (some front.length, bufrd - 1,
      front ++ ((Nat.toDigits 10 pid).take (bufrd - 1 - front.length) ++ nul :: behind)) := by
    rw [text, strtok_token front behind partly (List.ne_nil_of_length_pos (by omega)) nul_ends,
      if_pos (by decide), length,
      show front.length + (bufrd - 1 - front.length) = bufrd - 1 by omega]
  by_cases early : 6 < bufrd - 1 - front.length
  · obtain ⟨turns, rfl⟩ : ∃ more, turns = more + 1 := ⟨turns - 1, by omega⟩
    obtain ⟨next, sameBuf, left, -, turn⟩ := resume_turn cmdline name turns
      partly token (by rw [nleft, length]; omega) early
    have atEnd := strtok_end (front ++ (Nat.toDigits 10 pid).take (bufrd - 1 - front.length))
      behind
    rw [List.append_assoc, ← sameBuf, List.length_append, length,
      show front.length + (bufrd - 1 - front.length) = bufrd - 1 by omega] at atEnd
    rw [turn, resume_end turns atEnd]
    -- the token is complete, and `strlen(pid)+1` counts a newline not yet read
    refine .behind ?_ ?_
    · dsimp only
      rw [left, nleft, length]
      omega
    · rw [within.aligned]
      simp only [Aligned, if_pos early]
      omega
  · rw [resume_stop turns token early]
    refine .carry done pid rest front.length rfl (by omega) early (by omega) ?_ ?_
      (drop_window within.place inside) within.pids
      (within.aligned.trans (aligned_carried early (by omega) narrow))
    · rw [nleft, length]
    · dsimp only
      rw [List.drop_left, List.take_append_of_le_length (by omega), take_lines_part short,
        List.take_take, Nat.min_self]

theorem resume_window (cmdline : Int → Option (List Char)) (name : List Char)
    (small : ∀ pid ∈ rest, width pid ≤ 7) (turns : Nat)
    (within : Within old done rest front behind reader)
    (enough : bufrd ≤ turns + front.length) :
    Outcome old (done ++ rest) (resume cmdline name turns reader front.length).1
      (resume cmdline name turns reader front.length).2 := by
  have inside := within.inside
  induction rest generalizing turns done front reader with
  | nil => exact resume_flush turns within List.take_nil (by simp [Aligned])
  | cons pid rest ih =>
      have narrow : width pid ≤ 7 := small pid (by simp)
      -- by the place of the next newline: behind a full window, inside of it, or outside
      rcases Nat.eq_zero_or_pos (bufrd - 1 - front.length) with full | space
      · refine resume_flush turns within (by rw [full, List.take_zero]) ?_
        exact aligned_carried (by omega) (by omega) narrow
      rcases Nat.lt_or_ge (width pid) (bufrd - 1 - front.length) with room | short
      · by_cases early : 6 < bufrd - 1 - front.length
        · obtain ⟨turns, rfl⟩ : ∃ more, turns = more + 1 := ⟨turns - 1, by omega⟩
          have pending : reader.nleft ≠ 0 := by
            rw [within.nleft, take_lines_whole room, List.length_append, List.length_cons]
            omega
          obtain ⟨next, sameBuf, left, pids, turn⟩ := resume_turn cmdline name turns
            (digits_in_token pid) (token_whole within room) pending early
          rw [atoi_digits pid nul (by decide)] at pids
          have following := within.next early room sameBuf left pids
          have further := ih (fun pid member => small pid (by simp [member])) turns following
            (by simp only [List.length_append, length_digits, List.length_singleton]; omega)
            following.inside
          rw [List.append_assoc, List.singleton_append, List.length_append, List.length_append,
            length_digits, List.length_singleton, ← Nat.add_assoc] at further
          rw [turn]
          exact further
        · exact resume_cut turns within room early
      · exact resume_short turns within narrow space short enough

end Windows

section Reads
variable {cmdline : Int → Option (List Char)} {name : List Char}

theorem pushes_injective {first second : List Nat} {old : List Int}
    (same : pushes first old = pushes second old) : first = second := by
  have reversed := List.append_cancel_right same
  rw [List.reverse_inj] at reversed
  exact List.map_injective_iff.mpr (fun _ _ => Int.ofNat.inj) reversed

/-- Before a read: what was kept and the rest of the file are the lines of `pids`. -/
structure Ready (pids : List Nat) (file : List Char) (reader : Reader) (kept : Nat) : Prop where
  nleft : reader.nleft = kept
  few : kept ≤ 6
  sized : reader.buf.length = bufrd
  text : reader.buf.take kept ++ file = lines pids
  cut : ∀ pid rest, pids = pid :: rest → kept ≤ width pid

theorem Ready.unread {pids : List Nat} {file : List Char} {reader : Reader} {kept : Nat}
    (ready : Ready pids file reader kept) (pending : pids ≠ []) : file ≠ [] := by
  rintro rfl
  obtain ⟨pid, rest, rfl⟩ := List.exists_cons_of_ne_nil pending
  have whole := congrArg List.length ready.text
  have cut := ready.cut pid rest rfl
  rw [length_lines_cons, List.append_nil, List.length_take] at whole
  omega

/-- The window a read completes. -/
theorem Ready.window {pids : List Nat} {file : List Char} {reader : Reader} {kept : Nat}
    (ready : Ready pids file reader kept) :
    ∃ behind, Within reader.pids [] pids [] behind
      (received reader (file.take (bufrd - kept - 1))) := by
  have room : kept + (file.take (bufrd - kept - 1)).length < bufrd := by
    have few := ready.few
    rw [List.length_take, bufrd]
    omega
  have shown : reader.buf.take kept ++ file.take (bufrd - kept - 1) =
      (lines pids).take (bufrd - 1) := by
    have length : (reader.buf.take kept).length = kept := by
      rw [List.length_take, ready.sized]
      omega
    have few := ready.few
    rw [← ready.text, List.take_append, length, List.take_take,
      show min (bufrd - 1) kept = kept by rw [bufrd]; omega,
      show bufrd - kept - 1 = bufrd - 1 - kept by omega]
  refine ⟨reader.buf.drop (kept + (file.take (bufrd - kept - 1)).length + 1), ?_⟩
  constructor
  · rfl
  · exact Nat.zero_le _
  · dsimp only [received]
    rw [ready.nleft, Int.toNat_natCast, read_into_eq (by rw [ready.sized]; exact room), List.nil_append,
      ← List.append_assoc, shown]
    rfl
  · have length := congrArg List.length shown
    rw [List.length_append, List.length_take, ready.sized] at length
    dsimp only [received]
    rw [ready.nleft, List.length_nil, Nat.sub_zero, ← length]
    omega
  · rfl
  · rfl

/-- The first line in the buffer ends in a `NUL`: windows stop there. -/
structure Stuck (pid : Nat) (reader : Reader) (kept : Nat) : Prop where
  nleft : reader.nleft = kept
  sized : reader.buf.length = bufrd
  text : ∃ more, reader.buf = Nat.toDigits 10 pid ++ nul :: more
  least : width pid < kept
  most : kept + width pid < bufrd - 1

theorem Stuck.read {pid : Nat} {reader : Reader} {kept : Nat} (stuck : Stuck pid reader kept)
    {got : List Char} (room : kept + got.length < bufrd) :
    ∃ more, (received reader got).buf = Nat.toDigits 10 pid ++ nul :: more := by
  obtain ⟨more, text⟩ := stuck.text
  have least := stuck.least
  dsimp only [received]
  rw [stuck.nleft, Int.toNat_natCast, read_into_eq (by rw [stuck.sized]; exact room), text,
    List.take_append, List.take_of_length_le (by rw [length_digits]; omega), length_digits,
    show kept - width pid = kept - width pid - 1 + 1 by omega, List.take_succ_cons,
    List.append_assoc, List.cons_append]
  exact ⟨_, rfl⟩

/-- One more window pushes the same PID again. -/
theorem Stuck.window (cmdline : Int → Option (List Char)) (name : List Char) {pid : Nat}
    {reader : Reader} {kept : Nat} (stuck : Stuck pid reader kept)
    (narrow : width pid ≤ 7) {got : List Char} (room : kept + got.length < bufrd) :
    ∃ next, readWindow cmdline name reader got = .ok next ∧
      next.pids = (pid : Int) :: reader.pids ∧
      next.nleft = (kept + got.length - (width pid + 1) : Nat) ∧
      next.buf.length = bufrd ∧ ∃ more, next.buf = Nat.toDigits 10 pid ++ nul :: more := by
  obtain ⟨more, text⟩ := stuck.read room
  have least := stuck.least
  have token := strtok_token [] more (digits_in_token pid) Nat.toDigits_ne_nil nul_ends
  rw [if_pos (by decide), List.nil_append, ← text] at token
  obtain ⟨found, sameBuf, left, pids, turn⟩ := resume_turn cmdline name 1023
    (digits_in_token pid) (token.trans (by rw [text]; rfl))
    (by dsimp only [received]; rw [stuck.nleft]; omega) (by decide)
  have atEnd := strtok_end (Nat.toDigits 10 pid) more
  rw [List.nil_append] at sameBuf
  rw [← sameBuf] at atEnd
  have scan : resume cmdline name bufrd (received reader got) 0 = (found, none) := by
    rw [List.length_nil, Nat.zero_add] at turn
    exact turn.trans (resume_end 1023 atEnd)
  rw [read_window_eq, scan]
  refine ⟨resetSibl found, rfl, ?_, ?_, ?_, more, ?_⟩
  · rw [reset_sibl_pids, pids, atoi_digits pid nul (by decide)]
    rfl
  · rw [reset_sibl_nleft, left]
    dsimp only [received]
    rw [stuck.nleft, length_digits]
    omega
  · rw [reset_sibl_buf, sameBuf, ← text]
    dsimp only [received]
    rw [stuck.nleft, Int.toNat_natCast, length_read_into (by rw [stuck.sized]; exact room),
      stuck.sized]
  · rw [reset_sibl_buf, sameBuf]

theorem read_loop_stuck (cmdline : Int → Option (List Char)) (name : List Char) {pid : Nat}
    (narrow : width pid ≤ 7) (turns : Nat) {file : List Char}
    {reader : Reader} {kept : Nat} (enough : file.length < turns)
    (stuck : Stuck pid reader kept) :
    ∃ final times, readLoop cmdline name turns file reader = .ok final ∧
      final.pids = pushes (List.replicate times pid) reader.pids ∧
      times * (width pid + 1) ≤ file.length + width pid := by
  induction turns generalizing file reader kept with
  | zero => exact absurd enough (Nat.not_lt_zero _)
  | succ turns ih =>
      have most := stuck.most
      rcases eq_or_ne file [] with rfl | unread
      · exact ⟨reader, 0, read_loop_eof stuck.nleft (by omega), rfl, by omega⟩
      have pending : 0 < file.length := List.length_pos_iff.mpr unread
      have room : kept + (file.take (bufrd - kept - 1)).length < bufrd := by
        rw [List.length_take]
        omega
      obtain ⟨next, run, pids, nleft, sized, text⟩ :=
        stuck.window cmdline name narrow room
      rw [read_loop_read stuck.nleft (by omega) unread, run]
      change ∃ final times, readLoop cmdline name turns (file.drop (bufrd - kept - 1)) next = _ ∧ _
      -- a full window is stuck again, the last one ends the file
      rcases Nat.lt_or_ge (bufrd - kept - 1) file.length with more | last
      · have full : (file.take (bufrd - kept - 1)).length = bufrd - kept - 1 := by
          rw [List.length_take]
          omega
        rw [full] at nleft
        have rest : (file.drop (bufrd - kept - 1)).length = file.length - (bufrd - kept - 1) :=
          List.length_drop
        have again : Stuck pid next (kept + (bufrd - kept - 1) - (width pid + 1)) :=
          ⟨nleft, sized, text, by rw [bufrd] at *; omega, by omega⟩
        have shorter : (file.drop (bufrd - kept - 1)).length < turns := by omega
        obtain ⟨final, times, runs, all, bound⟩ := ih shorter again
        refine ⟨final, times + 1, runs, ?_, ?_⟩
        · rw [all, pids, List.replicate_succ, pushes_cons]
        · rw [Nat.add_mul]
          omega
      · obtain ⟨turns, rfl⟩ : ∃ less, turns = less + 1 := ⟨turns - 1, by omega⟩
        have whole : (file.take (bufrd - kept - 1)).length = file.length := by
          rw [List.length_take]
          omega
        rw [List.drop_eq_nil_of_le last, read_loop_eof nleft (by omega)]
        refine ⟨next, 1, rfl, ?_, by omega⟩
        rw [pids, List.replicate_one, pushes_cons, pushes_nil]

/-- What one turn of the read loop does to a file that began with the lines of `pids`. -/
inductive Turn (old : List Int) (pids : List Nat) (file : List Char) (next : Reader) : Prop
  | goes (done rest : List Nat) (kept : Nat) (split : pids = done ++ rest)
      (ready : Ready rest file next kept) (pushed : next.pids = pushes done old)
      (aligned : Aligned 0 pids ↔ Aligned 0 rest) : Turn old pids file next
  | stalls (done : List Nat) (pid : Nat) (rest : List Nat) (kept : Nat)
      (split : pids = done ++ pid :: rest) (nleft : next.nleft = kept) (few : kept ≤ 6)
      (pushed : next.pids = pushes done old) (misaligned : ¬Aligned 0 pids)
      (stuck : file ≠ [] →
        Stuck pid next kept ∧ (lines (pid :: rest)).length = kept + file.length) :
      Turn old pids file next
  | leaves (nleft : next.nleft < 0) (misaligned : ¬Aligned 0 pids) : Turn old pids file next

theorem turn_flush {old : List Int} {pids done rest : List Nat} {parsed : Reader}
    (sized : parsed.buf.length = bufrd) (split : pids = done ++ rest) (nleft : parsed.nleft = 0)
    (file : (lines pids).drop (bufrd - 1) = lines rest) (pushed : parsed.pids = pushes done old)
    (aligned : Aligned 0 pids ↔ Aligned 0 rest) :
    Turn old pids ((lines pids).drop (bufrd - 1)) (resetSibl parsed) := by
  refine .goes done rest 0 split ⟨?_, by omega, ?_, ?_, fun _ _ _ => Nat.zero_le _⟩ ?_ aligned
  · rw [reset_sibl_nleft, nleft]
    rfl
  · rw [reset_sibl_buf, sized]
  · rw [file, List.take_zero, List.nil_append]
  · rw [reset_sibl_pids, pushed]

theorem turn_carry {old : List Int} {pids done rest : List Nat} {pid off : Nat} {parsed : Reader}
    (sized : parsed.buf.length = bufrd) (split : pids = done ++ pid :: rest)
    (inside : off < bufrd - 1) (late : ¬6 < bufrd - 1 - off) (outside : bufrd - 1 ≤ off + width pid)
    (text : (parsed.buf.drop off).take (bufrd - 1 - off) =
      (lines (pid :: rest)).take (bufrd - 1 - off))
    (nleft : parsed.nleft = (bufrd - 1 - off : Nat))
    (file : (lines pids).drop (bufrd - 1) = (lines (pid :: rest)).drop (bufrd - 1 - off))
    (pushed : parsed.pids = pushes done old)
    (aligned : Aligned 0 pids ↔ Aligned 0 (pid :: rest)) :
    Turn old pids ((lines pids).drop (bufrd - 1))
      { resetSibl parsed with
        buf := memcpyFront parsed.buf off (bufrd - 1 - off) } := by
  refine .goes done (pid :: rest) (bufrd - 1 - off) split ⟨?_, by omega, ?_, ?_, ?_⟩ ?_ aligned
  · exact (reset_sibl_nleft parsed).trans nleft
  · exact (length_memcpy_front (by omega)).trans sized
  · have length : ((parsed.buf.drop off).take (bufrd - 1 - off)).length = bufrd - 1 - off := by
      rw [List.length_take, List.length_drop, sized]
      omega
    dsimp only
    rw [memcpyFront, List.take_left' length, text, file, List.take_append_drop]
  · rintro first others same
    obtain ⟨rfl, rfl⟩ := List.cons.inj same
    omega
  · exact (reset_sibl_pids parsed).trans pushed

theorem turn_cut {old : List Int} {pids done rest : List Nat} {pid off kept : Nat}
    {parsed : Reader} {more : List Char} (narrow : width pid ≤ 7)
    (sized : parsed.buf.length = bufrd) (split : pids = done ++ pid :: rest)
    (late : ¬6 < bufrd - 1 - off) (room : off + width pid < bufrd - 1)
    (shown : kept = ((lines (pid :: rest)).take (bufrd - 1 - off)).length)
    (nleft : parsed.nleft = kept)
    (text : parsed.buf.drop off = Nat.toDigits 10 pid ++ nul :: more)
    (file : (lines pids).drop (bufrd - 1) = (lines (pid :: rest)).drop (bufrd - 1 - off))
    (pushed : parsed.pids = pushes done old) (misaligned : ¬Aligned 0 pids) :
    Turn old pids ((lines pids).drop (bufrd - 1))
      { resetSibl parsed with
        buf := memcpyFront parsed.buf (bufrd - kept - 1) kept } := by
  have limit : bufrd = 1024 := rfl
  rw [List.length_take] at shown
  refine .stalls done pid rest kept split ((reset_sibl_nleft parsed).trans nleft) (by omega)
    ((reset_sibl_pids parsed).trans pushed) misaligned ?_
  intro unread
  have remains : 0 < ((lines pids).drop (bufrd - 1)).length := List.length_pos_iff.mpr unread
  rw [file, List.length_drop] at remains
  have place : bufrd - kept - 1 = off := by omega
  refine ⟨⟨(reset_sibl_nleft parsed).trans nleft, ?_, ?_, by omega, by omega⟩, ?_⟩
  · exact (length_memcpy_front (by omega)).trans sized
  · dsimp only
    rw [place]
    exact memcpy_front_token text (by rw [length_digits]; omega)
  · rw [file, List.length_drop]
    omega

theorem Ready.rest {pids : List Nat} {file : List Char} {reader : Reader} {kept : Nat}
    (ready : Ready pids file reader kept) :
    file.drop (bufrd - kept - 1) = (lines pids).drop (bufrd - 1) := by
  have few := ready.few
  have limit : bufrd = 1024 := rfl
  have length : (reader.buf.take kept).length = kept := by
    rw [List.length_take, ready.sized]
    omega
  have used : (reader.buf.take kept).drop (bufrd - 1) = [] :=
    List.drop_eq_nil_of_le (by omega)
  rw [← ready.text, List.drop_append, length, used, List.nil_append,
    show bufrd - 1 - kept = bufrd - kept - 1 by omega]

theorem Ready.turn (cmdline : Int → Option (List Char)) (name : List Char) {pids : List Nat}
    (small : ∀ pid ∈ pids, width pid ≤ 7) {file : List Char} {reader : Reader} {kept : Nat}
    (ready : Ready pids file reader kept) :
    ∃ next, readWindow cmdline name reader (file.take (bufrd - kept - 1)) = .ok next ∧
      Turn reader.pids pids (file.drop (bufrd - kept - 1)) next := by
  have few := ready.few
  have limit : bufrd = 1024 := rfl
  obtain ⟨behind, within⟩ := ready.window
  have outcome := resume_window cmdline name small bufrd within (by omega)
  have sized : (resume cmdline name bufrd
      (received reader (file.take (bufrd - kept - 1))) 0).1.buf.length = bufrd := by
    rw [length_resume]
    dsimp only [received]
    rw [ready.nleft, Int.toNat_natCast, length_read_into, ready.sized]
    rw [ready.sized, List.length_take]
    omega
  rw [List.length_nil, List.nil_append] at outcome
  rw [read_window_eq, ready.rest]
  generalize resume cmdline name bufrd
    (received reader (file.take (bufrd - kept - 1))) 0 = result at *
  obtain ⟨parsed, left⟩ := result
  dsimp only at outcome sized ⊢
  cases outcome with
  | flush done rest split nleft remains pushed aligned =>
      exact ⟨_, rfl, turn_flush sized split nleft remains pushed aligned⟩
  | carry done pid rest off split inside late outside nleft text remains pushed aligned =>
      refine ⟨_, copy_left_some ((reset_sibl_nleft parsed).trans nleft), ?_⟩
      rw [reset_sibl_buf, show bufrd - (bufrd - 1 - off) - 1 = off by omega]
      exact turn_carry sized split inside late outside text nleft remains pushed aligned
  | cut done pid rest off more split late room nleft text remains pushed misaligned =>
      refine ⟨_, copy_left_some ((reset_sibl_nleft parsed).trans nleft), ?_⟩
      rw [reset_sibl_buf]
      exact turn_cut (small pid (by simp [split])) sized split late room rfl nleft text remains
        pushed misaligned
  | behind nleft misaligned =>
      exact ⟨_, rfl, .leaves (by rw [reset_sibl_nleft]; exact nleft) misaligned⟩

/-- Too few PIDs follow a line whose newline is overwritten. -/
theorem read_loop_stalled (cmdline : Int → Option (List Char)) (name : List Char)
    {turns pid kept : Nat} {rest : List Nat} {file : List Char} {next final : Reader}
    (narrow : width pid ≤ 7) (enough : file.length < turns) (nleft : next.nleft = kept)
    (few : kept ≤ 6)
    (stuck : file ≠ [] → Stuck pid next kept ∧ (lines (pid :: rest)).length = kept + file.length)
    (run : readLoop cmdline name turns file next = .ok final) :
    final.pids ≠ pushes (pid :: rest) next.pids := by
  obtain ⟨turns, rfl⟩ : ∃ less, turns = less + 1 := ⟨turns - 1, by omega⟩
  intro all
  -- copies of the first PID alone, and fewer than the lines have room for
  obtain ⟨times, pushed, short⟩ : ∃ times,
      final.pids = pushes (List.replicate times pid) next.pids ∧
        times * (width pid + 1) < (lines (pid :: rest)).length := by
    rcases eq_or_ne file [] with rfl | unread
    · rw [read_loop_eof nleft (by rw [bufrd]; omega)] at run
      obtain rfl := Except.ok.inj run
      exact ⟨0, rfl, by rw [length_lines_cons]; omega⟩
    · obtain ⟨loops, length⟩ := stuck unread
      obtain ⟨last, times, runs, pushed, bound⟩ :=
        read_loop_stuck cmdline name narrow _ enough loops
      have same : last = final := Except.ok.inj (runs.symm.trans run)
      have least := loops.least
      exact ⟨times, same ▸ pushed, by omega⟩
  have same := pushes_injective (pushed.symm.trans all)
  rw [← same, length_lines_replicate] at short
  exact Nat.lt_irrefl _ short

theorem read_loop_ready (cmdline : Int → Option (List Char)) (name : List Char) {turns : Nat}
    {pids : List Nat} (small : ∀ pid ∈ pids, width pid ≤ 7)
    {file : List Char} {reader : Reader} {kept : Nat} (enough : file.length < turns)
    (ready : Ready pids file reader kept) :
    (∃ final, readLoop cmdline name turns file reader = .ok final ∧
      final.pids = pushes pids reader.pids) ↔ Aligned 0 pids := by
  induction turns generalizing file reader kept pids with
  | zero => exact absurd enough (Nat.not_lt_zero _)
  | succ turns ih =>
      have few := ready.few
      have limit : bufrd = 1024 := rfl
      rcases eq_or_ne pids [] with rfl | pending
      · have empty : file = [] := (List.append_eq_nil_iff.mp ready.text).2
        subst empty
        rw [read_loop_eof ready.nleft (by omega)]
        exact ⟨fun _ => trivial, fun _ => ⟨reader, rfl, rfl⟩⟩
      have unread := ready.unread pending
      have length : 0 < file.length := List.length_pos_iff.mpr unread
      -- each turn but the last takes bytes of the file, which bounds the turns
      have shorter : (file.drop (bufrd - kept - 1)).length < turns := by
        rw [List.length_drop]
        omega
      obtain ⟨next, run, turn⟩ := ready.turn cmdline name small
      rw [read_loop_read ready.nleft (by omega) unread, run]
      change (∃ final, readLoop cmdline name turns _ next = _ ∧ _) ↔ _
      cases turn with
      | goes done rest kept split ready pushed aligned =>
          have further := ih (fun pid member => small pid (by simp [split, member])) shorter ready
          rw [aligned, ← further, split, pushes_append, pushed]
      | stalls done pid rest kept split nleft few pushed misaligned stuck =>
          refine iff_of_false ?_ misaligned
          rintro ⟨final, runs, all⟩
          rw [split, pushes_append, ← pushed] at all
          exact read_loop_stalled cmdline name (small pid (by simp [split])) shorter nleft few stuck
            runs all
      | leaves nleft misaligned =>
          refine iff_of_false ?_ misaligned
          rintro ⟨final, runs, -⟩
          obtain ⟨turns, rfl⟩ : ∃ less, turns = less + 1 := ⟨turns - 1, by omega⟩
          rw [read_loop_behind nleft] at runs
          cases runs

theorem ready_start {pids : List Nat} {reader : Reader} (sized : reader.buf.length = bufrd) :
    Ready pids (lines pids) { reader with nleft := 0, count := 0 } 0 :=
  ⟨rfl, Nat.zero_le _, sized, rfl, fun _ _ _ => Nat.zero_le _⟩

theorem misaligned_not_pushed {pids : List Nat} {reader : Reader}
    (small : ∀ pid ∈ pids, pid < 10000000) (sized : reader.buf.length = bufrd)
    (misaligned : ¬Aligned 0 pids) :
    ¬∃ final, readTasks cmdline name (lines pids) reader = .ok final ∧
      final.pids = pushes pids reader.pids :=
  fun pushed => misaligned ((read_loop_ready cmdline name
    (fun pid member => width_le_seven (small pid member)) (Nat.lt_succ_self _)
    (ready_start sized)).mp pushed)

/-- A task file is read to its end, inside the buffer, with a push of each of its
PIDs in file order, exactly when its lines are aligned. -/
theorem task_file_pushed_iff (cmdline : Int → Option (List Char)) (name : List Char)
    (pids : List Nat) (small : ∀ pid ∈ pids, pid < 10000000) (reader : Reader)
    (sized : reader.buf.length = bufrd) :
    (∃ final, readTasks cmdline name (lines pids) reader = .ok final ∧
      final.pids = pushes pids reader.pids) ↔ Aligned 0 pids :=
  read_loop_ready cmdline name (fun pid member => width_le_seven (small pid member))
    (Nat.lt_succ_self _) (ready_start sized)

theorem task_file_pushed_iff_example :
    ∃ final, readTasks (fun _ => none) [] (lines [1, 10, 7654321])
      { buf := List.replicate bufrd nul } = .ok final ∧ final.pids = [7654321, 10, 1] :=
  (task_file_pushed_iff (fun _ => none) [] [1, 10, 7654321] (by decide)
    { buf := List.replicate bufrd nul } (by decide +kernel)).mpr (by decide +kernel)

/-- The last of these lines starts 1018 bytes into the file and ends in the first window. -/
def boundaryPids : List Nat := 10000 :: (List.range 254).map (· + 100)

theorem boundary_pid_lost :
    (∀ pid ∈ boundaryPids, pid < 10000000) ∧
    ¬∃ final, readTasks (fun _ => none) [] (lines boundaryPids)
      { buf := List.replicate bufrd nul } = .ok final ∧ final.pids = pushes boundaryPids [] := by
  have small : ∀ pid ∈ boundaryPids, pid < 10000000 := by decide +kernel
  have misaligned : ¬Aligned 0 boundaryPids := by decide +kernel
  exact ⟨small, misaligned_not_pushed small List.length_replicate misaligned⟩

theorem read_tasks_aligned (cmdline : Int → Option (List Char)) (name : List Char) {pids : List Nat}
    {reader : Reader}
    (small : ∀ pid ∈ pids, pid < 10000000) (sized : reader.buf.length = bufrd)
    (aligned : Aligned 0 pids) :
    ∃ final, readTasks cmdline name (lines pids) reader = .ok final ∧
      final.pids = pushes pids reader.pids ∧ final.buf.length = bufrd := by
  obtain ⟨final, run, pushed⟩ := (read_loop_ready cmdline name
    (fun pid member => width_le_seven (small pid member)) (Nat.lt_succ_self _)
    (ready_start sized)).mpr aligned
  have start : { reader with nleft := 0, count := 0 }.buf.length = bufrd := sized
  exact ⟨final, run, pushed, length_read_loop start run⟩

/-- Name and PIDs of a container. -/
abbrev Entry := List Char × List Nat

/-- Over all containers, the list grows by the PIDs of their aligned files. -/
theorem get_cont_pids_pushes (cmdline : Int → Option (List Char)) (useCgroup : DetMode)
    (entries : List Entry) (reader : Reader) (sized : reader.buf.length = bufrd)
    (small : ∀ entry ∈ entries, ∀ pid ∈ entry.2, pid < 10000000)
    (aligned : ∀ entry ∈ entries, Aligned 0 entry.2) :
    ∃ final, getContPids cmdline useCgroup
        (some (entries.map fun entry => (entry.1, lines entry.2))) reader = .ok (useCgroup, final) ∧
      final.pids =
        pushes ((entries.filter fun entry => 60 < entry.1.length).flatMap Prod.snd) reader.pids := by
  induction entries generalizing reader with
  | nil => exact ⟨reader, rfl, rfl⟩
  | cons entry rest ih =>
      have later : ∀ other ∈ rest, other ∈ entry :: rest := fun _ => List.mem_cons_of_mem entry
      have step := fun (next : Reader) (sized : next.buf.length = bufrd) => ih next sized
        (fun other member => small other (later other member))
        (fun other member => aligned other (later other member))
      by_cases container : 60 < entry.1.length
      · obtain ⟨next, run, pushed, nextSized⟩ := read_tasks_aligned cmdline entry.1
          (small entry (by simp)) sized (aligned entry (by simp))
        obtain ⟨final, further, all⟩ := step next nextSized
        refine ⟨final, ?_, ?_⟩
        · simp only [getContPids, List.map_cons, List.foldlM_cons, container, if_true, run] at *
          exact further
        · rw [all, pushed, List.filter_cons_of_pos (by simpa using container),
            List.flatMap_cons, pushes_append]
      · obtain ⟨final, further, all⟩ := step reader sized
        refine ⟨final, ?_, ?_⟩
        · simp only [getContPids, List.map_cons, List.foldlM_cons, container, if_false] at *
          exact further
        · rw [all, List.filter_cons_of_neg (by simpa using container)]

end Reads

end Orchestrator.TaskFile
