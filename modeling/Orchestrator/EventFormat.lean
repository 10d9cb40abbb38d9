import Orchestrator.EventFields

/-!
The format text the kernel writes for an event, and what the reader makes of it: the
declared fields in their order.
-/

namespace Orchestrator.EventFormat
open Strtok EventFields
open Cstring (atoi atoi_digits_alone)

/-- A field of the event: the words of its declaration, the name last, and numbers an
`int` can hold. -/
structure FieldLine where
  words : List (List Char)
  name : List Char
  dimension : Option Nat
  offset : Nat
  size : Nat
  signed : Nat
  plainWords : ∀ word ∈ words, Word [' ', ';', '\n'] word
  plainName : Word [' ', ';', '\n', '[', ']'] name
  ints : ∀ n ∈ [offset, size, signed], n < 2 ^ 31

structure Format where
  name : List Char
  id : Nat
  groups : List (List FieldLine)
  fmt : List Char
  newlines : Nat
  plainName : Word headDelim name
  oneLine : '\n' ∉ fmt

def number (n : Nat) : List Char := Nat.toDigits 10 n

def FieldLine.declarator (line : FieldLine) : List Char :=
  line.name ++
    match line.dimension with
    | some n => '[' :: (number n ++ [']'])
    | none => []

def FieldLine.declaration (line : FieldLine) : List Char :=
  line.words.flatMap (· ++ [' ']) ++ line.declarator

/-- `\tkey:n;` -/
def entry (key : List Char) (n : Nat) : List Char := '\t' :: (key ++ ':' :: (number n ++ [';']))

/-- `\tfield:<decl>;\toffset:<o>;\tsize:<s>;\tsigned:<b>;\n` -/
def FieldLine.text (line : FieldLine) : List Char :=
  '\t' :: ("field".toList ++ ':' :: (line.declaration ++ [';'])) ++
    entry "offset".toList line.offset ++ entry "size".toList line.size ++
    entry "signed".toList line.signed ++ ['\n']

/-- The lines of each group, and a blank line behind them. -/
def groupsText (groups : List (List FieldLine)) : List Char :=
  groups.flatMap fun group => group.flatMap FieldLine.text ++ ['\n']

def Format.head (format : Format) : List Char :=
  "name".toList ++ ':' :: ' ' :: (format.name ++ '\n' ::
    ("ID".toList ++ ':' :: ' ' :: (number format.id ++ '\n' ::
      ("format".toList ++ [':', '\n']))))

def Format.print (format : Format) : List Char :=
  "print".toList ++ ' ' :: ("fmt: ".toList ++ format.fmt ++ List.replicate format.newlines '\n')

def Format.render (format : Format) : List Char :=
  format.head ++ groupsText format.groups ++ format.print

def Format.fields (format : Format) : List FieldLine := format.groups.flatten

/-- The record of a field: the type is what the words say. -/
def FieldLine.record (line : FieldLine) : FtraceEcfg :=
  ⟨some line.name, (readDecl line.declaration {}).type, line.offset, line.size, line.signed⟩

section Words
variable {p p' : Parser} {s rest rest' : List Char} {stop : Char}

theorem run_front (token : Word p.delim s) (ends : stop ∈ p.delim)
    (stepped : step p s rest = .ok (p', rest')) : run p (s ++ stop :: rest) = run p' rest' :=
  run_next (.ended gap_nil token ends) stepped

theorem word_of_subset {delim others : List Char} (sub : ∀ c ∈ others, c ∈ delim)
    (token : Word delim s) : Word others s :=
  ⟨token.1, fun c member listed => token.2 c member (sub c listed)⟩

/-- A number is a word wherever no delimiter is a digit. -/
theorem number_word {delim : List Char} (plain : delim.all (!·.isDigit) = true) (n : Nat) :
    Word delim (number n) := by
  refine ⟨Nat.toDigits_ne_nil, fun c member listed => ?_⟩
  have digit : c.isDigit = true := Nat.isDigit_of_mem_toDigits (by decide) (by decide) member
  have other := List.all_eq_true.mp plain c listed
  rw [digit] at other
  exact absurd other (by decide)

end Words

section Declaration
variable (line : FieldLine)

theorem declarator_word : Word [' ', ';', '\n'] line.declarator := by
  obtain ⟨nonempty, plain⟩ := line.plainName
  refine ⟨by simp [FieldLine.declarator, nonempty], fun c member => ?_⟩
  rcases List.mem_append.mp member with named | bounded
  · have outside := plain c named
    simp only [List.mem_cons, List.not_mem_nil, or_false, not_or] at outside ⊢
    exact ⟨outside.1, outside.2.1, outside.2.2.1⟩
  · cases dimension : line.dimension with
    | none => simp [dimension] at bounded
    | some n =>
        simp only [dimension, List.mem_cons, List.mem_append, List.not_mem_nil, or_false] at bounded
        rcases bounded with rfl | digit | rfl
        · decide
        · exact (number_word (by decide) n).2 c digit
        · decide

theorem declaration_word : Word declDelim line.declaration := by
  have last := declarator_word line
  refine ⟨by simp [FieldLine.declaration, last.1], fun c member => ?_⟩
  have parts : c ∈ line.words.flatMap (· ++ [' ']) ∨ c ∈ line.declarator := List.mem_append.mp member
  have plain : c = ' ' ∨ c ∉ [' ', ';', '\n'] := by
    rcases parts with worded | declared
    · obtain ⟨word, listed, inside⟩ := List.mem_flatMap.mp worded
      rcases List.mem_append.mp inside with inWord | blank
      · exact .inr ((line.plainWords word listed).2 c inWord)
      · exact .inl (by simpa using blank)
    · exact .inr (last.2 c declared)
  rcases plain with rfl | outside
  · decide
  · simp only [declDelim, List.mem_cons, List.not_mem_nil, or_false, not_or] at outside ⊢
    exact outside.2

/-- The brackets and what is in them are no part of the name. -/
theorem declarator_name : ∃ rest, strtokR ['[', ']'] line.declarator = (some line.name, rest) := by
  have token : Word ['[', ']'] line.name :=
    word_of_subset (by simp) line.plainName
  cases dimension : line.dimension with
  | none =>
      refine ⟨[], ?_⟩
      have alone : line.declarator = [] ++ line.name := by
        simp [FieldLine.declarator, dimension]
      rw [alone, strtok_last gap_nil token]
  | some n =>
      refine ⟨number n ++ [']'], ?_⟩
      have bounded : line.declarator = line.name ++ '[' :: (number n ++ [']']) := by
        simp [FieldLine.declarator, dimension]
      rw [bounded, strtok_front token (by simp)]

/-- The words fold to the last of them as the name. -/
theorem fold_words (words : List (List Char)) (last : List Char) (cfg : FtraceEcfg)
    (name : List Char) :
    ∃ cfg', (words ++ [last]).foldl (fun (_, cfg) t => (t, typeWord cfg t)) (name, cfg) =
      (last, cfg') :=
  ⟨_, by rw [List.foldl_append, List.foldl_cons, List.foldl_nil]⟩

theorem read_decl_name (cfg : FtraceEcfg) :
    (readDecl line.declaration cfg).name = some line.name := by
  have sequence : tokens [' '] line.declaration = line.words ++ [line.declarator] :=
    tokens_joined (by simp) (fun word listed => word_of_subset (by simp) (line.plainWords word listed))
      (word_of_subset (by simp) (declarator_word line))
  obtain ⟨rest, named⟩ := declarator_name line
  obtain ⟨cfg', folded⟩ := fold_words line.words line.declarator { cfg with sign := 1 }
    line.declaration
  have none_skipped : line.declarator.takeWhile (· ∈ ['[', ']']) = [] := by
    obtain ⟨first, more, shape⟩ := List.exists_cons_of_ne_nil line.plainName.1
    have outside := line.plainName.2 first (by simp [shape])
    rw [FieldLine.declarator, shape, List.cons_append, List.takeWhile_cons_of_neg]
    simp only [List.mem_cons, List.not_mem_nil, or_false, not_or] at outside ⊢
    simp [outside.2.2.2]
  simp only [readDecl, sequence, folded, named, none_skipped, List.nil_append, Option.getD_some]
  split <;> rfl

end Declaration

section Run
variable {p : Parser}

/-- Both a line end and a blank line are skipped. -/
theorem run_newline (delims : p.delim = fieldDelim) (text : List Char) :
    run p ('\n' :: text) = run p text := by
  have skipped : Gap p.delim ['\n'] := by simp [Gap, delims, fieldDelim]
  exact run_skip skipped text

/-- One `\tkey:n;` at the position that looks for the key. -/
theorem run_entry {key : List Char} {cfg : FtraceEcfg} {more : List FtraceEcfg}
    (set : Int → FtraceEcfg → FtraceEcfg) (next : Fp) (delims : p.delim = fieldDelim)
    (token : Word fieldDelim key) (pushed : p.here = cfg :: more)
    (looks : ∀ rest, step p key rest = readNumber p rest set next) (n : Nat) (rest : List Char) :
    run p (entry key n ++ rest) =
      run { p with fp := next, here := set n cfg :: more } rest := by
  have numbered : NextWord p.delim (number n ++ ';' :: rest) (number n) rest := by
    rw [delims]
    exact .ended gap_nil (number_word (by decide) n) (by decide)
  have stepped : step p key (number n ++ ';' :: rest) =
      .ok ({ p with fp := next, here := set n cfg :: more }, rest) := by
    rw [looks, read_number_next numbered, write_pushed pushed, number, atoi_digits_alone]
    rfl
  have shape : entry key n ++ rest = ['\t'] ++ (key ++ ':' :: (number n ++ ';' :: rest)) := by
    simp [entry]
  rw [shape, run_skip (by simp [Gap, delims, fieldDelim]),
    run_front (delims ▸ token) (by simp [delims, fieldDelim]) stepped]

/-- Between two lines, with these records read so far. -/
structure Reads (p : Parser) (records : List FtraceEcfg) : Prop where
  position : p.fp = .begin
  delims : p.delim = fieldDelim
  accepted : p.ret = 0
  last : p.here.length ≤ 1
  list : p.before ++ p.here = records

theorem push_next_reads {records : List FtraceEcfg} (reads : Reads p records) :
    p.pushNext = { p with before := records, here := [{}] } := by
  obtain ⟨-, -, -, last, list⟩ := reads
  rw [Parser.pushNext]
  cases here : p.here with
  | nil =>
      rw [here, List.append_nil] at list
      simp [list]
  | cons cfg rest =>
      have alone : rest = [] := by
        rw [here, List.length_cons] at last
        exact List.length_eq_zero_iff.mp (by omega)
      rw [here, alone] at list
      simp [list, alone]

theorem run_line {records : List FtraceEcfg} (reads : Reads p records) (line : FieldLine)
    (rest : List Char) :
    ∃ q, Reads q (records ++ [line.record]) ∧ run p (line.text ++ rest) = run q rest := by
  have shape : line.text ++ rest =
      ['\t'] ++ ("field".toList ++ ':' :: (line.declaration ++ ';' ::
        (entry "offset".toList line.offset ++ (entry "size".toList line.size ++
          (entry "signed".toList line.signed ++ '\n' :: rest))))) := by
    simp only [FieldLine.text, List.append_assoc, List.cons_append, List.nil_append]
  have opened : ∀ behind, step p "field".toList behind =
      .ok (⟨.name, declDelim, 0, records, [{}]⟩, behind) := by
    intro behind
    rw [step_field reads.position, push_next_reads reads, reads.accepted]
  have declared : ∀ behind, step ⟨.name, declDelim, 0, records, [{}]⟩ line.declaration behind =
      .ok (⟨.offset, fieldDelim, 0, records, [readDecl line.declaration {}]⟩, behind) :=
    fun behind => rfl
  have keyword : Word p.delim "field".toList := by
    rw [reads.delims]
    decide
  refine ⟨⟨.begin, fieldDelim, 0, records, [line.record]⟩, ⟨rfl, rfl, rfl, by simp, rfl⟩, ?_⟩
  rw [shape, run_skip (by simp [Gap, reads.delims, fieldDelim]),
    run_front keyword (by simp [reads.delims, fieldDelim]) (opened _),
    run_front (declaration_word line) (by simp [declDelim]) (declared _),
    run_entry (fun n cfg => { cfg with offset := n }) .size rfl (by decide) rfl
      (fun _ => rfl),
    run_entry (fun n cfg => { cfg with size := n }) .signed rfl (by decide) rfl
      (fun _ => rfl),
    run_entry (fun n cfg => { cfg with sign := n }) .begin rfl (by decide) rfl
      (fun _ => rfl)]
  have record : ({ { { readDecl line.declaration {} with offset := line.offset } with
      size := line.size } with sign := line.signed } : FtraceEcfg) = line.record := by
    simp only [FieldLine.record, ← read_decl_name line {}]
  rw [record]
  exact run_newline rfl rest

theorem run_lines {records : List FtraceEcfg} (reads : Reads p records) (lines : List FieldLine)
    (rest : List Char) :
    ∃ q, Reads q (records ++ lines.map FieldLine.record) ∧
      run p (lines.flatMap FieldLine.text ++ rest) = run q rest := by
  induction lines generalizing p records with
  | nil => exact ⟨p, by simpa using reads, rfl⟩
  | cons line lines ih =>
      obtain ⟨middle, first, ran⟩ := run_line reads line (lines.flatMap FieldLine.text ++ rest)
      obtain ⟨q, all, others⟩ := ih first
      refine ⟨q, by simpa using all, ?_⟩
      rw [List.flatMap_cons, List.append_assoc, ran, others]

theorem run_groups {records : List FtraceEcfg} (reads : Reads p records)
    (groups : List (List FieldLine)) (rest : List Char) :
    ∃ q, Reads q (records ++ groups.flatten.map FieldLine.record) ∧
      run p (groupsText groups ++ rest) = run q rest := by
  induction groups generalizing p records with
  | nil => exact ⟨p, by simpa using reads, rfl⟩
  | cons group groups ih =>
      obtain ⟨middle, first, ran⟩ := run_lines reads group ('\n' :: (groupsText groups ++ rest))
      obtain ⟨q, all, others⟩ := ih first
      have blank : run middle ('\n' :: (groupsText groups ++ rest)) =
          run middle (groupsText groups ++ rest) := run_newline first.delims _
      refine ⟨q, by simpa using all, ?_⟩
      have shape : groupsText (group :: groups) ++ rest =
          group.flatMap FieldLine.text ++ '\n' :: (groupsText groups ++ rest) := by
        simp [groupsText]
      rw [shape, ran, blank, others]

variable (format : Format)

/-- The three lines of the head lead to the fields. -/
theorem run_head (rest : List Char) :
    ∃ q, Reads q [] ∧ run (start []) (format.head ++ rest) = run q rest := by
  have shape : format.head ++ rest =
      "name".toList ++ ':' :: ([' '] ++ (format.name ++ '\n' ::
        ("ID".toList ++ ':' :: ([' '] ++ (number format.id ++ '\n' ::
          ("format".toList ++ ':' :: '\n' :: rest)))))) := by
    simp only [Format.head, List.append_assoc, List.cons_append, List.nil_append]
  have blank : Gap headDelim [' '] := by simp [Gap, headDelim]
  have named : ∀ behind, step (start []) "name".toList ([' '] ++ (format.name ++ '\n' :: behind)) =
      .ok (start [], behind) := by
    intro behind
    have token : strtokR headDelim ([' '] ++ (format.name ++ '\n' :: behind)) =
        (some format.name, behind) := strtok_ended blank format.plainName (by decide) behind
    rw [step_entry rfl (.inl rfl), show (start []).delim = headDelim from rfl, token]
  have numbered : ∀ behind, step (start []) "ID".toList ([' '] ++ (number format.id ++ '\n' :: behind)) =
      .ok (start [], behind) := by
    intro behind
    have token : strtokR headDelim ([' '] ++ (number format.id ++ '\n' :: behind)) =
        (some (number format.id), behind) :=
      strtok_ended blank (number_word (by decide) format.id) (by decide) behind
    rw [step_entry rfl (.inr rfl), show (start []).delim = headDelim from rfl, token]
  have opened : ∀ behind, step (start []) "format".toList behind =
      .ok (⟨.begin, fieldDelim, 0, [], []⟩, behind) := step_format rfl
  refine ⟨⟨.begin, fieldDelim, 0, [], []⟩, ⟨rfl, rfl, rfl, by simp, rfl⟩, ?_⟩
  rw [shape, run_front (by decide) (by decide) (named _),
    run_front (by decide) (by decide) (numbered _),
    run_front (by decide) (by decide) (opened _)]
  exact run_newline rfl rest

/-- The print line is passed over, and nothing is left but newlines. -/
theorem run_print {records : List FtraceEcfg} (reads : Reads p records) :
    ∃ q : Parser, q.ret = 0 ∧ q.before ++ q.here = records ∧ run p format.print = .ok q := by
  have line : Word ['\n'] ("fmt: ".toList ++ format.fmt) := by
    refine ⟨List.cons_ne_nil _ _, fun c member newline => ?_⟩
    rw [List.mem_singleton] at newline
    subst newline
    rcases List.mem_append.mp member with inKey | inText
    · exact absurd inKey (by decide)
    · exact format.oneLine inText
  have passed : ∃ newlines, strtokR ['\n']
      ("fmt: ".toList ++ format.fmt ++ List.replicate format.newlines '\n') =
        (some ("fmt: ".toList ++ format.fmt), List.replicate newlines '\n') := by
    cases format.newlines with
    | zero => exact ⟨0, by simpa using strtok_last gap_nil line⟩
    | succ newlines => exact ⟨newlines, strtok_front line (by simp) _⟩
  obtain ⟨newlines, passed⟩ := passed
  have stepped : step p "print".toList
      ("fmt: ".toList ++ format.fmt ++ List.replicate format.newlines '\n') =
        .ok ({ p with fp := .off }, List.replicate newlines '\n') := by
    rw [step_print reads.position, passed]
  have keyword : Word p.delim "print".toList := by
    rw [reads.delims]
    decide
  refine ⟨{ p with fp := .off }, reads.accepted, reads.list, ?_⟩
  change run p ("print".toList ++ ' ' :: ("fmt: ".toList ++ format.fmt ++
    List.replicate format.newlines '\n')) = _
  rw [run_front keyword (by simp [reads.delims, fieldDelim]) stepped]
  refine run_gap fun c member => ?_
  rw [List.eq_of_mem_replicate member]
  simp [reads.delims, fieldDelim]

end Run

/-- The text of a format is accepted, and read as its fields in their order. -/
theorem parse_event_fields_render (format : Format) :
    ∃ records, parseEventFields [] format.render = .ok (0, records) ∧
      records.map (fun cfg => (cfg.name, cfg.offset, cfg.size, cfg.sign)) =
        format.fields.map fun line =>
          (some line.name, (line.offset : Int), (line.size : Int), (line.signed : Int)) := by
  obtain ⟨opened, begun, head⟩ := run_head format (groupsText format.groups ++ format.print)
  obtain ⟨middle, read, body⟩ := run_groups begun format.groups format.print
  obtain ⟨q, accepted, list, ended⟩ := run_print format read
  refine ⟨format.fields.map FieldLine.record, ?_, by simp [FieldLine.record]⟩
  have whole : run (start []) format.render = .ok q := by
    rw [Format.render, List.append_assoc, head, body, ended]
  rw [List.nil_append] at list
  simp only [parseEventFields, whole, Format.fields, ← list, ← accepted]
  rfl

end Orchestrator.EventFormat
