import Orchestrator.Cstring
import Orchestrator.Strtok

/-!
The format text of a trace event, read into a list of field configurations: one loop
over the tokens with a position counter, the delimiters changing with the position.
A run of the loop is told step by step below, free of the bound on its rounds.
-/

namespace Orchestrator.EventFields
open Strtok
open Cstring (atoi)

/-- `enum tr_vtypes`. -/
inductive TrVtypes
  | short | int | long | longlong | char | pidT
  deriving DecidableEq, Repr

/-- `struct ftrace_ecfg`, as `push` clears it; `name` is `NULL` until it is read. -/
structure FtraceEcfg where
  name : Option (List Char) := none
  type : TrVtypes := .short
  offset : Int := 0
  size : Int := 0
  sign : Int := 0
  deriving DecidableEq, Repr

/-- How a run goes wrong: `atoi` of a token that is not there, a write through an `ecfg`
that points to no record, or rounds without end. -/
inductive Stop
  | missingToken | unpushed | hang
  deriving DecidableEq, Repr

/-- Field position counter `fp`, from 0 on. -/
inductive Fp
  | off | begin | name | offset | size | signed
  deriving DecidableEq, Repr

/-- The locals of the loop. `here` is the list `*ecfg` points to, `before` what stands in
front of it. -/
structure Parser where
  fp : Fp
  delim : List Char
  ret : Int
  before : List FtraceEcfg
  here : List FtraceEcfg
  deriving DecidableEq, Repr

def headDelim : List Char := [':', ' ', '\n']

def fieldDelim : List Char := ['\t', ';', ':', ' ', '\n']

def declDelim : List Char := [';', '\n']

/-- A write to `**ecfg`. -/
def Parser.write (p : Parser) (change : FtraceEcfg → FtraceEcfg) : Except Stop Parser :=
  match p.here with
  | [] => .error .unpushed
  | cfg :: rest => .ok { p with here := change cfg :: rest }

/-- `push` of a cleared record, behind the record at `*ecfg` if there is one. -/
def Parser.pushNext (p : Parser) : Parser :=
  match p.here with
  | [] => { p with here := [{}] }
  | cfg :: rest => { p with before := p.before ++ [cfg], here := {} :: rest }

/-- Size and sign preset by one word of the declaration. -/
def typeWord (cfg : FtraceEcfg) (t : List Char) : FtraceEcfg :=
  let cfg := if t = "short".toList then { cfg with type := .short, size := 2 } else cfg
  let cfg := if t = "int".toList then { cfg with type := .int, size := 4 } else cfg
  let cfg :=
    if t = "long".toList then
      if cfg.type = .long then { cfg with type := .longlong, size := 2 * 8 }
      else { cfg with type := .long, size := 8 }
    else cfg
  let cfg := if t = "char".toList then { cfg with type := .char, sign := 0, size := 1 } else cfg
  let cfg := if t = "pid_t".toList then { cfg with type := .pidT, size := 4 } else cfg
  if t = "unsigned".toList then { cfg with sign := 0 } else cfg

/-- Position 2: the words of the declaration, the last of them `name[n]`. The first call
with the brackets ends `name` behind its token. -/
def readDecl (s : List Char) (cfg : FtraceEcfg) : FtraceEcfg :=
  let (name, cfg) := (tokens [' '] s).foldl (fun (_, cfg) t => (t, typeWord cfg t))
    (s, { cfg with sign := 1 })
  let (token, rest) := strtokR ['[', ']'] name
  let cfg := { cfg with name := some (name.takeWhile (· ∈ ['[', ']']) ++ token.getD []) }
  match (strtokR ['[', ']'] rest).1 with
  | some t => { cfg with size := atoi t * cfg.size }
  | none => cfg

/-- Positions 3 to 5: the token after the keyword is a number. -/
def readNumber (p : Parser) (rest : List Char) (set : Int → FtraceEcfg → FtraceEcfg) (next : Fp) :
    Except Stop (Parser × List Char) :=
  match strtokR p.delim rest with
  | (none, _) => .error .missingToken
  | (some s, rest) => do
      let p ← p.write (set (atoi s))
      .ok ({ p with fp := next }, rest)

/-- One round for the token `s`: the state and the text the next token is taken from. -/
def step (p : Parser) (s rest : List Char) : Except Stop (Parser × List Char) :=
  match p.fp with
  | .name => do
      let p ← p.write (readDecl s)
      .ok ({ p with delim := fieldDelim, fp := .offset }, rest)
  | .offset =>
      if s = "offset".toList then
        readNumber p rest (fun n cfg => { cfg with offset := n }) .size
      else .ok (p, rest)
  | .size =>
      if s = "size".toList then
        readNumber p rest (fun n cfg => { cfg with size := n }) .signed
      else .ok (p, rest)
  | .signed =>
      if s = "signed".toList then
        readNumber p rest (fun n cfg => { cfg with sign := n }) .begin
      else .ok (p, rest)
  | .begin =>
      if s = "field".toList then .ok ({ p.pushNext with fp := .name, delim := declDelim }, rest)
      else if s = "print".toList then .ok ({ p with fp := .off }, (strtokR ['\n'] rest).2)
      else .ok ({ p with ret := -1 }, rest)
  | .off =>
      if s = "name".toList then .ok (p, (strtokR p.delim rest).2)
      else if s = "ID".toList then .ok (p, (strtokR p.delim rest).2)
      else if s = "format".toList then .ok ({ p with delim := fieldDelim, fp := .begin }, rest)
      else if s = "print".toList then .ok ({ p with ret := -1 }, (strtokR ['\n'] rest).2)
      else .ok (p, rest)

def loop : Nat → Parser → List Char → Except Stop Parser
  | 0, _, _ => .error .hang
  | rounds + 1, p, text =>
      match strtokR p.delim text with
      | (none, _) => .ok p
      | (some s, rest) => do
          let (p, rest) ← step p s rest
          loop rounds p rest

/-- The loop, with a round for each character and one more. -/
def run (p : Parser) (text : List Char) : Except Stop Parser := loop (text.length + 1) p text

def start (ecfg : List FtraceEcfg) : Parser := ⟨.off, headDelim, 0, [], ecfg⟩

/-- `parseEventFields(ecfg, buffer)`: the return value and the list. -/
def parseEventFields (ecfg : List FtraceEcfg) (buffer : List Char) :
    Except Stop (Int × List FtraceEcfg) := do
  let p ← run (start ecfg) buffer
  .ok (p.ret, p.before ++ p.here)

section Rounds
variable {p p' : Parser} {s rest rest' text gap : List Char} {set : Int → FtraceEcfg → FtraceEcfg}
  {next : Fp}

theorem read_number_missing (missing : Gap p.delim rest) :
    readNumber p rest set next = .error .missingToken := by
  simp only [readNumber, strtok_gap missing]

theorem read_number_next (token : NextWord p.delim rest s rest') :
    readNumber p rest set next =
      (p.write (set (atoi s))).map fun p => ({ p with fp := next }, rest') := by
  simp only [readNumber, strtok_next_word token]
  cases p.write (set (atoi s)) <;> rfl

theorem read_number_rest_le (read : readNumber p rest set next = .ok (p', rest')) :
    rest'.length ≤ rest.length := by
  rcases gap_or_next_word p.delim rest with missing | ⟨word, behind, token⟩
  · simp [read_number_missing missing] at read
  · rw [read_number_next token] at read
    cases written : p.write (set (atoi word)) with
    | error stop => simp [written, Except.map] at read
    | ok q =>
        simp only [written, Except.map, Except.ok.injEq, Prod.mk.injEq] at read
        exact read.2 ▸ (next_word_shorter token).le

/-- A round takes nothing back. -/
theorem step_rest_le (stepped : step p s rest = .ok (p', rest')) : rest'.length ≤ rest.length := by
  have skip : ∀ {q : Parser}, (Except.ok (q, rest) : Except Stop _) = .ok (p', rest') →
      rest'.length ≤ rest.length := by
    intro q same
    simp only [Except.ok.injEq, Prod.mk.injEq] at same
    exact same.2 ▸ le_rfl
  have line : ∀ {q : Parser} {delim}, (Except.ok (q, (strtokR delim rest).2) : Except Stop _) =
      .ok (p', rest') → rest'.length ≤ rest.length := by
    intro q delim same
    simp only [Except.ok.injEq, Prod.mk.injEq] at same
    exact same.2 ▸ strtok_rest_le delim rest
  cases position : p.fp <;> simp only [step, position] at stepped
  case name =>
    cases written : p.write (readDecl s) with
    | error stop => simp [written, bind, Except.bind] at stepped
    | ok q =>
        rw [written] at stepped
        exact skip stepped
  case offset | size | signed =>
    split_ifs at stepped
    · exact read_number_rest_le stepped
    · exact skip stepped
  case begin =>
    split_ifs at stepped
    · exact skip stepped
    · exact line stepped
    · exact skip stepped
  case off =>
    split_ifs at stepped
    · exact line stepped
    · exact line stepped
    · exact skip stepped
    · exact line stepped
    · exact skip stepped

theorem loop_enough {rounds others : Nat} (enough : text.length < rounds)
    (enoughToo : text.length < others) : loop rounds p text = loop others p text := by
  induction rounds generalizing others p text with
  | zero => omega
  | succ rounds ih =>
      obtain ⟨others, rfl⟩ := Nat.exists_eq_succ_of_ne_zero (by omega : others ≠ 0)
      rcases gap_or_next_word p.delim text with skipped | ⟨s, rest, token⟩
      · simp only [loop, strtok_gap skipped]
      · have shorter := next_word_shorter token
        simp only [loop, strtok_next_word token]
        cases stepped : step p s rest with
        | error stop => rfl
        | ok next =>
            have kept := step_rest_le stepped
            exact ih (by omega) (by omega)

theorem run_gap (skipped : Gap p.delim text) : run p text = .ok p := by
  simp only [run, loop, strtok_gap skipped]

theorem run_next (token : NextWord p.delim text s rest)
    (stepped : step p s rest = .ok (p', rest')) : run p text = run p' rest' := by
  have shorter := next_word_shorter token
  have kept := step_rest_le stepped
  have enough : loop text.length p' rest' = run p' rest' := loop_enough (by omega) (by omega)
  rw [← enough]
  simp only [run, loop, strtok_next_word token, stepped]
  rfl

theorem run_stop {stop : Stop} (token : NextWord p.delim text s rest)
    (stepped : step p s rest = .error stop) : run p text = .error stop := by
  simp only [run, loop, strtok_next_word token, stepped]
  rfl

/-- Delimiters in front of the text are skipped. -/
theorem run_skip (skipped : Gap p.delim gap) (text : List Char) :
    run p (gap ++ text) = run p text := by
  have enough : run p text = loop ((gap ++ text).length + 1) p text :=
    loop_enough (by omega) (by rw [List.length_append]; omega)
  rw [enough, run, loop, loop, strtok_skip skipped]

theorem write_pushed {cfg : FtraceEcfg} {more : List FtraceEcfg} (pushed : p.here = cfg :: more)
    (change : FtraceEcfg → FtraceEcfg) :
    p.write change = .ok { p with here := change cfg :: more } := by
  simp only [Parser.write, pushed]

theorem step_field (position : p.fp = .begin) (rest : List Char) :
    step p "field".toList rest =
      .ok ({ p.pushNext with fp := .name, delim := declDelim }, rest) := by
  simp only [step, position, if_true]

theorem step_print (position : p.fp = .begin) (rest : List Char) :
    step p "print".toList rest = .ok ({ p with fp := .off }, (strtokR ['\n'] rest).2) := by
  have other : "print".toList ≠ "field".toList := by decide
  simp only [step, position, other, if_true, if_false]

theorem step_entry (position : p.fp = .off) (known : s = "name".toList ∨ s = "ID".toList)
    (rest : List Char) : step p s rest = .ok (p, (strtokR p.delim rest).2) := by
  rcases known with rfl | rfl <;> simp [step, position]

theorem step_format (position : p.fp = .off) (rest : List Char) :
    step p "format".toList rest = .ok ({ p with delim := fieldDelim, fp := .begin }, rest) := by
  simp [step, position]

end Rounds

end Orchestrator.EventFields
