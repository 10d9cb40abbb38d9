import Orchestrator.EventFormat

/-!
Where the reader of a format text takes a token that is not there. After the
declaration of a field it looks for `offset`, then for `size`, then for `signed`,
passing over all other words, and converts the word behind each of them. A text
that ends right behind such a keyword leaves it nothing to convert.
-/

namespace Orchestrator.FormatCut
open Strtok EventFields EventFormat

/-- The keywords a number follows, in the order they are looked for. -/
inductive Keyword
  | offset | size | signed

def Keyword.text : Keyword → List Char
  | .offset => "offset".toList
  | .size => "size".toList
  | .signed => "signed".toList

/-- What a text is read as: the lines in front of the fields with their delimiters, the
fields, a declaration, or the search for a keyword. -/
inductive Part
  | head (delim : List Char)
  | fields
  | declaration
  | number (key : Keyword)

def Keyword.next : Keyword → Part
  | .offset => .number .size
  | .size => .number .signed
  | .signed => .fields

/-- The text, read as this part and what follows it, ends behind a keyword that was
looked for. -/
inductive Cut : Part → List Char → Prop
  | missing {key text rest} : NextWord fieldDelim text key.text rest → Gap fieldDelim rest →
      Cut (.number key) text
  | number {key text rest word rest'} : NextWord fieldDelim text key.text rest →
      NextWord fieldDelim rest word rest' → Cut key.next rest' → Cut (.number key) text
  | other {key text word rest} : NextWord fieldDelim text word rest → word ≠ key.text →
      Cut (.number key) rest → Cut (.number key) text
  | declared {text word rest} : NextWord declDelim text word rest →
      Cut (.number .offset) rest → Cut .declaration text
  | field {text rest} : NextWord fieldDelim text "field".toList rest →
      Cut .declaration rest → Cut .fields text
  | print {text rest line rest'} : NextWord fieldDelim text "print".toList rest →
      NextWord ['\n'] rest line rest' → Cut (.head fieldDelim) rest' → Cut .fields text
  | mismatch {text word rest} : NextWord fieldDelim text word rest → word ≠ "field".toList →
      word ≠ "print".toList → Cut .fields rest → Cut .fields text
  | entry {delim text key rest word rest'} : NextWord delim text key rest →
      key = "name".toList ∨ key = "ID".toList → NextWord delim rest word rest' →
      Cut (.head delim) rest' → Cut (.head delim) text
  | format {delim text rest} : NextWord delim text "format".toList rest → Cut .fields rest →
      Cut (.head delim) text
  | again {delim text rest line rest'} : NextWord delim text "print".toList rest →
      NextWord ['\n'] rest line rest' → Cut (.head delim) rest' → Cut (.head delim) text
  | unknown {delim text word rest} : NextWord delim text word rest →
      word ∉ ["name".toList, "ID".toList, "format".toList, "print".toList] →
      Cut (.head delim) rest → Cut (.head delim) text

section Rounds
variable {p : Parser} {key : Keyword} {s text rest rest' : List Char} {delim : List Char}

def Keyword.fp : Keyword → Fp
  | .offset => .offset
  | .size => .size
  | .signed => .signed

/-- The reader is at this part, with a record under `ecfg` where it will write. -/
def At : Part → Parser → Prop
  | .head delim, p => p.fp = .off ∧ p.delim = delim
  | .fields, p => p.fp = .begin ∧ p.delim = fieldDelim
  | .declaration, p => p.fp = .name ∧ p.delim = declDelim ∧ p.here ≠ []
  | .number key, p => p.fp = key.fp ∧ p.delim = fieldDelim ∧ p.here ≠ []

/-- The three positions that look for a keyword differ in it alone. -/
theorem step_keyword (position : p.fp = key.fp) (rest : List Char) :
    ∃ set next, step p key.text rest = readNumber p rest set next ∧
      ∀ q : Parser, q.delim = fieldDelim → q.here ≠ [] → At key.next { q with fp := next } := by
  cases key with
  | offset =>
      have position : p.fp = .offset := position
      refine ⟨fun n cfg => { cfg with offset := n }, .size, ?_, fun q delims pushed =>
        ⟨rfl, delims, pushed⟩⟩
      change step p "offset".toList rest = _
      simp only [step, position, if_true]
  | size =>
      have position : p.fp = .size := position
      refine ⟨fun n cfg => { cfg with size := n }, .signed, ?_, fun q delims pushed =>
        ⟨rfl, delims, pushed⟩⟩
      change step p "size".toList rest = _
      simp only [step, position, if_true]
  | signed =>
      have position : p.fp = .signed := position
      refine ⟨fun n cfg => { cfg with sign := n }, .begin, ?_, fun q delims _ => ⟨rfl, delims⟩⟩
      change step p "signed".toList rest = _
      simp only [step, position, if_true]

theorem at_missing (reached : At (.number key) p) (missing : Gap fieldDelim rest) :
    step p key.text rest = .error .missingToken := by
  obtain ⟨position, delims, -⟩ := reached
  obtain ⟨set, next, stepped, -⟩ := step_keyword position rest
  rw [stepped, read_number_missing (delims ▸ missing)]

theorem at_number (reached : At (.number key) p) (token : NextWord fieldDelim rest s rest') :
    ∃ q, At key.next q ∧ step p key.text rest = .ok (q, rest') := by
  obtain ⟨position, delims, pushed⟩ := reached
  obtain ⟨cfg, more, here⟩ := List.exists_cons_of_ne_nil pushed
  obtain ⟨set, next, stepped, leads⟩ := step_keyword position rest
  refine ⟨_, leads { p with here := set (Cstring.atoi s) cfg :: more } delims
    (List.cons_ne_nil _ _), ?_⟩
  rw [stepped, read_number_next (delims ▸ token), write_pushed here]
  rfl

theorem at_other (reached : At (.number key) p) (other : s ≠ key.text) (rest : List Char) :
    step p s rest = .ok (p, rest) := by
  obtain ⟨position, -, -⟩ := reached
  cases key with
  | offset =>
      have position : p.fp = .offset := position
      have other : s ≠ "offset".toList := other
      simp only [step, position, other, if_false]
  | size =>
      have position : p.fp = .size := position
      have other : s ≠ "size".toList := other
      simp only [step, position, other, if_false]
  | signed =>
      have position : p.fp = .signed := position
      have other : s ≠ "signed".toList := other
      simp only [step, position, other, if_false]

theorem at_declared (reached : At .declaration p) (s rest : List Char) :
    ∃ q, At (.number .offset) q ∧ step p s rest = .ok (q, rest) := by
  obtain ⟨position, -, pushed⟩ := reached
  obtain ⟨cfg, more, here⟩ := List.exists_cons_of_ne_nil pushed
  refine ⟨{ p with here := readDecl s cfg :: more, delim := fieldDelim, fp := .offset },
    ⟨rfl, rfl, List.cons_ne_nil _ _⟩, ?_⟩
  simp only [step, position, write_pushed here]
  rfl

theorem push_next_pushed (p : Parser) : p.pushNext.here ≠ [] := by
  unfold Parser.pushNext
  split <;> simp

theorem at_field (reached : At .fields p) (rest : List Char) :
    ∃ q, At .declaration q ∧ step p "field".toList rest = .ok (q, rest) :=
  ⟨{ p.pushNext with fp := .name, delim := declDelim }, ⟨rfl, rfl, push_next_pushed p⟩,
    step_field reached.1 rest⟩

/-- `print`, among the fields or in front of them: the rest of its line is read. -/
theorem at_print (reached : p.fp = .begin ∨ p.fp = .off) (rest : List Char) :
    ∃ q, At (.head p.delim) q ∧ step p "print".toList rest = .ok (q, (strtokR ['\n'] rest).2) := by
  rcases reached with position | position
  · exact ⟨{ p with fp := .off }, ⟨rfl, rfl⟩, step_print position rest⟩
  · exact ⟨{ p with ret := -1 }, ⟨position, rfl⟩, by simp [step, position]⟩

theorem at_mismatch (reached : At .fields p) (noField : s ≠ "field".toList)
    (noPrint : s ≠ "print".toList) (rest : List Char) :
    ∃ q, At .fields q ∧ step p s rest = .ok (q, rest) := by
  refine ⟨{ p with ret := -1 }, ⟨reached.1, reached.2⟩, ?_⟩
  simp only [step, reached.1, noField, noPrint, if_false]

theorem at_entry (reached : At (.head delim) p) (known : s = "name".toList ∨ s = "ID".toList)
    (rest : List Char) : step p s rest = .ok (p, (strtokR delim rest).2) := by
  rw [step_entry reached.1 known, reached.2]

theorem at_format (reached : At (.head delim) p) (rest : List Char) :
    ∃ q, At .fields q ∧ step p "format".toList rest = .ok (q, rest) :=
  ⟨{ p with delim := fieldDelim, fp := .begin }, ⟨rfl, rfl⟩, step_format reached.1 rest⟩

theorem at_unknown (reached : At (.head delim) p)
    (unknown : s ∉ ["name".toList, "ID".toList, "format".toList, "print".toList])
    (rest : List Char) : step p s rest = .ok (p, rest) := by
  simp only [List.mem_cons, List.not_mem_nil, or_false, not_or] at unknown
  simp only [step, reached.1, unknown.1, unknown.2.1, unknown.2.2.1, unknown.2.2.2, if_false]

/-- A call whose token is passed over: nothing is left, or the text behind the token. -/
theorem line_or_nothing (rest : List Char) :
    (strtokR delim rest).2 = [] ∨ ∃ word rest', NextWord delim rest word rest' ∧
      (strtokR delim rest).2 = rest' := by
  rcases gap_or_next_word delim rest with nothing | ⟨word, rest', token⟩
  · exact .inl (by rw [strtok_gap nothing])
  · exact .inr ⟨word, rest', token, by rw [strtok_next_word token]⟩

end Rounds

/-- A cut text makes the reader convert a token that is not there. -/
theorem run_cut {part : Part} {text : List Char} (cut : Cut part text) :
    ∀ {p : Parser}, At part p → run p text = .error .missingToken := by
  induction cut with
  | missing token missing =>
      intro p reached
      exact run_stop (reached.2.1 ▸ token) (at_missing reached missing)
  | number token value _ ih =>
      intro p reached
      obtain ⟨q, later, stepped⟩ := at_number reached value
      rw [run_next (reached.2.1 ▸ token) stepped, ih later]
  | other token other _ ih =>
      intro p reached
      rw [run_next (reached.2.1 ▸ token) (at_other reached other _), ih reached]
  | declared token _ ih =>
      intro p reached
      obtain ⟨q, later, stepped⟩ := at_declared reached _ _
      rw [run_next (reached.2.1 ▸ token) stepped, ih later]
  | field token _ ih =>
      intro p reached
      obtain ⟨q, later, stepped⟩ := at_field reached _
      rw [run_next (reached.2 ▸ token) stepped, ih later]
  | print token line _ ih =>
      intro p reached
      obtain ⟨q, later, stepped⟩ := at_print (.inl reached.1) _
      rw [strtok_next_word line] at stepped
      rw [run_next (reached.2 ▸ token) stepped, ih (reached.2 ▸ later)]
  | mismatch token noField noPrint _ ih =>
      intro p reached
      obtain ⟨q, later, stepped⟩ := at_mismatch reached noField noPrint _
      rw [run_next (reached.2 ▸ token) stepped, ih later]
  | @entry delim text key rest word rest' token known value _ ih =>
      intro p reached
      have stepped := at_entry reached known rest
      rw [strtok_next_word value] at stepped
      rw [run_next (reached.2 ▸ token) stepped, ih reached]
  | format token _ ih =>
      intro p reached
      obtain ⟨q, later, stepped⟩ := at_format reached _
      rw [run_next (reached.2 ▸ token) stepped, ih later]
  | again token line _ ih =>
      intro p reached
      obtain ⟨q, later, stepped⟩ := at_print (.inr reached.1) _
      rw [strtok_next_word line] at stepped
      rw [run_next (reached.2 ▸ token) stepped, ih (reached.2 ▸ later)]
  | unknown token unknown _ ih =>
      intro p reached
      rw [run_next (reached.2 ▸ token) (at_unknown reached unknown _), ih reached]

/-- The reader comes to an end, or the text is cut. -/
def Settled (part : Part) (p : Parser) (text : List Char) : Prop :=
  (∃ q, run p text = .ok q) ∨ (run p text = .error .missingToken ∧ Cut part text)

theorem settled_end {part : Part} {p q : Parser} {s text rest : List Char}
    (token : NextWord p.delim text s rest) (stepped : step p s rest = .ok (q, [])) :
    Settled part p text :=
  .inl ⟨q, by rw [run_next token stepped, run_gap gap_nil]⟩

theorem settled_next {part part' : Part} {p q : Parser} {s text rest rest' : List Char}
    (token : NextWord p.delim text s rest) (stepped : step p s rest = .ok (q, rest'))
    (later : Settled part' q rest') (cut : Cut part' rest' → Cut part text) :
    Settled part p text := by
  rw [Settled, run_next token stepped]
  exact later.imp_right fun ⟨stopped, below⟩ => ⟨stopped, cut below⟩

/-- By the length of the text; a round takes its word at least. -/
theorem run_settled (part : Part) (p : Parser) (text : List Char) (reached : At part p) :
    Settled part p text := by
  induction size : text.length using Nat.strong_induction_on generalizing part p text with
  | _ size ih =>
      have shorter : ∀ {part' q s rest rest'}, NextWord p.delim text s rest → At part' q →
          rest'.length ≤ rest.length → Settled part' q rest' := by
        intro part' q s rest rest' token later kept
        have less := next_word_shorter token
        exact ih rest'.length (by omega) part' q rest' later rfl
      rcases gap_or_next_word p.delim text with nothing | ⟨s, rest, token⟩
      · exact .inl ⟨p, run_gap nothing⟩
      cases part with
      | number key =>
          have token' : NextWord fieldDelim text s rest := reached.2.1 ▸ token
          by_cases found : s = key.text
          · subst found
            rcases gap_or_next_word fieldDelim rest with missing | ⟨word, rest', value⟩
            · exact .inr ⟨run_stop token (at_missing reached missing), .missing token' missing⟩
            · obtain ⟨q, later, stepped⟩ := at_number reached value
              exact settled_next token stepped (shorter token later (next_word_shorter value).le)
                (.number token' value)
          · exact settled_next token (at_other reached found rest)
              (shorter token reached le_rfl) (.other token' found)
      | declaration =>
          obtain ⟨q, later, stepped⟩ := at_declared reached s rest
          exact settled_next token stepped (shorter token later le_rfl)
            (.declared (reached.2.1 ▸ token))
      | fields =>
          have token' : NextWord fieldDelim text s rest := reached.2 ▸ token
          by_cases field : s = "field".toList
          · subst field
            obtain ⟨q, later, stepped⟩ := at_field reached rest
            exact settled_next token stepped (shorter token later le_rfl) (.field token')
          by_cases print : s = "print".toList
          · subst print
            obtain ⟨q, later, stepped⟩ := at_print (.inl reached.1) rest
            rcases line_or_nothing rest with behind | ⟨line, rest', read, behind⟩
            · exact settled_end token (behind ▸ stepped)
            · rw [behind] at stepped
              exact settled_next token stepped (shorter token later (next_word_shorter read).le)
                fun below => .print token' read (reached.2 ▸ below)
          · obtain ⟨q, later, stepped⟩ := at_mismatch reached field print rest
            exact settled_next token stepped (shorter token later le_rfl)
              (.mismatch token' field print)
      | head delim =>
          have token' : NextWord delim text s rest := reached.2 ▸ token
          by_cases known : s = "name".toList ∨ s = "ID".toList
          · have stepped := at_entry reached known rest
            rcases line_or_nothing rest with behind | ⟨word, rest', value, behind⟩
            · exact settled_end token (behind ▸ stepped)
            · rw [behind] at stepped
              exact settled_next token stepped
                (shorter token reached (next_word_shorter value).le) (.entry token' known value)
          by_cases format : s = "format".toList
          · subst format
            obtain ⟨q, later, stepped⟩ := at_format reached rest
            exact settled_next token stepped (shorter token later le_rfl) (.format token')
          by_cases print : s = "print".toList
          · subst print
            obtain ⟨q, later, stepped⟩ := at_print (.inr reached.1) rest
            rcases line_or_nothing rest with behind | ⟨line, rest', read, behind⟩
            · exact settled_end token (behind ▸ stepped)
            · rw [behind] at stepped
              exact settled_next token stepped (shorter token later (next_word_shorter read).le)
                fun below => .again token' read (reached.2 ▸ below)
          · have unknown : s ∉ ["name".toList, "ID".toList, "format".toList, "print".toList] := by
              simp only [not_or] at known
              simp only [List.mem_cons, List.not_mem_nil, or_false, not_or]
              exact ⟨known.1, known.2, format, print⟩
            exact settled_next token (at_unknown reached unknown rest)
              (shorter token reached le_rfl) (.unknown token' unknown)

/-- A cut text ends with the keyword, delimiters apart. -/
theorem cut_ends {part : Part} {text : List Char} (cut : Cut part text) :
    ∃ front, ∃ key : Keyword, ∃ gap, Gap fieldDelim gap ∧ text = front ++ (key.text ++ gap) := by
  have inside : ∀ {delim text word rest}, NextWord delim text word rest →
      (∃ front, ∃ key : Keyword, ∃ gap, Gap fieldDelim gap ∧ rest = front ++ (key.text ++ gap)) →
      ∃ front, ∃ key : Keyword, ∃ gap, Gap fieldDelim gap ∧ text = front ++ (key.text ++ gap) := by
    rintro delim text word rest token ⟨front, key, gap, blank, same⟩
    cases token with
    | last =>
        have both := List.append_eq_nil_iff.mp (List.append_eq_nil_iff.mp same.symm).2
        exact absurd both.1 (by cases key <;> decide)
    | @ended skipped word rest stop =>
        exact ⟨skipped ++ (word ++ stop :: front), key, gap, blank, by simp [same]⟩
  induction cut with
  | @missing key text rest token missing =>
      generalize word : key.text = word at token
      cases token with
      | @last skipped => exact ⟨skipped, key, [], gap_nil, by simp [word]⟩
      | @ended skipped word rest stop _ _ ends =>
          refine ⟨skipped, key, stop :: rest, ?_, by rw [word]⟩
          intro c member
          rcases List.mem_cons.mp member with rfl | later
          · exact ends
          · exact missing c later
  | number token value _ ih | print token value _ ih | again token value _ ih =>
      exact inside token (inside value ih)
  | entry token _ value _ ih => exact inside token (inside value ih)
  | other token _ _ ih | mismatch token _ _ _ ih | unknown token _ _ ih => exact inside token ih
  | declared token _ ih | field token _ ih | format token _ ih => exact inside token ih

theorem start_at (ecfg : List FtraceEcfg) : At (.head headDelim) (start ecfg) := ⟨rfl, rfl⟩

/-- No run ends in a write to a record that was not pushed, and none is endless. -/
theorem parse_event_fields_stop {ecfg : List FtraceEcfg} {text : List Char} {stop : Stop}
    (stopped : parseEventFields ecfg text = .error stop) : stop = .missingToken := by
  rcases run_settled _ _ text (start_at ecfg) with ⟨q, ended⟩ | ⟨missed, -⟩
  · rw [parseEventFields, ended] at stopped
    simp [bind, Except.bind] at stopped
  · rw [parseEventFields, missed] at stopped
    simpa [bind, Except.bind] using stopped.symm

theorem parse_event_fields_ends_iff (ecfg : List FtraceEcfg) (text : List Char) :
    (∃ out, parseEventFields ecfg text = .ok out) ↔ ¬ Cut (.head headDelim) text := by
  constructor
  · rintro ⟨out, parsed⟩ cut
    rw [parseEventFields, run_cut cut (start_at ecfg)] at parsed
    simp [bind, Except.bind] at parsed
  · intro whole
    rcases run_settled _ _ text (start_at ecfg) with ⟨q, ended⟩ | ⟨-, cut⟩
    · exact ⟨(q.ret, q.before ++ q.here), by rw [parseEventFields, ended]; rfl⟩
    · exact absurd cut whole

/-- One field, `int x` at offset 0. -/
def oneField : Format where
  name := ['e']
  id := 1
  groups := [[⟨["int".toList], ['x'], none, 0, 4, 1, by simp [Word], by simp [Word],
    by simp⟩]]
  fmt := []
  newlines := 1
  plainName := by simp [Word, headDelim]
  oneLine := by simp

/-- Such a text, cut where a read buffer may end, behind `offset:`. -/
theorem cut_behind_offset : ¬ ∀ (ecfg : List FtraceEcfg) (text : List Char),
    (∃ format : Format, text <+: format.render) →
      ∃ out, parseEventFields ecfg text = .ok out := by
  intro total
  obtain ⟨out, parsed⟩ := total [] (oneField.render.take 43) ⟨oneField, List.take_prefix _ _⟩
  have stopped : parseEventFields [] (oneField.render.take 43) = .error .missingToken := by decide
  rw [stopped] at parsed
  cases parsed

end Orchestrator.FormatCut
