import Mathlib.Data.List.TakeWhile

/-!
`strtok_r` on the text of a buffer: the delimiters in front are skipped, the token
runs up to the next delimiter, and that delimiter is gone from the text left behind.
The set may be another one at every call.
-/

namespace Orchestrator.Strtok
variable {delim gap word rest text : List Char}

/-- `strtok_r(text, delim, &save)`: the token, if there is one, and the text behind it. -/
def strtokR (delim text : List Char) : Option (List Char) × List Char :=
  match text.dropWhile (· ∈ delim) with
  | [] => (none, [])
  | first :: more =>
      (some ((first :: more).takeWhile (· ∉ delim)),
        ((first :: more).dropWhile (· ∉ delim)).tail)

def Gap (delim gap : List Char) : Prop := ∀ c ∈ gap, c ∈ delim

def Word (delim word : List Char) : Prop := word ≠ [] ∧ ∀ c ∈ word, c ∉ delim

instance (delim gap : List Char) : Decidable (Gap delim gap) :=
  List.decidableBAll (fun c => c ∈ delim) gap

instance (delim word : List Char) : Decidable (Word delim word) :=
  have : Decidable (∀ c ∈ word, c ∉ delim) := List.decidableBAll (fun c => c ∉ delim) word
  instDecidableAnd

/-- The text is a gap, then this word, then the end or a delimiter and the rest. -/
inductive NextWord (delim : List Char) : List Char → List Char → List Char → Prop
  | last {gap word : List Char} : Gap delim gap → Word delim word →
      NextWord delim (gap ++ word) word []
  | ended {gap word rest : List Char} {stop : Char} : Gap delim gap → Word delim word →
      stop ∈ delim → NextWord delim (gap ++ (word ++ stop :: rest)) word rest

theorem gap_nil : Gap delim [] := by simp [Gap]

theorem drop_gap (skipped : Gap delim gap) (text : List Char) :
    (gap ++ text).dropWhile (· ∈ delim) = text.dropWhile (· ∈ delim) :=
  List.dropWhile_append_of_pos fun c member => by simpa using skipped c member

theorem strtok_gap (skipped : Gap delim gap) : strtokR delim gap = (none, []) := by
  have emptied : gap.dropWhile (· ∈ delim) = [] := by
    simpa using drop_gap skipped []
  rw [strtokR, emptied]

/-- The token when the text behind the gap is this one and starts with no delimiter. -/
theorem strtok_after_gap {first : Char} {more : List Char} (skipped : Gap delim gap)
    (start : first ∉ delim) :
    strtokR delim (gap ++ first :: more) =
      (some ((first :: more).takeWhile (· ∉ delim)),
        ((first :: more).dropWhile (· ∉ delim)).tail) := by
  have reached : (gap ++ first :: more).dropWhile (· ∈ delim) = first :: more := by
    rw [drop_gap skipped, List.dropWhile_cons_of_neg (by simpa using start)]
  rw [strtokR, reached]

theorem strtok_last (skipped : Gap delim gap) (token : Word delim word) :
    strtokR delim (gap ++ word) = (some word, []) := by
  obtain ⟨first, more, rfl⟩ := List.exists_cons_of_ne_nil token.1
  have inside : ∀ c ∈ first :: more, decide (c ∉ delim) = true :=
    fun c member => by simpa using token.2 c member
  rw [strtok_after_gap skipped (token.2 first (by simp)), List.takeWhile_eq_self_iff.mpr inside,
    List.dropWhile_eq_nil_iff.mpr inside, List.tail_nil]

theorem strtok_ended {stop : Char} (skipped : Gap delim gap) (token : Word delim word)
    (ends : stop ∈ delim) (rest : List Char) :
    strtokR delim (gap ++ (word ++ stop :: rest)) = (some word, rest) := by
  obtain ⟨first, more, rfl⟩ := List.exists_cons_of_ne_nil token.1
  have inside : ∀ c ∈ first :: more, decide (c ∉ delim) = true :=
    fun c member => by simpa using token.2 c member
  rw [List.cons_append, strtok_after_gap skipped (token.2 first (by simp)), ← List.cons_append,
    List.takeWhile_append_of_pos inside, List.dropWhile_append_of_pos inside,
    List.takeWhile_cons_of_neg (by simpa using ends),
    List.dropWhile_cons_of_neg (by simpa using ends), List.append_nil, List.tail_cons]

/-- A token that starts the text and ends at this delimiter. -/
theorem strtok_front {stop : Char} (token : Word delim word) (ends : stop ∈ delim)
    (rest : List Char) : strtokR delim (word ++ stop :: rest) = (some word, rest) :=
  strtok_ended gap_nil token ends rest

theorem strtok_next_word (next : NextWord delim text word rest) :
    strtokR delim text = (some word, rest) := by
  cases next with
  | last skipped token => exact strtok_last skipped token
  | ended skipped token ends => exact strtok_ended skipped token ends _

theorem drop_while_stops {stops : Char → Bool} {stop : Char}
    (reached : text.dropWhile stops = stop :: rest) : stops stop = false := by
  have some : text.dropWhile stops ≠ [] := by
    rw [reached]
    exact List.cons_ne_nil stop rest
  have stopped := List.head_dropWhile_not stops some
  simpa only [reached, List.head_cons] using stopped

/-- Every text is a gap, or a gap and a next word. -/
theorem gap_or_next_word (delim text : List Char) :
    Gap delim text ∨ ∃ word rest, NextWord delim text word rest := by
  have split := (List.takeWhile_append_dropWhile (p := (· ∈ delim)) (l := text)).symm
  have skipped : Gap delim (text.takeWhile (· ∈ delim)) :=
    fun c member => by simpa using List.mem_takeWhile_imp member
  cases reached : text.dropWhile (· ∈ delim) with
  | nil =>
      rw [reached, List.append_nil] at split
      exact .inl (split ▸ skipped)
  | cons first more =>
      right
      have start : first ∉ delim := by simpa using drop_while_stops reached
      have token : Word delim ((first :: more).takeWhile (· ∉ delim)) := by
        refine ⟨by simp [start], fun c member => ?_⟩
        simpa using List.mem_takeWhile_imp member
      have parts := (List.takeWhile_append_dropWhile (p := (· ∉ delim)) (l := first :: more)).symm
      cases behind : (first :: more).dropWhile (· ∉ delim) with
      | nil =>
          rw [behind, List.append_nil] at parts
          rw [split, reached]
          rw [← parts] at token
          exact ⟨_, _, .last skipped token⟩
      | cons stop rest =>
          have ends : stop ∈ delim := by simpa using drop_while_stops behind
          rw [split, reached, parts, behind]
          exact ⟨_, _, .ended skipped token ends⟩

theorem strtok_some_iff : strtokR delim text = (some word, rest) ↔ NextWord delim text word rest := by
  refine ⟨fun called => ?_, strtok_next_word⟩
  rcases gap_or_next_word delim text with skipped | ⟨word', rest', next⟩
  · rw [strtok_gap skipped] at called
    simp at called
  · rw [strtok_next_word next] at called
    simp only [Prod.mk.injEq, Option.some.injEq] at called
    exact called.1 ▸ called.2 ▸ next

theorem strtok_none_iff : (strtokR delim text).1 = none ↔ Gap delim text := by
  refine ⟨fun called => ?_, fun skipped => by rw [strtok_gap skipped]⟩
  rcases gap_or_next_word delim text with skipped | ⟨word, rest, next⟩
  · exact skipped
  · rw [strtok_next_word next] at called
    simp at called

theorem next_word_shorter (next : NextWord delim text word rest) : rest.length < text.length := by
  cases next with
  | last skipped token =>
      have some := List.length_pos_iff.mpr token.1
      simp only [List.length_append, List.length_nil]
      omega
  | ended =>
      simp only [List.length_append, List.length_cons]
      omega

/-- What a call leaves is no longer than what it was given. -/
theorem strtok_rest_le (delim text : List Char) : (strtokR delim text).2.length ≤ text.length := by
  rcases gap_or_next_word delim text with skipped | ⟨word, rest, next⟩
  · simp [strtok_gap skipped]
  · rw [strtok_next_word next]
    exact (next_word_shorter next).le

theorem strtok_skip (skipped : Gap delim gap) (text : List Char) :
    strtokR delim (gap ++ text) = strtokR delim text := by
  simp only [strtokR, drop_gap skipped]

section AllTokens

/-- The tokens of a text, for as many calls as this. -/
def tokensWithin (delim : List Char) : Nat → List Char → List (List Char)
  | 0, _ => []
  | calls + 1, text =>
      match strtokR delim text with
      | (none, _) => []
      | (some word, rest) => word :: tokensWithin delim calls rest

/-- All tokens, in order: every call but the last takes a character at least. -/
def tokens (delim text : List Char) : List (List Char) := tokensWithin delim (text.length + 1) text

theorem tokens_within_enough {calls others : Nat} (enough : text.length < calls)
    (enoughToo : text.length < others) :
    tokensWithin delim calls text = tokensWithin delim others text := by
  induction calls generalizing others text with
  | zero => omega
  | succ calls ih =>
      obtain ⟨others, rfl⟩ := Nat.exists_eq_succ_of_ne_zero (by omega : others ≠ 0)
      rcases gap_or_next_word delim text with skipped | ⟨word, rest, next⟩
      · simp only [tokensWithin, strtok_gap skipped]
      · have shorter := next_word_shorter next
        simp only [tokensWithin, strtok_next_word next]
        exact congrArg (word :: ·) (ih (by omega) (by omega))

theorem tokens_gap (skipped : Gap delim gap) : tokens delim gap = [] := by
  simp only [tokens, tokensWithin, strtok_gap skipped]

theorem tokens_next_word (next : NextWord delim text word rest) :
    tokens delim text = word :: tokens delim rest := by
  have same : tokensWithin delim text.length rest = tokens delim rest :=
    tokens_within_enough (next_word_shorter next) (Nat.lt_succ_self _)
  rw [← same, tokens, tokensWithin, strtok_next_word next]

/-- Words with one delimiter behind each, and a last word. -/
theorem tokens_joined {words : List (List Char)} {last : List Char} {stop : Char}
    (ends : stop ∈ delim) (plain : ∀ word ∈ words, Word delim word) (token : Word delim last) :
    tokens delim (words.flatMap (· ++ [stop]) ++ last) = words ++ [last] := by
  induction words with
  | nil => rw [List.flatMap_nil, tokens_next_word (.last gap_nil token), tokens_gap gap_nil]; rfl
  | cons word words ih =>
      have front : (word :: words).flatMap (· ++ [stop]) ++ last =
          [] ++ (word ++ stop :: (words.flatMap (· ++ [stop]) ++ last)) := by simp
      rw [front, tokens_next_word (.ended gap_nil (plain word (by simp)) ends),
        ih fun other member => plain other (by simp [member])]
      rfl

end AllTokens

end Orchestrator.Strtok
