/-!
Traversals that may stop. What each step of a run establishes composes into a
relation between its first state, the elements visited and its last state.
-/

namespace Orchestrator.Traversal

section Runs
variable {ε α β σ : Type}

theorem bind_ok {first : Except ε α} {next : α → Except ε β} {result : β}
    (run : (first >>= next) = .ok result) :
    ∃ middle, first = .ok middle ∧ next middle = .ok result := by
  cases first with
  | error stop => cases run
  | ok middle => exact ⟨middle, rfl, run⟩

/-- The run returns a result that passes the check. -/
def returns (run : Except ε α) (check : α → Bool) : Bool :=
  match run with
  | .ok result => check result
  | .error _ => false

theorem returns_iff (run : Except ε α) (check : α → Bool) :
    returns run check = true ↔ ∃ result, run = .ok result ∧ check result = true := by
  cases run with
  | error stop => simp [returns]
  | ok result => simp [returns]

theorem fold_rule (step : σ → α → Except ε σ) (relates : σ → List α → σ → Prop)
    (done : ∀ state, relates state [] state)
    (more : ∀ state item next rest finish, step state item = .ok next →
      relates next rest finish → relates state (item :: rest) finish)
    (items : List α) (start finish : σ) (run : items.foldlM step start = .ok finish) :
    relates start items finish := by
  induction items generalizing start with
  | nil =>
      cases run
      exact done _
  | cons item rest ih =>
      rw [List.foldlM_cons] at run
      obtain ⟨next, first, tail⟩ := bind_ok run
      exact more start item next rest finish first (ih next tail)

/-- A `while` loop that stops with `stuck` after this many turns. -/
def repeatWhile (stuck : ε) (cond : σ → Bool) (body : σ → σ) : Nat → σ → Except ε σ
  | 0, _ => .error stuck
  | fuel + 1, state =>
      if cond state then repeatWhile stuck cond body fuel (body state) else .ok state

/-- A loop whose state after every turn is known. -/
theorem repeat_while_states (stuck : ε) (cond : σ → Bool) (body : σ → σ) (state : Nat → σ)
    (count : Nat) (next : ∀ turn < count, body (state turn) = state (turn + 1))
    (goes : ∀ turn < count, cond (state turn) = true) (stops : cond (state count) = false)
    (fuel : Nat) (enough : count < fuel) :
    repeatWhile stuck cond body fuel (state 0) = .ok (state count) := by
  induction count generalizing state fuel with
  | zero =>
      obtain ⟨more, rfl⟩ : ∃ more, fuel = more + 1 := ⟨fuel - 1, by omega⟩
      rw [repeatWhile, if_neg (by simp [stops])]
  | succ count ih =>
      obtain ⟨more, rfl⟩ : ∃ more, fuel = more + 1 := ⟨fuel - 1, by omega⟩
      rw [repeatWhile, if_pos (goes 0 (Nat.succ_pos count)), next 0 (Nat.succ_pos count)]
      exact ih (fun turn => state (turn + 1)) (fun turn below => next (turn + 1) (by omega))
        (fun turn below => goes (turn + 1) (by omega)) stops more (by omega)

/-- A run over one more element ends with a step from where the shorter run ends. -/
theorem fold_snoc (step : σ → α → Except ε σ) (items : List α) (item : α) (start finish : σ)
    (run : (items ++ [item]).foldlM step start = .ok finish) :
    ∃ middle, items.foldlM step start = .ok middle ∧ step middle item = .ok finish := by
  rw [List.foldlM_append] at run
  obtain ⟨middle, first, last⟩ := bind_ok run
  exact ⟨middle, first, by simpa using last⟩

end Runs

end Orchestrator.Traversal
