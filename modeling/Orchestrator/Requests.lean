import Mathlib.Tactic.Common

/-!
Programs that make requests of the system they run on: what they ask for along every
run, whatever they are answered, and what their results owe to the answers.
-/

namespace Orchestrator.Requests

variable {Op : Type} {Answer : Op → Type} {ε α β σ ι : Type}

/-- A program of finitely many requests; `fail` ends it and every program it is part of. -/
inductive Program (Answer : Op → Type) (ε α : Type) where
  | done (value : α)
  | fail (stop : ε)
  | ask (op : Op) (next : Answer op → Program Answer ε α)

/-- A request that was answered. -/
abbrev Exchange (Answer : Op → Type) := (op : Op) × Answer op

namespace Program

def bind : Program Answer ε α → (α → Program Answer ε β) → Program Answer ε β
  | done value, rest => rest value
  | fail stop, _ => fail stop
  | ask op next, rest => ask op fun answer => (next answer).bind rest

instance : Monad (Program Answer ε) where
  pure := done
  bind := bind

/-- One request. -/
def request (op : Op) : Program Answer ε (Answer op) := ask op done

/-- The operational reading: the exchanges of a run, in order, and how it ends. -/
inductive Runs : Program Answer ε α → List (Exchange Answer) → Except ε α → Prop where
  | done (value : α) : Runs (done value) [] (.ok value)
  | fail (stop : ε) : Runs (fail stop) [] (.error stop)
  | ask {op : Op} {next : Answer op → Program Answer ε α} {trace : List (Exchange Answer)}
      {result : Except ε α} (answer : Answer op) (rest : Runs (next answer) trace result) :
      Runs (ask op next) (⟨op, answer⟩ :: trace) result

/-- The run against a system that keeps a state. -/
def execute (system : (op : Op) → σ → Answer op × σ) :
    Program Answer ε α → σ → List (Exchange Answer) × Except ε α × σ
  | done value, state => ([], .ok value, state)
  | fail stop, state => ([], .error stop, state)
  | ask op next, state =>
      let (answer, state) := system op state
      let (trace, result, final) := execute system (next answer) state
      (⟨op, answer⟩ :: trace, result, final)

theorem execute_runs (system : (op : Op) → σ → Answer op × σ) (program : Program Answer ε α)
    (state : σ) :
    Runs program (execute system program state).1 (execute system program state).2.1 := by
  induction program generalizing state with
  | done value => exact .done value
  | fail stop => exact .fail stop
  | ask op next ih => exact .ask _ (ih _ _)

/-! What a program asks. -/

/-- Every request passes `P`, and so does every value that is returned `R`. -/
def Keeps (P : Op → Prop) (R : α → Prop) : Program Answer ε α → Prop
  | done value => R value
  | fail _ => True
  | ask op next => P op ∧ ∀ answer, (next answer).Keeps P R

section Keeps
variable {P : Op → Prop} {R : α → Prop} {S : β → Prop}

theorem Keeps.bind {program : Program Answer ε α} {rest : α → Program Answer ε β}
    (first : program.Keeps P R) (second : ∀ value, R value → (rest value).Keeps P S) :
    (program >>= rest).Keeps P S := by
  induction program with
  | done value => exact second value first
  | fail stop => exact trivial
  | ask op next ih => exact ⟨first.1, fun answer => ih answer (first.2 answer)⟩

theorem Keeps.mono {Q : Op → Prop} {T : α → Prop} {program : Program Answer ε α}
    (kept : program.Keeps P R) (ops : ∀ op, P op → Q op) (values : ∀ value, R value → T value) :
    program.Keeps Q T := by
  induction program with
  | done value => exact values value kept
  | fail stop => exact trivial
  | ask op next ih => exact ⟨ops op kept.1, fun answer => ih answer (kept.2 answer)⟩

theorem keeps_request {op : Op} (asked : P op) :
    (request op : Program Answer ε (Answer op)).Keeps P fun _ => True :=
  ⟨asked, fun _ => trivial⟩

theorem Keeps.ite {c : Prop} [Decidable c] {program other : Program Answer ε α}
    (first : c → program.Keeps P R) (second : ¬c → other.Keeps P R) :
    (if c then program else other).Keeps P R := by
  split_ifs with holds
  · exact first holds
  · exact second holds

/-- A loop whose turns keep what they need. -/
theorem Keeps.fold {step : σ → ι → Program Answer ε σ} {I : σ → Prop} {items : List ι}
    (turn : ∀ item ∈ items, ∀ state, I state → (step state item).Keeps P I) (state : σ)
    (start : I state) : (items.foldlM step state).Keeps P I := by
  induction items generalizing state with
  | nil => exact start
  | cons item rest ih =>
      rw [List.foldlM_cons]
      exact (turn item List.mem_cons_self state start).bind fun next kept =>
        ih (fun other member => turn other (List.mem_cons_of_mem item member)) next kept

theorem Keeps.each {step : ι → Program Answer ε Unit} {items : List ι}
    (turn : ∀ item ∈ items, (step item).Keeps P fun _ => True) :
    (forM items step).Keeps P fun _ => True := by
  induction items with
  | nil => exact trivial
  | cons item rest ih =>
      rw [List.forM_cons]
      exact (turn item List.mem_cons_self).bind fun _ _ =>
        ih fun other member => turn other (List.mem_cons_of_mem item member)

theorem Keeps.requests {program : Program Answer ε α} (kept : program.Keeps P R)
    {trace : List (Exchange Answer)} {result : Except ε α} (run : Runs program trace result) :
    ∀ exchange ∈ trace, P exchange.1 := by
  induction run with
  | done value => simp
  | fail stop => simp
  | ask answer rest ih =>
      exact List.forall_mem_cons.mpr ⟨kept.1, ih (kept.2 answer)⟩

end Keeps

/-! What the exchanges so far and the result come to. -/

/-- However the program goes on from these exchanges, `Q` holds of the value it returns
and `E` where it fails, with all exchanges at hand. -/
def Ends (past : List (Exchange Answer)) (Q : α → List (Exchange Answer) → Prop)
    (E : ε → List (Exchange Answer) → Prop) : Program Answer ε α → Prop
  | done value => Q value past
  | fail stop => E stop past
  | ask op next => ∀ answer, (next answer).Ends (past ++ [⟨op, answer⟩]) Q E

section Ends
variable {past : List (Exchange Answer)} {Q : α → List (Exchange Answer) → Prop}
  {E : ε → List (Exchange Answer) → Prop}

theorem ends_bind {program : Program Answer ε α} {rest : α → Program Answer ε β}
    {T : β → List (Exchange Answer) → Prop} :
    (program >>= rest).Ends past T E ↔
      program.Ends past (fun value sofar => (rest value).Ends sofar T E) E := by
  induction program generalizing past with
  | done value => exact Iff.rfl
  | fail stop => exact Iff.rfl
  | ask op next ih => exact forall_congr' fun answer => ih answer

theorem Ends.mono {program : Program Answer ε α} {T : α → List (Exchange Answer) → Prop}
    {F : ε → List (Exchange Answer) → Prop} (ends : program.Ends past Q E)
    (values : ∀ value sofar, Q value sofar → T value sofar)
    (stops : ∀ stop sofar, E stop sofar → F stop sofar) : program.Ends past T F := by
  induction program generalizing past with
  | done value => exact values value past ends
  | fail stop => exact stops stop past ends
  | ask op next ih => exact fun answer => ih answer (ends answer)

theorem Ends.and {program : Program Answer ε α} {T : α → List (Exchange Answer) → Prop}
    (ends : program.Ends past Q E) (kept : program.Ends past T E) :
    program.Ends past (fun value sofar => Q value sofar ∧ T value sofar) E := by
  induction program generalizing past with
  | done value => exact ⟨ends, kept⟩
  | fail stop => exact ends
  | ask op next ih => exact fun answer => ih answer (ends answer) (kept answer)

/-- What is known of the parts before and behind a bind. -/
theorem Ends.bind {program : Program Answer ε α} {rest : α → Program Answer ε β}
    {T : β → List (Exchange Answer) → Prop} (first : program.Ends past Q E)
    (second : ∀ value sofar, Q value sofar → (rest value).Ends sofar T E) :
    (program >>= rest).Ends past T E :=
  ends_bind.mpr (first.mono second fun _ _ failed => failed)

theorem ends_runs {program : Program Answer ε α} :
    program.Ends past Q E ↔ ∀ trace result, Runs program trace result →
      match result with
      | .ok value => Q value (past ++ trace)
      | .error stop => E stop (past ++ trace) := by
  induction program generalizing past with
  | done value =>
      constructor
      · rintro ends _ _ ⟨⟩
        simpa [Ends] using ends
      · intro all
        simpa [Ends] using all [] (.ok value) (.done value)
  | fail stop =>
      constructor
      · rintro ends _ _ ⟨⟩
        simpa [Ends] using ends
      · intro all
        simpa [Ends] using all [] (.error stop) (.fail stop)
  | ask op next ih =>
      -- the exchange moves from the front of the trace to the end of the past
      constructor
      · rintro ends _ _ (_ | _ | ⟨answer, rest⟩)
        simpa using (ih answer).mp (ends answer) _ _ rest
      · intro all answer
        refine (ih answer).mpr fun trace result run => ?_
        simpa using all _ _ (.ask answer run)

/-- Steps whose requests are all of one kind only add such exchanges. -/
theorem Keeps.ends {P : Op → Prop} {R : α → Prop} {program : Program Answer ε α}
    (kept : program.Keeps P R) (past : List (Exchange Answer)) :
    program.Ends past
      (fun value sofar => R value ∧ ∃ added, sofar = past ++ added ∧
        ∀ exchange ∈ added, P exchange.1)
      fun _ sofar => ∃ added, sofar = past ++ added ∧ ∀ exchange ∈ added, P exchange.1 := by
  induction program generalizing past with
  | done value => exact ⟨kept, [], by simp, by simp⟩
  | fail stop => exact ⟨[], by simp, by simp⟩
  | ask op next ih =>
      intro answer
      -- what follows adds to a past that has this exchange already
      have longer : ∀ sofar, (∃ added, sofar = past ++ [⟨op, answer⟩] ++ added ∧
          ∀ exchange ∈ added, P exchange.1) →
          ∃ added, sofar = past ++ added ∧ ∀ exchange ∈ added, P exchange.1 := by
        rintro sofar ⟨added, rfl, same⟩
        exact ⟨⟨op, answer⟩ :: added, by simp, List.forall_mem_cons.mpr ⟨kept.1, same⟩⟩
      exact (ih answer (kept.2 answer) _).mono
        (fun value sofar held => ⟨held.1, longer sofar held.2⟩)
        fun _ sofar held => longer sofar held

/-- What follows steps whose requests are all of one kind. -/
theorem Keeps.goes_on {P : Op → Prop} {R : α → Prop} {program : Program Answer ε α}
    {rest : α → Program Answer ε β} {T : β → List (Exchange Answer) → Prop}
    (kept : program.Keeps P R) (stops : ∀ stop sofar, E stop sofar)
    (next : ∀ value added, R value → (∀ exchange ∈ added, P exchange.1) →
      (rest value).Ends (past ++ added) T E) :
    (program >>= rest).Ends past T E := by
  refine ends_bind.mpr ((kept.ends past).mono ?_ fun stop sofar _ => stops stop sofar)
  rintro value sofar ⟨held, added, rfl, same⟩
  exact next value added held same

theorem Ends.ite {c : Prop} [Decidable c] {program other : Program Answer ε α}
    (first : c → program.Ends past Q E) (second : ¬c → other.Ends past Q E) :
    (if c then program else other).Ends past Q E := by
  split_ifs with holds
  · exact first holds
  · exact second holds

end Ends

end Program

end Orchestrator.Requests
