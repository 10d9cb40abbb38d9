import Orchestrator.ManageSched
import Orchestrator.OnePass

/-!
The main task of a container as `updateSiblings` looks for it. The search starts
at one second and with the calling thread; below one second it does not depend on
the caller, from one second on every caller is its own main task.
-/

namespace Orchestrator.PrimarySibling
open Orchdata PidLookup PidResources Manage ManageSched OnePass

/-- The period the search compares. -/
def periodOf (item : Node) : UInt64 :=
  if item.attr.schedPolicy = schedDeadline then item.attr.schedPeriod else item.mon.cdfPeriod

section Search
variable (conts : Containers) (cont : ContPtr)

/-- An active thread of the container. -/
def InCont (item : Node) : Prop := 0 < item.pid ∧ contOf conts item = some cont

instance (item : Node) : Decidable (InCont conts cont item) := inferInstanceAs (Decidable (_ ∧ _))

/-- A thread the search looks at: the periodic ones of the container. -/
def Candidate (item : Node) : Prop :=
  InCont conts cont item ∧ (item.attr.schedPolicy = schedDeadline ∨
    policyIsRealtime item.attr.schedPolicy = true ∧ item.mon.cdfPeriod ≠ 0)

instance (item : Node) : Decidable (Candidate conts cont item) :=
  inferInstanceAs (Decidable (_ ∧ _))

/-- `smp` once `kept` is the main task. -/
def smallest (kept : Option Node) : UInt64 :=
  match kept with
  | none => 1000000000
  | some found => periodOf found

def shorter (kept : Option Node) (next : Node) : Prop :=
  Candidate conts cont next ∧ periodOf next < smallest kept

instance (kept : Option Node) (next : Node) : Decidable (shorter conts cont kept next) :=
  inferInstanceAs (Decidable (_ ∧ _))

/-- Loop state of a call for `node`. -/
def mainOf (node : Node) (kept : Option Node) : MainTask :=
  { mainp := (kept.getD node).loc, smp := smallest kept }

variable {conts cont}

theorem together_in_cont {node : Node} (member : contOf conts node = some cont) (item : Node) :
    together conts node item = true ↔ InCont conts cont item := by
  simp only [together, sibling, member, InCont, Bool.and_eq_true, decide_eq_true_eq, beq_iff_eq]
  constructor
  · rintro ⟨active, -, same⟩
    exact ⟨active, same⟩
  · rintro ⟨active, same⟩
    exact ⟨active, by rw [same]; rfl, same⟩

theorem main_step_candidate {node : Node} (member : contOf conts node = some cont)
    (best : MainTask) (next : Node) :
    mainStep conts node best next =
      if Candidate conts cont next ∧ periodOf next < best.smp then
        { mainp := next.loc, smp := periodOf next }
      else best := by
  simp only [mainStep, together_in_cont member]
  by_cases inside : InCont conts cont next
  · by_cases deadline : next.attr.schedPolicy = schedDeadline
    · simp [Candidate, periodOf, inside, deadline]
    · simp [Candidate, periodOf, inside, deadline, and_assoc]
  · simp [Candidate, inside]

theorem main_step_shorter {node : Node} (member : contOf conts node = some cont)
    (kept : Option Node) (next : Node) :
    mainStep conts node (mainOf node kept) next =
      mainOf node (take (shorter conts cont) kept next) := by
  rw [main_step_candidate member, take]
  split_ifs with short same same
  · rfl
  · exact absurd short same
  · exact absurd same short
  · rfl

variable (conts cont) in
theorem smallest_le (list : List Node) :
    ∀ item ∈ list, Candidate conts cont item →
      smallest (keep (shorter conts cont) none list) ≤ periodOf item := by
  refine keep_rule (fun seen kept => ∀ item ∈ seen, Candidate conts cont item →
    smallest kept ≤ periodOf item) (fun _ none => by cases none) ?_
  intro seen kept next _ least item inside candidate
  rw [take]
  split_ifs with short
  · rcases List.mem_append.mp inside with early | last
    · exact UInt64.le_trans (UInt64.le_of_lt short.2) (least item early candidate)
    · rw [List.mem_singleton.mp last]
      exact UInt64.le_refl _
  · rcases List.mem_append.mp inside with early | last
    · exact least item early candidate
    · rw [List.mem_singleton.mp last] at candidate ⊢
      by_contra less
      exact short ⟨candidate, UInt64.not_le.mp less⟩

/-- The search settles on one and the same thread for all callers, or on none. -/
theorem main_task_keeps {κ : Type} {managed : Managed κ} {node : Node}
    (member : contOf managed.conts node = some cont) (flagged : node.status.sibl = true) :
    mainTask managed node =
      ((keep (shorter managed.conts cont) none managed.nhead).getD node).loc := by
  have fold := foldl_keep (mainOf node) (mainStep managed.conts node) (main_step_shorter member)
    none managed.nhead
  rw [mainTask, if_pos ⟨flagged, by rw [member]; rfl⟩]
  change (managed.nhead.foldl _ (mainOf node none)).mainp = _
  rw [fold, mainOf]

end Search

section Group
variable {κ : Type} (managed : Managed κ) (cont : ContPtr)

/-- The active threads of the container. -/
def threads : List Node := managed.nhead.filter fun item => InCont managed.conts cont item

/-- A flagged thread of a real-time policy whose period is known. -/
structure KnownThread (item : Node) : Prop where
  flagged : item.status.sibl = true
  realtime : policyIsRealtime item.attr.schedPolicy = true
  period : periodOf item ≠ 0

/-- `updateSiblings` goes on to a reallocation. -/
def Proceeds (item : Node) : Prop := mainTask managed item = item.loc

instance (item : Node) : Decidable (Proceeds managed item) := inferInstanceAs (Decidable (_ = _))

/-- Exactly one thread of the group proceeds, and its period is the smallest. -/
def OnePrimary : Prop :=
  (∃! item, item ∈ threads managed cont ∧ Proceeds managed item) ∧
    ∀ item ∈ threads managed cont, Proceeds managed item →
      ∀ other ∈ threads managed cont, periodOf item ≤ periodOf other

variable {managed cont}

theorem thread_in {item : Node} (inside : item ∈ threads managed cont) :
    item ∈ managed.nhead ∧ InCont managed.conts cont item := by
  simpa [threads] using inside

theorem thread_candidate {item : Node} (inside : item ∈ threads managed cont)
    (known : KnownThread item) : Candidate managed.conts cont item := by
  refine ⟨(thread_in inside).2, ?_⟩
  by_cases deadline : item.attr.schedPolicy = schedDeadline
  · exact Or.inl deadline
  · have period := known.period
    rw [periodOf, if_neg deadline] at period
    exact Or.inr ⟨known.realtime, period⟩

variable (pair : 2 ≤ (threads managed cont).length)
variable (known : ∀ item ∈ threads managed cont, KnownThread item)
variable (apart : (managed.nhead.map Node.loc).Nodup)

include known apart in
/-- Below one second the first of the shortest period is the main task of all. -/
theorem one_primary_of_short (short : ∃ item ∈ threads managed cont, periodOf item < 1000000000) :
    OnePrimary managed cont := by
  obtain ⟨quick, inside, below⟩ := short
  have candidate := thread_candidate inside (known quick inside)
  obtain ⟨found, kept⟩ := keep_takes (shorter managed.conts cont) (thread_in inside).1
    ⟨candidate, below⟩
  obtain ⟨before, after, split, taken, -⟩ := keep_found kept
  have linked : found ∈ managed.nhead := by rw [split]; simp
  have member : found ∈ threads managed cont := by simpa [threads] using ⟨linked, taken.1.1⟩
  have main : ∀ item ∈ threads managed cont, mainTask managed item = found.loc := fun item other => by
    rw [main_task_keeps (thread_in other).2.2 (known item other).flagged, kept]
    rfl
  -- the addresses tell the threads apart
  have same : ∀ item ∈ threads managed cont, Proceeds managed item → item = found :=
    fun item other proceeds =>
      List.inj_on_of_nodup_map apart (thread_in other).1 linked (proceeds.symm.trans (main item other))
  refine ⟨⟨found, ⟨member, main found member⟩, fun item other => same item other.1 other.2⟩, ?_⟩
  intro item other proceeds rival inGroup
  have least := smallest_le managed.conts cont managed.nhead rival
    (thread_in inGroup).1 (thread_candidate inGroup (known rival inGroup))
  rw [kept] at least
  rwa [same item other proceeds]

include known in
/-- From one second on every thread is its own main task. -/
theorem all_proceed_of_long (long : ∀ item ∈ threads managed cont, ¬ periodOf item < 1000000000) :
    ∀ item ∈ threads managed cont, Proceeds managed item := by
  intro item inside
  have none : keep (shorter managed.conts cont) none managed.nhead = none := by
    refine keep_stays fun next linked short => ?_
    exact long next (by simpa [threads] using ⟨linked, short.1.1⟩) short.2
  rw [Proceeds, main_task_keeps (thread_in inside).2.2 (known item inside).flagged, none]
  rfl

include pair known apart in
/-- A container of two or more known threads has one primary thread exactly when
one of their periods is below a second. -/
theorem one_primary_iff :
    OnePrimary managed cont ↔ ∃ item ∈ threads managed cont, periodOf item < 1000000000 := by
  refine ⟨fun primary => ?_, one_primary_of_short known apart⟩
  by_contra long
  have proceed := all_proceed_of_long known fun item inside below => long ⟨item, inside, below⟩
  obtain ⟨main, -, only⟩ := primary.1
  have equal : ∀ item ∈ threads managed cont, item = main := fun item inside =>
    only item ⟨inside, proceed item inside⟩
  have distinct : (threads managed cont).Nodup :=
    (List.Nodup.of_map _ apart).filter _
  have single : (threads managed cont).length ≤ 1 := by
    rw [List.eq_replicate_of_mem equal] at distinct
    simpa using List.nodup_replicate.mp distinct
  omega

end Group

def fifoThread (loc : Nat) (period : UInt64) : Node where
  loc := loc
  pid := 100 + loc
  status := { sibl := true }
  attr := { schedPolicy := schedFifo }
  mon := { cdfPeriod := period }
  param := some 1

/-- Two threads of one container, of the given periods. -/
def twoThreads (first second : UInt64) : Managed Unit where
  nhead := [fifoThread 1 first, fifoThread 2 second]
  conts := { pidcAt := fun _ => { cont := some (.cont 1) } }
  trcs := {}
  kernel := ()

theorem two_threads_group (first second : UInt64) :
    threads (twoThreads first second) (.cont 1) = (twoThreads first second).nhead := rfl

theorem two_threads_known (first second : UInt64) (positive : first ≠ 0) (other : second ≠ 0) :
    ∀ item ∈ threads (twoThreads first second) (.cont 1), KnownThread item := by
  intro item inside
  rw [two_threads_group] at inside
  rcases List.mem_cons.mp inside with rfl | last
  · exact ⟨rfl, rfl, positive⟩
  · rw [List.mem_singleton.mp last]
    exact ⟨rfl, rfl, other⟩

theorem one_primary_ten_twenty : OnePrimary (twoThreads 10000000 20000000) (.cont 1) :=
  (one_primary_iff (by decide) (two_threads_known _ _ (by decide) (by decide)) (by decide)).mpr
    ⟨fifoThread 1 10000000, by decide, by decide⟩

-- Both threads are their own main task and both move the container.
theorem two_seconds_two_primaries :
    (∀ item ∈ threads (twoThreads 2000000000 2000000000) (.cont 1), KnownThread item) ∧
      ¬ OnePrimary (twoThreads 2000000000 2000000000) (.cont 1) := by
  refine ⟨two_threads_known _ _ (by decide) (by decide), fun primary => ?_⟩
  obtain ⟨main, -, only⟩ := primary.1
  have first := only (fifoThread 1 2000000000) ⟨by decide, by decide⟩
  have second := only (fifoThread 2 2000000000) ⟨by decide, by decide⟩
  have same := congrArg Node.loc (first.trans second.symm)
  revert same
  decide

end Orchestrator.PrimarySibling
