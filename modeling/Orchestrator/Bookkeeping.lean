import Mathlib.Tactic.ByContra
import Orchestrator.Moves

/-!
What a switch event does to the run time accounting. Moving tasks between CPUs,
reading attributes and deadlines, all leave it alone; one switch in sets a time
stamp, one switch out adds to the run time and may close the period.
-/

namespace Orchestrator.Bookkeeping
open Orchdata Resmgnt PidResources Traversal Manage Moves

/-- What run time accounting reads and writes of a node. -/
structure Ledger where
  pid : Int
  lastTs : UInt64
  rt : UInt64
  pdfHist : List UInt64
  deriving DecidableEq

def ledger (item : Node) : Ledger :=
  ⟨item.pid, item.mon.lastTs, item.mon.rt, item.mon.pdfHist⟩

def periodic (attr : SchedAttr) : Prop := attr.schedPolicy = schedDeadline → attr.schedPeriod ≠ 0

section Frame
variable {κ : Type}

def entry (managed : Managed κ) (place : Nat) : Option Ledger := managed.nhead[place]?.map ledger

/-- Deadline tasks of the list have a period. -/
def Periodic (managed : Managed κ) : Prop := ∀ item ∈ managed.nhead, periodic item.attr

/-- A call that leaves the accounting alone. -/
structure SameBooks (before after : Managed κ) : Prop where
  entry : ∀ place, entry after place = entry before place
  periodic : Periodic before → Periodic after

theorem SameBooks.refl (managed : Managed κ) : SameBooks managed managed := ⟨fun _ => rfl, id⟩

theorem SameBooks.trans {first second third : Managed κ} (one : SameBooks first second)
    (two : SameBooks second third) : SameBooks first third :=
  ⟨fun place => (two.entry place).trans (one.entry place),
    fun start => two.periodic (one.periodic start)⟩

/-- The attributes stay too, as in all calls but the update of attributes. -/
def Keeps (before after : Managed κ) : Prop :=
  ∀ place : Nat, after.nhead[place]?.map (fun item => (ledger item, item.attr)) =
    before.nhead[place]?.map fun item => (ledger item, item.attr)

theorem Keeps.refl (managed : Managed κ) : Keeps managed managed := fun _ => rfl

theorem Keeps.trans {first second third : Managed κ} (one : Keeps first second)
    (two : Keeps second third) : Keeps first third :=
  fun place => (two place).trans (one place)

/-- The node behind a place after a call that keeps it. -/
theorem Keeps.node {before after : Managed κ} (keeps : Keeps before after) {place : Nat}
    {item : Node} (here : after.nhead[place]? = some item) :
    ∃ old, before.nhead[place]? = some old ∧ ledger item = ledger old ∧ item.attr = old.attr := by
  have same := keeps place
  rw [here] at same
  cases first : before.nhead[place]? with
  | none =>
      rw [first] at same
      cases same
  | some old =>
      rw [first] at same
      have pair := Option.some.inj same
      exact ⟨old, rfl, congrArg Prod.fst pair, congrArg Prod.snd pair⟩

theorem Keeps.books {before after : Managed κ} (keeps : Keeps before after) :
    SameBooks before after := by
  constructor
  · intro place
    have first := congrArg (Option.map Prod.fst) (keeps place)
    rwa [Option.map_map, Option.map_map] at first
  · intro start item member
    obtain ⟨place, here⟩ := List.mem_iff_getElem?.mp member
    obtain ⟨old, first, _, attr⟩ := keeps.node here
    rw [attr]
    exact start old (List.mem_of_getElem? first)

/-- Moving tasks keeps the accounting. -/
theorem keeps_stays {before after : Managed κ} (stays : Stays before after) :
    Keeps before after := by
  intro place
  have same := congrArg (fun list : List Node =>
    list[place]?.map fun item => (ledger item, item.attr)) stays.nodes
  simp only [List.getElem?_map, Option.map_map] at same
  exact same

theorem keeps_list {before after : Managed κ} (same : after.nhead = before.nhead) :
    Keeps before after := by
  intro place
  rw [same]

theorem keeps_set {before after : Managed κ} {place : Nat} {item node : Node}
    (list : after.nhead = before.nhead.set place node) (here : before.nhead[place]? = some item)
    (same : ledger node = ledger item) (attr : node.attr = item.attr) : Keeps before after := by
  intro other
  rw [list, List.getElem?_set]
  split_ifs with this inside
  · subst this
    simp [here, same, attr]
  · subst this
    rw [List.getElem?_eq_none (by omega)]
  · rfl

theorem put_keeps {managed : Managed κ} {place : Nat} {item node : Node}
    (here : managed.nhead[place]? = some item) (same : ledger node = ledger item)
    (attr : node.attr = item.attr) : Keeps managed (managed.put place node) :=
  keeps_set rfl here same attr

theorem keeps_modify {before after : Managed κ} {place : Nat} {change : Node → Node}
    (list : after.nhead = before.nhead.modify place change)
    (same : ∀ item, ledger (change item) = ledger item)
    (attr : ∀ item, (change item).attr = item.attr) : Keeps before after := by
  intro other
  rw [list, List.getElem?_modify]
  cases before.nhead[other]? with
  | none => rfl
  | some item => by_cases this : place = other <;> simp [this, same, attr]

theorem books_set {before after : Managed κ} {place : Nat} {item node : Node}
    (list : after.nhead = before.nhead.set place node) (here : before.nhead[place]? = some item)
    (same : ledger node = ledger item) (period : periodic node.attr) :
    SameBooks before after := by
  constructor
  · intro other
    rw [entry, entry, list, List.getElem?_set]
    split_ifs with this inside
    · subst this
      simp [here, same]
    · subst this
      rw [List.getElem?_eq_none (by omega)]
    · rfl
  · intro start other member
    rw [list] at member
    rcases List.mem_or_eq_of_mem_set member with old | new
    · exact start other old
    · rw [new]
      exact period

/-- A call that changes the books of one node, in this way. -/
structure MapsAt (change : Ledger → Ledger) (place : Nat) (before after : Managed κ) : Prop where
  here : entry after place = (entry before place).map change
  others : ∀ other, other ≠ place → entry after other = entry before other
  periodic : Periodic before → Periodic after

theorem SameBooks.maps {before after : Managed κ} (books : SameBooks before after) (place : Nat) :
    MapsAt id place before after :=
  ⟨by rw [books.entry, Option.map_id, id], fun other _ => books.entry other, books.periodic⟩

theorem MapsAt.trans {first second third : Managed κ} {change later : Ledger → Ledger}
    {place : Nat} (one : MapsAt change place first second)
    (two : MapsAt later place second third) : MapsAt (later ∘ change) place first third := by
  constructor
  · rw [two.here, one.here, Option.map_map]
  · exact fun other apart => (two.others other apart).trans (one.others other apart)
  · exact fun start => two.periodic (one.periodic start)

theorem maps_modify {before after : Managed κ} {place : Nat} {item : Node} {edit : Node → Node}
    {change : Ledger → Ledger} (list : after.nhead = before.nhead.modify place edit)
    (here : before.nhead[place]? = some item) (books : ledger (edit item) = change (ledger item))
    (attr : ∀ item, (edit item).attr = item.attr) : MapsAt change place before after := by
  constructor
  · rw [entry, entry, list, List.getElem?_modify, here]
    simp [books]
  · intro other apart
    rw [entry, entry, list, List.getElem?_modify]
    simp [Ne.symm apart]
  · intro start node member
    rw [list] at member
    obtain ⟨spot, found⟩ := List.mem_iff_getElem?.mp member
    rw [List.getElem?_modify] at found
    cases old : before.nhead[spot]? with
    | none => simp [old] at found
    | some first =>
        have period := start first (List.mem_of_getElem? old)
        rw [old] at found
        cases found
        by_cases this : place = spot
        · simp only [this, if_true]
          rw [attr first]
          exact period
        · simpa only [this, if_false] using period

end Frame

section Calls
variable {κ : Type} (fp : Rounding) (proc : Proc κ) (numa : Numa) (set : PrgSet)

/-- Every attribute set the kernel reports for a deadline task has a period: it
takes the deadline for a missing one. -/
def ReportsPeriods (proc : Proc κ) : Prop :=
  ∀ kernel pid attr, (proc.getattr kernel pid).1 = some attr → periodic attr

theorem set_affinity_ledger (conts : Containers) (kernel : κ) (rscs : SchedRscs) (attr : SchedAttr)
    (item node : Node) (written : κ)
    (run : setAffinity proc.toKernel numa set conts kernel rscs attr item = .ok (node, written)) :
    ledger node = ledger item ∧ node.attr = item.attr := by
  have fixed : ∀ state (other : Node),
      ledger (setFixed proc.toKernel numa state rscs attr other).1 = ledger other ∧
        (setFixed proc.toKernel numa state rscs attr other).1.attr = other.attr := by
    intro state other
    simp only [setFixed, setPidAffinityAssinged]
    split_ifs <;> exact ⟨rfl, rfl⟩
  rw [setAffinity] at run
  split_ifs at run
  · obtain ⟨⟨ret, middle⟩, _, last⟩ := bind_ok run
    have result : setFixed proc.toKernel numa middle rscs attr (markUpd item ret) =
        (node, written) := Except.ok.inj last
    have settled := fixed middle (markUpd item ret)
    rw [result] at settled
    exact settled
  · cases run
    exact ⟨rfl, rfl⟩
  · obtain ⟨⟨ret, middle⟩, _, last⟩ := bind_ok run
    cases last
    exact ⟨rfl, rfl⟩

theorem set_pid_resources_u_ledger (conts scheduled : Containers) (kernel written : κ)
    (item node : Node)
    (run : setPidResources_u proc.toKernel numa set conts kernel item =
      .ok (scheduled, node, written)) : ledger node = ledger item ∧ node.attr = item.attr := by
  rw [setPidResources_u] at run
  split at run
  · cases run
  · obtain ⟨⟨settled, middle⟩, first, last⟩ := bind_ok run
    have same := set_affinity_ledger proc numa set _ _ _ _ _ _ _ first
    cases last
    exact same

theorem set_reclaim_books {before managed : Managed κ} {place : Nat} {item node : Node}
    (list : managed.nhead = before.nhead) (here : before.nhead[place]? = some node)
    (same : ledger item = ledger node) (period : periodic item.attr) :
    SameBooks before (setReclaim proc set managed place item) := by
  rw [setReclaim]
  split_ifs
  · exact books_set (congrArg (List.set · place _) list) here same period
  · exact books_set (congrArg (List.set · place _) list) here same period

theorem update_pid_attr_books (reports : ReportsPeriods proc) {managed next : Managed κ}
    {place : Nat} (run : updatePidAttr proc numa set managed place = .ok next) :
    SameBooks managed next := by
  rw [updatePidAttr] at run
  split at run
  · cases run
    exact SameBooks.refl managed
  · rename_i item here
    split_ifs at run
    · obtain ⟨⟨conts, node, kernel⟩, first, last⟩ := bind_ok run
      obtain ⟨books, attr⟩ := set_pid_resources_u_ledger proc numa set _ _ _ _ _ _ first
      cases last
      exact (keeps_set rfl here books attr).books
    · split at run
      · cases run
        apply Keeps.books
        exact keeps_list rfl
      · rename_i attr kernel read
        cases run
        exact set_reclaim_books proc set rfl here rfl
          (reports managed.kernel item.pid attr (congrArg Prod.fst read))

/-- With fTrace on, the debug buffer of a deadline task yields its deadline only. -/
theorem sched_lines_keeps (traced : set.ftrace = true) (lines : List SchedLine)
    (scan finish : SchedScan) (policy : scan.item.attr.schedPolicy = schedDeadline)
    (run : schedLines set scan lines = .ok finish) :
    ledger finish.item = ledger scan.item ∧ finish.item.attr = scan.item.attr := by
  induction lines with
  | nil =>
      cases run
      exact ⟨rfl, rfl⟩
  | cons line rest ih =>
      have other : ¬ (schedDeadline = schedRr ∨ schedDeadline = schedFifo) := by decide
      simp only [schedLines, policy, if_neg other, if_true, deadlineLine, traced] at run
      simp only [Bool.not_true, Bool.false_and, Bool.false_eq_true, ↓reduceIte, and_false] at run
      by_cases found : tagged line "dl.deadline" = true
      · simp only [found, ↓reduceIte] at run
        cases run
        exact ⟨rfl, rfl⟩
      · simp only [found, Bool.false_eq_true, ↓reduceIte] at run
        exact ih run

theorem get_sched_info_keeps (traced : set.ftrace = true) {managed next : Managed κ} {place : Nat}
    (policy : ∀ item, managed.nhead[place]? = some item → item.attr.schedPolicy = schedDeadline)
    (run : getSchedInfo proc set managed place = .ok next) : Keeps managed next := by
  rw [getSchedInfo] at run
  split at run
  · cases run
    exact Keeps.refl managed
  · rename_i item here
    split at run
    · cases run
      exact keeps_list rfl
    · obtain ⟨scan, first, last⟩ := bind_ok run
      obtain ⟨books, attr⟩ := sched_lines_keeps set traced _ _ _ (policy item here) first
      cases last
      exact keeps_set rfl here books attr

theorem catch_up_keeps (item node : Node) (ts : UInt64) (run : catchUp item ts = .ok node) :
    ledger node = ledger item ∧ node.attr = item.attr := by
  obtain ⟨deadline, _, last⟩ := bind_ok run
  cases last
  exact ⟨rfl, rfl⟩

theorem skip_overrun_keeps (item node : Node) (fails : Int)
    (run : skipOverrun item = .ok (node, fails)) :
    ledger node = ledger item ∧ node.attr = item.attr := by
  obtain ⟨state, _, last⟩ := bind_ok run
  cases last
  exact ⟨rfl, rfl⟩

theorem skip_scanfail_keeps (item node : Node) (ts : UInt64) (before fails : Int)
    (run : skipScanfail item ts before = .ok (node, fails)) :
    ledger node = ledger item ∧ node.attr = item.attr := by
  obtain ⟨state, _, last⟩ := bind_ok run
  cases last
  exact ⟨rfl, rfl⟩

/-- The node at the place, if any, is a deadline task. -/
def DeadlineAt (managed : Managed κ) (place : Nat) : Prop :=
  ∀ item, managed.nhead[place]? = some item → item.attr.schedPolicy = schedDeadline

theorem deadline_at_keeps {before after : Managed κ} {place : Nat} (keeps : Keeps before after)
    (deadline : DeadlineAt before place) : DeadlineAt after place := by
  intro item here
  obtain ⟨old, first, _, attr⟩ := keeps.node here
  rw [attr]
  exact deadline old first

theorem managed_catch_up_keeps {managed next : Managed κ} {place : Nat} {ts : UInt64}
    (run : managed.catchUp place ts = .ok next) : Keeps managed next := by
  rw [Managed.catchUp] at run
  split at run
  · cases run
    exact Keeps.refl managed
  · rename_i item here
    obtain ⟨node, first, last⟩ := bind_ok run
    obtain ⟨books, attr⟩ := catch_up_keeps item node ts first
    cases last
    exact keeps_set rfl here books attr

theorem first_deadline_keeps (traced : set.ftrace = true) {managed next : Managed κ} {place : Nat}
    {ts : UInt64} (deadline : DeadlineAt managed place)
    (run : firstDeadline proc set managed place ts = .ok next) : Keeps managed next := by
  rw [firstDeadline] at run
  split at run
  · cases run
    exact Keeps.refl managed
  · rename_i item here
    by_cases unread : item.mon.deadline = 0
    · rw [if_pos unread] at run
      obtain ⟨read, first, rest⟩ := bind_ok run
      have info := get_sched_info_keeps proc set traced deadline first
      by_cases period : item.attr.schedPeriod = 0
      · rw [if_pos period] at rest
        cases rest
        exact info
      · rw [if_neg period] at rest
        exact info.trans (managed_catch_up_keeps rest)
    · rw [if_neg unread] at run
      cases run
      exact Keeps.refl managed

theorem skip_periods_keeps (item node : Node) (ts : UInt64) (fails : Int)
    (run : skipPeriods ts item = .ok (node, fails)) :
    ledger node = ledger item ∧ node.attr = item.attr := by
  rw [skipPeriods] at run
  split_ifs at run
  · obtain ⟨⟨overrun, missed⟩, first, second⟩ := bind_ok run
    obtain ⟨before, period⟩ := skip_overrun_keeps item overrun missed first
    obtain ⟨books, attr⟩ := skip_scanfail_keeps overrun node ts missed fails second
    exact ⟨books.trans before, attr.trans period⟩
  · exact skip_scanfail_keeps item node ts 0 fails run

theorem reread_deadline_keeps (traced : set.ftrace = true) {managed next : Managed κ} {place : Nat}
    {ts : UInt64} {fails : Int} (deadline : DeadlineAt managed place)
    (run : rereadDeadline proc set managed place ts fails = .ok next) : Keeps managed next := by
  rw [rereadDeadline] at run
  split_ifs at run
  · cases run
    exact Keeps.refl managed
  · obtain ⟨read, first, rest⟩ := bind_ok run
    exact (get_sched_info_keeps proc set traced deadline first).trans (managed_catch_up_keeps rest)

theorem next_deadline_keeps (traced : set.ftrace = true) {managed next : Managed κ} {place : Nat}
    {ts : UInt64} {fails : Int} (deadline : DeadlineAt managed place)
    (run : nextDeadline proc set managed place ts = .ok (next, fails)) : Keeps managed next := by
  rw [nextDeadline] at run
  split at run
  · cases run
    exact Keeps.refl managed
  · rename_i item here
    split_ifs at run
    · cases run
      exact Keeps.refl managed
    · obtain ⟨⟨missed, count⟩, first, rest⟩ := bind_ok run
      obtain ⟨read, second, done⟩ := bind_ok rest
      cases done
      obtain ⟨books, attr⟩ := skip_periods_keeps item missed ts fails first
      have skipped : Keeps managed (managed.put place missed) := keeps_set rfl here books attr
      apply (skipped.trans (reread_deadline_keeps proc set traced
        (deadline_at_keeps skipped deadline) second)).trans
      apply keeps_modify rfl
      · intro item
        rw [addPeriod]
        split_ifs <;> rfl
      · intro item
        rw [addPeriod]
        split_ifs <;> rfl

theorem check_budget_keeps {managed next : Managed κ} {place : Nat} {ts : UInt64}
    (run : checkBudget fp proc numa set managed place ts = .ok next) : Keeps managed next := by
  rw [checkBudget] at run
  split at run
  · cases run
    exact Keeps.refl managed
  · rename_i item here
    split_ifs at run
    · obtain ⟨resched, _, rest⟩ := bind_ok run
      dsimp only at rest
      split_ifs at rest
      · cases rest
        have counted : Keeps managed
            (managed.put place { item with mon.dlOverrun := item.mon.dlOverrun + 1 }) :=
          keeps_set rfl here rfl rfl
        exact counted.trans (keeps_stays (pick_pid_realloc_cpu_stays fp proc numa set _ _ _))
      · cases rest
        exact Keeps.refl managed
    · cases run
      exact Keeps.refl managed

theorem consolidate_deadline_keeps (traced : set.ftrace = true) {managed next : Managed κ}
    {place : Nat} {ts : UInt64} {fails : Int} (start : Periodic managed)
    (deadline : DeadlineAt managed place)
    (run : consolidateDeadline fp proc numa set managed place ts = .ok (next, fails)) :
    Keeps managed next := by
  rw [consolidateDeadline] at run
  split at run
  · cases run
    exact Keeps.refl managed
  · rename_i item here
    have period := start item (List.mem_of_getElem? here) (deadline item here)
    obtain ⟨updated, first, rest⟩ := bind_ok run
    rw [knowPeriod, if_neg period] at first
    cases first
    have counted : Keeps managed
        (managed.put place { item with mon.dlCount := item.mon.dlCount + 1 }) :=
      keeps_set rfl here rfl rfl
    obtain ⟨read, second, rest⟩ := bind_ok rest
    obtain ⟨⟨ahead, missed⟩, third, rest⟩ := bind_ok rest
    obtain ⟨checked, fourth, done⟩ := bind_ok rest
    cases done
    have toRead := counted.trans
      (first_deadline_keeps proc set traced (deadline_at_keeps counted deadline) second)
    have toAhead := toRead.trans
      (next_deadline_keeps proc set traced (deadline_at_keeps toRead deadline) third)
    exact (toAhead.trans (check_budget_keeps fp proc numa set fourth)).trans
      (keeps_modify rfl (fun _ => rfl) fun _ => rfl)

def booked (books : Ledger) : Ledger := { books with rt := 0, pdfHist := books.rt :: books.pdfHist }

def credited (ts : UInt64) (books : Ledger) : Ledger :=
  if books.lastTs ≠ 0 then { books with rt := books.rt + (ts - books.lastTs) } else books

def started (ts : UInt64) (books : Ledger) : Ledger := { books with lastTs := ts }

theorem dl_diff_ledger (item : Node) (diff : Int) :
    ledger { item with mon.dlDiff := diff } = ledger item := rfl

theorem book_runtime_ledger (fails : Int) (item : Node) :
    ledger (bookRuntime fails item) = ledger item ∨
      ledger (bookRuntime fails item) = booked (ledger item) := by
  rw [bookRuntime]
  dsimp only
  by_cases ran : item.mon.rt ≠ 0 ∧ item.mon.lastTs ≠ 0
  · rw [if_pos ran]
    exact Or.inr (dl_diff_ledger _ _)
  · rw [if_neg ran]
    exact Or.inl (dl_diff_ledger _ _)

theorem book_runtime_attr (fails : Int) (item : Node) :
    (bookRuntime fails item).attr = item.attr := by
  rw [bookRuntime]
  dsimp only
  split_ifs <;> rfl

/-- The books of the node at a place stay or are closed. -/
def Closes (place : Nat) (before after : Managed κ) : Prop :=
  MapsAt id place before after ∨ MapsAt booked place before after

theorem book_runtime_closes {managed next : Managed κ} {place : Nat} {item : Node} {fails : Int}
    (here : managed.nhead[place]? = some item)
    (list : next.nhead = managed.nhead.modify place (bookRuntime fails)) :
    Closes place managed next := by
  rcases book_runtime_ledger fails item with same | closed
  · exact Or.inl (maps_modify list here same (book_runtime_attr fails))
  · exact Or.inr (maps_modify list here closed (book_runtime_attr fails))

/-- Consolidation of a period books the run time or leaves it. -/
theorem pick_pid_consolidate_period_closes (traced : set.ftrace = true) {managed next : Managed κ}
    {place : Nat} {ts : UInt64} (start : Periodic managed)
    (run : pickPidConsolidatePeriod fp proc numa set managed place ts = .ok next) :
    Closes place managed next := by
  rw [pickPidConsolidatePeriod] at run
  split at run
  · cases run
    exact Or.inl ((SameBooks.refl managed).maps place)
  · rename_i item here
    split_ifs at run with policy
    · obtain ⟨⟨checked, fails⟩, first, last⟩ := bind_ok run
      cases last
      have keeps := consolidate_deadline_keeps fp proc numa set traced start
        (fun other at_ => by
          rw [here] at at_
          cases at_
          exact policy) first
      have still := keeps place
      rw [here] at still
      cases there : checked.nhead[place]? with
      | none =>
          rw [there] at still
          cases still
      | some node =>
          have closes : Closes place checked
              { checked with nhead := checked.nhead.modify place (bookRuntime fails) } :=
            book_runtime_closes there rfl
          rcases closes with same | closed
          · exact Or.inl ((keeps.books.maps place).trans same)
          · exact Or.inr ((keeps.books.maps place).trans closed)
    · cases run
      exact book_runtime_closes here rfl

theorem change_cpu_keeps (frame : SwitchFrame) (managed : Managed κ) (place : Nat) (item : Node)
    (here : managed.nhead[place]? = some item) :
    Keeps managed (changeCpu fp proc numa set frame managed place item) := by
  have put : ∀ mon : NodeMon, ledger { item with mon := mon } = ledger item →
      Keeps managed (managed.put place { item with mon := mon }) :=
    fun mon same => put_keeps here same rfl
  rw [changeCpu]
  by_cases same : item.mon.assigned = frame.cpuno
  · rw [if_pos same]
    exact Keeps.refl managed
  · rw [if_neg same]
    by_cases assigned : 0 ≤ item.mon.assigned
    · rw [if_pos assigned]
      dsimp only
      have counted := (put { item.mon with
          assigned := frame.cpuno
          resched := item.mon.resched + 1 } rfl).trans
        (keeps_stays (recompute_cpu_times_u_stays fp set _ item.mon.assigned none))
      split_ifs
      · exact counted.trans (keeps_stays (pick_pid_realloc_cpu_stays fp proc numa set _ _ _))
      · exact counted
    · rw [if_neg assigned]
      exact put_keeps here rfl rfl

theorem start_running_ledger (frame : SwitchFrame) (item : Node) :
    ledger (startRunning frame item) = started frame.ts (ledger item) ∧
      (startRunning frame item).attr = item.attr := by
  rw [startRunning]
  dsimp only
  split_ifs <;> exact ⟨rfl, rfl⟩

/-- The first loop of `pickPidInfoS` at a node. -/
def switched (frame : SwitchFrame) (books : Ledger) : Ledger :=
  if books.pid = frame.nextPid then started frame.ts books else books

theorem switch_node_maps (frame : SwitchFrame) (managed : Managed κ) (place : Nat) :
    MapsAt (switched frame) place managed (switchNode fp proc numa set frame managed place) := by
  rw [switchNode]
  cases here : managed.nhead[place]? with
  | none =>
      refine ⟨?_, fun _ _ => rfl, id⟩
      rw [entry, here]
      rfl
  | some item =>
      dsimp only
      have moves : Keeps managed (if item.pid = frame.prevPid ∨ item.pid = frame.nextPid then
          changeCpu fp proc numa set frame managed place item else managed) := by
        split_ifs
        · exact change_cpu_keeps fp proc numa set frame managed place item here
        · exact Keeps.refl managed
      generalize (if item.pid = frame.prevPid ∨ item.pid = frame.nextPid then _ else _) = moved
        at moves ⊢
      have books : entry managed place = some (ledger item) := by rw [entry, here]; rfl
      by_cases next : item.pid = frame.nextPid
      · rw [if_pos next]
        have there := moves.books.entry place
        rw [books, entry] at there
        obtain ⟨node, found, same⟩ := Option.map_eq_some_iff.mp there
        have starts : MapsAt _ place moved
            { moved with nhead := moved.nhead.modify place (startRunning frame) } :=
          maps_modify rfl found (start_running_ledger frame node).1 fun item =>
            (start_running_ledger frame item).2
        have both := (moves.books.maps place).trans starts
        refine ⟨?_, both.others, both.periodic⟩
        have pid : (ledger item).pid = frame.nextPid := next
        rw [both.here, books, Option.map_some, Option.map_some, switched, if_pos pid]
        rfl
      · rw [if_neg next]
        have same := moves.books.maps place
        refine ⟨?_, same.others, same.periodic⟩
        have pid : ¬ (ledger item).pid = frame.nextPid := next
        rw [same.here, books, Option.map_some, Option.map_some, switched, if_neg pid]
        rfl

theorem switch_nodes_entry (frame : SwitchFrame) (places : List Nat) (distinct : places.Nodup)
    (managed : Managed κ) (place : Nat) :
    entry (places.foldl (switchNode fp proc numa set frame) managed) place =
      if place ∈ places then (entry managed place).map (switched frame)
      else entry managed place := by
  induction places generalizing managed with
  | nil => simp
  | cons first rest ih =>
      obtain ⟨apart, distinct⟩ := List.nodup_cons.mp distinct
      have step := switch_node_maps fp proc numa set frame managed first
      rw [List.foldl_cons, ih distinct]
      by_cases this : place = first
      · subst this
        rw [if_neg apart, if_pos (List.mem_cons_self ..), step.here]
      · rw [step.others place this]
        simp [this]

theorem switch_nodes_periodic (frame : SwitchFrame) (places : List Nat) (managed : Managed κ)
    (start : Periodic managed) :
    Periodic (places.foldl (switchNode fp proc numa set frame) managed) := by
  induction places generalizing managed with
  | nil => exact start
  | cons first rest ih =>
      exact ih _ ((switch_node_maps fp proc numa set frame managed first).periodic start)

theorem place_task_keeps (frame : SwitchFrame) (managed : Managed κ) (place : Nat) (item : Node)
    (here : managed.nhead[place]? = some item) :
    Keeps managed (placeTask fp proc numa set frame managed place item) := by
  rw [placeTask]
  split_ifs
  · exact Keeps.refl managed
  · exact keeps_stays ((check_period_r_stays fp set managed place false).trans
      (pid_realloc_and_test_stays fp proc numa set _ _ _ place))
  · have known : Keeps managed ({ managed with kernel :=
        (proc.getaffinity managed.kernel item.pid).2 }.put place
          { item with mon.assignedMask := some (proc.getaffinity managed.kernel item.pid).1 }) :=
      keeps_set rfl here rfl rfl
    dsimp only
    have clears : ∀ managed : Managed κ, Keeps managed { managed with
        nhead := managed.nhead.modify place fun item => { item with status.naff := false } } :=
      fun managed => keeps_modify rfl (fun _ => rfl) fun _ => rfl
    have inside : place < managed.nhead.length := by
      by_contra beyond
      rw [List.getElem?_eq_none (by omega)] at here
      cases here
    have assigned := fun cpu => known.trans (keeps_stays (assign_to_stays proc numa _ place
      { item with mon.assignedMask := some (proc.getaffinity managed.kernel item.pid).1 } _ cpu
      (List.getElem?_set_self inside) rfl))
    split_ifs
    · exact assigned _
    · exact (assigned _).trans (clears _)
    · exact known.trans (clears _)

theorem first_placement_books (reports : ReportsPeriods proc) (frame : SwitchFrame)
    {managed next : Managed κ} {place : Nat} {item : Node}
    (run : firstPlacement fp proc numa set frame managed place item = .ok next) :
    SameBooks managed next := by
  rw [firstPlacement] at run
  split_ifs at run
  · obtain ⟨updated, first, rest⟩ := bind_ok run
    have known : SameBooks managed updated := by
      rw [knowPolicy] at first
      split_ifs at first
      · exact update_pid_attr_books proc numa set reports first
      · cases first
        exact SameBooks.refl managed
    split at rest
    · cases rest
      exact known
    · rename_i node here
      cases rest
      exact known.trans (place_task_keeps fp proc numa set frame updated place node here).books
  · cases run
    exact SameBooks.refl managed

theorem add_runtime_maps (managed : Managed κ) (place : Nat) (ts : UInt64) :
    MapsAt (credited ts) place managed
      { managed with nhead := managed.nhead.modify place (addRuntime ts) } := by
  cases here : managed.nhead[place]? with
  | none =>
      have same : managed.nhead.modify place (addRuntime ts) = managed.nhead :=
        List.modify_eq_self (by simpa using here)
      refine ⟨?_, fun _ _ => ?_, ?_⟩
      · rw [entry, entry, same, here]
        rfl
      · rw [entry, entry, same]
      · rw [Periodic, same]
        exact id
  | some item =>
      apply maps_modify rfl here
      · rw [addRuntime, credited]
        split_ifs <;> first | rfl | contradiction
      · intro item
        rw [addRuntime]
        split_ifs <;> rfl

theorem leave_node_credits (reports : ReportsPeriods proc) (traced : set.ftrace = true)
    (frame : SwitchFrame) {managed next : Managed κ} {place : Nat} {item : Node}
    (start : Periodic managed)
    (run : leaveNode fp proc numa set frame managed place item = .ok next) :
    MapsAt (credited frame.ts) place managed next ∨
      MapsAt (booked ∘ credited frame.ts) place managed next := by
  rw [leaveNode] at run
  obtain ⟨placed, first, rest⟩ := bind_ok run
  have books := first_placement_books fp proc numa set reports frame first
  have added := (books.maps place).trans (add_runtime_maps placed place frame.ts)
  dsimp only at rest
  split at rest
  · cases rest
    exact Or.inl added
  · split_ifs at rest
    · cases rest
      exact Or.inl added
    · rcases pick_pid_consolidate_period_closes fp proc numa set traced (added.periodic start) rest
        with same | closed
      · exact Or.inl (added.trans same)
      · exact Or.inr (added.trans closed)

/-- Books of a task that is only once in the list. -/
structure Tracks (managed : Managed κ) (place : Nat) (books : Ledger) : Prop where
  here : entry managed place = some books
  sole : ∀ other others, entry managed other = some others → others.pid = books.pid →
    other = place
  periodic : Periodic managed

theorem SameBooks.tracks {before after : Managed κ} (same : SameBooks before after)
    {place : Nat} {books : Ledger} (tracks : Tracks before place books) :
    Tracks after place books := by
  constructor
  · rw [same.entry]
    exact tracks.here
  · intro other others there
    rw [same.entry] at there
    exact tracks.sole other others there
  · exact same.periodic tracks.periodic

theorem MapsAt.tracks {before after : Managed κ} {change : Ledger → Ledger} {place : Nat}
    (maps : MapsAt change place before after) (pid : ∀ books, (change books).pid = books.pid)
    {books : Ledger} (tracks : Tracks before place books) :
    Tracks after place (change books) := by
  constructor
  · rw [maps.here, tracks.here]
    rfl
  · intro other others there same
    by_cases apart : other = place
    · exact apart
    · rw [maps.others other apart] at there
      exact tracks.sole other others there (same.trans (pid books))
  · exact maps.periodic tracks.periodic

/-- The books of another task may change. -/
theorem MapsAt.tracks_other {before after : Managed κ} {change : Ledger → Ledger} {spot place : Nat}
    (maps : MapsAt change spot before after) (pid : ∀ books, (change books).pid = books.pid)
    (apart : place ≠ spot) {books : Ledger} (tracks : Tracks before place books) :
    Tracks after place books := by
  constructor
  · rw [maps.others place apart]
    exact tracks.here
  · intro other others there same
    by_cases this : other = spot
    · rw [this, maps.here] at there
      obtain ⟨old, first, last⟩ := Option.map_eq_some_iff.mp there
      rw [this]
      exact tracks.sole spot old first (by rw [← pid old, last, same])
    · rw [maps.others other this] at there
      exact tracks.sole other others there same
  · exact maps.periodic tracks.periodic

theorem credited_pid (ts : UInt64) (books : Ledger) : (credited ts books).pid = books.pid := by
  rw [credited]
  split_ifs <;> rfl

theorem switched_pid (frame : SwitchFrame) (books : Ledger) :
    (switched frame books).pid = books.pid := by
  rw [switched]
  split_ifs <;> rfl

/-- A frame whose type and names look like the kernel's. -/
structure WellFormed (frame : SwitchFrame) : Prop where
  type : frame.commonType &&& 0xF000 = 0
  prev : frame.prevComm &&& 0x80 = 0
  next : frame.nextComm &&& 0x80 = 0

/-- What one frame makes of the books of a task. -/
def Handled (frame : SwitchFrame) (before after : Ledger) : Prop :=
  if before.pid = frame.prevPid then
    after = credited frame.ts (switched frame before) ∨
      after = booked (credited frame.ts (switched frame before))
  else after = switched frame before

theorem pick_pid_common_keeps {managed next : Managed κ} {frame : SwitchFrame}
    (run : pickPidCommon managed frame = some next) : Keeps managed next := by
  rw [pickPidCommon] at run
  split_ifs at run
  cases run
  intro place
  rw [List.getElem?_map, Option.map_map]
  cases managed.nhead[place]? with
  | none => rfl
  | some item =>
      simp only [Option.map_some, Function.comp]
      split_ifs <;> rfl

theorem switch_nodes_tracks (frame : SwitchFrame) (managed : Managed κ) {place : Nat}
    {books : Ledger} (tracks : Tracks managed place books) :
    Tracks ((List.range managed.nhead.length).foldl (switchNode fp proc numa set frame) managed)
      place (switched frame books) := by
  have entries : ∀ other, entry ((List.range managed.nhead.length).foldl
      (switchNode fp proc numa set frame) managed) other =
        (entry managed other).map (switched frame) := by
    intro other
    rw [switch_nodes_entry fp proc numa set frame _ List.nodup_range]
    split_ifs with inside
    · rfl
    · rw [List.mem_range] at inside
      rw [entry, List.getElem?_eq_none (by omega)]
      rfl
  constructor
  · rw [entries, tracks.here]
    rfl
  · intro other others there same
    rw [entries] at there
    obtain ⟨old, first, last⟩ := Option.map_eq_some_iff.mp there
    apply tracks.sole other old first
    rw [← switched_pid frame old, last, same, switched_pid]
  · exact switch_nodes_periodic fp proc numa set frame _ managed tracks.periodic

/-- The second loop finds the tracked task, or another one. -/
theorem leave_first_tracks (reports : ReportsPeriods proc) (traced : set.ftrace = true)
    (frame : SwitchFrame) {managed next : Managed κ} {place : Nat} {before books : Ledger}
    (switch : books = switched frame before) (tracks : Tracks managed place books)
    (run : leaveFirst fp proc numa set frame managed = .ok next) :
    ∃ after, Tracks next place after ∧ Handled frame before after := by
  have pid : books.pid = before.pid := by rw [switch, switched_pid]
  rw [leaveFirst] at run
  cases search : managed.nhead.findIdx? fun item => item.pid = frame.prevPid with
  | none =>
      rw [search] at run
      cases run
      refine ⟨books, tracks, ?_⟩
      rw [Handled, if_neg, switch]
      intro leaves
      obtain ⟨item, here, own⟩ := Option.map_eq_some_iff.mp tracks.here
      have absent := List.findIdx?_eq_none_iff.mp search item (List.mem_of_getElem? here)
      have same : item.pid = frame.prevPid := by
        rw [← leaves, ← pid, ← own]
        rfl
      simp [same] at absent
  | some spot =>
      obtain ⟨inside, found, _⟩ := List.findIdx?_eq_some_iff_getElem.mp search
      have here : managed.nhead[spot]? = some managed.nhead[spot] := List.getElem?_eq_getElem inside
      rw [search] at run
      dsimp only at run
      rw [here] at run
      have credits := leave_node_credits fp proc numa set reports traced frame tracks.periodic run
      have closes : ∀ books, ((booked ∘ credited frame.ts) books).pid = books.pid :=
        fun books => credited_pid frame.ts books
      by_cases this : place = spot
      · subst this
        have leaves : before.pid = frame.prevPid := by
          have own := tracks.here
          rw [entry, here] at own
          rw [← pid, ← Option.some.inj own]
          exact of_decide_eq_true found
        rcases credits with same | closed
        · exact ⟨_, same.tracks (credited_pid frame.ts) tracks, by
            rw [Handled, if_pos leaves, switch]
            exact Or.inl rfl⟩
        · exact ⟨_, closed.tracks closes tracks, by
            rw [Handled, if_pos leaves, switch]
            exact Or.inr rfl⟩
      · have stays : ¬ before.pid = frame.prevPid := by
          intro leaves
          apply this
          have other : entry managed spot = some (ledger managed.nhead[spot]) := by
            rw [entry, here]
            rfl
          refine (tracks.sole spot _ other ?_).symm
          rw [pid, leaves]
          exact of_decide_eq_true found
        refine ⟨books, ?_, by rw [Handled, if_neg stays, switch]⟩
        rcases credits with same | closed
        · exact same.tracks_other (credited_pid frame.ts) this tracks
        · exact closed.tracks_other closes this tracks

/-- One frame, as the books of a task see it. -/
theorem pick_pid_info_s_tracks (reports : ReportsPeriods proc) (traced : set.ftrace = true)
    {frame : SwitchFrame} (wellFormed : WellFormed frame) {managed next : Managed κ} {place : Nat}
    {books : Ledger} (tracks : Tracks managed place books) {rv : Int}
    (run : pickPidInfoS fp proc numa set managed frame = .ok (rv, next)) :
    ∃ after, Tracks next place after ∧ Handled frame books after := by
  rw [pickPidInfoS] at run
  cases common : pickPidCommon managed frame with
  | none => simp [pickPidCommon, wellFormed.type] at common
  | some marked =>
      have readable : ¬ (frame.prevComm &&& 0x80 ≠ 0 ∨ frame.nextComm &&& 0x80 ≠ 0) := by
        simp [wellFormed.prev, wellFormed.next]
      rw [common] at run
      dsimp only at run
      rw [if_neg readable] at run
      have atFirst := (pick_pid_common_keeps common).books.tracks tracks
      have atSwitch := switch_nodes_tracks fp proc numa set frame marked atFirst
      have atLast := (keeps_stays (recompute_cpu_times_u_stays fp set _ frame.cpuno none)).books.tracks atSwitch
      obtain ⟨left, first, last⟩ := bind_ok run
      cases last
      refine leave_first_tracks fp proc numa set reports traced frame rfl ?_ first
      split_ifs
      · exact (keeps_stays (pick_pid_realloc_cpu_stays fp proc numa set _ _ _)).books.tracks atLast
      · exact atLast

end Calls

end Orchestrator.Bookkeeping
