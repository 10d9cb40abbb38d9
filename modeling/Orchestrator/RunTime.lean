import Orchestrator.Bookkeeping
import Orchestrator.Interleave

/-!
Run times over several CPUs. Every CPU has a reader of its own, and the readers
share the time stamp of a task's last start. A task that moved may have its
switches handled out of order.
-/

namespace Orchestrator.RunTime
open Orchdata Resmgnt PidResources Traversal Manage Bookkeeping Interleave

/-- An interval in which a task ran. -/
structure Span where
  on : SwitchFrame
  off : SwitchFrame

def Span.length (span : Span) : Nat := span.off.ts.toNat - span.on.ts.toNat

/-- Switches of a task in a trace: it may run already when the trace begins and
still run when it ends. -/
structure Switches where
  early : Option SwitchFrame := none
  spans : List Span
  late : Option SwitchFrame := none

def Switches.moves (switches : Switches) : List SwitchFrame :=
  switches.early.toList ++ switches.spans.flatMap (fun span => [span.on, span.off]) ++
    switches.late.toList

def switchesIn (pid : Int) (frame : SwitchFrame) : Prop :=
  frame.nextPid = pid ∧ frame.prevPid ≠ pid

def switchesOut (pid : Int) (frame : SwitchFrame) : Prop :=
  frame.prevPid = pid ∧ frame.nextPid ≠ pid

/-- A trace in which the task is switched in and out in turn, on one CPU at a
time, with increasing time stamps. -/
structure Consistent (pid : Int) (trace : List SwitchFrame) (switches : Switches) : Prop where
  moves : trace.filter (fun frame => frame.prevPid = pid ∨ frame.nextPid = pid) = switches.moves
  early : ∀ off ∈ switches.early, switchesOut pid off
  on : ∀ span ∈ switches.spans, switchesIn pid span.on
  off : ∀ span ∈ switches.spans, switchesOut pid span.off
  cpu : ∀ span ∈ switches.spans, span.on.cpuno = span.off.cpuno
  late : ∀ on ∈ switches.late, switchesIn pid on
  increasing : switches.moves.Pairwise fun first second => first.ts < second.ts
  wellFormed : ∀ frame ∈ trace, WellFormed frame

/-- The switch that began the interval which this one ends. -/
def Switches.opening (switches : Switches) (off : SwitchFrame) : Option SwitchFrame :=
  (switches.spans.find? fun span => span.off = off).map Span.on

/-- The switch in of the task that was handled last. -/
def latest (pid : Int) (handled : List SwitchFrame) : Option SwitchFrame :=
  (handled.filter fun frame => frame.nextPid = pid).getLast?

/-- Run time of the intervals whose end was handled. -/
def Switches.completed (switches : Switches) (handled : List SwitchFrame) : Nat :=
  ((switches.spans.filter fun span => span.off ∈ handled).map Span.length).sum

/-- Run time recorded for a task: what the histogram was given and what the
current period has so far. -/
def recorded (books : Ledger) : Nat := books.rt.toNat + (books.pdfHist.map UInt64.toNat).sum

section Readers
variable {κ : Type} (fp : Rounding) (proc : Proc κ) (numa : Numa) (set : PrgSet)

/-- One event of a reader. -/
def readEvent (managed : Managed κ) (frame : SwitchFrame) : Except Stop (Managed κ) := do
  let (_, next) ← pickPidInfoS fp proc numa set managed frame
  pure next

/-- The readers' events in the order in which they get the mutex. -/
def readEvents (start : Managed κ) (order : List SwitchFrame) : Except Stop (Managed κ) :=
  order.foldlM (readEvent fp proc numa set) start

/-- The books after the events `handled`, with `next` to come: everything that
ended is recorded, and the coming update does not underflow. -/
structure Accurate (switches : Switches) (handled next : List SwitchFrame) (books : Ledger) :
    Prop where
  total : recorded books = switches.completed handled
  noUnderflow : ∀ off rest, next = off :: rest → off.prevPid = books.pid →
    books.lastTs ≤ off.ts

/-- Accurate books in every state that is reached. -/
def Accounted (start : Managed κ) (place : Nat) (switches : Switches)
    (order : List SwitchFrame) : Prop :=
  ∀ handled next managed, order = handled ++ next →
    readEvents fp proc numa set start handled = .ok managed →
    ∃ books, entry managed place = some books ∧ Accurate switches handled next books

end Readers

/-- A switch out is handled before any other switch in of the task than the one
that began its interval, and no interval begins at 0, which stands for no time
stamp. -/
def Undisturbed (pid : Int) (switches : Switches) (order : List SwitchFrame) : Prop :=
  ∀ handled off next, order = handled ++ off :: next → off.prevPid = pid →
    latest pid handled = switches.opening off ∧ ∀ on ∈ switches.opening off, on.ts ≠ 0

/-- A task that runs for the first time: nothing is recorded. -/
def fresh (pid : Int) : Ledger := ⟨pid, 0, 0, []⟩

section Spans

/-- The intervals follow each other, so they fit in the time that passes. -/
theorem lengths_le (spans : List Span) (first last : Nat)
    (increasing : (spans.flatMap fun span => [span.on, span.off]).Pairwise
      fun first second => first.ts < second.ts)
    (after : ∀ frame ∈ spans.flatMap (fun span => [span.on, span.off]), first ≤ frame.ts.toNat)
    (before : ∀ frame ∈ spans.flatMap (fun span => [span.on, span.off]), frame.ts.toNat ≤ last)
    (range : first ≤ last) :
    first + (spans.map Span.length).sum ≤ last := by
  induction spans generalizing first with
  | nil => simpa using range
  | cons span rest ih =>
      rw [List.flatMap_cons] at increasing after before
      obtain ⟨own, others, apart⟩ := List.pairwise_append.mp increasing
      have order : span.on.ts.toNat < span.off.ts.toNat := by
        have := List.rel_of_pairwise_cons own (List.mem_singleton_self span.off)
        exact this
      have start := after span.on (by simp)
      have stop := before span.off (by simp)
      have tail := ih span.off.ts.toNat others
        (fun frame member => (apart span.off (by simp) frame member).le)
        (fun frame member => before frame (List.mem_append_right _ member)) stop
      rw [List.map_cons, List.sum_cons, Span.length]
      omega

theorem completed_step (spans : List Span) (distinct : (spans.map Span.off).Nodup)
    (handled : List SwitchFrame) (frame : SwitchFrame) (new : frame ∉ handled) :
    ((spans.filter fun span => span.off ∈ handled ++ [frame]).map Span.length).sum =
      ((spans.filter fun span => span.off ∈ handled).map Span.length).sum +
        ((spans.find? fun span => span.off = frame).map Span.length).getD 0 := by
  induction spans with
  | nil => rfl
  | cons span rest ih =>
      obtain ⟨apart, distinct⟩ := List.nodup_cons.mp distinct
      have tail := ih distinct
      by_cases this : span.off = frame
      · subst this
        have absent : rest.find? (fun other => other.off = span.off) = none := by
          apply List.find?_eq_none.mpr
          intro other member same
          exact apart (List.mem_map.mpr ⟨other, member, of_decide_eq_true same⟩)
        rw [absent] at tail
        simp only [List.filter_cons, List.find?_cons]
        simp [new] at tail ⊢
        omega
      · simp only [List.filter_cons, List.find?_cons]
        by_cases inside : span.off ∈ handled
        · simp [this, inside] at tail ⊢
          omega
        · simp [this, inside] at tail ⊢
          exact tail

end Spans

section Consistency
variable {pid : Int} {trace order : List SwitchFrame} {switches : Switches}

theorem same_move (consistent : Consistent pid trace switches) {first second : SwitchFrame}
    (one : first ∈ switches.moves) (two : second ∈ switches.moves) (same : first.ts = second.ts) :
    first = second := by
  have distinct : (switches.moves.map SwitchFrame.ts).Nodup :=
    List.pairwise_map.mpr (consistent.increasing.imp UInt64.ne_of_lt)
  exact List.inj_on_of_nodup_map distinct one two same

theorem move_mem (consistent : Consistent pid trace switches) (perm : order.Perm trace)
    {frame : SwitchFrame} (member : frame ∈ order)
    (own : frame.prevPid = pid ∨ frame.nextPid = pid) : frame ∈ switches.moves := by
  rw [← consistent.moves]
  exact List.mem_filter.mpr ⟨perm.mem_iff.mp member, by simpa using own⟩

theorem mem_moves (frame : SwitchFrame) :
    frame ∈ switches.moves ↔ switches.early = some frame ∨
      (∃ span ∈ switches.spans, frame = span.on ∨ frame = span.off) ∨
        switches.late = some frame := by
  simp [Switches.moves]

/-- A switch out ends an interval, or the trace begins before it. -/
theorem out_cases (consistent : Consistent pid trace switches) {off : SwitchFrame}
    (member : off ∈ switches.moves) (out : off.prevPid = pid) :
    switches.early = some off ∨ ∃ span ∈ switches.spans, span.off = off := by
  rcases (mem_moves off).mp member with early | span | late
  · exact Or.inl early
  · obtain ⟨span, inside, on | done⟩ := span
    · have starts := consistent.on span inside
      rw [← on] at starts
      exact absurd out starts.2
    · exact Or.inr ⟨span, inside, done.symm⟩
  · exact absurd out (consistent.late off late).2

theorem out_not_in (consistent : Consistent pid trace switches) {off : SwitchFrame}
    (member : off ∈ switches.moves) (out : off.prevPid = pid) : off.nextPid ≠ pid := by
  rcases out_cases consistent member out with early | ⟨span, inside, done⟩
  · exact (consistent.early off early).2
  · rw [← done]
    exact (consistent.off span inside).2

theorem span_mem {span : Span} (inside : span ∈ switches.spans) :
    span.on ∈ switches.moves ∧ span.off ∈ switches.moves :=
  ⟨(mem_moves _).mpr (Or.inr (Or.inl ⟨span, inside, Or.inl rfl⟩)),
    (mem_moves _).mpr (Or.inr (Or.inl ⟨span, inside, Or.inr rfl⟩))⟩

theorem spans_increasing (consistent : Consistent pid trace switches) :
    (switches.spans.flatMap fun span => [span.on, span.off]).Pairwise
      fun first second => first.ts < second.ts :=
  (List.pairwise_append.mp (List.pairwise_append.mp consistent.increasing).1).2.1

theorem span_order (consistent : Consistent pid trace switches) {span : Span}
    (inside : span ∈ switches.spans) : span.on.ts < span.off.ts := by
  have own := (List.pairwise_flatMap.mp (spans_increasing consistent)).1 span inside
  exact List.rel_of_pairwise_cons own (List.mem_singleton_self span.off)

theorem offs_nodup (consistent : Consistent pid trace switches) :
    (switches.spans.map Span.off).Nodup := by
  have apart := (List.pairwise_flatMap.mp (spans_increasing consistent)).2
  apply List.pairwise_map.mpr
  apply apart.imp
  intro first second less same
  have := less first.off (by simp) second.off (by simp)
  rw [same] at this
  exact UInt64.lt_irrefl _ this

/-- The trace begins before its first switch out. -/
theorem early_first (consistent : Consistent pid trace switches) {off frame : SwitchFrame}
    (early : switches.early = some off) (member : frame ∈ switches.moves) (apart : frame ≠ off) :
    off.ts < frame.ts := by
  have increasing := consistent.increasing
  rw [Switches.moves, early, Option.toList_some, List.append_assoc, List.singleton_append]
    at increasing member
  exact List.rel_of_pairwise_cons increasing ((List.mem_cons.mp member).resolve_left apart)

/-- What a switch out adds to the completed intervals. -/
def Switches.added (switches : Switches) (off : SwitchFrame) : Nat :=
  ((switches.spans.find? fun span => span.off = off).map Span.length).getD 0

theorem opening_cases (switches : Switches) (off : SwitchFrame) :
    (switches.opening off = none ∧ switches.added off = 0 ∧
      ∀ span ∈ switches.spans, span.off ≠ off) ∨
    ∃ span ∈ switches.spans, span.off = off ∧ switches.opening off = some span.on ∧
      switches.added off = span.length := by
  rw [Switches.opening, Switches.added]
  cases search : switches.spans.find? fun span => span.off = off with
  | none =>
      refine Or.inl ⟨rfl, rfl, ?_⟩
      intro span inside same
      have absent := List.find?_eq_none.mp search span inside
      simp [same] at absent
  | some span =>
      exact Or.inr ⟨span, List.mem_of_find?_eq_some search,
        by simpa using List.find?_some search, rfl, rfl⟩

/-- Every switch of the task is handled once. -/
theorem move_once (consistent : Consistent pid trace switches) (perm : order.Perm trace)
    {handled next : List SwitchFrame} {frame : SwitchFrame} (split : order = handled ++ frame :: next)
    (own : frame.prevPid = pid ∨ frame.nextPid = pid) : frame ∉ handled := by
  intro before
  have distinct : switches.moves.Nodup :=
    consistent.increasing.imp fun less same => by
      rw [same] at less
      exact UInt64.lt_irrefl _ less
  rw [← consistent.moves] at distinct
  have once := (perm.filter fun frame => frame.prevPid = pid ∨ frame.nextPid = pid).nodup_iff.mpr
    distinct
  rw [split, List.filter_append, List.filter_cons_of_pos (by simpa using own)] at once
  have apart := (List.nodup_append.mp once).2.2 frame
    (List.mem_filter.mpr ⟨before, by simpa using own⟩) frame (List.mem_cons_self ..)
  exact apart rfl

theorem completed_snoc (consistent : Consistent pid trace switches) (perm : order.Perm trace)
    {handled next : List SwitchFrame} {frame : SwitchFrame}
    (split : order = handled ++ frame :: next) :
    switches.completed (handled ++ [frame]) = switches.completed handled + switches.added frame := by
  by_cases own : frame.prevPid = pid
  · exact completed_step switches.spans (offs_nodup consistent) handled frame
      (move_once consistent perm split (Or.inl own))
  · have other : ∀ span ∈ switches.spans, span.off ≠ frame := by
      intro span inside same
      apply own
      rw [← same]
      exact (consistent.off span inside).1
    have nothing : switches.added frame = 0 := by
      rcases opening_cases switches frame with ⟨_, zero, _⟩ | ⟨span, inside, same, _⟩
      · exact zero
      · exact absurd same (other span inside)
    rw [nothing, Nat.add_zero, Switches.completed, Switches.completed]
    congr 2
    apply List.filter_congr
    intro span inside
    simp [other span inside]

theorem completed_lt (consistent : Consistent pid trace switches) (handled : List SwitchFrame) :
    switches.completed handled < Cmnutil.word := by
  have part : switches.completed handled ≤ (switches.spans.map Span.length).sum :=
    (List.filter_sublist.map Span.length).sum_le_sum fun _ _ => Nat.zero_le _
  have whole := lengths_le switches.spans 0 (Cmnutil.word - 1) (spans_increasing consistent)
    (fun _ _ => Nat.zero_le _) (fun frame _ => Nat.le_pred_of_lt frame.ts.toNat_lt)
    (Nat.zero_le _)
  have : 0 < Cmnutil.word := by decide
  omega

theorem completed_all (consistent : Consistent pid trace switches) (perm : order.Perm trace) :
    switches.completed order = (switches.spans.map Span.length).sum := by
  rw [Switches.completed, List.filter_eq_self.mpr]
  intro span inside
  have member : span.off ∈ trace := by
    have own := (span_mem inside).2
    rw [← consistent.moves] at own
    exact (List.mem_filter.mp own).1
  simpa using perm.mem_iff.mpr member

end Consistency

section Books

theorem recorded_booked (books : Ledger) : recorded (booked books) = recorded books := by
  simp [recorded, booked]

theorem recorded_switched (frame : SwitchFrame) (books : Ledger) :
    recorded (switched frame books) = recorded books := by
  rw [switched]
  split_ifs <;> rfl

/-- Time stamp of the switch in that was handled last, 0 for none. -/
def stamp (pid : Int) (handled : List SwitchFrame) : UInt64 :=
  ((latest pid handled).map SwitchFrame.ts).getD 0

theorem latest_snoc (pid : Int) (handled : List SwitchFrame) (frame : SwitchFrame) :
    latest pid (handled ++ [frame]) =
      if frame.nextPid = pid then some frame else latest pid handled := by
  rw [latest, latest, List.filter_append]
  by_cases own : frame.nextPid = pid
  · simp [own]
  · simp [own]

theorem latest_mem {pid : Int} {handled : List SwitchFrame} {on : SwitchFrame}
    (last : latest pid handled = some on) : on ∈ handled ∧ on.nextPid = pid := by
  have member := List.mem_of_getLast? last
  rw [List.mem_filter] at member
  simpa using member

theorem handled_pid {frame : SwitchFrame} {before after : Ledger}
    (handled : Handled frame before after) : after.pid = before.pid := by
  rw [Handled] at handled
  split_ifs at handled
  · rcases handled with same | closed
    · rw [same, credited_pid, switched_pid]
    · rw [closed]
      exact (credited_pid _ _).trans (switched_pid _ _)
  · rw [handled, switched_pid]

theorem credited_last_ts (ts : UInt64) (books : Ledger) :
    (credited ts books).lastTs = books.lastTs := by
  rw [credited]
  split_ifs <;> rfl

theorem handled_last_ts {frame : SwitchFrame} {before after : Ledger}
    (handled : Handled frame before after) :
    after.lastTs = if frame.nextPid = before.pid then frame.ts else before.lastTs := by
  have start : (switched frame before).lastTs =
      if frame.nextPid = before.pid then frame.ts else before.lastTs := by
    rw [switched]
    by_cases own : before.pid = frame.nextPid
    · rw [if_pos own, if_pos own.symm]
      rfl
    · rw [if_neg own, if_neg (Ne.symm own)]
  rw [Handled] at handled
  split_ifs at handled
  · rcases handled with same | closed
    · rw [same, credited_last_ts, start]
    · rw [closed]
      exact (credited_last_ts _ _).trans start
  · rw [handled, start]

/-- An event that does not switch the task out records nothing. -/
theorem handled_other {frame : SwitchFrame} {before after : Ledger}
    (handled : Handled frame before after) (other : before.pid ≠ frame.prevPid) :
    recorded after = recorded before := by
  rw [Handled, if_neg other] at handled
  rw [handled, recorded_switched]

/-- A switch out without a time stamp records nothing. -/
theorem handled_unknown {frame : SwitchFrame} {before after : Ledger}
    (handled : Handled frame before after) (leaves : before.pid = frame.prevPid)
    (apart : before.pid ≠ frame.nextPid) (unknown : before.lastTs = 0) :
    recorded after = recorded before := by
  rw [Handled, if_pos leaves, switched, if_neg apart, credited, if_neg (not_not.mpr unknown)]
    at handled
  rcases handled with same | closed
  · rw [same]
  · rw [closed, recorded_booked]

/-- A switch out records the time since the last start, up to wrap-around. -/
theorem handled_out {frame : SwitchFrame} {before after : Ledger}
    (handled : Handled frame before after) (leaves : before.pid = frame.prevPid)
    (apart : before.pid ≠ frame.nextPid) (known : before.lastTs ≠ 0) :
    recorded after = (before.rt + (frame.ts - before.lastTs)).toNat +
      (before.pdfHist.map UInt64.toNat).sum := by
  rw [Handled, if_pos leaves, switched, if_neg apart, credited, if_pos known] at handled
  rcases handled with same | closed
  · rw [same]
    rfl
  · rw [closed, recorded_booked]
    rfl

end Books

section Readers
variable {κ : Type} {fp : Rounding} {proc : Proc κ} {numa : Numa} {set : PrgSet}

theorem read_event_tracks (reports : ReportsPeriods proc) (traced : set.ftrace = true)
    {frame : SwitchFrame} (wellFormed : WellFormed frame) {managed next : Managed κ} {place : Nat}
    {books : Ledger} (tracks : Tracks managed place books)
    (run : readEvent fp proc numa set managed frame = .ok next) :
    ∃ after, Tracks next place after ∧ Handled frame books after := by
  obtain ⟨⟨rv, left⟩, first, last⟩ := bind_ok run
  cases last
  exact pick_pid_info_s_tracks fp proc numa set reports traced wellFormed tracks first

/-- Wherever the readers are, the task's time stamp is that of the switch in they
handled last. -/
theorem read_events_stamp (reports : ReportsPeriods proc) (traced : set.ftrace = true)
    {start : Managed κ} {place : Nat} {blank : Ledger} (first : Tracks start place blank)
    (handled : List SwitchFrame) (wellFormed : ∀ frame ∈ handled, WellFormed frame)
    (managed : Managed κ) (run : readEvents fp proc numa set start handled = .ok managed) :
    ∃ books, Tracks managed place books ∧ books.pid = blank.pid ∧
      books.lastTs = ((latest blank.pid handled).map SwitchFrame.ts).getD blank.lastTs := by
  induction handled using List.reverseRecOn generalizing managed with
  | nil =>
      cases run
      exact ⟨blank, first, rfl, rfl⟩
  | append_singleton handled frame ih =>
      obtain ⟨before, earlier, step⟩ := fold_snoc _ handled frame start managed run
      obtain ⟨books, tracks, own, lastTs⟩ := ih
        (fun other member => wellFormed other (List.mem_append_left _ member)) before earlier
      obtain ⟨after, still, change⟩ := read_event_tracks reports traced
        (wellFormed frame (by simp)) tracks step
      refine ⟨after, still, (handled_pid change).trans own, ?_⟩
      rw [handled_last_ts change, latest_snoc, own]
      split_ifs
      · rfl
      · exact lastTs

variable {pid : Int} {trace order : List SwitchFrame} {switches : Switches}

/-- While the condition holds, the books agree with the intervals that ended. -/
theorem read_events_total (reports : ReportsPeriods proc) (traced : set.ftrace = true)
    {start : Managed κ} {place : Nat} {blank : Ledger} (first : Tracks start place blank)
    (nothing : recorded blank = 0) (same : blank.pid = pid)
    (stopped : switches.early = none ∨ blank.lastTs = 0)
    (consistent : Consistent pid trace switches) (perm : order.Perm trace)
    (undisturbed : Undisturbed pid switches order) (handled next : List SwitchFrame)
    (split : order = handled ++ next) (managed : Managed κ)
    (run : readEvents fp proc numa set start handled = .ok managed) :
    ∃ books, Tracks managed place books ∧ books.pid = pid ∧
      books.lastTs = ((latest pid handled).map SwitchFrame.ts).getD blank.lastTs ∧
        recorded books = switches.completed handled := by
  induction handled using List.reverseRecOn generalizing managed next with
  | nil =>
      cases run
      refine ⟨blank, first, same, rfl, nothing.trans ?_⟩
      simp [Switches.completed]
  | append_singleton handled frame ih =>
      have apart : order = handled ++ frame :: next := by simpa using split
      obtain ⟨before, earlier, step⟩ := fold_snoc _ handled frame start managed run
      obtain ⟨books, tracks, own, lastTs, total⟩ := ih (frame :: next) apart before earlier
      have member : frame ∈ order := by simp [apart]
      obtain ⟨after, still, change⟩ := read_event_tracks reports traced
        (consistent.wellFormed frame (perm.mem_iff.mp member)) tracks step
      refine ⟨after, still, (handled_pid change).trans own, ?_, ?_⟩
      · rw [handled_last_ts change, latest_snoc, own]
        split_ifs
        · rfl
        · exact lastTs
      · rw [completed_snoc consistent perm apart]
        by_cases out : frame.prevPid = pid
        · obtain ⟨opened, nonzero⟩ := undisturbed handled frame next apart out
          have move := move_mem consistent perm member (Or.inl out)
          have leaves : books.pid = frame.prevPid := own.trans out.symm
          have stays : books.pid ≠ frame.nextPid := fun same =>
            out_not_in consistent move out (same.symm.trans own)
          rcases opening_cases switches frame with ⟨none, zero, alone⟩ | ⟨span, inside, done, some, added⟩
          · have began : switches.early = some frame := by
              rcases out_cases consistent move out with early | ⟨span, inside, done⟩
              · exact early
              · exact absurd done (alone span inside)
            have unknown : books.lastTs = 0 := by
              rw [lastTs, opened, none]
              exact stopped.resolve_left (by simp [began])
            rw [handled_unknown change leaves stays unknown, zero, total, Nat.add_zero]
          · have known : books.lastTs = span.on.ts := by rw [lastTs, opened, some]; rfl
            have positive : books.lastTs ≠ 0 := known ▸ nonzero span.on some
            have less : span.on.ts ≤ frame.ts := by
              rw [← done]
              exact UInt64.le_of_lt (span_order consistent inside)
            have bound := completed_lt consistent (handled ++ [frame])
            rw [completed_snoc consistent perm apart, added, Span.length, done] at bound
            have part : books.rt.toNat ≤ recorded books := Nat.le_add_right _ _
            rw [handled_out change leaves stays positive, known, Cmnutil.add_exact,
              UInt64.toNat_sub_of_le _ _ less, added, Span.length, done, ← total, recorded]
            · omega
            · rw [UInt64.toNat_sub_of_le _ _ less]
              omega
        · have other : books.pid ≠ frame.prevPid := fun same => out (same.symm.trans own)
          have nothing : switches.added frame = 0 := by
            rcases opening_cases switches frame with ⟨_, zero, _⟩ | ⟨span, inside, done, _⟩
            · exact zero
            · exact absurd (done ▸ (consistent.off span inside).1) out
          rw [handled_other change other, nothing, total, Nat.add_zero]

theorem accounted_of_undisturbed (reports : ReportsPeriods proc) (traced : set.ftrace = true)
    {start : Managed κ} {place : Nat} (first : Tracks start place (fresh pid))
    (consistent : Consistent pid trace switches) (perm : order.Perm trace)
    (undisturbed : Undisturbed pid switches order) :
    Accounted fp proc numa set start place switches order := by
  intro handled next managed split run
  obtain ⟨books, tracks, own, lastTs, total⟩ := read_events_total reports traced first rfl rfl
    (Or.inr rfl) consistent perm undisturbed handled next split managed run
  refine ⟨books, tracks.here, total, ?_⟩
  intro off rest ahead out
  subst ahead
  have leaves : off.prevPid = pid := out.trans own
  obtain ⟨opened, _⟩ := undisturbed handled off rest split leaves
  change books.lastTs = stamp pid handled at lastTs
  rw [lastTs, stamp, opened]
  rcases opening_cases switches off with ⟨none, _⟩ | ⟨span, inside, done, some, _⟩
  · rw [none]
    exact UInt64.zero_le
  · rw [some, ← done]
    exact UInt64.le_of_lt (span_order consistent inside)

/-- No switch in was handled and no interval ends: the interval began before the trace. -/
theorem unopened_out (consistent : Consistent pid trace switches)
    {handled : List SwitchFrame} (known : ∀ frame ∈ handled, frame.nextPid = pid →
      frame ∈ switches.moves) {off : SwitchFrame} (move : off ∈ switches.moves)
    (out : off.prevPid = pid) (unknown : stamp pid handled = 0) (zero : switches.added off = 0) :
    latest pid handled = switches.opening off ∧ ∀ on ∈ switches.opening off, on.ts ≠ 0 := by
  rcases opening_cases switches off with ⟨none, _, alone⟩ | ⟨span, inside, done, _, added⟩
  · rw [none]
    refine ⟨?_, fun on found => by cases found⟩
    have early : switches.early = some off := by
      rcases out_cases consistent move out with early | ⟨span, inside, done⟩
      · exact early
      · exact absurd done (alone span inside)
    cases last : latest pid handled with
    | none => rfl
    | some on =>
        obtain ⟨member, starts⟩ := latest_mem last
        have later := early_first consistent early (known on member starts)
          (fun this => out_not_in consistent move out (this ▸ starts))
        rw [stamp, last] at unknown
        change on.ts = 0 at unknown
        rw [unknown] at later
        exact absurd later UInt64.not_lt_zero
  · have grows := UInt64.lt_iff_toNat_lt.mp (span_order consistent inside)
    rw [Span.length] at added
    omega

/-- The time since the last switch in is that of an interval: it is the one that ends. -/
theorem opened_out (consistent : Consistent pid trace switches)
    {handled : List SwitchFrame} {on off : SwitchFrame} (onMove : on ∈ switches.moves)
    (move : off ∈ switches.moves) (out : off.prevPid = pid) (last : latest pid handled = some on)
    (known : on.ts ≠ 0) (order : on.ts ≤ off.ts)
    (length : off.ts.toNat - on.ts.toNat = switches.added off) :
    latest pid handled = switches.opening off ∧ ∀ on ∈ switches.opening off, on.ts ≠ 0 := by
  have starts := (latest_mem last).2
  have apart : on ≠ off := fun this => out_not_in consistent move out (this ▸ starts)
  have order := UInt64.le_iff_toNat_le.mp order
  rcases opening_cases switches off with ⟨_, zero, _⟩ | ⟨span, inside, done, some, added⟩
  · refine absurd (same_move consistent onMove move (UInt64.toNat_inj.mp ?_)) apart
    omega
  · have grows := UInt64.lt_iff_toNat_lt.mp (span_order consistent inside)
    rw [Span.length, done] at added
    rw [done] at grows
    have same := same_move consistent onMove (span_mem inside).1 (UInt64.toNat_inj.mp (by omega))
    rw [last, some, same]
    refine ⟨rfl, fun other found => ?_⟩
    cases found
    rw [← same]
    exact known

/-- A switch out that is accounted for was handled with its own start. -/
theorem undisturbed_of_accounted (reports : ReportsPeriods proc) (traced : set.ftrace = true)
    {start final : Managed κ} {place : Nat} (first : Tracks start place (fresh pid))
    (consistent : Consistent pid trace switches) (perm : order.Perm trace)
    (run : readEvents fp proc numa set start order = .ok final)
    (accounted : Accounted fp proc numa set start place switches order) :
    Undisturbed pid switches order := by
  intro handled off next split out
  have inOrder : ∀ frame ∈ handled ++ [off], frame ∈ order := by
    intro frame member
    rw [split]
    simp at member ⊢
    tauto
  have move := move_mem consistent perm (inOrder off (by simp)) (Or.inl out)
  -- the states around the switch out
  have snoc : order = (handled ++ [off]) ++ next := by simpa using split
  rw [snoc, readEvents, List.foldlM_append] at run
  obtain ⟨managed, toOff, _⟩ := bind_ok run
  obtain ⟨before, earlier, step⟩ := fold_snoc _ handled off start managed toOff
  obtain ⟨books, tracks, own, lastTs⟩ := read_events_stamp reports traced first handled
    (fun frame member => consistent.wellFormed frame
      (perm.mem_iff.mp (inOrder frame (List.mem_append_left _ member)))) before earlier
  change books.lastTs = stamp pid handled at lastTs
  obtain ⟨after, still, change⟩ := read_event_tracks reports traced
    (consistent.wellFormed off (perm.mem_iff.mp (inOrder off (by simp)))) tracks step
  -- what is accounted for there
  obtain ⟨same, there, exact⟩ := accounted handled (off :: next) before split earlier
  obtain ⟨same', there', exact'⟩ := accounted (handled ++ [off]) next managed snoc toOff
  rw [tracks.here] at there
  cases there
  rw [still.here] at there'
  cases there'
  have total := exact'.total
  rw [completed_snoc consistent perm split, ← exact.total] at total
  have less := exact.noUnderflow off next rfl (out.trans own.symm)
  have leaves : books.pid = off.prevPid := own.trans out.symm
  have stays : books.pid ≠ off.nextPid := fun same =>
    out_not_in consistent move out (same.symm.trans own)
  have moves : ∀ frame ∈ handled, frame.nextPid = pid → frame ∈ switches.moves :=
    fun frame member own =>
      move_mem consistent perm (inOrder frame (List.mem_append_left _ member)) (Or.inr own)
  by_cases unknown : books.lastTs = 0
  · -- nothing was recorded, so nothing ended
    rw [handled_unknown change leaves stays unknown] at total
    exact unopened_out consistent moves move out (lastTs.symm.trans unknown) (by omega)
  · cases last : latest pid handled with
    | none =>
        rw [lastTs, stamp, last] at unknown
        exact absurd rfl unknown
    | some on =>
        have known : books.lastTs = on.ts := by
          rw [lastTs, stamp, last]
          rfl
        obtain ⟨member, starts⟩ := latest_mem last
        -- both sides count the same time, as words below the wrap-around
        have length : off.ts.toNat - on.ts.toNat = switches.added off := by
          rw [handled_out change leaves stays unknown, UInt64.toNat_add,
            UInt64.toNat_sub_of_le _ _ less, known, recorded] at total
          have offLt := off.ts.toNat_lt
          have rtLt := books.rt.toNat_lt
          rcases opening_cases switches off with ⟨_, zero, _⟩ | ⟨span, _, done, _, added⟩
          · omega
          · rw [Span.length, done] at added
            omega
        rw [known] at unknown less
        rw [← last]
        exact opened_out consistent (moves on member starts) move out last unknown less length

/-- For a task that is new, every consistent trace and every way the readers'
streams interleave: the books are accurate in every state if each switch out
follows its own switch in, and only then in runs that come to their end. At the
end all intervals are completed. -/
theorem run_time_accounted_iff (reports : ReportsPeriods proc) (traced : set.ftrace = true)
    {start : Managed κ} {place : Nat} (first : Tracks start place (fresh pid))
    (consistent : Consistent pid trace switches)
    (streams : Interleaves SwitchFrame.cpuno trace order) :
    (Undisturbed pid switches order → Accounted fp proc numa set start place switches order) ∧
      ((∃ final, readEvents fp proc numa set start order = .ok final) →
        Accounted fp proc numa set start place switches order → Undisturbed pid switches order) ∧
      switches.completed order = (switches.spans.map Span.length).sum := by
  have perm := interleaves_perm SwitchFrame.cpuno streams
  refine ⟨?_, ?_, completed_all consistent perm⟩
  · exact accounted_of_undisturbed reports traced first consistent perm
  · rintro ⟨final, run⟩
    exact undisturbed_of_accounted reports traced first consistent perm run

end Readers

/-- A kernel that refuses nothing and reports nothing. -/
def idleProc : Proc Unit where
  getCpus := fun state _ => ([], state)
  setCpus := fun state _ _ => (true, state)
  setTasks := fun state _ => (true, state)
  getaffinity := fun state _ => (∅, state)
  setaffinity := fun state _ _ => (true, state)
  setattr := fun state _ _ => (true, state)
  getRlimit := fun state _ _ => (none, state)
  setRlimit := fun state _ _ _ => (true, state)
  getattr := fun state _ => (none, state)
  schedDebug := fun state _ => (none, state)

def tracing : PrgSet := { ftrace := true }

def newTask : Managed Unit := ⟨[{ loc := 1, pid := 100 }], {}, {}, ()⟩

/-- Ten nanoseconds on CPU 0, then ten on CPU 1. -/
def onFirst : SwitchFrame := { cpuno := 0, ts := 10, prevPid := 0, nextPid := 100 }
def offFirst : SwitchFrame := { cpuno := 0, ts := 20, prevPid := 100, nextPid := 0 }
def onSecond : SwitchFrame := { cpuno := 1, ts := 30, prevPid := 0, nextPid := 100 }
def offSecond : SwitchFrame := { cpuno := 1, ts := 40, prevPid := 100, nextPid := 0 }

def migration : List SwitchFrame := [onFirst, offFirst, onSecond, offSecond]

def twoSpans : Switches := { spans := [⟨onFirst, offFirst⟩, ⟨onSecond, offSecond⟩] }

theorem idle_reports : ReportsPeriods idleProc := by
  intro kernel pid attr reported
  cases reported

theorem new_task_tracks : Tracks newTask 0 (fresh 100) := by
  constructor
  · rfl
  · intro other others there _
    cases other with
    | zero => rfl
    | succ other => cases there
  · intro item member
    rw [List.mem_singleton.mp member]
    exact fun policy => absurd policy (by decide)

theorem migration_consistent : Consistent 100 migration twoSpans where
  moves := by decide
  early := fun _ none => by cases none
  on := by simp [twoSpans, switchesIn, onFirst, onSecond]
  off := by simp [twoSpans, switchesOut, offFirst, offSecond]
  cpu := by simp [twoSpans, onFirst, offFirst, onSecond, offSecond]
  late := fun _ none => by cases none
  increasing := by decide
  wellFormed := by
    intro frame member
    simp only [migration, List.mem_cons, List.not_mem_nil, or_false] at member
    rcases member with this | this | this | this <;> subst this <;> exact ⟨rfl, rfl, rfl⟩

theorem in_order_undisturbed : Undisturbed 100 twoSpans migration := by
  intro handled off next split out
  rcases handled with _ | ⟨_, _ | ⟨_, _ | ⟨_, _ | ⟨_, _ | ⟨_, rest⟩⟩⟩⟩⟩ <;>
    simp [migration] at split
  · obtain ⟨rfl, _⟩ := split
    exact absurd out (by decide)
  · obtain ⟨rfl, rfl, _⟩ := split
    exact ⟨by decide, by decide⟩
  · obtain ⟨_, _, rfl, _⟩ := split
    exact absurd out (by decide)
  · obtain ⟨rfl, rfl, rfl, rfl, _⟩ := split
    exact ⟨by decide, by decide⟩

/-- Read as they happened, both intervals are recorded. -/
theorem migration_in_order :
    Accounted exact idleProc ⟨2, {0, 1}⟩ tracing newTask 0 twoSpans migration :=
  (run_time_accounted_iff idle_reports rfl new_task_tracks migration_consistent
    fun _ => rfl).1 in_order_undisturbed

/-- Both starts read before the first end: its update is 20 - 30. -/
theorem migration_read_late :
    Tracks newTask 0 (fresh 100) ∧ Consistent 100 migration twoSpans ∧
      Interleaves SwitchFrame.cpuno migration [onFirst, onSecond, offFirst, offSecond] ∧
      ¬ Accounted exact idleProc ⟨2, {0, 1}⟩ tracing newTask 0 twoSpans
        [onFirst, onSecond, offFirst, offSecond] := by
  have streams : Interleaves SwitchFrame.cpuno migration
      [onFirst, onSecond, offFirst, offSecond] := by
    intro reader
    match reader with
    | 0 => rfl
    | 1 => rfl
    | _ + 2 => rfl
  refine ⟨new_task_tracks, migration_consistent, streams, fun accounted => ?_⟩
  have run : returns (readEvents exact idleProc ⟨2, {0, 1}⟩ tracing newTask
      [onFirst, onSecond, offFirst, offSecond]) (fun _ => true) = true := by
    decide +kernel
  obtain ⟨final, ends, _⟩ := (returns_iff _ _).mp run
  have undisturbed := undisturbed_of_accounted idle_reports rfl new_task_tracks
    migration_consistent (interleaves_perm SwitchFrame.cpuno streams) ends accounted
  have opened := (undisturbed [onFirst, onSecond] offFirst [offSecond] rfl rfl).1
  exact absurd opened (by decide)

end Orchestrator.RunTime
