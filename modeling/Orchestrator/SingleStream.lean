import Orchestrator.RunTime

/-!
Run times over one stream. The events of one reader come in the order of time,
so every switch out finds the time stamp of its own switch in. Nothing of the run
time is lost when a period ends.
-/

namespace Orchestrator.SingleStream
open Orchdata Resmgnt Traversal Manage Bookkeeping RunTime

/-- The events of one reader in which a task is switched in first and then out
and in again in turn. -/
structure Alternates (pid : Int) (cpuno : Nat) (stream : List SwitchFrame)
    (switches : Switches) : Prop where
  reader : ∀ frame ∈ stream, frame.cpuno = cpuno
  increasing : stream.Pairwise fun first second => first.ts < second.ts
  nonzero : ∀ frame ∈ stream, frame.ts ≠ 0
  moves : stream.filter (fun frame => frame.prevPid = pid ∨ frame.nextPid = pid) = switches.moves
  early : switches.early = none
  on : ∀ span ∈ switches.spans, switchesIn pid span.on
  off : ∀ span ∈ switches.spans, switchesOut pid span.off
  late : ∀ on ∈ switches.late, switchesIn pid on
  wellFormed : ∀ frame ∈ stream, WellFormed frame

/-- The run time of the current period does not shrink, unless it starts from zero
and all that there was of it went to the histogram. -/
def HandsOver (before after : Ledger) : Prop :=
  (after.pdfHist = before.pdfHist ∧ before.rt ≤ after.rt) ∨
    (after.rt = 0 ∧ ∃ handed, after.pdfHist = handed :: before.pdfHist ∧ before.rt ≤ handed)

section Stream
variable {pid : Int} {cpuno : Nat} {stream : List SwitchFrame} {switches : Switches}

theorem move_in_stream (alternates : Alternates pid cpuno stream switches) {frame : SwitchFrame}
    (member : frame ∈ switches.moves) : frame ∈ stream := by
  rw [← alternates.moves] at member
  exact (List.mem_filter.mp member).1

theorem alternates_consistent (alternates : Alternates pid cpuno stream switches) :
    Consistent pid stream switches where
  moves := alternates.moves
  early := fun off member => by
    rw [alternates.early] at member
    cases member
  on := alternates.on
  off := alternates.off
  cpu := fun span inside => by
    obtain ⟨on, off⟩ := span_mem inside
    rw [alternates.reader _ (move_in_stream alternates on),
      alternates.reader _ (move_in_stream alternates off)]
  late := alternates.late
  increasing := by
    rw [← alternates.moves]
    exact alternates.increasing.filter _
  wellFormed := alternates.wellFormed

theorem apart_of_increasing {handled next : List SwitchFrame} {frame : SwitchFrame}
    (increasing : (handled ++ frame :: next).Pairwise fun first second => first.ts < second.ts) :
    frame ∉ handled ∧ frame ∉ next := by
  obtain ⟨_, rest, apart⟩ := List.pairwise_append.mp increasing
  constructor
  · intro before
    exact UInt64.lt_irrefl _ (apart frame before frame (List.mem_cons_self ..))
  · intro after
    exact UInt64.lt_irrefl _ (List.rel_of_pairwise_cons rest after)

/-- Before a switch out, the task's own events end with the switch in that began
the interval. -/
theorem moves_before (alternates : Alternates pid cpuno stream switches) {span : Span}
    (inside : span ∈ switches.spans) {handled next : List SwitchFrame}
    (split : stream = handled ++ span.off :: next) :
    ∃ earlier, handled.filter (fun frame => frame.prevPid = pid ∨ frame.nextPid = pid) =
      earlier ++ [span.on] := by
  obtain ⟨before, after, parts⟩ := List.append_of_mem inside
  have moves := alternates.moves
  rw [split, List.filter_append,
    List.filter_cons_of_pos (by simp [(alternates.off span inside).1]), Switches.moves,
    alternates.early, parts] at moves
  have increasing := alternates.increasing
  rw [split] at increasing
  obtain ⟨notBefore, notAfter⟩ := apart_of_increasing increasing
  have seam : handled.filter (fun frame => frame.prevPid = pid ∨ frame.nextPid = pid) ++
      span.off :: next.filter (fun frame => frame.prevPid = pid ∨ frame.nextPid = pid) =
        ((before.flatMap fun span => [span.on, span.off]) ++ [span.on]) ++
          span.off :: ((after.flatMap fun span => [span.on, span.off]) ++ switches.late.toList) := by
    simpa using moves
  have same := (List.append_cons_inj_of_notMem
    (fun member => notBefore (List.mem_of_mem_filter member))
    (fun member => notAfter (List.mem_of_mem_filter member))).mp seam
  exact ⟨_, same.1⟩

theorem latest_before (alternates : Alternates pid cpuno stream switches) {span : Span}
    (inside : span ∈ switches.spans) {handled next : List SwitchFrame}
    (split : stream = handled ++ span.off :: next) :
    latest pid handled = some span.on := by
  obtain ⟨earlier, own⟩ := moves_before alternates inside split
  have starts : handled.filter (fun frame => frame.nextPid = pid) =
      (handled.filter fun frame => frame.prevPid = pid ∨ frame.nextPid = pid).filter
        fun frame => frame.nextPid = pid := by
    rw [List.filter_filter]
    apply List.filter_congr
    intro frame _
    by_cases next : frame.nextPid = pid <;> simp [next]
  rw [latest, starts, own, List.filter_append]
  simp [(alternates.on span inside).1]

/-- One reader handles every switch out after its own switch in. -/
theorem alternates_undisturbed (alternates : Alternates pid cpuno stream switches) :
    Undisturbed pid switches stream := by
  intro handled off next split out
  have consistent := alternates_consistent alternates
  have member : off ∈ stream := by simp [split]
  have move := move_mem consistent (List.Perm.refl stream) member (Or.inl out)
  rcases opening_cases switches off with ⟨_, _, alone⟩ | ⟨span, inside, done, opened, _⟩
  · rcases out_cases consistent move out with early | ⟨span, inside, done⟩
    · rw [alternates.early] at early
      cases early
    · exact absurd done (alone span inside)
  · subst done
    rw [opened]
    refine ⟨latest_before alternates inside split, fun on same => ?_⟩
    cases same
    exact alternates.nonzero _ (move_in_stream alternates (span_mem inside).1)

end Stream

/-- An event that does not lose run time hands over what it resets. -/
theorem handled_hands_over {frame : SwitchFrame} {before after : Ledger}
    (handled : Handled frame before after) (kept : recorded before ≤ recorded after) :
    HandsOver before after := by
  have switch : (switched frame before).rt = before.rt ∧
      (switched frame before).pdfHist = before.pdfHist := by
    rw [switched]
    split_ifs <;> exact ⟨rfl, rfl⟩
  have credit : (credited frame.ts (switched frame before)).pdfHist = before.pdfHist := by
    rw [credited]
    split_ifs <;> exact switch.2
  rw [Handled] at handled
  split_ifs at handled
  · rcases handled with same | closed
    · left
      rw [recorded, recorded, same, credit] at kept
      rw [same]
      exact ⟨credit, UInt64.le_iff_toNat_le.mpr (Nat.le_of_add_le_add_right kept)⟩
    · right
      rw [closed, recorded_booked, recorded, recorded, credit] at kept
      rw [closed]
      refine ⟨rfl, (credited frame.ts (switched frame before)).rt, ?_,
        UInt64.le_iff_toNat_le.mpr (Nat.le_of_add_le_add_right kept)⟩
      rw [booked, credit]
  · left
    rw [handled]
    exact ⟨switch.2, switch.1 ▸ UInt64.le_refl _⟩

section Reader
variable {κ : Type} {fp : Rounding} {proc : Proc κ} {numa : Numa} {set : PrgSet}

/-- At every point of one reader's stream, what the histogram was given and what
the current period has so far is the run time of the intervals that ended, and
the next event resets only what it hands over. -/
theorem run_time_conserved (reports : ReportsPeriods proc) (traced : set.ftrace = true)
    {start : Managed κ} {place : Nat} {blank : Ledger} (first : Tracks start place blank)
    (nothing : blank.rt = 0 ∧ blank.pdfHist = []) {cpuno : Nat} {stream : List SwitchFrame}
    {switches : Switches} (alternates : Alternates blank.pid cpuno stream switches)
    (handled next : List SwitchFrame) (split : stream = handled ++ next) (managed : Managed κ)
    (run : readEvents fp proc numa set start handled = .ok managed) :
    ∃ books, entry managed place = some books ∧
      (books.pdfHist.map UInt64.toNat).sum + books.rt.toNat = switches.completed handled ∧
      ∀ frame rest following, next = frame :: rest →
        readEvent fp proc numa set managed frame = .ok following →
        ∃ later, entry following place = some later ∧ HandsOver books later := by
  have consistent := alternates_consistent alternates
  have undisturbed := alternates_undisturbed alternates
  have empty : recorded blank = 0 := by simp [recorded, nothing.1, nothing.2]
  obtain ⟨books, tracks, own, _, total⟩ := read_events_total reports traced first empty rfl
    (Or.inl alternates.early) consistent (List.Perm.refl stream) undisturbed handled next split
    managed run
  refine ⟨books, tracks.here, by rw [← total, recorded, Nat.add_comm], ?_⟩
  intro frame rest following ahead step
  subst ahead
  have member : frame ∈ stream := by simp [split]
  obtain ⟨later, still, change⟩ := read_event_tracks reports traced
    (alternates.wellFormed frame member) tracks step
  refine ⟨later, still.here, handled_hands_over change ?_⟩
  have longer : readEvents fp proc numa set start (handled ++ [frame]) = .ok following := by
    rw [readEvents, List.foldlM_append]
    change (readEvents fp proc numa set start handled >>= _) = _
    rw [run]
    change (readEvent fp proc numa set managed frame >>= _) = _
    rw [step]
    rfl
  obtain ⟨same, there, _, _, more⟩ := read_events_total reports traced first empty rfl
    (Or.inl alternates.early) consistent (List.Perm.refl stream) undisturbed (handled ++ [frame])
    rest (by simpa using split) following longer
  have this : later = same := Option.some.inj (still.here.symm.trans there.here)
  rw [total, this, more, completed_snoc consistent (List.Perm.refl stream) split]
  exact Nat.le_add_right _ _

end Reader

/-- Preempted after ten nanoseconds, asleep after another twenty. -/
def preempted : SwitchFrame := { cpuno := 0, ts := 20, prevPid := 100, nextPid := 7 }
def resumed : SwitchFrame := { cpuno := 0, ts := 30, prevPid := 7, nextPid := 100 }
def asleep : SwitchFrame := { cpuno := 0, ts := 50, prevPid := 100, prevState := 1, nextPid := 0 }

def oneReader : List SwitchFrame := [onFirst, preempted, resumed, asleep]

def twoSlices : Switches := { spans := [⟨onFirst, preempted⟩, ⟨resumed, asleep⟩] }

theorem one_reader_alternates : Alternates 100 0 oneReader twoSlices where
  reader := by decide
  increasing := by decide
  nonzero := by decide
  moves := by decide
  early := rfl
  on := by simp [twoSlices, switchesIn, onFirst, resumed]
  off := by simp [twoSlices, switchesOut, preempted, asleep]
  late := fun _ none => by cases none
  wellFormed := by
    intro frame member
    simp only [oneReader, List.mem_cons, List.not_mem_nil, or_false] at member
    rcases member with this | this | this | this <;> subst this <;> exact ⟨rfl, rfl, rfl⟩

/-- After the last event the histogram was given both slices. -/
theorem two_slices_conserved :
    ∃ managed books, readEvents exact idleProc ⟨1, {0}⟩ tracing newTask oneReader = .ok managed ∧
      entry managed 0 = some books ∧
      (books.pdfHist.map UInt64.toNat).sum + books.rt.toNat = 30 := by
  have run : returns (readEvents exact idleProc ⟨1, {0}⟩ tracing newTask oneReader)
      (fun _ => true) = true := by
    decide +kernel
  obtain ⟨managed, ends, _⟩ := (returns_iff _ _).mp run
  obtain ⟨books, there, total, _⟩ := run_time_conserved idle_reports rfl new_task_tracks ⟨rfl, rfl⟩
    one_reader_alternates oneReader [] (List.append_nil _).symm managed ends
  exact ⟨managed, books, ends, there, total⟩

end Orchestrator.SingleStream
