import Orchestrator.SharedList
import Orchestrator.SingleStream
import Orchestrator.TraceReaders
import Orchestrator.TracerSetup

/-!
Run times from the pages of the trace pipes: all tracing threads, all events, the turns of
the other threads in between, and the books of a task that stays on its CPU.
-/

namespace Orchestrator.TracedRunTime
open Orchdata Resmgnt Traversal Manage ManageSched Bookkeeping RunTime SingleStream
open Words RingBuffer TraceRecords EventFormat TracePipe TraceReaders TracerSetup
open ScanNew SharedList

/-- The frame of a switch that the thread of a CPU handles. -/
def frameOf (cpuno : Nat) (entry : UInt64 × KernelEvent) : Option SwitchFrame :=
  match entry.2 with
  | .switch common prevComm prevPid prevState nextComm nextPid nextPrio =>
      some { common.frame cpuno entry.1 with
        prevComm := prevComm
        prevPid := prevPid.toInt
        prevState := prevState
        nextComm := nextComm
        nextPid := nextPid.toInt
        nextPrio := nextPrio.toInt }
  | _ => none

/-- The switches of one CPU. -/
def cpuFrames (cpuno : Nat) (entries : List (UInt64 × KernelEvent)) : List SwitchFrame :=
  entries.filterMap (frameOf cpuno)

/-- The switches that were handled. -/
def switchFrames (log : List (Nat × UInt64 × KernelEvent)) : List SwitchFrame :=
  log.filterMap fun entry => frameOf entry.1 entry.2

section Frames

theorem frame_cpuno {cpuno : Nat} {entry : UInt64 × KernelEvent} {frame : SwitchFrame}
    (here : frameOf cpuno entry = some frame) : frame.cpuno = cpuno := by
  obtain ⟨ts, event⟩ := entry
  cases event <;> simp [frameOf] at here
  rw [← here]
  rfl

theorem cpu_frames_of_log (cpuno : Nat) (log : List (Nat × UInt64 × KernelEvent)) :
    (switchFrames log).filter (fun frame => frame.cpuno = cpuno) =
      cpuFrames cpuno (ofCpu cpuno log) := by
  rw [switchFrames, cpuFrames, ofCpu, List.filter_filterMap, List.filterMap_map,
    List.filterMap_filter]
  apply List.filterMap_congr
  rintro ⟨turning, entry⟩ -
  cases here : frameOf turning entry with
  | none => by_cases own : turning = cpuno <;> simp_all
  | some frame =>
      have turns := frame_cpuno here
      by_cases own : turning = cpuno
      · subst own
        simp [here, turns, Option.filter]
      · simp [own, turns, Option.filter]

theorem switch_frames_append (log : List (Nat × UInt64 × KernelEvent)) (cpuno : Nat)
    (entry : UInt64 × KernelEvent) :
    switchFrames (log ++ [(cpuno, entry)]) = switchFrames log ++ (frameOf cpuno entry).toList := by
  rw [switchFrames, List.filterMap_append, ← switchFrames]
  cases here : frameOf cpuno entry <;> simp [here]

end Frames

section Calls
variable {κ : Type} {fp : Rounding} {proc : Proc κ} {numa : Numa} {set : PrgSet}

/-- One event, as the books of a task see it. -/
theorem handle_tracks (reports : ReportsPeriods proc) (traced : set.ftrace = true)
    {cpuno : Nat} {ts : UInt64} {event : KernelEvent} (accepted : Accepted event)
    {managed next : Managed κ} {place : Nat} {books : Ledger}
    (tracks : Tracks managed place books) {ret : Int}
    (run : handle fp proc numa set cpuno managed ts event = .ok (ret, next)) :
    ∃ after, Tracks next place after ∧
      match frameOf cpuno (ts, event) with
      | some frame => Handled frame books after
      | none => after = books := by
  cases event with
  | switch common prevComm prevPid prevState nextComm nextPid nextPrio =>
      obtain ⟨type, prev, later⟩ := accepted
      exact pick_pid_info_s_tracks fp proc numa set reports traced ⟨type, prev, later⟩ tracks run
  | wakeup common comm pid =>
      obtain ⟨type, name⟩ := accepted
      refine ⟨books, ?_, rfl⟩
      rw [handle, wakeupFrame] at run
      cases seen : pickPidCommon managed (common.frame cpuno ts) with
      | none => simp [pickPidCommon, Common.frame, type] at seen
      | some marked =>
          simp only [seen, name, ne_eq, not_true_eq_false, if_false, Except.ok.injEq,
            Prod.mk.injEq] at run
          rw [← run.2]
          have keeps := (pick_pid_common_keeps seen).trans (wakeup_keeps marked pid.toInt ts)
          exact keeps.books.tracks tracks
  | other common =>
      refine ⟨books, ?_, rfl⟩
      rw [handle] at run
      cases seen : pickPidCommon managed (common.frame cpuno ts) with
      | none => simp [pickPidCommon, Common.frame, show common.type &&& 0xF000 = 0 from accepted]
          at seen
      | some marked =>
          simp only [seen, Except.ok.injEq, Prod.mk.injEq] at run
          rw [← run.2]
          exact (pick_pid_common_keeps seen).books.tracks tracks

end Calls

section Accounts
variable {pid : Int} {trace : List SwitchFrame} {switches : Switches}

/-- The books when these switches were handled. -/
structure Accounts (pid : Int) (switches : Switches) (start : UInt64)
    (handled : List SwitchFrame) (books : Ledger) : Prop where
  own : books.pid = pid
  lastTs : books.lastTs = ((latest pid handled).map SwitchFrame.ts).getD start
  total : recorded books = switches.completed handled

theorem completed_next (consistent : Consistent pid trace switches) {handled : List SwitchFrame}
    {frame : SwitchFrame} (new : frame.prevPid = pid → frame ∉ handled) :
    switches.completed (handled ++ [frame]) =
      switches.completed handled + switches.added frame := by
  by_cases out : frame.prevPid = pid
  · exact completed_step switches.spans (offs_nodup consistent) handled frame (new out)
  · have other : ∀ span ∈ switches.spans, span.off ≠ frame := by
      intro span inside same
      exact out (same ▸ (consistent.off span inside).1)
    have nothing : switches.added frame = 0 := by
      rcases opening_cases switches frame with ⟨_, zero, _⟩ | ⟨span, inside, same, _⟩
      · exact zero
      · exact absurd same (other span inside)
    rw [nothing, Nat.add_zero, Switches.completed, Switches.completed]
    congr 2
    apply List.filter_congr
    intro span inside
    simp [other span inside]

/-- A switch out adds the time since its own switch in, everything else nothing. -/
theorem accounts_next (consistent : Consistent pid trace switches)
    (fresh : switches.early = none) {start : UInt64} {handled : List SwitchFrame}
    {frame : SwitchFrame} {before after : Ledger}
    (move : frame.prevPid = pid → frame ∈ switches.moves)
    (new : frame.prevPid = pid → frame ∉ handled)
    (opened : frame.prevPid = pid → latest pid handled = switches.opening frame ∧
      ∀ on ∈ switches.opening frame, on.ts ≠ 0)
    (accounts : Accounts pid switches start handled before) (change : Handled frame before after) :
    Accounts pid switches start (handled ++ [frame]) after := by
  obtain ⟨own, lastTs, total⟩ := accounts
  refine ⟨(handled_pid change).trans own, ?_, ?_⟩
  · rw [handled_last_ts change, latest_snoc, own]
    split_ifs
    · rfl
    · exact lastTs
  · rw [completed_next consistent new]
    by_cases out : frame.prevPid = pid
    · obtain ⟨began, nonzero⟩ := opened out
      have stays := out_not_in consistent (move out) out
      obtain ⟨span, inside, rfl⟩ := (out_cases consistent (move out) out).resolve_left
        (by simp [fresh])
      rcases opening_cases switches span.off with ⟨_, _, alone⟩ | ⟨found, there, done, some, added⟩
      · exact absurd rfl (alone span inside)
      · have known : before.lastTs = found.on.ts := by rw [lastTs, began, some]; rfl
        have positive : before.lastTs ≠ 0 := known ▸ nonzero found.on some
        have less : found.on.ts ≤ span.off.ts := by
          rw [← done]
          exact UInt64.le_of_lt (span_order consistent there)
        have bound := completed_lt consistent (handled ++ [span.off])
        rw [completed_next consistent new, added, Span.length, done] at bound
        have part : before.rt.toNat ≤ recorded before := Nat.le_add_right _ _
        have length := UInt64.toNat_sub_of_le _ _ less
        rw [handled_out change (own.trans out.symm) (own ▸ stays.symm) positive, known,
          Cmnutil.add_exact, length, added, Span.length, done, ← total, recorded]
        · omega
        · rw [length]
          omega
    · have other : before.pid ≠ frame.prevPid := fun same => out (same.symm.trans own)
      have nothing : switches.added frame = 0 := by
        rcases opening_cases switches frame with ⟨_, zero, _⟩ | ⟨span, inside, done, _⟩
        · exact zero
        · exact absurd (done ▸ (consistent.off span inside).1) out
      rw [handled_other change other, nothing, total, Nat.add_zero]

end Accounts

section Pinned
variable {pid : Int} {home : Nat} {stream frames : List SwitchFrame} {switches : Switches}

/-- Switches of all CPUs, of which one CPU's are the first of its stream and the others
do not name the task. -/
structure Pinned (pid : Int) (home : Nat) (stream frames : List SwitchFrame) : Prop where
  part : frames.filter (fun frame => frame.cpuno = home) <+: stream
  elsewhere : ∀ frame ∈ frames, frame.cpuno ≠ home → frame.prevPid ≠ pid ∧ frame.nextPid ≠ pid

theorem latest_pinned (elsewhere : ∀ frame ∈ frames, frame.cpuno ≠ home → frame.nextPid ≠ pid) :
    latest pid frames = latest pid (frames.filter fun frame => frame.cpuno = home) := by
  rw [latest, latest, List.filter_filter]
  congr 1
  apply List.filter_congr
  intro frame member
  by_cases own : frame.nextPid = pid
  · have here : frame.cpuno = home := by
      by_contra apart
      exact elsewhere frame member apart own
    simp [own, here]
  · simp [own]

/-- In whatever order the CPUs' events came: the switch out is new, it is one of the task's
switches, and the last switch in is its own. -/
theorem pinned_out (alternates : Alternates pid home stream switches) {handled : List SwitchFrame}
    {frame : SwitchFrame} (pinned : Pinned pid home stream (handled ++ [frame]))
    (out : frame.prevPid = pid) :
    frame ∈ switches.moves ∧ frame ∉ handled ∧ latest pid handled = switches.opening frame ∧
      ∀ on ∈ switches.opening frame, on.ts ≠ 0 := by
  have here : frame.cpuno = home := by
    by_contra apart
    exact (pinned.elsewhere frame (by simp) apart).1 out
  obtain ⟨next, split⟩ := pinned.part
  rw [List.filter_append, List.filter_cons_of_pos (by simpa using here), List.filter_nil,
    List.append_assoc, List.singleton_append] at split
  have inside : frame ∈ stream := by simp [← split]
  have increasing := alternates.increasing
  rw [← split] at increasing
  refine ⟨?_, ?_, ?_⟩
  · rw [← alternates.moves]
    exact List.mem_filter.mpr ⟨inside, by simp [out]⟩
  · intro before
    exact (apart_of_increasing increasing).1 (List.mem_filter.mpr ⟨before, by simpa using here⟩)
  · rw [latest_pinned fun other member apart =>
      (pinned.elsewhere other (List.mem_append_left _ member) apart).2]
    exact alternates_undisturbed alternates _ frame next split.symm out

theorem Pinned.front {handled later : List SwitchFrame}
    (pinned : Pinned pid home stream (handled ++ later)) : Pinned pid home stream handled where
  part := by
    have part := pinned.part
    rw [List.filter_append] at part
    exact (List.prefix_append ..).trans part
  elsewhere := fun frame member => pinned.elsewhere frame (List.mem_append_left _ member)

/-- When the whole stream was handled all intervals are completed. -/
theorem completed_stream (alternates : Alternates pid home stream switches)
    (whole : ∀ frame ∈ stream, frame ∈ frames) :
    switches.completed frames = (switches.spans.map Span.length).sum := by
  rw [Switches.completed, List.filter_eq_self.mpr]
  intro span inside
  simpa using whole _ (move_in_stream alternates (span_mem inside).2)

end Pinned

section Beside
variable {κ : Type} {fp : Rounding} {proc : Proc κ} {numa : Numa} {set : PrgSet}
variable {before after : Managed κ} {books : Ledger}

/-- What the other threads do while a task lives: scans that find it, and all else. -/
inductive Beside (fp : Rounding) (proc : Proc κ) (numa : Numa) (set : PrgSet) (pid : Int)
    (before : Managed κ) : Managed κ → Prop
  | scan {scan : List Node} {after : World κ} {calls : List (Node × Node)}
      (detected : Detected scan) (alive : pid ∈ scan.map Node.pid)
      (run : scanNew proc.toKernel numa set (world before) scan = .ok (after, calls)) :
      Beside fp proc numa set pid before (withWorld before after)
  | quiet {after : Managed κ} (turn : Quiet fp proc numa set before after) :
      Beside fp proc numa set pid before after

/-- The books of a task, wherever it is in the list. -/
structure Keeping (set : PrgSet) (managed : Managed κ) (books : Ledger) : Prop where
  listed : Listed set.trackpids (pids managed)
  periodic : Periodic managed
  there : ∃ place, entry managed place = some books

theorem Keeping.tracks (keeping : Keeping set before books) :
    ∃ place, Tracks before place books := by
  obtain ⟨place, here⟩ := keeping.there
  refine ⟨place, here, fun other others there same => ?_, keeping.periodic⟩
  have descending := keeping.listed.descending
  have first : (pids before)[place]? = some books.pid := by
    have mapped := congrArg (Option.map Ledger.pid) here
    rw [Bookkeeping.entry, Option.map_map] at mapped
    rw [pids, List.getElem?_map]
    exact mapped
  have second : (pids before)[other]? = some books.pid := by
    have mapped := congrArg (Option.map Ledger.pid) there
    rw [Bookkeeping.entry, Option.map_map] at mapped
    rw [pids, List.getElem?_map, ← same]
    exact mapped
  have distinct : (pids before).Nodup := descending.imp fun {a b} below equal => by
    subst equal
    exact lt_irrefl _ below
  obtain ⟨inside, at'⟩ := List.getElem?_eq_some_iff.mp second
  obtain ⟨inside', at''⟩ := List.getElem?_eq_some_iff.mp first
  exact (List.Nodup.getElem_inj_iff distinct).mp (at'.trans at''.symm)

theorem keeping_of_tracks {place : Nat} (tracks : Tracks before place books)
    (listed : Listed set.trackpids (pids before)) : Keeping set before books :=
  ⟨listed, tracks.periodic, place, tracks.here⟩

/-- The books of a task go on through the turns of the other threads. -/
theorem beside_keeping (reports : ReportsPeriods proc)
    (step : Beside fp proc numa set books.pid before after) (keeping : Keeping set before books) :
    Keeping set after books := by
  cases step with
  | @scan scan next calls detected alive run =>
      obtain ⟨world', calls', run', merged⟩ :=
        @scan_merged κ proc numa set before scan keeping.listed detected.toScanned
      have standing := scan_standing detected keeping.listed keeping.periodic run
      rw [run] at run'
      cases run'
      refine ⟨standing.listed, standing.periodic, ?_⟩
      obtain ⟨place, here⟩ := keeping.there
      obtain ⟨item, first, own⟩ := Option.map_eq_some_iff.mp here
      have present : item.pid ∈ scan.map Node.pid := by
        rw [show item.pid = books.pid from congrArg Ledger.pid own]
        exact alive
      obtain ⟨other, inside, same⟩ := merged.kept item (List.mem_of_getElem? first) present
      obtain ⟨spot, found⟩ := List.mem_iff_getElem?.mp inside
      have kept : ledger other = ledger item :=
        (show ledger (PidResources.plain other) = ledger (PidResources.plain item) by rw [same])
      exact ⟨spot, Option.map_eq_some_iff.mpr ⟨other, found, kept.trans own⟩⟩
  | quiet turn =>
      have same := quiet_books reports turn
      constructor
      · rw [same_books_pids same]
        exact keeping.listed
      · exact same.periodic keeping.periodic
      · obtain ⟨place, here⟩ := keeping.there
        exact ⟨place, (same.entry place).trans here⟩

end Beside

section Threads
variable {host : Host} {elist : List TraceEvent} {pointers : EventOffsets.Pointers} {buffer : Nat}
variable {κ : Type} {fp : Rounding} {proc : Proc κ} {numa : Numa} {set : PrgSet}
variable {others : Managed κ → Managed κ → Prop} {start : Readers κ}
variable {streams : Nat → List (UInt64 × KernelEvent)}

/-- In every state the threads reach the switches handled are those of the streams. -/
theorem handled_pinned (there : buffer ≠ 0)
    (begins : Streams host elist pointers buffer start streams)
    (accepted : ∀ cpuno, ∀ entry ∈ streams cpuno, Accepted entry.2)
    {pid : Int} {home : Nat} (elsewhere : ∀ cpuno ≠ home,
      ∀ frame ∈ cpuFrames cpuno (streams cpuno), frame.prevPid ≠ pid ∧ frame.nextPid ≠ pid)
    {log : List (Nat × UInt64 × KernelEvent)} {readers : Readers κ}
    (turns : Turns host elist pointers fp proc numa set buffer others start log readers) :
    Pinned pid home (cpuFrames home (streams home)) (switchFrames log) := by
  have handled : ∀ cpuno, (switchFrames log).filter (fun frame => frame.cpuno = cpuno) <+:
      cpuFrames cpuno (streams cpuno) := by
    intro cpuno
    obtain ⟨now, later, -, parts⟩ := turns_streams there begins accepted turns cpuno
    rw [cpu_frames_of_log, parts, cpuFrames, cpuFrames, List.filterMap_append]
    exact List.prefix_append ..
  refine ⟨handled home, fun frame member apart => ?_⟩
  exact elsewhere frame.cpuno apart frame ((handled frame.cpuno).subset
    (List.mem_filter.mpr ⟨member, by simp⟩))

/-- The books of a task that lives on and stays on its CPU, however the threads take turns. -/
theorem turns_account (reports : ReportsPeriods proc) (traced : set.ftrace = true)
    (there : buffer ≠ 0) (begins : Streams host elist pointers buffer start streams)
    (accepted : ∀ cpuno, ∀ entry ∈ streams cpuno, Accepted entry.2)
    {blank : Ledger} (first : Keeping set start.managed blank)
    (nothing : recorded blank = 0) {home : Nat} {switches : Switches}
    (alternates : Alternates blank.pid home (cpuFrames home (streams home)) switches)
    (elsewhere : ∀ cpuno ≠ home, ∀ frame ∈ cpuFrames cpuno (streams cpuno),
      frame.prevPid ≠ blank.pid ∧ frame.nextPid ≠ blank.pid)
    {log : List (Nat × UInt64 × KernelEvent)} {readers : Readers κ}
    (turns : Turns host elist pointers fp proc numa set buffer
      (Beside fp proc numa set blank.pid) start log readers) :
    ∃ books, Keeping set readers.managed books ∧
      Accounts blank.pid switches blank.lastTs (switchFrames log) books := by
  induction turns with
  | start =>
      refine ⟨blank, first, rfl, rfl, ?_⟩
      simpa [switchFrames, Switches.completed] using nothing
  | other before step ih =>
      obtain ⟨books, keeping, accounts⟩ := ih
      rw [← accounts.own] at step
      exact ⟨books, beside_keeping reports step keeping, accounts⟩
  | @turn log readers reader next before cpuno run ih =>
      obtain ⟨books, keeping, accounts⟩ := ih
      obtain ⟨place, tracks⟩ := keeping.tracks
      have pinned := handled_pinned there begins accepted elsewhere (before.turn cpuno run)
      rcases turn_handles run with ⟨ts, event, ret, hand, called⟩ | ⟨hand, rfl⟩
      · obtain ⟨now, later, reading, parts⟩ := turns_streams there begins accepted before cpuno
        have entries : handled host elist pointers cpuno (readers.threads cpuno) =
            [(cpuno, ts, event)] := by simp [handled, hand]
        have inside : (ts, event) ∈ streams cpuno := by
          rw [parts]
          apply List.mem_append_right
          rw [at_hand_reading reading] at hand
          exact List.mem_append_left _ (List.mem_of_mem_head? hand)
        obtain ⟨after, still, change⟩ :=
          handle_tracks reports traced (accepted cpuno _ inside) tracks called
        rw [entries, switch_frames_append] at pinned ⊢
        have same := handle_tasks reports traced keeping.periodic called
        refine ⟨after, keeping_of_tracks still (same.pids ▸ keeping.listed), ?_⟩
        cases switch : frameOf cpuno (ts, event) with
        | none =>
            simp only [switch] at change
            rw [change, Option.toList_none, List.append_nil]
            exact accounts
        | some frame =>
            simp only [switch] at change
            rw [switch, Option.toList_some] at pinned
            have out := fun out => pinned_out alternates pinned out
            exact accounts_next (alternates_consistent alternates) alternates.early
              (fun leaves => (out leaves).1) (fun leaves => (out leaves).2.1)
              (fun leaves => (out leaves).2.2) accounts change
      · have entries : handled host elist pointers cpuno (readers.threads cpuno) = [] := by
          simp [handled, hand]
        rw [entries, List.append_nil]
        exact ⟨books, keeping, accounts⟩

end Threads

/-- The tracing threads as they begin, each with what its pipe is going to give. -/
def startReaders {κ : Type} (host : Host) (fills : Nat → List (Mem × Nat)) (managed : Managed κ) :
    Readers κ :=
  ⟨fun cpuno => Reader.start (fills cpuno) (threadKbuffer host), managed⟩

section Pipes
variable {host : Host} {switch wakeup : Format} {buffer : Nat}

theorem start_streams {κ : Type} (little : host.bigEndian = false) (wide : host.long8 = true)
    (complete : Complete switch wakeup) {pointers : EventOffsets.Pointers}
    (resolved : Resolved switch wakeup pointers) {fills : Nat → List (Mem × Nat)}
    {told : Nat → List (List (UInt64 × KernelEvent))}
    (written : ∀ cpuno,
      List.Forall₂ (WrittenPage host switch wakeup buffer) (fills cpuno) (told cpuno))
    (managed : Managed κ) :
    Streams host (loadedEvents switch wakeup) pointers buffer (startReaders host fills managed)
      fun cpuno => (taken (fills cpuno) (told cpuno)).flatten := by
  intro cpuno
  obtain ⟨reads, long⟩ := thread_kbuffer_reads little wide
  have filled := written_filled complete resolved (written cpuno)
  exact ⟨[], told cpuno, reading_start reads long filled,
    by simp [Reader.ahead, startReaders, Reader.start]⟩

/-- From the kernel's pages to the books: the tracing threads of all CPUs hand on switches,
wakeups and other events, in any order and with the turns of the update and the manage thread
in between. Each comes to its next event or the end of its pages, and no scan fails. While a
task lives and stays on its CPU, the run time recorded for it is in every state that of its
intervals the thread there came past, and that of all its intervals when this thread is
through, whatever is scanned and wherever the task is in the list. -/
theorem traced_run_time {κ : Type} (fp : Rounding) {proc : Proc κ} (numa : Numa) {set : PrgSet}
    (reports : ReportsPeriods proc) (traced : set.ftrace = true) (little : host.bigEndian = false)
    (wide : host.long8 = true) {fs : Tracefs} (complete : Complete switch wakeup)
    (switchOffered : Offers fs EventOffsets.trSwitch.event switch)
    (wakeupOffered : Offers fs EventOffsets.trWakeup.event wakeup) (on : 0 ≤ fs.tracingOn)
    (offsets : EventOffsets.Pointers) (there : buffer ≠ 0) {fills : Nat → List (Mem × Nat)}
    {told : Nat → List (List (UInt64 × KernelEvent))}
    (written : ∀ cpuno,
      List.Forall₂ (WrittenPage host switch wakeup buffer) (fills cpuno) (told cpuno))
    (accepted : ∀ cpuno, ∀ entry ∈ (taken (fills cpuno) (told cpuno)).flatten,
      Accepted entry.2)
    {managed : Managed κ} {blank : Ledger} (first : Keeping set managed blank)
    (nothing : recorded blank = 0) {home : Nat} {switches : Switches}
    (alternates : Alternates blank.pid home
      (cpuFrames home (taken (fills home) (told home)).flatten) switches)
    (elsewhere : ∀ cpuno ≠ home,
      ∀ frame ∈ cpuFrames cpuno (taken (fills cpuno) (told cpuno)).flatten,
        frame.prevPid ≠ blank.pid ∧ frame.nextPid ≠ blank.pid) :
    ∃ elist pointers, configureTracers fs offsets = some (elist, pointers) ∧
      ∀ log readers, Turns host elist pointers fp proc numa set buffer
          (Beside fp proc numa set blank.pid) (startReaders host fills managed) log readers →
        (∀ cpuno, ∃ next outcome, readerTurn host elist pointers fp proc numa set buffer cpuno
          (readers.threads cpuno) readers.managed = some (next, outcome)) ∧
        (∀ scan, Detected scan → ∃ after calls,
          scanNew proc.toKernel numa set (world readers.managed) scan = .ok (after, calls)) ∧
        ∃ place books, Tracks readers.managed place books ∧ books.pid = blank.pid ∧
          recorded books = switches.completed (switchFrames log) ∧
          ((readers.threads home).fills = [] →
            (readers.threads home).atHand host elist pointers = none →
            recorded books = (switches.spans.map Span.length).sum) := by
  obtain ⟨pointers, configured, resolved⟩ :=
    configure_tracers_resolves complete switchOffered wakeupOffered on offsets
  refine ⟨_, pointers, configured, fun log readers turns => ?_⟩
  have begins := start_streams little wide complete resolved written managed
  have streams := turns_streams there begins accepted turns
  obtain ⟨books, keeping, accounts⟩ := turns_account reports traced there begins accepted first
    nothing alternates elsewhere turns
  refine ⟨fun cpuno => ?_, fun scan detected => ?_, ?_⟩
  · obtain ⟨now, later, reading, parts⟩ := streams cpuno
    have ahead : ∀ entry ∈ (readers.threads cpuno).ahead now later,
        Accepted entry.2 := fun entry inside =>
      accepted cpuno entry (by rw [parts]; exact List.mem_append_right _ inside)
    obtain ⟨next, outcome, run, -⟩ := turn_reading there reading ahead readers.managed
    exact ⟨next, outcome, run⟩
  · obtain ⟨after, calls, run, -⟩ :=
      @scan_merged κ proc numa set readers.managed scan keeping.listed detected.toScanned
    exact ⟨after, calls, run⟩
  · obtain ⟨place, tracks⟩ := keeping.tracks
    refine ⟨place, books, tracks, accounts.own, accounts.total, fun finished idle => ?_⟩
    obtain ⟨now, later, reading, parts⟩ := streams home
    have done : (readers.threads home).ahead now later = [] := by
      rw [at_hand_reading reading, List.head?_eq_none_iff] at idle
      rw [Reader.ahead, idle, finished, taken]
      simp
    rw [done, List.append_nil] at parts
    rw [accounts.total]
    apply completed_stream alternates
    intro frame member
    rw [parts, ← cpu_frames_of_log] at member
    exact (List.mem_filter.mp member).1

end Pipes

section Sample

/-- The idle task leaves the CPU to task 100. -/
def startSwitch : KernelEvent := .switch ⟨314, 0, 0⟩ 110 0 0 109 100 120

def startData : List UInt8 :=
  wordBytes false 2 314 ++ [0, 0] ++ wordBytes false 4 0 ++ (110 :: List.replicate 15 0) ++
    wordBytes false 4 0 ++ wordBytes false 4 120 ++ wordBytes false 8 0 ++
    (109 :: List.replicate 15 0) ++ wordBytes false 4 100 ++ wordBytes false 4 120

/-- A page of CPU 0: seven nanoseconds of task 100. -/
def slicePage : TraceWalk.Page where
  timestamp := 1000
  missed := .nothing
  records := .short ⟨5, by decide⟩ startData (by decide) :: samplePage.records
  small := by decide

def sliceFills (cpuno : Nat) : List (Mem × Nat) :=
  if cpuno = 0 then [(store (fun _ => 0) 64 (slicePage.bytes false true), 9)] else []

def sliceTold (cpuno : Nat) : List (List (UInt64 × KernelEvent)) :=
  if cpuno = 0 then [[(1005, startSwitch), (1012, sampleSwitch)]] else []

def sliceStart : SwitchFrame :=
  { cpuno := 0, ts := 1005, commonType := 314, commonPid := 0, prevComm := 110, prevPid := 0,
    nextComm := 109, nextPid := 100 }

def sliceEnd : SwitchFrame :=
  { cpuno := 0, ts := 1012, commonType := 314, commonPid := 100, prevComm := 109,
    prevPid := 100, prevState := 1, nextComm := 110, nextPid := 200 }

def sevenNanoseconds : Switches := { spans := [⟨sliceStart, sliceEnd⟩] }

theorem start_carries :
    Carries {} (TracerSetup.layout switchFormat) startData startSwitch :=
  ⟨⟨field_at_of_take 0 (by decide) (by decide), field_at_of_take 0 (by decide) (by decide),
      field_at_of_take 2 (by decide) (by decide), field_at_of_take 4 (by decide) (by decide)⟩,
    field_at_of_take 8 (by decide) (by decide), field_at_of_take 24 (by decide) (by decide),
    field_at_of_take 32 (by decide) (by decide), field_at_of_take 40 (by decide) (by decide),
    field_at_of_take 56 (by decide) (by decide), field_at_of_take 60 (by decide) (by decide)⟩

theorem slice_written (cpuno : Nat) :
    List.Forall₂ (WrittenPage {} switchFormat wakeupFormat 64) (sliceFills cpuno)
      (sliceTold cpuno) := by
  rw [sliceFills, sliceTold]
  split
  · exact .cons ⟨slicePage, store_holds _ 64 _, .cons ⟨rfl, start_carries, rfl⟩
      (.cons ⟨rfl, sample_carries, rfl⟩ .nil)⟩ .nil
  · exact .nil

theorem slice_alternates : Alternates 100 0
    (cpuFrames 0 (taken (sliceFills 0) (sliceTold 0)).flatten) sevenNanoseconds := by
  have frames : cpuFrames 0 (taken (sliceFills 0) (sliceTold 0)).flatten =
      [sliceStart, sliceEnd] := rfl
  rw [frames]
  exact {
    reader := by decide
    increasing := by decide
    nonzero := by decide
    moves := by decide
    early := rfl
    on := by simp [sevenNanoseconds, switchesIn, sliceStart]
    off := by simp [sevenNanoseconds, switchesOut, sliceEnd]
    late := fun _ none => by cases none
    wellFormed := by
      intro frame member
      simp only [List.mem_cons, List.not_mem_nil, or_false] at member
      rcases member with rfl | rfl <;> exact ⟨rfl, rfl, rfl⟩ }

theorem new_task_keeping : Keeping tracing newTask (fresh 100) :=
  keeping_of_tracks new_task_tracks ⟨by decide, by decide, by decide⟩

/-- When the thread of CPU 0 is through, seven nanoseconds are recorded. -/
theorem traced_slice :
    ∃ elist pointers, configureTracers sampleFiles (fun _ => 0) = some (elist, pointers) ∧
      ∀ log readers, Turns {} elist pointers exact idleProc ⟨2, {0, 1}⟩ tracing 64
          (Beside exact idleProc ⟨2, {0, 1}⟩ tracing 100) (startReaders {} sliceFills newTask)
          log readers →
        (readers.threads 0).fills = [] →
        (readers.threads 0).atHand {} elist pointers = none →
        ∃ place books, Tracks readers.managed place books ∧ books.pid = 100 ∧
          recorded books = 7 := by
  obtain ⟨elist, pointers, configured, runs⟩ := traced_run_time exact ⟨2, {0, 1}⟩ idle_reports
    (show tracing.ftrace = true from rfl) (show ({} : Host).bigEndian = false from rfl) rfl
    sample_complete switch_offered wakeup_offered
    (by decide) (fun _ => 0) (by decide) slice_written
    (by
      intro cpuno entry member
      by_cases own : cpuno = 0
      · simp [sliceFills, sliceTold, own, taken] at member
        rcases member with rfl | rfl <;> exact ⟨rfl, rfl, rfl⟩
      · simp [sliceFills, own, taken] at member)
    new_task_keeping rfl slice_alternates
    (by
      intro cpuno apart frame member
      simp [sliceFills, apart, taken, cpuFrames] at member)
  refine ⟨elist, pointers, configured, fun log readers turns finished idle => ?_⟩
  obtain ⟨-, -, place, books, tracks, own, -, whole⟩ := runs log readers turns
  exact ⟨place, books, tracks, own, whole finished idle⟩

end Sample

end Orchestrator.TracedRunTime
