import Orchestrator.TracePipe
import Orchestrator.UpdateDocker
import Orchestrator.Demand

/-!
The list of tasks under the turns of all threads: scans and docker events of the update
thread, attributes and schedules of the manage thread, events of the tracing threads.
-/

namespace Orchestrator.SharedList
open Orchdata Resmgnt PidLookup PidResources Traversal Manage ManageSched Moves Bookkeeping
open Demand (update_siblings_stays)
open ParseConfig Dockerlink ScanNew UpdateDocker TracePipe RunTime

def pids {κ : Type} (managed : Managed κ) : List Int := managed.nhead.map Node.pid

/-- What the update thread works on. -/
def world {κ : Type} (managed : Managed κ) : World κ :=
  ⟨managed.nhead, managed.conts, managed.kernel⟩

def withWorld {κ : Type} (managed : Managed κ) (after : World κ) : Managed κ :=
  { managed with nhead := after.nhead, conts := after.conts, kernel := after.kernel }

/-- Nodes as `node_push` leaves them. -/
structure Detected (nodes : List Node) : Prop extends Scanned nodes where
  attr : ∀ node ∈ nodes, node.attr.schedPolicy = schedNodata

section Turns
variable {κ : Type} (fp : Rounding) (proc : Proc κ) (numa : Numa) (set : PrgSet)

/-- A turn of the update or the manage thread, under `dataMutex`, but for scans and without
the kernel's counters. The id of an event is a string of its own. -/
inductive Quiet (before : Managed κ) : Managed κ → Prop
  | docker (lstevent : Contevent) {after : World κ}
      (older : ∀ item ∈ before.nhead, item.contid.map Str.loc ≠ some lstevent.id.loc)
      (run : handleEvent proc.toKernel numa set (world before) lstevent = .ok after) :
      Quiet before (withWorld before after)
  | attributes (place : Nat) {after : Managed κ}
      (run : updatePidAttr proc numa set before place = .ok after) : Quiet before after
  | manage (place : Nat) (estimate : Estimate) :
      Quiet before (manageNode fp proc numa set before place estimate)

/-- A turn of any thread but for scans: a task's counters come from the kernel or from fTrace. -/
inductive Turn (before : Managed κ) : Managed κ → Prop
  | quiet {after : Managed κ} (turn : Quiet fp proc numa set before after) : Turn before after
  | reading (place : Nat) {after : Managed κ} (untraced : set.ftrace = false)
      (run : getSchedInfo proc set before place = .ok after) : Turn before after
  | event (cpuno : Nat) (ts : UInt64) (event : KernelEvent) {ret : Int} {after : Managed κ}
      (traced : set.ftrace = true)
      (run : handle fp proc numa set cpuno before ts event = .ok (ret, after)) :
      Turn before after

/-- Runs of the whole program, with the PIDs of the last scan. -/
inductive Runs (start : Managed κ) : List Int → Managed κ → Prop
  | start : Runs start [] start
  | scan {known : List Int} {managed : Managed κ} {after : World κ}
      {calls : List (Node × Node)} (runs : Runs start known managed) {scan : List Node}
      (detected : Detected scan)
      (run : scanNew proc.toKernel numa set (world managed) scan = .ok (after, calls)) :
      Runs start (scan.map Node.pid) (withWorld managed after)
  | turn {known : List Int} {managed after : Managed κ} (runs : Runs start known managed)
      (turn : Turn fp proc numa set managed after) : Runs start known after

end Turns

section Pids
variable {κ : Type} {before after : Managed κ}

theorem pids_of_entries (same : ∀ place, (entry after place).map Ledger.pid =
    (entry before place).map Ledger.pid) : pids after = pids before := by
  apply List.ext_getElem?
  intro place
  have here := same place
  rw [entry, entry, Option.map_map, Option.map_map] at here
  rw [pids, pids, List.getElem?_map, List.getElem?_map]
  exact here

theorem same_books_pids (same : SameBooks before after) : pids after = pids before :=
  pids_of_entries fun place => by rw [same.entry]

theorem maps_at_pids {change : Ledger → Ledger} {spot : Nat}
    (maps : MapsAt change spot before after) (pid : ∀ books, (change books).pid = books.pid) :
    pids after = pids before := by
  apply pids_of_entries
  intro place
  by_cases this : place = spot
  · rw [this, maps.here, Option.map_map]
    congr 1
    funext books
    exact pid books
  · rw [maps.others place this]

/-- The same tasks in the same order, and the deadline tasks have periods still. -/
structure SameTasks (before after : Managed κ) : Prop where
  pids : SharedList.pids after = SharedList.pids before
  periodic : Periodic before → Periodic after

theorem SameTasks.trans {first second third : Managed κ} (one : SameTasks first second)
    (two : SameTasks second third) : SameTasks first third :=
  ⟨two.pids.trans one.pids, fun start => two.periodic (one.periodic start)⟩

theorem same_books_tasks (same : SameBooks before after) : SameTasks before after :=
  ⟨same_books_pids same, same.periodic⟩

end Pids

section Calls
variable {κ : Type} {fp : Rounding} {proc : Proc κ} {numa : Numa} {set : PrgSet}

theorem leave_first_tasks (reports : ReportsPeriods proc) (traced : set.ftrace = true)
    (frame : SwitchFrame) {managed next : Managed κ} (start : Periodic managed)
    (run : leaveFirst fp proc numa set frame managed = .ok next) : SameTasks managed next := by
  rw [leaveFirst] at run
  split at run
  · cases run
    exact same_books_tasks (SameBooks.refl managed)
  · rename_i spot search
    split at run
    · cases run
      exact same_books_tasks (SameBooks.refl managed)
    · rcases leave_node_credits fp proc numa set reports traced frame start run with maps | maps
      · exact ⟨maps_at_pids maps (credited_pid frame.ts), maps.periodic⟩
      · exact ⟨maps_at_pids maps fun books => credited_pid frame.ts books, maps.periodic⟩

theorem pick_pid_info_s_tasks (reports : ReportsPeriods proc) (traced : set.ftrace = true)
    {frame : SwitchFrame} {managed next : Managed κ} (start : Periodic managed) {rv : Int}
    (run : pickPidInfoS fp proc numa set managed frame = .ok (rv, next)) :
    SameTasks managed next := by
  rw [pickPidInfoS] at run
  cases common : pickPidCommon managed frame with
  | none =>
      rw [common] at run
      cases run
      exact same_books_tasks (SameBooks.refl managed)
  | some marked =>
      have atFirst := same_books_tasks (pick_pid_common_keeps common).books
      have switched : SameTasks marked ((List.range marked.nhead.length).foldl
          (switchNode fp proc numa set frame) marked) := by
        refine ⟨pids_of_entries fun place => ?_,
          switch_nodes_periodic fp proc numa set frame _ marked⟩
        rw [switch_nodes_entry fp proc numa set frame _ List.nodup_range]
        split_ifs
        · rw [Option.map_map]
          congr 1
          funext books
          exact switched_pid frame books
        · rfl
      have ready := (atFirst.trans switched).trans (same_books_tasks
        (keeps_stays (recompute_cpu_times_u_stays fp set _ frame.cpuno none)).books)
      rw [common] at run
      dsimp only at run
      split_ifs at run
      · cases run
        exact atFirst
      · obtain ⟨left, first, last⟩ := bind_ok run
        cases last
        have moved := ready.trans (same_books_tasks
          (keeps_stays (pick_pid_realloc_cpu_stays fp proc numa set _ frame.cpuno 0)).books)
        exact moved.trans (leave_first_tasks reports traced frame (moved.periodic start) first)
      · obtain ⟨left, first, last⟩ := bind_ok run
        cases last
        exact ready.trans (leave_first_tasks reports traced frame (ready.periodic start) first)

/-- A wakeup leaves the books alone. -/
theorem wakeup_keeps (managed : Managed κ) (pid : Int) (ts : UInt64) :
    Keeps managed (pickPidInfoW managed pid ts) := by
  rw [pickPidInfoW]
  split
  · exact Keeps.refl managed
  · refine keeps_modify rfl (fun item => ?_) fun _ => rfl
    rw [wakeNode]
    dsimp only
    split_ifs <;> rfl

theorem handle_tasks (reports : ReportsPeriods proc) (traced : set.ftrace = true) {cpuno : Nat}
    {ts : UInt64} {event : KernelEvent} {managed next : Managed κ} (start : Periodic managed)
    {ret : Int} (run : handle fp proc numa set cpuno managed ts event = .ok (ret, next)) :
    SameTasks managed next := by
  cases event with
  | switch => exact pick_pid_info_s_tasks reports traced start run
  | wakeup common comm pid =>
      rw [handle, wakeupFrame] at run
      cases seen : pickPidCommon managed (common.frame cpuno ts) with
      | none =>
          rw [seen] at run
          cases run
          exact same_books_tasks (SameBooks.refl managed)
      | some marked =>
          have keeps := pick_pid_common_keeps seen
          rw [seen] at run
          dsimp only at run
          split_ifs at run
          · cases run
            exact same_books_tasks keeps.books
          · cases run
            exact same_books_tasks (keeps.trans (wakeup_keeps marked pid.toInt ts)).books
  | other common =>
      rw [handle] at run
      cases seen : pickPidCommon managed (common.frame cpuno ts) with
      | none =>
          rw [seen] at run
          cases run
          exact same_books_tasks (SameBooks.refl managed)
      | some marked =>
          rw [seen] at run
          cases run
          exact same_books_tasks (pick_pid_common_keeps seen).books

/-- `manageSched` leaves the books alone. -/
theorem update_period_keeps (managed : Managed κ) (place : Nat) (newPeriod : UInt64) :
    Keeps managed (updatePeriod fp proc numa set managed place newPeriod) := by
  unfold updatePeriod
  cases here : managed.nhead[place]? with
  | none => exact Keeps.refl managed
  | some item =>
      dsimp only
      have known : Keeps managed (managed.put place { item with mon.cdfPeriod := newPeriod }) :=
        put_keeps here rfl rfl
      split_ifs
      · exact Keeps.refl managed
      · exact known.trans (keeps_stays (update_siblings_stays _ place))
      · exact known

theorem books_change {before after : Managed κ} {place : Nat} {item node : Node}
    (list : after.nhead = before.nhead.set place node) (here : before.nhead[place]? = some item)
    (same : ledger node = ledger item) (period : periodic item.attr → periodic node.attr) :
    SameBooks before after := by
  constructor
  · intro other
    rw [entry, entry, list, List.getElem?_set]
    split_ifs with this inside
    · subst this
      simp [here, same]
    · subst this
      rw [List.getElem?_eq_none (by omega)]
    · rfl
  · intro start
    have old := start item (List.mem_of_getElem? here)
    exact (books_set list here same (period old)).periodic start

theorem update_runtime_books (managed : Managed κ) (place : Nat) (newWCET : UInt64) :
    SameBooks managed (updateRuntime proc managed place newWCET) := by
  unfold updateRuntime
  cases here : managed.nhead[place]? with
  | none => exact SameBooks.refl managed
  | some item =>
      have written : SameBooks managed (updatePidWCET proc managed place item newWCET) := by
        rw [updatePidWCET]
        dsimp only
        split_ifs
        · exact books_change rfl here rfl id
        · exact books_change rfl here rfl id
      have estimated : ∀ middle : Managed κ, SameBooks middle { middle with
          nhead := middle.nhead.modify place fun item =>
            { item with status.herr := false, mon.cdfRuntime := newWCET } } := by
        intro middle
        apply Keeps.books
        apply keeps_modify rfl
        · exact fun _ => rfl
        · exact fun _ => rfl
      dsimp only
      split_ifs
      · exact SameBooks.refl managed
      · exact written.trans (estimated _)
      · exact estimated managed

theorem manage_node_books (managed : Managed κ) (place : Nat) (estimate : Estimate) :
    SameBooks managed (manageNode fp proc numa set managed place estimate) := by
  unfold manageNode
  cases here : managed.nhead[place]? with
  | none => exact SameBooks.refl managed
  | some item =>
      dsimp only
      split_ifs
      · exact SameBooks.refl managed
      · obtain ⟨newPeriod, newWCET⟩ := estimate
        cases newPeriod with
        | none =>
            cases newWCET with
            | none => exact SameBooks.refl managed
            | some wcet => exact update_runtime_books managed place wcet
        | some period =>
            have spaced := (@update_period_keeps κ fp proc numa set managed place period).books
            cases newWCET with
            | none => exact spaced
            | some wcet => exact spaced.trans (update_runtime_books _ place wcet)

theorem fifo_line_task (scan : SchedScan) (line : SchedLine) :
    (fifoLine scan line).item.pid = scan.item.pid ∧
      (fifoLine scan line).item.attr = scan.item.attr := by
  rw [fifoLine]
  dsimp only
  split_ifs <;> exact ⟨rfl, rfl⟩

theorem deadline_line_task {scan next : SchedScan} {line : SchedLine} {done : Bool}
    (run : deadlineLine set scan line = .ok (done, next)) :
    next.item.pid = scan.item.pid ∧ next.item.attr = scan.item.attr := by
  have first : ∀ read, read = (if (!set.ftrace && tagged line "dl.runtime") = true then
      { scan with
        ltrt := line.num
        item := if toUInt64 line.num ≠ scan.item.mon.rt then
          { scan.item with mon.dlCount := scan.item.mon.dlCount + 1 } else scan.item }
      else scan) → read.item.pid = scan.item.pid ∧ read.item.attr = scan.item.attr := by
    rintro read rfl
    split_ifs <;> exact ⟨rfl, rfl⟩
  have second : ∀ read : SchedScan, (if tagged line "dl.deadline" then do
      let mon ←
        if read.item.mon.deadline ≠ 0 ∧ toUInt64 line.num ≠ read.item.mon.deadline ∧ !set.ftrace
        then readJitter read line.num
        else pure read.item.mon
      let seen := { mon with
        deadline := toUInt64 line.num
        rt := if set.ftrace then mon.rt else toUInt64 read.ltrt }
      pure (true, { read with item := { read.item with mon := seen } })
      else pure (false, read)) = Except.ok (done, next) →
      next.item.pid = read.item.pid ∧ next.item.attr = read.item.attr := by
    intro read run
    split at run
    · dsimp only at run
      split at run
      · obtain ⟨mon, -, last⟩ := bind_ok run
        cases last
        exact ⟨rfl, rfl⟩
      · cases run
        exact ⟨rfl, rfl⟩
    · cases run
      exact ⟨rfl, rfl⟩
  obtain ⟨pid, attr⟩ := first _ rfl
  obtain ⟨pid', attr'⟩ := second _ run
  exact ⟨pid'.trans pid, attr'.trans attr⟩

/-- Without fTrace the kernel's counters are taken over, but for no other task. -/
theorem sched_lines_task (lines : List SchedLine) (scan finish : SchedScan)
    (run : schedLines set scan lines = .ok finish) :
    finish.item.pid = scan.item.pid ∧ finish.item.attr = scan.item.attr := by
  induction lines generalizing scan with
  | nil =>
      cases run
      exact ⟨rfl, rfl⟩
  | cons line rest ih =>
      have first : ∀ read, read = (if scan.item.attr.schedPolicy = schedRr ∨
          scan.item.attr.schedPolicy = schedFifo then fifoLine scan line else scan) →
          read.item.pid = scan.item.pid ∧ read.item.attr = scan.item.attr := by
        rintro read rfl
        split_ifs
        · exact fifo_line_task scan line
        · exact ⟨rfl, rfl⟩
      rw [schedLines] at run
      dsimp only at run
      obtain ⟨pid, attr⟩ := first _ rfl
      by_cases policy : scan.item.attr.schedPolicy = schedDeadline
      · rw [if_pos policy] at run
        obtain ⟨⟨done, next⟩, line', last⟩ := bind_ok run
        obtain ⟨pid', attr'⟩ := deadline_line_task line'
        dsimp only at last
        split_ifs at last
        · cases last
          exact ⟨pid'.trans pid, attr'.trans attr⟩
        · obtain ⟨pid'', attr''⟩ := ih next last
          exact ⟨pid''.trans (pid'.trans pid), attr''.trans (attr'.trans attr)⟩
      · rw [if_neg policy] at run
        obtain ⟨pid', attr'⟩ := ih _ run
        exact ⟨pid'.trans pid, attr'.trans attr⟩

theorem get_sched_info_tasks {managed next : Managed κ} {place : Nat}
    (run : getSchedInfo proc set managed place = .ok next) : SameTasks managed next := by
  rw [getSchedInfo] at run
  split at run
  · cases run
    exact same_books_tasks (SameBooks.refl managed)
  · rename_i item here
    split at run
    · cases run
      apply same_books_tasks
      apply Keeps.books
      exact keeps_list rfl
    · obtain ⟨scan, first, last⟩ := bind_ok run
      obtain ⟨pid, attr⟩ := sched_lines_task _ _ _ first
      cases last
      constructor
      · apply List.ext_getElem?
        intro other
        show (managed.nhead.set place scan.item |>.map Node.pid)[other]? = _
        rw [List.map_set, List.getElem?_set, pid]
        split_ifs with this inside
        · subst this
          simp [pids, here]
        · subst this
          rw [pids, List.getElem?_eq_none (by omega)]
        · rfl
      · intro start node member
        rcases List.mem_or_eq_of_mem_set member with old | same
        · exact start node old
        · rw [same, attr]
          exact start item (List.mem_of_getElem? here)

end Calls

/-- The books of a node with its attributes. -/
def state (item : Node) : Ledger × SchedAttr := (ledger item, item.attr)

/-- What a search for parameters leaves as it is. -/
structure Untouched (look found : Lookup) : Prop where
  nhead : found.nhead.map state = look.nhead.map state
  attr : found.node.attr = look.node.attr

theorem Untouched.refl (look : Lookup) : Untouched look look := ⟨rfl, rfl⟩

theorem Untouched.trans {first second third : Lookup} (one : Untouched first second)
    (two : Untouched second third) : Untouched first third :=
  ⟨two.nhead.trans one.nhead, two.attr.trans one.attr⟩

theorem map_state {change : Node → Node} (same : ∀ item, state (change item) = state item)
    (items : List Node) : (items.map change).map state = items.map state := by
  rw [List.map_map]
  exact List.map_congr_left fun item _ => same item

section Search
variable {look found : Lookup}

theorem check_container_match_untouched {cont c : Nat}
    (hit : checkContainerMatch look cont = some (found, c)) : Untouched look found := by
  rw [checkContainerMatch] at hit
  split at hit
  · split_ifs at hit
    · cases hit
      exact Untouched.refl look
    · cases hit
      constructor
      · apply map_state
        intro item
        split_ifs <;> rfl
      · rfl
  · cases hit

theorem container_match_untouched {conts : List Nat} {c : Nat}
    (hit : conts.findSome? (checkContainerMatch look) = some (found, c)) :
    Untouched look found := by
  obtain ⟨cont, -, single⟩ := List.exists_of_findSome?_eq_some hit
  exact check_container_match_untouched single

theorem image_containers_untouched (look : Lookup) (conts : List Nat) : Untouched look
    (((conts.findSome? (checkContainerMatch look)).map Prod.fst).getD look) := by
  cases hit : conts.findSome? (checkContainerMatch look) with
  | none => exact Untouched.refl look
  | some pair =>
      obtain ⟨found, c⟩ := pair
      exact container_match_untouched hit

theorem find_in_container_untouched (look : Lookup) (img : Option Nat) (cont : Nat)
    (fromImg : Bool) : Untouched look (findInContainer look img cont fromImg) := by
  unfold findInContainer
  by_cases detected : look.node.pid = 0
  · rw [if_pos detected]
    exact ⟨rfl, rfl⟩
  · rw [if_neg detected]
    dsimp only
    split <;> exact ⟨rfl, rfl⟩

theorem group_pid_attr (conts : Containers) (node : Node) (keep : Str) (curr : Option Nat) :
    (groupPid conts node keep curr).2.attr = node.attr := by
  rw [groupPid]
  dsimp only
  cases curr <;> rfl

theorem group_unrelated_untouched (look : Lookup) (curr : Option Nat) :
    Untouched look (groupUnrelated look curr).1 := by
  rw [groupUnrelated]
  split
  · exact ⟨rfl, group_pid_attr _ _ _ _⟩
  · exact Untouched.refl look

theorem find_unrelated_untouched (look : Lookup) : Untouched look (findUnrelated look).1 := by
  rw [findUnrelated]
  dsimp only
  split
  · exact group_unrelated_untouched look none
  · rename_i p matched
    have copied : Untouched look { look with
        conts := (pidFromPid look.conts p).1
        node := { look.node with param := some (pidFromPid look.conts p).2 } } := ⟨rfl, rfl⟩
    exact copied.trans (group_unrelated_untouched _ _)

theorem find_pid_parameters_untouched {success : Bool}
    (run : findPidParameters look = .ok (found, success)) : Untouched look found := by
  rw [findPidParameters] at run
  cases img : imageMatch look.conts look.node with
  | none =>
      rw [img] at run
      dsimp only at run
      cases hit : look.conts.cont.findSome? (checkContainerMatch look) with
      | some pair =>
          rw [hit] at run
          cases run
          exact (container_match_untouched hit).trans (find_in_container_untouched _ _ _ _)
      | none =>
          rw [hit] at run
          dsimp only at run
          split_ifs at run
          · cases run
            exact Untouched.refl look
          · have same : findUnrelated look = (found, success) := Except.ok.inj run
            have left := find_unrelated_untouched look
            rwa [same] at left
  | some i =>
      obtain ⟨seen, is⟩ : ∃ seen, (((look.conts.imgAt i).conts.findSome?
          (checkContainerMatch look)).map Prod.fst).getD look = seen := ⟨_, rfl⟩
      have first := image_containers_untouched look (look.conts.imgAt i).conts
      rw [is] at first
      cases hit : seen.conts.cont.findSome? (checkContainerMatch seen) with
      | some pair =>
          simp only [img, is, hit] at run
          cases run
          exact first.trans
            ((container_match_untouched hit).trans (find_in_container_untouched _ _ _ _))
      | none =>
          simp only [img, is, hit] at run
          obtain ⟨⟨conts, cont⟩, -, last⟩ := bind_ok run
          cases last
          have created : Untouched seen { seen with conts := conts } := ⟨rfl, rfl⟩
          exact first.trans (created.trans (find_in_container_untouched _ _ _ _))

end Search

section Resources
variable {κ : Type} {kernel : Kernel κ} {proc : Proc κ} {numa : Numa} {set : PrgSet}

theorem mark_sibling_state (conts : Containers) (node item : Node) :
    state (markSibling conts node item) = state item := by
  rw [markSibling]
  split_ifs <;> rfl

theorem mark_siblings_untouched (look : Lookup) : Untouched look (markSiblings look) := by
  rw [markSiblings]
  split_ifs
  · exact Untouched.refl look
  · exact ⟨map_state (mark_sibling_state _ _) _, rfl⟩

/-- Parameters and resources of a node change the books of none. -/
theorem set_pid_resources_untouched {look final : Lookup} {start written : κ}
    (run : setPidResources proc.toKernel numa set look start = .ok (final, written)) :
    Untouched look final := by
  rw [setPidResources] at run
  obtain ⟨⟨found, success⟩, first, rest⟩ := bind_ok run
  obtain ⟨⟨conts, node, after⟩, second, last⟩ := bind_ok rest
  cases last
  have searched := find_pid_parameters_untouched first
  have attr : node.attr = found.node.attr := by
    rw [setFound] at second
    split_ifs at second
    · exact (set_pid_resources_u_ledger proc numa set _ _ _ _ _ _ second).2
    · cases second
      rfl
  have settled : Untouched found { found with conts := conts, node := node } := ⟨rfl, attr⟩
  exact searched.trans (settled.trans (mark_siblings_untouched _))

theorem keeps_of_states {before after : Managed κ}
    (same : after.nhead.map state = before.nhead.map state) : Keeps before after := by
  intro place
  have here := congrArg (fun list : List (Ledger × SchedAttr) => list[place]?) same
  simp only [List.getElem?_map] at here
  exact here

/-- A docker event leaves the books alone. -/
theorem handle_event_keeps {managed : Managed κ} {lstevent : Contevent} {after : World κ}
    (older : ∀ item ∈ managed.nhead, item.contid.map Str.loc ≠ some lstevent.id.loc)
    (run : handleEvent proc.toKernel numa set (world managed) lstevent = .ok after) :
    Keeps managed (withWorld managed after) := by
  apply keeps_of_states
  rw [handleEvent] at run
  cases kind : lstevent.event with
  | add =>
      rw [kind] at run
      obtain ⟨⟨look, written⟩, first, last⟩ := bind_ok run
      cases last
      exact (set_pid_resources_untouched first).nhead
  | remove =>
      rw [kind] at run
      dsimp only at run
      rw [cnt_remove_new set (world managed) lstevent older] at run
      cases run
      rfl
  | pending =>
      rw [kind] at run
      cases run
      rfl

end Resources

section Scans
variable {κ : Type} {proc : Proc κ} {numa : Numa} {set : PrgSet}

def AllPeriodic (nodes : List Node) : Prop := ∀ item ∈ nodes, periodic item.attr

theorem all_periodic_append {nodes others : List Node} (first : AllPeriodic nodes)
    (second : AllPeriodic others) : AllPeriodic (nodes ++ others) := by
  intro item member
  rcases List.mem_append.mp member with left | right
  · exact first item left
  · exact second item right

theorem all_periodic_states {nodes others : List Node}
    (same : others.map state = nodes.map state) (start : AllPeriodic nodes) :
    AllPeriodic others := by
  intro item member
  have seen : state item ∈ nodes.map state := by
    rw [← same]
    exact List.mem_map_of_mem member
  obtain ⟨old, present, equal⟩ := List.mem_map.mp seen
  have attr : old.attr = item.attr := congrArg Prod.snd equal
  rw [← attr]
  exact start old present

/-- The deadline tasks of a merge have periods, wherever they are. -/
structure MergePeriodic (merge : Merge κ) : Prop where
  front : AllPeriodic merge.front
  rest : AllPeriodic merge.rest
  lnew : AllPeriodic merge.lnew

theorem insert_item_periodic {merge after : Merge κ} {item : Node} {later : List Node}
    (front : AllPeriodic merge.front) (rest : AllPeriodic merge.rest)
    (new : periodic item.attr) (behind : AllPeriodic later)
    (run : insertItem proc.toKernel numa set merge item later = .ok after) :
    MergePeriodic after := by
  have alone : ∀ node : Node, node.attr = item.attr → AllPeriodic [node] := by
    intro node same other member
    rw [List.mem_singleton.mp member, same]
    exact new
  rw [insertItem] at run
  split_ifs at run
  · obtain ⟨⟨look, written⟩, first, last⟩ := bind_ok run
    cases last
    have same := set_pid_resources_untouched first
    have dropped : AllPeriodic (merge.front.drop merge.skip) :=
      fun other member => front other (List.mem_of_mem_drop member)
    have reached := all_periodic_states same.nhead (all_periodic_append dropped behind)
    constructor
    · apply all_periodic_append
      · apply all_periodic_append
        · exact fun other member => front other (List.mem_of_mem_take member)
        · exact fun other member => reached other (List.mem_of_mem_take member)
      · exact alone look.node same.attr
    · exact rest
    · exact fun other member => reached other (List.mem_of_mem_drop member)
  · obtain ⟨⟨look, written⟩, first, last⟩ := bind_ok run
    cases last
    have same := set_pid_resources_untouched first
    constructor
    · exact all_periodic_append front (alone look.node same.attr)
    · exact all_periodic_states same.nhead rest
    · exact behind

theorem merge_step_periodic {merge after : Merge κ} {next item : Node} {others later : List Node}
    (start : MergePeriodic merge) (rest : merge.rest = next :: others)
    (lnew : merge.lnew = item :: later)
    (run : mergeStep proc.toKernel numa set merge next others item later = .ok after) :
    MergePeriodic after := by
  obtain ⟨front, old, new⟩ := start
  have restOld := old
  have restNew := new
  rw [rest] at old
  rw [lnew] at new
  obtain ⟨head, tail⟩ := List.forall_mem_cons.mp old
  obtain ⟨first, behind⟩ := List.forall_mem_cons.mp new
  have stays : ∀ node : Node, node.attr = next.attr → AllPeriodic (merge.front ++ [node]) := by
    intro node same
    apply all_periodic_append front
    intro other member
    rw [List.mem_singleton.mp member, same]
    exact head
  rw [mergeStep] at run
  split_ifs at run
  · exact @insert_item_periodic κ proc numa set { merge with rest := others, skip := 0 } after item
      later front tail first behind run
  · exact insert_item_periodic front restOld first behind run
  · cases run
    exact ⟨stays next rfl, tail, restNew⟩
  · cases run
    exact ⟨stays _ rfl, tail, restNew⟩
  · cases run
    exact ⟨front, tail, restNew⟩
  · cases run
    exact ⟨stays next rfl, tail, behind⟩

theorem merge_loop_periodic (turns : Nat) {merge after : Merge κ} (start : MergePeriodic merge)
    (run : mergeLoop proc.toKernel numa set turns merge = .ok after) : MergePeriodic after := by
  induction turns generalizing merge with
  | zero =>
      cases run
      exact start
  | succ turns ih =>
      rw [mergeLoop] at run
      split at run
      · rename_i next others item later rest lnew
        obtain ⟨stepped, first, last⟩ := bind_ok run
        exact ih (merge_step_periodic start rest lnew first) last
      · cases run
        exact start

theorem drop_rest_periodic {merge : Merge κ} (start : MergePeriodic merge) :
    MergePeriodic (dropRest set merge) := by
  constructor
  · apply all_periodic_append start.front
    intro item member
    split_ifs at member
    · obtain ⟨old, present, rfl⟩ := List.mem_map.mp member
      exact start.rest old present
    · cases member
  · exact List.forall_mem_nil _
  · exact start.lnew

theorem insert_rest_periodic (turns : Nat) {merge after : Merge κ} (start : MergePeriodic merge)
    (run : insertRest proc.toKernel numa set turns merge = .ok after) : MergePeriodic after := by
  induction turns generalizing merge with
  | zero =>
      cases run
      exact start
  | succ turns ih =>
      rw [insertRest] at run
      cases lnew : merge.lnew with
      | nil =>
          rw [lnew] at run
          cases run
          exact start
      | cons item later =>
          rw [lnew] at run
          obtain ⟨inserted, first, last⟩ := bind_ok run
          have new := start.lnew
          rw [lnew] at new
          obtain ⟨head, behind⟩ := List.forall_mem_cons.mp new
          exact ih (insert_item_periodic start.front start.rest head behind first) last

/-- New tasks come without attributes, those of the list keep theirs. -/
theorem scan_new_periodic {before after : World κ} {scan : List Node}
    {calls : List (Node × Node)} (detected : Detected scan) (start : AllPeriodic before.nhead)
    (run : scanNew proc.toKernel numa set before scan = .ok (after, calls)) :
    AllPeriodic after.nhead := by
  have new : AllPeriodic (Qsortll.qsortll cmpPidItem scan) := by
    intro item member policy
    have attr := detected.attr item ((Qsortll.qsortll_perm cmpPidItem scan).mem_iff.mp member)
    rw [attr] at policy
    exact absurd policy (by decide)
  rw [scanNew] at run
  obtain ⟨merged, first, rest⟩ := bind_ok run
  obtain ⟨final, second, last⟩ := bind_ok rest
  cases last
  have joint : MergePeriodic (⟨[], before.nhead, Qsortll.qsortll cmpPidItem scan, 0,
      before.conts, before.kernel, []⟩ : Merge κ) := ⟨List.forall_mem_nil _, start, new⟩
  have sorted := merge_loop_periodic _ joint first
  exact (insert_rest_periodic _ (drop_rest_periodic sorted) second).front

end Scans

section System
variable {κ : Type} {fp : Rounding} {proc : Proc κ} {numa : Numa} {set : PrgSet}
variable {before after : Managed κ}

theorem quiet_books (reports : ReportsPeriods proc) (turn : Quiet fp proc numa set before after) :
    SameBooks before after := by
  cases turn with
  | docker lstevent older run => exact (handle_event_keeps older run).books
  | attributes place run => exact update_pid_attr_books proc numa set reports run
  | manage place estimate => exact manage_node_books before place estimate

theorem turn_tasks (reports : ReportsPeriods proc) (start : Periodic before)
    (turn : Turn fp proc numa set before after) : SameTasks before after := by
  cases turn with
  | quiet turn => exact same_books_tasks (quiet_books reports turn)
  | reading place untraced run => exact get_sched_info_tasks run
  | event cpuno ts event traced run => exact handle_tasks reports traced start run

/-- What holds of the list between any two turns; `known` are the PIDs of the last scan. -/
structure Standing (set : PrgSet) (known : List Int) (managed : Managed κ) : Prop where
  listed : Listed set.trackpids (pids managed)
  periodic : Periodic managed
  active : ∀ pid, 0 < pid → (pid ∈ pids managed ↔ pid ∈ known)

theorem SameTasks.standing {known : List Int} (same : SameTasks before after)
    (standing : Standing set known before) : Standing set known after := by
  constructor
  · rw [same.pids]
    exact standing.listed
  · exact same.periodic standing.periodic
  · rw [same.pids]
    exact standing.active

theorem scan_merged {scan : List Node} (listed : Listed set.trackpids (pids before))
    (scanned : Scanned scan) : ∃ world' calls,
      scanNew proc.toKernel numa set (world before) scan = .ok (world', calls) ∧
      Merged set.trackpids before.nhead scan world'.nhead calls := by
  obtain ⟨next, calls, run, same, merges⟩ :=
    scan_new_runs proc.toKernel numa set (world before) listed scanned
  exact ⟨next, calls, run, merged_of_merges listed scanned same merges⟩

theorem scan_standing {scan : List Node} (detected : Detected scan)
    (listed : Listed set.trackpids (pids before)) (periodic : Periodic before)
    {next : World κ} {calls : List (Node × Node)}
    (run : scanNew proc.toKernel numa set (world before) scan = .ok (next, calls)) :
    Standing set (scan.map Node.pid) (withWorld before next) := by
  obtain ⟨world', calls', run', merged⟩ :=
    @scan_merged κ proc numa set before scan listed detected.toScanned
  rw [run] at run'
  cases run'
  exact ⟨listed_of_merged listed detected.toScanned merged,
    scan_new_periodic detected (show AllPeriodic (world before).nhead from periodic) run,
    merged.active⟩

theorem standing_of_runs (reports : ReportsPeriods proc) {start managed : Managed κ}
    (empty : start.nhead = []) {known : List Int}
    (runs : Runs fp proc numa set start known managed) : Standing set known managed := by
  induction runs with
  | start =>
      constructor
      · rw [pids, empty]
        exact ⟨.nil, by simp, by simp⟩
      · rw [Periodic, empty]
        simp
      · simp [pids, empty]
  | scan before detected run ih => exact scan_standing detected ih.listed ih.periodic run
  | turn before turn ih => exact (turn_tasks reports ih.periodic turn).standing ih

/-- From an empty list, however the threads take turns: the tasks are in descending order,
none of them twice, the active ones are those of the last scan, deadline tasks have periods,
and any scan succeeds. -/
theorem runs_standing (reports : ReportsPeriods proc) {start managed : Managed κ}
    (empty : start.nhead = []) {known : List Int}
    (runs : Runs fp proc numa set start known managed) :
    Standing set known managed ∧ ∀ scan, Detected scan → ∃ after calls,
      scanNew proc.toKernel numa set (world managed) scan = .ok (after, calls) := by
  have standing := standing_of_runs reports empty runs
  refine ⟨standing, fun scan detected => ?_⟩
  obtain ⟨after, calls, run, -⟩ :=
    @scan_merged κ proc numa set managed scan standing.listed detected.toScanned
  exact ⟨after, calls, run⟩

end System

section Sample

def firstScan : List Node := [{ loc := 1, pid := 100 }, { loc := 2, pid := 200 }]

def secondScan : List Node := [{ loc := 3, pid := 300 }, { loc := 4, pid := 200 }]

theorem first_detected : Detected firstScan where
  distinct := by decide
  fresh := by
    intro item member
    simp only [firstScan, List.mem_cons, List.not_mem_nil, or_false] at member
    rcases member with rfl | rfl <;> exact ⟨by decide, rfl, rfl⟩
  attr := by decide

theorem second_detected : Detected secondScan where
  distinct := by decide
  fresh := by
    intro item member
    simp only [secondScan, List.mem_cons, List.not_mem_nil, or_false] at member
    rcases member with rfl | rfl <;> exact ⟨by decide, rfl, rfl⟩
  attr := by decide

/-- Two scans, and in between the schedule of a task. -/
theorem two_scans_standing : ∃ managed : Managed Unit,
    Runs exact idleProc ⟨2, {0, 1}⟩ { trackpids := true } ⟨[], {}, {}, ()⟩ [300, 200] managed ∧
      Standing { trackpids := true } [300, 200] managed := by
  have one := returns_iff (scanNew idleProc.toKernel ⟨2, {0, 1}⟩ { trackpids := true }
    (world ⟨[], {}, {}, ()⟩) firstScan) fun first => returns
      (scanNew idleProc.toKernel ⟨2, {0, 1}⟩ { trackpids := true }
        (world (manageNode exact idleProc ⟨2, {0, 1}⟩ { trackpids := true }
          (withWorld ⟨[], {}, {}, ()⟩ first.1) 0 ⟨some 5, some 1⟩)) secondScan) fun _ => true
  obtain ⟨⟨first, calls⟩, run, again⟩ := one.mp (by decide +kernel)
  obtain ⟨⟨second, more⟩, further, -⟩ := (returns_iff _ _).mp again
  have turn : Turn exact idleProc ⟨2, {0, 1}⟩ { trackpids := true }
      (withWorld ⟨[], {}, {}, ()⟩ first) _ := .quiet (.manage 0 ⟨some 5, some 1⟩)
  have runs := ((Runs.start.scan first_detected run).turn turn).scan second_detected further
  exact ⟨_, runs, (runs_standing idle_reports rfl runs).1⟩

end Sample

end Orchestrator.SharedList
