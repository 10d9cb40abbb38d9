import Orchestrator.Manage
import Orchestrator.Stepping

/-!
The sum of deadline differences over the readings of `get_sched_info`. A reading
adds its distance to the one before, less a period and less one for every scan
failure it counts, so the sum telescopes, as far as an `int64_t` holds it.
-/

namespace Orchestrator.JitterSum
open Orchdata Cmnutil Manage Traversal

/-- Values of an `int64_t`. -/
def InWord (value : Int) : Prop := -2 ^ 63 ≤ value ∧ value < 2 ^ 63

section Words

theorem word_cast : (word : Int) = 18446744073709551616 := rfl

theorem to_int64_in_word (value : UInt64) : InWord (toInt64 value) := by
  have low := Int.le_bmod (x := value.toNat) (m := 18446744073709551616) (by decide)
  have high := Int.bmod_lt (x := value.toNat) (m := 18446744073709551616) (by decide)
  push_cast at low high
  exact ⟨by unfold toInt64; omega, by unfold toInt64; omega⟩

theorem to_int64_modEq (value : UInt64) : toInt64 value ≡ value.toNat [ZMOD word] := by
  have same := Int.bmod_emod (x := value.toNat) (m := 18446744073709551616)
  push_cast at same
  exact same

theorem to_uint64_modEq (value : Int) : ((toUInt64 value).toNat : Int) ≡ value [ZMOD word] := by
  rw [to_uint64_mod]
  exact Int.mod_modEq value word

/-- A signed result is what was computed, modulo the word. -/
theorem wrapped_modEq (value : Int) : toInt64 (toUInt64 value) ≡ value [ZMOD word] :=
  (to_int64_modEq _).trans (to_uint64_modEq value)

/-- Two signed values that differ by whole words are the same. -/
theorem in_word_eq {a b : Int} (first : InWord a) (second : InWord b) (same : a ≡ b [ZMOD word]) :
    a = b := by
  have divides := same.dvd
  obtain ⟨lowA, highA⟩ := first
  obtain ⟨lowB, highB⟩ := second
  rw [word_cast] at divides
  omega

theorem sub_modEq (a b : UInt64) : ((a - b).toNat : Int) ≡ a.toNat - b.toNat [ZMOD word] := by
  have sum : ((a - b + b).toNat : Int) ≡ (a - b).toNat + b.toNat [ZMOD word] := by
    rw [UInt64.toNat_add]
    push_cast
    exact Int.mod_modEq _ _
  rw [UInt64.sub_add_cancel] at sum
  have left := (sum.sub_right (b.toNat : Int)).symm
  rwa [add_sub_cancel_right] at left

end Words

section Loop
variable (period start : Int)

/-- Turns of the correction loop: the first difference below the bound. -/
theorem correction_turns (positive : 0 < period) (signed : InWord start) :
    ∃ count < word, start - count * period < period - tschs ∧
      ∀ turn < count, period - tschs ≤ start - turn * period := by
  obtain ⟨low, high⟩ := signed
  unfold tschs
  have grows : ((start - (period - 1024) + 1).toNat : Int) ≤
      (start - (period - 1024) + 1).toNat * period :=
    le_mul_of_one_le_right (by omega) positive
  have met : ∃ turn : Nat, start - turn * period < period - 1024 :=
    ⟨(start - (period - 1024) + 1).toNat, by omega⟩
  have first : Nat.find met ≤ (start - (period - 1024) + 1).toNat :=
    Nat.find_min' met (by omega)
  refine ⟨Nat.find met, ?_, Nat.find_spec met, fun turn early => not_lt.mp (Nat.find_min met early)⟩
  unfold word
  omega

/-- The correction loop ends; every turn takes a period out and counts a failure. -/
theorem correction_loop (positive : 0 < period) (signed : InWord start) (fails : UInt64) :
    ∃ count : Nat, repeatWhile Stop.hang
        (fun state : Int × UInt64 => decide (period - tschs ≤ state.1))
        (fun state => (toInt64 (toUInt64 (state.1 - period)), state.2 + 1)) turns (start, fails) =
      .ok (start - count * period, fails + UInt64.ofNat count) := by
  obtain ⟨count, few, done, goes⟩ := correction_turns period start positive signed
  refine ⟨count, ?_⟩
  obtain ⟨low, high⟩ := signed
  have loop := repeat_while_states Stop.hang
    (fun state : Int × UInt64 => decide (period - tschs ≤ state.1))
    (fun state => (toInt64 (toUInt64 (state.1 - period)), state.2 + 1))
    (fun turn => (start - turn * period, fails + UInt64.ofNat turn)) count
    (fun turn early => by
      have above := goes turn early
      have taken : 0 ≤ (turn : Int) * period := mul_nonneg (by omega) positive.le
      unfold tschs at above
      have kept : toInt64 (toUInt64 (start - turn * period - period)) =
          start - (turn + 1 : Nat) * period := by
        rw [to_int64_exact (by omega) (by omega)]
        push_cast
        ring
      simp [kept, UInt64.ofNat_add, UInt64.add_assoc])
    (fun turn early => decide_eq_true (goes turn early))
    (decide_eq_false (not_le.mpr done)) turns few
  simpa using loop

end Loop

section Readings
variable {scan : SchedScan}

/-- What a changed deadline adds to the sum. -/
structure Jitter (mon next : NodeMon) (num period : Int) (fails : Nat) : Prop where
  deadline : next.deadline = mon.deadline
  dlScanfail : next.dlScanfail = mon.dlScanfail + UInt64.ofNat fails
  dlDiff : next.dlDiff ≡ mon.dlDiff + (num - mon.deadline.toNat) - period * (1 + fails) [ZMOD word]
  signed : InWord next.dlDiff

theorem read_jitter_ok (scan : SchedScan) (num : Int) (positive : 0 < scan.item.attr.schedPeriod.toNat)
    (small : scan.item.attr.schedPeriod.toNat < 2 ^ 63) :
    ∃ mon fails, readJitter scan num = .ok mon ∧
      Jitter scan.item.mon mon num scan.item.attr.schedPeriod.toNat fails := by
  have period := to_int64_small small
  set start := toInt64 (toUInt64 (toInt64 (toUInt64 num - scan.item.mon.deadline) -
    toInt64 scan.item.attr.schedPeriod)) with startDef
  obtain ⟨count, loop⟩ := correction_loop (toInt64 scan.item.attr.schedPeriod)
    start (by omega) (to_int64_in_word _) scan.item.mon.dlScanfail
  have distance : start ≡ num - scan.item.mon.deadline.toNat -
      scan.item.attr.schedPeriod.toNat [ZMOD word] := by
    calc start
        ≡ toInt64 (toUInt64 num - scan.item.mon.deadline) -
            toInt64 scan.item.attr.schedPeriod [ZMOD word] := wrapped_modEq _
      _ ≡ (toUInt64 num - scan.item.mon.deadline).toNat -
            scan.item.attr.schedPeriod.toNat [ZMOD word] := by
          rw [period]
          exact (to_int64_modEq _).sub_right _
      _ ≡ (toUInt64 num).toNat - scan.item.mon.deadline.toNat -
            scan.item.attr.schedPeriod.toNat [ZMOD word] := (sub_modEq _ _).sub_right _
      _ ≡ num - scan.item.mon.deadline.toNat - scan.item.attr.schedPeriod.toNat [ZMOD word] :=
          ((to_uint64_modEq num).sub_right _).sub_right _
  have sum : toInt64 (toUInt64 (scan.item.mon.dlDiff +
      (start - count * toInt64 scan.item.attr.schedPeriod))) ≡
      scan.item.mon.dlDiff + (num - scan.item.mon.deadline.toNat) -
        scan.item.attr.schedPeriod.toNat * (1 + count) [ZMOD word] := by
    calc toInt64 (toUInt64 (scan.item.mon.dlDiff +
          (start - count * toInt64 scan.item.attr.schedPeriod)))
        ≡ scan.item.mon.dlDiff + (start - count * scan.item.attr.schedPeriod.toNat) [ZMOD word] := by
          rw [period]
          exact wrapped_modEq _
      _ ≡ scan.item.mon.dlDiff + (num - scan.item.mon.deadline.toNat -
            scan.item.attr.schedPeriod.toNat - count * scan.item.attr.schedPeriod.toNat)
            [ZMOD word] := (distance.sub_right _).add_left _
      _ = scan.item.mon.dlDiff + (num - scan.item.mon.deadline.toNat) -
            scan.item.attr.schedPeriod.toNat * (1 + count) := by ring
  have signed := to_int64_in_word (toUInt64 (scan.item.mon.dlDiff +
    (start - count * toInt64 scan.item.attr.schedPeriod)))
  unfold readJitter
  dsimp only
  rw [← startDef, loop]
  dsimp only [bind, Except.bind, pure, Except.pure]
  generalize toInt64 (toUInt64 (scan.item.mon.dlDiff +
    (start - count * toInt64 scan.item.attr.schedPeriod))) = total at sum signed ⊢
  refine ⟨_, count, rfl, ?_⟩
  split_ifs
  all_goals exact ⟨rfl, rfl, sum, signed⟩

/-- The sum and the counter are kept. -/
structure SameSum (mon next : NodeMon) : Prop where
  dlScanfail : next.dlScanfail = mon.dlScanfail
  dlDiff : next.dlDiff = mon.dlDiff

/-- What a file leaves, by the deadline it gives. -/
def Reads (mon next : NodeMon) (period : Int) : Option Int → Prop
  | none => next.deadline = mon.deadline ∧ SameSum mon next
  | some num => next.deadline = toUInt64 num ∧
      if mon.deadline = 0 ∨ toUInt64 num = mon.deadline then SameSum mon next
      else ∃ fails : Nat, next.dlScanfail = mon.dlScanfail + UInt64.ofNat fails ∧
        next.dlDiff ≡ mon.dlDiff + (num - mon.deadline.toNat) - period * (1 + fails) [ZMOD word] ∧
        InWord next.dlDiff

/-- The deadline at which the reading of a file ends. -/
def deadlineOf (lines : List SchedLine) : Option Int :=
  (lines.find? fun line => tagged line "dl.deadline").map SchedLine.num

theorem reads_after_none {mon middle next : NodeMon} {period : Int} {reading : Option Int}
    (first : Reads mon middle period none) (second : Reads middle next period reading) :
    Reads mon next period reading := by
  obtain ⟨deadline, same⟩ := first
  cases reading with
  | none =>
      obtain ⟨later, kept⟩ := second
      exact ⟨later.trans deadline, kept.dlScanfail.trans same.dlScanfail, kept.dlDiff.trans same.dlDiff⟩
  | some num =>
      unfold Reads at second ⊢
      rw [deadline, same.dlDiff, same.dlScanfail] at second
      refine ⟨second.1, ?_⟩
      have rest := second.2
      split_ifs at rest ⊢
      · exact ⟨rest.dlScanfail.trans same.dlScanfail, rest.dlDiff.trans same.dlDiff⟩
      · exact rest

/-- The part of a line before the deadline: run time and counter only. -/
def runtimeLine (set : PrgSet) (scan : SchedScan) (line : SchedLine) : SchedScan :=
  if !set.ftrace && tagged line "dl.runtime" then
    { scan with
      ltrt := line.num
      item := if toUInt64 line.num ≠ scan.item.mon.rt then
        { scan.item with mon.dlCount := scan.item.mon.dlCount + 1 } else scan.item }
  else scan

theorem runtime_line_reads (set : PrgSet) (scan : SchedScan) (line : SchedLine) (period : Int) :
    (runtimeLine set scan line).item.attr = scan.item.attr ∧
      (runtimeLine set scan line).item.pid = scan.item.pid ∧
      Reads scan.item.mon (runtimeLine set scan line).item.mon period none := by
  unfold runtimeLine
  split_ifs <;> exact ⟨rfl, rfl, rfl, rfl, rfl⟩

/-- The part at the deadline. -/
def readDeadline (set : PrgSet) (scan : SchedScan) (line : SchedLine) :
    Except Stop (Bool × SchedScan) := do
  if tagged line "dl.deadline" then
    let mon ←
      if scan.item.mon.deadline ≠ 0 ∧ toUInt64 line.num ≠ scan.item.mon.deadline ∧ !set.ftrace then
        readJitter scan line.num
      else pure scan.item.mon
    let seen := { mon with
      deadline := toUInt64 line.num
      rt := if set.ftrace then mon.rt else toUInt64 scan.ltrt }
    pure (true, { scan with item := { scan.item with mon := seen } })
  else pure (false, scan)

theorem deadline_line_eq (set : PrgSet) (scan : SchedScan) (line : SchedLine) :
    deadlineLine set scan line = readDeadline set (runtimeLine set scan line) line := rfl

/-- One line from the deadline on. -/
theorem read_deadline_ok {set : PrgSet} (scan : SchedScan) (noTrace : set.ftrace = false)
    (positive : 0 < scan.item.attr.schedPeriod.toNat)
    (small : scan.item.attr.schedPeriod.toNat < 2 ^ 63) (line : SchedLine) :
    ∃ next, readDeadline set scan line = .ok (tagged line "dl.deadline", next) ∧
      next.item.attr = scan.item.attr ∧ next.item.pid = scan.item.pid ∧
      Reads scan.item.mon next.item.mon scan.item.attr.schedPeriod.toNat
        (if tagged line "dl.deadline" then some line.num else none) := by
  unfold readDeadline
  cases deadline : tagged line "dl.deadline" with
  | false => exact ⟨scan, rfl, rfl, rfl, rfl, rfl, rfl⟩
  | true =>
      rw [if_pos rfl, if_pos rfl]
      by_cases changed : scan.item.mon.deadline ≠ 0 ∧ toUInt64 line.num ≠ scan.item.mon.deadline
      · obtain ⟨mon, fails, read, jitter⟩ := read_jitter_ok scan line.num positive small
        rw [if_pos ⟨changed.1, changed.2, by rw [noTrace]; rfl⟩, read]
        refine ⟨_, rfl, rfl, rfl, rfl, ?_⟩
        rw [if_neg (fun either => either.elim changed.1 changed.2)]
        exact ⟨fails, jitter.dlScanfail, jitter.dlDiff, jitter.signed⟩
      · rw [if_neg (fun both => changed ⟨both.1, both.2.1⟩)]
        refine ⟨_, rfl, rfl, rfl, rfl, ?_⟩
        rw [if_pos ((not_and_or.mp changed).imp not_not.mp not_not.mp)]
        exact ⟨rfl, rfl⟩

/-- A whole file of a task whose period is positive. -/
theorem sched_lines_ok {set : PrgSet} (scan : SchedScan) (noTrace : set.ftrace = false)
    (policy : scan.item.attr.schedPolicy = schedDeadline)
    (positive : 0 < scan.item.attr.schedPeriod.toNat)
    (small : scan.item.attr.schedPeriod.toNat < 2 ^ 63) (lines : List SchedLine) :
    ∃ next, schedLines set scan lines = .ok next ∧ next.item.attr = scan.item.attr ∧
      next.item.pid = scan.item.pid ∧
      Reads scan.item.mon next.item.mon scan.item.attr.schedPeriod.toNat (deadlineOf lines) := by
  induction lines generalizing scan with
  | nil => exact ⟨scan, rfl, rfl, rfl, rfl, rfl, rfl⟩
  | cons line rest ih =>
      obtain ⟨attr, pid, before⟩ :=
        runtime_line_reads set scan line scan.item.attr.schedPeriod.toNat
      have other : ¬ (scan.item.attr.schedPolicy = schedRr ∨ scan.item.attr.schedPolicy = schedFifo) := by
        rw [policy]
        decide
      rw [schedLines, if_neg other, if_pos policy, deadline_line_eq, deadlineOf, List.find?_cons]
      obtain ⟨next, read, nextAttr, nextPid, reads⟩ :=
        read_deadline_ok (runtimeLine set scan line) noTrace (attr ▸ positive)
          (attr ▸ small) line
      rw [attr] at reads nextAttr
      rw [read]
      cases deadline : tagged line "dl.deadline" with
      | true =>
          rw [deadline] at reads
          exact ⟨next, rfl, nextAttr, nextPid.trans pid, reads_after_none before reads⟩
      | false =>
          rw [deadline] at reads
          obtain ⟨last, run, lastAttr, lastPid, later⟩ :=
            ih next (nextAttr ▸ policy) (nextAttr ▸ positive) (nextAttr ▸ small)
          rw [nextAttr] at later lastAttr
          exact ⟨last, run, lastAttr, lastPid.trans (nextPid.trans pid),
            reads_after_none (reads_after_none before reads) later⟩

end Readings

section Sums
variable {mon next : NodeMon} {period first last : Int} {changed : Nat}

/-- Nothing read yet. -/
structure Unread (mon : NodeMon) : Prop where
  deadline : mon.deadline = 0
  dlScanfail : mon.dlScanfail = 0
  dlDiff : mon.dlDiff = 0

/-- What is left of the readings from `first` to `last`, so many of them changes. -/
structure Telescoped (period first last : Int) (changed : Nat) (mon : NodeMon) : Prop where
  deadline : mon.deadline = toUInt64 last
  dlDiff : mon.dlDiff ≡ (last - first) - period * (changed + mon.dlScanfail.toNat) [ZMOD word]
  signed : InWord mon.dlDiff

/-- Deadlines an `int64_t` and an `uint64_t` hold alike; zero is no deadline. -/
def Deadline (num : Int) : Prop := 0 < num ∧ num < 2 ^ 62

instance (num : Int) : Decidable (Deadline num) := inferInstanceAs (Decidable (_ ∧ _))

theorem deadline_to_nat {num : Int} (valid : Deadline num) : ((toUInt64 num).toNat : Int) = num := by
  obtain ⟨positive, small⟩ := valid
  rw [to_uint64_mod]
  omega

theorem first_reading {num : Int} (unread : Unread mon) (reads : Reads mon next period (some num)) :
    Telescoped period num num 0 next := by
  obtain ⟨deadline, rest⟩ := reads
  rw [if_pos (Or.inl unread.deadline)] at rest
  have diff := rest.dlDiff.trans unread.dlDiff
  have fails := rest.dlScanfail.trans unread.dlScanfail
  refine ⟨deadline, ?_, ?_⟩
  · rw [diff, fails]
    simp
  · rw [diff]
    exact ⟨by decide, by decide⟩

theorem scanfail_modEq (fails : UInt64) (more : Nat) :
    ((fails + UInt64.ofNat more).toNat : Int) ≡ fails.toNat + more [ZMOD word] := by
  rw [UInt64.toNat_add, UInt64.toNat_ofNat']
  push_cast
  rw [Int.add_emod_emod]
  exact Int.mod_modEq _ _

theorem next_reading {num : Int} (telescoped : Telescoped period first last changed mon)
    (before : Deadline last) (valid : Deadline num) (reads : Reads mon next period (some num)) :
    Telescoped period first num (changed + if num ≠ last then 1 else 0) next := by
  have known := deadline_to_nat before
  have given := deadline_to_nat valid
  have nonzero : mon.deadline ≠ 0 := by
    rw [telescoped.deadline]
    intro zero
    rw [zero] at known
    exact absurd known.symm before.1.ne'
  obtain ⟨deadline, rest⟩ := reads
  by_cases same : num = last
  · subst same
    rw [if_pos (Or.inr telescoped.deadline.symm)] at rest
    rw [if_neg (by simp), Nat.add_zero]
    exact ⟨deadline, by rw [rest.dlDiff, rest.dlScanfail]; exact telescoped.dlDiff,
      by rw [rest.dlDiff]; exact telescoped.signed⟩
  · have other : toUInt64 num ≠ mon.deadline := by
      rw [telescoped.deadline]
      intro equal
      rw [equal, known] at given
      exact same given.symm
    rw [if_neg (fun either => either.elim nonzero other)] at rest
    obtain ⟨fails, scanfail, diff, signed⟩ := rest
    rw [if_pos same]
    refine ⟨deadline, ?_, signed⟩
    rw [telescoped.deadline, known] at diff
    have counted := (scanfail_modEq mon.dlScanfail fails).mul_left period
    rw [← scanfail] at counted
    calc next.dlDiff
        ≡ mon.dlDiff + (num - last) - period * (1 + fails) [ZMOD word] := diff
      _ ≡ (last - first) - period * (changed + mon.dlScanfail.toNat) + (num - last) -
            period * (1 + fails) [ZMOD word] :=
          (telescoped.dlDiff.add_right _).sub_right _
      _ = (num - first) - period * (changed + 1) - period * (mon.dlScanfail.toNat + fails) := by ring
      _ ≡ (num - first) - period * (changed + 1) - period * next.dlScanfail.toNat [ZMOD word] :=
          counted.symm.sub_left _
      _ = (num - first) - period * ((changed + 1 : Nat) + next.dlScanfail.toNat) := by
          push_cast
          ring

end Sums

section Runs
variable {κ : Type} (proc : Proc κ) (set : PrgSet)

/-- `get_sched_info` again and again, with whatever kernel state there is at each call. -/
def readAll (place : Nat) (managed : Managed κ) (kernels : List κ) : Except Stop (Managed κ) :=
  kernels.foldlM (fun managed kernel => getSchedInfo proc set { managed with kernel } place) managed

/-- The deadlines these calls read. -/
def readings (pid : Int) (kernels : List κ) : List Int :=
  kernels.filterMap fun kernel => (proc.schedDebug kernel pid).1.bind deadlineOf

/-- Readings that differ from the one before. -/
def changes : Int → List Int → Nat
  | _, [] => 0
  | last, num :: rest => (if num ≠ last then 1 else 0) + changes num rest

variable {proc set} {managed : Managed κ} {place : Nat} {item : Node}

/-- One call on a task whose period is positive. -/
theorem get_sched_info_ok (proc : Proc κ) (managed : Managed κ) (noTrace : set.ftrace = false)
    (found : managed.nhead[place]? = some item)
    (policy : item.attr.schedPolicy = schedDeadline) (positive : 0 < item.attr.schedPeriod.toNat)
    (small : item.attr.schedPeriod.toNat < 2 ^ 63) :
    ∃ next node, getSchedInfo proc set managed place = .ok next ∧
      next.nhead[place]? = some node ∧ node.attr = item.attr ∧ node.pid = item.pid ∧
      Reads item.mon node.mon item.attr.schedPeriod.toNat
        ((proc.schedDebug managed.kernel item.pid).1.bind deadlineOf) := by
  have inside : place < managed.nhead.length := (List.getElem?_eq_some_iff.mp found).1
  unfold getSchedInfo
  rw [found]
  dsimp only
  rcases proc.schedDebug managed.kernel item.pid with ⟨_ | lines, kernel⟩
  · exact ⟨_, item, rfl, found, rfl, rfl, rfl, rfl, rfl⟩
  · obtain ⟨scan, read, attr, pid, reads⟩ :=
      sched_lines_ok { item } noTrace policy positive small lines
    dsimp only
    rw [read]
    exact ⟨_, scan.item, rfl, by simp [Managed.put, inside], attr, pid, reads⟩

theorem read_all_cons (kernel : κ) (rest : List κ) {next : Managed κ}
    (call : getSchedInfo proc set { managed with kernel } place = .ok next) :
    readAll proc set place managed (kernel :: rest) = readAll proc set place next rest := by
  rw [readAll, List.foldlM_cons, call]
  rfl

theorem same_after_none {mon next : NodeMon} {period first last : Int} {changed : Nat}
    (reads : Reads mon next period none) (telescoped : Telescoped period first last changed mon) :
    Telescoped period first last changed next where
  deadline := reads.1.trans telescoped.deadline
  dlDiff := by
    rw [reads.2.dlDiff, reads.2.dlScanfail]
    exact telescoped.dlDiff
  signed := reads.2.dlDiff ▸ telescoped.signed

/-- Readings after the first one. -/
theorem run_telescopes (noTrace : set.ftrace = false) (kernels : List κ) {first last : Int}
    {changed : Nat} (found : managed.nhead[place]? = some item)
    (policy : item.attr.schedPolicy = schedDeadline) (positive : 0 < item.attr.schedPeriod.toNat)
    (small : item.attr.schedPeriod.toNat < 2 ^ 63) (before : Deadline last)
    (valid : ∀ num ∈ readings proc item.pid kernels, Deadline num)
    (telescoped : Telescoped item.attr.schedPeriod.toNat first last changed item.mon) :
    ∃ after node, readAll proc set place managed kernels = .ok after ∧
      after.nhead[place]? = some node ∧
      Telescoped item.attr.schedPeriod.toNat first
        ((readings proc item.pid kernels).getLastD last)
        (changed + changes last (readings proc item.pid kernels)) node.mon := by
  induction kernels generalizing managed item last changed with
  | nil => exact ⟨managed, item, rfl, found, telescoped⟩
  | cons kernel rest ih =>
      obtain ⟨next, node, call, present, attr, pid, reads⟩ :=
        get_sched_info_ok proc { managed with kernel } noTrace found policy
          positive small
      rw [read_all_cons kernel rest call]
      rw [← attr] at policy positive small telescoped reads ⊢
      rw [readings, List.filterMap_cons, ← readings, ← pid] at valid ⊢
      rw [← pid] at reads
      cases reading : (proc.schedDebug kernel node.pid).1.bind deadlineOf with
      | none =>
          rw [reading] at reads valid
          dsimp only at valid ⊢
          exact ih present policy positive small before valid (same_after_none reads telescoped)
      | some num =>
          rw [reading] at reads valid
          dsimp only at valid ⊢
          have here : Deadline num := valid num List.mem_cons_self
          have later := ih present policy positive small here
            (fun more member => valid more (List.mem_cons_of_mem num member))
            (next_reading telescoped before here reads)
          rw [changes, ← Nat.add_assoc, List.getLastD_cons]
          exact later

/-- All readings of a task. -/
theorem run_from_unread (proc : Proc κ) (set : PrgSet) (managed : Managed κ) (place : Nat)
    (item : Node) (noTrace : set.ftrace = false) (kernels : List κ)
    (found : managed.nhead[place]? = some item)
    (policy : item.attr.schedPolicy = schedDeadline) (positive : 0 < item.attr.schedPeriod.toNat)
    (small : item.attr.schedPeriod.toNat < 2 ^ 63)
    (valid : ∀ num ∈ readings proc item.pid kernels, Deadline num) (unread : Unread item.mon) :
    ∃ after node, readAll proc set place managed kernels = .ok after ∧
      after.nhead[place]? = some node ∧
      ∀ first rest, readings proc item.pid kernels = first :: rest →
        Telescoped item.attr.schedPeriod.toNat first (rest.getLastD first) (changes first rest)
          node.mon := by
  induction kernels generalizing managed item with
  | nil => exact ⟨managed, item, rfl, found, fun first rest none => by cases none⟩
  | cons kernel rest ih =>
      obtain ⟨next, node, call, present, attr, pid, reads⟩ :=
        get_sched_info_ok proc { managed with kernel } noTrace found policy
          positive small
      rw [read_all_cons kernel rest call]
      rw [← attr] at policy positive small reads ⊢
      rw [readings, List.filterMap_cons, ← readings, ← pid] at valid ⊢
      rw [← pid] at reads
      cases reading : (proc.schedDebug kernel node.pid).1.bind deadlineOf with
      | none =>
          rw [reading] at reads valid
          dsimp only at valid ⊢
          exact ih next node present policy positive small valid ⟨reads.1.trans unread.deadline,
            reads.2.dlScanfail.trans unread.dlScanfail, reads.2.dlDiff.trans unread.dlDiff⟩
      | some num =>
          rw [reading] at reads valid
          dsimp only at valid ⊢
          have here : Deadline num := valid num List.mem_cons_self
          obtain ⟨after, last, run, finish, telescoped⟩ := run_telescopes noTrace rest present policy
            positive small here (fun more member => valid more (List.mem_cons_of_mem num member))
            (first_reading unread reads)
          rw [Nat.zero_add] at telescoped
          refine ⟨after, last, run, finish, fun first others same => ?_⟩
          obtain ⟨rfl, rfl⟩ := List.cons.inj same
          exact telescoped

/-- After the readings the sum is the telescoped one as an `int64_t`, and that one
itself where an `int64_t` holds it. -/
theorem jitter_telescopes (proc : Proc κ) (set : PrgSet) (managed : Managed κ) (place : Nat)
    (item : Node) (kernels : List κ) (noTrace : set.ftrace = false)
    (found : managed.nhead[place]? = some item) (policy : item.attr.schedPolicy = schedDeadline)
    (positive : 0 < item.attr.schedPeriod.toNat) (small : item.attr.schedPeriod.toNat < 2 ^ 63)
    (unread : Unread item.mon) (valid : ∀ num ∈ readings proc item.pid kernels, Deadline num) :
    ∃ after node, readAll proc set place managed kernels = .ok after ∧
      after.nhead[place]? = some node ∧
      ∀ first rest, readings proc item.pid kernels = first :: rest →
        ((node.mon.deadline.toNat : Int) = rest.getLastD first) ∧
        let sum := (rest.getLastD first - first) -
          item.attr.schedPeriod.toNat * (changes first rest + node.mon.dlScanfail.toNat)
        node.mon.dlDiff = toInt64 (toUInt64 sum) ∧ (InWord sum → node.mon.dlDiff = sum) := by
  obtain ⟨after, node, run, finish, telescoped⟩ :=
    run_from_unread proc set managed place item noTrace kernels found policy positive small valid
      unread
  refine ⟨after, node, run, finish, fun first rest same => ?_⟩
  have left := telescoped first rest same
  refine ⟨?_, ?_, fun fits => in_word_eq left.signed fits left.dlDiff⟩
  · rw [left.deadline, deadline_to_nat (valid _ (same ▸ List.getLastD_mem_cons))]
  · exact in_word_eq left.signed (to_int64_in_word _) (left.dlDiff.trans (wrapped_modEq _).symm)

/-- A kernel whose state is the deadline it reports. -/
def deadlineProc : Proc Int where
  getCpus := fun state _ => ([], state)
  setCpus := fun state _ _ => (true, state)
  setTasks := fun state _ => (true, state)
  getaffinity := fun state _ => (∅, state)
  setaffinity := fun state _ _ => (true, state)
  setattr := fun state _ _ => (true, state)
  getRlimit := fun state _ _ => (none, state)
  setRlimit := fun state _ _ _ => (true, state)
  getattr := fun state _ => (none, state)
  schedDebug := fun state _ => (some [⟨"dl.deadline".toList, state, 0⟩], state)

def deadlineTask (period : UInt64) : Node :=
  { loc := 1, pid := 7, attr := { schedPolicy := schedDeadline, schedPeriod := period } }

def oneTask (period : UInt64) : Managed Int := ⟨[deadlineTask period], {}, {}, 0⟩

/-- Three milliseconds late, read twice, then two periods on. -/
theorem jitter_telescopes_four :
    ∃ after node, readAll deadlineProc {} 0 (oneTask 1000000) [5000000, 6003000, 6003000, 8001000] =
        .ok after ∧ after.nhead[0]? = some node ∧ (node.mon.deadline.toNat : Int) = 8001000 :=
  let ⟨after, node, run, finish, sums⟩ := jitter_telescopes deadlineProc {} (oneTask 1000000) 0
    (deadlineTask 1000000) [5000000, 6003000, 6003000, 8001000] rfl rfl rfl (by decide) (by decide)
    ⟨rfl, rfl, rfl⟩ (by decide +kernel)
  ⟨after, node, run, finish, (sums 5000000 [6003000, 6003000, 8001000] (by decide +kernel)).1⟩

/-- Five deadlines, each a whole large period early, are less than an `int64_t` holds. -/
theorem early_deadlines_overflow :
    readings deadlineProc 7 [1, 2, 3, 4, 5, 6] = [1, 2, 3, 4, 5, 6] ∧
      ∃ after node, readAll deadlineProc {} 0 (oneTask 2305843009213693952) [1, 2, 3, 4, 5, 6] =
        .ok after ∧ after.nhead[0]? = some node ∧
        node.mon.dlDiff ≠ ((6 - 1) - 2305843009213693952 *
          (changes 1 [2, 3, 4, 5, 6] + node.mon.dlScanfail.toNat) : Int) := by
  have read : readings deadlineProc 7 [1, 2, 3, 4, 5, 6] = [1, 2, 3, 4, 5, 6] := by decide +kernel
  obtain ⟨after, node, run, finish, telescoped⟩ := run_from_unread deadlineProc {}
    (oneTask 2305843009213693952) 0 (deadlineTask 2305843009213693952) rfl [1, 2, 3, 4, 5, 6] rfl
    rfl (by decide) (by decide) (by decide +kernel) ⟨rfl, rfl, rfl⟩
  have signed := (telescoped 1 [2, 3, 4, 5, 6] read).signed.1
  have five : changes 1 [2, 3, 4, 5, 6] = 5 := by decide
  refine ⟨read, after, node, run, finish, ?_⟩
  rw [five]
  omega

end Runs

end Orchestrator.JitterSum
