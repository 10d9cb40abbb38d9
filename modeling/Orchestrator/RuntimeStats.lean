import Orchestrator.Cmnutil
import Orchestrator.Manage

/-!
Minimum, average and maximum of the run time, as the two readers of samples
leave them. `pickPidAddRuntimeHist` starts the average at the first sample,
`get_sched_info` at zero.
-/

namespace Orchestrator.RuntimeStats
open Orchdata Cmnutil Manage

/-- The average lies between the two bounds. -/
structure Ordered (mon : NodeMon) : Prop where
  low : mon.rtMin ≤ mon.rtAvg
  high : mon.rtAvg ≤ mon.rtMax

/-- The fields as `node_push` fills them. -/
structure Unsampled (mon : NodeMon) : Prop where
  rtMin : mon.rtMin = 0xFFFFFFFFFFFFFFFF
  rtAvg : mon.rtAvg = 0
  rtMax : mon.rtMax = 0

/-- The three fields are kept. -/
structure SameStats (mon next : NodeMon) : Prop where
  rtMin : next.rtMin = mon.rtMin
  rtAvg : next.rtAvg = mon.rtAvg
  rtMax : next.rtMax = mon.rtMax

/-- Where a node is after this many samples. -/
def Sampled (samples : Nat) (mon : NodeMon) : Prop :=
  if samples = 0 then Unsampled mon else Ordered mon

theorem sampled_of_same {samples : Nat} {mon next : NodeMon} (same : SameStats mon next)
    (sampled : Sampled samples mon) : Sampled samples next := by
  unfold Sampled at sampled ⊢
  split_ifs at sampled ⊢
  · exact ⟨same.rtMin.trans sampled.rtMin, same.rtAvg.trans sampled.rtAvg,
      same.rtMax.trans sampled.rtMax⟩
  · refine ⟨?_, ?_⟩
    · rw [same.rtMin, same.rtAvg]
      exact sampled.low
    · rw [same.rtAvg, same.rtMax]
      exact sampled.high

/-- The next average does not wrap. -/
def NoWrap (mon : NodeMon) (sample : UInt64) : Prop :=
  mon.rtAvg.toNat * 9 + sample.toNat < word

instance (mon : NodeMon) (sample : UInt64) : Decidable (NoWrap mon sample) :=
  inferInstanceAs (Decidable (_ < _))

/-- What keeps the order when `get_sched_info` takes a sample: there was one before,
or the average of zero is right. -/
def Follows (mon : NodeMon) (sample : UInt64) : Prop :=
  (mon.rtMin ≤ mon.rtMax ∨ sample = 0) ∧ NoWrap mon sample

instance (mon : NodeMon) (sample : UInt64) : Decidable (Follows mon sample) :=
  inferInstanceAs (Decidable (_ ∧ _))

section Samples
variable {samples : Nat} {mon : NodeMon} {sample : UInt64}

theorem to_nat_min (a b : UInt64) : (min a b).toNat = min a.toNat b.toNat := by
  change (if a ≤ b then a else b).toNat = _
  split_ifs with below
  · rw [min_eq_left (UInt64.le_iff_toNat_le.mp below)]
  · rw [UInt64.le_iff_toNat_le] at below
    omega

theorem to_nat_max (a b : UInt64) : (max a b).toNat = max a.toNat b.toNat := by
  change (if a ≤ b then b else a).toNat = _
  split_ifs with below
  · rw [max_eq_right (UInt64.le_iff_toNat_le.mp below)]
  · rw [UInt64.le_iff_toNat_le] at below
    omega

theorem average_exact (fits : NoWrap mon sample) :
    ((mon.rtAvg * 9 + sample) / 10).toNat = (mon.rtAvg.toNat * 9 + sample.toNat) / 10 := by
  have nine : (9 : UInt64).toNat = 9 := rfl
  have ten : (10 : UInt64).toNat = 10 := rfl
  unfold NoWrap at fits
  have scaled : (mon.rtAvg * 9).toNat = mon.rtAvg.toNat * 9 := mul_exact _ _ (by rw [nine]; omega)
  rw [UInt64.toNat_div, add_exact _ _ (by rw [scaled]; exact fits), scaled, ten]

/-- A weighted mean stays between the bounds that the sample widens. -/
theorem average_ordered (ordered : Ordered mon) (fits : NoWrap mon sample) :
    min mon.rtMin sample ≤ (mon.rtAvg * 9 + sample) / 10 ∧
      (mon.rtAvg * 9 + sample) / 10 ≤ max mon.rtMax sample := by
  have low := UInt64.le_iff_toNat_le.mp ordered.low
  have high := UInt64.le_iff_toNat_le.mp ordered.high
  rw [UInt64.le_iff_toNat_le, UInt64.le_iff_toNat_le, average_exact fits, to_nat_min, to_nat_max]
  omega

/-- A sample is between the bounds it widens. -/
theorem sample_between (lower upper sample : UInt64) :
    min lower sample ≤ sample ∧ sample ≤ max upper sample := by
  rw [UInt64.le_iff_toNat_le, UInt64.le_iff_toNat_le, to_nat_min, to_nat_max]
  omega

/-- After a first sample only the sample is an average. -/
theorem first_ordered (fresh : Unsampled mon) (average sample : UInt64) :
    (min mon.rtMin sample ≤ average ∧ average ≤ max mon.rtMax sample) ↔ average = sample := by
  have upper := sample.toNat_lt
  have top : (18446744073709551615 : UInt64).toNat = 18446744073709551615 := rfl
  have zero : (0 : UInt64).toNat = 0 := rfl
  rw [fresh.rtMin, fresh.rtMax, UInt64.le_iff_toNat_le, UInt64.le_iff_toNat_le, to_nat_min,
    to_nat_max, ← UInt64.toNat_inj]
  omega

/-- An ordered node has seen a sample, and only such a node has. -/
theorem sampled_before (sampled : Sampled samples mon) : mon.rtMin ≤ mon.rtMax ↔ samples ≠ 0 := by
  unfold Sampled at sampled
  split_ifs at sampled with none
  · rw [sampled.rtMin, sampled.rtMax]
    exact ⟨fun le => absurd le (by decide), fun some => absurd none some⟩
  · exact ⟨fun _ => none, fun _ => UInt64.le_trans sampled.low sampled.high⟩

/-- A sample of `get_sched_info`. -/
theorem spread_rt_sampled {diff : Int} (sampled : Sampled samples mon)
    (follows : Follows mon (toUInt64 diff)) : Sampled (samples + 1) (spreadRt mon diff) := by
  obtain ⟨before, fits⟩ := follows
  rw [sampled_before sampled] at before
  unfold Sampled at sampled ⊢
  rw [if_neg (Nat.succ_ne_zero _)]
  split_ifs at sampled with none
  · have zero : toUInt64 diff = 0 := before.resolve_left (not_not.mpr none)
    have ordered := (first_ordered sampled ((mon.rtAvg * 9 + toUInt64 diff) / 10)
      (toUInt64 diff)).mpr (by rw [sampled.rtAvg, zero]; decide)
    exact ⟨ordered.1, ordered.2⟩
  · have ordered := average_ordered sampled fits
    exact ⟨ordered.1, ordered.2⟩

/-- A sample of `pickPidAddRuntimeHist`: an average of zero starts again at the sample. -/
theorem add_runtime_sampled {item : Node} (sampled : Sampled samples item.mon)
    (fits : NoWrap item.mon item.mon.rt) :
    Sampled (samples + 1) (pickPidAddRuntimeHist item).mon := by
  unfold Sampled at sampled ⊢
  rw [if_neg (Nat.succ_ne_zero _)]
  by_cases zero : item.mon.rtAvg = 0
  · have between := sample_between item.mon.rtMin item.mon.rtMax item.mon.rt
    refine ⟨?_, ?_⟩ <;> simp [pickPidAddRuntimeHist, spreadDl, zero, between]
  · split_ifs at sampled with none
    · exact absurd sampled.rtAvg zero
    · have ordered := average_ordered sampled fits
      refine ⟨?_, ?_⟩ <;> simp [pickPidAddRuntimeHist, spreadDl, zero, ordered]

end Samples

section Lines

/-- Execution time of a line, as `get_sched_info` puts it together. -/
def execTime (line : SchedLine) : Int := line.num * 1000000 + line.nanos

/-- The difference after the execution time of a line was looked at. -/
def diffAt (scan : SchedScan) (line : SchedLine) : Int :=
  if tagged line "se.exec_start" then toInt64 (toUInt64 (execTime line) - scan.item.mon.rt)
  else scan.diff

/-- The sample `get_sched_info` takes at a line, if it takes one. -/
def sampleAt (scan : SchedScan) (line : SchedLine) : Option UInt64 :=
  if tagged line "nr_voluntary_switches" ∧ scan.item.mon.dlCount ≠ toUInt64 line.num ∧
      scan.item.mon.dlCount ≠ 0 then some (toUInt64 (diffAt scan line))
  else none

/-- Samples of a whole file. -/
def samplesOf : SchedScan → List SchedLine → Nat
  | _, [] => 0
  | scan, line :: rest => (sampleAt scan line).toList.length + samplesOf (fifoLine scan line) rest

/-- A condition on every line and the state it is read in. -/
def AlongLines (check : SchedScan → SchedLine → Prop) : SchedScan → List SchedLine → Prop
  | _, [] => True
  | scan, line :: rest => check scan line ∧ AlongLines check (fifoLine scan line) rest

instance {check : SchedScan → SchedLine → Prop} [∀ scan line, Decidable (check scan line)] :
    ∀ scan lines, Decidable (AlongLines check scan lines)
  | _, [] => isTrue trivial
  | scan, line :: rest =>
      have : Decidable (AlongLines check (fifoLine scan line) rest) := instDecidableAlongLines _ _
      inferInstanceAs (Decidable (check scan line ∧ AlongLines check (fifoLine scan line) rest))

/-- Execution time that does not decrease, in nanoseconds that an `int64_t` holds. -/
def NonDecreasing (scan : SchedScan) (line : SchedLine) : Prop :=
  tagged line "se.exec_start" →
    (scan.item.mon.rt.toNat : Int) ≤ execTime line ∧ execTime line < 2 ^ 63

instance (scan : SchedScan) (line : SchedLine) : Decidable (NonDecreasing scan line) :=
  inferInstanceAs (Decidable (_ → _ ∧ _))

def LineFollows (scan : SchedScan) (line : SchedLine) : Prop :=
  ∀ sample ∈ sampleAt scan line, Follows scan.item.mon sample

instance (scan : SchedScan) (line : SchedLine) : Decidable (LineFollows scan line) :=
  Option.decidableForallMem (sampleAt scan line)

/-- A line moves the statistics by its sample and by nothing else. -/
theorem fifo_line_stats (scan : SchedScan) (line : SchedLine) :
    SameStats (if (sampleAt scan line).isSome then spreadRt scan.item.mon (diffAt scan line)
      else scan.item.mon) (fifoLine scan line).item.mon := by
  unfold sampleAt diffAt fifoLine execTime
  by_cases exec : tagged line "se.exec_start" = true <;>
  by_cases switches : tagged line "nr_voluntary_switches" = true <;>
  by_cases counted : scan.item.mon.dlCount ≠ toUInt64 line.num ∧ scan.item.mon.dlCount ≠ 0 <;>
  simp only [exec, switches, counted, if_true, if_false, false_and, and_false, and_self,
    not_false_eq_true, ne_eq, Bool.false_eq_true, Option.isSome_some, Option.isSome_none] <;>
  exact ⟨rfl, rfl, rfl⟩

theorem fifo_line_sampled {samples : Nat} {scan : SchedScan} {line : SchedLine}
    (sampled : Sampled samples scan.item.mon) (follows : LineFollows scan line) :
    Sampled (samples + (sampleAt scan line).toList.length) (fifoLine scan line).item.mon := by
  apply sampled_of_same (fifo_line_stats scan line)
  cases taken : sampleAt scan line with
  | none => exact sampled
  | some sample =>
      have value : sample = toUInt64 (diffAt scan line) := by
        unfold sampleAt at taken
        split_ifs at taken
        exact (Option.some.inj taken).symm
      exact spread_rt_sampled sampled (value ▸ follows sample taken)

theorem fifo_line_policy (scan : SchedScan) (line : SchedLine) :
    (fifoLine scan line).item.attr = scan.item.attr := by
  unfold fifoLine
  dsimp only
  split_ifs <;> rfl

/-- For these policies reading the file is a run over its lines. -/
theorem sched_lines_fifo (set : PrgSet) {scan : SchedScan} (lines : List SchedLine)
    (policy : scan.item.attr.schedPolicy = schedRr ∨ scan.item.attr.schedPolicy = schedFifo) :
    schedLines set scan lines = .ok (lines.foldl fifoLine scan) := by
  induction lines generalizing scan with
  | nil => rfl
  | cons line rest ih =>
      have other : scan.item.attr.schedPolicy ≠ schedDeadline := by
        rcases policy with same | same <;> rw [same] <;> decide
      rw [schedLines, if_pos policy, if_neg other, List.foldl_cons]
      exact ih (by rw [fifo_line_policy]; exact policy)

theorem lines_sampled {samples : Nat} {scan : SchedScan} {lines : List SchedLine}
    (sampled : Sampled samples scan.item.mon) (follow : AlongLines LineFollows scan lines) :
    Sampled (samples + samplesOf scan lines) (lines.foldl fifoLine scan).item.mon := by
  induction lines generalizing samples scan with
  | nil => exact sampled
  | cons line rest ih =>
      rw [List.foldl_cons, samplesOf, ← Nat.add_assoc]
      exact ih (fifo_line_sampled sampled follow.1) follow.2

end Lines

section Runs

/-- What may happen to a node: a sample of either path, or anything that keeps the
three fields. -/
inductive Call where
  | hist
  | sched (lines : List SchedLine)
  | other (next : Node)

/-- The node after a call. -/
def Call.Takes (set : PrgSet) (item : Node) : Call → Node → Prop
  | .hist, next => next = pickPidAddRuntimeHist item
  | .sched lines, next =>
      (item.attr.schedPolicy = schedRr ∨ item.attr.schedPolicy = schedFifo) ∧
      AlongLines NonDecreasing { item } lines ∧
      ∃ scan, schedLines set { item } lines = .ok scan ∧ next = scan.item
  | .other next, after => SameStats item.mon next.mon ∧ after = next

def Call.samples (item : Node) : Call → Nat
  | .hist => 1
  | .sched lines => samplesOf { item } lines
  | .other _ => 0

/-- No average wraps, and `get_sched_info` takes no first sample but zero. -/
def Call.Follows (item : Node) : Call → Prop
  | .hist => NoWrap item.mon item.mon.rt
  | .sched lines => AlongLines LineFollows { item } lines
  | .other _ => True

instance (item : Node) : ∀ call : Call, Decidable (call.Follows item)
  | .hist => inferInstanceAs (Decidable (NoWrap item.mon item.mon.rt))
  | .sched lines => inferInstanceAs (Decidable (AlongLines LineFollows { item } lines))
  | .other _ => isTrue trivial

/-- Calls that meet a condition, from `node_push` on, with the number of samples. -/
inductive Run (set : PrgSet) (condition : Node → Call → Prop) : Nat → Node → Prop where
  | push (node : Node) (fresh : node.mon = {}) : Run set condition 0 node
  | step {samples : Nat} {item next : Node} (call : Call) (before : Run set condition samples item)
      (meets : condition item call) (takes : call.Takes set item next) :
      Run set condition (samples + call.samples item) next

theorem call_sampled {set : PrgSet} {samples : Nat} {item next : Node} {call : Call}
    (sampled : Sampled samples item.mon) (follows : call.Follows item)
    (takes : call.Takes set item next) : Sampled (samples + call.samples item) next.mon := by
  cases call with
  | hist =>
      rw [show next = _ from takes]
      exact add_runtime_sampled sampled follows
  | sched lines =>
      obtain ⟨policy, -, scan, read, rfl⟩ := takes
      rw [sched_lines_fifo set lines policy] at read
      rw [← Except.ok.inj read]
      exact lines_sampled sampled follows
  | other after =>
      obtain ⟨same, rfl⟩ := takes
      exact sampled_of_same same sampled

theorem run_sampled {set : PrgSet} {samples : Nat} {item : Node}
    (run : Run set (fun item call => call.Follows item) samples item) : Sampled samples item.mon := by
  induction run with
  | push node fresh =>
      rw [Sampled, if_pos rfl, fresh]
      exact ⟨rfl, rfl, rfl⟩
  | step call _ meets takes ih => exact call_sampled ih meets takes

/-- In every such run the statistics are ordered once a sample was taken. -/
theorem stats_ordered_of_follows (set : PrgSet) (samples : Nat) (item : Node)
    (run : Run set (fun item call => call.Follows item) samples item) (some : 0 < samples) :
    item.mon.rtMin ≤ item.mon.rtAvg ∧ item.mon.rtAvg ≤ item.mon.rtMax := by
  have sampled := run_sampled run
  rw [Sampled, if_neg (Nat.pos_iff_ne_zero.mp some)] at sampled
  exact ⟨sampled.low, sampled.high⟩

/-- A new `SCHED_FIFO` task. -/
def fifoTask : Node := { loc := 1, pid := 7, attr := { schedPolicy := schedFifo } }

/-- One reading of its execution time and its voluntary switches. -/
def reading (nanos switches : Int) : List SchedLine :=
  [⟨"se.exec_start".toList, 1, nanos⟩, ⟨"nr_voluntary_switches".toList, switches, 0⟩]

/-- A task after a file was read. -/
def readFile (item : Node) (lines : List SchedLine) : Node := (lines.foldl fifoLine { item }).item

theorem fifo_takes (set : PrgSet) {item : Node} {lines : List SchedLine}
    (policy : item.attr.schedPolicy = schedFifo)
    (order : AlongLines NonDecreasing { item } lines) :
    (Call.sched lines).Takes set item (readFile item lines) :=
  ⟨Or.inr policy, order, _, sched_lines_fifo set lines (Or.inr policy), rfl⟩

/-- A first sample of fTrace, then the readings of two files. -/
theorem stats_ordered_two_samples :
    let task := readFile (readFile (pickPidAddRuntimeHist fifoTask) (reading 0 5)) (reading 10 6)
    task.mon.rtMin ≤ task.mon.rtAvg ∧ task.mon.rtAvg ≤ task.mon.rtMax :=
  stats_ordered_of_follows {} 2 _
    (.step (.sched (reading 10 6))
      (.step (.sched (reading 0 5))
        (.step .hist (.push fifoTask rfl) (by decide) rfl)
        (by decide +kernel) (fifo_takes {} rfl (by decide +kernel)))
      (by decide +kernel) (fifo_takes {} rfl (by decide +kernel)))
    (by decide)

/-- The second reading gives the first sample, ten nanoseconds: the average is one. -/
theorem first_reading_unordered :
    ∃ item, Run {} (fun _ _ => True) 1 item ∧
      item.mon.rtMin = 10 ∧ item.mon.rtAvg = 1 ∧ ¬ item.mon.rtMin ≤ item.mon.rtAvg :=
  ⟨readFile (readFile fifoTask (reading 0 5)) (reading 10 6),
    .step (.sched (reading 10 6))
      (.step (.sched (reading 0 5)) (.push fifoTask rfl) trivial
        (fifo_takes {} rfl (by decide +kernel)))
      trivial (fifo_takes {} rfl (by decide +kernel)),
    by decide +kernel, by decide +kernel, by decide +kernel⟩

end Runs

end Orchestrator.RuntimeStats
