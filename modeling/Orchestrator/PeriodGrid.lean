import Orchestrator.RunTime
import Orchestrator.Stepping

/-!
The deadline of a task after `pickPidConsolidatePeriod`: it stays on the grid of
its period, and every missed period is taken from the sum of differences.
-/

namespace Orchestrator.PeriodGrid
open Orchdata Resmgnt Manage Moves Traversal Stepping Cmnutil

section Loops
variable (item : Node) (ts : UInt64)

theorem turns_eq : turns = word := rfl

theorem catch_up_done (met : ts.toNat ≤ item.mon.deadline.toNat) : catchUp item ts = .ok item := by
  have stops : decide (item.mon.deadline < ts) = false := by
    simpa [UInt64.lt_iff_toNat_lt] using met
  have loop := repeat_while_states Stop.hang (fun deadline : UInt64 => decide (deadline < ts))
    (fun deadline => deadline + item.attr.schedPeriod) (fun _ => item.mon.deadline) 0
    (by simp) (by simp) stops turns (by decide)
  rw [catchUp, loop]
  rfl

/-- The state of the loop over scan failures after some turns. -/
def failed (item : Node) (count : Nat) : Node :=
  { item with
    mon := { item.mon with
      deadline := after item.mon.deadline item.attr.schedPeriod count
      dlScanfail := item.mon.dlScanfail + UInt64.ofNat count } }

theorem skip_scanfail_exact (positive : 0 < item.attr.schedPeriod.toNat) (fails : Int)
    (fits : item.mon.deadline.toNat +
      turnsTo item.mon.deadline.toNat item.attr.schedPeriod.toNat ts.toNat *
        item.attr.schedPeriod.toNat < word) :
    skipScanfail item ts fails =
      .ok (failed item (turnsTo item.mon.deadline.toNat item.attr.schedPeriod.toNat ts.toNat),
        fails + turnsTo item.mon.deadline.toNat item.attr.schedPeriod.toNat ts.toNat) := by
  generalize countDef : turnsTo item.mon.deadline.toNat item.attr.schedPeriod.toNat ts.toNat = count
    at fits ⊢
  have exactly : ∀ turn ≤ count, (after item.mon.deadline item.attr.schedPeriod turn).toNat =
      item.mon.deadline.toNat + turn * item.attr.schedPeriod.toNat := by
    intro turn early
    have smaller := Nat.mul_le_mul_right item.attr.schedPeriod.toNat early
    exact after_exact (by omega)
  have many : count < turns := by
    have large := Nat.le_mul_of_pos_right count positive
    rw [turns_eq]
    omega
  have loop := repeat_while_states Stop.hang
    (fun state : UInt64 × UInt64 × Int => decide (state.1 < ts))
    (fun state => (state.1 + item.attr.schedPeriod, state.2.1 + 1, state.2.2 + 1))
    (fun turn => (after item.mon.deadline item.attr.schedPeriod turn,
      item.mon.dlScanfail + UInt64.ofNat turn, fails + turn)) count
    (fun turn _ => by simp [after_succ, add_assoc, UInt64.add_assoc])
    (fun turn early => by
      have below := below_before positive (countDef ▸ early)
      simpa [UInt64.lt_iff_toNat_lt, exactly turn (Nat.le_of_lt early)] using below)
    (by
      have reached := bound_reached item.mon.deadline.toNat ts.toNat positive
      rw [countDef] at reached
      simpa [UInt64.lt_iff_toNat_lt, exactly count (Nat.le_refl count)] using reached)
    turns many
  simp only [after_zero, show UInt64.ofNat 0 = 0 from rfl, UInt64.add_zero, Nat.cast_zero,
    add_zero] at loop
  rw [skipScanfail, loop]
  rfl

theorem skip_overrun_exact (positive : 0 < item.attr.schedPeriod.toNat)
    (longer : item.attr.schedPeriod < item.mon.rt) :
    skipOverrun item =
      .ok ({ item with
        mon := { item.mon with
          deadline := after item.mon.deadline item.attr.schedPeriod
            ((item.mon.rt.toNat - 1) / item.attr.schedPeriod.toNat)
          dlOverrun := item.mon.dlOverrun + 1 } },
        ((item.mon.rt.toNat - 1) / item.attr.schedPeriod.toNat : Nat)) := by
  rw [UInt64.lt_iff_toNat_lt] at longer
  have whole := Nat.div_mul_le_self (item.mon.rt.toNat - 1) item.attr.schedPeriod.toNat
  have part := Nat.lt_div_mul_add positive (a := item.mon.rt.toNat - 1)
  generalize (item.mon.rt.toNat - 1) / item.attr.schedPeriod.toNat = count at whole part ⊢
  -- up to the last turn the run time that is left does not wrap
  have left : ∀ turn ≤ count,
      (item.mon.rt - UInt64.ofNat turn * item.attr.schedPeriod).toNat =
        item.mon.rt.toNat - turn * item.attr.schedPeriod.toNat := by
    intro turn early
    have smaller := Nat.mul_le_mul_right item.attr.schedPeriod.toNat early
    have fits := item.mon.rt.toNat_lt
    have product : (after 0 item.attr.schedPeriod turn).toNat =
        (0 : UInt64).toNat + turn * item.attr.schedPeriod.toNat := by
      refine after_exact ?_
      rw [UInt64.toNat_zero, word]
      omega
    rw [after, UInt64.zero_add, UInt64.toNat_zero, Nat.zero_add] at product
    rw [UInt64.toNat_sub_of_le _ _ (UInt64.le_iff_toNat_le.mpr (by omega)), product]
  have many : count < turns := by
    have large := Nat.le_mul_of_pos_right count positive
    have fits := item.mon.rt.toNat_lt
    rw [turns_eq, word]
    omega
  have loop := repeat_while_states Stop.hang
    (fun state : UInt64 × UInt64 × Int => decide (item.attr.schedPeriod < state.1))
    (fun state => (state.1 - item.attr.schedPeriod, state.2.1 + item.attr.schedPeriod,
      state.2.2 + 1))
    (fun turn => (item.mon.rt - UInt64.ofNat turn * item.attr.schedPeriod,
      after item.mon.deadline item.attr.schedPeriod turn, turn)) count
    (fun turn _ => by
      simp only [after_succ, Nat.cast_add, Nat.cast_one, UInt64.ofNat_add, Prod.mk.injEq, and_true]
      grind)
    (fun turn early => by
      have next := Nat.mul_le_mul_right item.attr.schedPeriod.toNat early
      rw [Nat.succ_mul] at next
      rw [decide_eq_true_iff, UInt64.lt_iff_toNat_lt, left turn (Nat.le_of_lt early)]
      omega)
    (by
      rw [decide_eq_false_iff_not, UInt64.lt_iff_toNat_lt, left count (Nat.le_refl count)]
      omega)
    turns many
  simp only [after_zero, show UInt64.ofNat 0 = 0 from rfl, UInt64.zero_mul, UInt64.sub_zero,
    Nat.cast_zero] at loop
  rw [skipOverrun, loop]
  rfl

/-- What the loops move the deadline by. -/
theorem turns_within (start bound : Nat) {step : Nat} (positive : 0 < step) :
    (turnsTo start step bound = 0 ∧ bound ≤ start) ∨
      start + turnsTo start step bound * step < bound + step := by
  by_cases met : bound ≤ start
  · exact .inl ⟨no_turns met, met⟩
  · exact .inr (bound_not_passed positive (Nat.lt_of_not_le met))

/-- The task ran longer than a period beyond its deadline. -/
def Overran (item : Node) (ts : UInt64) : Prop :=
  item.mon.deadline < ts ∧ item.attr.schedPeriod < item.mon.rt

/-- A node with `count` periods left out, `scan` of them without a value. -/
def skipped (item : Node) (count scan : Nat) (overruns : UInt64) : Node :=
  { item with
    mon := { item.mon with
      deadline := after item.mon.deadline item.attr.schedPeriod count
      dlScanfail := item.mon.dlScanfail + UInt64.ofNat scan
      dlOverrun := overruns } }

theorem skip_periods_exact (positive : 0 < item.attr.schedPeriod.toNat)
    (small : item.attr.schedPeriod.toNat < 2 ^ 62) (soon : item.mon.deadline.toNat < 2 ^ 62)
    (short : item.mon.rt.toNat < 2 ^ 62) (now : ts.toNat < 2 ^ 62) :
    ∃ (count scan : Nat) (overruns : UInt64),
      skipPeriods ts item = .ok (skipped item count scan overruns, (count : Int)) ∧
      scan ≤ count ∧
      ts.toNat ≤ item.mon.deadline.toNat + count * item.attr.schedPeriod.toNat ∧
      item.mon.deadline.toNat + count * item.attr.schedPeriod.toNat < 2 ^ 63 ∧
      (¬ Overran item ts → scan = count ∧ (count = 0 ∨
        item.mon.deadline.toNat + count * item.attr.schedPeriod.toNat <
          ts.toNat + item.attr.schedPeriod.toNat)) := by
  rw [skipPeriods]
  by_cases overrun : item.mon.deadline < ts ∧ item.attr.schedPeriod < item.mon.rt
  · rw [if_pos overrun, skip_overrun_exact item positive overrun.2]
    have whole := Nat.div_mul_le_self (item.mon.rt.toNat - 1) item.attr.schedPeriod.toNat
    generalize (item.mon.rt.toNat - 1) / item.attr.schedPeriod.toNat = count at whole
    have moved : (after item.mon.deadline item.attr.schedPeriod count).toNat =
        item.mon.deadline.toNat + count * item.attr.schedPeriod.toNat := by
      refine after_exact ?_
      rw [word]
      omega
    have within := turns_within (item.mon.deadline.toNat + count * item.attr.schedPeriod.toNat)
      ts.toNat positive
    have reached := bound_reached
      (item.mon.deadline.toNat + count * item.attr.schedPeriod.toNat) ts.toNat positive
    have scans := skip_scanfail_exact
      { item with mon := { item.mon with
        deadline := after item.mon.deadline item.attr.schedPeriod count
        dlOverrun := item.mon.dlOverrun + 1 } } ts positive (count : Nat)
    -- both loops count: the overrun by run time, then the missed periods behind it
    simp only [moved] at scans
    generalize turnsTo (item.mon.deadline.toNat + count * item.attr.schedPeriod.toNat)
      item.attr.schedPeriod.toNat ts.toNat = scan at within reached scans
    refine ⟨count + scan, scan, item.mon.dlOverrun + 1, ?_, Nat.le_add_left scan count, ?_, ?_,
      fun inside => absurd overrun inside⟩
    · refine (scans ?_).trans ?_
      · rw [word]
        rcases within with ⟨none, -⟩ | passed
        · rw [none]
          omega
        · omega
      · simp [failed, skipped, after_after]
    · rw [Nat.add_mul]
      omega
    · rw [Nat.add_mul]
      rcases within with ⟨none, -⟩ | passed
      · rw [none]
        omega
      · omega
  · rw [if_neg overrun]
    have within := turns_within item.mon.deadline.toNat ts.toNat positive
    have reached := bound_reached item.mon.deadline.toNat ts.toNat positive
    have scans := skip_scanfail_exact item ts positive 0
    generalize turnsTo item.mon.deadline.toNat item.attr.schedPeriod.toNat ts.toNat = scan
      at within reached scans
    refine ⟨scan, scan, item.mon.dlOverrun, ?_, Nat.le_refl scan, reached, ?_,
      fun _ => ⟨rfl, within.imp And.left id⟩⟩
    · refine (scans ?_).trans ?_
      · rw [word]
        rcases within with ⟨none, -⟩ | passed
        · rw [none]
          omega
        · omega
      · simp [failed, skipped]
    · rcases within with ⟨none, -⟩ | passed
      · rw [none]
        omega
      · omega

end Loops

section Signed

/-- The period that is added, if any. -/
theorem add_period_exact {node : Node} {ts : UInt64}
    (small : node.attr.schedPeriod.toNat < 2 ^ 62) (now : ts.toNat < 2 ^ 62) (soon : node.mon.deadline.toNat < 2 ^ 63)
    (met : ts.toNat ≤ node.mon.deadline.toNat) :
    ∃ extra ≤ 1, addPeriod ts node =
        { node with mon.deadline := after node.mon.deadline node.attr.schedPeriod extra } ∧
      (extra = 0 → ts.toNat + node.attr.schedPeriod.toNat ≤ node.mon.deadline.toNat) ∧
      (extra = 1 → node.mon.deadline.toNat < ts.toNat + node.attr.schedPeriod.toNat) := by
  have near : toInt64 (toUInt64 (toInt64 node.mon.deadline - toInt64 ts)) <
      toInt64 node.attr.schedPeriod ↔
        node.mon.deadline.toNat < ts.toNat + node.attr.schedPeriod.toNat := by
    rw [to_int64_small soon, to_int64_small (by omega : ts.toNat < 2 ^ 63),
      to_int64_small (by omega : node.attr.schedPeriod.toNat < 2 ^ 63),
      to_int64_exact (by omega) (by omega)]
    omega
  rw [addPeriod]
  by_cases close : node.mon.deadline.toNat < ts.toNat + node.attr.schedPeriod.toNat
  · refine ⟨1, Nat.le_refl 1, ?_, fun none => absurd none (by decide), fun _ => close⟩
    rw [if_pos (near.mpr close), after_succ, after_zero]
  · refine ⟨0, Nat.zero_le 1, ?_, fun _ => Nat.le_of_not_lt close, fun one => absurd one (by decide)⟩
    rw [if_neg (fun below => close (near.mp below)), after_zero]

end Signed

section Demand
variable {item citem : Node}

/-- The inner loop of `pickPidCheckBuffer` where its number of turns is known. -/
theorem demand_of_turns (count : Nat) (usedtime : UInt64) (many : count < word)
    (goes : ∀ turn < count, after citem.mon.deadline (citem.attr.schedPeriod + citem.mon.cdfPeriod)
      turn < item.mon.deadline)
    (stops : ¬ after citem.mon.deadline (citem.attr.schedPeriod + citem.mon.cdfPeriod) count <
      item.mon.deadline) :
    demandOf item citem usedtime = .ok (after usedtime (budget citem) count) := by
  have loop := repeat_while_states Stop.hang
    (fun state : UInt64 × UInt64 => decide (state.1 < item.mon.deadline))
    (fun state => (state.1 + (citem.attr.schedPeriod + citem.mon.cdfPeriod),
      state.2 + budget citem))
    (fun turn => (after citem.mon.deadline (citem.attr.schedPeriod + citem.mon.cdfPeriod) turn,
      after usedtime (budget citem) turn)) count
    (fun turn _ => by simp only [after_succ])
    (fun turn early => decide_eq_true (goes turn early)) (decide_eq_false stops) turns many
  simp only [after_zero] at loop
  rw [demandOf, loop]
  rfl

/-- Known periods below a quarter of the words end the loop. -/
theorem demand_of_ends (usedtime : UInt64) (soon : item.mon.deadline.toNat + 2 ^ 62 ≤ word)
    (known : citem.attr.schedPeriod ≠ 0 ∨ citem.mon.cdfPeriod ≠ 0)
    (period : citem.attr.schedPeriod.toNat < 2 ^ 62) (cdfPeriod : citem.mon.cdfPeriod.toNat < 2 ^ 62) :
    ∃ used, demandOf item citem usedtime = .ok used := by
  have sum : (citem.attr.schedPeriod + citem.mon.cdfPeriod).toNat =
      citem.attr.schedPeriod.toNat + citem.mon.cdfPeriod.toNat := by
    refine add_exact _ _ ?_
    rw [word]
    omega
  have positive : 0 < (citem.attr.schedPeriod + citem.mon.cdfPeriod).toNat := by
    rw [sum]
    rcases known with known | known <;> have := to_nat_pos known <;> omega
  have ends : ∃ count, item.mon.deadline.toNat ≤
      (after citem.mon.deadline (citem.attr.schedPeriod + citem.mon.cdfPeriod) count).toNat := by
    obtain ⟨count, -, met⟩ := after_meets citem.mon.deadline soon positive (by omega)
    exact ⟨count, met⟩
  obtain ⟨count, many, met⟩ := after_meets citem.mon.deadline soon positive (by omega)
  refine ⟨_, demand_of_turns (Nat.find ends) usedtime ?_ (fun turn early => ?_) ?_⟩
  · exact lt_of_le_of_lt (Nat.find_min' ends met) many
  · exact UInt64.lt_iff_toNat_lt.mpr (Nat.lt_of_not_le (Nat.find_min ends early))
  · rw [UInt64.lt_iff_toNat_lt]
    exact Nat.not_lt.mpr (Nat.find_spec ends)

theorem check_buffer_ends {nhead : List Node} (ts extraRt : UInt64)
    (soon : item.mon.deadline.toNat + 2 ^ 62 ≤ word)
    (periods : ∀ citem ∈ nhead, citem.attr.schedPeriod.toNat < 2 ^ 62 ∧
      citem.mon.cdfPeriod.toNat < 2 ^ 62) :
    ∃ resched, pickPidCheckBuffer nhead item ts extraRt = .ok resched := by
  have folds : ∀ usedtime, ∃ used, nhead.foldlM (fun usedtime citem =>
      if citem.mon.assigned ≠ item.mon.assigned ∨ citem.pid < 0 then pure usedtime
      else if citem.mon.deadline ≠ 0 ∧ (citem.attr.schedPeriod ≠ 0 ∨ citem.mon.cdfPeriod ≠ 0) ∧
          citem.mon.deadline ≤ item.mon.deadline then
        demandOf item citem usedtime
      else pure usedtime) usedtime = (.ok used : Except Stop UInt64) := by
    induction nhead with
    | nil => exact fun usedtime => ⟨usedtime, rfl⟩
    | cons citem rest ih =>
        intro usedtime
        rw [List.foldlM_cons]
        have later := ih fun other member => periods other (List.mem_cons_of_mem citem member)
        have bounds := periods citem List.mem_cons_self
        split_ifs with away counted
        · exact later usedtime
        · obtain ⟨used, run⟩ := demand_of_ends usedtime soon counted.2.1 bounds.1 bounds.2
          rw [run]
          exact later used
        · exact later usedtime
  obtain ⟨used, run⟩ := folds 0
  exact ⟨_, by rw [pickPidCheckBuffer, run]; rfl⟩

end Demand

section Consolidate
variable {κ : Type} {fp : Rounding} {proc : Proc κ} {numa : Numa} {set : PrgSet}

/-- The debug buffer of the kernel changes nothing of the node that the loops over
missed periods make of `item`. -/
def Unchanged (proc : Proc κ) (set : PrgSet) (managed : Managed κ) (place : Nat) (ts : UInt64)
    (item : Node) : Prop :=
  ∀ missed fails, skipPeriods ts item = .ok (missed, fails) →
    ∃ kernel, getSchedInfo proc set (managed.put place missed) place =
      .ok { managed.put place missed with kernel := kernel }

theorem put_put (managed : Managed κ) (place : Nat) (first second : Node) :
    (managed.put place first).put place second = managed.put place second := by
  simp [Managed.put]

theorem put_get {managed : Managed κ} {place : Nat} (inside : place < managed.nhead.length)
    (node : Node) : (managed.put place node).nhead[place]? = some node := by
  simp [Managed.put, inside]

theorem put_modify (managed : Managed κ) {place : Nat} (node : Node) (change : Node → Node) :
    (managed.put place node).nhead.modify place change = managed.nhead.set place (change node) := by
  refine List.ext_getElem? fun other => ?_
  rw [List.getElem?_modify, Managed.put, List.getElem?_set, List.getElem?_set]
  split_ifs <;> simp_all

theorem reread_deadline_done {managed : Managed κ} {place : Nat} {ts : UInt64} {node : Node}
    (unchanged : ∃ kernel, getSchedInfo proc set (managed.put place node) place =
      .ok { managed.put place node with kernel := kernel })
    (inside : place < managed.nhead.length) (met : ts.toNat ≤ node.mon.deadline.toNat) (fails : Int) :
    ∃ kernel, rereadDeadline proc set (managed.put place node) place ts fails =
      .ok { managed.put place node with kernel := kernel } := by
  rw [rereadDeadline]
  split_ifs
  · exact ⟨managed.kernel, rfl⟩
  · obtain ⟨kernel, read⟩ := unchanged
    refine ⟨kernel, ?_⟩
    rw [read]
    change Managed.catchUp { managed.put place node with kernel := kernel } place ts = _
    have here : { managed.put place node with kernel := kernel }.nhead[place]? = some node :=
      put_get inside node
    rw [Managed.catchUp, here]
    dsimp only
    rw [catch_up_done node ts met]
    simp [Managed.put, Bind.bind, Except.bind, Pure.pure, Except.pure]

/-- The deadline is moved along the grid of the period. -/
theorem next_deadline_exact {managed : Managed κ} {place : Nat} {ts : UInt64} (item : Node)
    (unchanged : Unchanged proc set managed place ts item) (inside : place < managed.nhead.length)
    (positive : 0 < item.attr.schedPeriod.toNat) (small : item.attr.schedPeriod.toNat < 2 ^ 62)
    (soon : item.mon.deadline.toNat < 2 ^ 62) (short : item.mon.rt.toNat < 2 ^ 62)
    (now : ts.toNat < 2 ^ 62) :
    ∃ (count scan extra : Nat) (overruns : UInt64) (kernel : κ),
      nextDeadline proc set (managed.put place item) place ts =
        .ok ({ managed.put place { skipped item count scan overruns with
          mon.deadline := after item.mon.deadline item.attr.schedPeriod (count + extra) } with
            kernel := kernel }, (count : Int)) ∧
      scan ≤ count ∧ extra ≤ 1 ∧
      item.mon.deadline.toNat + (count + extra) * item.attr.schedPeriod.toNat < 3 * 2 ^ 62 ∧
      ts.toNat + item.attr.schedPeriod.toNat ≤
        item.mon.deadline.toNat + (count + extra) * item.attr.schedPeriod.toNat ∧
      (¬ Overran item ts → scan = count ∧ (count + extra = 0 ∨
        item.mon.deadline.toNat + (count + extra) * item.attr.schedPeriod.toNat <
          ts.toNat + 2 * item.attr.schedPeriod.toNat)) := by
  obtain ⟨count, scan, overruns, run, fewer, met, bounded, near⟩ :=
    skip_periods_exact item ts positive small soon short now
  have moved : (after item.mon.deadline item.attr.schedPeriod count).toNat =
      item.mon.deadline.toNat + count * item.attr.schedPeriod.toNat := by
    refine after_exact ?_
    rw [word]
    omega
  have missedAt : (skipped item count scan overruns).mon.deadline =
      after item.mon.deadline item.attr.schedPeriod count := rfl
  obtain ⟨kernel, read⟩ := reread_deadline_done (unchanged _ _ run) inside
    (missedAt ▸ moved.symm ▸ met : ts.toNat ≤ (skipped item count scan overruns).mon.deadline.toNat)
    (count : Int)
  -- the last step adds a period only where less than one is left from `ts`
  obtain ⟨extra, one, added, none, some⟩ := add_period_exact
    (show (skipped item count scan overruns).attr.schedPeriod.toNat < 2 ^ 62 from small) now
    (by rw [missedAt, moved]; exact bounded) (by rw [missedAt, moved]; exact met)
  have attrAt : (skipped item count scan overruns).attr = item.attr := rfl
  rw [missedAt, moved, attrAt] at none some
  have grown : addPeriod ts (skipped item count scan overruns) =
      { skipped item count scan overruns with
        mon.deadline := after item.mon.deadline item.attr.schedPeriod (count + extra) } := by
    rw [added, ← after_after]
    rfl
  refine ⟨count, scan, extra, overruns, kernel, ?_, fewer, one, ?_, ?_, fun regular => ?_⟩
  · rw [nextDeadline, put_get inside item]
    have known : item.attr.schedPeriod ≠ 0 := by
      intro zero
      rw [zero] at positive
      exact absurd positive (by decide)
    dsimp only
    rw [if_neg known, run]
    change (rereadDeadline proc set ((managed.put place item).put place _) place ts (count : Int) >>= _) = _
    rw [put_put, read]
    simp only [Bind.bind, Except.bind, Pure.pure, Except.pure, put_modify, grown]
    rfl
  · rw [Nat.add_mul]
    rcases Nat.le_one_iff_eq_zero_or_eq_one.mp one with rfl | rfl
    · omega
    · have close := some rfl
      omega
  · rw [Nat.add_mul]
    rcases Nat.le_one_iff_eq_zero_or_eq_one.mp one with rfl | rfl
    · have far := none rfl
      omega
    · omega
  · obtain ⟨same, still | close⟩ := near regular
    · refine ⟨same, ?_⟩
      rcases Nat.le_one_iff_eq_zero_or_eq_one.mp one with rfl | rfl
      · exact .inl (by omega)
      · have close := some rfl
        rw [Nat.add_mul]
        omega
    · refine ⟨same, .inr ?_⟩
      have last := Nat.mul_le_mul_right item.attr.schedPeriod.toNat one
      rw [Nat.add_mul]
      omega

variable (fp proc numa set) in
theorem check_budget_stays {managed : Managed κ} {place : Nat} (ts : UInt64) {item : Node}
    (here : managed.nhead[place]? = some item) (soon : item.mon.deadline.toNat + 2 ^ 62 ≤ word)
    (periods : ∀ citem ∈ managed.nhead, citem.attr.schedPeriod.toNat < 2 ^ 62 ∧
      citem.mon.cdfPeriod.toNat < 2 ^ 62) :
    ∃ checked node,
      checkBudget fp proc numa set managed place ts = .ok checked ∧
      checked.nhead[place]? = some node ∧ node.attr = item.attr ∧
      node.mon.deadline = item.mon.deadline ∧ node.mon.dlScanfail = item.mon.dlScanfail ∧
      node.mon.dlDiff = item.mon.dlDiff := by
  rw [checkBudget, here]
  dsimp only
  split_ifs
  · obtain ⟨resched, run⟩ := check_buffer_ends ts (item.mon.rt - item.mon.cdfRuntime) soon periods
    rw [run]
    cases resched with
    | false => exact ⟨managed, item, rfl, here, rfl, rfl, rfl, rfl⟩
    | true =>
        have inside := (List.getElem?_eq_some_iff.mp here).1
        have moves := pick_pid_realloc_cpu_stays fp proc numa set
          (managed.put place { item with mon.dlOverrun := item.mon.dlOverrun + 1 })
          item.mon.assigned item.mon.deadline
        obtain ⟨node, found, same⟩ := moves.symm.node (put_get inside _)
        exact ⟨_, node, rfl, found, (read_settled Node.attr (fun _ => rfl) same.symm).trans rfl,
          (read_settled (fun item => item.mon.deadline) (fun _ => rfl) same.symm).trans rfl,
          (read_settled (fun item => item.mon.dlScanfail) (fun _ => rfl) same.symm).trans rfl,
          (read_settled (fun item => item.mon.dlDiff) (fun _ => rfl) same.symm).trans rfl⟩
  · exact ⟨managed, item, rfl, here, rfl, rfl, rfl, rfl⟩

/-- What a consolidation does to a task with a known period: `count` periods are
missed, and the deadline is a period or more ahead. The sum of differences is an
`int64_t`. -/
structure OnGrid (item node : Node) (ts : UInt64) (count : Nat) : Prop where
  ahead : ts.toNat + item.attr.schedPeriod.toNat ≤ node.mon.deadline.toNat
  grid : ∃ extra ≤ 1, node.mon.deadline.toNat =
    item.mon.deadline.toNat + item.attr.schedPeriod.toNat * (count + extra)
  diff : node.mon.dlDiff =
    toInt64 (toUInt64 (item.mon.dlDiff - count * item.attr.schedPeriod.toNat))
  exactDiff : -2 ^ 63 ≤ item.mon.dlDiff - count * item.attr.schedPeriod.toNat →
    item.mon.dlDiff < 2 ^ 63 → node.mon.dlDiff = item.mon.dlDiff - count * item.attr.schedPeriod.toNat
  scanfail : ∃ scan ≤ count, node.mon.dlScanfail = item.mon.dlScanfail + UInt64.ofNat scan ∧
    (¬ Overran item ts → scan = count)
  near : ¬ Overran item ts → node.mon.deadline = item.mon.deadline ∨
    node.mon.deadline.toNat < ts.toNat + 2 * item.attr.schedPeriod.toNat

theorem set_dl_diff (item : Node) (diff : Int) :
    ({ item with mon.dlDiff := diff } : Node).mon.deadline = item.mon.deadline ∧
      ({ item with mon.dlDiff := diff } : Node).mon.dlScanfail = item.mon.dlScanfail ∧
      ({ item with mon.dlDiff := diff } : Node).mon.dlDiff = diff := ⟨rfl, rfl, rfl⟩

theorem book_runtime_deadline (fails : Int) (item : Node) :
    (bookRuntime fails item).mon.deadline = item.mon.deadline ∧
      (bookRuntime fails item).mon.dlScanfail = item.mon.dlScanfail ∧
      (bookRuntime fails item).mon.dlDiff =
        toInt64 (toUInt64 (item.mon.dlDiff - fails * item.attr.schedPeriod.toNat)) := by
  have same : ∀ booked : Node, booked = pickPidAddRuntimeHist item ∨ booked = item →
      booked.mon.deadline = item.mon.deadline ∧ booked.mon.dlScanfail = item.mon.dlScanfail ∧
        booked.mon.dlDiff = item.mon.dlDiff ∧ booked.attr = item.attr := by
    rintro booked (rfl | rfl)
    · exact ⟨rfl, rfl, rfl, rfl⟩
    · exact ⟨rfl, rfl, rfl, rfl⟩
  unfold bookRuntime
  generalize bookedDef : (if item.mon.rt ≠ 0 ∧ item.mon.lastTs ≠ 0 then pickPidAddRuntimeHist item
    else item) = booked
  have start := same booked (by split_ifs at bookedDef <;> simp [← bookedDef])
  obtain ⟨deadline, scanfail, diff⟩ := set_dl_diff booked
    (toInt64 (toUInt64 (booked.mon.dlDiff - fails * booked.attr.schedPeriod.toNat)))
  refine ⟨deadline.trans start.1, scanfail.trans start.2.1, diff.trans ?_⟩
  rw [start.2.2.1, start.2.2.2]

/-- The deadline is known and the period too: only the later steps do something. -/
theorem consolidate_deadline_run {managed moved checked : Managed κ} {place : Nat} {ts : UInt64}
    {item : Node} {count : Int} (here : managed.nhead[place]? = some item)
    (known : item.attr.schedPeriod ≠ 0) (deadline : item.mon.deadline ≠ 0)
    (next : nextDeadline proc set
      (managed.put place { item with mon.dlCount := item.mon.dlCount + 1 }) place ts = .ok (moved, count))
    (check : checkBudget fp proc numa set moved place ts = .ok checked) :
    consolidateDeadline fp proc numa set managed place ts =
      .ok ({ checked with
        nhead := checked.nhead.modify place fun item => { item with status.nprd := true } }, count) := by
  have inside := (List.getElem?_eq_some_iff.mp here).1
  rw [consolidateDeadline, here]
  dsimp only
  rw [knowPeriod, if_neg known]
  change (firstDeadline proc set (managed.put place _) place ts >>= _) = _
  rw [firstDeadline, put_get inside]
  dsimp only
  rw [if_neg deadline]
  change (nextDeadline proc set (managed.put place _) place ts >>= _) = _
  rw [next]
  change (checkBudget fp proc numa set moved place ts >>= _) = _
  rw [check]
  rfl

theorem consolidate_period_run {managed checked : Managed κ} {place : Nat} {ts : UInt64}
    {item node : Node} {count : Int} (here : managed.nhead[place]? = some item)
    (policy : item.attr.schedPolicy = schedDeadline)
    (consolidated : consolidateDeadline fp proc numa set managed place ts =
      .ok ({ checked with
        nhead := checked.nhead.modify place fun item => { item with status.nprd := true } }, count))
    (found : checked.nhead[place]? = some node) :
    ∃ after, pickPidConsolidatePeriod fp proc numa set managed place ts = .ok after ∧
      after.nhead[place]? = some (bookRuntime count { node with status.nprd := true }) := by
  refine ⟨{ checked with
    nhead := (checked.nhead.modify place fun item => { item with status.nprd := true }).modify
      place (bookRuntime count) }, ?_, ?_⟩
  · rw [pickPidConsolidatePeriod, here]
    dsimp only
    rw [if_pos policy, consolidated]
    rfl
  · simp [found]

/-- A node with the deadline moved by `count + extra` periods is on the grid once
the run time is booked. -/
theorem booked_on_grid {item node : Node} {ts : UInt64} {count scan extra : Nat}
    (attr : node.attr = item.attr)
    (deadline : node.mon.deadline = after item.mon.deadline item.attr.schedPeriod (count + extra))
    (scanfail : node.mon.dlScanfail = item.mon.dlScanfail + UInt64.ofNat scan)
    (dlDiff : node.mon.dlDiff = item.mon.dlDiff) (fewer : scan ≤ count) (one : extra ≤ 1)
    (bounded : item.mon.deadline.toNat + (count + extra) * item.attr.schedPeriod.toNat < 3 * 2 ^ 62)
    (ahead : ts.toNat + item.attr.schedPeriod.toNat ≤
      item.mon.deadline.toNat + (count + extra) * item.attr.schedPeriod.toNat)
    (near : ¬ Overran item ts → scan = count ∧ (count + extra = 0 ∨
      item.mon.deadline.toNat + (count + extra) * item.attr.schedPeriod.toNat <
        ts.toNat + 2 * item.attr.schedPeriod.toNat)) :
    OnGrid item (bookRuntime count { node with status.nprd := true }) ts count := by
  obtain ⟨deadlineAt, scanfailAt, diffAt⟩ := book_runtime_deadline count { node with status.nprd := true }
  have moved : (after item.mon.deadline item.attr.schedPeriod (count + extra)).toNat =
      item.mon.deadline.toNat + (count + extra) * item.attr.schedPeriod.toNat := by
    refine after_exact ?_
    rw [word]
    omega
  have reached : (bookRuntime count { node with status.nprd := true }).mon.deadline =
      after item.mon.deadline item.attr.schedPeriod (count + extra) :=
    deadlineAt.trans deadline
  have diff : (bookRuntime count { node with status.nprd := true }).mon.dlDiff =
      toInt64 (toUInt64 (item.mon.dlDiff - count * item.attr.schedPeriod.toNat)) := by
    refine diffAt.trans ?_
    rw [dlDiff, attr]
  refine ⟨?_, ⟨extra, one, ?_⟩, diff, fun low high => ?_,
    ⟨scan, fewer, scanfailAt.trans scanfail, fun regular => (near regular).1⟩, fun regular => ?_⟩
  · rw [reached, moved]
    exact ahead
  · rw [reached, moved, Nat.mul_comm]
  · have missed : 0 ≤ (count : Int) * item.attr.schedPeriod.toNat :=
      Int.mul_nonneg (Int.natCast_nonneg _) (Int.natCast_nonneg _)
    exact diff.trans (to_int64_exact low (by omega))
  · rw [reached, moved]
    rcases (near regular).2 with still | close
    · rw [still]
      exact .inl (after_zero _ _)
    · exact .inr close

theorem consolidate_period_on_grid (managed : Managed κ) (place : Nat) (ts : UInt64) (item : Node)
    (here : managed.nhead[place]? = some item) (policy : item.attr.schedPolicy = schedDeadline)
    (period : 0 < item.attr.schedPeriod) (deadline : 0 < item.mon.deadline)
    (soon : item.mon.deadline.toNat < 2 ^ 62) (short : item.mon.rt.toNat < 2 ^ 62)
    (now : ts.toNat < 2 ^ 62)
    (periods : ∀ citem ∈ managed.nhead, citem.attr.schedPeriod.toNat < 2 ^ 62 ∧
      citem.mon.cdfPeriod.toNat < 2 ^ 62)
    (unchanged : Unchanged proc set managed place ts { item with mon.dlCount := item.mon.dlCount + 1 }) :
    ∃ (after : Managed κ) (node : Node) (count : Nat),
      pickPidConsolidatePeriod fp proc numa set managed place ts = .ok after ∧
      after.nhead[place]? = some node ∧
      (consolidateDeadline fp proc numa set managed place ts).map Prod.snd = .ok (count : Int) ∧
      OnGrid item node ts count := by
  have inside := (List.getElem?_eq_some_iff.mp here).1
  have known : item.attr.schedPeriod ≠ 0 := (UInt64.ne_of_lt period).symm
  have positive : 0 < item.attr.schedPeriod.toNat := UInt64.lt_iff_toNat_lt.mp period
  have small := (periods item (List.mem_of_getElem? here)).1
  obtain ⟨count, scan, extra, overruns, kernel, run, fewer, one, bounded, ahead, near⟩ :=
    next_deadline_exact { item with mon.dlCount := item.mon.dlCount + 1 }
      unchanged inside positive small soon short now
  dsimp only at bounded ahead near
  generalize nextDef : { skipped { item with mon.dlCount := item.mon.dlCount + 1 } count scan overruns
    with mon.deadline := after item.mon.deadline item.attr.schedPeriod (count + extra) } = next at run
  have nextDeadlineAt : next.mon.deadline =
      after item.mon.deadline item.attr.schedPeriod (count + extra) := by rw [← nextDef]
  -- `pickPidCheckBuffer` sums periods up to the deadline, which has to stay in the word
  have room : next.mon.deadline.toNat + 2 ^ 62 ≤ word := by
    rw [nextDeadlineAt, after_exact (by rw [word]; omega), word]
    omega
  have bounds : ∀ citem ∈ { managed.put place next with kernel := kernel }.nhead,
      citem.attr.schedPeriod.toNat < 2 ^ 62 ∧ citem.mon.cdfPeriod.toNat < 2 ^ 62 := by
    intro citem member
    rcases List.mem_or_eq_of_mem_set member with old | new
    · exact periods citem old
    · rw [new, ← nextDef]
      exact periods item (List.mem_of_getElem? here)
  obtain ⟨checked, node, check, found, sameAttr, sameDeadline, sameScanfail, sameDiff⟩ :=
    check_budget_stays fp proc numa set ts
      (show { managed.put place next with kernel := kernel }.nhead[place]? = some next from
        put_get inside next) room bounds
  have consolidated := consolidate_deadline_run here known (UInt64.ne_of_lt deadline).symm run check
  obtain ⟨after, whole, booked⟩ := consolidate_period_run here policy consolidated found
  refine ⟨after, _, count, whole, booked, by rw [consolidated]; rfl, ?_⟩
  refine booked_on_grid (sameAttr.trans ?_) (sameDeadline.trans nextDeadlineAt)
    (sameScanfail.trans ?_) (sameDiff.trans ?_) fewer one bounded ahead near
  · rw [← nextDef]
    rfl
  · rw [← nextDef]
    rfl
  · rw [← nextDef]
    rfl

end Consolidate

/-- A task that comes back two periods after its deadline. -/
def lateTask : Node where
  loc := 1
  pid := 100
  attr := { schedPolicy := schedDeadline, schedRuntime := 300, schedPeriod := 1000 }
  mon := { deadline := 5000, rt := 200, lastTs := 7000 }

/-- A kernel whose debug file has the deadline of the period that runs. -/
def debugProc : Proc Unit :=
  { RunTime.idleProc with
    schedDebug := fun _ _ =>
      (some [{ ltag := "dl.runtime".toList, num := 300 }, { ltag := "dl.deadline".toList, num := 8000 }], ()) }

theorem late_task_on_grid :
    ∃ (after : Managed Unit) (node : Node) (count : Nat),
      pickPidConsolidatePeriod ieee debugProc ⟨4, {0, 1, 2, 3}⟩ { ftrace := true }
        ⟨[lateTask], {}, {}, ()⟩ 0 7300 = .ok after ∧
      after.nhead[0]? = some node ∧
      (consolidateDeadline ieee debugProc ⟨4, {0, 1, 2, 3}⟩ { ftrace := true }
        ⟨[lateTask], {}, {}, ()⟩ 0 7300).map Prod.snd = .ok (count : Int) ∧
      OnGrid lateTask node 7300 count := by
  refine consolidate_period_on_grid ⟨[lateTask], {}, {}, ()⟩ 0 7300 lateTask rfl rfl (by decide)
    (by decide) (by decide) (by decide) (by decide) ?_ ?_
  · intro citem member
    obtain rfl := List.mem_singleton.mp member
    decide
  · intro missed fails skips
    have run : skipPeriods 7300 { lateTask with mon.dlCount := lateTask.mon.dlCount + 1 } =
        .ok ({ lateTask with
          mon := { lateTask.mon with dlCount := 1, deadline := 8000, dlScanfail := 3 } }, 3) := by
      rfl
    cases run.symm.trans skips
    exact ⟨(), rfl⟩

end Orchestrator.PeriodGrid
