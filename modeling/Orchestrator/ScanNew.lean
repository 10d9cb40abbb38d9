import Orchestrator.ListMerge
import Orchestrator.PidResources
import Orchestrator.Qsortll
import Orchestrator.TaskFile

/-!
`scanNew` of `update.c`: the scan result is merged into the node list. The loop
walks both lists; `dummy` stands before the first node and `tail` is the last
node in its final place.
-/

namespace Orchestrator.ScanNew
open Orchdata Traversal PidLookup PidResources Qsortll ListMerge

/-- `cmpPidItem`; the difference of two PIDs does not overflow. -/
def cmpPidItem (a b : Node) : Int := b.pid - a.pid

/-- `tail->next->pid = abs(tail->next->pid) * -1`. -/
def deactivate (item : Node) : Node := { item with pid := (item.pid.natAbs : Int) * -1 }

/-- The data `scanNew` works on: node list, configuration, kernel. -/
structure World (κ : Type) where
  nhead : List Node
  conts : Containers
  kernel : κ

/-- The lists during the merge: nodes from `dummy.next` to `tail`, nodes behind
`tail`, new nodes. `nhead` points to the node after the first `skip` ones.
`calls` records each call of `setPidResources`, with the node it was given and
the node it left. -/
structure Merge (κ : Type) where
  front : List Node := []
  rest : List Node
  lnew : List Node
  skip : Nat := 0
  conts : Containers
  kernel : κ
  calls : List (Node × Node) := []

section Code
variable {κ : Type} (kernel : Kernel κ) (numa : Numa) (set : PrgSet)

/-- Links the first new node behind `tail` and sets its resources. The call
reaches the nodes from `nhead` on: up to the new ones if `nhead` is before the
new node, the old ones behind it if not. -/
def insertItem (merge : Merge κ) (item : Node) (later : List Node) : Except Stop (Merge κ) :=
  if merge.skip < merge.front.length then do
    let (look, written) ← setPidResources kernel numa set
      { conts := merge.conts, nhead := merge.front.drop merge.skip ++ later, node := item }
      merge.kernel
    let before := merge.front.length - merge.skip
    pure { merge with
      front := merge.front.take merge.skip ++ look.nhead.take before ++ [look.node]
      lnew := look.nhead.drop before
      conts := look.conts
      kernel := written
      calls := merge.calls ++ [(item, look.node)] }
  else do
    let (look, written) ← setPidResources kernel numa set
      { conts := merge.conts, nhead := merge.rest, node := item } merge.kernel
    pure { merge with
      front := merge.front ++ [look.node]
      rest := look.nhead
      lnew := later
      skip := merge.skip + 1
      conts := look.conts
      kernel := written
      calls := merge.calls ++ [(item, look.node)] }

/-- Loop body of the merge: `next` is behind `tail`, `item` the first new node. -/
def mergeStep (merge : Merge κ) (next : Node) (others : List Node) (item : Node)
    (later : List Node) : Except Stop (Merge κ) :=
  if (next.pid.natAbs : Int) < item.pid ∨ (set.trackpids ∧ next.pid * -1 = item.pid) then
    -- a deactivated node of this PID is dropped first
    if set.trackpids ∧ (next.pid.natAbs : Int) = item.pid then
      insertItem kernel numa set { merge with rest := others, skip := 0 } item later
    else insertItem kernel numa set merge item later
  else if item.pid < (next.pid.natAbs : Int) then
    if next.pid < 0 then
      .ok { merge with front := merge.front ++ [next], rest := others }
    else if set.trackpids then
      .ok { merge with
        front := merge.front ++ [{ next with pid := next.pid * -1 }]
        rest := others }
    else .ok { merge with rest := others, skip := 0 }
  else .ok { merge with front := merge.front ++ [next], rest := others, lnew := later }

/-- The loop as long as both lists have elements; each turn takes one off. -/
def mergeLoop : Nat → Merge κ → Except Stop (Merge κ)
  | 0, merge => .ok merge
  | turns + 1, merge =>
      match merge.rest, merge.lnew with
      | next :: others, item :: later => do
          let stepped ← mergeStep kernel numa set merge next others item later
          mergeLoop turns stepped
      | _, _ => .ok merge

/-- Old nodes behind the last new one are deactivated or dropped. -/
def dropRest (merge : Merge κ) : Merge κ :=
  { merge with
    front := merge.front ++
      if set.trackpids then merge.rest.map deactivate else []
    rest := []
    skip := 0 }

/-- New nodes behind the last old one. -/
def insertRest : Nat → Merge κ → Except Stop (Merge κ)
  | 0, merge => .ok merge
  | turns + 1, merge =>
      match merge.lnew with
      | [] => .ok merge
      | item :: later => do
          let inserted ← insertItem kernel numa set merge item later
          insertRest turns inserted

/-- `scanNew` on the result of `pidUpdate`, with the calls of `setPidResources`. -/
def scanNew (world : World κ) (scan : List Node) :
    Except Stop (World κ × List (Node × Node)) := do
  let lnew := qsortll cmpPidItem scan
  let merged ← mergeLoop kernel numa set (world.nhead.length + lnew.length)
    { rest := world.nhead, lnew := lnew, conts := world.conts, kernel := world.kernel }
  let dropped := dropRest set merged
  let final ← insertRest kernel numa set dropped.lnew.length dropped
  pure ({ nhead := final.front, conts := final.conts, kernel := final.kernel }, final.calls)

end Code

/-- PIDs of a node list; deactivated nodes carry negated ones. -/
structure Listed (trackpids : Bool) (pids : List Int) : Prop where
  descending : pids.Pairwise fun a b => b.natAbs < a.natAbs
  nonzero : ∀ pid ∈ pids, pid ≠ 0
  positive : trackpids = false → ∀ pid ∈ pids, 0 < pid

/-- A node as `pidUpdate` pushes it: no parameters, no image. -/
structure Fresh (item : Node) : Prop where
  pid : 0 < item.pid
  param : item.param = none
  imgid : item.imgid = none

def key (item : Node) : Nat := item.pid.natAbs

def active (item : Node) : Bool := decide (0 < item.pid)

/-- The merge of node lists. -/
abbrev NodeMerges (trackpids : Bool) := Merges key active deactivate trackpids

theorem deactivate_retires : Retires key active deactivate where
  key := by
    intro item
    simp only [key, deactivate]
    omega
  inactive := by simp [active, deactivate]

theorem map_mark {mark : Node → Node} (marks : Marks mark) (items : List Node) :
    (items.map mark).map plain = items.map plain := by
  rw [List.map_map]
  exact List.map_congr_left fun item _ => marks.plain item

theorem map_mark_fresh {mark : Node → Node} (marks : Marks mark) {items : List Node}
    (fresh : ∀ item ∈ items, Fresh item) : items.map mark = items := by
  conv_rhs => rw [← List.map_id items]
  exact List.map_congr_left fun item member => marks.fresh item (fresh item member).param

theorem map_plain_pid (items : List Node) : (items.map plain).map Node.pid = items.map Node.pid := by
  rw [List.map_map]
  rfl

/-- State of the lists before a turn. -/
structure Pending (trackpids : Bool) {κ : Type} (merge : Merge κ) : Prop where
  listed : Listed trackpids (merge.rest.map Node.pid)
  sorted : Descending key merge.lnew
  fresh : ∀ item ∈ merge.lnew, Fresh item

/-- What a part of the run adds: with a merge of what it leaves, this is a merge
of what it was given. -/
def Advances (trackpids : Bool) {κ : Type} (before after : Merge κ) : Prop :=
  ∃ calls new, after.calls = before.calls ++ calls ∧
    (∀ call ∈ calls, SameTask call.1 call.2) ∧
    after.front.map plain = before.front.map plain ++ new ∧
    ∀ more tail, NodeMerges trackpids (after.rest.map plain) after.lnew more tail →
      NodeMerges trackpids (before.rest.map plain) before.lnew
        (calls.map (Prod.map id plain) ++ more) (new ++ tail)

section Runs
variable {κ : Type} (kernel : Kernel κ) (numa : Numa) (set : PrgSet) {trackpids : Bool}

theorem advances_trans {before middle after : Merge κ} (first : Advances trackpids before middle)
    (second : Advances trackpids middle after) : Advances trackpids before after := by
  obtain ⟨calls, new, allCalls, same, front, merges⟩ := first
  obtain ⟨calls', new', allCalls', same', front', merges'⟩ := second
  refine ⟨calls ++ calls', new ++ new', ?_, ?_, ?_, fun more tail rest => ?_⟩
  · rw [allCalls', allCalls, List.append_assoc]
  · exact fun call member => (List.mem_append.mp member).elim (same call) (same' call)
  · rw [front', front, List.append_assoc]
  · rw [List.map_append, List.append_assoc, List.append_assoc]
    exact merges _ _ (merges' more tail rest)

/-- The call reaches different nodes, but leaves all of them as they are but for marks. -/
theorem insert_item_runs (merge : Merge κ) {item : Node} {later : List Node} (fresh : Fresh item)
    (laterFresh : ∀ other ∈ later, Fresh other) :
    ∃ after node, insertItem kernel numa set merge item later = .ok after ∧
      SameTask item node ∧ after.calls = merge.calls ++ [(item, node)] ∧
      after.front.map plain = merge.front.map plain ++ [plain node] ∧
      after.rest.map plain = merge.rest.map plain ∧ after.lnew = later := by
  have task : item.pid ≠ 0 := fresh.pid.ne'
  rw [insertItem]
  split_ifs with reached
  -- the list reaches the new node and what is linked behind it; new nodes have no marks
  · obtain ⟨look, written, mark, run, same, nhead, marks⟩ := set_pid_resources_runs kernel numa set
      { conts := merge.conts, nhead := merge.front.drop merge.skip ++ later, node := item }
      merge.kernel task fresh.imgid
    have length : ((merge.front.drop merge.skip).map mark).length =
        merge.front.length - merge.skip := by rw [List.length_map, List.length_drop]
    dsimp only at nhead
    rw [List.map_append, map_mark_fresh marks laterFresh] at nhead
    rw [run]
    refine ⟨_, look.node, rfl, same, rfl, ?_, rfl, ?_⟩
    · dsimp only
      rw [nhead, List.take_left' length, List.map_append, List.map_append, map_mark marks,
        ← List.map_append, List.take_append_drop]
      rfl
    · dsimp only
      rw [nhead, List.drop_left' length]
  · obtain ⟨look, written, mark, run, same, nhead, marks⟩ := set_pid_resources_runs kernel numa set
      { conts := merge.conts, nhead := merge.rest, node := item } merge.kernel task fresh.imgid
    dsimp only at nhead
    rw [run]
    refine ⟨_, look.node, rfl, same, rfl, ?_, ?_, rfl⟩
    · exact List.map_append
    · dsimp only
      rw [nhead, map_mark marks]

theorem same_task_key {item node : Node} (same : SameTask item node) :
    key (plain node) = key item := congrArg Int.natAbs same.1

theorem same_task_active {item node : Node} (fresh : Fresh item) (same : SameTask item node) :
    active (plain node) = true := by
  have positive : 0 < node.pid := same.1 ▸ fresh.pid
  exact decide_eq_true positive

/-- All nodes behind the first one have smaller PIDs. -/
theorem rest_below {next : Node} {others : List Node} {bound : Nat}
    (listed : Listed trackpids ((next :: others).map Node.pid)) (below : key next < bound) :
    ∀ other ∈ (next :: others).map plain, key other < bound := by
  intro other member
  obtain ⟨item, present, rfl⟩ := List.mem_map.mp member
  rcases List.mem_cons.mp present with rfl | behind
  · exact below
  · have smaller := (List.pairwise_cons.mp listed.descending).1 item.pid
      (List.mem_map_of_mem behind)
    exact lt_trans smaller below

theorem listed_tail {next : Node} {others : List Node}
    (listed : Listed trackpids ((next :: others).map Node.pid)) :
    Listed trackpids (others.map Node.pid) where
  descending := (List.pairwise_cons.mp listed.descending).2
  nonzero := fun pid member => listed.nonzero pid (List.mem_cons_of_mem _ member)
  positive := fun off pid member => listed.positive off pid (List.mem_cons_of_mem _ member)

theorem listed_congr {items others : List Node} (same : items.map plain = others.map plain)
    (listed : Listed trackpids (others.map Node.pid)) : Listed trackpids (items.map Node.pid) := by
  rw [← map_plain_pid items, same, map_plain_pid]
  exact listed

/-- A turn of the merge loop. -/
structure Turn (trackpids : Bool) (before after : Merge κ) : Prop where
  pending : Pending trackpids after
  advances : Advances trackpids before after
  shorter : after.rest.length + after.lnew.length < before.rest.length + before.lnew.length

/-- A turn that takes the first new node: `kept` is what stays behind `tail`. -/
theorem turn_insert (base : Merge κ) {before : Merge κ} {item : Node} {later kept : List Node}
    (pending : Pending trackpids before) (lnew : before.lnew = item :: later)
    (calls : base.calls = before.calls) (front : base.front = before.front)
    (rest : base.rest = kept) (shorter : kept.length ≤ before.rest.length)
    (listed : Listed trackpids (kept.map Node.pid))
    (adds : ∀ node more tail, SameTask item node →
      NodeMerges trackpids (kept.map plain) later more tail →
      NodeMerges trackpids (before.rest.map plain) (item :: later)
        ((item, plain node) :: more) (plain node :: tail)) :
    ∃ after, insertItem kernel numa set base item later = .ok after ∧
      Turn trackpids before after ∧ after.rest.length = kept.length ∧ after.lnew = later := by
  obtain ⟨-, sorted, fresh⟩ := pending
  rw [lnew] at sorted fresh
  have laterFresh : ∀ other ∈ later, Fresh other := fun other member => fresh other (by simp [member])
  obtain ⟨after, node, run, same, afterCalls, afterFront, afterRest, afterLnew⟩ :=
    insert_item_runs kernel numa set base (fresh item (by simp)) laterFresh
  rw [rest] at afterRest
  have length := congrArg List.length afterRest
  simp only [List.length_map] at length
  refine ⟨after, run, ⟨⟨listed_congr afterRest listed, ?_, ?_⟩, ?_, ?_⟩, length, afterLnew⟩
  · exact afterLnew ▸ descending_tail sorted
  · exact afterLnew ▸ laterFresh
  · refine ⟨[(item, node)], [plain node], calls ▸ afterCalls, List.forall_mem_singleton.mpr same,
      front ▸ afterFront, fun more tail further => ?_⟩
    rw [afterRest, afterLnew] at further
    rw [lnew]
    exact adds node more tail same further
  · rw [length, afterLnew, lnew, List.length_cons]
    omega

/-- A turn without a call: `new` goes behind `tail`. -/
theorem turn_pass {before after : Merge κ} {next : Node} {others new : List Node}
    (pending : Pending trackpids before) (rest : before.rest = next :: others)
    (calls : after.calls = before.calls) (front : after.front = before.front ++ new)
    (afterRest : after.rest = others) (afterLnew : ∃ dropped, before.lnew = dropped ++ after.lnew)
    (adds : ∀ more tail, NodeMerges trackpids (others.map plain) after.lnew more tail →
      NodeMerges trackpids ((next :: others).map plain) before.lnew more (new.map plain ++ tail)) :
    Turn trackpids before after := by
  obtain ⟨listed, sorted, fresh⟩ := pending
  obtain ⟨dropped, lnew⟩ := afterLnew
  rw [rest] at listed
  rw [lnew] at sorted fresh
  refine ⟨⟨?_, ?_, ?_⟩, ⟨[], new.map plain, ?_, by simp, ?_, fun more tail further => ?_⟩, ?_⟩
  · exact afterRest ▸ listed_tail listed
  · exact (List.pairwise_append.mp sorted).2.1
  · exact fun item member => fresh item (List.mem_append_right dropped member)
  · rw [calls, List.append_nil]
  · rw [front, List.map_append]
  · rw [rest]
    exact adds more tail (afterRest ▸ further)
  · rw [afterRest, rest, lnew, List.length_append, List.length_cons]
    omega

/-- A turn that leaves `next` in the list as `kept`, without its PID in the scan. -/
theorem turn_retire {before after : Merge κ} {next kept : Node} {others : List Node}
    (pending : Pending trackpids before) (rest : before.rest = next :: others)
    (calls : after.calls = before.calls) (front : after.front = before.front ++ [kept])
    (afterRest : after.rest = others) (lnew : after.lnew = before.lnew)
    (tracks : trackpids = true) (same : deactivate (plain next) = plain kept)
    (first : ∀ other ∈ before.lnew, key other < key (plain next)) :
    Turn trackpids before after := by
  refine turn_pass pending rest calls front afterRest ⟨[], lnew.symm⟩ fun more tail further => ?_
  rw [lnew] at further
  have retired : NodeMerges trackpids ((next :: others).map plain) before.lnew more
      (deactivate (plain next) :: tail) := .retire first tracks further
  rw [same] at retired
  exact retired

/-- The loop body, by the PIDs it compares. -/
theorem merge_step_turns {merge : Merge κ} {next item : Node} {others later : List Node}
    (pending : Pending set.trackpids merge) (rest : merge.rest = next :: others)
    (lnew : merge.lnew = item :: later) :
    ∃ after, mergeStep kernel numa set merge next others item later = .ok after ∧
      Turn set.trackpids merge after := by
  have listed := pending.listed
  have sorted := pending.sorted
  rw [rest] at listed
  rw [lnew] at sorted
  have fresh : Fresh item := pending.fresh item (by simp [lnew])
  have positive := fresh.pid
  have nonzero : next.pid ≠ 0 := listed.nonzero next.pid (by simp)
  have lower_first : item.pid < (next.pid.natAbs : Int) →
      ∀ other ∈ merge.lnew, key other < key (plain next) := by
    intro lower other member
    have first : key item < key (plain next) := by
      change item.pid.natAbs < next.pid.natAbs
      omega
    rw [lnew] at member
    rcases List.mem_cons.mp member with rfl | behind
    · exact first
    · exact lt_trans (below_head sorted behind) first
  rw [mergeStep]
  split_ifs with inserts reactivated lower negative tracks
  · -- a deactivated node is replaced
    have equal : key next = key item := by
      simp only [key]
      omega
    have retired : active next = false := by
      simp only [active, decide_eq_false_iff_not]
      omega
    obtain ⟨after, run, turn, -⟩ := turn_insert kernel numa set
      { merge with rest := others, skip := 0 } pending lnew rfl rfl rfl (by simp [rest])
      (listed_tail listed) fun node more tail same further => by
        rw [rest]
        exact .replace equal retired (same_task_key same) (same_task_active fresh same) further
    exact ⟨after, run, turn⟩
  · -- a new node
    have smaller : key next < key item := by
      have unequal : ¬(set.trackpids = true ∧ next.pid * -1 = item.pid) := by
        intro negated
        exact reactivated ⟨negated.1, by omega⟩
      have larger := inserts.resolve_right unequal
      simp only [key]
      omega
    obtain ⟨after, run, turn, -⟩ := turn_insert kernel numa set merge pending lnew rfl rfl rest
      (by simp [rest]) listed fun node more tail same further => by
        rw [rest]
        exact .insert (rest_below listed smaller) (same_task_key same)
          (same_task_active fresh same) further
    exact ⟨after, run, turn⟩
  · -- a node deactivated before stays so
    have tracks : set.trackpids = true := by
      by_contra off
      have := listed.positive (by simpa using off) next.pid (by simp)
      omega
    have pid : (next.pid.natAbs : Int) * -1 = next.pid := by omega
    exact ⟨_, rfl, turn_retire pending rest rfl rfl rfl rfl tracks
      (by simp only [deactivate, plain, pid]) (lower_first lower)⟩
  · -- a node is deactivated
    have pid : (next.pid.natAbs : Int) * -1 = next.pid * -1 := by omega
    exact ⟨_, rfl, turn_retire pending rest rfl rfl rfl rfl tracks
      (by simp only [deactivate, plain, pid]) (lower_first lower)⟩
  · -- a node is dropped
    refine ⟨_, rfl, turn_pass pending rest rfl (List.append_nil _).symm rfl ⟨[], rfl⟩
      fun more tail further => ?_⟩
    exact .drop (lower_first lower) (by simpa using tracks) further
  · -- the same task
    have alive : 0 < next.pid := by
      by_contra dead
      have tracks : set.trackpids = true := by
        by_contra off
        exact dead (listed.positive (by simpa using off) next.pid (by simp))
      exact inserts (.inr ⟨tracks, by omega⟩)
    have equal : key (plain next) = key item := by
      change next.pid.natAbs = item.pid.natAbs
      omega
    refine ⟨_, rfl, turn_pass pending rest rfl rfl rfl ⟨[item], lnew⟩ fun more tail further => ?_⟩
    rw [lnew]
    exact .keep equal (decide_eq_true alive) further

theorem advances_refl (merge : Merge κ) : Advances trackpids merge merge :=
  ⟨[], [], by simp, by simp, by simp, fun _ _ rest => rest⟩

theorem merge_loop_runs (turns : Nat) {merge : Merge κ} (pending : Pending set.trackpids merge)
    (enough : merge.rest.length + merge.lnew.length ≤ turns) :
    ∃ after, mergeLoop kernel numa set turns merge = .ok after ∧
      Pending set.trackpids after ∧ Advances set.trackpids merge after ∧
      (after.rest = [] ∨ after.lnew = []) := by
  induction turns generalizing merge with
  | zero =>
      refine ⟨merge, rfl, pending, advances_refl merge, .inl ?_⟩
      exact List.length_eq_zero_iff.mp (by omega)
  | succ turns ih =>
      cases rest : merge.rest with
      | nil => exact ⟨merge, by rw [mergeLoop, rest], pending, advances_refl merge, .inl rest⟩
      | cons next others =>
          cases lnew : merge.lnew with
          | nil => exact ⟨merge, by rw [mergeLoop, rest, lnew], pending, advances_refl merge, .inr lnew⟩
          | cons item later =>
              obtain ⟨stepped, step, turn⟩ := merge_step_turns kernel numa set pending rest lnew
              -- both lists together get shorter, so the turns suffice
              have shorter := turn.shorter
              obtain ⟨after, run, final⟩ := ih turn.pending (by omega)
              refine ⟨after, ?_, final.1, advances_trans turn.advances final.2.1, final.2.2⟩
              rw [mergeLoop, rest, lnew]
              dsimp only
              rw [step]
              exact run

/-- Old nodes without a scan. -/
theorem merges_rest (items : List Node) :
    NodeMerges trackpids (items.map plain) [] []
      ((if trackpids then items.map deactivate else []).map plain) := by
  induction items with
  | nil =>
      cases trackpids <;> exact .done
  | cons item items ih =>
      cases trackpids with
      | false => exact .drop (by simp) rfl ih
      | true => exact .retire (by simp) rfl ih

theorem drop_rest_advances {merge : Merge κ} (ended : merge.rest = [] ∨ merge.lnew = []) :
    Advances set.trackpids merge (dropRest set merge) := by
  refine ⟨[], (if set.trackpids then merge.rest.map deactivate else []).map plain, by simp [dropRest],
    by simp, by simp only [dropRest, List.map_append], fun more tail further => ?_⟩
  rcases ended with empty | empty
  · have nothing : (if set.trackpids then [].map deactivate else []) = [] := by
      split_ifs <;> rfl
    rw [empty, nothing]
    exact further
  · have ends : NodeMerges set.trackpids [] merge.lnew more tail := further
    rw [empty] at ends ⊢
    cases ends
    simp only [List.map_nil, List.append_nil]
    exact merges_rest merge.rest

theorem insert_rest_runs (turns : Nat) {merge : Merge κ} (empty : merge.rest = [])
    (pending : Pending set.trackpids merge) (enough : merge.lnew.length ≤ turns) :
    ∃ after, insertRest kernel numa set turns merge = .ok after ∧
      Advances set.trackpids merge after ∧ after.rest = [] ∧ after.lnew = [] := by
  induction turns generalizing merge with
  | zero =>
      exact ⟨merge, rfl, advances_refl merge, empty, List.length_eq_zero_iff.mp (by omega)⟩
  | succ turns ih =>
      cases lnew : merge.lnew with
      | nil => exact ⟨merge, by rw [insertRest, lnew], advances_refl merge, empty, lnew⟩
      | cons item later =>
          have fresh : Fresh item := pending.fresh item (by simp [lnew])
          obtain ⟨inserted, step, turn, rest, left⟩ := turn_insert kernel numa set merge pending lnew rfl
            rfl empty (by simp) ⟨List.Pairwise.nil, by simp, by simp⟩
            fun node more tail same further => by
              rw [empty]
              exact .insert (by simp) (same_task_key same) (same_task_active fresh same) further
          have shorter : inserted.lnew.length ≤ turns := by
            rw [lnew, List.length_cons] at enough
            rw [left]
            omega
          obtain ⟨after, run, advances, final⟩ :=
            ih (List.length_eq_zero_iff.mp rest) turn.pending shorter
          refine ⟨after, ?_, advances_trans turn.advances advances, final⟩
          rw [insertRest, lnew]
          dsimp only
          rw [step]
          exact run

/-- What `pidUpdate` returns, in any order. -/
structure Scanned (scan : List Node) : Prop where
  distinct : (scan.map Node.pid).Nodup
  fresh : ∀ item ∈ scan, Fresh item

theorem sorted_scan {scan : List Node} (scanned : Scanned scan) :
    Descending key (qsortll cmpPidItem scan) := by
  have perm := qsortll_perm cmpPidItem scan
  have ordered : (qsortll cmpPidItem scan).Pairwise fun a b => b.pid ≤ a.pid := by
    refine qsortll_pairwise cmpPidItem _ (fun a b c first second => second.trans first)
      (fun a b below => ?_) (fun a b above => ?_) scan
    · simp only [cmpPidItem] at below
      omega
    · simp only [cmpPidItem] at above
      omega
  have distinct : (qsortll cmpPidItem scan).Pairwise fun a b => a.pid ≠ b.pid :=
    List.pairwise_map.mp ((perm.map Node.pid).nodup_iff.mpr scanned.distinct)
  refine (ordered.and distinct).imp_of_mem fun {a b} first second both => ?_
  have positive := (scanned.fresh b (perm.mem_iff.mp second)).pid
  have le := both.1
  have ne := both.2
  simp only [key]
  omega

/-- The scan is a merge of the sorted result into the list. -/
theorem scan_new_runs (world : World κ) {scan : List Node}
    (listed : Listed set.trackpids (world.nhead.map Node.pid)) (scanned : Scanned scan) :
    ∃ next calls, scanNew kernel numa set world scan = .ok (next, calls) ∧
      (∀ call ∈ calls, SameTask call.1 call.2) ∧
      NodeMerges set.trackpids (world.nhead.map plain) (qsortll cmpPidItem scan)
        (calls.map (Prod.map id plain)) (next.nhead.map plain) := by
  have perm := qsortll_perm cmpPidItem scan
  have start : Pending set.trackpids (⟨[], world.nhead, qsortll cmpPidItem scan, 0, world.conts,
      world.kernel, []⟩ : Merge κ) :=
    ⟨listed, sorted_scan scanned, fun item member => scanned.fresh item (perm.mem_iff.mp member)⟩
  obtain ⟨merged, mergeRun, pending, merging, ended⟩ :=
    merge_loop_runs kernel numa set _ start le_rfl
  have dropped : Pending set.trackpids (dropRest set merged) :=
    ⟨⟨List.Pairwise.nil, by simp [dropRest], by simp [dropRest]⟩, pending.sorted, pending.fresh⟩
  obtain ⟨final, insertRun, inserting, noRest, noNew⟩ :=
    insert_rest_runs kernel numa set (dropRest set merged).lnew.length rfl dropped le_rfl
  obtain ⟨calls, new, allCalls, same, front, merges⟩ := advances_trans merging
    (advances_trans (drop_rest_advances set ended) inserting)
  -- nothing is left of either list: what was added is the whole merge
  have whole := merges [] [] (by rw [noRest, noNew]; exact .done)
  refine ⟨⟨final.front, final.conts, final.kernel⟩, calls, ?_, same, ?_⟩
  · change (mergeLoop kernel numa set _ _ >>= _) = _
    rw [mergeRun]
    change (insertRest kernel numa set _ _ >>= _) = _
    rw [insertRun]
    exact congrArg (fun made => Except.ok (_, made)) allCalls
  · rw [List.append_nil, List.append_nil] at whole
    rw [front]
    exact whole

end Runs

/-- The result of a merge, for the node lists: `scan` in any order, `calls` as
`setPidResources` was called. -/
structure Merged (trackpids : Bool) (old scan new : List Node) (calls : List (Node × Node)) :
    Prop where
  /-- The list is again in strictly descending order of PIDs. -/
  descending : (new.map Node.pid).Pairwise fun a b => b.natAbs < a.natAbs
  /-- Active are exactly the scanned PIDs. -/
  active : ∀ pid, 0 < pid → (pid ∈ new.map Node.pid ↔ pid ∈ scan.map Node.pid)
  /-- Resources are set once for each node whose PID was not active, and for no other. -/
  called : (calls.map Prod.fst).Perm (scan.filter fun item => decide (item.pid ∉ old.map Node.pid))
  /-- Those nodes are in the list as the calls left them. -/
  inserted : ∀ call ∈ calls, SameTask call.1 call.2 ∧ ∃ item ∈ new, plain item = plain call.2
  /-- An active node that is scanned again is the same node. -/
  kept : ∀ item ∈ old, item.pid ∈ scan.map Node.pid → ∃ other ∈ new, plain other = plain item
  /-- With tracking every other node is kept with a negative PID. -/
  deactivated : trackpids = true → ∀ item ∈ old, (item.pid.natAbs : Int) ∉ scan.map Node.pid →
    ∃ other ∈ new, plain other = plain (deactivate item)
  /-- Without tracking every other node is gone. -/
  gone : trackpids = false → ∀ item ∈ old, item.pid ∉ scan.map Node.pid →
    item.pid ∉ new.map Node.pid
  /-- A deactivated node that is scanned again is replaced by the new node. -/
  replaced : ∀ item ∈ old, item.pid < 0 → -item.pid ∈ scan.map Node.pid →
    item.pid ∉ new.map Node.pid ∧ ∃ call ∈ calls, call.1.pid = -item.pid
  /-- The list has no other nodes. -/
  origin : ∀ other ∈ new,
    (∃ item ∈ old, item.pid ∈ scan.map Node.pid ∧ plain other = plain item) ∨
    (trackpids = true ∧ ∃ item ∈ old, (item.pid.natAbs : Int) ∉ scan.map Node.pid ∧
      plain other = plain (deactivate item)) ∨
    ∃ call ∈ calls, plain other = plain call.2

theorem active_key_iff (items : List Node) {pid : Int} (positive : 0 < pid) :
    pid.natAbs ∈ ((items.map plain).filter active).map key ↔ pid ∈ items.map Node.pid := by
  simp only [List.mem_map, List.mem_filter]
  constructor
  · rintro ⟨_, ⟨⟨item, member, rfl⟩, alive⟩, equal⟩
    refine ⟨item, member, ?_⟩
    have itemPositive : 0 < item.pid := of_decide_eq_true alive
    change item.pid.natAbs = pid.natAbs at equal
    omega
  · rintro ⟨item, member, rfl⟩
    exact ⟨plain item, ⟨⟨item, member, rfl⟩, decide_eq_true positive⟩, rfl⟩

theorem scanned_key_iff {scan items : List Node} (scanned : Scanned scan) (perm : items.Perm scan)
    {pid : Int} (positive : 0 < pid) : pid.natAbs ∈ items.map key ↔ pid ∈ scan.map Node.pid := by
  rw [← (perm.map Node.pid).mem_iff]
  simp only [List.mem_map]
  constructor
  · rintro ⟨item, member, equal⟩
    have itemPositive := (scanned.fresh item (perm.mem_iff.mp member)).pid
    simp only [key] at equal
    exact ⟨item, member, by omega⟩
  · rintro ⟨item, member, rfl⟩
    exact ⟨item, member, rfl⟩

theorem pid_of_plain {item other : Node} (equal : plain other = plain item) :
    other.pid = item.pid := by
  have pids := congrArg Node.pid equal
  exact pids

/-- No two nodes of a list have the same PID, negated or not. -/
theorem same_pid {items : List Node} (sorted : Descending key (items.map plain))
    {first second : Node} (firstIn : first ∈ items) (secondIn : second ∈ items)
    (equal : first.pid.natAbs = second.pid.natAbs) : first.pid = second.pid := by
  have same : plain first = plain second := descending_injective sorted
    (List.mem_map_of_mem firstIn) (List.mem_map_of_mem secondIn) equal
  exact pid_of_plain same

theorem old_sorted {trackpids : Bool} {old : List Node}
    (listed : Listed trackpids (old.map Node.pid)) : Descending key (old.map plain) := by
  have pids := listed.descending
  rw [← map_plain_pid] at pids
  exact List.pairwise_map.mp pids

section Result
variable {trackpids : Bool} {old scan new : List Node} {calls : List (Node × Node)}

theorem scan_positive (scanned : Scanned scan) {pid : Int} (member : pid ∈ scan.map Node.pid) :
    0 < pid := by
  obtain ⟨item, present, rfl⟩ := List.mem_map.mp member
  exact (scanned.fresh item present).pid

theorem merged_active (scanned : Scanned scan)
    (merges : NodeMerges trackpids (old.map plain) (qsortll cmpPidItem scan)
      (calls.map (Prod.map id plain)) (new.map plain)) {pid : Int} (positive : 0 < pid) :
    pid ∈ new.map Node.pid ↔ pid ∈ scan.map Node.pid := by
  rw [← active_key_iff new positive, active_listed deactivate_retires merges]
  exact scanned_key_iff scanned (qsortll_perm cmpPidItem scan) positive

theorem merged_called (listed : Listed trackpids (old.map Node.pid)) (scanned : Scanned scan)
    (merges : NodeMerges trackpids (old.map plain) (qsortll cmpPidItem scan)
      (calls.map (Prod.map id plain)) (new.map plain)) :
    (calls.map Prod.fst).Perm
      (scan.filter fun item => decide (item.pid ∉ old.map Node.pid)) := by
  have perm := qsortll_perm cmpPidItem scan
  have heads : (calls.map (Prod.map id plain)).map Prod.fst = calls.map Prod.fst := by
    rw [List.map_map]
    rfl
  rw [← heads, called_new merges (old_sorted listed) (sorted_scan scanned), newOf]
  refine List.Perm.trans (List.Perm.of_eq (List.filter_congr fun item member => ?_))
    (perm.filter _)
  have positive := (scanned.fresh item (perm.mem_iff.mp member)).pid
  have iff := active_key_iff old positive
  simp only [key, iff]

/-- A deactivated node is gone if its PID is scanned, and the call was made for that PID. -/
theorem merged_replaced (listed : Listed trackpids (old.map Node.pid)) (scanned : Scanned scan)
    (newSorted : Descending key (new.map plain))
    (active : ∀ pid, 0 < pid → (pid ∈ new.map Node.pid ↔ pid ∈ scan.map Node.pid))
    (called : (calls.map Prod.fst).Perm
      (scan.filter fun item => decide (item.pid ∉ old.map Node.pid)))
    {item : Node} (member : item ∈ old) (negative : item.pid < 0)
    (rescanned : -item.pid ∈ scan.map Node.pid) :
    item.pid ∉ new.map Node.pid ∧ ∃ call ∈ calls, call.1.pid = -item.pid := by
  have positive := scan_positive scanned rescanned
  constructor
  · intro present
    obtain ⟨first, firstIn, firstPid⟩ := List.mem_map.mp present
    obtain ⟨second, secondIn, secondPid⟩ := List.mem_map.mp ((active _ positive).mpr rescanned)
    have equal := same_pid newSorted firstIn secondIn (by omega)
    omega
  · obtain ⟨found, foundIn, foundPid⟩ := List.mem_map.mp rescanned
    have fresh : found.pid ∉ old.map Node.pid := by
      intro present
      obtain ⟨other, otherIn, otherPid⟩ := List.mem_map.mp present
      have equal := same_pid (old_sorted listed) member otherIn (by omega)
      omega
    have inCalls : found ∈ calls.map Prod.fst :=
      called.mem_iff.mpr (List.mem_filter.mpr ⟨foundIn, decide_eq_true fresh⟩)
    obtain ⟨call, callIn, rfl⟩ := List.mem_map.mp inCalls
    exact ⟨call, callIn, foundPid⟩

theorem merged_origin (listed : Listed trackpids (old.map Node.pid))
    (newSorted : Descending key (new.map plain))
    (active : ∀ pid, 0 < pid → (pid ∈ new.map Node.pid ↔ pid ∈ scan.map Node.pid))
    (merges : NodeMerges trackpids (old.map plain) (qsortll cmpPidItem scan)
      (calls.map (Prod.map id plain)) (new.map plain)) {other : Node} (otherIn : other ∈ new) :
    (∃ item ∈ old, item.pid ∈ scan.map Node.pid ∧ plain other = plain item) ∨
    (trackpids = true ∧ ∃ item ∈ old, (item.pid.natAbs : Int) ∉ scan.map Node.pid ∧
      plain other = plain (deactivate item)) ∨
    ∃ call ∈ calls, plain other = plain call.2 := by
  have listedPlain : plain other ∈ new.map plain := List.mem_map_of_mem otherIn
  have origin := origin_of_merges merges (plain other) listedPlain
  generalize equal : plain other = result at origin
  have samePid : result.pid = other.pid := (congrArg Node.pid equal).symm
  cases origin with
  | kept member stays =>
      obtain ⟨item, itemIn, rfl⟩ := List.mem_map.mp member
      have positive : 0 < item.pid := of_decide_eq_true stays
      have present : item.pid ∈ new.map Node.pid := by
        rw [show item.pid = other.pid from samePid]
        exact List.mem_map_of_mem otherIn
      exact .inl ⟨item, itemIn, (active _ positive).mp present, rfl⟩
  | retired member =>
      obtain ⟨item, itemIn, rfl⟩ := List.mem_map.mp member
      have nonzero := listed.nonzero item.pid (List.mem_map_of_mem itemIn)
      have negated : (item.pid.natAbs : Int) * -1 = other.pid := samePid
      refine .inr (.inl ⟨?_, item, itemIn, ?_, rfl⟩)
      · by_contra off
        have alive := all_active merges (by simpa using off) (plain other) listedPlain
        have positive : 0 < other.pid := of_decide_eq_true alive
        omega
      · intro rescanned
        obtain ⟨second, secondIn, secondPid⟩ :=
          List.mem_map.mp ((active _ (by omega)).mpr rescanned)
        have samePids := same_pid newSorted otherIn secondIn (by omega)
        omega
  | called member =>
      obtain ⟨call, callIn, rfl⟩ := List.mem_map.mp member
      exact .inr (.inr ⟨call, callIn, rfl⟩)

theorem merged_of_merges (listed : Listed trackpids (old.map Node.pid)) (scanned : Scanned scan)
    (same : ∀ call ∈ calls, SameTask call.1 call.2)
    (merges : NodeMerges trackpids (old.map plain) (qsortll cmpPidItem scan)
      (calls.map (Prod.map id plain)) (new.map plain)) :
    Merged trackpids old scan new calls := by
  have perm := qsortll_perm cmpPidItem scan
  have sorted := sorted_scan scanned
  have oldSorted := old_sorted listed
  have newSorted : Descending key (new.map plain) :=
    merges_descending deactivate_retires merges oldSorted sorted
  have active : ∀ pid, 0 < pid → (pid ∈ new.map Node.pid ↔ pid ∈ scan.map Node.pid) :=
    fun pid positive => merged_active scanned merges positive
  have called := merged_called listed scanned merges
  refine ⟨?_, active, called, ?_, ?_, ?_, ?_, ?_, ?_⟩
  · rw [← map_plain_pid]
    exact List.pairwise_map.mpr newSorted
  · intro call member
    obtain ⟨item, present, equal⟩ := List.mem_map.mp
      (called_listed merges _ (List.mem_map_of_mem member))
    exact ⟨same call member, item, present, equal⟩
  · intro item member rescanned
    have positive := scan_positive scanned rescanned
    exact List.mem_map.mp (kept_listed merges oldSorted sorted (plain item)
      (List.mem_map_of_mem member) (decide_eq_true positive)
      ((scanned_key_iff scanned perm positive).mpr rescanned))
  · intro tracks item member missing
    have positive : (0 : Int) < item.pid.natAbs := by
      have := listed.nonzero item.pid (List.mem_map_of_mem member)
      omega
    refine List.mem_map.mp (retired_listed merges tracks (plain item) (List.mem_map_of_mem member) ?_)
    intro rescanned
    exact missing ((scanned_key_iff scanned perm positive).mp rescanned)
  · intro off item member missing present
    have positive := listed.positive off item.pid (List.mem_map_of_mem member)
    exact missing ((active item.pid positive).mp present)
  · intro item member negative rescanned
    exact merged_replaced listed scanned newSorted active called member negative rescanned
  · intro other otherIn
    exact merged_origin listed newSorted active merges otherIn

end Result

/-- The PIDs of a merged list are as a scan expects them. -/
theorem listed_of_merged {trackpids : Bool} {old scan new : List Node}
    {calls : List (Node × Node)} (listed : Listed trackpids (old.map Node.pid))
    (scanned : Scanned scan) (merged : Merged trackpids old scan new calls) :
    Listed trackpids (new.map Node.pid) := by
  have pids : ∀ other ∈ new, other.pid ≠ 0 ∧ (trackpids = false → 0 < other.pid) := by
    intro other otherIn
    -- kept, deactivated or new: each has a PID the next scan expects
    rcases merged.origin other otherIn with ⟨item, itemIn, -, equal⟩ |
      ⟨tracks, item, itemIn, -, equal⟩ | ⟨call, callIn, equal⟩
    · have samePid : other.pid = item.pid := pid_of_plain equal
      have present : item.pid ∈ old.map Node.pid := List.mem_map_of_mem itemIn
      exact samePid ▸ ⟨listed.nonzero _ present, fun off => listed.positive off _ present⟩
    · have samePid : other.pid = (item.pid.natAbs : Int) * -1 := pid_of_plain equal
      have nonzero := listed.nonzero item.pid (List.mem_map_of_mem itemIn)
      exact ⟨by omega, fun off => by simp [off] at tracks⟩
    · have samePid : other.pid = call.2.pid := pid_of_plain equal
      have start : call.1 ∈ scan := (List.mem_filter.mp
        (merged.called.mem_iff.mp (List.mem_map_of_mem callIn))).1
      have positive := (scanned.fresh call.1 start).pid
      have task := (merged.inserted call callIn).1.1
      exact ⟨by omega, fun _ => by omega⟩
  refine ⟨merged.descending, fun pid member => ?_, fun off pid member => ?_⟩
  · obtain ⟨other, otherIn, rfl⟩ := List.mem_map.mp member
    exact (pids other otherIn).1
  · obtain ⟨other, otherIn, rfl⟩ := List.mem_map.mp member
    exact (pids other otherIn).2 off

/-- The containers' PIDs, read from aligned task files, are what a scan expects. -/
theorem scanned_containers (cmdline : Int → Option (List Char)) (useCgroup : DetMode)
    (entries : List TaskFile.Entry) (start : ContPids.Reader)
    (sized : start.buf.length = ContPids.bufrd) (empty : start.pidlst = [])
    (small : ∀ entry ∈ entries, ∀ pid ∈ entry.2, 0 < pid ∧ pid < 10000000)
    (aligned : ∀ entry ∈ entries, TaskFile.Aligned 0 entry.2)
    (distinct : ((entries.filter fun entry => 60 < entry.1.length).flatMap Prod.snd).Nodup) :
    ∃ final, ContPids.getContPids cmdline useCgroup
        (some (entries.map fun entry => (entry.1, Cstring.lines entry.2))) start =
          .ok (useCgroup, final) ∧ Scanned final.pidlst := by
  obtain ⟨final, run, pids⟩ := TaskFile.get_cont_pids_pushes cmdline useCgroup entries start sized
    (fun entry member pid listed => (small entry member pid listed).2) aligned
  have none : start.pids = [] := by rw [ContPids.Reader.pids, empty, List.map_nil]
  rw [none, TaskFile.pushes, List.append_nil] at pids
  have pushed := ContPids.get_cont_pids_pushed (by simp [ContPids.Pushed, empty]) run
  refine ⟨final, run, ?_, fun item member => ⟨?_, (pushed item member).1, (pushed item member).2⟩⟩
  · have same : final.pidlst.map Node.pid = final.pids := rfl
    rw [same, pids, List.nodup_reverse]
    exact distinct.map fun _ _ => Int.ofNat.inj
  · have listed : item.pid ∈ final.pids := List.mem_map_of_mem member
    rw [pids, List.mem_reverse, List.mem_map] at listed
    obtain ⟨pid, present, equal⟩ := listed
    obtain ⟨entry, kept, own⟩ := List.mem_flatMap.mp present
    have positive := (small entry (List.mem_filter.mp kept).1 pid own).1
    rw [← equal]
    exact Int.ofNat_lt.mpr positive

section Sequences
variable {κ : Type} (kernel : Kernel κ) (numa : Numa) (set : PrgSet)

/-- Each scan of a sequence returns, with the result of a merge. -/
def AllMerged : World κ → List (List Node) → Prop
  | _, [] => True
  | world, scan :: scans =>
      ∃ next calls, scanNew kernel numa set world scan = .ok (next, calls) ∧
        Merged set.trackpids world.nhead scan next.nhead calls ∧ AllMerged next scans

/-- A scan merges exactly, and so does every scan of a sequence. -/
theorem scans_merge (world : World κ) (scans : List (List Node))
    (listed : Listed set.trackpids (world.nhead.map Node.pid))
    (scanned : ∀ scan ∈ scans, Scanned scan) : AllMerged kernel numa set world scans := by
  induction scans generalizing world with
  | nil => trivial
  | cons scan scans ih =>
      have first := scanned scan (by simp)
      obtain ⟨next, calls, run, same, merges⟩ := scan_new_runs kernel numa set world listed first
      have merged := merged_of_merges listed first same merges
      refine ⟨next, calls, run, merged, ih next (listed_of_merged listed first merged) ?_⟩
      exact fun later member => scanned later (by simp [member])

/-- A kernel without CGroup files on which every setting succeeds. -/
def quietKernel : Kernel Unit where
  getCpus := fun _ _ => ([], ())
  setCpus := fun _ _ _ => (true, ())
  setTasks := fun _ _ => (true, ())
  getaffinity := fun _ _ => ({0, 1}, ())
  setaffinity := fun _ _ _ => (true, ())
  setattr := fun _ _ _ => (true, ())
  getRlimit := fun _ _ _ => (none, ())
  setRlimit := fun _ _ _ _ => (true, ())

/-- PID 200 returns, PID 300 ends, PIDs 400 and 250 are new. -/
theorem scans_merge_example :
    AllMerged quietKernel ⟨64, {0, 1}⟩ { trackpids := true }
      ⟨[{ loc := 1, pid := 300 }, { loc := 2, pid := -200 }, { loc := 3, pid := 100 }], {}, ()⟩
      [[{ loc := 4, pid := 200 }, { loc := 5, pid := 400 }, { loc := 6, pid := 100 }],
        [{ loc := 7, pid := 250 }]] :=
  scans_merge quietKernel ⟨64, {0, 1}⟩ { trackpids := true } _ _
    ⟨by decide, by decide, by decide⟩ (by
      intro scan member
      simp only [List.mem_cons, List.not_mem_nil, or_false] at member
      rcases member with rfl | rfl
      · exact ⟨by decide, by
          simp only [List.mem_cons, List.not_mem_nil, or_false]
          rintro item (rfl | rfl | rfl) <;> exact ⟨by decide, rfl, rfl⟩⟩
      · exact ⟨by decide, by
          simp only [List.mem_cons, List.not_mem_nil, or_false]
          rintro item rfl
          exact ⟨by decide, rfl, rfl⟩⟩)

/-- A container `a1` without further settings. -/
def oneCont : Containers where
  cont := [1]
  contAt := fun _ => { contid := some ⟨2, "a1".toList⟩ }
  brk := 3

/-- The only PID of the container. -/
def alone (pid : Int) : Node where
  loc := pid.toNat
  pid := pid
  contid := some ⟨2, "a1".toList⟩

-- PID 400 takes the place of PID 300, and flags it as a sibling before 300 is deactivated.
theorem deactivated_node_flagged :
    ∃ next calls last more,
      scanNew quietKernel ⟨64, {0, 1}⟩ { trackpids := true } ⟨[], oneCont, ()⟩ [alone 300] =
        .ok (next, calls) ∧
      scanNew quietKernel ⟨64, {0, 1}⟩ { trackpids := true } next [alone 400] = .ok (last, more) ∧
      ∃ item ∈ next.nhead, item.pid = 300 ∧ deactivate item ∉ last.nhead := by
  have flagged : returns
      (scanNew quietKernel ⟨64, {0, 1}⟩ { trackpids := true } ⟨[], oneCont, ()⟩ [alone 300])
      (fun first => returns
        (scanNew quietKernel ⟨64, {0, 1}⟩ { trackpids := true } first.1 [alone 400])
        (fun second => first.1.nhead.any fun item =>
          decide (item.pid = 300 ∧ deactivate item ∉ second.1.nhead))) = true := by
    decide +kernel
  obtain ⟨⟨next, calls⟩, run, check⟩ := (returns_iff _ _).mp flagged
  obtain ⟨⟨last, more⟩, further, found⟩ := (returns_iff _ _).mp check
  obtain ⟨item, member, differs⟩ := List.any_eq_true.mp found
  exact ⟨next, calls, last, more, run, further, item, member, of_decide_eq_true differs⟩

end Sequences

end Orchestrator.ScanNew
