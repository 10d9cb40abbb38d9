import Orchestrator.Chain
import Orchestrator.Orchdata
import Orchestrator.Qsortll

/-!
`qsortll` of `orchdata.c` on the `next` pointers. It re-splices the nodes in
place; the sequence of nodes it leaves is the one of `Qsortll`. Every loop and
the recursion count turns, so a run without end is a `hang`.
-/

namespace Orchestrator.QsortllHeap
open Orchdata Chain

variable {Ptr : Type}

abbrev Heap (Ptr : Type) := Ptr → Option Ptr

section Source

/-- `getTail`. -/
def getTail (next : Heap Ptr) : Nat → Option Ptr → Except Stop (Option Ptr)
  | 0, _ => .error .hang
  | _ + 1, none => .ok none
  | fuel + 1, some cur =>
      match next cur with
      | none => .ok (some cur)
      | some following => getTail next fuel (some following)

variable [DecidableEq Ptr]

/-- Local variables of `qsortll_partition`. -/
structure Partition (Ptr : Type) where
  next : Heap Ptr
  newHead : Option Ptr := none
  prev : Option Ptr := none
  cur : Option Ptr
  tail : Ptr

/-- `if (prev) prev->next = cur->next`. -/
def skip (next : Heap Ptr) (prev : Option Ptr) (cur : Ptr) : Heap Ptr :=
  match prev with
  | some prev => Function.update next prev (next cur)
  | none => next

/-- Branches of the loop of `qsortll_partition` for a node that is not the pivot. -/
def partitionStep (compar : Ptr → Ptr → Int) (pivot : Ptr) (parts : Partition Ptr) (cur : Ptr) :
    Partition Ptr :=
  if compar cur pivot < 0 then
    { parts with
      newHead := parts.newHead.or (some cur)
      prev := some cur
      cur := parts.next cur }
  else
    let cut := skip parts.next parts.prev cur
    { parts with
      next := Function.update (Function.update cut cur none) parts.tail (some cur)
      cur := cut cur
      tail := cur }

/-- Loop of `qsortll_partition`; beyond the end of the list `compar` reads `NULL`. -/
def partitionLoop (compar : Ptr → Ptr → Int) (pivot : Ptr) :
    Nat → Partition Ptr → Except Stop (Partition Ptr)
  | 0, _ => .error .hang
  | fuel + 1, parts =>
      if parts.cur = some pivot then .ok parts
      else
        match parts.cur with
        | none => .error .segv
        | some cur => partitionLoop compar pivot fuel (partitionStep compar pivot parts cur)

/-- The node before the pivot: `while (tmp->next != pivot) tmp = tmp->next`. -/
def beforePivot (next : Heap Ptr) (pivot : Ptr) : Nat → Ptr → Except Stop Ptr
  | 0, _ => .error .hang
  | fuel + 1, tmp =>
      if next tmp = some pivot then .ok tmp
      else
        match next tmp with
        | none => .error .segv
        | some following => beforePivot next pivot fuel following

/-- `qsortll_recur` for the nodes before the pivot. -/
def sortFront (recur : Heap Ptr → Option Ptr → Option Ptr → Except Stop (Heap Ptr × Option Ptr))
    (pivot : Ptr) (fuel : Nat) (next : Heap Ptr) (newHead : Ptr) :
    Except Stop (Heap Ptr × Option Ptr) :=
  if newHead ≠ pivot then do
    let tmp ← beforePivot next pivot fuel newHead
    let (next, newHead) ← recur (Function.update next tmp none) (some newHead) (some tmp)
    match ← getTail next fuel newHead with
    | none => .error .segv
    | some tmp => .ok (Function.update next tmp (some pivot), newHead)
  else .ok (next, some newHead)

/-- `qsortll_recur`: the heap it leaves and the new head. -/
def qsortllRecur (compar : Ptr → Ptr → Int) :
    Nat → Heap Ptr → Option Ptr → Option Ptr → Except Stop (Heap Ptr × Option Ptr)
  | 0, _, _, _ => .error .hang
  | _ + 1, next, none, _ => .ok (next, none)
  | fuel + 1, next, some head, stop =>
      if some head = stop then .ok (next, some head)
      else
        match stop with
        | none => .error .segv
        | some pivot => do
            let parts ← partitionLoop compar pivot fuel { next, cur := some head, tail := pivot }
            let (next, newHead) ←
              sortFront (qsortllRecur compar fuel) pivot fuel parts.next (parts.newHead.getD pivot)
            let (next, right) ← qsortllRecur compar fuel next (next pivot) (some parts.tail)
            .ok (Function.update next pivot right, newHead)

/-- `qsortll` on a list whose head may be `NULL`. -/
def qsortll (compar : Ptr → Ptr → Int) (fuel : Nat) (next : Heap Ptr) (head : Option Ptr) :
    Except Stop (Heap Ptr × Option Ptr) :=
  match head with
  | none => .ok (next, none)
  | some _ => do
      let stop ← getTail next fuel head
      qsortllRecur compar fuel next head stop

end Source

section Loops
variable {next : Heap Ptr}

theorem get_tail {nodes : List Ptr} (linked : Linked next nodes none) (some : nodes ≠ [])
    {fuel : Nat} (enough : nodes.length ≤ fuel) :
    getTail next fuel nodes.head? = .ok nodes.getLast? := by
  induction nodes generalizing fuel with
  | nil => exact absurd rfl some
  | cons node rest ih =>
      obtain ⟨turns, rfl⟩ : ∃ turns, fuel = turns + 1 := ⟨fuel - 1, by
        rw [List.length_cons] at enough
        omega⟩
      cases rest with
      | nil =>
          have last : next node = none := linked.1
          simp [getTail, last]
      | cons second more =>
          have following : next node = Option.some second := linked.1
          have later := ih linked.2 (List.cons_ne_nil second more) (Nat.le_of_succ_le_succ enough)
          simpa [getTail, following] using later

variable [DecidableEq Ptr]

theorem before_pivot {pivot last : Ptr} {front : List Ptr}
    (linked : Linked next (front ++ [last]) (some pivot)) (outside : pivot ∉ front ++ [last])
    {fuel : Nat} (enough : front.length < fuel) :
    ∃ head, (front ++ [last]).head? = some head ∧ beforePivot next pivot fuel head = .ok last := by
  induction front generalizing fuel with
  | nil =>
      obtain ⟨turns, rfl⟩ : ∃ turns, fuel = turns + 1 := ⟨fuel - 1, by omega⟩
      have following : next last = some pivot := linked.1
      exact ⟨last, rfl, by rw [beforePivot, if_pos following]⟩
  | cons node rest ih =>
      obtain ⟨turns, rfl⟩ : ∃ turns, fuel = turns + 1 := ⟨fuel - 1, by omega⟩
      obtain ⟨head, first, found⟩ := ih linked.2 (fun inside => outside (by simp_all))
        (Nat.lt_of_succ_lt_succ enough)
      have following : next node = some head := by
        have link := linked.1
        simpa [first] using link
      have apart : head ≠ pivot := by
        rintro rfl
        exact outside (List.mem_cons_of_mem _ (List.mem_of_mem_head? first))
      refine ⟨node, rfl, ?_⟩
      rw [beforePivot, following, if_neg (by simpa using apart)]
      exact found

end Loops

section Partition
variable [DecidableEq Ptr]

/-- State of the loop of `qsortll_partition`: the nodes kept in front, those not
compared yet, and those moved behind the pivot. -/
structure Parted (start : Heap Ptr) (pivot : Ptr) (left rest right : List Ptr)
    (parts : Partition Ptr) : Prop where
  linked : Linked parts.next (left ++ (rest ++ pivot :: right)) none
  newHead : parts.newHead = left.head?
  prev : parts.prev = left.getLast?
  cur : parts.cur = (rest ++ [pivot]).head?
  tail : (pivot :: right).getLast? = some parts.tail
  frame : ∀ node, node ∉ left ++ (rest ++ pivot :: right) → parts.next node = start node

variable {start : Heap Ptr} {pivot cur : Ptr} {left rest right : List Ptr} {parts : Partition Ptr}

theorem parted_keep {compar : Ptr → Ptr → Int} (below : compar cur pivot < 0)
    (parted : Parted start pivot left (cur :: rest) right parts) :
    Parted start pivot (left ++ [cur]) rest right (partitionStep compar pivot parts cur) := by
  have same : left ++ [cur] ++ (rest ++ pivot :: right) = left ++ (cur :: rest ++ pivot :: right) := by
    simp
  have following : parts.next cur = (rest ++ [pivot]).head? := by
    have links := (linked_append _ _ _).mp parted.linked
    simpa using links.2.1
  rw [partitionStep, if_pos below]
  exact {
    linked := by rw [same]; exact parted.linked
    newHead := by rw [List.head?_append, parted.newHead]; rfl
    prev := by simp
    cur := following
    tail := parted.tail
    frame := by rw [same]; exact parted.frame }

/-- A node taken out and put behind the end leaves the other links. -/
theorem linked_move {next cut : Heap Ptr} {front others : List Ptr} {last : Ptr}
    (linked : Linked next (front ++ cur :: (others ++ [last])) none)
    (bridged : Linked cut front (others ++ [last]).head?)
    (same : ∀ node, node ∉ front → cut node = next node) :
    Linked (Function.update (Function.update cut cur none) last (some cur))
      (front ++ (others ++ [last] ++ [cur])) none := by
  have once := List.nodup_append'.mp (linked_nodup linked)
  have after := List.nodup_cons.mp once.2.1
  have links := (linked_append _ _ _).mp linked
  have apart : ∀ node ∈ cur :: (others ++ [last]), node ∉ front := fun node behind before =>
    once.2.2 before behind
  have curOut : cur ∉ front := apart cur (by simp)
  have lastOut : last ∉ front := apart last (by simp)
  have lastOnce : last ∉ others := fun again =>
    List.disjoint_of_nodup_append after.2 again (by simp)
  have different : cur ≠ last := by
    rintro rfl
    exact after.1 (by simp)
  have kept : Linked (Function.update cut cur none) (others ++ [last]) none := by
    refine linked_update after.1 none (linked_congr (fun node member => same node ?_) links.2.2)
    exact apart node (List.mem_cons_of_mem _ member)
  rw [linked_append, linked_append]
  refine ⟨linked_update lastOut _ (linked_update curOut none ?_), ?_, ?_, trivial⟩
  · simpa using bridged
  · exact linked_relink lastOnce (some cur) kept
  · rw [Function.update_of_ne different, Function.update_self]
    rfl

theorem skip_linked {next : Heap Ptr} {front behind : List Ptr}
    (linked : Linked next (front ++ cur :: behind) none) :
    Linked (skip next front.getLast? cur) front behind.head? ∧
      ∀ node, node ∉ front → skip next front.getLast? cur node = next node := by
  have links := (linked_append _ _ _).mp linked
  have following : next cur = behind.head? := by simpa using links.2.1
  cases front using List.reverseRecOn with
  | nil => exact ⟨trivial, fun node _ => rfl⟩
  | append_singleton front prev =>
      have once : (front ++ [prev]).Nodup := (List.nodup_append'.mp (linked_nodup linked)).1
      have outside : prev ∉ front := fun again =>
        List.disjoint_of_nodup_append once again (by simp)
      rw [List.getLast?_concat, skip, following]
      refine ⟨linked_relink outside _ links.1, fun node away => Function.update_of_ne ?_ _ _⟩
      rintro rfl
      exact away (by simp)

theorem parted_move {compar : Ptr → Ptr → Int} (above : ¬ compar cur pivot < 0)
    (parted : Parted start pivot left (cur :: rest) right parts) :
    Parted start pivot left rest (right ++ [cur]) (partitionStep compar pivot parts cur) := by
  obtain ⟨others, ends⟩ := List.getLast?_eq_some_iff.mp parted.tail
  have linked : Linked parts.next (left ++ cur :: (rest ++ others ++ [parts.tail])) none := by
    have whole := parted.linked
    rwa [ends, List.cons_append, ← List.append_assoc rest] at whole
  obtain ⟨bridged, same⟩ := skip_linked linked
  have once := List.nodup_append'.mp (linked_nodup linked)
  have outside : cur ∉ left := fun before => once.2.2 before (by simp)
  have moved : left ++ (rest ++ others ++ [parts.tail] ++ [cur]) =
      left ++ (rest ++ pivot :: (right ++ [cur])) := by
    rw [← List.cons_append, ends]
    simp
  have following : parts.next cur = (rest ++ [pivot]).head? := by
    have links := (linked_append _ _ _).mp parted.linked
    simpa using links.2.1
  rw [partitionStep, if_neg above]
  exact {
    linked := by
      rw [parted.prev, ← moved]
      exact linked_move linked bridged same
    newHead := parted.newHead
    prev := parted.prev
    cur := by
      rw [parted.prev]
      exact (same cur outside).trans following
    tail := by rw [← List.cons_append, List.getLast?_concat]
    frame := by
      intro node away
      have notCur : node ≠ cur := by
        rintro rfl
        exact away (by simp)
      have notTail : node ≠ parts.tail := by
        rintro rfl
        exact away (by rw [← moved]; simp)
      have before : node ∉ left := fun member => away (by simp [member])
      rw [parted.prev]
      dsimp only
      rw [Function.update_of_ne notTail, Function.update_of_ne notCur, same node before]
      exact parted.frame node (fun member => away (by simp at member ⊢; tauto)) }

/-- The loop of `qsortll_partition` splits the nodes like the partition of the
sequence. -/
theorem partition_loop (compar : Ptr → Ptr → Int)
    (parted : Parted start pivot left rest right parts) {fuel : Nat} (enough : rest.length < fuel) :
    ∃ done, partitionLoop compar pivot fuel parts = .ok done ∧
      Parted start pivot (left ++ (Qsortll.qsortllPartition compar pivot rest).1) []
        (right ++ (Qsortll.qsortllPartition compar pivot rest).2) done := by
  induction rest generalizing left right parts fuel with
  | nil =>
      obtain ⟨turns, rfl⟩ : ∃ turns, fuel = turns + 1 := ⟨fuel - 1, by omega⟩
      refine ⟨parts, ?_, by simpa [Qsortll.qsortllPartition] using parted⟩
      have here : parts.cur = some pivot := parted.cur
      rw [partitionLoop, if_pos here]
  | cons cur rest ih =>
      obtain ⟨turns, rfl⟩ : ∃ turns, fuel = turns + 1 := ⟨fuel - 1, by omega⟩
      have shorter : rest.length < turns := Nat.lt_of_succ_lt_succ enough
      have apart : cur ≠ pivot := by
        rintro rfl
        have once := (List.nodup_append'.mp (linked_nodup parted.linked)).2.1
        simp at once
      have here : parts.cur = some cur := parted.cur
      rw [partitionLoop, here, if_neg (by simpa using apart)]
      by_cases below : compar cur pivot < 0
      · obtain ⟨done, run, split⟩ := ih (parted_keep below parted) shorter
        refine ⟨done, run, ?_⟩
        simpa [Qsortll.qsortllPartition, below] using split
      · obtain ⟨done, run, split⟩ := ih (parted_move below parted) shorter
        refine ⟨done, run, ?_⟩
        simpa [Qsortll.qsortllPartition, below] using split

end Partition

section Recursion
variable [DecidableEq Ptr] {compar : Ptr → Ptr → Int}

/-- The run returns this list, and touches no other node. -/
def Leaves (next : Heap Ptr) (nodes sorted : List Ptr)
    (run : Except Stop (Heap Ptr × Option Ptr)) : Prop :=
  ∃ heap, run = .ok (heap, sorted.head?) ∧ Linked heap sorted none ∧
    ∀ node, node ∉ nodes → heap node = next node

-- The nodes before the pivot are cut off as a list of their own, and joined again.
theorem sort_front {recur : Heap Ptr → Option Ptr → Option Ptr → Except Stop (Heap Ptr × Option Ptr)}
    {next : Heap Ptr} {pivot : Ptr} {left right sorted : List Ptr}
    (linked : Linked next (left ++ pivot :: right) none)
    (sub : ∀ heap last, Linked heap left none → left.getLast? = some last →
      Leaves heap left sorted (recur heap left.head? (some last)))
    (perm : sorted.Perm left) {fuel : Nat} (enough : left.length ≤ fuel) :
    ∃ heap, sortFront recur pivot fuel next (left.head?.getD pivot) =
        .ok (heap, (sorted ++ [pivot]).head?) ∧
      Linked heap (sorted ++ pivot :: right) none ∧
      ∀ node, node ∉ left → heap node = next node := by
  have once := List.nodup_append'.mp (linked_nodup linked)
  have apart : ∀ node ∈ left, node ∉ pivot :: right := fun node before behind =>
    once.2.2 before behind
  have links := (linked_append _ _ _).mp linked
  cases left using List.reverseRecOn with
  | nil =>
      obtain rfl := perm.eq_nil
      exact ⟨next, by simp [sortFront], linked, fun _ _ => rfl⟩
  | append_singleton front last =>
      have outside : pivot ∉ front ++ [last] := fun before => apart pivot before (by simp)
      have lastOnce : last ∉ front := fun again =>
        List.disjoint_of_nodup_append once.1 again (by simp)
      obtain ⟨head, first, found⟩ := before_pivot links.1 outside
        (by rw [List.length_append] at enough; exact enough)
      have headIn : head ∈ front ++ [last] := List.mem_of_mem_head? first
      have headApart : head ≠ pivot := by
        rintro rfl
        exact outside headIn
      obtain ⟨heap, run, sub, frame⟩ := sub (Function.update next last none) last
        (linked_relink lastOnce none links.1) (by simp)
      have some : sorted ≠ [] := by
        rintro rfl
        exact absurd perm.symm.eq_nil (by simp)
      obtain ⟨start, stop, rfl⟩ : ∃ start stop, sorted = start ++ [stop] :=
        ⟨_, _, (List.dropLast_append_getLast some).symm⟩
      have stopIn : stop ∈ front ++ [last] := perm.mem_iff.mp (by simp)
      have stopOnce : stop ∉ start := fun again =>
        List.disjoint_of_nodup_append (perm.nodup_iff.mpr once.1) again (by simp)
      have tail := get_tail sub some (perm.length_eq.trans_le enough)
      have kept : ∀ node, node ∉ front ++ [last] → heap node = next node := by
        intro node away
        have other : node ≠ last := by
          rintro rfl
          exact away (by simp)
        rw [frame node away, Function.update_of_ne other]
      refine ⟨Function.update heap stop (Option.some pivot), ?_, ?_, fun node away => ?_⟩
      · rw [first] at run
        rw [sortFront, first, Option.getD_some, if_pos headApart, found]
        change (recur _ _ _ >>= _) = _
        rw [run]
        change (getTail heap fuel (start ++ [stop]).head? >>= _) = _
        rw [tail, List.getLast?_concat]
        simp [Bind.bind, Except.bind]
      · have behind : Linked heap (pivot :: right) none :=
          linked_congr (fun node member => kept node fun before => apart node before member) links.2
        rw [linked_append]
        exact ⟨linked_relink stopOnce _ sub, linked_update (apart stop stopIn) _ behind⟩
      · have other : node ≠ stop := by
          rintro rfl
          exact away stopIn
        rw [Function.update_of_ne other, kept node away]

theorem recur_parts {fuel : Nat} {next : Heap Ptr} {head pivot : Ptr} {rest : List Ptr}
    (linked : Linked next (head :: rest ++ [pivot]) none) (enough : (head :: rest).length ≤ fuel)
    (sub : ∀ next nodes stop, Linked next nodes none →
      (∀ last, nodes.getLast? = some last → stop = some last) → nodes.length ≤ fuel →
      Leaves next nodes (Qsortll.qsortllRecur compar fuel nodes)
        (qsortllRecur compar (fuel + 1) next nodes.head? stop)) :
    Leaves next (head :: rest ++ [pivot])
      (Qsortll.qsortllRecur compar fuel (Qsortll.qsortllPartition compar pivot (head :: rest)).1 ++
        pivot ::
          Qsortll.qsortllRecur compar fuel (Qsortll.qsortllPartition compar pivot (head :: rest)).2)
      (qsortllRecur compar (fuel + 2) next (some head) (some pivot)) := by
  have first : Parted next pivot [] (head :: rest) []
      { next, cur := some head, tail := pivot } :=
    { linked := linked, newHead := rfl, prev := rfl, cur := rfl, tail := rfl, frame := fun _ _ => rfl }
  obtain ⟨parts, loop, split⟩ := partition_loop compar first (Nat.lt_succ_of_le enough)
  have lengths := Qsortll.partition_lengths compar pivot (head :: rest)
  have same := Qsortll.partition_perm compar pivot (head :: rest)
  generalize (Qsortll.qsortllPartition compar pivot (head :: rest)).1 = left at *
  generalize (Qsortll.qsortllPartition compar pivot (head :: rest)).2 = right at *
  simp only [List.nil_append] at split
  have leftPerm := Qsortll.recur_perm compar fuel left
  have rightPerm := Qsortll.recur_perm compar fuel right
  have apart : head ≠ pivot := by
    rintro rfl
    have once := linked_nodup linked
    simp at once
  obtain ⟨front, frontRun, frontLinked, frontFrame⟩ := sort_front split.linked
    (fun heap last part ends => sub heap left _ part (fun _ found => by rw [← found, ends]) (by omega))
    leftPerm (Nat.le_succ_of_le (by omega : left.length ≤ fuel))
  have links := (linked_append _ _ _).mp frontLinked
  have onceOf := List.nodup_append'.mp (linked_nodup frontLinked)
  have rightOnce := List.nodup_cons.mp onceOf.2.1
  obtain ⟨heap, rightRun, rightLinked, rightFrame⟩ := sub front right (some parts.tail)
    links.2.2 (fun last found => by rw [← split.tail, List.getLast?_cons, found]; rfl) (by omega)
  have frontEnds : (Qsortll.qsortllRecur compar fuel left ++ [pivot]).head? =
      (Qsortll.qsortllRecur compar fuel left ++
        pivot :: Qsortll.qsortllRecur compar fuel right).head? := by
    simp [List.head?_append]
  have members : ∀ node, node ∈ head :: rest ++ [pivot] ↔ node ∈ left ∨ node = pivot ∨ node ∈ right := by
    intro node
    rw [List.mem_append, ← same.mem_iff, List.mem_append]
    simp only [List.mem_singleton]
    tauto
  have following : front pivot = right.head? := by simpa using links.2.1
  refine ⟨Function.update heap pivot (Qsortll.qsortllRecur compar fuel right).head?, ?_, ?_, ?_⟩
  · rw [qsortllRecur, if_neg (by simpa using apart)]
    simp only [loop, split.newHead, frontRun, following, rightRun, frontEnds, bind, Except.bind]
  · have onceFront : ∀ node ∈ Qsortll.qsortllRecur compar fuel left, node ≠ pivot ∧ node ∉ right :=
      fun node member => by simpa using onceOf.2.2 member
    have kept : Linked heap (Qsortll.qsortllRecur compar fuel left) (some pivot) :=
      linked_congr (fun node member => rightFrame node (onceFront node member).2) links.1
    rw [linked_append]
    refine ⟨linked_update (fun before => (onceFront pivot before).1 rfl) _ kept, ?_, ?_⟩
    · simp
    · exact linked_update (fun behind => rightOnce.1 (rightPerm.mem_iff.mp behind)) _ rightLinked
  · intro node away
    rw [members] at away
    push Not at away
    rw [Function.update_of_ne away.2.1, rightFrame node away.2.2, frontFrame node away.1]
    refine split.frame node ?_
    simp [away]

theorem recur_leaves (compar : Ptr → Ptr → Int) (fuel : Nat) {next : Heap Ptr} {nodes : List Ptr}
    (linked : Linked next nodes none) {stop : Option Ptr}
    (ends : ∀ last, nodes.getLast? = some last → stop = some last) (enough : nodes.length ≤ fuel) :
    Leaves next nodes (Qsortll.qsortllRecur compar fuel nodes)
      (qsortllRecur compar (fuel + 1) next nodes.head? stop) := by
  induction fuel generalizing next nodes stop with
  | zero =>
      obtain rfl := List.length_eq_zero_iff.mp (Nat.le_zero.mp enough)
      exact ⟨next, rfl, trivial, fun _ _ => rfl⟩
  | succ fuel ih =>
      cases nodes using List.reverseRecOn with
      | nil => exact ⟨next, rfl, trivial, fun _ _ => rfl⟩
      | append_singleton init pivot =>
          obtain rfl := ends pivot (by simp)
          rw [Qsortll.recur_append]
          cases init with
          | nil =>
              refine ⟨next, ?_, ?_, fun _ _ => rfl⟩
              · simp [qsortllRecur, Qsortll.qsortllPartition, Qsortll.recur_nil]
              · simpa [Qsortll.qsortllPartition, Qsortll.recur_nil] using linked
          | cons head rest =>
              exact recur_parts linked (by simpa using enough) fun _ _ _ linked ends enough =>
                ih linked ends enough

end Recursion

section Result
variable [DecidableEq Ptr]

/-- The pointers are spliced into the sequence `Qsortll` sorts the nodes to. -/
theorem qsortll_leaves (compar : Ptr → Ptr → Int) {next : Heap Ptr} {nodes : List Ptr}
    (linked : Linked next nodes none) {fuel : Nat} (enough : nodes.length < fuel) :
    Leaves next nodes (Qsortll.qsortll compar nodes)
      (qsortll compar fuel next nodes.head?) := by
  cases nodes with
  | nil =>
      refine ⟨next, ?_, ?_, fun _ _ => rfl⟩
      · rw [Qsortll.qsortll, Qsortll.recur_nil]
        rfl
      · rw [Qsortll.qsortll, Qsortll.recur_nil]
        trivial
  | cons head rest =>
      obtain ⟨depth, rfl⟩ : ∃ depth, fuel = depth + 1 := ⟨fuel - 1, by omega⟩
      have tail := get_tail linked (List.cons_ne_nil head rest) (Nat.le_of_lt enough)
      have sorted := recur_leaves compar depth linked (fun _ found => found) (Nat.le_of_lt_succ enough)
      rw [Qsortll.recur_enough compar depth (Nat.le_of_lt_succ enough)] at sorted
      have run : qsortll compar (depth + 1) next (head :: rest).head? =
          qsortllRecur compar (depth + 1) next (head :: rest).head? (head :: rest).getLast? := by
        change (getTail next (depth + 1) (head :: rest).head? >>= _) = _
        rw [tail]
        rfl
      rw [run]
      exact sorted

/-- Sign-antisymmetric and transitive. -/
structure TotalPreorder (compar : Ptr → Ptr → Int) : Prop where
  antisymm : ∀ a b, compar a b < 0 ↔ 0 < compar b a
  trans : ∀ a b c, compar a b ≤ 0 → compar b c ≤ 0 → compar a c ≤ 0

theorem qsortll_sorts (compar : Ptr → Ptr → Int) (next : Heap Ptr) (nodes : List Ptr)
    (linked : Linked next nodes none) (fuel : Nat) (enough : nodes.length < fuel) :
    ∃ heap sorted, qsortll compar fuel next nodes.head? = .ok (heap, sorted.head?) ∧
      Linked heap sorted none ∧ sorted.Nodup ∧ sorted.Perm nodes ∧
      (∀ node, node ∉ nodes → heap node = next node) ∧
      (TotalPreorder compar → sorted.Pairwise fun x y => compar x y ≤ 0) := by
  obtain ⟨heap, run, links, frame⟩ := qsortll_leaves compar linked enough
  refine ⟨heap, _, run, links, linked_nodup links, Qsortll.qsortll_perm compar nodes, frame, ?_⟩
  intro order
  refine Qsortll.qsortll_pairwise compar (fun x y => compar x y ≤ 0) order.trans
    (fun a b below => Int.le_of_lt below) (fun a b above => ?_) nodes
  rw [order.antisymm] at above
  exact Int.not_lt.mp above

/-- Three nodes in descending order of their number. -/
theorem qsortll_three :
    ∃ heap sorted, qsortll (fun a b : Nat => (a : Int) - b) 4
        (fun node => if node = 0 then none else some (node - 1)) (some 2) = .ok (heap, sorted.head?) ∧
      Linked heap sorted none ∧ sorted.Perm [2, 1, 0] ∧
      sorted.Pairwise fun x y : Nat => (x : Int) - y ≤ 0 := by
  obtain ⟨heap, sorted, run, links, -, perm, -, ordered⟩ :=
    qsortll_sorts (fun a b : Nat => (a : Int) - b)
      (fun node => if node = 0 then none else some (node - 1)) [2, 1, 0]
      ⟨rfl, rfl, rfl, trivial⟩ 4 (by decide)
  have order : TotalPreorder fun a b : Nat => (a : Int) - b :=
    ⟨fun a b => by omega, fun a b c first second => by omega⟩
  exact ⟨heap, sorted, run, links, perm, ordered order⟩

end Result

end Orchestrator.QsortllHeap
