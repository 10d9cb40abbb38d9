import Orchestrator.CpuList

/-!
Selective SMT reduction, `disableCPUsibling` of `prepare.c`. The mask is edited
while it is walked: the least CPU of a group in the mask decides for its group,
and goes with it unless it is the least of the whole group or the last of all.
-/

namespace Orchestrator.SmtSiblings
open Orchdata Kernutil CpuList

/-- What `disableCPUsibling` reads and writes of `prgset_t`, and the CPUs whose
`online` file it wrote. -/
structure SmtState where
  affinityMask : Bitmask
  affinity : List Char
  offline : List Nat := []

/-- `getkernvar` on a file with this text: the number of bytes read, and the value
without the last of them. -/
def getkernvar (size : Nat) (file : List Char) : Nat × List Char :=
  (min file.length size, file.take (min file.length size - 1))

/-- `parse_cpumask`. -/
def parseCpumask (option : List Char) : Option Bitmask :=
  (readCpuList option).filter fun mask => mask.card ≠ 0

/-- The siblings of a CPU, from the text of its `thread_siblings_list` in a buffer of
50 bytes. -/
def siblingsOf (list : Nat → List Char) (i : Nat) : Option Bitmask :=
  let (got, str) := getkernvar 50 (list i)
  if got = 0 then none else parseCpumask str

section Loops
variable (size : Nat) (dryrun : Bool) (list : Nat → List Char)

/-- Body of the inner loop at a sibling `j` of `i`. -/
def disableSibling (i : Nat) (set : SmtState) (j : Nat) : SmtState :=
  if j < i ∧ set.affinityMask.card = 1 then set
  else
    let cpu := if j < i then i else j
    { set with
      affinityMask := set.affinityMask.erase cpu
      offline := if dryrun then set.offline else set.offline ++ [cpu] }

/-- Body of the outer loop; an error leaves the mask as it is. -/
def disableSiblings (set : SmtState) (i : Nat) : Except SmtState SmtState :=
  if i ∈ set.affinityMask then
    match siblingsOf list i with
    | none => .error set
    | some sibling => .ok (((List.range size).filter fun j => j ∈ sibling.erase i).foldl
        (disableSibling dryrun i) set)
  else .ok set

/-- `resetCPUstring`. -/
def resetCPUstring (set : SmtState) : Int × SmtState :=
  match parseBitmask ((size + 63) / 64 * 64) set.affinityMask 100 with
  | none => (-1, set)
  | some str => (0, { set with affinity := str })

/-- `disableCPUsibling`. -/
def disableCPUsibling (set : SmtState) : Int × SmtState :=
  match (List.range size).foldlM (disableSiblings size dryrun list) set with
  | .error set => (-1, set)
  | .ok set => resetCPUstring size set

end Loops

/-- The sibling groups of the machine: a partition of its CPUs. -/
structure Topology (size : Nat) (group : Nat → Bitmask) : Prop where
  own : ∀ i < size, i ∈ group i
  inside : ∀ i < size, ∀ j ∈ group i, j < size
  same : ∀ i < size, ∀ j ∈ group i, group j = group i

/-- Every read delivers the group of its CPU. -/
def Reports (size : Nat) (list : Nat → List Char) (group : Nat → Bitmask) : Prop :=
  ∀ i < size, siblingsOf list i = some (group i)

/-- One thread per core and at least one CPU. -/
structure Reduced (size : Nat) (group : Nat → Bitmask) (before after : Bitmask) : Prop where
  subset : after ⊆ before
  single : ∀ i < size, (after ∩ group i).card ≤ 1
  nonempty : after.Nonempty

/-- No CPU of its group in the mask comes before it. -/
def First (group : Nat → Bitmask) (mask : Bitmask) (i : Nat) : Prop :=
  ∀ k ∈ mask, k ∈ group i → i ≤ k

section Inner
variable {dryrun : Bool} {i : Nat}

theorem disable_last {j : Nat} (early : j < i) {set : SmtState}
    (last : set.affinityMask.card = 1) : disableSibling dryrun i set j = set :=
  if_pos ⟨early, last⟩

theorem disable_early {j : Nat} (early : j < i) {set : SmtState}
    (more : set.affinityMask.card ≠ 1) :
    (disableSibling dryrun i set j).affinityMask = set.affinityMask.erase i := by
  rw [disableSibling, if_neg fun both => more both.2, if_pos early]

theorem disable_late {j : Nat} (late : i < j) (set : SmtState) :
    (disableSibling dryrun i set j).affinityMask = set.affinityMask.erase j := by
  rw [disableSibling, if_neg fun both => absurd both.1 (by omega), if_neg (by omega)]

/-- Siblings before `i`: `i` itself goes, unless it is the last. -/
theorem disable_before {items : List Nat} (before : ∀ j ∈ items, j < i) (set : SmtState) :
    (items.foldl (disableSibling dryrun i) set).affinityMask =
      if items = [] ∨ set.affinityMask.card = 1 then set.affinityMask
      else set.affinityMask.erase i := by
  induction items generalizing set with
  | nil => simp
  | cons j rest ih =>
      have early : j < i := before j List.mem_cons_self
      rw [List.foldl_cons, ih fun k member => before k (List.mem_cons_of_mem j member)]
      by_cases last : set.affinityMask.card = 1
      · simp [disable_last early last, last]
      · rw [disable_early early last]
        simp [last]

/-- Siblings behind `i` go. -/
theorem disable_behind {items : List Nat} (behind : ∀ j ∈ items, i < j) (set : SmtState) :
    (items.foldl (disableSibling dryrun i) set).affinityMask =
      set.affinityMask.filter fun k => k ∉ items := by
  induction items generalizing set with
  | nil => simp
  | cons j rest ih =>
      rw [List.foldl_cons, ih fun k member => behind k (List.mem_cons_of_mem j member),
        disable_late (behind j List.mem_cons_self)]
      ext k
      simp only [Finset.mem_filter, Finset.mem_erase, List.mem_cons]
      tauto

/-- The siblings in the order of the inner loop: those before `i`, then those behind it. -/
theorem siblings_split {size : Nat} (cpu : i < size) (others : Bitmask) (own : i ∉ others) :
    ∃ early late, (List.range size).filter (fun j => j ∈ others) = early ++ late ∧
      (∀ j, j ∈ early ↔ j ∈ others ∧ j < i) ∧ ∀ j, j ∈ late ↔ j ∈ others ∧ i < j ∧ j < size := by
  obtain ⟨more, rfl⟩ := Nat.exists_eq_add_of_lt cpu
  refine ⟨(List.range i).filter fun j => j ∈ others,
    ((List.range (more + 1)).map (i + ·)).filter fun j => j ∈ others, ?_, ?_, ?_⟩
  · rw [Nat.add_assoc, List.range_add, List.filter_append]
  · intro j
    simp [and_comm]
  · intro j
    simp only [List.mem_filter, List.mem_map, List.mem_range, decide_eq_true_eq]
    constructor
    · rintro ⟨⟨k, below, rfl⟩, inside⟩
      have apart : k ≠ 0 := by
        rintro rfl
        exact own inside
      exact ⟨inside, by omega, by omega⟩
    · rintro ⟨inside, after, below⟩
      exact ⟨⟨j - i, by omega, by omega⟩, inside⟩

/-- The whole inner loop at the first CPU of its group that is in the mask. -/
theorem disable_group {size : Nat} {group : Nat → Bitmask} (topology : Topology size group)
    (cpu : i < size) (set : SmtState) (first : First group set.affinityMask i) :
    (((List.range size).filter fun j => j ∈ (group i).erase i).foldl (disableSibling dryrun i)
      set).affinityMask =
      if (∀ j ∈ group i, i ≤ j) ∨ set.affinityMask.card = 1 then
        set.affinityMask.filter fun k => k ∉ (group i).erase i
      else set.affinityMask.filter fun k => k ∉ group i := by
  obtain ⟨early, late, split, inEarly, inLate⟩ :=
    siblings_split cpu ((group i).erase i) (Finset.notMem_erase i (group i))
  rw [split, List.foldl_append, disable_behind fun j member => ((inLate j).mp member).2.1,
    disable_before fun j member => ((inEarly j).mp member).2]
  have none : early = [] ↔ ∀ j ∈ group i, i ≤ j := by
    constructor
    · rintro rfl j member
      by_contra before
      have listed := (inEarly j).mpr
        ⟨Finset.mem_erase.mpr ⟨by omega, member⟩, Nat.lt_of_not_le before⟩
      cases listed
    · intro least
      refine List.eq_nil_iff_forall_not_mem.mpr fun j listed => ?_
      obtain ⟨member, before⟩ := (inEarly j).mp listed
      exact absurd (least j (Finset.mem_of_mem_erase member)) (Nat.not_le.mpr before)
  have behind : ∀ k ∈ set.affinityMask, k ∉ late ↔ k ∉ (group i).erase i := by
    intro k member
    rw [inLate]
    constructor
    · intro out inside
      have sibling := Finset.mem_erase.mp inside
      have after := first k member sibling.2
      exact out ⟨inside, by omega, topology.inside i cpu k sibling.2⟩
    · exact fun out both => out both.1
  simp only [none]
  split_ifs with kept
  · exact Finset.filter_congr behind
  · ext k
    simp only [Finset.mem_filter, Finset.mem_erase]
    constructor
    · rintro ⟨⟨apart, member⟩, out⟩
      have away := (behind k member).mp out
      exact ⟨member, fun inside => away (Finset.mem_erase.mpr ⟨apart, inside⟩)⟩
    · rintro ⟨member, away⟩
      have apart : k ≠ i := by
        rintro rfl
        exact away (topology.own k cpu)
      exact ⟨⟨apart, member⟩, (behind k member).mpr fun inside => away (Finset.mem_of_mem_erase inside)⟩

end Inner

section Outer
variable {size : Nat} {group : Nat → Bitmask} {mask : Bitmask}

/-- The only CPU of its group in the mask, and no group begins behind it. -/
def Last (group : Nat → Bitmask) (mask : Bitmask) (i : Nat) : Prop :=
  (∀ k ∈ mask, k ∈ group i → k = i) ∧ ∀ j ∈ mask, ∃ k ∈ mask, k ∈ group j ∧ k ≤ i

/-- The least CPU of its group. -/
def Main (group : Nat → Bitmask) (i : Nat) : Prop := ∀ j ∈ group i, i ≤ j

instance (group : Nat → Bitmask) (i : Nat) : Decidable (Main group i) :=
  inferInstanceAs (Decidable (∀ j ∈ group i, i ≤ j))

/-- The mask when the CPUs below `n` were looked at. -/
structure Walked (group : Nat → Bitmask) (mask : Bitmask) (n : Nat) (now : Bitmask) : Prop where
  subset : now ⊆ mask
  ahead : ∀ c ∈ mask, (∀ k ∈ mask, k ∈ group c → n ≤ k) → c ∈ now
  first : ∀ c ∈ now, (∃ k ∈ mask, k ∈ group c ∧ k < n) → First group mask c
  main : ∀ c ∈ mask, c < n → Main group c → c ∈ now
  last : (∀ c ∈ mask, ¬ Main group c) → ∀ c < n, c ∈ now ↔ c ∈ mask ∧ Last group mask c

theorem walked_start (group : Nat → Bitmask) (mask : Bitmask) : Walked group mask 0 mask where
  subset := Finset.Subset.refl mask
  ahead := fun _ member _ => member
  first := by
    rintro c - ⟨k, -, -, below⟩
    exact absurd below (Nat.not_lt_zero k)
  main := fun c member _ _ => member
  last := fun _ c below => absurd below (Nat.not_lt_zero c)

/-- A CPU that is still in the mask when its turn comes is the first of its group. -/
theorem walked_first {n : Nat} {now : Bitmask} (walked : Walked group mask n now) (present : n ∈ now) :
    First group mask n := by
  intro k member sibling
  by_contra before
  have ahead := walked.first n present ⟨k, member, sibling, Nat.lt_of_not_le before⟩
  exact before (ahead k member sibling)

section Steps
variable {n : Nat} {now : Bitmask} (topology : Topology size group)
  (inside : mask ⊆ Finset.range size)
include topology inside

/-- Groups are the same for all their CPUs. -/
theorem group_mem {c k : Nat} (member : c ∈ mask) (sibling : k ∈ group c) :
    group k = group c ∧ c ∈ group k := by
  have cpu : c < size := Finset.mem_range.mp (inside member)
  have same := topology.same c cpu k sibling
  exact ⟨same, same ▸ topology.own c cpu⟩

/-- A CPU that is gone changes nothing. -/
theorem walked_skip (walked : Walked group mask n now) (gone : n ∉ now) :
    Walked group mask (n + 1) now := by
  have met : n ∈ mask → ∃ k ∈ mask, k ∈ group n ∧ k < n := by
    intro member
    by_contra fresh
    refine gone (walked.ahead n member fun k inMask sibling => ?_)
    exact Nat.le_of_not_lt fun below => fresh ⟨k, inMask, sibling, below⟩
  constructor
  · exact walked.subset
  · exact fun c member all => walked.ahead c member fun k inMask sibling =>
      Nat.le_of_succ_le (all k inMask sibling)
  · rintro c present ⟨k, member, sibling, below⟩
    by_cases here : k = n
    · subst here
      obtain ⟨other, inMask, related, earlier⟩ := met member
      have same := (group_mem topology inside (walked.subset present) sibling).1
      exact walked.first c present ⟨other, inMask, same ▸ related, earlier⟩
    · exact walked.first c present ⟨k, member, sibling, by omega⟩
  · intro c member below main
    by_cases here : c = n
    · subst here
      obtain ⟨k, -, sibling, earlier⟩ := met member
      exact absurd (main k sibling) (Nat.not_le.mpr earlier)
    · exact walked.main c member (by omega) main
  · intro none c below
    by_cases here : c = n
    · subst here
      refine ⟨fun present => absurd present gone, fun both => ?_⟩
      obtain ⟨k, inMask, sibling, earlier⟩ := met both.1
      exact absurd (both.2.1 k inMask sibling) earlier.ne
    · exact walked.last none c (by omega)

/-- The mask after the inner loop at the first CPU of a group. -/
def nextMask (group : Nat → Bitmask) (now : Bitmask) (n : Nat) : Bitmask :=
  if Main group n ∨ now.card = 1 then now.filter fun k => k ∉ (group n).erase n
  else now.filter fun k => k ∉ group n

omit inside in
theorem mem_next_mask (cpu : n < size) (now : Bitmask) (c : Nat) :
    c ∈ nextMask group now n ↔
      c ∈ now ∧ (c ∉ group n ∨ (c = n ∧ (Main group n ∨ now.card = 1))) := by
  have own := topology.own n cpu
  unfold nextMask
  split_ifs with kept
  · simp only [Finset.mem_filter, Finset.mem_erase]
    constructor
    · rintro ⟨present, away⟩
      by_cases here : c = n
      · exact ⟨present, Or.inr ⟨here, kept⟩⟩
      · exact ⟨present, Or.inl fun sibling => away ⟨here, sibling⟩⟩
    · rintro ⟨present, apart | ⟨rfl, -⟩⟩
      · exact ⟨present, fun both => apart both.2⟩
      · exact ⟨present, fun both => both.1 rfl⟩
  · simp only [Finset.mem_filter]
    constructor
    · exact fun both => ⟨both.1, Or.inl both.2⟩
    · rintro ⟨present, apart | ⟨-, either⟩⟩
      · exact ⟨present, apart⟩
      · exact absurd either kept

/-- The last of the mask is alone in it when its turn comes. -/
theorem card_of_last (walked : Walked group mask n now) (present : n ∈ now)
    (none : ∀ c ∈ mask, ¬ Main group c) : now.card = 1 ↔ Last group mask n := by
  have first := walked_first walked present
  constructor
  · intro single
    obtain ⟨x, only⟩ := Finset.card_eq_one.mp single
    have alone : ∀ c ∈ now, c = n := by
      intro c other
      rw [only, Finset.mem_singleton] at other present
      exact other.trans present.symm
    constructor
    · intro k inMask sibling
      refine alone k (walked.ahead k inMask fun l others related => ?_)
      have same := (group_mem topology inside (walked.subset present) sibling).1
      exact first l others (same ▸ related)
    · intro j inMask
      by_contra late
      have ahead : ∀ k ∈ mask, k ∈ group j → n ≤ k := fun k others sibling =>
        Nat.le_of_not_lt fun below => late ⟨k, others, sibling, below.le⟩
      have same := alone j (walked.ahead j inMask ahead)
      exact late ⟨j, inMask, topology.own j (Finset.mem_range.mp (inside inMask)), same.le⟩
  · rintro ⟨only, behind⟩
    refine Finset.card_eq_one.mpr ⟨n, Finset.eq_singleton_iff_unique_mem.mpr ⟨present, ?_⟩⟩
    intro c other
    have inMask := walked.subset other
    obtain ⟨k, others, sibling, early⟩ := behind c inMask
    by_cases here : k = n
    · subst here
      exact only c inMask (group_mem topology inside inMask sibling).2
    · -- an earlier group left nothing: `c` would have been the last of all
      have ahead := walked.first c other ⟨k, others, sibling, by omega⟩
      have before : c < n := by
        have := ahead k others sibling
        omega
      obtain ⟨l, inside', related, earlier⟩ :=
        ((walked.last none c before).mp other).2.2 n (walked.subset present)
      have := first l inside' related
      omega

theorem walked_take (cpu : n < size) (walked : Walked group mask n now) (present : n ∈ now) :
    Walked group mask (n + 1) (nextMask group now n) := by
  have first := walked_first walked present
  have inMask := walked.subset present
  have next := mem_next_mask topology cpu now
  constructor
  · exact fun c member => walked.subset ((next c).mp member).1
  · intro c member all
    refine (next c).mpr ⟨walked.ahead c member fun k others sibling =>
      Nat.le_of_succ_le (all k others sibling), Or.inl fun sibling => ?_⟩
    have back := (group_mem topology inside inMask sibling).2
    exact absurd (all n inMask back) (Nat.not_succ_le_self n)
  · rintro c member ⟨k, others, sibling, below⟩
    obtain ⟨kept, apart | ⟨rfl, -⟩⟩ := (next c).mp member
    · by_cases here : k = n
      · subst here
        exact absurd (group_mem topology inside (walked.subset kept) sibling).2 apart
      · exact walked.first c kept ⟨k, others, sibling, by omega⟩
    · exact first
  · intro c member below main
    by_cases here : c = n
    · subst here
      exact (next c).mpr ⟨present, Or.inr ⟨rfl, Or.inl main⟩⟩
    · refine (next c).mpr ⟨walked.main c member (by omega) main, Or.inl fun sibling => ?_⟩
      have := first c member sibling
      omega
  · intro none c below
    rw [next c]
    by_cases here : c = n
    · subst here
      have alone := card_of_last topology inside walked present none
      have own := topology.own c cpu
      constructor
      · rintro ⟨-, apart | ⟨-, main | single⟩⟩
        · exact absurd own apart
        · exact absurd main (none c inMask)
        · exact ⟨inMask, alone.mp single⟩
      · exact fun both => ⟨present, Or.inr ⟨rfl, Or.inr (alone.mpr both.2)⟩⟩
    · rw [walked.last none c (by omega)]
      constructor
      · exact fun both => both.1
      · refine fun both => ⟨both, Or.inl fun sibling => ?_⟩
        have := first c both.1 sibling
        omega

end Steps

/-- The outer loop over the first CPUs, where every read succeeds. -/
theorem walk_ok (dryrun : Bool) {list : Nat → List Char} (topology : Topology size group)
    (reports : Reports size list group) (set : SmtState)
    (inside : set.affinityMask ⊆ Finset.range size) (n : Nat) (fits : n ≤ size) :
    ∃ now, (List.range n).foldlM (disableSiblings size dryrun list) set = .ok now ∧
      Walked group set.affinityMask n now.affinityMask := by
  induction n with
  | zero => exact ⟨set, rfl, walked_start group set.affinityMask⟩
  | succ n ih =>
      obtain ⟨now, run, walked⟩ := ih (by omega)
      rw [List.range_succ, List.foldlM_append, run]
      change ∃ next, (List.foldlM _ now [n] : Except SmtState SmtState) = _ ∧ _
      rw [List.foldlM_cons, disableSiblings]
      by_cases present : n ∈ now.affinityMask
      · have first : First group now.affinityMask n := fun k member sibling =>
          walked_first walked present k (walked.subset member) sibling
        rw [if_pos present, reports n (by omega)]
        refine ⟨_, rfl, ?_⟩
        rw [disable_group topology (by omega) now first]
        exact walked_take topology inside (by omega) walked present
      · rw [if_neg present]
        exact ⟨now, rfl, walked_skip topology inside walked present⟩

theorem reset_keeps_mask (size : Nat) (set : SmtState) :
    (resetCPUstring size set).2.affinityMask = set.affinityMask := by
  unfold resetCPUstring
  split <;> rfl

/-- After the whole walk. -/
theorem disable_walked (dryrun : Bool) {list : Nat → List Char} (topology : Topology size group)
    (reports : Reports size list group) (set : SmtState)
    (inside : set.affinityMask ⊆ Finset.range size) :
    Walked group set.affinityMask size
      (disableCPUsibling size dryrun list set).2.affinityMask := by
  obtain ⟨now, run, walked⟩ := walk_ok dryrun topology reports set inside size le_rfl
  rw [disableCPUsibling, run]
  dsimp only
  rwa [reset_keeps_mask]

/-- One thread per core always, and one CPU at least exactly if a group begins in the mask,
or if the group that begins last in the mask has one CPU there. -/
theorem reduced_iff (size : Nat) (dryrun : Bool) (list : Nat → List Char) (group : Nat → Bitmask)
    (set : SmtState) (topology : Topology size group) (reports : Reports size list group)
    (inside : set.affinityMask ⊆ Finset.range size) :
    Reduced size group set.affinityMask (disableCPUsibling size dryrun list set).2.affinityMask ↔
      (∃ i ∈ set.affinityMask, Main group i) ∨
        ∃ i ∈ set.affinityMask, Last group set.affinityMask i := by
  have walked := disable_walked dryrun topology reports set inside
  generalize (disableCPUsibling size dryrun list set).2.affinityMask = after at walked
  have cpu : ∀ c ∈ set.affinityMask, c < size := fun c member => Finset.mem_range.mp (inside member)
  constructor
  · intro reduced
    obtain ⟨c, present⟩ := reduced.nonempty
    have member := walked.subset present
    by_cases main : ∃ i ∈ set.affinityMask, Main group i
    · exact Or.inl main
    · push Not at main
      exact Or.inr ⟨c, member, ((walked.last main c (cpu c member)).mp present).2⟩
  · intro either
    refine ⟨walked.subset, fun i below => ?_, ?_⟩
    · refine Finset.card_le_one.mpr fun a inA b inB => ?_
      obtain ⟨presentA, siblingA⟩ := Finset.mem_inter.mp inA
      obtain ⟨presentB, siblingB⟩ := Finset.mem_inter.mp inB
      have memberA := walked.subset presentA
      have memberB := walked.subset presentB
      have sameA := topology.same i below a siblingA
      have sameB := topology.same i below b siblingB
      have firstA := walked.first a presentA
        ⟨b, memberB, sameA ▸ siblingB, cpu b memberB⟩ b memberB (sameA ▸ siblingB)
      have firstB := walked.first b presentB
        ⟨a, memberA, sameB ▸ siblingA, cpu a memberA⟩ a memberA (sameB ▸ siblingA)
      omega
    · rcases either with ⟨i, member, main⟩ | ⟨i, member, last⟩
      · exact ⟨i, walked.main i member (cpu i member) main⟩
      · by_cases main : ∃ j ∈ set.affinityMask, Main group j
        · obtain ⟨j, inMask, least⟩ := main
          exact ⟨j, walked.main j inMask (cpu j inMask) least⟩
        · push Not at main
          exact ⟨i, (walked.last main i (cpu i member)).mpr ⟨member, last⟩⟩

/-- A machine with one core of three threads. -/
def threeThreads : Nat → Bitmask := fun _ => {0, 1, 2}

def threeList : Nat → List Char := fun _ => ['0', '-', '2', '\n']

def onTwo : SmtState := { affinityMask := {1, 2}, affinity := ['1', '-', '2'] }

def onAll : SmtState := { affinityMask := {0, 1, 2}, affinity := ['0', '-', '2'] }

theorem three_topology : Topology 3 threeThreads :=
  ⟨by decide, by decide, fun _ _ _ _ => rfl⟩

theorem three_reports : Reports 3 threeList threeThreads := by
  have read : siblingsOf threeList 0 = some {0, 1, 2} := by decide +kernel
  exact fun _ _ => read

theorem reduced_three : Reduced 3 threeThreads {0, 1, 2}
    (disableCPUsibling 3 false threeList onAll).2.affinityMask :=
  (reduced_iff 3 false threeList threeThreads onAll three_topology three_reports (by decide)).mpr
    (Or.inl ⟨0, by decide, by decide⟩)

/-- CPU 0 is not for real-time tasks: both CPUs of the mask are switched off. -/
theorem no_cpu_left :
    Topology 3 threeThreads ∧ Reports 3 threeList threeThreads ∧
      onTwo.affinityMask ⊆ Finset.range 3 ∧ onTwo.affinityMask.Nonempty ∧
      ¬ Reduced 3 threeThreads onTwo.affinityMask
        (disableCPUsibling 3 false threeList onTwo).2.affinityMask := by
  refine ⟨three_topology, three_reports, by decide, by decide, fun reduced => ?_⟩
  have empty : (disableCPUsibling 3 false threeList onTwo).2.affinityMask = ∅ := by decide +kernel
  exact absurd reduced.nonempty (by rw [empty]; exact Finset.not_nonempty_empty)

end Outer

end Orchestrator.SmtSiblings
