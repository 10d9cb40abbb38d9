import Mathlib.Data.Finset.Dedup
import Orchestrator.MaskFrame

/-!
What the narrowing does through resources that are shared. An element without
resources of its own narrows the mask of those above it, for all that share them.
-/

namespace Orchestrator.SharedNarrowing
open Orchdata Resmgnt Adaptive Prepare Traversal SettingsOwners Narrowing MaskTree MaskRun MaskWalk
open FinalMasks MaskNesting MaskFrame Coverage ParseConfig

section Condition
variable (default : Bitmask) (conts : Containers)

/-- The CPUs that PIDs are fixed to. -/
def fixedCpus (pids : List Nat) : Bitmask :=
  (pids.filterMap fun p => fixedCpu conts (.pid p)).toFinset

/-- A PID with resources of its own that are fixed to a CPU. -/
def Pinned (p : Nat) : Prop :=
  (conts.pidcAt p).status.shrc = false ∧ (fixedCpu conts (.pid p)).isSome

/-- The PIDs of an element leave the mask above whole: there are none, one of them is
not fixed, or they are fixed to all of its CPUs. -/
def Spares (pids : List Nat) : Prop :=
  pids = [] ∨ (∃ p ∈ pids, ¬ Pinned conts p) ∨ default ⊆ fixedCpus conts pids

/-- No element that shares the global resources narrows their mask. -/
structure Spared : Prop where
  cont : ∀ c ∈ conts.cont, (conts.contAt c).img = none → (conts.contAt c).status.shrc = true →
    Spares default conts (conts.contAt c).pids
  img : ∀ i ∈ conts.img, (conts.imgAt i).status.shrc = true →
    Spares default conts (conts.imgAt i).pids

instance (p : Nat) : Decidable (Pinned conts p) := instDecidableAnd

instance (pids : List Nat) : Decidable (Spares default conts pids) := instDecidableOr

instance : Decidable (Spared default conts) :=
  decidable_of_iff
    ((∀ c ∈ conts.cont, (conts.contAt c).img = none → (conts.contAt c).status.shrc = true →
        Spares default conts (conts.contAt c).pids) ∧
      ∀ i ∈ conts.img, (conts.imgAt i).status.shrc = true →
        Spares default conts (conts.imgAt i).pids)
    ⟨fun both => ⟨both.1, both.2⟩, fun spared => ⟨spared.cont, spared.img⟩⟩

end Condition

section Within
variable {masks later last : Holder → Option Bitmask} {bound : Bitmask}

/-- The global mask has no CPU but these. -/
def Within (masks : Holder → Option Bitmask) (bound : Bitmask) : Prop :=
  ∀ cpus, masks .defaults = some cpus → cpus ⊆ bound

/-- The global mask gets no CPU back. -/
def Shrinks (masks later : Holder → Option Bitmask) : Prop :=
  ∀ bound, Within masks bound → Within later bound

theorem Shrinks.trans (first : Shrinks masks later) (second : Shrinks later last) :
    Shrinks masks last := fun bound within => second bound (first bound within)

theorem shrinks_of_same (same : later .defaults = masks .defaults) : Shrinks masks later := by
  intro bound within cpus mask
  exact within cpus (same ▸ mask)

end Within

section Passes
variable {numa : Numa} {default : Bitmask} {conts : Containers} {shared : Prop}
variable {masks later : Holder → Option Bitmask} {pids : List Nat}
variable {fp : Rounding} {rrtime : Int}

/-- What is known when the loops have passed an element with these PIDs. -/
structure Passed (numa : Numa) (default : Bitmask) (conts : Containers) (pids : List Nat)
    (shared : Prop) (masks : Holder → Option Bitmask) : Prop where
  fits : ∀ p ∈ pids, (conts.pidcAt p).status.shrc = false →
    ∃ dep, Fits default (ownMask numa default conts (.pid p) dep)
  within : shared → pids ≠ [] → (∀ p ∈ pids, Pinned conts p) → Within masks (fixedCpus conts pids)

theorem passed_later (passed : Passed numa default conts pids shared masks)
    (shrinks : Shrinks masks later) : Passed numa default conts pids shared later :=
  ⟨passed.fits, fun top some pinned => shrinks _ (passed.within top some pinned)⟩

/-- A mask that was found for a fixed PID has its CPU. -/
theorem fixed_fits {p cpu : Nat} {dep : Option Bitmask} (fixed : fixedCpu conts (.pid p) = some cpu)
    (fits : Fits default (ownMask numa default conts (.pid p) dep)) :
    numa.parseCpu cpu = some {cpu} := by
  obtain ⟨cpus, same, _⟩ := fits
  rw [own_fixed fixed] at same
  rw [same, parse_some same]

theorem union_pinned {seen : Nat → Option Bitmask} (pinned : ∀ p ∈ pids, ∃ cpu,
      fixedCpu conts (.pid p) = some cpu ∧ seen p = some {cpu}) :
    union (pids.map fun p => (seen p).getD ∅) = fixedCpus conts pids := by
  induction pids with
  | nil => rfl
  | cons p rest ih =>
      obtain ⟨cpu, fixed, mask⟩ := pinned p List.mem_cons_self
      have later := ih fun q member => pinned q (List.mem_cons_of_mem p member)
      have first : fixedCpus conts (p :: rest) = insert cpu (fixedCpus conts rest) := by
        simp [fixedCpus, fixed]
      rw [first, ← later, List.map_cons, mask]
      rfl

theorem fixed_cpus_nonempty (some : pids ≠ []) (pinned : ∀ p ∈ pids, Pinned conts p) :
    fixedCpus conts pids ≠ ∅ := by
  obtain ⟨p, member⟩ := List.exists_mem_of_ne_nil pids some
  obtain ⟨cpu, fixed⟩ := Option.isSome_iff_exists.mp (pinned p member).2
  have inside : cpu ∈ fixedCpus conts pids :=
    List.mem_toFinset.mpr (List.mem_filterMap.mpr ⟨p, member, fixed⟩)
  exact Finset.ne_empty_of_mem inside

/-- The PIDs of an element and the narrowing behind them. -/
theorem narrow_passed (hier : Hierarchy conts) {parent : Item} {state : Globals} {walk : Walk}
    {after : Containers} (steps : ddPids fp numa rrtime default parent pids (state, ∅, []) = .ok walk)
    (narrows : Adaptive.narrow walk.1.conts parent walk.2.1 = .ok after)
    (run : Masks default conts state masks) (known : Known conts parent)
    (other : ∀ q, owner conts parent ≠ .pid q) (listed : ∀ p ∈ pids, p ∈ conts.pids)
    (top : shared → owner conts parent = .defaults) :
    ∃ later, Masks default conts { walk.1 with conts := after } later ∧ Shrinks masks later ∧
      Passed numa default conts pids shared later := by
  obtain ⟨placed, joined, fits⟩ := dd_pids_masks hier steps run known other rfl listed
  have still : settled (pidValues numa default conts (masks (owner conts parent)))
      (pids.map Holder.pid) masks .defaults = masks .defaults :=
    settled_out (pid_not_listed (by simp))
  refine ⟨_, placed.narrow hier known narrows, ?_, ?_, ?_⟩
  · intro bound within cpus mask
    -- the narrowing only writes the global mask where the parent shares it
    by_cases this : owner conts parent = .defaults
    · rw [this, Function.update_self, ← this] at mask
      obtain ⟨whole, first, rfl⟩ := Option.map_eq_some_iff.mp mask
      rw [this] at still first
      exact narrowed_subset.trans (within whole (still ▸ first))
    · rw [Function.update_of_ne (Ne.symm this), still] at mask
      exact within cpus mask
  · intro p member own
    have fit := fits p member
    rw [pidSeen, own] at fit
    exact ⟨_, fit⟩
  · intro above some pinned cpus mask
    -- with all PIDs fixed by masks of their own, the CPUs joined are those
    have used : walk.2.1 = fixedCpus conts pids := by
      rw [joined, Finset.union_empty]
      apply union_pinned
      intro p member
      obtain ⟨own, fixed⟩ := pinned p member
      obtain ⟨cpu, fixed⟩ := Option.isSome_iff_exists.mp fixed
      have fit := fits p member
      rw [pidSeen, own] at fit ⊢
      exact ⟨cpu, fixed, (own_fixed fixed).trans (fixed_fits fixed fit)⟩
    rw [top above, Function.update_self] at mask
    obtain ⟨whole, _, rfl⟩ := Option.map_eq_some_iff.mp mask
    rw [used, narrowed, if_neg (fixed_cpus_nonempty some pinned)]
    exact Finset.inter_subset_left

theorem solo_passed (hier : Hierarchy conts) {sched next : Schedule} {c : Nat}
    (step : prepareSolo fp numa rrtime default sched c = .ok next)
    (run : Masks default conts sched.1 masks) (listed : c ∈ conts.cont) :
    ∃ later, Masks default conts next.1 later ∧ Shrinks masks later ∧
      ((conts.contAt c).img = none → Passed numa default conts (conts.contAt c).pids
        ((conts.contAt c).status.shrc = true) later) := by
  rw [prepareSolo, kept_cont_img run.kept] at step
  cases image : (conts.contAt c).img with
  | some i =>
      simp only [image, Option.isSome_some, if_true] at step
      cases step
      exact ⟨masks, run, fun _ within => within, fun none => by cases none⟩
  | none =>
      simp only [image, Option.isSome_none, Bool.false_eq_true, if_false] at step
      obtain ⟨inner, prepared, step⟩ := bind_ok step
      obtain ⟨fixed, fixes, step⟩ := bind_ok step
      cases step
      unfold prepareCont at prepared
      obtain ⟨walk, pids, prepared⟩ := bind_ok prepared
      obtain ⟨after, narrows, prepared⟩ := bind_ok prepared
      cases prepared
      have known := known_cont listed
      have pushed := run.push hier numa known none
      rw [kept_cont_pids pushed.kept] at pids
      obtain ⟨later, narrowed, shrinks, passed⟩ :=
        @narrow_passed numa default conts ((conts.contAt c).status.shrc = true) _ _ fp rrtime hier _ _ _
          _ pids narrows pushed known (cont_owner_pid conts c)
          (fun p member => (hier.contPids c listed p member).1)
          (fun shared => by rw [owner, contOwner, if_pos shared, image])
      have start : Shrinks masks (Function.update masks (holder (.cont c))
          (ownMask numa default conts (.cont c) none)) :=
        shrinks_of_same (Function.update_of_ne (by simp [holder]) _ _)
      exact ⟨later, (narrowed.fix hier known fixes).1, start.trans shrinks, fun _ => passed⟩

theorem img_passed (hier : Hierarchy conts) {sched next : Schedule} {i : Nat}
    (step : prepareImg fp numa rrtime default sched i = .ok next)
    (run : Masks default conts sched.1 masks) (listed : i ∈ conts.img)
    (flat : (conts.imgAt i).conts = []) :
    ∃ later, Masks default conts next.1 later ∧ Shrinks masks later ∧
      Passed numa default conts (conts.imgAt i).pids ((conts.imgAt i).status.shrc = true) later := by
  unfold prepareImg at step
  obtain ⟨inConts, nested, step⟩ := bind_ok step
  obtain ⟨walk, pids, step⟩ := bind_ok step
  obtain ⟨after, narrows, step⟩ := bind_ok step
  obtain ⟨fixed, fixes, step⟩ := bind_ok step
  cases step
  have known := known_img listed
  have pushed := run.push hier numa known none
  rw [kept_img_conts pushed.kept, flat] at nested
  cases nested
  rw [kept_img_pids pushed.kept] at pids
  obtain ⟨later, narrowed, shrinks, passed⟩ :=
    @narrow_passed numa default conts ((conts.imgAt i).status.shrc = true) _ _ fp rrtime hier _ _ _
      _ pids narrows pushed known (img_owner_pid conts i)
      (fun p member => (hier.imgPids i listed p member).1)
      (fun shared => by rw [owner, imgOwner, if_pos shared])
  have start : Shrinks masks (Function.update masks (holder (.img i))
      (ownMask numa default conts (.img i) none)) :=
    shrinks_of_same (Function.update_of_ne (by simp [holder]) _ _)
  exact ⟨later, (narrowed.fix hier known fixes).1, start.trans shrinks, passed⟩

theorem pid_shrinks (hier : Hierarchy conts) {sched next : Schedule} {p : Nat}
    (step : preparePid fp numa rrtime default sched p = .ok next)
    (run : Masks default conts sched.1 masks) (listed : p ∈ conts.pids) :
    ∃ later, Masks default conts next.1 later ∧ Shrinks masks later ∧ True := by
  rw [preparePid] at step
  split at step
  · cases step
    exact ⟨masks, run, fun _ within => within, trivial⟩
  · obtain ⟨fixed, fixes, step⟩ := bind_ok step
    cases step
    have pushed := run.push hier numa (known_pid listed) none
    exact ⟨_, (pushed.fix hier (known_pid listed) fixes).1,
      shrinks_of_same (Function.update_of_ne (by simp [holder]) _ _), trivial⟩

/-- A loop: what is known of an element when it was passed stays so. -/
theorem loop_passed {step : Schedule → Nat → Except Stop Schedule} {listed : Nat → Prop}
    {passed : Nat → (Holder → Option Bitmask) → Prop}
    (mono : ∀ x masks later, Shrinks masks later → passed x masks → passed x later)
    (one : ∀ sched x next masks, listed x → step sched x = .ok next →
      Masks default conts sched.1 masks →
        ∃ later, Masks default conts next.1 later ∧ Shrinks masks later ∧ passed x later)
    {items : List Nat} {sched next : Schedule} (steps : items.foldlM step sched = .ok next)
    (all : ∀ x ∈ items, listed x) (run : Masks default conts sched.1 masks) :
    ∃ later, Masks default conts next.1 later ∧ Shrinks masks later ∧
      ∀ x ∈ items, passed x later := by
  have loop := fold_rule step
    (fun sched items next => ∀ masks, (∀ x ∈ items, listed x) → Masks default conts sched.1 masks →
      ∃ later, Masks default conts next.1 later ∧ Shrinks masks later ∧ ∀ x ∈ items, passed x later)
    ?_ ?_ items sched next steps
  · exact loop masks all run
  · intro sched masks _ run
    exact ⟨masks, run, fun _ within => within, fun _ member => by cases member⟩
  · intro sched x middle rest finish first tail masks all run
    obtain ⟨here, ran, shrinks, done⟩ := one sched x middle masks (all x List.mem_cons_self) first run
    obtain ⟨last, ran', shrinks', more⟩ :=
      tail here (fun y member => all y (List.mem_cons_of_mem x member)) ran
    refine ⟨last, ran', shrinks.trans shrinks', fun y member => ?_⟩
    rcases List.mem_cons.mp member with rfl | later
    · exact mono _ here last shrinks' done
    · exact more y later

end Passes

section Run
variable {fp : Rounding} {numa : Numa} {set : PrgSet} {conts : Containers} {default : Bitmask}
variable {sched : Schedule}

/-- What the run leaves of the global mask. -/
theorem prepared_passed (hier : Hierarchy conts) (flat : ∀ i ∈ conts.img, (conts.imgAt i).conts = [])
    (mask : set.affinityMask = some default)
    (steps : adaptPrepareSchedule fp numa set conts = .ok sched) :
    ∃ masks, Masks default conts sched.1 masks ∧
      (∀ i ∈ conts.img, Passed numa default conts (conts.imgAt i).pids
        ((conts.imgAt i).status.shrc = true) masks) ∧
      ∀ c ∈ conts.cont, (conts.contAt c).img = none →
        Passed numa default conts (conts.contAt c).pids ((conts.contAt c).status.shrc = true) masks := by
  rw [adaptPrepareSchedule, mask] at steps
  obtain ⟨images, imgSteps, steps⟩ := bind_ok steps
  obtain ⟨solo, soloSteps, loneSteps⟩ := bind_ok steps
  obtain ⟨masks, start, -, -⟩ := start_masks numa default hier
  obtain ⟨first, run, -, imgs⟩ := @loop_passed default conts masks _ (· ∈ conts.img)
    (fun i masks => Passed numa default conts (conts.imgAt i).pids
      ((conts.imgAt i).status.shrc = true) masks)
    (fun _ _ _ shrinks passed => passed_later passed shrinks)
    (fun _ i _ _ listed step run => img_passed hier step run listed (flat i listed))
    _ _ _ imgSteps (fun _ member => member) start
  obtain ⟨second, run, shrinks, containers⟩ := @loop_passed default conts first _ (· ∈ conts.cont)
    (fun c masks => (conts.contAt c).img = none → Passed numa default conts (conts.contAt c).pids
      ((conts.contAt c).status.shrc = true) masks)
    (fun _ _ _ shrinks passed image => passed_later (passed image) shrinks)
    (fun _ _ _ _ listed step run => solo_passed hier step run listed)
    _ _ _ soloSteps (fun _ member => member) run
  obtain ⟨last, run, shrinks', -⟩ := @loop_passed default conts second _ (· ∈ conts.pids)
    (fun _ _ => True) (fun _ _ _ _ _ => trivial)
    (fun _ _ _ _ listed step run => pid_shrinks hier step run listed)
    _ _ _ loneSteps (fun _ member => member) run
  exact ⟨last, run, fun i listed => passed_later (imgs i listed) (shrinks.trans shrinks'),
    fun c listed image => passed_later (containers c listed image) shrinks'⟩

theorem global_default (negative : (conts.rscsAt conts.rscs).affinity < 0) :
    globalMask numa default conts = some default := by
  unfold globalMask createAffinityMask
  rw [if_neg (by omega)]

/-- PIDs that spare the mask above leave it. -/
theorem spares_narrowed {pids : List Nat} {part : Nat → Option Bitmask}
    (spares : Spares default conts pids)
    (fits : ∀ p ∈ pids, (conts.pidcAt p).status.shrc = false →
      ∃ dep, Fits default (ownMask numa default conts (.pid p) dep))
    (parts : ∀ p ∈ pids, part p = if (conts.pidcAt p).status.shrc then some default
      else ownMask numa default conts (.pid p) (some default)) :
    narrowedMask (some default) (pids.map part) = some default := by
  rcases spares with rfl | ⟨p, member, free⟩ | covers
  · rfl
  · -- one of them has the whole mask
    apply narrowed_mask_whole
    apply List.mem_map.mpr
    refine ⟨p, member, ?_⟩
    rw [parts p member]
    cases own : (conts.pidcAt p).status.shrc with
    | true => rfl
    | false =>
        have loose : fixedCpu conts (.pid p) = none := by
          cases fixed : fixedCpu conts (.pid p) with
          | none => rfl
          | some cpu => exact absurd ⟨own, by rw [fixed]; rfl⟩ free
        rw [if_neg Bool.false_ne_true, own_free loose, Finset.inter_self]
  · apply congrArg some
    apply narrowed_covered
    intro cpu inside
    obtain ⟨p, member, fixed⟩ := List.mem_filterMap.mp (List.mem_toFinset.mp (covers inside))
    have used : cpu ∈ (part p).getD ∅ := by
      rw [parts p member]
      cases own : (conts.pidcAt p).status.shrc with
      | true => exact inside
      | false =>
          obtain ⟨dep, fit⟩ := fits p member own
          rw [if_neg Bool.false_ne_true, own_fixed fixed, fixed_fits fixed fit]
          exact Finset.mem_singleton_self cpu
    exact subset_union (List.mem_map_of_mem (List.mem_map_of_mem member)) used

/-- In a run that comes to its end nothing is narrowed through shared resources where
every element spares them. -/
theorem spared_unnarrowed (hier : Hierarchy conts)
    (flat : ∀ i ∈ conts.img, (conts.imgAt i).conts = [])
    (direct : ∀ i ∈ conts.img, ∀ p ∈ (conts.imgAt i).pids, (conts.pidcAt p).cont = some (.img i))
    (mask : set.affinityMask = some default)
    (negative : (conts.rscsAt conts.rscs).affinity < 0) (spared : Spared default conts)
    (steps : adaptPrepareSchedule fp numa set conts = .ok sched) :
    Unnarrowed numa default conts := by
  obtain ⟨_, _, imgs, containers⟩ := prepared_passed hier flat mask steps
  have global := @global_default numa conts default negative
  constructor
  · intro c listed visits shared
    have image : (conts.contAt c).img = none := by
      rcases visits with none | ⟨i, known, inside⟩
      · exact none
      · rw [flat i known] at inside
        cases inside
    have base : contBase numa default conts c = some default := by
      rw [contBase, image, shared]
      exact global
    rw [contParts, base]
    exact spares_narrowed (spared.cont c listed image shared) (containers c listed image).fits
      fun _ _ => rfl
  · intro i listed shared
    have base : imgBase numa default conts i = some default := by
      rw [imgBase, if_pos shared, global]
    rw [imgParts, flat i listed, List.map_nil, List.nil_append, base]
    refine spares_narrowed (spared.img i listed shared) (imgs i listed).fits fun p member => ?_
    rw [direct i listed p member]

end Run

section Frame
variable {numa : Numa} {default : Bitmask} {conts : Containers} {c : Nat}

theorem mem_visited (flat : ∀ i ∈ conts.img, (conts.imgAt i).conts = []) (user : Holder) :
    user ∈ visited conts ↔
      (∃ i ∈ conts.img, user = .img i ∨ ∃ p ∈ (conts.imgAt i).pids, user = .pid p) ∨
      (∃ x ∈ conts.cont, (conts.contAt x).img = none ∧
        (user = .cont x ∨ ∃ p ∈ (conts.contAt x).pids, user = .pid p)) ∨
      ∃ p ∈ conts.pids, ((conts.pidcAt p).img = none ∧ (conts.pidcAt p).cont = none) ∧
        user = .pid p := by
  have images : user ∈ conts.img.flatMap (imgHolders conts) ↔
      ∃ i ∈ conts.img, user = .img i ∨ ∃ p ∈ (conts.imgAt i).pids, user = .pid p := by
    rw [List.mem_flatMap]
    refine exists_congr fun i => and_congr_right fun listed => ?_
    rw [imgHolders, flat i listed]
    simp [eq_comm]
  rw [visited, List.mem_append, List.mem_append, images]
  refine or_congr_right (or_congr ?_ ?_)
  · simp [soloConts, contHolders, and_assoc, @eq_comm _ user]
  · simp [lonePids, and_assoc, @eq_comm _ user]

theorem flat_left (flat : ∀ i ∈ conts.img, (conts.imgAt i).conts = []) :
    ∀ i ∈ (removeCont conts c).img, ((removeCont conts c).imgAt i).conts = [] := by
  intro i listed
  change (conts.imgAt i).conts.filter _ = []
  rw [flat i listed, List.filter_nil]

/-- The loops come to the same holders with and without the container. -/
theorem visited_left (flat : ∀ i ∈ conts.img, (conts.imgAt i).conts = []) {user : Holder}
    (left : Left conts c user) : user ∈ visited (removeCont conts c) ↔ user ∈ visited conts := by
  rw [mem_visited (flat_left flat), mem_visited flat]
  cases user with
  | defaults => simp
  | img i => simp [removeCont]
  | cont x =>
      have other : x ≠ c := left
      simp [removeCont, other]
  | pid p =>
      have outside : p ∉ (conts.contAt c).pids := left
      have other : ∀ x, p ∈ (conts.contAt x).pids → x ≠ c := fun x member same =>
        outside (same ▸ member)
      simp only [removeCont, List.mem_filter, decide_not, Bool.not_eq_true', decide_eq_false_iff_not,
        outside, not_false_eq_true, and_true, reduceCtorEq, false_or, Holder.pid.injEq, ne_eq,
        exists_eq_right']
      refine or_congr_right (or_congr (exists_congr fun x => ?_) (exists_congr fun q => ?_))
      · constructor
        · rintro ⟨⟨listed, -⟩, inside⟩
          exact ⟨listed, inside⟩
        · rintro ⟨listed, image, member⟩
          exact ⟨⟨listed, other x member⟩, image, member⟩
      · constructor
        · rintro ⟨⟨listed, -⟩, lone⟩
          exact ⟨listed, lone⟩
        · rintro ⟨listed, lone, rfl⟩
          exact ⟨⟨listed, outside⟩, lone, rfl⟩

/-- An image keeps its PIDs, which are in no container. -/
theorem img_pids_left {i : Nat}
    (direct : ∀ p ∈ (conts.imgAt i).pids, p ∉ (conts.contAt c).pids) :
    ((removeCont conts c).imgAt i).pids = (conts.imgAt i).pids := by
  apply List.filter_eq_self.mpr
  intro p member
  rw [decide_eq_true_eq]
  exact direct p member

/-- A holder that is left ends with the mask it has without the container. -/
theorem target_left (flat : ∀ i ∈ conts.img, (conts.imgAt i).conts = [])
    (direct : ∀ i ∈ conts.img, ∀ p ∈ (conts.imgAt i).pids, p ∉ (conts.contAt c).pids)
    {user : Holder} (left : Left conts c user) (seen : user ∈ visited conts) :
    target numa default (removeCont conts c) user = target numa default conts user := by
  cases user with
  | defaults => rfl
  | cont x => rfl
  | img i =>
      have listed : i ∈ conts.img := by simpa using (mem_visited flat _).mp seen
      apply img_mask_kept _ (img_pids_left (direct i listed))
      rw [flat i listed, flat_left flat i listed]
  | pid p =>
      rw [target, pid_dep_same left]
      rfl

end Frame

/-- The global mask is the default one, and no element outside of a container's tree sees
another mask when the container is taken out. -/
structure Framed (fp : Rounding) (numa : Numa) (set : PrgSet) (conts : Containers)
    (sched : Schedule) : Prop where
  global : (sched.1.conts.rscsAt sched.1.conts.rscs).affinityMask = set.affinityMask
  others : ∀ c ∈ conts.cont, ∀ without,
    adaptPrepareSchedule fp numa set (removeCont conts c) = .ok without →
    ∀ item, IsElement (removeCont conts c) item →
      maskOf sched.1.conts item = maskOf without.1.conts item

section Parsed
variable {fp : Rounding} {numa : Numa} {set : PrgSet} {conts : Containers} {default : Bitmask}
variable {sched : Schedule}

/-- A global mask that is left whole was spared. -/
theorem spared_of_global (hier : Hierarchy conts)
    (flat : ∀ i ∈ conts.img, (conts.imgAt i).conts = []) (mask : set.affinityMask = some default)
    (run : adaptPrepareSchedule fp numa set conts = .ok sched)
    (global : (sched.1.conts.rscsAt sched.1.conts.rscs).affinityMask = set.affinityMask) :
    Spared default conts := by
  obtain ⟨masks, ends, imgs, containers⟩ := prepared_passed hier flat mask run
  have whole : masks .defaults = some default := by
    rw [← ends.mask .defaults _ (owns_defaults conts), ← mask, ← global, ends.rscs]
  have spares : ∀ {pids : List Nat} {shared : Prop}, shared →
      Passed numa default conts pids shared masks → Spares default conts pids := by
    intro pids shared top passed
    by_cases none : pids = []
    · exact .inl none
    · by_cases pinned : ∀ p ∈ pids, Pinned conts p
      · exact .inr (.inr (passed.within top none pinned default whole))
      · push Not at pinned
        exact .inr (.inl pinned)
  exact ⟨fun c listed image shared => spares shared (containers c listed image),
    fun i listed shared => spares shared (imgs i listed)⟩

/-- The masks are framed exactly when no element narrows what it shares. -/
theorem container_frame_iff (fp : Rounding) (numa : Numa) (set : PrgSet) (root : Json)
    (conts : Containers) (default : Bitmask) (sched : Schedule)
    (parsed : parseConfig root {} = .ok conts) (mask : set.affinityMask = some default)
    (negative : (conts.rscsAt conts.rscs).affinity < 0)
    (run : adaptPrepareSchedule fp numa set conts = .ok sched) :
    Framed fp numa set conts sched ↔ Spared default conts := by
  obtain ⟨built, -, -⟩ := ConfigGraph.parse_config_grown root conts parsed
  have hier := parsed_hierarchy parsed
  have flat := built.imgConts
  have direct : ∀ i ∈ conts.img, ∀ p ∈ (conts.imgAt i).pids, (conts.pidcAt p).cont = some (.img i) :=
    fun i listed p member => img_link built listed member
  constructor
  · intro framed
    exact spared_of_global hier flat mask run framed.global
  · intro spared
    have unnarrowed := spared_unnarrowed hier flat direct mask negative spared run
    obtain ⟨masks, ends, global, settles, unseen⟩ := (prepared_masks hier unnarrowed mask run).masks
    constructor
    · rw [ends.rscs, mask]
      exact (ends.mask .defaults _ (owns_defaults conts)).trans (global.trans (global_default negative))
    · intro c listed without runs item element
      have hierLeft := left_hierarchy hier (parsed_pids_held built) listed
      have apart : ∀ i ∈ conts.img, ∀ p ∈ (conts.imgAt i).pids, p ∉ (conts.contAt c).pids := by
        intro i known p member inside
        cases (direct i known p member).symm.trans (cont_link built listed inside)
      -- without the container the condition only asks less, so both runs have exact masks
      have sparedLeft : Spared default (removeCont conts c) := by
        refine ⟨fun x left image shared => spared.cont x (left_cont.mp left).1 image shared, ?_⟩
        intro i known shared
        rw [img_pids_left (apart i known)]
        exact spared.img i known shared
      have unnarrowedLeft := spared_unnarrowed hierLeft (flat_left flat)
        (fun i known p member => direct i known p (left_img_pids.mp member).1) mask negative
        sparedLeft runs
      obtain ⟨masksLeft, endsLeft, globalLeft, settlesLeft, unseenLeft⟩ :=
        (prepared_masks hierLeft unnarrowedLeft mask runs).masks
      have known : Known conts item := by
        cases item with
        | img i => exact known_img element
        | cont x => exact known_cont (left_cont.mp element).1
        | pid p => exact known_pid (left_pid.mp element).1
      have above : owner (removeCont conts c) item = owner conts item := by cases item <;> rfl
      have left := left_owner (parsed_pids_held built) element
      rw [ends.seen hier known, endsLeft.seen hierLeft (known_element element), above]
      by_cases top : owner conts item = .defaults
      · rw [top, global, globalLeft]
        rfl
      · by_cases seen : owner conts item ∈ visited conts
        · rw [settles _ seen, settlesLeft _ ((visited_left flat left).mpr seen),
            target_left flat apart left seen]
        · -- what the loops leave out keeps the mask it had
          obtain ⟨settings, owns, -⟩ := item_owner hier known
          rw [unseen _ seen top, unseenLeft _ (mt (visited_left flat left).mp seen) top, firstMask,
            firstMask, owns.1, left_found owns.1 left]
          rfl

end Parsed

/-- A task on a CPU of its own. -/
def pinnedLoop (cpu : Int) : Json :=
  .object [("cmd", .string "loop".toList), ("res", .object [("affinity", .int cpu)])]

/-- Containers `a1`, with tasks on these CPUs, and `b2`, both without resources. -/
def sharingConts (cpus : List Int) : Json :=
  .object [("containers", .array [
    .object [("contid", .string "a1".toList), ("pids", .array (cpus.map pinnedLoop))],
    .object [("contid", .string "b2".toList)]])]

/-- With tasks on all CPUs the global mask is spared. -/
theorem sharing_conts_framed :
    ∃ conts sched, parseConfig (sharingConts [0, 1]) {} = .ok conts ∧
      adaptPrepareSchedule ieee twoCpus adaptiveSet conts = .ok sched ∧
      Framed ieee twoCpus adaptiveSet conts sched := by
  have accepted : returns (parseConfig (sharingConts [0, 1]) {}) (fun conts =>
      returns (adaptPrepareSchedule ieee twoCpus adaptiveSet conts) (fun _ =>
        decide ((conts.rscsAt conts.rscs).affinity < 0) && decide (Spared {0, 1} conts))) = true := by
    decide +kernel
  obtain ⟨conts, parsed, returned⟩ := (returns_iff _ _).mp accepted
  obtain ⟨sched, run, checks⟩ := (returns_iff _ _).mp returned
  obtain ⟨negative, spared⟩ := Bool.and_eq_true_iff.mp checks
  exact ⟨conts, sched, parsed, run, (container_frame_iff ieee twoCpus adaptiveSet _ conts {0, 1} sched
    parsed rfl (of_decide_eq_true negative) run).mpr (of_decide_eq_true spared)⟩

-- The task of `a1` leaves the global mask CPU 0, also for `b2`.
theorem sharing_conts_narrowed :
    ∃ conts sched, parseConfig (sharingConts [0]) {} = .ok conts ∧
      (conts.rscsAt conts.rscs).affinity < 0 ∧
      adaptPrepareSchedule ieee twoCpus adaptiveSet conts = .ok sched ∧
      (sched.1.conts.rscsAt sched.1.conts.rscs).affinityMask = some {0} ∧
      ¬ Framed ieee twoCpus adaptiveSet conts sched := by
  have narrowed : returns (parseConfig (sharingConts [0]) {}) (fun conts =>
      returns (adaptPrepareSchedule ieee twoCpus adaptiveSet conts) (fun sched =>
        decide ((conts.rscsAt conts.rscs).affinity < 0) &&
          (sched.1.conts.rscsAt sched.1.conts.rscs).affinityMask == some {0})) = true := by
    decide +kernel
  obtain ⟨conts, parsed, returned⟩ := (returns_iff _ _).mp narrowed
  obtain ⟨sched, run, checks⟩ := (returns_iff _ _).mp returned
  obtain ⟨negative, mask⟩ := Bool.and_eq_true_iff.mp checks
  refine ⟨conts, sched, parsed, of_decide_eq_true negative, run, beq_iff_eq.mp mask, fun framed => ?_⟩
  have global := framed.global
  rw [beq_iff_eq.mp mask] at global
  exact absurd global (by decide)

end Orchestrator.SharedNarrowing
