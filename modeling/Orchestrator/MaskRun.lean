import Orchestrator.MaskTree
import Orchestrator.PlanMasks

/-!
`adaptPrepareSchedule` and the masks of the hierarchy: while it walks the lists,
every owner of resources has either its first mask or the one it ends with.
-/

namespace Orchestrator.MaskRun
open Orchdata Resmgnt Adaptive Prepare Traversal SettingsOwners Narrowing MaskTree

section Settled
variable {ι α : Type} [DecidableEq ι] (values : ι → α)

/-- These places get their values, the others keep what they have. -/
def settled (places : List ι) (start : ι → α) : ι → α :=
  fun place => if place ∈ places then values place else start place

variable {values} {places : List ι} {start : ι → α} {place : ι}

theorem settled_in (member : place ∈ places) : settled values places start place = values place :=
  if_pos member

theorem settled_out (outside : place ∉ places) : settled values places start place = start place :=
  if_neg outside

theorem settled_append (values : ι → α) (left right : List ι) (start : ι → α) :
    settled values (left ++ right) start = settled values right (settled values left start) := by
  funext place
  by_cases late : place ∈ right
  · rw [settled_in late, settled_in (List.mem_append_right left late)]
  · rw [settled_out late, settled, settled]
    simp [late]

theorem settled_congr {other : ι → α} (same : ∀ place ∈ places, values place = other place)
    (start : ι → α) : settled values places start = settled other places start := by
  funext place
  by_cases member : place ∈ places
  · rw [settled_in member, settled_in member, same place member]
  · rw [settled_out member, settled_out member]

end Settled

section Steps
variable (default : Bitmask) (conts : Containers)

/-- The masks the owners have in this state of a run that began with `conts`. -/
structure Masks (state : Globals) (masks : Holder → Option Bitmask) : Prop where
  kept : Kept conts state.conts
  rscs : state.conts.rscs = conts.rscs
  mask : ∀ holder settings, Owns conts holder settings →
    (state.conts.rscsAt settings.rscs).affinityMask = masks holder
  heads : ∀ trc ∈ state.trcs.rHead, trc ∈ default
  tracer : ∀ trc, (state.trcs.trcAt trc).affinity = {trc}

/-- A mask that is set; if it has one CPU, there is a tracer for it. -/
def Fits (mask : Option Bitmask) : Prop :=
  ∃ cpus, mask = some cpus ∧ (cpus.card = 1 → cpus ⊆ default)

variable {default conts} {state : Globals} {masks : Holder → Option Bitmask} {item : Item}

theorem Masks.agree (run : Masks default conts state masks) {other : Holder → Option Bitmask}
    (same : ∀ holder settings, Owns conts holder settings → other holder = masks holder) :
    Masks default conts state other :=
  { run with mask := fun holder settings owns =>
      (run.mask holder settings owns).trans (same holder settings owns).symm }

theorem Masks.seen (run : Masks default conts state masks) (hier : Hierarchy conts)
    (known : Known conts item) : maskOf state.conts item = masks (owner conts item) := by
  obtain ⟨settings, owns, same⟩ := item_owner hier known
  rw [← run.mask _ _ owns, same, maskOf, rscsOf, kept_rscs run.kept]

theorem Masks.shared (run : Masks default conts state masks) (item : Item) :
    (parm state.conts item).status.shrc = (parm conts item).status.shrc := by
  have flag := congrArg (fun settings : Parm => settings.status.shrc) (kept_parm run.kept item)
  exact flag

theorem create_affinity_mask_congr (numa : Numa) (default : Bitmask) {left right : SchedRscs}
    (same : left.affinity = right.affinity) (dep : Option Bitmask) :
    (createAffinityMask numa default left dep).affinityMask =
      (createAffinityMask numa default right dep).affinityMask := by
  unfold createAffinityMask
  rw [same]
  split <;> rfl

/-- The mask created depends on what the configuration says. -/
theorem Masks.created (run : Masks default conts state masks) (numa : Numa) (item : Item)
    (dep : Option Bitmask) :
    (createAffinityMask numa default (rscsOf state.conts item) dep).affinityMask =
      ownMask numa default conts item dep := by
  apply create_affinity_mask_congr
  rw [rscsOf, rscsOf, kept_rscs run.kept]
  have same := congrArg SchedRscs.affinity (run.kept.rscs (parm conts item).rscs)
  exact same

/-- Resources of one owner are written. -/
theorem Masks.write (run : Masks default conts state masks) (hier : Hierarchy conts)
    {holder : Holder} {settings : Parm} (owns : Owns conts holder settings) {value : SchedRscs}
    (same : { value with affinityMask := none } =
      { state.conts.rscsAt settings.rscs with affinityMask := none }) :
    Masks default conts { state with conts := state.conts.setRscs settings.rscs value }
      (Function.update masks holder value.affinityMask) where
  kept := kept_trans run.kept (set_rscs_kept _ _ _ same)
  rscs := run.rscs
  mask := by
    intro user other holds
    by_cases this : user = holder
    · have equal : other = settings := by
        rw [this] at holds
        exact Option.some.inj (holds.1.symm.trans owns.1)
      rw [this, equal, Function.update_self]
      exact congrArg SchedRscs.affinityMask (Function.update_self _ _ _)
    · have apart : other.rscs ≠ settings.rscs := fun equal =>
        this (hier.one_owner holds owns equal)
      rw [Function.update_of_ne this, ← run.mask user other holds]
      exact congrArg SchedRscs.affinityMask (Function.update_of_ne apart _ _)
  heads := run.heads
  tracer := run.tracer

/-- `pushResource` gives an element that shares no resources its own mask. -/
theorem Masks.push (run : Masks default conts state masks) (hier : Hierarchy conts) (numa : Numa)
    (known : Known conts item) (dep : Option Bitmask) :
    Masks default conts
      { state with conts := pushResource numa default state.conts item dep }
      (Function.update masks (holder item) (ownMask numa default conts item dep)) := by
  rw [pushResource, run.shared item]
  cases shared : (parm conts item).status.shrc with
  | true =>
      -- the holder owns nothing
      apply run.agree
      intro user settings owns
      apply Function.update_of_ne
      intro this
      rw [this] at owns
      cases owns.1.symm.trans known
      cases shared.symm.trans owns.2
  | false =>
      have pointer := kept_rscs run.kept item
      have same : rscsOf state.conts item = state.conts.rscsAt (parm conts item).rscs := by
        rw [rscsOf, pointer]
      have written := run.write hier ⟨known, shared⟩
        (create_affinity_mask_same numa default (rscsOf state.conts item) dep |>.trans (by rw [same]))
      rw [run.created numa item dep] at written
      rw [pointer]
      exact written

theorem Masks.narrow (run : Masks default conts state masks) (hier : Hierarchy conts)
    (known : Known conts item) {bm : Bitmask} {after : Containers}
    (narrows : Adaptive.narrow state.conts item bm = .ok after) :
    Masks default conts { state with conts := after }
      (Function.update masks (owner conts item)
        ((masks (owner conts item)).map fun whole => narrowed whole bm)) := by
  obtain ⟨settings, owns, same⟩ := item_owner hier known
  rw [Adaptive.narrow, run.seen hier known] at narrows
  split at narrows
  · rename_i empty
    cases narrows
    rw [Finset.card_eq_zero] at empty
    have still : (masks (owner conts item)).map (fun whole => narrowed whole bm) =
        masks (owner conts item) := by
      simp [narrowed, empty]
    rw [still, Function.update_eq_self]
    exact run
  · rename_i used
    rw [Finset.card_eq_zero] at used
    cases mask : masks (owner conts item) with
    | none =>
        rw [mask] at narrows
        cases narrows
    | some whole =>
        rw [mask] at narrows
        cases narrows
        have kept : { { rscsOf state.conts item with affinityMask := some (bm ∩ whole) } with
              affinityMask := none } =
            { state.conts.rscsAt settings.rscs with affinityMask := none } := by
          rw [rscsOf, kept_rscs run.kept, same]
        have written := run.write hier owns kept
        rw [Option.map_some, narrowed, if_neg used]
        rw [setMask, kept_rscs run.kept, ← same]
        exact written

theorem add_affinity (fp : Rounding) (rrtime : Int) (trcs : Tracers) (trc : Nat) (par : SchedAttr)
    (tracer : ∀ trc, (trcs.trcAt trc).affinity = {trc}) (other : Nat) :
    ((trcs.add fp rrtime trc par).2.trcAt other).affinity = {other} := by
  by_cases this : other = trc
  · subst this
    have written := Function.update_self other
      (checkUvalue fp rrtime (trcs.trcAt other) par true).2 trcs.trcAt
    exact (congrArg ResTracer.affinity written).trans (tracer other)
  · exact (congrArg ResTracer.affinity (Function.update_of_ne this _ _)).trans (tracer other)

/-- The tracer found for a mask has its CPU in the mask. -/
theorem target_in_mask (numa : Numa) (trcs : Tracers) (mask : Bitmask) {trc : Nat}
    (tracer : ∀ trc, (trcs.trcAt trc).affinity = {trc})
    (found : addTracerTarget numa trcs mask (-1) = some trc) :
    trc ∈ trcs.rHead ∧ trc ∈ mask := by
  refine ⟨List.mem_of_find?_eq_some found, ?_⟩
  have holds := List.find?_some found
  simp only [isbitset, getTracerMainCPU, tracer, Finset.mem_singleton] at holds
  cases main : (List.range numa.size).find? fun cpu => decide (cpu = trc) with
  | none => simp [main] at holds
  | some cpu =>
      have equal := List.find?_some main
      simp only [decide_eq_true_eq] at equal
      subst equal
      simpa [main] using holds

/-- `addTracerFix` leaves the masks, and a single CPU has a tracer. -/
theorem Masks.fix (run : Masks default conts state masks) (hier : Hierarchy conts) {fp : Rounding}
    {numa : Numa} {rrtime : Int} (known : Known conts item) {after : Globals} {alloc : ResAlloc}
    (fixes : addTracerFix fp numa rrtime state item = .ok (after, alloc)) :
    Masks default conts after masks ∧ Fits default (masks (owner conts item)) := by
  rw [addTracerFix, run.seen hier known] at fixes
  cases mask : masks (owner conts item) with
  | none =>
      rw [mask] at fixes
      cases fixes
  | some cpus =>
      rw [mask] at fixes
      simp only at fixes
      split_ifs at fixes with single refused
      · unfold addTracer at fixes refused
        cases found : addTracerTarget numa state.trcs cpus (-1) with
        | none => simp [found] at refused
        | some trc =>
            simp only [found] at fixes
            cases fixes
            obtain ⟨head, inside⟩ := target_in_mask numa state.trcs cpus run.tracer found
            refine ⟨⟨kept_trans run.kept (set_cfix_kept state.conts item), ?_, ?_, run.heads,
              add_affinity fp rrtime state.trcs trc _ run.tracer⟩, cpus, rfl, fun _ => ?_⟩
            · rw [← run.rscs]
              cases item <;> rfl
            · intro user settings owns
              rw [set_cfix_rscs_at]
              exact run.mask user settings owns
            · obtain ⟨cpu, rfl⟩ := Finset.card_eq_one.mp single
              rw [Finset.singleton_subset_iff, ← Finset.mem_singleton.mp inside]
              exact run.heads trc head
      · cases fixes
        exact ⟨run, cpus, rfl, fun one => absurd one single⟩

end Steps

end Orchestrator.MaskRun
