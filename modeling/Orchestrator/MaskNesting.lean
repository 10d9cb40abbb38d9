import Orchestrator.Coverage
import Orchestrator.FinalMasks

/-!
Nested masks. The masks of a hierarchy nest, and none is empty, exactly when the
fixed CPUs of its elements agree with the masks above them.
-/

namespace Orchestrator.MaskNesting
open Orchdata Resmgnt Adaptive Prepare SettingsOwners Ownership Narrowing MaskTree MaskRun MaskWalk FinalMasks
open Coverage ParseConfig ConfigGraph Traversal

def cpusOf (mask : Option Bitmask) : Bitmask := mask.getD ∅

/-- A mask that is not empty and lies in the default one. -/
def Proper (default : Bitmask) (mask : Option Bitmask) : Prop :=
  ∃ cpus, mask = some cpus ∧ cpus.Nonempty ∧ cpus ⊆ default

/-- All masks are proper, and those of parts lie in the one above. -/
structure Nests (default : Bitmask) (conts : Containers) (mask : Item → Option Bitmask) : Prop where
  item : ∀ item, IsElement conts item → Proper default (mask item)
  pidCont : ∀ p ∈ conts.pids, ∀ c, (conts.pidcAt p).cont = some (.cont c) →
    cpusOf (mask (.pid p)) ⊆ cpusOf (mask (.cont c))
  pidImg : ∀ p ∈ conts.pids, ∀ i, (conts.pidcAt p).img = some i →
    cpusOf (mask (.pid p)) ⊆ cpusOf (mask (.img i))
  contImg : ∀ c ∈ conts.cont, ∀ i, (conts.contAt c).img = some i →
    cpusOf (mask (.cont c)) ⊆ cpusOf (mask (.img i))

/-- The CPU the resources of an element are fixed to. -/
def fixedCpu (conts : Containers) (item : Item) : Option Nat :=
  if 0 ≤ (rscsOf conts item).affinity then some (rscsOf conts item).affinity.toNat else none

/-- A fixed CPU lies in the mask that the element above starts with. A PID in the
lists of its container and of its image gets its mask from both, and the one from
the image, if it is not fixed, lies in the container's. -/
structure Aligned (numa : Numa) (default : Bitmask) (conts : Containers) : Prop where
  cont : ∀ c ∈ conts.cont, ∀ i, (conts.contAt c).img = some i →
    (conts.contAt c).status.shrc = false → ∀ cpu, fixedCpu conts (.cont c) = some cpu →
    cpu ∈ cpusOf (imgBase numa default conts i)
  pidCont : ∀ c ∈ conts.cont, ∀ p ∈ (conts.contAt c).pids,
    (conts.pidcAt p).status.shrc = false → ∀ cpu, fixedCpu conts (.pid p) = some cpu →
    cpu ∈ cpusOf (contBase numa default conts c)
  pidImg : ∀ i ∈ conts.img, ∀ p ∈ (conts.imgAt i).pids,
    (conts.pidcAt p).status.shrc = false → ∀ cpu, fixedCpu conts (.pid p) = some cpu →
    cpu ∈ cpusOf (imgBase numa default conts i)
  both : ∀ i ∈ conts.img, ∀ c ∈ conts.cont, ∀ p ∈ (conts.imgAt i).pids,
    p ∈ (conts.contAt c).pids → (conts.pidcAt p).status.shrc = false →
    fixedCpu conts (.pid p) = none →
    cpusOf (imgBase numa default conts i) ∩ default ⊆ cpusOf (contBase numa default conts c)

section Parts
variable {default : Bitmask} {mask part : Option Bitmask} {parts : List (Option Bitmask)}

theorem narrowed_mask_inside : cpusOf (narrowedMask mask parts) ⊆ cpusOf mask := by
  cases mask with
  | none => exact Finset.Subset.refl _
  | some whole => exact narrowed_subset

/-- What a part uses inside of the whole is left. -/
theorem inside_narrowed {cpus : Bitmask} (inside : cpus ⊆ cpusOf mask) (used : cpus ⊆ cpusOf part)
    (member : part ∈ parts) : cpus ⊆ cpusOf (narrowedMask mask parts) := by
  cases mask with
  | none => exact inside
  | some whole =>
      apply subset_narrowed inside
      exact used.trans (subset_union (List.mem_map_of_mem (f := fun part => part.getD ∅) member))

theorem parts_inside (inside : ∀ part ∈ parts, cpusOf part ⊆ cpusOf mask) :
    union (parts.map fun part => part.getD ∅) ⊆ cpusOf mask := by
  apply union_subset
  intro cpus member
  obtain ⟨part, listed, rfl⟩ := List.mem_map.mp member
  exact inside part listed

theorem narrowed_mask_proper (proper : Proper default mask)
    (inside : ∀ part ∈ parts, cpusOf part ⊆ cpusOf mask) :
    Proper default (narrowedMask mask parts) := by
  obtain ⟨whole, rfl, some, bound⟩ := proper
  exact ⟨_, rfl, narrowed_nonempty some (parts_inside inside), narrowed_subset.trans bound⟩

/-- A single CPU that is left has a tracer. -/
theorem single_proper {cpu : Nat} (single : mask = some {cpu})
    (inside : ∀ part ∈ parts, cpusOf part ⊆ cpusOf mask)
    (fits : Fits default (narrowedMask mask parts)) : Proper default mask := by
  subst single
  obtain ⟨cpus, same, bound⟩ := fits
  cases same
  have left := narrowed_nonempty (Finset.singleton_nonempty cpu) (parts_inside inside)
  have whole := (Finset.subset_singleton_iff.mp narrowed_subset).resolve_left
    (Finset.nonempty_iff_ne_empty.mp left)
  beta_reduce at bound
  rw [whole] at bound
  exact ⟨_, rfl, Finset.singleton_nonempty cpu, bound (Finset.card_singleton cpu)⟩

end Parts

section Own
variable {numa : Numa} {default : Bitmask} {conts : Containers} {item : Item} {dep : Option Bitmask}

theorem own_fixed {cpu : Nat} (fixed : fixedCpu conts item = some cpu) :
    ownMask numa default conts item dep = numa.parseCpu cpu := by
  obtain ⟨known, same⟩ := Option.ite_none_right_eq_some.mp fixed
  cases same
  unfold ownMask createAffinityMask
  rw [if_pos known]

theorem own_free (free : fixedCpu conts item = none) (up : Bitmask) :
    ownMask numa default conts item (some up) = some (up ∩ default) := by
  rw [fixedCpu, ite_eq_right_iff] at free
  unfold ownMask createAffinityMask
  rw [if_neg fun known => by cases free known]

theorem own_root (free : fixedCpu conts item = none) :
    ownMask numa default conts item none = some default := by
  rw [fixedCpu, ite_eq_right_iff] at free
  unfold ownMask createAffinityMask
  rw [if_neg fun known => by cases free known]

theorem parse_some {cpu : Nat} {cpus : Bitmask} (parsed : numa.parseCpu cpu = some cpus) :
    cpus = {cpu} := by
  obtain ⟨_, same⟩ := Option.ite_none_right_eq_some.mp parsed
  exact (Option.some.inj same).symm

/-- The mask of an element lies in the one above. -/
theorem own_inside (known : dep.isSome)
    (fixed : ∀ cpu, fixedCpu conts item = some cpu → cpu ∈ cpusOf dep) :
    cpusOf (ownMask numa default conts item dep) ⊆ cpusOf dep := by
  obtain ⟨up, rfl⟩ := Option.isSome_iff_exists.mp known
  cases cpu : fixedCpu conts item with
  | none =>
      rw [own_free cpu]
      exact Finset.inter_subset_left
  | some cpu' =>
      rw [own_fixed cpu]
      cases parsed : numa.parseCpu cpu' with
      | none => exact Finset.empty_subset _
      | some cpus =>
          rw [parse_some parsed]
          exact Finset.singleton_subset_iff.mpr (fixed cpu' cpu)

/-- A mask that follows none. -/
def Root (numa : Numa) (default : Bitmask) (mask : Option Bitmask) : Prop :=
  mask = some default ∨ ∃ cpu, mask = numa.parseCpu cpu

theorem global_root (numa : Numa) (default : Bitmask) (conts : Containers) :
    Root numa default (globalMask numa default conts) := by
  unfold globalMask createAffinityMask
  split
  · exact .inr ⟨_, rfl⟩
  · exact .inl rfl

theorem own_is_root : Root numa default (ownMask numa default conts item none) := by
  cases fixed : fixedCpu conts item with
  | none => exact .inl (own_root fixed)
  | some cpu => exact .inr ⟨cpu, own_fixed fixed⟩

theorem root_proper {mask : Option Bitmask} {parts : List (Option Bitmask)}
    (root : Root numa default mask) (some : default.Nonempty)
    (inside : ∀ part ∈ parts, cpusOf part ⊆ cpusOf mask)
    (fits : Fits default (narrowedMask mask parts)) : Proper default mask := by
  rcases root with rfl | ⟨cpu, parse⟩
  · exact ⟨default, rfl, some, Finset.Subset.refl _⟩
  · cases parsed : numa.parseCpu cpu with
    | none =>
        rw [parse, parsed] at fits
        obtain ⟨_, none, _⟩ := fits
        cases none
    | some cpus => exact single_proper (by rw [parse, parsed, parse_some parsed]) inside fits

theorem root_fits {mask : Option Bitmask} (root : Root numa default mask)
    (some : default.Nonempty) (fits : Fits default mask) : Proper default mask := by
  have same : narrowedMask mask [] = mask := by
    cases mask <;> rfl
  exact root_proper root some (fun part member => by cases member) (same.symm ▸ fits)

/-- A mask below a proper one, with its CPU inside. -/
theorem own_proper (proper : Proper default dep)
    (fixed : ∀ cpu, fixedCpu conts item = some cpu → cpu ∈ cpusOf dep)
    (known : (ownMask numa default conts item dep).isSome) :
    Proper default (ownMask numa default conts item dep) := by
  obtain ⟨up, rfl, some, bound⟩ := proper
  cases cpu : fixedCpu conts item with
  | none =>
      rw [own_free cpu, Finset.inter_eq_left.mpr bound]
      exact ⟨up, rfl, some, bound⟩
  | some only =>
      rw [own_fixed cpu] at known ⊢
      obtain ⟨cpus, parsed⟩ := Option.isSome_iff_exists.mp known
      have same := parse_some parsed
      subst same
      exact ⟨_, parsed, Finset.singleton_nonempty only,
        Finset.singleton_subset_iff.mpr (bound (fixed only cpu))⟩

end Own

section Tree
variable {numa : Numa} {default : Bitmask} {conts : Containers} {state : Globals}

theorem fits_some {mask : Option Bitmask} (fits : Fits default mask) : mask.isSome := by
  obtain ⟨cpus, rfl, _⟩ := fits
  rfl

theorem narrowed_mask_some {mask : Option Bitmask} {parts : List (Option Bitmask)}
    (some : (narrowedMask mask parts).isSome) : mask.isSome := by
  rw [narrowedMask, Option.isSome_map] at some
  exact some

theorem img_base_some (prepared : MaskPrepared numa default conts state) {i : Nat}
    (listed : i ∈ conts.img) : (imgBase numa default conts i).isSome := by
  have some := fits_some (prepared.img i listed).mask
  cases shared : (conts.imgAt i).status.shrc with
  | true => rwa [img_mask_shared shared] at some
  | false =>
      rw [img_mask_own shared] at some
      exact narrowed_mask_some some

theorem cont_base_some (prepared : MaskPrepared numa default conts state) (reached : Reached conts)
    {c : Nat} (listed : c ∈ conts.cont) : (contBase numa default conts c).isSome := by
  have some := fits_some (prepared.inner_fits reached listed).1
  cases shared : (conts.contAt c).status.shrc with
  | true => rwa [cont_mask_shared shared] at some
  | false =>
      rw [cont_mask_own shared] at some
      exact narrowed_mask_some some

theorem cont_base_shared {c i : Nat} (image : (conts.contAt c).img = some i)
    (shared : (conts.contAt c).status.shrc = true) :
    contBase numa default conts c = imgBase numa default conts i := by
  rw [contBase, image, shared]
  rfl

theorem cont_base_own {c i : Nat} (image : (conts.contAt c).img = some i)
    (own : (conts.contAt c).status.shrc = false) :
    contBase numa default conts c =
      ownMask numa default conts (.cont c) (imgBase numa default conts i) := by
  rw [contBase, image, own]
  rfl

theorem cont_base_inside (aligned : Aligned numa default conts)
    (prepared : MaskPrepared numa default conts state) (reached : Reached conts) {c i : Nat}
    (listed : c ∈ conts.cont) (image : (conts.contAt c).img = some i) :
    cpusOf (contBase numa default conts c) ⊆ cpusOf (imgBase numa default conts i) := by
  cases shared : (conts.contAt c).status.shrc with
  | true => rw [cont_base_shared image shared]
  | false =>
      rw [cont_base_own image shared]
      exact own_inside (img_base_some prepared (reached.contImg c listed i image).1)
        (aligned.cont c listed i image shared)

theorem cont_mask_inside {c : Nat} :
    cpusOf (contMask numa default conts c) ⊆ cpusOf (contBase numa default conts c) := by
  rw [contMask]
  split
  · exact Finset.Subset.refl _
  · exact narrowed_mask_inside

theorem img_mask_inside {i : Nat} :
    cpusOf (imgMask numa default conts i) ⊆ cpusOf (imgBase numa default conts i) := by
  rw [imgMask]
  split
  · exact Finset.Subset.refl _
  · exact narrowed_mask_inside

theorem cont_parts_inside (aligned : Aligned numa default conts)
    (prepared : MaskPrepared numa default conts state) (reached : Reached conts) {c : Nat}
    (listed : c ∈ conts.cont) : ∀ part ∈ contParts numa default conts c,
      cpusOf part ⊆ cpusOf (contBase numa default conts c) := by
  intro part member
  obtain ⟨p, inside, rfl⟩ := List.mem_map.mp member
  split
  · exact Finset.Subset.refl _
  · rename_i own
    exact own_inside (cont_base_some prepared reached listed)
      (aligned.pidCont c listed p inside (Bool.eq_false_iff.mpr own))

theorem img_parts_inside (aligned : Aligned numa default conts)
    (prepared : MaskPrepared numa default conts state) (hier : Hierarchy conts)
    (reached : Reached conts) {i : Nat} (listed : i ∈ conts.img) :
    ∀ part ∈ imgParts numa default conts i,
      cpusOf part ⊆ cpusOf (imgBase numa default conts i) := by
  have inner : ∀ c ∈ (conts.imgAt i).conts,
      cpusOf (contMask numa default conts c) ⊆ cpusOf (imgBase numa default conts i) := by
    intro c member
    obtain ⟨known, image⟩ := hier.imgConts i listed c member
    exact cont_mask_inside.trans (cont_base_inside aligned prepared reached known image)
  intro part member
  rcases List.mem_append.mp member with fromCont | fromPid
  · obtain ⟨c, inside, rfl⟩ := List.mem_map.mp fromCont
    exact inner c inside
  · obtain ⟨p, inside, rfl⟩ := List.mem_map.mp fromPid
    split
    · cases cont : (conts.pidcAt p).cont with
      | none => exact Finset.Subset.refl _
      | some ptr =>
          rcases (hier.imgPids i listed p inside).2.2 ptr cont with rfl | ⟨c, owned, rfl⟩
          · exact Finset.Subset.refl _
          · exact inner c owned
    · rename_i own
      exact own_inside (img_base_some prepared listed)
        (aligned.pidImg i listed p inside (Bool.eq_false_iff.mpr own))

theorem img_base_proper (aligned : Aligned numa default conts)
    (prepared : MaskPrepared numa default conts state) (hier : Hierarchy conts)
    (reached : Reached conts) (some : default.Nonempty) {i : Nat} (listed : i ∈ conts.img) :
    Proper default (imgBase numa default conts i) := by
  have fits := (prepared.img i listed).mask
  cases shared : (conts.imgAt i).status.shrc with
  | true =>
      have same : imgBase numa default conts i = globalMask numa default conts := if_pos shared
      rw [img_mask_shared shared, same] at fits
      rw [same]
      exact root_fits (global_root numa default conts) some fits
  | false =>
      have same : imgBase numa default conts i = ownMask numa default conts (.img i) none := by
        rw [imgBase, shared]
        rfl
      rw [img_mask_own shared] at fits
      exact root_proper (same ▸ own_is_root) some (img_parts_inside aligned prepared hier reached listed)
        fits

theorem cont_base_proper (aligned : Aligned numa default conts)
    (prepared : MaskPrepared numa default conts state) (hier : Hierarchy conts)
    (reached : Reached conts) (some : default.Nonempty) {c : Nat} (listed : c ∈ conts.cont) :
    Proper default (contBase numa default conts c) := by
  have fits := (prepared.inner_fits reached listed).1
  cases image : (conts.contAt c).img with
  | some i =>
      have upper := img_base_proper aligned prepared hier reached some
        (reached.contImg c listed i image).1
      cases shared : (conts.contAt c).status.shrc with
      | true =>
          rw [cont_base_shared image shared]
          exact upper
      | false =>
          have known := cont_base_some prepared reached listed
          rw [cont_base_own image shared] at known ⊢
          exact own_proper upper (aligned.cont c listed i image shared) known
  | none =>
      have root : Root numa default (contBase numa default conts c) := by
        rw [contBase, image]
        cases (conts.contAt c).status.shrc with
        | true => exact global_root numa default conts
        | false => exact own_is_root
      cases shared : (conts.contAt c).status.shrc with
      | true =>
          rw [cont_mask_shared shared] at fits
          exact root_fits root some fits
      | false =>
          rw [cont_mask_own shared] at fits
          exact root_proper root some (cont_parts_inside aligned prepared reached listed) fits

theorem cont_mask_proper (aligned : Aligned numa default conts)
    (prepared : MaskPrepared numa default conts state) (hier : Hierarchy conts)
    (reached : Reached conts) (some : default.Nonempty) {c : Nat} (listed : c ∈ conts.cont) :
    Proper default (contMask numa default conts c) := by
  have base := cont_base_proper aligned prepared hier reached some listed
  cases shared : (conts.contAt c).status.shrc with
  | true => rwa [cont_mask_shared shared]
  | false =>
      rw [cont_mask_own shared]
      exact narrowed_mask_proper base (cont_parts_inside aligned prepared reached listed)

theorem img_mask_proper (aligned : Aligned numa default conts)
    (prepared : MaskPrepared numa default conts state) (hier : Hierarchy conts)
    (reached : Reached conts) (some : default.Nonempty) {i : Nat} (listed : i ∈ conts.img) :
    Proper default (imgMask numa default conts i) := by
  have base := img_base_proper aligned prepared hier reached some listed
  cases shared : (conts.imgAt i).status.shrc with
  | true => rwa [img_mask_shared shared]
  | false =>
      rw [img_mask_own shared]
      exact narrowed_mask_proper base (img_parts_inside aligned prepared hier reached listed)

theorem pid_final_own {p : Nat} (own : (conts.pidcAt p).status.shrc = false) :
    finalMask conts numa default (.pid p) =
      ownMask numa default conts (.pid p) (pidDep numa default conts p) := by
  rw [finalMask, owner, own]
  rfl

theorem pid_final_cont {p c : Nat} (shared : (conts.pidcAt p).status.shrc = true)
    (cont : (conts.pidcAt p).cont = some (.cont c)) :
    finalMask conts numa default (.pid p) = finalMask conts numa default (.cont c) := by
  rw [finalMask, finalMask, owner, owner, shared, if_pos rfl, pidAbove, cont]
  rfl

/-- A PID listed by an image without a container shares the image's mask. -/
theorem pid_final_img {p i : Nat} (shared : (conts.pidcAt p).status.shrc = true)
    (image : (conts.pidcAt p).img = some i)
    (cont : (conts.pidcAt p).cont = none ∨ (conts.pidcAt p).cont = some (.img i)) :
    finalMask conts numa default (.pid p) = finalMask conts numa default (.img i) := by
  rw [finalMask, finalMask, owner, owner, shared, if_pos rfl, pidAbove, image]
  rcases cont with cont | cont <;> rw [cont] <;> rfl

/-- The image of a PID lists it, or is the one of its container. -/
theorem pid_place (hier : Hierarchy conts) (reached : Reached conts) {p i : Nat}
    (listed : p ∈ conts.pids) (image : (conts.pidcAt p).img = some i) :
    (∃ c, (conts.pidcAt p).cont = some (.cont c) ∧ (conts.contAt c).img = some i) ∨
      p ∈ (conts.imgAt i).pids ∧
        ((conts.pidcAt p).cont = none ∨ (conts.pidcAt p).cont = some (.img i)) := by
  obtain ⟨_, direct, nested⟩ := reached.pidImg p listed i image
  cases cont : (conts.pidcAt p).cont with
  | none => exact .inr ⟨direct cont, .inl rfl⟩
  | some ptr =>
      rcases reached.pidCont p listed ptr cont with ⟨c, _, rfl, _⟩ | ⟨j, known, rfl, member⟩
      · exact .inl ⟨c, rfl, nested c cont⟩
      · cases image.symm.trans (hier.imgPids j known p member).2.1
        exact .inr ⟨member, .inr rfl⟩

theorem inside_cont {c : Nat} {cpus : Bitmask} {part : Option Bitmask}
    (inside : cpus ⊆ cpusOf (contBase numa default conts c)) (used : cpus ⊆ cpusOf part)
    (member : part ∈ contParts numa default conts c) :
    cpus ⊆ cpusOf (contMask numa default conts c) := by
  rw [contMask]
  split
  · exact inside
  · exact inside_narrowed inside used member

theorem inside_img {i : Nat} {cpus : Bitmask} {part : Option Bitmask}
    (inside : cpus ⊆ cpusOf (imgBase numa default conts i)) (used : cpus ⊆ cpusOf part)
    (member : part ∈ imgParts numa default conts i) :
    cpus ⊆ cpusOf (imgMask numa default conts i) := by
  rw [imgMask]
  split
  · exact inside
  · exact inside_narrowed inside used member

/-- The last mask of a PID lies in the one it had when its container was narrowed. -/
theorem pid_used (aligned : Aligned numa default conts)
    (prepared : MaskPrepared numa default conts state) (hier : Hierarchy conts)
    (reached : Reached conts) {c p : Nat} (listed : c ∈ conts.cont)
    (member : p ∈ (conts.contAt c).pids) (own : (conts.pidcAt p).status.shrc = false) :
    cpusOf (ownMask numa default conts (.pid p) (pidDep numa default conts p)) ⊆
      cpusOf (ownMask numa default conts (.pid p) (contBase numa default conts c)) := by
  by_cases direct : ∃ i ∈ conts.img, p ∈ (conts.imgAt i).pids
  · obtain ⟨i, known, inside⟩ := direct
    rw [pid_dep_direct hier known inside]
    cases fixed : fixedCpu conts (.pid p) with
    | some cpu => rw [own_fixed fixed, own_fixed fixed]
    | none =>
        obtain ⟨upper, base⟩ := Option.isSome_iff_exists.mp (img_base_some prepared known)
        obtain ⟨outer, above⟩ := Option.isSome_iff_exists.mp (cont_base_some prepared reached listed)
        have both := aligned.both i known c listed p inside member own fixed
        rw [base, above] at both ⊢
        rw [own_free fixed, own_free fixed]
        exact Finset.subset_inter both Finset.inter_subset_right
  · rw [pid_dep_cont hier listed member fun i image _ inside => direct ⟨i, image, inside⟩,
      cont_dep hier listed member]

theorem pid_in_cont (aligned : Aligned numa default conts)
    (prepared : MaskPrepared numa default conts state) (hier : Hierarchy conts)
    (reached : Reached conts) {c p : Nat} (listed : c ∈ conts.cont)
    (member : p ∈ (conts.contAt c).pids) :
    cpusOf (finalMask conts numa default (.pid p)) ⊆
      cpusOf (finalMask conts numa default (.cont c)) := by
  cases shared : (conts.pidcAt p).status.shrc with
  | true => rw [pid_final_cont shared (hier.contPids c listed p member).2]
  | false =>
      rw [pid_final_own shared, cont_final reached listed]
      have used := pid_used aligned prepared hier reached listed member shared
      have inside : cpusOf (ownMask numa default conts (.pid p) (contBase numa default conts c)) ⊆
          cpusOf (contBase numa default conts c) :=
        own_inside (cont_base_some prepared reached listed)
          (aligned.pidCont c listed p member shared)
      apply inside_cont (used.trans inside) used
      apply List.mem_map.mpr
      exact ⟨p, member, by rw [shared]; rfl⟩

theorem cont_in_img (aligned : Aligned numa default conts)
    (prepared : MaskPrepared numa default conts state) (reached : Reached conts) {c i : Nat}
    (listed : c ∈ conts.cont) (image : (conts.contAt c).img = some i) :
    cpusOf (finalMask conts numa default (.cont c)) ⊆
      cpusOf (finalMask conts numa default (.img i)) := by
  rw [cont_final reached listed, img_final]
  apply inside_img (cont_mask_inside.trans (cont_base_inside aligned prepared reached listed image))
    (Finset.Subset.refl _)
  exact List.mem_append_left _ (List.mem_map_of_mem (reached.contImg c listed i image).2)

theorem pid_in_img (aligned : Aligned numa default conts)
    (prepared : MaskPrepared numa default conts state) (hier : Hierarchy conts)
    (reached : Reached conts) {p i : Nat} (listed : p ∈ conts.pids)
    (image : (conts.pidcAt p).img = some i) :
    cpusOf (finalMask conts numa default (.pid p)) ⊆
      cpusOf (finalMask conts numa default (.img i)) := by
  have known := (reached.pidImg p listed i image).1
  rcases pid_place hier reached listed image with ⟨c, cont, nested⟩ | ⟨member, cont⟩
  · rcases reached.pidCont p listed _ cont with ⟨other, inside, same, member⟩ | ⟨_, _, same, _⟩
    · cases same
      exact (pid_in_cont aligned prepared hier reached inside member).trans
        (cont_in_img aligned prepared reached inside nested)
    · cases same
  · cases shared : (conts.pidcAt p).status.shrc with
    | true => rw [pid_final_img shared image cont]
    | false =>
        rw [pid_final_own shared, img_final, pid_dep_direct hier known member]
        apply inside_img (own_inside (img_base_some prepared known)
          (aligned.pidImg i known p member shared)) (Finset.Subset.refl _)
        apply List.mem_append_right
        apply List.mem_map.mpr
        exact ⟨p, member, by rw [shared]; rfl⟩

theorem own_pid_proper (aligned : Aligned numa default conts)
    (prepared : MaskPrepared numa default conts state) (hier : Hierarchy conts)
    (reached : Reached conts) (some : default.Nonempty) {p : Nat} (listed : p ∈ conts.pids)
    (own : (conts.pidcAt p).status.shrc = false) :
    Proper default (ownMask numa default conts (.pid p) (pidDep numa default conts p)) := by
  have fits := prepared.pid_fits hier reached listed own
  rw [target] at fits
  by_cases direct : ∃ i ∈ conts.img, p ∈ (conts.imgAt i).pids
  · obtain ⟨i, known, member⟩ := direct
    rw [pid_dep_direct hier known member] at fits ⊢
    exact own_proper (img_base_proper aligned prepared hier reached some known)
      (aligned.pidImg i known p member own) (fits_some fits)
  · rcases pid_reached reached listed with inside | ⟨c, known, member⟩ | lone
    · exact absurd inside direct
    · rw [pid_dep_cont hier known member fun i image _ inside => direct ⟨i, image, inside⟩,
        cont_dep hier known member] at fits ⊢
      exact own_proper (cont_base_proper aligned prepared hier reached some known)
        (aligned.pidCont c known p member own) (fits_some fits)
    · obtain ⟨_, image, cont⟩ := (lone_member _ p).mp lone
      rw [lone_dep image cont] at fits ⊢
      exact root_fits own_is_root some fits

theorem final_proper (aligned : Aligned numa default conts)
    (prepared : MaskPrepared numa default conts state) (hier : Hierarchy conts)
    (reached : Reached conts) (some : default.Nonempty) {item : Item}
    (element : IsElement conts item) : Proper default (finalMask conts numa default item) := by
  cases item with
  | img i =>
      rw [img_final]
      exact img_mask_proper aligned prepared hier reached some element
  | cont c =>
      rw [cont_final reached element]
      exact cont_mask_proper aligned prepared hier reached some element
  | pid p =>
      have listed : p ∈ conts.pids := element
      cases shared : (conts.pidcAt p).status.shrc with
      | false =>
          rw [pid_final_own shared]
          exact own_pid_proper aligned prepared hier reached some listed shared
      | true =>
          cases image : (conts.pidcAt p).img with
          | some i =>
              rcases pid_place hier reached listed image with ⟨c, cont, _⟩ | ⟨_, cont⟩
              · rcases reached.pidCont p listed _ cont with ⟨other, inside, same, _⟩ | ⟨_, _, same, _⟩
                · cases same
                  rw [pid_final_cont shared cont, cont_final reached inside]
                  exact cont_mask_proper aligned prepared hier reached some inside
                · cases same
              · rw [pid_final_img shared image cont, img_final]
                exact img_mask_proper aligned prepared hier reached some
                  (reached.pidImg p listed i image).1
          | none =>
              cases cont : (conts.pidcAt p).cont with
              | some ptr =>
                  rcases reached.pidCont p listed ptr cont with ⟨c, inside, rfl, _⟩ | ⟨i, known, rfl, member⟩
                  · rw [pid_final_cont shared cont, cont_final reached inside]
                    exact cont_mask_proper aligned prepared hier reached some inside
                  · cases image.symm.trans (hier.imgPids i known p member).2.1
              | none =>
                  have fits := prepared.lone p ((lone_member _ p).mpr ⟨listed, image, cont⟩)
                  have same : finalMask conts numa default (.pid p) = globalMask numa default conts := by
                    rw [finalMask, owner_lone image cont, shared]
                    rfl
                  rw [same] at fits ⊢
                  exact root_fits (global_root numa default conts) some fits

/-- Masks that nest have their fixed CPUs inside of the masks above. -/
theorem aligned_of_nests (prepared : MaskPrepared numa default conts state) (hier : Hierarchy conts)
    (reached : Reached conts) (nests : Nests default conts (finalMask conts numa default)) :
    Aligned numa default conts := by
  have inCont : ∀ c ∈ conts.cont, cpusOf (finalMask conts numa default (.cont c)) ⊆
      cpusOf (contBase numa default conts c) := by
    intro c listed
    rw [cont_final reached listed]
    exact cont_mask_inside
  have inImg : ∀ i, cpusOf (finalMask conts numa default (.img i)) ⊆
      cpusOf (imgBase numa default conts i) := by
    intro i
    rw [img_final]
    exact img_mask_inside
  have fixedPid : ∀ p ∈ conts.pids, (conts.pidcAt p).status.shrc = false → ∀ cpu,
      fixedCpu conts (.pid p) = some cpu → cpu ∈ cpusOf (finalMask conts numa default (.pid p)) := by
    intro p listed own cpu fixed
    obtain ⟨cpus, same, _, _⟩ := nests.item (.pid p) listed
    rw [same]
    rw [pid_final_own own, own_fixed fixed] at same
    rw [parse_some same]
    exact Finset.mem_singleton_self cpu
  constructor
  · intro c listed i image own cpu fixed
    obtain ⟨cpus, same, some, _⟩ := nests.item (.cont c) listed
    -- what is left of the fixed CPU is that CPU
    have inside := inCont c listed
    rw [cont_base_own image own, own_fixed fixed, same] at inside
    obtain ⟨left, member⟩ := some
    have only : left = cpu := by
      have found := inside member
      cases parsed : numa.parseCpu cpu with
      | none =>
          rw [parsed] at found
          cases found
      | some whole =>
          rw [parsed, parse_some parsed] at found
          exact Finset.mem_singleton.mp found
    have up := nests.contImg c listed i image
    rw [same] at up
    exact inImg i (only ▸ up member)
  · intro c listed p member own cpu fixed
    obtain ⟨known, cont⟩ := hier.contPids c listed p member
    exact inCont c listed (nests.pidCont p known c cont (fixedPid p known own cpu fixed))
  · intro i listed p member own cpu fixed
    obtain ⟨known, image, _⟩ := hier.imgPids i listed p member
    exact inImg i (nests.pidImg p known i image (fixedPid p known own cpu fixed))
  · intro i listed c known p member inside own free
    obtain ⟨pid, cont⟩ := hier.contPids c known p inside
    have down := (nests.pidCont p pid c cont).trans (inCont c known)
    obtain ⟨upper, base⟩ := Option.isSome_iff_exists.mp (img_base_some prepared listed)
    rw [pid_final_own own, pid_dep_direct hier listed member, base, own_free free] at down
    rw [base]
    exact down

end Tree

theorem known_element {conts : Containers} {item : Item} (element : IsElement conts item) :
    Known conts item := by
  cases item with
  | img i => exact known_img element
  | cont c => exact known_cont element
  | pid p => exact known_pid element

/-- Where no mask is narrowed through an element that only shares it, the masks
nest exactly when the fixed CPUs agree with the masks above. -/
theorem masks_nest_iff (fp : Rounding) (numa : Numa) (set : PrgSet) (conts : Containers)
    (default : Bitmask) (sched : Schedule) (hier : Hierarchy conts) (reached : Reached conts)
    (mask : set.affinityMask = some default) (some : default.Nonempty)
    (unnarrowed : Unnarrowed numa default conts)
    (run : adaptPrepareSchedule fp numa set conts = .ok sched) :
    Nests default conts (maskOf sched.1.conts) ↔ Aligned numa default conts := by
  have prepared := prepared_masks hier unnarrowed mask run
  have ends : ∀ item, IsElement conts item →
      maskOf sched.1.conts item = finalMask conts numa default item :=
    fun item element => prepared.ends hier reached (known_element element)
  constructor
  · intro nests
    apply aligned_of_nests prepared hier reached
    constructor
    · intro item element
      rw [← ends item element]
      exact nests.item item element
    · intro p listed c cont
      rcases reached.pidCont p listed _ cont with ⟨other, known, same, _⟩ | ⟨_, _, same, _⟩
      · cases same
        rw [← ends (.pid p) listed, ← ends (.cont c) known]
        exact nests.pidCont p listed c cont
      · cases same
    · intro p listed i image
      rw [← ends (.pid p) listed, ← ends (.img i) (reached.pidImg p listed i image).1]
      exact nests.pidImg p listed i image
    · intro c listed i image
      rw [← ends (.cont c) listed, ← ends (.img i) (reached.contImg c listed i image).1]
      exact nests.contImg c listed i image
  · intro aligned
    constructor
    · intro item element
      rw [ends item element]
      exact final_proper aligned prepared hier reached some element
    · intro p listed c cont
      rcases reached.pidCont p listed _ cont with ⟨other, known, same, member⟩ | ⟨_, _, same, _⟩
      · cases same
        rw [ends (.pid p) listed, ends (.cont c) known]
        exact pid_in_cont aligned prepared hier reached known member
      · cases same
    · intro p listed i image
      rw [ends (.pid p) listed, ends (.img i) (reached.pidImg p listed i image).1]
      exact pid_in_img aligned prepared hier reached listed image
    · intro c listed i image
      rw [ends (.cont c) listed, ends (.img i) (reached.contImg c listed i image).1]
      exact cont_in_img aligned prepared reached listed image

/-- A container with resources of its own and a PID on CPU 1. -/
def pinnedPid : Containers where
  cont := [1]
  pids := [2]
  rscs := 4
  contAt := fun _ => { rscs := 5, pids := [2] }
  pidcAt := fun _ => { rscs := 6, cont := some (.cont 1) }
  rscsAt := fun r => if r = 6 then { affinity := 1 } else { affinity := -1 }
  brk := 7

theorem pinned_pid_hierarchy : Hierarchy pinnedPid ∧ Reached pinnedPid := by
  apply mutual_hierarchy
  · constructor <;> simp [pinnedPid]
  · simp [pinnedPid]
  · intro holder parm found shared
    cases holder with
    | defaults =>
        cases found
        cases shared
    | img i => simp [parmsOf, pinnedPid] at found
    | _ =>
        obtain ⟨_, ⟨⟩⟩ := Option.ite_none_right_eq_some.mp found
        cases shared
  · apply single_owner_of_user fun r => if r = 4 then .defaults else if r = 5 then .cont 1 else .pid 2
    intro holder ref found
    cases holder <;> simp [rscsRefs, parmsOf, rscsRef, pinnedPid] at found ⊢ <;> simp_all [← found]

theorem pinned_pid_nests :
    ∃ sched, adaptPrepareSchedule ieee twoCpus adaptiveSet pinnedPid = .ok sched ∧
      Nests {0, 1} pinnedPid (maskOf sched.1.conts) := by
  have accepted : returns (adaptPrepareSchedule ieee twoCpus adaptiveSet pinnedPid)
      (fun _ => true) = true := by decide +kernel
  obtain ⟨sched, run, _⟩ := (returns_iff _ _).mp accepted
  have unnarrowed : Unnarrowed twoCpus {0, 1} pinnedPid := by
    constructor <;> simp [pinnedPid]
  have aligned : Aligned twoCpus {0, 1} pinnedPid := by
    constructor
    · simp [pinnedPid]
    · intro c listed p member own cpu fixed
      rw [List.mem_singleton.mp listed]
      rw [List.mem_singleton.mp member, show fixedCpu pinnedPid (.pid 2) = some 1 from rfl] at fixed
      cases fixed
      decide
    · simp [pinnedPid]
    · simp [pinnedPid]
  exact ⟨sched, run, (masks_nest_iff ieee twoCpus adaptiveSet pinnedPid {0, 1} sched
    pinned_pid_hierarchy.1 pinned_pid_hierarchy.2 rfl (by decide) unnarrowed run).mpr aligned⟩

/-- A container on CPU 0 with a PID on CPU 1. -/
def crossedCont : Json :=
  .object [("contid", .string "a1".toList), ("res", .object [("affinity", .int 0)]),
    ("pids", .array [.object [("cmd", .string "loop".toList),
      ("res", .object [("affinity", .int 1)])]])]

-- The narrowing leaves the container no CPU.
theorem crossed_masks_empty :
    ∃ conts sched, parseConfig (.object [("containers", .array [crossedCont])]) {} = .ok conts ∧
      Hierarchy conts ∧ Reached conts ∧
      adaptPrepareSchedule ieee twoCpus adaptiveSet conts = .ok sched ∧
        ¬ Nests {0, 1} conts (maskOf sched.1.conts) := by
  have empty : returns (parseConfig (.object [("containers", .array [crossedCont])]) {})
      (fun conts => returns (adaptPrepareSchedule ieee twoCpus adaptiveSet conts)
        (fun sched => conts.cont.any fun c => maskOf sched.1.conts (.cont c) == some ∅)) = true := by
    decide +kernel
  obtain ⟨conts, parsed, returned⟩ := (returns_iff _ _).mp empty
  obtain ⟨sched, run, check⟩ := (returns_iff _ _).mp returned
  obtain ⟨c, member, none⟩ := List.any_eq_true.mp check
  have images : listed (Json.field (.object [("containers", .array [crossedCont])]) "images") = [] :=
    rfl
  have flat : ¬ NestsContainers (.object [("containers", .array [crossedCont])]) := by
    simp [NestsContainers, images]
  refine ⟨conts, sched, parsed, parsed_hierarchy parsed, parsed_reached parsed flat, run, ?_⟩
  intro nests
  obtain ⟨cpus, same, some, _⟩ := nests.item (.cont c) member
  rw [beq_iff_eq.mp none] at same
  cases same
  exact Finset.not_nonempty_empty some

end Orchestrator.MaskNesting
