import Orchestrator.MaskNesting

/-!
One container and the masks of the others: taking a container with its PIDs out
of the configuration changes no mask but the one of its image.
-/

namespace Orchestrator.MaskFrame
open Orchdata Resmgnt Adaptive Prepare SettingsOwners Ownership Narrowing MaskTree MaskRun MaskWalk
open FinalMasks MaskNesting Coverage Traversal

/-- The configuration without a container and its PIDs. -/
def removeCont (conts : Containers) (c : Nat) : Containers :=
  { conts with
    cont := conts.cont.filter (· ≠ c)
    pids := conts.pids.filter (· ∉ (conts.contAt c).pids)
    imgAt := fun i => { conts.imgAt i with
      conts := (conts.imgAt i).conts.filter (· ≠ c)
      pids := (conts.imgAt i).pids.filter (· ∉ (conts.contAt c).pids) } }

section Removal
variable {conts : Containers} {c : Nat}

theorem left_cont {x : Nat} : x ∈ (removeCont conts c).cont ↔ x ∈ conts.cont ∧ x ≠ c := by
  simp [removeCont]

theorem left_pid {p : Nat} :
    p ∈ (removeCont conts c).pids ↔ p ∈ conts.pids ∧ p ∉ (conts.contAt c).pids := by
  simp [removeCont]

theorem left_img_conts {i x : Nat} :
    x ∈ ((removeCont conts c).imgAt i).conts ↔ x ∈ (conts.imgAt i).conts ∧ x ≠ c := by
  simp [removeCont]

theorem left_img_pids {i p : Nat} : p ∈ ((removeCont conts c).imgAt i).pids ↔
    p ∈ (conts.imgAt i).pids ∧ p ∉ (conts.contAt c).pids := by
  simp [removeCont]

/-- A PID that is left has another container. -/
theorem left_elsewhere (lists : PidsHeld conts) {p x : Nat}
    (left : p ∈ (removeCont conts c).pids) (cont : (conts.pidcAt p).cont = some (.cont x)) :
    x ∈ (removeCont conts c).cont := by
  obtain ⟨listed, outside⟩ := left_pid.mp left
  rcases lists p listed _ cont with ⟨other, known, same, member⟩ | ⟨_, _, same, _⟩
  · cases same
    exact left_cont.mpr ⟨known, fun this => outside (this ▸ member)⟩
  · cases same

/-- Settings are left as they are. -/
theorem left_parms {holder : Holder} {parm : Parm}
    (found : parmsOf (removeCont conts c) holder = some parm) :
    parmsOf conts holder = some parm := by
  cases holder with
  | defaults => exact found
  | img i => exact found
  | cont x =>
      obtain ⟨left, same⟩ := Option.ite_none_right_eq_some.mp found
      exact (if_pos (left_cont.mp left).1).trans (congrArg some (Option.some.inj same))
  | pid p =>
      obtain ⟨left, same⟩ := Option.ite_none_right_eq_some.mp found
      exact (if_pos (left_pid.mp left).1).trans (congrArg some (Option.some.inj same))

/-- The holders that are left. -/
def Left (conts : Containers) (c : Nat) : Holder → Prop
  | .cont x => x ≠ c
  | .pid p => p ∉ (conts.contAt c).pids
  | _ => True

theorem left_found {holder : Holder} {parm : Parm} (found : parmsOf conts holder = some parm)
    (left : Left conts c holder) : parmsOf (removeCont conts c) holder = some parm := by
  cases holder with
  | defaults => exact found
  | img i => exact found
  | cont x =>
      obtain ⟨listed, same⟩ := Option.ite_none_right_eq_some.mp found
      exact (if_pos (left_cont.mpr ⟨listed, left⟩)).trans same
  | pid p =>
      obtain ⟨listed, same⟩ := Option.ite_none_right_eq_some.mp found
      exact (if_pos (left_pid.mpr ⟨listed, left⟩)).trans same

/-- What is above an element that is left is left. -/
theorem left_above (lists : PidsHeld conts) {holder : Holder} {parm : Parm}
    (found : parmsOf (removeCont conts c) holder = some parm) : Left conts c (above conts holder) := by
  cases holder with
  | defaults => trivial
  | img i => trivial
  | cont x =>
      rw [above]
      cases (conts.contAt x).img <;> trivial
  | pid p =>
      have left := (Option.ite_none_right_eq_some.mp found).1
      rw [above, pidAbove]
      cases cont : (conts.pidcAt p).cont with
      | none => cases (conts.pidcAt p).img <;> trivial
      | some ptr =>
          cases ptr with
          | img i => trivial
          | cont x => exact (left_cont.mp (left_elsewhere lists left cont)).2

theorem left_img_owner (i : Nat) : Left conts c (imgOwner conts i) := by
  rcases img_owner_flag conts i with ⟨_, same⟩ | ⟨_, same⟩ <;> rw [same] <;> trivial

theorem left_cont_owner {x : Nat} (other : x ≠ c) : Left conts c (contOwner conts x) := by
  rw [contOwner]
  cases (conts.contAt x).status.shrc with
  | false => exact other
  | true =>
      cases (conts.contAt x).img with
      | none => trivial
      | some i => exact left_img_owner i

theorem left_owner (lists : PidsHeld conts) {item : Item}
    (element : IsElement (removeCont conts c) item) : Left conts c (owner conts item) := by
  cases item with
  | img i => exact left_img_owner i
  | cont x => exact left_cont_owner (left_cont.mp element).2
  | pid p =>
      rw [owner]
      cases (conts.pidcAt p).status.shrc with
      | false => exact (left_pid.mp element).2
      | true =>
          rw [if_pos rfl, pidAbove]
          cases cont : (conts.pidcAt p).cont with
          | none =>
              cases (conts.pidcAt p).img with
              | none => trivial
              | some i => exact left_img_owner i
          | some ptr =>
              cases ptr with
              | img i => exact left_img_owner i
              | cont x => exact left_cont_owner (left_cont.mp (left_elsewhere lists element cont)).2

theorem left_single_owner (hier : Hierarchy conts) (lists : PidsHeld conts) :
    SingleOwner (rscsRefs (removeCont conts c)) := by
  intro user ref refers
  obtain ⟨settings, found, same⟩ := Option.map_eq_some_iff.mp refers
  -- the owner there was has not been removed
  have owned : ∃ holder settings', Owns conts holder settings' ∧ Left conts c holder ∧
      settings'.rscs = settings.rscs := by
    cases user with
    | defaults =>
        cases found
        exact ⟨.defaults, _, owns_defaults conts, trivial, rfl⟩
    | img i =>
        obtain ⟨left, ⟨⟩⟩ := Option.ite_none_right_eq_some.mp found
        obtain ⟨upper, owns, same⟩ := img_owner hier left
        exact ⟨_, upper, owns, left_img_owner i, same⟩
    | cont x =>
        obtain ⟨left, ⟨⟩⟩ := Option.ite_none_right_eq_some.mp found
        obtain ⟨upper, owns, same⟩ := cont_owner hier (left_cont.mp left).1
        exact ⟨_, upper, owns, left_cont_owner (left_cont.mp left).2, same⟩
    | pid p =>
        obtain ⟨left, ⟨⟩⟩ := Option.ite_none_right_eq_some.mp found
        obtain ⟨upper, owns, same⟩ := item_owner hier (known_pid (left_pid.mp left).1)
        exact ⟨_, upper, owns, left_owner lists left, same⟩
  obtain ⟨holder, upper, owns, left, equal⟩ := owned
  have object : ref.object = settings.rscs := by rw [← same, rscsRef]
  refine ⟨holder, ?_, fun other holds => ?_⟩
  · beta_reduce
    rw [rscsRefs, left_found owns.1 left, Option.map_some, rscsRef, owns.2, object, equal]
  · obtain ⟨others, there, reads⟩ := Option.map_eq_some_iff.mp holds
    have own : others.status.shrc = false := congrArg Ref.shared reads
    have target : others.rscs = ref.object := congrArg Ref.object reads
    exact hier.one_owner ⟨left_parms there, own⟩ owns (by rw [target, object, equal])

theorem left_hierarchy (hier : Hierarchy conts) (lists : PidsHeld conts) (listed : c ∈ conts.cont) :
    Hierarchy (removeCont conts c) where
  imgConts := by
    intro i known x member
    obtain ⟨inside, other⟩ := left_img_conts.mp member
    obtain ⟨held, image⟩ := hier.imgConts i known x inside
    exact ⟨left_cont.mpr ⟨held, other⟩, image⟩
  contPids := by
    intro x left p member
    obtain ⟨held, other⟩ := left_cont.mp left
    obtain ⟨known, cont⟩ := hier.contPids x held p member
    refine ⟨left_pid.mpr ⟨known, fun inside => ?_⟩, cont⟩
    cases cont.symm.trans (hier.contPids c listed p inside).2
    exact other rfl
  imgPids := by
    intro i known p member
    obtain ⟨inside, outside⟩ := left_img_pids.mp member
    obtain ⟨held, image, nested⟩ := hier.imgPids i known p inside
    have left := left_pid.mpr ⟨held, outside⟩
    refine ⟨left, image, fun ptr cont => ?_⟩
    rcases nested ptr cont with same | ⟨x, owned, same⟩
    · exact .inl same
    · subst same
      exact .inr ⟨x, left_img_conts.mpr ⟨owned, (left_cont.mp (left_elsewhere lists left cont)).2⟩,
        rfl⟩
  shares := by
    intro holder parm found shared
    obtain ⟨upper, known, same⟩ := hier.shares holder parm (left_parms found) shared
    exact ⟨upper, left_found known (left_above lists found), same⟩
  owners := left_single_owner hier lists

theorem left_reached (reached : Reached conts) : Reached (removeCont conts c) where
  contImg := by
    intro x left i image
    obtain ⟨held, other⟩ := left_cont.mp left
    obtain ⟨known, inside⟩ := reached.contImg x held i image
    exact ⟨known, left_img_conts.mpr ⟨inside, other⟩⟩
  pidCont := by
    intro p left ptr cont
    obtain ⟨held, outside⟩ := left_pid.mp left
    rcases reached.pidCont p held ptr cont with ⟨x, known, same, member⟩ | ⟨i, known, same, member⟩
    · subst same
      exact .inl ⟨x, left_elsewhere reached.pidCont left cont, rfl, member⟩
    · exact .inr ⟨i, known, same, left_img_pids.mpr ⟨member, outside⟩⟩
  pidImg := by
    intro p left i image
    obtain ⟨held, outside⟩ := left_pid.mp left
    obtain ⟨known, direct, nested⟩ := reached.pidImg p held i image
    exact ⟨known, fun none => left_img_pids.mpr ⟨direct none, outside⟩, nested⟩

end Removal

section Same
variable {numa : Numa} {default : Bitmask} {conts : Containers} {c : Nat}

theorem cont_mask_same (x : Nat) :
    contMask numa default (removeCont conts c) x = contMask numa default conts x := rfl

theorem img_base_same (i : Nat) :
    imgBase numa default (removeCont conts c) i = imgBase numa default conts i := rfl

/-- An image that lists the same has the same mask. -/
theorem img_mask_kept {i : Nat}
    (inner : ((removeCont conts c).imgAt i).conts = (conts.imgAt i).conts)
    (direct : ((removeCont conts c).imgAt i).pids = (conts.imgAt i).pids) :
    imgMask numa default (removeCont conts c) i = imgMask numa default conts i := by
  have parts : imgParts numa default (removeCont conts c) i = imgParts numa default conts i := by
    rw [imgParts, imgParts, inner, direct]
    rfl
  rw [imgMask, imgMask, parts]
  rfl

/-- An image without the container has the mask it had. -/
theorem img_mask_same (hier : Hierarchy conts) (listed : c ∈ conts.cont) {i : Nat}
    (known : i ∈ conts.img) (other : (conts.contAt c).img ≠ some i) :
    imgMask numa default (removeCont conts c) i = imgMask numa default conts i := by
  have inner : ((removeCont conts c).imgAt i).conts = (conts.imgAt i).conts := by
    apply List.filter_eq_self.mpr
    intro x member
    rw [decide_eq_true_eq]
    intro this
    exact other (this ▸ (hier.imgConts i known x member).2)
  have direct : ((removeCont conts c).imgAt i).pids = (conts.imgAt i).pids := by
    apply List.filter_eq_self.mpr
    intro p member
    rw [decide_eq_true_eq]
    intro inside
    rcases (hier.imgPids i known p member).2.2 _ (hier.contPids c listed p inside).2 with
      same | ⟨x, owned, same⟩
    · cases same
    · cases same
      exact other (hier.imgConts i known c owned).2
  exact img_mask_kept inner direct

/-- A PID that shares the resources of its image keeps them whole. -/
theorem img_mask_used {i p : Nat} (member : p ∈ (conts.imgAt i).pids)
    (shared : (conts.pidcAt p).status.shrc = true)
    (cont : (conts.pidcAt p).cont = none ∨ (conts.pidcAt p).cont = some (.img i)) :
    imgMask numa default conts i = imgBase numa default conts i := by
  apply img_mask_whole
  apply List.mem_append_right
  apply List.mem_map.mpr
  refine ⟨p, member, ?_⟩
  rw [if_pos shared]
  rcases cont with cont | cont <;> rw [cont]

theorem pid_dep_same {p : Nat} (outside : p ∉ (conts.contAt c).pids) :
    pidDep numa default (removeCont conts c) p = pidDep numa default conts p := by
  have image : ((removeCont conts c).pidcAt p).img = (conts.pidcAt p).img := rfl
  rw [pidDep, pidDep, image]
  cases (conts.pidcAt p).img with
  | none => rfl
  | some i =>
      have same : (i ∈ (removeCont conts c).img ∧ p ∈ ((removeCont conts c).imgAt i).pids) ↔
          i ∈ conts.img ∧ p ∈ (conts.imgAt i).pids :=
        and_congr_right fun _ => left_img_pids.trans (and_iff_left outside)
      simp only [same]
      rfl

/-- The masks of elements outside of the container's tree, but for an image whose
own resources are narrowed to what the container uses. -/
theorem final_same (hier : Hierarchy conts) (reached : Reached conts) (listed : c ∈ conts.cont)
    {item : Item} (element : IsElement (removeCont conts c) item)
    (apart : ∀ i, item = .img i → (conts.contAt c).img = some i →
      (conts.imgAt i).status.shrc = true) :
    finalMask conts numa default item = finalMask (removeCont conts c) numa default item := by
  cases item with
  | img i =>
      rw [img_final, img_final]
      by_cases image : (conts.contAt c).img = some i
      · have shared := apart i rfl image
        have sharedLeft : ((removeCont conts c).imgAt i).status.shrc = true := shared
        rw [img_mask_shared shared, img_mask_shared sharedLeft, img_base_same]
      · exact (img_mask_same hier listed element image).symm
  | cont x =>
      rw [cont_final reached (left_cont.mp element).1, cont_final (left_reached reached) element,
        cont_mask_same]
  | pid p =>
      obtain ⟨held, outside⟩ := left_pid.mp element
      cases shared : (conts.pidcAt p).status.shrc with
      | false =>
          have sharedLeft : ((removeCont conts c).pidcAt p).status.shrc = false := shared
          rw [pid_final_own shared, pid_final_own sharedLeft, pid_dep_same outside]
          rfl
      | true =>
          have sharedLeft : ((removeCont conts c).pidcAt p).status.shrc = true := shared
          have inCont : ∀ x, (conts.pidcAt p).cont = some (.cont x) →
              finalMask conts numa default (.pid p) =
                finalMask (removeCont conts c) numa default (.pid p) := by
            intro x cont
            have contLeft : ((removeCont conts c).pidcAt p).cont = some (.cont x) := cont
            have left := left_elsewhere reached.pidCont element cont
            rw [pid_final_cont shared cont, pid_final_cont sharedLeft contLeft,
              cont_final reached (left_cont.mp left).1, cont_final (left_reached reached) left,
              cont_mask_same]
          cases image : (conts.pidcAt p).img with
          | some i =>
              have imageLeft : ((removeCont conts c).pidcAt p).img = some i := image
              rcases pid_place hier reached held image with ⟨x, cont, _⟩ | ⟨member, cont⟩
              · exact inCont x cont
              · have memberLeft := left_img_pids.mpr ⟨member, outside⟩
                rw [pid_final_img shared image cont, pid_final_img sharedLeft imageLeft cont,
                  img_final, img_final, img_mask_used member shared cont,
                  img_mask_used memberLeft sharedLeft cont, img_base_same]
          | none =>
              cases cont : (conts.pidcAt p).cont with
              | some ptr =>
                  rcases reached.pidCont p held ptr cont with ⟨x, _, same, _⟩ | ⟨i, known, _, member⟩
                  · exact inCont x (cont.trans (congrArg some same))
                  · cases image.symm.trans (hier.imgPids i known p member).2.1
              | none =>
                  have imageLeft : ((removeCont conts c).pidcAt p).img = none := image
                  have contLeft : ((removeCont conts c).pidcAt p).cont = none := cont
                  rw [finalMask, finalMask, owner_lone image cont, owner_lone imageLeft contLeft,
                    shared, sharedLeft]
                  rfl

end Same

/-- Where no mask is narrowed through an element that only shares it, the global
mask stays the default one, and a container changes no mask outside of its tree
but that of its image. -/
theorem container_frame (fp : Rounding) (numa : Numa) (set : PrgSet) (conts : Containers)
    (default : Bitmask) (sched : Schedule) (hier : Hierarchy conts) (reached : Reached conts)
    (mask : set.affinityMask = some default)
    (negative : (conts.rscsAt conts.rscs).affinity < 0)
    (unnarrowed : Unnarrowed numa default conts)
    (run : adaptPrepareSchedule fp numa set conts = .ok sched) :
    (sched.1.conts.rscsAt sched.1.conts.rscs).affinityMask = set.affinityMask ∧
      ∀ c ∈ conts.cont, Unnarrowed numa default (removeCont conts c) → ∀ without,
        adaptPrepareSchedule fp numa set (removeCont conts c) = .ok without →
        ∀ item, IsElement (removeCont conts c) item →
          (∀ i, item = .img i → (conts.contAt c).img = some i → (conts.imgAt i).status.shrc = true) →
          maskOf sched.1.conts item = maskOf without.1.conts item := by
  have prepared := prepared_masks hier unnarrowed mask run
  constructor
  · obtain ⟨masks, ends, global, _⟩ := prepared.masks
    have stays := ends.mask .defaults _ (owns_defaults conts)
    rw [global] at stays
    rw [ends.rscs, mask]
    apply stays.trans
    unfold globalMask createAffinityMask
    rw [if_neg (by omega)]
  · intro c listed idle without runs item element apart
    have left := prepared_masks (left_hierarchy hier reached.pidCont listed) idle mask runs
    rw [left.ends (left_hierarchy hier reached.pidCont listed) (left_reached reached) (known_element element),
      ← final_same hier reached listed element apart]
    apply prepared.ends hier reached
    cases item with
    | img i => exact known_img element
    | cont x => exact known_cont (left_cont.mp element).1
    | pid p => exact known_pid (left_pid.mp element).1

/-- An image with two containers, on CPU 0 and CPU 1. -/
def twoConts : Containers where
  img := [1]
  cont := [2, 3]
  rscs := 4
  imgAt := fun _ => { rscs := 5, conts := [2, 3] }
  contAt := fun c => { rscs := c + 4, img := some 1 }
  rscsAt := fun r => if r = 6 then { affinity := 0 } else if r = 7 then { affinity := 1 }
    else { affinity := -1 }
  brk := 8

theorem two_conts_hierarchy : Hierarchy twoConts ∧ Reached twoConts := by
  apply mutual_hierarchy
  · constructor <;> simp [twoConts]
  · simp [twoConts]
  · intro holder parm found shared
    cases holder with
    | defaults =>
        cases found
        cases shared
    | pid p => simp [parmsOf, twoConts] at found
    | _ =>
        obtain ⟨_, ⟨⟩⟩ := Option.ite_none_right_eq_some.mp found
        cases shared
  · apply single_owner_of_user fun r => if r = 4 then .defaults else if r = 5 then .img 1
      else .cont (r - 4)
    intro holder ref found
    cases holder <;> simp [rscsRefs, parmsOf, rscsRef, twoConts] at found ⊢ <;> grind

theorem two_conts_frame :
    ∃ sched without, adaptPrepareSchedule ieee twoCpus adaptiveSet twoConts = .ok sched ∧
      adaptPrepareSchedule ieee twoCpus adaptiveSet (removeCont twoConts 3) = .ok without ∧
      maskOf sched.1.conts (.cont 2) = maskOf without.1.conts (.cont 2) := by
  have accepted : returns (adaptPrepareSchedule ieee twoCpus adaptiveSet twoConts)
      (fun _ => true) = true := by decide +kernel
  have left : returns (adaptPrepareSchedule ieee twoCpus adaptiveSet (removeCont twoConts 3))
      (fun _ => true) = true := by decide +kernel
  obtain ⟨sched, run, _⟩ := (returns_iff _ _).mp accepted
  obtain ⟨without, runs, _⟩ := (returns_iff _ _).mp left
  have idle : Unnarrowed twoCpus {0, 1} twoConts := by constructor <;> simp [twoConts]
  have idleLeft : Unnarrowed twoCpus {0, 1} (removeCont twoConts 3) := by
    constructor <;> simp [twoConts, removeCont]
  exact ⟨sched, without, run, runs,
    (container_frame ieee twoCpus adaptiveSet twoConts {0, 1} sched two_conts_hierarchy.1
      two_conts_hierarchy.2 rfl (by decide) idle run).2 3 (by decide) idleLeft without runs (.cont 2)
      (left_cont.mpr ⟨by decide, by decide⟩) (fun _ this => by cases this)⟩

end Orchestrator.MaskFrame
