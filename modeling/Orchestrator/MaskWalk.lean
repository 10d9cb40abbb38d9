import Orchestrator.MaskRun

/-!
The traversals of `adaptPrepareSchedule`: which masks each of them settles, and
the masks it finds on its way.
-/

namespace Orchestrator.MaskWalk
open Orchdata Resmgnt Adaptive Prepare Traversal SettingsOwners Narrowing MaskTree MaskRun

section Pids
variable (numa : Numa) (default : Bitmask) (conts : Containers)

/-- The masks of PIDs below a mask. -/
def pidValues (dep : Option Bitmask) : Holder → Option Bitmask
  | .pid p => ownMask numa default conts (.pid p) dep
  | _ => none

/-- The mask `ddPids` finds at a PID. -/
def pidSeen (masks : Holder → Option Bitmask) (dep : Option Bitmask) (p : Nat) : Option Bitmask :=
  if (conts.pidcAt p).status.shrc then masks (owner conts (.pid p))
  else ownMask numa default conts (.pid p) dep

variable {numa default conts} {masks : Holder → Option Bitmask} {dep : Option Bitmask}
variable {fp : Rounding} {rrtime : Int} {parent : Item}

theorem pid_not_listed {pids : List Nat} {holder : Holder} (other : ∀ q, holder ≠ .pid q) :
    holder ∉ pids.map Holder.pid := by
  intro member
  obtain ⟨q, _, rfl⟩ := List.mem_map.mp member
  exact other q rfl

theorem pid_seen_settled (pids : List Nat) (p : Nat) :
    pidSeen numa default conts
        (settled (pidValues numa default conts dep) (pids.map Holder.pid) masks) dep p =
      pidSeen numa default conts masks dep p := by
  rw [pidSeen, pidSeen]
  split
  · rename_i shared
    rw [settled_out (pid_not_listed (owner_pid shared))]
  · rfl

theorem or_mask_ok {state : Containers} {item : Item} {bm after : Bitmask}
    (run : orMask state item bm = .ok after) : after = (maskOf state item).getD ∅ ∪ bm := by
  rw [orMask] at run
  cases mask : maskOf state item with
  | none =>
      rw [mask] at run
      cases run
  | some whole =>
      rw [mask] at run
      cases run
      rfl

theorem dd_pids_step_masks (hier : Hierarchy conts) {walk next : Walk} {p : Nat}
    (step : ddPidsStep fp numa rrtime default parent walk p = .ok next)
    (run : Masks default conts walk.1 masks) (known : Known conts parent)
    (found : masks (owner conts parent) = dep) (listed : p ∈ conts.pids) :
    Masks default conts next.1 (settled (pidValues numa default conts dep) [.pid p] masks) ∧
      next.2.1 = (pidSeen numa default conts masks dep p).getD ∅ ∪ walk.2.1 ∧
      Fits default (pidSeen numa default conts masks dep p) := by
  unfold ddPidsStep at step
  obtain ⟨bm, joins, step⟩ := bind_ok step
  obtain ⟨fixed, fixes, step⟩ := bind_ok step
  cases step
  have pushed := run.push hier numa (known_pid listed) (maskOf walk.1.conts parent)
  rw [run.seen hier known, found] at pushed joins fixes
  have wrote : Function.update masks (.pid p) (ownMask numa default conts (.pid p) dep) =
      settled (pidValues numa default conts dep) [.pid p] masks := by
    funext holder
    by_cases this : holder = .pid p
    · rw [this, Function.update_self, settled_in List.mem_cons_self, pidValues]
    · rw [Function.update_of_ne this, settled_out (by simpa using this)]
  rw [show holder (.pid p) = .pid p from rfl, wrote] at pushed
  have seen : settled (pidValues numa default conts dep) [.pid p] masks (owner conts (.pid p)) =
      pidSeen numa default conts masks dep p := by
    rw [pidSeen]
    split
    · rename_i shared
      exact settled_out (by simpa using owner_pid shared p)
    · rename_i own
      rw [owner, if_neg own, settled_in List.mem_cons_self, pidValues]
  obtain ⟨placed, fits⟩ := pushed.fix hier (known_pid listed) fixes
  rw [seen] at fits
  refine ⟨placed, ?_, fits⟩
  have union := or_mask_ok joins
  rw [pushed.seen hier (known_pid listed), seen] at union
  exact union

theorem dd_pids_masks (hier : Hierarchy conts) {walk next : Walk} {pids : List Nat}
    (steps : ddPids fp numa rrtime default parent pids walk = .ok next)
    (run : Masks default conts walk.1 masks) (known : Known conts parent)
    (other : ∀ q, owner conts parent ≠ .pid q)
    (found : masks (owner conts parent) = dep) (listed : ∀ p ∈ pids, p ∈ conts.pids) :
    Masks default conts next.1
        (settled (pidValues numa default conts dep) (pids.map Holder.pid) masks) ∧
      next.2.1 =
        union (pids.map fun p => (pidSeen numa default conts masks dep p).getD ∅) ∪ walk.2.1 ∧
      ∀ p ∈ pids, Fits default (pidSeen numa default conts masks dep p) := by
  have all := fold_rule (ddPidsStep fp numa rrtime default parent)
    (fun walk pids next => ∀ masks, Masks default conts walk.1 masks →
      masks (owner conts parent) = dep → (∀ p ∈ pids, p ∈ conts.pids) →
      Masks default conts next.1
          (settled (pidValues numa default conts dep) (pids.map Holder.pid) masks) ∧
        next.2.1 =
          union (pids.map fun p => (pidSeen numa default conts masks dep p).getD ∅) ∪ walk.2.1 ∧
        ∀ p ∈ pids, Fits default (pidSeen numa default conts masks dep p))
    ?_ ?_ pids walk next steps
  · exact all masks run found listed
  · intro walk masks run _ _
    exact ⟨run, (Finset.empty_union _).symm, fun _ member => by cases member⟩
  · intro walk p middle rest finish step tail masks run found listed
    obtain ⟨first, joined, fits⟩ := dd_pids_step_masks hier step run known found
      (listed p List.mem_cons_self)
    have still : settled (pidValues numa default conts dep) [.pid p] masks (owner conts parent) =
        dep := (settled_out (by simpa using other p)).trans found
    obtain ⟨second, union, more⟩ := tail _ first still fun q member =>
      listed q (List.mem_cons_of_mem p member)
    have same : ∀ q, pidSeen numa default conts
          (settled (pidValues numa default conts dep) [.pid p] masks) dep q =
        pidSeen numa default conts masks dep q := fun q => pid_seen_settled [p] q
    simp only [same] at union more
    refine ⟨?_, ?_, ?_⟩
    · rw [← settled_append] at second
      exact second
    · rw [union, joined, ← Finset.union_assoc]
      exact congrArg (· ∪ walk.2.1) (Finset.union_comm _ _)
    · intro q member
      rcases List.mem_cons.mp member with rfl | later
      · exact fits
      · exact more q later

end Pids

section Conts
variable (numa : Numa) (default : Bitmask) (conts : Containers)

/-- The masks a container and its PIDs have when it is done. -/
def contValues : Holder → Option Bitmask
  | .pid p => ownMask numa default conts (.pid p) (contDep numa default conts p)
  | user => target numa default conts user

def contHolders (c : Nat) : List Holder :=
  .cont c :: (conts.contAt c).pids.map Holder.pid

/-- The masks found while a container is prepared fit. -/
def ContFits (c : Nat) : Prop :=
  Fits default (contMask numa default conts c) ∧
    ∀ p ∈ (conts.contAt c).pids, (conts.pidcAt p).status.shrc = false →
      Fits default (ownMask numa default conts (.pid p) (contDep numa default conts p))

/-- The first mask of a container is the one it works with. -/
def Begins (masks : Holder → Option Bitmask) (dep : Option Bitmask) (c : Nat) : Prop :=
  contBase numa default conts c =
    if (conts.contAt c).status.shrc then masks (contOwner conts c)
    else ownMask numa default conts (.cont c) dep

variable {numa default conts} {masks : Holder → Option Bitmask} {dep : Option Bitmask}
variable {fp : Rounding} {rrtime : Int}

theorem cont_values_cont (c : Nat) :
    contValues numa default conts (.cont c) = contMask numa default conts c := rfl

theorem cont_mask_own {c : Nat} (own : (conts.contAt c).status.shrc = false) :
    contMask numa default conts c =
      narrowedMask (contBase numa default conts c) (contParts numa default conts c) := by
  rw [contMask, own]
  rfl

theorem cont_mask_shared {c : Nat} (shared : (conts.contAt c).status.shrc = true) :
    contMask numa default conts c = contBase numa default conts c := if_pos shared

theorem cont_dep (hier : Hierarchy conts) {c p : Nat} (listed : c ∈ conts.cont)
    (member : p ∈ (conts.contAt c).pids) :
    contDep numa default conts p = contBase numa default conts c := by
  rw [contDep, (hier.contPids c listed p member).2]

theorem owner_of_member (hier : Hierarchy conts) {c p : Nat} (listed : c ∈ conts.cont)
    (member : p ∈ (conts.contAt c).pids) (shared : (conts.pidcAt p).status.shrc = true) :
    owner conts (.pid p) = contOwner conts c := by
  rw [owner, if_pos shared, pidAbove, (hier.contPids c listed p member).2]
  rfl

theorem cont_owner_cases (conts : Containers) (c : Nat) :
    (conts.contAt c).status.shrc = false ∧ contOwner conts c = .cont c ∨
      (conts.contAt c).status.shrc = true ∧ ∀ other, contOwner conts c ≠ .cont other := by
  rw [contOwner]
  cases (conts.contAt c).status.shrc with
  | false => exact .inl ⟨rfl, rfl⟩
  | true =>
      refine .inr ⟨rfl, fun other => ?_⟩
      cases (conts.contAt c).img with
      | none => simp
      | some i => simpa using img_owner_cont conts i other

theorem cont_listed (conts : Containers) (c : Nat) : .cont c ∈ contHolders conts c :=
  List.mem_cons_self

theorem member_listed {c p : Nat} (member : p ∈ (conts.contAt c).pids) :
    .pid p ∈ contHolders conts c := List.mem_cons_of_mem _ (List.mem_map_of_mem member)

theorem cont_holder_cases (conts : Containers) (c : Nat) (user : Holder) :
    user = .cont c ∨ (∃ p ∈ (conts.contAt c).pids, user = .pid p) ∨ user ∉ contHolders conts c := by
  by_cases member : user ∈ contHolders conts c
  · rcases List.mem_cons.mp member with this | inside
    · exact .inl this
    · obtain ⟨p, listed, same⟩ := List.mem_map.mp inside
      exact .inr (.inl ⟨p, listed, same.symm⟩)
  · exact .inr (.inr member)

theorem prepare_cont_masks (hier : Hierarchy conts) (unnarrowed : Unnarrowed numa default conts)
    {c : Nat} {state after : Globals} {inner : List ResAlloc}
    (steps : prepareCont fp numa rrtime default dep c state = .ok (after, inner))
    (run : Masks default conts state masks) (listed : c ∈ conts.cont) (visits : Visits conts c)
    (begins : Begins numa default conts masks dep c) :
    Masks default conts after (settled (contValues numa default conts) (contHolders conts c) masks) ∧
      ∀ p ∈ (conts.contAt c).pids, (conts.pidcAt p).status.shrc = false →
        Fits default (ownMask numa default conts (.pid p) (contDep numa default conts p)) := by
  unfold prepareCont at steps
  obtain ⟨walk, pids, steps⟩ := bind_ok steps
  obtain ⟨narrowedConts, narrows, steps⟩ := bind_ok steps
  cases steps
  have known := known_cont listed
  have pushed := run.push hier numa known dep
  have base : Function.update masks (.cont c) (ownMask numa default conts (.cont c) dep)
      (contOwner conts c) = contBase numa default conts c := by
    rw [begins]
    rcases cont_owner_cases conts c with ⟨own, same⟩ | ⟨shared, other⟩
    · rw [same, Function.update_self, own]
      rfl
    · rw [Function.update_of_ne (other c), shared]
      rfl
  rw [kept_cont_pids pushed.kept] at pids
  obtain ⟨placed, joined, fits⟩ := dd_pids_masks hier pids pushed known (cont_owner_pid conts c) base
    fun p member => (hier.contPids c listed p member).1
  have parts : walk.2.1 = union ((contParts numa default conts c).map fun part => part.getD ∅) := by
    rw [joined, Finset.union_empty, contParts, List.map_map]
    refine congrArg union (List.map_congr_left fun p member => ?_)
    rw [pidSeen, Function.comp_apply]
    split
    · rename_i shared
      rw [owner_of_member hier listed member shared]
      exact congrArg (fun part : Option Bitmask => part.getD ∅) base
    · rfl
  have ends := placed.narrow hier known narrows
  have still : settled (pidValues numa default conts (contBase numa default conts c))
      ((conts.contAt c).pids.map Holder.pid)
      (Function.update masks (.cont c) (ownMask numa default conts (.cont c) dep))
      (contOwner conts c) = contBase numa default conts c :=
    (settled_out (pid_not_listed (cont_owner_pid conts c))).trans base
  rw [show owner conts (.cont c) = contOwner conts c from rfl,
    show holder (.cont c) = Holder.cont c from rfl, still, parts] at ends
  refine ⟨ends.agree fun user settings owns => ?_, fun p member own => ?_⟩
  · rcases cont_holder_cases conts c user with rfl | ⟨p, member, rfl⟩ | outside
    · -- the container owns its resources
      have own : (conts.contAt c).status.shrc = false := by
        cases (known_cont listed).symm.trans owns.1
        exact owns.2
      rcases cont_owner_cases conts c with ⟨_, same⟩ | ⟨shared, _⟩
      · rw [settled_in (cont_listed conts c), same, Function.update_self, cont_values_cont,
          cont_mask_own own, narrowedMask]
      · cases own.symm.trans shared
    · have apart : Holder.pid p ≠ contOwner conts c := fun this => cont_owner_pid conts c p this.symm
      rw [settled_in (member_listed member), Function.update_of_ne apart,
        settled_in (List.mem_map_of_mem member), contValues, pidValues, cont_dep hier listed member]
    · obtain ⟨other, noPid⟩ := not_or.mp (fun found => outside (List.mem_cons.mpr found))
      rw [settled_out outside]
      by_cases this : user = contOwner conts c
      · -- resources of the element above, which the narrowing leaves
        rcases cont_owner_cases conts c with ⟨_, same⟩ | ⟨shared, _⟩
        · exact absurd (this.trans same) other
        · have kept := unnarrowed.cont c listed visits shared
          rw [narrowedMask] at kept
          rw [this, Function.update_self, kept, begins, shared]
          rfl
      · rw [Function.update_of_ne this, settled_out noPid, Function.update_of_ne other]
  · have fit := fits p member
    rw [pidSeen, own] at fit
    rw [cont_dep hier listed member]
    exact fit

/-- The mask a container has then, its own or that of the element above. -/
theorem cont_settled (c : Nat) (begins : Begins numa default conts masks dep c) :
    settled (contValues numa default conts) (contHolders conts c) masks (contOwner conts c) =
      contMask numa default conts c := by
  rcases cont_owner_cases conts c with ⟨_, same⟩ | ⟨shared, other⟩
  · rw [same, settled_in (cont_listed conts c), cont_values_cont]
  · have outside : contOwner conts c ∉ contHolders conts c := by
      intro member
      rcases List.mem_cons.mp member with this | inside
      · exact other c this
      · exact pid_not_listed (cont_owner_pid conts c) inside
    rw [settled_out outside, cont_mask_shared shared, begins, shared]
    rfl

/-- A container with the assignment that follows. -/
theorem cont_fixed_masks (hier : Hierarchy conts) (unnarrowed : Unnarrowed numa default conts)
    {c : Nat} {state middle after : Globals} {inner : List ResAlloc} {alloc : ResAlloc}
    (steps : prepareCont fp numa rrtime default dep c state = .ok (middle, inner))
    (fixes : addTracerFix fp numa rrtime middle (.cont c) = .ok (after, alloc))
    (run : Masks default conts state masks) (listed : c ∈ conts.cont) (visits : Visits conts c)
    (begins : Begins numa default conts masks dep c) :
    Masks default conts after (settled (contValues numa default conts) (contHolders conts c) masks) ∧
      maskOf middle.conts (.cont c) = contMask numa default conts c ∧
      ContFits numa default conts c := by
  obtain ⟨done, pids⟩ := prepare_cont_masks hier unnarrowed steps run listed visits begins
  obtain ⟨fixed, fits⟩ := done.fix hier (known_cont listed) fixes
  have mask := cont_settled c begins
  rw [show owner conts (.cont c) = contOwner conts c from rfl, mask] at fits
  exact ⟨fixed, (done.seen hier (known_cont listed)).trans mask, fits, pids⟩

theorem img_not_listed (i : Nat) (cs : List Nat) :
    imgOwner conts i ∉ cs.flatMap (contHolders conts) := by
  intro member
  obtain ⟨c, _, inside⟩ := List.mem_flatMap.mp member
  rcases List.mem_cons.mp inside with this | later
  · exact img_owner_cont conts i c this
  · exact pid_not_listed (img_owner_pid conts i) later

theorem begins_in_image {i c : Nat} (inside : (conts.contAt c).img = some i)
    (found : masks (imgOwner conts i) = imgBase numa default conts i) :
    Begins numa default conts masks (imgBase numa default conts i) c := by
  rw [Begins, contBase, contOwner, inside]
  cases (conts.contAt c).status.shrc with
  | true => exact found.symm
  | false => rfl

theorem dd_conts_masks (hier : Hierarchy conts) (unnarrowed : Unnarrowed numa default conts)
    {i : Nat} {walk next : Walk} {cs : List Nat}
    (steps : ddConts fp numa rrtime default (.img i) cs walk = .ok next) (image : i ∈ conts.img)
    (run : Masks default conts walk.1 masks)
    (found : masks (imgOwner conts i) = imgBase numa default conts i)
    (listed : ∀ c ∈ cs, c ∈ (conts.imgAt i).conts) :
    Masks default conts next.1
        (settled (contValues numa default conts) (cs.flatMap (contHolders conts)) masks) ∧
      next.2.1 = union (cs.map fun c => (contMask numa default conts c).getD ∅) ∪ walk.2.1 ∧
      ∀ c ∈ cs, ContFits numa default conts c := by
  have all := fold_rule (ddContsStep fp numa rrtime default (.img i))
    (fun walk cs next => ∀ masks, Masks default conts walk.1 masks →
      masks (imgOwner conts i) = imgBase numa default conts i →
      (∀ c ∈ cs, c ∈ (conts.imgAt i).conts) →
      Masks default conts next.1
          (settled (contValues numa default conts) (cs.flatMap (contHolders conts)) masks) ∧
        next.2.1 = union (cs.map fun c => (contMask numa default conts c).getD ∅) ∪ walk.2.1 ∧
        ∀ c ∈ cs, ContFits numa default conts c)
    ?_ ?_ cs walk next steps
  · exact all masks run found listed
  · intro walk masks run _ _
    exact ⟨run, (Finset.empty_union _).symm, fun _ member => by cases member⟩
  · intro walk c middle rest finish step tail masks run found listed
    unfold ddContsStep at step
    obtain ⟨inner, prepared, step⟩ := bind_ok step
    obtain ⟨bm, joins, step⟩ := bind_ok step
    obtain ⟨fixed, fixes, step⟩ := bind_ok step
    cases step
    obtain ⟨known, inside⟩ := hier.imgConts i image c (listed c List.mem_cons_self)
    have dep : maskOf walk.1.conts (.img i) = imgBase numa default conts i :=
      (run.seen hier (known_img image)).trans found
    rw [dep] at prepared
    have begins := begins_in_image inside found
    obtain ⟨first, mask, fits⟩ := cont_fixed_masks hier unnarrowed prepared fixes run known
      (.inr ⟨i, image, listed c List.mem_cons_self⟩) begins
    have still : settled (contValues numa default conts) (contHolders conts c) masks
        (imgOwner conts i) = imgBase numa default conts i :=
      (settled_out (by simpa using img_not_listed i [c])).trans found
    obtain ⟨second, union, more⟩ := tail _ first still fun other member =>
      listed other (List.mem_cons_of_mem c member)
    refine ⟨?_, ?_, ?_⟩
    · rw [← settled_append] at second
      exact second
    · rw [union, or_mask_ok joins, mask, ← Finset.union_assoc]
      exact congrArg (· ∪ walk.2.1) (Finset.union_comm _ _)
    · intro other member
      rcases List.mem_cons.mp member with rfl | later
      · exact fits
      · exact more other later

end Conts

section Images
variable (numa : Numa) (default : Bitmask) (conts : Containers)

def imgHolders (i : Nat) : List Holder :=
  .img i :: ((conts.imgAt i).conts.flatMap (contHolders conts) ++
    (conts.imgAt i).pids.map Holder.pid)

/-- The masks found while an image is prepared fit. -/
structure ImgFits (i : Nat) : Prop where
  mask : Fits default (imgMask numa default conts i)
  inner : ∀ c ∈ (conts.imgAt i).conts, ContFits numa default conts c
  direct : ∀ p ∈ (conts.imgAt i).pids, (conts.pidcAt p).status.shrc = false →
    Fits default (ownMask numa default conts (.pid p) (imgBase numa default conts i))

variable {numa default conts} {masks : Holder → Option Bitmask}
variable {fp : Rounding} {rrtime : Int}

theorem img_mask_own {i : Nat} (own : (conts.imgAt i).status.shrc = false) :
    imgMask numa default conts i =
      narrowedMask (imgBase numa default conts i) (imgParts numa default conts i) := by
  rw [imgMask, own]
  rfl

theorem img_mask_shared {i : Nat} (shared : (conts.imgAt i).status.shrc = true) :
    imgMask numa default conts i = imgBase numa default conts i := if_pos shared

/-- Narrowing gives an image its mask, or leaves the one it shares. -/
theorem narrowed_img (unnarrowed : Unnarrowed numa default conts) {i : Nat}
    (image : i ∈ conts.img) :
    narrowedMask (imgBase numa default conts i) (imgParts numa default conts i) =
      imgMask numa default conts i := by
  cases shared : (conts.imgAt i).status.shrc with
  | true => rw [unnarrowed.img i image shared, img_mask_shared shared]
  | false => rw [img_mask_own shared]

theorem pid_dep_direct (hier : Hierarchy conts) {i p : Nat} (image : i ∈ conts.img)
    (member : p ∈ (conts.imgAt i).pids) :
    pidDep numa default conts p = imgBase numa default conts i := by
  rw [pidDep, (hier.imgPids i image p member).2.1]
  exact if_pos ⟨image, member⟩

/-- A PID that no image lists has the mask it gets with its container. -/
theorem pid_dep_cont (hier : Hierarchy conts) {c p : Nat} (listed : c ∈ conts.cont)
    (member : p ∈ (conts.contAt c).pids)
    (apart : ∀ i ∈ conts.img, c ∈ (conts.imgAt i).conts → p ∉ (conts.imgAt i).pids) :
    pidDep numa default conts p = contDep numa default conts p := by
  rw [pidDep]
  cases (conts.pidcAt p).img with
  | none => rfl
  | some j =>
      apply if_neg
      intro ⟨image, inside⟩
      rcases (hier.imgPids j image p inside).2.2 _ (hier.contPids c listed p member).2 with
        this | ⟨other, owned, this⟩
      · cases this
      · cases this
        exact apart j image owned inside

theorem conts_settled {i c : Nat} (inside : (conts.contAt c).img = some i)
    (member : c ∈ (conts.imgAt i).conts)
    (found : masks (imgOwner conts i) = imgBase numa default conts i) :
    settled (contValues numa default conts) ((conts.imgAt i).conts.flatMap (contHolders conts)) masks
      (contOwner conts c) = contMask numa default conts c := by
  rcases cont_owner_cases conts c with ⟨_, same⟩ | ⟨shared, _⟩
  · rw [same, settled_in (List.mem_flatMap_of_mem member (cont_listed conts c)), cont_values_cont]
  · have same : contOwner conts c = imgOwner conts i := by
      rw [contOwner, shared, inside]
      rfl
    rw [same, settled_out (img_not_listed i _), found, cont_mask_shared shared, contBase, inside,
      shared]
    rfl

/-- The mask found at a PID that an image lists. -/
theorem img_pid_seen (hier : Hierarchy conts) {i p : Nat} (image : i ∈ conts.img)
    (member : p ∈ (conts.imgAt i).pids)
    (found : masks (imgOwner conts i) = imgBase numa default conts i) :
    pidSeen numa default conts
        (settled (contValues numa default conts)
          ((conts.imgAt i).conts.flatMap (contHolders conts)) masks)
        (imgBase numa default conts i) p =
      if (conts.pidcAt p).status.shrc then
        match (conts.pidcAt p).cont with
        | some (.cont c) => contMask numa default conts c
        | _ => imgBase numa default conts i
      else ownMask numa default conts (.pid p) (imgBase numa default conts i) := by
  obtain ⟨_, link, inside⟩ := hier.imgPids i image p member
  rw [pidSeen]
  split
  · rename_i shared
    rw [owner, if_pos shared, pidAbove, link]
    cases above : (conts.pidcAt p).cont with
    | none => exact (settled_out (img_not_listed i _)).trans found
    | some ptr =>
        rcases inside ptr above with rfl | ⟨c, listed, rfl⟩
        · exact (settled_out (img_not_listed i _)).trans found
        · exact conts_settled (hier.imgConts i image c listed).2 listed found
  · rfl

theorem img_holder_cases (conts : Containers) (i : Nat) (user : Holder) :
    user = .img i ∨
      user ≠ .img i ∧
        ((∃ p ∈ (conts.imgAt i).pids, user = .pid p) ∨
          user ∉ (conts.imgAt i).pids.map Holder.pid ∧
            ((∃ c ∈ (conts.imgAt i).conts, user ∈ contHolders conts c) ∨
              user ∉ (conts.imgAt i).conts.flatMap (contHolders conts))) := by
  by_cases this : user = .img i
  · exact .inl this
  · refine .inr ⟨this, ?_⟩
    by_cases direct : user ∈ (conts.imgAt i).pids.map Holder.pid
    · obtain ⟨p, listed, same⟩ := List.mem_map.mp direct
      exact .inl ⟨p, listed, same.symm⟩
    · refine .inr ⟨direct, ?_⟩
      by_cases inner : user ∈ (conts.imgAt i).conts.flatMap (contHolders conts)
      · exact .inl (List.mem_flatMap.mp inner)
      · exact .inr inner

theorem img_listed (conts : Containers) (i : Nat) : .img i ∈ imgHolders conts i :=
  List.mem_cons_self

theorem defaults_not_listed (i : Nat) : .defaults ∉ imgHolders conts i := by
  simp [imgHolders, contHolders]

theorem direct_listed {i p : Nat} (member : p ∈ (conts.imgAt i).pids) :
    .pid p ∈ imgHolders conts i :=
  List.mem_cons_of_mem _ (List.mem_append_right _ (List.mem_map_of_mem member))

theorem inner_listed {i c : Nat} {user : Holder} (listed : c ∈ (conts.imgAt i).conts)
    (inside : user ∈ contHolders conts c) : user ∈ imgHolders conts i :=
  List.mem_cons_of_mem _ (List.mem_append_left _ (List.mem_flatMap_of_mem listed inside))

theorem cont_values_target (hier : Hierarchy conts) {i c : Nat} {user : Holder}
    (image : i ∈ conts.img) (listed : c ∈ (conts.imgAt i).conts) (inside : user ∈ contHolders conts c)
    (noPid : user ∉ (conts.imgAt i).pids.map Holder.pid) :
    target numa default conts user = contValues numa default conts user := by
  obtain ⟨known, link⟩ := hier.imgConts i image c listed
  rcases List.mem_cons.mp inside with rfl | inside
  · rfl
  · obtain ⟨p, member, rfl⟩ := List.mem_map.mp inside
    rw [target, contValues, pid_dep_cont hier known member]
    intro j other owned direct
    cases link.symm.trans (hier.imgConts j other c owned).2
    exact noPid (List.mem_map_of_mem direct)

theorem prepare_img_masks (hier : Hierarchy conts) (unnarrowed : Unnarrowed numa default conts)
    {i : Nat} {sched next : Schedule}
    (steps : prepareImg fp numa rrtime default sched i = .ok next)
    (run : Masks default conts sched.1 masks) (image : i ∈ conts.img)
    (global : masks .defaults = globalMask numa default conts) :
    Masks default conts next.1 (settled (target numa default conts) (imgHolders conts i) masks) ∧
      ImgFits numa default conts i := by
  unfold prepareImg at steps
  obtain ⟨inConts, nested, steps⟩ := bind_ok steps
  obtain ⟨walk, direct, steps⟩ := bind_ok steps
  obtain ⟨narrowedConts, narrows, steps⟩ := bind_ok steps
  obtain ⟨fixed, fixes, steps⟩ := bind_ok steps
  cases steps
  have known := known_img image
  have pushed := run.push hier numa known none
  rw [show holder (.img i) = Holder.img i from rfl] at pushed
  have base : Function.update masks (.img i) (ownMask numa default conts (.img i) none)
      (imgOwner conts i) = imgBase numa default conts i := by
    rw [imgOwner, imgBase]
    cases (conts.imgAt i).status.shrc with
    | true => exact (Function.update_of_ne (by simp) _ _).trans global
    | false => exact Function.update_self _ _ _
  rw [kept_img_conts pushed.kept] at nested
  obtain ⟨first, joined, conts_fit⟩ :=
    dd_conts_masks hier unnarrowed nested image pushed base fun _ member => member
  rw [kept_img_pids first.kept] at direct
  have still : settled (contValues numa default conts)
      ((conts.imgAt i).conts.flatMap (contHolders conts))
      (Function.update masks (.img i) (ownMask numa default conts (.img i) none))
      (imgOwner conts i) = imgBase numa default conts i :=
    (settled_out (img_not_listed i _)).trans base
  obtain ⟨second, joinedPids, pids_fit⟩ := dd_pids_masks hier direct first known (img_owner_pid conts i)
    still fun p member => (hier.imgPids i image p member).1
  have parts : walk.2.1 = union ((imgParts numa default conts i).map fun part => part.getD ∅) := by
    rw [joinedPids, joined, Finset.union_empty, Finset.union_comm, imgParts, List.map_append,
      union_append, List.map_map, List.map_map]
    refine congrArg (_ ∪ union ·) (List.map_congr_left fun p member => ?_)
    exact congrArg (fun part : Option Bitmask => part.getD ∅) (img_pid_seen hier image member base)
  have ends := second.narrow hier known narrows
  rw [show owner conts (.img i) = imgOwner conts i from rfl,
    settled_out (pid_not_listed (img_owner_pid conts i)), still, parts] at ends
  rw [show Option.map _ (imgBase numa default conts i) = imgMask numa default conts i from
    narrowed_img unnarrowed image] at ends
  obtain ⟨placed, fits⟩ := ends.fix hier known fixes
  rw [show owner conts (.img i) = imgOwner conts i from rfl, Function.update_self] at fits
  refine ⟨placed.agree fun user settings owns => ?_, fits, conts_fit, fun p member own => ?_⟩
  · rcases img_holder_cases conts i user with rfl | ⟨other, ⟨p, member, rfl⟩ | ⟨noPid, inner⟩⟩
    · -- the image owns its resources
      have own : (conts.imgAt i).status.shrc = false := by
        cases (known_img image).symm.trans owns.1
        exact owns.2
      have same : imgOwner conts i = .img i := by
        rcases img_owner_flag conts i with ⟨_, same⟩ | ⟨shared, _⟩
        · exact same
        · cases own.symm.trans shared
      rw [settled_in (img_listed conts i), same, Function.update_self, target]
    · have apart : Holder.pid p ≠ imgOwner conts i := fun this => img_owner_pid conts i p this.symm
      rw [settled_in (direct_listed member), Function.update_of_ne apart,
        settled_in (List.mem_map_of_mem member), target, pidValues, pid_dep_direct hier image member]
    · rcases inner with ⟨c, listed, inside⟩ | outside
      · have apart : user ≠ imgOwner conts i := by
          intro this
          apply img_not_listed i (conts.imgAt i).conts
          rw [← this]
          exact List.mem_flatMap_of_mem listed inside
        rw [settled_in (inner_listed listed inside), Function.update_of_ne apart,
          settled_out noPid, settled_in (List.mem_flatMap_of_mem listed inside)]
        exact cont_values_target hier image listed inside noPid
      · have out : user ∉ imgHolders conts i := by
          intro member
          rcases List.mem_cons.mp member with this | member
          · exact other this
          · exact (List.mem_append.mp member).elim outside noPid
        rw [settled_out out]
        by_cases this : user = imgOwner conts i
        · rcases img_owner_flag conts i with ⟨_, same⟩ | ⟨shared, same⟩
          · exact absurd (this.trans same) other
          · -- the global resources, which the narrowing leaves
            rw [this, Function.update_self, same, global, img_mask_shared shared, imgBase, shared]
            rfl
        · rw [Function.update_of_ne this, settled_out noPid, settled_out outside,
            Function.update_of_ne other]
  · have fit := pids_fit p member
    rw [pidSeen, own] at fit
    exact fit

theorem images_masks (hier : Hierarchy conts) (unnarrowed : Unnarrowed numa default conts)
    {sched next : Schedule} {is : List Nat}
    (steps : is.foldlM (prepareImg fp numa rrtime default) sched = .ok next)
    (run : Masks default conts sched.1 masks) (listed : ∀ i ∈ is, i ∈ conts.img)
    (global : masks .defaults = globalMask numa default conts) :
    Masks default conts next.1
        (settled (target numa default conts) (is.flatMap (imgHolders conts)) masks) ∧
      ∀ i ∈ is, ImgFits numa default conts i := by
  have all := fold_rule (prepareImg fp numa rrtime default)
    (fun sched is next => ∀ masks, Masks default conts sched.1 masks →
      masks .defaults = globalMask numa default conts → (∀ i ∈ is, i ∈ conts.img) →
      Masks default conts next.1
          (settled (target numa default conts) (is.flatMap (imgHolders conts)) masks) ∧
        ∀ i ∈ is, ImgFits numa default conts i)
    ?_ ?_ is sched next steps
  · exact all masks run global listed
  · intro sched masks run _ _
    exact ⟨run, fun _ member => by cases member⟩
  · intro sched i middle rest finish step tail masks run global listed
    obtain ⟨first, fits⟩ := prepare_img_masks hier unnarrowed step run
      (listed i List.mem_cons_self) global
    obtain ⟨second, more⟩ := tail _ first ((settled_out (defaults_not_listed i)).trans global)
      fun j member => listed j (List.mem_cons_of_mem i member)
    rw [← settled_append] at second
    refine ⟨second, fun j member => ?_⟩
    rcases List.mem_cons.mp member with rfl | later
    · exact fits
    · exact more j later

end Images

end Orchestrator.MaskWalk
