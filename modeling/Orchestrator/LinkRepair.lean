import Mathlib.Data.Set.Insert
import Orchestrator.Links

/-!
`checkContParam` as a repair: every link it looks at is a pointer back to the
owner of a list, or an entry in the list of an owner. It fills what is missing,
counts what contradicts, and finds nothing left to fill when it is called again.
-/

namespace Orchestrator.LinkRepair
open Orchdata ParseConfig Links

/-- A pointer that is to lead back to the owner of a list. -/
inductive Back where
  | contImg (c i : Nat)
  | pidImg (p i : Nat)
  | pidCont (p c : Nat)

namespace Back

def pointer (conts : Containers) : Back → Option ContPtr
  | contImg c _ => (conts.contAt c).img.map .img
  | pidImg p _ => (conts.pidcAt p).img.map .img
  | pidCont p _ => (conts.pidcAt p).cont

def target : Back → ContPtr
  | contImg _ i => .img i
  | pidImg _ i => .img i
  | pidCont _ c => .cont c

def link (conts : Containers) : Back → Containers
  | contImg c i => conts.setCont c { conts.contAt c with img := some i }
  | pidImg p i => conts.setPidc p { conts.pidcAt p with img := some i }
  | pidCont p c => conts.setPidc p { conts.pidcAt p with cont := some (.cont c) }

/-- The pointer leads back. -/
def Holds (conts : Containers) (back : Back) : Prop := back.pointer conts = some back.target

end Back

/-- The lists of owners. -/
inductive Listing where
  | imgConts (i : Nat)
  | imgPids (i : Nat)
  | contPids (c : Nat)
  deriving DecidableEq

namespace Listing

def items (conts : Containers) : Listing → List Nat
  | imgConts i => (conts.imgAt i).conts
  | imgPids i => (conts.imgAt i).pids
  | contPids c => (conts.contAt c).pids

/-- The pointer an entry is to have. -/
def back : Listing → Nat → Back
  | imgConts i, c => .contImg c i
  | imgPids i, p => .pidImg p i
  | contPids c, p => .pidCont p c

def push (conts : Containers) : Listing → Nat → Containers
  | imgConts i, c => conts.setImg i { conts.imgAt i with conts := c :: (conts.imgAt i).conts }
  | imgPids i, p => pushPids conts (some (.img i)) p
  | contPids c, p => pushPids conts (some (.cont c)) p

/-- The list of PIDs behind a pointer. -/
def ofPtr : ContPtr → Listing
  | .img i => imgPids i
  | .cont c => contPids c

/-- Lists of these images and these containers. -/
def Visited (imgs conts : Set Nat) : Listing → Prop
  | imgConts i => i ∈ imgs
  | imgPids i => i ∈ imgs
  | contPids c => c ∈ conts

end Listing

/-- One pointer looked at: filled if it is missing, counted if it leads elsewhere. -/
def checkBack (check : Check) (back : Back) : Check :=
  let linked :=
    if back.pointer check.conts = none then
      { check with conts := back.link check.conts, fix := check.fix + 1 }
    else check
  if back.pointer linked.conts ≠ some back.target then { linked with fil := linked.fil + 1 }
  else linked

/-- One list looked at: the entry is added if it is missing. -/
def checkListing (check : Check) (listing : Listing) (item : Nat) : Check :=
  if item ∈ listing.items check.conts then check
  else { check with conts := listing.push check.conts item, fix := check.fix + 1 }

section Forms

theorem check_img_cont_eq (i : Nat) (check : Check) (c : Nat) :
    checkImgCont i check c = checkBack check (.contImg c i) := by
  simp [checkImgCont, checkBack, Back.pointer, Back.target, Back.link]

theorem check_img_pid_eq (i : Nat) (check : Check) (p : Nat) :
    checkImgPid i check p = checkBack check (.pidImg p i) := by
  simp [checkImgPid, checkBack, Back.pointer, Back.target, Back.link]

theorem check_cont_pid_eq (c : Nat) (check : Check) (p : Nat) :
    checkContPid c check p = checkBack check (.pidCont p c) := rfl

theorem check_owner_eq (check : Check) (owner : Option ContPtr) (p : Nat) :
    checkOwner check owner p =
      owner.elim check fun ptr => checkListing check (Listing.ofPtr ptr) p := by
  cases owner with
  | none => rfl
  | some ptr => cases ptr <;> rfl

end Forms

/-- Links only grow: pointers and entries stay, what is added was missing, and
nothing else changes. -/
structure Repairs (before after : Containers) : Prop where
  pointers : ∀ back : Back, ∀ ptr, back.pointer before = some ptr → back.pointer after = some ptr
  filled : ∀ p i, (after.pidcAt p).cont = some (.img i) → (before.pidcAt p).cont = some (.img i)
  lists : ∀ listing : Listing, ∃ new, listing.items after = new ++ listing.items before ∧
    new.Nodup ∧ ∀ item ∈ new, item ∉ listing.items before
  imgRest : ∀ i, (after.imgAt i).toParm = (before.imgAt i).toParm ∧
    (after.imgAt i).imgid = (before.imgAt i).imgid
  contRest : ∀ c, (after.contAt c).toParm = (before.contAt c).toParm ∧
    (after.contAt c).contid = (before.contAt c).contid
  pidcRest : ∀ p, (after.pidcAt p).toParm = (before.pidcAt p).toParm ∧
    (after.pidcAt p).psig = (before.pidcAt p).psig
  rest : { after with imgAt := before.imgAt, contAt := before.contAt, pidcAt := before.pidcAt } =
    before

theorem repairs_refl (conts : Containers) : Repairs conts conts where
  pointers := fun _ _ same => same
  filled := fun _ _ same => same
  lists := fun _ => ⟨[], rfl, List.nodup_nil, by simp⟩
  imgRest := fun _ => ⟨rfl, rfl⟩
  contRest := fun _ => ⟨rfl, rfl⟩
  pidcRest := fun _ => ⟨rfl, rfl⟩
  rest := rfl

theorem repairs_trans {first middle last : Containers} (left : Repairs first middle)
    (right : Repairs middle last) : Repairs first last where
  pointers := fun back ptr known => right.pointers back ptr (left.pointers back ptr known)
  filled := fun p i known => left.filled p i (right.filled p i known)
  lists := by
    intro listing
    obtain ⟨new, grown, distinct, fresh⟩ := left.lists listing
    obtain ⟨more, grownMore, distinctMore, freshMore⟩ := right.lists listing
    rw [grown] at grownMore freshMore
    refine ⟨more ++ new, by rw [grownMore, List.append_assoc], ?_, ?_⟩
    · refine List.nodup_append.mpr ⟨distinctMore, distinct, fun a inMore b inNew same => ?_⟩
      exact freshMore a inMore (List.mem_append_left _ (same ▸ inNew))
    · intro item member
      rcases List.mem_append.mp member with inMore | inNew
      · exact fun old => freshMore item inMore (List.mem_append_right _ old)
      · exact fresh item inNew
  imgRest := fun i => ⟨(right.imgRest i).1.trans (left.imgRest i).1,
    (right.imgRest i).2.trans (left.imgRest i).2⟩
  contRest := fun c => ⟨(right.contRest c).1.trans (left.contRest c).1,
    (right.contRest c).2.trans (left.contRest c).2⟩
  pidcRest := fun p => ⟨(right.pidcRest p).1.trans (left.pidcRest p).1,
    (right.pidcRest p).2.trans (left.pidcRest p).2⟩
  rest := (congrArg (fun conts : Containers =>
    { conts with imgAt := first.imgAt, contAt := first.contAt, pidcAt := first.pidcAt })
    right.rest).trans left.rest

theorem Repairs.member {before after : Containers} (repairs : Repairs before after)
    (listing : Listing) {item : Nat} (listed : item ∈ listing.items before) :
    item ∈ listing.items after := by
  obtain ⟨new, grown, -⟩ := repairs.lists listing
  rw [grown]
  exact List.mem_append_right new listed

section Steps
variable (conts : Containers)

theorem link_pointer (back : Back) : back.pointer (back.link conts) = some back.target := by
  cases back <;> simp [Back.pointer, Back.link, Back.target, Containers.setCont, Containers.setPidc]

theorem link_items (back : Back) (listing : Listing) :
    listing.items (back.link conts) = listing.items conts := by
  cases back with
  | contImg c i =>
      cases listing with
      | contPids other =>
          refine update_keeps conts.contAt c _ Cont.pids ?_ other
          rfl
      | _ => rfl
  | pidImg p i => cases listing <;> rfl
  | pidCont p c => cases listing <;> rfl

variable {conts}

/-- A missing pointer filled leaves the others as they are. -/
theorem link_pointers {back : Back} (missing : back.pointer conts = none) (other : Back)
    (ptr : ContPtr) (known : other.pointer conts = some ptr) :
    other.pointer (back.link conts) = some ptr := by
  cases back with
  | contImg c i =>
      cases other with
      | contImg d j =>
          have differ : d ≠ c := by
            rintro rfl
            rw [show Back.pointer conts (.contImg d j) = Back.pointer conts (.contImg d i) from rfl,
              missing] at known
            cases known
          simpa [Back.pointer, Back.link, Containers.setCont, differ] using known
      | _ => exact known
  | pidImg p i =>
      cases other with
      | contImg d j => exact known
      | pidImg q j =>
          have differ : q ≠ p := by
            rintro rfl
            rw [show Back.pointer conts (.pidImg q j) = Back.pointer conts (.pidImg q i) from rfl,
              missing] at known
            cases known
          simpa [Back.pointer, Back.link, Containers.setPidc, differ] using known
      | pidCont q c =>
          refine (update_keeps conts.pidcAt p _ Pidc.cont ?_ q).trans known
          rfl
  | pidCont p c =>
      cases other with
      | contImg d j => exact known
      | pidImg q j =>
          refine (update_keeps conts.pidcAt p _ (fun pidc => pidc.img.map ContPtr.img) ?_ q).trans
            known
          rfl
      | pidCont q d =>
          have differ : q ≠ p := by
            rintro rfl
            rw [show Back.pointer conts (.pidCont q d) = Back.pointer conts (.pidCont q c) from rfl,
              missing] at known
            cases known
          simpa [Back.pointer, Back.link, Containers.setPidc, differ] using known

theorem link_filled (back : Back) (p i : Nat)
    (known : ((back.link conts).pidcAt p).cont = some (.img i)) :
    (conts.pidcAt p).cont = some (.img i) := by
  cases back with
  | contImg c j => exact known
  | pidImg q j =>
      refine Eq.trans (Eq.symm ?_) known
      refine update_keeps conts.pidcAt q _ Pidc.cont ?_ p
      rfl
  | pidCont q c =>
      by_cases same : p = q
      · subst same
        simp [Back.link, Containers.setPidc] at known
      · simpa [Back.link, Containers.setPidc, same] using known

theorem link_repairs {back : Back} (missing : back.pointer conts = none) :
    Repairs conts (back.link conts) where
  pointers := link_pointers missing
  filled := link_filled back
  lists := fun listing => ⟨[], by rw [link_items]; rfl, List.nodup_nil, by simp⟩
  imgRest := fun i => by cases back <;> exact ⟨rfl, rfl⟩
  contRest := fun c => by
    cases back with
    | contImg d i =>
        refine ⟨update_keeps conts.contAt d _ Cont.toParm ?_ c,
          update_keeps conts.contAt d _ Cont.contid ?_ c⟩ <;> rfl
    | _ => exact ⟨rfl, rfl⟩
  pidcRest := fun p => by
    cases back with
    | contImg d i => exact ⟨rfl, rfl⟩
    | pidImg q _ | pidCont q _ =>
        refine ⟨update_keeps conts.pidcAt q _ Pidc.toParm ?_ p,
          update_keeps conts.pidcAt q _ Pidc.psig ?_ p⟩ <;> rfl
  rest := by cases back <;> rfl

theorem push_items (listing other : Listing) (item : Nat) :
    other.items (listing.push conts item) =
      if other = listing then item :: listing.items conts else other.items conts := by
  cases listing with
  | imgConts i =>
      cases other with
      | contPids d => rfl
      | imgConts j | imgPids j =>
          by_cases same : j = i
          · subst same
            simp [Listing.items, Listing.push, Containers.setImg]
          · simp [Listing.items, Listing.push, Containers.setImg, same]
  | imgPids i =>
      cases other with
      | contPids d => rfl
      | imgConts j | imgPids j =>
          by_cases same : j = i
          · subst same
            simp [Listing.items, Listing.push, pushPids, Containers.setImg]
          · simp [Listing.items, Listing.push, pushPids, Containers.setImg, same]
  | contPids c =>
      cases other with
      | contPids d =>
          by_cases same : d = c
          · subst same
            simp [Listing.items, Listing.push, pushPids, Containers.setCont]
          · simp [Listing.items, Listing.push, pushPids, Containers.setCont, same]
      | _ => rfl

theorem push_pointer (listing : Listing) (item : Nat) (back : Back) :
    back.pointer (listing.push conts item) = back.pointer conts := by
  cases listing with
  | contPids c =>
      cases back with
      | contImg d i =>
          refine update_keeps conts.contAt c _ (fun cont => cont.img.map ContPtr.img) ?_ d
          rfl
      | _ => rfl
  | _ => cases back <;> rfl

theorem push_repairs {listing : Listing} {item : Nat} (missing : item ∉ listing.items conts) :
    Repairs conts (listing.push conts item) where
  pointers := fun back ptr known => (push_pointer listing item back).trans known
  filled := fun p i known => by cases listing <;> exact known
  lists := fun other => by
    rw [push_items]
    by_cases same : other = listing
    · subst same
      rw [if_pos rfl]
      exact ⟨[item], rfl, List.nodup_singleton item, by simpa using missing⟩
    · rw [if_neg same]
      exact ⟨[], rfl, List.nodup_nil, by simp⟩
  imgRest := fun i => by
    cases listing with
    | contPids c => exact ⟨rfl, rfl⟩
    | imgConts j | imgPids j =>
        refine ⟨update_keeps conts.imgAt j _ Img.toParm ?_ i,
          update_keeps conts.imgAt j _ Img.imgid ?_ i⟩ <;> rfl
  contRest := fun c => by
    cases listing with
    | contPids d =>
        refine ⟨update_keeps conts.contAt d _ Cont.toParm ?_ c,
          update_keeps conts.contAt d _ Cont.contid ?_ c⟩ <;> rfl
    | _ => exact ⟨rfl, rfl⟩
  pidcRest := fun p => by cases listing <;> exact ⟨rfl, rfl⟩
  rest := by cases listing <;> rfl

end Steps

/-- What the counters know: the pointers looked at are set, and all lead back unless
one was counted. -/
structure Checked (check : Check) (done : Set Back) : Prop where
  present : ∀ back ∈ done, back.pointer check.conts ≠ none
  fil : check.fil = 0 ↔ ∀ back ∈ done, back.Holds check.conts

section Checks
variable {check : Check} {done : Set Back}

theorem check_back_repairs (check : Check) (back : Back) :
    Repairs check.conts (checkBack check back).conts := by
  unfold checkBack
  dsimp only
  split_ifs with missing _ _
  all_goals first
    | exact link_repairs missing
    | exact repairs_refl check.conts

theorem check_back_items (check : Check) (back : Back) (listing : Listing) :
    listing.items (checkBack check back).conts = listing.items check.conts := by
  unfold checkBack
  dsimp only
  split_ifs
  all_goals first
    | exact link_items check.conts back listing
    | rfl

/-- The pointer is set afterwards, and counted unless it leads back. -/
theorem check_back_result (check : Check) (back : Back) :
    back.pointer (checkBack check back).conts ≠ none ∧
      ((checkBack check back).fil = 0 ↔ check.fil = 0 ∧ back.Holds (checkBack check back).conts) := by
  unfold checkBack Back.Holds
  dsimp only
  by_cases missing : back.pointer check.conts = none
  · simp [missing, link_pointer]
  · by_cases leads : back.pointer check.conts = some back.target
    · simp [leads]
    · simp [missing, leads]

theorem Repairs.same_pointer {before after : Containers} (repairs : Repairs before after)
    {back : Back} (present : back.pointer before ≠ none) :
    back.pointer after = back.pointer before := by
  obtain ⟨ptr, known⟩ := Option.ne_none_iff_exists'.mp present
  rw [known, repairs.pointers back ptr known]

/-- One pointer more is looked at. -/
theorem check_back_checked (checked : Checked check done) (back : Back) :
    Checked (checkBack check back) (insert back done) := by
  obtain ⟨set, counted⟩ := check_back_result check back
  have same : ∀ other ∈ done,
      other.pointer (checkBack check back).conts = other.pointer check.conts := fun other member =>
    (check_back_repairs check back).same_pointer (checked.present other member)
  constructor
  · rintro other (rfl | member)
    · exact set
    · rw [same other member]
      exact checked.present other member
  · rw [counted, checked.fil]
    constructor
    · rintro ⟨all, leads⟩ other (rfl | member)
      · exact leads
      · exact (same other member).trans (all other member)
    · intro all
      exact ⟨fun other member => (same other member).symm.trans (all other (Or.inr member)),
        all back (Or.inl rfl)⟩

theorem check_listing_repairs (check : Check) (listing : Listing) (item : Nat) :
    Repairs check.conts (checkListing check listing item).conts := by
  unfold checkListing
  split_ifs with listed
  · exact repairs_refl check.conts
  · exact push_repairs listed

theorem check_listing_pointer (check : Check) (listing : Listing) (item : Nat) (back : Back) :
    back.pointer (checkListing check listing item).conts = back.pointer check.conts := by
  unfold checkListing
  split_ifs
  · rfl
  · exact push_pointer listing item back

theorem check_listing_mem (check : Check) (listing other : Listing) (item x : Nat) :
    x ∈ other.items (checkListing check listing item).conts ↔
      x ∈ other.items check.conts ∨ (other = listing ∧ x = item) := by
  unfold checkListing
  split_ifs with listed
  · constructor
    · exact Or.inl
    · rintro (known | ⟨rfl, rfl⟩)
      · exact known
      · exact listed
  · rw [push_items]
    by_cases same : other = listing
    · subst same
      simp [or_comm]
    · simp [same]

theorem check_listing_checked (checked : Checked check done) (listing : Listing) (item : Nat) :
    Checked (checkListing check listing item) done := by
  have fil : (checkListing check listing item).fil = check.fil := by
    unfold checkListing
    split_ifs <;> rfl
  refine ⟨fun back member => ?_, ?_⟩
  · rw [check_listing_pointer]
    exact checked.present back member
  · simp only [fil, Back.Holds, check_listing_pointer]
    exact checked.fil

/-- Pointers that lead back need no look. -/
theorem Checked.grow {more : Set Back} (checked : Checked check done) (fewer : done ⊆ more)
    (holds : ∀ back ∈ more, back ∉ done → back.Holds check.conts) : Checked check more := by
  classical
  refine ⟨fun back member => ?_, checked.fil.trans ⟨fun all back member => ?_,
    fun all back member => all back (fewer member)⟩⟩
  · by_cases old : back ∈ done
    · exact checked.present back old
    · rw [holds back member old]
      exact Option.some_ne_none _
  · by_cases old : back ∈ done
    · exact all back old
    · exact holds back member old

end Checks

/-- A loop adds its items one by one to those it is done with. -/
theorem foldl_done {α σ : Type} (step : σ → α → σ) (holds : Set α → σ → Prop) (items : List α)
    (more : ∀ item ∈ items, ∀ done state, holds done state → holds (insert item done) (step state item))
    (done : Set α) (state : σ) (before : holds done state) :
    holds (done ∪ {item | item ∈ items}) (items.foldl step state) := by
  induction items generalizing done state with
  | nil => simpa using before
  | cons item rest ih =>
      have after := ih (fun other member => more other (List.mem_cons_of_mem item member))
        (insert item done) (step state item) (more item List.mem_cons_self done state before)
      have same : insert item done ∪ {other | other ∈ rest} =
          done ∪ {other | other ∈ item :: rest} := by
        ext other
        simp only [Set.mem_union, Set.mem_insert_iff, Set.mem_ofPred_eq, List.mem_cons]
        tauto
      rwa [same] at after

/-- A whole list of pointers leaves the lists. -/
theorem fold_back_frame (check : Check) (backs : List Back) :
    Repairs check.conts (backs.foldl checkBack check).conts ∧
      ∀ listing : Listing,
        listing.items (backs.foldl checkBack check).conts = listing.items check.conts := by
  induction backs generalizing check with
  | nil => exact ⟨repairs_refl _, fun _ => rfl⟩
  | cons back rest ih =>
      obtain ⟨repairs, items⟩ := ih (checkBack check back)
      rw [List.foldl_cons]
      exact ⟨repairs_trans (check_back_repairs check back) repairs, fun listing =>
        (items listing).trans (check_back_items check back listing)⟩

theorem fold_back_checked {check : Check} {done : Set Back} (checked : Checked check done)
    (backs : List Back) : Checked (backs.foldl checkBack check) (done ∪ {back | back ∈ backs}) :=
  foldl_done checkBack (fun done state => Checked state done) backs
    (fun back _ _ _ checked => check_back_checked checked back) done check checked

/-- The pointers that the entries of these images' and these containers' lists are to have. -/
def backs (conts : Containers) (imgs members : Set Nat) : Set Back :=
  { back | ∃ listing : Listing, listing.Visited imgs members ∧
    ∃ item ∈ listing.items conts, listing.back item = back }

/-- The entries that the pointers of these containers and these PIDs are to have. -/
structure Listed (conts : Containers) (members pids : Set Nat) : Prop where
  contImg : ∀ c ∈ members, ∀ i, (conts.contAt c).img = some i → c ∈ (conts.imgAt i).conts
  pidImg : ∀ p ∈ pids, ∀ i, (conts.pidcAt p).img = some i → p ∈ (conts.imgAt i).pids
  pidCont : ∀ p ∈ pids, ∀ ptr, (conts.pidcAt p).cont = some ptr → p ∈ pidsOf conts ptr

/-- A pointer to an image in the place of a container, as the parser leaves it, belongs to
a PID of that image. -/
def Owned (conts : Containers) : Prop :=
  ∀ p ∈ conts.pids, ∀ i, (conts.pidcAt p).cont = some (.img i) →
    p ∈ (conts.imgAt i).pids ∨ (conts.pidcAt p).img = some i

/-- Progress of the passes: images, containers and PIDs looked at so far. -/
structure Progress (start : Containers) (imgs members pids : Set Nat) (check : Check) : Prop where
  repairs : Repairs start check.conts
  checked : Checked check (backs check.conts imgs members)
  listed : Listed check.conts members pids

section Passes
variable {check : Check} {start : Containers} {imgs members pids : Set Nat}

theorem fold_forms (check : Check) (step : Check → Nat → Check) (form : Nat → Back)
    (items : List Nat) (same : ∀ check item, step check item = checkBack check (form item)) :
    items.foldl step check = (items.map form).foldl checkBack check := by
  rw [List.foldl_map]
  exact congrArg (fun step => items.foldl step check) (funext₂ same)

/-- Pointers of one image's lists. -/
def imgBacks (conts : Containers) (i : Nat) : List Back :=
  ((conts.imgAt i).conts.map fun c => .contImg c i) ++
    (conts.imgAt i).pids.map fun p => .pidImg p i

theorem check_img_eq (check : Check) (i : Nat) :
    checkImg check i = (imgBacks check.conts i).foldl checkBack check := by
  have first := fold_forms check (checkImgCont i) (fun c => .contImg c i)
    (check.conts.imgAt i).conts (check_img_cont_eq i)
  have kept := (fold_back_frame check ((check.conts.imgAt i).conts.map fun c => .contImg c i)).2
    (.imgPids i)
  simp only [Listing.items] at kept
  rw [checkImg, first, imgBacks, List.foldl_append, kept]
  exact fold_forms _ _ _ _ (check_img_pid_eq i)

/-- The list that a pointer leads to, if there is one. -/
def listEntry {β : Type} (check : Check) (pointer : Option β) (listing : β → Listing)
    (item : Nat) : Check :=
  pointer.elim check fun owner => checkListing check (listing owner) item

theorem check_cont_eq (check : Check) (c : Nat) :
    checkCont check c =
      let listed := listEntry check (check.conts.contAt c).img .imgConts c
      ((listed.conts.contAt c).pids.map fun p => Back.pidCont p c).foldl checkBack listed := by
  have form : checkCont check c =
      let listed := listEntry check (check.conts.contAt c).img .imgConts c
      (listed.conts.contAt c).pids.foldl (checkContPid c) listed := by
    unfold checkCont listEntry
    cases (check.conts.contAt c).img <;> rfl
  rw [form]
  exact fold_forms _ _ _ _ (check_cont_pid_eq c)

theorem check_pid_eq (check : Check) (p : Nat) :
    checkPid check p =
      let imaged := listEntry check (check.conts.pidcAt p).img .imgPids p
      listEntry imaged (imaged.conts.pidcAt p).cont .ofPtr p := by
  have first : checkOwner check ((check.conts.pidcAt p).img.map ContPtr.img) p =
      listEntry check (check.conts.pidcAt p).img .imgPids p := by
    rw [check_owner_eq, listEntry]
    cases (check.conts.pidcAt p).img <;> rfl
  rw [checkPid, first]
  exact check_owner_eq _ _ p

/-- Lists only grow, so what was listed is listed where the pointers stay. -/
theorem Listed.grow {before after : Containers} (listed : Listed before members pids)
    (repairs : Repairs before after)
    (contImg : ∀ c ∈ members, (after.contAt c).img = (before.contAt c).img)
    (pidImg : ∀ p ∈ pids, (after.pidcAt p).img = (before.pidcAt p).img)
    (pidCont : ∀ p ∈ pids, (after.pidcAt p).cont = (before.pidcAt p).cont) :
    Listed after members pids where
  contImg := fun c member i known =>
    repairs.member (.imgConts i) (listed.contImg c member i (contImg c member ▸ known))
  pidImg := fun p member i known =>
    repairs.member (.imgPids i) (listed.pidImg p member i (pidImg p member ▸ known))
  pidCont := fun p member ptr known => by
    have before := listed.pidCont p member ptr (pidCont p member ▸ known)
    cases ptr with
    | cont c => exact repairs.member (.contPids c) before
    | img i => exact repairs.member (.imgPids i) before

/-- Adding an entry keeps the pointers. -/
theorem check_listing_same (check : Check) (listing : Listing) (item : Nat) :
    (∀ c, ((checkListing check listing item).conts.contAt c).img = (check.conts.contAt c).img) ∧
      ∀ p, ((checkListing check listing item).conts.pidcAt p).img = (check.conts.pidcAt p).img ∧
        ((checkListing check listing item).conts.pidcAt p).cont = (check.conts.pidcAt p).cont := by
  have same := check_listing_pointer check listing item
  refine ⟨fun c => ?_, fun p => ⟨?_, same (.pidCont p 0)⟩⟩
  · exact Option.map_injective (fun _ _ => ContPtr.img.inj) (same (.contImg c 0))
  · exact Option.map_injective (fun _ _ => ContPtr.img.inj) (same (.pidImg p 0))

/-- A list looked at, where a new entry's pointer leads back. -/
theorem check_listing_progress (progress : Progress start imgs members pids check)
    (listing : Listing) (item : Nat)
    (leads : item ∉ listing.items check.conts → (listing.back item).Holds check.conts) :
    Progress start imgs members pids (checkListing check listing item) where
  repairs := repairs_trans progress.repairs (check_listing_repairs check listing item)
  checked := by
    refine (check_listing_checked progress.checked listing item).grow ?_ ?_
    · rintro back ⟨other, visited, x, known, rfl⟩
      exact ⟨other, visited, x, (check_listing_mem check listing other item x).mpr (Or.inl known), rfl⟩
    · rintro back ⟨other, visited, x, known, rfl⟩ new
      rcases (check_listing_mem check listing other item x).mp known with old | ⟨rfl, rfl⟩
      · exact absurd ⟨other, visited, x, old, rfl⟩ new
      · have fresh : x ∉ other.items check.conts := fun old => new ⟨other, visited, x, old, rfl⟩
        exact (check_listing_pointer check other x _).trans (leads fresh)
  listed := by
    obtain ⟨contImg, pid⟩ := check_listing_same check listing item
    exact progress.listed.grow (check_listing_repairs check listing item) (fun c _ => contImg c)
      (fun p _ => (pid p).1) (fun p _ => (pid p).2)

/-- One image. -/
theorem check_img_progress (progress : Progress start imgs ∅ ∅ check) (i : Nat) :
    Progress start (insert i imgs) ∅ ∅ (checkImg check i) := by
  rw [check_img_eq]
  obtain ⟨repairs, items⟩ := fold_back_frame check (imgBacks check.conts i)
  refine ⟨repairs_trans progress.repairs repairs, ?_, by constructor <;> simp⟩
  have checked := fold_back_checked progress.checked (imgBacks check.conts i)
  -- the pointers looked at are those of the lists visited, with this image's now
  have same : backs check.conts imgs ∅ ∪ {back | back ∈ imgBacks check.conts i} =
      backs ((imgBacks check.conts i).foldl checkBack check).conts (insert i imgs) ∅ := by
    ext back
    simp only [backs, items, Set.mem_union, Set.mem_ofPred_eq]
    constructor
    · rintro (⟨listing, visited, rest⟩ | member)
      · refine ⟨listing, ?_, rest⟩
        cases listing with
        | contPids c => exact visited
        | imgConts j | imgPids j => exact Or.inr visited
      · rcases List.mem_append.mp member with inConts | inPids
        · obtain ⟨c, known, rfl⟩ := List.mem_map.mp inConts
          exact ⟨.imgConts i, Or.inl rfl, c, known, rfl⟩
        · obtain ⟨p, known, rfl⟩ := List.mem_map.mp inPids
          exact ⟨.imgPids i, Or.inl rfl, p, known, rfl⟩
    · rintro ⟨listing, visited, item, known, rfl⟩
      cases listing with
      | contPids c => exact absurd visited (Set.notMem_empty c)
      | imgConts j =>
          rcases visited with rfl | old
          · exact Or.inr (List.mem_append_left _ (List.mem_map_of_mem known))
          · exact Or.inl ⟨.imgConts j, old, item, known, rfl⟩
      | imgPids j =>
          rcases visited with rfl | old
          · exact Or.inr (List.mem_append_right _ (List.mem_map_of_mem known))
          · exact Or.inl ⟨.imgPids j, old, item, known, rfl⟩
  rwa [same] at checked

/-- Containers stay as they are while the pointers of PIDs are looked at. -/
theorem fold_cont_same (check : Check) (c : Nat) (items : List Nat) :
    ((items.map fun p => Back.pidCont p c).foldl checkBack check).conts.contAt =
      check.conts.contAt := by
  induction items generalizing check with
  | nil => rfl
  | cons p rest ih =>
      have one : (checkBack check (.pidCont p c)).conts.contAt = check.conts.contAt := by
        unfold checkBack
        dsimp only
        split_ifs <;> rfl
      exact (ih _).trans one

theorem list_entry_same {β : Type} (check : Check) (pointer : Option β) (listing : β → Listing)
    (item : Nat) :
    Repairs check.conts (listEntry check pointer listing item).conts ∧
      (∀ c, ((listEntry check pointer listing item).conts.contAt c).img =
        (check.conts.contAt c).img) ∧
      ∀ p, ((listEntry check pointer listing item).conts.pidcAt p).img =
          (check.conts.pidcAt p).img ∧
        ((listEntry check pointer listing item).conts.pidcAt p).cont =
          (check.conts.pidcAt p).cont := by
  cases pointer with
  | none => exact ⟨repairs_refl _, fun _ => rfl, fun _ => ⟨rfl, rfl⟩⟩
  | some owner =>
      exact ⟨check_listing_repairs check (listing owner) item,
        check_listing_same check (listing owner) item⟩

/-- The entry is there afterwards, and everything looked at before stays. -/
theorem list_entry_progress {β : Type} (progress : Progress start imgs members pids check)
    (pointer : Option β) (listing : β → Listing) (item : Nat)
    (leads : ∀ owner, pointer = some owner → item ∉ (listing owner).items check.conts →
      ((listing owner).back item).Holds check.conts) :
    Progress start imgs members pids (listEntry check pointer listing item) ∧
      ∀ owner, pointer = some owner →
        item ∈ (listing owner).items (listEntry check pointer listing item).conts := by
  cases pointer with
  | none => exact ⟨progress, fun owner known => by cases known⟩
  | some owner =>
      refine ⟨check_listing_progress progress (listing owner) item (leads owner rfl), ?_⟩
      rintro other ⟨⟩
      exact (check_listing_mem check (listing owner) (listing owner) item item).mpr
        (Or.inr ⟨rfl, rfl⟩)

/-- One container. -/
theorem check_cont_progress (progress : Progress start imgs members ∅ check) (c : Nat) :
    Progress start imgs (insert c members) ∅ (checkCont check c) := by
  obtain ⟨listing, entry⟩ := list_entry_progress progress (check.conts.contAt c).img .imgConts c
    fun i image _ => by simp [Back.Holds, Listing.back, Back.pointer, Back.target, image]
  have same := (list_entry_same check (check.conts.contAt c).img .imgConts c).2.1 c
  have inside : ∀ i,
      ((listEntry check (check.conts.contAt c).img .imgConts c).conts.contAt c).img = some i →
      c ∈ ((listEntry check (check.conts.contAt c).img .imgConts c).conts.imgAt i).conts :=
    fun i known => entry i (same ▸ known)
  rw [check_cont_eq]
  dsimp only
  -- first the entry of the container in its image, then the pointers of its PIDs
  generalize listEntry check (check.conts.contAt c).img .imgConts c = listed at listing inside ⊢
  obtain ⟨repairs, items⟩ := fold_back_frame listed
    ((listed.conts.contAt c).pids.map fun p => Back.pidCont p c)
  have contAt := fold_cont_same listed c (listed.conts.contAt c).pids
  have checked := fold_back_checked listing.checked
    ((listed.conts.contAt c).pids.map fun p => Back.pidCont p c)
  refine ⟨repairs_trans listing.repairs repairs, ?_, ?_⟩
  · have same : backs listed.conts imgs members ∪
        {back | back ∈ (listed.conts.contAt c).pids.map fun p => Back.pidCont p c} =
        backs (((listed.conts.contAt c).pids.map fun p => Back.pidCont p c).foldl checkBack
          listed).conts imgs (insert c members) := by
      ext back
      simp only [backs, items, Set.mem_union, Set.mem_ofPred_eq, List.mem_map]
      constructor
      · rintro (⟨listing, visited, rest⟩ | ⟨p, known, rfl⟩)
        · refine ⟨listing, ?_, rest⟩
          cases listing with
          | contPids d => exact Or.inr visited
          | imgConts j | imgPids j => exact visited
        · exact ⟨.contPids c, Or.inl rfl, p, known, rfl⟩
      · rintro ⟨listing, visited, item, known, rfl⟩
        cases listing with
        | contPids d =>
            rcases visited with rfl | old
            · exact Or.inr ⟨item, known, rfl⟩
            · exact Or.inl ⟨.contPids d, old, item, known, rfl⟩
        | imgConts j => exact Or.inl ⟨.imgConts j, visited, item, known, rfl⟩
        | imgPids j => exact Or.inl ⟨.imgPids j, visited, item, known, rfl⟩
    rwa [same] at checked
  · refine ⟨fun d member i known => ?_, by simp, by simp⟩
    rw [contAt] at known
    refine repairs.member (.imgConts i) ?_
    rcases member with rfl | old
    · exact inside i known
    · exact listing.listed.contImg d old i known

/-- One PID; a pointer to an image in the place of a container is the PID's own image. -/
theorem check_pid_progress (progress : Progress start imgs members pids check) {p : Nat}
    (owned : ∀ i, (check.conts.pidcAt p).cont = some (.img i) →
      p ∈ (check.conts.imgAt i).pids ∨ (check.conts.pidcAt p).img = some i) :
    Progress start imgs members (insert p pids) (checkPid check p) := by
  obtain ⟨first, entry⟩ := list_entry_progress progress (check.conts.pidcAt p).img .imgPids p
    fun i image _ => by simp [Back.Holds, Listing.back, Back.pointer, Back.target, image]
  obtain ⟨repairs, _, same⟩ := list_entry_same check (check.conts.pidcAt p).img .imgPids p
  rw [check_pid_eq]
  dsimp only
  have inImg : ∀ i,
      ((listEntry check (check.conts.pidcAt p).img .imgPids p).conts.pidcAt p).img = some i →
      p ∈ ((listEntry check (check.conts.pidcAt p).img .imgPids p).conts.imgAt i).pids :=
    fun i known => entry i ((same p).1 ▸ known)
  have still : ∀ i,
      ((listEntry check (check.conts.pidcAt p).img .imgPids p).conts.pidcAt p).cont = some (.img i) →
      p ∈ ((listEntry check (check.conts.pidcAt p).img .imgPids p).conts.imgAt i).pids ∨
        ((listEntry check (check.conts.pidcAt p).img .imgPids p).conts.pidcAt p).img = some i := by
    intro i known
    rw [(same p).1]
    exact (owned i ((same p).2 ▸ known)).imp_left (repairs.member (.imgPids i))
  generalize listEntry check (check.conts.pidcAt p).img .imgPids p = imaged at first inImg still ⊢
  obtain ⟨second, inOwner⟩ := list_entry_progress first (imaged.conts.pidcAt p).cont .ofPtr p (by
    intro ptr known missing
    cases ptr with
    | cont c => simp [Back.Holds, Listing.ofPtr, Listing.back, Back.pointer, Back.target, known]
    | img i =>
        -- the cast of the parser: the entry is new only if the PID is this image's own
        have image := (still i known).resolve_left missing
        simp [Back.Holds, Listing.ofPtr, Listing.back, Back.pointer, Back.target, image])
  obtain ⟨later, _, kept⟩ := list_entry_same imaged (imaged.conts.pidcAt p).cont .ofPtr p
  refine ⟨second.repairs, second.checked, second.listed.contImg, ?_, ?_⟩
  · rintro q (rfl | old) i known
    · rw [(kept q).1] at known
      exact later.member (.imgPids i) (inImg i known)
    · exact second.listed.pidImg q old i known
  · rintro q (rfl | old) ptr known
    · rw [(kept q).2] at known
      have inside := inOwner ptr known
      cases ptr <;> exact inside
    · exact second.listed.pidCont q old ptr known

end Passes

section Runs
variable {conts : Containers}

/-- The run of the three passes, with its counters. -/
def checkRun (contparm : Containers) : Check :=
  let images := contparm.img.foldl checkImg { conts := contparm }
  let containers := images.conts.cont.foldl checkCont images
  containers.conts.pids.foldl checkPid containers

theorem check_cont_param_eq (contparm : Containers) :
    checkContParam contparm =
      (if (checkRun contparm).fil ≠ 0 then -1 else ((checkRun contparm).fix : Int),
        (checkRun contparm).conts) := rfl

theorem Repairs.heads {before after : Containers} (repairs : Repairs before after) :
    after.img = before.img ∧ after.cont = before.cont ∧ after.pids = before.pids := by
  have img := congrArg Containers.img repairs.rest
  have cont := congrArg Containers.cont repairs.rest
  have pids := congrArg Containers.pids repairs.rest
  exact ⟨img, cont, pids⟩

theorem owned_repairs {before after : Containers} (repairs : Repairs before after)
    (owned : Owned before) {p i : Nat} (member : p ∈ before.pids)
    (known : (after.pidcAt p).cont = some (.img i)) :
    p ∈ (after.imgAt i).pids ∨ (after.pidcAt p).img = some i := by
  rcases owned p member i (repairs.filled p i known) with listed | image
  · exact Or.inl (repairs.member (.imgPids i) listed)
  · have kept := repairs.pointers (.pidImg p i) (.img i) (by simp [Back.pointer, image])
    exact Or.inr (Option.map_injective (fun _ _ => ContPtr.img.inj) kept)

theorem start_progress (conts : Containers) : Progress conts ∅ ∅ ∅ { conts := conts } where
  repairs := repairs_refl conts
  checked := by
    have none : backs conts ∅ ∅ = ∅ := by
      refine Set.eq_empty_of_forall_notMem ?_
      rintro back ⟨listing, visited, -⟩
      cases listing <;> exact Set.notMem_empty _ visited
    rw [none]
    constructor <;> simp
  listed := by constructor <;> simp

/-- After the run everything in the lists was looked at. -/
theorem check_run_progress (owned : Owned conts) :
    Progress conts {i | i ∈ conts.img} {c | c ∈ conts.cont} {p | p ∈ conts.pids} (checkRun conts) := by
  have images := foldl_done checkImg (fun imgs check => Progress conts imgs ∅ ∅ check) conts.img
    (fun i _ _ _ progress => check_img_progress progress i) ∅ _ (start_progress conts)
  rw [Set.empty_union] at images
  unfold checkRun
  dsimp only
  rw [images.repairs.heads.2.1]
  have containers := foldl_done checkCont
    (fun members check => Progress conts {i | i ∈ conts.img} members ∅ check) conts.cont
    (fun c _ _ _ progress => check_cont_progress progress c) ∅ _ images
  rw [Set.empty_union] at containers
  rw [containers.repairs.heads.2.2]
  have pids := foldl_done checkPid
    (fun pids check => Progress conts {i | i ∈ conts.img} {c | c ∈ conts.cont} pids check) conts.pids
    (fun p member _ _ progress => check_pid_progress progress fun i known =>
      owned_repairs progress.repairs owned member known) ∅ _ containers
  rwa [Set.empty_union] at pids

/-- Every link between what is in the lists is known at both of its ends. -/
structure TwoWay (conts : Containers) : Prop where
  imgConts : ∀ i ∈ conts.img, ∀ c ∈ (conts.imgAt i).conts, (conts.contAt c).img = some i
  imgPids : ∀ i ∈ conts.img, ∀ p ∈ (conts.imgAt i).pids, (conts.pidcAt p).img = some i
  contPids : ∀ c ∈ conts.cont, ∀ p ∈ (conts.contAt c).pids, (conts.pidcAt p).cont = some (.cont c)
  contImg : ∀ c ∈ conts.cont, ∀ i, (conts.contAt c).img = some i → c ∈ (conts.imgAt i).conts
  pidImg : ∀ p ∈ conts.pids, ∀ i, (conts.pidcAt p).img = some i → p ∈ (conts.imgAt i).pids
  pidCont : ∀ p ∈ conts.pids, ∀ ptr, (conts.pidcAt p).cont = some ptr → p ∈ pidsOf conts ptr

theorem two_way_of_progress {start : Containers} {check : Check}
    (progress : Progress start {i | i ∈ check.conts.img} {c | c ∈ check.conts.cont}
      {p | p ∈ check.conts.pids} check) (none : check.fil = 0) : TwoWay check.conts := by
  have all := progress.checked.fil.mp none
  constructor
  · intro i known c listed
    have leads := all (.contImg c i) ⟨.imgConts i, known, c, listed, rfl⟩
    exact Option.map_injective (fun _ _ => ContPtr.img.inj) leads
  · intro i known p listed
    have leads := all (.pidImg p i) ⟨.imgPids i, known, p, listed, rfl⟩
    exact Option.map_injective (fun _ _ => ContPtr.img.inj) leads
  · intro c known p listed
    exact all (.pidCont p c) ⟨.contPids c, known, p, listed, rfl⟩
  · exact progress.listed.contImg
  · exact progress.listed.pidImg
  · exact progress.listed.pidCont

/-- No pointer and no entry is missing. -/
structure Settled (conts : Containers) : Prop where
  present : ∀ back ∈ backs conts {i | i ∈ conts.img} {c | c ∈ conts.cont}, back.pointer conts ≠ none
  listed : Listed conts {c | c ∈ conts.cont} {p | p ∈ conts.pids}

/-- An entry of a list has a pointer that leads elsewhere. -/
def Contradicts (conts : Containers) : Prop :=
  ∃ back ∈ backs conts {i | i ∈ conts.img} {c | c ∈ conts.cont}, ¬ back.Holds conts

/-- Nothing was fixed so far. -/
def Idle (conts : Containers) (check : Check) : Prop := check.conts = conts ∧ check.fix = 0

theorem fold_back_idle {check : Check} {backs : List Back} (idle : Idle conts check)
    (present : ∀ back ∈ backs, back.pointer conts ≠ none) : Idle conts (backs.foldl checkBack check) := by
  induction backs generalizing check with
  | nil => exact idle
  | cons back rest ih =>
      refine ih ?_ fun other member => present other (List.mem_cons_of_mem back member)
      obtain ⟨rfl, none⟩ := idle
      have set := present back List.mem_cons_self
      unfold checkBack
      dsimp only
      rw [if_neg set]
      split_ifs
      · exact ⟨rfl, none⟩
      · exact ⟨rfl, none⟩

theorem list_entry_idle {β : Type} {check : Check} (pointer : Option β) (listing : β → Listing)
    (item : Nat) (known : ∀ owner, pointer = some owner → item ∈ (listing owner).items check.conts) :
    listEntry check pointer listing item = check := by
  cases pointer with
  | none => rfl
  | some owner => exact if_pos (known owner rfl)

theorem check_img_idle {check : Check} (settled : Settled conts) {i : Nat} (member : i ∈ conts.img)
    (idle : Idle conts check) : Idle conts (checkImg check i) := by
  obtain ⟨rfl, none⟩ := idle
  rw [check_img_eq]
  refine fold_back_idle ⟨rfl, none⟩ fun back inside => settled.present back ?_
  rcases List.mem_append.mp inside with inConts | inPids
  · obtain ⟨c, known, rfl⟩ := List.mem_map.mp inConts
    exact ⟨.imgConts i, member, c, known, rfl⟩
  · obtain ⟨p, known, rfl⟩ := List.mem_map.mp inPids
    exact ⟨.imgPids i, member, p, known, rfl⟩

theorem check_cont_idle {check : Check} (settled : Settled conts) {c : Nat}
    (member : c ∈ conts.cont) (idle : Idle conts check) : Idle conts (checkCont check c) := by
  obtain ⟨rfl, none⟩ := idle
  have listed := list_entry_idle (check.conts.contAt c).img .imgConts c fun i known =>
    settled.listed.contImg c member i known
  rw [check_cont_eq, listed]
  refine fold_back_idle ⟨rfl, none⟩ fun back inside => settled.present back ?_
  obtain ⟨p, known, rfl⟩ := List.mem_map.mp inside
  exact ⟨.contPids c, member, p, known, rfl⟩

theorem check_pid_idle {check : Check} (settled : Settled conts) {p : Nat}
    (member : p ∈ conts.pids) (idle : Idle conts check) : Idle conts (checkPid check p) := by
  obtain ⟨rfl, none⟩ := idle
  have inImg := list_entry_idle (check.conts.pidcAt p).img .imgPids p fun i known =>
    settled.listed.pidImg p member i known
  have inOwner := list_entry_idle (check.conts.pidcAt p).cont .ofPtr p fun ptr known => by
    have inside := settled.listed.pidCont p member ptr known
    cases ptr <;> exact inside
  rw [check_pid_eq, inImg]
  dsimp only
  rw [inOwner]
  exact ⟨rfl, none⟩

theorem check_run_idle (settled : Settled conts) : Idle conts (checkRun conts) := by
  have images := foldl_done checkImg (fun _ check => Idle conts check) conts.img
    (fun i member _ _ idle => check_img_idle settled member idle) ∅ { conts := conts } ⟨rfl, rfl⟩
  unfold checkRun
  dsimp only
  rw [images.1]
  have containers := foldl_done checkCont (fun _ check => Idle conts check) conts.cont
    (fun c member _ _ idle => check_cont_idle settled member idle) ∅ _ images
  rw [containers.1]
  exact foldl_done checkPid (fun _ check => Idle conts check) conts.pids
    (fun p member _ _ idle => check_pid_idle settled member idle) ∅ _ containers

/-- A second run fixes nothing and counts a contradiction exactly if the first did. -/
theorem second_run (owned : Owned conts) :
    Idle (checkRun conts).conts (checkRun (checkRun conts).conts) ∧
      ((checkRun (checkRun conts).conts).fil = 0 ↔ (checkRun conts).fil = 0) := by
  have first := check_run_progress owned
  obtain ⟨img, cont, pids⟩ := first.repairs.heads
  rw [← img, ← cont, ← pids] at first
  have settled : Settled (checkRun conts).conts := ⟨first.checked.present, first.listed⟩
  have idle := check_run_idle settled
  have still : Owned (checkRun conts).conts := fun p member i known =>
    owned_repairs first.repairs owned (pids ▸ member) known
  have second := (check_run_progress still).checked.fil
  rw [idle.1] at second
  exact ⟨idle, second.trans first.checked.fil.symm⟩

/-- One call repairs what can be repaired, and the next one finds nothing to do. No
link is missing after it; it returns -1 where one leads elsewhere. -/
theorem check_cont_param_repairs (conts : Containers) (owned : Owned conts) :
    Repairs conts (checkContParam conts).2 ∧ Settled (checkContParam conts).2 ∧
      ((checkContParam conts).1 = -1 ∨ 0 ≤ (checkContParam conts).1) ∧
      ((checkContParam conts).1 = -1 ↔ Contradicts (checkContParam conts).2) ∧
      (0 ≤ (checkContParam conts).1 → TwoWay (checkContParam conts).2 ∧
        checkContParam (checkContParam conts).2 = (0, (checkContParam conts).2)) ∧
      ((checkContParam conts).1 = -1 →
        checkContParam (checkContParam conts).2 = (-1, (checkContParam conts).2)) := by
  have first := check_run_progress owned
  obtain ⟨img, cont, pids⟩ := first.repairs.heads
  have whole := first
  rw [← img, ← cont, ← pids] at whole
  have settled : Settled (checkRun conts).conts := ⟨whole.checked.present, whole.listed⟩
  have leads := whole.checked.fil
  obtain ⟨⟨same, none⟩, again⟩ := second_run owned
  rw [check_cont_param_eq conts]
  dsimp only
  rw [check_cont_param_eq, same, none]
  by_cases clean : (checkRun conts).fil = 0
  · rw [if_neg (not_not.mpr clean), if_neg (not_not.mpr (again.mpr clean))]
    refine ⟨first.repairs, settled, Or.inr (Int.natCast_nonneg _), ⟨fun negative => ?_, ?_⟩, fun _ =>
      ⟨two_way_of_progress whole clean, rfl⟩, fun negative => ?_⟩
    · omega
    · rintro ⟨back, inside, elsewhere⟩
      exact absurd (leads.mp clean back inside) elsewhere
    · omega
  · rw [if_pos clean, if_pos (fun zero => clean (again.mp zero))]
    refine ⟨first.repairs, settled, Or.inl rfl, ⟨fun _ => ?_, fun _ => rfl⟩, fun positive =>
      absurd positive (by decide), fun _ => rfl⟩
    by_contra all
    refine clean (leads.mpr fun back inside => ?_)
    by_contra elsewhere
    exact all ⟨back, inside, elsewhere⟩

/-- What the parser builds has such a cast only in the PIDs that their image lists. -/
theorem parsed_owned (root : Json) (run : parseConfig root {} = .ok conts) : Owned conts := by
  have built := (ConfigGraph.parse_config_grown root conts run).1
  intro p member i known
  have image : i ∈ conts.img := by
    rcases built.owners p member with ⟨none, -⟩ | ⟨c, -, some, -⟩ | ⟨other, listed, some, -⟩
    · rw [known] at none
      cases none
    · rw [known] at some
      cases some
    · rw [known] at some
      cases some
      exact listed
  exact Or.inl (((built.imgPids i image).2 p).mpr ⟨member, known⟩)

/-- A container that does not know its image, one its image does not know, and a PID that
both list. -/
def tangled : Containers :=
  { img := [1]
    cont := [2, 3]
    pids := [4]
    imgAt := fun _ => { conts := [2] }
    contAt := fun c => if c = 3 then { img := some 1, pids := [4] } else { pids := [4] } }

theorem tangled_owned : Owned tangled := by
  intro p _ i known
  cases known

theorem check_cont_param_tangled :
    checkContParam (checkContParam tangled).2 = (-1, (checkContParam tangled).2) :=
  (check_cont_param_repairs tangled tangled_owned).2.2.2.2.2 (by decide)

end Runs

end Orchestrator.LinkRepair
