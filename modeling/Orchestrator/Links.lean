import Orchestrator.ConfigGraph

/-!
Links between images, containers and PIDs: `checkContParam`, which repairs
them, and what the parser leaves to repair.
-/

namespace Orchestrator.Links
open Orchdata ParseConfig ConfigGraph Traversal

/-- The configuration with the counters `fix` and `fil`. -/
structure Check where
  conts : Containers
  fix : Nat := 0
  fil : Nat := 0

def checkImgCont (i : Nat) (check : Check) (c : Nat) : Check :=
  let linked :=
    if (check.conts.contAt c).img = none then
      { check with
        conts := check.conts.setCont c { check.conts.contAt c with img := some i }
        fix := check.fix + 1 }
    else check
  if (linked.conts.contAt c).img ≠ some i then { linked with fil := linked.fil + 1 } else linked

def checkImgPid (i : Nat) (check : Check) (p : Nat) : Check :=
  let linked :=
    if (check.conts.pidcAt p).img = none then
      { check with
        conts := check.conts.setPidc p { check.conts.pidcAt p with img := some i }
        fix := check.fix + 1 }
    else check
  if (linked.conts.pidcAt p).img ≠ some i then { linked with fil := linked.fil + 1 } else linked

/-- Loop body over `contparm->img`. -/
def checkImg (check : Check) (i : Nat) : Check :=
  let conts := (check.conts.imgAt i).conts.foldl (checkImgCont i) check
  (conts.conts.imgAt i).pids.foldl (checkImgPid i) conts

def checkContPid (c : Nat) (check : Check) (p : Nat) : Check :=
  let linked :=
    if (check.conts.pidcAt p).cont = none then
      { check with
        conts := check.conts.setPidc p { check.conts.pidcAt p with cont := some (.cont c) }
        fix := check.fix + 1 }
    else check
  if (linked.conts.pidcAt p).cont ≠ some (.cont c) then { linked with fil := linked.fil + 1 }
  else linked

/-- Loop body over `contparm->cont`. -/
def checkCont (check : Check) (c : Nat) : Check :=
  let listed := match (check.conts.contAt c).img with
    | none => check
    | some i =>
        if c ∈ (check.conts.imgAt i).conts then check
        else
          { check with
            conts := check.conts.setImg i
              { check.conts.imgAt i with conts := c :: (check.conts.imgAt i).conts }
            fix := check.fix + 1 }
  (listed.conts.contAt c).pids.foldl (checkContPid c) listed

/-- `pid->cont->pids`, also behind an image stored as container. -/
def pidsOf (conts : Containers) : ContPtr → List Nat
  | .cont c => (conts.contAt c).pids
  | .img i => (conts.imgAt i).pids

/-- One end of a PID's link: the owner's list gets the PID if it lacks it. -/
def checkOwner (check : Check) (owner : Option ContPtr) (p : Nat) : Check :=
  match owner with
  | none => check
  | some ptr =>
      if p ∈ pidsOf check.conts ptr then check
      else { check with conts := pushPids check.conts (some ptr) p, fix := check.fix + 1 }

/-- Loop body over `contparm->pids`. -/
def checkPid (check : Check) (p : Nat) : Check :=
  let imaged := checkOwner check ((check.conts.pidcAt p).img.map ContPtr.img) p
  checkOwner imaged (imaged.conts.pidcAt p).cont p

def checkContParam (contparm : Containers) : Int × Containers :=
  let images := contparm.img.foldl checkImg { conts := contparm }
  let containers := images.conts.cont.foldl checkCont images
  let pids := containers.conts.pids.foldl checkPid containers
  (if pids.fil ≠ 0 then -1 else pids.fix, pids.conts)

/-- Every reference is typed and known at both of its ends. -/
structure Linked (conts : Containers) : Prop where
  contImg : ∀ c ∈ conts.cont, ∀ i ∈ conts.img,
    (conts.contAt c).img = some i ↔ c ∈ (conts.imgAt i).conts
  pidCont : ∀ p ∈ conts.pids, ∀ c ∈ conts.cont,
    (conts.pidcAt p).cont = some (.cont c) ↔ p ∈ (conts.contAt c).pids
  typed : ∀ p ∈ conts.pids, ∀ ptr, (conts.pidcAt p).cont = some ptr →
    ∃ c ∈ conts.cont, ptr = .cont c
  pidImg : ∀ p ∈ conts.pids, ∀ i ∈ conts.img, p ∈ (conts.imgAt i).pids ↔
    (conts.pidcAt p).img = some i ∧ ∀ c ∈ conts.cont, p ∉ (conts.contAt c).pids
  checked : (checkContParam conts).1 = 0

theorem fold_idle {α β : Type} (step : α → β → α) (state : α) (items : List β)
    (idle : ∀ item ∈ items, step state item = state) : items.foldl step state = state := by
  induction items with
  | nil => rfl
  | cons item rest ih =>
      rw [List.foldl_cons, idle item List.mem_cons_self]
      exact ih fun other member => idle other (List.mem_cons_of_mem item member)

section Idle
variable {conts : Containers} (built : Built conts)
include built

theorem check_img_idle (plain : ¬ Direct conts) (i : Nat) (member : i ∈ conts.img) :
    checkImg { conts := conts } i = { conts := conts } := by
  have pids : (conts.imgAt i).pids = [] := by
    by_contra direct
    exact plain ⟨i, member, direct⟩
  simp [checkImg, built.imgConts i member, pids]

theorem check_cont_idle (flat : ¬ Nested conts) (c : Nat) (member : c ∈ conts.cont) :
    checkCont { conts := conts } c = { conts := conts } := by
  have lone : (conts.contAt c).img = none := by
    by_contra inside
    exact flat ⟨c, member, inside⟩
  simp only [checkCont, lone]
  refine fold_idle _ _ _ fun p inside => ?_
  have link := (((built.contPids c member).2 p).mp inside).2
  simp [checkContPid, link]

theorem check_pid_idle (flat : ¬ Nested conts) (plain : ¬ Direct conts) (p : Nat)
    (member : p ∈ conts.pids) : checkPid { conts := conts } p = { conts := conts } := by
  rcases built.owners p member with ⟨cont, image⟩ | ⟨c, inside, cont, image⟩ | ⟨i, inside, cont, _⟩
  · simp [checkPid, checkOwner, cont, image]
  · have lone : (conts.contAt c).img = none := by
      by_contra nested
      exact flat ⟨c, inside, nested⟩
    have present : p ∈ (conts.contAt c).pids := ((built.contPids c inside).2 p).mpr ⟨member, cont⟩
    simp [checkPid, checkOwner, cont, image, lone, pidsOf, present]
  · have listed := ((built.imgPids i inside).2 p).mpr ⟨member, cont⟩
    exact absurd ⟨i, inside, List.ne_nil_of_mem listed⟩ plain

theorem check_idle (flat : ¬ Nested conts) (plain : ¬ Direct conts) :
    checkContParam conts = (0, conts) := by
  -- without parts of images no loop finds anything to do
  have images := fold_idle checkImg { conts := conts } conts.img fun i =>
    check_img_idle built plain i
  have containers := fold_idle checkCont { conts := conts } conts.cont fun c =>
    check_cont_idle built flat c
  have pids := fold_idle checkPid { conts := conts } conts.pids fun p =>
    check_pid_idle built flat plain p
  simp only [checkContParam, images, containers, pids]
  rfl

theorem linked_iff : Linked conts ↔ ¬ Nested conts ∧ ¬ Direct conts := by
  constructor
  · intro linked
    constructor
    · rintro ⟨c, member, inside⟩
      obtain ⟨i, image⟩ := Option.ne_none_iff_exists'.mp inside
      have known := built.contImgs c member i image
      have listed := (linked.contImg c member i known).mp image
      rw [built.imgConts i known] at listed
      cases listed
    · rintro ⟨i, member, pids⟩
      obtain ⟨p, inside⟩ := List.exists_mem_of_ne_nil _ pids
      obtain ⟨known, cont⟩ := ((built.imgPids i member).2 p).mp inside
      -- the PID points to the image as if it were a container
      obtain ⟨c, _, same⟩ := linked.typed p known _ cont
      cases same
  · rintro ⟨flat, plain⟩
    constructor
    · intro c member i known
      refine ⟨fun image => ?_, fun listed => ?_⟩
      · exact absurd ⟨c, member, by simp [image]⟩ flat
      · rw [built.imgConts i known] at listed
        cases listed
    · intro p member c known
      rw [(built.contPids c known).2 p]
      exact ⟨fun link => ⟨member, link⟩, fun both => both.2⟩
    · intro p member ptr link
      rcases built.owners p member with ⟨none, _⟩ | ⟨c, inside, cont, _⟩ | ⟨i, inside, cont, _⟩
      · rw [none] at link
        cases link
      · rw [cont] at link
        exact ⟨c, inside, (Option.some.inj link).symm⟩
      · have listed := ((built.imgPids i inside).2 p).mpr ⟨member, cont⟩
        exact absurd ⟨i, inside, List.ne_nil_of_mem listed⟩ plain
    · intro p member i known
      constructor
      · intro inside
        exact absurd ⟨i, known, List.ne_nil_of_mem inside⟩ plain
      · rintro ⟨image, outside⟩
        rcases built.owners p member with ⟨_, none⟩ | ⟨c, inside, cont, _⟩ | ⟨j, inside, cont, own⟩
        · rw [none] at image
          cases image
        · exact absurd (((built.contPids c inside).2 p).mpr ⟨member, cont⟩) (outside c inside)
        · rw [own] at image
          cases image
          exact ((built.imgPids i inside).2 p).mpr ⟨member, cont⟩
    · rw [check_idle built flat plain]

end Idle

/-- The parsed graph is linked and needs no repair exactly when no image nests
containers or lists PIDs. -/
theorem parsed_links_iff (root : Json) (conts : Containers)
    (run : parseConfig root {} = .ok conts) :
    Linked conts ↔ ¬ NestsContainers root ∧ ¬ ListsPids root := by
  obtain ⟨built, nested, direct⟩ := parse_config_grown root conts run
  rw [linked_iff built, nested, direct]

/-- A container `a1` with one PID `loop`. -/
def flatCont : Json :=
  .object [("contid", .string "a1".toList),
    ("pids", .array [.object [("cmd", .string "loop".toList)]])]

theorem flat_config_linked :
    ∃ conts, parseConfig (.object [("containers", .array [flatCont])]) {} = .ok conts ∧
      Linked conts := by
  have accepted : returns (parseConfig (.object [("containers", .array [flatCont])]) {})
      (fun _ => true) = true := by decide +kernel
  obtain ⟨conts, run, _⟩ := (returns_iff _ _).mp accepted
  have none : listed (Json.field (.object [("containers", .array [flatCont])]) "images") = [] := rfl
  exact ⟨conts, run, (parsed_links_iff _ conts run).mpr
    ⟨by simp [NestsContainers, none], by simp [ListsPids, none]⟩⟩

/-- The same container inside of an image. -/
def nestedCont : Json :=
  .object [("images", .array [.object [("imgid", .string "web".toList), ("cont", .array [flatCont])]])]

-- Neither the container nor its PID is in the image's lists: two links to fix.
theorem nested_container_unlinked :
    ∃ conts, parseConfig nestedCont {} = .ok conts ∧ ¬ Linked conts := by
  have repaired : returns (parseConfig nestedCont {}) (fun conts => (checkContParam conts).1 == 2) =
      true := by decide +kernel
  obtain ⟨conts, run, two⟩ := (returns_iff _ _).mp repaired
  refine ⟨conts, run, fun linked => ?_⟩
  have zero := linked.checked
  rw [beq_iff_eq.mp two] at zero
  exact absurd zero (by decide)

end Orchestrator.Links
