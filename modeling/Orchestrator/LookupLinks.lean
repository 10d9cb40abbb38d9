import Orchestrator.Links
import Orchestrator.LinkSteps
import Orchestrator.LookupHierarchy

/-!
Links between images, containers and PIDs across a lookup: which steps of
`findPidParameters` keep both of their ends.
-/

namespace Orchestrator.LookupLinks
open Orchdata PidLookup LookupEdits MutualLinks OwnerTrail LinkSteps LookupHierarchy Links

/-- After a lookup that returns the links are mutual, and the parameters of a task
are listed where their own link leads to. -/
def LinksKept (look : Lookup) : Prop :=
  ∀ found ok, findPidParameters look = .ok (found, ok) → Mutual found.conts ∧
    (ok = true → look.node.pid ≠ 0 → ∀ p ptr, found.node.param = some p →
      (found.conts.pidcAt p).cont = some ptr → p ∈ pidsOf found.conts ptr)

section Conditions
variable (conts : Containers) (node : Node)

/-- The image a container created at runtime takes over at the end of the lookup. -/
def adopted (img : Option Nat) (runtime : Bool) : List (Option Nat) :=
  if runtime then (img.map some).toList else []

/-- The container `r`, if it exists already, and its PIDs can move to the image of
`c`; `later` are the images the container moves to afterwards. -/
def RefreshFits (later : List (Option Nat)) (c : Nat) (r : Option Nat) : Prop :=
  Settled (later ++ (conts.contAt c).img :: (r.map fun x => (conts.contAt x).img).toList) ∧
    ∀ x, r = some x → ∀ p ∈ (conts.contAt x).pids,
      Settled [(conts.contAt c).img, (conts.pidcAt p).img]

/-- The moves of a docker-link node fit: `g` is the first container that matches, `c`
the one of the image that matches by name, if there is one. -/
def MovesFit (id : List Char) (g : Nat) : Option Nat → Prop
  | none =>
      let last := adopted (imageMatch conts node) (conts.contAt g).status.ccrt
      if idMatch conts node g then Settled (last ++ [(conts.contAt g).img])
      else RefreshFits conts last g (runtimeCont conts g id)
  | some c =>
      let last := adopted (imageMatch conts node) (conts.contAt g).status.ccrt
      ∀ r, runtimeCont conts c id = some r →
        if idMatch conts node g then
          RefreshFits conts [] c (some r) ∧ (g ≠ r → Settled (last ++ [(conts.contAt g).img]))
        else if (conts.contAt c).status.ccrt then
          -- the same container is refreshed again, with its copies of the PIDs of `c`
          Settled (last ++ [(conts.contAt g).img, (conts.contAt c).img, (conts.contAt r).img]) ∧
            (∀ p ∈ (conts.contAt r).pids,
              Settled [(conts.contAt g).img, (conts.contAt c).img, (conts.pidcAt p).img]) ∧
            ∀ q ∈ (conts.contAt c).pids, Settled [(conts.contAt g).img, (conts.pidcAt q).img]
        else
          RefreshFits conts [] c (some r) ∧ RefreshFits conts last g (runtimeCont conts r id)

/-- No container or PID is taken out of an image by a docker-link node. -/
def DockerFits : Prop :=
  ∀ id g, node.contid = some id → conts.cont.find? (isMatch conts node) = some g →
    MovesFit conts node id.text g (namedInImage conts node)

/-- No PID configuration on its own is assigned to a task of a new container. -/
def TaskFits : Prop :=
  conts.cont.find? (idMatch conts node) = none → imageMatch conts node = none →
    node.contid ≠ none → signatureMatch conts node (unrelated conts) = none

end Conditions

/-- The lookup of a docker-link node ends with its container. -/
theorem finish_iff (look : Lookup) {contTrail pidTrail : Nat → List (Option Nat)}
    (stored : Stored look.conts) (traced : Traced look.conts contTrail pidTrail)
    (event : look.node.pid = 0) {c : Nat} (member : c ∈ look.conts.cont) (img : Option Nat)
    (known : ∀ i, img = some i → i ∈ look.conts.img) (fromImg : Bool) :
    Mutual (findInContainer look img c fromImg).conts ↔
      (∀ x ∈ look.conts.cont, x ≠ c → Settled (contTrail x)) ∧
        Settled (adopted img (look.conts.contAt c).status.ccrt ++ contTrail c) ∧
        ∀ p ∈ look.conts.pids, Settled (pidTrail p) := by
  have split : (∀ x ∈ look.conts.cont, Settled (contTrail x)) ↔
      (∀ x ∈ look.conts.cont, x ≠ c → Settled (contTrail x)) ∧ Settled (contTrail c) := by
    constructor
    · exact fun all => ⟨fun x inside _ => all x inside, all c member⟩
    · rintro ⟨others, own⟩ x inside
      by_cases this : x = c
      · rw [this]
        exact own
      · exact others x inside this
  have stays : Mutual { look.conts.setPidc look.conts.brk { cont := some (.cont c), img := img } with
      brk := look.conts.brk + 1 } ↔
      (∀ x ∈ look.conts.cont, x ≠ c → Settled (contTrail x)) ∧ Settled (contTrail c) ∧
        ∀ p ∈ look.conts.pids, Settled (pidTrail p) := by
    rw [mutual_fake stored, traced.mutual_iff, split, and_assoc]
  simp only [findInContainer, if_pos event]
  cases img with
  | none =>
      have idle : adopted none (look.conts.contAt c).status.ccrt = [] := by simp [adopted]
      rw [idle]
      exact stays
  | some i =>
      cases runtime : (look.conts.contAt c).status.ccrt with
      | false => simpa [adopted] using stays
      | true =>
          obtain ⟨parm, writes, copy⟩ := adopt_img_writes look.conts i c
            (stored.imgParm i (known i rfl))
          have later := writes_cont_stored writes stored
            (copy.below (stored.imgParm i (known i rfl)) writes.grows.brk)
          have moved := writes_cont_traced stored traced writes
            (fun j image => by cases image; exact known i rfl) rfl rfl fun _ => member
          simp only [if_true, Bool.false_eq_true, if_false] at moved ⊢
          rw [mutual_fake later, moved.mutual_iff, writes.pids, writes.cont]
          simp only [Bool.false_eq_true, if_false]
          have front : adopted (some i) true ++ contTrail c = some i :: contTrail c := by
            simp [adopted]
          rw [front, ← and_assoc]
          apply and_congr_left'
          constructor
          · intro all
            constructor
            · intro x inside other
              have own := all x inside
              rwa [Function.update_of_ne other] at own
            · have own := all c member
              rwa [Function.update_self] at own
          · rintro ⟨others, own⟩ x inside
            by_cases this : x = c
            · rw [this, Function.update_self]
              exact own
            · rw [Function.update_of_ne this]
              exact others x inside this

/-- The lookup ends with a container that gets the settings of `g`. -/
theorem refreshed_iff {look : Lookup} {id : List Char}
    {contTrail pidTrail : Nat → List (Option Nat)} (stored : Stored look.conts)
    (traced : Traced look.conts contTrail pidTrail) (event : look.node.pid = 0) {g r : Nat}
    (member : g ∈ look.conts.cont) (result : (fillCont look.conts g id).2 = r) {img : Option Nat}
    (known : ∀ i, img = some i → i ∈ look.conts.img) :
    Mutual (findInContainer (duplicateOrRefreshContainer look g id).1 img r false).conts ↔
      (∀ x ∈ look.conts.cont, x ≠ r → Settled (contTrail x)) ∧
        Settled (adopted img (look.conts.contAt g).status.ccrt ++
          contMoves look.conts g id r contTrail r) ∧
        ∀ p ∈ look.conts.pids, Settled (if p ∈ connected look.conts g id
          then (look.conts.contAt g).img :: pidTrail p else pidTrail p) := by
  obtain ⟨later, moved⟩ := duplicate_moves look stored traced member result
  rw [finish_iff _ moved.stored moved.traced event moved.held img (fun i image => by
    rw [moved.img]; exact known i image), moved.status]
  apply and_congr
  · constructor
    · intro all x inside other
      have own := all x ((moved.cont x).mpr (Or.inr inside)) other
      rwa [contMoves, Function.update_of_ne other] at own
    · intro all x inside other
      rw [contMoves, Function.update_of_ne other]
      exact all x (((moved.cont x).mp inside).resolve_left other) other
  apply and_congr_right'
  constructor
  · intro all p inside
    obtain ⟨still, _, trail⟩ := moved.pids p inside
    have own := all p still
    rw [trail] at own
    simpa using own
  · intro all p inside
    by_cases old : p ∈ look.conts.pids
    · rw [(moved.pids p old).2.2]
      simpa using all p old
    · obtain ⟨_, q, _, trail⟩ := moved.news p inside old
      rw [trail]
      exact settled_single _

section Tasks
variable {look : Lookup}

theorem listed_member {conts : Containers} (linked : Mutual conts) {p : Nat} {ptr : ContPtr}
    (inside : p ∈ conts.pids) (owner : (conts.pidcAt p).cont = some ptr) : p ∈ pidsOf conts ptr := by
  obtain ⟨c, member, rfl⟩ := linked.pidCont p inside ptr owner
  exact (linked.contPids c member p).mpr ⟨inside, owner⟩

/-- A new PID configuration that belongs to no image leaves mutual links. -/
theorem adds_pid_mutual {before after : Containers} (stored : Stored before) (linked : Mutual before)
    {entry : Pidc} {owner : Option Nat} (adds : AddsPid before after entry owner none)
    (held : ∀ c, owner = some c → c ∈ before.cont) (sameCont : entry.cont = owner.map ContPtr.cont)
    (sameImg : entry.img = none) : Mutual after := by
  have traced := adds_pid_traced stored (traced_of_mutual linked) adds (fun i none => by cases none)
    held sameCont sameImg
  apply traced.mutual_iff.mpr
  refine ⟨fun c _ => settled_single _, fun p _ => ?_⟩
  by_cases this : p = before.brk
  · rw [this, Function.update_self]
    exact settled_single _
  · rw [Function.update_of_ne this]
    exact settled_single _

/-- The lookup of a task in its container. -/
theorem in_container_links (look : Lookup) (stored : Stored look.conts)
    (linked : Mutual look.conts) (task : look.node.pid ≠ 0) {c : Nat} (member : c ∈ look.conts.cont)
    (img : Option Nat) (known : ∀ i, img = some i → i ∈ look.conts.img) (fromImg : Bool) :
    Mutual (findInContainer look img c fromImg).conts ∧
      ∃ p ∈ (findInContainer look img c fromImg).conts.pids,
        (findInContainer look img c fromImg).node.param = some p := by
  have inImg : ∀ image, (∀ i, image = some i → i ∈ look.conts.img) →
      ∀ p ∈ imgPids look.conts image, p ∈ look.conts.pids := by
    intro image known p inside
    cases image with
    | none => cases inside
    | some i => exact ((linked.imgPids i (known i rfl) p).mp inside).1
  have parent : ∀ i, img.or (look.conts.contAt c).img = some i → i ∈ look.conts.img := by
    intro i image
    rcases Option.or_eq_some_iff.mp image with given | ⟨_, own⟩
    · exact known i given
    · exact linked.contImg c member i own
  simp only [findInContainer, if_neg task]
  split
  · rename_i p found
    refine ⟨linked, p, ?_, rfl⟩
    rcases List.mem_append.mp (signature_mem found) with first | second
    · cases fromImg with
      | true => exact inImg img known p first
      | false => exact ((linked.contPids c member p).mp first).1
    · exact inImg _ parent p second
  · obtain ⟨new, adds⟩ := pid_from_cont_adds look.conts c
    refine ⟨adds_pid_mutual stored linked adds (fun x owner => ?_) rfl rfl, _, ?_, rfl⟩
    · cases owner
      exact member
    · rw [new, adds.pids]
      exact List.mem_cons_self

theorem group_unrelated_kept (look : Lookup) (curr : Option Nat)
    (none : look.node.contid = none ∨ look.node.psig = none) :
    groupUnrelated look curr = (look, curr.isSome) := by
  rw [groupUnrelated]
  rcases none with named | signed
  · rw [named]
  · rw [signed]
    cases look.node.contid <;> rfl

/-- A task without a PID on its own: it gets a container and a PID, or nothing. -/
theorem group_new_links (stored : Stored look.conts) (linked : Mutual look.conts) :
    Mutual (groupUnrelated look none).1.conts ∧
      ∀ p, (groupUnrelated look none).2 = true → (groupUnrelated look none).1.node.param = some p →
        p ∈ (groupUnrelated look none).1.conts.pids := by
  cases named : look.node.contid with
  | none =>
      rw [group_unrelated_kept look none (Or.inl named)]
      exact ⟨linked, fun p failed => by cases failed⟩
  | some id =>
      cases signed : look.node.psig with
      | none =>
          rw [group_unrelated_kept look none (Or.inr signed)]
          exact ⟨linked, fun p failed => by cases failed⟩
      | some sig =>
          rw [group_unrelated_named look named signed]
          obtain ⟨grouped, writes, brk, adds⟩ := group_pid_new_steps look.conts look.node id
          have below : Below grouped.brk (runtimeEntry look.conts id []).toParm :=
            ⟨stored.attr.trans_le writes.grows.brk, stored.rscs.trans_le writes.grows.brk⟩
          have middle := writes_cont_traced stored (traced_of_mutual linked) writes
            (fun i none => by cases none) rfl rfl (fun old => by cases old)
          have settled : Mutual grouped := by
            apply middle.mutual_iff.mpr
            refine ⟨fun c _ => ?_, fun p _ => settled_single _⟩
            by_cases this : c = look.conts.brk
            · rw [this, Function.update_self]
              exact settled_single _
            · rw [Function.update_of_ne this]
              exact settled_single _
          refine ⟨adds_pid_mutual (writes_cont_stored writes stored below) settled adds
            (fun c owner => ?_) rfl rfl, fun p _ param => ?_⟩
          · cases owner
            exact writes.held fun old => by cases old
          · rw [group_pid_new] at param ⊢
            cases param
            exact List.mem_cons_self

/-- A task that is in no container, with or without a PID on its own. -/
theorem find_unrelated_links (stored : Stored look.conts) (linked : Mutual look.conts) :
    (Mutual (findUnrelated look).1.conts ↔ (look.node.contid ≠ none →
        signatureMatch look.conts look.node (unrelated look.conts) = none)) ∧
      ∀ p, (findUnrelated look).2 = true → (findUnrelated look).1.node.param = some p →
        p ∈ (findUnrelated look).1.conts.pids := by
  rw [find_unrelated_match]
  cases search : signatureMatch look.conts look.node (unrelated look.conts) with
  | none =>
      obtain ⟨links, listed⟩ := group_new_links stored linked
      exact ⟨⟨fun _ _ => rfl, fun _ => links⟩, listed⟩
  | some p =>
      have inside := unrelated_listed (signature_mem search)
      have old := stored.pids p inside
      obtain ⟨new, parm, psig, adds, copy⟩ := pid_from_pid_adds look.conts p old
        (stored.pidcParm p inside)
      have added := adds_pid_mutual stored linked adds (fun c none => by cases none) rfl rfl
      rcases Option.eq_none_or_eq_some look.node.contid with named | ⟨id, named⟩
      · have kept := group_unrelated_kept { look with
          conts := (pidFromPid look.conts p).1
          node := { look.node with param := some (pidFromPid look.conts p).2 } } (some p)
          (Or.inl named)
        dsimp only
        rw [kept]
        refine ⟨⟨fun _ absent => absurd named absent, fun _ => added⟩, fun q _ param => ?_⟩
        dsimp only at param ⊢
        cases param
        rw [new, adds.pids]
        exact List.mem_cons_self
      · obtain ⟨sig, signed⟩ : ∃ sig, look.node.psig = some sig := by
          have hit := List.find?_some search
          rcases Option.eq_none_or_eq_some look.node.psig with missing | present
          · rw [missing] at hit
            cases (look.conts.pidcAt p).psig <;> simp at hit
          · exact present
        have grouped := group_unrelated_named { look with
          conts := (pidFromPid look.conts p).1
          node := { look.node with param := some (pidFromPid look.conts p).2 } } named signed (some p)
        dsimp only
        rw [grouped]
        refine ⟨⟨?_, ?_⟩, fun q _ param => ?_⟩
        · intro broken _
          -- the original is listed, the copy has the link
          dsimp only at broken
          rw [group_pid_found _ _ p (pidFromPid look.conts p).2 rfl] at broken
          have ends := (broken.contPids (pidFromPid look.conts p).1.brk List.mem_cons_self p).mp
            (by simp [runtimeEntry])
          have apart : p ≠ (pidFromPid look.conts p).2 := by
            rw [new]
            exact Nat.ne_of_lt old
          have owner := ends.2
          dsimp only at owner
          rw [Function.update_of_ne apart, adds.pidcAt, Function.update_of_ne (new ▸ apart)] at owner
          have alone := List.of_mem_filter (signature_mem search)
          simp [owner] at alone
        · intro none
          exact absurd (none (by rw [named]; simp)) (by simp)
        · rw [group_pid_found _ _ p (pidFromPid look.conts p).2 rfl] at param ⊢
          cases param
          dsimp only
          rw [new, adds.pids]
          exact List.mem_cons_self

/-- A container made for an image is linked with it. -/
theorem cont_from_img_links {node : Node} {id : Str} {conts after : Containers} {i c : Nat}
    (stored : Stored conts) (linked : Mutual conts) (known : i ∈ conts.img)
    (named : node.contid = some id) (made : contFromImg conts node i = .ok (after, c)) :
    Stored after ∧ Mutual after ∧ c ∈ after.cont ∧ after.img = conts.img ∧
      (after.contAt c).img = some i ∧ (after.contAt c).status.ccrt = false := by
  obtain ⟨loc, writes⟩ := cont_from_img_writes named made
  have moved := writes_cont_traced stored (traced_of_mutual linked) writes
    (fun j same => by cases same; exact known) rfl rfl (fun old => by cases old)
  refine ⟨writes_cont_stored writes stored ((stored.imgParm i known).mono writes.grows.brk),
    moved.mutual_iff.mpr ⟨fun x _ => ?_, fun p _ => settled_single _⟩, ?_, writes.grows.img, ?_, ?_⟩
  · by_cases this : x = c
    · rw [this, Function.update_self]
      exact settled_single _
    · rw [Function.update_of_ne this]
      exact settled_single _
  · exact writes.held fun old => by cases old
  · rw [writes.contAt, Function.update_self]
  · rw [writes.contAt, Function.update_self]

theorem cont_from_img_some {node : Node} {id : Str} (named : node.contid = some id)
    (conts : Containers) (i : Nat) : ∃ after c, contFromImg conts node i = .ok (after, c) := by
  rw [contFromImg, named]
  exact ⟨_, _, rfl⟩

theorem task_links_iff (stored : Stored look.conts) (linked : Mutual look.conts)
    (task : look.node.pid ≠ 0) : LinksKept look ↔ TaskFits look.conts look.node := by
  obtain ⟨next, search⟩ := task_search task
  have image : ∀ i, imageMatch look.conts look.node = some i → i ∈ look.conts.img :=
    fun i found => List.mem_of_find?_eq_some found
  rw [LinksKept, TaskFits, find_pid_parameters_search, next, search]
  dsimp only
  cases list : look.conts.cont.find? (idMatch look.conts look.node) with
  | some c =>
      refine ⟨fun _ none => (by cases none), fun _ found ok run => ?_⟩
      cases run
      obtain ⟨ends, p, inside, param⟩ := in_container_links look stored linked task
        (List.mem_of_find?_eq_some list) _ image false
      refine ⟨ends, fun _ _ q ptr same owner => ?_⟩
      rw [param] at same
      cases same
      exact listed_member ends inside owner
  | none =>
      cases known : imageMatch look.conts look.node with
      | some i =>
          refine ⟨fun _ _ none => (by cases none), fun _ found ok run => ?_⟩
          rcases Option.eq_none_or_eq_some look.node.contid with unnamed | ⟨id, named⟩
          · simp only [Option.map_none, contFromImg, unnamed] at run
            cases run
          · obtain ⟨conts, c, made⟩ := cont_from_img_some named look.conts i
            simp only [Option.map_none, made] at run
            cases run
            obtain ⟨grown, settled, member, same, _⟩ :=
              cont_from_img_links stored linked (image i known) named made
            obtain ⟨ends, p, inside, param⟩ := in_container_links { look with conts := conts }
              grown settled task member (some i)
              (fun j given => by cases given; rw [same]; exact image i known) true
            refine ⟨ends, fun _ _ q ptr same owner => ?_⟩
            rw [param] at same
            cases same
            exact listed_member ends inside owner
      | none =>
          dsimp only [Option.map_none]
          rw [if_neg task]
          obtain ⟨iff, member⟩ := find_unrelated_links stored linked
          constructor
          · intro kept _ _ grouped
            exact iff.mp (kept _ _ rfl).1 grouped
          · intro fits found ok run
            have ends := iff.mpr (fits rfl rfl)
            generalize findUnrelated look = result at ends member run
            cases run
            refine ⟨ends, fun success _ p ptr param owner => ?_⟩
            exact listed_member ends (member p success param) owner

end Tasks

section Events
variable {look : Lookup} {id : Str}

theorem docker_links_found (event : look.node.pid = 0) {found : Lookup} {c : Nat}
    (search : searchList look = some (found, c)) :
    LinksKept look ↔ Mutual (findInContainer found (imageMatch look.conts look.node) c false).conts := by
  rw [LinksKept, find_pid_parameters_search, search]
  constructor
  · exact fun kept => (kept _ _ rfl).1
  · intro kept last ok run
    cases run
    exact ⟨kept, fun _ task => absurd event task⟩

/-- Without a container of its own the image of the node gets a new one. -/
theorem docker_links_none (stored : Stored look.conts) (linked : Mutual look.conts)
    (event : look.node.pid = 0) (next : ((searchImage look).map Prod.fst).getD look = look)
    (search : searchList look = none) : LinksKept look := by
  intro found ok run
  refine ⟨?_, fun _ task => absurd event task⟩
  rw [find_pid_parameters_search, next, search] at run
  dsimp only at run
  cases known : imageMatch look.conts look.node with
  | none =>
      rw [known] at run
      dsimp only at run
      rw [if_pos event] at run
      cases run
      exact linked
  | some i =>
      rw [known] at run
      dsimp only at run
      rcases Option.eq_none_or_eq_some look.node.contid with unnamed | ⟨id, named⟩
      · simp only [contFromImg, unnamed] at run
        cases run
      · obtain ⟨conts, c, made⟩ := cont_from_img_some named look.conts i
        rw [made] at run
        cases run
        have inside : i ∈ look.conts.img := List.mem_of_find?_eq_some known
        obtain ⟨grown, settled, member, same, _, own⟩ :=
          cont_from_img_links stored linked inside named made
        apply (finish_iff { look with conts := conts } grown (traced_of_mutual settled) event
          member (some i) (fun j given => by cases given; rw [same]; exact inside) true).mpr
        refine ⟨fun x _ _ => settled_single _, ?_, fun p _ => settled_single _⟩
        dsimp only
        rw [own]
        exact settled_single _

theorem single_refresh_iff (stored : Stored look.conts) (linked : Mutual look.conts)
    (event : look.node.pid = 0) {g r : Nat} {id : List Char} (member : g ∈ look.conts.cont)
    (result : (fillCont look.conts g id).2 = r) {img : Option Nat}
    (known : ∀ i, img = some i → i ∈ look.conts.img) :
    Mutual (findInContainer (duplicateOrRefreshContainer look g id).1 img r false).conts ↔
      RefreshFits look.conts (adopted img (look.conts.contAt g).status.ccrt) g
        (runtimeCont look.conts g id) := by
  rw [refreshed_iff stored (traced_of_mutual linked) event member result known, RefreshFits]
  have trail : contMoves look.conts g id r (fun c => [(look.conts.contAt c).img]) r =
      (look.conts.contAt g).img ::
        ((runtimeCont look.conts g id).map fun x => (look.conts.contAt x).img).toList := by
    rw [contMoves, Function.update_self]
    cases search : runtimeCont look.conts g id with
    | none => rfl
    | some x =>
        rw [fill_cont_some search] at result
        rw [result]
        rfl
  rw [trail]
  constructor
  · rintro ⟨_, own, pids⟩
    refine ⟨own, fun x found p inside => ?_⟩
    have joined : p ∈ connected look.conts g id := by
      rw [connected, found]
      exact inside
    have listed := ((linked.contPids x (runtime_cont_some found).1 p).mp inside).1
    have fits := pids p listed
    rwa [if_pos joined] at fits
  · rintro ⟨own, pids⟩
    refine ⟨fun x _ _ => settled_single _, own, fun p _ => ?_⟩
    split_ifs with joined
    · rw [connected] at joined
      cases found : runtimeCont look.conts g id with
      | none =>
          rw [found] at joined
          cases joined
      | some x =>
          rw [found] at joined
          exact pids x found p joined
    · exact settled_single _

section Twice
variable {c r i : Nat} {later : Nat → List (Option Nat)} {next : Lookup}

/-- The container `r` was refreshed with the settings of `c`, which matches by name
in the image `i`; the lookup goes on in `next`. -/
structure Refreshed (look next : Lookup) (c r i : Nat) (later : Nat → List (Option Nat)) : Prop where
  linked : Mutual look.conts
  event : next.node.pid = 0
  known : i ∈ look.conts.img
  image : (look.conts.contAt c).img = some i
  held : r ∈ look.conts.cont
  moved : Moved look.conts c r
    (Function.update (fun x => [(look.conts.contAt x).img]) r [some i, (look.conts.contAt r).img])
    (fun p => [(look.conts.pidcAt p).img]) (look.conts.contAt r).pids.reverse
    (look.conts.contAt c).pids.reverse next.conts later

theorem Refreshed.img_known (twice : Refreshed look next c r i later) :
    ∀ j, some i = some j → j ∈ next.conts.img := by
  intro j same
  cases same
  rw [twice.moved.img]
  exact twice.known

theorem Refreshed.fits_iff (twice : Refreshed look next c r i later) :
    RefreshFits look.conts [] c (some r) ↔ Settled [some i, (look.conts.contAt r).img] ∧
      ∀ p ∈ (look.conts.contAt r).pids, Settled [some i, (look.conts.pidcAt p).img] := by
  rw [RefreshFits, twice.image]
  apply and_congr_right'
  constructor
  · exact fun all => all r rfl
  · intro all x same
    cases same
    exact all

/-- Where the PIDs are after the first refresh. -/
theorem Refreshed.pids_iff (twice : Refreshed look next c r i later) :
    (∀ p ∈ next.conts.pids, Settled (later p)) ↔
      ∀ p ∈ (look.conts.contAt r).pids, Settled [some i, (look.conts.pidcAt p).img] := by
  have moved := twice.moved
  have image := twice.image
  constructor
  · intro all p inside
    have listed := ((twice.linked.contPids r twice.held p).mp inside).1
    obtain ⟨still, _, trail⟩ := moved.pids p listed
    have own := all p still
    rw [trail, if_pos (List.mem_reverse.mpr inside), image] at own
    exact own
  · intro all p inside
    by_cases old : p ∈ look.conts.pids
    · rw [(moved.pids p old).2.2, image]
      split_ifs with joined
      · exact all p (List.mem_reverse.mp joined)
      · exact settled_single _
    · obtain ⟨_, q, _, trail⟩ := moved.news p inside old
      rw [trail]
      exact settled_single _

/-- Then the list leads to a container by its id. -/
theorem Refreshed.by_id_iff (twice : Refreshed look next c r i later) {g : Nat}
    (member : g ∈ look.conts.cont) :
    Mutual (findInContainer next (some i) g false).conts ↔
      RefreshFits look.conts [] c (some r) ∧
        (g ≠ r → Settled (adopted (some i) (look.conts.contAt g).status.ccrt ++
          [(look.conts.contAt g).img])) := by
  have moved := twice.moved
  rw [finish_iff _ moved.stored moved.traced twice.event ((moved.cont g).mpr (Or.inr member))
    _ twice.img_known, twice.pids_iff, twice.fits_iff]
  by_cases this : g = r
  · subst this
    have again : Settled (adopted (some i) (next.conts.contAt g).status.ccrt ++
        [some i, (look.conts.contAt g).img]) ↔ Settled [some i, (look.conts.contAt g).img] := by
      cases (next.conts.contAt g).status.ccrt with
      | true => exact settled_again (some i)
      | false => rfl
    rw [Function.update_self, again]
    constructor
    · rintro ⟨_, own, pids⟩
      exact ⟨⟨own, pids⟩, fun apart => absurd rfl apart⟩
    · rintro ⟨⟨own, pids⟩, _⟩
      refine ⟨fun x _ other => ?_, own, pids⟩
      rw [Function.update_of_ne other]
      exact settled_single _
  · rw [Function.update_of_ne this, moved.others g this]
    constructor
    · rintro ⟨others, own, pids⟩
      have first := others r moved.held (Ne.symm this)
      rw [Function.update_self] at first
      exact ⟨⟨first, pids⟩, fun _ => own⟩
    · rintro ⟨⟨first, pids⟩, own⟩
      refine ⟨fun x _ _ => ?_, own this, pids⟩
      by_cases same : x = r
      · rw [same, Function.update_self]
        exact first
      · rw [Function.update_of_ne same]
        exact settled_single _

/-- Then the list leads to a name, and from there to the same container again. -/
theorem Refreshed.by_name_same_iff (twice : Refreshed look next c r i later) {g : Nat}
    {id : List Char} (member : g ∈ look.conts.cont) (apart : g ≠ r)
    (again : runtimeCont next.conts g id = some r) :
    Mutual (findInContainer (duplicateOrRefreshContainer next g id).1 (some i) r false).conts ↔
      Settled (adopted (some i) (look.conts.contAt g).status.ccrt ++
          [(look.conts.contAt g).img, (look.conts.contAt c).img, (look.conts.contAt r).img]) ∧
        (∀ p ∈ (look.conts.contAt r).pids,
          Settled [(look.conts.contAt g).img, (look.conts.contAt c).img, (look.conts.pidcAt p).img]) ∧
        ∀ q ∈ (look.conts.contAt c).pids,
          Settled [(look.conts.contAt g).img, (look.conts.pidcAt q).img] := by
  have moved := twice.moved
  have image := twice.image
  have held : g ∈ next.conts.cont := (moved.cont g).mpr (Or.inr member)
  have trail : contMoves next.conts g id r (Function.update
      (fun x => [(look.conts.contAt x).img]) r [some i, (look.conts.contAt r).img]) r =
      [(look.conts.contAt g).img, some i, (look.conts.contAt r).img] := by
    rw [contMoves, Function.update_self, Function.update_self, again, moved.others g apart]
    rfl
  have joined : connected next.conts g id = (next.conts.contAt r).pids := by rw [connected, again]
  rw [refreshed_iff moved.stored moved.traced twice.event held (fill_cont_some again)
    twice.img_known, trail, joined, moved.others g apart, image]
  constructor
  · rintro ⟨_, own, pids⟩
    refine ⟨own, fun p inside => ?_, fun q inside => ?_⟩
    · have owned := (twice.linked.contPids r twice.held p).mp inside
      obtain ⟨still, owner, trail⟩ := moved.pids p owned.1
      have fits := pids p still
      rw [if_pos ((moved.traced.contPids r moved.held p).mpr ⟨still, owner.trans owned.2⟩), trail,
        if_pos (List.mem_reverse.mpr inside), image] at fits
      exact fits
    · obtain ⟨p, present, _, owned, trail⟩ := moved.copies q (List.mem_reverse.mpr inside)
      have fits := pids p present
      rwa [if_pos owned, trail] at fits
  · rintro ⟨own, pids, copies⟩
    refine ⟨fun x _ other => ?_, own, fun p inside => ?_⟩
    · rw [Function.update_of_ne other]
      exact settled_single _
    · by_cases old : p ∈ look.conts.pids
      · obtain ⟨still, owner, trail⟩ := moved.pids p old
        rw [trail, image]
        by_cases owned : p ∈ (look.conts.contAt r).pids
        · have ends := (twice.linked.contPids r twice.held p).mp owned
          rw [if_pos (List.mem_reverse.mpr owned),
            if_pos ((moved.traced.contPids r moved.held p).mpr ⟨still, owner.trans ends.2⟩)]
          exact pids p owned
        · have other : p ∉ (next.conts.contAt r).pids := by
            intro joins
            have ends := ((moved.traced.contPids r moved.held p).mp joins).2
            exact owned ((twice.linked.contPids r twice.held p).mpr ⟨old, owner.symm.trans ends⟩)
          rw [if_neg other, if_neg (fun back => owned (List.mem_reverse.mp back))]
          exact settled_single _
      · obtain ⟨owned, q, copied, trail⟩ := moved.news p inside old
        rw [if_pos owned, trail]
        exact copies q (List.mem_reverse.mp copied)

/-- Then the list leads to a name, and from there to another container. -/
theorem Refreshed.by_name_other_iff (twice : Refreshed look next c r i later) {g r' : Nat}
    {id : List Char} (member : g ∈ look.conts.cont) (apart : g ≠ r)
    (again : runtimeCont next.conts g id = runtimeCont look.conts r id)
    (result : (fillCont next.conts g id).2 = r') :
    Mutual (findInContainer (duplicateOrRefreshContainer next g id).1 (some i) r' false).conts ↔
      RefreshFits look.conts [] c (some r) ∧
        RefreshFits look.conts (adopted (some i) (look.conts.contAt g).status.ccrt) g
          (runtimeCont look.conts r id) := by
  have moved := twice.moved
  have held : g ∈ next.conts.cont := (moved.cont g).mpr (Or.inr member)
  have elsewhere : r ≠ r' := by
    cases search : runtimeCont look.conts r id with
    | none =>
        rw [fill_cont_none (again.trans search)] at result
        rw [← result]
        exact Nat.ne_of_lt (moved.stored.cont r moved.held)
    | some x =>
        rw [fill_cont_some (again.trans search)] at result
        rw [← result]
        exact (runtime_cont_some search).2.1.symm
  have trail : contMoves next.conts g id r' (Function.update
      (fun x => [(look.conts.contAt x).img]) r [some i, (look.conts.contAt r).img]) r' =
      (look.conts.contAt g).img ::
        ((runtimeCont look.conts r id).map fun x => (look.conts.contAt x).img).toList := by
    rw [contMoves, Function.update_self, Function.update_of_ne elsewhere.symm, again,
      moved.others g apart]
    cases search : runtimeCont look.conts r id with
    | none => rfl
    | some x =>
        rw [fill_cont_some (again.trans search)] at result
        rw [result]
        rfl
  have joined : ∀ p, p ∈ connected next.conts g id ↔
      ∃ x, runtimeCont look.conts r id = some x ∧ p ∈ (look.conts.contAt x).pids := by
    intro p
    rw [connected, again]
    cases search : runtimeCont look.conts r id with
    | none => simp
    | some x =>
        have other : x ≠ r := (runtime_cont_some search).2.1
        simp [moved.others x other]
  have separate : ∀ p x, runtimeCont look.conts r id = some x → p ∈ (look.conts.contAt x).pids →
      p ∉ (look.conts.contAt r).pids := by
    intro p x search inside both
    have first := ((twice.linked.contPids x (runtime_cont_some search).1 p).mp inside).2
    rw [((twice.linked.contPids r twice.held p).mp both).2] at first
    cases first
    exact (runtime_cont_some search).2.1 rfl
  rw [refreshed_iff moved.stored moved.traced twice.event held result twice.img_known, trail,
    moved.others g apart, twice.fits_iff, RefreshFits]
  constructor
  · rintro ⟨others, own, pids⟩
    have first := others r moved.held elsewhere
    rw [Function.update_self] at first
    refine ⟨⟨first, fun p inside => ?_⟩, own, fun x search p inside => ?_⟩
    · have listed := ((twice.linked.contPids r twice.held p).mp inside).1
      obtain ⟨still, _, trail⟩ := moved.pids p listed
      have fits := pids p still
      rw [if_neg (fun joins => by
          obtain ⟨x, search, there⟩ := (joined p).mp joins
          exact separate p x search there inside),
        trail, if_pos (List.mem_reverse.mpr inside), twice.image] at fits
      exact fits
    · have listed := ((twice.linked.contPids x (runtime_cont_some search).1 p).mp inside).1
      obtain ⟨still, _, trail⟩ := moved.pids p listed
      have fits := pids p still
      rw [if_pos ((joined p).mpr ⟨x, search, inside⟩), trail,
        if_neg (fun back => separate p x search inside (List.mem_reverse.mp back))] at fits
      exact fits
  · rintro ⟨⟨first, pids⟩, own, fits⟩
    refine ⟨fun x _ _ => ?_, own, fun p inside => ?_⟩
    · by_cases same : x = r
      · rw [same, Function.update_self]
        exact first
      · rw [Function.update_of_ne same]
        exact settled_single _
    · by_cases old : p ∈ look.conts.pids
      · obtain ⟨_, _, trail⟩ := moved.pids p old
        rw [trail]
        split_ifs with joins back back
        · obtain ⟨x, search, there⟩ := (joined p).mp joins
          exact absurd (List.mem_reverse.mp back) (separate p x search there)
        · obtain ⟨x, search, there⟩ := (joined p).mp joins
          exact fits x search p there
        · rw [twice.image]
          exact pids p (List.mem_reverse.mp back)
        · exact settled_single _
      · obtain ⟨owned, q, _, trail⟩ := moved.news p inside old
        have away : p ∉ connected next.conts g id := by
          intro joins
          obtain ⟨x, search, there⟩ := (joined p).mp joins
          exact old ((twice.linked.contPids x (runtime_cont_some search).1 p).mp there).1
        rw [if_neg away, trail]
        exact settled_single _

end Twice

/-- The state the list of containers is searched in. -/
theorem next_without_name (named : look.node.contid = some id)
    (none : namedInImage look.conts look.node = none) :
    ((searchImage look).map Prod.fst).getD look = look := by
  rw [searchImage]
  cases known : imageMatch look.conts look.node with
  | none => rfl
  | some i =>
      rw [Option.bind_some, search_containers named]
      cases first : (look.conts.imgAt i).conts.find? (isMatch look.conts look.node) with
      | none => rfl
      | some c =>
          have byId : idMatch look.conts look.node c = true := by
            by_contra byName
            rw [namedInImage, known, Option.bind_some, first, Option.filter_some_pos] at none
            · cases none
            · simpa using byName
          rw [Option.map_some, if_pos byId]
          rfl

/-- A container of the image matches by name. -/
theorem named_in_image (id : Str) {c : Nat} (found : namedInImage look.conts look.node = some c) :
    ∃ i, imageMatch look.conts look.node = some i ∧ c ∈ (look.conts.imgAt i).conts ∧
      isMatch look.conts look.node c = true ∧ idMatch look.conts look.node c = false ∧
      (look.node.contid = some id →
        searchImage look = some (duplicateOrRefreshContainer look c id.text)) := by
  obtain ⟨i, known, rest⟩ := Option.bind_eq_some_iff.mp found
  obtain ⟨first, byName⟩ := Option.filter_eq_some_iff.mp rest
  have notId : idMatch look.conts look.node c = false := by simpa using byName
  refine ⟨i, known, List.mem_of_find?_eq_some first, List.find?_some first, notId, fun named => ?_⟩
  rw [searchImage, known, Option.bind_some, search_containers named, first, Option.map_some, notId]
  rfl

theorem search_unnamed (unnamed : look.node.contid = none) :
    searchImage look = none ∧ searchList look = none := by
  have single : ∀ conts : List Nat, conts.findSome? (checkContainerMatch look) = none := by
    intro conts
    rw [List.findSome?_eq_none_iff]
    intro c _
    rw [checkContainerMatch, unnamed]
    cases (look.conts.contAt c).contid <;> rfl
  have first : searchImage look = none := by
    rw [searchImage]
    cases imageMatch look.conts look.node with
    | none => rfl
    | some i => exact single _
  have next : ((searchImage look).map Prod.fst).getD look = look := by rw [first]; rfl
  refine ⟨first, ?_⟩
  rw [searchList, next]
  exact single _

/-- No container of the image is matched by name: only the list is searched. -/
theorem docker_links_listed_iff (stored : Stored look.conts) (linked : Mutual look.conts)
    (event : look.node.pid = 0) {id : Str} (named : look.node.contid = some id)
    (first : namedInImage look.conts look.node = none) :
    LinksKept look ↔ ∀ g, look.conts.cont.find? (isMatch look.conts look.node) = some g →
      MovesFit look.conts look.node id.text g none := by
  have image : ∀ i, imageMatch look.conts look.node = some i → i ∈ look.conts.img :=
    fun i found => List.mem_of_find?_eq_some found
  have next := next_without_name named first
  have list : searchList look = look.conts.cont.findSome? (checkContainerMatch look) := by
    rw [searchList, next]
  rw [search_containers named] at list
  cases found : look.conts.cont.find? (isMatch look.conts look.node) with
  | none =>
      rw [found] at list
      exact ⟨fun _ g none => (by cases none), fun _ => docker_links_none stored linked event next list⟩
  | some g =>
      have member := List.mem_of_find?_eq_some found
      rw [found, Option.map_some] at list
      simp only [Option.some.injEq, forall_eq']
      rw [MovesFit]
      by_cases byId : idMatch look.conts look.node g = true
      · rw [if_pos byId] at list ⊢
        rw [docker_links_found event list,
          finish_iff look stored (traced_of_mutual linked) event member _ image]
        constructor
        · exact fun ends => ends.2.1
        · exact fun own => ⟨fun x _ _ => settled_single _, own, fun p _ => settled_single _⟩
      · rw [if_neg byId] at list ⊢
        have pair : searchList look = some ((duplicateOrRefreshContainer look g id.text).1,
          (duplicateOrRefreshContainer look g id.text).2) := list
        rw [docker_links_found event pair]
        exact single_refresh_iff stored linked event member
          (duplicate_or_refresh_cont look g id.text).symm image

/-- After a match by name in the image, the list is searched from what that left. -/
theorem search_list_named {c : Nat} {id : Str} (named : look.node.contid = some id)
    (search : searchImage look = some (duplicateOrRefreshContainer look c id.text)) :
    searchList look = ((duplicateOrRefreshContainer look c id.text).1.conts.cont.find?
      (isMatch (duplicateOrRefreshContainer look c id.text).1.conts
        (duplicateOrRefreshContainer look c id.text).1.node)).map fun g =>
      if idMatch (duplicateOrRefreshContainer look c id.text).1.conts
          (duplicateOrRefreshContainer look c id.text).1.node g then
        ((duplicateOrRefreshContainer look c id.text).1, g)
      else duplicateOrRefreshContainer (duplicateOrRefreshContainer look c id.text).1 g id.text := by
  have kept : (duplicateOrRefreshContainer look c id.text).1.node.contid = some id := by
    rw [duplicate_or_refresh_node]
    exact named
  rw [searchList, search]
  exact search_containers kept _

/-- A container created for a name in the image leads the list and has its image. -/
theorem docker_links_created (stored : Stored look.conts) (linked : Mutual look.conts)
    (event : look.node.pid = 0) {i c : Nat} {id : Str} (named : look.node.contid = some id)
    (known : imageMatch look.conts look.node = some i) (inside : c ∈ (look.conts.imgAt i).conts)
    (search : searchImage look = some (duplicateOrRefreshContainer look c id.text))
    (runtime : runtimeCont look.conts c id.text = none) : LinksKept look := by
  have image := List.mem_of_find?_eq_some known
  obtain ⟨member, ownImage⟩ := (linked.imgConts i image c).mp inside
  have list := search_list_named named search
  obtain ⟨later, moved⟩ := duplicate_moves look stored (traced_of_mutual linked) member
    (fill_cont_none runtime)
  obtain ⟨newId, leads⟩ := created_leads stored linked named member runtime
  rw [leads, Option.map_some, if_pos newId] at list
  have trail : contMoves look.conts c id.text look.conts.brk
      (fun x => [(look.conts.contAt x).img]) look.conts.brk = [some i] := by
    rw [contMoves, Function.update_self, runtime, ownImage]
    rfl
  rw [docker_links_found event list, known]
  apply (finish_iff _ moved.stored moved.traced event moved.held (some i)
    (fun j same => by cases same; rw [moved.img]; exact image) false).mpr
  refine ⟨fun x _ other => ?_, ?_, fun p present => ?_⟩
  · rw [contMoves, Function.update_of_ne other]
    exact settled_single _
  · rw [trail]
    cases ((duplicateOrRefreshContainer look c id.text).1.conts.contAt
      look.conts.brk).status.ccrt with
    | true => exact (settled_again (some i)).mpr (settled_single _)
    | false => exact settled_single _
  · by_cases old : p ∈ look.conts.pids
    · rw [(moved.pids p old).2.2, connected, runtime]
      exact settled_single _
    · obtain ⟨_, q, _, trail⟩ := moved.news p present old
      rw [trail]
      exact settled_single _

/-- A container refreshed for a name in the image: the list may lead to another one. -/
theorem docker_links_refreshed_iff (stored : Stored look.conts) (linked : Mutual look.conts)
    (event : look.node.pid = 0) {i c g r : Nat} {id : Str} (named : look.node.contid = some id)
    (known : imageMatch look.conts look.node = some i) (inside : c ∈ (look.conts.imgAt i).conts)
    (byName : ¬ idMatch look.conts look.node c = true)
    (search : searchImage look = some (duplicateOrRefreshContainer look c id.text))
    (listed : look.conts.cont.find? (isMatch look.conts look.node) = some g)
    (runtime : runtimeCont look.conts c id.text = some r) :
    LinksKept look ↔ MovesFit look.conts look.node id.text g (some c) := by
  have image := List.mem_of_find?_eq_some known
  obtain ⟨member, ownImage⟩ := (linked.imgConts i image c).mp inside
  have list := search_list_named named search
  have names := duplicate_named look c id.text stored linked member
  have kept := duplicate_or_refresh_node look c id.text
  obtain ⟨later, moved⟩ := duplicate_moves look stored (traced_of_mutual linked) member
    (fill_cont_some runtime)
  have held := (runtime_cont_some runtime).1
  have twice : Refreshed look (duplicateOrRefreshContainer look c id.text).1 c r i later := by
    refine ⟨linked, event, image, ownImage, held, ?_⟩
    rw [contMoves, runtime, ownImage, connected, runtime] at moved
    exact moved
  obtain ⟨sameById, sameMatch⟩ := id_match_same look.node (names.contid r runtime)
  rw [kept, sameMatch, names.list r runtime, listed, Option.map_some, sameById] at list
  have inList := List.mem_of_find?_eq_some listed
  rw [MovesFit]
  simp only [runtime, Option.some.injEq, forall_eq']
  by_cases byId : idMatch look.conts look.node g = true
  · rw [if_pos byId] at list ⊢
    rw [docker_links_found event list, known]
    exact twice.by_id_iff inList
  · rw [if_neg byId] at list ⊢
    have pair : searchList look =
        some ((duplicateOrRefreshContainer (duplicateOrRefreshContainer look c id.text).1 g
          id.text).1, (duplicateOrRefreshContainer
            (duplicateOrRefreshContainer look c id.text).1 g id.text).2) := list
    rw [docker_links_found event pair, known]
    have apart : g ≠ r := by
      intro same
      obtain ⟨_, _, _, contid, own, match_⟩ := runtime_cont_some runtime
      rw [same, id_match_same_id named, own] at byId
      exact byId match_
    have again := runtime_cont_refreshed stored linked named member byName byId runtime
    cases created : (look.conts.contAt c).status.ccrt with
    | true =>
        rw [created] at again
        rw [if_pos rfl] at again ⊢
        have result := fill_cont_some again
        rw [duplicate_or_refresh_cont, result]
        exact twice.by_name_same_iff inList apart again
    | false =>
        rw [created] at again
        rw [if_neg (by simp)] at again ⊢
        exact twice.by_name_other_iff inList apart again
          (duplicate_or_refresh_cont _ g id.text).symm

theorem docker_links_iff (stored : Stored look.conts) (linked : Mutual look.conts)
    (event : look.node.pid = 0) : LinksKept look ↔ DockerFits look.conts look.node := by
  rcases Option.eq_none_or_eq_some look.node.contid with unnamed | ⟨id, named⟩
  · -- nothing matches without an id
    obtain ⟨first, list⟩ := search_unnamed unnamed
    have next : ((searchImage look).map Prod.fst).getD look = look := by rw [first]; rfl
    refine ⟨fun _ id g named => ?_, fun _ => docker_links_none stored linked event next list⟩
    rw [unnamed] at named
    cases named
  have condition : DockerFits look.conts look.node ↔
      ∀ g, look.conts.cont.find? (isMatch look.conts look.node) = some g →
        MovesFit look.conts look.node id.text g (namedInImage look.conts look.node) := by
    constructor
    · exact fun fits g => fits id g named
    · intro fits id' g named'
      rw [named] at named'
      cases named'
      exact fits g
  rw [condition]
  cases first : namedInImage look.conts look.node with
  | none => exact docker_links_listed_iff stored linked event named first
  | some c =>
      obtain ⟨i, known, inside, hit, byName, search⟩ := named_in_image id first
      have search := search named
      have member := ((linked.imgConts i (List.mem_of_find?_eq_some known) c).mp inside).1
      obtain ⟨g, listed⟩ : ∃ g, look.conts.cont.find? (isMatch look.conts look.node) = some g := by
        apply Option.isSome_iff_exists.mp
        rw [List.find?_isSome]
        exact ⟨c, member, hit⟩
      rw [listed]
      simp only [Option.some.injEq, forall_eq']
      cases runtime : runtimeCont look.conts c id.text with
      | none =>
          refine ⟨fun _ => ?_, fun _ =>
            docker_links_created stored linked event named known inside search runtime⟩
          rw [MovesFit]
          intro r other
          rw [runtime] at other
          cases other
      | some r =>
          exact docker_links_refreshed_iff stored linked event named known inside (by simp [byName])
            search listed runtime

end Events

/-- For every configuration with mutual links and every node: a lookup that returns
keeps the links if and only if a task gets no PID configuration on its own, and a
docker-link node takes nothing out of an image. -/
theorem links_kept_iff {look : Lookup} (stored : Stored look.conts) (linked : Mutual look.conts) :
    LinksKept look ↔ if look.node.pid = 0 then DockerFits look.conts look.node
      else TaskFits look.conts look.node := by
  split_ifs with event
  · exact docker_links_iff stored linked event
  · exact task_links_iff stored linked event

theorem web_task_links : LinksKept ⟨webConts, [], webTask⟩ := by
  apply (links_kept_iff web_stored web_linked).mpr
  rw [if_neg (by decide)]
  intro none
  exact absurd none (by decide)

/-- A PID `loop` on its own and nothing else. -/
def loneConts : Containers where
  pids := [3]
  attr := 4
  rscs := 5
  pidcAt := fun _ => { psig := some ⟨7, "loop".toList⟩, attr := 4, rscs := 5 }
  brk := 9

/-- The new container lists the configuration of the file, only its copy is linked. -/
theorem copy_not_listed :
    Stored loneConts ∧ Mutual loneConts ∧ ¬ LinksKept ⟨loneConts, [], webTask⟩ := by
  have stored : Stored loneConts := by constructor <;> simp [loneConts, Below]
  have linked : Mutual loneConts := by constructor <;> simp [loneConts]
  refine ⟨stored, linked, fun kept => ?_⟩
  have fits := (task_links_iff stored linked (by decide)).mp kept
  exact absurd (fits rfl rfl (by decide)) (by decide)

end Orchestrator.LookupLinks
