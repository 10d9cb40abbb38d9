import Mathlib.Data.List.Find
import Orchestrator.MutualLinks

/-!
The documented hierarchy of the lookup: container within image before container,
PID of the container before PID of the image before PIDs on their own before
settings of container and image.
-/

namespace Orchestrator.LookupHierarchy
open Orchdata PidLookup LookupEdits MutualLinks

section Matches
variable (conts : Containers) (node : Node)

/-- The container has the node's id. -/
def idMatch (c : Nat) : Bool :=
  match (conts.contAt c).contid, node.contid with
  | some contid, some id => sameId contid.text id.text
  | _, _ => false

/-- The container is named as the one a docker-link node reports. -/
def nameMatch (c : Nat) : Bool :=
  match (conts.contAt c).contid, node.contid with
  | some contid, some _ => node.pid = 0 && node.psig.map Str.text = some contid.text
  | _, _ => false

def isMatch (c : Nat) : Bool := idMatch conts node c || nameMatch conts node c

/-- PID configurations without container and image. -/
def unrelated : List Nat :=
  conts.pids.filter fun p => (conts.pidcAt p).cont.isNone && (conts.pidcAt p).img.isNone

/-- Values of the settings; a missing mask counts as an empty one. -/
def settingsOf (parm : Parm) : SchedAttr × SchedRscs :=
  (conts.attrAt parm.attr, withMask (conts.rscsAt parm.rscs))

end Matches

/-- The container of the matched image that matches, with what the match does. -/
def searchImage (look : Lookup) : Option (Lookup × Nat) :=
  (imageMatch look.conts look.node).bind fun i =>
    (look.conts.imgAt i).conts.findSome? (checkContainerMatch look)

/-- The search in the list of containers that follows. -/
def searchList (look : Lookup) : Option (Lookup × Nat) :=
  let next := ((searchImage look).map Prod.fst).getD look
  next.conts.cont.findSome? (checkContainerMatch next)

/-- The container the lookup goes on with. -/
def matchedContainer (look : Lookup) : Option Nat := (searchList look).map Prod.snd

/-- The settings a task should get from its container, or its image. -/
def levelSettings (conts : Containers) (cont img : Option Nat) : SchedAttr × SchedRscs :=
  match cont, img with
  | some c, _ => settingsOf conts (conts.contAt c).toParm
  | none, some i => settingsOf conts (conts.imgAt i).toParm
  | none, none => settingsOf conts { attr := conts.attr, rscs := conts.rscs }

/-- The first PID configuration of container and image whose signature occurs. -/
def listedMatch (conts : Containers) (node : Node) (cont img : Option Nat) : Option Nat :=
  (cont.bind fun c => signatureMatch conts node (conts.contAt c).pids).or
    (signatureMatch conts node (imgPids conts img))

/-- Settings by the hierarchy. -/
def expectedSettings (conts : Containers) (node : Node) (cont img : Option Nat) :
    SchedAttr × SchedRscs :=
  match (listedMatch conts node cont img).or (signatureMatch conts node (unrelated conts)) with
  | some p => settingsOf conts (conts.pidcAt p).toParm
  | none => levelSettings conts cont img

/-- Image of the node, or the one its container belongs to. -/
def imageOf (conts : Containers) (node : Node) (cont : Option Nat) : Option Nat :=
  (imageMatch conts node).or (cont.bind fun c => (conts.contAt c).img)

/-- The lookup keeps to the hierarchy; what a docker-link node reports is linked
to the matched container. -/
structure Hierarchical (look : Lookup) : Prop where
  container : ∀ next c, searchImage look = some (next, c) → matchedContainer look = some c
  reported : look.node.pid = 0 → ∀ c, matchedContainer look = some c →
    ∃ found, findPidParameters look = .ok (found, true) ∧
      contOf found.conts found.node = some (.cont c)
  settings : look.node.pid ≠ 0 → ∃ found p, findPidParameters look = .ok (found, true) ∧
    found.node.param = some p ∧
    settingsOf found.conts (found.conts.pidcAt p).toParm =
      expectedSettings look.conts look.node (matchedContainer look)
        (imageOf look.conts look.node (matchedContainer look))

section Conditions
variable (conts : Containers) (node : Node)

/-- The container that matches in the image, by name only. -/
def namedInImage : Option Nat :=
  (imageMatch conts node).bind fun i =>
    ((conts.imgAt i).conts.find? (isMatch conts node)).filter fun c => !idMatch conts node c

/-- Whether the search in the list also ends at the container `c` that matched
in the image; `g` is the first of the list that matches. -/
def sameEnd (id : List Char) (c g : Nat) : Prop :=
  if idMatch conts node c then
    if idMatch conts node g then g = c else runtimeCont conts g id = some c
  else
    -- by name: a container created at runtime is refreshed, or a new one leads the list
    ∀ r, runtimeCont conts c id = some r →
      if idMatch conts node g then g = r else (conts.contAt c).status.ccrt

/-- The list of containers does not lead away from the image. -/
def ImageFirst : Prop :=
  ∀ i id c g, imageMatch conts node = some i → node.contid = some id →
    (conts.imgAt i).conts.find? (isMatch conts node) = some c →
    conts.cont.find? (isMatch conts node) = some g → sameEnd conts node id.text c g

/-- No PID of container or image matches and a PID on its own does: it has the
settings of container or image. -/
def Agrees (cont img : Option Nat) : Prop :=
  listedMatch conts node cont img = none →
    ∀ p, signatureMatch conts node (unrelated conts) = some p →
      settingsOf conts (conts.pidcAt p).toParm = levelSettings conts cont img

/-- Where a container or an image is found, no PID on its own says otherwise. -/
def NoneUnrelated : Prop :=
  let cont := conts.cont.find? (idMatch conts node)
  cont ≠ none ∨ imageMatch conts node ≠ none → Agrees conts node cont (imageOf conts node cont)

end Conditions

theorem find_some_bind {α β : Type} (search : α → Option β) (check : α → Bool)
    (agree : ∀ item, (search item).isSome = check item) (items : List α) :
    items.findSome? search = (items.find? check).bind search := by
  induction items with
  | nil => rfl
  | cons item rest ih =>
      rw [List.findSome?_cons, List.find?_cons, ← agree item]
      cases found : search item with
      | none => simpa using ih
      | some result => simp [found]

/-- Ids and flags of the containers after `duplicateOrRefreshContainer`. -/
structure Named (look : Lookup) (dlCont : Nat) (id : List Char) (after : Containers) : Prop where
  created : runtimeCont look.conts dlCont id = none →
    after.cont = look.conts.brk :: look.conts.cont ∧
      (after.contAt look.conts.brk).contid.map Str.text = some id
  list : ∀ r, runtimeCont look.conts dlCont id = some r → after.cont = look.conts.cont
  contid : ∀ r, runtimeCont look.conts dlCont id = some r →
    ∀ c, (after.contAt c).contid = (look.conts.contAt c).contid
  others : ∀ r, runtimeCont look.conts dlCont id = some r →
    ∀ c, c ≠ r → (after.contAt c).status = (look.conts.contAt c).status
  status : ∀ r, runtimeCont look.conts dlCont id = some r →
    (after.contAt r).status = (look.conts.contAt dlCont).status

theorem Named.keep {look : Lookup} {dlCont : Nat} {id : List Char} {before after : Containers}
    (named : Named look dlCont id before) (list : after.cont = before.cont)
    (same : ∀ c, (after.contAt c).contid = (before.contAt c).contid ∧
      (after.contAt c).status = (before.contAt c).status) : Named look dlCont id after where
  created := fun absent => by
    rw [list, (same _).1]
    exact named.created absent
  list := fun r found => list.trans (named.list r found)
  contid := fun r found c => (same c).1.trans (named.contid r found c)
  others := fun r found c apart => (same c).2.trans (named.others r found c apart)
  status := fun r found => (same r).2.trans (named.status r found)

theorem duplicate_named (look : Lookup) (dlCont : Nat) (id : List Char)
    (stored : Stored look.conts) (linked : Mutual look.conts) (member : dlCont ∈ look.conts.cont) :
    Named look dlCont id (duplicateOrRefreshContainer look dlCont id).1.conts := by
  apply duplicate_or_refresh_rule look dlCont id (Named look dlCont id) _ rfl
    (stored.cont dlCont member) (stored.contParm dlCont member)
    (ready_of_stored stored linked member)
  · intro filled entry writes fills
    constructor
    · intro absent
      rw [writes.cont, writes.contAt, absent, fill_cont_none absent, Function.update_self]
      exact ⟨rfl, (fills.created absent).2⟩
    · intro r found
      rw [writes.cont, found]
      rfl
    · intro r found c
      rw [writes.contAt, fill_cont_some found]
      by_cases this : c = r
      · rw [this, Function.update_self]
        exact (fills.refreshed r found).2
      · rw [Function.update_of_ne this]
    · intro r found c apart
      rw [writes.contAt, fill_cont_some found, Function.update_of_ne apart]
    · intro r found
      rw [writes.contAt, fill_cont_some found, Function.update_self]
      exact fills.copy.status
  · intro conts p _ named
    apply named.keep
    · rw [refresh_pid_eq]
    · intro c
      rw [refresh_pid_eq]
      exact ⟨rfl, rfl⟩
  · intro conts p entry _ adds _ _ _ _ named
    apply named.keep adds.cont
    intro c
    rw [adds.contAt]
    exact ⟨(with_member_rest _ _ _ _).2.1, congrArg Parm.status (with_member_rest _ _ _ _).2.2⟩

section Search
variable {look : Lookup} {id : Str}

theorem check_match (named : look.node.contid = some id) (c : Nat) :
    checkContainerMatch look c =
      if idMatch look.conts look.node c then some (look, c)
      else if nameMatch look.conts look.node c then
        some (duplicateOrRefreshContainer look c id.text)
      else none := by
  rw [checkContainerMatch, idMatch, nameMatch, named]
  cases (look.conts.contAt c).contid with
  | none => rfl
  | some contid => simp

theorem check_match_some (named : look.node.contid = some id) (c : Nat) :
    (checkContainerMatch look c).isSome = isMatch look.conts look.node c := by
  rw [check_match named, isMatch]
  cases idMatch look.conts look.node c <;> cases nameMatch look.conts look.node c <;> rfl

/-- The container a match ends at: itself, or the one with the id. -/
theorem search_containers (named : look.node.contid = some id) (conts : List Nat) :
    conts.findSome? (checkContainerMatch look) =
      (conts.find? (isMatch look.conts look.node)).map fun c =>
        if idMatch look.conts look.node c then (look, c)
        else duplicateOrRefreshContainer look c id.text := by
  rw [find_some_bind _ _ (check_match_some named)]
  cases found : conts.find? (isMatch look.conts look.node) with
  | none => rfl
  | some c =>
      have holds := List.find?_some found
      rw [Option.bind_some, check_match named, Option.map_some]
      rw [isMatch, Bool.or_eq_true] at holds
      by_cases byId : idMatch look.conts look.node c = true
      · rw [if_pos byId, if_pos byId]
      · rw [if_neg byId, if_neg byId, if_pos (holds.resolve_left byId)]

theorem duplicate_result (look : Lookup) (id : Str) (c : Nat) :
    (duplicateOrRefreshContainer look c id.text).2 =
      (runtimeCont look.conts c id.text).getD look.conts.brk := by
  rw [duplicate_or_refresh_cont]
  cases search : runtimeCont look.conts c id.text with
  | none => exact fill_cont_none search
  | some r => exact fill_cont_some search

theorem id_match_same {before after : Containers} (node : Node)
    (contid : ∀ c, (after.contAt c).contid = (before.contAt c).contid) :
    idMatch after node = idMatch before node ∧ isMatch after node = isMatch before node := by
  constructor
  · funext c
    rw [idMatch, idMatch, contid c]
  · funext c
    rw [isMatch, isMatch, idMatch, idMatch, nameMatch, nameMatch, contid c]

theorem id_match_same_id (named : look.node.contid = some id) (c : Nat) :
    idMatch look.conts look.node c =
      (look.conts.contAt c).contid.any fun contid => sameId contid.text id.text := by
  rw [idMatch, named]
  cases (look.conts.contAt c).contid <;> rfl

/-- Where the search in the list ends. -/
theorem search_list_from (look next : Lookup) {id : Str} {g : Nat}
    (named : next.node.contid = some id)
    (ends : next = ((searchImage look).map Prod.fst).getD look)
    (first : next.conts.cont.find? (isMatch next.conts next.node) = some g) :
    matchedContainer look = some (if idMatch next.conts next.node g then g
      else (runtimeCont next.conts g id.text).getD next.conts.brk) := by
  rw [matchedContainer, searchList, ← ends]
  rw [search_containers named, first, Option.map_some, Option.map_some]
  split_ifs
  · rfl
  · rw [duplicate_result]

/-- The container a second refresh finds: the first one again while it is marked as
created at runtime, else the next one with the id. -/
theorem runtime_cont_refreshed (stored : Stored look.conts) (linked : Mutual look.conts)
    (named : look.node.contid = some id) {c g r : Nat} (member : c ∈ look.conts.cont)
    (notC : ¬ idMatch look.conts look.node c = true) (notG : ¬ idMatch look.conts look.node g = true)
    (found : runtimeCont look.conts c id.text = some r) :
    runtimeCont (duplicateOrRefreshContainer look c id.text).1.conts g id.text =
      if (look.conts.contAt c).status.ccrt then some r else runtimeCont look.conts r id.text := by
  have names := duplicate_named look c id.text stored linked member
  have byId : ∀ x, ((look.conts.contAt x).contid.any fun contid => sameId contid.text id.text) =
      idMatch look.conts look.node x := fun x => (id_match_same_id named x).symm
  generalize (duplicateOrRefreshContainer look c id.text).1.conts = after at names ⊢
  -- both searches ask the same of every container
  have agree : ∀ d, (∀ x, idMatch look.conts look.node x = true →
      (x != d && (look.conts.contAt x).status.ccrt) = (after.contAt x).status.ccrt) →
      runtimeCont after g id.text = runtimeCont look.conts d id.text := by
    intro d same
    rw [runtimeCont, runtimeCont, names.list r found]
    congr 1
    funext x
    rw [names.contid r found x, byId x]
    by_cases hit : idMatch look.conts look.node x = true
    · have apart : (x != g) = true := bne_iff_ne.mpr fun this => notG (this ▸ hit)
      rw [apart, Bool.true_and, ← same x hit]
    · simp [hit]
  cases runtime : (look.conts.contAt c).status.ccrt with
  | true =>
      rw [if_pos rfl, agree c, found]
      intro x hit
      have apart : (x != c) = true := bne_iff_ne.mpr fun this => notC (this ▸ hit)
      rw [apart, Bool.true_and]
      by_cases this : x = r
      · rw [this, names.status r found, runtime, (runtime_cont_some found).2.2.1]
      · rw [names.others r found x this]
  | false =>
      rw [if_neg (by simp)]
      apply agree r
      intro x _
      by_cases this : x = r
      · rw [this, names.status r found, runtime]
        simp
      · rw [names.others r found x this, bne_iff_ne.mpr this, Bool.true_and]

/-- A second refresh ends at the same container only if that is still marked as
created at runtime. -/
theorem refresh_again (stored : Stored look.conts) (linked : Mutual look.conts)
    (named : look.node.contid = some id) {c g r : Nat} (member : c ∈ look.conts.cont)
    (notC : ¬ idMatch look.conts look.node c = true) (notG : ¬ idMatch look.conts look.node g = true)
    (found : runtimeCont look.conts c id.text = some r) :
    (runtimeCont (duplicateOrRefreshContainer look c id.text).1.conts g id.text).getD
        (duplicateOrRefreshContainer look c id.text).1.conts.brk = r ↔
      (look.conts.contAt c).status.ccrt = true := by
  have grows := duplicate_grows look c id.text (stored.cont c member) (stored.contParm c member)
    (ready_of_stored stored linked member)
  have old := stored.cont r (runtime_cont_some found).1
  rw [runtime_cont_refreshed stored linked named member notC notG found]
  split_ifs with runtime
  · exact ⟨fun _ => runtime, fun _ => rfl⟩
  · refine ⟨fun ends => ?_, fun created => absurd created runtime⟩
    cases again : runtimeCont look.conts r id.text with
    | none =>
        rw [again, Option.getD_none] at ends
        have later := grows.brk
        omega
    | some x =>
        rw [again, Option.getD_some] at ends
        exact absurd ends (runtime_cont_some again).2.1

/-- The container has the id already: nothing is created on the way. -/
theorem by_id_iff (stored : Stored look.conts) (named : look.node.contid = some id) {c g : Nat}
    (member : c ∈ look.conts.cont) (search : searchImage look = some (look, c))
    (byId : idMatch look.conts look.node c = true)
    (listed : look.conts.cont.find? (isMatch look.conts look.node) = some g) :
    matchedContainer look = some c ↔ sameEnd look.conts look.node id.text c g := by
  rw [search_list_from look look named (by rw [search]; rfl) listed, sameEnd, if_pos byId,
    Option.some_inj]
  by_cases gId : idMatch look.conts look.node g = true
  · rw [if_pos gId, if_pos gId]
  · rw [if_neg gId, if_neg gId]
    cases runtime : runtimeCont look.conts g id.text with
    | none =>
        rw [Option.getD_none]
        exact ⟨fun new => absurd new.symm (Nat.ne_of_lt (stored.cont c member)), nofun⟩
    | some r => rw [Option.getD_some, Option.some_inj]

/-- A container created on the way leads the list and has the id. -/
theorem created_leads (stored : Stored look.conts) (linked : Mutual look.conts)
    (named : look.node.contid = some id) {c : Nat} (member : c ∈ look.conts.cont)
    (none : runtimeCont look.conts c id.text = none) :
    idMatch (duplicateOrRefreshContainer look c id.text).1.conts
        (duplicateOrRefreshContainer look c id.text).1.node look.conts.brk = true ∧
      (duplicateOrRefreshContainer look c id.text).1.conts.cont.find?
        (isMatch (duplicateOrRefreshContainer look c id.text).1.conts
          (duplicateOrRefreshContainer look c id.text).1.node) = some look.conts.brk := by
  have kept := duplicate_or_refresh_node look c id.text
  obtain ⟨list, contid⟩ := (duplicate_named look c id.text stored linked member).created none
  obtain ⟨contid, own, text⟩ := Option.map_eq_some_iff.mp contid
  have newId : idMatch (duplicateOrRefreshContainer look c id.text).1.conts
      (duplicateOrRefreshContainer look c id.text).1.node look.conts.brk = true := by
    rw [idMatch, kept, named, own]
    change sameId contid.text id.text = true
    rw [text]
    simp [sameId]
  refine ⟨newId, ?_⟩
  rw [list, List.find?_cons_of_pos]
  rw [isMatch, newId, Bool.true_or]

theorem created_matched (stored : Stored look.conts) (linked : Mutual look.conts)
    (named : look.node.contid = some id) {c : Nat} (member : c ∈ look.conts.cont)
    (search : searchImage look = some (duplicateOrRefreshContainer look c id.text))
    (none : runtimeCont look.conts c id.text = none) :
    matchedContainer look = some look.conts.brk := by
  obtain ⟨newId, leads⟩ := created_leads stored linked named member none
  rw [search_list_from look (duplicateOrRefreshContainer look c id.text).1
    (by rw [duplicate_or_refresh_node look c id.text]; exact named) (by rw [search]; rfl) leads,
    if_pos newId]

/-- A container refreshed on the way changes no match; the list ends at it under a
condition on its first match. -/
theorem refreshed_iff (stored : Stored look.conts) (linked : Mutual look.conts)
    (named : look.node.contid = some id) {c g r : Nat} (member : c ∈ look.conts.cont)
    (search : searchImage look = some (duplicateOrRefreshContainer look c id.text))
    (byName : ¬ idMatch look.conts look.node c = true)
    (listed : look.conts.cont.find? (isMatch look.conts look.node) = some g)
    (runtime : runtimeCont look.conts c id.text = some r) :
    matchedContainer look = some r ↔ sameEnd look.conts look.node id.text c g := by
  have kept := duplicate_or_refresh_node look c id.text
  have names := duplicate_named look c id.text stored linked member
  obtain ⟨sameById, sameMatch⟩ := id_match_same look.node (names.contid r runtime)
  have leads : (duplicateOrRefreshContainer look c id.text).1.conts.cont.find?
      (isMatch (duplicateOrRefreshContainer look c id.text).1.conts
        (duplicateOrRefreshContainer look c id.text).1.node) = some g := by
    rw [kept, sameMatch, names.list r runtime]
    exact listed
  have condition : sameEnd look.conts look.node id.text c g ↔
      if idMatch look.conts look.node g then g = r else (look.conts.contAt c).status.ccrt := by
    rw [sameEnd, if_neg byName]
    constructor
    · intro holds
      exact holds r runtime
    · intro holds r' found
      rw [runtime] at found
      cases found
      exact holds
  rw [condition, search_list_from look (duplicateOrRefreshContainer look c id.text).1
    (by rw [kept]; exact named) (by rw [search]; rfl) leads, kept, sameById, Option.some_inj]
  by_cases gId : idMatch look.conts look.node g = true
  · rw [if_pos gId, if_pos gId]
  · rw [if_neg gId, if_neg gId]
    exact refresh_again stored linked named member byName gId runtime

/-- The condition on what the two searches find. -/
theorem image_first_iff {i c g : Nat} (image : imageMatch look.conts look.node = some i)
    (named : look.node.contid = some id)
    (first : (look.conts.imgAt i).conts.find? (isMatch look.conts look.node) = some c)
    (listed : look.conts.cont.find? (isMatch look.conts look.node) = some g) :
    ImageFirst look.conts look.node ↔ sameEnd look.conts look.node id.text c g := by
  constructor
  · intro holds
    exact holds i id c g image named first listed
  · intro ends i' id' c' g' image' named' first' listed'
    rw [image] at image'
    cases image'
    rw [named] at named'
    cases named'
    rw [first] at first'
    cases first'
    rw [listed] at listed'
    cases listed'
    exact ends

theorem forall_found {look : Lookup} {found : Lookup × Nat} (search : searchImage look = some found)
    (holds : Nat → Prop) :
    (∀ next c, searchImage look = some (next, c) → holds c) ↔ holds found.2 := by
  rw [search]
  constructor
  · intro all
    exact all found.1 found.2 rfl
  · intro one next c' same
    cases same
    exact one

/-- The container of the image is the matched one under the condition. -/
theorem container_iff (stored : Stored look.conts) (linked : Mutual look.conts)
    (named : look.node.contid = some id) :
    (∀ next c, searchImage look = some (next, c) → matchedContainer look = some c) ↔
      ImageFirst look.conts look.node := by
  cases image : imageMatch look.conts look.node with
  | none =>
      constructor
      · intro _ i _ c g other
        rw [image] at other
        cases other
      · intro _ next c search
        rw [searchImage, image] at search
        cases search
  | some i =>
      have known : i ∈ look.conts.img := List.mem_of_find?_eq_some image
      have search : searchImage look = ((look.conts.imgAt i).conts.find?
          (isMatch look.conts look.node)).map fun c =>
            if idMatch look.conts look.node c then (look, c)
            else duplicateOrRefreshContainer look c id.text := by
        rw [searchImage, image, Option.bind_some, search_containers named]
      cases first : (look.conts.imgAt i).conts.find? (isMatch look.conts look.node) with
      | none =>
          rw [first] at search
          constructor
          · intro _ i' _ c g other _ found
            rw [image] at other
            cases other
            rw [first] at found
            cases found
          · intro _ next c found
            rw [search] at found
            cases found
      | some c =>
          have member := ((linked.imgConts i known c).mp (List.mem_of_find?_eq_some first)).1
          obtain ⟨g, listed⟩ : ∃ g, look.conts.cont.find? (isMatch look.conts look.node) = some g := by
            apply Option.isSome_iff_exists.mp
            rw [List.find?_isSome]
            exact ⟨c, member, List.find?_some first⟩
          rw [image_first_iff image named first listed]
          rw [first, Option.map_some] at search
          by_cases byId : idMatch look.conts look.node c = true
          · rw [if_pos byId] at search
            rw [forall_found search fun c => matchedContainer look = some c]
            exact by_id_iff stored named member search byId listed
          · rw [if_neg byId] at search
            rw [forall_found search fun c => matchedContainer look = some c, duplicate_result]
            cases runtime : runtimeCont look.conts c id.text with
            | none =>
                have created := created_matched stored linked named member search runtime
                rw [Option.getD_none, sameEnd, if_neg byId]
                refine ⟨fun _ r other => ?_, fun _ => created⟩
                rw [runtime] at other
                cases other
            | some r =>
                rw [Option.getD_some]
                exact refreshed_iff stored linked named member search byId listed runtime

end Search

theorem find_pid_parameters_search (look : Lookup) :
    findPidParameters look =
      let next := ((searchImage look).map Prod.fst).getD look
      match searchList look, imageMatch look.conts look.node with
      | some (found, cont), img => .ok (findInContainer found img cont false, true)
      | none, some i => do
          let (conts, cont) ← contFromImg next.conts next.node i
          pure (findInContainer { next with conts := conts } (some i) cont true, true)
      | none, none =>
          if next.node.pid = 0 then .ok (next, false) else .ok (findUnrelated next) := by
  rw [findPidParameters, searchList, searchImage]
  cases imageMatch look.conts look.node <;> rfl

section Settings

theorem settings_grows {before after : Containers} (grows : Grows before after) (parm : Parm)
    (below : Below before.brk parm) : settingsOf after parm = settingsOf before parm := by
  rw [settingsOf, settingsOf, grows.attrAt _ below.1, grows.rscsAt _ below.2]

theorem with_mask_idem (rscs : SchedRscs) : withMask (withMask rscs) = withMask rscs := rfl

theorem settings_copy {before after : Containers} (grows : Grows before after)
    {source result : Parm} (copy : CopyOf before after source result)
    (below : Below before.brk source) :
    settingsOf after result = settingsOf before source := by
  rw [settingsOf, settingsOf]
  congr 1
  · cases shared : source.status.shat with
    | true => rw [copy.sharedAttr shared, grows.attrAt _ below.1]
    | false => exact (copy.newAttr shared).2.2
  · cases shared : source.status.shrc with
    | true => rw [copy.sharedRscs shared, grows.rscsAt _ below.2]
    | false => rw [(copy.newRscs shared).2.2, with_mask_idem]

theorem signature_append (conts : Containers) (node : Node) (first second : List Nat) :
    signatureMatch conts node (first ++ second) =
      (signatureMatch conts node first).or (signatureMatch conts node second) := by
  rw [signatureMatch, List.find?_append]
  rfl

theorem signature_mem {conts : Containers} {node : Node} {pids : List Nat} {p : Nat}
    (found : signatureMatch conts node pids = some p) : p ∈ pids :=
  List.mem_of_find?_eq_some found

theorem signature_same {before after : Containers} (node : Node) {pids : List Nat}
    (same : ∀ p ∈ pids, after.pidcAt p = before.pidcAt p) :
    signatureMatch after node pids = signatureMatch before node pids := by
  rw [signatureMatch, signatureMatch]
  apply List.find?_congr
  intro p member
  rw [same p member]

/-- A new PID configuration that shares the settings of its container. -/
theorem pid_from_cont_settings {conts : Containers} {c : Nat}
    (below : Below conts.brk (conts.contAt c).toParm) :
    settingsOf (pidFromCont conts c).1
        ((pidFromCont conts c).1.pidcAt (pidFromCont conts c).2).toParm =
      settingsOf conts (conts.contAt c).toParm := by
  obtain ⟨new, adds⟩ := pid_from_cont_adds conts c
  rw [new, adds.pidcAt, Function.update_self]
  exact settings_grows adds.grows (conts.contAt c).toParm below

variable {look : Lookup} {id sig : Str}

theorem unrelated_listed {conts : Containers} {p : Nat} (member : p ∈ unrelated conts) :
    p ∈ conts.pids :=
  List.mem_of_mem_filter member

theorem find_unrelated_match (look : Lookup) :
    findUnrelated look =
      match signatureMatch look.conts look.node (unrelated look.conts) with
      | none => groupUnrelated look none
      | some p =>
          groupUnrelated
            { look with
              conts := (pidFromPid look.conts p).1
              node := { look.node with param := some (pidFromPid look.conts p).2 } } (some p) := rfl

theorem group_unrelated_named (look : Lookup) {id sig : Str} (named : look.node.contid = some id)
    (signed : look.node.psig = some sig) (curr : Option Nat) :
    groupUnrelated look curr =
      ({ look with
        conts := (groupPid look.conts look.node id curr).1
        node := (groupPid look.conts look.node id curr).2 }, true) := by
  rw [groupUnrelated, named, signed]

/-- Without container and image the settings are those of a PID on its own, or
the defaults. -/
theorem find_unrelated_settings (stored : Stored look.conts) (named : look.node.contid = some id)
    (signed : look.node.psig = some sig) :
    ∃ found p, findUnrelated look = (found, true) ∧ found.node.param = some p ∧
      settingsOf found.conts (found.conts.pidcAt p).toParm =
        expectedSettings look.conts look.node none none := by
  have listed : listedMatch look.conts look.node none none = none := rfl
  rw [find_unrelated_match, expectedSettings, listed, Option.none_or]
  cases search : signatureMatch look.conts look.node (unrelated look.conts) with
  | none =>
      refine ⟨_, look.conts.brk + 1, group_unrelated_named look named signed none, ?_, ?_⟩
      · rw [group_pid_new]
      · rw [group_pid_new]
        simp only [Function.update_self]
        rfl
  | some p =>
      have member := unrelated_listed (signature_mem search)
      have below := stored.pidcParm p member
      obtain ⟨new, parm, psig, adds, copy⟩ := pid_from_pid_adds look.conts p
        (stored.pids p member) below
      refine ⟨_, (pidFromPid look.conts p).2, group_unrelated_named
        { look with
          conts := (pidFromPid look.conts p).1
          node := { look.node with param := some (pidFromPid look.conts p).2 } }
        named signed (some p), ?_, ?_⟩
      · rw [group_pid_found _ _ _ (pidFromPid look.conts p).2 rfl]
      · rw [group_pid_found _ _ _ (pidFromPid look.conts p).2 rfl]
        simp only [Function.update_self]
        rw [new, adds.pidcAt, Function.update_self]
        have same := settings_copy adds.grows copy below
        exact same

/-- For a task the searches have no effect and match by id. -/
theorem task_search (task : look.node.pid ≠ 0) :
    ((searchImage look).map Prod.fst).getD look = look ∧
      searchList look = (look.conts.cont.find? (idMatch look.conts look.node)).map fun c =>
        (look, c) := by
  have single : ∀ c, checkContainerMatch look c =
      if idMatch look.conts look.node c then some (look, c) else none := by
    intro c
    rw [checkContainerMatch, idMatch]
    cases (look.conts.contAt c).contid with
    | none => rfl
    | some contid =>
        cases look.node.contid with
        | none => rfl
        | some id => simp [task]
  have next : ((searchImage look).map Prod.fst).getD look = look := by
    cases search : searchImage look with
    | none => rfl
    | some pair =>
        obtain ⟨i, _, found⟩ := Option.bind_eq_some_iff.mp search
        exact (container_match_task task found).1
  refine ⟨next, ?_⟩
  rw [searchList, next, find_some_bind _ (idMatch look.conts look.node)]
  · cases found : look.conts.cont.find? (idMatch look.conts look.node) with
    | none => rfl
    | some c =>
        have hit := List.find?_some found
        rw [Option.bind_some, single, if_pos hit]
        rfl
  · intro c
    rw [single]
    split_ifs with hit
    · rw [hit]
      rfl
    · simp [hit]

theorem task_container (task : look.node.pid ≠ 0) :
    matchedContainer look = look.conts.cont.find? (idMatch look.conts look.node) := by
  rw [matchedContainer, (task_search task).2, Option.map_map]
  cases look.conts.cont.find? (idMatch look.conts look.node) <;> rfl

/-- A listed PID configuration is what the hierarchy asks for, the settings of
the level are so if nothing on its own says otherwise. -/
theorem expected_iff (conts : Containers) (node : Node) (cont img : Option Nat)
    (result : SchedAttr × SchedRscs)
    (listed : ∀ p, listedMatch conts node cont img = some p →
      result = settingsOf conts (conts.pidcAt p).toParm)
    (level : listedMatch conts node cont img = none → result = levelSettings conts cont img) :
    result = expectedSettings conts node cont img ↔ Agrees conts node cont img := by
  rw [expectedSettings, Agrees]
  cases search : listedMatch conts node cont img with
  | some p =>
      rw [Option.some_or]
      exact ⟨fun _ none => (by cases none), fun _ => listed p search⟩
  | none =>
      rw [Option.none_or, level search]
      cases own : signatureMatch conts node (unrelated conts) with
      | none => exact ⟨fun _ _ p found => (by cases found), fun _ => rfl⟩
      | some p =>
          constructor
          · intro same _ q found
            cases found
            exact same.symm
          · intro agrees
            exact (agrees rfl p rfl).symm

/-- The settings of a task whose container was found. -/
theorem in_container_settings (stored : Stored look.conts) (task : look.node.pid ≠ 0)
    (img : Option Nat) {c : Nat} (member : c ∈ look.conts.cont) :
    ∃ p, (findInContainer look img c false).node.param = some p ∧
      (settingsOf (findInContainer look img c false).conts
          ((findInContainer look img c false).conts.pidcAt p).toParm =
        expectedSettings look.conts look.node (some c) (img.or (look.conts.contAt c).img) ↔
      Agrees look.conts look.node (some c) (img.or (look.conts.contAt c).img)) := by
  have lists : listedMatch look.conts look.node (some c) (img.or (look.conts.contAt c).img) =
      signatureMatch look.conts look.node ((look.conts.contAt c).pids ++
        imgPids look.conts (img.or (look.conts.contAt c).img)) := by
    rw [signature_append]
    rfl
  simp only [findInContainer, if_neg task, Bool.false_eq_true, if_false]
  cases search : signatureMatch look.conts look.node ((look.conts.contAt c).pids ++
      imgPids look.conts (img.or (look.conts.contAt c).img)) with
  | some p =>
      refine ⟨p, rfl, expected_iff _ _ _ _ _ ?_ ?_⟩
      · intro q found
        rw [lists, search] at found
        cases found
        rfl
      · intro none
        rw [lists, search] at none
        cases none
  | none =>
      refine ⟨_, rfl, expected_iff _ _ _ _ _ ?_ ?_⟩
      · intro q found
        rw [lists, search] at found
        cases found
      · intro _
        exact pid_from_cont_settings (stored.contParm c member)

/-- The settings of a task whose image was found, in a container made for it. -/
theorem from_img_settings (stored : Stored look.conts) (linked : Mutual look.conts)
    (task : look.node.pid ≠ 0) (named : look.node.contid = some id) {i : Nat}
    (known : i ∈ look.conts.img) :
    ∃ conts c p, contFromImg look.conts look.node i = .ok (conts, c) ∧
      (findInContainer { look with conts := conts } (some i) c true).node.param = some p ∧
      (settingsOf (findInContainer { look with conts := conts } (some i) c true).conts
          ((findInContainer { look with conts := conts } (some i) c true).conts.pidcAt p).toParm =
        expectedSettings look.conts look.node none (some i) ↔
      Agrees look.conts look.node none (some i)) := by
  obtain ⟨conts, c, run⟩ : ∃ conts c, contFromImg look.conts look.node i = .ok (conts, c) := by
    rw [contFromImg, named]
    exact ⟨_, _, rfl⟩
  obtain ⟨loc, writes⟩ := cont_from_img_writes named run
  have members : (conts.imgAt i).pids = (look.conts.imgAt i).pids := by
    rw [writes.imgAt]
    simp [withCont]
  have ready : ∀ p ∈ (look.conts.imgAt i).pids, Below look.conts.brk (look.conts.pidcAt p).toParm :=
    fun p inside => stored.pidcParm p ((linked.imgPids i known p).mp inside).1
  have lists : listedMatch look.conts look.node none (some i) =
      signatureMatch look.conts look.node (look.conts.imgAt i).pids := rfl
  have both : signatureMatch conts look.node ((conts.imgAt i).pids ++ (conts.imgAt i).pids) =
      listedMatch look.conts look.node none (some i) := by
    rw [signature_append, Option.or_self, lists, members]
    exact signature_same look.node fun p _ => by rw [writes.pidcAt]
  refine ⟨conts, c, ?_⟩
  simp only [findInContainer, if_neg task, imgPids, Option.some_or, if_true, both]
  cases search : listedMatch look.conts look.node none (some i) with
  | some p =>
      refine ⟨p, run, rfl, expected_iff _ _ _ _ _ ?_ ?_⟩
      · intro q found
        rw [search] at found
        cases found
        rw [lists] at search
        dsimp only
        rw [writes.pidcAt]
        exact settings_grows writes.grows _ (ready p (signature_mem search))
      · intro none
        rw [search] at none
        cases none
  | none =>
      refine ⟨_, run, rfl, expected_iff _ _ _ _ _ ?_ ?_⟩
      · intro q found
        rw [search] at found
        cases found
      · intro _
        have own : (conts.contAt c).toParm = { status := { shat := true, shrc := true }
                                               attr := (look.conts.imgAt i).attr
                                               rscs := (look.conts.imgAt i).rscs } := by
          rw [writes.contAt, Function.update_self]
        have below := stored.imgParm i known
        have inside : Below conts.brk (conts.contAt c).toParm := by
          rw [own]
          exact below.mono writes.grows.brk
        have same := pid_from_cont_settings inside
        dsimp only
        rw [same, own]
        exact settings_grows writes.grows (look.conts.imgAt i).toParm below

end Settings

section Hierarchy
variable {look : Lookup} {id sig : Str}

theorem check_match_node {c r : Nat} {found : Lookup}
    (hit : checkContainerMatch look c = some (found, r)) : found.node = look.node := by
  rw [checkContainerMatch] at hit
  split at hit
  · split_ifs at hit
    · rw [(Prod.mk.inj (Option.some.inj hit)).1]
    · rw [← (Prod.mk.inj (Option.some.inj hit)).1]
  · cases hit

theorem search_list_node {c : Nat} {found : Lookup} (search : searchList look = some (found, c)) :
    found.node = look.node := by
  have first : (((searchImage look).map Prod.fst).getD look).node = look.node := by
    cases image : searchImage look with
    | none => rfl
    | some pair =>
        obtain ⟨i, _, hit⟩ := Option.bind_eq_some_iff.mp image
        obtain ⟨member, _, single⟩ := List.exists_of_findSome?_eq_some hit
        exact check_match_node single
  obtain ⟨member, _, single⟩ := List.exists_of_findSome?_eq_some search
  exact (check_match_node single).trans first

/-- A docker-link node is linked to the matched container. -/
theorem reported_container (event : look.node.pid = 0) {c : Nat}
    (matched : matchedContainer look = some c) :
    ∃ found, findPidParameters look = .ok (found, true) ∧
      contOf found.conts found.node = some (.cont c) := by
  obtain ⟨⟨found, last⟩, search, same⟩ := Option.map_eq_some_iff.mp matched
  cases same
  have node := search_list_node search
  refine ⟨findInContainer found (imageMatch look.conts look.node) last false, ?_, ?_⟩
  · rw [find_pid_parameters_search]
    dsimp only
    rw [search]
  · have idle : found.node.pid = 0 := by rw [node, event]
    simp [findInContainer, idle, contOf, Containers.setPidc]

theorem settings_iff (look : Lookup) (stored : Stored look.conts) (linked : Mutual look.conts)
    (task : look.node.pid ≠ 0) (named : look.node.contid = some id)
    (signed : look.node.psig = some sig) :
    (∃ found p, findPidParameters look = .ok (found, true) ∧ found.node.param = some p ∧
      settingsOf found.conts (found.conts.pidcAt p).toParm =
        expectedSettings look.conts look.node (matchedContainer look)
          (imageOf look.conts look.node (matchedContainer look))) ↔
      NoneUnrelated look.conts look.node := by
  obtain ⟨next, search⟩ := task_search task
  rw [find_pid_parameters_search, next, search, task_container task, NoneUnrelated]
  dsimp only
  cases list : look.conts.cont.find? (idMatch look.conts look.node) with
  | some c =>
      have member := List.mem_of_find?_eq_some list
      obtain ⟨p, param, iff⟩ := in_container_settings stored task
        (imageMatch look.conts look.node) member
      constructor
      · rintro ⟨found, q, run, assigned, same⟩ _
        cases run
        rw [param] at assigned
        cases assigned
        exact iff.mp same
      · intro agrees
        exact ⟨_, p, rfl, param, iff.mpr (agrees (Or.inl (by simp)))⟩
  | none =>
      cases image : imageMatch look.conts look.node with
      | some i =>
          obtain ⟨conts, c, p, run, param, iff⟩ := from_img_settings stored linked task named
            (List.mem_of_find?_eq_some image)
          have level : imageOf look.conts look.node none = some i := by rw [imageOf, image]; rfl
          rw [Option.map_none, level]
          dsimp only
          rw [run]
          constructor
          · rintro ⟨found, q, ends, assigned, same⟩ _
            cases ends
            rw [param] at assigned
            cases assigned
            exact iff.mp same
          · intro agrees
            exact ⟨_, p, rfl, param, iff.mpr (agrees (Or.inr (by simp)))⟩
      | none =>
          have level : imageOf look.conts look.node none = none := by rw [imageOf, image]; rfl
          rw [Option.map_none, level]
          dsimp only
          rw [if_neg task]
          constructor
          · rintro _ (found | found)
            · exact absurd rfl found
            · exact absurd rfl found
          · intro _
            obtain ⟨found, p, run, param, same⟩ := find_unrelated_settings stored named signed
            exact ⟨found, p, by rw [run], param, same⟩

/-- For every linked configuration and every node with id and signature, tasks
and docker-link events, the lookup keeps to the documented hierarchy if and only
if the list of containers does not lead away from the image and no PID on its
own is passed over. -/
theorem lookup_hierarchy_iff (stored : Stored look.conts) (linked : Mutual look.conts)
    (named : look.node.contid = some id) (signed : look.node.psig = some sig) :
    Hierarchical look ↔ ImageFirst look.conts look.node ∧
      (look.node.pid ≠ 0 → NoneUnrelated look.conts look.node) := by
  constructor
  · intro holds
    exact ⟨(container_iff stored linked named).mp holds.container,
      fun task => (settings_iff look stored linked task named signed).mp (holds.settings task)⟩
  · rintro ⟨imageFirst, noneUnrelated⟩
    exact ⟨(container_iff stored linked named).mpr imageFirst,
      fun event c matched => reported_container event matched,
      fun task => (settings_iff look stored linked task named signed).mpr (noneUnrelated task)⟩

end Hierarchy

/-- Image `web` with the container `a1` and its PID `loop`; all settings are shared. -/
def webConts : Containers where
  img := [1]
  cont := [2]
  pids := [3]
  attr := 4
  rscs := 5
  imgAt := fun _ => { imgid := some ⟨6, "web".toList⟩, conts := [2], attr := 4, rscs := 5 }
  contAt := fun _ =>
    { contid := some ⟨7, "a1".toList⟩, pids := [3], img := some 1, attr := 4, rscs := 5 }
  pidcAt := fun _ => { psig := some ⟨8, "loop".toList⟩, cont := some (.cont 2), attr := 4, rscs := 5 }
  brk := 9

/-- The PID `loop 1` of the container `a1b2` of the image. -/
def webTask : Node where
  loc := 1
  pid := 100
  psig := some ⟨20, "loop 1".toList⟩
  contid := some ⟨21, "a1b2".toList⟩
  imgid := some ⟨22, "web".toList⟩

theorem web_stored : Stored webConts := by
  constructor <;> simp [webConts, Below]

theorem web_linked : Mutual webConts := by
  constructor <;> simp [webConts]

theorem web_task_hierarchical : Hierarchical ⟨webConts, [], webTask⟩ := by
  have contid : webTask.contid = some ⟨21, "a1b2".toList⟩ := rfl
  have psig : webTask.psig = some ⟨20, "loop 1".toList⟩ := rfl
  refine (lookup_hierarchy_iff web_stored web_linked contid psig).mpr ⟨?_, fun _ _ none => ?_⟩
  · intro i id c g image named first listed
    have known : imageMatch webConts webTask = some 1 := by decide
    rw [known] at image
    cases image
    have inImage : ((webConts.imgAt 1).conts.find? (isMatch webConts webTask)) = some 2 := by decide
    have inList : webConts.cont.find? (isMatch webConts webTask) = some 2 := by decide
    rw [inImage] at first
    rw [inList] at listed
    cases first
    cases listed
    have byId : idMatch webConts webTask 2 = true := by decide
    simp [sameEnd, byId]
  · exact absurd none (by decide)

/-- A container `a1` in front of the image's `a1b2`. -/
def prefixConts : Containers where
  img := [1]
  cont := [3, 2]
  attr := 4
  rscs := 5
  imgAt := fun _ => { imgid := some ⟨6, "web".toList⟩, conts := [2], attr := 4, rscs := 5 }
  contAt := fun c =>
    if c = 2 then { contid := some ⟨7, "a1b2".toList⟩, img := some 1, attr := 4, rscs := 5 }
    else { contid := some ⟨8, "a1".toList⟩, attr := 4, rscs := 5 }
  brk := 9

/-- The container `a1` and a PID `loop` on its own with another priority. -/
def aloneConts : Containers where
  cont := [2]
  pids := [3]
  attr := 4
  rscs := 5
  contAt := fun _ => { contid := some ⟨6, "a1".toList⟩, attr := 4, rscs := 5 }
  pidcAt := fun _ => { psig := some ⟨7, "loop".toList⟩, attr := 8, rscs := 5 }
  attrAt := fun a => if a = 8 then { schedPolicy := schedFifo, schedPriority := 10 } else {}
  brk := 9

/-- The container of the image is lost behind another one, and a PID on its own
is not looked for once a container matches. -/
theorem hierarchy_left :
    (Stored prefixConts ∧ Mutual prefixConts ∧ ¬ Hierarchical ⟨prefixConts, [], webTask⟩) ∧
      Stored aloneConts ∧ Mutual aloneConts ∧ ¬ Hierarchical ⟨aloneConts, [], webTask⟩ := by
  have stored : Stored aloneConts := by constructor <;> simp [aloneConts, Below]
  have linked : Mutual aloneConts := by constructor <;> simp [aloneConts]
  refine ⟨⟨by constructor <;> simp [prefixConts, Below], ?_, fun holds => ?_⟩, stored, linked,
    fun holds => ?_⟩
  · constructor <;> simp [prefixConts]
    intro c
    constructor
    · rintro rfl
      simp
    · rintro ⟨rfl | rfl, image⟩
      · simp at image
      · rfl
  · have first := holds.container ⟨prefixConts, [], webTask⟩ 2 rfl
    exact absurd first (by decide)
  · have contid : webTask.contid = some ⟨21, "a1b2".toList⟩ := rfl
    have psig : webTask.psig = some ⟨20, "loop 1".toList⟩ := rfl
    have agrees := (settings_iff ⟨aloneConts, [], webTask⟩ stored linked (by decide)
      contid psig).mp (holds.settings (by decide))
    have same := agrees (Or.inl (by decide)) (by decide) 3 (by decide)
    exact absurd (congrArg (fun settings => settings.1.schedPriority) same) (by decide)

end Orchestrator.LookupHierarchy
