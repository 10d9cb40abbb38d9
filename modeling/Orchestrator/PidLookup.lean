import Mathlib.Data.List.Infix
import Orchestrator.Traversal
import Orchestrator.Orchdata

/-!
`findPidParameters` of `resmgnt.c`: the configuration of a detected task or
container, looked up by image, container and signature, or added if none is
found.
-/

namespace Orchestrator.PidLookup
open Orchdata Traversal

/-- `!strncmp(first, second, MIN(strlen(first), strlen(second)))`. -/
def sameId (first second : List Char) : Bool :=
  let shorter := min first.length second.length
  first.take shorter == second.take shorter

/-- `strstr` finds the part in the text. -/
def strstr (text part : List Char) : Bool := decide (part <:+: text)

/-- `contparm`, the other nodes of the list `nhead`, and the node in question. -/
structure Lookup where
  conts : Containers
  nhead : List Node
  node : Node

/-- `copyResourceConfigC` and `copyResourceConfigP`: what is shared stays
shared, everything else is duplicated. -/
def copyResourceConfigC (conts : Containers) (source : Parm) : Containers × Parm :=
  let (withAttr, attr) :=
    if source.status.shat then (conts, source.attr)
    else conts.newAttr (conts.attrAt source.attr)
  let (withRscs, rscs) :=
    if source.status.shrc then (withAttr, source.rscs)
    else
      let copy := withAttr.rscsAt source.rscs
      withAttr.newRscs { copy with affinityMask := some (copy.affinityMask.getD ∅) }
  (withRscs, { status := source.status, attr := attr, rscs := rscs })

/-- Push to `img->conts`. -/
def linkCont (conts : Containers) (i c : Nat) : Containers :=
  conts.setImg i { conts.imgAt i with conts := c :: (conts.imgAt i).conts }

/-- Push to `img->pids`, if there is an image. -/
def linkImgPid (conts : Containers) (img : Option Nat) (p : Nat) : Containers :=
  match img with
  | none => conts
  | some i => conts.setImg i { conts.imgAt i with pids := p :: (conts.imgAt i).pids }

/-- Push to `cont->pids`. -/
def linkContPid (conts : Containers) (c p : Nat) : Containers :=
  conts.setCont c { conts.contAt c with pids := p :: (conts.contAt c).pids }

/-- `node->param->cont`, if all of it is there. -/
def contOf (conts : Containers) (item : Node) : Option ContPtr :=
  item.param.bind fun p => (conts.pidcAt p).cont

/-- PIDs connected at runtime share the configuration of their container. -/
def refreshPid (c : Nat) (conts : Containers) (p : Nat) : Containers :=
  let cont := conts.contAt c
  let updated := conts.setPidc p
    { conts.pidcAt p with attr := cont.attr, rscs := cont.rscs, img := cont.img }
  linkImgPid updated cont.img p

/-- Duplicate of a PID configuration of the original container. -/
def duplicatePid (c : Nat) (conts : Containers) (p : Nat) : Containers :=
  let pushed := conts.pushPidc
  let new := conts.brk
  let linked := linkContPid pushed c new
  let (named, psig) := match (linked.pidcAt p).psig with
    | none => (linked, none)
    | some psig =>
        let (duplicated, text) := linked.strdup psig.text
        (duplicated, some text)
  let (copied, parm) := copyResourceConfigC named (named.pidcAt p).toParm
  let img := (copied.pidcAt p).img
  let stored := copied.setPidc new
    { toParm := parm, psig := psig, cont := some (.cont c), img := img }
  linkImgPid stored img new

/-- Container created at runtime under this id. Those have an id. -/
def runtimeCont (conts : Containers) (dlCont : Nat) (id : List Char) : Option Nat :=
  conts.cont.find? fun c =>
    c != dlCont && (conts.contAt c).status.ccrt &&
      (conts.contAt c).contid.any fun contid => sameId contid.text id

/-- `duplicateOrRefreshContainer`. -/
def duplicateOrRefreshContainer (look : Lookup) (dlCont : Nat) (id : List Char) : Lookup × Nat :=
  let (present, cont) := match runtimeCont look.conts dlCont id with
    | some cont => (look.conts, cont)
    | none =>
        let pushed := look.conts.pushCont
        let (duplicated, contid) := pushed.strdup id
        (duplicated.setCont look.conts.brk
          { duplicated.contAt look.conts.brk with contid := some contid }, look.conts.brk)
  let (copied, parm) := copyResourceConfigC present (present.contAt dlCont).toParm
  let img := (copied.contAt dlCont).img
  let filled := copied.setCont cont { copied.contAt cont with toParm := parm, img := img }
  let linked := match img with
    | none => filled
    | some i => linkCont filled i cont
  let refreshed := (linked.contAt cont).pids.foldl (refreshPid cont) linked
  let duplicated := (refreshed.contAt dlCont).pids.foldl (duplicatePid cont) refreshed
  ({ look with
    conts := duplicated
    nhead := look.nhead.map fun item =>
      if contOf duplicated item = some (.cont cont) then { item with status.upd := false }
      else item }, cont)

/-- `checkContainerMatch`: the container that matches, if this one does. -/
def checkContainerMatch (look : Lookup) (cont : Nat) : Option (Lookup × Nat) :=
  match (look.conts.contAt cont).contid, look.node.contid with
  | some contid, some id =>
      if sameId contid.text id.text then some (look, cont)
      -- by name: the signature of a node without PID is the name of the container
      else if look.node.pid = 0 ∧ look.node.psig.map Str.text = some contid.text then
        some (duplicateOrRefreshContainer look cont id.text)
      else none
  | _, _ => none

/-- First image whose id matches. -/
def imageMatch (conts : Containers) (node : Node) : Option Nat :=
  conts.img.find? fun i =>
    match (conts.imgAt i).imgid, node.imgid with
    | some imgid, some id => sameId imgid.text id.text
    | _, _ => false

/-- First of the PID configurations whose signature is part of the node's. -/
def signatureMatch (conts : Containers) (node : Node) (pids : List Nat) : Option Nat :=
  pids.find? fun p =>
    match (conts.pidcAt p).psig, node.psig with
    | some part, some text => strstr text.text part.text
    | _, _ => false

/-- A container for the settings of an image. -/
def contFromImg (conts : Containers) (node : Node) (i : Nat) : Except Stop (Containers × Nat) :=
  match node.contid with
  | none => .error .segv
  | some id =>
      let new := conts.brk
      let linked := linkCont conts.pushCont i new
      let (duplicated, contid) := linked.strdup id.text
      .ok (duplicated.setCont new
        { duplicated.contAt new with
          contid := some contid
          img := some i
          status.shat := true
          status.shrc := true
          rscs := (duplicated.imgAt i).rscs
          attr := (duplicated.imgAt i).attr }, new)

/-- Container created at runtime that gets the configuration of its image. -/
def adoptImg (conts : Containers) (i c : Nat) : Containers :=
  let linked := linkCont conts i c
  let old := (linked.contAt c).status
  let (copied, parm) := copyResourceConfigC linked (linked.imgAt i).toParm
  copied.setCont c
    { copied.contAt c with
      toParm := { parm with
        status := { parm.status with cfix := parm.status.cfix || old.cfix, ccrt := false } }
      img := some i }

/-- PID configuration with the settings of the container. -/
def pidFromCont (conts : Containers) (c : Nat) : Containers × Nat :=
  let new := conts.brk
  let linked := linkContPid conts.pushPidc c new
  ({ linked.setPidc new
      { status := { shat := true, shrc := true }
        rscs := (linked.contAt c).rscs
        attr := (linked.contAt c).attr
        cont := some (.cont c) } with
    nthreads := linked.nthreads + 1 }, new)

def imgPids (conts : Containers) : Option Nat → List Nat
  | none => []
  | some i => (conts.imgAt i).pids

/-- A container and maybe an image are found, `fromImg` if the container is new. -/
def findInContainer (look : Lookup) (img : Option Nat) (cont : Nat) (fromImg : Bool) : Lookup :=
  if look.node.pid = 0 then
    let updated := match img with
      | some i =>
          if (look.conts.contAt cont).status.ccrt then adoptImg look.conts i cont else look.conts
      | none => look.conts
    let fake : Pidc := { cont := some (.cont cont), img := img }
    { look with
      conts := { updated.setPidc updated.brk fake with brk := updated.brk + 1 }
      node := { look.node with param := some updated.brk } }
  else
    let parent := img.or (look.conts.contAt cont).img
    let first := if fromImg then imgPids look.conts img else (look.conts.contAt cont).pids
    let second := imgPids look.conts parent
    match signatureMatch look.conts look.node (first ++ second) with
    | some p => { look with node := { look.node with param := some p } }
    | none =>
        let (conts, p) := pidFromCont look.conts cont
        { look with conts := conts, node := { look.node with param := some p } }

/-- Duplicate of a PID configuration, none of it shared. -/
def pidFromPid (conts : Containers) (curr : Nat) : Containers × Nat :=
  let new := conts.brk
  let pushed := conts.pushPidc
  let (named, psig) := pushed.strdup (((pushed.pidcAt curr).psig.map Str.text).getD [])
  let source := (named.pidcAt curr).toParm
  let (copied, parm) := copyResourceConfigC named
    { source with status := { source.status with shat := false, shrc := false } }
  ({ copied.setPidc new { toParm := parm, psig := some psig } with
    nthreads := copied.nthreads + 1 }, new)

/-- The PID configuration to group: the one found, or a new one with the
settings of the container. -/
def groupMember (conts : Containers) (c : Nat) (node : Node) :
    Option Nat → Containers × Nat × Node
  | some curr =>
      (conts, curr, { node with psig := node.param.bind fun p => (conts.pidcAt p).psig })
  | none =>
      let new := conts.brk
      let created := conts.pushPidc
      ({ created.setPidc new
          { psig := node.psig
            status := { shat := true, shrc := true }
            rscs := (created.contAt c).rscs
            attr := (created.contAt c).attr } with
        nthreads := created.nthreads + 1 }, new, { node with param := some new })

/-- `node->param->cont = cont`. -/
def setParamCont (conts : Containers) (node : Node) (c : Nat) : Containers :=
  match node.param with
  | none => conts
  | some p => conts.setPidc p { conts.pidcAt p with cont := some (.cont c) }

/-- A container created at runtime to group the PID; `keep` is its id. -/
def groupPid (conts : Containers) (node : Node) (keep : Str) (curr : Option Nat) :
    Containers × Node :=
  let c := conts.brk
  let pushed := conts.pushCont
  let grouped := pushed.setCont c
    { contid := some keep
      status := { ccrt := true, shat := true, shrc := true }
      rscs := pushed.rscs
      attr := pushed.attr }
  let (filled, p, member) := groupMember grouped c node curr
  (setParamCont (linkContPid filled c p) member c, member)

/-- Groups a PID in a new container, if it has a container id and a signature. -/
def groupUnrelated (look : Lookup) (curr : Option Nat) : Lookup × Bool :=
  match look.node.contid, look.node.psig with
  | some id, some _ =>
      let (grouped, member) := groupPid look.conts look.node id curr
      ({ look with conts := grouped, node := member }, true)
  | _, _ => (look, curr.isSome)

/-- No container and no image are found: a search in the PID configurations that
belong to none. -/
def findUnrelated (look : Lookup) : Lookup × Bool :=
  let curr := signatureMatch look.conts look.node (look.conts.pids.filter fun p =>
    (look.conts.pidcAt p).cont.isNone && (look.conts.pidcAt p).img.isNone)
  match curr with
  | none => groupUnrelated look none
  | some p =>
      let (copied, new) := pidFromPid look.conts p
      groupUnrelated { look with conts := copied, node := { look.node with param := some new } }
        (some p)

/-- `findPidParameters`, with `true` for its return value 0. -/
def findPidParameters (look : Lookup) : Except Stop (Lookup × Bool) :=
  let img := imageMatch look.conts look.node
  -- a match in the image is forgotten, `cont` is reset before the search ends
  let look := match img with
    | none => look
    | some i => (((look.conts.imgAt i).conts.findSome? (checkContainerMatch look)).map
        Prod.fst).getD look
  match look.conts.cont.findSome? (checkContainerMatch look), img with
  | some (found, cont), img => .ok (findInContainer found img cont false, true)
  | none, some i => do
      let (conts, cont) ← contFromImg look.conts look.node i
      pure (findInContainer { look with conts := conts } (some i) cont true, true)
  | none, none =>
      if look.node.pid = 0 then .ok (look, false) else .ok (findUnrelated look)

/-- What the lookup of a task leaves: only the parameters and the signature of
the node change, and without a container id no container is assigned. -/
structure Assigned (look found : Lookup) (success : Bool) : Prop where
  nhead : found.nhead = look.nhead
  node : ∃ param psig, found.node = { look.node with param := param, psig := psig }
  param : success = true → found.node.param.isSome
  cont : success = true → look.node.contid = none → contOf found.conts found.node = none

section Tasks
variable {look : Lookup}

theorem check_container_match_task (task : look.node.pid ≠ 0) {cont c : Nat} {found : Lookup}
    (hit : checkContainerMatch look cont = some (found, c)) :
    found = look ∧ look.node.contid.isSome := by
  rw [checkContainerMatch] at hit
  split at hit
  · rename_i contid id own named
    split_ifs at hit with same renamed
    · obtain ⟨rfl, rfl⟩ := Prod.mk.inj (Option.some.inj hit)
      exact ⟨rfl, by simp [named]⟩
    · exact absurd renamed.1 task
  · cases hit

theorem container_match_task (task : look.node.pid ≠ 0) {conts : List Nat} {c : Nat}
    {found : Lookup} (hit : conts.findSome? (checkContainerMatch look) = some (found, c)) :
    found = look ∧ look.node.contid.isSome := by
  obtain ⟨cont, -, single⟩ := List.exists_of_findSome?_eq_some hit
  exact check_container_match_task task single

theorem image_match_none (conts : Containers) {node : Node} (plain : node.imgid = none) :
    imageMatch conts node = none := by
  rw [imageMatch, List.find?_eq_none]
  intro i _
  simp [plain]

theorem find_in_container_assigned (task : look.node.pid ≠ 0) (cont : Nat)
    (named : look.node.contid.isSome) :
    Assigned look (findInContainer look none cont false) true := by
  have unnamed : look.node.contid ≠ none := Option.isSome_iff_ne_none.mp named
  rw [findInContainer, if_neg task]
  dsimp only
  split
  · exact ⟨rfl, ⟨_, _, rfl⟩, fun _ => rfl, fun _ missing => absurd missing unnamed⟩
  · exact ⟨rfl, ⟨_, _, rfl⟩, fun _ => rfl, fun _ missing => absurd missing unnamed⟩

theorem group_pid_node (conts : Containers) {node : Node} (keep : Str) {curr : Option Nat}
    (both : curr.isSome → node.param.isSome) :
    ∃ param psig, (groupPid conts node keep curr).2 =
      { node with param := some param, psig := psig } := by
  cases curr with
  | none => exact ⟨_, _, rfl⟩
  | some curr =>
      obtain ⟨param, assigned⟩ := Option.isSome_iff_exists.mp (both rfl)
      refine ⟨param, (groupPid conts node keep (some curr)).2.psig, ?_⟩
      rw [← assigned]
      rfl

theorem pid_from_pid_cont (conts : Containers) (curr : Nat) :
    ((pidFromPid conts curr).1.pidcAt (pidFromPid conts curr).2).cont = none := by
  simp [pidFromPid, Containers.setPidc]

theorem group_unrelated_assigned (look : Lookup) {curr : Option Nat}
    (both : curr.isSome → look.node.param.isSome)
    (free : curr.isSome → contOf look.conts look.node = none) :
    Assigned look (groupUnrelated look curr).1 (groupUnrelated look curr).2 := by
  rw [groupUnrelated]
  split
  · rename_i id sig named signed
    obtain ⟨param, psig, same⟩ := group_pid_node look.conts id both
    refine ⟨rfl, ⟨some param, psig, same⟩, fun _ => ?_, fun _ missing => ?_⟩
    · simp [same]
    · rw [named] at missing
      cases missing
  · exact ⟨rfl, ⟨_, _, rfl⟩, both, fun found _ => free found⟩

theorem find_unrelated_assigned (look : Lookup) :
    Assigned look (findUnrelated look).1 (findUnrelated look).2 := by
  rw [findUnrelated]
  dsimp only
  split
  · exact group_unrelated_assigned look (fun found => by cases found) (fun found => by cases found)
  · rename_i p _
    obtain ⟨nhead, ⟨param, psig, node⟩, some_param, none_cont⟩ := group_unrelated_assigned
      { look with
        conts := (pidFromPid look.conts p).1
        node := { look.node with param := some (pidFromPid look.conts p).2 } }
      (fun _ => rfl) (fun _ => pid_from_pid_cont look.conts p)
    exact ⟨nhead, ⟨param, psig, node⟩, some_param, none_cont⟩

theorem find_pid_parameters_task (task : look.node.pid ≠ 0) (plain : look.node.imgid = none) :
    ∃ found success, findPidParameters look = .ok (found, success) ∧
      Assigned look found success := by
  rw [findPidParameters, image_match_none look.conts plain]
  dsimp only
  cases hit : look.conts.cont.findSome? (checkContainerMatch look) with
  | none =>
      dsimp only
      rw [if_neg task]
      exact ⟨_, _, rfl, find_unrelated_assigned look⟩
  | some pair =>
      obtain ⟨found, cont⟩ := pair
      obtain ⟨rfl, named⟩ := container_match_task task hit
      exact ⟨_, _, rfl, find_in_container_assigned task cont named⟩

end Tasks

end Orchestrator.PidLookup
