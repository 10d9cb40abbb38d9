import Orchestrator.SecondRefresh

/-!
A second report of a started container. The first may duplicate a container known by
name, refresh one created at runtime, take over the settings of an image or create a
container for it; the second finds the container by its id, unless a container known by
name comes before it in the list.
-/

namespace Orchestrator.RepeatedStart
open Orchdata PidLookup LookupEdits MutualLinks LookupHierarchy LookupLinks LookupRun
open ContainerSearch SecondRefresh

/-- A node as docker-link makes it for a started container. -/
structure Report (node : Node) (name id image : List Char) : Prop where
  pid : node.pid = 0
  psig : node.psig.map Str.text = some name
  contid : node.contid.map Str.text = some id
  imgid : node.imgid.map Str.text = some image
  param : node.param = none

/-- The second of two reports leaves the configuration as the first does, and both return
the same. -/
def Repeats (look : Lookup) (nhead : List Node) (again : Node) : Prop :=
  ∃ first ok second, findPidParameters look = .ok (first, ok) ∧
    findPidParameters ⟨first.conts, nhead, again⟩ = .ok (second, ok) ∧
    Unchanged first.conts second.conts

/-- The search in the list meets a container by name first and refreshes one that was
created at runtime. -/
def RefreshesListed (conts : Containers) (node : Node) (id : List Char) : Prop :=
  ∃ y, conts.cont.find? (isMatch conts node) = some y ∧ idMatch conts node y = false ∧
    match namedInImage conts node with
    | none => (runtimeCont conts y id).isSome ∧
        ¬ (imageMatch conts node = none ∧ Inert (conts.contAt y))
    -- the search in the image has refreshed one already
    | some x => ∃ r, runtimeCont conts x id = some r ∧
        ((conts.contAt x).status.ccrt = true ∨ (runtimeCont conts r id).isSome)

/-- The container after the match: one created at runtime takes over the image. -/
def settled (conts : Containers) (img : Option Nat) (c : Nat) : Containers :=
  match img with
  | some i => if (conts.contAt c).status.ccrt then adoptImg conts i c else conts
  | none => conts

section Run
variable {look : Lookup} {id : Str}

theorem in_container_event (state : Lookup) (event : state.node.pid = 0) (img : Option Nat)
    (c : Nat) (fromImg : Bool) : (findInContainer state img c fromImg).conts =
      withFake (settled state.conts img c) { cont := some (.cont c), img := img } := by
  simp only [findInContainer, if_pos event]
  cases img <;> rfl

/-- Where no container of the image is matched by name, the list decides. -/
theorem run_listed (event : look.node.pid = 0) (named : look.node.contid = some id)
    (unnamed : namedInImage look.conts look.node = none) {c : Nat}
    (first : look.conts.cont.find? (isMatch look.conts look.node) = some c) :
    ∃ found fake, findPidParameters look = .ok (found, true) ∧
      found.conts = withFake (if idMatch look.conts look.node c then
          settled look.conts (imageMatch look.conts look.node) c
        else settled (duplicateOrRefreshContainer look c id.text).1.conts
          (imageMatch look.conts look.node) (duplicateOrRefreshContainer look c id.text).2) fake := by
  have next := next_without_name named unnamed
  have list : searchList look = some (if idMatch look.conts look.node c then (look, c)
      else duplicateOrRefreshContainer look c id.text) := by
    rw [searchList, next, search_containers named, first, Option.map_some]
  rw [find_pid_parameters_search, list]
  by_cases byId : idMatch look.conts look.node c = true
  · rw [if_pos byId, if_pos byId]
    exact ⟨_, _, rfl, in_container_event look event _ c false⟩
  · rw [if_neg byId, if_neg byId]
    exact ⟨_, _, rfl, in_container_event (duplicateOrRefreshContainer look c id.text).1 event _ _
      false⟩

theorem run_unlisted (event : look.node.pid = 0) (named : look.node.contid = some id)
    (unnamed : namedInImage look.conts look.node = none)
    (nothing : look.conts.cont.find? (isMatch look.conts look.node) = none) :
    (imageMatch look.conts look.node = none ∧ findPidParameters look = .ok (look, false)) ∨
      ∃ i conts c found fake, imageMatch look.conts look.node = some i ∧
        contFromImg look.conts look.node i = .ok (conts, c) ∧
        findPidParameters look = .ok (found, true) ∧
        found.conts = withFake (settled conts (some i) c) fake := by
  have next := next_without_name named unnamed
  have list : searchList look = none := by
    rw [searchList, next, search_containers named, nothing, Option.map_none]
  rw [find_pid_parameters_search, list, next]
  cases image : imageMatch look.conts look.node with
  | none =>
      left
      dsimp only
      rw [if_pos event]
      exact ⟨rfl, rfl⟩
  | some i =>
      right
      obtain ⟨conts, c, made⟩ := cont_from_img_some named look.conts i
      refine ⟨i, conts, c, _, _, rfl, made, ?_, in_container_event { look with conts := conts }
        event (some i) c true⟩
      dsimp only
      rw [made]
      rfl

end Run

/-- A report finds its container by the id, and has nothing to change about it. -/
structure Quiet (conts : Containers) (node : Node) : Prop where
  image : namedInImage conts node = none
  byId : ∀ c, conts.cont.find? (isMatch conts node) = some c → idMatch conts node c = true
  settled : ∀ c, conts.cont.find? (isMatch conts node) = some c → imageMatch conts node ≠ none →
    (conts.contAt c).status.ccrt = false
  created : conts.cont.find? (isMatch conts node) = none → imageMatch conts node = none

theorem Quiet.view {before after : Containers} {node : Node} (view : SameView before after)
    (quiet : Quiet before node) : Quiet after node := by
  obtain ⟨byId, either⟩ := id_match_same node view.contid
  have image : imageMatch after node = imageMatch before node :=
    image_match_same node view.img view.imgid
  refine ⟨(named_same view).trans quiet.image, ?_, ?_, ?_⟩
  · rw [byId, either, view.cont]
    exact quiet.byId
  · intro c first held
    rw [either, view.cont] at first
    rw [view.status]
    exact quiet.settled c first (image ▸ held)
  · rw [either, view.cont, image]
    exact quiet.created

section Reports
variable {look : Lookup} {id : Str}

theorem quiet_unchanged (event : look.node.pid = 0) (named : look.node.contid = some id)
    (quiet : Quiet look.conts look.node) :
    ∃ second, findPidParameters look =
        .ok (second, (look.conts.cont.find? (isMatch look.conts look.node)).isSome) ∧
      Unchanged look.conts second.conts := by
  cases first : look.conts.cont.find? (isMatch look.conts look.node) with
  | none =>
      rcases run_unlisted event named quiet.image first with ⟨_, run⟩ | ⟨i, _, _, _, _, image, _⟩
      · exact ⟨look, run, Unchanged.refl _⟩
      · rw [quiet.created first] at image
        cases image
  | some c =>
      obtain ⟨found, fake, run, conts⟩ := run_listed event named quiet.image first
      refine ⟨found, run, ?_⟩
      have idle : settled look.conts (imageMatch look.conts look.node) c = look.conts := by
        cases image : imageMatch look.conts look.node with
        | none => rfl
        | some i =>
            have marked := quiet.settled c first (by rw [image]; exact Option.some_ne_none i)
            simp only [settled, marked, Bool.false_eq_true, if_false]
      rw [if_pos (quiet.byId c first), idle] at conts
      rw [conts]
      exact unchanged_fake look.conts fake

/-- The container that was found takes over the image at most. -/
theorem settled_cases {conts : Containers} (sound : Sound conts) {img : Option Nat}
    (known : ∀ i, img = some i → i ∈ conts.img) (c : Nat) :
    (settled conts img c = conts ∧ (img = none ∨ (conts.contAt c).status.ccrt = false)) ∨
      ∃ i status, img = some i ∧ status.ccrt = false ∧
        Puts conts (settled conts img c) c (conts.contAt c).contid status false (some i) := by
  cases img with
  | none => exact .inl ⟨rfl, .inl rfl⟩
  | some i =>
      cases marked : (conts.contAt c).status.ccrt with
      | false => exact .inl ⟨by simp [settled, marked], .inr rfl⟩
      | true =>
          right
          obtain ⟨parm, writes, -⟩ := adopt_img_writes conts i c (sound.imgParm i (known i rfl))
          have adopts : settled conts (some i) c = adoptImg conts i c := by
            simp [settled, marked]
          rw [adopts]
          exact ⟨i, { parm.status with
            cfix := parm.status.cfix || (conts.contAt c).status.cfix
            ccrt := false }, rfl, rfl, writes_cont_puts writes⟩

/-- After a match by id nothing is left to do. -/
theorem settled_quiet {conts : Containers} {node : Node} (sound : Sound conts)
    (unnamed : namedInImage conts node = none) {c : Nat}
    (first : conts.cont.find? (isMatch conts node) = some c)
    (byId : idMatch conts node c = true) :
    Quiet (settled conts (imageMatch conts node) c) node ∧
      ((settled conts (imageMatch conts node) c).cont.find?
        (isMatch (settled conts (imageMatch conts node) c) node)).isSome := by
  have known : ∀ i, imageMatch conts node = some i → i ∈ conts.img :=
    fun i image => List.mem_of_find?_eq_some image
  rcases settled_cases sound known c with ⟨idle, marked⟩ | ⟨i, status, image, marked, puts⟩
  · rw [idle]
    refine ⟨⟨unnamed, fun x same => ?_, fun x same held => ?_, fun nothing => ?_⟩, by rw [first]; rfl⟩
    · rw [first] at same
      cases same
      exact byId
    · rw [first] at same
      cases same
      exact marked.resolve_left held
    · rw [first] at nothing
      cases nothing
  · generalize settled conts (imageMatch conts node) c = after at puts
    obtain ⟨sameId, either⟩ := puts.matches_kept node rfl
    have own : idMatch after node c = true := by rw [sameId, byId]
    have found := puts.find own (fun _ => rfl)
    simp only [Bool.false_eq_true, if_false, first] at found
    refine ⟨⟨puts.named_image own image, fun x same => ?_, fun x same _ => ?_, fun nothing => ?_⟩,
      by rw [found]; rfl⟩
    · rw [found] at same
      cases same
      exact own
    · rw [found] at same
      cases same
      rw [puts.status, marked]
    · rw [found] at nothing
      cases nothing

theorem id_match_own {conts : Containers} {node : Node} (named : node.contid = some id) {c : Nat}
    (own : (conts.contAt c).contid.map Str.text = some id.text) : idMatch conts node c = true := by
  obtain ⟨contid, held, text⟩ := Option.map_eq_some_iff.mp own
  rw [idMatch, held, named]
  change sameId contid.text id.text = true
  rw [text]
  simp [sameId]

theorem quiet_left {conts left : Containers} {node : Node} {fake : Pidc}
    (same : left = withFake conts fake)
    (quiet : Quiet conts node ∧ (conts.cont.find? (isMatch conts node)).isSome) :
    Quiet left node ∧ (left.cont.find? (isMatch left node)).isSome = true := by
  rw [same]
  exact ⟨quiet.1.view (fake_view conts fake), quiet.2⟩

/-- A new container of the image. -/
theorem image_quiet (sound : Sound look.conts) (named : look.node.contid = some id) {i c : Nat}
    {conts : Containers} (image : imageMatch look.conts look.node = some i)
    (made : contFromImg look.conts look.node i = .ok (conts, c)) :
    Quiet (settled conts (some i) c) look.node ∧
      ((settled conts (some i) c).cont.find?
        (isMatch (settled conts (some i) c) look.node)).isSome := by
  obtain ⟨loc, writes⟩ := cont_from_img_writes named made
  have known : i ∈ look.conts.img := List.mem_of_find?_eq_some image
  have made' : Sound conts := writes_cont_sound sound writes
    ((sound.imgParm i known).mono writes.grows.brk) (fun j same => by cases same; exact known)
    rfl (fun p none => by cases none) (fun old => by cases old)
  have puts := writes_cont_puts writes
  have own : idMatch conts look.node c = true := id_match_own named (by rw [puts.contid]; rfl)
  have same : imageMatch conts look.node = some i :=
    (image_match_same look.node puts.imgs puts.imgid).trans image
  have leads := puts.find own (fun old => by cases old)
  rw [if_pos rfl] at leads
  have quiet := settled_quiet made' (puts.named_image own image) leads own
  rwa [same] at quiet

/-- A new container with the settings of the one of that name. -/
theorem copied_quiet (sound : Sound look.conts) (named : look.node.contid = some id)
    (unnamed : namedInImage look.conts look.node = none) {y : Nat} (member : y ∈ look.conts.cont)
    (absent : runtimeCont look.conts y id.text = none) {after : Containers} {r : Nat}
    (copy : after = (duplicateOrRefreshContainer look y id.text).1.conts)
    (result : r = (duplicateOrRefreshContainer look y id.text).2) :
    Quiet (settled after (imageMatch look.conts look.node) r) look.node ∧
      ((settled after (imageMatch look.conts look.node) r).cont.find?
        (isMatch (settled after (imageMatch look.conts look.node) r) look.node)).isSome := by
  obtain ⟨contid, puts, created, -⟩ := copy_puts look id.text sound member
  obtain ⟨copied, -, -⟩ := duplicate_sound look id.text sound member
  rw [← copy, ← result] at puts
  rw [← copy] at copied
  have own : idMatch after look.node r = true :=
    id_match_own named (by rw [puts.contid, created absent])
  have fresh : (runtimeCont look.conts y id.text).isNone = false →
      contid = (look.conts.contAt r).contid := fun old => by rw [absent] at old; cases old
  have leads := puts.find own fresh
  simp only [absent, Option.isNone_none, if_true] at leads
  have quiet := settled_quiet copied (puts.named sound own fresh unnamed) leads own
  rwa [image_match_same look.node puts.imgs puts.imgid] at quiet

/-- What the first of two reports leaves, if it refreshes no container from the list. -/
theorem listed_quiet (sound : Sound look.conts) (event : look.node.pid = 0)
    (named : look.node.contid = some id) (unnamed : namedInImage look.conts look.node = none)
    (apart : ∀ y, look.conts.cont.find? (isMatch look.conts look.node) = some y →
      idMatch look.conts look.node y = false → runtimeCont look.conts y id.text = none) :
    ∃ first ok, findPidParameters look = .ok (first, ok) ∧ Quiet first.conts look.node ∧
      (first.conts.cont.find? (isMatch first.conts look.node)).isSome = ok := by
  cases listed : look.conts.cont.find? (isMatch look.conts look.node) with
  | none =>
      rcases run_unlisted event named unnamed listed with
        ⟨image, run⟩ | ⟨i, conts, c, found, fake, image, made, run, left⟩
      · refine ⟨look, false, run, ⟨unnamed, fun c same => ?_, fun c same => ?_, fun _ => image⟩,
          by rw [listed]; rfl⟩
        · rw [listed] at same
          cases same
        · rw [listed] at same
          cases same
      · exact ⟨found, true, run, quiet_left left (image_quiet sound named image made)⟩
  | some y =>
      obtain ⟨found, fake, run, left⟩ := run_listed event named unnamed listed
      by_cases byId : idMatch look.conts look.node y = true
      · rw [if_pos byId] at left
        have quiet := settled_quiet sound unnamed listed byId
        exact ⟨found, true, run, quiet_left left quiet⟩
      · have absent := apart y listed (by simpa using byId)
        rw [if_neg byId] at left
        have quiet := copied_quiet sound named unnamed (List.mem_of_find?_eq_some listed) absent
          rfl rfl
        exact ⟨found, true, run, quiet_left left quiet⟩

theorem lookup_sound {left : Lookup} {ok : Bool} (sound : Sound look.conts)
    (run : findPidParameters look = .ok (left, ok)) : Sound left.conts := by
  have steps : StepsKeep look fun _ => True := by
    constructor <;> intros <;> trivial
  exact (lookup_keeps steps run sound trivial).1

/-- A container created at runtime has the id. -/
theorem runtime_id_match (named : look.node.contid = some id) {y r : Nat}
    (found : runtimeCont look.conts y id.text = some r) : idMatch look.conts look.node r = true := by
  obtain ⟨_, _, _, contid, own, same⟩ := runtime_cont_some found
  rw [id_match_same_id named, own]
  exact same

/-- The container refreshed from the list is left behind the one it was refreshed from. -/
theorem listed_refresh (sound : Sound look.conts) (event : look.node.pid = 0)
    (named : look.node.contid = some id) (unnamed : namedInImage look.conts look.node = none)
    {y r : Nat} (first : look.conts.cont.find? (isMatch look.conts look.node) = some y)
    (byName : idMatch look.conts look.node y = false)
    (found : runtimeCont look.conts y id.text = some r) :
    ∃ left fake, findPidParameters look = .ok (left, true) ∧
      left.conts = withFake (settled (duplicateOrRefreshContainer look y id.text).1.conts
        (imageMatch look.conts look.node) r) fake ∧
      namedInImage left.conts look.node = none ∧
      left.conts.cont.find? (isMatch left.conts look.node) = some y ∧
      idMatch left.conts look.node y = false ∧
      imageMatch left.conts look.node = imageMatch look.conts look.node := by
  have member := List.mem_of_find?_eq_some first
  have hit := runtime_id_match named found
  obtain ⟨left, fake, run, conts⟩ := run_listed event named unnamed first
  have result : (duplicateOrRefreshContainer look y id.text).2 = r := by
    rw [duplicate_result, found, Option.getD_some]
  rw [if_neg (by simp [byName]), result] at conts
  obtain ⟨contid, puts, -, refreshed⟩ := copy_puts look id.text sound member
  obtain ⟨copied, -, -⟩ := duplicate_sound look id.text sound member
  refine ⟨left, fake, run, conts, ?_⟩
  rw [conts]
  rw [result, found, refreshed r found] at puts
  generalize (duplicateOrRefreshContainer look y id.text).1.conts = after at puts copied
  -- the view on the copied configuration, then on the settled one
  have image := image_match_same look.node puts.imgs puts.imgid
  obtain ⟨sameId, -⟩ := puts.matches_kept look.node rfl
  have own : idMatch after look.node r = true := by rw [sameId, hit]
  have leads := puts.find own (fun _ => rfl)
  rw [Option.isNone_some, if_neg (by simp), first] at leads
  have quiet := puts.named sound own (fun _ => rfl) unnamed
  have known : ∀ i, imageMatch look.conts look.node = some i → i ∈ after.img := by
    intro i this
    rw [puts.imgs]
    exact List.mem_of_find?_eq_some this
  rcases settled_cases copied known r with ⟨idle, -⟩ | ⟨i, flags, this, -, adopts⟩
  · rw [idle]
    exact ⟨quiet, leads, by rw [← byName, ← sameId]; rfl, image⟩
  · generalize settled after (imageMatch look.conts look.node) r = last at adopts
    obtain ⟨sameId', -⟩ := adopts.matches_kept look.node rfl
    have own' : idMatch last look.node r = true := by rw [sameId', own]
    have leads' := adopts.find own' (fun _ => rfl)
    rw [if_neg (by simp), leads] at leads'
    refine ⟨adopts.named_image own' (image.trans this), leads', ?_,
      (image_match_same look.node adopts.imgs adopts.imgid).trans image⟩
    rw [← byName, ← sameId, ← sameId']
    rfl

/-- A report that matches a container of the list by name changes the configuration. -/
theorem named_changes (sound : Sound look.conts) (event : look.node.pid = 0)
    (named : look.node.contid = some id) (unnamed : namedInImage look.conts look.node = none)
    {y : Nat} (first : look.conts.cont.find? (isMatch look.conts look.node) = some y)
    (byName : idMatch look.conts look.node y = false)
    (other : imageMatch look.conts look.node ≠ none ∨
      (look.conts.contAt y).status.ccrt = false)
    {second : Lookup} {ok : Bool} (run : findPidParameters look = .ok (second, ok)) :
    ¬ Unchanged look.conts second.conts := by
  intro same
  have member := List.mem_of_find?_eq_some first
  obtain ⟨left, fake, run', conts⟩ := run_listed event named unnamed first
  rw [run] at run'
  obtain ⟨rfl, rfl⟩ := Prod.mk.inj (Except.ok.inj run')
  rw [if_neg (by simp [byName])] at conts
  obtain ⟨contid, puts, -, -⟩ := copy_puts look id.text sound member
  obtain ⟨copied, -, -⟩ := duplicate_sound look id.text sound member
  have result := duplicate_result look id y
  generalize (duplicateOrRefreshContainer look y id.text).1.conts = after at puts copied conts
  generalize (duplicateOrRefreshContainer look y id.text).2 = r at puts conts result
  have known : ∀ i, imageMatch look.conts look.node = some i → i ∈ after.img := by
    intro i this
    rw [puts.imgs]
    exact List.mem_of_find?_eq_some this
  have ends : (settled after (imageMatch look.conts look.node) r).cont = after.cont ∧
      ((settled after (imageMatch look.conts look.node) r).contAt r).status.ccrt = false := by
    rcases settled_cases copied known r with ⟨idle, unmarked⟩ | ⟨i, flags, _, unmarked, adopts⟩
    · rw [idle]
      refine ⟨rfl, ?_⟩
      rcases unmarked with noImage | unmarked
      · rw [puts.status]
        exact other.resolve_left fun held => held noImage
      · exact unmarked
    · refine ⟨adopts.cont, ?_⟩
      rw [adopts.status, unmarked]
  cases search : runtimeCont look.conts y id.text with
  | none =>
      have longer : after.cont = look.conts.cont := by
        rw [← ends.1, ← same.cont, conts]
        rfl
      rw [puts.cont, search] at longer
      exact absurd (congrArg List.length longer) (by simp)
  | some r' =>
      rw [search, Option.getD_some] at result
      subst result
      have marked := (runtime_cont_some search).2.2.1
      rw [← same.contAt, conts] at marked
      exact absurd (ends.2.symm.trans marked) (by simp)

end Reports

section Again
variable {look : Lookup} {name id image : List Char} {nhead : List Node} {again : Node}

/-- Two reports with the same texts match the same. -/
theorem report_matches {node : Node} (one : Report node name id image)
    (two : Report again name id image) (conts : Containers) :
    idMatch conts again = idMatch conts node ∧ isMatch conts again = isMatch conts node ∧
      imageMatch conts again = imageMatch conts node := by
  obtain ⟨contid, named, text⟩ := Option.map_eq_some_iff.mp one.contid
  obtain ⟨contid', named', text'⟩ := Option.map_eq_some_iff.mp two.contid
  obtain ⟨imgid, held, own⟩ := Option.map_eq_some_iff.mp one.imgid
  obtain ⟨imgid', held', own'⟩ := Option.map_eq_some_iff.mp two.imgid
  have byId : idMatch conts again = idMatch conts node := by
    funext c
    rw [idMatch, idMatch, named, named']
    cases (conts.contAt c).contid with
    | none => rfl
    | some own =>
        change sameId own.text contid'.text = sameId own.text contid.text
        rw [text, text']
  have byName : nameMatch conts again = nameMatch conts node := by
    funext c
    rw [nameMatch, nameMatch, named, named', one.pid, two.pid, one.psig, two.psig]
    cases (conts.contAt c).contid <;> rfl
  refine ⟨byId, ?_, ?_⟩
  · funext c
    rw [isMatch, isMatch, byId, byName]
  · rw [imageMatch, imageMatch, held, held']
    congr 1
    funext i
    cases (conts.imgAt i).imgid with
    | none => rfl
    | some text =>
        change sameId text.text imgid'.text = sameId text.text imgid.text
        rw [own, own']

theorem report_named {node : Node} (one : Report node name id image)
    (two : Report again name id image) (conts : Containers) :
    namedInImage conts again = namedInImage conts node := by
  obtain ⟨byId, either, images⟩ := report_matches one two conts
  rw [namedInImage, namedInImage, byId, either, images]

theorem Report.quiet {node : Node} (one : Report node name id image)
    (two : Report again name id image) {conts : Containers} (quiet : Quiet conts node) :
    Quiet conts again := by
  obtain ⟨byId, either, images⟩ := report_matches one two conts
  refine ⟨(report_named one two conts).trans quiet.image, ?_, ?_, ?_⟩
  · rw [byId, either]
    exact quiet.byId
  · rw [either, images]
    exact quiet.settled
  · rw [either, images]
    exact quiet.created

theorem Report.text {node : Node} (report : Report node name id image) :
    ∃ contid, node.contid = some contid ∧ contid.text = id :=
  Option.map_eq_some_iff.mp report.contid

/-- A first report that refreshes no container from the list is repeated. -/
theorem repeats_unrefreshed (sound : Sound look.conts) (one : Report look.node name id image)
    (two : Report again name id image) (unnamed : namedInImage look.conts look.node = none)
    (apart : ∀ y, look.conts.cont.find? (isMatch look.conts look.node) = some y →
      idMatch look.conts look.node y = false → runtimeCont look.conts y id = none) :
    Repeats look nhead again := by
  obtain ⟨contid, named, rfl⟩ := one.text
  obtain ⟨contid', named', text⟩ := two.text
  obtain ⟨first, ok, run, quiet, result⟩ := listed_quiet sound one.pid named unnamed apart
  obtain ⟨second, run', same⟩ :=
    @quiet_unchanged ⟨first.conts, nhead, again⟩ contid' two.pid named' (one.quiet two quiet)
  refine ⟨first, ok, second, run, ?_, same⟩
  rw [run', (report_matches one two first.conts).2.1, result]

/-- Where the second report starts after such a refresh. -/
theorem refreshed_start (sound : Sound look.conts) (one : Report look.node name id image)
    (two : Report again name id image) (unnamed : namedInImage look.conts look.node = none)
    {y r : Nat} (listed : look.conts.cont.find? (isMatch look.conts look.node) = some y)
    (byName : idMatch look.conts look.node y = false)
    (found : runtimeCont look.conts y id = some r) :
    ∃ left, findPidParameters look = .ok (left, true) ∧ Sound left.conts ∧
      namedInImage left.conts again = none ∧
      left.conts.cont.find? (isMatch left.conts again) = some y ∧
      idMatch left.conts again y = false ∧
      imageMatch left.conts again = imageMatch look.conts look.node ∧
      (imageMatch look.conts look.node = none →
        ∃ fake, left.conts = withFake (duplicateOrRefreshContainer look y id).1.conts fake ∧
          left.conts.contAt y = look.conts.contAt y) := by
  obtain ⟨contid, named, rfl⟩ := one.text
  have member := List.mem_of_find?_eq_some listed
  obtain ⟨left, fake, run, conts, unnamed', listed', byName', image⟩ :=
    listed_refresh sound one.pid named unnamed listed byName found
  obtain ⟨byId, either, images⟩ := report_matches one two left.conts
  rw [← report_named one two] at unnamed'
  rw [← either] at listed'
  rw [← byId] at byName'
  rw [← images] at image
  refine ⟨left, run, lookup_sound sound run, unnamed', listed', byName', image, fun noImage => ?_⟩
  rw [noImage] at conts
  refine ⟨fake, conts, ?_⟩
  rw [conts, settled, with_fake_cont_at]
  exact copy_source_same contid.text sound member

/-- The first report has refreshed a container from the list: the second one changes
nothing only if it writes the same again. -/
theorem repeats_refreshed (sound : Sound look.conts) (one : Report look.node name id image)
    (two : Report again name id image) (unnamed : namedInImage look.conts look.node = none)
    {y r : Nat} (listed : look.conts.cont.find? (isMatch look.conts look.node) = some y)
    (byName : idMatch look.conts look.node y = false)
    (found : runtimeCont look.conts y id = some r) :
    Repeats look nhead again ↔
      imageMatch look.conts look.node = none ∧ Inert (look.conts.contAt y) := by
  obtain ⟨left, run, sound', unnamed', listed', byName', image, plain⟩ :=
    refreshed_start sound one two unnamed listed byName found
  obtain ⟨contid, named, text⟩ := two.text
  have member' := List.mem_of_find?_eq_some listed'
  obtain ⟨second, fake', run', conts'⟩ :=
    @run_listed ⟨left.conts, nhead, again⟩ contid two.pid named unnamed' y listed'
  rw [if_neg (by simp [byName'])] at conts'
  constructor
  · rintro ⟨first, ok, second', once, again', same⟩
    rw [run] at once
    obtain ⟨rfl, rfl⟩ := Prod.mk.inj (Except.ok.inj once)
    rw [run'] at again'
    obtain ⟨rfl, -⟩ := Prod.mk.inj (Except.ok.inj again')
    have changes := fun other => @named_changes ⟨left.conts, nhead, again⟩ contid sound' two.pid
      named unnamed' y listed' byName' other second true run' same
    have noImage : imageMatch look.conts look.node = none := by
      by_contra held
      exact changes (.inl (by rw [image]; exact held))
    have marked : (left.conts.contAt y).status.ccrt = true := by
      by_contra unmarked
      exact changes (.inr (by simpa using unmarked))
    obtain ⟨fake, conts, kept⟩ := plain noImage
    refine ⟨noImage, ?_⟩
    by_contra own
    rw [← kept] at own
    rw [image, noImage] at conts'
    rw [conts'] at same
    exact @copy_changes ⟨left.conts, nhead, again⟩ contid.text y sound' member' marked own fake' same
  · rintro ⟨noImage, inert⟩
    obtain ⟨fake, conts, kept⟩ := plain noImage
    have member := List.mem_of_find?_eq_some listed
    obtain ⟨copied, -, -⟩ := duplicate_sound look id sound member
    have equal : RefreshedFrom left.conts y r := by
      rw [conts]
      refine (copy_refreshed sound member found inert).fake copied ?_ fake
      exact (runtime_cont_some (copy_runtime_again sound member found inert.runtime)).1
    have found' : runtimeCont left.conts y contid.text = some r := by
      rw [conts, text, with_fake_runtime]
      exact copy_runtime_again sound member found inert.runtime
    have once :=
      @copy_again ⟨left.conts, nhead, again⟩ contid.text y r (kept ▸ inert) found' equal
    refine ⟨left, true, second, run, run', ?_⟩
    rw [image, noImage] at conts'
    rw [conts']
    change Unchanged left.conts (withFake (duplicateOrRefreshContainer ⟨left.conts, nhead, again⟩ y
      contid.text).1.conts fake')
    rw [once]
    exact unchanged_fake left.conts fake'

/-- No container of the image is matched by name. -/
theorem repeats_listed_iff (sound : Sound look.conts) (one : Report look.node name id image)
    (two : Report again name id image) (unnamed : namedInImage look.conts look.node = none) :
    Repeats look nhead again ↔ ¬ ∃ y,
      look.conts.cont.find? (isMatch look.conts look.node) = some y ∧
      idMatch look.conts look.node y = false ∧ (runtimeCont look.conts y id).isSome ∧
      ¬ (imageMatch look.conts look.node = none ∧ Inert (look.conts.contAt y)) := by
  by_cases bad : ∃ y r, look.conts.cont.find? (isMatch look.conts look.node) = some y ∧
      idMatch look.conts look.node y = false ∧ runtimeCont look.conts y id = some r
  · obtain ⟨y, r, listed, byName, found⟩ := bad
    rw [repeats_refreshed sound one two unnamed listed byName found]
    constructor
    · rintro holds ⟨x, listed', -, -, fails⟩
      rw [listed] at listed'
      cases listed'
      exact fails holds
    · intro free
      by_contra fails
      exact free ⟨y, listed, byName, by rw [found]; rfl, fails⟩
  · refine iff_of_true (repeats_unrefreshed sound one two unnamed fun y listed byName => ?_) ?_
    · by_contra held
      obtain ⟨r, found⟩ := Option.ne_none_iff_exists'.mp held
      exact bad ⟨y, r, listed, byName, found⟩
    · rintro ⟨y, listed, byName, held, -⟩
      obtain ⟨r, found⟩ := Option.isSome_iff_exists.mp held
      exact bad ⟨y, r, listed, byName, found⟩

theorem sound_of_mutual {conts : Containers} (stored : Stored conts) (linked : Mutual conts) :
    Sound conts where
  toStored := stored
  imgConts := fun i known c listed => ((linked.imgConts i known c).mp listed).1
  imgPids := fun i known p listed => ((linked.imgPids i known p).mp listed).1
  contPids := fun c member p listed => ((linked.contPids c member p).mp listed).1
  contImg := linked.contImg
  pidImg := linked.pidImg

/-- After a match by name in the image, all goes on from what that left. -/
theorem named_goes_on (stored : Stored look.conts) (linked : Mutual look.conts) {contid : Str}
    (named : look.node.contid = some contid) {x : Nat}
    (found : namedInImage look.conts look.node = some x) :
    namedInImage (duplicateOrRefreshContainer look x contid.text).1.conts look.node = none ∧
      imageMatch (duplicateOrRefreshContainer look x contid.text).1.conts look.node ≠ none ∧
      findPidParameters look =
        findPidParameters (duplicateOrRefreshContainer look x contid.text).1 := by
  have sound := sound_of_mutual stored linked
  obtain ⟨i, known, inside, -, -, search⟩ := named_in_image contid found
  have search := search named
  obtain ⟨member, ownImage⟩ :=
    (linked.imgConts i (List.mem_of_find?_eq_some known) x).mp inside
  obtain ⟨own, puts, created, refreshed⟩ := copy_puts look contid.text sound member
  have result := duplicate_result look contid x
  have kept := duplicate_or_refresh_node look x contid.text
  generalize duplicateOrRefreshContainer look x contid.text = next at puts search result kept
  rw [ownImage] at puts
  have byId : idMatch next.1.conts look.node next.2 = true := by
    cases runtime : runtimeCont look.conts x contid.text with
    | none =>
        apply id_match_own named
        rw [puts.contid]
        exact created runtime
    | some r =>
        rw [runtime, Option.getD_some] at result
        rw [runtime, refreshed r runtime, ← result] at puts
        rw [(puts.matches_kept look.node rfl).1, result]
        exact runtime_id_match named runtime
  have unnamed := puts.named_image byId known
  have same := (image_match_same look.node puts.imgs puts.imgid).trans known
  refine ⟨unnamed, by rw [same]; exact Option.some_ne_none i, ?_⟩
  have stays : ((searchImage next.1).map Prod.fst).getD next.1 = next.1 := by
    apply next_without_name (kept ▸ named)
    rw [kept]
    exact unnamed
  have list : searchList look = searchList next.1 := by
    rw [searchList, searchList, search, stays]
    rfl
  rw [find_pid_parameters_search, find_pid_parameters_search, list, stays, search, kept, same,
    known]
  rfl

/-- What the list leads to then: a container that was created, or the same as before. -/
theorem refreshes_named_iff (stored : Stored look.conts) (linked : Mutual look.conts)
    {contid : Str} (named : look.node.contid = some contid) {x : Nat}
    (found : namedInImage look.conts look.node = some x) {next : Containers}
    (copied : (duplicateOrRefreshContainer look x contid.text).1.conts = next) :
    (∃ y, next.cont.find? (isMatch next look.node) = some y ∧ idMatch next look.node y = false ∧
        (runtimeCont next y contid.text).isSome) ↔
      RefreshesListed look.conts look.node contid.text := by
  obtain ⟨i, known, inside, -, byName, -⟩ := named_in_image contid found
  have member := ((linked.imgConts i (List.mem_of_find?_eq_some known) x).mp inside).1
  rw [RefreshesListed]
  simp only [found]
  cases runtime : runtimeCont look.conts x contid.text with
  | none =>
      obtain ⟨byId, leads⟩ := created_leads stored linked named member runtime
      rw [duplicate_or_refresh_node, copied] at byId leads
      refine iff_of_false ?_ ?_
      · rintro ⟨y, listed, other, -⟩
        rw [leads] at listed
        cases listed
        rw [byId] at other
        cases other
      · rintro ⟨_, _, _, r, other, _⟩
        cases other
  | some r =>
      have names := duplicate_named look x contid.text stored linked member
      rw [copied] at names
      obtain ⟨byId, either⟩ := id_match_same look.node (names.contid r runtime)
      rw [byId, either, names.list r runtime]
      refine exists_congr fun y => and_congr_right fun _ => and_congr_right fun other => ?_
      have again := runtime_cont_refreshed stored linked named member (g := y) (by simp [byName])
        (by simp [other]) runtime
      rw [copied] at again
      rw [again]
      cases created : (look.conts.contAt x).status.ccrt with
      | true => simp
      | false => simp

end Again

/-- For every configuration with mutual links and every two reports of one started
container: the second leaves it as it is and returns the same, if and only if the first
does not refresh a container for a name in the list. -/
theorem repeated_start_iff {look : Lookup} {name id image : List Char} {nhead : List Node}
    {again : Node} (stored : Stored look.conts) (linked : Mutual look.conts)
    (one : Report look.node name id image) (two : Report again name id image) :
    Repeats look nhead again ↔ ¬ RefreshesListed look.conts look.node id := by
  have sound := sound_of_mutual stored linked
  obtain ⟨contid, named, rfl⟩ := one.text
  cases found : namedInImage look.conts look.node with
  | none =>
      rw [repeats_listed_iff sound one two found, RefreshesListed]
      simp only [found]
  | some x =>
      obtain ⟨i, known, inside, -, -, -⟩ := named_in_image contid found
      have member := ((linked.imgConts i (List.mem_of_find?_eq_some known) x).mp inside).1
      obtain ⟨unnamed, image, same⟩ := named_goes_on stored linked named found
      obtain ⟨sound', -, -⟩ := duplicate_sound look contid.text sound member
      have goesOn : Repeats look nhead again ↔
          Repeats (duplicateOrRefreshContainer look x contid.text).1 nhead again := by
        rw [Repeats, Repeats, same]
      have listed := @repeats_listed_iff (duplicateOrRefreshContainer look x contid.text).1 name
        contid.text _ nhead again sound' one two unnamed
      rw [goesOn, listed, ← refreshes_named_iff stored linked named found rfl]
      refine not_congr (exists_congr fun y => ?_)
      rw [duplicate_or_refresh_node]
      simp only [image, false_and, not_false_eq_true, and_true]

/-- A list of the container `web` at 2 and others of the id `a1b2`, as a scan creates
them. -/
def namedConts (list : List Nat) : Containers where
  cont := list
  attr := 4
  rscs := 5
  contAt := fun c =>
    if c = 2 then { contid := some ⟨6, "web".toList⟩, attr := 4, rscs := 5 }
    else
      { contid := some ⟨7, "a1b2".toList⟩
        status := { ccrt := true, shat := true, shrc := true }
        attr := 4
        rscs := 5 }
  brk := 9

def webStart (loc : Nat) : Node where
  loc := loc
  psig := some ⟨20, "web".toList⟩
  contid := some ⟨21, "a1b2".toList⟩
  imgid := some ⟨22, "nginx".toList⟩

theorem web_start_report (loc : Nat) :
    Report (webStart loc) "web".toList "a1b2".toList "nginx".toList :=
  ⟨rfl, rfl, rfl, rfl, rfl⟩

theorem named_cont_at (list : List Nat) (c : Nat) :
    ((namedConts list).contAt c).attr = 4 ∧ ((namedConts list).contAt c).rscs = 5 ∧
      ((namedConts list).contAt c).pids = [] ∧ ((namedConts list).contAt c).img = none := by
  dsimp only [namedConts]
  split <;> exact ⟨rfl, rfl, rfl, rfl⟩

theorem named_stored (list : List Nat) (small : ∀ c ∈ list, c < 9) : Stored (namedConts list) := by
  refine ⟨fun i none => ?_, small, fun p none => ?_, fun i none => ?_, fun c _ => ?_,
    fun p none => ?_, Nat.lt_of_sub_eq_succ rfl, Nat.lt_of_sub_eq_succ rfl⟩
  · cases none
  · cases none
  · cases none
  · obtain ⟨attr, rscs, -, -⟩ := named_cont_at list c
    rw [Below, attr, rscs]
    exact ⟨Nat.lt_of_sub_eq_succ rfl, Nat.lt_of_sub_eq_succ rfl⟩
  · cases none

theorem named_linked (list : List Nat) : Mutual (namedConts list) := by
  refine ⟨fun i none => ?_, fun c _ p => ?_, fun i none => ?_, fun c _ i image => ?_,
    fun p none => ?_, fun p none => ?_⟩
  · cases none
  · rw [(named_cont_at list c).2.2.1]
    exact iff_of_false List.not_mem_nil fun both => List.not_mem_nil both.1
  · cases none
  · rw [(named_cont_at list c).2.2.2] at image
    cases image
  · cases none
  · cases none

/-- The first report adds `a1b2` with the settings of `web`, the second finds it. -/
theorem web_start_repeats : Repeats ⟨namedConts [2], [], webStart 1⟩ [] (webStart 30) := by
  apply (repeated_start_iff (named_stored [2] (by decide)) (named_linked [2]) (web_start_report 1)
    (web_start_report 30)).mpr
  rintro ⟨y, first, -, refreshes⟩
  have leads : (namedConts [2]).cont.find? (isMatch (namedConts [2]) (webStart 1)) = some 2 := by
    decide
  rw [leads] at first
  cases first
  have unnamed : namedInImage (namedConts [2]) (webStart 1) = none := by decide
  have absent : runtimeCont (namedConts [2]) 2 "a1b2".toList = none := by decide
  simp only [unnamed] at refreshes
  rw [absent] at refreshes
  exact absurd refreshes.1 Bool.false_ne_true

/-- A scan has created `a1b2` behind `web`. The first report refreshes it, the second
puts another one of the same id in front. -/
theorem web_start_twice :
    Stored (namedConts [2, 3]) ∧ Mutual (namedConts [2, 3]) ∧
      Report (webStart 1) "web".toList "a1b2".toList "nginx".toList ∧
      Report (webStart 30) "web".toList "a1b2".toList "nginx".toList ∧
      ¬ Repeats ⟨namedConts [2, 3], [], webStart 1⟩ [] (webStart 30) := by
  have stored := named_stored [2, 3] (by decide)
  have linked := named_linked [2, 3]
  refine ⟨stored, linked, web_start_report 1, web_start_report 30, ?_⟩
  have unnamed : namedInImage (namedConts [2, 3]) (webStart 1) = none := by decide
  rw [repeats_listed_iff (sound_of_mutual stored linked) (web_start_report 1)
    (web_start_report 30) unnamed, not_not]
  refine ⟨2, by decide, by decide, by decide, fun inert => ?_⟩
  have unmarked : ((namedConts [2, 3]).contAt 2).status.ccrt = false := rfl
  exact absurd (unmarked.symm.trans inert.2.runtime) Bool.false_ne_true

end Orchestrator.RepeatedStart
