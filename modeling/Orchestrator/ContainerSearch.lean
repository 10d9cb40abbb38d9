import Orchestrator.LookupLinks
import Orchestrator.LookupRun

/-!
What the searches of the lookup for containers see of a configuration, and what the
steps of a docker-link event change of it: one container is put in front of the list
or rewritten, and may be put in front of those of an image.
-/

namespace Orchestrator.ContainerSearch
open Orchdata PidLookup LookupEdits MutualLinks LookupHierarchy LookupLinks LookupRun

/-- The searches see the same. -/
structure SameView (before after : Containers) : Prop where
  img : after.img = before.img
  imgid : ∀ j, (after.imgAt j).imgid = (before.imgAt j).imgid
  conts : ∀ j, (after.imgAt j).conts = (before.imgAt j).conts
  cont : after.cont = before.cont
  contid : ∀ x, (after.contAt x).contid = (before.contAt x).contid
  status : ∀ x, (after.contAt x).status = (before.contAt x).status

theorem SameView.trans {first second third : Containers} (one : SameView first second)
    (two : SameView second third) : SameView first third where
  img := two.img.trans one.img
  imgid := fun j => (two.imgid j).trans (one.imgid j)
  conts := fun j => (two.conts j).trans (one.conts j)
  cont := two.cont.trans one.cont
  contid := fun x => (two.contid x).trans (one.contid x)
  status := fun x => (two.status x).trans (one.status x)

theorem SameView.refl (conts : Containers) : SameView conts conts :=
  ⟨rfl, fun _ => rfl, fun _ => rfl, rfl, fun _ => rfl, fun _ => rfl⟩

theorem with_pid_imgid (imgAt : Nat → Img) (img : Option Nat) (p i : Nat) :
    (withPid imgAt img p i).imgid = (imgAt i).imgid := by
  cases img with
  | none => rfl
  | some j =>
      refine update_keeps imgAt j _ Img.imgid ?_ i
      rfl

theorem with_cont_imgid (imgAt : Nat → Img) (img : Option Nat) (c i : Nat) :
    (withCont imgAt img c i).imgid = (imgAt i).imgid := by
  cases img with
  | none => rfl
  | some j =>
      refine update_keeps imgAt j _ Img.imgid ?_ i
      rfl

theorem refresh_pid_view (c : Nat) (conts : Containers) (p : Nat) :
    SameView conts (refreshPid c conts p) := by
  rw [refresh_pid_eq]
  exact ⟨rfl, fun _ => with_pid_imgid _ _ _ _, fun _ => (with_pid_rest _ _ _ _).1, rfl,
    fun _ => rfl, fun _ => rfl⟩

theorem adds_pid_view {before after : Containers} {entry : Pidc} {owner img : Option Nat}
    (adds : AddsPid before after entry owner img) : SameView before after := by
  refine ⟨adds.grows.img, fun j => ?_, fun j => ?_, adds.cont, fun x => ?_, fun x => ?_⟩
  · rw [adds.imgAt, with_pid_imgid]
  · rw [adds.imgAt, (with_pid_rest _ _ _ _).1]
  · rw [adds.contAt, (with_member_rest _ _ _ _).2.1]
  · rw [adds.contAt]
    exact congrArg Parm.status (with_member_rest _ _ _ _).2.2

/-- Memory for the parameters of a node that are in no list. -/
def withFake (conts : Containers) (fake : Pidc) : Containers :=
  { conts.setPidc conts.brk fake with brk := conts.brk + 1 }

@[simp] theorem with_fake_cont_at (conts : Containers) (fake : Pidc) :
    (withFake conts fake).contAt = conts.contAt := rfl

@[simp] theorem with_fake_runtime (conts : Containers) (fake : Pidc) (y : Nat) (id : List Char) :
    runtimeCont (withFake conts fake) y id = runtimeCont conts y id := rfl

theorem fake_view (conts : Containers) (fake : Pidc) : SameView conts (withFake conts fake) :=
  ⟨rfl, fun _ => rfl, fun _ => rfl, rfl, fun _ => rfl, fun _ => rfl⟩

/-- The container `c` is written with this id and these flags, `new` if it is put in front
of the list; it is put in front of those of the image, if there is one. -/
structure Puts (before after : Containers) (c : Nat) (contid : Option Str)
    (status : ParmStatus) (new : Bool) (img : Option Nat) : Prop where
  imgs : after.img = before.img
  imgid : ∀ j, (after.imgAt j).imgid = (before.imgAt j).imgid
  conts : ∀ j, (after.imgAt j).conts = (withCont before.imgAt img c j).conts
  cont : after.cont = if new then c :: before.cont else before.cont
  fresh : new = true → c = before.brk
  contid : (after.contAt c).contid = contid
  status : (after.contAt c).status = status
  others : ∀ x, x ≠ c → (after.contAt x).contid = (before.contAt x).contid ∧
    (after.contAt x).status = (before.contAt x).status

theorem writes_cont_puts {before after : Containers} {c : Nat} {entry : Cont} {new : Bool}
    {img : Option Nat} (writes : WritesCont before after c entry new img) :
    Puts before after c entry.contid entry.status new img where
  imgs := writes.grows.img
  imgid := fun j => by rw [writes.imgAt, with_cont_imgid]
  conts := fun j => by rw [writes.imgAt]
  cont := writes.cont
  fresh := fun held => (writes.room held).1
  contid := by rw [writes.contAt, Function.update_self]
  status := by rw [writes.contAt, Function.update_self]
  others := fun x other => by
    rw [writes.contAt, Function.update_of_ne other]
    exact ⟨rfl, rfl⟩

theorem Puts.view {before middle after : Containers} {c : Nat} {contid : Option Str}
    {status : ParmStatus} {new : Bool} {img : Option Nat}
    (puts : Puts before middle c contid status new img) (same : SameView middle after) :
    Puts before after c contid status new img where
  imgs := same.img.trans puts.imgs
  imgid := fun j => (same.imgid j).trans (puts.imgid j)
  conts := fun j => (same.conts j).trans (puts.conts j)
  cont := same.cont.trans puts.cont
  fresh := puts.fresh
  contid := (same.contid c).trans puts.contid
  status := (same.status c).trans puts.status
  others := fun x other => ⟨(same.contid x).trans (puts.others x other).1,
    (same.status x).trans (puts.others x other).2⟩

/-- `duplicateOrRefreshContainer` puts the container it returns, with the flags of the one
it starts from, in front of those of that one's image. -/
theorem copy_puts (look : Lookup) {y : Nat} (id : List Char) (sound : Sound look.conts)
    (member : y ∈ look.conts.cont) :
    ∃ contid, Puts look.conts (duplicateOrRefreshContainer look y id).1.conts
        (duplicateOrRefreshContainer look y id).2 contid (look.conts.contAt y).status
        (runtimeCont look.conts y id).isNone (look.conts.contAt y).img ∧
      (runtimeCont look.conts y id = none → contid.map Str.text = some id) ∧
      ∀ r, runtimeCont look.conts y id = some r → contid = (look.conts.contAt r).contid := by
  have steps := copy_rule look y id (fun conts => ∃ contid,
    Puts look.conts conts (fillCont look.conts y id).2 contid (look.conts.contAt y).status
      (runtimeCont look.conts y id).isNone (look.conts.contAt y).img ∧
    (runtimeCont look.conts y id = none → contid.map Str.text = some id) ∧
    ∀ r, runtimeCont look.conts y id = some r → contid = (look.conts.contAt r).contid)
    _ rfl sound member ?_ ?_ ?_
  · exact steps.2.2
  · intro filled entry writes fills
    refine ⟨entry.contid, ?_, fun absent => (fills.created absent).2,
      fun r found => (fills.refreshed r found).2⟩
    have puts := writes_cont_puts writes
    rwa [fills.copy.status] at puts
  · rintro conts p _ _ _ _ ⟨contid, puts, created, refreshed⟩
    exact ⟨contid, puts.view (refresh_pid_view _ conts p), created, refreshed⟩
  · rintro conts p entry _ _ _ _ adds _ _ ⟨contid, puts, created, refreshed⟩
    exact ⟨contid, puts.view (adds_pid_view adds), created, refreshed⟩

section Matches
variable {before after : Containers} {node : Node} {c i : Nat} {contid : Option Str}
  {status : ParmStatus} {new : Bool} {img : Option Nat}

theorem image_match_same (node : Node) (imgs : after.img = before.img)
    (imgid : ∀ j, (after.imgAt j).imgid = (before.imgAt j).imgid) :
    imageMatch after node = imageMatch before node := by
  rw [imageMatch, imageMatch, imgs]
  congr 1
  funext j
  rw [imgid j]

/-- In the image nothing is found, or the first one found has the id. -/
theorem named_none_iff (conts : Containers) (node : Node) :
    namedInImage conts node = none ↔ ∀ i c, imageMatch conts node = some i →
      (conts.imgAt i).conts.find? (isMatch conts node) = some c → idMatch conts node c = true := by
  rw [namedInImage]
  cases imageMatch conts node with
  | none => simp
  | some i =>
      rw [Option.bind_some]
      cases found : (conts.imgAt i).conts.find? (isMatch conts node) with
      | none =>
          refine ⟨fun _ j c same first => ?_, fun _ => rfl⟩
          cases same
          rw [found] at first
          cases first
      | some c =>
          rw [Option.filter_eq_none_iff]
          constructor
          · intro byId j x same first
            cases same
            rw [found] at first
            cases first
            simpa using byId c rfl
          · intro byId x same
            cases same
            simpa using byId i c rfl found

theorem named_same (view : SameView before after) :
    namedInImage after node = namedInImage before node := by
  obtain ⟨byId, either⟩ := id_match_same node view.contid
  rw [namedInImage, namedInImage, image_match_same node view.img view.imgid, byId, either]
  simp only [view.conts]

theorem Puts.fresh_mem (puts : Puts before after c contid status new img) (sound : Sound before)
    (held : new = true) {x : Nat} (old : x ∈ before.cont) : x ≠ c := by
  rw [puts.fresh held]
  exact Nat.ne_of_lt (sound.cont x old)

theorem Puts.match_other (puts : Puts before after c contid status new img) {x : Nat}
    (other : x ≠ c) : idMatch after node x = idMatch before node x ∧
      isMatch after node x = isMatch before node x := by
  have same := (puts.others x other).1
  simp only [isMatch, idMatch, nameMatch, same, and_self]

/-- A rewritten container keeps its id. -/
theorem Puts.matches_kept (puts : Puts before after c contid status new img) (node : Node)
    (kept : contid = (before.contAt c).contid) :
    idMatch after node = idMatch before node ∧ isMatch after node = isMatch before node := by
  apply id_match_same
  intro x
  by_cases this : x = c
  · rw [this, puts.contid, kept]
  · exact (puts.others x this).1

/-- The list leads to the new container, or where it led. -/
theorem Puts.find (puts : Puts before after c contid status new img)
    (own : idMatch after node c = true)
    (kept : new = false → contid = (before.contAt c).contid) :
    after.cont.find? (isMatch after node) =
      if new then some c else before.cont.find? (isMatch before node) := by
  rw [puts.cont]
  cases new with
  | true =>
      have hit : isMatch after node c = true := by rw [isMatch, own, Bool.true_or]
      simp only [if_true, List.find?_cons_of_pos hit]
  | false =>
      simp only [Bool.false_eq_true, if_false, (puts.matches_kept node (kept rfl)).2]

theorem Puts.named (puts : Puts before after c contid status new img) (sound : Sound before)
    (own : idMatch after node c = true) (kept : new = false → contid = (before.contAt c).contid)
    (unnamed : namedInImage before node = none) : namedInImage after node = none := by
  rw [named_none_iff] at unnamed ⊢
  intro i x image first
  rw [image_match_same node puts.imgs puts.imgid] at image
  by_cases this : x = c
  · rw [this, own]
  -- another one was the first before as well
  have old : (before.imgAt i).conts.find? (isMatch before node) = some x := by
    have rest : (before.imgAt i).conts.find? (isMatch after node) = some x := by
      rw [puts.conts] at first
      cases img with
      | none => exact first
      | some j =>
          by_cases same : i = j
          · subst same
            have hit : isMatch after node c = true := by rw [isMatch, own, Bool.true_or]
            rw [withCont, Function.update_self, List.find?_cons_of_pos hit] at first
            exact absurd (Option.some.inj first).symm this
          · rwa [withCont, Function.update_of_ne same] at first
    rw [← rest]
    apply List.find?_congr
    intro y listed
    cases new with
    | true =>
        have inside := sound.imgConts i (List.mem_of_find?_eq_some image) y listed
        exact (puts.match_other (puts.fresh_mem sound rfl inside)).2.symm
    | false => rw [(puts.matches_kept node (kept rfl)).2]
  rw [(puts.match_other this).1]
  exact unnamed i x image old

theorem Puts.named_image (puts : Puts before after c contid status new (some i))
    (own : idMatch after node c = true) (image : imageMatch before node = some i) :
    namedInImage after node = none := by
  rw [named_none_iff]
  intro j x same first
  rw [image_match_same node puts.imgs puts.imgid, image] at same
  cases same
  have hit : isMatch after node c = true := by rw [isMatch, own, Bool.true_or]
  rw [puts.conts, withCont, Function.update_self, List.find?_cons_of_pos hit] at first
  cases first
  exact own

end Matches

end Orchestrator.ContainerSearch
