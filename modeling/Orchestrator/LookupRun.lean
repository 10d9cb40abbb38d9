import Orchestrator.LinkSteps
import Orchestrator.LookupHierarchy

/-!
What holds across lookups. A lookup changes the configuration in a few steps; a
rule for the steps is one for every sequence of lookups, and none of them leaves
a reference to what is not in the lists.
-/

namespace Orchestrator.LookupRun
open Orchdata PidLookup LookupEdits MutualLinks LookupHierarchy Traversal

/-- All that is linked is in its list. -/
structure Sound (conts : Containers) : Prop extends Stored conts where
  imgConts : ∀ i ∈ conts.img, ∀ c ∈ (conts.imgAt i).conts, c ∈ conts.cont
  imgPids : ∀ i ∈ conts.img, ∀ p ∈ (conts.imgAt i).pids, p ∈ conts.pids
  contPids : ∀ c ∈ conts.cont, ∀ p ∈ (conts.contAt c).pids, p ∈ conts.pids
  contImg : ∀ c ∈ conts.cont, ∀ i, (conts.contAt c).img = some i → i ∈ conts.img
  pidImg : ∀ p ∈ conts.pids, ∀ i, (conts.pidcAt p).img = some i → i ∈ conts.img

theorem Sound.ready {conts : Containers} (sound : Sound conts) {c : Nat} (member : c ∈ conts.cont) :
    Ready conts (conts.contAt c).pids := by
  intro p inside
  have listed := sound.contPids c member p inside
  exact ⟨sound.pids p listed, sound.pidcParm p listed⟩

theorem Sound.connected {conts : Containers} (sound : Sound conts) {c : Nat} {id : List Char} :
    ∀ p ∈ connected conts c id, p ∈ conts.pids := by
  intro p inside
  rw [LookupEdits.connected] at inside
  cases search : runtimeCont conts c id with
  | none =>
      rw [search] at inside
      cases inside
  | some x =>
      rw [search] at inside
      exact sound.contPids x (runtime_cont_some search).1 p inside

section Steps
variable {before after : Containers}

theorem writes_cont_sound (sound : Sound before) {c : Nat} {entry : Cont} {new : Bool}
    {img : Option Nat} (writes : WritesCont before after c entry new img)
    (own : Below after.brk entry.toParm) (known : ∀ i, img = some i → i ∈ before.img)
    (same : entry.img = img) (members : ∀ p ∈ entry.pids, p ∈ before.pids)
    (listed : new = false → c ∈ before.cont) : Sound after := by
  refine ⟨writes_cont_stored writes sound.toStored own, ?_, ?_, ?_, ?_, ?_⟩
  · intro i inside x member
    rw [writes.grows.img] at inside
    rw [writes.imgAt, with_cont_mem] at member
    rcases member with old | ⟨rfl, _⟩
    · exact writes.kept (sound.imgConts i inside x old)
    · exact writes.held listed
  · intro i inside p member
    rw [writes.grows.img] at inside
    rw [writes.imgAt, (with_cont_rest _ _ _ _).1] at member
    rw [writes.pids]
    exact sound.imgPids i inside p member
  · intro x held p member
    rw [writes.pids]
    rw [writes.contAt] at member
    by_cases this : x = c
    · rw [this, Function.update_self] at member
      exact members p member
    · rw [Function.update_of_ne this] at member
      exact sound.contPids x (writes.older this held) p member
  · intro x held i image
    rw [writes.grows.img]
    rw [writes.contAt] at image
    by_cases this : x = c
    · rw [this, Function.update_self, same] at image
      exact known i image
    · rw [Function.update_of_ne this] at image
      exact sound.contImg x (writes.older this held) i image
  · intro p held i image
    rw [writes.pids] at held
    rw [writes.pidcAt] at image
    rw [writes.grows.img]
    exact sound.pidImg p held i image

theorem adds_pid_sound (sound : Sound before) {entry : Pidc} {owner img : Option Nat}
    (adds : AddsPid before after entry owner img) (own : Below after.brk entry.toParm)
    (known : ∀ i, img = some i → i ∈ before.img) (same : entry.img = img) : Sound after := by
  refine ⟨adds_pid_stored adds sound.toStored own, ?_, ?_, ?_, ?_, ?_⟩
  · intro i inside c member
    rw [adds.grows.img] at inside
    rw [adds.imgAt, (with_pid_rest _ _ _ _).1] at member
    rw [adds.cont]
    exact sound.imgConts i inside c member
  · intro i inside p member
    rw [adds.grows.img] at inside
    rw [adds.imgAt, with_pid_mem] at member
    rw [adds.pids]
    rcases member with old | ⟨rfl, _⟩
    · exact List.mem_cons_of_mem _ (sound.imgPids i inside p old)
    · exact List.mem_cons_self
  · intro c held p member
    rw [adds.cont] at held
    rw [adds.contAt, with_member_mem] at member
    rw [adds.pids]
    rcases member with old | ⟨rfl, _⟩
    · exact List.mem_cons_of_mem _ (sound.contPids c held p old)
    · exact List.mem_cons_self
  · intro c held i image
    rw [adds.cont] at held
    rw [adds.contAt, (with_member_rest _ _ _ _).1] at image
    rw [adds.grows.img]
    exact sound.contImg c held i image
  · intro p held i image
    rw [adds.pids] at held
    rw [adds.pidcAt] at image
    rw [adds.grows.img]
    by_cases this : p = before.brk
    · rw [this, Function.update_self, same] at image
      exact known i image
    · rw [Function.update_of_ne this] at image
      exact sound.pidImg p (List.mem_of_ne_of_mem this held) i image

theorem refresh_pid_sound {conts : Containers} (sound : Sound conts) {c p : Nat}
    (member : c ∈ conts.cont) (listed : p ∈ conts.pids) : Sound (refreshPid c conts p) := by
  have stored := refresh_pid_stored sound.toStored member p
  rw [refresh_pid_eq] at stored ⊢
  refine ⟨stored, ?_, ?_, sound.contPids, sound.contImg, ?_⟩
  · intro i inside x held
    dsimp only at held
    rw [(with_pid_rest _ _ _ _).1] at held
    exact sound.imgConts i inside x held
  · intro i inside q held
    rcases (with_pid_mem _ _ _ _ _).mp held with old | ⟨rfl, _⟩
    · exact sound.imgPids i inside q old
    · exact listed
  · intro q held i image
    dsimp only at image
    by_cases this : q = p
    · rw [this, Function.update_self] at image
      exact sound.contImg c member i image
    · rw [Function.update_of_ne this] at image
      exact sound.pidImg q held i image

/-- Another link from a PID to a container. -/
theorem link_sound {conts : Containers} (sound : Sound conts) (q : Nat) (owner : Option ContPtr) :
    Sound { conts with
      pidcAt := Function.update conts.pidcAt q { conts.pidcAt q with cont := owner } } := by
  have same : ∀ x, (Function.update conts.pidcAt q
      { conts.pidcAt q with cont := owner } x).toParm = (conts.pidcAt x).toParm ∧
      (Function.update conts.pidcAt q
        { conts.pidcAt q with cont := owner } x).img = (conts.pidcAt x).img := by
    intro x
    refine ⟨update_keeps conts.pidcAt q _ Pidc.toParm ?_ x,
      update_keeps conts.pidcAt q _ Pidc.img ?_ x⟩ <;> rfl
  refine ⟨⟨sound.img, sound.cont, sound.pids, sound.imgParm, sound.contParm, ?_, sound.attr,
    sound.rscs⟩, sound.imgConts, sound.imgPids, sound.contPids, sound.contImg, ?_⟩
  · intro x listed
    dsimp only
    rw [(same x).1]
    exact sound.pidcParm x listed
  · intro x listed i image
    dsimp only at image
    rw [(same x).2] at image
    exact sound.pidImg x listed i image

/-- Memory for an object that is in no list. -/
theorem fake_sound {conts : Containers} (sound : Sound conts) (fake : Pidc) :
    Sound { conts.setPidc conts.brk fake with brk := conts.brk + 1 } := by
  have grow : conts.brk ≤ conts.brk + 1 := Nat.le_succ _
  have same : ∀ p ∈ conts.pids, Function.update conts.pidcAt conts.brk fake p = conts.pidcAt p :=
    fun p inside => Function.update_of_ne (Nat.ne_of_lt (sound.pids p inside)) _ _
  refine ⟨⟨fun i inside => (sound.img i inside).trans_le grow,
    fun c inside => (sound.cont c inside).trans_le grow,
    fun p inside => (sound.pids p inside).trans_le grow,
    fun i inside => (sound.imgParm i inside).mono grow,
    fun c inside => (sound.contParm c inside).mono grow, ?_, sound.attr.trans_le grow,
    sound.rscs.trans_le grow⟩, sound.imgConts, sound.imgPids, sound.contPids, sound.contImg, ?_⟩
  · intro p inside
    change Below _ (Function.update conts.pidcAt conts.brk fake p).toParm
    rw [same p inside]
    exact (sound.pidcParm p inside).mono grow
  · intro p inside i image
    change (Function.update conts.pidcAt conts.brk fake p).img = some i at image
    rw [same p inside] at image
    exact sound.pidImg p inside i image

end Steps

/-- The steps of `duplicateOrRefreshContainer` in a sound configuration, with the
PIDs it refreshed and those it duplicated so far. -/
theorem copy_steps (look : Lookup) (dlCont : Nat) (id : List Char)
    (keeps : List Nat → List Nat → Containers → Prop)
    (r : Nat) (result : (fillCont look.conts dlCont id).2 = r) (sound : Sound look.conts)
    (member : dlCont ∈ look.conts.cont)
    (fill : ∀ filled entry, WritesCont look.conts filled r entry
      (runtimeCont look.conts dlCont id).isNone (look.conts.contAt dlCont).img →
      Filled look.conts filled dlCont id entry → keeps [] [] filled)
    (refresh : ∀ conts done p, Sound conts → r ∈ conts.cont → p ∈ conts.pids →
      p ∈ connected look.conts dlCont id → keeps done [] conts →
      keeps (p :: done) [] (refreshPid r conts p))
    (duplicate : ∀ conts done p entry, Sound conts → r ∈ conts.cont → p ∈ conts.pids →
      p ∈ (look.conts.contAt dlCont).pids →
      AddsPid conts (duplicatePid r conts p) entry (some r) (conts.pidcAt p).img →
      CopyOf conts (duplicatePid r conts p) (conts.pidcAt p).toParm entry.toParm →
      entry.cont = some (.cont r) → keeps (connected look.conts dlCont id).reverse done conts →
      keeps (connected look.conts dlCont id).reverse (p :: done) (duplicatePid r conts p)) :
    Sound (duplicateOrRefreshContainer look dlCont id).1.conts ∧
      r ∈ (duplicateOrRefreshContainer look dlCont id).1.conts.cont ∧
      keeps (connected look.conts dlCont id).reverse (look.conts.contAt dlCont).pids.reverse
        (duplicateOrRefreshContainer look dlCont id).1.conts := by
  have steps := duplicate_or_refresh_steps look dlCont id (fun done dups conts =>
    (Sound conts ∧ r ∈ conts.cont ∧ keeps done dups conts) ∧ ∀ p ∈ look.conts.pids, p ∈ conts.pids)
    r result (sound.cont dlCont member) (sound.contParm dlCont member) (sound.ready member) ?_ ?_ ?_
  · exact steps.1
  · intro filled entry writes fills
    have inside : (runtimeCont look.conts dlCont id).isNone = false → r ∈ look.conts.cont := by
      intro found
      cases search : runtimeCont look.conts dlCont id with
      | none =>
          rw [search] at found
          cases found
      | some x =>
          rw [fill_cont_some search] at result
          rw [← result]
          exact (runtime_cont_some search).1
    have members : ∀ p ∈ entry.pids, p ∈ look.conts.pids := by
      intro p listed
      cases search : runtimeCont look.conts dlCont id with
      | none =>
          rw [(fills.created search).1] at listed
          cases listed
      | some x =>
          rw [(fills.refreshed x search).1] at listed
          exact sound.contPids x (runtime_cont_some search).1 p listed
    refine ⟨⟨writes_cont_sound sound writes (fills.copy.below (sound.contParm dlCont member)
      writes.grows.brk) (sound.contImg dlCont member) fills.img members inside, ?_,
      fill filled entry writes fills⟩, ?_⟩
    · exact writes.held inside
    · rw [writes.pids]
      exact fun p old => old
  · rintro conts done p inside ⟨⟨sound', held, holds⟩, still⟩
    have listed := still p (sound.connected p inside)
    refine ⟨⟨refresh_pid_sound sound' held listed, ?_,
      refresh conts done p sound' held listed inside holds⟩, ?_⟩
    · rw [refresh_pid_eq]
      exact held
    · rw [refresh_pid_eq]
      exact still
  · rintro conts done p entry inside adds copy cont img _ ⟨⟨sound', held, holds⟩, still⟩
    have listed := still p (sound.contPids dlCont member p inside)
    refine ⟨⟨adds_pid_sound sound' adds (copy.below (sound'.pidcParm p listed) adds.room.le)
      (sound'.pidImg p listed) img, ?_,
      duplicate conts done p entry sound' held listed inside adds copy cont holds⟩, ?_⟩
    · rw [adds.cont]
      exact held
    · rw [adds.pids]
      exact fun q old => List.mem_cons_of_mem _ (still q old)

/-- What all these steps keep. -/
theorem copy_rule (look : Lookup) (dlCont : Nat) (id : List Char) (keeps : Containers → Prop)
    (r : Nat) (result : (fillCont look.conts dlCont id).2 = r) (sound : Sound look.conts)
    (member : dlCont ∈ look.conts.cont)
    (fill : ∀ filled entry, WritesCont look.conts filled r entry
      (runtimeCont look.conts dlCont id).isNone (look.conts.contAt dlCont).img →
      Filled look.conts filled dlCont id entry → keeps filled)
    (refresh : ∀ conts p, Sound conts → r ∈ conts.cont → p ∈ conts.pids →
      p ∈ connected look.conts dlCont id → keeps conts → keeps (refreshPid r conts p))
    (duplicate : ∀ conts p entry, Sound conts → r ∈ conts.cont → p ∈ conts.pids →
      p ∈ (look.conts.contAt dlCont).pids →
      AddsPid conts (duplicatePid r conts p) entry (some r) (conts.pidcAt p).img →
      CopyOf conts (duplicatePid r conts p) (conts.pidcAt p).toParm entry.toParm →
      entry.cont = some (.cont r) → keeps conts → keeps (duplicatePid r conts p)) :
    Sound (duplicateOrRefreshContainer look dlCont id).1.conts ∧
      r ∈ (duplicateOrRefreshContainer look dlCont id).1.conts.cont ∧
      keeps (duplicateOrRefreshContainer look dlCont id).1.conts :=
  copy_steps look dlCont id (fun _ _ => keeps) r result sound member fill
    (fun conts _ => refresh conts) fun conts _ => duplicate conts

section Changes
variable (look : Lookup)

/-- The state in which the list of containers is searched. -/
def nextLookup : Lookup := ((searchImage look).map Prod.fst).getD look

/-- The lookup copies the container `c`, in this state. -/
def Copies (state : Lookup) (c : Nat) : Prop :=
  (state = look ∧ namedInImage look.conts look.node = some c) ∨
    (state = nextLookup look ∧ state.conts.cont.find? (isMatch state.conts look.node) = some c ∧
      idMatch state.conts look.node c = false)

/-- The container `c` takes over the image `i`, in this state. -/
def Adopts (state : Lookup) (i c : Nat) : Prop :=
  look.node.pid = 0 ∧ imageMatch look.conts look.node = some i ∧
    searchList look = some (state, c) ∧ (state.conts.contAt c).status.ccrt = true

/-- A new container groups the PID configuration `p`, which is on its own. -/
def Groups (p : Nat) : Prop :=
  look.node.pid ≠ 0 ∧ look.node.contid ≠ none ∧ imageMatch look.conts look.node = none ∧
    look.conts.cont.find? (idMatch look.conts look.node) = none ∧
    signatureMatch look.conts look.node (unrelated look.conts) = some p

/-- Tasks copy no container. -/
theorem task_copies_none {look state : Lookup} {c : Nat} (task : look.node.pid ≠ 0) :
    ¬ Copies look state c := by
  have plain : ∀ conts c, nameMatch conts look.node c = false := by
    intro conts c
    rw [nameMatch]
    cases (conts.contAt c).contid <;> cases look.node.contid <;> simp [task]
  rintro (⟨rfl, named⟩ | ⟨rfl, found, other⟩)
  · obtain ⟨i, _, found⟩ := Option.bind_eq_some_iff.mp named
    obtain ⟨found, other⟩ := Option.filter_eq_some_iff.mp found
    have either := List.find?_some found
    rw [isMatch, plain, Bool.or_false] at either
    rw [either] at other
    cases other
  · have either := List.find?_some found
    rw [isMatch, other, plain] at either
    cases either

end Changes

/-- What each step of the lookup keeps. -/
structure StepsKeep (look : Lookup) (keeps : Containers → Prop) : Prop where
  copy : ∀ state c id, Copies look state c → look.node.contid = some id → Sound state.conts →
    c ∈ state.conts.cont → keeps state.conts →
    keeps (duplicateOrRefreshContainer state c id.text).1.conts
  adopt : ∀ state i c, Adopts look state i c → Sound state.conts → c ∈ state.conts.cont →
    i ∈ state.conts.img → keeps state.conts → keeps (adoptImg state.conts i c)
  fromImg : ∀ conts after i c contid, Sound conts → i ∈ conts.img →
    WritesCont conts after c
      { contid := some contid
        img := some i
        status := { shat := true, shrc := true }
        attr := (conts.imgAt i).attr
        rscs := (conts.imgAt i).rscs } true (some i) → keeps conts → keeps after
  fromCont : ∀ conts c, Sound conts → c ∈ conts.cont → keeps conts → keeps (pidFromCont conts c).1
  fake : ∀ conts fake, Sound conts → keeps conts →
    keeps { conts.setPidc conts.brk fake with brk := conts.brk + 1 }
  alone : ∀ conts p, Sound conts → p ∈ conts.pids → keeps conts → keeps (pidFromPid conts p).1
  groupNew : ∀ conts node keep, Sound conts → keeps conts → keeps (groupPid conts node keep none).1
  groupOld : ∀ node keep p, Groups look p → node.param = some (pidFromPid look.conts p).2 →
    Sound look.conts → keeps (pidFromPid look.conts p).1 →
    keeps (groupPid (pidFromPid look.conts p).1 node keep (some p)).1

section Rule
variable {look : Lookup} {keeps : Containers → Prop}

theorem next_lookup_cases (look : Lookup) : nextLookup look = look ∨
    ∃ id c, look.node.contid = some id ∧ namedInImage look.conts look.node = some c ∧
      nextLookup look = (duplicateOrRefreshContainer look c id.text).1 := by
  rcases Option.eq_none_or_eq_some look.node.contid with unnamed | ⟨id, named⟩
  · left
    rw [nextLookup, searchImage]
    cases imageMatch look.conts look.node with
    | none => rfl
    | some i =>
        have none : (look.conts.imgAt i).conts.findSome? (checkContainerMatch look) = none := by
          rw [List.findSome?_eq_none_iff]
          intro c _
          rw [checkContainerMatch, unnamed]
          cases (look.conts.contAt c).contid <;> rfl
        rw [Option.bind_some, none]
        rfl
  · rw [nextLookup, searchImage]
    cases known : imageMatch look.conts look.node with
    | none => exact Or.inl rfl
    | some i =>
        rw [Option.bind_some, search_containers named]
        cases first : (look.conts.imgAt i).conts.find? (isMatch look.conts look.node) with
        | none => exact Or.inl rfl
        | some c =>
            rw [Option.map_some]
            by_cases byId : idMatch look.conts look.node c = true
            · rw [if_pos byId]
              exact Or.inl rfl
            · rw [if_neg byId]
              refine Or.inr ⟨id, c, named, ?_, rfl⟩
              rw [namedInImage, known, Option.bind_some, first, Option.filter_some_pos]
              simpa using byId

theorem named_in_image_member (sound : Sound look.conts) {c : Nat}
    (found : namedInImage look.conts look.node = some c) : c ∈ look.conts.cont := by
  obtain ⟨i, known, rest⟩ := Option.bind_eq_some_iff.mp found
  have first := (Option.filter_eq_some_iff.mp rest).1
  exact sound.imgConts i (List.mem_of_find?_eq_some known) c (List.mem_of_find?_eq_some first)

/-- A copy leaves a sound configuration with the container it returns. -/
theorem duplicate_sound (state : Lookup) (id : List Char) {c : Nat} (sound : Sound state.conts)
    (member : c ∈ state.conts.cont) :
    Sound (duplicateOrRefreshContainer state c id).1.conts ∧
      (duplicateOrRefreshContainer state c id).2 ∈
        (duplicateOrRefreshContainer state c id).1.conts.cont ∧
      (duplicateOrRefreshContainer state c id).1.conts.img = state.conts.img := by
  have grows := duplicate_grows state c id (sound.cont c member) (sound.contParm c member)
    (sound.ready member)
  have steps := copy_rule state c id (fun _ => True) _ rfl sound member (fun _ _ _ _ => trivial)
    (fun _ _ _ _ _ _ _ => trivial) (fun _ _ _ _ _ _ _ _ _ _ _ => trivial)
  exact ⟨steps.1, steps.2.1, grows.img⟩

theorem next_lookup_keeps (steps : StepsKeep look keeps) (sound : Sound look.conts)
    (start : keeps look.conts) : Sound (nextLookup look).conts ∧
      (nextLookup look).conts.img = look.conts.img ∧ (nextLookup look).node = look.node ∧
      keeps (nextLookup look).conts := by
  rcases next_lookup_cases look with same | ⟨id, c, named, found, same⟩
  · rw [same]
    exact ⟨sound, rfl, rfl, start⟩
  · have member := named_in_image_member sound found
    obtain ⟨sound', _, img⟩ := duplicate_sound look id.text sound member
    rw [same]
    exact ⟨sound', img, rfl, steps.copy look c id (Or.inl ⟨rfl, found⟩) named sound member start⟩

/-- The search in the list finds a container of the configuration it leaves. -/
theorem search_list_keeps (steps : StepsKeep look keeps) (sound : Sound look.conts)
    (start : keeps look.conts) {found : Lookup} {c : Nat} (search : searchList look = some (found, c)) :
    Sound found.conts ∧ c ∈ found.conts.cont ∧ found.conts.img = look.conts.img ∧
      found.node = look.node ∧ keeps found.conts := by
  obtain ⟨sound', img, node, holds⟩ := next_lookup_keeps steps sound start
  have list : (nextLookup look).conts.cont.findSome? (checkContainerMatch (nextLookup look)) =
      some (found, c) := search
  rcases Option.eq_none_or_eq_some (nextLookup look).node.contid with unnamed | ⟨id, named⟩
  · obtain ⟨x, _, hit⟩ := List.exists_of_findSome?_eq_some list
    rw [checkContainerMatch, unnamed] at hit
    cases own : ((nextLookup look).conts.contAt x).contid <;> rw [own] at hit <;> cases hit
  · rw [search_containers named] at list
    obtain ⟨g, first, ends⟩ := Option.map_eq_some_iff.mp list
    have member := List.mem_of_find?_eq_some first
    by_cases byId : idMatch (nextLookup look).conts (nextLookup look).node g = true
    · rw [if_pos byId] at ends
      cases ends
      exact ⟨sound', member, img, node, holds⟩
    · rw [if_neg byId] at ends
      obtain ⟨last, held, same⟩ := duplicate_sound (nextLookup look) id.text sound' member
      have pair : ((duplicateOrRefreshContainer (nextLookup look) g id.text).1,
          (duplicateOrRefreshContainer (nextLookup look) g id.text).2) = (found, c) := ends
      obtain ⟨rfl, rfl⟩ := Prod.mk.inj pair
      rw [node] at first byId named
      exact ⟨last, held, same.trans img, node,
        steps.copy _ g id (Or.inr ⟨rfl, first, by simpa using byId⟩) named sound' member holds⟩

/-- The last part of the lookup. -/
theorem find_in_container_keeps (steps : StepsKeep look keeps) (state : Lookup) {c : Nat}
    (img : Option Nat) (fromImg : Bool) (sound : Sound state.conts) (member : c ∈ state.conts.cont)
    (adopts : ∀ i, img = some i → i ∈ state.conts.img ∧
      (state.node.pid = 0 → (state.conts.contAt c).status.ccrt = true → Adopts look state i c))
    (holds : keeps state.conts) :
    Sound (findInContainer state img c fromImg).conts ∧
      keeps (findInContainer state img c fromImg).conts := by
  by_cases event : state.node.pid = 0
  · simp only [findInContainer, if_pos event]
    cases img with
    | none => exact ⟨fake_sound sound _, steps.fake _ _ sound holds⟩
    | some i =>
        obtain ⟨known, adopts⟩ := adopts i rfl
        dsimp only
        by_cases runtime : (state.conts.contAt c).status.ccrt = true
        · rw [if_pos runtime]
          obtain ⟨parm, writes, copy⟩ := adopt_img_writes state.conts i c (sound.imgParm i known)
          have adopted : Sound (adoptImg state.conts i c) := writes_cont_sound sound writes
            (copy.below (sound.imgParm i known) writes.grows.brk)
            (fun j same => by cases same; exact known) rfl (sound.contPids c member)
            (fun _ => member)
          exact ⟨fake_sound adopted _, steps.fake _ _ adopted
            (steps.adopt state i c (adopts event runtime) sound member known holds)⟩
        · rw [if_neg runtime]
          exact ⟨fake_sound sound _, steps.fake _ _ sound holds⟩
  · simp only [findInContainer, if_neg event]
    split
    · exact ⟨sound, holds⟩
    · obtain ⟨new, adds⟩ := pid_from_cont_adds state.conts c
      refine ⟨adds_pid_sound sound adds ((sound.contParm c member).mono adds.room.le)
        (fun i none => by cases none) rfl, steps.fromCont state.conts c sound member holds⟩

theorem group_new_sound {conts : Containers} (sound : Sound conts) (node : Node) (keep : Str) :
    Sound (groupPid conts node keep none).1 := by
  obtain ⟨grouped, writes, brk, adds⟩ := group_pid_new_steps conts node keep
  have middle := writes_cont_sound sound writes
    ⟨sound.attr.trans_le writes.grows.brk, sound.rscs.trans_le writes.grows.brk⟩
    (fun i none => by cases none) rfl (fun p none => by cases none) (fun old => by cases old)
  exact adds_pid_sound middle adds
    ⟨sound.attr.trans_le (writes.grows.brk.trans adds.grows.brk),
      sound.rscs.trans_le (writes.grows.brk.trans adds.grows.brk)⟩
    (fun i none => by cases none) rfl

theorem alone_sound {conts : Containers} (sound : Sound conts) {p : Nat} (inside : p ∈ conts.pids) :
    Sound (pidFromPid conts p).1 := by
  obtain ⟨new, parm, psig, adds, copy⟩ := pid_from_pid_adds conts p (sound.pids p inside)
    (sound.pidcParm p inside)
  exact adds_pid_sound sound adds (copy.below (sound.pidcParm p inside) adds.room.le)
    (fun i none => by cases none) rfl

theorem group_old_sound {conts : Containers} (sound : Sound conts) {node : Node} (keep : Str)
    {p q : Nat} (inside : p ∈ conts.pids) (param : node.param = some q) :
    Sound (groupPid conts node keep (some p)).1 := by
  obtain ⟨grouped, writes, same⟩ := group_pid_found_steps conts keep p q param
  rw [same]
  apply link_sound
  apply writes_cont_sound sound writes
    ⟨sound.attr.trans_le writes.grows.brk, sound.rscs.trans_le writes.grows.brk⟩
    (fun i none => by cases none) rfl ?_ (fun old => by cases old)
  intro x member
  rw [List.mem_singleton.mp member]
  exact inside

theorem find_unrelated_keeps (steps : StepsKeep look keeps) (task : look.node.pid ≠ 0)
    (image : imageMatch look.conts look.node = none)
    (list : look.conts.cont.find? (idMatch look.conts look.node) = none)
    (sound : Sound look.conts) (start : keeps look.conts) :
    Sound (findUnrelated look).1.conts ∧ keeps (findUnrelated look).1.conts := by
  rw [find_unrelated_match]
  cases search : signatureMatch look.conts look.node (unrelated look.conts) with
  | none =>
      dsimp only
      rw [groupUnrelated]
      split
      · exact ⟨group_new_sound sound _ _, steps.groupNew _ _ _ sound start⟩
      · exact ⟨sound, start⟩
  | some p =>
      have inside := unrelated_listed (signature_mem search)
      have copied := alone_sound sound inside
      have holds := steps.alone look.conts p sound inside start
      have listed : p ∈ (pidFromPid look.conts p).1.pids := by
        obtain ⟨_, _, _, adds, _⟩ := pid_from_pid_adds look.conts p (sound.pids p inside)
          (sound.pidcParm p inside)
        rw [adds.pids]
        exact List.mem_cons_of_mem _ inside
      dsimp only
      rw [groupUnrelated]
      split
      · rename_i id sig named signed
        have contid : look.node.contid ≠ none := by
          intro none
          dsimp only at named
          rw [none] at named
          cases named
        have groups : Groups look p := ⟨task, contid, image, list, search⟩
        have param : { look.node with param := some (pidFromPid look.conts p).2 }.param =
          some (pidFromPid look.conts p).2 := rfl
        exact ⟨group_old_sound copied id listed param,
          steps.groupOld _ id p groups param sound holds⟩
      · exact ⟨copied, holds⟩

/-- A lookup keeps what its steps keep. -/
theorem lookup_keeps {found : Lookup} {ok : Bool} (steps : StepsKeep look keeps)
    (run : findPidParameters look = .ok (found, ok)) (sound : Sound look.conts)
    (start : keeps look.conts) : Sound found.conts ∧ keeps found.conts := by
  obtain ⟨sound', img, node, holds⟩ := next_lookup_keeps steps sound start
  have known : ∀ i, imageMatch look.conts look.node = some i → i ∈ look.conts.img :=
    fun i image => List.mem_of_find?_eq_some image
  rw [find_pid_parameters_search] at run
  cases search : searchList look with
  | some pair =>
      obtain ⟨state, c⟩ := pair
      obtain ⟨last, held, same, sameNode, holds⟩ := search_list_keeps steps sound start search
      rw [search] at run
      cases run
      apply find_in_container_keeps steps state _ false last held (fun i image => ?_) holds
      rw [same]
      refine ⟨known i image, fun event runtime => ?_⟩
      rw [sameNode] at event
      exact ⟨event, image, search, runtime⟩
  | none =>
      rw [search] at run
      cases image : imageMatch look.conts look.node with
      | some i =>
          rw [image] at run
          obtain ⟨⟨conts, c⟩, made, rest⟩ := bind_ok run
          change contFromImg (nextLookup look).conts (nextLookup look).node i = .ok (conts, c) at made
          cases rest
          have named : ∃ id, (nextLookup look).node.contid = some id := by
            rcases Option.eq_none_or_eq_some (nextLookup look).node.contid with unnamed | named
            · rw [contFromImg, unnamed] at made
              cases made
            · exact named
          obtain ⟨id, named⟩ := named
          obtain ⟨loc, writes⟩ := cont_from_img_writes named made
          have inside : i ∈ (nextLookup look).conts.img := by
            rw [img]
            exact known i image
          have made' := writes_cont_sound sound' writes
            ((sound'.imgParm i inside).mono writes.grows.brk)
            (fun j same => by cases same; exact inside) rfl (fun p none => by cases none)
            (fun old => by cases old)
          have filled := steps.fromImg _ conts i c _ sound' inside writes holds
          have member : c ∈ conts.cont := by
            exact writes.held fun old => by cases old
          apply find_in_container_keeps steps { nextLookup look with conts := conts } (some i) true
            made' member (fun j same => ?_) filled
          cases same
          refine ⟨by rw [writes.grows.img]; exact inside, fun _ runtime => ?_⟩
          dsimp only at runtime
          rw [writes.contAt, Function.update_self] at runtime
          cases runtime
      | none =>
          rw [image] at run
          dsimp only at run
          split at run
          · cases run
            exact ⟨sound', holds⟩
          · rename_i task
            change (nextLookup look).node.pid ≠ 0 at task
            change Except.ok (findUnrelated (nextLookup look)) = Except.ok (found, ok) at run
            rw [node] at task
            have idle : nextLookup look = look := (task_search task).1
            have list : look.conts.cont.find? (idMatch look.conts look.node) = none := by
              rw [(task_search task).2] at search
              exact Option.map_eq_none_iff.mp search
            have ends := find_unrelated_keeps steps task image list sound start
            rw [idle] at run
            generalize findUnrelated look = result at ends run
            cases run
            exact ends

end Rule

/-- Configurations after any lookups that fit, in any order. -/
inductive Reached (fits : Lookup → Prop) (start : Containers) : Containers → Prop where
  | start : Reached fits start start
  | lookup {conts : Containers} {nhead : List Node} {node : Node} {found : Lookup} {ok : Bool} :
      Reached fits start conts → fits ⟨conts, nhead, node⟩ →
      findPidParameters ⟨conts, nhead, node⟩ = .ok (found, ok) → Reached fits start found.conts

/-- What the steps of every lookup that fits keep holds along the run. -/
theorem reached_keeps {fits : Lookup → Prop} {keeps : Containers → Prop} {start conts : Containers}
    (steps : ∀ look, fits look → StepsKeep look keeps) (sound : Sound start) (first : keeps start)
    (run : Reached fits start conts) : Sound conts ∧ keeps conts := by
  induction run with
  | start => exact ⟨sound, first⟩
  | lookup _ fit found ih => exact lookup_keeps (steps _ fit) found ih.1 ih.2

end Orchestrator.LookupRun
