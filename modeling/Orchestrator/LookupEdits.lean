import Orchestrator.PidLookup

/-!
What the steps of the lookup write. Each one adds or refreshes one element with
its links; everything that was allocated before keeps its value.
-/

namespace Orchestrator.LookupEdits
open Orchdata PidLookup

/-- Elements and links are the same. -/
structure SameGraph (before after : Containers) : Prop where
  img : after.img = before.img
  cont : after.cont = before.cont
  pids : after.pids = before.pids
  imgAt : after.imgAt = before.imgAt
  contAt : after.contAt = before.contAt
  pidcAt : after.pidcAt = before.pidcAt

theorem SameGraph.refl (conts : Containers) : SameGraph conts conts := ⟨rfl, rfl, rfl, rfl, rfl, rfl⟩

/-- Settings that were allocated keep their values, images and defaults stay. -/
structure Grows (before after : Containers) : Prop where
  brk : before.brk ≤ after.brk
  img : after.img = before.img
  attr : after.attr = before.attr
  rscs : after.rscs = before.rscs
  attrAt : ∀ a < before.brk, after.attrAt a = before.attrAt a
  rscsAt : ∀ r < before.brk, after.rscsAt r = before.rscsAt r

theorem Grows.refl (conts : Containers) : Grows conts conts :=
  ⟨le_rfl, rfl, rfl, rfl, fun _ _ => rfl, fun _ _ => rfl⟩

theorem Grows.trans {first second third : Containers} (one : Grows first second)
    (two : Grows second third) : Grows first third where
  brk := one.brk.trans two.brk
  img := two.img.trans one.img
  attr := two.attr.trans one.attr
  rscs := two.rscs.trans one.rscs
  attrAt := fun a below =>
    (two.attrAt a (below.trans_le one.brk)).trans (one.attrAt a below)
  rscsAt := fun r below =>
    (two.rscsAt r (below.trans_le one.brk)).trans (one.rscsAt r below)

/-- A missing mask counts as an empty one. -/
def withMask (rscs : SchedRscs) : SchedRscs :=
  { rscs with affinityMask := some (rscs.affinityMask.getD ∅) }

/-- A container created at runtime, with the default settings. -/
def runtimeEntry (conts : Containers) (keep : Str) (members : List Nat) : Cont where
  contid := some keep
  status := { ccrt := true, shat := true, shrc := true }
  attr := conts.attr
  rscs := conts.rscs
  pids := members

/-- Settings below the next free address. -/
def Below (brk : Nat) (parm : Parm) : Prop := parm.attr < brk ∧ parm.rscs < brk

/-- Settings as `copyResourceConfigC` makes them: the shared ones are the same
objects, the others new ones of the same value. -/
structure CopyOf (before after : Containers) (source result : Parm) : Prop where
  status : result.status = source.status
  sharedAttr : source.status.shat = true → result.attr = source.attr
  sharedRscs : source.status.shrc = true → result.rscs = source.rscs
  newAttr : source.status.shat = false → before.brk ≤ result.attr ∧ result.attr < after.brk ∧
    after.attrAt result.attr = before.attrAt source.attr
  newRscs : source.status.shrc = false → before.brk ≤ result.rscs ∧ result.rscs < after.brk ∧
    after.rscsAt result.rscs = withMask (before.rscsAt source.rscs)

theorem copy_resource_config (conts : Containers) (source : Parm)
    (below : Below conts.brk source) :
    SameGraph conts (copyResourceConfigC conts source).1 ∧
      Grows conts (copyResourceConfigC conts source).1 ∧
      CopyOf conts (copyResourceConfigC conts source).1 source
        (copyResourceConfigC conts source).2 := by
  obtain ⟨attr, rscs⟩ := below
  have other : ∀ {a brk : Nat}, a < brk → a ≠ brk := fun less => Nat.ne_of_lt less
  simp only [copyResourceConfigC]
  by_cases shat : source.status.shat = true <;> by_cases shrc : source.status.shrc = true <;>
    simp only [shat, shrc, ↓reduceIte]
  · exact ⟨SameGraph.refl _, Grows.refl _, rfl, fun _ => rfl, fun _ => rfl, by simp [shat],
      by simp [shrc]⟩
  · refine ⟨⟨rfl, rfl, rfl, rfl, rfl, rfl⟩, ⟨by simp [Containers.newRscs], rfl, rfl, rfl,
      fun _ _ => rfl, fun r less => by simp [Containers.newRscs, other less]⟩,
      ⟨rfl, fun _ => rfl, by simp [shrc], by simp [shat], fun _ => ?_⟩⟩
    simp [Containers.newRscs, withMask]
  · refine ⟨⟨rfl, rfl, rfl, rfl, rfl, rfl⟩, ⟨by simp [Containers.newAttr], rfl, rfl, rfl,
      fun a less => by simp [Containers.newAttr, other less], fun _ _ => rfl⟩,
      ⟨rfl, by simp [shat], fun _ => rfl, fun _ => ?_, by simp [shrc]⟩⟩
    simp [Containers.newAttr]
  · refine ⟨⟨rfl, rfl, rfl, rfl, rfl, rfl⟩, ⟨?_, rfl, rfl, rfl,
      fun a less => by simp [Containers.newAttr, Containers.newRscs, other less],
      fun r less => ?_⟩,
      ⟨rfl, by simp [shat], by simp [shrc], fun _ => ?_, fun _ => ?_⟩⟩
    · simp [Containers.newAttr, Containers.newRscs]
      omega
    · have apart : r ≠ conts.brk + 1 := by omega
      simp [Containers.newAttr, Containers.newRscs, apart]
    · have room : conts.brk < conts.brk + 1 + 1 := by omega
      simp [Containers.newAttr, Containers.newRscs, room]
    · simp [Containers.newAttr, Containers.newRscs, withMask]

/-- A copy made from an earlier state, seen from a later one. -/
theorem CopyOf.between {first before after last : Containers} {source result : Parm}
    (copy : CopyOf before after source result) (start : Grows first before)
    (below : Below first.brk source) (rest : Grows after last) :
    CopyOf first last source result where
  status := copy.status
  sharedAttr := copy.sharedAttr
  sharedRscs := copy.sharedRscs
  newAttr := fun own => by
    obtain ⟨lower, upper, value⟩ := copy.newAttr own
    refine ⟨start.brk.trans lower, upper.trans_le rest.brk, ?_⟩
    rw [rest.attrAt _ upper, value, start.attrAt _ below.1]
  newRscs := fun own => by
    obtain ⟨lower, upper, value⟩ := copy.newRscs own
    refine ⟨start.brk.trans lower, upper.trans_le rest.brk, ?_⟩
    rw [rest.rscsAt _ upper, value, start.rscsAt _ below.2]

/-- Images after a push to `img->conts`. -/
def withCont (imgAt : Nat → Img) (img : Option Nat) (c : Nat) : Nat → Img :=
  match img with
  | none => imgAt
  | some i => Function.update imgAt i { imgAt i with conts := c :: (imgAt i).conts }

/-- Images after a push to `img->pids`. -/
def withPid (imgAt : Nat → Img) (img : Option Nat) (p : Nat) : Nat → Img :=
  match img with
  | none => imgAt
  | some i => Function.update imgAt i { imgAt i with pids := p :: (imgAt i).pids }

/-- Containers after a push to `cont->pids`. -/
def withMember (contAt : Nat → Cont) (owner : Option Nat) (p : Nat) : Nat → Cont :=
  match owner with
  | none => contAt
  | some c => Function.update contAt c { contAt c with pids := p :: (contAt c).pids }

/-- A new PID configuration in front, linked from a container and an image. -/
structure AddsPid (before after : Containers) (entry : Pidc) (owner img : Option Nat) : Prop where
  grows : Grows before after
  room : before.brk < after.brk
  cont : after.cont = before.cont
  pids : after.pids = before.brk :: before.pids
  imgAt : after.imgAt = withPid before.imgAt img before.brk
  contAt : after.contAt = withMember before.contAt owner before.brk
  pidcAt : after.pidcAt = Function.update before.pidcAt before.brk entry

/-- A container written, linked from an image; `new` if it is put in front. -/
structure WritesCont (before after : Containers) (c : Nat) (entry : Cont) (new : Bool)
    (img : Option Nat) : Prop where
  grows : Grows before after
  room : new → c = before.brk ∧ before.brk < after.brk
  cont : after.cont = if new then c :: before.cont else before.cont
  pids : after.pids = before.pids
  imgAt : after.imgAt = withCont before.imgAt img c
  contAt : after.contAt = Function.update before.contAt c entry
  pidcAt : after.pidcAt = before.pidcAt

theorem WritesCont.kept {before after : Containers} {c : Nat} {entry : Cont} {new : Bool}
    {img : Option Nat} (writes : WritesCont before after c entry new img) {x : Nat}
    (held : x ∈ before.cont) : x ∈ after.cont := by
  rw [writes.cont]
  cases new with
  | true => exact List.mem_cons_of_mem c held
  | false => exact held

theorem WritesCont.held {before after : Containers} {c : Nat} {entry : Cont} {new : Bool}
    {img : Option Nat} (writes : WritesCont before after c entry new img)
    (listed : new = false → c ∈ before.cont) : c ∈ after.cont := by
  rw [writes.cont]
  cases new with
  | true => exact List.mem_cons_self
  | false => exact listed rfl

theorem WritesCont.older {before after : Containers} {c : Nat} {entry : Cont} {new : Bool}
    {img : Option Nat} (writes : WritesCont before after c entry new img) {x : Nat} (other : x ≠ c)
    (member : x ∈ after.cont) : x ∈ before.cont := by
  rw [writes.cont] at member
  cases new with
  | true => exact List.mem_of_ne_of_mem other member
  | false => exact member

theorem link_img_pid_img_at (conts : Containers) (img : Option Nat) (p : Nat) :
    linkImgPid conts img p = { conts with imgAt := withPid conts.imgAt img p } := by
  cases img <;> rfl

/-- A PID of a refreshed container: settings and image of the container. -/
theorem refresh_pid_eq (c : Nat) (conts : Containers) (p : Nat) :
    refreshPid c conts p =
      { conts with
        pidcAt := Function.update conts.pidcAt p
          { conts.pidcAt p with
            attr := (conts.contAt c).attr
            rscs := (conts.contAt c).rscs
            img := (conts.contAt c).img }
        imgAt := withPid conts.imgAt (conts.contAt c).img p } := by
  rw [refreshPid, link_img_pid_img_at]
  rfl

theorem grows_of_settings {before after : Containers} (brk : before.brk ≤ after.brk)
    (img : after.img = before.img) (attr : after.attr = before.attr)
    (rscs : after.rscs = before.rscs) (attrAt : after.attrAt = before.attrAt)
    (rscsAt : after.rscsAt = before.rscsAt) : Grows before after :=
  ⟨brk, img, attr, rscs, fun a _ => by rw [attrAt], fun r _ => by rw [rscsAt]⟩

/-- The duplicate of a PID configuration in container `c`. -/
theorem duplicate_pid_adds (c : Nat) (conts : Containers) (p : Nat) (old : p < conts.brk)
    (below : Below conts.brk (conts.pidcAt p).toParm) :
    ∃ entry, AddsPid conts (duplicatePid c conts p) entry (some c) (conts.pidcAt p).img ∧
      CopyOf conts (duplicatePid c conts p) (conts.pidcAt p).toParm entry.toParm ∧
      entry.cont = some (.cont c) ∧ entry.img = (conts.pidcAt p).img ∧
      entry.psig.map Str.text = (conts.pidcAt p).psig.map Str.text := by
  have apart : p ≠ conts.brk := Nat.ne_of_lt old
  -- the state in which the settings are copied
  obtain ⟨named, psig, run, text, start, graph⟩ : ∃ named psig,
      duplicatePid c conts p =
        linkImgPid ((copyResourceConfigC named (conts.pidcAt p).toParm).1.setPidc conts.brk
          { toParm := (copyResourceConfigC named (conts.pidcAt p).toParm).2, psig := psig,
            cont := some (.cont c),
            img := ((copyResourceConfigC named (conts.pidcAt p).toParm).1.pidcAt p).img })
          ((copyResourceConfigC named (conts.pidcAt p).toParm).1.pidcAt p).img conts.brk ∧
      psig.map Str.text = (conts.pidcAt p).psig.map Str.text ∧
      Grows (linkContPid conts.pushPidc c conts.brk) named ∧
      SameGraph (linkContPid conts.pushPidc c conts.brk) named := by
    have same : (linkContPid conts.pushPidc c conts.brk).pidcAt p = conts.pidcAt p := by
      simp [linkContPid, Containers.setCont, Containers.pushPidc, apart]
    rw [duplicatePid]
    simp only [same]
    cases psig : (conts.pidcAt p).psig with
    | none =>
        refine ⟨linkContPid conts.pushPidc c conts.brk, none, ?_, rfl, Grows.refl _,
          SameGraph.refl _⟩
        simp only [same]
    | some text =>
        refine ⟨((linkContPid conts.pushPidc c conts.brk).strdup text.text).1,
          some ((linkContPid conts.pushPidc c conts.brk).strdup text.text).2, ?_, rfl,
          grows_of_settings (Nat.le_succ _) rfl rfl rfl rfl rfl, ⟨rfl, rfl, rfl, rfl, rfl, rfl⟩⟩
        have still : ((linkContPid conts.pushPidc c conts.brk).strdup text.text).1.pidcAt p =
          conts.pidcAt p := same
        simp only [still]
  have pushed : Grows conts (linkContPid conts.pushPidc c conts.brk) :=
    grows_of_settings (Nat.le_succ _) rfl rfl rfl rfl rfl
  have room : conts.brk < named.brk := Nat.lt_of_succ_le start.brk
  obtain ⟨same, grows, copy⟩ := copy_resource_config named (conts.pidcAt p).toParm
    ⟨below.1.trans room, below.2.trans room⟩
  have known : (copyResourceConfigC named (conts.pidcAt p).toParm).1.pidcAt p = conts.pidcAt p := by
    rw [same.pidcAt, graph.pidcAt]
    simp [linkContPid, Containers.setCont, Containers.pushPidc, apart]
  rw [known, link_img_pid_img_at] at run
  rw [run]
  have rest : Grows (copyResourceConfigC named (conts.pidcAt p).toParm).1
      { (copyResourceConfigC named (conts.pidcAt p).toParm).1.setPidc conts.brk
        { toParm := (copyResourceConfigC named (conts.pidcAt p).toParm).2, psig := psig,
          cont := some (.cont c), img := (conts.pidcAt p).img } with
        imgAt := withPid ((copyResourceConfigC named (conts.pidcAt p).toParm).1.setPidc conts.brk
          { toParm := (copyResourceConfigC named (conts.pidcAt p).toParm).2, psig := psig,
            cont := some (.cont c), img := (conts.pidcAt p).img }).imgAt
          (conts.pidcAt p).img conts.brk } :=
    grows_of_settings le_rfl rfl rfl rfl rfl rfl
  refine ⟨{ toParm := (copyResourceConfigC named (conts.pidcAt p).toParm).2, psig := psig,
            cont := some (.cont c), img := (conts.pidcAt p).img },
    ⟨((pushed.trans start).trans grows).trans rest, room.trans_le grows.brk,
    ?_, ?_, ?_, ?_, ?_⟩, copy.between (pushed.trans start) below rest, rfl, rfl, text⟩
  · exact same.cont.trans graph.cont
  · exact same.pids.trans graph.pids
  · change withPid (copyResourceConfigC named (conts.pidcAt p).toParm).1.imgAt _ _ = _
    rw [same.imgAt, graph.imgAt]
    rfl
  · exact same.contAt.trans graph.contAt
  · change Function.update (copyResourceConfigC named (conts.pidcAt p).toParm).1.pidcAt _ _ = _
    rw [same.pidcAt, graph.pidcAt]
    exact Function.update_idem _ _ _

/-- The container that gets the settings of `dlCont`, with its link to the image. -/
def fillCont (conts : Containers) (dlCont : Nat) (id : List Char) : Containers × Nat :=
  let (present, cont) := match runtimeCont conts dlCont id with
    | some cont => (conts, cont)
    | none =>
        let pushed := conts.pushCont
        let (duplicated, contid) := pushed.strdup id
        (duplicated.setCont conts.brk
          { duplicated.contAt conts.brk with contid := some contid }, conts.brk)
  let (copied, parm) := copyResourceConfigC present (present.contAt dlCont).toParm
  let img := (copied.contAt dlCont).img
  let filled := copied.setCont cont { copied.contAt cont with toParm := parm, img := img }
  (match img with
    | none => filled
    | some i => linkCont filled i cont, cont)

/-- First the container, then its own PIDs, then duplicates of the PIDs of `dlCont`. -/
theorem duplicate_or_refresh_conts (look : Lookup) (dlCont : Nat) (id : List Char) :
    (duplicateOrRefreshContainer look dlCont id).1.conts =
      let (linked, cont) := fillCont look.conts dlCont id
      let refreshed := (linked.contAt cont).pids.foldl (refreshPid cont) linked
      (refreshed.contAt dlCont).pids.foldl (duplicatePid cont) refreshed := rfl

theorem duplicate_or_refresh_cont (look : Lookup) (dlCont : Nat) (id : List Char) :
    (duplicateOrRefreshContainer look dlCont id).2 = (fillCont look.conts dlCont id).2 := rfl

theorem duplicate_or_refresh_node (look : Lookup) (dlCont : Nat) (id : List Char) :
    (duplicateOrRefreshContainer look dlCont id).1.node = look.node := rfl

/-- What a container created at runtime satisfies. -/
theorem runtime_cont_some {conts : Containers} {dlCont r : Nat} {id : List Char}
    (found : runtimeCont conts dlCont id = some r) :
    r ∈ conts.cont ∧ r ≠ dlCont ∧ (conts.contAt r).status.ccrt = true ∧
      ∃ contid, (conts.contAt r).contid = some contid ∧ sameId contid.text id = true := by
  have holds := List.find?_some found
  refine ⟨List.mem_of_find?_eq_some found, ?_⟩
  cases own : (conts.contAt r).contid with
  | none => simp [own] at holds
  | some contid =>
      simp only [own, Option.any_some, Bool.and_eq_true, bne_iff_ne] at holds
      exact ⟨holds.1.1, holds.1.2, contid, rfl, holds.2⟩

theorem link_cont_img_at (conts : Containers) (img : Option Nat) (c : Nat) :
    (match img with
      | none => conts
      | some i => linkCont conts i c) = { conts with imgAt := withCont conts.imgAt img c } := by
  cases img <;> rfl

theorem fill_cont_none {conts : Containers} {dlCont : Nat} {id : List Char}
    (absent : runtimeCont conts dlCont id = none) : (fillCont conts dlCont id).2 = conts.brk := by
  simp only [fillCont, absent]

theorem fill_cont_some {conts : Containers} {dlCont r : Nat} {id : List Char}
    (found : runtimeCont conts dlCont id = some r) : (fillCont conts dlCont id).2 = r := by
  simp only [fillCont, found]

/-- The entry written by `fillCont`: a new one under `id`, or the one found. -/
structure Filled (conts after : Containers) (dlCont : Nat) (id : List Char) (entry : Cont) :
    Prop where
  copy : CopyOf conts after (conts.contAt dlCont).toParm entry.toParm
  img : entry.img = (conts.contAt dlCont).img
  created : runtimeCont conts dlCont id = none →
    entry.pids = [] ∧ entry.contid.map Str.text = some id
  refreshed : ∀ r, runtimeCont conts dlCont id = some r →
    entry.pids = (conts.contAt r).pids ∧ entry.contid = (conts.contAt r).contid

/-- A container of the id is there: it is refreshed. -/
theorem fill_cont_refreshes (conts : Containers) (dlCont : Nat) (id : List Char) {r : Nat}
    (search : runtimeCont conts dlCont id = some r)
    (below : Below conts.brk (conts.contAt dlCont).toParm) :
    ∃ entry, WritesCont conts (fillCont conts dlCont id).1 (fillCont conts dlCont id).2 entry
        false (conts.contAt dlCont).img ∧
      Filled conts (fillCont conts dlCont id).1 dlCont id entry := by
  obtain ⟨_, other, _⟩ := runtime_cont_some search
  obtain ⟨same, grows, copy⟩ := copy_resource_config conts (conts.contAt dlCont).toParm below
  have run : fillCont conts dlCont id =
      ({ (copyResourceConfigC conts (conts.contAt dlCont).toParm).1 with
        contAt := Function.update conts.contAt r
          { conts.contAt r with
            toParm := (copyResourceConfigC conts (conts.contAt dlCont).toParm).2
            img := (conts.contAt dlCont).img }
        imgAt := withCont conts.imgAt (conts.contAt dlCont).img r }, r) := by
    simp only [fillCont, search, link_cont_img_at, same.contAt, Containers.setCont, same.imgAt]
  have rest : Grows (copyResourceConfigC conts (conts.contAt dlCont).toParm).1
      (fillCont conts dlCont id).1 := by
    rw [run]
    exact grows_of_settings le_rfl rfl rfl rfl rfl rfl
  refine ⟨{ conts.contAt r with
            toParm := (copyResourceConfigC conts (conts.contAt dlCont).toParm).2
            img := (conts.contAt dlCont).img },
    ⟨grows.trans rest, fun none => by simp at none, ?_, ?_, ?_, ?_, ?_⟩,
    copy.between (Grows.refl conts) below rest, ?_, fun none => ?_, ?_⟩
  · rw [run]
    exact same.cont
  · rw [run]
    exact same.pids
  · rw [run]
  · rw [run]
  · rw [run]
    exact same.pidcAt
  · rfl
  · rw [search] at none
    cases none
  · intro other found
    rw [search] at found
    cases found
    exact ⟨rfl, rfl⟩

/-- None is there: one is created. -/
theorem fill_cont_creates (conts : Containers) (dlCont : Nat) (id : List Char)
    (old : dlCont < conts.brk) (search : runtimeCont conts dlCont id = none)
    (below : Below conts.brk (conts.contAt dlCont).toParm) :
    ∃ entry, WritesCont conts (fillCont conts dlCont id).1 (fillCont conts dlCont id).2 entry
        true (conts.contAt dlCont).img ∧
      Filled conts (fillCont conts dlCont id).1 dlCont id entry := by
  have apart : dlCont ≠ conts.brk := Nat.ne_of_lt old
  let present := (conts.pushCont.strdup id).1.setCont conts.brk
    { conts.pushCont.contAt conts.brk with contid := some (conts.pushCont.strdup id).2 }
  have start : Grows conts present :=
    grows_of_settings (Nat.le_trans (Nat.le_succ _) (Nat.le_succ _)) rfl rfl rfl rfl rfl
  have known : present.contAt dlCont = conts.contAt dlCont := by
    simp [present, Containers.setCont, Containers.strdup, Containers.pushCont, apart]
  have room : conts.brk < present.brk := Nat.lt_succ_of_lt (Nat.lt_succ_self _)
  obtain ⟨same, grows, copy⟩ := copy_resource_config present (conts.contAt dlCont).toParm
    ⟨below.1.trans room, below.2.trans room⟩
  have run : fillCont conts dlCont id =
      ({ (copyResourceConfigC present (conts.contAt dlCont).toParm).1 with
        contAt := Function.update present.contAt conts.brk
          { present.contAt conts.brk with
            toParm := (copyResourceConfigC present (conts.contAt dlCont).toParm).2
            img := (conts.contAt dlCont).img }
        imgAt := withCont conts.imgAt (conts.contAt dlCont).img conts.brk }, conts.brk) := by
    have unfolded : fillCont conts dlCont id =
        (match ((copyResourceConfigC present (present.contAt dlCont).toParm).1.contAt dlCont).img with
          | none => (copyResourceConfigC present (present.contAt dlCont).toParm).1.setCont conts.brk
              { (copyResourceConfigC present (present.contAt dlCont).toParm).1.contAt conts.brk with
                toParm := (copyResourceConfigC present (present.contAt dlCont).toParm).2
                img := ((copyResourceConfigC present (present.contAt dlCont).toParm).1.contAt
                  dlCont).img }
          | some i => linkCont ((copyResourceConfigC present
              (present.contAt dlCont).toParm).1.setCont conts.brk
              { (copyResourceConfigC present (present.contAt dlCont).toParm).1.contAt conts.brk with
                toParm := (copyResourceConfigC present (present.contAt dlCont).toParm).2
                img := ((copyResourceConfigC present (present.contAt dlCont).toParm).1.contAt
                  dlCont).img }) i conts.brk, conts.brk) := by
      simp only [fillCont, search]
      rfl
    rw [unfolded, link_cont_img_at]
    simp only [known, same.contAt, Containers.setCont, same.imgAt]
    rfl
  have rest : Grows (copyResourceConfigC present (conts.contAt dlCont).toParm).1
      (fillCont conts dlCont id).1 := by
    rw [run]
    exact grows_of_settings le_rfl rfl rfl rfl rfl rfl
  refine ⟨{ present.contAt conts.brk with
            toParm := (copyResourceConfigC present (conts.contAt dlCont).toParm).2
            img := (conts.contAt dlCont).img },
    ⟨(start.trans grows).trans rest, fun _ => ?_, ?_, ?_, ?_, ?_, ?_⟩,
    copy.between start below rest, ?_, fun _ => ?_, fun r found => ?_⟩
  · rw [run]
    exact ⟨rfl, room.trans_le grows.brk⟩
  · rw [run]
    exact same.cont
  · rw [run]
    exact same.pids
  · rw [run]
  · rw [run]
    funext x
    by_cases this : x = conts.brk
    · subst this
      simp only [Function.update_self]
    · simp [this, present, Containers.setCont, Containers.strdup, Containers.pushCont]
  · rw [run]
    exact same.pidcAt
  · rfl
  · simp [present, Containers.setCont, Containers.strdup, Containers.pushCont]
  · rw [search] at found
    cases found

theorem fill_cont_writes (conts : Containers) (dlCont : Nat) (id : List Char)
    (old : dlCont < conts.brk)
    (below : Below conts.brk (conts.contAt dlCont).toParm) :
    ∃ entry, WritesCont conts (fillCont conts dlCont id).1 (fillCont conts dlCont id).2 entry
        (runtimeCont conts dlCont id).isNone (conts.contAt dlCont).img ∧
      Filled conts (fillCont conts dlCont id).1 dlCont id entry := by
  cases search : runtimeCont conts dlCont id with
  | some r => exact fill_cont_refreshes conts dlCont id search below
  | none => exact fill_cont_creates conts dlCont id old search below

/-- A container created at runtime takes over its image. -/
theorem adopt_img_writes (conts : Containers) (i c : Nat)
    (below : Below conts.brk (conts.imgAt i).toParm) :
    ∃ parm, WritesCont conts (adoptImg conts i c) c
        { conts.contAt c with
          toParm := { parm with
            status := { parm.status with
              cfix := parm.status.cfix || (conts.contAt c).status.cfix
              ccrt := false } }
          img := some i } false (some i) ∧
      CopyOf conts (adoptImg conts i c) (conts.imgAt i).toParm parm := by
  have known : ((linkCont conts i c).imgAt i).toParm = (conts.imgAt i).toParm := by
    simp [linkCont, Containers.setImg]
  obtain ⟨same, grows, copy⟩ := copy_resource_config (linkCont conts i c) (conts.imgAt i).toParm below
  have run : adoptImg conts i c =
      { (copyResourceConfigC (linkCont conts i c) (conts.imgAt i).toParm).1 with
        contAt := Function.update conts.contAt c
          { conts.contAt c with
            toParm := { (copyResourceConfigC (linkCont conts i c) (conts.imgAt i).toParm).2 with
              status := { (copyResourceConfigC (linkCont conts i c)
                  (conts.imgAt i).toParm).2.status with
                cfix := (copyResourceConfigC (linkCont conts i c)
                  (conts.imgAt i).toParm).2.status.cfix || (conts.contAt c).status.cfix
                ccrt := false } }
            img := some i } } := by
    rw [adoptImg]
    simp only [known, same.contAt, Containers.setCont]
    rfl
  have linked : Grows conts (linkCont conts i c) :=
    grows_of_settings le_rfl rfl rfl rfl rfl rfl
  have rest : Grows (copyResourceConfigC (linkCont conts i c) (conts.imgAt i).toParm).1
      (adoptImg conts i c) := by
    rw [run]
    exact grows_of_settings le_rfl rfl rfl rfl rfl rfl
  refine ⟨(copyResourceConfigC (linkCont conts i c) (conts.imgAt i).toParm).2,
    ⟨(linked.trans grows).trans rest, (fun none => by cases none), ?_, ?_, ?_, ?_, ?_⟩,
    copy.between linked below rest⟩
  · rw [run]
    exact same.cont
  · rw [run]
    exact same.pids
  · rw [run]
    exact same.imgAt
  · rw [run]
  · rw [run]
    exact same.pidcAt

/-- A container for the settings of an image. -/
theorem cont_from_img_writes {conts after : Containers} {node : Node} {id : Str} {i c : Nat}
    (named : node.contid = some id) (run : contFromImg conts node i = .ok (after, c)) :
    ∃ loc, WritesCont conts after c
      { contid := some ⟨loc, id.text⟩
        img := some i
        status := { shat := true, shrc := true }
        attr := (conts.imgAt i).attr
        rscs := (conts.imgAt i).rscs } true (some i) := by
  simp only [contFromImg, named] at run
  cases run
  refine ⟨conts.brk + 1, grows_of_settings (Nat.le_trans (Nat.le_succ _) (Nat.le_succ _)) rfl rfl
    rfl rfl rfl, fun _ => ⟨rfl, Nat.lt_succ_of_lt (Nat.lt_succ_self _)⟩, rfl, rfl, rfl, ?_, rfl⟩
  funext x
  by_cases this : x = conts.brk
  · subst this
    simp [linkCont, Containers.setCont, Containers.setImg, Containers.strdup, Containers.pushCont]
  · simp [this, linkCont, Containers.setCont, Containers.setImg, Containers.strdup,
      Containers.pushCont]

/-- The configuration of a PID that has the settings of its container. -/
theorem pid_from_cont_adds (conts : Containers) (c : Nat) :
    (pidFromCont conts c).2 = conts.brk ∧
      AddsPid conts (pidFromCont conts c).1
        { status := { shat := true, shrc := true }
          attr := (conts.contAt c).attr
          rscs := (conts.contAt c).rscs
          cont := some (.cont c) } (some c) none := by
  refine ⟨rfl, grows_of_settings (Nat.le_succ _) rfl rfl rfl rfl rfl, Nat.lt_succ_self _, rfl, rfl,
    rfl, rfl, ?_⟩
  simp [pidFromCont, linkContPid, Containers.setPidc, Containers.setCont, Containers.pushPidc]

/-- The duplicate of a PID configuration on its own. -/
theorem pid_from_pid_adds (conts : Containers) (curr : Nat) (old : curr < conts.brk)
    (below : Below conts.brk (conts.pidcAt curr).toParm) :
    (pidFromPid conts curr).2 = conts.brk ∧
      ∃ parm psig, AddsPid conts (pidFromPid conts curr).1 { toParm := parm, psig := psig } none none ∧
        CopyOf conts (pidFromPid conts curr).1
          { (conts.pidcAt curr).toParm with
            status := { (conts.pidcAt curr).status with shat := false, shrc := false } } parm := by
  have apart : curr ≠ conts.brk := Nat.ne_of_lt old
  have known : (conts.pushPidc.pidcAt curr) = conts.pidcAt curr := by
    simp [Containers.pushPidc, apart]
  let named := (conts.pushPidc.strdup (((conts.pidcAt curr).psig.map Str.text).getD [])).1
  let source : Parm := { (conts.pidcAt curr).toParm with
    status := { (conts.pidcAt curr).status with shat := false, shrc := false } }
  have start : Grows conts named :=
    grows_of_settings (Nat.le_trans (Nat.le_succ _) (Nat.le_succ _)) rfl rfl rfl rfl rfl
  have room : conts.brk < named.brk := Nat.lt_succ_of_lt (Nat.lt_succ_self _)
  obtain ⟨same, grows, copy⟩ := copy_resource_config named source
    ⟨below.1.trans room, below.2.trans room⟩
  have run : (pidFromPid conts curr).1 =
      { (copyResourceConfigC named source).1 with
        pidcAt := Function.update named.pidcAt conts.brk
          { toParm := (copyResourceConfigC named source).2
            psig := some (conts.pushPidc.strdup
              (((conts.pidcAt curr).psig.map Str.text).getD [])).2 }
        nthreads := (copyResourceConfigC named source).1.nthreads + 1 } := by
    have still : (conts.pushPidc.strdup (((conts.pidcAt curr).psig.map Str.text).getD [])).1.pidcAt
        curr = conts.pidcAt curr := known
    simp only [pidFromPid, known, Containers.setPidc, still]
    rw [same.pidcAt]
  have rest : Grows (copyResourceConfigC named source).1 (pidFromPid conts curr).1 := by
    rw [run]
    exact grows_of_settings le_rfl rfl rfl rfl rfl rfl
  refine ⟨rfl, (copyResourceConfigC named source).2, some (conts.pushPidc.strdup
      (((conts.pidcAt curr).psig.map Str.text).getD [])).2,
    ⟨(start.trans grows).trans rest, ?_, ?_, ?_, ?_, ?_, ?_⟩, copy.between start below rest⟩
  · rw [run]
    exact room.trans_le grows.brk
  · rw [run]
    exact same.cont
  · rw [run]
    exact same.pids
  · rw [run]
    exact same.imgAt
  · rw [run]
    exact same.contAt
  · rw [run]
    exact Function.update_idem _ _ _

/-- Grouping of a PID without configuration. -/
theorem group_pid_new (conts : Containers) (node : Node) (keep : Str) :
    groupPid conts node keep none =
      ({ conts with
        cont := conts.brk :: conts.cont
        contAt := Function.update conts.contAt conts.brk
          (runtimeEntry conts keep [conts.brk + 1])
        pids := (conts.brk + 1) :: conts.pids
        pidcAt := Function.update conts.pidcAt (conts.brk + 1)
          { psig := node.psig
            status := { shat := true, shrc := true }
            attr := conts.attr
            rscs := conts.rscs
            cont := some (.cont conts.brk) }
        nthreads := conts.nthreads + 1
        brk := conts.brk + 2 }, { node with param := some (conts.brk + 1) }) := by
  simp [groupPid, groupMember, setParamCont, linkContPid, Containers.pushCont, Containers.pushPidc,
    Containers.setCont, Containers.setPidc, runtimeEntry]

/-- The new group is a container with the defaults, the PID shares its settings. -/
theorem group_pid_new_steps (conts : Containers) (node : Node) (keep : Str) :
    ∃ grouped, WritesCont conts grouped conts.brk (runtimeEntry conts keep []) true none ∧
      grouped.brk = conts.brk + 1 ∧
      AddsPid grouped (groupPid conts node keep none).1
        { psig := node.psig
          status := { shat := true, shrc := true }
          attr := conts.attr
          rscs := conts.rscs
          cont := some (.cont conts.brk) } (some conts.brk) none := by
  refine ⟨{ conts with
      cont := conts.brk :: conts.cont
      contAt := Function.update conts.contAt conts.brk (runtimeEntry conts keep [])
      brk := conts.brk + 1 },
    ⟨grows_of_settings (Nat.le_succ _) rfl rfl rfl rfl rfl, fun _ => ⟨rfl, Nat.lt_succ_self _⟩, rfl,
      rfl, rfl, rfl, rfl⟩, rfl, ?_⟩
  rw [group_pid_new]
  refine ⟨grows_of_settings (Nat.le_succ _) rfl rfl rfl rfl rfl, Nat.lt_succ_self _, rfl, rfl, rfl, ?_,
    rfl⟩
  simp [withMember, runtimeEntry]

/-- Grouping of the PID `curr`, where the node has the parameters `q`. -/
theorem group_pid_found (conts : Containers) {node : Node} (keep : Str) (curr q : Nat)
    (param : node.param = some q) :
    groupPid conts node keep (some curr) =
      ({ conts with
        cont := conts.brk :: conts.cont
        contAt := Function.update conts.contAt conts.brk (runtimeEntry conts keep [curr])
        pidcAt := Function.update conts.pidcAt q
          { conts.pidcAt q with cont := some (.cont conts.brk) }
        brk := conts.brk + 1 }, { node with psig := (conts.pidcAt q).psig }) := by
  simp [groupPid, groupMember, setParamCont, linkContPid, Containers.pushCont, Containers.setCont,
    Containers.setPidc, runtimeEntry, param]

/-- The new group is a container with the defaults; then the node's PID is linked. -/
theorem group_pid_found_steps (conts : Containers) {node : Node} (keep : Str) (curr q : Nat)
    (param : node.param = some q) :
    ∃ grouped, WritesCont conts grouped conts.brk (runtimeEntry conts keep [curr]) true none ∧
      (groupPid conts node keep (some curr)).1 =
        { grouped with
          pidcAt := Function.update grouped.pidcAt q
            { grouped.pidcAt q with cont := some (.cont conts.brk) } } := by
  refine ⟨{ conts with
      cont := conts.brk :: conts.cont
      contAt := Function.update conts.contAt conts.brk (runtimeEntry conts keep [curr])
      brk := conts.brk + 1 },
    ⟨grows_of_settings (Nat.le_succ _) rfl rfl rfl rfl rfl, fun _ => ⟨rfl, Nat.lt_succ_self _⟩, rfl,
      rfl, rfl, rfl, rfl⟩, ?_⟩
  rw [group_pid_found conts keep curr q param]

theorem Below.mono {low high : Nat} {parm : Parm} (below : Below low parm) (le : low ≤ high) :
    Below high parm :=
  ⟨below.1.trans_le le, below.2.trans_le le⟩

theorem CopyOf.below {before after : Containers} {source result : Parm}
    (copy : CopyOf before after source result) (below : Below before.brk source)
    (le : before.brk ≤ after.brk) : Below after.brk result := by
  constructor
  · cases shared : source.status.shat with
    | true =>
        rw [copy.sharedAttr shared]
        exact below.1.trans_le le
    | false => exact (copy.newAttr shared).2.1
  · cases shared : source.status.shrc with
    | true =>
        rw [copy.sharedRscs shared]
        exact below.2.trans_le le
    | false => exact (copy.newRscs shared).2.1

/-- PID configurations that were allocated with their settings. -/
def Ready (conts : Containers) (pids : List Nat) : Prop :=
  ∀ p ∈ pids, p < conts.brk ∧ Below conts.brk (conts.pidcAt p).toParm

theorem AddsPid.ready {before after : Containers} {entry : Pidc} {owner img : Option Nat}
    (adds : AddsPid before after entry owner img) {pids : List Nat} (ready : Ready before pids) :
    Ready after pids := by
  intro p member
  obtain ⟨old, below⟩ := ready p member
  refine ⟨old.trans adds.room, ?_⟩
  rw [adds.pidcAt, Function.update_of_ne (Nat.ne_of_lt old)]
  exact below.mono adds.room.le

theorem refresh_pid_ready {c : Nat} {conts : Containers} {pids : List Nat} (p : Nat)
    (own : Below conts.brk (conts.contAt c).toParm) (ready : Ready conts pids) :
    Ready (refreshPid c conts p) pids := by
  intro q member
  rw [refresh_pid_eq]
  refine ⟨(ready q member).1, ?_⟩
  by_cases this : q = p
  · subst this
    simp only [Function.update_self]
    exact own
  · simp only [Function.update_of_ne this]
    exact (ready q member).2

/-- The PIDs of a refreshed container, one after the other. -/
theorem refresh_fold_rule (keeps : List Nat → Containers → Prop) (r : Nat)
    (others done pids : List Nat) (conts : Containers)
    (step : ∀ conts done, ∀ p ∈ pids, keeps done conts →
      keeps (p :: done) (refreshPid r conts p))
    (holds : keeps done conts) (own : Below conts.brk (conts.contAt r).toParm)
    (ready : Ready conts others) :
    keeps (pids.reverse ++ done) (pids.foldl (refreshPid r) conts) ∧
      Ready (pids.foldl (refreshPid r) conts) others ∧
      (pids.foldl (refreshPid r) conts).contAt = conts.contAt := by
  induction pids generalizing conts done with
  | nil => exact ⟨holds, ready, rfl⟩
  | cons p rest ih =>
      have contAt : (refreshPid r conts p).contAt = conts.contAt := by rw [refresh_pid_eq]
      have brk : (refreshPid r conts p).brk = conts.brk := by rw [refresh_pid_eq]
      rw [List.foldl_cons, ← contAt, List.reverse_cons, List.append_assoc]
      apply ih (p :: done) (refreshPid r conts p)
        (fun conts done q member => step conts done q (List.mem_cons_of_mem p member))
        (step conts done p List.mem_cons_self holds)
      · rw [contAt, brk]
        exact own
      · exact refresh_pid_ready p own ready

/-- The duplicates of the PIDs of a container, one after the other. -/
theorem duplicate_fold_rule (keeps : List Nat → Containers → Prop) (r : Nat)
    (done pids : List Nat) (conts : Containers)
    (step : ∀ conts done p entry, p ∈ pids →
      AddsPid conts (duplicatePid r conts p) entry (some r) (conts.pidcAt p).img →
      CopyOf conts (duplicatePid r conts p) (conts.pidcAt p).toParm entry.toParm →
      entry.cont = some (.cont r) → entry.img = (conts.pidcAt p).img →
      entry.psig.map Str.text = (conts.pidcAt p).psig.map Str.text →
      keeps done conts → keeps (p :: done) (duplicatePid r conts p))
    (holds : keeps done conts) (ready : Ready conts pids) :
    keeps (pids.reverse ++ done) (pids.foldl (duplicatePid r) conts) := by
  induction pids generalizing conts done with
  | nil => exact holds
  | cons p rest ih =>
      obtain ⟨old, below⟩ := ready p List.mem_cons_self
      obtain ⟨entry, adds, copy, cont, img, psig⟩ := duplicate_pid_adds r conts p old below
      rw [List.reverse_cons, List.append_assoc]
      apply ih (p :: done) (duplicatePid r conts p)
        (fun conts done q entry member => step conts done q entry (List.mem_cons_of_mem p member))
        (step conts done p entry List.mem_cons_self adds copy cont img psig holds)
      exact adds.ready fun q member => ready q (List.mem_cons_of_mem p member)

/-- The container of the call is another one than it starts from. -/
theorem fill_cont_ne {conts : Containers} {dlCont : Nat} (id : List Char) (old : dlCont < conts.brk) :
    dlCont ≠ (fillCont conts dlCont id).2 := by
  cases search : runtimeCont conts dlCont id with
  | none =>
      rw [fill_cont_none search]
      exact Nat.ne_of_lt old
  | some found =>
      rw [fill_cont_some search]
      exact (runtime_cont_some search).2.1.symm

/-- The PIDs that share the settings of the container of the call. -/
def connected (conts : Containers) (dlCont : Nat) (id : List Char) : List Nat :=
  match runtimeCont conts dlCont id with
  | none => []
  | some found => (conts.contAt found).pids

/-- What the steps of `duplicateOrRefreshContainer` make true of the PIDs they
refreshed and duplicated holds at its end. `r` is the container it returns. -/
theorem duplicate_or_refresh_steps (look : Lookup) (dlCont : Nat) (id : List Char)
    (keeps : List Nat → List Nat → Containers → Prop) (r : Nat)
    (result : (fillCont look.conts dlCont id).2 = r) (old : dlCont < look.conts.brk)
    (below : Below look.conts.brk (look.conts.contAt dlCont).toParm)
    (ready : Ready look.conts (look.conts.contAt dlCont).pids)
    (fill : ∀ filled entry, WritesCont look.conts filled r entry
      (runtimeCont look.conts dlCont id).isNone (look.conts.contAt dlCont).img →
      Filled look.conts filled dlCont id entry → keeps [] [] filled)
    (refresh : ∀ conts done p, p ∈ connected look.conts dlCont id → keeps done [] conts →
      keeps (p :: done) [] (refreshPid r conts p))
    (duplicate : ∀ conts done p entry, p ∈ (look.conts.contAt dlCont).pids →
      AddsPid conts (duplicatePid r conts p) entry (some r) (conts.pidcAt p).img →
      CopyOf conts (duplicatePid r conts p) (conts.pidcAt p).toParm entry.toParm →
      entry.cont = some (.cont r) → entry.img = (conts.pidcAt p).img →
      entry.psig.map Str.text = (conts.pidcAt p).psig.map Str.text →
      keeps (connected look.conts dlCont id).reverse done conts →
      keeps (connected look.conts dlCont id).reverse (p :: done) (duplicatePid r conts p)) :
    keeps (connected look.conts dlCont id).reverse (look.conts.contAt dlCont).pids.reverse
      (duplicateOrRefreshContainer look dlCont id).1.conts := by
  obtain ⟨entry, writes, filled⟩ := fill_cont_writes look.conts dlCont id old below
  have other := fill_cont_ne id old
  rw [duplicate_or_refresh_conts]
  dsimp only
  rw [result] at writes other ⊢
  generalize (fillCont look.conts dlCont id).1 = first at writes filled ⊢
  have own : Below first.brk (first.contAt r).toParm := by
    rw [writes.contAt, Function.update_self]
    exact filled.copy.below below writes.grows.brk
  have still : Ready first (look.conts.contAt dlCont).pids := by
    intro p member
    rw [writes.pidcAt]
    exact ⟨(ready p member).1.trans_le writes.grows.brk, (ready p member).2.mono writes.grows.brk⟩
  have listed : (first.contAt dlCont).pids = (look.conts.contAt dlCont).pids := by
    rw [writes.contAt, Function.update_of_ne other]
  have members : (first.contAt r).pids = connected look.conts dlCont id := by
    rw [writes.contAt, Function.update_self, connected]
    cases search : runtimeCont look.conts dlCont id with
    | none => exact (filled.created search).1
    | some found => exact (filled.refreshed found search).1
  rw [members]
  obtain ⟨holds, ready, same⟩ := refresh_fold_rule (fun done conts => keeps done [] conts) r
    (look.conts.contAt dlCont).pids [] (connected look.conts dlCont id) first refresh
    (fill first entry writes filled) own still
  rw [List.append_nil] at holds
  rw [same, listed]
  have last := duplicate_fold_rule
    (fun done conts => keeps (connected look.conts dlCont id).reverse done conts) r []
    (look.conts.contAt dlCont).pids _ duplicate holds ready
  rwa [List.append_nil] at last

/-- What all steps of `duplicateOrRefreshContainer` keep holds at its end. -/
theorem duplicate_or_refresh_rule (look : Lookup) (dlCont : Nat) (id : List Char)
    (keeps : Containers → Prop) (r : Nat) (result : (fillCont look.conts dlCont id).2 = r)
    (old : dlCont < look.conts.brk) (below : Below look.conts.brk (look.conts.contAt dlCont).toParm)
    (ready : Ready look.conts (look.conts.contAt dlCont).pids)
    (fill : ∀ filled entry, WritesCont look.conts filled r entry
      (runtimeCont look.conts dlCont id).isNone (look.conts.contAt dlCont).img →
      Filled look.conts filled dlCont id entry → keeps filled)
    (refresh : ∀ conts p, p ∈ connected look.conts dlCont id → keeps conts →
      keeps (refreshPid r conts p))
    (duplicate : ∀ conts p entry, p ∈ (look.conts.contAt dlCont).pids →
      AddsPid conts (duplicatePid r conts p) entry (some r) (conts.pidcAt p).img →
      CopyOf conts (duplicatePid r conts p) (conts.pidcAt p).toParm entry.toParm →
      entry.cont = some (.cont r) → entry.img = (conts.pidcAt p).img →
      entry.psig.map Str.text = (conts.pidcAt p).psig.map Str.text →
      keeps conts → keeps (duplicatePid r conts p)) :
    keeps (duplicateOrRefreshContainer look dlCont id).1.conts :=
  duplicate_or_refresh_steps look dlCont id (fun _ _ conts => keeps conts) r result old below ready
    fill (fun conts _ p member => refresh conts p member)
    fun conts _ p entry member => duplicate conts p entry member

theorem refresh_pid_grows (c : Nat) (conts : Containers) (p : Nat) :
    Grows conts (refreshPid c conts p) := by
  rw [refresh_pid_eq]
  exact grows_of_settings le_rfl rfl rfl rfl rfl rfl

theorem duplicate_grows (look : Lookup) (dlCont : Nat) (id : List Char)
    (old : dlCont < look.conts.brk) (below : Below look.conts.brk (look.conts.contAt dlCont).toParm)
    (ready : Ready look.conts (look.conts.contAt dlCont).pids) :
    Grows look.conts (duplicateOrRefreshContainer look dlCont id).1.conts := by
  apply duplicate_or_refresh_rule look dlCont id (Grows look.conts) _ rfl old below ready
  · exact fun filled entry writes _ => writes.grows
  · exact fun conts p _ grows => grows.trans (refresh_pid_grows _ conts p)
  · exact fun conts p entry _ adds _ _ _ _ grows => grows.trans adds.grows

end Orchestrator.LookupEdits
