import Mathlib.Data.List.Nodup
import Orchestrator.ParseConfig
import Orchestrator.Traversal

/-!
The graph the parser builds. Every element comes from one address counter, and
each parser call adds one owner with the PIDs it lists.
-/

namespace Orchestrator.ConfigGraph
open Orchdata ParseConfig Traversal

/-- Only settings and strings were added: the graph is the same. -/
structure Extends (before after : Containers) : Prop where
  img : after.img = before.img
  cont : after.cont = before.cont
  pids : after.pids = before.pids
  imgAt : after.imgAt = before.imgAt
  contAt : after.contAt = before.contAt
  pidcAt : after.pidcAt = before.pidcAt
  brk : before.brk ≤ after.brk

theorem extends_refl (conts : Containers) : Extends conts conts :=
  ⟨rfl, rfl, rfl, rfl, rfl, rfl, le_rfl⟩

theorem extends_trans {first middle last : Containers} (left : Extends first middle)
    (right : Extends middle last) : Extends first last where
  img := right.img.trans left.img
  cont := right.cont.trans left.cont
  pids := right.pids.trans left.pids
  imgAt := right.imgAt.trans left.imgAt
  contAt := right.contAt.trans left.contAt
  pidcAt := right.pidcAt.trans left.pidcAt
  brk := left.brk.trans right.brk

theorem dup_option_extends (conts : Containers) (text : Option (List Char)) :
    Extends conts (dupOption conts text).1 := by
  cases text with
  | none => exact extends_refl conts
  | some text => exact ⟨rfl, rfl, rfl, rfl, rfl, rfl, Nat.le_succ _⟩

theorem new_attr_extends (conts : Containers) (value : SchedAttr) :
    Extends conts (conts.newAttr value).1 :=
  ⟨rfl, rfl, rfl, rfl, rfl, rfl, Nat.le_succ _⟩

theorem new_rscs_extends (conts : Containers) (value : SchedRscs) :
    Extends conts (conts.newRscs value).1 :=
  ⟨rfl, rfl, rfl, rfl, rfl, rfl, Nat.le_succ _⟩

/-- What is read becomes one new object. -/
theorem parse_resource_data_ok {obj : Json} {conts : Containers} {result : Containers × Nat}
    (run : parseResourceData obj conts = .ok result) :
    ∃ value, value.affinityMask = none ∧ conts.newRscs value = result := by
  unfold parseResourceData at run
  obtain ⟨_, _, run⟩ := bind_ok run
  obtain ⟨_, _, run⟩ := bind_ok run
  obtain ⟨_, _, run⟩ := bind_ok run
  obtain ⟨_, _, run⟩ := bind_ok run
  obtain ⟨_, _, run⟩ := bind_ok run
  exact ⟨_, rfl, Except.ok.inj run⟩

theorem parse_scheduling_data_ok {obj : Json} {conts : Containers} {result : Containers × Nat}
    (run : parseSchedulingData obj conts = .ok result) : ∃ value, conts.newAttr value = result := by
  unfold parseSchedulingData at run
  obtain ⟨policy, _, run⟩ := bind_ok run
  cases policy with
  | none => cases run
  | some name =>
      dsimp only at run
      split at run
      · cases run
      · obtain ⟨_, _, run⟩ := bind_ok run
        obtain ⟨_, _, run⟩ := bind_ok run
        obtain ⟨_, _, run⟩ := bind_ok run
        obtain ⟨_, _, run⟩ := bind_ok run
        obtain ⟨_, _, run⟩ := bind_ok run
        obtain ⟨_, _, run⟩ := bind_ok run
        exact ⟨_, Except.ok.inj run⟩

/-- Attributes are those of the level above, or read. -/
theorem parse_params_ok {obj : Json} {inherited : Nat} {conts : Containers}
    {result : Containers × Nat × Bool} (run : parseParams obj inherited conts = .ok result) :
    (conts, inherited, true) = result ∨
      ∃ attr data, parseSchedulingData attr conts = .ok data ∧ (data.1, data.2, false) = result := by
  unfold parseParams at run
  obtain ⟨attr, _, run⟩ := bind_ok run
  split_ifs at run
  · exact Or.inl (Except.ok.inj run)
  · obtain ⟨data, parsed, run⟩ := bind_ok run
    exact Or.inr ⟨attr, data, parsed, Except.ok.inj run⟩

theorem parse_res_ok {obj : Json} {inherited : Nat} {conts : Containers}
    {result : Containers × Nat × Bool} (run : parseRes obj inherited conts = .ok result) :
    (conts, inherited, true) = result ∨
      ∃ rscs data, parseResourceData rscs conts = .ok data ∧ (data.1, data.2, false) = result := by
  unfold parseRes at run
  obtain ⟨rscs, _, run⟩ := bind_ok run
  split_ifs at run
  · exact Or.inl (Except.ok.inj run)
  · obtain ⟨data, parsed, run⟩ := bind_ok run
    exact Or.inr ⟨rscs, data, parsed, Except.ok.inj run⟩

theorem parse_resource_data_extends (obj : Json) (conts : Containers) (result : Containers × Nat)
    (run : parseResourceData obj conts = .ok result) : Extends conts result.1 := by
  obtain ⟨value, -, rfl⟩ := parse_resource_data_ok run
  exact new_rscs_extends conts value

theorem parse_scheduling_data_extends (obj : Json) (conts : Containers) (result : Containers × Nat)
    (run : parseSchedulingData obj conts = .ok result) : Extends conts result.1 := by
  obtain ⟨value, rfl⟩ := parse_scheduling_data_ok run
  exact new_attr_extends conts value

theorem parse_params_extends (obj : Json) (inherited : Nat) (conts : Containers)
    (result : Containers × Nat × Bool) (run : parseParams obj inherited conts = .ok result) :
    Extends conts result.1 := by
  rcases parse_params_ok run with rfl | ⟨attr, data, parsed, rfl⟩
  · exact extends_refl conts
  · exact parse_scheduling_data_extends attr conts data parsed

theorem parse_res_extends (obj : Json) (inherited : Nat) (conts : Containers)
    (result : Containers × Nat × Bool) (run : parseRes obj inherited conts = .ok result) :
    Extends conts result.1 := by
  rcases parse_res_ok run with rfl | ⟨rscs, data, parsed, rfl⟩
  · exact extends_refl conts
  · exact parse_resource_data_extends rscs conts data parsed

/-- PIDs of one `"pids"` list: `owner` lists them and they point to it. -/
structure PidsAdded (owner : Option ContPtr) (img : Option Nat) (before after : Containers)
    (new : List Nat) : Prop where
  imgList : after.img = before.img
  contList : after.cont = before.cont
  pidList : after.pids = new ++ before.pids
  brk : before.brk ≤ after.brk
  fresh : ∀ p ∈ new, before.brk ≤ p ∧ p < after.brk
  nodup : new.Nodup
  links : ∀ p ∈ new, (after.pidcAt p).cont = owner ∧ (after.pidcAt p).img = img
  old : ∀ p, p < before.brk → after.pidcAt p = before.pidcAt p
  imgs : ∀ i, after.imgAt i =
    { before.imgAt i with
      pids := if owner = some (.img i) then new ++ (before.imgAt i).pids
        else (before.imgAt i).pids }
  conts : ∀ c, after.contAt c =
    { before.contAt c with
      pids := if owner = some (.cont c) then new ++ (before.contAt c).pids
        else (before.contAt c).pids }

theorem pids_added_refl (owner : Option ContPtr) (img : Option Nat) (conts : Containers) :
    PidsAdded owner img conts conts [] where
  imgList := rfl
  contList := rfl
  pidList := rfl
  brk := le_rfl
  fresh := fun _ member => by cases member
  nodup := .nil
  links := fun _ member => by cases member
  old := fun _ _ => rfl
  imgs := fun i => by simp
  conts := fun c => by simp

theorem pids_added_trans {owner : Option ContPtr} {img : Option Nat}
    {first middle last : Containers} {new newer : List Nat}
    (left : PidsAdded owner img first middle new) (right : PidsAdded owner img middle last newer) :
    PidsAdded owner img first last (newer ++ new) where
  imgList := right.imgList.trans left.imgList
  contList := right.contList.trans left.contList
  pidList := by rw [right.pidList, left.pidList, List.append_assoc]
  brk := left.brk.trans right.brk
  fresh := fun p member => by
    have grown := left.brk
    have later := right.brk
    rcases List.mem_append.mp member with late | early
    · have bounds := right.fresh p late
      omega
    · have bounds := left.fresh p early
      omega
  nodup := List.Nodup.append right.nodup left.nodup fun p late early => by
    have above := right.fresh p late
    have below := left.fresh p early
    omega
  links := fun p member => by
    rcases List.mem_append.mp member with late | early
    · exact right.links p late
    · rw [right.old p (left.fresh p early).2]
      exact left.links p early
  old := fun p known => by
    have grown := left.brk
    rw [right.old p (by omega), left.old p known]
  imgs := fun i => by
    rw [right.imgs, left.imgs]
    split_ifs <;> simp
  conts := fun c => by
    rw [right.conts, left.conts]
    split_ifs <;> simp

theorem push_pids_frame (conts : Containers) (owner : Option ContPtr) (p : Nat) :
    (pushPids conts owner p).img = conts.img ∧ (pushPids conts owner p).cont = conts.cont ∧
      (pushPids conts owner p).pids = conts.pids ∧ (pushPids conts owner p).brk = conts.brk ∧
        (pushPids conts owner p).pidcAt = conts.pidcAt := by
  match owner with
  | none => exact ⟨rfl, rfl, rfl, rfl, rfl⟩
  | some (.cont c) => exact ⟨rfl, rfl, rfl, rfl, rfl⟩
  | some (.img i) => exact ⟨rfl, rfl, rfl, rfl, rfl⟩

theorem push_pids_img (conts : Containers) (owner : Option ContPtr) (p i : Nat) :
    (pushPids conts owner p).imgAt i =
      { conts.imgAt i with
        pids := if owner = some (.img i) then p :: (conts.imgAt i).pids
          else (conts.imgAt i).pids } := by
  match owner with
  | none => rfl
  | some (.cont c) => rfl
  | some (.img j) =>
      by_cases hit : i = j
      · subst hit
        simp [pushPids, Containers.setImg]
      · have apart : ¬ j = i := fun same => hit same.symm
        simp [pushPids, Containers.setImg, hit, apart]

theorem push_pids_cont (conts : Containers) (owner : Option ContPtr) (p c : Nat) :
    (pushPids conts owner p).contAt c =
      { conts.contAt c with
        pids := if owner = some (.cont c) then p :: (conts.contAt c).pids
          else (conts.contAt c).pids } := by
  match owner with
  | none => rfl
  | some (.img i) => rfl
  | some (.cont d) =>
      by_cases hit : c = d
      · subst hit
        simp [pushPids, Containers.setCont]
      · have apart : ¬ d = c := fun same => hit same.symm
        simp [pushPids, Containers.setCont, hit, apart]

theorem stored_pid_added (owner : Option ContPtr) (img : Option Nat) (before middle : Containers)
    (value : Pidc) (cont : value.cont = owner) (image : value.img = img)
    (extended : Extends (pushPids before.pushPidc owner before.brk) middle) :
    PidsAdded owner img before (middle.setPidc before.brk value) [before.brk] := by
  obtain ⟨imgs, conts, pids, brk, pidcs⟩ := push_pids_frame before.pushPidc owner before.brk
  have later : before.brk + 1 ≤ middle.brk := by
    have grown := extended.brk
    rwa [brk] at grown
  constructor
  · exact extended.img.trans imgs
  · exact extended.cont.trans conts
  · exact extended.pids.trans pids
  · exact (Nat.le_succ _).trans later
  · intro p member
    rw [List.mem_singleton.mp member]
    exact ⟨le_rfl, later⟩
  · exact List.nodup_singleton _
  · intro p member
    rw [List.mem_singleton.mp member]
    simp [Containers.setPidc, cont, image]
  · intro p known
    have apart : p ≠ before.brk := by omega
    change Function.update middle.pidcAt before.brk value p = _
    rw [Function.update_of_ne apart, extended.pidcAt, pidcs]
    exact Function.update_of_ne apart _ _
  · intro i
    change middle.imgAt i = _
    rw [extended.imgAt, push_pids_img]
    rfl
  · intro c
    change middle.contAt c = _
    rw [extended.contAt, push_pids_cont]
    rfl

theorem parse_pid_step_added (owner cont : Option ContPtr) (img : Option Nat)
    (before after : Containers) (pidobj : Json) (same : cont.or (img.map ContPtr.img) = owner)
    (run : parsePidStep owner cont img before pidobj = .ok after) :
    PidsAdded owner img before after [before.brk] := by
  unfold parsePidStep parsePidData at run
  rw [same] at run
  obtain ⟨cmd, _, run⟩ := bind_ok run
  obtain ⟨attr, params, run⟩ := bind_ok run
  obtain ⟨rscs, res, run⟩ := bind_ok run
  obtain rfl := Except.ok.inj run
  -- everything between the push and the store only adds settings
  have extended := extends_trans (dup_option_extends _ cmd)
    (extends_trans (parse_params_extends _ _ _ attr params) (parse_res_extends _ _ _ rscs res))
  exact stored_pid_added owner img before rscs.1 _ rfl rfl extended

/-- The elements a `"pids"` loop visits. -/
def listed (json : Json) : List Json :=
  match json with
  | .array elems => Json.upToNull elems
  | _ => []

theorem listed_of_null {json : Json} (absent : json.isNull = true) : listed json = [] := by
  cases json with
  | null => rfl
  | _ => cases absent

theorem listed_of_elems {json : Json} {elems : List Json} (array : json.arrayElems = .ok elems) :
    elems = listed json := by
  cases json with
  | array all => exact (Except.ok.inj array).symm
  | _ => cases array

theorem get_in_object_found {obj found : Json} {key : String}
    (run : getInObject obj key true = .ok found) : found = obj.field key :=
  (Except.ok.inj run).symm

theorem parse_pids_added (obj : Json) (owner cont : Option ContPtr) (img : Option Nat)
    (before after : Containers) (same : cont.or (img.map ContPtr.img) = owner)
    (run : parsePids obj owner cont img before = .ok after) :
    ∃ new, PidsAdded owner img before after new ∧ new.length = (listed (obj.field "pids")).length := by
  unfold parsePids at run
  obtain ⟨pidslist, found, run⟩ := bind_ok run
  obtain rfl := get_in_object_found found
  split_ifs at run with absent
  · cases run
    exact ⟨[], pids_added_refl owner img before, by simp [listed_of_null absent]⟩
  · obtain ⟨elems, array, run⟩ := bind_ok run
    rw [← listed_of_elems array]
    refine fold_rule (parsePidStep owner cont img)
      (fun before elems after => ∃ new, PidsAdded owner img before after new ∧
        new.length = elems.length)
      (fun conts => ⟨[], pids_added_refl owner img conts, rfl⟩) ?_ elems before after run
    intro state pidobj next rest finish step tail
    obtain ⟨new, added, length⟩ := tail
    have first := parse_pid_step_added owner cont img state next pidobj same step
    exact ⟨new ++ [state.brk], pids_added_trans first added, by simp [length]⟩

def newImgs : Option ContPtr → List Nat
  | some (.img i) => [i]
  | _ => []

def newConts : Option ContPtr → List Nat
  | some (.cont c) => [c]
  | _ => []

theorem mem_new_imgs (owner : Option ContPtr) (i : Nat) :
    i ∈ newImgs owner ↔ owner = some (.img i) := by
  match owner with
  | none => simp [newImgs]
  | some (.cont c) => simp [newImgs]
  | some (.img j) => simp [newImgs, eq_comm]

theorem mem_new_conts (owner : Option ContPtr) (c : Nat) :
    c ∈ newConts owner ↔ owner = some (.cont c) := by
  match owner with
  | none => simp [newConts]
  | some (.img i) => simp [newConts]
  | some (.cont d) => simp [newConts, eq_comm]

/-- One finished element with the PIDs it lists; no owner stands for PIDs of the root. -/
structure Added (owner : Option ContPtr) (img : Option Nat) (before after : Containers)
    (new : List Nat) : Prop where
  imgList : after.img = newImgs owner ++ before.img
  contList : after.cont = newConts owner ++ before.cont
  pidList : after.pids = new ++ before.pids
  brk : before.brk ≤ after.brk
  freshImg : ∀ i, owner = some (.img i) → before.brk ≤ i ∧ i < after.brk
  freshCont : ∀ c, owner = some (.cont c) → before.brk ≤ c ∧ c < after.brk
  fresh : ∀ p ∈ new, before.brk ≤ p ∧ p < after.brk
  nodup : new.Nodup
  links : ∀ p ∈ new, (after.pidcAt p).cont = owner ∧ (after.pidcAt p).img = img
  oldPids : ∀ p, p < before.brk → after.pidcAt p = before.pidcAt p
  oldImgs : ∀ i, i < before.brk → after.imgAt i = before.imgAt i
  oldConts : ∀ c, c < before.brk → after.contAt c = before.contAt c
  ownImg : ∀ i, owner = some (.img i) → (after.imgAt i).pids = new ∧ (after.imgAt i).conts = []
  ownCont : ∀ c, owner = some (.cont c) → (after.contAt c).pids = new ∧ (after.contAt c).img = img

/-- The image an owner's PIDs get: its own for a container, itself for an image. -/
def Fits (owner : Option ContPtr) (img : Option Nat) (before : Containers) : Prop :=
  match owner with
  | none => img = none
  | some (.img i) => img = some i
  | some (.cont _) => ∀ i, img = some i → i ∈ before.img

/-- Where the PID is listed: nowhere, by its container or by its image. -/
def Owned (conts : Containers) (p : Nat) : Prop :=
  ((conts.pidcAt p).cont = none ∧ (conts.pidcAt p).img = none) ∨
    (∃ c ∈ conts.cont, (conts.pidcAt p).cont = some (.cont c) ∧
      (conts.pidcAt p).img = (conts.contAt c).img) ∨
    ∃ i ∈ conts.img, (conts.pidcAt p).cont = some (.img i) ∧ (conts.pidcAt p).img = some i

/-- What holds of every graph the parser builds. -/
structure Built (conts : Containers) : Prop where
  imgFresh : ∀ i ∈ conts.img, i < conts.brk
  contFresh : ∀ c ∈ conts.cont, c < conts.brk
  pidFresh : ∀ p ∈ conts.pids, p < conts.brk
  imgNodup : conts.img.Nodup
  contNodup : conts.cont.Nodup
  pidNodup : conts.pids.Nodup
  imgConts : ∀ i ∈ conts.img, (conts.imgAt i).conts = []
  contPids : ∀ c ∈ conts.cont, (conts.contAt c).pids.Nodup ∧ ∀ p, p ∈ (conts.contAt c).pids ↔
    p ∈ conts.pids ∧ (conts.pidcAt p).cont = some (.cont c)
  imgPids : ∀ i ∈ conts.img, (conts.imgAt i).pids.Nodup ∧ ∀ p, p ∈ (conts.imgAt i).pids ↔
    p ∈ conts.pids ∧ (conts.pidcAt p).cont = some (.img i)
  owners : ∀ p ∈ conts.pids, Owned conts p
  contImgs : ∀ c ∈ conts.cont, ∀ i, (conts.contAt c).img = some i → i ∈ conts.img

section Step
variable {owner : Option ContPtr} {img : Option Nat} {before after : Containers} {new : List Nat}

theorem added_img (added : Added owner img before after new) (i : Nat) :
    i ∈ after.img ↔ owner = some (.img i) ∨ i ∈ before.img := by
  rw [added.imgList, List.mem_append, mem_new_imgs]

theorem added_cont (added : Added owner img before after new) (c : Nat) :
    c ∈ after.cont ↔ owner = some (.cont c) ∨ c ∈ before.cont := by
  rw [added.contList, List.mem_append, mem_new_conts]

theorem added_pid (added : Added owner img before after new) (p : Nat) :
    p ∈ after.pids ↔ p ∈ new ∨ p ∈ before.pids := by
  rw [added.pidList, List.mem_append]

theorem added_listed (built : Built before) (added : Added owner img before after new)
    (ptr : ContPtr) (p : Nat) (fresh : owner = some ptr → ∀ q ∈ before.pids,
      (before.pidcAt q).cont ≠ some ptr) :
    (p ∈ after.pids ∧ (after.pidcAt p).cont = some ptr) ↔
      if owner = some ptr then p ∈ new
      else p ∈ before.pids ∧ (before.pidcAt p).cont = some ptr := by
  rw [added_pid added]
  have old : p ∈ before.pids → after.pidcAt p = before.pidcAt p := fun member =>
    added.oldPids p (built.pidFresh p member)
  split_ifs with own
  · constructor
    · rintro ⟨now | earlier, link⟩
      · exact now
      · rw [old earlier] at link
        exact absurd link (fresh own p earlier)
    · exact fun now => ⟨Or.inl now, (added.links p now).1.trans own⟩
  · constructor
    · rintro ⟨now | earlier, link⟩
      · exact absurd ((added.links p now).1.symm.trans link) own
      · exact ⟨earlier, old earlier ▸ link⟩
    · rintro ⟨earlier, link⟩
      exact ⟨Or.inr earlier, by rwa [old earlier]⟩

theorem owned_addr (built : Built before) (p : Nat) (member : p ∈ before.pids) :
    (∀ c, (before.pidcAt p).cont = some (.cont c) → c < before.brk) ∧
      ∀ i, (before.pidcAt p).cont = some (.img i) → i < before.brk := by
  rcases built.owners p member with ⟨none, _⟩ | ⟨c, inside, link, _⟩ | ⟨i, inside, link, _⟩
  · rw [none]
    exact ⟨by simp, by simp⟩
  · rw [link]
    refine ⟨fun d same => ?_, by simp⟩
    cases same
    exact built.contFresh _ inside
  · rw [link]
    refine ⟨by simp, fun j same => ?_⟩
    cases same
    exact built.imgFresh _ inside

theorem added_owned (built : Built before) (added : Added owner img before after new)
    (fits : Fits owner img before) (p : Nat) (member : p ∈ after.pids) : Owned after p := by
  rcases (added_pid added p).mp member with now | earlier
  · have link := added.links p now
    unfold Owned
    rw [link.1, link.2]
    match owner, fits with
    | none, fits => exact Or.inl ⟨rfl, fits⟩
    | some (.cont c), _ =>
        exact Or.inr (Or.inl ⟨c, (added_cont added c).mpr (Or.inl rfl), rfl,
          (added.ownCont c rfl).2.symm⟩)
    | some (.img i), fits =>
        exact Or.inr (Or.inr ⟨i, (added_img added i).mpr (Or.inl rfl), rfl, fits⟩)
  · unfold Owned
    rw [added.oldPids p (built.pidFresh p earlier)]
    rcases built.owners p earlier with lone | ⟨c, inside, link, image⟩ | ⟨i, inside, link, image⟩
    · exact Or.inl lone
    · refine Or.inr (Or.inl ⟨c, (added_cont added c).mpr (Or.inr inside), link, ?_⟩)
      rw [added.oldConts c (built.contFresh c inside), image]
    · exact Or.inr (Or.inr ⟨i, (added_img added i).mpr (Or.inr inside), link, image⟩)

/-- The address of a new owner was not used before. -/
theorem new_img (added : Added owner img before after new) {i : Nat} (old : i < before.brk) :
    owner ≠ some (.img i) :=
  fun own => absurd old (not_lt.mpr (added.freshImg i own).1)

theorem new_cont (added : Added owner img before after new) {c : Nat} (old : c < before.brk) :
    owner ≠ some (.cont c) :=
  fun own => absurd old (not_lt.mpr (added.freshCont c own).1)

theorem built_added (built : Built before) (added : Added owner img before after new)
    (fits : Fits owner img before) : Built after where
  imgFresh := fun i member => by
    rcases (added_img added i).mp member with own | earlier
    · exact (added.freshImg i own).2
    · exact (built.imgFresh i earlier).trans_le added.brk
  contFresh := fun c member => by
    rcases (added_cont added c).mp member with own | earlier
    · exact (added.freshCont c own).2
    · exact (built.contFresh c earlier).trans_le added.brk
  pidFresh := fun p member => by
    rcases (added_pid added p).mp member with now | earlier
    · exact (added.fresh p now).2
    · exact (built.pidFresh p earlier).trans_le added.brk
  imgNodup := by
    rw [added.imgList]
    refine List.Nodup.append ?_ built.imgNodup fun i own earlier => ?_
    · match owner with
      | none => exact .nil
      | some (.cont _) => exact .nil
      | some (.img i) => exact List.nodup_singleton i
    · exact new_img added (built.imgFresh i earlier) ((mem_new_imgs owner i).mp own)
  contNodup := by
    rw [added.contList]
    refine List.Nodup.append ?_ built.contNodup fun c own earlier => ?_
    · match owner with
      | none => exact .nil
      | some (.img _) => exact .nil
      | some (.cont c) => exact List.nodup_singleton c
    · exact new_cont added (built.contFresh c earlier) ((mem_new_conts owner c).mp own)
  pidNodup := by
    rw [added.pidList]
    exact List.Nodup.append added.nodup built.pidNodup fun p now earlier =>
      absurd (built.pidFresh p earlier) (not_lt.mpr (added.fresh p now).1)
  imgConts := fun i member => by
    rcases (added_img added i).mp member with own | earlier
    · exact (added.ownImg i own).2
    · rw [added.oldImgs i (built.imgFresh i earlier)]
      exact built.imgConts i earlier
  contPids := fun c member => by
    have listing := fun p => added_listed built added (.cont c) p fun own q earlier link =>
      new_cont added ((owned_addr built q earlier).1 c link) own
    rcases (added_cont added c).mp member with own | earlier
    · rw [(added.ownCont c own).1]
      exact ⟨added.nodup, fun p => by rw [listing, if_pos own]⟩
    -- containers from before keep their list
    · have apart : owner ≠ some (.cont c) := new_cont added (built.contFresh c earlier)
      rw [added.oldConts c (built.contFresh c earlier)]
      exact ⟨(built.contPids c earlier).1, fun p => by
        rw [listing, if_neg apart]
        exact (built.contPids c earlier).2 p⟩
  imgPids := fun i member => by
    have listing := fun p => added_listed built added (.img i) p fun own q earlier link =>
      new_img added ((owned_addr built q earlier).2 i link) own
    rcases (added_img added i).mp member with own | earlier
    · rw [(added.ownImg i own).1]
      exact ⟨added.nodup, fun p => by rw [listing, if_pos own]⟩
    · have apart : owner ≠ some (.img i) := new_img added (built.imgFresh i earlier)
      rw [added.oldImgs i (built.imgFresh i earlier)]
      exact ⟨(built.imgPids i earlier).1, fun p => by
        rw [listing, if_neg apart]
        exact (built.imgPids i earlier).2 p⟩
  owners := added_owned built added fits
  contImgs := fun c member i image => by
    rcases (added_cont added c).mp member with own | earlier
    · subst own
      rw [(added.ownCont c rfl).2] at image
      exact (added_img added i).mpr (Or.inr (fits i image))
    · rw [added.oldConts c (built.contFresh c earlier)] at image
      exact (added_img added i).mpr (Or.inr (built.contImgs c earlier i image))

end Step

section Units
variable {before middle after : Containers} {img : Option Nat} {new : List Nat}

theorem extends_added (extended : Extends before after) : Added none none before after [] where
  imgList := extended.img
  contList := extended.cont
  pidList := extended.pids
  brk := extended.brk
  freshImg := by simp
  freshCont := by simp
  fresh := by simp
  nodup := .nil
  links := by simp
  oldPids := fun _ _ => by rw [extended.pidcAt]
  oldImgs := fun _ _ => by rw [extended.imgAt]
  oldConts := fun _ _ => by rw [extended.contAt]
  ownImg := by simp
  ownCont := by simp

theorem root_pids_added (added : PidsAdded none none before after new) :
    Added none none before after new where
  imgList := added.imgList
  contList := added.contList
  pidList := added.pidList
  brk := added.brk
  freshImg := by simp
  freshCont := by simp
  fresh := added.fresh
  nodup := added.nodup
  links := added.links
  oldPids := added.old
  oldImgs := fun i _ => by rw [added.imgs]; simp
  oldConts := fun c _ => by rw [added.conts]; simp
  ownImg := by simp
  ownCont := by simp

theorem cont_unit_added (value : Cont) (pids : value.pids = [])
    (extended : Extends before.pushCont middle)
    (added : PidsAdded (some (.cont before.brk)) img (middle.setCont before.brk value) after new) :
    Added (some (.cont before.brk)) img before
      (after.setCont before.brk { after.contAt before.brk with img := img }) new where
  imgList := added.imgList.trans extended.img
  contList := added.contList.trans extended.cont
  pidList := by
    have list := added.pidList
    rwa [show (middle.setCont before.brk value).pids = before.pids from extended.pids] at list
  brk := (Nat.le_succ _).trans (extended.brk.trans added.brk)
  freshImg := by simp
  freshCont := fun c same => by
    cases same
    exact ⟨le_rfl, extended.brk.trans added.brk⟩
  fresh := fun p member => by
    have bounds := added.fresh p member
    have grown : before.brk + 1 ≤ middle.brk := extended.brk
    have start : (middle.setCont before.brk value).brk = middle.brk := rfl
    rw [start] at bounds
    exact ⟨by omega, bounds.2⟩
  nodup := added.nodup
  links := added.links
  oldPids := fun p known => by
    have grown : before.brk + 1 ≤ middle.brk := extended.brk
    have same := added.old p (show p < middle.brk by omega)
    rwa [show (middle.setCont before.brk value).pidcAt = before.pidcAt from extended.pidcAt] at same
  oldImgs := fun i _ => by
    have same := added.imgs i
    rw [show (middle.setCont before.brk value).imgAt = before.imgAt from extended.imgAt] at same
    change after.imgAt i = before.imgAt i
    simpa using same
  oldConts := fun c known => by
    have apart : c ≠ before.brk := by omega
    have other : ¬ before.brk = c := fun same => apart same.symm
    have kept : (middle.setCont before.brk value).contAt c = before.contAt c := by
      change Function.update middle.contAt before.brk value c = _
      rw [Function.update_of_ne apart, extended.contAt]
      exact Function.update_of_ne apart _ _
    change Function.update after.contAt before.brk _ c = _
    rw [Function.update_of_ne apart, added.conts, kept]
    simp [other]
  ownImg := by simp
  ownCont := fun c same => by
    cases same
    have own := added.conts before.brk
    simp [Containers.setCont, pids] at own ⊢
    rw [own]

theorem img_unit_added (value : Img) (pids : value.pids = []) (conts : value.conts = [])
    (extended : Extends before.pushImg middle)
    (added : PidsAdded (some (.img before.brk)) (some before.brk) (middle.setImg before.brk value)
      after new) :
    Added (some (.img before.brk)) (some before.brk) before after new where
  imgList := added.imgList.trans extended.img
  contList := added.contList.trans extended.cont
  pidList := by
    have list := added.pidList
    rwa [show (middle.setImg before.brk value).pids = before.pids from extended.pids] at list
  brk := (Nat.le_succ _).trans (extended.brk.trans added.brk)
  freshImg := fun i same => by
    cases same
    exact ⟨le_rfl, extended.brk.trans added.brk⟩
  freshCont := by simp
  fresh := fun p member => by
    have bounds := added.fresh p member
    have grown : before.brk + 1 ≤ middle.brk := extended.brk
    have start : (middle.setImg before.brk value).brk = middle.brk := rfl
    rw [start] at bounds
    exact ⟨by omega, bounds.2⟩
  nodup := added.nodup
  links := added.links
  oldPids := fun p known => by
    have grown : before.brk + 1 ≤ middle.brk := extended.brk
    have same := added.old p (show p < middle.brk by omega)
    rwa [show (middle.setImg before.brk value).pidcAt = before.pidcAt from extended.pidcAt] at same
  oldImgs := fun i known => by
    have apart : i ≠ before.brk := by omega
    have other : ¬ before.brk = i := fun same => apart same.symm
    have kept : (middle.setImg before.brk value).imgAt i = before.imgAt i := by
      change Function.update middle.imgAt before.brk value i = _
      rw [Function.update_of_ne apart, extended.imgAt]
      exact Function.update_of_ne apart _ _
    rw [added.imgs, kept]
    simp [other]
  oldConts := fun c _ => by
    have same := added.conts c
    rw [show (middle.setImg before.brk value).contAt = before.contAt from extended.contAt] at same
    simpa using same
  ownImg := fun i same => by
    cases same
    have own := added.imgs before.brk
    simp [Containers.setImg, pids, conts] at own
    rw [own]
    exact ⟨rfl, rfl⟩
  ownCont := by simp

end Units

/-- Some container belongs to an image. -/
def Nested (conts : Containers) : Prop := ∃ c ∈ conts.cont, (conts.contAt c).img ≠ none

/-- Some PID is listed by an image. -/
def Direct (conts : Containers) : Prop := ∃ i ∈ conts.img, (conts.imgAt i).pids ≠ []

/-- The graph grew by containers inside of images if `nested`, by PIDs of images
if `direct`. -/
structure Grown (nested direct : Prop) (before after : Containers) : Prop where
  built : Built after
  nested : Nested after ↔ Nested before ∨ nested
  direct : Direct after ↔ Direct before ∨ direct
  imgs : ∀ i ∈ before.img, i ∈ after.img

theorem grown_refl {conts : Containers} (built : Built conts) : Grown False False conts conts :=
  ⟨built, by simp, by simp, fun _ member => member⟩

theorem grown_trans {first middle last : Containers} {nested direct moreNested moreDirect : Prop}
    (left : Grown nested direct first middle) (right : Grown moreNested moreDirect middle last) :
    Grown (nested ∨ moreNested) (direct ∨ moreDirect) first last :=
  ⟨right.built, by rw [right.nested, left.nested, or_assoc],
    by rw [right.direct, left.direct, or_assoc], fun i member => right.imgs i (left.imgs i member)⟩

theorem grown_congr {before after : Containers} {nested direct nested' direct' : Prop}
    (grown : Grown nested direct before after) (same : nested ↔ nested') (same' : direct ↔ direct') :
    Grown nested' direct' before after :=
  ⟨grown.built, by rw [grown.nested, same], by rw [grown.direct, same'], grown.imgs⟩

theorem grown_of_added {owner : Option ContPtr} {img : Option Nat} {before after : Containers}
    {new : List Nat} (built : Built before) (added : Added owner img before after new)
    (fits : Fits owner img before) :
    Grown ((∃ c, owner = some (.cont c)) ∧ img ≠ none) ((∃ i, owner = some (.img i)) ∧ new ≠ [])
      before after where
  built := built_added built added fits
  nested := by
    constructor
    · rintro ⟨c, member, inside⟩
      rcases (added_cont added c).mp member with own | earlier
      · exact Or.inr ⟨⟨c, own⟩, (added.ownCont c own).2 ▸ inside⟩
      · rw [added.oldConts c (built.contFresh c earlier)] at inside
        exact Or.inl ⟨c, earlier, inside⟩
    · rintro (⟨c, earlier, inside⟩ | ⟨⟨c, own⟩, inside⟩)
      · exact ⟨c, (added_cont added c).mpr (Or.inr earlier),
          (added.oldConts c (built.contFresh c earlier)).symm ▸ inside⟩
      · exact ⟨c, (added_cont added c).mpr (Or.inl own), (added.ownCont c own).2.symm ▸ inside⟩
  direct := by
    constructor
    · rintro ⟨i, member, pids⟩
      rcases (added_img added i).mp member with own | earlier
      · exact Or.inr ⟨⟨i, own⟩, (added.ownImg i own).1 ▸ pids⟩
      · rw [added.oldImgs i (built.imgFresh i earlier)] at pids
        exact Or.inl ⟨i, earlier, pids⟩
    · rintro (⟨i, earlier, pids⟩ | ⟨⟨i, own⟩, pids⟩)
      · exact ⟨i, (added_img added i).mpr (Or.inr earlier),
          (added.oldImgs i (built.imgFresh i earlier)).symm ▸ pids⟩
      · exact ⟨i, (added_img added i).mpr (Or.inl own), (added.ownImg i own).1.symm ▸ pids⟩
  imgs := fun i member => (added_img added i).mpr (Or.inr member)

theorem grown_of_extends {before after : Containers} (built : Built before)
    (extended : Extends before after) : Grown False False before after :=
  grown_congr (grown_of_added built (extends_added extended) rfl) (by simp) (by simp)

section Parser

/-- Only the two counters change. -/
theorem count_step_ok {state next : Containers} {elem : Json} (run : countStep state elem = .ok next) :
    ∃ nthreads, { state with nthreads := nthreads, numCont := state.numCont + 1 } = next := by
  unfold countStep at run
  obtain ⟨pidobj, _, run⟩ := bind_ok run
  split_ifs at run
  · exact ⟨state.nthreads, Except.ok.inj run⟩
  · obtain ⟨length, _, run⟩ := bind_ok run
    exact ⟨_, Except.ok.inj run⟩

theorem count_step_extends (state next : Containers) (elem : Json)
    (run : countStep state elem = .ok next) : Extends state next := by
  obtain ⟨nthreads, rfl⟩ := count_step_ok run
  exact ⟨rfl, rfl, rfl, rfl, rfl, rfl, le_rfl⟩

theorem count_extends (elems : List Json) (before after : Containers)
    (run : elems.foldlM countStep before = .ok after) : Extends before after :=
  fold_rule countStep (fun before _ after => Extends before after) extends_refl
    (fun state elem next _ _ step tail => extends_trans (count_step_extends state next elem step) tail)
    elems before after run

theorem parse_container_step_grown (img : Option Nat) (before after : Containers) (contobj : Json)
    (built : Built before) (known : ∀ i, img = some i → i ∈ before.img)
    (run : parseContainerStep img before contobj = .ok after) :
    Grown (img ≠ none) False before after := by
  unfold parseContainerStep parseContainerData at run
  obtain ⟨contid, _, run⟩ := bind_ok run
  obtain ⟨attr, params, run⟩ := bind_ok run
  obtain ⟨rscs, res, run⟩ := bind_ok run
  obtain ⟨listed, pids, run⟩ := bind_ok run
  obtain rfl := Except.ok.inj run
  obtain ⟨new, added, _⟩ := parse_pids_added contobj _ _ img _ listed rfl pids
  have extended := extends_trans (dup_option_extends before.pushCont contid)
    (extends_trans (parse_params_extends _ _ _ attr params) (parse_res_extends _ _ _ rscs res))
  exact grown_congr (grown_of_added built (cont_unit_added _ rfl extended added) known)
    (by simp) (by simp)

theorem parse_containers_grown (containers : Json) (img : Option Nat) (before after : Containers)
    (built : Built before) (known : ∀ i, img = some i → i ∈ before.img)
    (run : parseContainers containers img before = .ok after) :
    Grown (img ≠ none ∧ listed containers ≠ []) False before after := by
  unfold parseContainers at run
  cases containers with
  | array elems =>
      obtain ⟨counted, count, run⟩ := bind_ok run
      have counts := grown_of_extends built (count_extends _ _ _ count)
      have loop := fold_rule (parseContainerStep img)
        (fun before elems after => Built before → (∀ i, img = some i → i ∈ before.img) →
          Grown (img ≠ none ∧ elems ≠ []) False before after)
        (fun conts built _ => grown_congr (grown_refl built) (by simp) Iff.rfl)
        (fun state contobj next rest finish step tail built known => by
          have first := parse_container_step_grown img state next contobj built known step
          have later := tail first.built fun i same => first.imgs i (known i same)
          exact grown_congr (grown_trans first later) (by simp; tauto) (by simp))
        _ counted after run counts.built fun i same => counts.imgs i (known i same)
      exact grown_congr (grown_trans counts loop) (by simp [listed]) (by simp)
  | _ => cases run

theorem parse_image_step_grown (before after : Containers) (imgobj : Json) (built : Built before)
    (run : parseImageStep before imgobj = .ok after) :
    Grown (listed (imgobj.field "cont") ≠ []) (listed (imgobj.field "pids") ≠ []) before after := by
  unfold parseImageStep parseImageData at run
  obtain ⟨imgid, _, run⟩ := bind_ok run
  obtain ⟨attr, params, run⟩ := bind_ok run
  obtain ⟨rscs, res, run⟩ := bind_ok run
  obtain ⟨direct, pids, run⟩ := bind_ok run
  obtain ⟨containers, found, run⟩ := bind_ok run
  obtain rfl := get_in_object_found found
  obtain ⟨new, added, length⟩ := parse_pids_added imgobj _ none (some before.brk) _ direct rfl pids
  have extended := extends_trans (dup_option_extends before.pushImg imgid)
    (extends_trans (parse_params_extends _ _ _ attr params) (parse_res_extends _ _ _ rscs res))
  have unit := img_unit_added _ rfl rfl extended added
  have listing : new ≠ [] ↔ listed (imgobj.field "pids") ≠ [] := by
    rw [← List.length_pos_iff, ← List.length_pos_iff, length]
  have image : Grown False (listed (imgobj.field "pids") ≠ []) before direct :=
    grown_congr (grown_of_added built unit rfl) (by simp) (by simpa using listing)
  split_ifs at run with absent
  · cases run
    exact grown_congr image (by simp [listed_of_null absent]) Iff.rfl
  · have known : ∀ i, some before.brk = some i → i ∈ direct.img := fun i same => by
      cases same
      exact (added_img unit _).mpr (Or.inl rfl)
    -- the image is in the list before its containers are parsed
    have nested := parse_containers_grown _ _ direct after image.built known run
    exact grown_congr (grown_trans image nested) (by simp) (by simp)

theorem parse_images_grown (images : Json) (before after : Containers) (built : Built before)
    (run : parseImages images before = .ok after) :
    Grown (∃ image ∈ listed images, listed (image.field "cont") ≠ [])
      (∃ image ∈ listed images, listed (image.field "pids") ≠ []) before after := by
  unfold parseImages at run
  cases images with
  | array elems =>
      obtain ⟨counted, count, run⟩ := bind_ok run
      have counts := grown_of_extends built (count_extends _ _ _ count)
      have loop := fold_rule parseImageStep
        (fun before elems after => Built before →
          Grown (∃ image ∈ elems, listed (image.field "cont") ≠ [])
            (∃ image ∈ elems, listed (image.field "pids") ≠ []) before after)
        (fun conts built => grown_congr (grown_refl built) (by simp) (by simp))
        (fun state imgobj next rest finish step tail built => by
          have first := parse_image_step_grown state next imgobj built step
          exact grown_congr (grown_trans first (tail first.built)) (by simp) (by simp))
        _ counted after run counts.built
      exact grown_congr (grown_trans counts loop) (by simp [listed]) (by simp [listed])
  | _ => cases run

theorem built_empty : Built {} where
  imgFresh := by simp
  contFresh := by simp
  pidFresh := by simp
  imgNodup := .nil
  contNodup := .nil
  pidNodup := .nil
  imgConts := by simp
  contPids := by simp
  imgPids := by simp
  owners := by simp
  contImgs := by simp

/-- Containers that an image of the configuration nests. -/
def NestsContainers (root : Json) : Prop :=
  ∃ image ∈ listed (root.field "images"), listed (image.field "cont") ≠ []

/-- PIDs that an image of the configuration lists itself. -/
def ListsPids (root : Json) : Prop :=
  ∃ image ∈ listed (root.field "images"), listed (image.field "pids") ≠ []

/-- Global settings, images, containers, then the PIDs of the root. -/
theorem parse_config_ok {root : Json} {conts : Containers} (run : parseConfig root {} = .ok conts) :
    ∃ scheduling resources attr rscs imaged contained,
      parseSchedulingData scheduling {} = .ok attr ∧
      parseResourceData resources { attr.1 with attr := attr.2 } = .ok rscs ∧
      (if (root.field "images").isNull then .ok { rscs.1 with rscs := rscs.2 }
        else parseImages (root.field "images") { rscs.1 with rscs := rscs.2 }) = .ok imaged ∧
      (if (root.field "containers").isNull then .ok imaged
        else parseContainers (root.field "containers") none imaged) = .ok contained ∧
      parsePids root none none none contained = .ok conts := by
  unfold parseConfig at run
  split_ifs at run
  obtain ⟨scheduling, _, run⟩ := bind_ok run
  obtain ⟨attr, params, run⟩ := bind_ok run
  obtain ⟨resources, _, run⟩ := bind_ok run
  obtain ⟨rscs, res, run⟩ := bind_ok run
  obtain ⟨images, foundImages, run⟩ := bind_ok run
  obtain ⟨imaged, imageRun, later⟩ := bind_ok run
  obtain ⟨containers, foundConts, latest⟩ := bind_ok later
  obtain ⟨contained, contRun, pidsRun⟩ := bind_ok latest
  obtain rfl := get_in_object_found foundImages
  obtain rfl := get_in_object_found foundConts
  exact ⟨scheduling, resources, attr, rscs, imaged, contained, params, res, imageRun, contRun, pidsRun⟩

/-- The graph of every accepted configuration, and the two ways an image can
have parts. -/
theorem parse_config_grown (root : Json) (conts : Containers)
    (run : parseConfig root {} = .ok conts) :
    Built conts ∧ (Nested conts ↔ NestsContainers root) ∧ (Direct conts ↔ ListsPids root) := by
  obtain ⟨_, _, attr, rscs, imaged, contained, params, res, imageRun, contRun, pidsRun⟩ :=
    parse_config_ok run
  have global : Extends {} { rscs.1 with rscs := rscs.2 } := by
    have first := parse_scheduling_data_extends _ _ attr params
    have second := parse_resource_data_extends _ _ rscs res
    exact extends_trans ⟨first.img, first.cont, first.pids, first.imgAt, first.contAt, first.pidcAt,
      first.brk⟩ ⟨second.img, second.cont, second.pids, second.imgAt, second.contAt, second.pidcAt,
      second.brk⟩
  have start := grown_of_extends built_empty global
  have imagesGrown : Grown (NestsContainers root) (ListsPids root) { rscs.1 with rscs := rscs.2 }
      imaged := by
    split_ifs at imageRun with absent
    · cases imageRun
      have none := listed_of_null absent
      exact grown_congr (grown_refl start.built) (by simp [NestsContainers, none])
        (by simp [ListsPids, none])
    · exact parse_images_grown _ _ imaged start.built imageRun
  have contGrown : Grown False False imaged contained := by
    split_ifs at contRun with absent
    · cases contRun
      exact grown_refl imagesGrown.built
    · exact grown_congr (parse_containers_grown _ none imaged contained imagesGrown.built
        (by simp) contRun) (by simp) Iff.rfl
  obtain ⟨new, added, _⟩ := parse_pids_added root none none none contained conts rfl pidsRun
  have pids := grown_of_added contGrown.built (root_pids_added added) rfl
  have all := grown_trans (grown_trans (grown_trans start imagesGrown) contGrown) pids
  refine ⟨all.built, all.nested.trans ?_, all.direct.trans ?_⟩
  · simp [Nested]
  · simp [Direct]

end Parser

end Orchestrator.ConfigGraph
