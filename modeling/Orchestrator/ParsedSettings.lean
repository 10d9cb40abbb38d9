import Orchestrator.ConfigGraph
import Orchestrator.SettingsOwners

/-!
Settings of a parsed configuration: what an element does not set it shares with
the element above, what it sets is its own.
-/

namespace Orchestrator.ParsedSettings
open Orchdata ParseConfig ConfigGraph Traversal MutualLinks LookupEdits SettingsOwners Ownership

/-- Only settings are allocated. -/
structure Allocates (before after : Containers) : Prop extends Extends before after where
  attr : after.attr = before.attr
  rscs : after.rscs = before.rscs
  rscsAt : ∀ r < before.brk, after.rscsAt r = before.rscsAt r

theorem allocates_trans {first middle last : Containers} (left : Allocates first middle)
    (right : Allocates middle last) : Allocates first last where
  toExtends := extends_trans left.toExtends right.toExtends
  attr := right.attr.trans left.attr
  rscs := right.rscs.trans left.rscs
  rscsAt := fun r old => (right.rscsAt r (old.trans_le left.brk)).trans (left.rscsAt r old)

theorem dup_option_allocates (conts : Containers) (text : Option (List Char)) :
    Allocates conts (dupOption conts text).1 := by
  refine ⟨dup_option_extends conts text, ?_, ?_, ?_⟩ <;> cases text <;> simp [dupOption, Containers.strdup]

section Values
variable {obj : Json} {inherited : Nat} {conts : Containers} {result : Containers × Nat × Bool}

theorem parse_scheduling_data_new {attr : Containers × Nat}
    (run : parseSchedulingData obj conts = .ok attr) :
    Allocates conts attr.1 ∧ conts.brk ≤ attr.2 ∧ attr.2 < attr.1.brk := by
  obtain ⟨value, rfl⟩ := parse_scheduling_data_ok run
  exact ⟨⟨new_attr_extends conts value, rfl, rfl, fun _ _ => rfl⟩, le_rfl, Nat.lt_succ_self _⟩

theorem parse_resource_data_new {rscs : Containers × Nat}
    (run : parseResourceData obj conts = .ok rscs) :
    Allocates conts rscs.1 ∧ conts.brk ≤ rscs.2 ∧ rscs.2 < rscs.1.brk ∧
      (rscs.1.rscsAt rscs.2).affinityMask = none := by
  obtain ⟨value, unset, rfl⟩ := parse_resource_data_ok run
  refine ⟨⟨new_rscs_extends conts value, rfl, rfl, fun r old => ?_⟩, le_rfl, Nat.lt_succ_self _, ?_⟩
  · exact Function.update_of_ne (Nat.ne_of_lt old) _ _
  · simp [Containers.newRscs, unset]

theorem parse_params_shares (run : parseParams obj inherited conts = .ok result) :
    Allocates conts result.1 ∧ (result.2.2 = true → result.2.1 = inherited) ∧
      (result.2.2 = false → conts.brk ≤ result.2.1 ∧ result.2.1 < result.1.brk) := by
  rcases parse_params_ok run with rfl | ⟨attr, data, parsed, rfl⟩
  · exact ⟨⟨extends_refl conts, rfl, rfl, fun _ _ => rfl⟩, fun _ => rfl, fun own => by cases own⟩
  · obtain ⟨allocates, lower, upper⟩ := parse_scheduling_data_new parsed
    exact ⟨allocates, fun shared => (by cases shared), fun _ => ⟨lower, upper⟩⟩

theorem parse_res_shares (run : parseRes obj inherited conts = .ok result) :
    Allocates conts result.1 ∧ (result.2.2 = true → result.2.1 = inherited) ∧
      (result.2.2 = false → conts.brk ≤ result.2.1 ∧ result.2.1 < result.1.brk ∧
        (result.1.rscsAt result.2.1).affinityMask = none) := by
  rcases parse_res_ok run with rfl | ⟨rscs, data, parsed, rfl⟩
  · exact ⟨⟨extends_refl conts, rfl, rfl, fun _ _ => rfl⟩, fun _ => rfl, fun own => by cases own⟩
  · obtain ⟨allocates, lower, upper, mask⟩ := parse_resource_data_new parsed
    exact ⟨allocates, fun shared => (by cases shared), fun _ => ⟨lower, upper, mask⟩⟩

end Values

/-- Settings taken from above where they are shared. -/
structure Inherits (parm upper : Parm) : Prop where
  attr : parm.status.shat = true → parm.attr = upper.attr
  rscs : parm.status.shrc = true → parm.rscs = upper.rscs

/-- Settings as the parser fills them in between two states. -/
structure Level (before after : Containers) (upper parm : Parm) : Prop where
  inherits : Inherits parm upper
  attr : parm.status.shat = false → before.brk ≤ parm.attr ∧ parm.attr < after.brk
  rscs : parm.status.shrc = false → before.brk ≤ parm.rscs ∧ parm.rscs < after.brk ∧
    (after.rscsAt parm.rscs).affinityMask = none
  ccrt : parm.status.ccrt = false

/-- Sound settings, each with one owner, no mask set and nothing created at runtime. -/
structure Clean (conts : Containers) : Prop where
  stored : Stored conts
  owners : SingleOwners conts
  masks : ∀ holder parm, parmsOf conts holder = some parm →
    (conts.rscsAt parm.rscs).affinityMask = none
  ccrt : ∀ holder parm, parmsOf conts holder = some parm → parm.status.ccrt = false

/-- Params and resources of one element, parsed one after the other. -/
theorem level_of_parsed {obj : Json} {upper : Parm} {before named : Containers}
    {attr rscs : Containers × Nat × Bool} (start : Allocates before named)
    (params : parseParams obj upper.attr named = .ok attr)
    (res : parseRes obj upper.rscs attr.1 = .ok rscs) :
    Allocates before rscs.1 ∧ ∀ cfix, Level before rscs.1 upper
      { status := { cfix := cfix, shat := attr.2.2, shrc := rscs.2.2 }
        attr := attr.2.1
        rscs := rscs.2.1 } := by
  obtain ⟨one, sharedAttr, ownAttr⟩ := parse_params_shares params
  obtain ⟨two, sharedRscs, ownRscs⟩ := parse_res_shares res
  refine ⟨allocates_trans start (allocates_trans one two), fun cfix =>
    ⟨⟨sharedAttr, sharedRscs⟩, fun own => ?_, fun own => ?_, rfl⟩⟩
  · obtain ⟨lower, upper⟩ := ownAttr own
    exact ⟨start.brk.trans lower, upper.trans_le two.brk⟩
  · obtain ⟨lower, upper, mask⟩ := ownRscs own
    exact ⟨(start.brk.trans one.brk).trans lower, upper, mask⟩

/-- The address of a holder was allocated. -/
def Holder.known (brk : Nat) : Holder → Prop
  | .defaults => True
  | .img i => i < brk
  | .cont c => c < brk
  | .pid p => p < brk

theorem holder_known {conts : Containers} (stored : Stored conts) {holder : Holder} {parm : Parm}
    (found : parmsOf conts holder = some parm) : Holder.known conts.brk holder := by
  cases holder with
  | defaults => trivial
  | img i => exact stored.img i (Option.ite_none_right_eq_some.mp found).1
  | cont c => exact stored.cont c (Option.ite_none_right_eq_some.mp found).1
  | pid p => exact stored.pids p (Option.ite_none_right_eq_some.mp found).1

theorem stored_of_parms {conts : Containers} (known : ∀ holder parm,
    parmsOf conts holder = some parm → Holder.known conts.brk holder ∧ Below conts.brk parm) :
    Stored conts where
  img := fun i listed => (known (.img i) _ (if_pos listed)).1
  cont := fun c listed => (known (.cont c) _ (if_pos listed)).1
  pids := fun p listed => (known (.pid p) _ (if_pos listed)).1
  imgParm := fun i listed => (known (.img i) _ (if_pos listed)).2
  contParm := fun c listed => (known (.cont c) _ (if_pos listed)).2
  pidcParm := fun p listed => (known (.pid p) _ (if_pos listed)).2
  attr := (known .defaults _ rfl).2.1
  rscs := (known .defaults _ rfl).2.2

theorem Holder.known.mono {low high : Nat} {holder : Holder} (known : Holder.known low holder)
    (le : low ≤ high) : Holder.known high holder := by
  cases holder with
  | defaults => trivial
  | _ => exact Nat.lt_of_lt_of_le known le

/-- What settings of this level lead to was allocated. -/
theorem Level.below {start after : Containers} {parm upper : Parm}
    (level : Level start after upper parm) (stored : Below start.brk upper)
    (brk : start.brk ≤ after.brk) : Below after.brk parm := by
  constructor
  · cases shared : parm.status.shat with
    | true => exact (level.inherits.attr shared).symm ▸ stored.1.trans_le brk
    | false => exact (level.attr shared).2
  · cases shared : parm.status.shrc with
    | true => exact (level.inherits.rscs shared).symm ▸ stored.2.trans_le brk
    | false => exact (level.rscs shared).2.1

/-- One more holder with settings of this level. -/
theorem Clean.add {before after : Containers} {holder above : Holder} {parm upper : Parm}
    (clean : Clean before) (known : Holder.known after.brk holder) (brk : before.brk ≤ after.brk)
    (parms : parmsOf after = Function.update (parmsOf before) holder (some parm))
    (fresh : parmsOf before holder = none) (found : parmsOf before above = some upper)
    (rscsAt : ∀ r < before.brk, after.rscsAt r = before.rscsAt r)
    (level : Level before after upper parm) : Clean after where
  stored := by
    apply stored_of_parms
    intro user other refers
    rw [parms] at refers
    by_cases this : user = holder
    · rw [this, Function.update_self] at refers
      cases refers
      rw [this]
      exact ⟨known, level.below (parms_below clean.stored found) brk⟩
    · rw [Function.update_of_ne this] at refers
      exact ⟨(holder_known clean.stored refers).mono brk,
        (parms_below clean.stored refers).mono brk⟩
  owners := by
    apply clean.owners.write parms (fun old known => by rw [fresh] at known; cases known)
    exact grant_of (fun _ _ => parms_below clean.stored) found level.inherits.attr
      level.inherits.rscs (fun own => (level.attr own).1) fun own => (level.rscs own).1
  masks := by
    intro user other known
    rw [parms] at known
    by_cases this : user = holder
    · rw [this, Function.update_self] at known
      cases known
      cases shared : parm.status.shrc with
      | true =>
          rw [level.inherits.rscs shared, rscsAt _ (parms_below clean.stored found).2]
          exact clean.masks above upper found
      | false => exact (level.rscs shared).2.2
    · rw [Function.update_of_ne this] at known
      rw [rscsAt _ (parms_below clean.stored known).2]
      exact clean.masks user other known
  ccrt := by
    intro user other known
    rw [parms] at known
    by_cases this : user = holder
    · rw [this, Function.update_self] at known
      cases known
      exact level.ccrt
    · rw [Function.update_of_ne this] at known
      exact clean.ccrt user other known

/-- The holder whose settings an element takes where it has none. -/
def holderOf : Option ContPtr → Holder
  | none => .defaults
  | some (.cont c) => .cont c
  | some (.img i) => .img i

def above (conts : Containers) : Holder → Holder
  | .defaults => .defaults
  | .img _ => .defaults
  | .cont c => holderOf ((conts.contAt c).img.map ContPtr.img)
  | .pid p => holderOf (conts.pidcAt p).cont

/-- Every element shares with the one above what it has none of. -/
def Shares (conts : Containers) : Prop :=
  ∀ holder parm, parmsOf conts holder = some parm →
    ∃ upper, parmsOf conts (above conts holder) = some upper ∧ Inherits parm upper

section Pids
variable {owner : Option ContPtr} {img : Option Nat} {before after : Containers}

/-- PIDs in a list have settings of this level, nothing else has changed. -/
structure PidsSettled (upper : Parm) (before after : Containers) (new : List Nat) : Prop where
  clean : Clean after
  old : ∀ holder, (∀ p ∈ new, holder ≠ .pid p) → parmsOf after holder = parmsOf before holder
  news : ∀ p ∈ new, ∃ parm, parmsOf after (.pid p) = some parm ∧ Inherits parm upper

/-- The settings of all holders after a PID was stored. -/
theorem parms_pid_added (added : PidsAdded owner img before after [before.brk])
    (attr : after.attr = before.attr) (rscs : after.rscs = before.rscs) (stored : Stored before) :
    parmsOf after = Function.update (parmsOf before) (.pid before.brk)
      (some (after.pidcAt before.brk).toParm) := by
  funext holder
  cases holder with
  | defaults => rw [Function.update_of_ne (by simp), parmsOf, parmsOf, attr, rscs]
  | img i => rw [Function.update_of_ne (by simp), parmsOf, parmsOf, added.imgList, added.imgs]
  | cont c => rw [Function.update_of_ne (by simp), parmsOf, parmsOf, added.contList, added.conts]
  | pid p =>
      by_cases this : p = before.brk
      · subst this
        rw [Function.update_self, parmsOf, added.pidList]
        simp
      · rw [Function.update_of_ne (by simp [this]), parmsOf, parmsOf, added.pidList]
        by_cases listed : p ∈ before.pids
        · simp [this, listed, added.old p (stored.pids p listed)]
        · simp [this, listed]

theorem push_pids_settings (conts : Containers) (owner : Option ContPtr) (p : Nat) :
    (pushPids conts owner p).attr = conts.attr ∧ (pushPids conts owner p).rscs = conts.rscs ∧
      (pushPids conts owner p).rscsAt = conts.rscsAt := by
  match owner with
  | none => exact ⟨rfl, rfl, rfl⟩
  | some (.cont c) => exact ⟨rfl, rfl, rfl⟩
  | some (.img i) => exact ⟨rfl, rfl, rfl⟩

theorem Level.widen {first start last : Containers} {parm upper : Parm}
    (level : Level start after upper parm) (lower : first.brk ≤ start.brk)
    (higher : after.brk ≤ last.brk) (same : ∀ r < after.brk, last.rscsAt r = after.rscsAt r) :
    Level first last upper parm where
  inherits := level.inherits
  attr := fun own => by
    obtain ⟨low, high⟩ := level.attr own
    exact ⟨lower.trans low, high.trans_le higher⟩
  rscs := fun own => by
    obtain ⟨low, high, mask⟩ := level.rscs own
    rw [same _ high]
    exact ⟨lower.trans low, high.trans_le higher, mask⟩
  ccrt := level.ccrt

/-- One PID with settings of the level of its owner. -/
theorem pid_settled {middle : Containers} {value : Pidc} {upper : Parm} (clean : Clean before)
    (found : parmsOf before (holderOf owner) = some upper)
    (allocates : Allocates (pushPids before.pushPidc owner before.brk) middle)
    (level : Level (pushPids before.pushPidc owner before.brk) middle upper value.toParm)
    (cont : value.cont = owner) (image : value.img = img) :
    PidsSettled upper before (middle.setPidc before.brk value) [before.brk] := by
  have added := stored_pid_added owner img before middle value cont image allocates.toExtends
  obtain ⟨pushedAttr, pushedRscs, pushedAt⟩ :=
    push_pids_settings before.pushPidc owner before.brk
  have brk := (push_pids_frame before.pushPidc owner before.brk).2.2.2.1
  have start : before.brk ≤ (pushPids before.pushPidc owner before.brk).brk := by
    rw [brk]
    exact Nat.le_succ _
  have attr : (middle.setPidc before.brk value).attr = before.attr :=
    allocates.attr.trans pushedAttr
  have rscs : (middle.setPidc before.brk value).rscs = before.rscs :=
    allocates.rscs.trans pushedRscs
  have own : (middle.setPidc before.brk value).pidcAt before.brk = value :=
    Function.update_self _ _ _
  have parms := parms_pid_added added attr rscs clean.stored
  rw [own] at parms
  have fresh : parmsOf before (.pid before.brk) = none :=
    if_neg fun listed => absurd (clean.stored.pids _ listed) (Nat.lt_irrefl _)
  constructor
  · have known : Holder.known (middle.setPidc before.brk value).brk (.pid before.brk) :=
      (added.fresh _ (List.mem_singleton_self _)).2
    apply clean.add known added.brk parms fresh found _ (level.widen start le_rfl fun _ _ => rfl)
    intro r old
    have kept := allocates.rscsAt r (old.trans_le start)
    rw [pushedAt] at kept
    exact kept
  · intro holder other
    rw [parms, Function.update_of_ne (other _ (List.mem_singleton_self _))]
  · intro p member
    rw [List.mem_singleton.mp member, parms, Function.update_self]
    exact ⟨_, rfl, level.inherits⟩

/-- The settings a PID would share. -/
def ownerParm (conts : Containers) (owner : Option ContPtr) (img : Option Nat) : Parm :=
  match owner, img with
  | some ptr, _ => contParm conts ptr
  | none, some i => (conts.imgAt i).toParm
  | none, none => { attr := conts.attr, rscs := conts.rscs }

theorem parsed_owner {named : Containers} {cont : Option ContPtr} {upper : Parm}
    (allocates : Allocates (pushPids before.pushPidc owner before.brk) named)
    (same : cont.or (img.map ContPtr.img) = owner)
    (found : parmsOf before (holderOf owner) = some upper) :
    ownerParm named owner img = upper := by
  obtain ⟨attr, rscs, _⟩ := push_pids_settings before.pushPidc owner before.brk
  rcases owner with _ | c | i
  · have lone : img = none := by
      cases img with
      | none => rfl
      | some i => cases cont <;> cases same
    subst lone
    cases found
    rw [ownerParm, allocates.attr, allocates.rscs, attr, rscs]
    rfl
  · obtain ⟨_, ⟨⟩⟩ := Option.ite_none_right_eq_some.mp found
    rw [ownerParm, contParm, allocates.contAt, push_pids_cont]
    rfl
  · obtain ⟨_, ⟨⟩⟩ := Option.ite_none_right_eq_some.mp found
    rw [ownerParm, contParm, allocates.imgAt, push_pids_img]
    rfl

theorem parse_pid_step_settled {cont : Option ContPtr} {pidobj : Json} {upper : Parm}
    (same : cont.or (img.map ContPtr.img) = owner)
    (run : parsePidStep owner cont img before pidobj = .ok after) (clean : Clean before)
    (found : parmsOf before (holderOf owner) = some upper) :
    PidsSettled upper before after [before.brk] := by
  unfold parsePidStep parsePidData at run
  rw [same] at run
  obtain ⟨cmd, _, run⟩ := bind_ok run
  have named := dup_option_allocates (pushPids before.pushPidc owner before.brk) cmd
  generalize dupOption (pushPids before.pushPidc owner before.brk) cmd = dup at named run
  have owned := parsed_owner named same found
  obtain ⟨attr, params, run⟩ := bind_ok run
  obtain ⟨rscs, res, run⟩ := bind_ok run
  obtain rfl := Except.ok.inj run
  change parseParams pidobj (ownerParm dup.1 owner img).attr dup.1 = .ok attr at params
  change parseRes pidobj (ownerParm dup.1 owner img).rscs attr.1 = .ok rscs at res
  rw [owned] at params res
  obtain ⟨allocates, levels⟩ := level_of_parsed named params res
  exact pid_settled clean found allocates (levels false) rfl rfl

/-- All PIDs of a list. -/
theorem parse_pids_settled {obj : Json} {cont : Option ContPtr} {upper : Parm}
    (same : cont.or (img.map ContPtr.img) = owner)
    (run : parsePids obj owner cont img before = .ok after) (clean : Clean before)
    (found : parmsOf before (holderOf owner) = some upper) :
    ∃ new, PidsAdded owner img before after new ∧ PidsSettled upper before after new := by
  have settled_refl : ∀ conts, Clean conts → PidsSettled upper conts conts [] := fun conts clean =>
    ⟨clean, fun _ _ => rfl, fun _ member => by cases member⟩
  unfold parsePids at run
  obtain ⟨pidslist, _, run⟩ := bind_ok run
  split_ifs at run
  · cases run
    exact ⟨[], pids_added_refl owner img before, settled_refl before clean⟩
  · obtain ⟨elems, _, run⟩ := bind_ok run
    refine fold_rule (parsePidStep owner cont img)
      (fun before _ after => Clean before → parmsOf before (holderOf owner) = some upper →
        ∃ new, PidsAdded owner img before after new ∧ PidsSettled upper before after new)
      (fun conts clean _ => ⟨[], pids_added_refl owner img conts, settled_refl conts clean⟩)
      ?_ elems before after run clean found
    intro state pidobj next rest finish step tail clean found
    have added := parse_pid_step_added owner cont img state next pidobj same step
    have settled := parse_pid_step_settled same step clean found
    have apart : ∀ p ∈ [state.brk], holderOf owner ≠ .pid p := fun p _ => by
      rcases owner with _ | _ | _ <;> simp [holderOf]
    obtain ⟨new, later, rest⟩ := tail settled.clean ((settled.old _ apart).trans found)
    refine ⟨new ++ [state.brk], pids_added_trans added later, rest.clean, ?_, ?_⟩
    · intro holder other
      rw [rest.old holder fun p inside => other p (List.mem_append_left _ inside),
        settled.old holder fun p inside => other p (List.mem_append_right _ inside)]
    · intro p member
      rcases List.mem_append.mp member with late | early
      · exact rest.news p late
      · have kept : ∀ q ∈ new, Holder.pid p ≠ .pid q := by
          rintro q inside ⟨⟩
          exact absurd (added.fresh p early).2 (Nat.not_lt.mpr (later.fresh p inside).1)
        rw [rest.old _ kept]
        exact settled.news p early

end Pids

section Units
variable {before middle after : Containers} {img : Option Nat} {new : List Nat}

/-- Part of the configuration was added: known holders keep their settings. -/
structure Settled (before after : Containers) : Prop where
  clean : Clean after
  keeps : ∀ holder parm, parmsOf before holder = some parm → parmsOf after holder = some parm
  shares : Shares before → Shares after

theorem settled_refl {conts : Containers} (clean : Clean conts) : Settled conts conts :=
  ⟨clean, fun _ _ known => known, fun shares => shares⟩

theorem settled_trans {first middle last : Containers} (left : Settled first middle)
    (right : Settled middle last) : Settled first last where
  clean := right.clean
  keeps := fun holder parm known => right.keeps holder parm (left.keeps holder parm known)
  shares := fun shares => right.shares (left.shares shares)

theorem Clean.same (clean : Clean before) (parms : parmsOf after = parmsOf before)
    (brk : before.brk ≤ after.brk) (rscsAt : ∀ r < before.brk, after.rscsAt r = before.rscsAt r) :
    Clean after where
  stored := by
    apply stored_of_parms
    intro holder parm known
    rw [parms] at known
    exact ⟨(holder_known clean.stored known).mono brk, (parms_below clean.stored known).mono brk⟩
  owners := clean.owners.same parms
  masks := by
    intro holder parm known
    rw [parms] at known
    rw [rscsAt _ (parms_below clean.stored known).2]
    exact clean.masks holder parm known
  ccrt := by
    rw [parms]
    exact clean.ccrt

theorem parms_allocates (allocates : Allocates before after) : parmsOf after = parmsOf before := by
  funext holder
  cases holder with
  | defaults => rw [parmsOf, parmsOf, allocates.attr, allocates.rscs]
  | img i => rw [parmsOf, parmsOf, allocates.img, allocates.imgAt]
  | cont c => rw [parmsOf, parmsOf, allocates.cont, allocates.contAt]
  | pid p => rw [parmsOf, parmsOf, allocates.pids, allocates.pidcAt]

theorem settled_of_allocates (clean : Clean before) (allocates : Allocates before after) :
    Settled before after where
  clean := clean.same (parms_allocates allocates) allocates.brk allocates.rscsAt
  keeps := fun holder parm known => by rwa [parms_allocates allocates]
  shares := by
    intro shares holder parm known
    rw [parms_allocates allocates] at known ⊢
    have same : above after holder = above before holder := by
      cases holder with
      | cont c => rw [above, above, allocates.contAt]
      | pid p => rw [above, above, allocates.pidcAt]
      | _ => rfl
    rw [same]
    exact shares holder parm known

/-- An element known before has the same element above. -/
theorem above_kept {owner : Option ContPtr} (added : Added owner img before after new)
    (stored : Stored before) {holder : Holder} {parm : Parm}
    (found : parmsOf before holder = some parm) : above after holder = above before holder := by
  have known := holder_known stored found
  cases holder with
  | cont c => rw [above, above, added.oldConts c known]
  | pid p => rw [above, above, added.oldPids p known]
  | _ => rfl

/-- A unit of the configuration: its owner, if any, and the PIDs it lists. -/
theorem settled_unit {owner : Option ContPtr} (added : Added owner img before after new)
    (stored : Stored before) (clean : Clean after)
    (keeps : ∀ holder parm, parmsOf before holder = some parm → parmsOf after holder = some parm)
    (own : ∀ ptr, owner = some ptr → ∃ parm, parmsOf after (holderOf owner) = some parm ∧
      ∃ upper, parmsOf after (above after (holderOf owner)) = some upper ∧ Inherits parm upper)
    (pids : ∀ p ∈ new, ∃ parm, parmsOf after (.pid p) = some parm ∧
      ∃ upper, parmsOf after (holderOf owner) = some upper ∧ Inherits parm upper) :
    Settled before after where
  clean := clean
  keeps := keeps
  shares := by
    intro shares holder parm found
    cases earlier : parmsOf before holder with
    | some old =>
        obtain rfl : old = parm := Option.some.inj ((keeps holder old earlier).symm.trans found)
        obtain ⟨upper, known, inherits⟩ := shares holder old earlier
        rw [above_kept added stored earlier]
        exact ⟨upper, keeps _ upper known, inherits⟩
    | none =>
        -- what was not known is the owner or one of its PIDs
        have own' : ∀ ptr, owner = some ptr → holder = holderOf (some ptr) →
            ∃ upper, parmsOf after (above after holder) = some upper ∧ Inherits parm upper := by
          rintro ptr rfl rfl
          obtain ⟨other, same, upper, known, inherits⟩ := own ptr rfl
          obtain rfl := Option.some.inj (same.symm.trans found)
          exact ⟨upper, known, inherits⟩
        cases holder with
        | defaults => cases earlier
        | img i =>
            rcases (added_img added i).mp (Option.ite_none_right_eq_some.mp found).1 with this | old
            · exact own' _ this rfl
            · exact absurd ((if_pos old).symm.trans earlier) (by simp)
        | cont c =>
            rcases (added_cont added c).mp (Option.ite_none_right_eq_some.mp found).1 with this | old
            · exact own' _ this rfl
            · exact absurd ((if_pos old).symm.trans earlier) (by simp)
        | pid p =>
            rcases (added_pid added p).mp (Option.ite_none_right_eq_some.mp found).1 with now | old
            · obtain ⟨other, same, upper, known, inherits⟩ := pids p now
              obtain rfl := Option.some.inj (same.symm.trans found)
              rw [above, (added.links p now).1]
              exact ⟨upper, known, inherits⟩
            · exact absurd ((if_pos old).symm.trans earlier) (by simp)

/-- Two functions that agree elsewhere are the same once this place is set. -/
theorem update_agrees {f g : Holder → Option Parm} {place : Holder} {value : Option Parm}
    (agree : ∀ holder, holder ≠ place → f holder = g holder) :
    Function.update f place value = Function.update g place value := by
  funext holder
  by_cases this : holder = place
  · rw [this, Function.update_self, Function.update_self]
  · rw [Function.update_of_ne this, Function.update_of_ne this, agree holder this]

theorem parms_set_cont {conts : Containers} {c : Nat} (held : c ∈ conts.cont) (value : Cont) :
    parmsOf (conts.setCont c value) =
      Function.update (parmsOf conts) (.cont c) (some value.toParm) := by
  funext holder
  by_cases this : holder = .cont c
  · subst this
    simp [parmsOf, Containers.setCont, held]
  · rw [Function.update_of_ne this]
    cases holder with
    | cont x =>
        have other : x ≠ c := fun same => this (congrArg Holder.cont same)
        simp [parmsOf, Containers.setCont, other]
    | _ => rfl

theorem parms_push_cont (conts : Containers) {holder : Holder} (other : holder ≠ .cont conts.brk) :
    parmsOf conts.pushCont holder = parmsOf conts holder := by
  cases holder with
  | cont c =>
      have apart : c ≠ conts.brk := fun same => other (congrArg Holder.cont same)
      simp [parmsOf, Containers.pushCont, apart]
  | _ => rfl

theorem parms_set_img {conts : Containers} {i : Nat} (held : i ∈ conts.img) (value : Img) :
    parmsOf (conts.setImg i value) =
      Function.update (parmsOf conts) (.img i) (some value.toParm) := by
  funext holder
  by_cases this : holder = .img i
  · subst this
    simp [parmsOf, Containers.setImg, held]
  · rw [Function.update_of_ne this]
    cases holder with
    | img x =>
        have other : x ≠ i := fun same => this (congrArg Holder.img same)
        simp [parmsOf, Containers.setImg, other]
    | _ => rfl

theorem parms_push_img (conts : Containers) {holder : Holder} (other : holder ≠ .img conts.brk) :
    parmsOf conts.pushImg holder = parmsOf conts holder := by
  cases holder with
  | img i =>
      have apart : i ≠ conts.brk := fun same => other (congrArg Holder.img same)
      simp [parmsOf, Containers.pushImg, apart]
  | _ => rfl

/-- The settings of all holders after a container was filled in. -/
theorem parms_cont_filled (allocates : Allocates before.pushCont middle) (value : Cont) :
    parmsOf (middle.setCont before.brk value) =
      Function.update (parmsOf before) (.cont before.brk) (some value.toParm) := by
  have held : before.brk ∈ middle.cont := by
    rw [allocates.cont]
    exact List.mem_cons_self
  rw [parms_set_cont held, parms_allocates allocates]
  exact update_agrees fun holder other => parms_push_cont before other

/-- The settings of all holders after an image was filled in. -/
theorem parms_img_filled (allocates : Allocates before.pushImg middle) (value : Img) :
    parmsOf (middle.setImg before.brk value) =
      Function.update (parmsOf before) (.img before.brk) (some value.toParm) := by
  have held : before.brk ∈ middle.img := by
    rw [allocates.img]
    exact List.mem_cons_self
  rw [parms_set_img held, parms_allocates allocates]
  exact update_agrees fun holder other => parms_push_img before other

theorem cont_fresh (stored : Stored before) : parmsOf before (holderOf (some (.cont before.brk))) = none :=
  if_neg fun held => absurd (stored.cont _ held) (Nat.lt_irrefl _)

theorem img_fresh (stored : Stored before) : parmsOf before (holderOf (some (.img before.brk))) = none :=
  if_neg fun known => absurd (stored.img _ known) (Nat.lt_irrefl _)

theorem cont_filled {value : Cont} {holder : Holder} {upper : Parm} (clean : Clean before)
    (allocates : Allocates before.pushCont middle)
    (level : Level before.pushCont middle upper value.toParm)
    (found : parmsOf before holder = some upper) : Clean (middle.setCont before.brk value) := by
  have brk : before.brk < middle.brk := allocates.brk
  have known : Holder.known (middle.setCont before.brk value).brk (.cont before.brk) := brk
  apply clean.add known brk.le (parms_cont_filled allocates value) (cont_fresh clean.stored) found
  · exact fun r old => allocates.rscsAt r (old.trans (Nat.lt_succ_self _))
  · exact level.widen (Nat.le_succ _) le_rfl fun _ _ => rfl

theorem img_filled {value : Img} {holder : Holder} {upper : Parm} (clean : Clean before)
    (allocates : Allocates before.pushImg middle)
    (level : Level before.pushImg middle upper value.toParm)
    (found : parmsOf before holder = some upper) : Clean (middle.setImg before.brk value) := by
  have brk : before.brk < middle.brk := allocates.brk
  have known : Holder.known (middle.setImg before.brk value).brk (.img before.brk) := brk
  apply clean.add known brk.le (parms_img_filled allocates value) (img_fresh clean.stored) found
  · exact fun r old => allocates.rscsAt r (old.trans (Nat.lt_succ_self _))
  · exact level.widen (Nat.le_succ _) le_rfl fun _ _ => rfl

/-- The image of a container has no part in its settings. -/
theorem parms_cont_img (conts : Containers) (c : Nat) (img : Option Nat) :
    parmsOf (conts.setCont c { conts.contAt c with img := img }) = parmsOf conts := by
  funext holder
  cases holder with
  | cont x =>
      rw [parmsOf, parmsOf, Containers.setCont]
      dsimp only
      rw [update_keeps conts.contAt c { conts.contAt c with img := img } Cont.toParm rfl x]
  | _ => rfl

/-- An owner is filled in and gets its PIDs. -/
theorem owner_settled {ptr : ContPtr} {filled listed : Containers} {parm upper : Parm}
    (clean : Clean before) (fresh : parmsOf before (holderOf (some ptr)) = none)
    (parms : parmsOf filled =
      Function.update (parmsOf before) (holderOf (some ptr)) (some parm))
    (settled : PidsSettled parm filled listed new) (same : parmsOf after = parmsOf listed)
    (done : Clean after) (added : Added (some ptr) img before after new)
    (found : parmsOf before (above after (holderOf (some ptr))) = some upper)
    (inherits : Inherits parm upper) : Settled before after := by
  have newPid : ∀ holder other, parmsOf before holder = some other → ∀ p ∈ new, holder ≠ .pid p := by
    rintro holder other known p inside rfl
    exact absurd (holder_known clean.stored known) (Nat.not_lt.mpr (added.fresh p inside).1)
  have keeps : ∀ holder other, parmsOf before holder = some other →
      parmsOf after holder = some other := by
    intro holder other known
    have apart : holder ≠ holderOf (some ptr) := by
      rintro rfl
      rw [fresh] at known
      cases known
    rw [same, settled.old holder (newPid holder other known), parms, Function.update_of_ne apart]
    exact known
  have own : parmsOf after (holderOf (some ptr)) = some parm := by
    have apart : ∀ p ∈ new, holderOf (some ptr) ≠ .pid p := fun p _ => by
      cases ptr <;> simp [holderOf]
    rw [same, settled.old _ apart, parms, Function.update_self]
  apply settled_unit added clean.stored done keeps
  · rintro _ ⟨⟩
    exact ⟨parm, own, upper, keeps _ upper found, inherits⟩
  · intro p inside
    obtain ⟨pidParm, known, inherited⟩ := settled.news p inside
    exact ⟨pidParm, same ▸ known, parm, own, inherited⟩

theorem cont_unit_settled {value : Cont} {upper : Parm} {contobj : Json} {listed : Containers}
    (clean : Clean before) (allocates : Allocates before.pushCont middle)
    (level : Level before.pushCont middle upper value.toParm) (none : value.pids = [])
    (found : parmsOf before (holderOf (img.map ContPtr.img)) = some upper)
    (pids : parsePids contobj (some (.cont before.brk)) (some (.cont before.brk)) img
      (middle.setCont before.brk value) = .ok listed) :
    Settled before (listed.setCont before.brk { listed.contAt before.brk with img := img }) := by
  have parms := parms_cont_filled allocates value
  have own : parmsOf (middle.setCont before.brk value) (holderOf (some (.cont before.brk))) =
      some value.toParm := by
    rw [parms]
    exact Function.update_self _ _ _
  obtain ⟨new, added, settled⟩ :=
    parse_pids_settled rfl pids (cont_filled clean allocates level found) own
  have unit := cont_unit_added value none allocates.toExtends added
  have same := parms_cont_img listed before.brk img
  apply owner_settled clean (cont_fresh clean.stored) parms settled same
    (settled.clean.same same le_rfl fun _ _ => rfl) unit _ level.inherits
  rw [holderOf, above, (unit.ownCont _ rfl).2]
  exact found

theorem img_unit_settled {value : Img} {upper : Parm} {imgobj : Json}
    (clean : Clean before) (allocates : Allocates before.pushImg middle)
    (level : Level before.pushImg middle upper value.toParm) (none : value.pids = [])
    (alone : value.conts = []) (found : parmsOf before .defaults = some upper)
    (pids : parsePids imgobj (some (.img before.brk)) .none (some before.brk)
      (middle.setImg before.brk value) = .ok after) :
    Settled before after := by
  have parms := parms_img_filled allocates value
  have own : parmsOf (middle.setImg before.brk value) (holderOf (some (.img before.brk))) =
      some value.toParm := by
    rw [parms]
    exact Function.update_self _ _ _
  obtain ⟨new, added, settled⟩ :=
    parse_pids_settled rfl pids (img_filled clean allocates level found) own
  have unit := img_unit_added value none alone allocates.toExtends added
  exact owner_settled clean (img_fresh clean.stored) parms settled rfl settled.clean unit found
    level.inherits

/-- A container with its PIDs. -/
theorem parse_container_step_settled {contobj : Json} {upper : Parm} (clean : Clean before)
    (found : parmsOf before (holderOf (img.map ContPtr.img)) = some upper)
    (run : parseContainerStep img before contobj = .ok after) : Settled before after := by
  unfold parseContainerStep parseContainerData at run
  obtain ⟨contid, _, run⟩ := bind_ok run
  have named := dup_option_allocates before.pushCont contid
  generalize dupOption before.pushCont contid = dup at named run
  obtain ⟨attr, params, run⟩ := bind_ok run
  obtain ⟨rscs, res, run⟩ := bind_ok run
  obtain ⟨listed, pids, run⟩ := bind_ok run
  obtain rfl := Except.ok.inj run
  -- the settings the container would share are those of its image
  have owned : ownerParm dup.1 none img = upper := by
    cases img with
    | none =>
        cases found
        rw [ownerParm, named.attr, named.rscs]
        rfl
    | some i =>
        obtain ⟨_, ⟨⟩⟩ := Option.ite_none_right_eq_some.mp found
        rw [ownerParm, named.imgAt]
        rfl
  have params' : parseParams contobj upper.attr dup.1 = .ok attr := by
    rw [← owned]
    cases img <;> exact params
  have res' : parseRes contobj upper.rscs attr.1 = .ok rscs := by
    rw [← owned]
    cases img <;> exact res
  obtain ⟨allocates, levels⟩ := level_of_parsed named params' res'
  exact cont_unit_settled clean allocates (levels false) rfl found pids

theorem count_step_allocates {elem : Json} (run : countStep before elem = .ok after) :
    Allocates before after := by
  have extended := count_step_extends before after elem run
  obtain ⟨nthreads, rfl⟩ := count_step_ok run
  exact ⟨extended, rfl, rfl, fun _ _ => rfl⟩

theorem count_settled {elems : List Json} (clean : Clean before)
    (run : elems.foldlM countStep before = .ok after) : Settled before after := by
  apply settled_of_allocates clean
  exact fold_rule countStep (fun before _ after => Allocates before after)
    (fun conts => ⟨extends_refl conts, rfl, rfl, fun _ _ => rfl⟩)
    (fun state elem next _ _ step tail => allocates_trans (count_step_allocates step) tail)
    elems before after run

theorem parse_containers_settled {containers : Json} {upper : Parm} (clean : Clean before)
    (found : parmsOf before (holderOf (img.map ContPtr.img)) = some upper)
    (run : parseContainers containers img before = .ok after) : Settled before after := by
  unfold parseContainers at run
  cases containers with
  | array elems =>
      obtain ⟨counted, count, run⟩ := bind_ok run
      have counts := count_settled clean count
      have loop := fold_rule (parseContainerStep img)
        (fun before _ after => Clean before →
          parmsOf before (holderOf (img.map ContPtr.img)) = some upper → Settled before after)
        (fun conts clean _ => settled_refl clean)
        (fun state contobj next rest finish step tail clean found => by
          have first := parse_container_step_settled clean found step
          exact settled_trans first (tail first.clean (first.keeps _ _ found)))
        _ counted after run counts.clean (counts.keeps _ _ found)
      exact settled_trans counts loop
  | _ => cases run

theorem parse_image_step_settled {imgobj : Json} (clean : Clean before)
    (run : parseImageStep before imgobj = .ok after) : Settled before after := by
  unfold parseImageStep parseImageData at run
  obtain ⟨imgid, _, run⟩ := bind_ok run
  have named := dup_option_allocates before.pushImg imgid
  generalize dupOption before.pushImg imgid = dup at named run
  obtain ⟨attr, params, run⟩ := bind_ok run
  obtain ⟨rscs, res, run⟩ := bind_ok run
  obtain ⟨direct, pids, run⟩ := bind_ok run
  obtain ⟨containers, _, run⟩ := bind_ok run
  obtain ⟨upper, found, upperAttr, upperRscs⟩ : ∃ upper, parmsOf before .defaults = some upper ∧
      upper.attr = dup.1.attr ∧ upper.rscs = dup.1.rscs :=
    ⟨_, rfl, named.attr.symm, named.rscs.symm⟩
  rw [← upperAttr] at params
  rw [← upperRscs] at res
  obtain ⟨allocates, levels⟩ := level_of_parsed named params res
  have image := img_unit_settled clean allocates (levels false) rfl rfl found pids
  split_ifs at run
  · cases run
    exact image
  · obtain ⟨new, added, _⟩ := parse_pids_added imgobj _ none (some before.brk) _ direct rfl pids
    have unit := img_unit_added _ rfl rfl allocates.toExtends added
    -- the image is in the list before its containers are parsed
    have known : parmsOf direct (holderOf ((some before.brk).map ContPtr.img)) =
        some (direct.imgAt before.brk).toParm :=
      if_pos ((added_img unit _).mpr (.inl rfl))
    exact settled_trans image (parse_containers_settled image.clean known run)

theorem parse_images_settled {images : Json} (clean : Clean before)
    (run : parseImages images before = .ok after) : Settled before after := by
  unfold parseImages at run
  cases images with
  | array elems =>
      obtain ⟨counted, count, run⟩ := bind_ok run
      have counts := count_settled clean count
      have loop := fold_rule parseImageStep (fun before _ after => Clean before → Settled before after)
        (fun conts clean => settled_refl clean)
        (fun state imgobj next rest finish step tail clean => by
          have first := parse_image_step_settled clean step
          exact settled_trans first (tail first.clean))
        _ counted after run counts.clean
      exact settled_trans counts loop
  | _ => cases run

/-- PIDs of the root. -/
theorem root_pids_settled {root : Json} (clean : Clean before)
    (run : parsePids root none none none before = .ok after) : Settled before after := by
  obtain ⟨new, added, settled⟩ := parse_pids_settled rfl run clean
    (rfl : parmsOf before (holderOf none) = some { attr := before.attr, rscs := before.rscs })
  have unit := root_pids_added added
  have keeps : ∀ holder parm, parmsOf before holder = some parm →
      parmsOf after holder = some parm := by
    intro holder parm known
    rw [settled.old holder, known]
    rintro p inside rfl
    exact absurd (holder_known clean.stored known) (Nat.not_lt.mpr (added.fresh p inside).1)
  apply settled_unit unit clean.stored settled.clean keeps (fun _ none => by cases none)
  intro p inside
  obtain ⟨parm, known, inherits⟩ := settled.news p inside
  exact ⟨parm, known, _, keeps _ _ rfl, inherits⟩

/-- The settings of the root, before there is any element. -/
theorem global_clean (conts : Containers) (img : conts.img = []) (cont : conts.cont = [])
    (pids : conts.pids = []) (attr : conts.attr < conts.brk) (rscs : conts.rscs < conts.brk)
    (mask : (conts.rscsAt conts.rscs).affinityMask = none) : Clean conts ∧ Shares conts := by
  have only : ∀ holder parm, parmsOf conts holder = some parm →
      holder = .defaults ∧ parm = { attr := conts.attr, rscs := conts.rscs } := by
    intro holder parm known
    cases holder with
    | defaults => exact ⟨rfl, (Option.some.inj known).symm⟩
    | img i => simp [parmsOf, img] at known
    | cont c => simp [parmsOf, cont] at known
    | pid p => simp [parmsOf, pids] at known
  refine ⟨⟨?_, ?_, ?_, ?_⟩, ?_⟩
  · apply stored_of_parms
    intro holder parm known
    obtain ⟨rfl, rfl⟩ := only holder parm known
    exact ⟨trivial, attr, rscs⟩
  · have owned : ∀ ref : Ref Nat, ref.shared = false → ref = ⟨ref.object, false⟩ := by
      rintro ⟨object, _⟩ rfl
      rfl
    have single : ∀ pick : Parm → Ref Nat,
        (pick { attr := conts.attr, rscs := conts.rscs }).shared = false →
          SingleOwner fun holder => (parmsOf conts holder).map pick := by
      intro pick own holder ref refers
      obtain ⟨parm, known, rfl⟩ := Option.map_eq_some_iff.mp refers
      obtain ⟨rfl, rfl⟩ := only holder parm known
      refine ⟨.defaults, ?_, fun other owns => ?_⟩
      · dsimp only
        rw [known, Option.map_some]
        exact congrArg some (owned _ own)
      · obtain ⟨parm, known, _⟩ := Option.map_eq_some_iff.mp owns
        exact (only other parm known).1
    exact ⟨single attrRef rfl, single rscsRef rfl⟩
  · intro holder parm known
    obtain ⟨rfl, rfl⟩ := only holder parm known
    exact mask
  · intro holder parm known
    obtain ⟨rfl, rfl⟩ := only holder parm known
    rfl
  · intro holder parm known
    obtain ⟨rfl, rfl⟩ := only holder parm known
    exact ⟨_, rfl, fun _ => rfl, fun _ => rfl⟩

/-- Every accepted configuration. -/
theorem parse_config_settled {root : Json} {conts : Containers}
    (run : parseConfig root {} = .ok conts) : Clean conts ∧ Shares conts := by
  obtain ⟨_, _, attr, rscs, imaged, contained, params, res, imageRun, contRun, pidsRun⟩ :=
    parse_config_ok run
  obtain ⟨one, _, upperAttr⟩ := parse_scheduling_data_new params
  obtain ⟨two, _, upperRscs, mask⟩ := parse_resource_data_new res
  have global : Clean { rscs.1 with rscs := rscs.2 } ∧ Shares { rscs.1 with rscs := rscs.2 } := by
    apply global_clean
    · exact two.img.trans one.img
    · exact two.cont.trans one.cont
    · exact two.pids.trans one.pids
    · exact two.attr.trans_lt (upperAttr.trans_le two.brk)
    · exact upperRscs
    · exact mask
  have images : Settled { rscs.1 with rscs := rscs.2 } imaged := by
    split_ifs at imageRun
    · cases imageRun
      exact settled_refl global.1
    · exact parse_images_settled global.1 imageRun
  have conts : Settled imaged contained := by
    split_ifs at contRun
    · cases contRun
      exact settled_refl images.clean
    · have defaults : parmsOf imaged (holderOf ((none : Option Nat).map ContPtr.img)) =
          some { attr := imaged.attr, rscs := imaged.rscs } := rfl
      exact parse_containers_settled images.clean defaults contRun
  have pids := root_pids_settled conts.clean pidsRun
  have all := settled_trans images (settled_trans conts pids)
  exact ⟨all.clean, all.shares global.2⟩

end Units

end Orchestrator.ParsedSettings
