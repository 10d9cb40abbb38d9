import Orchestrator.LookupRun
import Orchestrator.Ownership

/-!
Owners of the settings objects across lookups: who disposes of which attributes
and resources when the configuration is freed.
-/

namespace Orchestrator.SettingsOwners
open Orchdata PidLookup LookupEdits MutualLinks LookupHierarchy LookupRun Ownership

/-- Those that refer to settings. -/
inductive Holder where
  | defaults
  | img (i : Nat)
  | cont (c : Nat)
  | pid (p : Nat)
  deriving DecidableEq

/-- The settings of a holder, if the configuration has it. -/
def parmsOf (conts : Containers) : Holder → Option Parm
  | .defaults => some { attr := conts.attr, rscs := conts.rscs }
  | .img i => if i ∈ conts.img then some (conts.imgAt i).toParm else none
  | .cont c => if c ∈ conts.cont then some (conts.contAt c).toParm else none
  | .pid p => if p ∈ conts.pids then some (conts.pidcAt p).toParm else none

def attrRef (parm : Parm) : Ref Nat := ⟨parm.attr, parm.status.shat⟩

def rscsRef (parm : Parm) : Ref Nat := ⟨parm.rscs, parm.status.shrc⟩

def attrRefs (conts : Containers) (holder : Holder) : Option (Ref Nat) :=
  (parmsOf conts holder).map attrRef

def rscsRefs (conts : Containers) (holder : Holder) : Option (Ref Nat) :=
  (parmsOf conts holder).map rscsRef

/-- Every settings object of the configuration has exactly one owner. -/
structure SingleOwners (conts : Containers) : Prop where
  attr : SingleOwner (attrRefs conts)
  rscs : SingleOwner (rscsRefs conts)

/-- Containers created at runtime own no settings. -/
def RuntimeShares (conts : Containers) : Prop :=
  ∀ c ∈ conts.cont, (conts.contAt c).status.ccrt = true →
    (conts.contAt c).status.shat = true ∧ (conts.contAt c).status.shrc = true

/-- The PIDs of a container that is refreshed own no settings. -/
def RefreshesShared (look : Lookup) : Prop :=
  ∀ state c id, Copies look state c → look.node.contid = some id →
    ∀ p ∈ connected state.conts c id.text,
      (state.conts.pidcAt p).status.shat = true ∧ (state.conts.pidcAt p).status.shrc = true

section Parms
variable {before after : Containers}

theorem parms_adds_pid {entry : Pidc} {owner img : Option Nat}
    (adds : AddsPid before after entry owner img) :
    parmsOf after = Function.update (parmsOf before) (.pid before.brk) (some entry.toParm) := by
  funext holder
  cases holder with
  | defaults =>
      rw [Function.update_of_ne (by simp), parmsOf, parmsOf, adds.grows.attr, adds.grows.rscs]
  | img i =>
      rw [Function.update_of_ne (by simp), parmsOf, parmsOf, adds.grows.img, adds.imgAt,
        (with_pid_rest _ _ _ _).2]
  | cont c =>
      rw [Function.update_of_ne (by simp), parmsOf, parmsOf, adds.cont, adds.contAt,
        (with_member_rest _ _ _ _).2.2]
  | pid p =>
      by_cases this : p = before.brk
      · subst this
        rw [Function.update_self, parmsOf, adds.pids, if_pos List.mem_cons_self, adds.pidcAt,
          Function.update_self]
      · rw [Function.update_of_ne (by simp [this]), parmsOf, parmsOf, adds.pids, adds.pidcAt,
          Function.update_of_ne this]
        simp [this]

theorem parms_writes_cont {c : Nat} {entry : Cont} {new : Bool} {img : Option Nat}
    (writes : WritesCont before after c entry new img) (listed : new = false → c ∈ before.cont) :
    parmsOf after = Function.update (parmsOf before) (.cont c) (some entry.toParm) := by
  funext holder
  cases holder with
  | defaults =>
      rw [Function.update_of_ne (by simp), parmsOf, parmsOf, writes.grows.attr, writes.grows.rscs]
  | img i =>
      rw [Function.update_of_ne (by simp), parmsOf, parmsOf, writes.grows.img, writes.imgAt,
        (with_cont_rest _ _ _ _).2]
  | cont x =>
      by_cases this : x = c
      · subst this
        have held : x ∈ after.cont := by
          rw [writes.cont]
          cases new with
          | true => exact List.mem_cons_self
          | false => exact listed rfl
        rw [Function.update_self, parmsOf, if_pos held, writes.contAt, Function.update_self]
      · rw [Function.update_of_ne (by simp [this]), parmsOf, parmsOf, writes.contAt,
          Function.update_of_ne this, writes.cont]
        cases new with
        | true => simp [this]
        | false => rfl
  | pid p => rw [Function.update_of_ne (by simp), parmsOf, parmsOf, writes.pids, writes.pidcAt]

theorem parms_refresh {conts : Containers} {c p : Nat} (listed : p ∈ conts.pids) :
    parmsOf (refreshPid c conts p) = Function.update (parmsOf conts) (.pid p) (some
      { status := (conts.pidcAt p).status
        attr := (conts.contAt c).attr
        rscs := (conts.contAt c).rscs }) := by
  rw [refresh_pid_eq]
  funext holder
  cases holder with
  | defaults => rw [Function.update_of_ne (by simp)]; rfl
  | img i =>
      rw [Function.update_of_ne (by simp), parmsOf, parmsOf]
      dsimp only
      rw [(with_pid_rest _ _ _ _).2]
  | cont x => rw [Function.update_of_ne (by simp), parmsOf, parmsOf]
  | pid q =>
      by_cases this : q = p
      · subst this
        rw [Function.update_self, parmsOf]
        dsimp only
        rw [if_pos listed, Function.update_self]
      · rw [Function.update_of_ne (by simp [this]), parmsOf, parmsOf]
        dsimp only
        rw [Function.update_of_ne this]

/-- The link of a PID has no part in its settings. -/
theorem parms_link (conts : Containers) (q : Nat) (owner : Option ContPtr) :
    parmsOf { conts with
      pidcAt := Function.update conts.pidcAt q { conts.pidcAt q with cont := owner } } =
      parmsOf conts := by
  funext holder
  cases holder with
  | pid p =>
      rw [parmsOf, parmsOf]
      by_cases this : p = q
      · subst this
        simp
      · simp [this]
  | _ => rfl

theorem parms_fake {conts : Containers} (stored : Stored conts) (fake : Pidc) (brk : Nat) :
    parmsOf { conts.setPidc conts.brk fake with brk := brk } = parmsOf conts := by
  funext holder
  cases holder with
  | pid p =>
      rw [parmsOf, parmsOf]
      by_cases listed : p ∈ conts.pids
      · have apart : p ≠ conts.brk := Nat.ne_of_lt (stored.pids p listed)
        simp [Containers.setPidc, listed, apart]
      · simp [Containers.setPidc, listed]
  | _ => rfl

/-- Settings lead to what was allocated. -/
theorem parms_below {conts : Containers} (stored : Stored conts) {holder : Holder} {parm : Parm}
    (found : parmsOf conts holder = some parm) : Below conts.brk parm := by
  cases holder with
  | defaults =>
      cases found
      exact ⟨stored.attr, stored.rscs⟩
  | img i =>
      obtain ⟨known, ⟨⟩⟩ := Option.ite_none_right_eq_some.mp found
      exact stored.imgParm i known
  | cont c =>
      obtain ⟨held, ⟨⟩⟩ := Option.ite_none_right_eq_some.mp found
      exact stored.contParm c held
  | pid p =>
      obtain ⟨listed, ⟨⟩⟩ := Option.ite_none_right_eq_some.mp found
      exact stored.pidcParm p listed

end Parms

section Owners
variable {before after : Containers}

/-- Settings a holder may get: shared ones belong to another holder, its own are new. -/
structure Grant (conts : Containers) (parm : Parm) : Prop where
  attr : Allowed (attrRefs conts) (attrRef parm)
  rscs : Allowed (rscsRefs conts) (rscsRef parm)

/-- Settings that share those of a holder or are allocated later. -/
theorem grant_of {conts : Containers} {parm upper : Parm} {holder : Holder}
    (below : ∀ holder other, parmsOf conts holder = some other → Below conts.brk other)
    (found : parmsOf conts holder = some upper)
    (attr : parm.status.shat = true → parm.attr = upper.attr)
    (rscs : parm.status.shrc = true → parm.rscs = upper.rscs)
    (newAttr : parm.status.shat = false → conts.brk ≤ parm.attr)
    (newRscs : parm.status.shrc = false → conts.brk ≤ parm.rscs) : Grant conts parm := by
  constructor
  · rw [Allowed, attrRef]
    cases shared : parm.status.shat with
    | true => exact ⟨holder, attrRef upper, by rw [attrRefs, found]; rfl, (attr shared).symm⟩
    | false =>
        rw [if_neg (by simp)]
        intro user ref refers
        obtain ⟨other, known, rfl⟩ := Option.map_eq_some_iff.mp refers
        exact Nat.ne_of_lt ((below user other known).1.trans_le (newAttr shared))
  · rw [Allowed, rscsRef]
    cases shared : parm.status.shrc with
    | true => exact ⟨holder, rscsRef upper, by rw [rscsRefs, found]; rfl, (rscs shared).symm⟩
    | false =>
        rw [if_neg (by simp)]
        intro user ref refers
        obtain ⟨other, known, rfl⟩ := Option.map_eq_some_iff.mp refers
        exact Nat.ne_of_lt ((below user other known).2.trans_le (newRscs shared))

theorem copied_grant {source result : Parm} (stored : Stored before) {holder : Holder}
    (found : parmsOf before holder = some source) (copy : CopyOf before after source result) :
    Grant before result := by
  apply grant_of (fun _ _ => parms_below stored) found
  · exact fun shared => copy.sharedAttr (copy.status ▸ shared)
  · exact fun shared => copy.sharedRscs (copy.status ▸ shared)
  · exact fun own => (copy.newAttr (copy.status ▸ own)).1
  · exact fun own => (copy.newRscs (copy.status ▸ own)).1

/-- Settings that share both of a holder's. -/
theorem shared_grant {conts : Containers} {parm upper : Parm} (stored : Stored conts)
    (holder : Holder) (found : parmsOf conts holder = some upper) (attr : parm.attr = upper.attr)
    (rscs : parm.rscs = upper.rscs) (shat : parm.status.shat = true)
    (shrc : parm.status.shrc = true) : Grant conts parm := by
  apply grant_of (fun _ _ => parms_below stored) found (fun _ => attr) (fun _ => rscs)
  · intro own
    rw [shat] at own
    cases own
  · intro own
    rw [shrc] at own
    cases own

/-- A holder that is new, or owned nothing, gets settings. -/
theorem SingleOwners.write (owners : SingleOwners before) {holder : Holder} {parm : Parm}
    (parms : parmsOf after = Function.update (parmsOf before) holder (some parm))
    (free : ∀ old, parmsOf before holder = some old →
      old.status.shat = true ∧ old.status.shrc = true) (grant : Grant before parm) :
    SingleOwners after := by
  have refs : ∀ pick : Parm → Ref Nat, (fun user => (parmsOf after user).map pick) =
      Function.update (fun user => (parmsOf before user).map pick) holder (some (pick parm)) := by
    intro pick
    funext user
    rw [parms]
    by_cases this : user = holder
    · rw [this, Function.update_self, Function.update_self]
      rfl
    · rw [Function.update_of_ne this, Function.update_of_ne this]
  constructor
  · have attr : attrRefs after = _ := refs attrRef
    rw [attr]
    refine owners.attr.write (fun object owns => ?_) grant.attr
    obtain ⟨old, found, same⟩ := Option.map_eq_some_iff.mp owns
    have shared := (free old found).1
    rw [attrRef, shared] at same
    cases same
  · have rscs : rscsRefs after = _ := refs rscsRef
    rw [rscs]
    refine owners.rscs.write (fun object owns => ?_) grant.rscs
    obtain ⟨old, found, same⟩ := Option.map_eq_some_iff.mp owns
    have shared := (free old found).2
    rw [rscsRef, shared] at same
    cases same

theorem SingleOwners.same (owners : SingleOwners before) (parms : parmsOf after = parmsOf before) :
    SingleOwners after := by
  constructor
  · have attr : attrRefs after = attrRefs before := by funext user; rw [attrRefs, parms, attrRefs]
    rw [attr]
    exact owners.attr
  · have rscs : rscsRefs after = rscsRefs before := by funext user; rw [rscsRefs, parms, rscsRefs]
    rw [rscs]
    exact owners.rscs

/-- A new PID configuration. -/
theorem adds_pid_owners (stored : Stored before) (owners : SingleOwners before) {entry : Pidc}
    {owner img : Option Nat} (adds : AddsPid before after entry owner img)
    (grant : Grant before entry.toParm) : SingleOwners after := by
  apply owners.write (parms_adds_pid adds) _ grant
  intro old found
  have listed := (Option.ite_none_right_eq_some.mp found).1
  exact absurd (stored.pids _ listed) (Nat.lt_irrefl _)

/-- A container that is new, or owned none of the settings it had. -/
theorem writes_cont_owners (stored : Stored before) (owners : SingleOwners before) {c : Nat}
    {entry : Cont} {new : Bool} {img : Option Nat} (writes : WritesCont before after c entry new img)
    (listed : new = false → c ∈ before.cont ∧ (before.contAt c).status.shat = true ∧
      (before.contAt c).status.shrc = true) (grant : Grant before entry.toParm) :
    SingleOwners after := by
  apply owners.write (parms_writes_cont writes fun old => (listed old).1) _ grant
  intro old found
  obtain ⟨held, ⟨⟩⟩ := Option.ite_none_right_eq_some.mp found
  cases new with
  | true =>
      rw [(writes.room rfl).1] at held
      exact absurd (stored.cont _ held) (Nat.lt_irrefl _)
  | false => exact (listed rfl).2

/-- A PID that shares its settings gets those of its container. -/
theorem refresh_pid_owners {conts : Containers} (stored : Stored conts) (owners : SingleOwners conts)
    {c p : Nat} (member : c ∈ conts.cont) (listed : p ∈ conts.pids)
    (shared : (conts.pidcAt p).status.shat = true ∧ (conts.pidcAt p).status.shrc = true) :
    SingleOwners (refreshPid c conts p) := by
  apply owners.write (parms_refresh listed)
  · intro old found
    obtain ⟨_, ⟨⟩⟩ := Option.ite_none_right_eq_some.mp found
    exact shared
  · exact shared_grant stored (.cont c) (if_pos member) rfl rfl shared.1 shared.2

end Owners

/-- Owners of the settings, with what keeps them single. -/
structure Owned (conts : Containers) : Prop where
  owners : SingleOwners conts
  runtime : RuntimeShares conts

section Lookups
variable {look : Lookup}

theorem runtime_adds_pid {before after : Containers} {entry : Pidc} {owner img : Option Nat}
    (adds : AddsPid before after entry owner img) (runtime : RuntimeShares before) :
    RuntimeShares after := by
  intro c held
  rw [adds.cont] at held
  rw [adds.contAt, (with_member_rest _ _ _ _).2.2]
  exact runtime c held

theorem runtime_writes_cont {before after : Containers} {c : Nat} {entry : Cont} {new : Bool}
    {img : Option Nat} (writes : WritesCont before after c entry new img)
    (runtime : RuntimeShares before)
    (own : entry.status.ccrt = true → entry.status.shat = true ∧ entry.status.shrc = true) :
    RuntimeShares after := by
  intro x held
  rw [writes.contAt]
  by_cases this : x = c
  · rw [this, Function.update_self]
    exact own
  · rw [Function.update_of_ne this]
    exact runtime x (writes.older this held)

/-- The copy of a container and of its PIDs; PIDs that are refreshed share. -/
theorem copy_owned {state : Lookup} {c : Nat} (id : List Char) (sound : LookupRun.Sound state.conts)
    (member : c ∈ state.conts.cont) (owned : Owned state.conts)
    (shared : ∀ p ∈ connected state.conts c id,
      (state.conts.pidcAt p).status.shat = true ∧ (state.conts.pidcAt p).status.shrc = true) :
    Owned (duplicateOrRefreshContainer state c id).1.conts := by
  have steps := copy_rule state c id (fun conts => Owned conts ∧ ∀ p ∈ connected state.conts c id,
    p ∈ conts.pids ∧ (conts.pidcAt p).status = (state.conts.pidcAt p).status) _ rfl sound member
    ?_ ?_ ?_
  · exact steps.2.2.1
  · intro filled entry writes fills
    have source : parmsOf state.conts (.cont c) = some (state.conts.contAt c).toParm :=
      if_pos member
    refine ⟨⟨writes_cont_owners sound.toStored owned.owners writes ?_
      (copied_grant sound.toStored source fills.copy),
      runtime_writes_cont writes owned.runtime ?_⟩, ?_⟩
    · intro old
      cases search : runtimeCont state.conts c id with
      | none =>
          rw [search] at old
          cases old
      | some r =>
          obtain ⟨held, _, runtime, _⟩ := runtime_cont_some search
          rw [fill_cont_some search]
          exact ⟨held, owned.runtime r held runtime⟩
    · rw [fills.copy.status]
      exact owned.runtime c member
    · intro p inside
      rw [writes.pids, writes.pidcAt]
      exact ⟨sound.connected p inside, rfl⟩
  · rintro conts p sound' held listed inside ⟨owned', same⟩
    have flags := shared p inside
    rw [← (same p inside).2] at flags
    refine ⟨⟨refresh_pid_owners sound'.toStored owned'.owners held listed flags, ?_⟩, ?_⟩
    · rw [refresh_pid_eq]
      exact owned'.runtime
    · intro q again
      rw [refresh_pid_eq]
      refine ⟨(same q again).1, ?_⟩
      by_cases this : q = p
      · subst this
        simpa using (same q again).2
      · simpa [this] using (same q again).2
  · rintro conts p entry sound' held listed inside adds copy cont ⟨owned', same⟩
    have source : parmsOf conts (.pid p) = some (conts.pidcAt p).toParm := if_pos listed
    refine ⟨⟨adds_pid_owners sound'.toStored owned'.owners adds
      (copied_grant sound'.toStored source copy), runtime_adds_pid adds owned'.runtime⟩, ?_⟩
    intro q again
    obtain ⟨present, status⟩ := same q again
    rw [adds.pids, adds.pidcAt, Function.update_of_ne (Nat.ne_of_lt (sound'.pids q present))]
    exact ⟨List.mem_cons_of_mem _ present, status⟩

/-- The steps of a lookup that refreshes only PIDs that share their settings. -/
theorem owned_steps (fits : RefreshesShared look) : StepsKeep look Owned where
  copy := fun state c id copies named sound member owned =>
    copy_owned id.text sound member owned (fits state c id copies named)
  adopt := fun state i c adopts sound member known owned => by
    obtain ⟨parm, writes, copy⟩ := adopt_img_writes state.conts i c (sound.imgParm i known)
    have image : parmsOf state.conts (.img i) = some (state.conts.imgAt i).toParm := if_pos known
    obtain ⟨attr, rscs⟩ := copied_grant sound.toStored image copy
    exact ⟨writes_cont_owners sound.toStored owned.owners writes
      (fun _ => ⟨member, owned.runtime c member adopts.2.2.2⟩) ⟨attr, rscs⟩,
      runtime_writes_cont writes owned.runtime fun runtime => by cases runtime⟩
  fromImg := fun conts after i c contid sound known writes owned =>
    ⟨writes_cont_owners sound.toStored owned.owners writes (fun old => by cases old)
      (shared_grant sound.toStored (.img i) (if_pos known) rfl rfl rfl rfl),
      runtime_writes_cont writes owned.runtime fun runtime => by cases runtime⟩
  fromCont := fun conts c sound member owned => by
    obtain ⟨new, adds⟩ := pid_from_cont_adds conts c
    exact ⟨adds_pid_owners sound.toStored owned.owners adds
      (shared_grant sound.toStored (.cont c) (if_pos member) rfl rfl rfl rfl),
      runtime_adds_pid adds owned.runtime⟩
  fake := fun conts fake sound owned =>
    ⟨owned.owners.same (parms_fake sound.toStored fake _), owned.runtime⟩
  alone := fun conts p sound listed owned => by
    obtain ⟨new, parm, psig, adds, copy⟩ := pid_from_pid_adds conts p (sound.pids p listed)
      (sound.pidcParm p listed)
    refine ⟨adds_pid_owners sound.toStored owned.owners adds ?_, runtime_adds_pid adds owned.runtime⟩
    have flags := copy.status
    apply grant_of (fun _ _ => parms_below sound.toStored)
      (rfl : parmsOf conts .defaults = some { attr := conts.attr, rscs := conts.rscs })
    · intro shared
      rw [flags] at shared
      cases shared
    · intro shared
      rw [flags] at shared
      cases shared
    · exact fun _ => (copy.newAttr rfl).1
    · exact fun _ => (copy.newRscs rfl).1
  groupNew := fun conts node keep sound owned => by
    obtain ⟨grouped, writes, brk, adds⟩ := group_pid_new_steps conts node keep
    have middle := writes_cont_owners sound.toStored owned.owners writes (fun old => by cases old)
      (shared_grant sound.toStored .defaults rfl rfl rfl rfl rfl)
    have stored := writes_cont_stored writes sound.toStored
      ⟨sound.attr.trans_le writes.grows.brk, sound.rscs.trans_le writes.grows.brk⟩
    exact ⟨adds_pid_owners stored middle adds (shared_grant stored .defaults rfl
      writes.grows.attr.symm writes.grows.rscs.symm rfl rfl), runtime_adds_pid adds
      (runtime_writes_cont writes owned.runtime fun _ => ⟨rfl, rfl⟩)⟩
  groupOld := fun node keep p groups param sound owned => by
    have inside := unrelated_listed (signature_mem groups.2.2.2.2)
    have copied := alone_sound sound inside
    obtain ⟨grouped, writes, same⟩ := group_pid_found_steps (pidFromPid look.conts p).1 keep p _ param
    have middle := writes_cont_owners copied.toStored owned.owners writes (fun old => by cases old)
      (shared_grant copied.toStored .defaults rfl rfl rfl rfl rfl)
    have runtime := runtime_writes_cont writes owned.runtime fun _ => ⟨rfl, rfl⟩
    rw [same]
    exact ⟨middle.same (parms_link _ _ _), runtime⟩

end Lookups

end Orchestrator.SettingsOwners
