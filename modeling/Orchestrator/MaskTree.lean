import Orchestrator.Narrowing
import Orchestrator.Prepare
import Orchestrator.ParsedSettings

/-!
The masks of a hierarchy. Every element has a mask of its own or shares the one
above. Its own is a fixed CPU or what the mask above leaves, and it is narrowed to
what the element's parts use.
-/

namespace Orchestrator.MaskTree
open Orchdata Adaptive SettingsOwners Ownership Narrowing

section Masks
variable (numa : Numa) (default : Bitmask) (conts : Containers)

/-- The mask of an element that shares none; `dep` is the mask above. -/
def ownMask (item : Item) (dep : Option Bitmask) : Option Bitmask :=
  (createAffinityMask numa default (rscsOf conts item) dep).affinityMask

def globalMask : Option Bitmask :=
  (createAffinityMask numa default (conts.rscsAt conts.rscs) none).affinityMask

def imgBase (i : Nat) : Option Bitmask :=
  if (conts.imgAt i).status.shrc then globalMask numa default conts
  else ownMask numa default conts (.img i) none

def contBase (c : Nat) : Option Bitmask :=
  match (conts.contAt c).img with
  | some i =>
      if (conts.contAt c).status.shrc then imgBase numa default conts i
      else ownMask numa default conts (.cont c) (imgBase numa default conts i)
  | none =>
      if (conts.contAt c).status.shrc then globalMask numa default conts
      else ownMask numa default conts (.cont c) none

/-- A mask narrowed to what the parts use. -/
def narrowedMask (mask : Option Bitmask) (parts : List (Option Bitmask)) : Option Bitmask :=
  mask.map fun whole => narrowed whole (union (parts.map fun part => part.getD ∅))

/-- The masks of a container's PIDs when it is narrowed. -/
def contParts (c : Nat) : List (Option Bitmask) :=
  (conts.contAt c).pids.map fun p =>
    if (conts.pidcAt p).status.shrc then contBase numa default conts c
    else ownMask numa default conts (.pid p) (contBase numa default conts c)

def contMask (c : Nat) : Option Bitmask :=
  if (conts.contAt c).status.shrc then contBase numa default conts c
  else narrowedMask (contBase numa default conts c) (contParts numa default conts c)

/-- The masks of an image's containers and of its PIDs when it is narrowed. -/
def imgParts (i : Nat) : List (Option Bitmask) :=
  (conts.imgAt i).conts.map (contMask numa default conts) ++
    (conts.imgAt i).pids.map fun p =>
      if (conts.pidcAt p).status.shrc then
        match (conts.pidcAt p).cont with
        | some (.cont c) => contMask numa default conts c
        | _ => imgBase numa default conts i
      else ownMask numa default conts (.pid p) (imgBase numa default conts i)

def imgMask (i : Nat) : Option Bitmask :=
  if (conts.imgAt i).status.shrc then imgBase numa default conts i
  else narrowedMask (imgBase numa default conts i) (imgParts numa default conts i)

def contDep (p : Nat) : Option Bitmask :=
  match (conts.pidcAt p).cont with
  | some (.cont c) => contBase numa default conts c
  | _ => none

/-- The mask above a PID where it was last computed: an image comes after its
containers. -/
def pidDep (p : Nat) : Option Bitmask :=
  match (conts.pidcAt p).img with
  | some i =>
      if i ∈ conts.img ∧ p ∈ (conts.imgAt i).pids then imgBase numa default conts i
      else contDep numa default conts p
  | none => contDep numa default conts p

/-- The mask that an owner of resources ends with. -/
def target : Holder → Option Bitmask
  | .defaults => globalMask numa default conts
  | .img i => imgMask numa default conts i
  | .cont c => contMask numa default conts c
  | .pid p => ownMask numa default conts (.pid p) (pidDep numa default conts p)

/-- The loops come to this container: it is in no image, or in the list of one. -/
def Visits (c : Nat) : Prop :=
  (conts.contAt c).img = none ∨ ∃ i ∈ conts.img, c ∈ (conts.imgAt i).conts

/-- No mask is narrowed through an element that only shares it. -/
structure Unnarrowed : Prop where
  cont : ∀ c ∈ conts.cont, Visits conts c → (conts.contAt c).status.shrc = true →
    narrowedMask (contBase numa default conts c) (contParts numa default conts c) =
      contBase numa default conts c
  img : ∀ i ∈ conts.img, (conts.imgAt i).status.shrc = true →
    narrowedMask (imgBase numa default conts i) (imgParts numa default conts i) =
      imgBase numa default conts i

end Masks

/-- The element above a PID; an image takes the place of a missing container. -/
def pidAbove (conts : Containers) (p : Nat) : Option ContPtr :=
  (conts.pidcAt p).cont.or ((conts.pidcAt p).img.map ContPtr.img)

/-- The holder above. -/
def above (conts : Containers) : Holder → Holder
  | .defaults => .defaults
  | .img _ => .defaults
  | .cont c => ParsedSettings.holderOf ((conts.contAt c).img.map ContPtr.img)
  | .pid p => ParsedSettings.holderOf (pidAbove conts p)

/-- Elements that lists lead to link back, and share resources with the element
above only. -/
structure Hierarchy (conts : Containers) : Prop where
  imgConts : ∀ i ∈ conts.img, ∀ c ∈ (conts.imgAt i).conts,
    c ∈ conts.cont ∧ (conts.contAt c).img = some i
  contPids : ∀ c ∈ conts.cont, ∀ p ∈ (conts.contAt c).pids,
    p ∈ conts.pids ∧ (conts.pidcAt p).cont = some (.cont c)
  imgPids : ∀ i ∈ conts.img, ∀ p ∈ (conts.imgAt i).pids, p ∈ conts.pids ∧
    (conts.pidcAt p).img = some i ∧ ∀ ptr, (conts.pidcAt p).cont = some ptr →
      ptr = .img i ∨ ∃ c ∈ (conts.imgAt i).conts, ptr = .cont c
  shares : ∀ holder parm, parmsOf conts holder = some parm → parm.status.shrc = true →
    ∃ upper, parmsOf conts (above conts holder) = some upper ∧ parm.rscs = upper.rscs
  owners : SingleOwner (rscsRefs conts)

section Owners
variable (conts : Containers)

def imgOwner (i : Nat) : Holder :=
  if (conts.imgAt i).status.shrc then .defaults else .img i

def contOwner (c : Nat) : Holder :=
  if (conts.contAt c).status.shrc then
    match (conts.contAt c).img with
    | some i => imgOwner conts i
    | none => .defaults
  else .cont c

/-- The holder that owns the resources of an element. -/
def owner : Item → Holder
  | .img i => imgOwner conts i
  | .cont c => contOwner conts c
  | .pid p =>
      if (conts.pidcAt p).status.shrc then
        match pidAbove conts p with
        | some (.cont c) => contOwner conts c
        | some (.img i) => imgOwner conts i
        | none => .defaults
      else .pid p

def holder : Item → Holder
  | .img i => .img i
  | .cont c => .cont c
  | .pid p => .pid p

/-- The mask an element ends with. -/
def finalMask (numa : Numa) (default : Bitmask) (item : Item) : Option Bitmask :=
  target numa default conts (owner conts item)

/-- The element is part of the configuration. -/
def Known (item : Item) : Prop := parmsOf conts (holder item) = some (parm conts item)

/-- The holder owns resources, with these settings. -/
def Owns (holder : Holder) (settings : Parm) : Prop :=
  parmsOf conts holder = some settings ∧ settings.status.shrc = false

variable {conts}

theorem known_img {i : Nat} (listed : i ∈ conts.img) : Known conts (.img i) := if_pos listed

theorem known_cont {c : Nat} (listed : c ∈ conts.cont) : Known conts (.cont c) := if_pos listed

theorem known_pid {p : Nat} (listed : p ∈ conts.pids) : Known conts (.pid p) := if_pos listed

/-- Resources have one owner. -/
theorem Hierarchy.one_owner (hier : Hierarchy conts) {one two : Holder} {left right : Parm}
    (first : Owns conts one left) (second : Owns conts two right) (same : left.rscs = right.rscs) :
    one = two := by
  have ref : ∀ {holder : Holder} {settings : Parm}, Owns conts holder settings →
      rscsRefs conts holder = some ⟨settings.rscs, false⟩ := by
    intro holder settings owns
    rw [rscsRefs, owns.1, Option.map_some, rscsRef, owns.2]
  apply (hier.owners one _ (ref first)).unique (ref first)
  rw [same]
  exact ref second

theorem owns_defaults (conts : Containers) :
    Owns conts .defaults { attr := conts.attr, rscs := conts.rscs } := ⟨rfl, rfl⟩

theorem img_owner (hier : Hierarchy conts) {i : Nat} (listed : i ∈ conts.img) :
    ∃ settings, Owns conts (imgOwner conts i) settings ∧ settings.rscs = (conts.imgAt i).rscs := by
  rw [imgOwner]
  cases shared : (conts.imgAt i).status.shrc with
  | true =>
      obtain ⟨upper, found, same⟩ := hier.shares (.img i) _ (known_img listed) shared
      cases found
      exact ⟨_, owns_defaults conts, same.symm⟩
  | false => exact ⟨_, ⟨known_img listed, shared⟩, rfl⟩

theorem cont_owner (hier : Hierarchy conts) {c : Nat} (listed : c ∈ conts.cont) :
    ∃ settings, Owns conts (contOwner conts c) settings ∧
      settings.rscs = (conts.contAt c).rscs := by
  rw [contOwner]
  cases shared : (conts.contAt c).status.shrc with
  | true =>
      obtain ⟨upper, found, same⟩ := hier.shares (.cont c) _ (known_cont listed) shared
      change (conts.contAt c).rscs = upper.rscs at same
      rw [above] at found
      rw [same]
      cases image : (conts.contAt c).img with
      | none =>
          rw [image] at found
          cases found
          exact ⟨_, owns_defaults conts, rfl⟩
      | some i =>
          rw [image] at found
          obtain ⟨inside, ⟨⟩⟩ := Option.ite_none_right_eq_some.mp found
          exact img_owner hier inside
  | false => exact ⟨_, ⟨known_cont listed, shared⟩, rfl⟩

theorem item_owner (hier : Hierarchy conts) {item : Item} (known : Known conts item) :
    ∃ settings, Owns conts (owner conts item) settings ∧
      settings.rscs = (parm conts item).rscs := by
  cases item with
  | img i => exact img_owner hier (Option.ite_none_right_eq_some.mp known).1
  | cont c => exact cont_owner hier (Option.ite_none_right_eq_some.mp known).1
  | pid p =>
      rw [owner, parm]
      cases shared : (conts.pidcAt p).status.shrc with
      | true =>
          obtain ⟨upper, found, same⟩ := hier.shares (.pid p) _ known shared
          change (conts.pidcAt p).rscs = upper.rscs at same
          rw [above] at found
          rw [same, if_pos rfl]
          generalize pidAbove conts p = ptr at found ⊢
          rcases ptr with _ | c | i
          · cases found
            exact ⟨_, owns_defaults conts, rfl⟩
          · obtain ⟨inside, ⟨⟩⟩ := Option.ite_none_right_eq_some.mp found
            exact cont_owner hier inside
          · obtain ⟨inside, ⟨⟩⟩ := Option.ite_none_right_eq_some.mp found
            exact img_owner hier inside
      | false => exact ⟨_, ⟨known, shared⟩, rfl⟩

theorem img_owner_flag (conts : Containers) (i : Nat) :
    (conts.imgAt i).status.shrc = false ∧ imgOwner conts i = .img i ∨
      (conts.imgAt i).status.shrc = true ∧ imgOwner conts i = .defaults := by
  rw [imgOwner]
  cases (conts.imgAt i).status.shrc <;> simp

/-- No element but the PID itself has resources a PID owns. -/
theorem img_owner_pid (conts : Containers) (i q : Nat) : imgOwner conts i ≠ .pid q := by
  rcases img_owner_flag conts i with ⟨_, same⟩ | ⟨_, same⟩ <;> rw [same] <;> simp

theorem cont_owner_pid (conts : Containers) (c q : Nat) : contOwner conts c ≠ .pid q := by
  rw [contOwner]
  cases (conts.contAt c).status.shrc with
  | true =>
      cases (conts.contAt c).img with
      | none => simp
      | some i => simpa using img_owner_pid conts i q
  | false => simp

theorem owner_pid {p : Nat} (shared : (conts.pidcAt p).status.shrc = true) (q : Nat) :
    owner conts (.pid p) ≠ .pid q := by
  rw [owner, if_pos shared]
  rcases pidAbove conts p with _ | c | i
  · simp
  · exact cont_owner_pid conts c q
  · exact img_owner_pid conts i q

theorem img_owner_cont (conts : Containers) (i c : Nat) : imgOwner conts i ≠ .cont c := by
  rcases img_owner_flag conts i with ⟨_, same⟩ | ⟨_, same⟩ <;> rw [same] <;> simp

end Owners

end Orchestrator.MaskTree
