import Orchestrator.LookupEdits
import Orchestrator.OwnerTrail

/-!
Configurations that are sound as a data structure: what they refer to exists,
and every link between images, containers and PIDs is known at both of its ends.
-/

namespace Orchestrator.MutualLinks
open Orchdata PidLookup LookupEdits OwnerTrail

/-- All objects of the configuration were allocated. -/
structure Stored (conts : Containers) : Prop where
  img : ∀ i ∈ conts.img, i < conts.brk
  cont : ∀ c ∈ conts.cont, c < conts.brk
  pids : ∀ p ∈ conts.pids, p < conts.brk
  imgParm : ∀ i ∈ conts.img, Below conts.brk (conts.imgAt i).toParm
  contParm : ∀ c ∈ conts.cont, Below conts.brk (conts.contAt c).toParm
  pidcParm : ∀ p ∈ conts.pids, Below conts.brk (conts.pidcAt p).toParm
  attr : conts.attr < conts.brk
  rscs : conts.rscs < conts.brk

/-- Links within the lists, each with its back link. -/
structure Mutual (conts : Containers) : Prop where
  imgConts : ∀ i ∈ conts.img, ∀ c,
    c ∈ (conts.imgAt i).conts ↔ c ∈ conts.cont ∧ (conts.contAt c).img = some i
  contPids : ∀ c ∈ conts.cont, ∀ p,
    p ∈ (conts.contAt c).pids ↔ p ∈ conts.pids ∧ (conts.pidcAt p).cont = some (.cont c)
  imgPids : ∀ i ∈ conts.img, ∀ p,
    p ∈ (conts.imgAt i).pids ↔ p ∈ conts.pids ∧ (conts.pidcAt p).img = some i
  contImg : ∀ c ∈ conts.cont, ∀ i, (conts.contAt c).img = some i → i ∈ conts.img
  pidImg : ∀ p ∈ conts.pids, ∀ i, (conts.pidcAt p).img = some i → i ∈ conts.img
  pidCont : ∀ p ∈ conts.pids, ∀ ptr, (conts.pidcAt p).cont = some ptr →
    ∃ c ∈ conts.cont, ptr = .cont c

theorem ready_of_stored {conts : Containers} (stored : Stored conts) (linked : Mutual conts)
    {c : Nat} (member : c ∈ conts.cont) : Ready conts (conts.contAt c).pids := by
  intro p inside
  have listed := ((linked.contPids c member p).mp inside).1
  exact ⟨stored.pids p listed, stored.pidcParm p listed⟩

section Pushes

theorem with_cont_mem (imgAt : Nat → Img) (img : Option Nat) (c x i : Nat) :
    x ∈ (withCont imgAt img c i).conts ↔ x ∈ (imgAt i).conts ∨ (x = c ∧ img = some i) := by
  cases img with
  | none => simp [withCont]
  | some j =>
      by_cases this : i = j
      · subst this
        simp [withCont, or_comm]
      · simp [withCont, this, Ne.symm this]

theorem with_cont_rest (imgAt : Nat → Img) (img : Option Nat) (c i : Nat) :
    (withCont imgAt img c i).pids = (imgAt i).pids ∧
      (withCont imgAt img c i).toParm = (imgAt i).toParm := by
  cases img with
  | none => exact ⟨rfl, rfl⟩
  | some j =>
      refine ⟨update_keeps imgAt j _ Img.pids ?_ i, update_keeps imgAt j _ Img.toParm ?_ i⟩ <;> rfl

theorem with_pid_mem (imgAt : Nat → Img) (img : Option Nat) (p x i : Nat) :
    x ∈ (withPid imgAt img p i).pids ↔ x ∈ (imgAt i).pids ∨ (x = p ∧ img = some i) := by
  cases img with
  | none => simp [withPid]
  | some j =>
      by_cases this : i = j
      · subst this
        simp [withPid, or_comm]
      · simp [withPid, this, Ne.symm this]

theorem with_pid_rest (imgAt : Nat → Img) (img : Option Nat) (p i : Nat) :
    (withPid imgAt img p i).conts = (imgAt i).conts ∧
      (withPid imgAt img p i).toParm = (imgAt i).toParm := by
  cases img with
  | none => exact ⟨rfl, rfl⟩
  | some j =>
      refine ⟨update_keeps imgAt j _ Img.conts ?_ i, update_keeps imgAt j _ Img.toParm ?_ i⟩ <;> rfl

theorem with_member_mem (contAt : Nat → Cont) (owner : Option Nat) (p x c : Nat) :
    x ∈ (withMember contAt owner p c).pids ↔ x ∈ (contAt c).pids ∨ (x = p ∧ owner = some c) := by
  cases owner with
  | none => simp [withMember]
  | some other =>
      by_cases this : c = other
      · subst this
        simp [withMember, or_comm]
      · simp [withMember, this, Ne.symm this]

theorem with_member_rest (contAt : Nat → Cont) (owner : Option Nat) (p c : Nat) :
    (withMember contAt owner p c).img = (contAt c).img ∧
      (withMember contAt owner p c).contid = (contAt c).contid ∧
      (withMember contAt owner p c).toParm = (contAt c).toParm := by
  cases owner with
  | none => exact ⟨rfl, rfl, rfl⟩
  | some other =>
      refine ⟨update_keeps contAt other _ Cont.img ?_ c,
        update_keeps contAt other _ Cont.contid ?_ c,
        update_keeps contAt other _ Cont.toParm ?_ c⟩ <;> rfl

end Pushes

section Storage
variable {before after : Containers}

theorem writes_cont_stored {c : Nat} {entry : Cont} {new : Bool} {img : Option Nat}
    (writes : WritesCont before after c entry new img) (stored : Stored before)
    (own : Below after.brk entry.toParm) : Stored after := by
  have grow := writes.grows.brk
  constructor
  · intro i member
    rw [writes.grows.img] at member
    exact (stored.img i member).trans_le grow
  · intro x member
    rw [writes.cont] at member
    cases new with
    | true =>
        rcases List.mem_cons.mp member with rfl | old
        · obtain ⟨rfl, room⟩ := writes.room rfl
          exact room
        · exact (stored.cont x old).trans_le grow
    | false => exact (stored.cont x member).trans_le grow
  · intro p member
    rw [writes.pids] at member
    exact (stored.pids p member).trans_le grow
  · intro i member
    rw [writes.grows.img] at member
    rw [writes.imgAt, (with_cont_rest _ _ _ _).2]
    exact (stored.imgParm i member).mono grow
  · intro x member
    rw [writes.contAt]
    by_cases this : x = c
    · rw [this, Function.update_self]
      exact own
    · rw [Function.update_of_ne this]
      exact (stored.contParm x (writes.older this member)).mono grow
  · intro p member
    rw [writes.pids] at member
    rw [writes.pidcAt]
    exact (stored.pidcParm p member).mono grow
  · rw [writes.grows.attr]
    exact stored.attr.trans_le grow
  · rw [writes.grows.rscs]
    exact stored.rscs.trans_le grow

theorem adds_pid_stored {entry : Pidc} {owner img : Option Nat}
    (adds : AddsPid before after entry owner img) (stored : Stored before)
    (own : Below after.brk entry.toParm) : Stored after := by
  have grow := adds.grows.brk
  constructor
  · intro i member
    rw [adds.grows.img] at member
    exact (stored.img i member).trans_le grow
  · intro c member
    rw [adds.cont] at member
    exact (stored.cont c member).trans_le grow
  · intro p member
    rw [adds.pids] at member
    rcases List.mem_cons.mp member with rfl | old
    · exact adds.room
    · exact (stored.pids p old).trans_le grow
  · intro i member
    rw [adds.grows.img] at member
    rw [adds.imgAt, (with_pid_rest _ _ _ _).2]
    exact (stored.imgParm i member).mono grow
  · intro c member
    rw [adds.cont] at member
    rw [adds.contAt, (with_member_rest _ _ _ _).2.2]
    exact (stored.contParm c member).mono grow
  · intro p member
    rw [adds.pidcAt]
    by_cases this : p = before.brk
    · rw [this, Function.update_self]
      exact own
    · rw [Function.update_of_ne this]
      rw [adds.pids] at member
      exact (stored.pidcParm p (List.mem_of_ne_of_mem this member)).mono grow
  · rw [adds.grows.attr]
    exact stored.attr.trans_le grow
  · rw [adds.grows.rscs]
    exact stored.rscs.trans_le grow

theorem refresh_pid_stored {conts : Containers} {c : Nat} (stored : Stored conts)
    (member : c ∈ conts.cont) (p : Nat) : Stored (refreshPid c conts p) := by
  rw [refresh_pid_eq]
  refine ⟨stored.img, stored.cont, stored.pids, ?_, stored.contParm, ?_, stored.attr, stored.rscs⟩
  · intro i known
    dsimp only
    rw [(with_pid_rest _ _ _ _).2]
    exact stored.imgParm i known
  · intro q listed
    by_cases this : q = p
    · simp only [this, Function.update_self]
      exact stored.contParm c member
    · simp only [Function.update_of_ne this]
      exact stored.pidcParm q listed

end Storage

/-- Links of a configuration where containers and PIDs have moved between images. -/
structure Traced (conts : Containers) (contTrail pidTrail : Nat → List (Option Nat)) : Prop where
  contFollows : ∀ c ∈ conts.cont, Follows (fun i => i ∈ conts.img ∧ c ∈ (conts.imgAt i).conts)
    (conts.contAt c).img (contTrail c)
  pidFollows : ∀ p ∈ conts.pids, Follows (fun i => i ∈ conts.img ∧ p ∈ (conts.imgAt i).pids)
    (conts.pidcAt p).img (pidTrail p)
  imgConts : ∀ i ∈ conts.img, ∀ c ∈ (conts.imgAt i).conts, c ∈ conts.cont
  imgPids : ∀ i ∈ conts.img, ∀ p ∈ (conts.imgAt i).pids, p ∈ conts.pids
  contPids : ∀ c ∈ conts.cont, ∀ p,
    p ∈ (conts.contAt c).pids ↔ p ∈ conts.pids ∧ (conts.pidcAt p).cont = some (.cont c)
  pidCont : ∀ p ∈ conts.pids, ∀ ptr, (conts.pidcAt p).cont = some ptr →
    ∃ c ∈ conts.cont, ptr = .cont c

theorem traced_of_mutual {conts : Containers} (linked : Mutual conts) :
    Traced conts (fun c => [(conts.contAt c).img]) (fun p => [(conts.pidcAt p).img]) where
  contFollows := fun c member => follows_linked fun i => by
    constructor
    · rintro ⟨known, listed⟩
      exact ((linked.imgConts i known c).mp listed).2
    · intro img
      have known := linked.contImg c member i img
      exact ⟨known, (linked.imgConts i known c).mpr ⟨member, img⟩⟩
  pidFollows := fun p member => follows_linked fun i => by
    constructor
    · rintro ⟨known, listed⟩
      exact ((linked.imgPids i known p).mp listed).2
    · intro img
      have known := linked.pidImg p member i img
      exact ⟨known, (linked.imgPids i known p).mpr ⟨member, img⟩⟩
  imgConts := fun i known c listed => ((linked.imgConts i known c).mp listed).1
  imgPids := fun i known p listed => ((linked.imgPids i known p).mp listed).1
  contPids := linked.contPids
  pidCont := linked.pidCont

section Trails
variable {conts : Containers} {contTrail pidTrail : Nat → List (Option Nat)}

theorem Traced.mutual_iff (traced : Traced conts contTrail pidTrail) :
    Mutual conts ↔ (∀ c ∈ conts.cont, Settled (contTrail c)) ∧
      ∀ p ∈ conts.pids, Settled (pidTrail p) := by
  constructor
  · intro linked
    have single := traced_of_mutual linked
    constructor
    · intro c member
      apply (traced.contFollows c member).linked_iff.mp
      exact (single.contFollows c member).linked_iff.mpr (settled_single _)
    · intro p member
      apply (traced.pidFollows p member).linked_iff.mp
      exact (single.pidFollows p member).linked_iff.mpr (settled_single _)
  · rintro ⟨contSettled, pidSettled⟩
    have cont := fun c member => (traced.contFollows c member).linked_iff.mpr (contSettled c member)
    have pid := fun p member => (traced.pidFollows p member).linked_iff.mpr (pidSettled p member)
    constructor
    · intro i known c
      constructor
      · intro listed
        have member := traced.imgConts i known c listed
        exact ⟨member, (cont c member i).mp ⟨known, listed⟩⟩
      · rintro ⟨member, img⟩
        exact ((cont c member i).mpr img).2
    · exact traced.contPids
    · intro i known p
      constructor
      · intro listed
        have member := traced.imgPids i known p listed
        exact ⟨member, (pid p member i).mp ⟨known, listed⟩⟩
      · rintro ⟨member, img⟩
        exact ((pid p member i).mpr img).2
    · exact fun c member i img => ((cont c member i).mpr img).1
    · exact fun p member i img => ((pid p member i).mpr img).1
    · exact traced.pidCont

theorem Traced.cont_img (traced : Traced conts contTrail pidTrail) {c i : Nat}
    (member : c ∈ conts.cont) (img : (conts.contAt c).img = some i) : i ∈ conts.img := by
  have follows := traced.contFollows c member
  exact ((follows.listed i).mpr (List.mem_of_head? (follows.last.trans (congrArg some img)))).1

theorem Traced.pid_img (traced : Traced conts contTrail pidTrail) {p i : Nat}
    (member : p ∈ conts.pids) (img : (conts.pidcAt p).img = some i) : i ∈ conts.img := by
  have follows := traced.pidFollows p member
  exact ((follows.listed i).mpr (List.mem_of_head? (follows.last.trans (congrArg some img)))).1

end Trails

end Orchestrator.MutualLinks
