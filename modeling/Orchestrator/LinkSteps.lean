import Orchestrator.MutualLinks

/-!
Steps of the lookup that move containers and PIDs between images, and the trails
they leave.
-/

namespace Orchestrator.LinkSteps
open Orchdata PidLookup LookupEdits MutualLinks OwnerTrail

section Steps
variable {before after : Containers} {contTrail pidTrail : Nat → List (Option Nat)}

/-- A container that is new or gets another image. -/
theorem writes_cont_traced (stored : Stored before) (traced : Traced before contTrail pidTrail)
    {c : Nat} {entry : Cont} {new : Bool} {img : Option Nat}
    (writes : WritesCont before after c entry new img) (known : ∀ i, img = some i → i ∈ before.img)
    (same : entry.img = img) (members : entry.pids = if new then [] else (before.contAt c).pids)
    (listed : new = false → c ∈ before.cont) :
    Traced after (Function.update contTrail c (img :: if new then [] else contTrail c)) pidTrail := by
  have inImg : ∀ i x, i ∈ after.img ∧ x ∈ (after.imgAt i).conts ↔
      (i ∈ before.img ∧ x ∈ (before.imgAt i).conts) ∨ (x = c ∧ img = some i) := by
    intro i x
    rw [writes.grows.img, writes.imgAt, with_cont_mem, and_or_left]
    exact or_congr_right (and_iff_right_of_imp fun pushed => known i pushed.2)
  have fresh : new = true → c ∉ before.cont := by
    intro isNew member
    rw [(writes.room isNew).1] at member
    exact absurd (stored.cont _ member) (Nat.lt_irrefl _)
  constructor
  · intro x member
    by_cases this : x = c
    · subst this
      rw [Function.update_self, writes.contAt, Function.update_self, same]
      cases new with
      | true =>
          have empty : Follows (fun i => i ∈ before.img ∧ x ∈ (before.imgAt i).conts) none [none] :=
            ⟨rfl, fun i => by
              constructor
              · rintro ⟨inside, old⟩
                exact absurd (traced.imgConts i inside x old) (fresh rfl)
              · intro none
                cases List.mem_singleton.mp none⟩
          have moved : Follows (fun i => i ∈ after.img ∧ x ∈ (after.imgAt i).conts) img [img, none] :=
            empty.move fun i => (inImg i x).trans (by simp)
          refine ⟨rfl, fun i => (moved.listed i).trans ?_⟩
          simp
      | false => exact (traced.contFollows x (listed rfl)).move fun i => (inImg i x).trans (by simp)
    · rw [Function.update_of_ne this, writes.contAt, Function.update_of_ne this]
      exact (traced.contFollows x (writes.older this member)).congr fun i => (inImg i x).trans (by simp [this])
  · intro p member
    rw [writes.pids] at member
    rw [writes.pidcAt]
    apply (traced.pidFollows p member).congr
    intro i
    rw [writes.grows.img, writes.imgAt, (with_cont_rest _ _ _ _).1]
  · intro i inside x member
    rcases (inImg i x).mp ⟨inside, member⟩ with ⟨inside, old⟩ | ⟨rfl, _⟩
    · exact writes.kept (traced.imgConts i inside x old)
    · exact writes.held listed
  · intro i inside p member
    rw [writes.grows.img] at inside
    rw [writes.imgAt, (with_cont_rest _ _ _ _).1] at member
    rw [writes.pids]
    exact traced.imgPids i inside p member
  · intro x member p
    rw [writes.pids, writes.pidcAt, writes.contAt]
    by_cases this : x = c
    · subst this
      rw [Function.update_self, members]
      cases new with
      | true =>
          constructor
          · intro none
            cases none
          · rintro ⟨inside, owner⟩
            obtain ⟨c, held, ptr⟩ := traced.pidCont p inside _ owner
            cases ptr
            exact absurd held (fresh rfl)
      | false => exact traced.contPids x (listed rfl) p
    · rw [Function.update_of_ne this]
      exact traced.contPids x (writes.older this member) p
  · intro p member ptr owner
    rw [writes.pids] at member
    rw [writes.pidcAt] at owner
    obtain ⟨x, held, same⟩ := traced.pidCont p member ptr owner
    exact ⟨x, writes.kept held, same⟩

/-- The images that list a PID after it was pushed to one. -/
theorem in_pushed_img {images : List Nat} (imgAt : Nat → Img) {img : Option Nat} (p : Nat)
    (known : ∀ i, img = some i → i ∈ images) (i q : Nat) :
    i ∈ images ∧ q ∈ (withPid imgAt img p i).pids ↔
      (i ∈ images ∧ q ∈ (imgAt i).pids) ∨ (q = p ∧ img = some i) := by
  rw [with_pid_mem, and_or_left]
  exact or_congr_right (and_iff_right_of_imp fun pushed => known i pushed.2)

/-- A new PID configuration. -/
theorem adds_pid_traced (stored : Stored before) (traced : Traced before contTrail pidTrail)
    {entry : Pidc} {owner img : Option Nat} (adds : AddsPid before after entry owner img)
    (known : ∀ i, img = some i → i ∈ before.img) (held : ∀ c, owner = some c → c ∈ before.cont)
    (sameCont : entry.cont = owner.map ContPtr.cont) (sameImg : entry.img = img) :
    Traced after contTrail (Function.update pidTrail before.brk [img]) := by
  have fresh : before.brk ∉ before.pids := fun member =>
    absurd (stored.pids _ member) (Nat.lt_irrefl _)
  have inImg : ∀ i p, i ∈ after.img ∧ p ∈ (after.imgAt i).pids ↔
      (i ∈ before.img ∧ p ∈ (before.imgAt i).pids) ∨ (p = before.brk ∧ img = some i) := by
    rw [adds.grows.img, adds.imgAt]
    exact in_pushed_img _ _ known
  constructor
  · intro c member
    rw [adds.cont] at member
    rw [adds.contAt, (with_member_rest _ _ _ _).1]
    apply (traced.contFollows c member).congr
    intro i
    rw [adds.grows.img, adds.imgAt, (with_pid_rest _ _ _ _).1]
  · intro p member
    rw [adds.pids] at member
    by_cases this : p = before.brk
    · subst this
      rw [Function.update_self, adds.pidcAt, Function.update_self, sameImg]
      refine ⟨rfl, fun i => (inImg i _).trans ?_⟩
      rw [List.mem_singleton]
      constructor
      · rintro (⟨inside, old⟩ | ⟨_, image⟩)
        · exact absurd (traced.imgPids i inside _ old) fresh
        · exact image.symm
      · exact fun image => Or.inr ⟨rfl, image.symm⟩
    · rw [Function.update_of_ne this, adds.pidcAt, Function.update_of_ne this]
      apply (traced.pidFollows p (List.mem_of_ne_of_mem this member)).congr
      exact fun i => (inImg i p).trans (by simp [this])
  · intro i inside c member
    rw [adds.grows.img] at inside
    rw [adds.imgAt, (with_pid_rest _ _ _ _).1] at member
    rw [adds.cont]
    exact traced.imgConts i inside c member
  · intro i inside p member
    rw [adds.pids]
    rcases (inImg i p).mp ⟨inside, member⟩ with ⟨inside, old⟩ | ⟨rfl, _⟩
    · exact List.mem_cons_of_mem _ (traced.imgPids i inside p old)
    · exact List.mem_cons_self
  · intro c member p
    rw [adds.cont] at member
    rw [adds.contAt, with_member_mem, adds.pids, adds.pidcAt, traced.contPids c member p]
    by_cases this : p = before.brk
    · subst this
      rw [Function.update_self, sameCont]
      constructor
      · rintro (⟨old, _⟩ | ⟨_, owned⟩)
        · exact absurd old fresh
        · exact ⟨List.mem_cons_self, congrArg (Option.map ContPtr.cont) owned⟩
      · rintro ⟨_, linked⟩
        obtain ⟨x, owned, ptr⟩ := Option.map_eq_some_iff.mp linked
        cases ptr
        exact Or.inr ⟨rfl, owned⟩
    · rw [Function.update_of_ne this, List.mem_cons]
      simp [this]
  · intro p member ptr linked
    rw [adds.pids] at member
    rw [adds.cont]
    rw [adds.pidcAt] at linked
    by_cases this : p = before.brk
    · subst this
      rw [Function.update_self, sameCont] at linked
      obtain ⟨c, owned, ptr⟩ := Option.map_eq_some_iff.mp linked
      exact ⟨c, held c owned, ptr.symm⟩
    · rw [Function.update_of_ne this] at linked
      exact traced.pidCont p (List.mem_of_ne_of_mem this member) ptr linked

/-- A refreshed PID moves to the image of its container. -/
theorem refresh_pid_traced {conts : Containers} (traced : Traced conts contTrail pidTrail)
    {c : Nat} (member : c ∈ conts.cont) {p : Nat} (listed : p ∈ conts.pids)
    {trail : List (Option Nat)}
    (follows : ∀ inside : Nat → Prop,
      (∀ i, inside i ↔ (i ∈ conts.img ∧ p ∈ (conts.imgAt i).pids) ∨ (conts.contAt c).img = some i) →
      Follows inside (conts.contAt c).img trail) :
    Traced (refreshPid c conts p) contTrail (Function.update pidTrail p trail) := by
  have inImg : ∀ i q, i ∈ conts.img ∧ q ∈ (withPid conts.imgAt (conts.contAt c).img p i).pids ↔
      (i ∈ conts.img ∧ q ∈ (conts.imgAt i).pids) ∨ (q = p ∧ (conts.contAt c).img = some i) :=
    in_pushed_img _ _ fun i image => traced.cont_img member image
  have owner : ∀ q, (Function.update conts.pidcAt p
      { conts.pidcAt p with
        attr := (conts.contAt c).attr
        rscs := (conts.contAt c).rscs
        img := (conts.contAt c).img } q).cont = (conts.pidcAt q).cont := by
    intro q
    by_cases this : q = p
    · subst this
      simp
    · simp [this]
  rw [refresh_pid_eq]
  constructor
  · intro x held
    apply (traced.contFollows x held).congr
    intro i
    dsimp only
    rw [(with_pid_rest _ _ _ _).1]
  · intro q old
    dsimp only
    by_cases this : q = p
    · subst this
      rw [Function.update_self, Function.update_self]
      exact follows _ fun i => (inImg i q).trans (by simp)
    · rw [Function.update_of_ne this, Function.update_of_ne this]
      exact (traced.pidFollows q old).congr fun i => (inImg i q).trans (by simp [this])
  · intro i inside x held
    dsimp only at held
    rw [(with_pid_rest _ _ _ _).1] at held
    exact traced.imgConts i inside x held
  · intro i inside q old
    rcases (inImg i q).mp ⟨inside, old⟩ with ⟨inside, old⟩ | ⟨rfl, _⟩
    · exact traced.imgPids i inside q old
    · exact listed
  · intro x held q
    dsimp only
    rw [owner q]
    exact traced.contPids x held q
  · intro q old ptr linked
    dsimp only at linked
    rw [owner q] at linked
    exact traced.pidCont q old ptr linked

end Steps

/-- What `duplicateOrRefreshContainer` did to the links, once these PIDs were
refreshed and copied: the refreshed ones moved to the image of `c`, the copies
belong to the container `r` and to the images of their originals. -/
structure Moved (conts : Containers) (c r : Nat) (contTrail pidTrail : Nat → List (Option Nat))
    (refreshed copied : List Nat) (after : Containers) (later : Nat → List (Option Nat)) : Prop where
  stored : Stored after
  traced : Traced after contTrail later
  img : after.img = conts.img
  cont : ∀ x, x ∈ after.cont ↔ x = r ∨ x ∈ conts.cont
  status : (after.contAt r).status = (conts.contAt c).status
  others : ∀ x, x ≠ r → after.contAt x = conts.contAt x
  pids : ∀ p ∈ conts.pids, p ∈ after.pids ∧ (after.pidcAt p).cont = (conts.pidcAt p).cont ∧
    later p = if p ∈ refreshed then (conts.contAt c).img :: pidTrail p else pidTrail p
  news : ∀ p ∈ after.pids, p ∉ conts.pids → p ∈ (after.contAt r).pids ∧
    ∃ q ∈ copied, later p = [(conts.pidcAt q).img]
  copies : ∀ q ∈ copied, ∃ p ∈ after.pids, p ∉ conts.pids ∧ p ∈ (after.contAt r).pids ∧
    later p = [(conts.pidcAt q).img]

section Moves
variable {conts after : Containers} {c r : Nat} {contTrail pidTrail later : Nat → List (Option Nat)}
  {refreshed copied : List Nat}

theorem Moved.held (moved : Moved conts c r contTrail pidTrail refreshed copied after later) :
    r ∈ after.cont :=
  (moved.cont r).mpr (Or.inl rfl)

theorem Moved.refresh (moved : Moved conts c r contTrail pidTrail refreshed copied after later)
    (image : (after.contAt r).img = (conts.contAt c).img) {p : Nat} (listed : p ∈ conts.pids) :
    ∃ next, Moved conts c r contTrail pidTrail (p :: refreshed) copied (refreshPid r after p) next := by
  obtain ⟨still, owner, trail⟩ := moved.pids p listed
  have follows := moved.traced.pidFollows p still
  -- a PID refreshed before has the image already
  have next : ∀ inside : Nat → Prop, (∀ i, inside i ↔
      (i ∈ after.img ∧ p ∈ (after.imgAt i).pids) ∨ (after.contAt r).img = some i) →
      Follows inside (after.contAt r).img ((conts.contAt c).img :: pidTrail p) := by
    intro inside pushed
    by_cases again : p ∈ refreshed
    · rw [if_pos again] at trail
      have same : (after.pidcAt p).img = (after.contAt r).img := by
        have last := follows.last
        rw [trail] at last
        rw [image]
        exact (Option.some.inj last).symm
      rw [← trail]
      exact follows.stay same pushed
    · rw [if_neg again] at trail
      rw [← trail, ← image]
      exact follows.move pushed
  refine ⟨Function.update later p ((conts.contAt c).img :: pidTrail p),
    refresh_pid_stored moved.stored moved.held p,
    refresh_pid_traced moved.traced moved.held still next, ?_, ?_, ?_, ?_, ?_, ?_, ?_⟩
  · rw [refresh_pid_eq]
    exact moved.img
  · rw [refresh_pid_eq]
    exact moved.cont
  · rw [refresh_pid_eq]
    exact moved.status
  · intro x other
    rw [refresh_pid_eq]
    exact moved.others x other
  · intro q old
    obtain ⟨stays, cont, trail⟩ := moved.pids q old
    rw [refresh_pid_eq]
    refine ⟨stays, ?_, ?_⟩
    · by_cases this : q = p
      · subst this
        simpa using cont
      · simpa [this] using cont
    · by_cases this : q = p
      · subst this
        simp
      · simp [this, trail]
  · intro q present new
    have apart : q ≠ p := fun this => new (this ▸ listed)
    rw [refresh_pid_eq] at present ⊢
    rw [Function.update_of_ne apart]
    exact moved.news q present new
  · intro q inside
    obtain ⟨p', present, new, member, trail⟩ := moved.copies q inside
    have apart : p' ≠ p := fun this => new (this ▸ listed)
    rw [refresh_pid_eq]
    refine ⟨p', present, new, member, ?_⟩
    rw [Function.update_of_ne apart]
    exact trail

theorem Moved.duplicate (moved : Moved conts c r contTrail pidTrail refreshed copied after later)
    (first : ∀ p ∈ conts.pids, (pidTrail p).head? = some (conts.pidcAt p).img)
    (room : ∀ p ∈ conts.pids, p < after.brk) {p : Nat} {entry : Pidc} (listed : p ∈ conts.pids)
    (apart : p ∉ refreshed)
    (adds : AddsPid after (duplicatePid r after p) entry (some r) (after.pidcAt p).img)
    (below : Below (duplicatePid r after p).brk entry.toParm)
    (cont : entry.cont = some (.cont r)) (img : entry.img = (after.pidcAt p).img) :
    ∃ next, Moved conts c r contTrail pidTrail refreshed (p :: copied) (duplicatePid r after p) next := by
  obtain ⟨still, _, trail⟩ := moved.pids p listed
  have image : (after.pidcAt p).img = (conts.pidcAt p).img := by
    have last := (moved.traced.pidFollows p still).last
    rw [trail, if_neg apart, first p listed] at last
    exact (Option.some.inj last).symm
  have known : ∀ i, (after.pidcAt p).img = some i → i ∈ after.img := fun i image =>
    moved.traced.pid_img still image
  refine ⟨Function.update later after.brk [(after.pidcAt p).img],
    adds_pid_stored adds moved.stored below,
    adds_pid_traced moved.stored moved.traced adds known
      (fun x owner => by cases owner; exact moved.held) cont img, ?_, ?_, ?_, ?_, ?_, ?_, ?_⟩
  · rw [adds.grows.img]
    exact moved.img
  · rw [adds.cont]
    exact moved.cont
  · rw [adds.contAt, (with_member_rest _ _ _ _).2.2]
    exact moved.status
  · intro x other
    rw [adds.contAt]
    simp only [withMember, Function.update_of_ne other]
    exact moved.others x other
  · intro q old
    obtain ⟨stays, owner, trail⟩ := moved.pids q old
    have older : q ≠ after.brk := Nat.ne_of_lt (room q old)
    rw [adds.pids, adds.pidcAt, Function.update_of_ne older, Function.update_of_ne older]
    exact ⟨List.mem_cons_of_mem _ stays, owner, trail⟩
  · intro q present new
    rw [adds.pids] at present
    rw [adds.contAt, with_member_mem]
    by_cases this : q = after.brk
    · subst this
      refine ⟨Or.inr ⟨rfl, rfl⟩, p, List.mem_cons_self, ?_⟩
      rw [Function.update_self, image]
    · obtain ⟨member, q', inside, trail⟩ := moved.news q (List.mem_of_ne_of_mem this present) new
      refine ⟨Or.inl member, q', List.mem_cons_of_mem _ inside, ?_⟩
      rw [Function.update_of_ne this]
      exact trail
  · intro q inside
    rw [adds.pids, adds.contAt]
    rcases List.mem_cons.mp inside with rfl | old
    · refine ⟨after.brk, List.mem_cons_self, ?_, ?_, ?_⟩
      · intro listed
        exact absurd (room _ listed) (Nat.lt_irrefl _)
      · exact (with_member_mem _ _ _ _ _).mpr (Or.inr ⟨rfl, rfl⟩)
      · rw [Function.update_self, image]
    · obtain ⟨p', present, new, member, trail⟩ := moved.copies q old
      refine ⟨p', List.mem_cons_of_mem _ present, new,
        (with_member_mem _ _ _ _ _).mpr (Or.inl member), ?_⟩
      have older : p' ≠ after.brk := Nat.ne_of_lt (moved.stored.pids p' present)
      rw [Function.update_of_ne older]
      exact trail

end Moves

/-- `r` gets the image of `c`, in front of its own if it exists. -/
def contMoves (conts : Containers) (c : Nat) (id : List Char) (r : Nat)
    (contTrail : Nat → List (Option Nat)) : Nat → List (Option Nat) :=
  Function.update contTrail r
    ((conts.contAt c).img :: if (runtimeCont conts c id).isNone then [] else contTrail r)

theorem duplicate_moves (look : Lookup) {c r : Nat} {id : List Char}
    {contTrail pidTrail : Nat → List (Option Nat)} (stored : Stored look.conts)
    (traced : Traced look.conts contTrail pidTrail) (member : c ∈ look.conts.cont)
    (result : (fillCont look.conts c id).2 = r) :
    ∃ later, Moved look.conts c r (contMoves look.conts c id r contTrail) pidTrail
      (connected look.conts c id).reverse (look.conts.contAt c).pids.reverse
      (duplicateOrRefreshContainer look c id).1.conts later := by
  have listed : ∀ p ∈ (look.conts.contAt c).pids, p ∈ look.conts.pids := fun p inside =>
    ((traced.contPids c member p).mp inside).1
  have first : ∀ p ∈ look.conts.pids, (pidTrail p).head? = some (look.conts.pidcAt p).img :=
    fun p inside => (traced.pidFollows p inside).last
  have joined : ∀ p ∈ connected look.conts c id, p ∈ look.conts.pids ∧
      (look.conts.pidcAt p).cont = some (.cont r) := by
    intro p inside
    rw [connected] at inside
    cases search : runtimeCont look.conts c id with
    | none =>
        rw [search] at inside
        cases inside
    | some x =>
        rw [search] at inside
        rw [fill_cont_some search] at result
        cases result
        exact (traced.contPids r (runtime_cont_some search).1 p).mp inside
  have other : c ≠ r := result ▸ fill_cont_ne id (stored.cont c member)
  have same : ∀ after refreshed copied later,
      Moved look.conts c r (contMoves look.conts c id r contTrail) pidTrail refreshed copied after
        later → (after.contAt r).img = (look.conts.contAt c).img := by
    intro after refreshed copied later moved
    have last := (moved.traced.contFollows r moved.held).last
    rw [contMoves, Function.update_self] at last
    exact (Option.some.inj last).symm
  have steps := duplicate_or_refresh_steps look c id (fun refreshed copied after =>
    look.conts.brk ≤ after.brk ∧ ∃ later, Moved look.conts c r
      (contMoves look.conts c id r contTrail) pidTrail refreshed copied after later)
    r result (stored.cont c member) (stored.contParm c member)
    (fun p inside => ⟨stored.pids p (listed p inside), stored.pidcParm p (listed p inside)⟩) ?_ ?_ ?_
  · exact steps.2
  · intro filled entry writes fills
    have grow := writes.grows.brk
    have members : entry.pids = if (runtimeCont look.conts c id).isNone then []
        else (look.conts.contAt r).pids := by
      cases search : runtimeCont look.conts c id with
      | none => exact (fills.created search).1
      | some x =>
          rw [fill_cont_some search] at result
          cases result
          exact (fills.refreshed r search).1
    have inside : (runtimeCont look.conts c id).isNone = false → r ∈ look.conts.cont := by
      intro found
      cases search : runtimeCont look.conts c id with
      | none =>
          rw [search] at found
          cases found
      | some x =>
          rw [fill_cont_some search] at result
          cases result
          exact (runtime_cont_some search).1
    refine ⟨grow, pidTrail, writes_cont_stored writes stored
        (fills.copy.below (stored.contParm c member) grow),
      writes_cont_traced stored traced writes (fun i image => traced.cont_img member image)
        fills.img members inside, writes.grows.img, ?_, ?_, ?_, ?_, ?_, ?_⟩
    · intro x
      rw [writes.cont]
      cases new : (runtimeCont look.conts c id).isNone with
      | true => exact List.mem_cons
      | false =>
          constructor
          · exact Or.inr
          · rintro (rfl | old)
            · exact inside new
            · exact old
    · rw [writes.contAt, Function.update_self]
      exact fills.copy.status
    · intro x apart
      rw [writes.contAt, Function.update_of_ne apart]
    · intro p old
      rw [writes.pids, writes.pidcAt]
      exact ⟨old, rfl, rfl⟩
    · intro p present new
      rw [writes.pids] at present
      exact absurd present new
    · intro q none
      cases none
  · rintro after done p inside ⟨grow, later, moved⟩
    obtain ⟨next, more⟩ := moved.refresh (same _ _ _ _ moved) (joined p inside).1
    exact ⟨by rw [refresh_pid_eq]; exact grow, next, more⟩
  · rintro after done p entry inside adds copy cont img _ ⟨grow, later, moved⟩
    have old := listed p inside
    have apart : p ∉ (connected look.conts c id).reverse := by
      intro again
      have elsewhere := (joined p (List.mem_reverse.mp again)).2
      rw [((traced.contPids c member p).mp inside).2] at elsewhere
      cases elsewhere
      exact other rfl
    have below : Below (duplicatePid r after p).brk entry.toParm :=
      copy.below (moved.stored.pidcParm p (moved.pids p old).1) adds.room.le
    obtain ⟨next, more⟩ := moved.duplicate first
      (fun q old => (stored.pids q old).trans_le grow) old apart adds below cont img
    exact ⟨grow.trans adds.room.le, next, more⟩

/-- Links do not depend on objects outside of the lists. -/
theorem mutual_same {before after : Containers} (img : after.img = before.img)
    (cont : after.cont = before.cont) (pids : after.pids = before.pids)
    (imgAt : after.imgAt = before.imgAt) (contAt : after.contAt = before.contAt)
    (pidcAt : ∀ p ∈ before.pids, after.pidcAt p = before.pidcAt p) (linked : Mutual before) :
    Mutual after where
  imgConts := by
    rw [img, cont, imgAt, contAt]
    exact linked.imgConts
  contPids := fun c member p => by
    rw [cont] at member
    rw [contAt, pids, linked.contPids c member p]
    exact and_congr_right fun inside => by rw [pidcAt p inside]
  imgPids := fun i known p => by
    rw [img] at known
    rw [imgAt, pids, linked.imgPids i known p]
    exact and_congr_right fun inside => by rw [pidcAt p inside]
  contImg := by
    rw [img, cont, contAt]
    exact linked.contImg
  pidImg := fun p inside i image => by
    rw [pids] at inside
    rw [pidcAt p inside] at image
    rw [img]
    exact linked.pidImg p inside i image
  pidCont := fun p inside ptr owner => by
    rw [pids] at inside
    rw [pidcAt p inside] at owner
    rw [cont]
    exact linked.pidCont p inside ptr owner

/-- The parameters made up for a docker-link node are in no list. -/
theorem mutual_fake {conts : Containers} (stored : Stored conts) (fake : Pidc) (brk : Nat) :
    Mutual { conts.setPidc conts.brk fake with brk := brk } ↔ Mutual conts := by
  have same : ∀ p ∈ conts.pids, (conts.setPidc conts.brk fake).pidcAt p = conts.pidcAt p := by
    intro p inside
    exact Function.update_of_ne (Nat.ne_of_lt (stored.pids p inside)) _ _
  constructor
  · exact mutual_same rfl rfl rfl rfl rfl fun p inside => (same p inside).symm
  · exact mutual_same rfl rfl rfl rfl rfl same

end Orchestrator.LinkSteps
