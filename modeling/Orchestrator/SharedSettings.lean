import Orchestrator.DisposedOnce

/-!
Settings that PIDs share with their container, across lookups: which steps
replace the settings of a container under PIDs that share them.
-/

namespace Orchestrator.SharedSettings
open Orchdata ParseConfig PidLookup LookupEdits MutualLinks LookupHierarchy LookupRun
open ParsedSettings DisposedOnce Traversal

/-- What a PID shares with its container is the same object. -/
def SharesOwner (conts : Containers) : Prop :=
  ∀ c ∈ conts.cont, ∀ p ∈ (conts.contAt c).pids,
    Inherits (conts.pidcAt p).toParm (conts.contAt c).toParm

/-- What the user shares with its holder stays the same object if the holder gets
a copy of the source. -/
structure Kept (user held source : Parm) : Prop where
  attr : user.status.shat = true → source.status.shat = true ∧ held.attr = source.attr
  rscs : user.status.shrc = true → source.status.shrc = true ∧ held.rscs = source.rscs

theorem Kept.inherits {before after : Containers} {user held source result : Parm}
    (kept : Kept user held source) (copy : CopyOf before after source result)
    (inherits : Inherits user held) : Inherits user result where
  attr := fun shared => by
    obtain ⟨passed, same⟩ := kept.attr shared
    rw [inherits.attr shared, same, copy.sharedAttr passed]
  rscs := fun shared => by
    obtain ⟨passed, same⟩ := kept.rscs shared
    rw [inherits.rscs shared, same, copy.sharedRscs passed]

/-- The steps of the lookup that replace settings find what PIDs share of them
shared by the source as well. -/
structure FollowsOwner (look : Lookup) : Prop where
  copied : ∀ state c id, Copies look state c → look.node.contid = some id →
    ∀ p ∈ (state.conts.contAt c).pids,
      Kept (state.conts.pidcAt p).toParm (state.conts.contAt c).toParm (state.conts.contAt c).toParm
  refreshed : ∀ state c id, Copies look state c → look.node.contid = some id →
    ∀ p ∈ connected state.conts c id.text, ∀ x ∈ state.conts.cont,
      runtimeCont state.conts c id.text ≠ some x → p ∈ (state.conts.contAt x).pids →
        Kept (state.conts.pidcAt p).toParm (state.conts.contAt x).toParm
          (state.conts.contAt c).toParm
  adopted : ∀ state i c, Adopts look state i c → ∀ p ∈ (state.conts.contAt c).pids,
    Kept (state.conts.pidcAt p).toParm (state.conts.contAt c).toParm (state.conts.imgAt i).toParm
  grouped : ∀ p, Groups look p → Inherits (look.conts.pidcAt p).toParm
    { attr := look.conts.attr, rscs := look.conts.rscs }

section Steps
variable {before after : Containers}

theorem adds_pid_shares {entry : Pidc} {owner img : Option Nat} (sound : Sound before)
    (adds : AddsPid before after entry owner img) (shares : SharesOwner before)
    (own : ∀ c, owner = some c → Inherits entry.toParm (before.contAt c).toParm) :
    SharesOwner after := by
  intro c held p member
  rw [adds.cont] at held
  rw [adds.contAt, with_member_mem] at member
  rw [adds.contAt, (with_member_rest _ _ _ _).2.2, adds.pidcAt]
  rcases member with old | ⟨rfl, same⟩
  · have apart : p ≠ before.brk := Nat.ne_of_lt (sound.pids p (sound.contPids c held p old))
    rw [Function.update_of_ne apart]
    exact shares c held p old
  · rw [Function.update_self]
    exact own c same

theorem writes_cont_shares {c : Nat} {entry : Cont} {new : Bool} {img : Option Nat}
    (writes : WritesCont before after c entry new img) (shares : SharesOwner before)
    (own : ∀ p ∈ entry.pids, Inherits (before.pidcAt p).toParm entry.toParm) :
    SharesOwner after := by
  intro x held p member
  rw [writes.contAt] at member ⊢
  rw [writes.pidcAt]
  by_cases this : x = c
  · rw [this, Function.update_self] at member ⊢
    exact own p member
  · rw [Function.update_of_ne this] at member ⊢
    exact shares x (writes.older this held) p member

/-- A copy in progress: the container `r` shares what it copied from `c`, PIDs that
were done share with `r`, all other containers are as before. -/
structure Copying (start : Containers) (c r : Nat) (waits done : List Nat) (conts : Containers) :
    Prop where
  held : ∀ x ∈ conts.cont, x ≠ r → x ∈ start.cont
  same : ∀ x, x ≠ r → conts.contAt x = start.contAt x
  own : Inherits (start.contAt c).toParm (conts.contAt r).toParm
  listed : ∀ p ∈ start.pids, p ∈ conts.pids ∧ (conts.pidcAt p).status = (start.pidcAt p).status
  others : ∀ x ∈ start.cont, x ≠ r → ∀ p ∈ (start.contAt x).pids,
    Inherits (conts.pidcAt p).toParm (start.contAt x).toParm
  done : ∀ p ∈ done, Inherits (conts.pidcAt p).toParm (conts.contAt r).toParm
  members : ∀ p ∈ (conts.contAt r).pids, p ∈ waits ∨
    Inherits (conts.pidcAt p).toParm (conts.contAt r).toParm

variable {start conts : Containers} {c r : Nat} {waits done : List Nat}

/-- One more PID shares the settings of the refreshed container. -/
theorem Copying.refresh (copying : Copying start c r waits done conts) {p : Nat}
    (kept : ∀ x ∈ start.cont, x ≠ r → p ∈ (start.contAt x).pids →
      Kept (start.pidcAt p).toParm (start.contAt x).toParm (start.contAt c).toParm)
    (known : p ∈ start.pids) :
    Copying start c r waits (p :: done) (refreshPid r conts p) := by
  rw [refresh_pid_eq]
  have others : ∀ q, q ≠ p → ∀ value, Function.update conts.pidcAt p value q = conts.pidcAt q :=
    fun q other value => Function.update_of_ne other _ _
  refine ⟨copying.held, copying.same, copying.own, ?_, ?_, ?_, ?_⟩
  · intro q old
    obtain ⟨present, status⟩ := copying.listed q old
    refine ⟨present, ?_⟩
    dsimp only
    by_cases this : q = p
    · rw [this, Function.update_self]
      exact this ▸ status
    · rw [others q this]
      exact status
  · intro x held apart q member
    dsimp only
    by_cases this : q = p
    · subst this
      rw [Function.update_self]
      obtain ⟨attr, rscs⟩ := kept x held apart member
      have status := (copying.listed q known).2
      constructor
      · intro shared
        obtain ⟨passed, equal⟩ := attr (status ▸ shared)
        exact (copying.own.attr passed).symm.trans equal.symm
      · intro shared
        obtain ⟨passed, equal⟩ := rscs (status ▸ shared)
        exact (copying.own.rscs passed).symm.trans equal.symm
    · rw [others q this]
      exact copying.others x held apart q member
  · intro q member
    dsimp only
    by_cases this : q = p
    · rw [this, Function.update_self]
      exact ⟨fun _ => rfl, fun _ => rfl⟩
    · rw [others q this]
      exact copying.done q (List.mem_of_ne_of_mem this member)
  · intro q member
    dsimp only
    by_cases this : q = p
    · rw [this, Function.update_self]
      exact .inr ⟨fun _ => rfl, fun _ => rfl⟩
    · rw [others q this]
      exact copying.members q member

/-- One more PID of the original is duplicated. -/
theorem Copying.duplicate (copying : Copying start c r waits done conts) {p : Nat} {entry : Pidc}
    {img : Option Nat} {after : Containers} (sound : Sound start) (now : Sound conts)
    (inList : r ∈ conts.cont) (member : c ∈ start.cont) (apart : c ≠ r)
    (inside : p ∈ (start.contAt c).pids) (adds : AddsPid conts after entry (some r) img)
    (copy : CopyOf conts after (conts.pidcAt p).toParm entry.toParm)
    (kept : Kept (start.pidcAt p).toParm (start.contAt c).toParm (start.contAt c).toParm)
    (known : ∀ q ∈ done, q ∈ start.pids) : Copying start c r waits done after := by
  have old : ∀ q ∈ conts.pids, after.pidcAt q = conts.pidcAt q := fun q present => by
    rw [adds.pidcAt, Function.update_of_ne (Nat.ne_of_lt (now.pids q present))]
  have sameParm : (after.contAt r).toParm = (conts.contAt r).toParm := by
    rw [adds.contAt, (with_member_rest _ _ _ _).2.2]
  have present : ∀ x ∈ start.cont, ∀ q ∈ (start.contAt x).pids, q ∈ conts.pids := fun x held q listed =>
    (copying.listed q (sound.contPids x held q listed)).1
  refine ⟨?_, ?_, ?_, ?_, ?_, ?_, ?_⟩
  · rw [adds.cont]
    exact copying.held
  · intro x other
    rw [adds.contAt, withMember, Function.update_of_ne other]
    exact copying.same x other
  · rw [sameParm]
    exact copying.own
  · intro q first
    obtain ⟨listed, status⟩ := copying.listed q first
    rw [adds.pids, old q listed]
    exact ⟨List.mem_cons_of_mem _ listed, status⟩
  · intro x held other q listed
    rw [old q (present x held q listed)]
    exact copying.others x held other q listed
  · intro q ready
    rw [sameParm, old q (copying.listed q (known q ready)).1]
    exact copying.done q ready
  · intro q listed
    rw [adds.contAt, with_member_mem] at listed
    rw [sameParm]
    rcases listed with earlier | ⟨rfl, _⟩
    · rw [old q (now.contPids r inList q earlier)]
      exact copying.members q earlier
    -- the duplicate shares what the PID shares with the original container
    · rw [adds.pidcAt, Function.update_self]
      have inherits := copying.others c member apart p inside
      have status := (copying.listed p (sound.contPids c member p inside)).2
      refine .inr ⟨fun shared => ?_, fun shared => ?_⟩
      · have flag : (conts.pidcAt p).status.shat = true := copy.status ▸ shared
        rw [copy.sharedAttr flag, inherits.attr flag]
        exact copying.own.attr (kept.attr (status ▸ flag)).1
      · have flag : (conts.pidcAt p).status.shrc = true := copy.status ▸ shared
        rw [copy.sharedRscs flag, inherits.rscs flag]
        exact copying.own.rscs (kept.rscs (status ▸ flag)).1

end Steps

/-- The copy of a container whose PIDs share nothing it does not pass on. -/
theorem copy_shares {state : Lookup} {c : Nat} (id : List Char) (sound : Sound state.conts)
    (member : c ∈ state.conts.cont) (shares : SharesOwner state.conts)
    (copied : ∀ p ∈ (state.conts.contAt c).pids, Kept (state.conts.pidcAt p).toParm
      (state.conts.contAt c).toParm (state.conts.contAt c).toParm)
    (refreshed : ∀ p ∈ connected state.conts c id, ∀ x ∈ state.conts.cont,
      runtimeCont state.conts c id ≠ some x → p ∈ (state.conts.contAt x).pids →
        Kept (state.conts.pidcAt p).toParm (state.conts.contAt x).toParm
          (state.conts.contAt c).toParm) :
    SharesOwner (duplicateOrRefreshContainer state c id).1.conts := by
  have apart := fill_cont_ne id (sound.cont c member)
  generalize result : (fillCont state.conts c id).2 = r at apart
  have runtime : ∀ x, runtimeCont state.conts c id = some x → x = r := by
    intro x search
    rw [← result, fill_cont_some search]
  have steps := copy_steps state c id (fun done _ conts =>
    Copying state.conts c r (connected state.conts c id) done conts) r result sound member ?_ ?_ ?_
  · obtain ⟨_, _, copying⟩ := steps
    intro x held p inside
    by_cases this : x = r
    · subst this
      rcases copying.members p inside with waits | inherits
      · exact copying.done p (List.mem_reverse.mpr waits)
      · exact inherits
    · rw [copying.same x this] at inside ⊢
      exact copying.others x (copying.held x held this) this p inside
  · intro filled entry writes fills
    have own : filled.contAt r = entry := by rw [writes.contAt, Function.update_self]
    refine ⟨?_, ?_, ?_, ?_, ?_, fun p none => (by cases none), ?_⟩
    · exact fun x held other => writes.older other held
    · intro x other
      rw [writes.contAt, Function.update_of_ne other]
    · rw [own]
      exact ⟨fun shared => (fills.copy.sharedAttr shared).symm,
        fun shared => (fills.copy.sharedRscs shared).symm⟩
    · intro p listed
      rw [writes.pids, writes.pidcAt]
      exact ⟨listed, rfl⟩
    · intro x held other p listed
      rw [writes.pidcAt]
      exact shares x held p listed
    · intro p listed
      rw [own] at listed
      left
      rw [connected]
      cases search : runtimeCont state.conts c id with
      | none =>
          rw [(fills.created search).1] at listed
          cases listed
      | some x =>
          rw [(fills.refreshed x search).1] at listed
          exact listed
  · intro conts done p _ _ _ inside copying
    apply copying.refresh _ (sound.connected p inside)
    intro x held other listed
    apply refreshed p inside x held _ listed
    exact fun search => other (runtime x search)
  · intro conts done p entry now inList _ inside adds copy _ copying
    exact copying.duplicate sound now inList member apart inside adds copy (copied p inside)
      fun q ready => sound.connected q (List.mem_reverse.mp ready)

/-- The steps of a lookup that follows the owners. -/
theorem shares_steps {look : Lookup} (fits : FollowsOwner look) : StepsKeep look SharesOwner where
  copy := fun state c id copies named sound member shares =>
    copy_shares id.text sound member shares (fits.copied state c id copies named)
      (fits.refreshed state c id copies named)
  adopt := fun state i c adopts sound member known shares => by
    obtain ⟨parm, writes, copy⟩ := adopt_img_writes state.conts i c (sound.imgParm i known)
    apply writes_cont_shares writes shares
    intro p inside
    obtain ⟨attr, rscs⟩ := (fits.adopted state i c adopts p inside).inherits copy
      (shares c member p inside)
    exact ⟨attr, rscs⟩
  fromImg := fun conts after i c contid sound known writes shares =>
    writes_cont_shares writes shares fun p none => by cases none
  fromCont := fun conts c sound member shares => by
    apply adds_pid_shares sound (pid_from_cont_adds conts c).2 shares
    rintro _ ⟨⟩
    exact ⟨fun _ => rfl, fun _ => rfl⟩
  fake := fun conts fake sound shares => by
    intro c held p inside
    have old : p ≠ conts.brk := Nat.ne_of_lt (sound.pids p (sound.contPids c held p inside))
    change Inherits (Function.update conts.pidcAt conts.brk fake p).toParm _
    rw [Function.update_of_ne old]
    exact shares c held p inside
  alone := fun conts p sound listed shares => by
    obtain ⟨_, parm, psig, adds, copy⟩ := pid_from_pid_adds conts p (sound.pids p listed)
      (sound.pidcParm p listed)
    exact adds_pid_shares sound adds shares fun c none => by cases none
  groupNew := fun conts node keep sound shares => by
    obtain ⟨grouped, writes, brk, adds⟩ := group_pid_new_steps conts node keep
    have middle := writes_cont_shares writes shares fun p none => by cases none
    have runtime : Below grouped.brk (runtimeEntry conts keep []).toParm :=
      ⟨sound.attr.trans_le writes.grows.brk, sound.rscs.trans_le writes.grows.brk⟩
    have later := writes_cont_sound sound writes runtime (fun i none => by cases none) rfl
      (fun p none => by cases none) fun old => by cases old
    apply adds_pid_shares later adds middle
    rintro _ ⟨⟩
    rw [writes.contAt, Function.update_self]
    exact ⟨fun _ => rfl, fun _ => rfl⟩
  groupOld := fun node keep p groups param sound shares => by
    have inside := unrelated_listed (signature_mem groups.2.2.2.2)
    obtain ⟨new, parm, psig, adds, copy⟩ := pid_from_pid_adds look.conts p (sound.pids p inside)
      (sound.pidcParm p inside)
    obtain ⟨grouped, writes, same⟩ := group_pid_found_steps (pidFromPid look.conts p).1 keep p _ param
    have middle : SharesOwner grouped := by
      apply writes_cont_shares writes shares
      intro q member
      rw [List.mem_singleton.mp member, adds.pidcAt,
        Function.update_of_ne (Nat.ne_of_lt (sound.pids p inside))]
      obtain ⟨attr, rscs⟩ := fits.grouped p groups
      exact ⟨fun shared => (attr shared).trans adds.grows.attr.symm,
        fun shared => (rscs shared).trans adds.grows.rscs.symm⟩
    rw [same]
    intro c held q member
    have kept := middle c held q member
    dsimp only at held member ⊢
    by_cases this : q = (pidFromPid look.conts p).2
    · rw [this, Function.update_self]
      exact this ▸ kept
    · rw [Function.update_of_ne this]
      exact kept

theorem parsed_shares {root : Json} {conts : Containers} (run : parseConfig root {} = .ok conts) :
    SharesOwner conts := by
  have built := (ConfigGraph.parse_config_grown root conts run).1
  obtain ⟨_, shares⟩ := parse_config_settled run
  intro c held p inside
  obtain ⟨listed, link⟩ := ((built.contPids c held).2 p).mp inside
  obtain ⟨upper, found, inherits⟩ := shares (.pid p) _ (if_pos listed)
  rw [above, link, holderOf, SettingsOwners.parmsOf, if_pos held] at found
  cases found
  exact inherits

/-- From every accepted configuration, through any lookups that follow the owners:
what a PID shares with its container is the same object. -/
theorem shares_owner {root : Json} {start conts : Containers}
    (parsed : parseConfig root {} = .ok start) (run : Reached FollowsOwner start conts) :
    SharesOwner conts :=
  (reached_keeps (fun _ fits => shares_steps fits) (parsed_sound parsed) (parsed_shares parsed) run).2

/-- What is shared stays the same object, as a test. -/
def inherits (parm upper : Parm) : Bool :=
  (!parm.status.shat || parm.attr == upper.attr) && (!parm.status.shrc || parm.rscs == upper.rscs)

theorem inherits_of_test {parm upper : Parm} (passed : inherits parm upper = true) :
    Inherits parm upper := by
  simp only [inherits, Bool.and_eq_true, Bool.or_eq_true, Bool.not_eq_true', beq_iff_eq] at passed
  exact ⟨fun shared => passed.1.resolve_left (by simp [shared]),
    fun shared => passed.2.resolve_left (by simp [shared])⟩

/-- The holder keeps what the user shares: the source has it too, and shares it. -/
def keeps (user held source : Parm) : Bool :=
  (!user.status.shat || source.status.shat && held.attr == source.attr) &&
    (!user.status.shrc || source.status.shrc && held.rscs == source.rscs)

theorem kept_of_test {user held source : Parm} (passed : keeps user held source = true) :
    Kept user held source := by
  simp only [keeps, Bool.and_eq_true, Bool.or_eq_true, Bool.not_eq_true', beq_iff_eq] at passed
  exact ⟨fun shared => passed.1.resolve_left (by simp [shared]),
    fun shared => passed.2.resolve_left (by simp [shared])⟩

/-- A lookup outside of all images whose copies and groups follow the owners. -/
def followsOwner (look : Lookup) : Bool :=
  (imageMatch look.conts look.node).isNone &&
    (signatureMatch look.conts look.node (unrelated look.conts)).all
      (fun p => inherits (look.conts.pidcAt p).toParm
        { attr := look.conts.attr, rscs := look.conts.rscs }) &&
    (copied look).all fun copy =>
      ((copy.1.conts.contAt copy.2).pids.all fun p => keeps (copy.1.conts.pidcAt p).toParm
        (copy.1.conts.contAt copy.2).toParm (copy.1.conts.contAt copy.2).toParm) &&
      look.node.contid.all fun id => (connected copy.1.conts copy.2 id.text).all fun p =>
        copy.1.conts.cont.all fun x => runtimeCont copy.1.conts copy.2 id.text == some x ||
          !decide (p ∈ (copy.1.conts.contAt x).pids) ||
            keeps (copy.1.conts.pidcAt p).toParm (copy.1.conts.contAt x).toParm
              (copy.1.conts.contAt copy.2).toParm

theorem follows_of_test (look : Lookup) (passed : followsOwner look = true) : FollowsOwner look := by
  simp only [followsOwner, Bool.and_eq_true, Option.isNone_iff_eq_none] at passed
  obtain ⟨⟨noImage, grouped⟩, copies⟩ := passed
  have copy {state : Lookup} {c : Nat} (here : Copies look state c) :=
    Bool.and_eq_true_iff.mp (List.all_eq_true.mp copies (state, c) (mem_copied here))
  refine ⟨fun state c id here _ p inside => ?_, fun state c id here known p inside x held other member => ?_,
    fun state i c adopts => ?_, fun p groups => ?_⟩
  · exact kept_of_test (List.all_eq_true.mp (copy here).1 p inside)
  · have second := (copy here).2
    rw [known] at second
    have single := List.all_eq_true.mp (List.all_eq_true.mp second p inside) x held
    simp only [Bool.or_eq_true, beq_iff_eq, Bool.not_eq_true', decide_eq_false_iff_not] at single
    exact kept_of_test (single.resolve_left fun early => early.elim other (absurd member))
  · have found := adopts.2.1
    rw [noImage] at found
    cases found
  · have found := groups.2.2.2.2
    rw [found] at grouped
    exact inherits_of_test grouped

-- The node refreshes the container of the task `loop`.
theorem loop_shares_owner : ∃ start conts, parseConfig sharedRoot {} = .ok start ∧
    testedLookups followsOwner [loopTask, mainTask, namedEvent] start = .ok conts ∧
      SharesOwner conts := by
  have runs : returns (do
      testedLookups followsOwner [loopTask, mainTask, namedEvent] (← parseConfig sharedRoot {}))
      (fun _ => true) = true := by decide
  obtain ⟨conts, run, _⟩ := (returns_iff _ _).mp runs
  obtain ⟨start, parsed, run⟩ := bind_ok run
  exact ⟨start, conts, parsed, run,
    shares_owner parsed (tested_reached follows_of_test run .start)⟩

/-- A container `web` with its own attributes and a PID that shares them. -/
def webRoot : Json :=
  .object [("containers", .array [.object
    [("contid", .string "web".toList), ("params", .object []),
      ("pids", .array [.object [("cmd", .string "loop".toList)]])]])]

/-- The docker-link node of the container `web`. -/
def webEvent : Node where
  loc := 1
  psig := some ⟨1, "web".toList⟩
  contid := some ⟨2, "b2".toList⟩

/-- The duplicate of the container gets attributes of its own, the duplicate of its
PID still shares those of the original. -/
theorem duplicate_shares_original : ∃ start conts, parseConfig webRoot {} = .ok start ∧
    lookups [webEvent] start = .ok conts ∧ Reached (fun _ => True) start conts ∧
      ¬ SharesOwner conts := by
  have stale : returns (do lookups [webEvent] (← parseConfig webRoot {})) (fun conts =>
      conts.cont.any fun c => (conts.contAt c).pids.any fun p =>
        (conts.pidcAt p).status.shat && (conts.pidcAt p).attr != (conts.contAt c).attr) = true := by
    decide
  obtain ⟨conts, run, check⟩ := (returns_iff _ _).mp stale
  obtain ⟨start, parsed, run⟩ := bind_ok run
  refine ⟨start, conts, parsed, run, lookups_reached (fun _ => trivial) run .start, ?_⟩
  intro shares
  obtain ⟨c, held, check⟩ := List.any_eq_true.mp check
  obtain ⟨p, inside, check⟩ := List.any_eq_true.mp check
  obtain ⟨flag, other⟩ := Bool.and_eq_true_iff.mp check
  exact bne_iff_ne.mp other ((shares c held p inside).attr flag)

end Orchestrator.SharedSettings
