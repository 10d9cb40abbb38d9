import Orchestrator.ParsedSettings

/-!
Settings over whole runs: from the parsed configuration through any lookups of
tasks and docker-link nodes, each settings object has one owner, and freeing the
configuration disposes of it once.
-/

namespace Orchestrator.DisposedOnce
open Orchdata ParseConfig PidLookup LookupEdits MutualLinks LookupHierarchy LookupRun
open SettingsOwners Ownership Traversal

/-- The attributes and the resources `freeParm` frees. -/
def freeParm (item : Parm) : List Nat × List Nat :=
  (if item.status.shat then [] else [item.attr],
    if item.rscs ≠ 0 ∧ ¬ item.status.shrc then [item.rscs] else [])

/-- Same, for `freeContParm`: images, containers, PIDs, then the defaults. -/
def freeContParm (conts : Containers) : List Nat × List Nat :=
  let items := conts.img.map (fun i => (conts.imgAt i).toParm) ++
    (conts.cont.map (fun c => (conts.contAt c).toParm) ++
      conts.pids.map fun p => (conts.pidcAt p).toParm)
  (items.flatMap (fun item => (freeParm item).1) ++ [conts.attr],
    items.flatMap (fun item => (freeParm item).2) ++ [conts.rscs])

/-- One owner for each object, by which it is freed once. -/
structure Disposed (conts : Containers) : Prop where
  owners : SingleOwners conts
  attr : ∀ holder parm, parmsOf conts holder = some parm → parm.attr ≠ 0 →
    (freeContParm conts).1.count parm.attr = 1
  rscs : ∀ holder parm, parmsOf conts holder = some parm → parm.rscs ≠ 0 →
    (freeContParm conts).2.count parm.rscs = 1

section Frees
variable {conts : Containers}

/-- The elements in the order they are freed. -/
def holders (conts : Containers) : List Holder :=
  conts.img.map Holder.img ++ (conts.cont.map Holder.cont ++ conts.pids.map Holder.pid) ++
    [.defaults]

theorem mem_holders {holder : Holder} {parm : Parm} (found : parmsOf conts holder = some parm) :
    holder ∈ holders conts := by
  cases holder with
  | defaults => simp [holders]
  | img i => simp [holders, (Option.ite_none_right_eq_some.mp found).1]
  | cont c => simp [holders, (Option.ite_none_right_eq_some.mp found).1]
  | pid p => simp [holders, (Option.ite_none_right_eq_some.mp found).1]

/-- No element is twice in its list. -/
structure Distinct (conts : Containers) : Prop where
  img : conts.img.Nodup
  cont : conts.cont.Nodup
  pids : conts.pids.Nodup

theorem holders_nodup (distinct : Distinct conts) : (holders conts).Nodup := by
  have lists : (conts.img.map Holder.img ++
      (conts.cont.map Holder.cont ++ conts.pids.map Holder.pid)).Nodup := by
    apply List.Nodup.append (distinct.img.map fun _ _ => Holder.img.inj)
    · apply List.Nodup.append (distinct.cont.map fun _ _ => Holder.cont.inj)
        (distinct.pids.map fun _ _ => Holder.pid.inj)
      intro holder one two
      obtain ⟨_, _, rfl⟩ := List.mem_map.mp one
      simp at two
    · intro holder one two
      obtain ⟨_, _, rfl⟩ := List.mem_map.mp one
      simp at two
  apply List.Nodup.append lists (List.nodup_singleton _)
  intro holder one two
  rw [List.mem_singleton.mp two] at one
  simp at one

theorem freed_attr_list (elems : List Nat) (kind : Nat → Holder) (parm : Nat → Parm)
    (found : ∀ e ∈ elems, parmsOf conts (kind e) = some (parm e)) :
    (elems.map parm).flatMap (fun item => (freeParm item).1) =
      disposed (attrRefs conts) (elems.map kind) := by
  induction elems with
  | nil => rfl
  | cons e rest ih =>
      have tail := ih fun x member => found x (List.mem_cons_of_mem e member)
      rw [List.map_cons, List.flatMap_cons, tail, List.map_cons, disposed, disposed,
        List.filterMap_cons, attrRefs, found e List.mem_cons_self]
      cases shared : (parm e).status.shat <;> simp [freeParm, attrRef, shared]

theorem freed_rscs_list (elems : List Nat) (kind : Nat → Holder) (parm : Nat → Parm)
    (found : ∀ e ∈ elems, parmsOf conts (kind e) = some (parm e)) :
    (elems.map parm).flatMap (fun item => (freeParm item).2) =
      (disposed (rscsRefs conts) (elems.map kind)).filter (· ≠ 0) := by
  induction elems with
  | nil => rfl
  | cons e rest ih =>
      have tail := ih fun x member => found x (List.mem_cons_of_mem e member)
      rw [List.map_cons, List.flatMap_cons, tail, List.map_cons, disposed, disposed,
        List.filterMap_cons, rscsRefs, found e List.mem_cons_self]
      by_cases real : (parm e).rscs = 0 <;> cases shared : (parm e).status.shrc <;>
        simp [freeParm, rscsRef, shared, real]

theorem freed_attr (conts : Containers) :
    (freeContParm conts).1 = disposed (attrRefs conts) (holders conts) := by
  rw [freeContParm, holders]
  dsimp only
  rw [List.flatMap_append, List.flatMap_append,
    freed_attr_list conts.img Holder.img _ fun i known => if_pos known,
    freed_attr_list conts.cont Holder.cont _ fun c held => if_pos held,
    freed_attr_list conts.pids Holder.pid _ fun p listed => if_pos listed]
  simp only [disposed, List.filterMap_append]
  rfl

theorem freed_rscs (conts : Containers) {object : Nat} (real : object ≠ 0) :
    (freeContParm conts).2.count object = (disposed (rscsRefs conts) (holders conts)).count object := by
  have kept : ∀ list : List Nat, (list.filter (· ≠ 0)).count object = list.count object :=
    fun list => List.count_filter (by simpa using real)
  rw [freeContParm, holders]
  dsimp only
  rw [List.flatMap_append, List.flatMap_append,
    freed_rscs_list conts.img Holder.img _ fun i known => if_pos known,
    freed_rscs_list conts.cont Holder.cont _ fun c held => if_pos held,
    freed_rscs_list conts.pids Holder.pid _ fun p listed => if_pos listed]
  simp only [List.count_append, kept, disposed, List.filterMap_append]
  rfl

end Frees

/-- The links of every accepted configuration stay within its lists. -/
theorem parsed_sound {root : Json} {conts : Containers} (run : parseConfig root {} = .ok conts) :
    Sound conts := by
  obtain ⟨built, _, _⟩ := ConfigGraph.parse_config_grown root conts run
  refine ⟨(ParsedSettings.parse_config_settled run).1.stored, ?_, ?_, ?_, built.contImgs, ?_⟩
  · intro i known c member
    rw [built.imgConts i known] at member
    cases member
  · intro i known p member
    exact (((built.imgPids i known).2 p).mp member).1
  · intro c held p member
    exact (((built.contPids c held).2 p).mp member).1
  · intro p listed i image
    rcases built.owners p listed with ⟨_, none⟩ | ⟨c, held, _, same⟩ | ⟨j, known, _, same⟩
    · rw [none] at image
      cases image
    · rw [same] at image
      exact built.contImgs c held i image
    · rw [same] at image
      cases image
      exact known

theorem parsed_owned {root : Json} {conts : Containers} (run : parseConfig root {} = .ok conts) :
    Owned conts where
  owners := (ParsedSettings.parse_config_settled run).1.owners
  runtime := fun c held created => by
    have parsed := (ParsedSettings.parse_config_settled run).1.ccrt (.cont c) _ (if_pos held)
    rw [created] at parsed
    cases parsed

section Lists
variable {before after : Containers}

theorem adds_pid_distinct {entry : Pidc} {owner img : Option Nat} (stored : Stored before)
    (adds : AddsPid before after entry owner img) (distinct : Distinct before) : Distinct after where
  img := adds.grows.img.symm ▸ distinct.img
  cont := adds.cont.symm ▸ distinct.cont
  pids := by
    rw [adds.pids, List.nodup_cons]
    exact ⟨fun old => absurd (stored.pids _ old) (Nat.lt_irrefl _), distinct.pids⟩

theorem writes_cont_distinct {c : Nat} {entry : Cont} {new : Bool} {img : Option Nat}
    (stored : Stored before) (writes : WritesCont before after c entry new img)
    (distinct : Distinct before) : Distinct after where
  img := writes.grows.img.symm ▸ distinct.img
  cont := by
    rw [writes.cont]
    cases new with
    | true =>
        apply List.nodup_cons.mpr ⟨_, distinct.cont⟩
        rw [(writes.room rfl).1]
        exact fun old => absurd (stored.cont _ old) (Nat.lt_irrefl _)
    | false => exact distinct.cont
  pids := writes.pids.symm ▸ distinct.pids

/-- No lookup lists an element twice. -/
theorem distinct_steps (look : Lookup) : StepsKeep look Distinct where
  copy := fun state c id _ _ sound member distinct => by
    have steps := copy_rule state c id.text Distinct _ rfl sound member ?_ ?_ ?_
    · exact steps.2.2
    · exact fun filled entry writes _ => writes_cont_distinct sound.toStored writes distinct
    · intro conts p _ _ _ _ distinct
      rw [refresh_pid_eq]
      exact ⟨distinct.img, distinct.cont, distinct.pids⟩
    · exact fun conts p entry sound _ _ _ adds _ _ distinct =>
        adds_pid_distinct sound.toStored adds distinct
  adopt := fun state i c _ sound _ known distinct => by
    obtain ⟨_, writes, _⟩ := adopt_img_writes state.conts i c (sound.imgParm i known)
    exact writes_cont_distinct sound.toStored writes distinct
  fromImg := fun conts after i c contid sound _ writes distinct =>
    writes_cont_distinct sound.toStored writes distinct
  fromCont := fun conts c sound _ distinct =>
    adds_pid_distinct sound.toStored (pid_from_cont_adds conts c).2 distinct
  fake := fun conts fake _ distinct => ⟨distinct.img, distinct.cont, distinct.pids⟩
  alone := fun conts p sound listed distinct => by
    obtain ⟨_, _, _, adds, _⟩ := pid_from_pid_adds conts p (sound.pids p listed)
      (sound.pidcParm p listed)
    exact adds_pid_distinct sound.toStored adds distinct
  groupNew := fun conts node keep sound distinct => by
    obtain ⟨grouped, writes, brk, adds⟩ := group_pid_new_steps conts node keep
    have middle := writes_cont_distinct sound.toStored writes distinct
    have stored := writes_cont_stored writes sound.toStored
      ⟨sound.attr.trans_le writes.grows.brk, sound.rscs.trans_le writes.grows.brk⟩
    exact adds_pid_distinct stored adds middle
  groupOld := fun node keep p groups param sound distinct => by
    have copied := alone_sound sound (unrelated_listed (signature_mem groups.2.2.2.2))
    obtain ⟨grouped, writes, same⟩ := group_pid_found_steps (pidFromPid look.conts p).1 keep p _ param
    have middle := writes_cont_distinct copied.toStored writes distinct
    rw [same]
    exact ⟨middle.img, middle.cont, middle.pids⟩

end Lists

/-- Tasks refresh nothing. -/
theorem disposed_of_owners {conts : Containers} (owners : SingleOwners conts)
    (distinct : Distinct conts) : Disposed conts where
  owners := owners
  attr := fun holder parm found _ => by
    rw [freed_attr]
    have refers : attrRefs conts holder = some (attrRef parm) := by rw [attrRefs, found]; rfl
    exact owners.attr.count_disposed (holders_nodup distinct) (fun user ref known => by
      obtain ⟨other, found, _⟩ := Option.map_eq_some_iff.mp known
      exact mem_holders found) refers
  rscs := fun holder parm found real => by
    rw [freed_rscs conts real]
    have refers : rscsRefs conts holder = some (rscsRef parm) := by rw [rscsRefs, found]; rfl
    exact owners.rscs.count_disposed (holders_nodup distinct) (fun user ref known => by
      obtain ⟨other, found, _⟩ := Option.map_eq_some_iff.mp known
      exact mem_holders found) refers

/-- From every accepted configuration, through any lookups that refresh only PIDs
that share their settings: each settings object has exactly one owner and is freed
once. -/
theorem disposed_once {root : Json} {start conts : Containers}
    (parsed : parseConfig root {} = .ok start) (run : Reached RefreshesShared start conts) :
    Disposed conts := by
  have built := (ConfigGraph.parse_config_grown root start parsed).1
  have sound := parsed_sound parsed
  have owned := reached_keeps (fun _ fits => owned_steps fits) sound (parsed_owned parsed) run
  have distinct := reached_keeps (fun look _ => distinct_steps look) sound
    ⟨built.imgNodup, built.contNodup, built.pidNodup⟩ run
  exact disposed_of_owners owned.2.owners distinct.2

/-- Lookups one after the other. -/
def lookups (nodes : List Node) (conts : Containers) : Except Stop Containers :=
  nodes.foldlM (fun conts node => do
    let found ← findPidParameters ⟨conts, [], node⟩
    .ok found.1.conts) conts

theorem lookups_reached {fits : Lookup → Prop} (all : ∀ look, fits look) {nodes : List Node}
    {start conts last : Containers} (run : lookups nodes conts = .ok last)
    (reached : Reached fits start conts) : Reached fits start last :=
  fold_rule _ (fun conts _ last => Reached fits start conts → Reached fits start last)
    (fun _ reached => reached)
    (fun conts node next _ _ step tail reached => by
      obtain ⟨⟨found, ok⟩, lookup, last⟩ := bind_ok step
      obtain rfl := Except.ok.inj last
      exact tail (reached.lookup (all _) lookup))
    nodes conts last run reached

/-- Lookups that all pass a test of their own state. -/
def testedLookups (test : Lookup → Bool) (nodes : List Node) (conts : Containers) :
    Except Stop Containers :=
  nodes.foldlM (fun conts node => do
    if test ⟨conts, [], node⟩ then
      let found ← findPidParameters ⟨conts, [], node⟩
      .ok found.1.conts
    else .error .exit) conts

theorem tested_reached {fits : Lookup → Prop} {test : Lookup → Bool}
    (passes : ∀ look, test look = true → fits look) {nodes : List Node} {start conts last : Containers}
    (run : testedLookups test nodes conts = .ok last) (reached : Reached fits start conts) :
    Reached fits start last :=
  fold_rule _ (fun conts _ last => Reached fits start conts → Reached fits start last)
    (fun _ reached => reached)
    (fun conts node next _ _ step tail reached => by
      split_ifs at step with passed
      · obtain ⟨⟨found, ok⟩, lookup, last⟩ := bind_ok step
        obtain rfl := Except.ok.inj last
        exact tail (reached.lookup (passes _ passed) lookup))
    nodes conts last run reached

/-- The containers a lookup copies, each with the state it does so in. -/
def copied (look : Lookup) : List (Lookup × Nat) :=
  (namedInImage look.conts look.node).toList.map (fun c => (look, c)) ++
    (((nextLookup look).conts.cont.find? (isMatch (nextLookup look).conts look.node)).filter
      fun c => !idMatch (nextLookup look).conts look.node c).toList.map fun c => (nextLookup look, c)

theorem mem_copied {look state : Lookup} {c : Nat} (copies : Copies look state c) :
    (state, c) ∈ copied look := by
  rcases copies with ⟨rfl, named⟩ | ⟨rfl, found, other⟩
  · simp [copied, named]
  · simp [copied, found, other, Option.filter]

/-- All PIDs that the lookup refreshes have their flags set. -/
def refreshesShared (look : Lookup) : Bool :=
  (copied look).all fun copy => look.node.contid.all fun id =>
    (connected copy.1.conts copy.2 id.text).all fun p =>
      (copy.1.conts.pidcAt p).status.shat && (copy.1.conts.pidcAt p).status.shrc

theorem refreshes_of_test (look : Lookup) (passed : refreshesShared look = true) :
    RefreshesShared look := by
  intro state c id copies known p inside
  have copy := List.all_eq_true.mp passed (state, c) (mem_copied copies)
  rw [known] at copy
  exact Bool.and_eq_true_iff.mp (List.all_eq_true.mp copy p inside)

/-- A configuration with a PID `loop` on its own that has its own attributes. -/
def loopRoot : Json :=
  .object [("pids", .array [.object [("cmd", .string "loop".toList), ("params", .object [])]])]

/-- A task `loop` of the container `b2`. -/
def loopTask : Node where
  loc := 1
  pid := 7
  psig := some ⟨1, "loop".toList⟩
  contid := some ⟨2, "b2".toList⟩

/-- Task `main` of the container `a1`, and the docker-link node of a container with
the name `a1` and the id `b2`. -/
def mainTask : Node where
  loc := 2
  pid := 8
  psig := some ⟨3, "main".toList⟩
  contid := some ⟨4, "a1".toList⟩

def namedEvent : Node where
  loc := 3
  psig := some ⟨5, "a1".toList⟩
  contid := some ⟨6, "b2".toList⟩

/-- The same PID with the default settings. -/
def sharedRoot : Json := .object [("pids", .array [.object [("cmd", .string "loop".toList)]])]

-- The node refreshes the container of the task `loop`.
theorem loop_disposed_once : ∃ start conts, parseConfig sharedRoot {} = .ok start ∧
    testedLookups refreshesShared [loopTask, mainTask, namedEvent] start = .ok conts ∧
      Disposed conts := by
  have runs : returns (do
      testedLookups refreshesShared [loopTask, mainTask, namedEvent] (← parseConfig sharedRoot {}))
      (fun _ => true) = true := by decide
  obtain ⟨conts, run, _⟩ := (returns_iff _ _).mp runs
  obtain ⟨start, parsed, run⟩ := bind_ok run
  exact ⟨start, conts, parsed, run,
    disposed_once parsed (tested_reached refreshes_of_test run .start)⟩

/-- The refreshed PID `loop` keeps its flags and gets the default attributes, which
are freed twice. -/
theorem refreshed_freed_twice : ∃ start conts, parseConfig loopRoot {} = .ok start ∧
    lookups [loopTask, mainTask, namedEvent] start = .ok conts ∧
      Reached (fun _ => True) start conts ∧ ¬ Disposed conts := by
  have twice : returns (do lookups [loopTask, mainTask, namedEvent] (← parseConfig loopRoot {}))
      (fun conts => conts.attr ≠ 0 && (freeContParm conts).1.count conts.attr == 2) = true := by
    decide
  obtain ⟨conts, run, check⟩ := (returns_iff _ _).mp twice
  obtain ⟨start, parsed, run⟩ := bind_ok run
  refine ⟨start, conts, parsed, run, lookups_reached (fun _ => trivial) run .start, ?_⟩
  intro disposed
  simp only [Bool.and_eq_true, decide_eq_true_eq, beq_iff_eq] at check
  have once := disposed.attr .defaults _ rfl check.1
  rw [check.2] at once
  cases once

end Orchestrator.DisposedOnce
