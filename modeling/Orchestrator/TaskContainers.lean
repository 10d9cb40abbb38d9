import Orchestrator.LookupRun
import Orchestrator.PidResources

/-!
Containers of tasks. The resources of a task are set without regard to the other
nodes of the list, but for sibling flags, and the containers of those stay what
they are.
-/

namespace Orchestrator.TaskContainers
open Orchdata PidLookup LookupEdits MutualLinks LookupHierarchy LookupRun PidResources Traversal

/-- PID configurations that were allocated stay in their containers. -/
structure KeepsOwners (before after : Containers) : Prop where
  brk : before.brk ≤ after.brk
  owner : ∀ p < before.brk, (after.pidcAt p).cont = (before.pidcAt p).cont

/-- The parameters of the node are allocated. -/
def Allocated (conts : Containers) (item : Node) : Prop := ∀ p, item.param = some p → p < conts.brk

section Owners
variable {first before after : Containers}

theorem KeepsOwners.refl (conts : Containers) : KeepsOwners conts conts := ⟨le_rfl, fun _ _ => rfl⟩

theorem KeepsOwners.trans (one : KeepsOwners first before) (two : KeepsOwners before after) :
    KeepsOwners first after :=
  ⟨one.brk.trans two.brk,
    fun p below => (two.owner p (below.trans_le one.brk)).trans (one.owner p below)⟩

/-- One PID configuration is written, at a new address. -/
theorem keeps_owners_update (brk : before.brk ≤ after.brk) {q : Nat} {entry : Pidc}
    (new : first.brk ≤ q) (pidcAt : after.pidcAt = Function.update before.pidcAt q entry)
    (keeps : KeepsOwners first before) : KeepsOwners first after := by
  refine ⟨keeps.brk.trans brk, fun p below => ?_⟩
  rw [pidcAt, Function.update_of_ne (below.trans_le new).ne]
  exact keeps.owner p below

theorem adds_pid_owners {entry : Pidc} {owner img : Option Nat}
    (adds : AddsPid before after entry owner img) (keeps : KeepsOwners first before) :
    KeepsOwners first after :=
  keeps_owners_update adds.room.le keeps.brk adds.pidcAt keeps

theorem writes_cont_owners {c : Nat} {entry : Cont} {new : Bool} {img : Option Nat}
    (writes : WritesCont before after c entry new img) (keeps : KeepsOwners first before) :
    KeepsOwners first after :=
  keeps.trans ⟨writes.grows.brk, fun p _ => by rw [writes.pidcAt]⟩

theorem KeepsOwners.cont {item other : Node} (keeps : KeepsOwners before after)
    (allocated : Allocated before item) (same : other.param = item.param) :
    contOf after other = contOf before item := by
  rw [contOf, contOf, same]
  cases param : item.param with
  | none => rfl
  | some p => exact keeps.owner p (allocated p param)

end Owners

section Tasks
variable {look : Lookup}

/-- The lookup of a task moves no PID configuration to another container. -/
theorem task_steps_owners (task : look.node.pid ≠ 0) :
    StepsKeep look (KeepsOwners look.conts) where
  copy := fun _ _ _ copies => absurd copies (task_copies_none task)
  adopt := fun _ _ _ adopts => absurd adopts.1 task
  fromImg := fun _ _ _ _ _ _ _ writes keeps => writes_cont_owners writes keeps
  fromCont := fun conts c _ _ keeps => adds_pid_owners (pid_from_cont_adds conts c).2 keeps
  fake := fun _ _ _ keeps => keeps_owners_update (Nat.le_succ _) keeps.brk rfl keeps
  alone := fun conts p sound listed keeps => by
    obtain ⟨_, _, _, adds, _⟩ := pid_from_pid_adds conts p (sound.pids p listed)
      (sound.pidcParm p listed)
    exact adds_pid_owners adds keeps
  groupNew := fun conts node keep _ keeps => by
    obtain ⟨_, writes, _, adds⟩ := group_pid_new_steps conts node keep
    exact adds_pid_owners adds (writes_cont_owners writes keeps)
  groupOld := fun node keep p _ param _ keeps => by
    obtain ⟨grouped, writes, same⟩ := group_pid_found_steps (pidFromPid look.conts p).1 keep p _ param
    have kept : KeepsOwners look.conts grouped := writes_cont_owners writes keeps
    have linked : grouped.brk ≤ grouped.brk := le_rfl
    rw [same]
    exact keeps_owners_update linked le_rfl rfl kept

/-- The lookup of a task without image. -/
theorem find_task (look : Lookup) (task : look.node.pid ≠ 0) (plain : look.node.imgid = none) :
    findPidParameters look =
      match look.conts.cont.find? (idMatch look.conts look.node) with
      | some c => .ok (findInContainer look none c false, true)
      | none => .ok (findUnrelated look) := by
  obtain ⟨same, search⟩ := task_search task
  rw [find_pid_parameters_search, search, image_match_none look.conts plain]
  dsimp only
  rw [same]
  cases look.conts.cont.find? (idMatch look.conts look.node) with
  | none => exact if_neg task
  | some c => rfl

theorem group_pid_allocated (conts : Containers) {node : Node} (keep : Str) {curr : Option Nat}
    (allocated : Allocated conts node) : Allocated (groupPid conts node keep curr).1
      (groupPid conts node keep curr).2 := by
  cases curr with
  | none =>
      intro p param
      rw [group_pid_new] at param ⊢
      cases param
      exact Nat.lt_succ_self _
  | some curr =>
      intro p param
      have own : node.param = some p := param
      rw [group_pid_found conts keep curr p own]
      exact Nat.lt_succ_of_lt (allocated p own)

theorem group_unrelated_allocated (curr : Option Nat) (allocated : Allocated look.conts look.node) :
    Allocated (groupUnrelated look curr).1.conts (groupUnrelated look curr).1.node := by
  rw [groupUnrelated]
  split
  · exact group_pid_allocated look.conts _ allocated
  · exact allocated

/-- The lookup leaves the task with parameters of the configuration. -/
theorem find_task_allocated (task : look.node.pid ≠ 0) (plain : look.node.imgid = none)
    (sound : Sound look.conts) (allocated : Allocated look.conts look.node) {found : Lookup}
    {ok : Bool} (run : findPidParameters look = .ok (found, ok)) :
    Allocated found.conts found.node := by
  rw [find_task look task plain] at run
  cases search : look.conts.cont.find? (idMatch look.conts look.node) with
  | some c =>
      rw [search] at run
      cases run
      have member := List.mem_of_find?_eq_some search
      rw [findInContainer, if_neg task]
      dsimp only
      split
      · rename_i p signed
        intro q param
        cases param
        apply sound.pids
        rcases List.mem_append.mp (signature_mem signed) with own | parent
        · exact sound.contPids c member p own
        · rw [Option.none_or] at parent
          cases image : (look.conts.contAt c).img with
          | none =>
              rw [image] at parent
              cases parent
          | some i =>
              rw [image] at parent
              exact sound.imgPids i (sound.contImg c member i image) p parent
      · intro q param
        cases param
        exact (pid_from_cont_adds look.conts c).2.room
  | none =>
      rw [search] at run
      have result : (findUnrelated look).1 = found := congrArg Prod.fst (Except.ok.inj run)
      rw [← result, find_unrelated_match]
      split
      · exact group_unrelated_allocated none allocated
      · rename_i p signed
        have inside := unrelated_listed (signature_mem signed)
        obtain ⟨new, _, _, adds, _⟩ := pid_from_pid_adds look.conts p (sound.pids p inside)
          (sound.pidcParm p inside)
        apply group_unrelated_allocated
        intro q param
        cases param
        dsimp only
        rw [new]
        exact adds.room

theorem group_unrelated_nhead (look : Lookup) (nhead : List Node) (curr : Option Nat) :
    groupUnrelated { look with nhead := nhead } curr =
      ({ (groupUnrelated look curr).1 with nhead := nhead }, (groupUnrelated look curr).2) := by
  rw [groupUnrelated, groupUnrelated]
  dsimp only
  split <;> rfl

theorem find_unrelated_nhead (look : Lookup) (nhead : List Node) :
    findUnrelated { look with nhead := nhead } =
      ({ (findUnrelated look).1 with nhead := nhead }, (findUnrelated look).2) := by
  rw [find_unrelated_match, find_unrelated_match]
  dsimp only
  cases signatureMatch look.conts look.node (unrelated look.conts) with
  | none => exact group_unrelated_nhead look nhead none
  | some p =>
      exact group_unrelated_nhead { look with
        conts := (pidFromPid look.conts p).1
        node := { look.node with param := some (pidFromPid look.conts p).2 } } nhead (some p)

/-- The other nodes do not matter for the lookup of a task. -/
theorem find_task_nhead (task : look.node.pid ≠ 0) (plain : look.node.imgid = none)
    (nhead : List Node) {found : Lookup} {ok : Bool}
    (run : findPidParameters look = .ok (found, ok)) :
    findPidParameters { look with nhead := nhead } = .ok ({ found with nhead := nhead }, ok) := by
  rw [find_task look task plain] at run
  rw [find_task { look with nhead := nhead } task plain]
  dsimp only
  cases search : look.conts.cont.find? (idMatch look.conts look.node) with
  | some c =>
      rw [search] at run
      cases run
      simp only [findInContainer, if_neg task]
      split <;> rfl
  | none =>
      rw [search] at run
      have result : findUnrelated look = (found, ok) := Except.ok.inj run
      rw [find_unrelated_nhead, result]

end Tasks

section Settings
variable {κ : Type} (kernel : Kernel κ) (numa : Numa) (set : PrgSet)

theorem attr_sound {conts : Containers} (sound : Sound conts) (a : Nat) (value : SchedAttr) :
    Sound (conts.setAttr a value) :=
  ⟨⟨sound.img, sound.cont, sound.pids, sound.imgParm, sound.contParm, sound.pidcParm, sound.attr,
    sound.rscs⟩, sound.imgConts, sound.imgPids, sound.contPids, sound.contImg, sound.pidImg⟩

/-- The scheduling attributes of the configuration may get flags. -/
theorem set_limits_keeps {conts : Containers} (sound : Sound conts) (state : κ) (param : Pidc)
    (pid : Int) :
    Sound (setLimits kernel set conts state param pid).1 ∧
      KeepsOwners conts (setLimits kernel set conts state param pid).1 := by
  rw [setLimits]
  split_ifs
  · exact ⟨sound, KeepsOwners.refl conts⟩
  · simp only [setScheduler]
    split_ifs
    · exact ⟨attr_sound sound _ _, le_rfl, fun _ _ => rfl⟩
    · exact ⟨sound, KeepsOwners.refl conts⟩
    · exact ⟨sound, KeepsOwners.refl conts⟩

theorem set_fixed_param (state : κ) (rscs : SchedRscs) (attr : SchedAttr) (node : Node) :
    (setFixed kernel numa state rscs attr node).1.param = node.param := by
  simp only [setFixed, setPidAffinityAssinged]
  split_ifs <;> rfl

theorem set_affinity_param {conts : Containers} {state written : κ} {rscs : SchedRscs}
    {attr : SchedAttr} {node settled : Node}
    (run : setAffinity kernel numa set conts state rscs attr node = .ok (settled, written)) :
    settled.param = node.param := by
  rw [setAffinity] at run
  split_ifs at run
  · obtain ⟨⟨ret, middle⟩, _, last⟩ := bind_ok run
    have result : setFixed kernel numa middle rscs attr (markUpd node ret) = (settled, written) :=
      Except.ok.inj last
    have same := set_fixed_param kernel numa middle rscs attr (markUpd node ret)
    rw [result] at same
    exact same
  · cases run
    rfl
  · obtain ⟨⟨ret, middle⟩, _, last⟩ := bind_ok run
    cases last
    rfl

theorem set_found_keeps {found : Lookup} {ok : Bool} {state written : κ} {conts : Containers}
    {settled : Node} (sound : Sound found.conts)
    (run : setFound kernel numa set found ok state = .ok (conts, settled, written)) :
    Sound conts ∧ KeepsOwners found.conts conts ∧ settled.param = found.node.param := by
  rw [setFound] at run
  split_ifs at run
  · rw [setPidResources_u] at run
    split at run
    · cases run
    · obtain ⟨⟨node, middle⟩, first, last⟩ := bind_ok run
      have same := set_affinity_param kernel numa set first
      cases last
      obtain ⟨still, owners⟩ := set_limits_keeps kernel set sound middle _ _
      exact ⟨still, owners, same⟩
  · cases run
    exact ⟨sound, KeepsOwners.refl _, rfl⟩

/-- The resources of a new task are set as if it were alone; then its siblings
among the nodes that are reached are flagged, and it if there are any. -/
theorem set_pid_resources_alone (look : Lookup) (state : κ) (task : look.node.pid ≠ 0)
    (plain : look.node.imgid = none) (sound : Sound look.conts)
    (allocated : Allocated look.conts look.node) :
    ∃ conts alone written,
      setPidResources kernel numa set { look with nhead := [] } state =
        .ok ({ conts := conts, nhead := [], node := alone }, written) ∧
      setPidResources kernel numa set look state =
        .ok ({
          conts := conts
          nhead := look.nhead.map (markSibling conts alone)
          node := { alone with
            status.sibl := alone.status.sibl || look.nhead.any (sibling conts alone) } }, written) ∧
      SameTask look.node alone ∧ Sound conts ∧ KeepsOwners look.conts conts ∧
      Allocated conts alone := by
  obtain ⟨found, ok, search, assigned⟩ := find_pid_parameters_task task plain
  obtain ⟨conts, settled, written, run, same⟩ := set_found_runs kernel numa set state task assigned
  have stillTask : settled.pid ≠ 0 := by
    rw [same.1]
    exact task
  have lone := find_task_nhead task plain [] search
  obtain ⟨soundFound, owners⟩ := lookup_keeps (task_steps_owners task) search sound
    (KeepsOwners.refl look.conts)
  obtain ⟨soundConts, later, param⟩ := set_found_keeps kernel numa set soundFound run
  have present := find_task_allocated task plain sound allocated search
  refine ⟨conts, settled, written, ?_, ?_, same, soundConts, owners.trans later, fun p own =>
    (present p (param ▸ own)).trans_le later.brk⟩
  · have runAlone : setFound kernel numa set { found with nhead := [] } ok state =
        .ok (conts, settled, written) := run
    rw [setPidResources, lone]
    change (setFound kernel numa set { found with nhead := [] } ok state >>= _) = _
    rw [runAlone]
    change Except.ok (markSiblings _, written) = _
    rw [markSiblings, if_neg stillTask]
    simp
  · rw [setPidResources, search]
    change (setFound kernel numa set found ok state >>= _) = _
    rw [run]
    change Except.ok (markSiblings _, written) = _
    rw [markSiblings, if_neg stillTask, ← assigned.nhead]

end Settings

end Orchestrator.TaskContainers
