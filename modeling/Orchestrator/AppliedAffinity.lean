import Orchestrator.Manage

/-!
`MSK_STATUPD` in the PID detection modes. `setPidAffinity` writes a mask only if it
is the one that was read, and one error code is subtracted from the other, so that
two failures add up to a success.
-/

namespace Orchestrator.AppliedAffinity
open Orchdata PidLookup PidResources Manage

section Calls
variable {κ : Type} (kernel : Kernel κ) (affinity : κ → Int → Bitmask)

/-- What the calls do to the affinities of the tasks: a mask that was read and is set
again is the affinity then, and the calls for other settings leave them. -/
structure Keeps : Prop where
  again : ∀ state pid mask, mask = (kernel.getaffinity state pid).1 →
    (kernel.setaffinity (kernel.getaffinity state pid).2 pid mask).1 = true →
      affinity (kernel.setaffinity (kernel.getaffinity state pid).2 pid mask).2 pid = mask
  read : ∀ state pid, affinity (kernel.getaffinity state pid).2 = affinity state
  attr : ∀ state pid attr, affinity (kernel.setattr state pid attr).2 = affinity state
  limit : ∀ state pid type, affinity (kernel.getRlimit state pid type).2 = affinity state
  limited : ∀ state pid type value,
    affinity (kernel.setRlimit state pid type value).2 = affinity state

variable {kernel affinity} (keeps : Keeps kernel affinity)
include keeps

theorem set_pid_rlimit_keeps (state : κ) (pid rls rlh : Int) (type : Rlimit) :
    affinity (setPidRlimit kernel state pid rls rlh type) = affinity state := by
  unfold setPidRlimit
  by_cases asked : rls ≠ -1 ∨ rlh ≠ -1
  · rw [if_pos asked]
    have kept := keeps.limit state pid type
    cases call : kernel.getRlimit state pid type with
    | mk limits read =>
        rw [call] at kept
        cases limits with
        | none => exact kept
        | some pair =>
            dsimp only
            rw [keeps.limited]
            exact kept
  · rw [if_neg asked]

theorem set_scheduler_keeps (set : PrgSet) (conts : Containers) (state : κ) (attr : Nat) (pid : Int) :
    affinity (setScheduler kernel set conts state attr pid).2 = affinity state := by
  unfold setScheduler
  dsimp only
  split_ifs
  · exact keeps.attr state pid _
  · exact keeps.attr state pid _
  · rfl

theorem set_limits_keeps (set : PrgSet) (conts : Containers) (state : κ) (param : Pidc) (pid : Int) :
    affinity (setLimits kernel set conts state param pid).2 = affinity state := by
  unfold setLimits
  split_ifs
  · rfl
  · dsimp only
    rw [set_pid_rlimit_keeps keeps, set_pid_rlimit_keeps keeps, set_scheduler_keeps keeps]

end Calls

section Outcome
variable {κ : Type} (kernel : Kernel κ) (state : κ) (pid : Int) (mask : Bitmask)

/-- The write to the CGroup succeeds. -/
def moved : Bool := (kernel.setTasks state pid).1

/-- The affinity that is read for the comparison. -/
def oldMask : Bitmask := (kernel.getaffinity (kernel.setTasks state pid).2 pid).1

/-- The kernel when the affinity has been read. -/
def readState : κ := (kernel.getaffinity (kernel.setTasks state pid).2 pid).2

/-- `sched_setaffinity` succeeds at that point. -/
def settable : Bool := (kernel.setaffinity (readState kernel state pid) pid mask).1

/-- A mask that was read is set again, and not both calls fail. Any other is not set:
the write to the CGroup fails, or the task has the mask although another was read. -/
def Works (affinity : κ → Int → Bitmask) : Prop :=
  if mask = oldMask kernel state pid then
    moved kernel state pid = true ∨ settable kernel state pid mask = true
  else
    moved kernel state pid = false ∨ affinity (kernel.setTasks state pid).2 pid = mask

variable {kernel state pid mask} {affinity : κ → Int → Bitmask}

theorem set_pid_affinity_same (same : mask = oldMask kernel state pid) :
    setPidAffinity kernel (kernel.setTasks state pid).2 pid mask =
      (if settable kernel state pid mask then 0 else -1,
        (kernel.setaffinity (readState kernel state pid) pid mask).2) := by
  have equal : mask = (kernel.getaffinity (kernel.setTasks state pid).2 pid).1 := same
  unfold setPidAffinity
  dsimp only
  rw [if_pos equal]
  rfl

theorem set_pid_affinity_other (other : mask ≠ oldMask kernel state pid) :
    setPidAffinity kernel (kernel.setTasks state pid).2 pid mask =
      (0, readState kernel state pid) := by
  have apart : mask ≠ (kernel.getaffinity (kernel.setTasks state pid).2 pid).1 := other
  unfold setPidAffinity
  dsimp only
  rw [if_neg apart]
  rfl

end Outcome

section Node
variable {κ : Type} (kernel : Kernel κ) (conts : Containers) (state : κ) (node : Node)

/-- `affinity_mask` of the node's resources. -/
def configured : Option Bitmask := (rscsOf conts node).bind SchedRscs.affinityMask

/-- What `setPidAffinityNode` returns for a task. -/
def nodeAffinity : Int × κ :=
  match configured conts node with
  | none => (-1, (kernel.setTasks state node.pid).2)
  | some mask =>
      ((if moved kernel state node.pid then 0 else -1) -
          (setPidAffinity kernel (kernel.setTasks state node.pid).2 node.pid mask).1,
        (setPidAffinity kernel (kernel.setTasks state node.pid).2 node.pid mask).2)

variable {node} in
theorem set_pid_affinity_node_task (task : node.pid ≠ 0) :
    setPidAffinityNode kernel conts state node = .ok (nodeAffinity kernel conts state node) := by
  cases param : node.param with
  | none => simp [setPidAffinityNode, nodeAffinity, configured, rscsOf, param]
  | some p =>
      have found : rscsOf conts node = some (conts.rscsAt (conts.pidcAt p).rscs) := by
        simp [rscsOf, task, param]
      simp only [setPidAffinityNode, nodeAffinity, configured, param, found, Option.bind_some]
      cases (conts.rscsAt (conts.pidcAt p).rscs).affinityMask with
      | none => rfl
      | some mask => rfl

variable {node} in
/-- The parameters of a container from the docker link have no resources. -/
theorem set_pid_affinity_node_container (container : node.pid = 0) (param : node.param.isSome) :
    setPidAffinityNode kernel conts state node = .error .segv := by
  obtain ⟨p, assigned⟩ := Option.isSome_iff_exists.mp param
  simp [setPidAffinityNode, rscsOf, container, assigned]

theorem node_affinity_none (none : configured conts node = none) :
    nodeAffinity kernel conts state node = (-1, (kernel.setTasks state node.pid).2) := by
  rw [nodeAffinity, none]

variable {conts node} {mask : Bitmask} (present : configured conts node = some mask)
include present

theorem node_affinity_some :
    nodeAffinity kernel conts state node =
      ((if moved kernel state node.pid then 0 else -1) -
          (setPidAffinity kernel (kernel.setTasks state node.pid).2 node.pid mask).1,
        (setPidAffinity kernel (kernel.setTasks state node.pid).2 node.pid mask).2) := by
  rw [nodeAffinity, present]

/-- The mask that was read: the codes cancel when both calls fail. -/
theorem node_affinity_same (same : mask = oldMask kernel state node.pid) :
    (nodeAffinity kernel conts state node).1 = 0 ↔
      moved kernel state node.pid = settable kernel state node.pid mask := by
  rw [node_affinity_some kernel state present, set_pid_affinity_same same]
  cases moved kernel state node.pid <;> cases settable kernel state node.pid mask <;> simp

/-- Another mask: the code is that of the write to the CGroup. -/
theorem node_affinity_other (other : mask ≠ oldMask kernel state node.pid) :
    (nodeAffinity kernel conts state node).1 = 0 ↔ moved kernel state node.pid = true := by
  rw [node_affinity_some kernel state present, set_pid_affinity_other other]
  cases moved kernel state node.pid <;> simp

/-- A result of 0 tells that both settings hold exactly where the calls work. -/
theorem node_affinity_works {affinity : κ → Int → Bitmask} (keeps : Keeps kernel affinity) :
    ((nodeAffinity kernel conts state node).1 = 0 → moved kernel state node.pid = true ∧
        affinity (nodeAffinity kernel conts state node).2 node.pid = mask) ↔
      Works kernel state node.pid mask affinity := by
  unfold Works
  by_cases same : mask = oldMask kernel state node.pid
  · rw [if_pos same, node_affinity_same kernel state present same,
      node_affinity_some kernel state present, set_pid_affinity_same same]
    have done := keeps.again (kernel.setTasks state node.pid).2 node.pid mask same
    change settable kernel state node.pid mask = true → _ at done
    cases moved kernel state node.pid with
    | true =>
        refine iff_of_true (fun second => ?_) (Or.inl rfl)
        exact ⟨rfl, done second.symm⟩
    | false =>
        cases settable kernel state node.pid mask with
        | true => simp
        | false => simp
  · rw [if_neg same, node_affinity_other kernel state present same,
      node_affinity_some kernel state present, set_pid_affinity_other same]
    have kept : affinity (readState kernel state node.pid) =
        affinity (kernel.setTasks state node.pid).2 := keeps.read _ _
    rw [kept]
    cases moved kernel state node.pid with
    | true => simp
    | false => simp

end Node

section Flag
variable {κ : Type} (proc : Proc κ) (numa : Numa) (set : PrgSet) (conts : Containers) (state : κ)

/-- The flag tells that both settings hold, and without it they are tried again. -/
structure Tells (affinity : κ → Int → Bitmask) (node settled : Node) (final : κ) : Prop where
  applied : settled.status.upd = true → moved proc.toKernel state node.pid = true ∧
    ∃ mask, configured conts node = some mask ∧ affinity final node.pid = mask
  retried : settled.status.upd = false → ∀ managed : Managed κ, ∀ place,
    managed.nhead[place]? = some settled → updatePidAttr proc numa set managed place = (do
      let (conts, node, kernel) ←
        setPidResources_u proc.toKernel numa set managed.conts managed.kernel settled
      pure ({ managed with conts := conts, kernel := kernel }.put place node))

/-- The affinity of the task itself is what is set. -/
def ByTask (node : Node) : Prop :=
  set.useCgroup ≠ .cgrp ∧ ¬ (node.attr.schedPolicy = schedDeadline ∧
    set.schedMode ∈ [SchedMode.padaptive, .dynsimple, .dynmcbin])

instance (set : PrgSet) (node : Node) : Decidable (ByTask set node) :=
  inferInstanceAs (Decidable (_ ∧ _))

variable {set conts state} {node : Node}

theorem update_pid_attr_retries {managed : Managed κ} {place : Nat} {settled : Node}
    (here : managed.nhead[place]? = some settled) (param : settled.param.isSome)
    (clear : settled.status.upd = false) :
    updatePidAttr proc numa set managed place = (do
      let (conts, node, kernel) ←
        setPidResources_u proc.toKernel numa set managed.conts managed.kernel settled
      pure ({ managed with conts := conts, kernel := kernel }.put place node)) := by
  have again : settled.param.isSome ∧ ¬ settled.status.upd := ⟨param, by simp [clear]⟩
  rw [updatePidAttr, here]
  dsimp only
  rw [if_pos again]

theorem set_affinity_task (kernel : Kernel κ) (rscs : SchedRscs) (attr : SchedAttr)
    (mode : ByTask set node) (task : node.pid ≠ 0) :
    setAffinity kernel numa set conts state rscs attr node =
      .ok (markUpd node (nodeAffinity kernel conts state node).1,
        (nodeAffinity kernel conts state node).2) := by
  rw [setAffinity, if_neg mode.1, if_neg mode.2, set_pid_affinity_node_task kernel conts state task]
  rfl

/-- The flag is set for a result of 0, and what follows leaves the affinities. -/
theorem set_pid_resources_u_task {affinity : κ → Int → Bitmask}
    (keeps : Keeps proc.toKernel affinity) {p : Nat} (param : node.param = some p)
    (mode : ByTask set node) (task : node.pid ≠ 0) (fresh : node.status.upd = false) :
    ∃ scheduled settled final, setPidResources_u proc.toKernel numa set conts state node =
        .ok (scheduled, settled, final) ∧ settled.param = some p ∧
      (settled.status.upd = true ↔ (nodeAffinity proc.toKernel conts state node).1 = 0) ∧
      affinity final = affinity (nodeAffinity proc.toKernel conts state node).2 := by
  have filled : ByTask set (fillNode conts (conts.pidcAt p) node) := mode
  have still : (fillNode conts (conts.pidcAt p) node).pid ≠ 0 := task
  let limits := setLimits proc.toKernel set conts
    (nodeAffinity proc.toKernel conts state node).2 (conts.pidcAt p) node.pid
  have kept := set_limits_keeps keeps set conts
    (nodeAffinity proc.toKernel conts state node).2 (conts.pidcAt p) node.pid
  refine ⟨limits.1, markUpd (fillNode conts (conts.pidcAt p) node)
    (nodeAffinity proc.toKernel conts state node).1, limits.2, ?_, param, ?_, kept⟩
  · rw [setPidResources_u, param]
    dsimp only
    rw [set_affinity_task numa proc.toKernel _ _ filled still]
    rfl
  · simp [markUpd, fillNode, fresh]

/-- In these modes the docker link's container ends the program. -/
theorem set_pid_resources_u_container (assigned : node.param.isSome) (mode : ByTask set node)
    (container : node.pid = 0) :
    setPidResources_u proc.toKernel numa set conts state node = .error .segv := by
  obtain ⟨p, param⟩ := Option.isSome_iff_exists.mp assigned
  have filled : ByTask set (fillNode conts (conts.pidcAt p) node) := mode
  rw [setPidResources_u, param]
  dsimp only
  rw [setAffinity, if_neg filled.1, if_neg filled.2, set_pid_affinity_node_container]
  · rfl
  · exact container
  · exact assigned

/-- The flag is right exactly for tasks whose calls work. -/
theorem status_upd_applied_iff {affinity : κ → Int → Bitmask}
    (keeps : Keeps proc.toKernel affinity) (assigned : node.param.isSome)
    (mode : ByTask set node) (fresh : node.status.upd = false) :
    (∃ scheduled settled final, setPidResources_u proc.toKernel numa set conts state node =
        .ok (scheduled, settled, final) ∧
      Tells proc numa set conts state affinity node settled final) ↔
    node.pid ≠ 0 ∧ ∀ mask, configured conts node = some mask →
      Works proc.toKernel state node.pid mask affinity := by
  -- the docker link's node has no settings, and the call stops at their NULL
  by_cases task : node.pid = 0
  · refine iff_of_false ?_ fun works => works.1 task
    rintro ⟨_, _, _, run, -⟩
    rw [set_pid_resources_u_container proc numa assigned mode task] at run
    cases run
  obtain ⟨p, param⟩ := Option.isSome_iff_exists.mp assigned
  obtain ⟨scheduled, settled, final, run, still, flag, kept⟩ :=
    set_pid_resources_u_task proc numa keeps param mode task fresh
  have same : (∃ scheduled settled final, setPidResources_u proc.toKernel numa set conts state node =
      .ok (scheduled, settled, final) ∧
        Tells proc numa set conts state affinity node settled final) ↔
      ((nodeAffinity proc.toKernel conts state node).1 = 0 →
        moved proc.toKernel state node.pid = true ∧ ∃ mask, configured conts node = some mask ∧
          affinity (nodeAffinity proc.toKernel conts state node).2 node.pid = mask) := by
    rw [← flag, ← kept]
    constructor
    · rintro ⟨_, _, _, other, tells⟩
      cases run.symm.trans other
      exact tells.applied
    · intro applied
      refine ⟨_, _, _, run, applied, fun clear managed place here => ?_⟩
      exact update_pid_attr_retries proc numa here (by rw [still]; rfl) clear
  rw [same, and_iff_right task]
  -- without a mask nothing is applied, and the value returned is not zero
  cases present : configured conts node with
  | none =>
      refine iff_of_true (fun zero => ?_) (fun mask missing => nomatch missing)
      rw [node_affinity_none proc.toKernel conts state node present] at zero
      cases zero
  | some mask =>
      have works := node_affinity_works proc.toKernel state present keeps
      constructor
      · rintro tells _ ⟨⟩
        apply works.mp
        intro zero
        obtain ⟨done, _, ⟨⟩, applied⟩ := tells zero
        exact ⟨done, applied⟩
      · intro all zero
        obtain ⟨done, applied⟩ := works.mpr (all mask rfl) zero
        exact ⟨done, mask, rfl, applied⟩

/-- A kernel with one task; its state is the affinity. The CGroup takes the task or
not, and masks are set or refused. -/
def taskProc (accepts sets : Bool) : Proc Bitmask where
  getCpus := fun affinity _ => ([], affinity)
  setCpus := fun affinity _ _ => (true, affinity)
  setTasks := fun affinity _ => (accepts, affinity)
  getaffinity := fun affinity _ => (affinity, affinity)
  setaffinity := fun affinity _ mask => if sets then (true, mask) else (false, affinity)
  setattr := fun affinity _ _ => (true, affinity)
  getRlimit := fun affinity _ _ => (none, affinity)
  setRlimit := fun affinity _ _ _ => (true, affinity)
  getattr := fun affinity _ => (none, affinity)
  schedDebug := fun affinity _ => (none, affinity)

theorem task_proc_keeps (accepts sets : Bool) :
    Keeps (taskProc accepts sets).toKernel (fun affinity _ => affinity) where
  again := by
    intro state pid mask same success
    cases sets with
    | true => rfl
    | false => cases success
  read := fun _ _ => rfl
  attr := fun _ _ _ => rfl
  limit := fun _ _ _ => rfl
  limited := fun _ _ _ _ => rfl

def pidMode : PrgSet := { useCgroup := .cntpid }

/-- A configuration for CPU 1. -/
def secondCpu : Containers := { rscsAt := fun _ => { affinityMask := some {1} } }

def newTask : Node := { loc := 1, pid := 100, param := some 0 }

/-- The task is on CPU 1 alone: its mask is set again and the flag is right. -/
theorem status_upd_second_cpu :
    ∃ scheduled settled final, setPidResources_u (taskProc true true).toKernel ⟨2, {0, 1}⟩
        pidMode secondCpu {1} newTask = .ok (scheduled, settled, final) ∧
      Tells (taskProc true true) ⟨2, {0, 1}⟩ pidMode secondCpu {1} (fun affinity _ => affinity)
        newTask settled final :=
  (status_upd_applied_iff (taskProc true true) ⟨2, {0, 1}⟩ (task_proc_keeps true true) rfl
    (by decide) rfl).mpr ⟨by decide, by
      intro mask present
      cases present
      exact Or.inl rfl⟩

/-- The task is on CPU 0: no call fails, the flag is set and the task stays there. On
CPU 1 the flag is set although both calls fail. -/
theorem status_upd_not_applied :
    (∃ scheduled settled, setPidResources_u (taskProc true true).toKernel ⟨2, {0, 1}⟩
        pidMode secondCpu {0} newTask = .ok (scheduled, settled, {0}) ∧
      settled.status.upd = true ∧
      ¬ Tells (taskProc true true) ⟨2, {0, 1}⟩ pidMode secondCpu {0} (fun affinity _ => affinity)
        newTask settled {0}) ∧
    ∃ scheduled settled, setPidResources_u (taskProc false false).toKernel ⟨2, {0, 1}⟩
        pidMode secondCpu {1} newTask = .ok (scheduled, settled, {1}) ∧
      settled.status.upd = true ∧
      ¬ Tells (taskProc false false) ⟨2, {0, 1}⟩ pidMode secondCpu {1} (fun affinity _ => affinity)
        newTask settled {1} := by
  refine ⟨⟨_, _, rfl, rfl, fun tells => ?_⟩, _, _, rfl, rfl, fun tells => ?_⟩
  · obtain ⟨_, _, ⟨⟩, applied⟩ := tells.applied rfl
    exact absurd applied (by decide)
  · obtain ⟨accepted, _⟩ := tells.applied rfl
    cases accepted

end Flag

end Orchestrator.AppliedAffinity
