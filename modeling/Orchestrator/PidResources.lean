import Orchestrator.Kernutil
import Orchestrator.PidLookup

/-!
`setPidResources` of `resmgnt.c`: parameters and resources of a node at its
first detection. The kernel behind the calls is a parameter.
-/

namespace Orchestrator.PidResources
open Orchdata PidLookup Kernutil

/-- Resources of `prlimit`. -/
inductive Rlimit where
  | rttime
  | data
  deriving DecidableEq, Repr

/-- System calls and kernel files, on a state of the kernel. A write or a
setting returns whether it succeeded. -/
structure Kernel (κ : Type) where
  /-- Text in the buffer after a read of the container's `cpuset.cpus`. -/
  getCpus : κ → List Char → List Char × κ
  setCpus : κ → List Char → List Char → Bool × κ
  /-- Write to the tasks of the CGroup for all containers. -/
  setTasks : κ → Int → Bool × κ
  /-- Mask after `numa_sched_getaffinity`. -/
  getaffinity : κ → Int → Bitmask × κ
  setaffinity : κ → Int → Bitmask → Bool × κ
  setattr : κ → Int → SchedAttr → Bool × κ
  getRlimit : κ → Int → Rlimit → Option (UInt64 × UInt64) × κ
  setRlimit : κ → Int → Rlimit → UInt64 × UInt64 → Bool × κ

/-- `KV_413`. -/
def kv413 : Nat := 3

/-- `SCHED_FLAG_DL_OVERRUN | SCHED_FLAG_RECLAIM`. -/
def schedFlagOverrunReclaim : UInt64 := 6

section Settings
variable {κ : Type} (kernel : Kernel κ) (numa : Numa) (set : PrgSet)

/-- `setPidRlimit`. -/
def setPidRlimit (state : κ) (pid rls rlh : Int) (type : Rlimit) : κ :=
  if rls ≠ -1 ∨ rlh ≠ -1 then
    match kernel.getRlimit state pid type with
    | (none, read) => read
    | (some (cur, max), read) =>
        (kernel.setRlimit read pid type
          (if rls ≠ -1 then toUInt64 rls else cur, if rlh ≠ -1 then toUInt64 rlh else max)).2
  else state

/-- `setPidAffinity`. -/
def setPidAffinity (state : κ) (pid : Int) (mask : Bitmask) : Int × κ :=
  let (old, read) := kernel.getaffinity state pid
  if mask = old then
    let (done, written) := kernel.setaffinity read pid mask
    (if done then 0 else -1, written)
  else (0, read)

/-- What `node->param->rscs` leads to. The parameters of a task have resources; those
made up for a container of the docker link, PID 0, are zeroed memory: `NULL`. -/
def rscsOf (conts : Containers) (node : Node) : Option SchedRscs :=
  if node.pid = 0 then none
  else node.param.map fun p => conts.rscsAt (conts.pidcAt p).rscs

/-- `setPidAffinityNode`. -/
def setPidAffinityNode (conts : Containers) (state : κ) (node : Node) : Except Stop (Int × κ) :=
  let (done, written) := kernel.setTasks state node.pid
  let ret : Int := if done then 0 else -1
  match node.param, rscsOf conts node with
  | none, _ => .ok (-1, written)
  -- `!(node->param->rscs->affinity_mask)`
  | some _, none => .error .segv
  | some _, some rscs =>
      match rscs.affinityMask with
      | none => .ok (-1, written)
      | some mask =>
          let (affinity, final) := setPidAffinity kernel written node.pid mask
          .ok (ret - affinity, final)

/-- `setPidAffinityAssinged`. -/
def setPidAffinityAssinged (state : κ) (node : Node) : Int × Node × κ :=
  let cpu := node.mon.assigned
  -- a negative CPU converts to a bit beyond the mask
  let mask : Bitmask := if 0 ≤ cpu ∧ cpu.toNat < numa.size then {cpu.toNat} else ∅
  let (done, written) := kernel.setaffinity state node.pid mask
  let assigned := { node with mon.assignedMask := some mask }
  if done then (0, { assigned with status.naff := false }, written) else (-1, assigned, written)

def contidOf (conts : Containers) : ContPtr → Option Str
  | .cont c => (conts.contAt c).contid
  | .img i => (conts.imgAt i).imgid

/-- `setContainerAffinity`. -/
def setContainerAffinity (conts : Containers) (state : κ) (node : Node) : Except Stop (Int × κ) :=
  match contOf conts node with
  | none => .ok (-1, state)
  | some cont =>
      match (conts.rscsAt (contParm conts cont).rscs).affinityMask.bind
          (fun mask => parseBitmask (maskBits numa) mask cpustrlen) with
      | none => .ok (-1, state)
      | some affinity =>
          match node.contid with
          | none => .error .segv
          | some contid =>
              let (old, read) := kernel.getCpus state contid.text
              if affinity ≠ old then
                let (done, written) := kernel.setCpus read contid.text affinity
                .ok (if done then 0 else -1, written)
              else .ok (0, read)

/-- `node->status |= !(ret) & MSK_STATUPD`. -/
def markUpd (node : Node) (ret : Int) : Node :=
  { node with status.upd := node.status.upd || ret = 0 }

/-- Configured values are the first estimates. -/
def startValues (attr : SchedAttr) (mon : NodeMon) : NodeMon :=
  { mon with
    cdfPeriod := if attr.schedPeriod ≠ 0 then attr.schedPeriod else mon.cdfPeriod
    cdfRuntime := if attr.schedRuntime ≠ 0 then attr.schedRuntime else mon.cdfRuntime }

/-- A fixed affinity is set right away. -/
def setFixed (state : κ) (rscs : SchedRscs) (attr : SchedAttr) (node : Node) : Node × κ :=
  if node.pid ≠ 0 ∧ 0 ≤ rscs.affinity then
    let (_, assigned, written) :=
      setPidAffinityAssinged kernel numa state { node with mon.assigned := rscs.affinity }
    ({ assigned with mon := startValues attr assigned.mon }, written)
  else (node, state)

/-- CGroup of the container or affinity of the task. -/
def setAffinity (conts : Containers) (state : κ) (rscs : SchedRscs) (attr : SchedAttr)
    (node : Node) : Except Stop (Node × κ) :=
  if set.useCgroup = .cgrp then do
    let (ret, written) ← setContainerAffinity kernel numa conts state node
    pure (setFixed kernel numa written rscs attr (markUpd node ret))
  else if node.attr.schedPolicy = schedDeadline ∧
      set.schedMode ∈ [SchedMode.padaptive, .dynsimple, .dynmcbin] then
    .ok ({ node with status.upd := true }, state)
  else do
    let (ret, written) ← setPidAffinityNode kernel conts state node
    pure (markUpd node ret, written)

/-- Scheduling attributes of a task, those of its configuration. -/
def setScheduler (conts : Containers) (state : κ) (attr : Nat) (pid : Int) : Containers × κ :=
  let value := conts.attrAt attr
  if value.schedPolicy ≠ schedNodata then
    let flagged :=
      if set.setdflag ∧ value.schedPolicy = schedDeadline ∧ kv413 ≤ set.kernelversion then
        conts.setAttr attr
          { value with schedFlags := value.schedFlags ||| schedFlagOverrunReclaim }
      else conts
    (flagged, (kernel.setattr state pid (flagged.attrAt attr)).2)
  else (conts, state)

/-- Signature and container id from the configuration, where the node has none. -/
def fillNode (conts : Containers) (param : Pidc) (node : Node) : Node :=
  { node with
    psig := node.psig.or param.psig
    contid := node.contid.or (param.cont.bind (contidOf conts)) }

/-- Scheduler and resource limits, of tasks only: PID 0 is a detected container. -/
def setLimits (conts : Containers) (state : κ) (param : Pidc) (pid : Int) : Containers × κ :=
  if pid = 0 then (conts, state)
  else
    let rscs := conts.rscsAt param.rscs
    let (scheduled, written) := setScheduler kernel set conts state param.attr pid
    let written := setPidRlimit kernel written pid rscs.rtTimew rscs.rtTime .rttime
    (scheduled, setPidRlimit kernel written pid rscs.memDataw rscs.memData .data)

/-- `setPidResources_u`. -/
def setPidResources_u (conts : Containers) (state : κ) (node : Node) :
    Except Stop (Containers × Node × κ) :=
  match node.param with
  | none => .error .segv
  | some p => do
      let param := conts.pidcAt p
      let (settled, written) ← setAffinity kernel numa set conts state
        (conts.rscsAt param.rscs) (conts.attrAt param.attr) (fillNode conts param node)
      let (scheduled, final) := setLimits kernel set conts written param settled.pid
      pure (scheduled, settled, final)

/-- Another node with the same container parameters: the same container. -/
def sibling (conts : Containers) (node item : Node) : Bool :=
  (contOf conts item).isSome && contOf conts item == contOf conts node

def markSibling (conts : Containers) (node item : Node) : Node :=
  if sibling conts node item then { item with status.sibl := true } else item

/-- Checks siblings in the container and updates them. -/
def markSiblings (look : Lookup) : Lookup :=
  if look.node.pid = 0 then look
  else
    { look with
      nhead := look.nhead.map (markSibling look.conts look.node)
      node := { look.node with
        status.sibl := look.node.status.sibl || look.nhead.any (sibling look.conts look.node) } }

/-- Resources of a node with parameters, status of one without. -/
def setFound (found : Lookup) (success : Bool) (state : κ) : Except Stop (Containers × Node × κ) :=
  if success then setPidResources_u kernel numa set found.conts state found.node
  else .ok (found.conts,
    { found.node with status := { found.node.status with upd := true, nmtch := true } }, state)

/-- `setPidResources`; `look.nhead` are the other nodes reached from `nhead`. -/
def setPidResources (look : Lookup) (state : κ) : Except Stop (Lookup × κ) := do
  let (found, success) ← findPidParameters look
  let (conts, node, written) ← setFound kernel numa set found success state
  pure (markSiblings { found with conts := conts, node := node }, written)

/-- A node but for its sibling flag. -/
def plain (item : Node) : Node := { item with status.sibl := false }

/-- A node of the list during a call: at most its sibling flag is set, and only
if it has parameters. -/
structure Marks (mark : Node → Node) : Prop where
  plain : ∀ item, plain (mark item) = plain item
  fresh : ∀ item, item.param = none → mark item = item

/-- The same task: PID and address of the node. -/
def SameTask (node other : Node) : Prop := other.pid = node.pid ∧ other.loc = node.loc

theorem mark_sibling_marks (conts : Containers) (node : Node) :
    Marks (markSibling conts node) where
  plain := by
    intro item
    rw [markSibling]
    split_ifs <;> rfl
  fresh := by
    intro item fresh
    have none : sibling conts node item = false := by simp [sibling, contOf, fresh]
    simp [markSibling, none]

theorem set_container_affinity_runs (conts : Containers) (state : κ) {node : Node}
    (named : node.contid = none → contOf conts node = none) :
    ∃ result, setContainerAffinity kernel numa conts state node = .ok result := by
  rw [setContainerAffinity]
  split
  · exact ⟨_, rfl⟩
  · rename_i cont assigned
    split
    · exact ⟨_, rfl⟩
    · split
      · rename_i missing
        rw [named missing] at assigned
        cases assigned
      · dsimp only
        split_ifs <;> exact ⟨_, rfl⟩

theorem set_pid_affinity_assinged_same (state : κ) (node : Node) :
    SameTask node (setPidAffinityAssinged kernel numa state node).2.1 := by
  simp only [setPidAffinityAssinged]
  split_ifs <;> exact ⟨rfl, rfl⟩

theorem set_fixed_same (state : κ) (rscs : SchedRscs) (attr : SchedAttr) (node : Node) :
    SameTask node (setFixed kernel numa state rscs attr node).1 := by
  rw [setFixed]
  split_ifs
  · exact set_pid_affinity_assinged_same kernel numa state _
  · exact ⟨rfl, rfl⟩

/-- A task has resources, whatever the calls return. -/
theorem set_pid_affinity_node_runs (conts : Containers) (state : κ) {node : Node}
    (task : node.pid ≠ 0) :
    ∃ result, setPidAffinityNode kernel conts state node = .ok result := by
  cases param : node.param with
  | none => exact ⟨_, by simp only [setPidAffinityNode, param]; rfl⟩
  | some p =>
      have found : rscsOf conts node = some (conts.rscsAt (conts.pidcAt p).rscs) := by
        simp [rscsOf, task, param]
      simp only [setPidAffinityNode, param, found]
      cases (conts.rscsAt (conts.pidcAt p).rscs).affinityMask with
      | none => exact ⟨_, rfl⟩
      | some mask => exact ⟨_, rfl⟩

theorem set_affinity_runs (conts : Containers) (state : κ) (rscs : SchedRscs) (attr : SchedAttr)
    {node : Node} (task : node.pid ≠ 0) (named : node.contid = none → contOf conts node = none) :
    ∃ settled written, setAffinity kernel numa set conts state rscs attr node =
      .ok (settled, written) ∧ SameTask node settled := by
  rw [setAffinity]
  split_ifs
  · obtain ⟨⟨ret, written⟩, run⟩ := set_container_affinity_runs kernel numa conts state named
    rw [run]
    exact ⟨_, _, rfl, set_fixed_same kernel numa written rscs attr (markUpd node ret)⟩
  · exact ⟨_, _, rfl, rfl, rfl⟩
  · obtain ⟨⟨ret, written⟩, run⟩ := set_pid_affinity_node_runs kernel conts state task
    rw [run]
    exact ⟨_, _, rfl, rfl, rfl⟩

theorem set_pid_resources_u_runs (conts : Containers) (state : κ) {node : Node}
    (task : node.pid ≠ 0) (param : node.param.isSome) (named : node.contid = none → contOf conts node = none) :
    ∃ scheduled settled written, setPidResources_u kernel numa set conts state node =
      .ok (scheduled, settled, written) ∧ SameTask node settled := by
  obtain ⟨p, assigned⟩ := Option.isSome_iff_exists.mp param
  have filled : (fillNode conts (conts.pidcAt p) node).contid = none →
      contOf conts (fillNode conts (conts.pidcAt p) node) = none :=
    fun missing => named (Option.or_eq_none_iff.mp missing).1
  obtain ⟨settled, written, run, same⟩ := set_affinity_runs kernel numa set conts state
    (conts.rscsAt (conts.pidcAt p).rscs) (conts.attrAt (conts.pidcAt p).attr)
    (show (fillNode conts (conts.pidcAt p) node).pid ≠ 0 from task) filled
  rw [setPidResources_u, assigned]
  dsimp only
  rw [run]
  exact ⟨_, settled, _, rfl, same⟩

theorem set_found_runs {look found : Lookup} {success : Bool} (state : κ)
    (task : look.node.pid ≠ 0) (assigned : Assigned look found success) :
    ∃ conts settled written, setFound kernel numa set found success state =
      .ok (conts, settled, written) ∧ SameTask look.node settled := by
  obtain ⟨param, psig, node⟩ := assigned.node
  cases success with
  | false => exact ⟨_, _, _, rfl, by rw [node]; exact ⟨rfl, rfl⟩⟩
  | true =>
      have named : found.node.contid = look.node.contid := by rw [node]
      have still : found.node.pid ≠ 0 := by rw [node]; exact task
      obtain ⟨conts, settled, written, run, same⟩ := set_pid_resources_u_runs kernel numa set
        found.conts state still (assigned.param rfl) (fun missing => assigned.cont rfl (named ▸ missing))
      rw [node] at same
      exact ⟨conts, settled, written, run, same⟩

/-- The call for a new task succeeds and sets at most the sibling flags of other nodes. -/
theorem set_pid_resources_runs (look : Lookup) (state : κ) (task : look.node.pid ≠ 0)
    (noImage : look.node.imgid = none) :
    ∃ final written mark, setPidResources kernel numa set look state = .ok (final, written) ∧
      SameTask look.node final.node ∧ final.nhead = look.nhead.map mark ∧ Marks mark := by
  obtain ⟨found, success, search, assigned⟩ := find_pid_parameters_task task noImage
  obtain ⟨conts, settled, written, run, same⟩ := set_found_runs kernel numa set state task assigned
  have stillTask : settled.pid ≠ 0 := by
    rw [same.1]
    exact task
  refine ⟨markSiblings { found with conts := conts, node := settled }, written,
    markSibling conts settled, ?_, ?_, ?_, mark_sibling_marks conts settled⟩
  · rw [setPidResources, search]
    change (setFound kernel numa set found success state >>= _) = _
    rw [run]
    rfl
  · rw [markSiblings, if_neg stillTask]
    exact same
  · rw [markSiblings, if_neg stillTask]
    exact congrArg (List.map _) assigned.nhead

end Settings

end Orchestrator.PidResources
