import Orchestrator.ContainerSearch

/-!
A container created at runtime that is refreshed twice from the same container. The
second refresh adds links and objects again, unless nothing is linked to the container
it starts from and all settings are shared.
-/

namespace Orchestrator.SecondRefresh
open Orchdata PidLookup LookupEdits MutualLinks LookupHierarchy LookupRun ContainerSearch

/-- Lists, links, status and settings are the same objects with the same values. -/
structure Unchanged (before after : Containers) : Prop where
  img : after.img = before.img
  cont : after.cont = before.cont
  pids : after.pids = before.pids
  attr : after.attr = before.attr
  rscs : after.rscs = before.rscs
  nthreads : after.nthreads = before.nthreads
  numCont : after.numCont = before.numCont
  imgAt : after.imgAt = before.imgAt
  contAt : after.contAt = before.contAt
  pidcAt : ∀ p < before.brk, after.pidcAt p = before.pidcAt p
  attrAt : ∀ a < before.brk, after.attrAt a = before.attrAt a
  rscsAt : ∀ r < before.brk, after.rscsAt r = before.rscsAt r

/-- A second refresh from this container writes what the first has written. -/
structure Inert (cont : Cont) : Prop where
  runtime : cont.status.ccrt = true
  img : cont.img = none
  pids : cont.pids = []
  shat : cont.status.shat = true
  shrc : cont.status.shrc = true

theorem unchanged_fake (conts : Containers) (fake : Pidc) :
    Unchanged conts (withFake conts fake) where
  img := rfl
  cont := rfl
  pids := rfl
  attr := rfl
  rscs := rfl
  nthreads := rfl
  numCont := rfl
  imgAt := rfl
  contAt := rfl
  pidcAt := fun _ below => Function.update_of_ne (Nat.ne_of_lt below) _ _
  attrAt := fun _ _ => rfl
  rscsAt := fun _ _ => rfl

theorem Unchanged.refl (conts : Containers) : Unchanged conts conts :=
  ⟨rfl, rfl, rfl, rfl, rfl, rfl, rfl, rfl, rfl, fun _ _ => rfl, fun _ _ => rfl, fun _ _ => rfl⟩

/-- The container `r` was refreshed from `y`, which is marked as created at runtime. -/
structure RefreshedFrom (conts : Containers) (y r : Nat) : Prop where
  parm : (conts.contAt r).toParm = (conts.contAt y).toParm
  img : (conts.contAt r).img = (conts.contAt y).img
  pids : ∀ p ∈ (conts.contAt r).pids, (conts.pidcAt p).attr = (conts.contAt r).attr ∧
    (conts.pidcAt p).rscs = (conts.contAt r).rscs ∧ (conts.pidcAt p).img = (conts.contAt r).img

theorem RefreshedFrom.fake {conts : Containers} {y r : Nat} (equal : RefreshedFrom conts y r)
    (sound : Sound conts) (member : r ∈ conts.cont) (fake : Pidc) :
    RefreshedFrom (withFake conts fake) y r := by
  refine ⟨equal.parm, equal.img, fun p inside => ?_⟩
  have old : (withFake conts fake).pidcAt p = conts.pidcAt p :=
    Function.update_of_ne (Nat.ne_of_lt (sound.pids p (sound.contPids r member p inside))) _ _
  rw [old]
  exact equal.pids p inside

section Copies
variable {look : Lookup} {id : List Char} {y r : Nat}

/-- What the searches for a container created at runtime ask of the containers. -/
theorem runtime_cont_same {before after : Containers} (y : Nat) (id : List Char)
    (cont : after.cont = before.cont)
    (contid : ∀ x, (after.contAt x).contid = (before.contAt x).contid)
    (ccrt : ∀ x, (after.contAt x).status.ccrt = (before.contAt x).status.ccrt) :
    runtimeCont after y id = runtimeCont before y id := by
  rw [runtimeCont, runtimeCont, cont]
  simp only [contid, ccrt]

/-- A container that is refreshed keeps its mark if the other one has it. -/
theorem copy_runtime_again (sound : Sound look.conts) (member : y ∈ look.conts.cont)
    (found : runtimeCont look.conts y id = some r)
    (marked : (look.conts.contAt y).status.ccrt = true) :
    runtimeCont (duplicateOrRefreshContainer look y id).1.conts y id = some r := by
  obtain ⟨contid, puts, -, refreshed⟩ := copy_puts look id sound member
  have result : (duplicateOrRefreshContainer look y id).2 = r := fill_cont_some found
  rw [result, found, refreshed r found] at puts
  rw [← found]
  apply runtime_cont_same
  · exact puts.cont
  · intro x
    by_cases this : x = r
    · rw [this, puts.contid]
    · exact (puts.others x this).1
  · intro x
    by_cases this : x = r
    · rw [this, puts.status, marked, (runtime_cont_some found).2.2.1]
    · rw [(puts.others x this).2]

/-- The container a copy starts from stays as it is. -/
theorem copy_source_same (id : List Char) (sound : Sound look.conts)
    (member : y ∈ look.conts.cont) :
    (duplicateOrRefreshContainer look y id).1.conts.contAt y = look.conts.contAt y := by
  have apart := fill_cont_ne id (sound.cont y member)
  have steps := copy_rule look y id (fun conts => conts.contAt y = look.conts.contAt y)
    _ rfl sound member ?_ ?_ ?_
  · exact steps.2.2
  · intro filled entry writes _
    rw [writes.contAt, Function.update_of_ne apart]
  · intro conts p _ _ _ _ same
    rw [refresh_pid_eq]
    exact same
  · intro conts p entry _ _ _ _ adds _ _ same
    rw [adds.contAt, withMember, Function.update_of_ne apart, same]

/-- A refresh that starts from a container without PIDs whose settings are shared. -/
theorem copy_refreshed (sound : Sound look.conts) (member : y ∈ look.conts.cont)
    (found : runtimeCont look.conts y id = some r) (inert : Inert (look.conts.contAt y)) :
    RefreshedFrom (duplicateOrRefreshContainer look y id).1.conts y r := by
  have same := copy_source_same id sound member
  have steps := copy_steps look y id (fun done _ conts =>
      ((conts.contAt r).toParm = (look.conts.contAt y).toParm ∧
        (conts.contAt r).img = (look.conts.contAt y).img ∧
        (conts.contAt r).pids = (look.conts.contAt r).pids) ∧
      ∀ p ∈ done, (conts.pidcAt p).attr = (conts.contAt r).attr ∧
        (conts.pidcAt p).rscs = (conts.contAt r).rscs ∧
        (conts.pidcAt p).img = (conts.contAt r).img)
    r (fill_cont_some found) sound member ?_ ?_ ?_
  · obtain ⟨-, -, ⟨parm, img, pids⟩, own⟩ := steps
    refine ⟨by rw [parm, same], by rw [img, same], fun p inside => own p ?_⟩
    rw [pids] at inside
    rw [connected, found]
    exact List.mem_reverse.mpr inside
  · intro filled entry writes fills
    refine ⟨⟨?_, ?_, ?_⟩, fun p none => by cases none⟩
    · rw [writes.contAt, Function.update_self]
      have status := fills.copy.status
      have attr := fills.copy.sharedAttr inert.shat
      have rscs := fills.copy.sharedRscs inert.shrc
      cases own : entry.toParm
      rw [own] at status attr rscs
      cases other : (look.conts.contAt y).toParm
      rw [other] at status attr rscs
      simp only at status attr rscs
      rw [status, attr, rscs]
    · rw [writes.contAt, Function.update_self, fills.img]
    · rw [writes.contAt, Function.update_self, (fills.refreshed r found).1]
  · rintro conts done p _ _ _ _ ⟨fixed, own⟩
    rw [refresh_pid_eq]
    refine ⟨fixed, fun q inside => ?_⟩
    by_cases this : q = p
    · subst this
      simp only [Function.update_self, and_self]
    · dsimp only
      rw [Function.update_of_ne this]
      exact own q (List.mem_of_ne_of_mem this inside)
  · rintro conts done p entry _ _ _ inside
    rw [inert.pids] at inside
    cases inside

/-- The same refresh once more writes what is there. -/
theorem copy_again (inert : Inert (look.conts.contAt y))
    (found : runtimeCont look.conts y id = some r) (equal : RefreshedFrom look.conts y r) :
    (duplicateOrRefreshContainer look y id).1.conts = look.conts := by
  have filled : fillCont look.conts y id = (look.conts, r) := by
    have entry : { look.conts.contAt r with
        toParm := (look.conts.contAt y).toParm, img := none } = look.conts.contAt r := by
      rw [← equal.parm, ← inert.img, ← equal.img]
    have copy : copyResourceConfigC look.conts (look.conts.contAt y).toParm =
        (look.conts, (look.conts.contAt y).toParm) := by
      simp only [copyResourceConfigC, inert.shat, inert.shrc, if_true]
    simp only [fillCont, found, copy, inert.img]
    rw [entry, Containers.setCont, Function.update_eq_self]
  rw [duplicate_or_refresh_conts, filled]
  dsimp only
  have refreshed : (look.conts.contAt r).pids.foldl (refreshPid r) look.conts = look.conts := by
    apply List.foldlRecOn (motive := fun conts => conts = look.conts) _ _ rfl
    rintro conts rfl p inside
    obtain ⟨attr, rscs, img⟩ := equal.pids p inside
    have entry : { look.conts.pidcAt p with
        attr := (look.conts.contAt r).attr
        rscs := (look.conts.contAt r).rscs
        img := (look.conts.contAt r).img } = look.conts.pidcAt p := by
      rw [← attr, ← rscs, ← img]
    rw [refresh_pid_eq, entry, Function.update_eq_self, equal.img, inert.img]
    rfl
  rw [refreshed, inert.pids]
  rfl

/-- Each PID configuration of the original is there once more. -/
theorem copy_pids_length (id : List Char) (sound : Sound look.conts)
    (member : y ∈ look.conts.cont) :
    (duplicateOrRefreshContainer look y id).1.conts.pids.length =
      look.conts.pids.length + (look.conts.contAt y).pids.length := by
  have steps := copy_steps look y id
    (fun _ dups conts => conts.pids.length = look.conts.pids.length + dups.length)
    _ rfl sound member ?_ ?_ ?_
  · rw [steps.2.2, List.length_reverse]
  · intro filled entry writes _
    rw [writes.pids]
    rfl
  · intro conts done p _ _ _ _ same
    rw [refresh_pid_eq]
    exact same
  · intro conts done p entry _ _ _ _ adds _ _ same
    rw [adds.pids, List.length_cons, List.length_cons, same, Nat.add_assoc]

/-- Settings that are not shared are new objects. -/
theorem copy_new_settings (id : List Char) (sound : Sound look.conts)
    (member : y ∈ look.conts.cont)
    (result : (fillCont look.conts y id).2 = r) :
    ((look.conts.contAt y).status.shat = false →
        look.conts.brk ≤ ((duplicateOrRefreshContainer look y id).1.conts.contAt r).attr) ∧
      ((look.conts.contAt y).status.shrc = false →
        look.conts.brk ≤ ((duplicateOrRefreshContainer look y id).1.conts.contAt r).rscs) := by
  have steps := copy_rule look y id (fun conts =>
      ((look.conts.contAt y).status.shat = false → look.conts.brk ≤ (conts.contAt r).attr) ∧
      ((look.conts.contAt y).status.shrc = false → look.conts.brk ≤ (conts.contAt r).rscs))
    r result sound member ?_ ?_ ?_
  · exact steps.2.2
  · intro filled entry writes fills
    rw [writes.contAt, Function.update_self]
    exact ⟨fun own => (fills.copy.newAttr own).1, fun own => (fills.copy.newRscs own).1⟩
  · intro conts p _ _ _ _ fresh
    rw [refresh_pid_eq]
    exact fresh
  · intro conts p entry _ _ _ _ adds _ _ fresh
    rw [adds.contAt]
    have same := (with_member_rest conts.contAt (some r) conts.brk r).2.2
    rw [congrArg Parm.attr same, congrArg Parm.rscs same]
    exact fresh

/-- A copy from a container with an image, PIDs or settings of its own changes the
configuration, with or without the parameters of the node. -/
theorem copy_changes (sound : Sound look.conts) (member : y ∈ look.conts.cont)
    (marked : (look.conts.contAt y).status.ccrt = true)
    (own : ¬ Inert (look.conts.contAt y)) (fake : Pidc) :
    ¬ Unchanged look.conts (withFake (duplicateOrRefreshContainer look y id).1.conts fake) := by
  intro same
  obtain ⟨contid, puts, -, -⟩ := copy_puts look id sound member
  have length := copy_pids_length id sound member
  have fresh := copy_new_settings id sound member rfl
  have result := duplicate_or_refresh_cont look y id
  have list : (duplicateOrRefreshContainer look y id).1.conts.cont = look.conts.cont := same.cont
  have pids : (duplicateOrRefreshContainer look y id).1.conts.pids = look.conts.pids := same.pids
  have contAt : (duplicateOrRefreshContainer look y id).1.conts.contAt = look.conts.contAt :=
    same.contAt
  have imgAt : (duplicateOrRefreshContainer look y id).1.conts.imgAt = look.conts.imgAt :=
    same.imgAt
  -- no container is created
  cases found : runtimeCont look.conts y id with
  | none =>
      rw [puts.cont, found] at list
      exact absurd (congrArg List.length list) (by simp)
  | some r =>
      rw [contAt, fill_cont_some found] at fresh
      have below := sound.contParm r (runtime_cont_some found).1
      apply own
      refine ⟨marked, ?_, ?_, ?_, ?_⟩
      · cases image : (look.conts.contAt y).img with
        | none => rfl
        | some j =>
            have linked := puts.conts j
            rw [image, imgAt, withCont, Function.update_self] at linked
            exact absurd (congrArg List.length linked) (by simp)
      · rw [pids] at length
        exact List.length_eq_zero_iff.mp (by omega)
      · by_contra notShared
        exact absurd (fresh.1 (by simpa using notShared)) (Nat.not_le_of_lt below.1)
      · by_contra notShared
        exact absurd (fresh.2 (by simpa using notShared)) (Nat.not_le_of_lt below.2)

end Copies

end Orchestrator.SecondRefresh
