import Orchestrator.CpuShield

/-!
From the options to the public settings: which modes and policies get through the default
affinity, the checks of the options and the preparation.
-/

namespace Orchestrator.Startup
open Orchdata Requests KernelFiles ContCGroups Environment PrepareRequests CpuShield
open Requests.Program (Keeps Ends)

/-- What the preparation keeps of the modes: the detection only changes without deadlines. -/
structure Modes (set next : Settings) : Prop where
  policy : next.policy = set.policy
  setaffinity : next.setaffinity = set.setaffinity
  detection : next.useCgroup = set.useCgroup ∨ set.policy ≠ schedDeadline

theorem Modes.refl (set : Settings) : Modes set set := ⟨rfl, rfl, .inl rfl⟩

theorem Modes.trans {set next last : Settings} (first : Modes set next)
    (second : Modes next last) : Modes set last where
  policy := second.policy.trans first.policy
  setaffinity := second.setaffinity.trans first.setaffinity
  detection := by
    rcases second.detection with same | free
    · exact first.detection.imp_left same.trans
    · exact .inr (first.policy ▸ free)

/-- A step that keeps the modes, whatever it asks. -/
abbrev Steady {α : Type} (set : Settings) (kept : α → Settings) (program : Prog α) : Prop :=
  program.Keeps (fun _ => True) fun value => Modes set (kept value)

section Steps

/-- A step that returns no settings. -/
theorem keeps_any {α : Type} (program : Prog α) :
    program.Keeps (fun _ => True) fun _ => True := by
  induction program with
  | done value => trivial
  | fail stop => trivial
  | ask op next ih => exact ⟨trivial, ih⟩

theorem Steady.next {α β : Type} {set : Settings} {kept : β → Settings} {program : Prog α}
    {rest : α → Prog β} (second : ∀ value, Steady set kept (rest value)) :
    Steady set kept (program >>= rest) :=
  Keeps.bind (keeps_any program) fun value _ => second value

theorem Steady.step {α β : Type} {set : Settings} {middle : α → Settings} {kept : β → Settings}
    {program : Prog α} {rest : α → Prog β} (first : Steady set middle program)
    (second : ∀ value, Steady (middle value) kept (rest value)) :
    Steady set kept (program >>= rest) :=
  Keeps.bind first fun value held =>
    Keeps.mono (second value) (fun _ _ => trivial) fun _ more => held.trans more

theorem reset_string_modes (numa : Libnuma) (set : Settings) :
    Modes set (resetCPUstring numa set).2 := by
  rw [resetCPUstring]
  split
  · exact Modes.refl set
  · exact ⟨rfl, rfl, .inl rfl⟩

theorem disable_sibling_steady (i : Nat) (set : Settings) (j : Nat) :
    Steady set id (disableSibling i set j) := by
  rw [disableSibling]
  refine Keeps.ite (fun _ => Modes.refl set) fun _ => ?_
  refine Keeps.ite (fun _ => ⟨rfl, rfl, .inl rfl⟩) fun _ => ?_
  exact Steady.next fun _ => ⟨rfl, rfl, .inl rfl⟩

theorem disable_siblings_steady (numa : Libnuma) (cpus : List Nat) (set : Settings) :
    Steady set Prod.snd (disableSiblings numa cpus set) := by
  induction cpus generalizing set with
  | nil => exact reset_string_modes numa set
  | cons i rest ih =>
      rw [disableSiblings]
      refine Keeps.ite (fun _ => ?_) fun _ => ih set
      refine Steady.next ?_
      rintro ⟨got, str⟩
      refine Keeps.ite (fun _ => Modes.refl set) fun _ => ?_
      split
      · exact Modes.refl set
      · refine Steady.step (Keeps.fold (I := Modes set) ?_ set (Modes.refl set)) fun next => ih next
        exact fun j _ state held => (disable_sibling_steady i state j).mono (fun _ _ => trivial)
          fun _ more => held.trans more

theorem reset_mask_steady (numa : Libnuma) (set : Settings) :
    Steady set Prod.snd (resetCPUmask numa set) := by
  rw [resetCPUmask]
  refine Steady.next ?_
  rintro ⟨got, str⟩
  refine Keeps.ite (fun _ => trivial) fun _ => ?_
  split
  · trivial
  · rename_i conmask _
    have masked : Modes set { set with affinityMask := set.affinityMask ∩ conmask } :=
      ⟨rfl, rfl, .inl rfl⟩
    refine Keeps.ite (fun _ => Keeps.ite (fun _ => masked) fun _ => ?_) fun _ => masked
    exact masked.trans (reset_string_modes numa _)

theorem reduce_smt_steady (numa : Libnuma) (set : Settings) :
    Steady set Prod.snd (reduceSMT numa set) := by
  rw [reduceSMT]
  refine Steady.next fun smt => Keeps.ite (fun _ => Modes.refl set) fun _ => ?_
  refine Steady.step (disable_siblings_steady numa _ set) ?_
  rintro ⟨failed, next⟩
  refine Keeps.ite (fun _ => Modes.refl next) fun _ => Steady.next fun ret => ?_
  exact Keeps.ite (fun _ => reset_mask_steady numa next) fun _ => Modes.refl next

theorem detection_steady (set : Settings) : Steady set id (selectDetection set) := by
  rw [selectDetection]
  refine Steady.next fun there => Keeps.ite (fun _ => Modes.refl set) fun _ => ?_
  exact Keeps.ite (fun _ => trivial) fun free => ⟨rfl, rfl, .inr free⟩

theorem reset_throttle_steady (set : Settings) (percent : Int) :
    Steady set Prod.snd (resetRTthrottle set percent) := by
  rw [resetRTthrottle]
  refine Steady.next fun value => Steady.next fun ret => ?_
  exact Keeps.ite (fun _ => Modes.refl set) fun _ => ⟨rfl, rfl, .inl rfl⟩

theorem unthrottle_steady (set : Settings) (constr : List Char) :
    Steady set id (unthrottle set constr) := by
  rw [unthrottle]
  refine Steady.step (reset_throttle_steady set (-1)) ?_
  rintro ⟨ret, next⟩
  refine Keeps.ite (fun _ => Modes.refl next) fun _ => ?_
  refine Steady.next fun _ => Steady.next fun _ => ?_
  exact Steady.step (reset_throttle_steady next (-1)) fun last => Modes.refl last.2

theorem slice_steady (set : Settings) : Steady set id (getRRslice set) := by
  rw [getRRslice]
  refine Keeps.ite (fun _ => Steady.next fun _ => Modes.refl set) fun _ => ?_
  refine Steady.next ?_
  rintro ⟨got, str⟩
  exact Keeps.ite (fun _ => ⟨rfl, rfl, .inl rfl⟩) fun _ => ⟨rfl, rfl, .inl rfl⟩

end Steps

section Prepare
variable (numa : Libnuma) (mpid : Int) (contids : List (Option (List Char))) (buf : List Char)

theorem shield_steady (set : Settings) (constr : List Char) (others : Bitmask) :
    Steady set Prod.snd (shieldCPUs numa mpid contids buf set constr others) := by
  rw [shieldCPUs]
  split
  · trivial
  · refine Steady.next fun _ => Steady.next fun _ => ?_
    refine Steady.step (detection_steady set) fun detected => Steady.next fun kernel => ?_
    have known : Modes detected { detected with kernelversion := kernel } :=
      ⟨rfl, rfl, .inl rfl⟩
    have freed : Steady detected id
        (unthrottle { detected with kernelversion := kernel } constr) :=
      (unthrottle_steady _ constr).mono (fun _ _ => trivial) fun _ more => known.trans more
    refine Steady.step freed fun free => Steady.step (slice_steady free) fun sliced => ?_
    refine Steady.next fun _ => Steady.next fun _ => Steady.next fun _ => Steady.next fun _ => ?_
    exact Steady.next fun _ => Steady.next fun _ => Steady.next fun _ => Modes.refl sliced

theorem once_steady (set : Settings) {offline : Settings → Prog (Int × Settings)}
    (goes : ∀ next, Steady next Prod.snd (offline next)) :
    Steady set Prod.snd (prepareOnce numa mpid contids buf offline set) := by
  rw [prepareOnce]
  refine Steady.next fun available => Keeps.ite (fun _ => ?_) fun _ => trivial
  refine Steady.step (reduce_smt_steady numa set) ?_
  rintro ⟨ret, next⟩
  refine Keeps.ite (fun _ => Modes.refl next) fun _ => Steady.next ?_
  rintro ⟨got, constr⟩
  refine Keeps.ite (fun _ => trivial) fun _ => ?_
  split
  · trivial
  · refine Steady.next fun found => ?_
    cases found with
    | none => exact goes next
    | some naffinity => exact shield_steady numa mpid contids buf next constr _

theorem prepare_steady (cpuretry : Nat) (set : Settings) :
    Steady set Prod.snd (prepareEnvironment numa mpid contids buf cpuretry set) := by
  induction cpuretry generalizing set with
  | zero => exact once_steady numa mpid contids buf set fun _ => trivial
  | succ cpuretry ih =>
      refine once_steady numa mpid contids buf set fun next => ?_
      exact Keeps.ite (fun _ => Steady.next fun _ => ih next) fun _ => trivial

end Prepare

section Options
variable (numa : Libnuma)

/-- Policy and priority agree. -/
structure Policies (policy : UInt32) (priority : Int) (useCgroup : DetMode) : Prop where
  deadline : policy = schedDeadline → useCgroup = .cgrp
  rated : (policy = schedFifo ∨ policy = schedRr) ↔ priority ≠ 0
  lower : 0 ≤ priority
  upper : priority ≤ 99

theorem policies_agree (policy : UInt32) {priority : Int} (useCgroup : DetMode)
    (lower : 0 ≤ priority) (upper : priority ≤ 99) :
    Policies (ratedPolicy (forkedPolicy policy useCgroup) priority)
      (defaultPriority (ratedPolicy (forkedPolicy policy useCgroup) priority) priority)
      useCgroup := by
  have apart : schedFifo ≠ schedDeadline := by decide
  have forked : forkedPolicy policy useCgroup = schedDeadline → useCgroup = .cgrp := by
    intro deadline
    by_contra other
    by_cases asked : policy = schedDeadline
    · rw [forkedPolicy, if_pos ⟨asked, other⟩] at deadline
      exact apart deadline
    · rw [forkedPolicy, if_neg fun both => asked both.1] at deadline
      exact asked deadline
  generalize forkedPolicy policy useCgroup = wanted at forked ⊢
  rw [ratedPolicy]
  split_ifs with unrated
  · -- the priority decides
    refine ⟨fun deadline => absurd deadline apart, ?_, ?_, ?_⟩ <;>
      simp [defaultPriority, unrated.1, lower, upper]
  · rw [defaultPriority]
    split_ifs with missing
    · -- the policy decides: a real-time one gets a priority
      exact ⟨forked, by simp [missing.1], by decide, by decide⟩
    · refine ⟨forked, ⟨fun has none => missing ⟨has, none⟩, fun some => ?_⟩, lower, upper⟩
      by_contra other
      push Not at other
      exact unrated ⟨some, other⟩

/-- Requests that only read, whatever the settings. -/
def Reads (op : Request) : Prop := ∀ set, OnCpus set op

theorem numa_nodes_reads : numaNodes.Keeps Reads fun _ => True := by
  rw [numaNodes]
  refine Keeps.bind (ask_keeps fun _ => trivial) fun available _ => ?_
  refine Keeps.ite (fun _ => ?_) fun _ => trivial
  exact Keeps.bind (ask_keeps fun _ => trivial) fun nodes _ => trivial

theorem nodes_for_reads (given : Option (List Char)) (mode : AffMode) :
    (nodesFor given mode).Keeps Reads fun _ => True := by
  unfold nodesFor
  split
  · trivial
  · exact numa_nodes_reads

theorem default_affinity_reads (set : Fixed) :
    (defaultAffinity numa set).Keeps Reads fun _ => True := by
  rw [defaultAffinity]
  refine Keeps.bind (getkernvar_keeps (fun _ _ => trivial) _ _ _) ?_
  rintro ⟨got, defafin⟩ -
  refine Keeps.ite (fun _ => trivial) fun _ => ?_
  split
  · trivial
  · split
    · trivial
    · split <;> trivial

/-- All CPUs: there is no mask yet for `resetCPUonline` to take the number of CPUs from. -/
theorem useall_fails {set : Fixed} (live : set.blindrun = false)
    {rest : Unit → Prog (List Char × Option Bitmask × AffMode)}
    {Q : List Char × Option Bitmask × AffMode → List (Exchange Request.Answer) → Prop}
    (past : List (Exchange Request.Answer)) :
    (resetCPUonline numa set none >>= rest).Ends past Q fun _ _ => True := by
  refine Program.ends_bind.mpr ?_
  unfold resetCPUonline
  rw [if_neg (by simp [live])]
  -- the SMT state is written first, and may end the program too
  refine Keeps.goes_on (keeps_any _) (fun _ _ => trivial) fun ret added _ _ => ?_
  exact Ends.ite (fun _ => trivial) fun _ => trivial

theorem affinity_for_ends {opts : Options} (fresh : opts.affinityMask = none)
    (live : opts.blindrun = false) :
    (affinityFor numa opts).Ends []
      (fun value sofar => value.2.2 = .userspecified ∧ ∀ exchange ∈ sofar, Reads exchange.1)
      fun _ _ => True := by
  have chosen : ∀ program : Prog (List Char × Option Bitmask × AffMode),
      program.Keeps Reads (fun value => value.2.2 = .userspecified) →
      program.Ends []
        (fun value sofar => value.2.2 = .userspecified ∧ ∀ exchange ∈ sofar, Reads exchange.1)
        fun _ _ => True := by
    intro program kept
    refine (kept.ends []).mono ?_ fun _ _ _ => trivial
    rintro value sofar ⟨mode, added, rfl, reads⟩
    exact ⟨mode, reads⟩
  unfold affinityFor
  cases opts.setaffinity with
  | numaseparated => trivial
  | numabalanced => trivial
  | useall =>
      dsimp only
      rw [fresh]
      exact useall_fails numa live []
  | unspecified | userspecified =>
      refine chosen _ ?_
      cases opts.affinity with
      | some affinity => rfl
      | none => exact Keeps.bind (default_affinity_reads numa opts.toFixed) fun _ _ => rfl

theorem default_ends {opts : Options} (fresh : opts.affinityMask = none)
    (live : opts.blindrun = false) :
    (setDefaultAffinity numa opts).Ends []
      (fun found sofar => (∀ set, found = some set →
          set.setaffinity = .userspecified ∧ set.useCgroup = opts.useCgroup) ∧
        ∀ exchange ∈ sofar, Reads exchange.1)
      fun _ _ => True := by
  rw [setDefaultAffinity]
  refine Ends.bind (affinity_for_ends numa fresh live) ?_
  rintro ⟨affinity, mask, mode⟩ sofar held
  refine Keeps.goes_on (nodes_for_reads _ _) (fun _ _ => trivial) fun nodes added _ reads => ?_
  have all : ∀ exchange ∈ sofar ++ added, Reads exchange.1 :=
    List.forall_mem_append.mpr ⟨held.2, reads⟩
  cases (mask <|> parseCpumask numa affinity) with
  | none => exact ⟨fun set found => absurd found (by simp), all⟩
  | some affinityMask =>
      refine ⟨?_, all⟩
      rintro set ⟨⟩
      exact ⟨held.1, rfl⟩

theorem check_options_some {opts : Options} {set checked : Settings} {priority : Int}
    (passed : checkOptions opts set = some (checked, priority)) :
    checked.setaffinity = set.setaffinity ∧ checked.useCgroup = set.useCgroup ∧
      Policies checked.policy priority checked.useCgroup := by
  unfold checkOptions at passed
  dsimp only at passed
  split_ifs at passed with clock range forced
  obtain ⟨rfl, rfl⟩ := Prod.mk.inj (Option.some.inj passed)
  push Not at range
  exact ⟨rfl, rfl, policies_agree set.policy set.useCgroup range.1 range.2⟩

variable {numa}
variable {mpid : Int} {contids : List (Option (List Char))} {buf : List Char}

/-- Whatever the system answers: a program that is no blind run gets to its threads only with
a list of CPUs and not with all, with deadlines only for containers found by their groups, a
priority exactly for the policies that have one, and the CPUs split. -/
theorem startup_modes {opts : Options} (fresh : opts.affinityMask = none)
    (live : opts.blindrun = false) {trace : List (Exchange Request.Answer)} {final : Settings}
    {priority : Int}
    (run : Program.Runs (startup numa mpid contids buf opts) trace (.ok (final, priority))) :
    final.setaffinity = .userspecified ∧
      Policies final.policy priority final.useCgroup ∧
      ∃ con cpus constr, Split numa mpid final.toShield con cpus constr trace := by
  have ends : (startup numa mpid contids buf opts).Ends []
      (fun value sofar => value.1.setaffinity = .userspecified ∧
        Policies value.1.policy value.2 value.1.useCgroup ∧
        ∃ con cpus constr, Split numa mpid value.1.toShield con cpus constr sofar)
      fun _ _ => True := by
    rw [startup]
    refine Ends.bind (default_ends numa fresh live) fun found sofar held => ?_
    cases found with
    | none => trivial
    | some set =>
        obtain ⟨mode, -⟩ := held.1 set rfl
        dsimp only
        cases passed : checkOptions opts set with
        | none => trivial
        | some checked =>
            obtain ⟨next, priority⟩ := checked
            dsimp only
            obtain ⟨same, -, agree⟩ := check_options_some passed
            -- the default affinity is found by reading, whatever the checks change then
            have before : Before next.toFixed sofar := fun exchange member =>
              held.2 exchange member next.toFixed
            have steady := ((prepare_steady numa mpid contids buf 1 next).ends sofar).mono
              (fun _ _ kept => kept.1) fun _ _ _ => trivial
            refine Ends.bind ((prepare_stands contids buf 1 before).and steady) ?_
            rintro ⟨ret, last⟩ trace ⟨stands, modes⟩
            refine Ends.ite (fun _ => trivial) fun zero => ?_
            -- the detection may have changed, but not where the policy asks for groups
            have policy : last.policy = next.policy := modes.policy
            have detected : last.policy = schedDeadline → last.useCgroup = .cgrp := by
              intro deadline
              rcases modes.detection with unchanged | free
              · exact unchanged.trans (agree.deadline (policy ▸ deadline))
              · exact absurd (policy ▸ deadline) free
            refine ⟨modes.setaffinity.trans (same.trans mode), ?_, stands (not_not.mp zero)⟩
            exact ⟨detected, policy ▸ agree.rated, agree.lower, agree.upper⟩
  exact Program.ends_runs.mp ends trace _ run

end Options

section Sample
open DryRun (twoThreads dryShield idleSystem)

/-- No option but a priority; the policy of the configuration is not a real-time one. -/
def priorityOnly : Options where
  toFixed := { dryShield.toFixed with dryrun := 0, policy := schedOther }
  priority := 20

def priorityFinal : Settings where
  toFixed := { dryShield.toFixed with dryrun := 0, policy := schedFifo }
  affinity := ['1']
  affinityMask := {1}
  numa := "0-0".toList
  setaffinity := .userspecified
  rrtime := 100
  trtl := true

theorem priority_returns :
    (Program.execute idleSystem (startup twoThreads 7 [] [] priorityOnly) ()).2.1 =
      .ok (priorityFinal, 20) := by
  decide +kernel

/-- The first CPU stays with the system, and the policy follows the priority. -/
theorem priority_only_starts :
    Policies schedFifo 20 .cgrp ∧ ∃ con cpus constr, Split twoThreads 7 priorityFinal.toShield con
      cpus constr (Program.execute idleSystem (startup twoThreads 7 [] [] priorityOnly) ()).1 := by
  have run := Program.execute_runs idleSystem (startup twoThreads 7 [] [] priorityOnly) ()
  rw [priority_returns] at run
  exact (startup_modes rfl rfl run).2

end Sample

end Orchestrator.Startup
