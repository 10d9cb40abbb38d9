import Orchestrator.DryRun

/-!
The split of the CPUs that stands when the preparation is done: the real-time tasks' CPUs are
online, the system has the other ones, and all that was asked of the kernel was asked for it.
-/

namespace Orchestrator.CpuShield
open Orchdata Requests KernelFiles ContCGroups Environment PrepareRequests
open Requests.Program (Keeps Ends)

/-- The CPUs of the system: the online ones the real-time tasks do not have, or the same
where these have all. -/
def systemCpus (numa : Libnuma) (shield : Shield) (con : Bitmask) : Bitmask :=
  if shield.setaffinity = .useall then shield.affinityMask
  else (Finset.range numa.size).filter fun cpu => cpu ∈ con ∧ cpu ∉ shield.affinityMask

/-- The split of a run: `constr` is the list of the online CPUs it read, `con` its mask, and
`cpus` the list it wrote for the system. -/
structure Split (numa : Libnuma) (mpid : Int) (shield : Shield) (con : Bitmask)
    (cpus constr : List Char) (trace : List (Exchange Request.Answer)) : Prop where
  read : ∃ text : List Char,
    ⟨.read (shield.cpusystemfilePath ++ "online".toList), some text⟩ ∈ trace ∧
      constr = (SmtSiblings.getkernvar cpustrlen text).2
  parsed : numa.parse constr = some con
  online : ∀ cpu < numa.size, cpu ∈ shield.affinityMask → cpu ∈ con
  listed : Kernutil.parseBitmask numa.bits (systemCpus numa shield con) cpustrlen.toUInt64 =
    some cpus
  asked : ∀ exchange ∈ trace,
    Shielding shield mpid (systemCpus numa shield con) cpus constr exchange.1

section Steps
variable {numa : Libnuma} {mpid : Int}

/-- The loop over the CPUs ends with the inverted mask only if the mask is online. -/
theorem setup_cpus_splits (set : Settings) (con : Bitmask) (cpus : List Nat)
    (naffinity : Bitmask) :
    (setupCPUs set con cpus naffinity).Keeps (OnCpus set.toFixed) fun found =>
      ∀ others, found = some others →
        (∀ cpu ∈ cpus, cpu ∈ set.affinityMask → cpu ∈ con) ∧
        ∀ cpu, cpu ∈ others ↔
          cpu ∈ naffinity ∨ cpu ∈ cpus ∧ cpu ∈ con ∧ cpu ∉ set.affinityMask := by
  induction cpus generalizing naffinity with
  | nil =>
      rintro others ⟨⟩
      simp
  | cons i rest ih =>
      rw [setupCPUs]
      refine Keeps.ite (fun online => ?_) fun offline => Keeps.ite (fun _ => ?_) fun free => ?_
      · refine Keeps.bind (setup_cpu_works i) fun _ _ => ?_
        refine Keeps.mono (ih _) (fun _ held => held) fun found held others ended => ?_
        obtain ⟨inside, member⟩ := held others ended
        refine ⟨List.forall_mem_cons.mpr ⟨fun _ => online, inside⟩, fun cpu => ?_⟩
        rw [member cpu]
        -- only a CPU that is not used goes to the system
        by_cases used : i ∈ set.affinityMask
        · simp only [if_pos used, List.mem_cons]
          constructor
          · rintro (before | later)
            · exact .inl before
            · exact .inr ⟨.inr later.1, later.2⟩
          · rintro (before | ⟨rfl | later, both⟩)
            · exact .inl before
            · exact absurd used both.2
            · exact .inr ⟨later, both⟩
        · simp only [if_neg used, Finset.mem_insert, List.mem_cons]
          constructor
          · rintro ((rfl | before) | later)
            · exact .inr ⟨.inl rfl, online, used⟩
            · exact .inl before
            · exact .inr ⟨.inr later.1, later.2⟩
          · rintro (before | ⟨rfl | later, both⟩)
            · exact .inl (.inr before)
            · exact .inl (.inl rfl)
            · exact .inr ⟨later, both⟩
      · -- used but off-line: there is no inverted mask
        rintro others ⟨⟩
      · refine Keeps.mono (ih naffinity) (fun _ held => held) fun found held others ended => ?_
        obtain ⟨inside, member⟩ := held others ended
        refine ⟨List.forall_mem_cons.mpr ⟨fun used => absurd used free, inside⟩, fun cpu => ?_⟩
        rw [member cpu]
        constructor
        · rintro (before | later)
          · exact .inl before
          · exact .inr ⟨List.mem_cons_of_mem i later.1, later.2⟩
        · rintro (before | ⟨there, both⟩)
          · exact .inl before
          · rcases List.mem_cons.mp there with rfl | later
            · exact absurd both.1 offline
            · exact .inr ⟨later, both⟩

/-- The inverted mask, and the same mask where all CPUs are used. -/
theorem for_system_eq {set : Settings} {con others : Bitmask}
    (member : ∀ cpu, cpu ∈ others ↔ cpu ∈ (∅ : Bitmask) ∨
      cpu ∈ List.range numa.size ∧ cpu ∈ con ∧ cpu ∉ set.affinityMask) :
    forSystem set others = systemCpus numa set.toShield con := by
  have inverted : others =
      (Finset.range numa.size).filter fun cpu => cpu ∈ con ∧ cpu ∉ set.affinityMask := by
    ext cpu
    rw [member cpu]
    simp
  rw [forSystem, systemCpus, inverted]

/-- A file that was read: its text is in the exchange. -/
theorem getkernvar_ends {folder name : List Char} {size : Nat}
    {past : List (Exchange Request.Answer)} :
    (getkernvar folder name size).Ends past
      (fun value sofar => 0 < value.1 → ∃ text : List Char,
        sofar = past ++ [⟨.read (folder ++ name), some text⟩] ∧
          value.2 = (SmtSiblings.getkernvar size text).2)
      fun _ _ => True := by
  rw [getkernvar]
  refine Ends.ite (fun _ => ?_) fun _ answer => ?_
  · intro positive
    exact absurd positive (by decide)
  · cases answer with
    | none =>
        intro positive
        exact absurd positive (by decide)
    | some text => exact fun _ => ⟨text, rfl, rfl⟩

end Steps

section Runs
variable (numa : Libnuma) (mpid : Int) (contids : List (Option (List Char))) (buf : List Char)

/-- All exchanges were about CPUs. -/
def Before (set : Fixed) (trace : List (Exchange Request.Answer)) : Prop :=
  ∀ exchange ∈ trace, OnCpus set exchange.1

theorem Before.append {set : Fixed} {past added : List (Exchange Request.Answer)}
    (before : Before set past) (same : ∀ exchange ∈ added, OnCpus set exchange.1) :
    Before set (past ++ added) :=
  List.forall_mem_append.mpr ⟨before, same⟩

/-- What a return of 0 says. -/
def Stands (value : Int × Settings) (trace : List (Exchange Request.Answer)) : Prop :=
  value.1 = 0 → ∃ con cpus constr, Split numa mpid value.2.toShield con cpus constr trace

variable {numa mpid}

/-- The shield itself: its requests are for the split that was found. -/
theorem shield_stands {set : Settings} {con : Bitmask} {constr : List Char}
    {past : List (Exchange Request.Answer)} (before : Before set.toFixed past)
    (read : ∃ text : List Char,
      ⟨.read (set.cpusystemfilePath ++ "online".toList), some text⟩ ∈ past ∧
        constr = (SmtSiblings.getkernvar cpustrlen text).2)
    (parsed : numa.parse constr = some con)
    (online : ∀ cpu < numa.size, cpu ∈ set.affinityMask → cpu ∈ con) :
    (shieldCPUs numa mpid contids buf set constr (systemCpus numa set.toShield con)).Ends past
      (Stands numa mpid) fun _ _ => True := by
  cases listed :
      Kernutil.parseBitmask numa.bits (systemCpus numa set.toShield con) cpustrlen.toUInt64 with
  | none =>
      rw [shieldCPUs, listed]
      trivial
  | some cpus =>
      refine ((shield_holds numa contids buf listed).ends past).mono ?_ fun _ _ _ => trivial
      rintro value sofar ⟨⟨-, same⟩, added, rfl, asked⟩ -
      refine ⟨con, cpus, constr, ?_⟩
      rw [same]
      obtain ⟨text, there, last⟩ := read
      -- what was asked before the split was known is about CPUs, and fits any split
      exact {
        read := ⟨text, List.mem_append_left added there, last⟩
        parsed := parsed
        online := online
        listed := listed
        asked := List.forall_mem_append.mpr
          ⟨fun exchange member => (before exchange member).shielding, asked⟩ }

/-- One attempt, whatever it does where a CPU is off-line. -/
theorem once_stands {set : Settings} {past : List (Exchange Request.Answer)}
    (before : Before set.toFixed past) {offline : Settings → Prog (Int × Settings)}
    (goes : ∀ (next : Settings) (sofar : List (Exchange Request.Answer)),
      Before next.toFixed sofar → (offline next).Ends sofar (Stands numa mpid) fun _ _ => True) :
    (prepareOnce numa mpid contids buf offline set).Ends past (Stands numa mpid)
      fun _ _ => True := by
  rw [prepareOnce]
  refine Keeps.goes_on (ask_keeps (P := OnCpus set.toFixed) trivial) (fun _ _ => trivial)
    fun available first _ same => ?_
  have started := before.append same
  refine Ends.ite (fun _ => ?_) fun _ => trivial
  refine Keeps.goes_on (reduce_smt_tunes numa set) (fun _ _ => trivial) ?_
  rintro ⟨ret, next⟩ reduced flags same
  -- the mask may have lost siblings; the paths and the flags stay
  have fixed : next.toFixed = set.toFixed := flags
  refine Ends.ite (fun failed => ?_) fun _ => ?_
  · intro zero
    exact absurd (show (-1 : Int) = 0 from zero) (by decide)
  have settled : Before next.toFixed (past ++ first ++ reduced) := by
    rw [fixed]
    exact started.append same
  refine Ends.bind getkernvar_ends ?_
  rintro ⟨got, constr⟩ sofar read
  refine Ends.ite (fun _ => trivial) fun some_read => ?_
  obtain ⟨text, rfl, last⟩ := read (by simpa using some_read)
  have known : Before next.toFixed (past ++ first ++ reduced ++
      [⟨.read (next.cpusystemfilePath ++ "online".toList), some text⟩]) :=
    settled.append (by simp [OnCpus])
  cases parsed : numa.parse constr with
  | none => trivial
  | some con =>
      refine Keeps.goes_on (setup_cpus_splits next con (List.range numa.size) ∅)
        (fun _ _ => trivial) fun found added split same => ?_
      have done := known.append same
      cases found with
      | none => exact goes next _ done
      | some naffinity =>
          obtain ⟨inside, member⟩ := split naffinity rfl
          dsimp only
          rw [for_system_eq member]
          refine shield_stands contids buf done ⟨text, ?_, last⟩ parsed fun cpu bound used =>
            inside cpu (List.mem_range.mpr bound) used
          simp

theorem prepare_stands (cpuretry : Nat) {set : Settings}
    {past : List (Exchange Request.Answer)} (before : Before set.toFixed past) :
    (prepareEnvironment numa mpid contids buf cpuretry set).Ends past (Stands numa mpid)
      fun _ _ => True := by
  induction cpuretry generalizing set past with
  | zero => exact once_stands contids buf before fun _ _ _ => trivial
  | succ cpuretry ih =>
      -- a retry reads the online CPUs again: the split is that of the last attempt
      refine once_stands contids buf before fun next sofar settled => ?_
      refine Ends.ite (fun force => ?_) fun _ => trivial
      exact Keeps.goes_on (reset_online_works numa force (some next.affinityMask))
        (fun _ _ => trivial) fun _ added _ same => ih (settled.append same)

/-- Whatever the system answers: where the preparation returns 0, the real-time CPUs are
online, and all it asked for was asked for their complement. -/
theorem prepared_split (cpuretry : Nat) {set final : Settings}
    {trace : List (Exchange Request.Answer)}
    (run : Program.Runs (prepareEnvironment numa mpid contids buf cpuretry set) trace
      (.ok (0, final))) :
    ∃ con cpus constr, Split numa mpid final.toShield con cpus constr trace := by
  have none_before : Before set.toFixed [] := fun exchange member => absurd member (by simp)
  exact Program.ends_runs.mp (prepare_stands contids buf cpuretry none_before) trace _ run rfl

end Runs

section Sample
open DryRun (twoThreads dryShield idleSystem writes)

/-- The same machine, no dry run. -/
def liveShield : Settings := { dryShield with dryrun := 0 }

def liveFinal : Settings := { liveShield with rrtime := 100, trtl := true }

def liveExchanges : List (Exchange Request.Answer) :=
  (Program.execute idleSystem (prepareEnvironment twoThreads 7 [] [] 1 liveShield) ()).1

theorem live_returns :
    (Program.execute idleSystem (prepareEnvironment twoThreads 7 [] [] 1 liveShield) ()).2.1 =
      .ok (0, liveFinal) := by
  rfl

/-- One CPU for each side. -/
theorem two_threads_split :
    ("/cgroup/cpuset/system/cpuset.cpus".toList, ['0']) ∈ writes liveExchanges ∧
      ("/cgroup/docker/cpuset.cpus".toList, ['1']) ∈ writes liveExchanges ∧
      ∃ con cpus constr, Split twoThreads 7 liveFinal.toShield con cpus constr liveExchanges := by
  refine ⟨by decide, by decide, ?_⟩
  have run := Program.execute_runs idleSystem
    (prepareEnvironment twoThreads 7 [] [] 1 liveShield) ()
  rw [live_returns] at run
  exact prepared_split [] [] 1 run

end Sample

end Orchestrator.CpuShield
