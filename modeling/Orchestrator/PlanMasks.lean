import Orchestrator.Contenders

/-!
Masks and the plan. `checkPeriod` and `grepTracer` choose among all tracers and
never look at a mask, so a plan stays inside the masks when the scores and loads
happen to lead there: every tracer that can win a choice has its CPU in the mask.
-/

namespace Orchestrator.PlanMasks
open Orchdata Resmgnt Adaptive Admission Recompute Prepare Plan Traversal BestTracer Contenders

/-- The tracer given to an allocation that had none satisfies `good`. -/
def Placed (good : Item → Nat → Prop) (before after : ResAlloc) : Prop :=
  before.assigned = none → ∀ trc, after.assigned = some trc → good after.item trc

section Composition
variable (good : Item → Nat → Prop)

theorem placed_same (alloc : ResAlloc) : Placed good alloc alloc := fun free _ assigned => by
  rw [free] at assigned
  cases assigned

theorem placed_trans {first middle last : ResAlloc} (early : Settles first middle)
    (late : Settles middle last) :
    Placed good first last ↔ Placed good first middle ∧ Placed good middle last := by
  -- at most one of the two steps assigns
  rcases early.2 with free | same
  · rcases late.2 with freeMiddle | sameLast
    · have trivial : Placed good first middle := fun _ _ assigned => by
        rw [freeMiddle] at assigned
        cases assigned
      exact ⟨fun placed => ⟨trivial, fun _ => placed free⟩, fun both _ => both.2 freeMiddle⟩
    · subst sameLast
      exact ⟨fun placed => ⟨placed, placed_same good last⟩, fun both => both.1⟩
  · subst same
    exact ⟨fun placed => ⟨placed_same good middle, placed⟩, fun both => both.2⟩

theorem all_placed_trans {first middle last : List ResAlloc}
    (early : List.Forall₂ Settles first middle) (late : List.Forall₂ Settles middle last) :
    List.Forall₂ (Placed good) first last ↔
      List.Forall₂ (Placed good) first middle ∧ List.Forall₂ (Placed good) middle last := by
  induction early generalizing last with
  | nil =>
      cases late
      simp
  | cons head _ ih =>
      cases late with
      | cons next tail =>
          simp only [List.forall₂_cons, placed_trans good head next, ih tail]
          tauto

theorem settle_settles (trc : Option Nat) (allocs : List ResAlloc) :
    List.Forall₂ Settles allocs (allocs.map (settle trc)) := by
  induction allocs with
  | nil => exact .nil
  | cons alloc rest ih =>
      refine .cons ?_ ih
      unfold settle
      split_ifs with free
      · exact ⟨rfl, Or.inl (Option.isNone_iff_eq_none.mp free)⟩
      · exact ⟨rfl, Or.inr rfl⟩

theorem settle_placed (found : Option Nat) (allocs : List ResAlloc) :
    List.Forall₂ (Placed good) allocs (allocs.map (settle found)) ↔
      ∀ trc, found = some trc → ∀ alloc ∈ allocs, alloc.assigned = none → good alloc.item trc := by
  induction allocs with
  | nil => simp
  | cons alloc rest ih =>
      -- every allocation that is left gets the same tracer
      have head : Placed good alloc (settle found alloc) ↔
          ∀ trc, found = some trc → alloc.assigned = none → good alloc.item trc := by
        by_cases free : alloc.assigned = none
        · simp [Placed, settle, free]
        · simp [Placed, free]
      simp only [List.map_cons, List.forall₂_cons, head, ih, List.mem_cons]
      constructor
      · rintro ⟨now, later⟩ trc same other (here | there) free
        · exact here ▸ now trc same (here ▸ free)
        · exact later trc same other there free
      · intro all
        exact ⟨fun trc same free => all trc same alloc (Or.inl rfl) free,
          fun trc same other there free => all trc same other (Or.inr there) free⟩

end Composition

section Passes
variable (fp : Rounding) (rrtime : Int) (good : Item → Nat → Prop)

/-- The tracer found at this turn, if any, satisfies `good`. -/
def goodPick (conts : Containers) (trcs : Tracers) (alloc : ResAlloc) : Prop :=
  ∀ trc, pick fp rrtime conts trcs alloc = some trc → good alloc.item trc

theorem plan_one_placed (conts : Containers) (trcs : Tracers) (alloc : ResAlloc)
    (free : alloc.assigned = none) :
    Placed good alloc (planOne fp rrtime conts trcs alloc).2 ↔
      goodPick fp rrtime good conts trcs alloc := by
  cases found : pick fp rrtime conts trcs alloc with
  | none => simp [plan_one_none fp rrtime conts trcs alloc found, goodPick, found, placed_same]
  | some trc =>
      simp [plan_one_found fp rrtime conts trcs alloc trc found, goodPick, found, Placed, free]

theorem plan_pass_placed (unmatched : SchedAttr → Bool) (conts : Containers) (trcs : Tracers)
    (allocs : List ResAlloc) :
    List.Forall₂ (Placed good) allocs (planPass fp rrtime unmatched conts trcs allocs).2 ↔
      AtTurns fp rrtime unmatched conts (goodPick fp rrtime good conts) trcs allocs := by
  induction allocs generalizing trcs with
  | nil => exact iff_of_true .nil trivial
  | cons alloc rest ih =>
      by_cases turn : turns unmatched conts alloc
      · rw [plan_pass_turn fp rrtime unmatched conts trcs alloc rest turn, List.forall₂_cons, ih,
          plan_one_placed fp rrtime good conts trcs alloc (turns_unassigned unmatched conts alloc turn),
          AtTurns, if_pos turn]
      · rw [plan_pass_skip fp rrtime unmatched conts trcs alloc rest turn, List.forall₂_cons, ih,
          AtTurns, if_neg turn]
        exact and_iff_right (placed_same good alloc)

/-- The last pass, which only `grepTracer` decides. -/
def GoodRest (known : Tracers × List ResAlloc) : Prop :=
  ∀ trc, grepTracer fp known.1 = some trc → ∀ alloc ∈ known.2, alloc.assigned = none →
    good alloc.item trc

theorem plan_placed (sched : Schedule) :
    List.Forall₂ (Placed good) (planOrder fp sched) (adaptPlanSchedule fp rrtime sched).2 ↔
      Turns fp rrtime (goodPick fp rrtime good sched.1.conts) sched ∧
        GoodRest fp good (planKnown fp rrtime sched) := by
  have first := plan_first_settles fp rrtime sched
  have second := plan_known_settles fp rrtime sched
  have last := settle_settles (grepTracer fp (planKnown fp rrtime sched).1)
    (planKnown fp rrtime sched).2
  have placedFirst : List.Forall₂ (Placed good) (planOrder fp sched) (planFirst fp rrtime sched).2 ↔
      _ := plan_pass_placed fp rrtime good noDetail sched.1.conts _ _
  have placedSecond : List.Forall₂ (Placed good) (planFirst fp rrtime sched).2
      (planKnown fp rrtime sched).2 ↔ _ :=
    plan_pass_placed fp rrtime good noRuntime sched.1.conts _ _
  rw [plan_eq, all_placed_trans good first (settles_trans second last),
    all_placed_trans good second last, placedFirst, placedSecond, settle_placed, Turns, and_assoc]
  rfl

end Passes

section Masks
variable (fp : Rounding) (numa : Numa)

/-- The main CPU of a tracer is set in the mask of an element. -/
def inMask (conts : Containers) (res : ResTracer) (item : Item) : Bool :=
  match maskOf conts item with
  | some mask => isbitset mask (getTracerMainCPU numa.size res)
  | none => false

/-- Each allocation the plan assigns gets a tracer inside of its mask. -/
def RespectsMasks (rrtime : Int) (sched : Schedule) : Prop :=
  List.Forall₂ (Placed fun item trc =>
      inMask numa sched.1.conts ((adaptPlanSchedule fp rrtime sched).1.trcs.trcAt trc) item)
    (planOrder fp sched) (adaptPlanSchedule fp rrtime sched).2

/-- The mask admits the CPU a tracer was created for. -/
def Admits (conts : Containers) (item : Item) (trc : Nat) : Prop :=
  inMask numa conts (freshTracer trc) item

theorem add_all_affinity (rrtime : Int) (res : ResTracer) (tasks : List SchedAttr) :
    (addAll fp rrtime res tasks).affinity = res.affinity := by
  induction tasks generalizing res with
  | nil => rfl
  | cons par rest ih => exact ih _

theorem books_in_mask (rrtime : Int) (conts : Containers) (trcs : Tracers) (allocs : List ResAlloc)
    (books : Books fp rrtime conts trcs allocs) (item : Item) (trc : Nat) :
    inMask numa conts (trcs.trcAt trc) item = inMask numa conts (freshTracer trc) item := by
  have same : (trcs.trcAt trc).affinity = (freshTracer trc).affinity := by
    rw [books.replay, add_all_affinity]
  simp only [inMask, getTracerMainCPU, same]

/-- The plan stays inside the masks exactly when every choice does. -/
theorem respects_masks_choices (set : PrgSet) (contparm : Containers) (sched : Schedule)
    (run : adaptPrepareSchedule fp numa set contparm = .ok sched) :
    RespectsMasks fp numa set.rrtime sched ↔
      Turns fp set.rrtime (goodPick fp set.rrtime (Admits numa sched.1.conts) sched.1.conts) sched ∧
        GoodRest fp (Admits numa sched.1.conts) (planKnown fp set.rrtime sched) := by
  have prepared := prepared_of_run fp numa set contparm sched run
  have known := plan_known_books fp set.rrtime sched prepared.books
  have same : (fun item trc => (inMask numa sched.1.conts
      ((adaptPlanSchedule fp set.rrtime sched).1.trcs.trcAt trc) item : Prop)) =
        Admits numa sched.1.conts := by
    funext item trc
    rw [plan_eq, Admits]
    exact congrArg (· = true) (books_in_mask fp numa set.rrtime _ _ _ known item trc)
  have choices := plan_placed fp set.rrtime (Admits numa sched.1.conts) sched
  rwa [← same, ← RespectsMasks, same] at choices

theorem respects_full_masks (set : PrgSet) (contparm : Containers) (sched : Schedule)
    (run : adaptPrepareSchedule fp numa set contparm = .ok sched)
    (admitted : ∀ alloc ∈ sched.2, alloc.assigned = none → ∀ trc ∈ sched.1.trcs.rHead,
      Admits numa sched.1.conts alloc.item trc) : RespectsMasks fp numa set.rrtime sched := by
  refine (respects_masks_choices fp numa set contparm sched run).mpr ⟨?_, ?_⟩
  · refine turns_of fp set.rrtime _ sched fun later alloc grows member free trc found => ?_
    have linked := check_period_linked fp set.rrtime later _ _ _ trc found
    exact admitted alloc member free trc (grows.1 ▸ linked)
  · intro trc found alloc member free
    have linked := grep_tracer_linked fp _ trc found
    rw [(plan_known_grows fp set.rrtime sched).1, (plan_first_grows fp set.rrtime sched).1] at linked
    have before := settles_origin (plan_first_settles fp set.rrtime sched) alloc
      (settles_origin (plan_known_settles fp set.rrtime sched) alloc member free) free
    exact admitted alloc ((plan_order_perm fp sched).mem_iff.mp before) free trc linked

end Masks

section Sound
variable (rrtime : Int) (conts : Containers)

theorem plan_one_sound {trcs : Tracers} (sound : Sound ieee trcs) (alloc : ResAlloc) :
    Sound ieee (planOne ieee rrtime conts trcs alloc).1 := by
  cases found : pick ieee rrtime conts trcs alloc with
  | none => rwa [plan_one_none ieee rrtime conts trcs alloc found]
  | some trc =>
      rw [plan_one_found ieee rrtime conts trcs alloc trc found]
      exact sound_add sound trc _

theorem plan_pass_sound (unmatched : SchedAttr → Bool) {trcs : Tracers} (sound : Sound ieee trcs)
    (allocs : List ResAlloc) : Sound ieee (planPass ieee rrtime unmatched conts trcs allocs).1 := by
  induction allocs generalizing trcs with
  | nil => exact sound
  | cons alloc rest ih =>
      by_cases turn : turns unmatched conts alloc
      · rw [plan_pass_turn ieee rrtime unmatched conts trcs alloc rest turn]
        exact ih (plan_one_sound rrtime conts sound alloc)
      · rw [plan_pass_skip ieee rrtime unmatched conts trcs alloc rest turn]
        exact ih sound

theorem at_turns_sound {unmatched : SchedAttr → Bool} {first second : Tracers → ResAlloc → Prop}
    (implies : ∀ trcs alloc, Sound ieee trcs → first trcs alloc → second trcs alloc) {trcs : Tracers}
    (sound : Sound ieee trcs) {allocs : List ResAlloc}
    (along : AtTurns ieee rrtime unmatched conts first trcs allocs) :
    AtTurns ieee rrtime unmatched conts second trcs allocs := by
  induction allocs generalizing trcs with
  | nil => trivial
  | cons alloc rest ih =>
      unfold AtTurns at along ⊢
      split_ifs at along ⊢
      · exact ⟨implies trcs alloc sound along.1, ih (plan_one_sound rrtime conts sound alloc) along.2⟩
      · exact ih sound along

theorem at_turns_and {unmatched : SchedAttr → Bool} {first second : Tracers → ResAlloc → Prop}
    {trcs : Tracers} {allocs : List ResAlloc}
    (along : AtTurns ieee rrtime unmatched conts first trcs allocs)
    (also : AtTurns ieee rrtime unmatched conts second trcs allocs) :
    AtTurns ieee rrtime unmatched conts (fun trcs alloc => first trcs alloc ∧ second trcs alloc)
      trcs allocs := by
  induction allocs generalizing trcs with
  | nil => trivial
  | cons alloc rest ih =>
      unfold AtTurns at along also ⊢
      split_ifs at along also ⊢
      · exact ⟨⟨along.1, also.1⟩, ih along.2 also.2⟩
      · exact ih along also

theorem prepared_sound {numa : Numa} {set : PrgSet} {contparm : Containers} {sched : Schedule}
    (prepared : Prepared ieee numa set contparm sched) : Sound ieee sched.1.trcs := by
  have stored : ∀ (tasks : List SchedAttr) (res : ResTracer), Stored res →
      Stored (addAll ieee set.rrtime res tasks) := by
    intro tasks
    induction tasks with
    | nil => exact fun _ stored => stored
    | cons par rest ih => exact fun res _ => ih _ (added_stored set.rrtime res par)
  refine ⟨?_, fun trc => ?_, fun trc => held_of_stored ?_⟩
  · obtain ⟨mask, -, heads⟩ := prepared.heads
    rw [heads]
    exact List.nodup_range.filter _
  · rw [prepared.books.replay, add_all_affinity]
    rfl
  · rw [prepared.books.replay]
    exact stored _ _ (fresh_tracer_stored trc)

end Sound

/-- The tracers a choice can end with, and those that let it end with one. -/
structure Choice where
  may : Nat → Prop
  sure : Nat → Prop

section Choices
variable (numa : Numa) (rrtime : Int)

/-- A turn of the first two passes: the fixed CPU's tracer, or the contenders. -/
def turnChoice (conts : Containers) (trcs : Tracers) (alloc : ResAlloc) : Choice where
  may := fun trc =>
    if 0 ≤ (rscsOf conts alloc.item).affinity then
      trc ∈ trcs.rHead ∧ (trc : Int) = (rscsOf conts alloc.item).affinity
    else
      Contends ieee rrtime trcs (attrOf conts alloc.item) (rscsOf conts alloc.item).affinity trc
  sure := fun trc =>
    if 0 ≤ (rscsOf conts alloc.item).affinity then
      trc ∈ trcs.rHead ∧ (trc : Int) = (rscsOf conts alloc.item).affinity
    else
      Attains ieee rrtime trcs (attrOf conts alloc.item) trc ∧
        rating ieee rrtime trcs (attrOf conts alloc.item) trc < intMax

/-- The last pass, the same for all that is left. -/
def restChoice (trcs : Tracers) : Choice where
  may := Remains ieee trcs
  sure := fun trc => trc ∈ trcs.rHead ∧ (trcs.trcAt trc).u < 1

/-- `property` holds of every choice of the plan, with the tracers as it finds them. -/
def Choices (property : Item → Choice → Prop) (sched : Schedule) : Prop :=
  Turns ieee rrtime
      (fun trcs alloc => property alloc.item (turnChoice rrtime sched.1.conts trcs alloc)) sched ∧
    ∀ alloc ∈ (planKnown ieee rrtime sched).2, alloc.assigned = none →
      property alloc.item (restChoice (planKnown ieee rrtime sched).1)

/-- Each tracer that can win is in the mask. -/
def Inside (conts : Containers) (item : Item) (choice : Choice) : Prop :=
  ∀ trc, choice.may trc → Admits numa conts item trc

/-- Some tracer wins and none that can is in the mask. -/
def Outside (conts : Containers) (item : Item) (choice : Choice) : Prop :=
  (∃ trc, choice.sure trc) ∧ ∀ trc, choice.may trc → ¬ Admits numa conts item trc

variable {rrtime} {conts : Containers} {trcs : Tracers} {alloc : ResAlloc}

theorem get_tracer_sound (sound : Sound ieee trcs) {cpu : Int} {trc : Nat} :
    getTracer trcs cpu = some trc ↔ trc ∈ trcs.rHead ∧ (trc : Int) = cpu := by
  have here (other : Nat) : isbitset (trcs.trcAt other).affinity cpu = true ↔ (other : Int) = cpu := by
    simp only [isbitset, sound.single, Finset.mem_singleton, decide_eq_true_eq]
    omega
  constructor
  · intro found
    rw [getTracer] at found
    have set := List.find?_some found
    exact ⟨List.mem_of_find?_eq_some found, (here trc).mp set⟩
  · rintro ⟨linked, same⟩
    have some : (getTracer trcs cpu).isSome := List.find?_isSome.mpr ⟨trc, linked, (here trc).mpr same⟩
    obtain ⟨first, found⟩ := Option.isSome_iff_exists.mp some
    rw [found]
    rw [getTracer] at found
    have set := List.find?_some found
    have only := (here first).mp set
    exact congrArg Option.some (by omega)

theorem pick_may (sound : Sound ieee trcs) {trc : Nat}
    (found : pick ieee rrtime conts trcs alloc = some trc) :
    (turnChoice rrtime conts trcs alloc).may trc := by
  rw [turnChoice]
  split_ifs with fixed
  · rw [pick, checkPeriod, if_pos fixed] at found
    exact (get_tracer_sound sound).mp found
  · exact check_period_contends sound (by omega) found

theorem pick_sure (sound : Sound ieee trcs) {trc : Nat}
    (sure : (turnChoice rrtime conts trcs alloc).sure trc) :
    ∃ found, pick ieee rrtime conts trcs alloc = some found := by
  rw [turnChoice] at sure
  split_ifs at sure with fixed
  · refine ⟨trc, ?_⟩
    rw [pick, checkPeriod, if_pos fixed]
    exact (get_tracer_sound sound).mpr sure
  · exact check_period_finds (by omega) sure.1 sure.2

theorem rest_sure {trc : Nat} (sure : (restChoice trcs).sure trc) :
    ∃ found, grepTracer ieee trcs = some found := by
  rw [LowLoad.grep_tracer_keeps]
  exact OnePass.keep_takes _ sure.1 sure.2

end Choices

/-- When a plan stays inside the masks, from masks, scores and loads. -/
structure MasksFollow (numa : Numa) (rrtime : Int) (sched : Schedule) : Prop where
  enough : Choices rrtime (Inside numa sched.1.conts) sched → RespectsMasks ieee numa rrtime sched
  needed : RespectsMasks ieee numa rrtime sched →
    Choices rrtime (fun item choice => ¬ Outside numa sched.1.conts item choice) sched
  decided : Choices rrtime (fun item choice =>
      Inside numa sched.1.conts item choice ∨ Outside numa sched.1.conts item choice) sched →
    (RespectsMasks ieee numa rrtime sched ↔ Choices rrtime (Inside numa sched.1.conts) sched)
  full : (∀ alloc ∈ sched.2, alloc.assigned = none → ∀ trc ∈ sched.1.trcs.rHead,
    Admits numa sched.1.conts alloc.item trc) → RespectsMasks ieee numa rrtime sched
  idle : (∀ alloc ∈ sched.2, alloc.assigned = none →
      noRuntime (attrOf sched.1.conts alloc.item) = true) → ¬ Climbs ieee sched.1.trcs →
    (RespectsMasks ieee numa rrtime sched ↔ ∀ alloc ∈ sched.2, alloc.assigned = none →
      ∀ trc, Remains ieee sched.1.trcs trc → Admits numa sched.1.conts alloc.item trc)

section Follow
variable {numa : Numa} {rrtime : Int} {sched : Schedule} (sound : Sound ieee sched.1.trcs)
include sound

theorem turns_sound {first second : Tracers → ResAlloc → Prop}
    (implies : ∀ trcs alloc, Sound ieee trcs → first trcs alloc → second trcs alloc)
    (along : Turns ieee rrtime first sched) : Turns ieee rrtime second sched :=
  ⟨at_turns_sound rrtime sched.1.conts implies sound along.1,
    at_turns_sound rrtime sched.1.conts implies
      (plan_pass_sound rrtime sched.1.conts noDetail sound (planOrder ieee sched)) along.2⟩

theorem choices_sound {first second : Item → Choice → Prop}
    (implies : ∀ item choice, first item choice → second item choice)
    (holds : Choices rrtime first sched) : Choices rrtime second sched :=
  ⟨turns_sound sound (fun _ _ _ here => implies _ _ here) holds.1, fun alloc member free =>
    implies _ _ (holds.2 alloc member free)⟩

theorem inside_good (holds : Choices rrtime (Inside numa sched.1.conts) sched) :
    Turns ieee rrtime (goodPick ieee rrtime (Admits numa sched.1.conts) sched.1.conts) sched ∧
      GoodRest ieee (Admits numa sched.1.conts) (planKnown ieee rrtime sched) := by
  refine ⟨turns_sound sound (fun trcs alloc here inside trc found => ?_) holds.1,
    fun trc found alloc member free => ?_⟩
  · exact inside trc (pick_may here found)
  · exact holds.2 alloc member free trc (grep_tracer_remains found)

theorem good_not_outside
    (turns : Turns ieee rrtime (goodPick ieee rrtime (Admits numa sched.1.conts) sched.1.conts) sched)
    (rest : GoodRest ieee (Admits numa sched.1.conts) (planKnown ieee rrtime sched)) :
    Choices rrtime (fun item choice => ¬ Outside numa sched.1.conts item choice) sched := by
  refine ⟨turns_sound sound (fun trcs alloc here good outside => ?_) turns,
    fun alloc member free outside => ?_⟩
  · obtain ⟨⟨trc, sure⟩, none⟩ := outside
    obtain ⟨found, result⟩ := pick_sure here sure
    exact none found (pick_may here result) (good found result)
  · obtain ⟨⟨trc, sure⟩, none⟩ := outside
    obtain ⟨found, result⟩ := rest_sure sure
    exact none found (grep_tracer_remains result) (rest found result alloc member free)

end Follow

theorem choices_and {rrtime : Int} {sched : Schedule} {first second : Item → Choice → Prop}
    (holds : Choices rrtime first sched) (also : Choices rrtime second sched) :
    Choices rrtime (fun item choice => first item choice ∧ second item choice) sched :=
  ⟨⟨at_turns_and rrtime sched.1.conts holds.1.1 also.1.1,
    at_turns_and rrtime sched.1.conts holds.1.2 also.1.2⟩,
    fun alloc member free => ⟨holds.2 alloc member free, also.2 alloc member free⟩⟩

section Idle
variable {rrtime : Int} {conts : Containers}

/-- A pass in which no allocation has a turn. -/
theorem plan_pass_idle {unmatched : SchedAttr → Bool} {trcs : Tracers} {allocs : List ResAlloc}
    (idle : ∀ alloc ∈ allocs, ¬ turns unmatched conts alloc = true) :
    planPass ieee rrtime unmatched conts trcs allocs = (trcs, allocs) := by
  induction allocs with
  | nil => rfl
  | cons alloc rest ih =>
      rw [plan_pass_skip ieee rrtime unmatched conts trcs alloc rest (idle alloc List.mem_cons_self),
        ih fun other member => idle other (List.mem_cons_of_mem alloc member)]

theorem at_turns_idle {unmatched : SchedAttr → Bool} {property : Tracers → ResAlloc → Prop}
    {trcs : Tracers} {allocs : List ResAlloc}
    (idle : ∀ alloc ∈ allocs, ¬ turns unmatched conts alloc = true) :
    AtTurns ieee rrtime unmatched conts property trcs allocs := by
  induction allocs with
  | nil => trivial
  | cons alloc rest ih =>
      rw [AtTurns, if_neg (idle alloc List.mem_cons_self)]
      exact ih fun other member => idle other (List.mem_cons_of_mem alloc member)

/-- Without a known runtime only the last pass assigns, from the state it was given. -/
theorem idle_choices {sched : Schedule} (numa : Numa)
    (unknown : ∀ alloc ∈ sched.2, alloc.assigned = none →
      noRuntime (attrOf sched.1.conts alloc.item) = true) :
    (Turns ieee rrtime (goodPick ieee rrtime (Admits numa sched.1.conts) sched.1.conts) sched ∧
        GoodRest ieee (Admits numa sched.1.conts) (planKnown ieee rrtime sched)) ↔
      ∀ alloc ∈ sched.2, alloc.assigned = none → ∀ trc, grepTracer ieee sched.1.trcs = some trc →
        Admits numa sched.1.conts alloc.item trc := by
  have perm := plan_order_perm ieee sched
  have runtime : ∀ alloc ∈ planOrder ieee sched,
      ¬ turns noRuntime sched.1.conts alloc = true := fun alloc member turn => by
    simp only [turns, Bool.and_eq_true, Option.isNone_iff_eq_none] at turn
    simp [unknown alloc (perm.mem_iff.mp member) turn.1] at turn
  have detail : ∀ alloc ∈ planOrder ieee sched,
      ¬ turns noDetail sched.1.conts alloc = true := fun alloc member turn => by
    refine runtime alloc member ?_
    simp only [turns, noDetail, noRuntime, Bool.and_eq_true, Bool.not_eq_true', Bool.or_eq_false_iff]
      at turn ⊢
    exact ⟨turn.1, turn.2.1⟩
  have first : planFirst ieee rrtime sched = (sched.1.trcs, planOrder ieee sched) :=
    plan_pass_idle detail
  have known : planKnown ieee rrtime sched = (sched.1.trcs, planOrder ieee sched) := by
    rw [planKnown, first]
    exact plan_pass_idle runtime
  have noTurn : Turns ieee rrtime
      (goodPick ieee rrtime (Admits numa sched.1.conts) sched.1.conts) sched := by
    rw [Turns, first]
    exact ⟨at_turns_idle detail, at_turns_idle runtime⟩
  rw [and_iff_right noTurn, known]
  exact ⟨fun good alloc member free trc found => good trc found alloc (perm.mem_iff.mpr member) free,
    fun good trc found alloc member free => good alloc (perm.mem_iff.mp member) free trc found⟩

end Idle

/-- The plan stays inside the masks if all who can win a choice are there, and not
if none of them is; for these two cases this is the exact condition. -/
theorem plan_respects_masks_iff (numa : Numa) (set : PrgSet) (contparm : Containers) (sched : Schedule)
    (run : adaptPrepareSchedule ieee numa set contparm = .ok sched) :
    MasksFollow numa set.rrtime sched := by
  have sound := prepared_sound (prepared_of_run ieee numa set contparm sched run)
  have choices := respects_masks_choices ieee numa set contparm sched run
  have enough (inside : Choices set.rrtime (Inside numa sched.1.conts) sched) :
      RespectsMasks ieee numa set.rrtime sched := choices.mpr (inside_good sound inside)
  have needed (respects : RespectsMasks ieee numa set.rrtime sched) :
      Choices set.rrtime (fun item choice => ¬ Outside numa sched.1.conts item choice) sched :=
    good_not_outside sound (choices.mp respects).1 (choices.mp respects).2
  refine ⟨enough, needed, fun decided => ⟨fun respects => ?_, enough⟩,
    respects_full_masks ieee numa set contparm sched run, fun unknown level => ?_⟩
  · -- what is decided and not outside is inside
    refine choices_sound sound (fun item choice both => ?_) (choices_and decided (needed respects))
    exact both.1.resolve_right both.2
  · rw [choices, idle_choices numa unknown]
    simp only [grep_tracer_iff level]

/-- Three CPUs; a container whose two PIDs are fixed to CPU 1 and CPU 2. -/
def pinnedPids : Containers where
  cont := [1]
  pids := [3, 2]
  contAt := fun _ => { attr := 1, rscs := 1, pids := [3, 2] }
  pidcAt := fun p => { attr := 1, rscs := p, cont := some (.cont 1) }
  attrAt := fun _ => { schedPolicy := schedFifo, schedPriority := 10 }
  rscsAt := fun r => if r = 1 then { affinity := -1 } else { affinity := (r : Int) - 1 }
  brk := 4

def threeCpus : Numa := ⟨64, {0, 1, 2}⟩

def pinnedSet : PrgSet := { affinityMask := some {0, 1, 2}, schedMode := .adaptive }

/-- The same container without its PIDs. -/
def floating : Containers :=
  { pinnedPids with pids := [], contAt := fun _ => { attr := 1, rscs := 1 } }

/-- The same container with its PIDs on CPU 0 and CPU 1. -/
def lowPids : Containers :=
  { pinnedPids with rscsAt := fun r => { affinity := (r : Int) - 2 } }

theorem plan_respects_narrowed_mask :
    ∃ sched, adaptPrepareSchedule ieee threeCpus pinnedSet lowPids = .ok sched ∧
      RespectsMasks ieee threeCpus pinnedSet.rrtime sched ∧
        ¬ Admits threeCpus sched.1.conts (.cont 1) 2 := by
  have checks : returns (adaptPrepareSchedule ieee threeCpus pinnedSet lowPids) (fun sched =>
      (sched.2.all fun alloc => noRuntime (attrOf sched.1.conts alloc.item)) &&
        decide (¬ Climbs ieee sched.1.trcs) && grepTracer ieee sched.1.trcs == some 0 &&
          (sched.2.all fun alloc => alloc.assigned.isSome ||
            inMask threeCpus sched.1.conts (freshTracer 0) alloc.item) &&
              !inMask threeCpus sched.1.conts (freshTracer 2) (.cont 1)) = true := by decide +kernel
  obtain ⟨sched, run, check⟩ := (returns_iff _ _).mp checks
  simp only [Bool.and_eq_true, List.all_eq_true, decide_eq_true_eq, beq_iff_eq, Bool.or_eq_true,
    Bool.not_eq_true'] at check
  obtain ⟨⟨⟨⟨unknown, level⟩, found⟩, inside⟩, outside⟩ := check
  refine ⟨sched, run, ?_, Bool.eq_false_iff.mp outside⟩
  have follow := plan_respects_masks_iff threeCpus pinnedSet lowPids sched run
  refine (follow.idle (fun alloc member _ => unknown alloc member) level).mpr ?_
  intro alloc member free trc remains
  rw [← grep_tracer_iff level, found] at remains
  cases remains
  refine (inside alloc member).resolve_left ?_
  rw [free]
  decide

-- The mask of the container is narrowed to {1, 2}, the plan puts it on CPU 0.
theorem plan_leaves_narrowed_mask :
    ∃ sched, adaptPrepareSchedule ieee threeCpus pinnedSet pinnedPids = .ok sched ∧
      ¬ RespectsMasks ieee threeCpus pinnedSet.rrtime sched := by
  have escapes : returns (adaptPrepareSchedule ieee threeCpus pinnedSet pinnedPids) (fun sched =>
      decide ((⟨.cont 1, none⟩, ⟨.cont 1, some 0⟩) ∈
        (planOrder ieee sched).zip (adaptPlanSchedule ieee 0 sched).2) &&
      !inMask threeCpus sched.1.conts ((adaptPlanSchedule ieee 0 sched).1.trcs.trcAt 0) (.cont 1)) =
        true := by decide +kernel
  obtain ⟨sched, run, check⟩ := (returns_iff _ _).mp escapes
  refine ⟨sched, run, fun respects => ?_⟩
  rw [Bool.and_eq_true, decide_eq_true_eq, Bool.not_eq_true'] at check
  have placed := (List.forall₂_iff_zip.mp respects).2 check.1 rfl 0 rfl
  exact absurd placed (Bool.eq_false_iff.mp check.2)

end Orchestrator.PlanMasks
