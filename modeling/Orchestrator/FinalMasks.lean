import Orchestrator.MaskWalk

/-!
The masks at the end of `adaptPrepareSchedule`: every element of a configuration
whose links lead into the lists has the mask of its owner.
-/

namespace Orchestrator.FinalMasks
open Orchdata Resmgnt Adaptive Prepare Traversal SettingsOwners Narrowing MaskTree MaskRun MaskWalk
open ParseConfig

section Lists
variable {numa : Numa} {default : Bitmask} {conts : Containers} {masks : Holder → Option Bitmask}
variable {fp : Rounding} {rrtime : Int}

theorem prepare_solo_masks (hier : Hierarchy conts) (unnarrowed : Unnarrowed numa default conts)
    {c : Nat} {sched next : Schedule}
    (steps : prepareSolo fp numa rrtime default sched c = .ok next)
    (run : Masks default conts sched.1 masks) (listed : c ∈ conts.cont)
    (global : masks .defaults = globalMask numa default conts) :
    Masks default conts next.1
        (settled (target numa default conts)
          ((soloConts conts [c]).flatMap (contHolders conts)) masks) ∧
      ∀ x ∈ soloConts conts [c], ContFits numa default conts x := by
  rw [prepareSolo, kept_cont_img run.kept] at steps
  cases image : (conts.contAt c).img with
  | some i =>
      simp only [image, Option.isSome_some, if_true] at steps
      cases steps
      have skipped : soloConts conts [c] = [] := by simp [soloConts, image]
      rw [skipped]
      exact ⟨run, fun _ member => by cases member⟩
  | none =>
      simp only [image, Option.isSome_none, Bool.false_eq_true, if_false] at steps
      obtain ⟨inner, prepared, steps⟩ := bind_ok steps
      obtain ⟨fixed, fixes, steps⟩ := bind_ok steps
      cases steps
      have visited : soloConts conts [c] = [c] := by simp [soloConts, image]
      have begins : Begins numa default conts masks none c := by
        rw [Begins, contBase, contOwner, image]
        cases (conts.contAt c).status.shrc with
        | true => exact global.symm
        | false => rfl
      obtain ⟨done, _, fits⟩ := cont_fixed_masks hier unnarrowed prepared fixes run listed
        (.inl image) begins
      have same : settled (contValues numa default conts) (contHolders conts c) masks =
          settled (target numa default conts) (contHolders conts c) masks := by
        apply settled_congr
        intro user member
        rcases List.mem_cons.mp member with rfl | inside
        · rfl
        · obtain ⟨p, lists, rfl⟩ := List.mem_map.mp inside
          rw [target, contValues, pid_dep_cont hier listed lists]
          intro i known owned
          cases image.symm.trans (hier.imgConts i known c owned).2
      rw [visited, List.flatMap_singleton, ← same]
      exact ⟨done, fun x member => List.mem_singleton.mp member ▸ fits⟩

theorem solo_masks (hier : Hierarchy conts) (unnarrowed : Unnarrowed numa default conts)
    {cs : List Nat} {sched next : Schedule}
    (steps : cs.foldlM (prepareSolo fp numa rrtime default) sched = .ok next)
    (run : Masks default conts sched.1 masks) (listed : ∀ c ∈ cs, c ∈ conts.cont)
    (global : masks .defaults = globalMask numa default conts) :
    Masks default conts next.1
        (settled (target numa default conts) ((soloConts conts cs).flatMap (contHolders conts))
          masks) ∧
      ∀ x ∈ soloConts conts cs, ContFits numa default conts x := by
  have all := fold_rule (prepareSolo fp numa rrtime default)
    (fun sched cs next => ∀ masks, Masks default conts sched.1 masks →
      masks .defaults = globalMask numa default conts → (∀ c ∈ cs, c ∈ conts.cont) →
      Masks default conts next.1
          (settled (target numa default conts) ((soloConts conts cs).flatMap (contHolders conts))
            masks) ∧
        ∀ x ∈ soloConts conts cs, ContFits numa default conts x)
    ?_ ?_ cs sched next steps
  · exact all masks run global listed
  · intro sched masks run _ _
    exact ⟨run, fun _ member => by cases member⟩
  · intro sched c middle rest finish step tail masks run global listed
    obtain ⟨first, fits⟩ := prepare_solo_masks hier unnarrowed step run
      (listed c List.mem_cons_self) global
    have outside : .defaults ∉ (soloConts conts [c]).flatMap (contHolders conts) := by
      simp [contHolders]
    obtain ⟨second, more⟩ := tail _ first ((settled_out outside).trans global)
      fun other member => listed other (List.mem_cons_of_mem c member)
    have split : soloConts conts (c :: rest) = soloConts conts [c] ++ soloConts conts rest := by
      rw [soloConts, soloConts, soloConts, ← List.filter_append, List.singleton_append]
    rw [← settled_append, ← List.flatMap_append, ← split] at second
    refine ⟨second, fun x member => ?_⟩
    rw [split] at member
    exact (List.mem_append.mp member).elim (fits x) (more x)

theorem lone_dep {p : Nat} (image : (conts.pidcAt p).img = none) (cont : (conts.pidcAt p).cont = none) :
    pidDep numa default conts p = none := by
  rw [pidDep, image, contDep, cont]

theorem owner_lone {p : Nat} (image : (conts.pidcAt p).img = none)
    (cont : (conts.pidcAt p).cont = none) :
    owner conts (.pid p) = if (conts.pidcAt p).status.shrc then .defaults else .pid p := by
  rw [owner, pidAbove, image, cont]
  rfl

theorem prepare_pid_masks (hier : Hierarchy conts) {p : Nat} {sched next : Schedule}
    (steps : preparePid fp numa rrtime default sched p = .ok next)
    (run : Masks default conts sched.1 masks) (listed : p ∈ conts.pids)
    (global : masks .defaults = globalMask numa default conts) :
    Masks default conts next.1
        (settled (target numa default conts) ((lonePids conts [p]).map Holder.pid) masks) ∧
      ∀ x ∈ lonePids conts [p], Fits default (finalMask conts numa default (.pid x)) := by
  rw [preparePid, kept_pidc_img run.kept, kept_pidc_cont run.kept] at steps
  by_cases part : ((conts.pidcAt p).img.isSome || (conts.pidcAt p).cont.isSome) = true
  · rw [if_pos part] at steps
    cases steps
    have skipped : lonePids conts [p] = [] := by
      simpa [lonePids, Option.isSome_iff_ne_none, or_iff_not_imp_left] using part
    rw [skipped]
    exact ⟨run, fun _ member => by cases member⟩
  · rw [if_neg part] at steps
    obtain ⟨fixed, fixes, steps⟩ := bind_ok steps
    cases steps
    obtain ⟨image, cont⟩ : (conts.pidcAt p).img = none ∧ (conts.pidcAt p).cont = none := by
      simpa using part
    have visited : lonePids conts [p] = [p] := by simp [lonePids, image, cont]
    have pushed := run.push hier numa (known_pid listed) none
    have wrote : Function.update masks (.pid p) (ownMask numa default conts (.pid p) none) =
        settled (target numa default conts) [.pid p] masks := by
      funext user
      by_cases this : user = .pid p
      · rw [this, Function.update_self, settled_in List.mem_cons_self, target, lone_dep image cont]
      · rw [Function.update_of_ne this, settled_out (by simpa using this)]
    rw [show holder (.pid p) = .pid p from rfl, wrote] at pushed
    obtain ⟨placed, fits⟩ := pushed.fix hier (known_pid listed) fixes
    rw [visited]
    refine ⟨placed, fun x member => ?_⟩
    rw [List.mem_singleton.mp member, finalMask]
    rw [owner_lone image cont] at fits ⊢
    cases shared : (conts.pidcAt p).status.shrc with
    | true =>
        rw [shared, if_pos rfl, settled_out (by simp), global] at fits
        exact fits
    | false =>
        rw [shared, if_neg Bool.false_ne_true, settled_in List.mem_cons_self] at fits
        exact fits

theorem lone_masks (hier : Hierarchy conts) {ps : List Nat} {sched next : Schedule}
    (steps : ps.foldlM (preparePid fp numa rrtime default) sched = .ok next)
    (run : Masks default conts sched.1 masks) (listed : ∀ p ∈ ps, p ∈ conts.pids)
    (global : masks .defaults = globalMask numa default conts) :
    Masks default conts next.1
        (settled (target numa default conts) ((lonePids conts ps).map Holder.pid) masks) ∧
      ∀ x ∈ lonePids conts ps, Fits default (finalMask conts numa default (.pid x)) := by
  have all := fold_rule (preparePid fp numa rrtime default)
    (fun sched ps next => ∀ masks, Masks default conts sched.1 masks →
      masks .defaults = globalMask numa default conts → (∀ p ∈ ps, p ∈ conts.pids) →
      Masks default conts next.1
          (settled (target numa default conts) ((lonePids conts ps).map Holder.pid) masks) ∧
        ∀ x ∈ lonePids conts ps, Fits default (finalMask conts numa default (.pid x)))
    ?_ ?_ ps sched next steps
  · exact all masks run global listed
  · intro sched masks run _ _
    exact ⟨run, fun _ member => by cases member⟩
  · intro sched p middle rest finish step tail masks run global listed
    obtain ⟨first, fits⟩ := prepare_pid_masks hier step run (listed p List.mem_cons_self) global
    have outside : .defaults ∉ (lonePids conts [p]).map Holder.pid := by simp
    obtain ⟨second, more⟩ := tail _ first ((settled_out outside).trans global)
      fun other member => listed other (List.mem_cons_of_mem p member)
    have split : lonePids conts (p :: rest) = lonePids conts [p] ++ lonePids conts rest := by
      rw [lonePids, lonePids, lonePids, ← List.filter_append, List.singleton_append]
    rw [← settled_append, ← List.map_append, ← split] at second
    refine ⟨second, fun x member => ?_⟩
    rw [split] at member
    exact (List.mem_append.mp member).elim (fits x) (more x)

end Lists

section Run
variable {fp : Rounding} {numa : Numa} {set : PrgSet} {conts : Containers} {default : Bitmask}
variable {sched : Schedule}

/-- The holders whose elements the three loops reach. -/
def visited (conts : Containers) : List Holder :=
  conts.img.flatMap (imgHolders conts) ++
    ((soloConts conts conts.cont).flatMap (contHolders conts) ++
      (lonePids conts conts.pids).map Holder.pid)

/-- The mask the resources of a holder begin with. -/
def firstMask (conts : Containers) (user : Holder) : Option Bitmask :=
  (parmsOf conts user).bind fun settings => (conts.rscsAt settings.rscs).affinityMask

/-- What the run settles, and the masks it met that fit. -/
structure MaskPrepared (numa : Numa) (default : Bitmask) (conts : Containers) (state : Globals) :
    Prop where
  masks : ∃ masks, Masks default conts state masks ∧
    masks .defaults = globalMask numa default conts ∧
    (∀ user ∈ visited conts, masks user = target numa default conts user) ∧
    ∀ user ∉ visited conts, user ≠ .defaults → masks user = firstMask conts user
  img : ∀ i ∈ conts.img, ImgFits numa default conts i
  solo : ∀ c ∈ soloConts conts conts.cont, ContFits numa default conts c
  lone : ∀ p ∈ lonePids conts conts.pids, Fits default (finalMask conts numa default (.pid p))

theorem start_masks (numa : Numa) (default : Bitmask) (hier : Hierarchy conts) :
    ∃ masks, Masks default conts
        ⟨conts.setRscs conts.rscs
            (createAffinityMask numa default (conts.rscsAt conts.rscs) none),
          createResTracer numa.size default⟩ masks ∧
      masks .defaults = globalMask numa default conts ∧
      ∀ user ≠ .defaults, masks user = firstMask conts user := by
  have first : Masks default conts ⟨conts, createResTracer numa.size default⟩ (firstMask conts) :=
    { kept := kept_refl conts
      rscs := rfl
      mask := fun holder settings owns => by rw [firstMask, owns.1]; rfl
      heads := fun trc member => of_decide_eq_true (List.mem_filter.mp member).2
      tracer := fun _ => rfl }
  exact ⟨_, first.write hier (owns_defaults conts)
    (create_affinity_mask_same numa default (conts.rscsAt conts.rscs) none),
    Function.update_self _ _ _, fun user other => Function.update_of_ne other _ _⟩

theorem prepared_masks (hier : Hierarchy conts) (unnarrowed : Unnarrowed numa default conts)
    (mask : set.affinityMask = some default)
    (steps : adaptPrepareSchedule fp numa set conts = .ok sched) :
    MaskPrepared numa default conts sched.1 := by
  rw [adaptPrepareSchedule, mask] at steps
  obtain ⟨images, imgSteps, steps⟩ := bind_ok steps
  obtain ⟨solo, soloSteps, loneSteps⟩ := bind_ok steps
  obtain ⟨masks, start, global, others⟩ := start_masks numa default hier
  obtain ⟨first, imgFits⟩ := images_masks hier unnarrowed imgSteps start (fun _ member => member) global
  have imgOut : .defaults ∉ conts.img.flatMap (imgHolders conts) := by
    simp [imgHolders, contHolders]
  have soloOut : .defaults ∉ (soloConts conts conts.cont).flatMap (contHolders conts) := by
    simp [contHolders]
  have loneOut : .defaults ∉ (lonePids conts conts.pids).map Holder.pid := by simp
  have firstGlobal : settled (target numa default conts) (conts.img.flatMap (imgHolders conts)) masks
      .defaults = globalMask numa default conts := (settled_out imgOut).trans global
  obtain ⟨second, soloFits⟩ := solo_masks hier unnarrowed soloSteps first (fun _ member => member)
    firstGlobal
  obtain ⟨third, loneFits⟩ := lone_masks hier loneSteps second (fun _ member => member)
    ((settled_out soloOut).trans firstGlobal)
  rw [← settled_append, ← settled_append] at third
  refine ⟨⟨_, third, ?_, fun user member => settled_in member, fun user outside other =>
    (settled_out outside).trans (others user other)⟩, imgFits, soloFits, loneFits⟩
  apply (settled_out ?_).trans global
  simp only [List.mem_append, not_or]
  exact ⟨imgOut, soloOut, loneOut⟩

end Run

/-- The container of a PID lists it. -/
def PidsHeld (conts : Containers) : Prop :=
  ∀ p ∈ conts.pids, ∀ ptr, (conts.pidcAt p).cont = some ptr →
    (∃ c ∈ conts.cont, ptr = .cont c ∧ p ∈ (conts.contAt c).pids) ∨
      ∃ i ∈ conts.img, ptr = .img i ∧ p ∈ (conts.imgAt i).pids

/-- Links lead into the lists, and the containers of an image's PIDs are its own. -/
structure Reached (conts : Containers) : Prop where
  contImg : ∀ c ∈ conts.cont, ∀ i, (conts.contAt c).img = some i →
    i ∈ conts.img ∧ c ∈ (conts.imgAt i).conts
  pidCont : PidsHeld conts
  pidImg : ∀ p ∈ conts.pids, ∀ i, (conts.pidcAt p).img = some i → i ∈ conts.img ∧
    ((conts.pidcAt p).cont = none → p ∈ (conts.imgAt i).pids) ∧
    ∀ c, (conts.pidcAt p).cont = some (.cont c) → (conts.contAt c).img = some i

section Parsed
variable {root : Json} {conts : Containers}

theorem parsed_above (built : ConfigGraph.Built conts) {holder : Holder} {parm : Parm}
    (found : parmsOf conts holder = some parm) :
    above conts holder = ParsedSettings.above conts holder := by
  cases holder with
  | defaults => rfl
  | img i => rfl
  | cont c => rfl
  | pid p =>
      rw [above, ParsedSettings.above, pidAbove]
      rcases built.owners p (Option.ite_none_right_eq_some.mp found).1 with
        ⟨cont, image⟩ | ⟨c, _, cont, _⟩ | ⟨i, _, cont, _⟩
      · rw [cont, image]
        rfl
      · rw [cont]
        rfl
      · rw [cont]
        rfl

/-- The parser builds hierarchies. -/
theorem parsed_hierarchy (run : parseConfig root {} = .ok conts) : Hierarchy conts := by
  obtain ⟨built, _, _⟩ := ConfigGraph.parse_config_grown root conts run
  obtain ⟨clean, shares⟩ := ParsedSettings.parse_config_settled run
  constructor
  · intro i known c member
    rw [built.imgConts i known] at member
    cases member
  · intro c known p member
    exact ((built.contPids c known).2 p).mp member
  · intro i known p member
    obtain ⟨listed, cont⟩ := ((built.imgPids i known).2 p).mp member
    rcases built.owners p listed with ⟨none, _⟩ | ⟨c, _, other, _⟩ | ⟨j, _, same, image⟩
    · cases cont.symm.trans none
    · cases cont.symm.trans other
    · cases cont.symm.trans same
      exact ⟨listed, image, fun ptr found => .inl (Option.some.inj (found.symm.trans cont))⟩
  · intro holder parm found shared
    obtain ⟨upper, known, inherits⟩ := shares holder parm found
    rw [← parsed_above built found] at known
    exact ⟨upper, known, inherits.rscs shared⟩
  · exact clean.owners.rscs

theorem parsed_pids_held (built : ConfigGraph.Built conts) : PidsHeld conts := by
  intro p listed ptr cont
  rcases built.owners p listed with ⟨none, _⟩ | ⟨c, known, same, _⟩ | ⟨i, known, same, _⟩
  · cases cont.symm.trans none
  · cases cont.symm.trans same
    exact .inl ⟨c, known, rfl, ((built.contPids c known).2 p).mpr ⟨listed, same⟩⟩
  · cases cont.symm.trans same
    exact .inr ⟨i, known, rfl, ((built.imgPids i known).2 p).mpr ⟨listed, same⟩⟩

/-- Without containers nested in images every element is reached. -/
theorem parsed_reached (run : parseConfig root {} = .ok conts)
    (flat : ¬ ConfigGraph.NestsContainers root) : Reached conts := by
  obtain ⟨built, nested, _⟩ := ConfigGraph.parse_config_grown root conts run
  rw [← nested] at flat
  constructor
  · intro c known i image
    exact absurd ⟨c, known, by rw [image]; simp⟩ flat
  · exact parsed_pids_held built
  · intro p listed i image
    rcases built.owners p listed with ⟨_, none⟩ | ⟨c, known, same, inside⟩ | ⟨j, known, same, inside⟩
    · cases image.symm.trans none
    · exact absurd ⟨c, known, by rw [← inside, image]; simp⟩ flat
    · cases image.symm.trans inside
      refine ⟨known, fun none => ?_, fun c cont => ?_⟩
      · cases none.symm.trans same
      · cases cont.symm.trans same

end Parsed

section Mutual
variable {conts : Containers}

/-- Links that are mutual make a hierarchy that is reached, if the settings fit in. -/
theorem mutual_hierarchy (linked : MutualLinks.Mutual conts)
    (nested : ∀ p ∈ conts.pids, ∀ i c, (conts.pidcAt p).img = some i →
      (conts.pidcAt p).cont = some (.cont c) → (conts.contAt c).img = some i)
    (shares : ∀ holder parm, parmsOf conts holder = some parm → parm.status.shrc = true →
      ∃ upper, parmsOf conts (above conts holder) = some upper ∧ parm.rscs = upper.rscs)
    (owners : Ownership.SingleOwner (rscsRefs conts)) : Hierarchy conts ∧ Reached conts := by
  refine ⟨⟨fun i known c => (linked.imgConts i known c).mp,
    fun c known p => (linked.contPids c known p).mp, fun i known p member => ?_, shares, owners⟩, ?_⟩
  · obtain ⟨listed, image⟩ := (linked.imgPids i known p).mp member
    refine ⟨listed, image, fun ptr cont => .inr ?_⟩
    obtain ⟨c, held, rfl⟩ := linked.pidCont p listed ptr cont
    exact ⟨c, (linked.imgConts i known c).mpr ⟨held, nested p listed i c image cont⟩, rfl⟩
  · constructor
    · intro c held i image
      have known := linked.contImg c held i image
      exact ⟨known, (linked.imgConts i known c).mpr ⟨held, image⟩⟩
    · intro p listed ptr cont
      obtain ⟨c, held, rfl⟩ := linked.pidCont p listed ptr cont
      exact .inl ⟨c, held, rfl, (linked.contPids c held p).mpr ⟨listed, cont⟩⟩
    · intro p listed i image
      have known := linked.pidImg p listed i image
      exact ⟨known, fun _ => (linked.imgPids i known p).mpr ⟨listed, image⟩,
        fun c cont => nested p listed i c image cont⟩

end Mutual

section Ends
variable {numa : Numa} {default : Bitmask} {conts : Containers} {state : Globals}

theorem img_visited {i : Nat} (listed : i ∈ conts.img) {user : Holder}
    (member : user ∈ imgHolders conts i) : user ∈ visited conts :=
  List.mem_append_left _ (List.mem_flatMap_of_mem listed member)

theorem cont_visited (reached : Reached conts) {c : Nat} (listed : c ∈ conts.cont) {user : Holder}
    (member : user ∈ contHolders conts c) : user ∈ visited conts := by
  cases image : (conts.contAt c).img with
  | none =>
      have solo : c ∈ soloConts conts conts.cont := by simp [soloConts, listed, image]
      exact List.mem_append_right _ (List.mem_append_left _ (List.mem_flatMap_of_mem solo member))
  | some i =>
      obtain ⟨known, inside⟩ := reached.contImg c listed i image
      exact img_visited known (inner_listed inside member)

/-- Where a PID is reached. -/
theorem pid_reached (reached : Reached conts) {p : Nat} (listed : p ∈ conts.pids) :
    (∃ i ∈ conts.img, p ∈ (conts.imgAt i).pids) ∨
      (∃ c ∈ conts.cont, p ∈ (conts.contAt c).pids) ∨ p ∈ lonePids conts conts.pids := by
  cases cont : (conts.pidcAt p).cont with
  | some ptr =>
      rcases reached.pidCont p listed ptr cont with ⟨c, known, _, member⟩ | ⟨i, known, _, member⟩
      · exact .inr (.inl ⟨c, known, member⟩)
      · exact .inl ⟨i, known, member⟩
  | none =>
      cases image : (conts.pidcAt p).img with
      | some i =>
          obtain ⟨known, direct, _⟩ := reached.pidImg p listed i image
          exact .inl ⟨i, known, direct cont⟩
      | none => exact .inr (.inr (by simp [lonePids, listed, image, cont]))

theorem pid_visited (reached : Reached conts) {p : Nat} (listed : p ∈ conts.pids) :
    .pid p ∈ visited conts := by
  rcases pid_reached reached listed with ⟨i, known, member⟩ | ⟨c, known, member⟩ | lone
  · exact img_visited known (direct_listed member)
  · exact cont_visited reached known (member_listed member)
  · exact List.mem_append_right _ (List.mem_append_right _ (List.mem_map_of_mem lone))

theorem img_owner_visited {i : Nat} (listed : i ∈ conts.img) :
    imgOwner conts i = .defaults ∨ imgOwner conts i ∈ visited conts := by
  rcases img_owner_flag conts i with ⟨_, same⟩ | ⟨_, same⟩
  · exact .inr (same ▸ img_visited listed (img_listed conts i))
  · exact .inl same

theorem cont_owner_visited (reached : Reached conts) {c : Nat} (listed : c ∈ conts.cont) :
    contOwner conts c = .defaults ∨ contOwner conts c ∈ visited conts := by
  rw [contOwner]
  cases (conts.contAt c).status.shrc with
  | false => exact .inr (cont_visited reached listed (cont_listed conts c))
  | true =>
      cases image : (conts.contAt c).img with
      | none => exact .inl rfl
      | some i => exact img_owner_visited (reached.contImg c listed i image).1

theorem owner_visited (reached : Reached conts) {item : Item} (known : Known conts item) :
    owner conts item = .defaults ∨ owner conts item ∈ visited conts := by
  cases item with
  | img i => exact img_owner_visited (Option.ite_none_right_eq_some.mp known).1
  | cont c => exact cont_owner_visited reached (Option.ite_none_right_eq_some.mp known).1
  | pid p =>
      have listed := (Option.ite_none_right_eq_some.mp known).1
      rw [owner]
      cases (conts.pidcAt p).status.shrc with
      | false => exact .inr (pid_visited reached listed)
      | true =>
          rw [if_pos rfl, pidAbove]
          cases cont : (conts.pidcAt p).cont with
          | some ptr =>
              rcases reached.pidCont p listed ptr cont with ⟨c, inside, rfl, _⟩ | ⟨i, inside, rfl, _⟩
              · exact cont_owner_visited reached inside
              · exact img_owner_visited inside
          | none =>
              cases image : (conts.pidcAt p).img with
              | none => exact .inl rfl
              | some i => exact img_owner_visited (reached.pidImg p listed i image).1

/-- The mask of every element at the end. -/
theorem MaskPrepared.ends (prepared : MaskPrepared numa default conts state)
    (hier : Hierarchy conts) (reached : Reached conts) {item : Item} (known : Known conts item) :
    maskOf state.conts item = finalMask conts numa default item := by
  obtain ⟨masks, run, global, settles, _⟩ := prepared.masks
  rw [run.seen hier known, finalMask]
  rcases owner_visited reached known with same | member
  · rw [same, global]
    rfl
  · exact settles _ member

theorem img_final (i : Nat) : finalMask conts numa default (.img i) = imgMask numa default conts i := by
  rw [finalMask, owner]
  rcases img_owner_flag conts i with ⟨_, same⟩ | ⟨shared, same⟩
  · rw [same, target]
  · rw [same, img_mask_shared shared, imgBase, shared]
    rfl

/-- Parts that include the whole leave it. -/
theorem narrowed_mask_whole {mask : Option Bitmask} {parts : List (Option Bitmask)}
    (member : mask ∈ parts) : narrowedMask mask parts = mask := by
  cases mask with
  | none => rfl
  | some whole =>
      have covers := subset_union (List.mem_map_of_mem (f := fun part => part.getD ∅) member)
      exact congrArg some (narrowed_covered covers)

theorem img_mask_whole {i : Nat}
    (member : imgBase numa default conts i ∈ imgParts numa default conts i) :
    imgMask numa default conts i = imgBase numa default conts i := by
  rw [imgMask, narrowed_mask_whole member, ite_self]

/-- A container that shares the resources of its image keeps them whole. -/
theorem cont_final (reached : Reached conts) {c : Nat} (listed : c ∈ conts.cont) :
    finalMask conts numa default (.cont c) = contMask numa default conts c := by
  rw [finalMask, owner, contOwner]
  cases shared : (conts.contAt c).status.shrc with
  | false => rfl
  | true =>
      rw [cont_mask_shared shared, contBase]
      cases image : (conts.contAt c).img with
      | none => rw [shared]; rfl
      | some i =>
          have base : contMask numa default conts c = imgBase numa default conts i := by
            rw [cont_mask_shared shared, contBase, image, shared]
            rfl
          have part : imgBase numa default conts i ∈ imgParts numa default conts i := by
            rw [← base]
            exact List.mem_append_left _ (List.mem_map_of_mem (reached.contImg c listed i image).2)
          rw [shared]
          exact (img_final i).trans (img_mask_whole part)

theorem MaskPrepared.img_fits (prepared : MaskPrepared numa default conts state) {i : Nat}
    (listed : i ∈ conts.img) : Fits default (finalMask conts numa default (.img i)) := by
  rw [img_final]
  exact (prepared.img i listed).mask

theorem MaskPrepared.inner_fits (prepared : MaskPrepared numa default conts state)
    (reached : Reached conts) {c : Nat} (listed : c ∈ conts.cont) : ContFits numa default conts c := by
  cases image : (conts.contAt c).img with
  | none => exact prepared.solo c (by simp [soloConts, listed, image])
  | some i =>
      obtain ⟨known, inside⟩ := reached.contImg c listed i image
      exact (prepared.img i known).inner c inside

theorem MaskPrepared.cont_fits (prepared : MaskPrepared numa default conts state)
    (reached : Reached conts) {c : Nat} (listed : c ∈ conts.cont) :
    Fits default (finalMask conts numa default (.cont c)) := by
  have fits := (prepared.inner_fits reached listed).1
  rw [finalMask, owner, contOwner]
  cases shared : (conts.contAt c).status.shrc with
  | false => exact fits
  | true =>
      cases image : (conts.contAt c).img with
      | some i => exact prepared.img_fits (reached.contImg c listed i image).1
      | none =>
          rw [cont_mask_shared shared, contBase, image, shared] at fits
          exact fits

/-- A PID with resources of its own, where it is prepared last. -/
theorem MaskPrepared.pid_fits (prepared : MaskPrepared numa default conts state)
    (hier : Hierarchy conts) (reached : Reached conts) {p : Nat} (listed : p ∈ conts.pids)
    (own : (conts.pidcAt p).status.shrc = false) :
    Fits default (target numa default conts (.pid p)) := by
  by_cases direct : ∃ i ∈ conts.img, p ∈ (conts.imgAt i).pids
  · obtain ⟨i, known, member⟩ := direct
    rw [target, pid_dep_direct hier known member]
    exact (prepared.img i known).direct p member own
  · rcases pid_reached reached listed with inside | ⟨c, known, member⟩ | lone
    · exact absurd inside direct
    · rw [target, pid_dep_cont hier known member fun i image _ inside => direct ⟨i, image, inside⟩]
      exact (prepared.inner_fits reached known).2 p member own
    · have fits := prepared.lone p lone
      rw [finalMask, owner, own] at fits
      exact fits

theorem MaskPrepared.fits (prepared : MaskPrepared numa default conts state)
    (hier : Hierarchy conts) (reached : Reached conts) {item : Item} (known : Known conts item) :
    Fits default (finalMask conts numa default item) := by
  cases item with
  | img i => exact prepared.img_fits (Option.ite_none_right_eq_some.mp known).1
  | cont c => exact prepared.cont_fits reached (Option.ite_none_right_eq_some.mp known).1
  | pid p =>
      have listed := (Option.ite_none_right_eq_some.mp known).1
      cases shared : (conts.pidcAt p).status.shrc with
      | false =>
          rw [finalMask, owner, shared]
          exact prepared.pid_fits hier reached listed shared
      | true =>
          cases cont : (conts.pidcAt p).cont with
          | some ptr =>
              rw [finalMask, owner, shared, if_pos rfl, pidAbove, cont]
              rcases reached.pidCont p listed ptr cont with ⟨c, inside, rfl, _⟩ | ⟨i, inside, rfl, _⟩
              · exact prepared.cont_fits reached inside
              · exact prepared.img_fits inside
          | none =>
              cases image : (conts.pidcAt p).img with
              | none => exact prepared.lone p (by simp [lonePids, listed, image, cont])
              | some i =>
                  rw [finalMask, owner, shared, if_pos rfl, pidAbove, cont, image]
                  exact prepared.img_fits (reached.pidImg p listed i image).1

end Ends

end Orchestrator.FinalMasks
