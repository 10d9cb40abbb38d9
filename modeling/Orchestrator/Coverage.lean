import Mathlib.Data.List.Count
import Orchestrator.Links
import Orchestrator.Prepare

/-!
Which elements of a parsed configuration `adaptPrepareSchedule` reaches. Its
three loops skip what belongs to an image or a container, and the containers of
an image are reached through the image's own list only.
-/

namespace Orchestrator.Coverage
open Orchdata Resmgnt Adaptive ParseConfig ConfigGraph Prepare Traversal

/-- The elements of a configuration. -/
def IsElement (conts : Containers) : Item → Prop
  | .img i => i ∈ conts.img
  | .cont c => c ∈ conts.cont
  | .pid p => p ∈ conts.pids

/-- Every element has exactly one allocation, and a mask. -/
def Covered (contparm : Containers) (sched : Schedule) : Prop :=
  ∀ item, IsElement contparm item →
    (sched.2.map ResAlloc.item).count item = 1 ∧ (maskOf sched.1.conts item).isSome

section Items
variable {conts : Containers}

theorem mem_pid_items (pids : List Nat) (item : Item) :
    item ∈ pidItems pids ↔ ∃ p ∈ pids, item = .pid p := by
  simp [pidItems, eq_comm]

theorem mem_cont_items (c : Nat) (item : Item) :
    item ∈ contItems conts c ↔ (∃ p ∈ (conts.contAt c).pids, item = .pid p) ∨ item = .cont c := by
  simp [contItems, mem_pid_items]

theorem mem_conts_items (cs : List Nat) (item : Item) :
    item ∈ contsItems conts cs ↔
      ∃ c ∈ cs, (∃ p ∈ (conts.contAt c).pids, item = .pid p) ∨ item = .cont c := by
  simp [contsItems, mem_cont_items]

theorem img_items_built (built : Built conts) (i : Nat) (member : i ∈ conts.img) :
    imgItems conts i = pidItems (conts.imgAt i).pids ++ [.img i] := by
  simp [imgItems, built.imgConts i member, contsItems]

theorem mem_imgs_items (built : Built conts) (item : Item) :
    item ∈ conts.img.reverse.flatMap (imgItems conts) ↔
      ∃ i ∈ conts.img, (∃ p ∈ (conts.imgAt i).pids, item = .pid p) ∨ item = .img i := by
  rw [List.mem_flatMap]
  constructor
  · rintro ⟨i, member, inside⟩
    rw [List.mem_reverse] at member
    rw [img_items_built built i member, List.mem_append, mem_pid_items, List.mem_singleton] at inside
    exact ⟨i, member, inside⟩
  · rintro ⟨i, member, inside⟩
    refine ⟨i, List.mem_reverse.mpr member, ?_⟩
    rw [img_items_built built i member, List.mem_append, mem_pid_items, List.mem_singleton]
    exact inside

/-- The elements that get an allocation, by kind. -/
theorem mem_prepared_items (built : Built conts) (item : Item) :
    item ∈ preparedItems conts ↔
      (∃ p ∈ lonePids conts conts.pids, item = .pid p) ∨
        (∃ c ∈ soloConts conts conts.cont,
          (∃ p ∈ (conts.contAt c).pids, item = .pid p) ∨ item = .cont c) ∨
        ∃ i ∈ conts.img, (∃ p ∈ (conts.imgAt i).pids, item = .pid p) ∨ item = .img i := by
  rw [preparedItems, List.mem_append, List.mem_append, mem_pid_items, mem_conts_items,
    mem_imgs_items built]

theorem pid_items_nodup {pids : List Nat} (nodup : pids.Nodup) : (pidItems pids).Nodup := by
  have injective : Function.Injective Item.pid := fun _ _ same => by cases same; rfl
  exact List.nodup_reverse.mpr (nodup.map injective)

theorem pids_unit_nodup {pids : List Nat} (nodup : pids.Nodup) (item : Item)
    (owner : ∀ p, item ≠ .pid p) : (pidItems pids ++ [item]).Nodup := by
  refine (pid_items_nodup nodup).append (List.nodup_singleton item) fun other inside single => ?_
  obtain ⟨p, _, same⟩ := (mem_pid_items pids other).mp inside
  exact owner p ((List.mem_singleton.mp single).symm.trans same)

theorem cont_link (built : Built conts) {c p : Nat} (known : c ∈ conts.cont)
    (listed : p ∈ (conts.contAt c).pids) : (conts.pidcAt p).cont = some (.cont c) :=
  (((built.contPids c known).2 p).mp listed).2

theorem img_link (built : Built conts) {i p : Nat} (known : i ∈ conts.img)
    (listed : p ∈ (conts.imgAt i).pids) : (conts.pidcAt p).cont = some (.img i) :=
  (((built.imgPids i known).2 p).mp listed).2

/-- Two owners that share no PID. -/
theorem units_disjoint {left right : List Nat} {owner other : Item}
    (pids : ∀ p ∈ left, p ∉ right) (owners : owner ≠ other) (named : ∀ p, owner ≠ .pid p)
    (otherNamed : ∀ p, other ≠ .pid p) :
    (pidItems left ++ [owner]).Disjoint (pidItems right ++ [other]) := by
  intro item first second
  rw [List.mem_append, mem_pid_items, List.mem_singleton] at first second
  rcases first with ⟨p, listed, same⟩ | same
  · rcases second with ⟨q, also, link⟩ | link
    · cases same.symm.trans link
      exact pids p listed also
    · exact otherNamed p (link.symm.trans same)
  · rcases second with ⟨q, _, link⟩ | link
    · exact named q (same.symm.trans link)
    · exact owners (same.symm.trans link)

theorem solo_member (cs : List Nat) (c : Nat) :
    c ∈ soloConts conts cs ↔ c ∈ cs ∧ (conts.contAt c).img = none := by
  simp [soloConts]

theorem lone_member (ps : List Nat) (p : Nat) :
    p ∈ lonePids conts ps ↔
      p ∈ ps ∧ (conts.pidcAt p).img = none ∧ (conts.pidcAt p).cont = none := by
  simp [lonePids]

theorem conts_items_nodup (built : Built conts) :
    (contsItems conts (soloConts conts conts.cont)).Nodup := by
  rw [contsItems, List.nodup_flatMap]
  constructor
  · intro c member
    rw [List.mem_reverse, solo_member] at member
    exact pids_unit_nodup (built.contPids c member.1).1 (.cont c) (by simp)
  · rw [List.pairwise_reverse]
    refine (built.contNodup.filter _).imp_of_mem fun {c d} left right apart => ?_
    have inside : c ∈ conts.cont := (List.mem_filter.mp left).1
    have other : d ∈ conts.cont := (List.mem_filter.mp right).1
    refine units_disjoint (fun p listed also => ?_) (by simpa [eq_comm] using apart) (by simp)
      (by simp)
    cases (cont_link built other listed).symm.trans (cont_link built inside also)
    exact apart rfl

theorem imgs_items_nodup (built : Built conts) :
    (conts.img.reverse.flatMap (imgItems conts)).Nodup := by
  rw [List.nodup_flatMap]
  constructor
  · intro i member
    rw [List.mem_reverse] at member
    rw [img_items_built built i member]
    exact pids_unit_nodup (built.imgPids i member).1 (.img i) (by simp)
  · rw [List.pairwise_reverse]
    refine built.imgNodup.imp_of_mem fun {i j} inside other apart => ?_
    rw [Function.onFun, img_items_built built i inside, img_items_built built j other]
    refine units_disjoint (fun p listed also => ?_) (by simpa [eq_comm] using apart) (by simp)
      (by simp)
    cases (img_link built other listed).symm.trans (img_link built inside also)
    exact apart rfl

/-- No element is reached twice. -/
theorem prepared_items_nodup (built : Built conts) : (preparedItems conts).Nodup := by
  have lone := pid_items_nodup (built.pidNodup.filter fun p =>
    (conts.pidcAt p).img.isNone && (conts.pidcAt p).cont.isNone)
  -- the three loops visit elements with different owners
  refine lone.append ((conts_items_nodup built).append (imgs_items_nodup built) ?_) ?_
  · intro item first second
    obtain ⟨c, solo, fromCont⟩ := List.mem_flatMap.mp first
    obtain ⟨i, image, fromImg⟩ := List.mem_flatMap.mp second
    rw [List.mem_reverse] at solo image
    rw [img_items_built built i image] at fromImg
    have known := ((solo_member _ c).mp solo).1
    refine units_disjoint (fun p listed also => ?_) (by simp) (by simp) (by simp) fromCont fromImg
    cases (cont_link built known listed).symm.trans (img_link built image also)
  · intro item first second
    obtain ⟨p, solo, same⟩ := (mem_pid_items _ item).mp first
    have free := ((lone_member _ p).mp solo).2.2
    subst same
    rcases List.mem_append.mp second with inConts | inImgs
    · obtain ⟨c, inside, ⟨q, listed, link⟩ | link⟩ := (mem_conts_items _ _).mp inConts
      · cases link
        cases free.symm.trans (cont_link built ((solo_member _ c).mp inside).1 listed)
      · cases link
    · obtain ⟨i, inside, ⟨q, listed, link⟩ | link⟩ := (mem_imgs_items built _).mp inImgs
      · cases link
        cases free.symm.trans (img_link built inside listed)
      · cases link

/-- Without containers inside of images every element is reached. -/
theorem element_prepared (built : Built conts) (flat : ¬ Nested conts) (item : Item)
    (element : IsElement conts item) : item ∈ preparedItems conts := by
  have solo : ∀ c ∈ conts.cont, c ∈ soloConts conts conts.cont := fun c member => by
    refine (solo_member _ c).mpr ⟨member, ?_⟩
    by_contra inside
    exact flat ⟨c, member, inside⟩
  rw [mem_prepared_items built]
  cases item with
  | img i => exact Or.inr (Or.inr ⟨i, element, Or.inr rfl⟩)
  | cont c => exact Or.inr (Or.inl ⟨c, solo c element, Or.inr rfl⟩)
  | pid p =>
      -- of the root, of a container, of an image
      rcases built.owners p element with ⟨cont, image⟩ | ⟨c, inside, cont, _⟩ | ⟨i, inside, cont, _⟩
      · exact Or.inl ⟨p, (lone_member _ p).mpr ⟨element, image, cont⟩, rfl⟩
      · have listed := ((built.contPids c inside).2 p).mpr ⟨element, cont⟩
        exact Or.inr (Or.inl ⟨c, solo c inside, Or.inl ⟨p, listed, rfl⟩⟩)
      · have listed := ((built.imgPids i inside).2 p).mpr ⟨element, cont⟩
        exact Or.inr (Or.inr ⟨i, inside, Or.inl ⟨p, listed, rfl⟩⟩)

/-- A container inside of an image is not reached. -/
theorem nested_not_prepared (built : Built conts) (c : Nat) (inside : (conts.contAt c).img ≠ none) :
    Item.cont c ∉ preparedItems conts := by
  intro member
  rcases (mem_prepared_items built _).mp member with ⟨p, _, same⟩ | ⟨d, solo, ⟨p, _, same⟩ | same⟩ |
    ⟨i, _, ⟨p, _, same⟩ | same⟩
  · cases same
  · cases same
  · cases same
    exact inside ((solo_member _ c).mp solo).2
  · cases same
  · cases same

end Items

/-- The preparation covers a parsed configuration exactly when no image nests
containers. -/
theorem prepare_covers_iff (fp : Rounding) (numa : Numa) (set : PrgSet) (root : Json)
    (contparm : Containers) (sched : Schedule) (parsed : parseConfig root {} = .ok contparm)
    (run : adaptPrepareSchedule fp numa set contparm = .ok sched) :
    Covered contparm sched ↔ ¬ NestsContainers root := by
  obtain ⟨built, nested, _⟩ := parse_config_grown root contparm parsed
  have prepared := prepared_of_run fp numa set contparm sched run
  rw [← nested]
  constructor
  · rintro covered ⟨c, member, inside⟩
    have once := (covered (.cont c) member).1
    rw [prepared.items, List.count_eq_zero_of_not_mem (nested_not_prepared built c inside)] at once
    cases once
  · intro flat item element
    have reached := element_prepared built flat item element
    refine ⟨?_, ?_⟩
    · rw [prepared.items]
      exact List.count_eq_one_of_mem (prepared_items_nodup built) reached
    · rw [← prepared.items] at reached
      obtain ⟨alloc, inside, same⟩ := List.mem_map.mp reached
      exact same ▸ prepared.masked alloc inside

def twoCpus : Numa := ⟨64, {0, 1}⟩

def adaptiveSet : PrgSet := { affinityMask := some {0, 1}, schedMode := .adaptive }

theorem flat_config_covered :
    ∃ contparm sched, parseConfig (.object [("containers", .array [Links.flatCont])]) {} =
        .ok contparm ∧ adaptPrepareSchedule ieee twoCpus adaptiveSet contparm = .ok sched ∧
      Covered contparm sched := by
  have accepted : returns (parseConfig (.object [("containers", .array [Links.flatCont])]) {})
      (fun contparm => returns (adaptPrepareSchedule ieee twoCpus adaptiveSet contparm)
        (fun _ => true)) = true := by decide +kernel
  obtain ⟨contparm, parsed, returned⟩ := (returns_iff _ _).mp accepted
  obtain ⟨sched, run, _⟩ := (returns_iff _ _).mp returned
  have none : listed (Json.field (.object [("containers", .array [Links.flatCont])]) "images") = [] :=
    rfl
  exact ⟨contparm, sched, parsed, run,
    (prepare_covers_iff ieee twoCpus adaptiveSet _ contparm sched parsed run).mpr
      (by simp [NestsContainers, none])⟩

-- The container inside of the image gets no allocation.
theorem nested_container_skipped :
    ∃ contparm sched, parseConfig Links.nestedCont {} = .ok contparm ∧
      adaptPrepareSchedule ieee twoCpus adaptiveSet contparm = .ok sched ∧
        ¬ Covered contparm sched := by
  have skipped : returns (parseConfig Links.nestedCont {})
      (fun contparm => returns (adaptPrepareSchedule ieee twoCpus adaptiveSet contparm)
        (fun sched => contparm.cont.any fun c =>
          (sched.2.map ResAlloc.item).count (.cont c) != 1)) = true := by decide +kernel
  obtain ⟨contparm, parsed, returned⟩ := (returns_iff _ _).mp skipped
  obtain ⟨sched, run, check⟩ := (returns_iff _ _).mp returned
  obtain ⟨c, member, missed⟩ := List.any_eq_true.mp check
  exact ⟨contparm, sched, parsed, run, fun covered =>
    bne_iff_ne.mp missed (covered (.cont c) member).1⟩

end Orchestrator.Coverage
